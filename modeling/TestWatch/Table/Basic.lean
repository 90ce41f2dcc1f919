/-!
# Tables

Values under keys, in the order in which the keys were first inserted. No key stands in a table
twice, so a key and its value are found by looking the key up.
-/

namespace TestWatch

/-- Values under keys, in the order of their first insertion. -/
structure Table (κ α : Type) where
  entries : List (κ × α)
  nodup : (entries.map Prod.fst).Nodup
  deriving DecidableEq, Repr

namespace Table

variable {κ α : Type}

def empty : Table κ α := ⟨[], .nil⟩

def keys (t : Table κ α) : List κ := t.entries.map Prod.fst

def values (t : Table κ α) : List α := t.entries.map Prod.snd

def size (t : Table κ α) : Nat := t.entries.length

def isEmpty (t : Table κ α) : Bool := t.entries.isEmpty

def mapValues (f : α → α) (t : Table κ α) : Table κ α :=
  ⟨t.entries.map fun e => (e.1, f e.2), by simpa [Function.comp_def] using t.nodup⟩

@[simp] theorem values_empty : (empty : Table κ α).values = [] := rfl

@[simp] theorem length_values (t : Table κ α) : t.values.length = t.size := by
  simp [values, size]

@[simp] theorem keys_mapValues (f : α → α) (t : Table κ α) : (t.mapValues f).keys = t.keys := by
  simp [keys, mapValues, Function.comp_def]

@[simp] theorem values_mapValues (f : α → α) (t : Table κ α) :
    (t.mapValues f).values = t.values.map f := by
  simp [values, mapValues, Function.comp_def]

variable [DecidableEq κ]

def get? (t : Table κ α) (k : κ) : Option α := t.entries.lookup k

def modify (k : κ) (f : α → α) (t : Table κ α) : Table κ α :=
  ⟨t.entries.map fun e => (e.1, if e.1 = k then f e.2 else e.2),
    by simpa [Function.comp_def] using t.nodup⟩

/-- Puts a value under a key; a key that was not there goes to the end. -/
def insert (k : κ) (a : α) (t : Table κ α) : Table κ α :=
  if h : k ∈ t.entries.map Prod.fst then t.modify k fun _ => a
  else ⟨t.entries ++ [(k, a)], by
    rw [List.map_append, List.nodup_append]
    refine ⟨t.nodup, by simp, ?_⟩
    intro a ha b hb hab
    rw [hab, List.mem_singleton.1 hb] at ha
    exact h ha⟩

/-- All entries in turn; of those with the same key the last one stays, in the first place. -/
def ofList (entries : List (κ × α)) : Table κ α :=
  entries.foldl (fun t e => t.insert e.1 e.2) empty

@[simp] theorem get?_empty (k : κ) : (empty : Table κ α).get? k = none := rfl

/-- Looking a key up finds exactly its entry. -/
theorem get?_eq_some_iff (t : Table κ α) (k : κ) (a : α) :
    t.get? k = some a ↔ (k, a) ∈ t.entries := by
  obtain ⟨entries, nodup⟩ := t
  change entries.lookup k = some a ↔ (k, a) ∈ entries
  induction entries with
  | nil => simp
  | cons e es ih =>
    obtain ⟨j, b⟩ := e
    obtain ⟨hj, hes⟩ := List.nodup_cons.1 nodup
    by_cases h : k = j
    · subst h
      have : (k, a) ∉ es := fun hm => hj (List.mem_map.2 ⟨_, hm, rfl⟩)
      simp [this, eq_comm]
    · have hb : (k == j) = false := by simpa using h
      simpa [List.lookup_cons, hb, h] using ih hes

theorem mem_keys (t : Table κ α) (k : κ) : k ∈ t.keys ↔ (t.get? k).isSome := by
  simp [Option.isSome_iff_exists, get?_eq_some_iff, keys]

theorem get?_eq_none_iff (t : Table κ α) (k : κ) : t.get? k = none ↔ k ∉ t.keys := by
  simp [mem_keys]

theorem mem_values (t : Table κ α) (a : α) : a ∈ t.values ↔ ∃ k, t.get? k = some a := by
  simp [get?_eq_some_iff, values]

theorem mem_values_of_get? {t : Table κ α} {k : κ} {a : α} (h : t.get? k = some a) :
    a ∈ t.values :=
  (t.mem_values a).2 ⟨k, h⟩

@[simp] theorem keys_modify (k : κ) (f : α → α) (t : Table κ α) :
    (t.modify k f).keys = t.keys := by
  simp [keys, modify, Function.comp_def]

theorem get?_mapValues (f : α → α) (t : Table κ α) (k : κ) :
    (t.mapValues f).get? k = (t.get? k).map f := by
  change (t.entries.map fun e => (e.1, f e.2)).lookup k = (t.entries.lookup k).map f
  induction t.entries with
  | nil => rfl
  | cons e es ih =>
    rw [List.map_cons, List.lookup_cons, List.lookup_cons]
    cases k == e.1 with
    | true => rfl
    | false => exact ih

theorem get?_modify (k j : κ) (f : α → α) (t : Table κ α) :
    (t.modify k f).get? j = if j = k then (t.get? j).map f else t.get? j := by
  change (t.entries.map fun e => (e.1, if e.1 = k then f e.2 else e.2)).lookup j =
    if j = k then (t.entries.lookup j).map f else t.entries.lookup j
  induction t.entries with
  | nil => simp
  | cons e es ih =>
    rw [List.map_cons, List.lookup_cons, List.lookup_cons]
    by_cases h : j = e.1
    · subst h
      by_cases hk : e.1 = k <;> simp [hk]
    · have hb : (j == e.1) = false := by simpa using h
      simp only [hb, ih]

theorem modify_of_get?_eq_none {t : Table κ α} {k : κ} (h : t.get? k = none) (f : α → α) :
    t.modify k f = t := by
  obtain ⟨entries, nodup⟩ := t
  have hk : k ∉ entries.map Prod.fst := (get?_eq_none_iff _ k).1 h
  have : entries.map (fun e => (e.1, if e.1 = k then f e.2 else e.2)) = entries := by
    rw [List.map_congr_left (g := id), List.map_id]
    intro e he
    have : e.1 ≠ k := fun hek => hk (hek ▸ List.mem_map.2 ⟨e, he, rfl⟩)
    simp [this]
  simp [modify, this]

theorem modify_id (k : κ) (t : Table κ α) : t.modify k (fun a => a) = t := by
  simp [modify]

/-- A change under a key is a change at one place. -/
theorem exists_entries_modify {t : Table κ α} {k : κ} {a : α} (h : t.get? k = some a)
    (f : α → α) :
    ∃ xs ys, t.entries = xs ++ (k, a) :: ys ∧ (t.modify k f).entries = xs ++ (k, f a) :: ys := by
  obtain ⟨xs, ys, hs⟩ := List.append_of_mem ((t.get?_eq_some_iff k a).1 h)
  have hn := t.nodup
  rw [hs, List.map_append, List.map_cons, List.nodup_append, List.nodup_cons] at hn
  have keep (es : List (κ × α)) (he : k ∉ es.map Prod.fst) :
      es.map (fun e => (e.1, if e.1 = k then f e.2 else e.2)) = es := by
    rw [List.map_congr_left (g := id), List.map_id]
    intro e hm
    have : e.1 ≠ k := fun hk => he (hk ▸ List.mem_map.2 ⟨e, hm, rfl⟩)
    simp [this]
  refine ⟨xs, ys, hs, ?_⟩
  have hx : k ∉ xs.map Prod.fst := fun hm => hn.2.2 k hm k (by simp) rfl
  simp [modify, hs, keep xs hx, keep ys hn.2.1.1]

theorem exists_values_modify {t : Table κ α} {k : κ} {a : α} (h : t.get? k = some a)
    (f : α → α) :
    ∃ xs ys, t.values = xs ++ a :: ys ∧ (t.modify k f).values = xs ++ f a :: ys := by
  obtain ⟨xs, ys, hs, hf⟩ := exists_entries_modify h f
  exact ⟨xs.map Prod.snd, ys.map Prod.snd, by simp [values, hs], by simp [values, hf]⟩

theorem entries_insert_of_notMem {k : κ} {t : Table κ α} (a : α) (h : k ∉ t.keys) :
    (t.insert k a).entries = t.entries ++ [(k, a)] := by
  unfold keys at h
  simp [insert, h]

theorem keys_insert_of_notMem {k : κ} {t : Table κ α} (a : α) (h : k ∉ t.keys) :
    (t.insert k a).keys = t.keys ++ [k] := by
  simp [keys, entries_insert_of_notMem a h]

theorem values_insert_of_notMem {k : κ} {t : Table κ α} (a : α) (h : k ∉ t.keys) :
    (t.insert k a).values = t.values ++ [a] := by
  simp [values, entries_insert_of_notMem a h]

theorem get?_insert (k j : κ) (a : α) (t : Table κ α) :
    (t.insert k a).get? j = if j = k then some a else t.get? j := by
  by_cases h : k ∈ t.keys
  · have hi : t.insert k a = t.modify k fun _ => a := dif_pos h
    obtain ⟨b, hb⟩ := Option.isSome_iff_exists.1 ((t.mem_keys k).1 h)
    rw [hi, get?_modify]
    by_cases hj : j = k
    · simp [hj, hb]
    · simp [hj]
  · have hn : t.get? k = none := (t.get?_eq_none_iff k).2 h
    unfold get? at hn ⊢
    rw [entries_insert_of_notMem a h, List.lookup_append]
    by_cases hj : j = k
    · subst hj
      simp [hn]
    · have hb : (j == k) = false := by simpa using hj
      simp [hj, List.lookup_cons, hb]

section Forall

variable {P : κ → α → Prop} {t : Table κ α} {k : κ}

theorem forall_get?_mapValues {f : α → α} (h : ∀ j a, t.get? j = some a → P j (f a)) :
    ∀ j a, (t.mapValues f).get? j = some a → P j a := by
  intro j b hb
  rw [get?_mapValues] at hb
  obtain ⟨a, ha, rfl⟩ := Option.map_eq_some_iff.1 hb
  exact h j a ha

theorem forall_get?_modify {f : α → α} (here : ∀ a, t.get? k = some a → P k (f a))
    (others : ∀ j a, j ≠ k → t.get? j = some a → P j a) :
    ∀ j a, (t.modify k f).get? j = some a → P j a := by
  intro j b hb
  rw [get?_modify] at hb
  by_cases hj : j = k
  · rw [if_pos hj] at hb
    obtain ⟨a, ha, rfl⟩ := Option.map_eq_some_iff.1 hb
    subst hj
    exact here a ha
  · rw [if_neg hj] at hb
    exact others j b hj hb

theorem forall_get?_insert {a : α} (here : P k a)
    (others : ∀ j b, j ≠ k → t.get? j = some b → P j b) :
    ∀ j b, (t.insert k a).get? j = some b → P j b := by
  intro j b hb
  rw [get?_insert] at hb
  by_cases hj : j = k
  · rw [if_pos hj] at hb
    cases hb
    exact hj ▸ here
  · rw [if_neg hj] at hb
    exact others j b hj hb

end Forall

/-- Entries with different keys all stay, in their order. -/
theorem entries_ofList {entries : List (κ × α)} (h : (entries.map Prod.fst).Nodup) :
    (ofList entries).entries = entries := by
  have extend (es : List (κ × α)) (t : Table κ α) (hn : (t.keys ++ es.map Prod.fst).Nodup) :
      (es.foldl (fun t e => t.insert e.1 e.2) t).entries = t.entries ++ es := by
    induction es generalizing t with
    | nil => simp
    | cons e es ih =>
      have new : e.1 ∉ t.keys := by
        intro hm
        exact (List.nodup_append.1 hn).2.2 e.1 hm e.1 (by simp) rfl
      rw [List.foldl_cons, ih, entries_insert_of_notMem _ new, List.append_assoc]
      · rfl
      · rw [keys_insert_of_notMem _ new]
        simpa using hn
  exact extend entries empty h

end Table

end TestWatch
