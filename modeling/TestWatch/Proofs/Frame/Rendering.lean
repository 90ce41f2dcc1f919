import TestWatch.Frame.Subtractions
import Mathlib.Data.List.Basic

/-!
# From entries to lines

A frame exists exactly if each of its entries can be written, and then it has a line for each entry
that is not dropped. Only an aligned entry can fail to be written, and it does so if its label takes
more columns than it is given even when it is cut.
-/

namespace TestWatch

section Lists

variable {α β : Type} {f : α → Option β} {xs : List α}

theorem mapM_eq_some_iff {ys : List β} : xs.mapM f = some ys ↔ xs.map f = ys.map some := by
  induction xs generalizing ys with
  | nil =>
    constructor
    · rintro ⟨⟩
      rfl
    · intro h
      rw [List.map_eq_nil_iff.1 h.symm]
      rfl
  | cons x xs ih =>
    rw [List.mapM_cons, List.map_cons]
    constructor
    · intro h
      obtain ⟨y, hy, h⟩ := Option.bind_eq_some_iff.1 h
      obtain ⟨zs, hzs, h⟩ := Option.bind_eq_some_iff.1 h
      cases h
      rw [List.map_cons, hy, ih.1 hzs]
    · intro h
      obtain ⟨y, zs, rfl, hy, hzs⟩ := List.map_eq_cons_iff.1 h.symm
      rw [← hy, ih.2 hzs.symm]
      rfl

theorem length_of_mapM {ys : List β} (h : xs.mapM f = some ys) : ys.length = xs.length := by
  have same := congrArg List.length (mapM_eq_some_iff.1 h)
  rwa [List.length_map, List.length_map, eq_comm] at same

theorem mapM_eq_none_iff : xs.mapM f = none ↔ ∃ x ∈ xs, f x = none := by
  induction xs with
  | nil => simp
  | cons x xs ih =>
    rw [List.exists_mem_cons_iff, ← ih, List.mapM_cons]
    cases f x with
    | none => simp
    | some y => cases xs.mapM f <;> simp

end Lists

theorem alignLine?_eq_none_iff {a : Aligned} {width : Nat} :
    alignLine? a.lead a.label a.right width = none ↔
      a.budget width < Text.width (a.fitted width) := by
  unfold alignLine?
  simp only
  split
  · rename_i fits
    exact iff_of_false nofun (Nat.not_lt.2 fits)
  · rename_i tight
    exact iff_of_true rfl (Nat.not_le.1 tight)

theorem Entry.text?_eq_none_iff {width : Nat} {e : Entry} : e.text? width = none ↔
    ∃ a, e = .aligned a ∧ a.budget width < Text.width (a.fitted width) := by
  cases e with
  | aligned a => simp [text?, alignLine?_eq_none_iff]
  | cut _ => simp [text?]
  | whole _ => simp [text?]

namespace Viewer

variable {v : Viewer} {m : Moment} {width height : Nat} {r : Run}

/-- A line for each entry, but for those that are too many. -/
theorem map_some_of_lines? {lines : List (List Char)} (h : v.lines? m width height r = some lines) :
    lines.map some = ((v.entries m width height r).map (Entry.text? width)).drop
      ((v.entries m width height r).length - height) := by
  obtain ⟨all, written, rfl⟩ := Option.map_eq_some_iff.1 h
  rw [mapM_eq_some_iff.1 written, length_of_mapM written, List.map_drop]

theorem length_of_lines? {lines : List (List Char)} (h : v.lines? m width height r = some lines) :
    lines.length = min height (v.entries m width height r).length := by
  have lengths := congrArg List.length (map_some_of_lines? h)
  simp only [List.length_map, List.length_drop] at lengths
  omega

theorem exists_entry_of_lines? {lines : List (List Char)}
    (h : v.lines? m width height r = some lines) {l : List Char} (hl : l ∈ lines) :
    ∃ e ∈ v.entries m width height r, e.text? width = some l := by
  have written : some l ∈ lines.map some := List.mem_map_of_mem hl
  rw [map_some_of_lines? h] at written
  exact List.mem_map.1 (List.mem_of_mem_drop written)

theorem frame?_eq_none_iff : v.frame? m width height r = none ↔
    ∃ a, .aligned a ∈ v.entries m width height r ∧
      a.budget width < Text.width (a.fitted width) := by
  rw [frame?, Option.map_eq_none_iff, lines?, Option.map_eq_none_iff, mapM_eq_none_iff]
  constructor
  · rintro ⟨e, he, none⟩
    obtain ⟨a, rfl, tight⟩ := Entry.text?_eq_none_iff.1 none
    exact ⟨a, he, tight⟩
  · rintro ⟨a, ha, tight⟩
    exact ⟨_, ha, Entry.text?_eq_none_iff.2 ⟨a, rfl, tight⟩⟩

section Entries

variable (v : Viewer) (m : Moment) (width height : Nat) (r : Run) {P : Entry → Prop}

theorem forall_mem_testEntries {columns : Columns} {lines : Nat} {t : Test}
    (test : P (.aligned (v.alignedTest m columns t))) (output : ∀ l ∈ t.output, P (outputEntry l)) :
    ∀ e ∈ v.testEntries m columns lines t, P e := by
  intro e he
  cases lines with
  | zero => cases he
  | succ n =>
    rcases List.mem_cons.1 he with rfl | he
    · exact test
    · obtain ⟨l, hl, rfl⟩ := List.mem_map.1 he
      unfold testOutput at hl
      split at hl
      · exact output l (List.mem_of_mem_drop hl)
      · cases hl

/-- What holds of every kind of entry holds of all entries of a frame. -/
theorem forall_mem_entries (blank : P (.whole []))
    (loose : ∀ l ∈ r.looseOutput, P (.cut (Text.expandTabs l.toList)))
    (package : ∀ p ∈ r.packages.values, P (.aligned (v.alignedPackage m (.ofRun m r) p)))
    (test : ∀ p ∈ r.packages.values, ∀ t ∈ r.testsIn p,
      P (.aligned (v.alignedTest m (.ofRun m r) t)))
    (output : ∀ p ∈ r.packages.values, ∀ t ∈ r.testsIn p, ∀ l ∈ t.output, P (outputEntry l))
    (rule : P (.whole (v.look.paint .dim (v.look.rule width))))
    (run : P (.aligned (v.alignedRun m (.ofRun m r) r))) :
    ∀ e ∈ v.entries m width height r, P e := by
  intro e he
  rw [entries, List.append_assoc, List.mem_append, List.mem_append] at he
  rcases he with he | he | he
  · rcases List.mem_append.1 he with he | he
    · obtain ⟨l, hl, rfl⟩ := List.mem_map.1 he
      exact loose l hl
    · split at he
      · cases he
      · rw [List.mem_singleton.1 he]
        exact blank
  · obtain ⟨p, hp, he⟩ := List.mem_flatMap.1 he
    rcases List.mem_cons.1 he with rfl | he
    · exact package p hp
    · split at he
      · obtain ⟨t, ht, he⟩ := List.mem_flatMap.1 he
        exact v.forall_mem_testEntries m (test p hp t ht) (output p hp t ht) e he
      · cases he
  · rcases List.mem_append.1 he with he | he
    · split at he
      · cases he
      · rw [List.mem_singleton.1 he]
        exact rule
    · rw [List.mem_singleton.1 he]
      exact run

end Entries

end Viewer
end TestWatch
