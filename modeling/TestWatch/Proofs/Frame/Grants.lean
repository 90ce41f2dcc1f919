import TestWatch.Frame.Layout
import TestWatch.Proofs.Run.Sound

/-!
# Each test finds its own grant

Grants are made in the order of urgency, and are looked up by the keys of the tests in the order in
which those are shown. No two requests have the same key, so every request finds what was granted
to it, and all lines that were granted are found.
-/

namespace TestWatch

theorem totalLines_map_eq_zero {α : Type} {xs : List α} {f : α → Nat} (h : ∀ x ∈ xs, f x = 0) :
    totalLines (xs.map f) = 0 := by
  induction xs with
  | nil => rfl
  | cons x xs ih => simp [h x List.mem_cons_self, ih fun y hy => h y (List.mem_cons_of_mem _ hy)]

theorem totalLines_perm {xs ys : List Nat} (h : xs.Perm ys) : totalLines xs = totalLines ys := by
  induction h with
  | nil => rfl
  | cons x _ ih => simp [ih]
  | swap x y _ =>
    simp only [totalLines_cons]
    omega
  | trans _ _ ih ih' => exact ih.trans ih'

theorem le_of_mem_zip_grant {budget n g : Nat} {ns : List Nat}
    (h : (n, g) ∈ ns.zip (grant budget ns)) : g ≤ min n budget := by
  induction ns generalizing budget with
  | nil => simp at h
  | cons k ns ih =>
    rw [grant, List.zip_cons_cons, List.mem_cons] at h
    rcases h with h | h
    · obtain ⟨rfl, rfl⟩ := Prod.mk.inj h
      exact Nat.le_refl _
    · have := ih h
      omega

namespace Run

variable {r : Run}

theorem Sound.map_key_requests (hs : r.Sound) (maxOutput : Nat) :
    (r.requests maxOutput).map Request.key =
      (r.packages.values.filter Package.isOpen).flatMap fun p =>
        p.order.map (TestKey.mk p.name) := by
  rw [requests, List.map_map, List.map_flatMap]
  apply List.flatMap_congr
  intro p hp
  exact hs.map_key_testsIn (List.mem_of_mem_filter hp)

/-- No two requests have the same key. -/
theorem Sound.nodup_keys (hs : r.Sound) (maxOutput : Nat) :
    ((r.requests maxOutput).map Request.key).Nodup := by
  rw [hs.map_key_requests]
  exact hs.nodup_keys_of_sublist List.filter_sublist

/-- The requests in order of urgency, each with what it is granted. -/
def granted (r : Run) (maxOutput budget : Nat) : List (Request × Nat) :=
  let rs := Request.sorted (r.requests maxOutput)
  rs.zip (grant budget (rs.map Request.lines))

section Granted

variable (r : Run) (maxOutput budget : Nat)

theorem perm_map_fst_granted : ((r.granted maxOutput budget).map Prod.fst).Perm
    (r.requests maxOutput) := by
  rw [granted, List.map_fst_zip (by simp)]
  exact List.mergeSort_perm _ _

theorem map_snd_granted : (r.granted maxOutput budget).map Prod.snd =
    grant budget ((Request.sorted (r.requests maxOutput)).map Request.lines) := by
  rw [granted, List.map_snd_zip (by simp)]

theorem grants_eq : r.grants maxOutput budget =
    .ofList ((r.granted maxOutput budget).map fun e => (e.1.key, e.2)) := by
  rw [grants, granted, List.zip_map_left]
  rfl

/-- No request is granted more than it asks for, or than there is. -/
theorem le_of_mem_granted {maxOutput budget : Nat} {q : Request} {g : Nat}
    (h : (q, g) ∈ r.granted maxOutput budget) : g ≤ min q.lines budget := by
  have lines : (q.lines, g) ∈ ((Request.sorted (r.requests maxOutput)).map Request.lines).zip
      (grant budget ((Request.sorted (r.requests maxOutput)).map Request.lines)) := by
    rw [List.zip_map_left]
    exact List.mem_map.2 ⟨(q, g), h, rfl⟩
  exact le_of_mem_zip_grant lines

end Granted

/-- Every request finds what was granted to it. -/
theorem Sound.get?_grants (hs : r.Sound) {maxOutput budget : Nat} {q : Request} {g : Nat}
    (h : (q, g) ∈ r.granted maxOutput budget) :
    (r.grants maxOutput budget).get? q.key = some g := by
  have keys : ((r.granted maxOutput budget).map fun e => (e.1.key, e.2)).map Prod.fst =
      ((r.granted maxOutput budget).map Prod.fst).map Request.key := by
    simp [Function.comp_def]
  rw [grants_eq, Table.get?_eq_some_iff, Table.entries_ofList]
  · exact List.mem_map.2 ⟨(q, g), h, rfl⟩
  · rw [keys, ((r.perm_map_fst_granted maxOutput budget).map _).nodup_iff]
    exact hs.nodup_keys maxOutput

theorem Sound.exists_grant (hs : r.Sound) {maxOutput : Nat} (budget : Nat) {q : Request}
    (hq : q ∈ r.requests maxOutput) :
    ∃ g, (r.grants maxOutput budget).get? q.key = some g ∧ g ≤ min q.lines budget := by
  rw [← (r.perm_map_fst_granted maxOutput budget).mem_iff] at hq
  obtain ⟨⟨q, g⟩, h, rfl⟩ := List.mem_map.1 hq
  exact ⟨g, hs.get?_grants h, r.le_of_mem_granted h⟩

/-- All that was granted is found: all that was asked for, or all that there is. -/
theorem Sound.totalLines_grants (hs : r.Sound) (maxOutput budget : Nat) :
    totalLines ((r.requests maxOutput).map fun q =>
        ((r.grants maxOutput budget).get? q.key).getD 0) =
      min (totalLines ((r.requests maxOutput).map Request.lines)) budget := by
  have found : ((r.granted maxOutput budget).map Prod.fst).map
      (fun q => ((r.grants maxOutput budget).get? q.key).getD 0) =
        (r.granted maxOutput budget).map Prod.snd := by
    rw [List.map_map]
    apply List.map_congr_left
    rintro ⟨q, g⟩ h
    simp [hs.get?_grants h]
  rw [← totalLines_perm ((r.perm_map_fst_granted maxOutput budget).map _), found,
    map_snd_granted, totalLines_grant]
  congr 1
  exact totalLines_perm ((List.mergeSort_perm _ _).map _)

end Run
end TestWatch
