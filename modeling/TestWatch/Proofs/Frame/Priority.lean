import TestWatch.Proofs.Frame.Accounting
import TestWatch.Proofs.Run.Listing

/-!
# Space follows priority

Lines are given out in the order of urgency, and shown in the order in which packages and tests were
first seen. A test that gets a line leaves none before it wanting, and as long as one is left
wanting, all lines are given out.
-/

namespace TestWatch

theorem pair_sublist_or {α : Type} {xs : List α} {a b : α} (ha : a ∈ xs) (hb : b ∈ xs)
    (hab : a ≠ b) : [a, b].Sublist xs ∨ [b, a].Sublist xs := by
  induction xs with
  | nil => cases ha
  | cons x xs ih =>
    rcases List.mem_cons.1 ha with rfl | ha'
    · rcases List.mem_cons.1 hb with rfl | hb'
      · exact absurd rfl hab
      · exact .inl (.cons_cons a (List.singleton_sublist.2 hb'))
    · rcases List.mem_cons.1 hb with rfl | hb'
      · exact .inr (.cons_cons b (List.singleton_sublist.2 ha'))
      · exact (ih ha' hb').imp (.cons x) (.cons x)

theorem pair_sublist_of_getElem? {α : Type} {xs : List α} {i j : Nat} {a b : α} (hij : i < j)
    (ha : xs[i]? = some a) (hb : xs[j]? = some b) : [a, b].Sublist xs := by
  have front : a ∈ xs.take j := List.mem_of_getElem? ((List.getElem?_take_of_lt hij).trans ha)
  have back : b ∈ xs.drop j := List.mem_of_getElem? (i := 0) (by rwa [List.getElem?_drop])
  have both := (List.singleton_sublist.2 front).append (List.singleton_sublist.2 back)
  rwa [List.take_append_drop] at both

theorem exists_pair_sublist {α β : Type} {xs : List (α × β)} {a b : α}
    (h : [a, b].Sublist (xs.map Prod.fst)) : ∃ k l, [(a, k), (b, l)].Sublist xs := by
  obtain ⟨ys, hs, hy⟩ := List.sublist_map_iff.1 h
  match ys with
  | [(_, k), (_, l)] =>
    obtain ⟨rfl, rfl⟩ : a = _ ∧ b = _ := by simpa using hy
    exact ⟨k, l, hs⟩
  | [] => cases hy
  | [_] => cases hy
  | _ :: _ :: _ :: _ => cases hy

theorem totalLines_map_le {α : Type} {xs : List α} {f g : α → Nat} (h : ∀ x ∈ xs, f x ≤ g x) :
    totalLines (xs.map f) ≤ totalLines (xs.map g) := by
  induction xs with
  | nil => exact Nat.le_refl _
  | cons x xs ih =>
    have head := h x List.mem_cons_self
    have tail := ih fun y hy => h y (List.mem_cons_of_mem _ hy)
    simp only [List.map_cons, totalLines_cons]
    omega

theorem totalLines_map_lt {α : Type} {xs : List α} {f g : α → Nat} (h : ∀ x ∈ xs, f x ≤ g x)
    {a : α} (ha : a ∈ xs) (hlt : f a < g a) : totalLines (xs.map f) < totalLines (xs.map g) := by
  obtain ⟨ys, zs, rfl⟩ := List.append_of_mem ha
  have middle (k : α → Nat) : totalLines ((ys ++ a :: zs).map k) =
      k a + totalLines ((ys ++ zs).map k) :=
    totalLines_perm (List.perm_middle.map k)
  have rest : totalLines ((ys ++ zs).map f) ≤ totalLines ((ys ++ zs).map g) := by
    refine totalLines_map_le fun x hx => h x ?_
    rcases List.mem_append.1 hx with hx | hx
    · exact List.mem_append_left _ hx
    · exact List.mem_append_right _ (List.mem_cons_of_mem _ hx)
  rw [middle, middle]
  omega

namespace Request

theorem precedes_iff {a b : Request} : a.precedes b = true ↔
    a.test.status.priority < b.test.status.priority ∨
      a.test.status.priority = b.test.status.priority ∧
        ¬ a.test.start.before b.test.start = true := by
  simp [precedes]

theorem precedes_trans (a b c : Request) (hab : a.precedes b = true) (hbc : b.precedes c = true) :
    a.precedes c = true := by
  rw [precedes_iff] at *
  rcases hab with hab | ⟨hab, later⟩
  · omega
  · rcases hbc with hbc | ⟨hbc, later'⟩
    · omega
    · exact .inr ⟨hab.trans hbc, Timestamp.not_before_trans later later'⟩

theorem precedes_total (a b : Request) : (a.precedes b || b.precedes a) = true := by
  rw [Bool.or_eq_true, precedes_iff, precedes_iff, Timestamp.before_iff, Timestamp.before_iff]
  omega

end Request

/-- Of the tests at two places of a list the first is served before the other: it is more urgent,
or as urgent and began later, or they tie and it comes first in the list. -/
def Test.Precedes (t u : Test) (i j : Nat) : Prop :=
  t.status.priority < u.status.priority ∨
    t.status.priority = u.status.priority ∧
      (u.start.before t.start = true ∨ t.start.sameInstant u.start = true ∧ i < j)

/-- The order of requests is the order of urgency of their tests. -/
theorem Request.pair_sublist_sorted {rs : List Request} {i j : Nat} {a b : Request}
    (ha : rs[i]? = some a) (hb : rs[j]? = some b) (h : a.test.Precedes b.test i j) :
    [a, b].Sublist (sorted rs) := by
  have strict (hn : ¬ b.precedes a = true) : [a, b].Sublist (sorted rs) := by
    have same : (sorted rs).Perm rs := List.mergeSort_perm rs precedes
    have ha' : a ∈ sorted rs := same.mem_iff.2 (List.mem_of_getElem? ha)
    have hb' : b ∈ sorted rs := same.mem_iff.2 (List.mem_of_getElem? hb)
    have different : a ≠ b := by
      rintro rfl
      have := precedes_total a a
      simp_all
    rcases pair_sublist_or ha' hb' different with first | second
    · exact first
    · have ordered : (sorted rs).Pairwise fun x y => x.precedes y = true :=
        List.pairwise_mergeSort precedes_trans precedes_total rs
      exact absurd (List.pairwise_iff_forall_sublist.1 ordered second) hn
  rcases h with urgent | ⟨same, later | ⟨tie, hij⟩⟩
  · exact strict (by rw [precedes_iff]; omega)
  · refine strict ?_
    rw [precedes_iff]
    rintro (less | ⟨-, not_later⟩)
    · omega
    · exact not_later later
  · have le : a.precedes b = true :=
      precedes_iff.2 (.inr ⟨same, (Timestamp.sameInstant_iff.1 tie).1⟩)
    exact List.pair_sublist_mergeSort precedes_trans precedes_total le
      (pair_sublist_of_getElem? hij ha hb)

theorem pairwise_grant {α : Type} (lines : α → Nat) (budget : Nat) (xs : List α) :
    (xs.zip (grant budget (xs.map lines))).Pairwise fun a b => 1 ≤ b.2 → a.2 = lines a.1 := by
  induction xs generalizing budget with
  | nil => exact .nil
  | cons x xs ih =>
    rw [List.map_cons, grant, List.zip_cons_cons, List.pairwise_cons]
    refine ⟨?_, ih _⟩
    rintro ⟨y, g⟩ hy some_line
    have rest : (lines y, g) ∈ (xs.map lines).zip (grant (budget - min (lines x) budget)
        (xs.map lines)) := by
      rw [List.zip_map_left]
      exact List.mem_map.2 ⟨(y, g), hy, rfl⟩
    have := le_of_mem_zip_grant rest
    simp only at some_line ⊢
    omega

namespace Run

/-- The tests that ask for lines, in the order in which they were first seen. -/
def openTests (r : Run) : List Test :=
  (r.packages.values.filter Package.isOpen).flatMap r.testsIn

def linesOf (r : Run) (maxOutput budget : Nat) (t : Test) : Nat :=
  ((r.grants maxOutput budget).get? ⟨t.package, t.name⟩).getD 0

variable {r : Run} (hs : r.Sound) {maxOutput budget : Nat}
include hs

theorem Sound.linesOf_le {t : Test} (ht : t ∈ r.openTests) :
    r.linesOf maxOutput budget t ≤ min (Request.ofTest maxOutput t).lines budget := by
  have asks : Request.ofTest maxOutput t ∈ r.requests maxOutput := List.mem_map_of_mem ht
  obtain ⟨g, hg, hle⟩ := hs.exists_grant budget asks
  have gets : r.linesOf maxOutput budget t = g := congrArg (·.getD 0) hg
  rwa [gets]

/-- A test before one that gets a line gets all that it asks for. -/
theorem Sound.linesOf_eq_of_precedes {i j : Nat} {t u : Test} (ht : r.openTests[i]? = some t)
    (hu : r.openTests[j]? = some u) (h : t.Precedes u i j)
    (some_line : 1 ≤ r.linesOf maxOutput budget u) :
    r.linesOf maxOutput budget t = (Request.ofTest maxOutput t).lines := by
  have asks {k : Nat} {x : Test} (hx : r.openTests[k]? = some x) :
      (r.requests maxOutput)[k]? = some (Request.ofTest maxOutput x) := by
    change (r.openTests.map (Request.ofTest maxOutput))[k]? = _
    rw [List.getElem?_map, hx]
    rfl
  have order : [Request.ofTest maxOutput t, Request.ofTest maxOutput u].Sublist
      ((r.granted maxOutput budget).map Prod.fst) := by
    rw [granted, List.map_fst_zip (by simp)]
    exact Request.pair_sublist_sorted (asks ht) (asks hu) h
  obtain ⟨g, k, hsub⟩ := exists_pair_sublist order
  have first := hs.get?_grants (hsub.subset List.mem_cons_self)
  have second := hs.get?_grants (hsub.subset (List.mem_cons_of_mem _ List.mem_cons_self))
  have gets : r.linesOf maxOutput budget t = g := congrArg (·.getD 0) first
  have gets' : r.linesOf maxOutput budget u = k := congrArg (·.getD 0) second
  rw [gets'] at some_line
  rw [gets]
  have served := pairwise_grant Request.lines budget (Request.sorted (r.requests maxOutput))
  exact List.pairwise_iff_forall_sublist.1 served hsub some_line

variable (maxOutput budget) in
theorem Sound.totalLines_linesOf : totalLines (r.openTests.map (r.linesOf maxOutput budget)) =
    min (totalLines (r.openTests.map fun t => (Request.ofTest maxOutput t).lines)) budget := by
  have asks : (r.requests maxOutput).map Request.lines =
      r.openTests.map fun t => (Request.ofTest maxOutput t).lines := List.map_map
  have gets : (r.requests maxOutput).map (fun q =>
      ((r.grants maxOutput budget).get? q.key).getD 0) =
        r.openTests.map (r.linesOf maxOutput budget) := List.map_map
  rw [← asks, ← gets]
  exact hs.totalLines_grants maxOutput budget

theorem Sound.totalLines_of_lt {t : Test} (ht : t ∈ r.openTests)
    (wanting : r.linesOf maxOutput budget t < (Request.ofTest maxOutput t).lines) :
    totalLines (r.openTests.map (r.linesOf maxOutput budget)) = budget := by
  have less := totalLines_map_lt (f := r.linesOf maxOutput budget)
    (fun x hx => le_trans (hs.linesOf_le hx) (Nat.min_le_left _ _)) ht wanting
  have total := hs.totalLines_linesOf maxOutput budget
  omega

end Run

namespace Viewer

variable (v : Viewer) (m : Moment)

/-- A test with at most the lines that it asks for is shown by its own line and the latest lines of
its output. -/
theorem testEntries_of_le (columns : Columns) {lines : Nat} {t : Test}
    (h : lines ≤ (Request.ofTest v.maxOutput t).lines) :
    v.testEntries m columns lines t = if lines = 0 then [] else
      .aligned (v.alignedTest m columns t) ::
        (t.output.drop (t.output.length - (lines - 1))).map outputEntry := by
  cases lines with
  | zero => rfl
  | succ n =>
    have latest : v.testOutput n t = t.output.drop (t.output.length - n) := by
      simp only [Request.ofTest] at h
      unfold testOutput
      split
      · rw [if_pos ‹_›] at h
        congr 1
        omega
      · rw [if_neg ‹_›] at h
        have : t.output.length ≤ t.output.length - n := by omega
        rw [List.drop_eq_nil_of_le this]
    rw [testEntries, latest]
    rfl

/-- Lines go to tests in the order of urgency: running and paused ones first, then those that
failed, then the rest; in each group to those that began later first, and else in the order in which
packages and tests were first seen. A test that gets a line leaves none before it wanting, and if one
is left wanting, all lines are given out that the fixed lines leave. A test that gets some lines
shows its own line and the latest lines of its output, oldest first, below the line of its package.
Packages, and the tests in each of them, are shown in the order in which they were first seen. All
this is shown if no label takes more columns than it is given once it is cut, so always if all texts
of the run are clean. -/
theorem space_follows_priority {mode : Mode} {h : History} (hr : h.Reachable mode) {r : Run}
    (hm : r ∈ h.runs) (width height : Nat) :
    let fixed := r.looseOutput.length + (if r.looseOutput = [] then 0 else 1) +
      (r.packages.size + if r.packages.isEmpty then 0 else 1) + 1
    let tests := (r.packages.values.filter fun p =>
      p.status == .running || p.status == .interrupted).flatMap r.testsIn
    let asks (t : Test) := 1 + if t.status = .running then min t.output.length v.maxOutput else 0
    let gets := r.linesOf v.maxOutput (height - fixed)
    let columns := Columns.ofRun m r
    let header (t : Test) : Entry := .aligned ⟨[' ', ' '] ++ v.look.paintedIcon m.tick t.status ++ [' '],
      Text.expandTabs (t.headline.getD ("=== RUN   " ++ t.name)).toList,
      padLeft columns.elapsed (m.ofTest t).short⟩
    let output (line : String) : Entry := .cut ([' ', ' ', ' ', ' '] ++ Text.expandTabs line.toList)
    let shown (t : Test) := if gets t = 0 then [] else
      header t :: (t.output.drop (t.output.length - (gets t - 1))).map output
    let all := looseEntries r ++ r.packages.values.flatMap (fun p =>
      .aligned (v.alignedPackage m columns p) ::
        if p.status == .running || p.status == .interrupted then (r.testsIn p).flatMap shown
        else []) ++ v.footer m columns width r
    let last (lines : List (List Char)) :=
      List.intercalate ['\n'] (lines.drop (lines.length - height))
    (∀ i j t u, tests[i]? = some t → tests[j]? = some u → t.Precedes u i j → 1 ≤ gets u →
      gets t = asks t) ∧
    (∀ t ∈ tests, gets t ≤ asks t) ∧
    ((∃ t ∈ tests, gets t < asks t) → totalLines (tests.map gets) = height - fixed) ∧
    (v.frame? m width height r = (all.mapM (Entry.text? width)).map last ∧
      (∀ a, (Entry.aligned a).text? width = alignLine? a.lead a.label a.right width) ∧
      ∀ line, (Entry.cut line).text? width = some (fitLine line width)) ∧
    ((∃ t ∈ tests, 1 ≤ gets t) → all.length ≤ height) ∧
    (∃ events, r.MadeBy mode events ∧
      r.packages.values.map Package.name = firstSeen (events.map fun e => e.2.package) ∧
      ∀ p ∈ r.packages.values, (r.testsIn p).map Test.name =
        firstSeen ((events.filter fun e => e.2.package == p.name).map fun e => e.2.test)) ∧
    (v.frame? m width height r = none ↔
      ∃ a, .aligned a ∈ all ∧ a.budget width < Text.width (a.fitted width)) ∧
    (r.Texts (Text.Clean Text.Plain) → ∃ frame, v.frame? m width height r = some frame) := by
  intro fixed tests asks gets columns header output shown all last
  have hs := hr.sound r hm
  have hF : fixedLines r = fixed := by
    simp only [fixedLines, fixed]
    omega
  -- A grant is never more than what its test asks for, so the limit on output is met by itself.
  have blocks (p : Package) (hp : p ∈ r.packages.values) (ho : p.isOpen = true) (t : Test)
      (ht : t ∈ r.testsIn p) : v.testEntries m columns
        (((r.grants v.maxOutput (height - fixed)).get? ⟨p.name, t.name⟩).getD 0) t = shown t := by
    have member : t ∈ r.openTests := List.mem_flatMap.2 ⟨p, List.mem_filter.2 ⟨hp, ho⟩, ht⟩
    have most : gets t ≤ (Request.ofTest v.maxOutput t).lines :=
      le_trans (hs.linesOf_le member) (Nat.min_le_left _ _)
    rw [← hs.package_eq hp ht]
    exact v.testEntries_of_le m columns most
  have hall : v.entries m width height r = all := by
    simp only [entries, all, hF]
    congr 2
    apply List.flatMap_congr
    intro p hp
    rw [packageEntries_eq, testBlock]
    congr 1
    cases ho : p.isOpen with
    | false =>
      have closed : ¬ (p.status == .running || p.status == .interrupted) = true := by
        simpa [Package.isOpen] using ho
      exact (if_neg Bool.false_ne_true).trans (if_neg closed).symm
    | true =>
      refine (if_pos rfl).trans (Eq.trans ?_ (if_pos ho).symm)
      exact List.flatMap_congr (blocks p hp ho)
  refine ⟨?_, ?_, ?_, ⟨?_, fun _ => rfl, fun _ => rfl⟩, ?_, ?_, ?_, ?_⟩
  · intro i j t u ht hu before some_line
    exact hs.linesOf_eq_of_precedes ht hu before some_line
  · intro t ht
    exact le_trans (hs.linesOf_le ht) (Nat.min_le_left _ _)
  · rintro ⟨t, ht, wanting⟩
    exact hs.totalLines_of_lt ht wanting
  · rw [← hall, frame?, lines?, Option.map_map]
    rfl
  · rintro ⟨t, ht, some_line⟩
    have budget : gets t ≤ height - fixed := le_trans (hs.linesOf_le ht) (Nat.min_le_right _ _)
    have length := v.length_entries m hs width height
    rw [hall, hF] at length
    omega
  · obtain ⟨events, made⟩ := hr.exists_madeBy r hm
    exact ⟨events, made, made.names hs⟩
  · rw [← hall]
    exact frame?_eq_none_iff
  · exact fun texts => v.exists_frame?_of_texts m width texts height

/-- A test that failed and two running tests of two packages, with three lines for them: the running
one that began later gets both lines that it asks for, since the other one gets one. -/
theorem space_follows_priority_three_tests :
    let h := History.pushAll .live [(default, ⟨default, .fail, "a", "S", "", none⟩),
      (default, ⟨default, .output, "a", "T", "x", none⟩),
      (default, ⟨⟨1, 0, 0⟩, .output, "b", "T", "x", none⟩)] .empty
    let s : Test := ⟨"a", "S", .failed, default, default, .zero, [], none⟩
    let t : Test := ⟨"a", "T", .running, default, default, .zero, ["x"], none⟩
    let u : Test := ⟨"b", "T", .running, ⟨1, 0, 0⟩, default, .zero, ["x"], none⟩
    let budget (r : Run) := 7 - (r.looseOutput.length + (if r.looseOutput = [] then 0 else 1) +
      (r.packages.size + if r.packages.isEmpty then 0 else 1) + 1)
    h.runs.length = 1 ∧ ∀ r ∈ h.runs, r.linesOf 3 (budget r) s = 0 ∧
      r.linesOf 3 (budget r) t = 1 ∧ r.linesOf 3 (budget r) u = 2 := by
  intro h s t u budget
  have hr : h.Reachable .live := History.Reachable.start.pushAll _
  have facts : ∀ r ∈ h.runs, r.openTests = [s, t, u] ∧ budget r = 3 := by decide +kernel
  refine ⟨rfl, fun r hm => ?_⟩
  obtain ⟨open_tests, three⟩ := facts r hm
  obtain ⟨order, _⟩ := space_follows_priority ⟨⟨false, false⟩, 3, .fixed⟩ ⟨default, none⟩ hr hm 40 7
  have urgent : 1 ≤ r.linesOf 3 (budget r) s → r.linesOf 3 (budget r) t = 2 :=
    order 1 0 t s (congrArg (·[1]?) open_tests) (congrArg (·[0]?) open_tests) (.inl (by decide))
  have later : 1 ≤ r.linesOf 3 (budget r) t → r.linesOf 3 (budget r) u = 2 :=
    order 2 1 u t (congrArg (·[2]?) open_tests) (congrArg (·[1]?) open_tests) (.inr (by decide))
  have most : r.linesOf 3 (budget r) u ≤ 2 :=
    (hr.sound r hm).linesOf_le (open_tests ▸ by simp) |>.trans (Nat.min_le_left _ _)
  have total : r.linesOf 3 (budget r) s + (r.linesOf 3 (budget r) t + r.linesOf 3 (budget r) u) =
      3 := by
    have := (hr.sound r hm).totalLines_linesOf 3 (budget r)
    rw [open_tests, three] at this
    rw [three]
    exact this
  omega

/-- A test is running in one package, and the other one has passed. The label of the latter is cut
to four columns where it is given two, so that neither is shown. -/
theorem no_frame_of_running_test :
    let h := History.pushAll .live [(default, ⟨default, .output, "p", "", "\x1b77777\n", none⟩),
      (default, ⟨default, .run, "q", "T", "", none⟩),
      (default, ⟨default, .pass, "p", "", "", none⟩)] .empty
    h.Reachable .live ∧ ∃ r ∈ h.runs, r.linesOf 6 (24 - fixedLines r) ⟨"q", "T", .running, default,
      default, .zero, [], none⟩ = 1 ∧
        frame? ⟨⟨false, false⟩, 6, .heuristic⟩ ⟨default, none⟩ 17 24 r = none :=
  ⟨History.Reachable.start.pushAll _, by decide +kernel⟩

end Viewer
end TestWatch
