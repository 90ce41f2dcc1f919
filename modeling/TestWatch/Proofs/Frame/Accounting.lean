import TestWatch.Proofs.Frame.Fits
import TestWatch.Proofs.Frame.Grants

/-!
# The lines of a frame add up

A test that is granted some lines takes as many, so a frame has its fixed lines and those that were
granted. What is granted is what is asked for, as far as the height goes beyond the fixed lines; if
it does not, no test is shown, and the frame is the end of the one with all fixed lines.
-/

namespace TestWatch

theorem length_flatMap_eq_totalLines {α β : Type} {xs : List α} {f : α → List β} {g : α → Nat}
    (h : ∀ x ∈ xs, (f x).length = g x) : (xs.flatMap f).length = totalLines (xs.map g) := by
  induction xs with
  | nil => rfl
  | cons x xs ih =>
    have := ih fun y hy => h y (List.mem_cons_of_mem _ hy)
    simp [this, h x List.mem_cons_self]

namespace Viewer

variable (v : Viewer) (m : Moment) (columns : Columns)

theorem length_testOutput (lines : Nat) (t : Test) :
    (v.testOutput lines t).length =
      if t.status = .running then min lines (min t.output.length v.maxOutput) else 0 := by
  unfold testOutput
  split
  · rw [List.length_drop]
    omega
  · rfl

theorem length_testEntries {lines : Nat} {t : Test}
    (h : lines ≤ (Request.ofTest v.maxOutput t).lines) :
    (v.testEntries m columns lines t).length = lines := by
  cases lines with
  | zero => rfl
  | succ n =>
    simp only [Request.ofTest] at h
    rw [testEntries, List.length_cons, List.length_map, length_testOutput]
    split
    · rw [if_pos ‹_›] at h
      omega
    · rw [if_neg ‹_›] at h
      omega

theorem length_looseEntries (r : Run) : (looseEntries r).length =
    r.looseOutput.length + (if r.looseOutput = [] then 0 else 1) := by
  unfold looseEntries
  rw [List.length_append, List.length_map]
  split <;> rfl

theorem length_footer (width : Nat) (r : Run) :
    (v.footer m columns width r).length = (if r.packages.isEmpty then 0 else 1) + 1 := by
  unfold footer
  split <;> rfl

def testBlock (grants : Table TestKey Nat) (r : Run) (p : Package) : List Entry :=
  if p.isOpen then
    (r.testsIn p).flatMap fun t =>
      v.testEntries m columns ((grants.get? ⟨p.name, t.name⟩).getD 0) t
  else []

theorem packageEntries_eq (grants : Table TestKey Nat) (r : Run) (p : Package) :
    v.packageEntries m columns grants r p =
      .aligned (v.alignedPackage m columns p) :: v.testBlock m columns grants r p := rfl

theorem length_flatMap_packageEntries (grants : Table TestKey Nat) (r : Run) (ps : List Package) :
    (ps.flatMap (v.packageEntries m columns grants r)).length =
      ps.length + (ps.flatMap (v.testBlock m columns grants r)).length := by
  induction ps with
  | nil => rfl
  | cons p ps ih =>
    simp only [List.flatMap_cons, List.length_append, ih, packageEntries_eq, List.length_cons]
    omega

theorem getLast?_entries (width height : Nat) (r : Run) :
    (v.entries m width height r).getLast? = some (.aligned (v.alignedRun m (.ofRun m r) r)) := by
  simp [entries, footer, List.getLast?_append]

theorem testEntries_infix_packageEntries {r : Run} {p : Package} (ho : p.isOpen = true) {t : Test}
    (ht : t ∈ r.testsIn p) (grants : Table TestKey Nat) :
    v.testEntries m columns ((grants.get? ⟨p.name, t.name⟩).getD 0) t <:+:
      v.packageEntries m columns grants r p := by
  have block : v.testEntries m columns ((grants.get? ⟨p.name, t.name⟩).getD 0) t <:+:
      v.testBlock m columns grants r p := by
    rw [testBlock, if_pos ho]
    exact List.infix_of_mem_flatten (List.mem_map.2 ⟨t, ht, rfl⟩)
  exact block.trans (List.suffix_cons _ _).isInfix

/-- The entries of a test stand one below the other in the frame. -/
theorem testEntries_infix_entries (width height : Nat) {r : Run} {p : Package}
    (hp : p ∈ r.packages.values) (ho : p.isOpen = true) {t : Test} (ht : t ∈ r.testsIn p) :
    v.testEntries m (.ofRun m r) (((r.grants v.maxOutput (height - fixedLines r)).get?
      ⟨p.name, t.name⟩).getD 0) t <:+: v.entries m width height r := by
  have package : v.packageEntries m (.ofRun m r) (r.grants v.maxOutput (height - fixedLines r)) r p
      <:+: r.packages.values.flatMap
        (v.packageEntries m (.ofRun m r) (r.grants v.maxOutput (height - fixedLines r)) r) :=
    List.infix_of_mem_flatten (List.mem_map_of_mem hp)
  have test := v.testEntries_infix_packageEntries m (.ofRun m r) ho ht
    (r.grants v.maxOutput (height - fixedLines r))
  exact (test.trans package).trans (List.infix_append _ _ _)

section Sound

variable {r : Run} (hs : r.Sound) (budget : Nat)
include hs

theorem exists_length_testEntries {p : Package} (hp : p ∈ r.packages.values)
    (ho : p.isOpen = true) {t : Test} (ht : t ∈ r.testsIn p) :
    ∃ g, (r.grants v.maxOutput budget).get? ⟨p.name, t.name⟩ = some g ∧
      (v.testEntries m columns g t).length = g := by
  have hq : Request.ofTest v.maxOutput t ∈ r.requests v.maxOutput :=
    List.mem_map_of_mem (List.mem_flatMap.2 ⟨p, List.mem_filter.2 ⟨hp, ho⟩, ht⟩)
  obtain ⟨g, hg, hle⟩ := hs.exists_grant budget hq
  refine ⟨g, ?_, v.length_testEntries m columns (by omega)⟩
  rw [← hs.package_eq hp ht]
  exact hg

/-- The entries of tests are those of the requests, in the order in which they came. -/
theorem flatMap_testBlock (grants : Table TestKey Nat) (maxOutput : Nat) :
    r.packages.values.flatMap (v.testBlock m columns grants r) =
      (r.requests maxOutput).flatMap fun q =>
        v.testEntries m columns ((grants.get? q.key).getD 0) q.test := by
  have blocks (ps : List Package) (hps : ∀ p ∈ ps, p ∈ r.packages.values) :
      ps.flatMap (v.testBlock m columns grants r) =
        ((ps.filter Package.isOpen).flatMap r.testsIn).flatMap fun t =>
          v.testEntries m columns ((grants.get? ⟨t.package, t.name⟩).getD 0) t := by
    induction ps with
    | nil => rfl
    | cons p ps ih =>
      have rest := ih fun q hq => hps q (List.mem_cons_of_mem _ hq)
      rw [List.flatMap_cons, rest, testBlock]
      cases ho : p.isOpen with
      | false => simp [ho]
      | true =>
        rw [List.filter_cons_of_pos ho, List.flatMap_cons, List.flatMap_append, if_pos rfl]
        congr 1
        apply List.flatMap_congr
        intro t ht
        rw [hs.package_eq (hps p List.mem_cons_self) ht]
  rw [blocks _ fun p hp => hp, Run.requests, List.flatMap_map]
  rfl

/-- Tests take as many lines as they ask for together, or as there are. -/
theorem length_flatMap_testBlock :
    (r.packages.values.flatMap
        (v.testBlock m columns (r.grants v.maxOutput budget) r)).length =
      min (totalLines ((r.requests v.maxOutput).map Request.lines)) budget := by
  rw [flatMap_testBlock v m columns hs _ v.maxOutput, ← hs.totalLines_grants,
    length_flatMap_eq_totalLines]
  intro q hq
  obtain ⟨g, hg, hle⟩ := hs.exists_grant budget hq
  obtain ⟨t, _, rfl⟩ := List.mem_map.1 hq
  rw [hg, Option.getD_some]
  change (v.testEntries m columns g t).length = g
  exact v.length_testEntries m columns (by omega)

theorem length_entries (width height : Nat) :
    (v.entries m width height r).length = fixedLines r +
      min (totalLines ((r.requests v.maxOutput).map Request.lines)) (height - fixedLines r) := by
  have blocks := v.length_flatMap_testBlock m (.ofRun m r) hs (height - fixedLines r)
  have fixed : fixedLines r =
      (looseEntries r).length + r.packages.size + (v.footer m (.ofRun m r) width r).length := by
    rw [length_looseEntries, length_footer, fixedLines]
    omega
  simp only [entries, List.length_append, length_flatMap_packageEntries, blocks,
    Table.length_values]
  omega

/-- Where nothing is left for tests, only the fixed lines are there. -/
theorem entries_of_le {height : Nat} (h : height ≤ fixedLines r) (width : Nat) :
    v.entries m width height r = looseEntries r ++
      r.packages.values.map (fun p => .aligned (v.alignedPackage m (.ofRun m r) p)) ++
        v.footer m (.ofRun m r) width r := by
  have none_left : height - fixedLines r = 0 := by omega
  have blocks := v.length_flatMap_testBlock m (.ofRun m r) hs 0
  rw [Nat.min_zero, List.length_eq_zero_iff, List.flatMap_eq_nil_iff] at blocks
  rw [entries, none_left]
  congr 2
  rw [List.map_eq_flatMap]
  apply List.flatMap_congr
  intro p hp
  rw [packageEntries_eq, blocks p hp]

/-- Where the height is less than the fixed lines, the last of those are shown. -/
theorem lines?_of_le {height : Nat} (h : height ≤ fixedLines r) (width : Nat) :
    v.lines? m width height r = (v.lines? m width (fixedLines r) r).map fun all =>
      all.drop (fixedLines r - height) := by
  have same : v.entries m width (fixedLines r) r = v.entries m width height r := by
    rw [v.entries_of_le m hs h, v.entries_of_le m hs (Nat.le_refl _)]
  have length := v.length_entries m hs width height
  rw [lines?, lines?, same, Option.map_map]
  apply Option.map_congr
  intro all written
  have as_many := length_of_mapM written
  have all_fixed : all.length = fixedLines r := by omega
  simp [all_fixed]

end Sound

theorem getLast?_lines? {width height : Nat} {r : Run} {lines : List (List Char)}
    (h : v.lines? m width height r = some lines) (some_line : 1 ≤ height) :
    lines.getLast? = (Entry.aligned (v.alignedRun m (.ofRun m r) r)).text? width := by
  have last := v.getLast?_entries m width height r
  have entry : v.entries m width height r ≠ [] := by
    intro none
    rw [none] at last
    cases last
  have bound := List.length_pos_iff.2 entry
  have written := congrArg List.getLast? (map_some_of_lines? h)
  rw [List.getLast?_map, List.getLast?_drop, List.length_map, if_neg (by omega), List.getLast?_map,
    last] at written
  cases hl : lines.getLast? with
  | none =>
    rw [hl] at written
    cases written
  | some l =>
    rw [hl] at written
    exact Option.some.inj written

/-- What a frame of a run that comes about says takes as many lines as are fixed, and those that its
open tests ask for as far as the height goes; each test takes what it is granted, and the line of
the run comes last. If all of it can be written, the frame has a line for each entry; only when the
fixed ones are too many, the first of them are left out, and no test is shown. It can be written if
no label takes more columns than it is given once it is cut, so always if all texts of the run are
clean. -/
theorem frame_accounts {mode : Mode} {h : History} (hr : h.Reachable mode) {r : Run}
    (hm : r ∈ h.runs) (width height : Nat) :
    let fixed := r.looseOutput.length + (if r.looseOutput = [] then 0 else 1) +
      (r.packages.size + if r.packages.isEmpty then 0 else 1) + 1
    let tests := (r.packages.values.filter fun p =>
      p.status == .running || p.status == .interrupted).flatMap r.testsIn
    let asked := totalLines (tests.map fun t =>
      1 + if t.status = .running then min t.output.length v.maxOutput else 0)
    let columns := Columns.ofRun m r
    let last := v.alignedRun m columns r
    let entries := v.entries m width height r
    (entries.length = fixed + min asked (height - fixed) ∧ entries.getLast? = some (.aligned last)) ∧
      (∀ p ∈ r.packages.values, p.isOpen → ∀ t ∈ r.testsIn p, ∃ g,
        (r.grants v.maxOutput (height - fixed)).get? ⟨p.name, t.name⟩ = some g ∧
          (v.testEntries m columns g t).length = g ∧ v.testEntries m columns g t <:+: entries) ∧
      (height ≤ fixed → entries = looseEntries r ++
        r.packages.values.map (fun p => .aligned (v.alignedPackage m columns p)) ++
          v.footer m columns width r) ∧
      v.frame? m width height r = (v.lines? m width height r).map (List.intercalate ['\n']) ∧
      (∀ lines, v.lines? m width height r = some lines →
        lines.length = min height (fixed + asked) ∧
          lines.map some = (entries.drop (entries.length - height)).map (Entry.text? width) ∧
          (fixed ≤ height → lines.map some = entries.map (Entry.text? width)) ∧
          (1 ≤ height → lines.getLast? = alignLine? last.lead last.label last.right width)) ∧
      (height ≤ fixed → v.lines? m width height r =
        (v.lines? m width fixed r).map fun all => all.drop (fixed - height)) ∧
      (v.frame? m width height r = none ↔
        ∃ a, .aligned a ∈ entries ∧ a.budget width < Text.width (a.fitted width)) ∧
      (r.Texts (Text.Clean Text.Plain) → ∃ frame, v.frame? m width height r = some frame) := by
  intro fixed tests asked columns last entries
  have hs := hr.sound r hm
  have hF : fixedLines r = fixed := by
    simp only [fixedLines, fixed]
    omega
  have hQ : totalLines ((r.requests v.maxOutput).map Request.lines) = asked := by
    rw [Run.requests, List.map_map]
    rfl
  have length : entries.length = fixed + min asked (height - fixed) := by
    rw [← hF, ← hQ]
    exact v.length_entries m hs width height
  refine ⟨⟨length, v.getLast?_entries m width height r⟩, ?_, ?_, rfl, ?_, ?_, ?_, ?_⟩
  · intro p hp ho t ht
    obtain ⟨g, granted, as_many⟩ := v.exists_length_testEntries m columns hs (height - fixed) hp ho ht
    refine ⟨g, granted, as_many, ?_⟩
    have shown := v.testEntries_infix_entries m width height hp ho ht
    rwa [hF, granted] at shown
  · rw [← hF]
    exact fun h => v.entries_of_le m hs h width
  · intro lines hl
    have written := map_some_of_lines? hl
    refine ⟨?_, ?_, ?_, v.getLast?_lines? m hl⟩
    · rw [length_of_lines? hl, length]
      omega
    · rw [written, List.map_drop]
    · intro room
      have none_dropped : entries.length - height = 0 := by omega
      rw [written, none_dropped, List.drop_zero]
  · rw [← hF]
    exact fun h => v.lines?_of_le m hs h width
  · exact frame?_eq_none_iff
  · exact fun texts => v.exists_frame?_of_texts m width texts height

/-- A running test that printed a line asks for two lines, and gets one of them. -/
theorem frame_accounts_running_test :
    let h := History.pushAll .live [(default, ⟨default, .run, "a", "T", "", none⟩),
      (default, ⟨default, .output, "a", "T", "x", none⟩)] .empty
    let v : Viewer := ⟨⟨false, false⟩, 3, .fixed⟩
    ∃ r ∈ h.runs, (r.requests 3).map Request.lines = [2] ∧
      ∃ lines, v.lines? ⟨default, none⟩ 40 4 r = some lines ∧ lines.length = 4 := by
  intro h v
  have hr : h.Reachable .live := History.Reachable.start.pushAll _
  have written : ∀ r ∈ h.runs, (v.lines? ⟨default, none⟩ 40 4 r).isSome := by decide +kernel
  obtain ⟨lines, shown⟩ := Option.isSome_iff_exists.1 (written _ List.mem_cons_self)
  obtain ⟨_, _, _, _, accounts, _⟩ := frame_accounts v ⟨default, none⟩ hr List.mem_cons_self 40 4
  exact ⟨_, List.mem_cons_self, by decide, lines, shown, (accounts lines shown).1.trans (by decide)⟩

/-- In a frame of two lines the line of the package is left out. But it cannot be written, since its
label is cut to four columns where it is given two, and so there is no frame. -/
theorem no_frame_of_dropped_label :
    let h := History.pushAll .live [(default, ⟨default, .output, "p", "", "\x1b77777\n", none⟩),
      (default, ⟨default, .pass, "p", "", "", none⟩)] .empty
    h.Reachable .live ∧ ∃ r ∈ h.runs,
      frame? ⟨⟨false, false⟩, 6, .heuristic⟩ ⟨default, none⟩ 17 2 r = none :=
  ⟨History.Reachable.start.pushAll _, by decide +kernel⟩

end Viewer
end TestWatch
