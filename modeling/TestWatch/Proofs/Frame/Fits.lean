import TestWatch.Proofs.Frame.Rendering
import TestWatch.Proofs.Run.Texts
import TestWatch.Proofs.Text.Tint

/-!
# When a frame can be rendered

Of all subtractions of a frame only one kind can fail: a label that is too wide is cut, but what is
cut and what takes columns are told apart by two different rules for escape sequences. Where both
agree, as on clean texts, the label fits once it is cut.
-/

namespace TestWatch

theorem Text.fits_of_mem_tabSubtractions {cs : List Char} {s : Subtraction}
    (h : s ∈ tabSubtractions cs) : s.Fits := by
  obtain ⟨column, _, rfl⟩ := List.mem_map.1 h
  exact Nat.le_of_lt (Nat.mod_lt _ (by decide))

theorem fits_of_mem_grantSubtractions {budget : Nat} {ns : List Nat} {s : Subtraction}
    (h : s ∈ grantSubtractions budget ns) : s.Fits := by
  induction ns generalizing budget with
  | nil => cases h
  | cons n ns ih =>
    rcases List.mem_cons.1 h with rfl | h
    · exact Nat.min_le_right _ _
    · exact ih h

/-- A clean label fits once it is cut. -/
theorem Text.Clean.width_fitLabel_le {label : List Char} (h : Clean Plain label) (budget : Nat) :
    width (fitLabel budget label) ≤ budget := by
  unfold fitLabel
  split
  · exact h.width_cut_le (fun _ hc => hc) budget
  · omega

theorem Text.Clean.paint {P : Char → Prop} {cs : List Char} (h : Clean P cs) (look : Look)
    (s : Style) : Clean P (look.paint s cs) := by
  obtain ⟨off, -, reset_eq⟩ := exists_control_reset
  obtain ⟨on, -, on_eq⟩ := exists_control_on s
  unfold Look.paint
  split
  · have closed : Clean P (cs ++ off.text) := by
      have ending := Clean.control (P := P) off .nil
      rw [List.append_nil] at ending
      exact h.append ending
    rw [reset_eq, on_eq, List.append_assoc]
    exact .control on closed
  · exact h

def TestEvent.Clean (e : TestEvent) : Prop :=
  Text.Clean Text.Plain e.package.toList ∧ Text.Clean Text.Plain e.test.toList ∧
    Text.Clean Text.Plain e.output.toList

theorem TestEvent.Clean.texts {e : TestEvent} (h : e.Clean) : e.Texts (Text.Clean Text.Plain) := by
  obtain ⟨package, test, output⟩ := h
  exact ⟨package, test, output.trimEnd, output.trimEnd.trimStart⟩

theorem Aligned.fits_of_clean {a : Aligned} (h : Text.Clean Text.Plain a.label) (width : Nat) :
    (a.padding width).Fits :=
  h.width_fitLabel_le (a.budget width)

namespace Viewer

variable (v : Viewer) (m : Moment) (columns : Columns) (width : Nat)

theorem packageSubtractions_fit_iff (p : Package) :
    (∀ s ∈ v.packageSubtractions m columns width p, s.Fits) ↔
      ((v.alignedPackage m columns p).padding width).Fits := by
  rw [packageSubtractions, List.forall_mem_append, List.forall_mem_singleton]
  exact and_iff_right fun s hs => Text.fits_of_mem_tabSubtractions hs

theorem testSubtractions_fit_iff (lines : Nat) (t : Test) :
    (∀ s ∈ v.testSubtractions m columns width lines t, s.Fits) ↔
      (0 < lines → ((v.alignedTest m columns t).padding width).Fits) := by
  cases lines with
  | zero => simp [testSubtractions]
  | succ n =>
    have shown : ∀ s ∈ (if t.status = .running then
        ⟨n + 1, 1⟩ :: ⟨t.output.length, min (min n v.maxOutput) t.output.length⟩ ::
          (v.testOutput n t).flatMap fun l => Text.tabSubtractions l.toList
        else []), Subtraction.Fits s := by
      split
      · rw [List.forall_mem_cons, List.forall_mem_cons, List.forall_mem_flatMap]
        refine ⟨Nat.le_add_left _ _, Nat.min_le_right _ _, fun l _ s hs => ?_⟩
        exact Text.fits_of_mem_tabSubtractions hs
      · simp
    rw [testSubtractions, List.forall_mem_append, List.forall_mem_cons]
    constructor
    · exact fun h _ => h.2.1
    · exact fun h => ⟨fun s hs => Text.fits_of_mem_tabSubtractions hs, h (Nat.succ_pos n), shown⟩

/-- The aligned lines of a frame: those of packages, of tests that are shown, and of the run. -/
def aligned (height : Nat) (r : Run) : List Aligned :=
  let columns := Columns.ofRun m r
  let grants := r.grants v.maxOutput (height - fixedLines r)
  r.packages.values.flatMap (fun p => v.alignedPackage m columns p ::
    if p.isOpen then
      ((r.testsIn p).filter fun t => 0 < (grants.get? ⟨p.name, t.name⟩).getD 0).map
        (v.alignedTest m columns)
    else []) ++
    [v.alignedRun m columns r]

theorem subtractions_fit_iff (height : Nat) (r : Run) :
    (∀ s ∈ v.subtractions m width height r, s.Fits) ↔
      ∀ a ∈ v.aligned m height r, (a.padding width).Fits := by
  rw [subtractions, aligned, List.forall_mem_append, List.forall_mem_append, List.forall_mem_append,
    List.forall_mem_append, List.forall_mem_flatMap, List.forall_mem_flatMap,
    List.forall_mem_flatMap, List.forall_mem_singleton, List.forall_mem_singleton]
  have loose : ∀ l ∈ r.looseOutput, ∀ s ∈ Text.tabSubtractions l.toList, s.Fits :=
    fun l _ s hs => Text.fits_of_mem_tabSubtractions hs
  have grants : ∀ s ∈ grantSubtractions (height - fixedLines r)
      ((Request.sorted (r.requests v.maxOutput)).map Request.lines), s.Fits :=
    fun s hs => fits_of_mem_grantSubtractions hs
  rw [and_iff_right (And.intro loose grants)]
  refine and_congr_left fun _ => forall₂_congr fun p _ => ?_
  rw [List.forall_mem_append, List.forall_mem_cons, packageSubtractions_fit_iff]
  refine and_congr_right fun _ => ?_
  split
  · rw [List.forall_mem_flatMap, List.forall_mem_map]
    simp only [testSubtractions_fit_iff, List.mem_filter, decide_eq_true_eq, and_imp]
  · simp

theorem aligned_mem_testEntries_iff {lines : Nat} {t : Test} {a : Aligned} :
    .aligned a ∈ v.testEntries m columns lines t ↔ 0 < lines ∧ a = v.alignedTest m columns t := by
  cases lines with
  | zero => exact iff_of_false List.not_mem_nil fun h => Nat.lt_irrefl 0 h.1
  | succ n => simp [testEntries, outputEntry]

theorem aligned_mem_packageEntries_iff {grants : Table TestKey Nat} {r : Run} {p : Package}
    {a : Aligned} : .aligned a ∈ v.packageEntries m columns grants r p ↔
      a ∈ v.alignedPackage m columns p :: if p.isOpen then
        ((r.testsIn p).filter fun t => 0 < (grants.get? ⟨p.name, t.name⟩).getD 0).map
          (v.alignedTest m columns)
      else [] := by
  rw [packageEntries, List.mem_cons, List.mem_cons, Entry.aligned.injEq]
  refine or_congr_right ?_
  split
  · simp only [List.mem_flatMap, aligned_mem_testEntries_iff, List.mem_map, List.mem_filter,
      decide_eq_true_eq, and_assoc, eq_comm (a := a)]
  · simp

theorem mem_aligned_iff {height : Nat} {r : Run} {a : Aligned} :
    a ∈ v.aligned m height r ↔ .aligned a ∈ v.entries m width height r := by
  have loose : .aligned a ∉ looseEntries r := by
    unfold looseEntries
    split <;> simp
  have last (columns : Columns) :
      .aligned a ∈ v.footer m columns width r ↔ a = v.alignedRun m columns r := by
    unfold footer
    split <;> simp
  rw [entries, aligned, List.mem_append, List.mem_append, List.mem_append, or_iff_right loose, last,
    List.mem_singleton, List.mem_flatMap, List.mem_flatMap]
  simp only [aligned_mem_packageEntries_iff]

theorem frame?_eq_none_iff_aligned {height : Nat} {r : Run} : v.frame? m width height r = none ↔
    ∃ a ∈ v.aligned m height r, a.budget width < Text.width (a.fitted width) := by
  rw [frame?_eq_none_iff]
  simp only [v.mem_aligned_iff m width]

theorem fits_of_texts {r : Run} (h : r.Texts (Text.Clean Text.Plain)) (height : Nat) :
    ∀ a ∈ v.aligned m height r, (a.padding width).Fits := by
  have expanded {cs : List Char} (hc : Text.Clean Text.Plain cs) :
      Text.Clean Text.Plain (Text.expandTabs cs) := hc.expandTabs (fun _ hp => hp) (by decide)
  rw [aligned, List.forall_mem_append, List.forall_mem_flatMap, List.forall_mem_singleton]
  constructor
  · intro p hp
    rw [List.forall_mem_cons]
    refine ⟨Aligned.fits_of_clean (expanded (h.package hp).label) width, ?_⟩
    split
    · rw [List.forall_mem_map]
      intro t ht
      have label : Text.Clean Text.Plain (testLabel t).toList :=
        (h.test (List.mem_of_mem_filter ht)).label fun cs hcs =>
          (Text.Clean.of_all (by decide)).append hcs
      exact Aligned.fits_of_clean (expanded label) width
    · simp
  · have status : Text.Clean Text.Plain r.status.word.toList := by
      cases r.status <;> exact .of_all (by decide)
    exact Aligned.fits_of_clean (status.paint _ _) width

/-- A run of clean texts has a frame in every size. -/
theorem exists_frame?_of_texts {r : Run} (h : r.Texts (Text.Clean Text.Plain)) (height : Nat) :
    ∃ frame, v.frame? m width height r = some frame := by
  rw [← Option.isSome_iff_exists, ← Option.not_isNone, Bool.not_eq_true', ← Bool.not_eq_true,
    Option.isNone_iff_eq_none, frame?_eq_none_iff_aligned]
  rintro ⟨a, ha, tight⟩
  exact Nat.not_lt.2 (v.fits_of_texts m width h height a ha) tight

end Viewer

/-- What an aligned line says if its label fits. -/
def Aligned.line (a : Aligned) (width : Nat) : List Char :=
  joinHalves (a.lead ++ a.fitted width) a.right (a.budget width - Text.width (a.fitted width))

/-- What an entry says if its label fits. -/
def Entry.line (width : Nat) : Entry → List Char
  | aligned a => a.line width
  | cut line => fitLine line width
  | whole line => line

theorem Entry.text?_eq_some {width : Nat} {e : Entry}
    (fits : ∀ a, e = .aligned a → (a.padding width).Fits) : e.text? width = some (e.line width) := by
  cases e with
  | aligned a => exact if_pos (fits a rfl)
  | cut _ => rfl
  | whole _ => rfl

namespace Viewer

variable (v : Viewer) (m : Moment) (width : Nat)

/-- What a frame says if all labels fit. -/
def frame (height : Nat) (r : Run) : List Char :=
  let all := (v.entries m width height r).map (Entry.line width)
  List.intercalate ['\n'] (all.drop (all.length - height))

theorem frame?_eq_some {height : Nat} {r : Run}
    (fits : ∀ a ∈ v.aligned m height r, (a.padding width).Fits) :
    v.frame? m width height r = some (v.frame m width height r) := by
  have written : (v.entries m width height r).mapM (Entry.text? width) =
      some ((v.entries m width height r).map (Entry.line width)) := by
    rw [mapM_eq_some_iff, List.map_map]
    apply List.map_congr_left
    intro e he
    apply Entry.text?_eq_some
    rintro a rfl
    exact fits a ((v.mem_aligned_iff m width).2 he)
  rw [frame?, lines?, written]
  rfl

/-- A frame can be rendered exactly if each label, once it is cut, takes no more columns than it is
given. No other subtraction fails. Labels of clean events do so in every size, and more generally a
clean label does beside any other text. -/
theorem rendering_fits_iff (mode : Mode) (events : List (Timestamp × TestEvent)) {r : Run}
    (hr : r ∈ (History.empty.pushAll mode events).runs) (height : Nat) :
    let frame := v.frame m width height r
    ((∀ s ∈ v.subtractions m width height r, s.Fits) ↔
      ∀ a ∈ v.aligned m height r, Text.width (a.fitted width) ≤ a.budget width) ∧
    (v.frame? m width height r =
      if ∀ a ∈ v.aligned m height r, Text.width (a.fitted width) ≤ a.budget width then some frame
      else none) ∧
    ((∀ e ∈ events, e.2.Clean) → v.frame? m width height r = some frame) ∧
    ∀ lead label right, Text.Clean Text.Plain label →
      Text.width (fitLabel (labelBudget lead right width) label) ≤ labelBudget lead right width := by
  intro frame
  refine ⟨v.subtractions_fit_iff m width height r, ?_, fun h => ?_,
    fun lead label right h => h.width_fitLabel_le _⟩
  · split
    · rename_i fits
      exact v.frame?_eq_some m width fits
    · rename_i tight
      push Not at tight
      exact (v.frame?_eq_none_iff_aligned m width).2 tight
  · have texts := History.texts_pushAll mode (fun e he => (h e he).texts) r hr
    exact v.frame?_eq_some m width (v.fits_of_texts m width texts height)

/-- A coloured line of output, in a frame that has no room for it. -/
theorem rendering_fits_iff_colored :
    let events : List (Timestamp × TestEvent) :=
      [(default, ⟨default, .output, "p", "", "\x1b[31mred", none⟩),
        (default, ⟨default, .pass, "p", "", "", none⟩)]
    let v : Viewer := ⟨⟨false, false⟩, 6, .heuristic⟩
    ∃ r ∈ (History.empty.pushAll .live events).runs,
      v.frame? ⟨default, none⟩ 17 24 r = some (v.frame ⟨default, none⟩ 17 24 r) := by
  intro events v
  have red : Text.Clean Text.Plain "\x1b[31mred".toList :=
    .control ⟨[['3', '1']], 'm', by decide, by decide⟩ (.of_all (by decide))
  have clean : ∀ e ∈ events, e.2.Clean := by
    intro e he
    rcases List.mem_cons.1 he with rfl | he
    · exact ⟨.of_all (by decide), .of_all (by decide), red⟩
    · rw [List.mem_singleton.1 he]
      exact ⟨.of_all (by decide), .of_all (by decide), .of_all (by decide)⟩
  obtain ⟨r, hr⟩ : ∃ r, r ∈ (History.empty.pushAll .live events).runs := ⟨_, List.mem_cons_self⟩
  exact ⟨r, hr, (rendering_fits_iff v _ 17 .live events hr 24).2.2.1 clean⟩

/-- Five digits after an escape character are kept when a label is cut, but the terminal takes only
the first of them for a part of the sequence. So four columns are taken from two. -/
theorem not_fits_digits_after_escape :
    let events : List (Timestamp × TestEvent) :=
      [(default, ⟨default, .output, "p", "", "\x1b77777\n", none⟩),
        (default, ⟨default, .pass, "p", "", "", none⟩)]
    let v : Viewer := ⟨⟨false, false⟩, 6, .heuristic⟩
    ∃ r ∈ (History.empty.pushAll .live events).runs,
      ⟨2, 4⟩ ∈ v.subtractions ⟨default, none⟩ 17 24 r ∧
        v.frame? ⟨default, none⟩ 17 24 r = none := by
  decide +kernel

end Viewer
end TestWatch
