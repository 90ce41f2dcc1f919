import TestWatch.Proofs.Run.Sound

/-!
# An event touches one package

What an event does to a run concerns the package that it names, and depends on nothing that the run
knows of other packages. `Run.AgreeOn` compares what two runs know of one package, and `Run.Local`
are the changes of this kind.
-/

namespace TestWatch

namespace Run

/-- Both runs know the same of a package and its tests. What belongs to no package are the loose
lines. -/
structure AgreeOn (p : String) (r r' : Run) : Prop where
  package : r.packages.get? p = r'.packages.get? p
  tests : ∀ x, r.tests.get? ⟨p, x⟩ = r'.tests.get? ⟨p, x⟩
  loose : p = "" → r.looseOutput = r'.looseOutput

namespace AgreeOn

variable {p : String} {r s t : Run}

/-- Times, counts and the end of the run belong to no package. -/
theorem of_eq (packages : r.packages = s.packages) (tests : r.tests = s.tests)
    (loose : r.looseOutput = s.looseOutput) : AgreeOn p r s :=
  ⟨by rw [packages], fun x => by rw [tests], fun _ => loose⟩

theorem refl : AgreeOn p r r := of_eq rfl rfl rfl

theorem symm (h : AgreeOn p r s) : AgreeOn p s r :=
  ⟨h.package.symm, fun x => (h.tests x).symm, fun hp => (h.loose hp).symm⟩

theorem trans (h : AgreeOn p r s) (h' : AgreeOn p s t) : AgreeOn p r t :=
  ⟨h.package.trans h'.package, fun x => (h.tests x).trans (h'.tests x),
    fun hp => (h.loose hp).trans (h'.loose hp)⟩

end AgreeOn

/-- A change that touches what is known of one package only, and depends on nothing else. -/
structure Local (n : String) (f : Run → Run) : Prop where
  frame : ∀ p r, p ≠ n → AgreeOn p (f r) r
  congr : ∀ r r', AgreeOn n r r' → AgreeOn n (f r) (f r')

namespace Local

variable {n : String} {f g : Run → Run}

theorem comp (hg : Local n g) (hf : Local n f) : Local n fun r => g (f r) :=
  ⟨fun p r hp => (hg.frame p _ hp).trans (hf.frame p r hp),
    fun r r' h => hg.congr _ _ (hf.congr r r' h)⟩

theorem id : Local n fun r => r := ⟨fun _ _ _ => .refl, fun _ _ h => h⟩

/-- A change that looks the same from every package is as good. -/
theorem of_agreeOn (hf : Local n f) (h : ∀ p r, AgreeOn p (g r) (f r)) : Local n g :=
  ⟨fun p r hp => (h p r).trans (hf.frame p r hp),
    fun r r' hr => (h n r).trans ((hf.congr r r' hr).trans (h n r').symm)⟩

theorem of_eq (hf : Local n f) (h : ∀ r, g r = f r) : Local n g :=
  hf.of_agreeOn fun _ r => h r ▸ .refl

/-- What is known of the package may decide how it is changed. -/
theorem read {α : Type} (look : Run → α) (f : α → Run → Run)
    (hl : ∀ r r', AgreeOn n r r' → look r = look r') (hf : ∀ a, Local n (f a)) :
    Local n fun r => f (look r) r := by
  constructor
  · exact fun p r hp => (hf _).frame p r hp
  · intro r r' h
    rw [hl r r' h]
    exact (hf _).congr r r' h

theorem modify (n : String) (f : Package → Package) : Local n (Run.modify n f) := by
  constructor
  · intro p r hp
    exact ⟨by simp [Run.modify, Table.get?_modify, hp], fun _ => rfl, fun _ => rfl⟩
  · intro r r' h
    exact ⟨by simp [Run.modify, Table.get?_modify, h.package], h.tests, h.loose⟩

theorem modifyTest (k : TestKey) (f : Test → Test) : Local k.package (Run.modifyTest k f) := by
  constructor
  · intro p r hp
    refine ⟨rfl, fun x => ?_, fun _ => rfl⟩
    have : (⟨p, x⟩ : TestKey) ≠ k := fun h => hp (h ▸ rfl)
    simp [Run.modifyTest, Table.get?_modify, this]
  · intro r r' h
    exact ⟨h.package, fun x => by simp [Run.modifyTest, Table.get?_modify, h.tests], h.loose⟩

theorem ensurePackage (n : String) (time now : Timestamp) :
    Local n (Run.ensurePackage n time now) := by
  refine read (fun r => r.packages.get? n) (fun known r =>
    if known.isSome then r
    else
      { r with
        packages := r.packages.insert n (Package.first n time now)
        running := r.running + 1 }) (fun _ _ h => h.package) fun known => ?_
  split
  · exact id
  · constructor
    · intro p r hp
      exact ⟨by simp [Table.get?_insert, hp], fun _ => rfl, fun _ => rfl⟩
    · intro r r' h
      exact ⟨by simp [Table.get?_insert], h.tests, h.loose⟩

theorem ensureTest (k : TestKey) (time now : Timestamp) :
    Local k.package (Run.ensureTest k time now) := by
  refine read (fun r => r.tests.get? k) (fun known r =>
    if known.isSome then r
    else
      { r.modify k.package (Package.enter k.test) with
        tests := r.tests.insert k (Test.first k time now)
        counts := r.counts.enter }) (fun _ _ h => h.tests k.test) fun known => ?_
  have entered := modify k.package (Package.enter k.test)
  split
  · exact id
  · constructor
    · intro p r hp
      have : ∀ x, (⟨p, x⟩ : TestKey) ≠ k := fun x h => hp (h ▸ rfl)
      exact ⟨(entered.frame p r hp).package, fun x => by simp [Table.get?_insert, this],
        fun _ => rfl⟩
    · intro r r' h
      exact ⟨(entered.congr r r' h).package, fun x => by simp [Table.get?_insert, h.tests], h.loose⟩

theorem finishTest (k : TestKey) (s : Status) (d : Duration) :
    Local k.package fun r => r.finishTest k s d := by
  have completed : Local k.package fun r =>
      { (r.modifyTest k (Test.complete s d)).modify k.package (Package.record s) with
        counts := r.counts.finish s } :=
    ((modify k.package (Package.record s)).comp (modifyTest k (Test.complete s d))).of_agreeOn
      fun _ _ => .of_eq rfl rfl rfl
  refine .of_eq (read (fun r => r.tests.get? k) (fun known r => known.elim r fun t =>
    if t.status.isTerminal then r
    else
      { (r.modifyTest k (Test.complete s d)).modify k.package (Package.record s) with
        counts := r.counts.finish s }) (fun _ _ h => h.tests k.test) fun known => ?_) fun r => ?_
  · cases known with
    | none => exact id
    | some t =>
      by_cases ht : t.status.isTerminal
      · simpa [ht] using id
      · simpa [ht] using completed
  · unfold Run.finishTest
    cases r.tests.get? k <;> rfl

end Local

section Push

variable (mode : Mode) (now : Timestamp) (e : TestEvent)

theorem agreeOn_settle (p : String) (r : Run) : AgreeOn p (r.settle mode now) r := by
  unfold settle
  split
  · exact .refl
  · exact .of_eq rfl rfl rfl

/-- The outcome of a package changes that package alone, even if it ends the run. -/
theorem agreeOn_pushOutcome (s : Status) (p : String) (r : Run) :
    AgreeOn p (r.pushOutcome mode now e s) (r.modify e.package fun q =>
      if q.status.isTerminal then q else q.complete s e.elapsedTime) := by
  cases hq : r.packages.get? e.package with
  | none =>
    have unknown : r.pushOutcome mode now e s = r := by
      simp [pushOutcome, finishPackage?, hq]
    rw [unknown]
    have same : r.packages.modify e.package (fun q =>
        if q.status.isTerminal then q else q.complete s e.elapsedTime) = r.packages :=
      Table.modify_of_get?_eq_none hq _
    exact .of_eq same.symm rfl rfl
  | some q =>
    by_cases ht : q.status.isTerminal
    · have again : r.pushOutcome mode now e s = r := by
        simp [pushOutcome, finishPackage?, hq, ht]
      rw [again]
      refine ⟨?_, fun _ => rfl, fun _ => rfl⟩
      by_cases hp : p = e.package
      · simp [Run.modify, Table.get?_modify, hp, hq, ht]
      · simp [Run.modify, Table.get?_modify, hp]
    · have first_time : r.pushOutcome mode now e s =
          { r.modify e.package (Package.complete s e.elapsedTime) with
            running := r.running - 1 }.settle mode now := by
        simp [pushOutcome, finishPackage?, hq, ht]
      rw [first_time]
      refine (agreeOn_settle mode now p _).trans ⟨?_, fun _ => rfl, fun _ => rfl⟩
      by_cases hp : p = e.package
      · simp [Run.modify, Table.get?_modify, hp, hq, ht]
      · simp [Run.modify, Table.get?_modify, hp]

theorem local_enlist : Local e.package (enlist now e) := by
  have observed : Local e.package (observe e.time) :=
    Local.id.of_agreeOn fun _ _ => .of_eq rfl rfl rfl
  have packaged := (Local.ensurePackage e.package e.time now).comp observed
  by_cases ht : e.test = ""
  · exact packaged.of_eq fun r => by rw [enlist, if_pos ht]
  · have tested := (Local.ensureTest e.key e.time now).comp packaged
    exact tested.of_eq fun r => by rw [enlist, if_neg ht]

theorem local_applyToPackage : Local e.package (applyToPackage mode now e) := by
  have outcome (s : Status) : Local e.package (pushOutcome mode now e s) :=
    (Local.modify e.package _).of_agreeOn (agreeOn_pushOutcome mode now e s)
  unfold applyToPackage
  cases e.action
  case output => exact .modify e.package _
  case pass => exact outcome .passed
  case fail => exact outcome .failed
  case skip => exact outcome .skipped
  all_goals exact .id

theorem local_applyToTest : Local e.package (applyToTest e) := by
  unfold applyToTest
  cases e.action
  case run => exact .modifyTest e.key _
  case resume => exact .modifyTest e.key _
  case pause => exact .modifyTest e.key _
  case output => exact .modifyTest e.key _
  case pass => exact .finishTest e.key _ _
  case fail => exact .finishTest e.key _ _
  case skip => exact .finishTest e.key _ _
  all_goals exact .id

theorem local_printLoose (hp : e.package = "") : Local e.package (printLoose e) := by
  have fields (r : Run) : (r.printLoose e).packages = r.packages ∧
      (r.printLoose e).tests = r.tests := by
    unfold printLoose
    split
    · exact ⟨rfl, rfl⟩
    · exact ⟨rfl, rfl⟩
  constructor
  · intro p r hne
    refine ⟨by rw [(fields r).1], fun x => by rw [(fields r).2], fun h => ?_⟩
    exact absurd (h.trans hp.symm) hne
  · intro r r' h
    refine ⟨by rw [(fields r).1, (fields r').1, h.package], fun x => ?_, fun hn => ?_⟩
    · rw [(fields r).2, (fields r').2, h.tests]
    · unfold printLoose
      split
      · exact h.loose hn
      · simp [h.loose hn]

theorem local_push : Local e.package (Run.push mode now e) := by
  have observed : Local e.package (observe e.time) :=
    Local.id.of_agreeOn fun _ _ => .of_eq rfl rfl rfl
  by_cases hp : e.package = ""
  · have printed := (local_printLoose e hp).comp observed
    exact printed.of_eq fun r => by rw [Run.push, if_pos hp]
  by_cases ht : e.test = ""
  · have applied := (local_applyToPackage mode now e).comp (local_enlist now e)
    exact applied.of_eq fun r => by rw [Run.push, if_neg hp, if_pos ht]
  · have applied := (local_applyToTest e).comp (local_enlist now e)
    exact applied.of_eq fun r => by rw [Run.push, if_neg hp, if_neg ht]

/-- The mode decides when a run ends, and nothing about its packages. -/
theorem agreeOn_push_mode (mode' : Mode) (p : String) (r : Run) :
    AgreeOn p (r.push mode now e) (r.push mode' now e) := by
  have outcome (s : Status) (r : Run) :
      AgreeOn p (r.pushOutcome mode now e s) (r.pushOutcome mode' now e s) :=
    (agreeOn_pushOutcome mode now e s p r).trans (agreeOn_pushOutcome mode' now e s p r).symm
  unfold Run.push
  split
  · exact .refl
  · split
    · unfold applyToPackage
      cases e.action
      case pass => exact outcome .passed _
      case fail => exact outcome .failed _
      case skip => exact outcome .skipped _
      all_goals exact .refl
    · exact .refl

end Push

/-- What becomes of a run that takes these events. -/
def follow (mode : Mode) (events : List (Timestamp × TestEvent)) (r : Run) : Run :=
  events.foldl (fun r e => r.push mode e.1 e.2) r

/-- The events of a package, in any mode, do to it what all events do. -/
theorem AgreeOn.follow {p : String} {r r' : Run} (h : AgreeOn p r r') (mode mode' : Mode)
    (events : List (Timestamp × TestEvent)) :
    AgreeOn p (r.follow mode events)
      (r'.follow mode' (events.filter fun e => e.2.package == p)) := by
  induction events generalizing r r' with
  | nil => exact h
  | cons e es ih =>
    have step := local_push mode e.1 e.2
    by_cases hp : e.2.package = p
    · subst hp
      rw [List.filter_cons_of_pos (by simp)]
      exact ih ((step.congr r r' h).trans (agreeOn_push_mode mode e.1 e.2 mode' _ r'))
    · rw [List.filter_cons_of_neg (by simpa using hp)]
      exact ih ((step.frame p r (Ne.symm hp)).trans h)

end Run
end TestWatch
