import TestWatch.Run.Basic

/-!
# Who gets the space

Every test of a package that is still open asks for lines. The requests are put in order of
urgency and granted one after the other until the lines are used up, so a test gets lines only if
all before it got all they asked for.
-/

namespace TestWatch

/-- The urgency of a status: lower is shown first. -/
def Status.priority : Status → Nat
  | .running | .paused => 1
  | .failed => 2
  | .unknown | .passed | .skipped | .interrupted => 3

structure Request where
  test : Test
  lines : Nat
  deriving DecidableEq, Repr

namespace Request

/-- A line for the test itself, and for a running test its latest output. -/
def ofTest (maxOutput : Nat) (t : Test) : Request :=
  ⟨t, 1 + (if t.status = .running then min t.output.length maxOutput else 0)⟩

def key (r : Request) : TestKey := ⟨r.test.package, r.test.name⟩

/-- By priority, then the one that began later first. -/
def precedes (a b : Request) : Bool :=
  a.test.status.priority < b.test.status.priority ||
    (a.test.status.priority == b.test.status.priority && !a.test.start.before b.test.start)

/-- The requests in order of urgency; those that tie stay in the order in which they came. -/
def sorted (rs : List Request) : List Request := rs.mergeSort precedes

end Request

def grant (budget : Nat) : List Nat → List Nat
  | [] => []
  | n :: ns => min n budget :: grant (budget - min n budget) ns

@[simp] theorem length_grant (budget : Nat) (ns : List Nat) :
    (grant budget ns).length = ns.length := by
  induction ns generalizing budget with
  | nil => rfl
  | cons n ns ih => simp [grant, ih]

def totalLines (ns : List Nat) : Nat := ns.foldr (· + ·) 0

@[simp] theorem totalLines_nil : totalLines [] = 0 := rfl

@[simp] theorem totalLines_cons (n : Nat) (ns : List Nat) :
    totalLines (n :: ns) = n + totalLines ns := rfl

/-- All that is asked for is granted, or all that there is. -/
theorem totalLines_grant (budget : Nat) (ns : List Nat) :
    totalLines (grant budget ns) = min (totalLines ns) budget := by
  induction ns generalizing budget with
  | nil => simp [grant]
  | cons n ns ih => simp only [grant, totalLines_cons, ih]; omega

def Package.isOpen (p : Package) : Bool := p.status == .running || p.status == .interrupted

namespace Run

def requests (maxOutput : Nat) (r : Run) : List Request :=
  ((r.packages.values.filter Package.isOpen).flatMap r.testsIn).map (Request.ofTest maxOutput)

def grants (maxOutput budget : Nat) (r : Run) : Table TestKey Nat :=
  let rs := Request.sorted (r.requests maxOutput)
  Table.ofList ((rs.map Request.key).zip (grant budget (rs.map Request.lines)))

end Run

end TestWatch
