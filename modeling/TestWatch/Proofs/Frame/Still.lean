import TestWatch.Frame.Render
import TestWatch.Proofs.Run.Ending
import Mathlib.Data.List.Basic

/-!
# Frames that stand still

Only what is under way, or was cut off, reads the clock when it is shown. A run that ended by
itself holds nothing of the kind, so that its frame is the same at all clock readings.
-/

namespace TestWatch

theorem Moment.ofPackage_of_outcome {p : Package}
    (hp : p.status = .passed ∨ p.status = .failed ∨ p.status = .skipped) (m : Moment) :
    m.ofPackage p = p.elapsed := by
  rcases hp with hp | hp | hp <;> simp [ofPackage, elapsed, hp]

theorem Moment.ofRun_of_finish {r : Run} {t : Timestamp} (ht : r.finish = some t) (m : Moment) :
    m.ofRun r = r.start.between t := by
  simp [ofRun, Run.duration?, ht]

theorem Columns.ofRun_eq_of_quiet {r : Run} (hf : r.finish.isSome) (hq : r.Quiet)
    (m m' : Moment) : ofRun m r = ofRun m' r := by
  obtain ⟨t, ht⟩ := Option.isSome_iff_exists.1 hf
  unfold ofRun
  rw [m.ofRun_of_finish ht, m'.ofRun_of_finish ht]
  apply List.foldl_ext
  intro w p hp
  rw [m.ofPackage_of_outcome (hq p hp), m'.ofPackage_of_outcome (hq p hp)]

namespace Viewer

variable (v : Viewer) (m m' : Moment) (columns : Columns)

theorem alignedPackage_eq_of_outcome {p : Package}
    (hp : p.status = .passed ∨ p.status = .failed ∨ p.status = .skipped) :
    v.alignedPackage m columns p = v.alignedPackage m' columns p := by
  have icon : v.look.paintedIcon m.tick (v.packageStatus p) =
      v.look.paintedIcon m'.tick (v.packageStatus p) := by
    rcases hp with hp | hp | hp <;> simp [packageStatus, hp, Look.paintedIcon, Look.icon]
  rw [alignedPackage, alignedPackage, icon, m.ofPackage_of_outcome hp, m'.ofPackage_of_outcome hp]

theorem packageEntries_eq_of_outcome {p : Package}
    (hp : p.status = .passed ∨ p.status = .failed ∨ p.status = .skipped)
    (grants : Table TestKey Nat) (r : Run) :
    v.packageEntries m columns grants r p = v.packageEntries m' columns grants r p := by
  have closed : ¬ p.isOpen = true := by
    rcases hp with hp | hp | hp <;> simp [Package.isOpen, hp]
  rw [packageEntries, packageEntries, if_neg closed, if_neg closed,
    v.alignedPackage_eq_of_outcome m m' columns hp]

theorem footer_eq_of_finish {r : Run} (hf : r.finish.isSome) (width : Nat) :
    v.footer m columns width r = v.footer m' columns width r := by
  obtain ⟨t, ht⟩ := Option.isSome_iff_exists.1 hf
  rw [footer, footer, alignedRun, alignedRun, m.ofRun_of_finish ht, m'.ofRun_of_finish ht]

/-- What is shown of a run that ended by itself does not depend on the clock. -/
theorem frame?_eq_of_quiet {r : Run} (hf : r.finish.isSome) (hq : r.Quiet) (width height : Nat) :
    v.frame? m width height r = v.frame? m' width height r := by
  have columns := Columns.ofRun_eq_of_quiet hf hq m m'
  have packages (grants : Table TestKey Nat) (c : Columns) :
      r.packages.values.flatMap (v.packageEntries m c grants r) =
        r.packages.values.flatMap (v.packageEntries m' c grants r) := by
    apply List.flatMap_congr
    intro p hp
    exact v.packageEntries_eq_of_outcome m m' c (hq p hp) grants r
  have same : v.entries m width height r = v.entries m' width height r := by
    simp only [entries, columns, packages, v.footer_eq_of_finish m m' _ hf]
  rw [frame?, frame?, lines?, lines?, same]

end Viewer
end TestWatch
