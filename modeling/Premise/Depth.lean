/-!
Levels that are entered and left, up to a limit.
-/

namespace Premise

structure Depth where
  entered : Nat := 0
  limit : Nat
  deriving Repr, DecidableEq

namespace Depth

/-- One level deeper, unless the limit is reached. -/
def enter? (d : Depth) : Option Depth :=
  if d.entered < d.limit then some { d with entered := d.entered + 1 } else none

def leave (d : Depth) : Depth := { d with entered := d.entered - 1 }

/-- How many more levels can be entered. -/
def remaining (d : Depth) : Nat := d.limit - d.entered

theorem leave_of_enter? {d e : Depth} (h : d.enter? = some e) : e.leave = d := by
  unfold enter? at h
  split at h
  · cases h; rfl
  · cases h

theorem remaining_of_enter? {d e : Depth} (h : d.enter? = some e) :
    e.remaining + 1 = d.remaining := by
  unfold enter? at h
  split at h
  · cases h; simp only [remaining]; omega
  · cases h

end Depth

end Premise
