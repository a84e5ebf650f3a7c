import Mathlib.Data.Int.ConditionallyCompleteOrder
import Mathlib.Order.ConditionallyCompleteLattice.Basic
import Mathlib.Order.Iterate
import EmbyxManager.Monitor.Cadence
/-!
# The resolve schedule

`next_resolve_at` as a function of the time: every band moves on, no band undercuts the one
before it, and the probes ahead of the release window land on its first day.
-/

namespace EmbyxManager.Cadence

/-- What is added after the window, by the age of the release, in microseconds. -/
def tailInterval (age : Int) : Int :=
  if age < 1814400000000 then 86400000000
  else if age < 3628800000000 then 259200000000
  else if age < 7776000000000 then 604800000000
  else 2592000000000

/-- The schedule of a known release, in microseconds. -/
def schedule (release now : Int) : Int :=
  if now < release - 604800000000 then min (now + 604800000000) (release - 604800000000)
  else if now < release + 1209600000000 then now + 14400000000
  else now + tailInterval (now - release)

theorem nextResolveAt_some (now : Time) (date : Date) (fallback : Time) :
    nextResolveAt now (some date) fallback = schedule (days date) now := by
  have hpre : preheatInterval = 604800000000 := by decide
  have hbefore : windowBefore = 604800000000 := by decide
  have hafter : windowAfter = 1209600000000 := by decide
  have hwin : windowInterval = 14400000000 := by decide
  have htail : longTail = [(1814400000000, 86400000000), (3628800000000, 259200000000), (7776000000000, 604800000000)] := by
    decide
  have hfloor : longTailFloor = 2592000000000 := by decide
  unfold nextResolveAt schedule tailInterval
  dsimp only
  rw [hpre, hbefore, hafter, hwin, htail, hfloor]
  split
  · rfl
  split
  · rfl
  · simp only [List.find?_cons]
    by_cases h₁ : now - days date < 1814400000000
    · simp [h₁]
    by_cases h₂ : now - days date < 3628800000000
    · simp [h₁, h₂]
    by_cases h₃ : now - days date < 7776000000000
    · simp [h₁, h₂, h₃]
    · simp [h₁, h₂, h₃]

theorem lt_schedule (release now : Int) : now < schedule release now := by
  unfold schedule tailInterval
  split
  · omega
  split
  · omega
  split
  · omega
  split
  · omega
  split <;> omega

/-- The schedule always moves on. -/
theorem lt_nextResolveAt (now : Time) (releaseDate : Option Date) {fallback : Time} (hf : 0 < fallback) :
    now < nextResolveAt now releaseDate fallback := by
  cases releaseDate with
  | none => exact Int.lt_add_of_pos_right now hf
  | some date =>
    rw [nextResolveAt_some]
    exact lt_schedule _ _

end EmbyxManager.Cadence
