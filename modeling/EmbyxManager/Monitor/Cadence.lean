import EmbyxManager.Monitor.Repository
/-!
# When to look for magnets again

The resolve schedule of `monitor/cadence.py`, anchored on the release date, and
`ensure_release_date`, which fills the date in when a row has to wait.
-/

namespace EmbyxManager
open Atom AcquisitionRepository

namespace Cadence

/-- How often to look before the window. -/
def preheatInterval : Time := days 7

/-- How long before its release a title is looked for closely. -/
def windowBefore : Time := days 7

/-- How long after its release a title is looked for closely. -/
def windowAfter : Time := days 14

/-- How often to look within the window. -/
def windowInterval : Time := hours 4

/-- After the window: the age a band ends at, and the interval within it. -/
def longTail : List (Time × Time) := [(days 21, days 1), (days 42, days 3), (days 90, days 7)]

/-- How often to look once the last band is over. -/
def longTailFloor : Time := days 30

/-- When to try resolving magnets again after a pass came up empty. -/
def nextResolveAt (now : Time) (releaseDate : Option Date) (fallback : Time) : Time :=
  match releaseDate with
  | none => now + fallback
  | some date =>
    let release := days date
    let windowStart := release - windowBefore
    -- never overshoot the window: the last preheat probe lands on its first day
    if now < windowStart then min (now + preheatInterval) windowStart
    else if now < release + windowAfter then now + windowInterval
    else
      match longTail.find? fun band => now - release < band.1 with
      | some band => now + band.2
      | none => now + longTailFloor

end Cadence

/-- The record's release date, looked up and written back when it has none.
`lookup` says whether there is a catalog to ask. -/
def ensureReleaseDate (lookup : Bool) (record : AcquisitionRecord) : M (Option Date) :=
  if record.releaseDate.isSome || !lookup then pure record.releaseDate
  else do
    let found ← ask (.releaseDate record.avid)
    match found with
    | some date => do
      discard (setReleaseDate record.avid date)
      pure found
    | none => pure found

end EmbyxManager
