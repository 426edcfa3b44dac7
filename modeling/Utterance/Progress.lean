import Utterance.Binary64
import Utterance.Outcome

/-!
# Progress

Progress of a long job as plain log lines, one for about every tenth of the way. Shares and times are
floating-point numbers, cut to integers where they are shown.
-/

namespace Utterance

/-- How far a job has come. -/
structure Meter where
  total : Int
  label : String
  channel : Channel
  current : Int := 0
  /-- The share in percent at the last line, below zero before the first. -/
  lastPercent : Int := -1

namespace Meter

/-- The value of a number that must not be too large. -/
def bounded (x : Option Binary64) : Except Fault Binary64 :=
  match x with
  | some x => .ok x
  | none => .error .overflow

/-- Share of `current` in `total` in percent, cut to an integer. -/
def percent (current total : Int) : Except Fault Int :=
  if 0 < total then do
    let share ← bounded (Binary64.ofRatio? current.natAbs total.natAbs)
    let hundredths ← bounded (share.mul? ⟨100, 0⟩)
    return current.sign * hundredths.truncate
  else .ok 0

/-- Whole seconds that the rest of a job takes at its average rate, if `elapsed` milliseconds have
passed. There are none if nothing is left, or nothing can be said yet. -/
def remaining (current total elapsed : Int) : Except Fault (Option Nat) :=
  if elapsed ≤ 0 then .ok none
  else do
    let seconds ← bounded (Binary64.ofRatio? elapsed.natAbs 1000)
    let done ← bounded (Binary64.ofNat? current.natAbs)
    if current ≤ 0 then return none
    let left ← bounded (Binary64.ofNat? (total - current).natAbs)
    if total ≤ current then return none
    match done.div? seconds with
    -- a rate beyond all numbers leaves no time
    | none => return none
    | some rate =>
      let time ← bounded (left.div? rate)
      return if time.isZero then none else some time.truncate

/-- The line for the present state. -/
def line (m : Meter) (share : Int) (item : String) (left : Option Nat) : String :=
  m.label ++ ": " ++ toString m.current ++ "/" ++ toString m.total ++ " (" ++ toString share ++ "%)"
    ++ (if item.isEmpty then "" else " - " ++ item)
    ++ left.elim "" fun seconds => " [ETA: " ++ toString seconds ++ "s]"

/-- Whether an update that brings the share to `share` writes a line. -/
def writes (m : Meter) (share : Int) (item : String) : Bool :=
  10 ≤ share - m.lastPercent || !item.isEmpty || m.current = m.total

/-- Advances by `n` items. `elapsed` are the milliseconds since the start, which are looked at only if
a line is written. -/
def update (m : Meter) (n : Int) (item : String) (elapsed : Int) :
    Except Fault (Meter × Journal) := do
  let m := { m with current := m.current + n }
  let share ← percent m.current m.total
  if m.writes share item then
    let left ← remaining m.current m.total elapsed
    return ({ m with lastPercent := share },
      [{ topic := .progress, message := m.line share item left, channel := m.channel }])
  else return (m, [])

/-- Marks the job as finished. -/
def close (m : Meter) (elapsed : Int) : Except Fault (Meter × Journal) :=
  if m.current < m.total then { m with current := m.total }.update 0 "" elapsed else .ok (m, [])

/-! ## With a clock -/

/-- A clock as the readings that are left, in milliseconds; the last one repeats. -/
structure Clock where
  reading : Int
  later : List Int

/-- The clock with the given readings. Without any it stands still. -/
def Clock.ofReadings : List Int → Clock
  | [] => ⟨0, []⟩
  | t :: later => ⟨t, later⟩

/-- The next reading. -/
def Clock.tick (c : Clock) : Clock :=
  match c.later with
  | t :: later => ⟨t, later⟩
  | [] => c

/-- Advances by `n` items, with the time since `start` taken from a clock. -/
def updateAt (m : Meter) (start : Int) (n : Int) (item : String) (clock : Clock) :
    Except Fault (Meter × Clock × Journal) := do
  let next := { m with current := m.current + n }
  let clock := if next.writes (← percent next.current next.total) item then clock.tick else clock
  let (m, notes) ← m.update n item (clock.reading - start)
  return (m, clock, notes)

/-- Marks the job as finished, with the time since `start` taken from a clock. -/
def closeAt (m : Meter) (start : Int) (clock : Clock) : Except Fault (Meter × Clock × Journal) :=
  if m.current < m.total then { m with current := m.total }.updateAt start 0 "" clock
  else .ok (m, clock, [])

end Meter

end Utterance
