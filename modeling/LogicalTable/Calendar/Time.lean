import LogicalTable.Calendar.Date

/-! Times of day, date-times and date-times with a fixed offset. A second with a fraction of one second or
more is a leap second. Clocks name it as the last second of a minute; offsets that are no whole minutes
move it to others. -/
namespace LogicalTable

def nanosPerSecond : Nat := 1000000000

def secondsPerDay : Nat := 86400

def IsTime (second nano : Nat) : Prop := second < secondsPerDay ∧ nano < 2 * nanosPerSecond

instance (s n : Nat) : Decidable (IsTime s n) := inferInstanceAs (Decidable (_ ∧ _))

structure TimeOfDay where
  /-- Seconds from midnight. -/
  second : Nat
  nano : Nat
  exist : IsTime second nano
  deriving DecidableEq, Repr

namespace TimeOfDay

def ofParts? (second nano : Nat) : Option TimeOfDay :=
  if h : IsTime second nano then
    if nanosPerSecond ≤ nano ∧ second % 60 ≠ 59 then none else some ⟨second, nano, h⟩
  else none

def ofClock? (hour minute second nano : Nat) : Option TimeOfDay :=
  if hour < 24 ∧ minute < 60 ∧ second < 60 then
    ofParts? (hour * 3600 + minute * 60 + second) nano
  else none

def hour (t : TimeOfDay) : Nat := t.second / 3600

def minute (t : TimeOfDay) : Nat := t.second / 60 % 60

def secondOfMinute (t : TimeOfDay) : Nat := t.second % 60

def fractionText (n : Nat) : String :=
  if n = 0 then ""
  else if n % 1000000 = 0 then "." ++ Date.padded 3 (n / 1000000)
  else if n % 1000 = 0 then "." ++ Date.padded 6 (n / 1000)
  else "." ++ Date.padded 9 n

/-- A leap second shows as the number after it, at the end of a minute as 60. -/
def text (t : TimeOfDay) : String :=
  let leap := t.nano / nanosPerSecond
  Date.padded 2 t.hour ++ ":" ++ Date.padded 2 t.minute ++ ":" ++
    Date.padded 2 (t.secondOfMinute + leap) ++ fractionText (t.nano % nanosPerSecond)

end TimeOfDay

structure DateTime where
  date : Date
  time : TimeOfDay
  deriving DecidableEq, Repr

namespace DateTime

def seconds (t : DateTime) : Int := t.date.dayNumber * secondsPerDay + t.time.second

def text (t : DateTime) : String := t.date.text ++ " " ++ t.time.text

end DateTime

/-- Seconds that local clocks are ahead of universal time; less than a day. -/
structure Offset where
  seconds : Int
  bounded : seconds.natAbs < secondsPerDay
  deriving DecidableEq, Repr

namespace Offset

def ofSeconds? (n : Int) : Option Offset :=
  if h : n.natAbs < secondsPerDay then some ⟨n, h⟩ else none

def text (o : Offset) : String :=
  let n := o.seconds.natAbs
  (if o.seconds < 0 then "-" else "+") ++ Date.padded 2 (n / 3600) ++ ":" ++
    Date.padded 2 (n / 60 % 60) ++
    (if n % 60 = 0 then "" else ":" ++ Date.padded 2 (n % 60))

end Offset

/-- Whether universal time has a date when clocks at the offset show `t`. -/
def InRange (t : DateTime) (o : Offset) : Prop :=
  Date.first.dayNumber * secondsPerDay ≤ t.seconds - o.seconds ∧
    t.seconds - o.seconds < (Date.last.dayNumber + 1) * secondsPerDay

instance (t : DateTime) (o : Offset) : Decidable (InRange t o) :=
  inferInstanceAs (Decidable (_ ∧ _))

structure ZonedDateTime where
  wall : DateTime
  offset : Offset
  inRange : InRange wall offset
  deriving DecidableEq, Repr

namespace ZonedDateTime

def ofWall? (wall : DateTime) (offset : Offset) : Option ZonedDateTime :=
  if h : InRange wall offset then some ⟨wall, offset, h⟩ else none

end ZonedDateTime

/-- Longest durations, in nanoseconds: as many milliseconds as 63 bits count. -/
def maxDurationNanos : Nat := 0x7fffffffffffffff * 1000000

structure Duration where
  nanos : Int
  bounded : nanos.natAbs ≤ maxDurationNanos
  deriving DecidableEq, Repr

namespace Duration

def ofNanos? (n : Int) : Option Duration :=
  if h : n.natAbs ≤ maxDurationNanos then some ⟨n, h⟩ else none

/-- Whole seconds rounded down, and the nanoseconds above them. -/
def seconds (d : Duration) : Int := d.nanos / nanosPerSecond

def subsecond (d : Duration) : Nat := (d.nanos % nanosPerSecond).toNat

/-- Whole seconds rounded toward zero. -/
def wholeSeconds (d : Duration) : Int := d.nanos.tdiv nanosPerSecond

def fraction (d : Duration) : Int := d.nanos.tmod nanosPerSecond

end Duration
end LogicalTable
