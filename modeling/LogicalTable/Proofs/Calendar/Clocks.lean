import LogicalTable.Calendar.Time
import LogicalTable.Proofs.Calendar.DayNumbers

/-! Clock times in whole microseconds, and the clocks of other offsets. A date-time is known by its seconds
from 1970-01-01 and its fraction, so that a clock at another offset shows the one date-time with the
seconds in between and the same fraction, as long as the calendar holds its date. A zoned date-time is an
instant, as universal clocks show it, and an offset of which the clocks have a date then. -/
namespace LogicalTable

namespace TimeOfDay

variable {t u : TimeOfDay}

theorem second_lt (t : TimeOfDay) : t.second < 86400 := t.exist.1

theorem ext_parts (hs : t.second = u.second) (hn : t.nano = u.nano) : t = u := by
  cases t
  cases u
  subst hs hn
  rfl

theorem ofParts?_eq_some {second nano : Nat} (regular : nano < 1000000000) :
    ofParts? second nano = some t ↔ t.second = second ∧ t.nano = nano := by
  have noLeap : ¬(nanosPerSecond ≤ nano ∧ second % 60 ≠ 59) := by
    have : nanosPerSecond = 1000000000 := rfl
    omega
  constructor
  · intro h
    by_cases exist : IsTime second nano
    · rw [ofParts?, dif_pos exist, if_neg noLeap] at h
      cases h
      exact ⟨rfl, rfl⟩
    · rw [ofParts?, dif_neg exist] at h
      cases h
  · rintro ⟨rfl, rfl⟩
    rw [ofParts?, dif_pos t.exist, if_neg noLeap]

/-- The time with its fraction cut to whole microseconds, a leap second to the last microsecond of the
second that it prolongs. -/
def inMicros (t : TimeOfDay) : TimeOfDay where
  second := t.second
  nano := if t.nano < 1000000000 then t.nano / 1000 * 1000 else 999999000
  exist := by
    refine ⟨t.exist.1, ?_⟩
    have second : nanosPerSecond = 1000000000 := rfl
    split <;> omega

theorem second_inMicros (t : TimeOfDay) : t.inMicros.second = t.second := rfl

theorem nano_inMicros_congr (h : t.nano = u.nano) : t.inMicros.nano = u.inMicros.nano := by
  simp only [inMicros, h]

theorem nano_inMicros_cases (t : TimeOfDay) :
    t.nano < 1000000000 ∧ t.inMicros.nano = t.nano / 1000 * 1000 ∨
      1000000000 ≤ t.nano ∧ t.inMicros.nano = 999999000 := by
  by_cases regular : t.nano < 1000000000
  · exact Or.inl ⟨regular, if_pos regular⟩
  · exact Or.inr ⟨Nat.le_of_not_lt regular, if_neg regular⟩

/-- The same fraction in the second of the day that so many seconds from midnight lead to. -/
def inSecond (t : TimeOfDay) (n : Int) : TimeOfDay where
  second := (n % 86400).toNat
  nano := t.nano
  exist := by
    refine ⟨?_, t.exist.2⟩
    have day : secondsPerDay = 86400 := rfl
    omega

theorem second_inSecond (t : TimeOfDay) (n : Int) : (t.inSecond n).second = n % 86400 := by
  apply Int.toNat_of_nonneg
  omega

/-- The order of the clock: by second, then by fraction, so that leap seconds come last in theirs. -/
def Earlier (t u : TimeOfDay) : Prop :=
  t.second < u.second ∨ t.second = u.second ∧ t.nano < u.nano

end TimeOfDay

namespace DateTime

variable {t u : DateTime} {n : Int}

theorem seconds_eq (t : DateTime) : t.seconds = t.date.dayNumber * 86400 + t.time.second := rfl

theorem seconds_within (t : DateTime) : Date.first.dayNumber * 86400 ≤ t.seconds ∧
    t.seconds < (Date.last.dayNumber + 1) * 86400 := by
  obtain ⟨low, high⟩ := Date.exists_ofDayNumber?_iff.1 ⟨t.date, Date.ofDayNumber?_eq_some.2 rfl⟩
  have second := t.time.second_lt
  rw [seconds_eq]
  omega

theorem ext_seconds (hs : t.seconds = u.seconds) (hn : t.time.nano = u.time.nano) : t = u := by
  have ht := t.time.second_lt
  have hu := u.time.second_lt
  rw [seconds_eq, seconds_eq] at hs
  have dates : t.date = u.date := by
    apply Option.some.inj
    rw [← Date.ofDayNumber?_eq_some.2 rfl, ← Date.ofDayNumber?_eq_some.2 rfl]
    congr 1
    omega
  have times : t.time = u.time := by
    apply TimeOfDay.ext_parts _ hn
    rw [dates] at hs
    omega
  cases t
  cases u
  cases dates
  cases times
  rfl

def inMicros (t : DateTime) : DateTime := ⟨t.date, t.time.inMicros⟩

theorem seconds_inMicros (t : DateTime) : t.inMicros.seconds = t.seconds := rfl

def Earlier (t u : DateTime) : Prop :=
  t.date.Earlier u.date ∨ t.date = u.date ∧ t.time.Earlier u.time

/-- What another clock shows that is so many seconds ahead, if the calendar holds its date. -/
def ahead? (t : DateTime) (n : Int) : Option DateTime :=
  (Date.ofDayNumber? ((t.seconds + n) / 86400)).map fun d => ⟨d, t.time.inSecond (t.seconds + n)⟩

theorem ahead?_eq_some : t.ahead? n = some u ↔ u.seconds = t.seconds + n ∧ u.time.nano = t.time.nano := by
  constructor
  · intro h
    obtain ⟨d, hd, rfl⟩ := Option.map_eq_some_iff.1 h
    refine ⟨?_, rfl⟩
    rw [seconds_eq, Date.ofDayNumber?_eq_some.1 hd, TimeOfDay.second_inSecond]
    omega
  · rintro ⟨seconds, nano⟩
    have second := u.time.second_lt
    have day : u.date.dayNumber = (t.seconds + n) / 86400 := by
      rw [← seconds, seconds_eq]
      omega
    refine Option.map_eq_some_iff.2 ⟨u.date, Date.ofDayNumber?_eq_some.2 day, ?_⟩
    refine ext_seconds ?_ nano.symm
    rw [seconds_eq, TimeOfDay.second_inSecond, seconds, day]
    omega

theorem exists_ahead?_iff : (∃ u, t.ahead? n = some u) ↔
    Date.first.dayNumber * 86400 ≤ t.seconds + n ∧
      t.seconds + n < (Date.last.dayNumber + 1) * 86400 := by
  constructor
  · rintro ⟨u, hu⟩
    rw [← (ahead?_eq_some.1 hu).1]
    exact u.seconds_within
  · rintro ⟨low, high⟩
    obtain ⟨d, hd⟩ := Date.exists_ofDayNumber?_iff (n := (t.seconds + n) / 86400).2 (by omega)
    exact ⟨_, Option.map_eq_some_iff.2 ⟨d, hd, rfl⟩⟩

end DateTime

theorem inRange_iff {t : DateTime} {o : Offset} :
    InRange t o ↔ ∃ u, t.ahead? (-o.seconds) = some u := DateTime.exists_ahead?_iff.symm

theorem Offset.ofSeconds?_eq_some {n : Int} {o : Offset} : ofSeconds? n = some o ↔ o.seconds = n := by
  constructor
  · intro h
    unfold ofSeconds? at h
    split at h
    · cases h
      rfl
    · cases h
  · rintro rfl
    exact dif_pos o.bounded

namespace ZonedDateTime

variable {z : ZonedDateTime}

theorem ofWall?_eq_some {wall : DateTime} {o : Offset} :
    ofWall? wall o = some z ↔ z.wall = wall ∧ z.offset = o := by
  constructor
  · intro h
    unfold ofWall? at h
    split at h
    · cases h
      exact ⟨rfl, rfl⟩
    · cases h
  · rintro ⟨rfl, rfl⟩
    exact dif_pos z.inRange

def universal (z : ZonedDateTime) : DateTime :=
  (z.wall.ahead? (-z.offset.seconds)).get (Option.isSome_iff_exists.2 (inRange_iff.1 z.inRange))

theorem universal_spec (z : ZonedDateTime) :
    z.universal.seconds = z.wall.seconds - z.offset.seconds ∧
      z.universal.time.nano = z.wall.time.nano :=
  DateTime.ahead?_eq_some.1 (Option.some_get _).symm

theorem universal_eq_iff {u : DateTime} : z.universal = u ↔ u.ahead? z.offset.seconds = some z.wall := by
  obtain ⟨seconds, nano⟩ := z.universal_spec
  rw [DateTime.ahead?_eq_some]
  constructor
  · rintro rfl
    exact ⟨by omega, nano.symm⟩
  · rintro ⟨shown, fraction⟩
    exact DateTime.ext_seconds (by omega) (nano.trans fraction)

/-- An instant and an offset are a zoned date-time just if the clocks of the offset have a date. -/
theorem exists_universal_iff {u : DateTime} {o : Offset} :
    (∃ z : ZonedDateTime, z.universal = u ∧ z.offset = o) ↔ ∃ wall, u.ahead? o.seconds = some wall := by
  constructor
  · rintro ⟨z, shown, rfl⟩
    exact ⟨z.wall, universal_eq_iff.1 shown⟩
  · rintro ⟨wall, shown⟩
    obtain ⟨seconds, nano⟩ := DateTime.ahead?_eq_some.1 shown
    have back : wall.ahead? (-o.seconds) = some u :=
      DateTime.ahead?_eq_some.2 ⟨by omega, nano.symm⟩
    exact ⟨⟨wall, o, inRange_iff.2 ⟨u, back⟩⟩, universal_eq_iff.2 shown, rfl⟩

def inMicros (z : ZonedDateTime) : ZonedDateTime := ⟨z.wall.inMicros, z.offset, z.inRange⟩

/-- It makes no difference whether the local clock is cut to microseconds or the universal one. -/
theorem universal_inMicros (z : ZonedDateTime) : z.inMicros.universal = z.universal.inMicros := by
  obtain ⟨seconds, nano⟩ := z.universal_spec
  obtain ⟨seconds', nano'⟩ := z.inMicros.universal_spec
  apply DateTime.ext_seconds
  · rw [seconds', DateTime.seconds_inMicros, seconds]
    rfl
  · rw [nano']
    exact TimeOfDay.nano_inMicros_congr nano.symm

end ZonedDateTime
end LogicalTable
