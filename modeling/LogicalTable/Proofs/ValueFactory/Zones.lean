import LogicalTable.Proofs.ValueFactory.Times

/-! Zoned date-times and their storage: the local clock, the offset in seconds and its text. The instant and
the offset are kept. A clock and an offset are read just if each of them is in range and the calendar also
holds the date of the instant, which at either end of it depends on the sign of the offset. -/
namespace LogicalTable

namespace ValueFactory

variable {day nano : Int64} {off : Int32} {zone : StorageValue} {v : Value} {t : DateTime} {o : Offset}

/-- Fractions do not decide whether the calendar holds an instant. -/
theorem inRange_iff_nanos (hday : dateOfDay day = .ok t.date) (hnano : timeOfNano nano = .ok t.time) :
    InRange t o ↔
      (dayOfEpoch .first).toInt * 86400000000000 ≤
        day.toInt * 86400000000000 + nano.toInt - o.seconds * 1000000000 ∧
      day.toInt * 86400000000000 + nano.toInt - o.seconds * 1000000000 <
        ((dayOfEpoch .last).toInt + 1) * 86400000000000 := by
  have date : day.toInt = t.date.dayNumber := by
    rw [← dateOfDay_eq_ok.1 hday, toInt_dayOfEpoch]
  obtain ⟨_, regular, _, total⟩ := timeOfNano_eq_ok.1 hnano
  have seconds : secondsPerDay = 86400 := rfl
  rw [InRange, toInt_dayOfEpoch, toInt_dayOfEpoch, date, t.seconds_eq, seconds]
  omega

theorem zonedDateTime_decode_eq_ok :
    zonedDateTime.decode (.struct [.long day, .long nano, .int off, zone]) = .ok v ↔
      ∃ z : ZonedDateTime, (dateOfDay day = .ok z.wall.date ∧ timeOfNano nano = .ok z.wall.time) ∧
        z.offset.seconds = off.toInt ∧ v = .zonedDateTime z := by
  constructor
  · intro h
    obtain ⟨_, ⟨⟩, h⟩ := bind_eq_ok.1 h
    obtain ⟨wall, hwall, h⟩ := bind_eq_ok.1 h
    obtain ⟨_, ⟨⟩, h⟩ := bind_eq_ok.1 h
    split at h
    · cases h
    · next offset hoffset =>
      split at h
      · cases h
      · next z hz =>
        cases h
        obtain ⟨rfl, rfl⟩ := ZonedDateTime.ofWall?_eq_some.1 hz
        exact ⟨z, dateTimeOfFields_eq_ok.1 hwall, Offset.ofSeconds?_eq_some.1 hoffset, rfl⟩
  · rintro ⟨z, wall, seconds, rfl⟩
    refine bind_eq_ok.2 ⟨_, rfl, bind_eq_ok.2 ⟨z.wall, dateTimeOfFields_eq_ok.2 wall, ?_⟩⟩
    refine bind_eq_ok.2 ⟨off, rfl, ?_⟩
    rw [Offset.ofSeconds?_eq_some.2 seconds]
    dsimp only
    rw [ZonedDateTime.ofWall?_eq_some.2 ⟨rfl, rfl⟩]
    rfl

theorem toInt_offset (o : Offset) : (Int32.ofInt o.seconds).toInt = o.seconds := by
  have bounded := o.bounded
  have seconds : secondsPerDay = 86400 := rfl
  apply Int32.toInt_ofInt_of_le <;> omega

theorem zonedDateTime_encode (z : ZonedDateTime) : zonedDateTime.encode (.zonedDateTime z) =
    .ok (.struct [.long (dayOfEpoch z.wall.date), .long (nanoWord z.wall.time),
      .int (Int32.ofInt z.offset.seconds), .string z.offset.text]) := rfl

/-- The instant of a clock and an offset, in nanoseconds from 1970-01-01, is one that the calendar holds. -/
def InstantHeld (day nano : Int64) (off : Int32) : Prop :=
  let instant := day.toInt * 86400000000000 + nano.toInt - off.toInt * 1000000000
  (dayOfEpoch .first).toInt * 86400000000000 ≤ instant ∧
    instant < ((dayOfEpoch .last).toInt + 1) * 86400000000000

theorem exists_zonedDateTime_decode_iff :
    (∃ v, zonedDateTime.decode (.struct [.long day, .long nano, .int off, zone]) = .ok v) ↔
      InCalendar day ∧ InDay nano ∧ off.toInt.natAbs < 86400 ∧ InstantHeld day nano off := by
  simp only [zonedDateTime_decode_eq_ok]
  constructor
  · rintro ⟨_, z, ⟨hday, hnano⟩, seconds, _⟩
    have held := (inRange_iff_nanos hday hnano).1 z.inRange
    have bounded := z.offset.bounded
    rw [seconds] at held bounded
    exact ⟨exists_dateOfDay_iff.1 ⟨_, hday⟩, exists_timeOfNano_iff.1 ⟨_, hnano⟩, bounded, held⟩
  · rintro ⟨calendar, inside, bounded, held⟩
    obtain ⟨date, hday⟩ := exists_dateOfDay_iff.2 calendar
    obtain ⟨time, hnano⟩ := exists_timeOfNano_iff.2 inside
    have range : InRange ⟨date, time⟩ ⟨off.toInt, bounded⟩ := (inRange_iff_nanos hday hnano).2 held
    exact ⟨_, ⟨_, _, range⟩, ⟨hday, hnano⟩, rfl, rfl⟩

/-- Zoned date-times keep the instant and the offset, and the local clock but for what is below a
microsecond. A stored clock and offset are read, whatever stands for the zone, just if each is in range and
the calendar holds the instant, and then they are stored again with the zone's text of the offset. -/
theorem zonedDateTime_keepsInstant :
    (∀ (u : DateTime) (o : Offset),
      (∃ z : ZonedDateTime, z.universal = u ∧ z.offset = o) ↔ ∃ wall, u.ahead? o.seconds = some wall) ∧
    (∀ z : ZonedDateTime, ∃ stored, zonedDateTime.encode (.zonedDateTime z) = .ok stored ∧
      ∃ y : ZonedDateTime, zonedDateTime.decode stored = .ok (.zonedDateTime y) ∧
        y.offset = z.offset ∧ y.wall = z.wall.inMicros ∧ y.universal = z.universal.inMicros) ∧
    (∀ (day nano : Int64) (off : Int32) (zone : StorageValue),
      (∃ v, zonedDateTime.decode (.struct [.long day, .long nano, .int off, zone]) = .ok v) ↔
        InCalendar day ∧ InDay nano ∧ off.toInt.natAbs < 86400 ∧ InstantHeld day nano off) ∧
    ∀ (day nano : Int64) (off : Int32) (zone : StorageValue) (v : Value),
      zonedDateTime.decode (.struct [.long day, .long nano, .int off, zone]) = .ok v →
        ∃ o : Offset, o.seconds = off.toInt ∧ zonedDateTime.encode v =
          .ok (.struct [.long day, .long (nano - nano % 1000), .int off, .string o.text]) := by
  refine ⟨fun u o => ZonedDateTime.exists_universal_iff, ?_, ?_, ?_⟩
  · intro z
    refine ⟨_, zonedDateTime_encode z, z.inMicros, ?_, rfl, rfl, z.universal_inMicros⟩
    refine zonedDateTime_decode_eq_ok.2 ⟨z.inMicros, ⟨dateOfDay_eq_ok.2 rfl, ?_⟩, ?_, rfl⟩
    · exact timeOfNano_nanoWord z.wall.time
    · exact (toInt_offset z.offset).symm
  · intro day nano off zone
    exact exists_zonedDateTime_decode_iff
  · intro day nano off zone v h
    obtain ⟨z, ⟨hday, hnano⟩, seconds, rfl⟩ := zonedDateTime_decode_eq_ok.1 h
    refine ⟨z.offset, seconds, ?_⟩
    rw [zonedDateTime_encode, dateOfDay_eq_ok.1 hday, nanoWord_of_timeOfNano hnano, seconds,
      Int32.ofInt_toInt]

/-- At the end of the last day it takes a clock that is ahead. -/
theorem zonedDateTime_keepsInstant_lastDay :
    let stored (off : Int32) : StorageValue :=
      .struct [.long 95026236, .long 86399999999999, .int off, .null]
    (∃ v, zonedDateTime.decode (stored 3600) = .ok v ∧ ∃ o : Offset, o.seconds = 3600 ∧
      zonedDateTime.encode v = .ok (.struct [.long 95026236,
        .long (86399999999999 - 86399999999999 % 1000), .int 3600, .string o.text])) ∧
    ¬ ∃ v, zonedDateTime.decode (stored (-3600)) = .ok v := by
  intro stored
  obtain ⟨_, _, reads, again⟩ := zonedDateTime_keepsInstant
  have ahead : InstantHeld 95026236 86399999999999 3600 := by
    unfold InstantHeld
    decide
  have behind : ¬ InstantHeld 95026236 86399999999999 (-3600) := by
    unfold InstantHeld
    decide
  constructor
  · obtain ⟨v, hv⟩ := (reads _ _ _ _).2 ⟨by decide, by decide, by decide, ahead⟩
    exact ⟨v, hv, again _ _ _ _ _ hv⟩
  · intro h
    exact behind ((reads _ _ _ _).1 h).2.2.2

end ValueFactory
end LogicalTable
