import LogicalTable.Registry.Factory

/-! Durations and their storage. What is stored is the duration cut to whole microseconds, downwards also
below zero, as seconds and a fraction that is not negative. It is read back as that, unless the whole
seconds by themselves are below the least duration, which those of the least durations are. -/
namespace LogicalTable

namespace Duration

variable {d : Duration} {n : Int}

theorem nanos_within (d : Duration) :
    -9223372036854775807000000 ≤ d.nanos ∧ d.nanos ≤ 9223372036854775807000000 := by
  have bounded := d.bounded
  have greatest : maxDurationNanos = 9223372036854775807000000 := by decide
  omega

theorem ofNanos?_eq_some : ofNanos? n = some d ↔ d.nanos = n := by
  unfold ofNanos?
  constructor
  · intro h
    split at h
    · cases h
      rfl
    · cases h
  · rintro rfl
    exact dif_pos d.bounded

def inMicros (d : Duration) : Duration where
  nanos := d.nanos / 1000 * 1000
  bounded := by
    have within := d.nanos_within
    have greatest : maxDurationNanos = 9223372036854775807000000 := by decide
    omega

theorem nanos_inMicros (d : Duration) : d.inMicros.nanos = d.nanos / 1000 * 1000 := rfl

/-- Seconds toward zero and seconds rounded down differ by the second that a negative fraction borrows. -/
theorem seconds_cases (d : Duration) :
    d.fraction < 0 ∧ d.wholeSeconds - 1 = d.seconds ∧ d.fraction + 1000000000 = d.subsecond ∨
    0 ≤ d.fraction ∧ d.wholeSeconds = d.seconds ∧ d.fraction = d.subsecond := by
  have sum := Int.mul_tdiv_add_tmod d.nanos 1000000000
  have above := Int.lt_tmod_of_pos d.nanos (by decide : (0 : Int) < 1000000000)
  have below := Int.tmod_lt_of_pos d.nanos (by decide : (0 : Int) < 1000000000)
  have second : (nanosPerSecond : Int) = 1000000000 := rfl
  rw [fraction, wholeSeconds, seconds, subsecond, second]
  omega

theorem subsecond_lt (d : Duration) : d.subsecond < 1000000000 := by
  have second : (nanosPerSecond : Int) = 1000000000 := rfl
  rw [subsecond, second]
  omega

theorem nanos_eq (d : Duration) : d.seconds * 1000000000 + d.subsecond = d.nanos := by
  have second : (nanosPerSecond : Int) = 1000000000 := rfl
  rw [seconds, subsecond, second]
  omega

end Duration

namespace ValueFactory

theorem toInt_durationParts (d : Duration) :
    (durationParts d).1.toInt = d.seconds ∧ (durationParts d).2.toInt = d.subsecond := by
  have within := d.nanos_within
  have total := d.nanos_eq
  have rest := d.subsecond_lt
  have parts := d.seconds_cases
  have whole : (Int64.ofInt d.wholeSeconds).toInt = d.wholeSeconds := by
    apply Int64.toInt_ofInt_of_le <;> omega
  have fraction : (Int32.ofInt d.fraction).toInt = d.fraction := by
    apply Int32.toInt_ofInt_of_le <;> omega
  have one : (1 : Int64).toInt = 1 := by decide
  have second : (1000000000 : Int32).toInt = 1000000000 := by decide
  have zero : (0 : Int32).toInt = 0 := by decide
  have sign : Int32.ofInt d.fraction < 0 ↔ d.fraction < 0 := by
    rw [Int32.lt_iff_toInt_lt, fraction, zero]
  rcases parts with ⟨negative, seconds, nanos⟩ | ⟨positive, seconds, nanos⟩
  · rw [durationParts, if_pos (sign.2 negative), Int64.toInt_sub, Int32.toInt_add, whole, fraction, one,
      second, seconds, nanos]
    constructor <;> apply Int.bmod_eq_of_le_mul_two <;> omega
  · rw [durationParts, if_neg (mt sign.1 (Int.not_lt.2 positive)), whole, fraction]
    exact ⟨seconds, nanos⟩

/-- Cutting a fraction to microseconds stays within its word. -/
theorem toInt_micros {n : Int32} (h : 0 ≤ n.toInt) : (n / 1000 * 1000).toInt = n.toInt / 1000 * 1000 := by
  have high := n.toInt_lt
  have thousand : (1000 : Int32).toInt = 1000 := by decide
  have quotient : (n / 1000).toInt = n.toInt / 1000 := by
    rw [Int32.toInt_div, thousand, Int.tdiv_eq_ediv_of_nonneg h]
    apply Int.bmod_eq_of_le_mul_two <;> omega
  rw [Int32.toInt_mul, quotient, thousand]
  apply Int.bmod_eq_of_le_mul_two <;> omega

theorem duration_encode (d : Duration) : ∃ seconds nanos,
    duration.encode (.duration d) = .ok (.struct [.long seconds, .int nanos]) ∧
      seconds.toInt = d.seconds ∧ nanos.toInt = d.subsecond / 1000 * 1000 := by
  obtain ⟨seconds, nanos⟩ := toInt_durationParts d
  refine ⟨(durationParts d).1, (durationParts d).2 / 1000 * 1000, rfl, seconds, ?_⟩
  rw [toInt_micros (by omega), nanos]

/-- Seconds and nanoseconds are read one after the other: the seconds have to be a duration also without
the nanoseconds. -/
theorem duration_decode (seconds : Int64) (nanos : Int32) :
    duration.decode (.struct [.long seconds, .int nanos]) =
      match (Duration.ofNanos? (seconds.toInt * 1000000000)).bind fun whole =>
          Duration.ofNanos? (whole.nanos + nanos.toInt.tdiv 1000 * 1000) with
      | some d => .ok (.duration d)
      | none => .error (.durationRange seconds.toInt) := rfl

theorem duration_decode_parts {d : Duration} {seconds : Int64} {nanos : Int32}
    (hs : seconds.toInt = d.seconds) (hn : nanos.toInt = d.subsecond / 1000 * 1000) :
    duration.decode (.struct [.long seconds, .int nanos]) =
      if -9223372036854775 * 1000000000 ≤ d.nanos then .ok (.duration d.inMicros)
      else .error (.durationRange d.seconds) := by
  have within := d.nanos_within
  have total := d.nanos_eq
  have rest := d.subsecond_lt
  have greatest : maxDurationNanos = 9223372036854775807000000 := by decide
  have cut : nanos.toInt.tdiv 1000 * 1000 = nanos.toInt := by
    rw [Int.tdiv_eq_ediv_of_nonneg (by omega)]
    omega
  rw [duration_decode, hs, cut, hn]
  by_cases low : -9223372036854775 * 1000000000 ≤ d.nanos
  · have whole : (d.seconds * 1000000000).natAbs ≤ maxDurationNanos := by omega
    have sum : Duration.ofNanos? (d.seconds * 1000000000 + d.subsecond / 1000 * 1000) =
        some d.inMicros := by
      rw [Duration.ofNanos?_eq_some, Duration.nanos_inMicros]
      omega
    rw [Duration.ofNanos?, dif_pos whole, Option.bind_some, sum, if_pos low]
  · have whole : ¬(d.seconds * 1000000000).natAbs ≤ maxDurationNanos := by omega
    rw [Duration.ofNanos?, dif_neg whole, Option.bind_none, if_neg low]

/-- Each duration is stored as what it is in whole microseconds, rounded down. What is stored is read back
as that just if the whole seconds, rounded down, are a duration. -/
theorem duration_roundTrip (d : Duration) : ∃ seconds nanos,
    duration.encode (.duration d) = .ok (.struct [.long seconds, .int nanos]) ∧
    0 ≤ nanos.toInt ∧ nanos.toInt < 1000000000 ∧ nanos.toInt % 1000 = 0 ∧
    seconds.toInt * 1000000000 + nanos.toInt = d.nanos / 1000 * 1000 ∧
    duration.decode (.struct [.long seconds, .int nanos]) =
      if -9223372036854775 * 1000000000 ≤ d.nanos then .ok (.duration d.inMicros)
      else .error (.durationRange seconds.toInt) := by
  obtain ⟨seconds, nanos, encoded, hs, hn⟩ := duration_encode d
  have total := d.nanos_eq
  have rest := d.subsecond_lt
  refine ⟨seconds, nanos, encoded, by omega, by omega, by omega, by omega, ?_⟩
  rw [duration_decode_parts hs hn, hs]

def leastDuration : Duration := ⟨-9223372036854775807000000, by decide⟩

/-- The least duration is stored but not read back: without the fraction it would be a smaller one. -/
theorem duration_least_refused :
    let stored : StorageValue := .struct [.long (-9223372036854776), .int 193000000]
    duration.encode (.duration leastDuration) = .ok stored ∧ leastDuration.inMicros = leastDuration ∧
      duration.decode stored = .error (.durationRange (-9223372036854776)) := by
  exact ⟨rfl, rfl, rfl⟩

end ValueFactory
end LogicalTable
