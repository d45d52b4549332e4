import LogicalTable.Proofs.Calendar.DayNumbers
import LogicalTable.Proofs.Outcome
import LogicalTable.Registry.Factory

/-! Dates and the words that store them. The words are the days from 1970-01-01, without gaps and in the
order of the calendar; all others are refused. The sums on the way stay within their words for each date,
and a word for which they do not is none of a date. -/
namespace LogicalTable

namespace ValueFactory

theorem checkedSum?_eq_some {a b c : Int64} :
    checkedSum? a b = some c ↔ c.toInt = a.toInt + b.toInt := by
  unfold checkedSum?
  constructor
  · intro h
    split at h
    · cases h
      rw [Int64.toInt_add]
      apply Int.bmod_eq_of_le_mul_two <;> omega
    · cases h
  · intro exact
    have low := c.le_toInt
    have high := c.toInt_lt
    have same : a + b = c := by
      apply Int64.toInt_inj.1
      rw [Int64.toInt_add, exact]
      apply Int.bmod_eq_of_le_mul_two <;> omega
    rw [if_pos (by omega), same]

theorem narrowed?_eq_some {a : Int64} {b : Int32} : narrowed? a = some b ↔ b.toInt = a.toInt := by
  unfold narrowed?
  constructor
  · intro h
    split at h
    · cases h
      rw [Int64.toInt_toInt32]
      apply Int.bmod_eq_of_le_mul_two <;> omega
    · cases h
  · intro exact
    have low := b.le_toInt
    have high := b.toInt_lt
    have same : a.toInt32 = b := by
      apply Int32.toInt_inj.1
      rw [Int64.toInt_toInt32, exact]
      apply Int.bmod_eq_of_le_mul_two <;> omega
    rw [if_pos (by omega), same]

theorem toInt_dayOfEpoch (d : Date) : (dayOfEpoch d).toInt = d.dayNumber := by
  obtain ⟨low, high⟩ := d.eraDay_within
  have shift : d.dayNumber = d.eraDay - 719163 := by
    simp only [Date.dayNumber, Date.epochDays]
    omega
  rw [dayOfEpoch_eq]
  apply Int64.toInt_ofInt_of_le <;> omega

/-- The checks on the way refuse no day that the calendar holds. -/
theorem eraDay_of_words (n : Int64) :
    (((checkedSum? n epochDay).bind narrowed?).bind fun day => Date.ofEraDay? day.toInt) =
      Date.ofDayNumber? n.toInt := by
  have epoch : epochDay.toInt = 719163 := by decide
  apply Option.ext
  intro d
  simp only [Option.bind_eq_some_iff, checkedSum?_eq_some, narrowed?_eq_some, Date.ofEraDay?_eq_some,
    Date.ofDayNumber?_eq_some, Date.dayNumber, Date.epochDays, epoch]
  constructor
  · rintro ⟨day, ⟨sum, hsum, hday⟩, hd⟩
    omega
  · intro hd
    obtain ⟨low, high⟩ := d.eraDay_within
    have long : (Int64.ofInt d.eraDay).toInt = d.eraDay := by
      apply Int64.toInt_ofInt_of_le <;> omega
    have short : (Int32.ofInt d.eraDay).toInt = d.eraDay := by
      apply Int32.toInt_ofInt_of_le <;> omega
    refine ⟨Int32.ofInt d.eraDay, ⟨Int64.ofInt d.eraDay, ?_, ?_⟩, short.symm⟩
    · rw [long]
      omega
    · rw [long, short]

theorem dateOfDay_eq (n : Int64) : dateOfDay n =
    match Date.ofDayNumber? n.toInt with
    | some d => .ok d
    | none => .error (.dayRange n.toInt) := by
  rw [← eraDay_of_words]
  rfl

theorem dateOfDay_eq_ok {n : Int64} {d : Date} : dateOfDay n = .ok d ↔ dayOfEpoch d = n := by
  rw [dateOfDay_eq, ← Int64.toInt_inj, toInt_dayOfEpoch, ← Date.ofDayNumber?_eq_some]
  cases Date.ofDayNumber? n.toInt <;> simp

theorem exists_dateOfDay_iff {n : Int64} :
    (∃ d, dateOfDay n = .ok d) ↔ dayOfEpoch .first ≤ n ∧ n ≤ dayOfEpoch .last := by
  rw [Int64.le_iff_toInt_le, Int64.le_iff_toInt_le, toInt_dayOfEpoch, toInt_dayOfEpoch,
    ← Date.exists_ofDayNumber?_iff]
  simp only [dateOfDay_eq_ok, Date.ofDayNumber?_eq_some, ← toInt_dayOfEpoch, Int64.toInt_inj]

theorem date_decode_long (n : Int64) : date.decode (.long n) = (dateOfDay n).map .date := rfl

theorem date_decode_eq_ok {n : Int64} {v : Value} :
    date.decode (.long n) = .ok v ↔ date.encode v = .ok (.long n) := by
  rw [date_decode_long, map_eq_ok]
  constructor
  · rintro ⟨d, hd, rfl⟩
    rw [← dateOfDay_eq_ok.1 hd]
    rfl
  · intro h
    cases v with
    | date d =>
      cases h
      exact ⟨d, dateOfDay_eq_ok.2 rfl, rfl⟩
    | _ => cases h

/-- Dates and their words are in one order. Each date has the word of its exact day number, and a word of
64 bits, whichever it is, is read as that of the date whose word it is, or refused as out of range. -/
theorem dates_isomorphic :
    (∀ d : Date, date.encode (.date d) = .ok (.long (dayOfEpoch d)) ∧
      (Int64.ofInt d.eraDay).toInt = d.eraDay ∧ (dayOfEpoch d).toInt = d.dayNumber) ∧
    (∃ exist, dayOfEpoch ⟨1970, 1, 1, exist⟩ = 0) ∧
    (∀ d e : Date, d.next? = some e ↔ (dayOfEpoch e).toInt = (dayOfEpoch d).toInt + 1) ∧
    (∀ (d e : Date) (k : Nat), d.later? k = some e ↔ (dayOfEpoch e).toInt = (dayOfEpoch d).toInt + k) ∧
    (∀ d e : Date, d.Earlier e ↔ dayOfEpoch d < dayOfEpoch e) ∧
    (∀ n v, date.decode (.long n) = .ok v ↔ date.encode v = .ok (.long n)) ∧
    ∀ n, ((∃ v, date.decode (.long n) = .ok v) ↔
        dayOfEpoch .first ≤ n ∧ n ≤ dayOfEpoch .last) ∧
      dateOfDay n = match Date.ofDayNumber? n.toInt with
        | some d => .ok d
        | none => .error (.dayRange n.toInt) := by
  refine ⟨?_, ⟨by decide, by decide⟩, ?_, ?_, ?_, fun n v => date_decode_eq_ok, fun n => ⟨?_, dateOfDay_eq n⟩⟩
  · intro d
    obtain ⟨low, high⟩ := d.eraDay_within
    have fits : (Int64.ofInt d.eraDay).toInt = d.eraDay := by
      apply Int64.toInt_ofInt_of_le <;> omega
    exact ⟨rfl, fits, toInt_dayOfEpoch d⟩
  · intro d e
    rw [toInt_dayOfEpoch, toInt_dayOfEpoch, Date.next?_eq_some]
  · intro d e k
    rw [toInt_dayOfEpoch, toInt_dayOfEpoch, Date.later?_eq_some_iff]
  · intro d e
    rw [Int64.lt_iff_toInt_lt, toInt_dayOfEpoch, toInt_dayOfEpoch, Date.earlier_iff_dayNumber]
  · simp only [date_decode_long, map_eq_ok, ← exists_dateOfDay_iff]
    constructor
    · rintro ⟨_, d, hd, _⟩
      exact ⟨d, hd⟩
    · rintro ⟨d, hd⟩
      exact ⟨.date d, d, hd, rfl⟩

end ValueFactory
end LogicalTable
