import LogicalTable.Proofs.Calendar.Clocks
import LogicalTable.Proofs.ValueFactory.Conformance
import LogicalTable.Proofs.ValueFactory.Dates

/-! Times and date-times and the words that store them. A time is stored as the nanoseconds of its day in
whole microseconds, and a word is read as a time just if it counts the nanoseconds of a day. Whichever way
one starts, nothing but the fraction below a microsecond is lost, and the length of a leap second. -/
namespace LogicalTable

namespace ValueFactory

variable {n day nano : Int64} {v : Value}

/-- Words that count nanoseconds of a day. -/
def InDay (n : Int64) : Prop := 0 ≤ n.toInt ∧ n.toInt < 86400000000000

/-- Words that count days to a date of the calendar. -/
def InCalendar (n : Int64) : Prop := dayOfEpoch .first ≤ n ∧ n ≤ dayOfEpoch .last

instance (n : Int64) : Decidable (InDay n) := inferInstanceAs (Decidable (_ ∧ _))

instance (n : Int64) : Decidable (InCalendar n) := inferInstanceAs (Decidable (_ ∧ _))

def nanoWord (t : TimeOfDay) : Int64 := Int64.ofNat (nanoOfDay t)

section Words

variable {t u : TimeOfDay}

theorem nanoOfDay_eq (t : TimeOfDay) : nanoOfDay t = t.second * 1000000000 + t.inMicros.nano := by
  have second : nanosPerSecond = 1000000000 := rfl
  rw [nanoOfDay, second]
  rcases t.nano_inMicros_cases with ⟨regular, cut⟩ | ⟨leap, cut⟩
  · omega
  · omega

/-- The fraction of a time in whole microseconds. -/
theorem nano_inMicros (t : TimeOfDay) : t.inMicros.nano < 1000000000 ∧ t.inMicros.nano % 1000 = 0 := by
  rcases t.nano_inMicros_cases with ⟨regular, cut⟩ | ⟨leap, cut⟩
  · omega
  · omega

theorem nanoOfDay_lt (t : TimeOfDay) : nanoOfDay t < 86400000000000 := by
  have second := t.second_lt
  have fraction := nano_inMicros t
  have total := nanoOfDay_eq t
  omega

theorem nanoOfDay_mod (t : TimeOfDay) : nanoOfDay t % 1000 = 0 := by
  have fraction := nano_inMicros t
  have total := nanoOfDay_eq t
  omega

theorem toInt_nanoWord (t : TimeOfDay) : (nanoWord t).toInt = nanoOfDay t := by
  have less := nanoOfDay_lt t
  apply Int64.toInt_ofNat_of_lt
  omega

theorem inDay_nanoWord (t : TimeOfDay) : InDay (nanoWord t) := by
  have less := nanoOfDay_lt t
  rw [InDay, toInt_nanoWord]
  omega

/-- Cutting keeps the order: across seconds for the fractions are less than one, within a second for the
longest fraction of a regular one is cut to that of its leap second. -/
theorem nanoOfDay_mono (h : t.Earlier u) : nanoOfDay t ≤ nanoOfDay u := by
  have fraction := nano_inMicros t
  have total := nanoOfDay_eq t
  have total' := nanoOfDay_eq u
  rcases h with seconds | ⟨same, fractions⟩
  · omega
  · rcases t.nano_inMicros_cases with ⟨_, cut⟩ | ⟨_, cut⟩ <;>
      rcases u.nano_inMicros_cases with ⟨_, cut'⟩ | ⟨_, cut'⟩ <;> omega

theorem nanoWord_mono (h : t.Earlier u) : nanoWord t ≤ nanoWord u := by
  have := nanoOfDay_mono h
  rw [Int64.le_iff_toInt_le, toInt_nanoWord, toInt_nanoWord]
  omega

theorem timeOfNano_eq (h : 0 ≤ n.toInt) : timeOfNano n =
    match TimeOfDay.ofParts? (n.toInt.toNat / 1000000000)
        (n.toInt.toNat % 1000000000 / 1000 * 1000) with
    | some t => .ok t
    | none => .error (.nanoRange n.toInt) :=
  if_neg (Int.not_lt.2 h)

/-- A word is read as the time without leap second whose nanoseconds it counts in whole microseconds. -/
theorem timeOfNano_eq_ok : timeOfNano n = .ok t ↔
    InDay n ∧ t.nano < 1000000000 ∧ t.nano % 1000 = 0 ∧
      t.second * 1000000000 + t.nano = n.toInt / 1000 * 1000 := by
  have second := t.second_lt
  by_cases negative : n.toInt < 0
  · rw [timeOfNano, if_pos negative]
    unfold InDay
    constructor
    · intro h
      cases h
    · intro h
      omega
  · have parts : timeOfNano n = .ok t ↔ TimeOfDay.ofParts? (n.toInt.toNat / 1000000000)
        (n.toInt.toNat % 1000000000 / 1000 * 1000) = some t := by
      rw [timeOfNano_eq (Int.not_lt.1 negative)]
      cases TimeOfDay.ofParts? (n.toInt.toNat / 1000000000)
        (n.toInt.toNat % 1000000000 / 1000 * 1000) <;> simp
    rw [parts, TimeOfDay.ofParts?_eq_some (by omega)]
    unfold InDay
    omega

/-- What a time is stored as is read as the time in whole microseconds. -/
theorem timeOfNano_nanoWord (t : TimeOfDay) : timeOfNano (nanoWord t) = .ok t.inMicros := by
  have total := nanoOfDay_eq t
  have whole := nanoOfDay_mod t
  obtain ⟨less, cut⟩ := nano_inMicros t
  rw [timeOfNano_eq_ok, toInt_nanoWord, t.second_inMicros]
  exact ⟨inDay_nanoWord t, less, cut, by omega⟩

theorem exists_timeOfNano_iff : (∃ t, timeOfNano n = .ok t) ↔ InDay n := by
  constructor
  · rintro ⟨t, ht⟩
    exact (timeOfNano_eq_ok.1 ht).1
  · intro inside
    have low := inside.1
    have high := inside.2
    have exist : IsTime (n.toInt / 1000000000).toNat (n.toInt % 1000000000 / 1000 * 1000).toNat := by
      have second : nanosPerSecond = 1000000000 := rfl
      have day : secondsPerDay = 86400 := rfl
      constructor <;> omega
    refine ⟨⟨_, _, exist⟩, timeOfNano_eq_ok.2 ⟨inside, ?_, ?_, ?_⟩⟩ <;> dsimp only <;> omega

/-- What is read from a word is stored as the word cut to whole microseconds. -/
theorem nanoWord_of_timeOfNano (h : timeOfNano n = .ok t) : nanoWord t = n - n % 1000 := by
  obtain ⟨⟨low, high⟩, regular, whole, total⟩ := timeOfNano_eq_ok.1 h
  have thousand : (1000 : Int64).toInt = 1000 := by decide
  have stored := nanoOfDay_eq t
  have same : t.inMicros.nano = t.nano := by
    rcases t.nano_inMicros_cases with ⟨_, cut⟩ | ⟨leap, _⟩ <;> omega
  rw [same] at stored
  apply Int64.toInt_inj.1
  rw [toInt_nanoWord, Int64.toInt_sub, Int64.toInt_mod, thousand, Int.tmod_eq_emod_of_nonneg low,
    Int.bmod_eq_of_le_mul_two] <;> omega

end Words

section Fields

variable {what : String} {t u : DateTime} {s : StorageValue} {vs : List StorageValue}

theorem dateTimeFields_eq (t : DateTime) :
    dateTimeFields t = [.long (dayOfEpoch t.date), .long (nanoWord t.time)] := rfl

theorem dateTimeOfFields_eq_ok : dateTimeOfFields what (.long day :: .long nano :: vs) = .ok t ↔
    dateOfDay day = .ok t.date ∧ timeOfNano nano = .ok t.time := by
  change (dateOfDay day >>= fun date => timeOfNano nano >>= fun time => .ok ⟨date, time⟩) = .ok t ↔ _
  constructor
  · intro h
    obtain ⟨date, hdate, h⟩ := bind_eq_ok.1 h
    obtain ⟨time, htime, ⟨⟩⟩ := bind_eq_ok.1 h
    exact ⟨hdate, htime⟩
  · rintro ⟨hdate, htime⟩
    exact bind_eq_ok.2 ⟨_, hdate, bind_eq_ok.2 ⟨_, htime, rfl⟩⟩

/-- Day and time are checked each by itself. -/
theorem exists_dateTimeOfFields_iff :
    (∃ t, dateTimeOfFields what (.long day :: .long nano :: vs) = .ok t) ↔ InCalendar day ∧ InDay nano := by
  rw [InCalendar, ← exists_dateOfDay_iff, ← exists_timeOfNano_iff]
  constructor
  · rintro ⟨t, ht⟩
    obtain ⟨date, time⟩ := dateTimeOfFields_eq_ok.1 ht
    exact ⟨⟨_, date⟩, _, time⟩
  · rintro ⟨⟨date, hdate⟩, time, htime⟩
    exact ⟨⟨date, time⟩, dateTimeOfFields_eq_ok.2 ⟨hdate, htime⟩⟩

theorem dateTimeOfFields_dateTimeFields (t : DateTime) :
    dateTimeOfFields what (dateTimeFields t ++ vs) = .ok t.inMicros :=
  dateTimeOfFields_eq_ok.2 ⟨dateOfDay_eq_ok.2 rfl, timeOfNano_nanoWord t.time⟩

theorem dateTimeFields_of_fields (h : dateTimeOfFields what (.long day :: .long nano :: vs) = .ok t) :
    dateTimeFields t = [.long day, .long (nano - nano % 1000)] := by
  obtain ⟨date, time⟩ := dateTimeOfFields_eq_ok.1 h
  rw [dateTimeFields_eq, dateOfDay_eq_ok.1 date, nanoWord_of_timeOfNano time]

/-- Days come first, times are looked at on the same day only. -/
theorem dateTimeFields_mono (h : t.Earlier u) : dayOfEpoch t.date < dayOfEpoch u.date ∨
    dayOfEpoch t.date = dayOfEpoch u.date ∧ nanoWord t.time ≤ nanoWord u.time := by
  rcases h with days | ⟨same, times⟩
  · apply Or.inl
    rw [Int64.lt_iff_toInt_lt, toInt_dayOfEpoch, toInt_dayOfEpoch]
    exact Date.earlier_iff_dayNumber.1 days
  · exact Or.inr ⟨congrArg dayOfEpoch same, nanoWord_mono times⟩

theorem time_decode_eq_ok :
    time.decode s = .ok v ↔ ∃ n t, s = .long n ∧ timeOfNano n = .ok t ∧ v = .time t := by
  constructor
  · intro h
    obtain ⟨n, rfl⟩ := shape_of_time h
    obtain ⟨t, ht, rfl⟩ := map_eq_ok.1 h
    exact ⟨n, t, rfl, ht, rfl⟩
  · rintro ⟨n, t, rfl, ht, rfl⟩
    exact map_eq_ok.2 ⟨t, ht, rfl⟩

theorem dateTime_decode_eq_ok : dateTime.decode s = .ok v ↔
    ∃ day nano t, s = .struct [.long day, .long nano] ∧
      dateTimeOfFields "local date time" [.long day, .long nano] = .ok t ∧ v = .dateTime t := by
  constructor
  · intro h
    obtain ⟨day, nano, rfl⟩ := shape_of_dateTime h
    obtain ⟨vs, hvs, h⟩ := bind_eq_ok.1 h
    cases hvs
    obtain ⟨t, ht, ⟨⟩⟩ := bind_eq_ok.1 h
    exact ⟨day, nano, t, rfl, ht, rfl⟩
  · rintro ⟨day, nano, t, rfl, ht, rfl⟩
    exact bind_eq_ok.2 ⟨_, rfl, bind_eq_ok.2 ⟨t, ht, rfl⟩⟩

end Fields

/-- Times and date-times lose what is below a microsecond and nothing else. Words keep the order of the
times, what is stored is read as the time in whole microseconds, and the words that are read are those in
range, to be stored again without the rest below a microsecond. Date-times are a day and a time. -/
theorem times_inMicros :
    (∀ t : TimeOfDay, time.encode (.time t) = .ok (.long (nanoWord t)) ∧ InDay (nanoWord t) ∧
      (nanoWord t).toInt % 1000 = 0 ∧ time.decode (.long (nanoWord t)) = .ok (.time t.inMicros)) ∧
    (∀ t u : TimeOfDay, t.Earlier u → nanoWord t ≤ nanoWord u) ∧
    (∀ s, (∃ v, time.decode s = .ok v) ↔ ∃ n, s = .long n ∧ InDay n) ∧
    (∀ n v, time.decode (.long n) = .ok v → time.encode v = .ok (.long (n - n % 1000))) ∧
    (∀ t : DateTime,
      let stored : StorageValue := .struct [.long (dayOfEpoch t.date), .long (nanoWord t.time)]
      dateTime.encode (.dateTime t) = .ok stored ∧ dateTime.decode stored = .ok (.dateTime t.inMicros)) ∧
    (∀ t u : DateTime, t.Earlier u → dayOfEpoch t.date < dayOfEpoch u.date ∨
      dayOfEpoch t.date = dayOfEpoch u.date ∧ nanoWord t.time ≤ nanoWord u.time) ∧
    (∀ s, (∃ v, dateTime.decode s = .ok v) ↔
      ∃ day nano, s = .struct [.long day, .long nano] ∧ InCalendar day ∧ InDay nano) ∧
    ∀ day nano v, dateTime.decode (.struct [.long day, .long nano]) = .ok v →
      dateTime.encode v = .ok (.struct [.long day, .long (nano - nano % 1000)]) := by
  refine ⟨?_, fun t u => nanoWord_mono, ?_, ?_, ?_, fun t u => dateTimeFields_mono, ?_, ?_⟩
  · intro t
    have whole := nanoOfDay_mod t
    refine ⟨rfl, inDay_nanoWord t, ?_, ?_⟩
    · rw [toInt_nanoWord]
      omega
    · exact time_decode_eq_ok.2 ⟨_, _, rfl, timeOfNano_nanoWord t, rfl⟩
  · intro s
    simp only [time_decode_eq_ok, ← exists_timeOfNano_iff]
    constructor
    · rintro ⟨_, n, t, rfl, ht, _⟩
      exact ⟨n, rfl, t, ht⟩
    · rintro ⟨n, rfl, t, ht⟩
      exact ⟨_, n, t, rfl, ht, rfl⟩
  · intro n v h
    obtain ⟨_, t, ⟨⟩, ht, rfl⟩ := time_decode_eq_ok.1 h
    rw [← nanoWord_of_timeOfNano ht]
    rfl
  · intro t
    refine ⟨rfl, dateTime_decode_eq_ok.2 ⟨_, _, _, rfl, ?_, rfl⟩⟩
    exact dateTimeOfFields_dateTimeFields t
  · intro s
    simp only [dateTime_decode_eq_ok]
    constructor
    · rintro ⟨_, day, nano, t, rfl, ht, _⟩
      exact ⟨day, nano, rfl, exists_dateTimeOfFields_iff.1 ⟨t, ht⟩⟩
    · rintro ⟨day, nano, rfl, inside⟩
      obtain ⟨t, ht⟩ := exists_dateTimeOfFields_iff.2 inside
      exact ⟨_, day, nano, t, rfl, ht, rfl⟩
  · intro day nano v h
    obtain ⟨_, _, t, ⟨⟩, ht, rfl⟩ := dateTime_decode_eq_ok.1 h
    rw [← dateTimeFields_of_fields ht]
    rfl

theorem times_inMicros_leapSecond :
    let t : TimeOfDay := ⟨86399, 999999999, by decide⟩
    let u : TimeOfDay := ⟨86399, 1500000000, by decide⟩
    let a : DateTime := ⟨.first, u⟩
    let b : DateTime := ⟨.last, t⟩
    (t.Earlier u ∧ nanoWord t ≤ nanoWord u) ∧
    (time.decode (.long 86399999999999) = .ok (.time u.inMicros) ∧
      time.encode (.time u.inMicros) = .ok (.long (86399999999999 - 86399999999999 % 1000))) ∧
    (a.Earlier b ∧ (dayOfEpoch a.date < dayOfEpoch b.date ∨
      dayOfEpoch a.date = dayOfEpoch b.date ∧ nanoWord a.time ≤ nanoWord b.time)) ∧
    dateTime.decode (.struct [.long 95026236, .long 86399999999999]) = .ok (.dateTime b.inMicros) ∧
      dateTime.encode (.dateTime b.inMicros) =
        .ok (.struct [.long 95026236, .long (86399999999999 - 86399999999999 % 1000)]) := by
  intro t u a b
  obtain ⟨_, order, _, again, _, order', _, again'⟩ := times_inMicros
  have earlier : t.Earlier u := Or.inr ⟨rfl, by decide⟩
  have earlier' : a.Earlier b := Or.inl (Or.inl (by decide))
  have read : time.decode (.long 86399999999999) = .ok (.time u.inMicros) := rfl
  have read' : dateTime.decode (.struct [.long 95026236, .long 86399999999999]) =
      .ok (.dateTime b.inMicros) := rfl
  exact ⟨⟨earlier, order t u earlier⟩, ⟨read, again _ _ read⟩, ⟨earlier', order' a b earlier'⟩, read',
    again' _ _ _ read'⟩

end ValueFactory
end LogicalTable
