import LogicalTable.Calendar.Date
import Mathlib.Algebra.BigOperators.Group.List.Basic
import Mathlib.Algebra.Order.Group.Int
import Mathlib.Order.Monotone.Basic

/-! Days are counted without gaps. A year spans the days of its months, the spans of years and months
follow on one another, and so each integer is a day of at most one date, the date after a date has the
next integer, and the calendar holds the integers between those of its first and its last date. -/
namespace LogicalTable

theorem isLeapYear_iff {y : Int} :
    isLeapYear y = true ↔ y % 4 = 0 ∧ (y % 100 ≠ 0 ∨ y % 400 = 0) := by
  simp [isLeapYear]

def daysInYear (y : Int) : Nat := if isLeapYear y then 366 else 365

theorem daysInMonth_pos (y : Int) (m : Nat) : 0 < daysInMonth y m := by
  unfold daysInMonth
  repeat' split
  all_goals decide

namespace Date

section Years

variable {y z n : Int} {k : Nat}

theorem daysBeforeYear_succ (y : Int) : daysBeforeYear (y + 1) = daysBeforeYear y + daysInYear y := by
  unfold daysBeforeYear daysInYear
  by_cases leap : isLeapYear y = true
  · rw [if_pos leap]
    rw [isLeapYear_iff] at leap
    omega
  · rw [if_neg leap]
    rw [isLeapYear_iff] at leap
    omega

theorem daysBeforeYear_mono (h : y ≤ z) : daysBeforeYear y ≤ daysBeforeYear z := by
  apply monotone_int_of_le_succ _ h
  intro y
  rw [daysBeforeYear_succ]
  omega

theorem daysBeforeYear_end (h : y < z) : daysBeforeYear y + daysInYear y ≤ daysBeforeYear z := by
  rw [← daysBeforeYear_succ]
  exact daysBeforeYear_mono h

theorem year_unique (hy : daysBeforeYear y ≤ n) (hy' : n < daysBeforeYear y + daysInYear y)
    (hz : daysBeforeYear z ≤ n) (hz' : n < daysBeforeYear z + daysInYear z) : y = z := by
  rcases lt_trichotomy y z with h | h | h
  · have := daysBeforeYear_end h
    omega
  · exact h
  · have := daysBeforeYear_end h
    omega

theorem yearOf_spec (n : Int) : daysBeforeYear (yearOf n).1 + (yearOf n).2 = n ∧
    (yearOf n).2 < daysInYear (yearOf n).1 := by
  simp only [yearOf]
  generalize hn400 : n / 146097 = n400
  generalize hr400 : n % 146097 = r400
  generalize hn100 : min 3 (r400 / 36524) = n100
  generalize hr100 : r400 - 36524 * n100 = r100
  generalize hn4 : r100 / 1461 = n4
  generalize hr4 : r100 % 1461 = r4
  generalize hn1 : min 3 (r4 / 365) = n1
  have centuries : 0 ≤ n100 ∧ n100 ≤ 3 ∧ 0 ≤ r100 ∧ (r100 < 36524 ∨ n100 = 3 ∧ r100 = 36524) := by omega
  have spans : 0 ≤ n4 ∧ n4 ≤ 24 ∧ 0 ≤ r4 ∧ r4 ≤ 1460 := by omega
  have years : 0 ≤ n1 ∧ n1 ≤ 3 ∧ 0 ≤ r4 - 365 * n1 ∧
      (r4 - 365 * n1 < 365 ∨ n1 = 3 ∧ r4 - 365 * n1 = 365) := by omega
  have before : daysBeforeYear (400 * n400 + 100 * n100 + 4 * n4 + n1 + 1) =
      146097 * n400 + 36524 * n100 + 1461 * n4 + 365 * n1 := by
    unfold daysBeforeYear
    have fourths : (400 * n400 + 100 * n100 + 4 * n4 + n1 + 1 - 1) / 4 = 100 * n400 + 25 * n100 + n4 := by
      omega
    have hundredths : (400 * n400 + 100 * n100 + 4 * n4 + n1 + 1 - 1) / 100 = 4 * n400 + n100 := by
      omega
    have fourHundredths : (400 * n400 + 100 * n100 + 4 * n4 + n1 + 1 - 1) / 400 = n400 := by
      omega
    rw [fourths, hundredths, fourHundredths]
    omega
  constructor
  · rw [before]
    omega
  · unfold daysInYear
    by_cases leap : isLeapYear (400 * n400 + 100 * n100 + 4 * n4 + n1 + 1) = true
    · rw [if_pos leap]
      omega
    · rw [if_neg leap]
      rw [isLeapYear_iff] at leap
      omega

theorem yearOf_eq (h : k < daysInYear y) : yearOf (daysBeforeYear y + k) = (y, k) := by
  obtain ⟨split, inside⟩ := yearOf_spec (daysBeforeYear y + k)
  generalize yearOf (daysBeforeYear y + k) = found at split inside
  obtain ⟨z, r⟩ := found
  dsimp only at split inside
  obtain rfl : y = z :=
    year_unique (n := daysBeforeYear y + k) (by omega) (by omega) (by omega) (by omega)
  rw [Prod.mk.injEq]
  omega

end Years

section Months

variable {y : Int} {m k d r months : Nat}

theorem daysBeforeMonth_succ (y : Int) (hm : 1 ≤ m) :
    daysBeforeMonth y (m + 1) = daysBeforeMonth y m + daysInMonth y m := by
  obtain ⟨m, rfl⟩ := Nat.exists_eq_add_of_le' hm
  exact List.sum_range_succ _ m

theorem daysBeforeMonth_thirteen (y : Int) : daysBeforeMonth y 13 = daysInYear y := by
  unfold daysBeforeMonth daysInMonth daysInYear
  cases isLeapYear y <;> rfl

theorem daysBeforeMonth_end (hm : 1 ≤ m) (h : m < k) :
    daysBeforeMonth y m + daysInMonth y m ≤ daysBeforeMonth y k := by
  induction k, h using Nat.le_induction with
  | base => exact (daysBeforeMonth_succ y hm).ge
  | succ k hk ih =>
    rw [daysBeforeMonth_succ y (by omega)]
    omega

theorem dayOfYear_lt (hm : 1 ≤ m) (hm' : m ≤ 12) (hd : d ≤ daysInMonth y m) :
    daysBeforeMonth y m + d ≤ daysInYear y := by
  have last := daysBeforeMonth_end (y := y) hm (Nat.lt_succ_of_le hm')
  rw [daysBeforeMonth_thirteen] at last
  omega

theorem monthOf_eq (hm : 1 ≤ m) (hmk : m ≤ k) (hk : k ≤ m + months) (hd : 1 ≤ d)
    (hd' : d ≤ daysInMonth y k) (h : daysBeforeMonth y m + r + 1 = daysBeforeMonth y k + d) :
    monthOf y months m r = (k, d) := by
  induction months generalizing m r with
  | zero =>
    obtain rfl : m = k := by omega
    rw [monthOf, Prod.mk.injEq]
    omega
  | succ months ih =>
    rcases Nat.eq_or_lt_of_le hmk with rfl | later
    · rw [monthOf, if_pos (by omega), Prod.mk.injEq]
      omega
    · have passed := daysBeforeMonth_end (y := y) hm later
      rw [monthOf, if_neg (by omega)]
      apply ih (by omega) later (by omega)
      rw [daysBeforeMonth_succ y hm]
      omega

/-- A day before the end of a month stands in that month or one before it. -/
theorem exists_month (hm : 1 ≤ m) (h : r < daysBeforeMonth y (m + 1)) :
    ∃ k d, 1 ≤ k ∧ k ≤ m ∧ 1 ≤ d ∧ d ≤ daysInMonth y k ∧ r + 1 = daysBeforeMonth y k + d := by
  induction m, hm using Nat.le_induction with
  | base =>
    rw [daysBeforeMonth_succ y (Nat.le_refl 1)] at h
    have start : daysBeforeMonth y 1 = 0 := rfl
    exact ⟨1, r + 1, by omega, by omega, by omega, by omega, by omega⟩
  | succ m hm ih =>
    by_cases inside : r < daysBeforeMonth y (m + 1)
    · obtain ⟨k, d, hk, hk', rest⟩ := ih inside
      exact ⟨k, d, hk, by omega, rest⟩
    · rw [daysBeforeMonth_succ y (by omega)] at h
      exact ⟨m + 1, r + 1 - daysBeforeMonth y (m + 1), by omega, by omega, by omega, by omega, by omega⟩

end Months

section Days

variable {y n : Int} {m k : Nat} {d e : Date}

theorem ext_parts (hy : d.year = e.year) (hm : d.month = e.month) (hd : d.day = e.day) : d = e := by
  cases d
  cases e
  subst hy hm hd
  rfl

theorem parts_of_ofParts? {day : Nat} (h : ofParts? y m day = some d) :
    d.year = y ∧ d.month = m ∧ d.day = day := by
  unfold ofParts? at h
  split at h
  · cases h
    exact ⟨rfl, rfl, rfl⟩
  · cases h

/-- The day of a month of a year, whether or not the calendar holds the year. -/
theorem ofEraDay?_parts {day : Nat} (hm : 1 ≤ m) (hm' : m ≤ 12) (hd : 1 ≤ day)
    (hd' : day ≤ daysInMonth y m) :
    ofEraDay? (daysBeforeYear y + daysBeforeMonth y m + day) = ofParts? y m day := by
  have inside := dayOfYear_lt hm hm' hd'
  have shift : daysBeforeYear y + daysBeforeMonth y m + day - 1 =
      daysBeforeYear y + ((daysBeforeMonth y m + day - 1 : Nat) : Int) := by omega
  have month : monthOf y 11 1 (daysBeforeMonth y m + day - 1) = (m, day) := by
    apply monthOf_eq (Nat.le_refl 1) hm (by omega) hd hd'
    have start : daysBeforeMonth y 1 = 0 := rfl
    omega
  simp only [ofEraDay?, shift, yearOf_eq (show daysBeforeMonth y m + day - 1 < daysInYear y by omega),
    month]

/-- Each integer is a day of some month of some year. -/
theorem exists_parts (n : Int) : ∃ y m day, 1 ≤ m ∧ m ≤ 12 ∧ 1 ≤ day ∧ day ≤ daysInMonth y m ∧
    n = daysBeforeYear y + daysBeforeMonth y m + day := by
  obtain ⟨split, inside⟩ := yearOf_spec (n - 1)
  generalize yearOf (n - 1) = found at split inside
  obtain ⟨y, r⟩ := found
  dsimp only at split inside
  rw [← daysBeforeMonth_thirteen] at inside
  obtain ⟨m, day, hm, hm', hd, hd', sum⟩ := exists_month (by decide : 1 ≤ 12) inside
  exact ⟨y, m, day, hm, hm', hd, hd', by omega⟩

@[simp] theorem ofEraDay?_eraDay (d : Date) : ofEraDay? d.eraDay = some d := by
  obtain ⟨_, _, hm, hm', hd, hd'⟩ := d.exist
  rw [eraDay, ofEraDay?_parts hm hm' hd hd', ofParts?, dif_pos d.exist]

theorem ofEraDay?_eq_some : ofEraDay? n = some d ↔ d.eraDay = n := by
  constructor
  · intro h
    obtain ⟨y, m, day, hm, hm', hd, hd', rfl⟩ := exists_parts n
    rw [ofEraDay?_parts hm hm' hd hd'] at h
    obtain ⟨rfl, rfl, rfl⟩ := parts_of_ofParts? h
    rfl
  · rintro rfl
    exact ofEraDay?_eraDay d

theorem exists_ofEraDay?_iff :
    (∃ d, ofEraDay? n = some d) ↔ first.eraDay ≤ n ∧ n ≤ last.eraDay := by
  obtain ⟨y, m, day, hm, hm', hd, hd', rfl⟩ := exists_parts n
  have inside := dayOfYear_lt hm hm' hd'
  have start : first.eraDay = daysBeforeYear minYear + 1 := by decide
  have stop : last.eraDay = daysBeforeYear (maxYear + 1) := by decide
  rw [ofEraDay?_parts hm hm' hd hd', start, stop]
  constructor
  · rintro ⟨d, held⟩
    obtain ⟨rfl, _, _⟩ := parts_of_ofParts? held
    obtain ⟨low, high, _⟩ := d.exist
    have after := daysBeforeYear_mono low
    have before := daysBeforeYear_end (Int.lt_add_one_of_le high)
    omega
  · rintro ⟨low, high⟩
    have after : minYear ≤ y := by
      by_contra early
      have := daysBeforeYear_end (lt_of_not_ge early)
      omega
    have before : y ≤ maxYear := by
      by_contra late
      have := daysBeforeYear_mono (Int.add_one_le_of_lt (lt_of_not_ge late))
      omega
    exact ⟨_, dif_pos ⟨after, before, hm, hm', hd, hd'⟩⟩

/-- The order of the calendar: by year, then by month, then by day. -/
def Earlier (d e : Date) : Prop :=
  d.year < e.year ∨ d.year = e.year ∧ (d.month < e.month ∨ d.month = e.month ∧ d.day < e.day)

theorem earlier_trichotomy (d e : Date) : d.Earlier e ∨ d = e ∨ e.Earlier d := by
  by_cases same : d.year = e.year ∧ d.month = e.month ∧ d.day = e.day
  · exact Or.inr (Or.inl (ext_parts same.1 same.2.1 same.2.2))
  · unfold Earlier
    omega

theorem eraDay_lt_of_earlier (h : d.Earlier e) : d.eraDay < e.eraDay := by
  obtain ⟨_, _, hm, hm', hd, hd'⟩ := d.exist
  obtain ⟨_, _, km, km', kd, kd'⟩ := e.exist
  have inside := dayOfYear_lt hm hm' hd'
  unfold eraDay
  rcases h with years | ⟨sameYear, months | ⟨sameMonth, days⟩⟩
  · have := daysBeforeYear_end years
    omega
  · have := daysBeforeMonth_end (y := d.year) hm months
    rw [← sameYear]
    omega
  · rw [← sameYear, ← sameMonth]
    omega

theorem earlier_iff : d.Earlier e ↔ d.eraDay < e.eraDay := by
  constructor
  · exact eraDay_lt_of_earlier
  · intro h
    rcases earlier_trichotomy d e with earlier | rfl | later
    · exact earlier
    · exact (lt_irrefl _ h).elim
    · exact (lt_asymm h (eraDay_lt_of_earlier later)).elim

theorem next?_eq (d : Date) : d.next? = ofEraDay? (d.eraDay + 1) := by
  obtain ⟨_, _, hm, hm', hd, hd'⟩ := d.exist
  unfold next? eraDay
  split
  · next inMonth =>
    rw [← ofEraDay?_parts hm hm' (by omega) inMonth]
    congr 1
    omega
  · next lastDay =>
    have whole : d.day = daysInMonth d.year d.month := by omega
    split
    · next inYear =>
      rw [← ofEraDay?_parts (by omega) inYear (Nat.le_refl 1) (daysInMonth_pos _ _),
        daysBeforeMonth_succ d.year hm]
      congr 1
      omega
    · next lastMonth =>
      have december : d.month = 12 := by omega
      have year : daysBeforeMonth d.year 12 + daysInMonth d.year 12 = daysInYear d.year := by
        rw [← daysBeforeMonth_succ d.year (by decide), daysBeforeMonth_thirteen]
      have start : daysBeforeMonth (d.year + 1) 1 = 0 := rfl
      rw [← ofEraDay?_parts (Nat.le_refl 1) (by decide) (Nat.le_refl 1) (daysInMonth_pos _ _),
        daysBeforeYear_succ, start, whole, december]
      congr 1
      omega

/-- So many days later, one day after the other. -/
def later? (d : Date) : Nat → Option Date
  | 0 => some d
  | k + 1 => (d.later? k).bind next?

theorem later?_eq (d : Date) (k : Nat) : d.later? k = ofEraDay? (d.eraDay + k) := by
  induction k with
  | zero => simp [later?]
  | succ k ih =>
    rw [later?, ih]
    cases hk : ofEraDay? (d.eraDay + k) with
    | some e =>
      rw [Option.bind_some, next?_eq, ofEraDay?_eq_some.1 hk]
      congr 1
      omega
    | none =>
      -- Behind the last date there is none; before the first one there is none after a date.
      cases hn : ofEraDay? (d.eraDay + (k + 1 : Nat)) with
      | none => rfl
      | some e =>
        have low := (exists_ofEraDay?_iff.1 ⟨d, ofEraDay?_eraDay d⟩).1
        have high := (exists_ofEraDay?_iff.1 ⟨e, hn⟩).2
        obtain ⟨f, hf⟩ := (exists_ofEraDay?_iff (n := d.eraDay + k)).2 (by omega)
        cases hk.symm.trans hf

theorem later?_eq_some : d.later? k = some e ↔ e.eraDay = d.eraDay + k := by
  rw [later?_eq, ofEraDay?_eq_some]

theorem ofDayNumber?_eq_some : ofDayNumber? n = some d ↔ d.dayNumber = n := by
  rw [ofDayNumber?, ofEraDay?_eq_some, dayNumber]
  omega

theorem exists_ofDayNumber?_iff :
    (∃ d, ofDayNumber? n = some d) ↔ first.dayNumber ≤ n ∧ n ≤ last.dayNumber := by
  rw [ofDayNumber?, exists_ofEraDay?_iff, dayNumber, dayNumber]
  omega

theorem earlier_iff_dayNumber : d.Earlier e ↔ d.dayNumber < e.dayNumber := by
  rw [earlier_iff, dayNumber, dayNumber]
  omega

theorem next?_eq_some : d.next? = some e ↔ e.dayNumber = d.dayNumber + 1 := by
  rw [next?_eq, ofEraDay?_eq_some, dayNumber, dayNumber]
  omega

theorem later?_eq_some_iff {k : Nat} : d.later? k = some e ↔ e.dayNumber = d.dayNumber + k := by
  rw [later?_eq_some, dayNumber, dayNumber]
  omega

/-- The days of the era fit in 32 bits, and so do those counted from 1970-01-01. -/
theorem eraDay_within (d : Date) : -95746129 ≤ d.eraDay ∧ d.eraDay ≤ 95745399 := by
  have start : first.eraDay = -95746129 := by decide
  have stop : last.eraDay = 95745399 := by decide
  rw [← start, ← stop, ← exists_ofEraDay?_iff]
  exact ⟨d, ofEraDay?_eraDay d⟩

end Days

end Date
end LogicalTable
