import LogicalTable.Proofs.Dictionary.Room
import LogicalTable.Proofs.LogicalColumn.Views

/-! Encoding when keys run out. It fails just if a chunk needs more keys than are left, and then all of
them are drawn, so that no later chunk with a value in it can be encoded. -/
namespace LogicalTable.KeySource

def Exhausted (s : KeySource) : Prop := s.key.maxKey < s.next.toNat

/-- The source behind the last key of its width. -/
def spent (key : DictKey) : KeySource := ⟨key, UInt64.ofNat (key.maxKey + 1)⟩

theorem error_of_map {x : KeySource × Except ε α} {f : α → β} {s : KeySource} {e : ε}
    (h : (x.1, x.2.map f) = (s, .error e)) : x = (s, .error e) := by
  obtain ⟨t, y⟩ := x
  cases y with
  | error e' =>
    cases h
    rfl
  | ok a => cases h

theorem draw_exhausted {s : KeySource} (h : s.Exhausted) :
    s.draw = .error (.keysExhausted s.key.name) := if_pos h

/-- Drawing fails behind the last key only. -/
theorem rows_error {s t : KeySource} {seen : List (StorageValue × UInt64)}
    {vs : List StorageValue} {e : LayoutError} (before : s.next.toNat ≤ s.key.maxKey + 1)
    (failed : s.rows seen vs = (t, .error e)) :
    t = spent s.key ∧ t.Exhausted ∧ e = .keysExhausted s.key.name ∧ ∃ v ∈ vs, v ≠ .null := by
  induction vs generalizing s seen with
  | nil => cases failed
  | cons v vs ih =>
    have later : ∀ {u : KeySource} {more : List (StorageValue × UInt64)},
        u.next.toNat ≤ u.key.maxKey + 1 → u.key = s.key → u.rows more vs = (t, .error e) →
        t = spent s.key ∧ t.Exhausted ∧ e = .keysExhausted s.key.name ∧
          ∃ w ∈ v :: vs, w ≠ .null := by
      intro u more bound same failed
      obtain ⟨last, spent, message, w, hw, present⟩ := ih bound failed
      rw [same] at last message
      exact ⟨last, spent, message, w, List.mem_cons_of_mem v hw, present⟩
    rw [rows] at failed
    by_cases hn : v.isNull = true
    · rw [if_pos hn] at failed
      exact later before rfl (error_of_map failed)
    rw [if_neg hn] at failed
    cases found : seen.find? (·.1 = v) with
    | some p =>
      rw [found] at failed
      exact later before rfl (error_of_map failed)
    | none =>
      rw [found] at failed
      by_cases left : s.next.toNat ≤ s.key.maxKey
      · rw [draw_eq_ok left] at failed
        refine later (u := { s with next := s.next + 1 }) ?_ rfl (error_of_map failed)
        have wrapped := Nat.mod_le (s.next.toNat + 1) (2 ^ 64)
        have next : (s.next + 1).toNat = (s.next.toNat + 1) % 2 ^ 64 := UInt64.toNat_add s.next 1
        dsimp only
        omega
      · have gone : s.Exhausted := Nat.not_le.1 left
        rw [draw_exhausted gone] at failed
        cases failed
        have last : t.next.toNat = t.key.maxKey + 1 := by
          rw [Exhausted] at gone
          omega
        have same : t = spent t.key := by
          rw [spent, ← last, UInt64.ofNat_toNat]
        exact ⟨same, gone, rfl, v, List.mem_cons_self,
          fun null => hn (StorageValue.isNull_iff.2 null)⟩

theorem rows_exhausted {s : KeySource} (gone : s.Exhausted) {vs : List StorageValue}
    (present : ∃ v ∈ vs, v ≠ .null) :
    s.rows [] vs = (s, .error (.keysExhausted s.key.name)) := by
  induction vs with
  | nil =>
    obtain ⟨v, hv, _⟩ := present
    exact (List.not_mem_nil hv).elim
  | cons v vs ih =>
    rw [rows]
    by_cases hn : v.isNull = true
    · obtain ⟨w, hw, there⟩ := present
      have later : w ∈ vs := (List.mem_cons.1 hw).resolve_left fun same =>
        there (same ▸ StorageValue.isNull_iff.1 hn)
      rw [if_pos hn, ih ⟨w, later, there⟩]
      rfl
    · rw [if_neg hn, List.find?_nil]
      dsimp only
      rw [draw_exhausted gone]

theorem encode_exhausted {s : KeySource} (gone : s.Exhausted) (value : ArrayType)
    {vs : List StorageValue} (present : ∃ v ∈ vs, v ≠ .null) :
    s.encode value vs = (s, .error (.layout (.keysExhausted s.key.name))) := by
  rw [encode, rows_exhausted gone present]

/-- Either there are keys for all values of a chunk, or they run out. -/
theorem encode_cases {t : LogicalType} {s : KeySource} {vs : List StorageValue}
    (admitted : ∀ v ∈ vs, t.storage.admits v = true)
    (word : s.next.toNat + (distinctValues vs).length ≤ 0x10000000000000000)
    (before : s.next.toNat ≤ s.key.maxKey + 1) :
    (s.next.toNat + (distinctValues vs).length ≤ s.key.maxKey + 1 ∧
      ∃ c, s.encode t.storage.arrayType vs =
          ({ s with next := UInt64.ofNat (s.next.toNat + (distinctValues vs).length) }, .ok c) ∧
        t.Takes c vs) ∨
    (s.key.maxKey + 1 < s.next.toNat + (distinctValues vs).length ∧
      s.encode t.storage.arrayType vs =
        (spent s.key, .error (.layout (.keysExhausted s.key.name))) ∧
      (spent s.key).Exhausted ∧ ∃ v ∈ vs, v ≠ .null) := by
  by_cases room : s.next.toNat + (distinctValues vs).length ≤ s.key.maxKey + 1
  · exact Or.inl ⟨room, LogicalType.takes_encode admitted room⟩
  · refine Or.inr ⟨Nat.not_le.1 room, ?_⟩
    cases drawn : s.rows [] vs with
    | mk u outcome =>
      cases outcome with
      | ok rows => exact (room (room_of_rows (List.nil_append vs) (Progress.init vs) word before drawn)).elim
      | error e =>
        obtain ⟨rfl, gone, rfl, present⟩ := rows_error before drawn
        exact ⟨by rw [encode, drawn], gone, present⟩

end LogicalTable.KeySource
