import LogicalTable.Dictionary.Encode

/-! The keys that the values of a chunk get. They are consecutive, in the order in which the values
occur first, so that equal values share a key and different ones do not. -/
namespace LogicalTable

def StorageValue.isPresent (v : StorageValue) : Bool := !v.isNull

theorem StorageValue.isPresent_iff {v : StorageValue} : v.isPresent = true ↔ v ≠ .null := by
  rw [isPresent, Bool.not_eq_true', ← Bool.not_eq_true, isNull_iff]

/-- The values that are there, each once, in the order in which they occur first. -/
def distinctValues (vs : List StorageValue) : List StorageValue :=
  (vs.filter StorageValue.isPresent).eraseDups

theorem mem_distinctValues {v : StorageValue} {vs : List StorageValue} :
    v ∈ distinctValues vs ↔ v ∈ vs ∧ v ≠ .null := by
  rw [distinctValues, List.mem_eraseDups, List.mem_filter, StorageValue.isPresent_iff]

theorem distinctValues_append (us vs : List StorageValue) :
    ∃ rest, distinctValues (us ++ vs) = distinctValues us ++ rest := by
  rw [distinctValues, List.filter_append, List.eraseDups_append]
  exact ⟨_, rfl⟩

theorem distinctValues_append_same {us : List StorageValue} {v : StorageValue}
    (old : v = .null ∨ v ∈ us) : distinctValues (us ++ [v]) = distinctValues us := by
  rw [distinctValues, List.filter_append, List.eraseDups_append]
  by_cases hv : v = .null
  · rw [hv]
    exact List.append_nil _
  · have here := StorageValue.isPresent_iff.2 hv
    have present : v ∈ us := old.resolve_left hv
    rw [List.filter_cons_of_pos here, List.removeAll,
      List.filter_cons_of_neg (by simp [present, here])]
    exact List.append_nil _

theorem distinctValues_append_new {us : List StorageValue} {v : StorageValue} (hv : v ≠ .null)
    (new : v ∉ us) : distinctValues (us ++ [v]) = distinctValues us ++ [v] := by
  have here := StorageValue.isPresent_iff.2 hv
  rw [distinctValues, List.filter_append, List.eraseDups_append, List.filter_cons_of_pos here,
    List.removeAll, List.filter_cons_of_pos (by simp [new])]
  rfl

/-- The place of a value among those that are there is settled once it occurs. -/
theorem idxOf_distinctValues {us : List StorageValue} {v : StorageValue} (hv : v ≠ .null)
    (new : v ∉ us) (vs : List StorageValue) :
    (distinctValues (us ++ v :: vs)).idxOf v = (distinctValues us).length := by
  have absent : v ∉ distinctValues us := fun h => new (mem_distinctValues.1 h).1
  obtain ⟨rest, hr⟩ := distinctValues_append (us ++ [v]) vs
  rw [List.append_assoc, List.singleton_append, distinctValues_append_new hv new,
    List.append_assoc, List.singleton_append] at hr
  rw [hr, List.idxOf_append, if_neg absent, List.idxOf_cons_self, Nat.zero_add]

theorem length_distinctValues_lt {us : List StorageValue} {v : StorageValue} (hv : v ≠ .null)
    (new : v ∉ us) (vs : List StorageValue) :
    (distinctValues us).length < (distinctValues (us ++ v :: vs)).length := by
  rw [← idxOf_distinctValues hv new vs]
  apply List.idxOf_lt_length_of_mem
  exact mem_distinctValues.2 ⟨List.mem_append_right us List.mem_cons_self, hv⟩

namespace KeySource

/-- The key of a value, if keys count up from `start`. -/
def code (start : Nat) (all : List StorageValue) (v : StorageValue) : UInt64 :=
  UInt64.ofNat (start + (distinctValues all).idxOf v)

/-- The row of a value at a position: its key, and the value itself where it occurs first. -/
def rowAt (start : Nat) (all : List StorageValue) (i : Nat) (v : StorageValue) : DictionaryRow :=
  if v.isNull then ⟨none, .null⟩
  else ⟨some (code start all v), if all.idxOf v = i then v else .null⟩

/-- A source and the keys drawn so far, once the values `us` out of `all` are encoded. -/
structure Progress (start : Nat) (all us : List StorageValue) (s : KeySource)
    (seen : List (StorageValue × UInt64)) : Prop where
  next : s.next = UInt64.ofNat (start + (distinctValues us).length)
  found : ∀ v : StorageValue, v ≠ .null →
    seen.find? (·.1 = v) = if v ∈ us then some (v, code start all v) else none

theorem Progress.init {s : KeySource} (all : List StorageValue) :
    Progress s.next.toNat all [] s [] where
  next := (UInt64.ofNat_toNat).symm
  found v _ := by rw [if_neg List.not_mem_nil]; rfl

/-- Missing values and those that occurred before change nothing. -/
theorem Progress.same {start : Nat} {all us : List StorageValue} {s : KeySource}
    {seen : List (StorageValue × UInt64)} {v : StorageValue} (h : Progress start all us s seen)
    (old : v = .null ∨ v ∈ us) : Progress start all (us ++ [v]) s seen where
  next := by
    rw [distinctValues_append_same old]
    exact h.next
  found w hw := by
    have same : w ∈ us ++ [v] ↔ w ∈ us := by
      rw [List.mem_append, List.mem_singleton]
      constructor
      · rintro (hu | rfl)
        · exact hu
        · exact old.resolve_left hw
      · exact Or.inl
    rw [h.found w hw]
    by_cases hu : w ∈ us
    · rw [if_pos hu, if_pos (same.2 hu)]
    · rw [if_neg hu, if_neg fun h => hu (same.1 h)]

/-- A new value takes the next key. -/
theorem Progress.new {start : Nat} {us vs : List StorageValue} {s : KeySource}
    {seen : List (StorageValue × UInt64)} {v : StorageValue}
    (h : Progress start (us ++ v :: vs) us s seen) (hv : v ≠ .null) (new : v ∉ us) :
    s.next = code start (us ++ v :: vs) v ∧
      Progress start (us ++ v :: vs) (us ++ [v]) { s with next := s.next + 1 }
        ((v, s.next) :: seen) := by
  have key : s.next = code start (us ++ v :: vs) v := by
    rw [h.next, code, idxOf_distinctValues hv new]
  refine ⟨key, ?_, ?_⟩
  · rw [distinctValues_append_new hv new, List.length_append, List.length_singleton, h.next,
      ← Nat.add_assoc]
    exact (UInt64.ofNat_add _ 1).symm
  · intro w hw
    by_cases same : v = w
    · rw [List.find?_cons_of_pos (by simp [same]), key, same,
        if_pos (List.mem_append_right us List.mem_cons_self)]
    · have other : w ∈ us ++ [v] ↔ w ∈ us := by
        rw [List.mem_append, List.mem_singleton]
        exact or_iff_left fun h => same h.symm
      rw [List.find?_cons_of_neg (by simp [same]), h.found w hw]
      by_cases hu : w ∈ us
      · rw [if_pos hu, if_pos (other.2 hu)]
      · rw [if_neg hu, if_neg fun h => hu (other.1 h)]

theorem draw_eq_ok {s : KeySource} (h : s.next.toNat ≤ s.key.maxKey) :
    s.draw = .ok (s.next, { s with next := s.next + 1 }) :=
  if_neg (Nat.not_lt.2 h)

/-- Positions after a value, counted from it or from the row behind it. -/
theorem mapIdx_rowAt (start : Nat) (all us : List StorageValue) (v : StorageValue)
    (vs : List StorageValue) :
    (vs.mapIdx fun i w => rowAt start all ((us ++ [v]).length + i) w) =
      vs.mapIdx fun i w => rowAt start all (us.length + (i + 1)) w := by
  have place : ∀ i, (us ++ [v]).length + i = us.length + (i + 1) := by
    intro i
    rw [List.length_append, List.length_singleton]
    omega
  simp only [place]

theorem idxOf_append_new {all us vs : List StorageValue} {v : StorageValue} (h : us ++ v :: vs = all)
    (new : v ∉ us) : all.idxOf v = us.length := by
  rw [← h, List.idxOf_append, if_neg new, List.idxOf_cons_self, Nat.zero_add]

/-- What one value does: an old one takes no key, a new one the next key, unless none is left. -/
theorem rows_cons {start : Nat} {all us vs : List StorageValue} {v : StorageValue}
    (h : us ++ v :: vs = all) {s : KeySource} {seen : List (StorageValue × UInt64)}
    (progress : Progress start all us s seen) :
    ((v = .null ∨ v ∈ us) ∧ s.rows seen (v :: vs) = ((s.rows seen vs).1,
      (s.rows seen vs).2.map (rowAt start all us.length v :: ·))) ∨
    ((v ≠ .null ∧ v ∉ us) ∧ s.next.toNat ≤ s.key.maxKey ∧ s.rows seen (v :: vs) =
      (({ s with next := s.next + 1 }.rows ((v, s.next) :: seen) vs).1,
        ({ s with next := s.next + 1 }.rows ((v, s.next) :: seen) vs).2.map
          (rowAt start all us.length v :: ·))) ∨
    ((v ≠ .null ∧ v ∉ us) ∧ s.key.maxKey < s.next.toNat ∧
      s.rows seen (v :: vs) = (s, .error (.keysExhausted s.key.name))) := by
  rw [rows]
  by_cases hn : v.isNull = true
  · exact Or.inl ⟨Or.inl (StorageValue.isNull_iff.1 hn), by rw [if_pos hn, rowAt, if_pos hn]⟩
  have hv : v ≠ .null := fun h => hn (StorageValue.isNull_iff.2 h)
  rw [if_neg hn, progress.found v hv]
  by_cases old : v ∈ us
  · have before : ¬ all.idxOf v = us.length := by
      have := List.idxOf_lt_length_of_mem old
      rw [← h, List.idxOf_append, if_pos old]
      omega
    exact Or.inl ⟨Or.inr old, by rw [if_pos old, rowAt, if_neg hn, if_neg before]⟩
  · rw [if_neg old]
    by_cases left : s.next.toNat ≤ s.key.maxKey
    · subst h
      obtain ⟨key, _⟩ := progress.new hv old
      refine Or.inr (Or.inl ⟨⟨hv, old⟩, left, ?_⟩)
      rw [draw_eq_ok left, rowAt, if_neg hn, if_pos (idxOf_append_new rfl old), ← key]
    · have refused : s.draw = .error (.keysExhausted s.key.name) := if_pos (Nat.not_le.1 left)
      exact Or.inr (Or.inr ⟨⟨hv, old⟩, Nat.not_le.1 left, by rw [refused]⟩)

/-- As long as the width has keys left, all rows get theirs, and the source is behind the last. -/
theorem rows_eq {start : Nat} {all us vs : List StorageValue} (h : us ++ vs = all) {s : KeySource}
    {seen : List (StorageValue × UInt64)} (progress : Progress start all us s seen)
    (room : start + (distinctValues all).length ≤ s.key.maxKey + 1) :
    s.rows seen vs = ({ s with next := UInt64.ofNat (start + (distinctValues all).length) },
      .ok (vs.mapIdx fun i v => rowAt start all (us.length + i) v)) := by
  induction vs generalizing us s seen with
  | nil =>
    rw [List.append_nil] at h
    rw [rows, ← h, ← progress.next]
    rfl
  | cons v vs ih =>
    have rest : (us ++ [v]) ++ vs = all := by
      rw [List.append_assoc]
      exact h
    rw [List.mapIdx_cons, Nat.add_zero, ← mapIdx_rowAt start all us v vs]
    rcases rows_cons h progress with ⟨old, step⟩ | ⟨⟨hv, new⟩, _, step⟩ | ⟨⟨hv, new⟩, gone, _⟩
    · rw [step, ih rest (progress.same old) room]
      rfl
    · subst h
      rw [step, ih rest (progress.new hv new).2 room]
      rfl
    · subst h
      have := length_distinctValues_lt hv new vs
      have := s.key.maxKey_lt
      rw [progress.next, UInt64.toNat_ofNat', Nat.mod_eq_of_lt (by omega)] at gone
      omega

theorem ok_of_map {x : KeySource × Except ε α} {f : α → β} {s : KeySource} {b : β}
    (h : (x.1, x.2.map f) = (s, .ok b)) : ∃ a, x = (s, .ok a) ∧ f a = b := by
  obtain ⟨t, y⟩ := x
  cases y with
  | error e => cases h
  | ok a =>
    cases h
    exact ⟨a, rfl, rfl⟩

/-- Rows that were given have the keys in order, each within the width, also past a counter that wraps. -/
theorem rows_of_ok {start : Nat} {all us vs : List StorageValue} (h : us ++ vs = all)
    {s t : KeySource} {seen : List (StorageValue × UInt64)} {rs : List DictionaryRow}
    (progress : Progress start all us s seen)
    (drawn : ∀ v ∈ us, v ≠ .null → (code start all v).toNat ≤ s.key.maxKey)
    (encoded : s.rows seen vs = (t, .ok rs)) :
    t.key = s.key ∧ rs = (vs.mapIdx fun i v => rowAt start all (us.length + i) v) ∧
      ∀ v ∈ all, v ≠ .null → (code start all v).toNat ≤ s.key.maxKey := by
  induction vs generalizing us s seen rs with
  | nil =>
    cases encoded
    rw [List.append_nil] at h
    exact ⟨rfl, rfl, h ▸ drawn⟩
  | cons v vs ih =>
    have rest : (us ++ [v]) ++ vs = all := by
      rw [List.append_assoc]
      exact h
    rw [List.mapIdx_cons, Nat.add_zero, ← mapIdx_rowAt start all us v vs]
    rcases rows_cons h progress with ⟨old, step⟩ | ⟨⟨hv, new⟩, left, step⟩ | ⟨_, _, step⟩
    · have again : ∀ w ∈ us ++ [v], w ≠ .null → (code start all w).toNat ≤ s.key.maxKey :=
        List.forall_mem_append.2 ⟨drawn, List.forall_mem_singleton.2 fun present =>
          drawn v (old.resolve_left present) present⟩
      rw [step] at encoded
      obtain ⟨_, inner, rfl⟩ := ok_of_map encoded
      obtain ⟨width, rfl, within⟩ := ih rest (progress.same old) again inner
      exact ⟨width, rfl, within⟩
    · subst h
      obtain ⟨key, next⟩ := progress.new hv new
      have more : ∀ w ∈ us ++ [v], w ≠ .null →
          (code start (us ++ v :: vs) w).toNat ≤ s.key.maxKey :=
        List.forall_mem_append.2 ⟨drawn, List.forall_mem_singleton.2 fun _ => key ▸ left⟩
      rw [step] at encoded
      obtain ⟨_, inner, rfl⟩ := ok_of_map encoded
      obtain ⟨width, rfl, within⟩ := ih rest next more inner
      exact ⟨width, rfl, within⟩
    · rw [step] at encoded
      cases encoded

theorem rows_eq_mapIdx {s : KeySource} {vs : List StorageValue}
    (room : s.next.toNat + (distinctValues vs).length ≤ s.key.maxKey + 1) :
    s.rows [] vs = ({ s with next := UInt64.ofNat (s.next.toNat + (distinctValues vs).length) },
      .ok (vs.mapIdx (rowAt s.next.toNat vs))) := by
  have h := rows_eq (List.nil_append vs) (Progress.init vs) room
  simpa using h

end KeySource
end LogicalTable
