import LogicalTable.Proofs.Outcome
import LogicalTable.Schema.Basic

/-! What the operations on a schema do to the list of its columns. A reference means at most one
position, a range means a set of positions, and whatever is cut out, put in or taken out leaves the
other columns in order. -/
namespace LogicalTable

/-- The first member of a kind, searched by member and by position. -/
theorem find?_cases (kind : α → Bool) (as : List α) :
    (∃ before a after, as = before ++ a :: after ∧ kind a = true ∧ (∀ b ∈ before, kind b = false) ∧
      as.find? kind = some a ∧ as.findIdx? kind = some before.length) ∨
    ((∀ a ∈ as, kind a = false) ∧ as.find? kind = none ∧ as.findIdx? kind = none) := by
  induction as with
  | nil => exact Or.inr ⟨fun a ha => (List.not_mem_nil ha).elim, rfl, rfl⟩
  | cons a as ih =>
    rw [List.find?_cons, List.findIdx?_cons]
    cases head : kind a with
    | true => exact Or.inl ⟨[], a, as, rfl, head, fun b hb => (List.not_mem_nil hb).elim, rfl, rfl⟩
    | false =>
      rcases ih with ⟨before, b, after, rfl, hb, earlier, found, place⟩ | ⟨others, found, place⟩
      · refine Or.inl ⟨a :: before, b, after, rfl, hb, ?_, found, ?_⟩
        · exact List.forall_mem_cons.2 ⟨head, earlier⟩
        · rw [place]
          rfl
      · refine Or.inr ⟨List.forall_mem_cons.2 ⟨head, others⟩, found, ?_⟩
        rw [place]
        rfl

theorem findIdx?_first {kind : α → Bool} {before after : List α} {a : α} (ha : kind a = true)
    (earlier : ∀ b ∈ before, kind b = false) :
    (before ++ a :: after).findIdx? kind = some before.length := by
  have absent : before.findIdx? kind = none := List.findIdx?_eq_none_iff.2 earlier
  rw [List.findIdx?_append, absent, List.findIdx?_cons, ha]
  simp

/-- The members between two positions, found by their positions. -/
theorem filter_zipIdx_between (first last : Nat) (as : List α) (k : Nat) :
    ((as.zipIdx k).filter fun x => decide (first ≤ x.2 ∧ x.2 < last)).map Prod.fst =
      (as.take (last - k)).drop (first - k) := by
  -- the range moves down with each member passed, until it starts and then until it ends
  induction as generalizing k with
  | nil => simp
  | cons a as ih =>
    rw [List.zipIdx_cons, List.filter_cons]
    by_cases inside : first ≤ k ∧ k < last
    · obtain ⟨m, hm⟩ : ∃ m, last - k = m + 1 := ⟨last - k - 1, by omega⟩
      have start : first - k = 0 := by omega
      have rest : last - (k + 1) = m := by omega
      have here : first - (k + 1) = 0 := by omega
      rw [if_pos (decide_eq_true inside), List.map_cons, ih, hm, start, rest, here]
      rfl
    · rw [if_neg (by simpa using inside), ih]
      cases left : last - k with
      | zero =>
        have rest : last - (k + 1) = 0 := by omega
        rw [rest, List.take_zero, List.take_zero, List.drop_nil, List.drop_nil]
      | succ n =>
        obtain ⟨m, hm⟩ : ∃ m, first - k = m + 1 := ⟨first - k - 1, by omega⟩
        have rest : last - (k + 1) = n := by omega
        have start : first - (k + 1) = m := by omega
        rw [hm, rest, start]
        rfl

/-- Positions beyond the end may be cut to it, and an end before the start to the start. -/
theorem drop_take_within (as : List α) (first last : Nat) :
    (as.take (max (min last as.length) (min first as.length))).drop (min first as.length) =
      (as.take last).drop first := by
  apply List.ext_getElem?
  intro i
  rw [List.getElem?_drop, List.getElem?_drop, List.getElem?_take, List.getElem?_take]
  by_cases inside : first + i < last ∧ first + i < as.length
  · have start : min first as.length = first := by omega
    rw [start, if_pos (by omega), if_pos inside.1]
  · have nothing : (if first + i < last then as[first + i]? else none) = none := by
      split
      · exact List.getElem?_eq_none (by omega)
      · rfl
    rw [nothing, if_neg (by omega)]

namespace Bound

/-- Whether a position lies in a range as far as its start is concerned. -/
def admitsFrom : Bound → Nat → Bool
  | included n, p => n ≤ p
  | excluded n, p => n < p
  | unbounded, _ => true

/-- Whether a position lies in a range as far as its end is concerned. -/
def admitsTo : Bound → Nat → Bool
  | included n, p => p ≤ n
  | excluded n, p => p < n
  | unbounded, _ => true

variable {size p : Nat}

theorem admitsFrom_iff (b : Bound) (word : p < 0xffffffffffffffff) :
    b.admitsFrom p = true ↔ b.start ≤ p := by
  cases b with
  | included n => simp [admitsFrom, start]
  | excluded n =>
    simp only [admitsFrom, start, positionBehind, decide_eq_true_eq]
    omega
  | unbounded => simp [admitsFrom, start]

theorem admitsTo_iff (b : Bound) (inside : p < size) (word : p < 0xffffffffffffffff) :
    b.admitsTo p = true ↔ p < b.stop size := by
  cases b with
  | included n =>
    simp only [admitsTo, stop, positionBehind, decide_eq_true_eq]
    omega
  | excluded n => simp [admitsTo, stop]
  | unbounded => simp [admitsTo, stop, inside]

end Bound

/-- Whether a column is one that the key asks for. -/
def RemoveKey.fits : RemoveKey → Column → Bool
  | .name n, c => c.name = n
  | .column d, c => c == d

def RemoveKey.unmet : RemoveKey → LookupError
  | .name n => .unknownName n
  | .column c => .absentColumn c.text

namespace Schema

/-- The position that a reference means: counted from either end, or the first holder of a name. -/
def Means (s : Schema) : ColumnRef → Nat → Prop
  | .position i, p => p < s.size ∧ (i = p ∨ i = (p : Int) - s.size)
  | .name n, p => ∃ before c after, s.columns = before ++ c :: after ∧ before.length = p ∧
      c.name = n ∧ ∀ d ∈ before, d.name ≠ n

def unmet (s : Schema) : ColumnRef → LookupError
  | .position i => .indexRange i s.size
  | .name n => .unknownName n

variable {s : Schema}

theorem position?_of_means {n : String} {p : Nat} (h : s.Means (.name n) p) :
    s.position? n = some p := by
  obtain ⟨before, c, after, columns, rfl, name, earlier⟩ := h
  rw [position?, columns]
  apply findIdx?_first
  · exact decide_eq_true name
  · intro d hd
    exact decide_eq_false (earlier d hd)

theorem Means.unique {key : ColumnRef} {p q : Nat} (hp : s.Means key p) (hq : s.Means key q) :
    q = p := by
  cases key with
  | position i =>
    obtain ⟨_, hi⟩ := hp
    obtain ⟨_, hj⟩ := hq
    omega
  | name n => exact Option.some.inj ((position?_of_means hq).symm.trans (position?_of_means hp))

theorem absolute?_eq_some {i : Int} {p : Nat} :
    s.absolute? i = some p ↔ s.Means (.position i) p := by
  unfold absolute? Means
  dsimp only
  split
  · next below =>
    rw [Option.ite_none_right_eq_some, Option.some.injEq]
    omega
  · next above =>
    rw [Option.ite_none_right_eq_some, Option.some.injEq]
    omega

/-- What a look-up gives: a position and the column there, or the same failure twice. -/
def LooksUp (s : Schema) (key : ColumnRef) : Prop :=
  (∃ p c, (∀ q, s.Means key q ↔ q = p) ∧ s.columns[p]? = some c ∧
    s.get key = .ok c ∧ s.indexOf key = .ok p) ∨
  ((∀ q, ¬ s.Means key q) ∧ s.get key = .error (s.unmet key) ∧ s.indexOf key = .error (s.unmet key))

theorem looksUp_position (i : Int) : s.LooksUp (.position i) := by
  cases place : s.absolute? i with
  | some p =>
    have means := absolute?_eq_some.1 place
    have inside : p < s.size := means.1
    have here : s.get (.position i) = .ok s.columns[p] := by
      rw [get, place, Option.bind_some, List.getElem?_eq_getElem inside]
    -- the position is computed a second time, once the column is known to be there
    have again : (if i < 0 then i + s.size else i).toNat = p := by
      obtain ⟨_, counted⟩ := means
      split <;> omega
    refine Or.inl ⟨p, s.columns[p], fun q => ⟨means.unique, ?_⟩, List.getElem?_eq_getElem inside,
      here, ?_⟩
    · rintro rfl
      exact means
    · rw [indexOf, here, ok_bind, again]
      rfl
  | none =>
    have missing : s.get (.position i) = .error (s.unmet (.position i)) := by
      rw [get, place]
      rfl
    refine Or.inr ⟨fun q means => ?_, missing, ?_⟩
    · cases place.symm.trans (absolute?_eq_some.2 means)
    · rw [indexOf, missing, error_bind]

theorem looksUp_name (n : String) : s.LooksUp (.name n) := by
  rcases find?_cases (fun c : Column => decide (c.name = n)) s.columns with
    ⟨before, c, after, columns, name, earlier, found, place⟩ | ⟨none, found, place⟩
  · have means : s.Means (.name n) before.length :=
      ⟨before, c, after, columns, rfl, of_decide_eq_true name,
        fun d hd => of_decide_eq_false (earlier d hd)⟩
    refine Or.inl ⟨before.length, c, fun q => ⟨means.unique, ?_⟩, ?_, ?_, ?_⟩
    · rintro rfl
      exact means
    · rw [columns, List.getElem?_append_right (Nat.le_refl _), Nat.sub_self]
      rfl
    · rw [get, found]
    · rw [indexOf, position?, place]
  · refine Or.inr ⟨?_, ?_, ?_⟩
    · rintro q ⟨before, c, after, columns, _, name, _⟩
      have member : c ∈ s.columns := by
        rw [columns]
        exact List.mem_append_right before List.mem_cons_self
      exact of_decide_eq_false (none c member) name
    · rw [get, found]
      rfl
    · rw [indexOf, position?, place]
      rfl

theorem looksUp (s : Schema) (key : ColumnRef) : s.LooksUp key := by
  cases key with
  | position i => exact looksUp_position i
  | name n => exact looksUp_name n

/-- A reference is looked up just where it means a position. -/
theorem indexOf_of_means {key : ColumnRef} {p : Nat} (h : s.Means key p) : s.indexOf key = .ok p := by
  rcases s.looksUp key with ⟨q, _, means, _, _, place⟩ | ⟨unmet, _⟩
  · rw [(means p).1 h]
    exact place
  · exact (unmet p h).elim

theorem indexOf_of_not_means {key : ColumnRef} (h : ∀ p, ¬ s.Means key p) :
    s.indexOf key = .error (s.unmet key) := by
  rcases s.looksUp key with ⟨q, _, means, _⟩ | ⟨_, _, failed⟩
  · exact (h q ((means q).2 rfl)).elim
  · exact failed

theorem indexOf_position {i : Nat} (h : i < s.size) : s.indexOf (.position i) = .ok i :=
  indexOf_of_means ⟨h, Or.inl rfl⟩

theorem getElem?_of_get {i : Nat} {c : Column} (h : s.get (.position i) = .ok c) :
    s.columns[i]? = some c := by
  rcases s.looksUp (.position i) with ⟨p, d, means, here, got, _⟩ | ⟨_, failed, _⟩
  · obtain ⟨inside, counted⟩ := (means p).2 rfl
    have place : p = i := by omega
    cases got.symm.trans h
    rwa [place] at here
  · cases failed.symm.trans h

theorem indexOf_fromEnd {j : Nat} (start : 1 ≤ j) (inside : j ≤ s.size) :
    s.indexOf (.position (-(j : Int))) = .ok (s.size - j) := by
  apply indexOf_of_means
  constructor
  · omega
  · right
    omega

theorem indexOf_ofSize (fits : s.size ≤ 0x7fffffffffffffff) (m : Nat) :
    s.indexOf (.ofSize m) =
      if m < s.size then .ok m else .error (.indexRange (min m 0x7fffffffffffffff) s.size) := by
  split
  · next inside =>
    apply indexOf_of_means
    constructor
    · exact inside
    · left
      omega
  · next outside =>
    apply indexOf_of_not_means
    rintro p ⟨_, counted⟩
    omega

theorem columns_slice (start stop : Bound) :
    (s.slice start stop).columns = (s.columns.take (stop.stop s.size)).drop start.start :=
  drop_take_within s.columns start.start (stop.stop s.size)

theorem columns_slice_to (s : Schema) (place : Nat) :
    (s.slice .unbounded (.excluded place)).columns = s.columns.take place :=
  columns_slice .unbounded (.excluded place)

theorem columns_slice_from (s : Schema) (place : Nat) :
    (s.slice (.included place) .unbounded).columns = s.columns.drop place := by
  rw [columns_slice, Bound.stop, size, List.take_length]
  rfl

/-- A range gives the columns whose position lies in it. -/
theorem columns_slice_eq_filter (fits : s.size ≤ 0x7fffffffffffffff) (start stop : Bound) :
    (s.slice start stop).columns =
      ((s.columns.zipIdx.filter fun x => start.admitsFrom x.2 && stop.admitsTo x.2).map Prod.fst) := by
  have same : ∀ x ∈ s.columns.zipIdx, (start.admitsFrom x.2 && stop.admitsTo x.2) =
      decide (start.start ≤ x.2 ∧ x.2 < stop.stop s.size) := by
    rintro ⟨c, p⟩ member
    have inside : p < s.size := List.snd_lt_of_mem_zipIdx member
    have word : p < 0xffffffffffffffff := by omega
    rw [Bool.eq_iff_iff, Bool.and_eq_true, decide_eq_true_eq, start.admitsFrom_iff word,
      stop.admitsTo_iff inside word]
  rw [List.filter_congr same, filter_zipIdx_between, columns_slice]
  rfl

/-- What a selection gives: the columns looked up one by one, or the first failure among them. -/
def Selects (s : Schema) (keys : List ColumnRef) : Prop :=
  (∃ cs, List.Forall₂ (fun key c => s.get key = .ok c) keys cs ∧ s.select keys = .ok ⟨cs⟩) ∨
  (∃ before key after e, keys = before ++ key :: after ∧ (∀ k ∈ before, ∃ c, s.get k = .ok c) ∧
    s.get key = .error e ∧ s.select keys = .error e)

theorem selects (s : Schema) (keys : List ColumnRef) : s.Selects keys := by
  rcases mapM_cases s.get keys with
    ⟨cs, all, whole⟩ | ⟨before, key, after, e, split, earlier, here, whole⟩
  · refine Or.inl ⟨cs, all, ?_⟩
    rw [select, whole]
    rfl
  · refine Or.inr ⟨before, key, after, e, split, earlier, here, ?_⟩
    rw [select, whole]
    rfl

/-- What putting columns in gives, by the parts before, at and behind the place. -/
def Inserts (s o : Schema) (place : Nat) : Prop :=
  (place ≤ s.size ∧ ∃ t, s.insert o place = .ok t ∧
    (t.slice .unbounded (.excluded place)).columns = s.columns.take place ∧
    t.slice (.included place) (.excluded (place + o.size)) = o ∧
    (t.slice (.included (place + o.size)) .unbounded).columns = s.columns.drop place) ∨
  (s.size < place ∧ s.insert o place = .error (.insertRange place s.size))

theorem inserts (s o : Schema) (place : Nat) : s.Inserts o place := by
  by_cases outside : s.size < place
  · exact Or.inr ⟨outside, if_pos outside⟩
  · have width : (s.columns.take place).length = place :=
      List.length_take_of_le (Nat.le_of_not_lt outside)
    have both : (s.columns.take place ++ o.columns).length = place + o.size := by
      rw [List.length_append, width]
      rfl
    refine Or.inl ⟨Nat.le_of_not_lt outside, _, if_neg outside, ?_, ?_, ?_⟩
    · rw [columns_slice_to, List.append_assoc]
      exact List.take_left' width
    · obtain ⟨others⟩ := o
      refine congrArg mk ((columns_slice _ _).trans ?_)
      change ((s.columns.take place ++ others ++ s.columns.drop place).take _).drop place = others
      rw [Bound.stop, List.take_left' both]
      exact List.drop_left' width
    · rw [columns_slice_from]
      exact List.drop_left' both

theorem insert_size (s o : Schema) : s.insert o s.size = .ok (s.append o) := by
  rw [insert, if_neg (Nat.lt_irrefl _), append, size, List.take_length, List.drop_length,
    List.append_nil]

/-- What taking a column out gives: the first one that fits, out of its place among the others, or
the schema as it was. -/
def Removes (s : Schema) (key : RemoveKey) : Prop :=
  (∃ before c after, s.columns = before ++ c :: after ∧ key.fits c = true ∧
    (∀ d ∈ before, key.fits d = false) ∧ s.removeInPlace key = (.ok c, ⟨before ++ after⟩)) ∨
  ((∀ d ∈ s.columns, key.fits d = false) ∧ s.removeInPlace key = (.error key.unmet, s))

theorem removePosition_eq (s : Schema) (key : RemoveKey) :
    s.removePosition key = match s.columns.findIdx? key.fits with
      | some p => .ok p
      | none => .error key.unmet := by
  cases key <;> rfl

theorem removes (s : Schema) (key : RemoveKey) : s.Removes key := by
  rcases find?_cases key.fits s.columns with
    ⟨before, c, after, columns, fits, earlier, _, place⟩ | ⟨none, _, place⟩
  · refine Or.inl ⟨before, c, after, columns, fits, earlier, ?_⟩
    have here : (before ++ c :: after)[before.length]? = some c := by
      rw [List.getElem?_append_right (Nat.le_refl _), Nat.sub_self]
      rfl
    have others : (before ++ c :: after).eraseIdx before.length = before ++ after := by
      rw [List.eraseIdx_append_of_length_le (Nat.le_refl _), Nat.sub_self]
      rfl
    rw [removeInPlace, removePosition_eq, place]
    dsimp only
    rw [columns, here, others]
  · refine Or.inr ⟨none, ?_⟩
    rw [removeInPlace, removePosition_eq, place]

/-- The operations of a schema, by what they do to the list of its columns. -/
structure ListLike (s : Schema) : Prop where
  lookUp : ∀ key, s.LooksUp key
  fromEnd : ∀ j : Nat, 1 ≤ j → j ≤ s.size → s.indexOf (.position (-j)) = .ok (s.size - j)
  ofSize : ∀ m, s.indexOf (.ofSize m) =
    if m < s.size then .ok m else .error (.indexRange (min m 0x7fffffffffffffff) s.size)
  selection : ∀ keys, s.Selects keys
  range : ∀ start stop : Bound, (s.slice start stop).columns =
    (s.columns.zipIdx.filter fun x => start.admitsFrom x.2 && stop.admitsTo x.2).map Prod.fst
  insertion : ∀ o place, s.Inserts o place
  appended : ∀ o, s.insert o s.size = .ok (s.append o)
  removal : ∀ key, s.Removes key

/-- Any schema is a list to its operations; a list in memory has at most `0x7fffffffffffffff`
members, and references by size rest on that. -/
theorem listLike (fits : s.size ≤ 0x7fffffffffffffff) : s.ListLike where
  lookUp := s.looksUp
  fromEnd _ := indexOf_fromEnd
  ofSize := indexOf_ofSize fits
  selection := s.selects
  range := columns_slice_eq_filter fits
  insertion := s.inserts
  appended := s.insert_size
  removal := s.removes

/-- The first of two holders of a name, and ranges at the end of the positions. -/
theorem listLike_twoKeys :
    let key : Column := ⟨.plain .int32, "key", none, by decide⟩
    let mark : Column := ⟨.plain .string, "mark", none, by decide⟩
    let other : Column := ⟨.plain .int64, "key", none, by decide⟩
    let s : Schema := ⟨[key, mark, other]⟩
    s.size ≤ 0x7fffffffffffffff ∧ s.ListLike ∧ s.indexOf (.name "key") = .ok 0 ∧
      s.indexOf (.ofSize 0xffffffffffffffff) = .error (.indexRange 0x7fffffffffffffff 3) ∧
      s.slice (.included 1) (.included 0xffffffffffffffff) = ⟨[mark, other]⟩ ∧
      s.slice (.excluded 0xffffffffffffffff) (.excluded 1) = empty ∧
      s.removeInPlace (.name "key") = (.ok key, ⟨[mark, other]⟩) :=
  ⟨by decide, listLike (by decide), rfl, rfl, rfl, rfl, rfl⟩

end Schema
end LogicalTable
