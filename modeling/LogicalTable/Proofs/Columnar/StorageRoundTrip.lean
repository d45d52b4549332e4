import LogicalTable.Columnar.Build
import LogicalTable.Proofs.Columnar.StoredValues
import LogicalTable.Proofs.Outcome

/-! Arrays of the storage values of a type. They are built just of the values that the type admits,
and hold them row by row. -/
namespace LogicalTable

/-- Failures for the kind of a value. -/
def LayoutError.IsMismatch (e : LayoutError) : Prop := ∃ expected got, e = .mismatch expected got

def Error.IsMismatch (e : Error) : Prop := ∃ d : LayoutError, d.IsMismatch ∧ e = .layout d

theorem settles_layout {p : Prop} {a : α} {x : Except LayoutError α}
    (h : Settles LayoutError.IsMismatch p a x) :
    Settles Error.IsMismatch p a (orFail .layout x) :=
  h.orFail Error.layout fun e he => ⟨e, he, rfl⟩

namespace StorageValue

def items : StorageValue → List StorageValue
  | list vs => vs
  | _ => []

def IsListOrNull (v : StorageValue) : Prop := v = null ∨ ∃ vs, v = list vs

def IsStructOrNull (arity : Nat) (v : StorageValue) : Prop :=
  v = null ∨ ∃ vs, v = struct vs ∧ vs.length = arity

end StorageValue

open StorageValue (IsListOrNull IsStructOrNull)

theorem Primitive.build_settles (p : Primitive) : ∀ vs : List StorageValue,
    Settles LayoutError.IsMismatch (∀ v ∈ vs, (Shape.primitive p).admits v = true)
      (vs.map p.leafType.store) (p.leafType.build vs) := by
  intro vs
  have slot : ∃ expected accepts, p.leafType.expected? = some (expected, accepts) ∧
      ∀ v : StorageValue, (v.isNull || accepts v) = (Shape.primitive p).admits v := by
    cases p with
    | int32 => exact ⟨_, _, rfl, fun v => by cases v <;> rfl⟩
    | int64 => exact ⟨_, _, rfl, fun v => by cases v <;> rfl⟩
    | double => exact ⟨_, _, rfl, fun v => by cases v <;> rfl⟩
    | string => exact ⟨_, _, rfl, fun v => by cases v <;> rfl⟩
    | bool => exact ⟨_, _, rfl, fun v => by cases v <;> rfl⟩
    | blob => exact ⟨_, _, rfl, fun v => by cases v <;> rfl⟩
  obtain ⟨expected, accepts, he, ha⟩ := slot
  rw [LeafType.build, he]
  dsimp only
  induction vs with
  | nil => exact Settles.forall_nil
  | cons v vs ih =>
    rw [List.mapM_cons, ha]
    have head : Settles LayoutError.IsMismatch ((Shape.primitive p).admits v = true)
        (p.leafType.store v) (if (Shape.primitive p).admits v = true then .ok (p.leafType.store v)
          else .error (.mismatch expected v.kind)) := by
      by_cases h : (Shape.primitive p).admits v = true
      · rw [if_pos h]
        exact (Settles.ok _ _).congr ⟨fun _ => h, fun _ => trivial⟩
      · rw [if_neg h]
        exact Settles.error ⟨expected, v.kind, rfl⟩ h
    apply Settles.forall_cons
    exact head.bind fun _ => ih.andThen fun _ => rfl

namespace ListParts

/-- Where the items of each row of lists begin. -/
def starts : (start : Nat) → List StorageValue → List Nat
  | start, [] => [start]
  | start, v :: vs => start :: starts (start + v.items.length) vs

theorem ofValues_settles : ∀ (start : Nat) (vs : List StorageValue),
    Settles LayoutError.IsMismatch (∀ v ∈ vs, IsListOrNull v)
      ⟨starts start vs, vs.map fun v => !v.isNull, vs.flatMap StorageValue.items⟩
      (ofValues start vs)
  | start, [] => Settles.forall_nil
  | start, v :: vs => by
    apply Settles.forall_cons
    cases v with
    | null =>
      refine Settles.given (Or.inl rfl) ?_
      rw [ofValues]
      exact (ofValues_settles start vs).andThen fun _ => rfl
    | list items =>
      refine Settles.given (Or.inr ⟨items, rfl⟩) ?_
      rw [ofValues]
      exact (ofValues_settles (start + items.length) vs).andThen fun _ => rfl
    | _ =>
      apply Settles.error ⟨"list", _, rfl⟩
      rintro ⟨hv | ⟨items, hv⟩, _⟩ <;> cases hv

/-- Lists of admitted items, told by their rows and by all of their items. -/
theorem admits_iff {item : DataType} {vs : List StorageValue} :
    ((∀ v ∈ vs, IsListOrNull v) ∧ ∀ v ∈ vs.flatMap StorageValue.items, item.admits v = true) ↔
      ∀ v ∈ vs, (Shape.list item).admits v = true := by
  constructor
  · rintro ⟨rows, items⟩ v hv
    rcases rows v hv with rfl | ⟨ws, rfl⟩
    · rfl
    · exact List.all_eq_true.2 fun w hw => items w (List.mem_flatMap.2 ⟨_, hv, hw⟩)
  · intro admitted
    constructor
    · intro v hv
      have hs := admitted v hv
      cases v with
      | null => exact Or.inl rfl
      | list ws => exact Or.inr ⟨ws, rfl⟩
      | _ => cases hs
    · intro w hw
      obtain ⟨v, hv, hw⟩ := List.mem_flatMap.1 hw
      have hs := admitted v hv
      cases v with
      | list ws => exact List.all_eq_true.1 hs w hw
      | _ => exact (List.not_mem_nil hw).elim

end ListParts

namespace Members

theorem admits_length : ∀ {ms : Members} {vs : List StorageValue}, ms.admits vs = true →
    vs.length = ms.toList.length
  | one _, [_], _ => rfl
  | cons _ _, _ :: _, h => congrArg Nat.succ (admits_length (Bool.and_eq_true_iff.1 h).2)

/-- Whether each column holds values that its member admits. -/
def AdmitColumns : Members → List (List StorageValue) → Prop
  | one t, [c] => ∀ v ∈ c, t.admits v = true
  | cons t ts, c :: cs => (∀ v ∈ c, t.admits v = true) ∧ ts.AdmitColumns cs
  | _, _ => False

theorem admitColumns_replicate (ms : Members) :
    ms.AdmitColumns (List.replicate ms.toList.length []) := by
  cases ms with
  | one _ => exact fun _ h => (List.not_mem_nil h).elim
  | cons _ ts => exact ⟨fun _ h => (List.not_mem_nil h).elim, ts.admitColumns_replicate⟩

theorem admitColumns_null : ∀ {ms : Members} {cs : List (List StorageValue)},
    ms.AdmitColumns (cs.map (.null :: ·)) ↔ ms.AdmitColumns cs
  | one t, [] => Iff.rfl
  | one t, [c] => by
    rw [List.map_singleton, AdmitColumns, AdmitColumns, List.forall_mem_cons]
    exact and_iff_right t.admits_null
  | one t, _ :: _ :: _ => Iff.rfl
  | cons t ts, [] => Iff.rfl
  | cons t ts, c :: cs => by
    rw [List.map_cons, AdmitColumns, AdmitColumns, List.forall_mem_cons, admitColumns_null]
    exact and_congr_left' (and_iff_right t.admits_null)

theorem admitColumns_cons : ∀ {ms : Members} {vs : List StorageValue}
    {cs : List (List StorageValue)}, vs.length = ms.toList.length →
    cs.length = ms.toList.length →
      (ms.AdmitColumns (List.zipWith List.cons vs cs) ↔
        ms.admits vs = true ∧ ms.AdmitColumns cs)
  | one t, [v], [c], _, _ => List.forall_mem_cons
  | cons t ts, v :: vs, c :: cs, hv, hc => by
    have rest : ts.AdmitColumns (List.zipWith List.cons vs cs) ↔
        ts.admits vs = true ∧ ts.AdmitColumns cs :=
      admitColumns_cons (Nat.succ.inj hv) (Nat.succ.inj hc)
    rw [List.zipWith_cons_cons, AdmitColumns, AdmitColumns, List.forall_mem_cons, rest, admits,
      Bool.and_eq_true]
    exact and_and_and_comm

end Members

namespace StructParts

def columnsOf (arity : Nat) : List StorageValue → List (List StorageValue)
  | [] => List.replicate arity []
  | .struct members :: vs => List.zipWith List.cons members (columnsOf arity vs)
  | _ :: vs => (columnsOf arity vs).map (.null :: ·)

theorem ofValues_settles (arity : Nat) : ∀ vs : List StorageValue,
    Settles LayoutError.IsMismatch (∀ v ∈ vs, IsStructOrNull arity v)
      ⟨vs.map fun v => !v.isNull, columnsOf arity vs⟩ (ofValues arity vs)
  | [] => Settles.forall_nil
  | v :: vs => by
    apply Settles.forall_cons
    cases v with
    | null =>
      refine Settles.given (Or.inl rfl) ?_
      rw [ofValues]
      exact (ofValues_settles arity vs).andThen fun _ => rfl
    | struct members =>
      rw [ofValues]
      by_cases h : members.length = arity
      · refine Settles.given (Or.inr ⟨members, rfl, h⟩) ?_
        rw [if_pos h]
        exact (ofValues_settles arity vs).andThen fun _ => rfl
      · rw [if_neg h]
        apply Settles.error ⟨_, _, rfl⟩
        rintro ⟨hv | ⟨ms, hv, hm⟩, _⟩
        · cases hv
        · cases hv
          exact h hm
    | _ =>
      apply Settles.error ⟨_, _, rfl⟩
      rintro ⟨hv | ⟨ms, hv, _⟩, _⟩ <;> cases hv

theorem length_columnsOf {arity : Nat} {vs : List StorageValue}
    (h : ∀ v ∈ vs, IsStructOrNull arity v) : (columnsOf arity vs).length = arity :=
  length_ofValues ((ofValues_settles arity vs).success h)

/-- Structs of admitted members, told by their rows and by the columns of their members. -/
theorem admits_iff {ms : Members} {vs : List StorageValue} :
    ((∀ v ∈ vs, IsStructOrNull ms.toList.length v) ∧
        ms.AdmitColumns (columnsOf ms.toList.length vs)) ↔
      ∀ v ∈ vs, (Shape.struct ms).admits v = true := by
  induction vs with
  | nil => simp [columnsOf, ms.admitColumns_replicate]
  | cons v vs ih =>
    rw [List.forall_mem_cons, List.forall_mem_cons, ← ih]
    cases v with
    | null =>
      have columns : columnsOf ms.toList.length (.null :: vs) =
          (columnsOf ms.toList.length vs).map (.null :: ·) := rfl
      rw [columns, Members.admitColumns_null]
      constructor
      · rintro ⟨⟨_, rows⟩, columns⟩
        exact ⟨rfl, rows, columns⟩
      · rintro ⟨_, rows, columns⟩
        exact ⟨⟨Or.inl rfl, rows⟩, columns⟩
    | struct members =>
      rw [columnsOf]
      constructor
      · rintro ⟨⟨row, rows⟩, columns⟩
        rcases row with hv | ⟨_, hv, hm⟩
        · cases hv
        · cases hv
          obtain ⟨first, rest⟩ := (Members.admitColumns_cons hm (length_columnsOf rows)).1 columns
          exact ⟨first, rows, rest⟩
      · rintro ⟨first, rows, columns⟩
        have hm := Members.admits_length first
        exact ⟨⟨Or.inr ⟨members, rfl, hm⟩, rows⟩,
          (Members.admitColumns_cons hm (length_columnsOf rows)).2 ⟨first, columns⟩⟩
    | _ =>
      constructor
      · rintro ⟨⟨hv | ⟨_, hv, _⟩, _⟩, _⟩ <;> cases hv
      · rintro ⟨hv, _⟩
        cases hv

end StructParts

theorem Shape.completed_arrayType (s : Shape) (cs : List Cell) :
    s.arrayType.completed cs = .ok cs :=
  if_pos (List.all_eq_true.2 fun c _ => s.complete_arrayType c)

mutual

theorem Shape.build_settles : ∀ (s : Shape) (vs : List StorageValue),
    Settles Error.IsMismatch (∀ v ∈ vs, s.admits v = true) (vs.map s.arrayType.store)
      (s.arrayType.build vs)
  | .primitive p, vs => by
    rw [Shape.arrayType, ArrayType.build]
    exact settles_layout (p.build_settles vs)
  | .list t, vs => by
    have rows := ListParts.ofValues_settles 0 vs
    have items : Settles Error.IsMismatch
        (∀ v ∈ vs.flatMap StorageValue.items, t.admits v = true)
        ((vs.flatMap StorageValue.items).map t.arrayType.store)
        (Field.build (.mk "item" t.arrayType true t.tag.metadata)
          (vs.flatMap StorageValue.items)) := t.build_settles _
    refine Settles.congr ?_ ListParts.admits_iff
    rw [Shape.arrayType, ArrayType.build]
    refine (settles_layout rows).bind fun hp => items.andThen fun _ => ?_
    -- Whatever is put together from the parts is complete, and it is the rows as they are stored.
    have cut := ListParts.lists_ofValues
      (Field.store (.mk "item" t.arrayType true t.tag.metadata)) [] (rows.success hp)
    rw [List.nil_append, ListParts.slot_store] at cut
    have done := Shape.completed_arrayType (.list t) (vs.map (Shape.list t).arrayType.store)
    rw [Shape.arrayType, ← cut] at done
    exact orFail_eq_ok.2 (done.trans (congrArg Except.ok cut))
  | .struct ms, vs => by
    have rows := StructParts.ofValues_settles ms.toList.length vs
    refine Settles.congr ?_ StructParts.admits_iff
    rw [Shape.arrayType, ArrayType.build, ms.length_fields 0]
    refine (settles_layout rows).bind fun hp => ?_
    refine (ms.buildAll_settles 0 (StructParts.length_columnsOf hp)).andThen fun _ => ?_
    have members : (ms.fields 0).isEmpty = false := by
      cases ms <;> rfl
    have arity : StructParts.ofValues (ms.fields 0).length vs =
        StructParts.ofValues ms.toList.length vs := by
      rw [ms.length_fields 0]
    have cut := StructParts.structs_ofValues (arity.trans (rows.success hp))
    have done := Shape.completed_arrayType (.struct ms)
      (vs.map (Shape.struct ms).arrayType.store)
    rw [Shape.arrayType, ← cut] at done
    rw [members, Bool.false_and, if_neg Bool.false_ne_true]
    exact orFail_eq_ok.2 (done.trans (congrArg Except.ok cut))

theorem DataType.build_settles : ∀ (t : DataType) (vs : List StorageValue),
    Settles Error.IsMismatch (∀ v ∈ vs, t.admits v = true) (vs.map t.arrayType.store)
      (t.arrayType.build vs)
  | .plain s, vs => s.build_settles vs
  | .logical _ s _, vs => s.build_settles vs

theorem Members.buildAll_settles : ∀ (ms : Members) (index : Nat) {cs : List (List StorageValue)},
    cs.length = ms.toList.length →
      Settles Error.IsMismatch (ms.AdmitColumns cs) (Field.storeColumns (ms.fields index) cs)
        (Field.buildAll (ms.fields index) cs)
  | .one t, index, [c], _ => by
    have head : Settles Error.IsMismatch (∀ v ∈ c, t.admits v = true) (c.map t.arrayType.store)
        (Field.build (.mk (Nat.repr index) t.arrayType true t.tag.metadata) c) :=
      t.build_settles c
    exact head.andThen fun _ => rfl
  | .cons t ts, index, c :: cs, h => by
    have head : Settles Error.IsMismatch (∀ v ∈ c, t.admits v = true) (c.map t.arrayType.store)
        (Field.build (.mk (Nat.repr index) t.arrayType true t.tag.metadata) c) :=
      t.build_settles c
    have rest := ts.buildAll_settles (index + 1) (Nat.succ.inj h)
    exact head.bind fun _ => rest.andThen fun _ => rfl

end

/-- Values that are admitted are stored one by one. -/
theorem Chunk.build_admitted {t : DataType} {vs : List StorageValue}
    (admitted : ∀ v ∈ vs, t.admits v = true) :
    ∃ c, Chunk.build t.arrayType vs = .ok c ∧ c.type = t.arrayType ∧ c.size = vs.length ∧
      c.cells = vs.map t.arrayType.store := by
  have built := (t.build_settles vs).success admitted
  obtain ⟨c, hc⟩ : ∃ c, Chunk.build t.arrayType vs = .ok c :=
    ⟨⟨_, _, ArrayType.admits_build built⟩, Chunk.build_eq_ok.2 ⟨rfl, built⟩⟩
  obtain ⟨type, cells⟩ := Chunk.build_eq_ok.1 hc
  have stored : c.cells = vs.map t.arrayType.store := ArrayType.build_eq_store _ cells
  have size : c.size = vs.length := by
    rw [Chunk.size, stored, List.length_map]
  exact ⟨c, hc, type, size, stored⟩

/-- The values of a column go into an array and come out of it row by row, or one of them is not of
the column's type. -/
theorem Chunk.build_arrayType (t : DataType) (vs : List StorageValue) :
    ((∀ v ∈ vs, t.admits v = true) →
      ∃ a, Chunk.build t.arrayType vs = .ok a ∧ a.type = t.arrayType ∧ a.size = vs.length ∧
        (∀ i (h : i < vs.length), a.read i = .ok vs[i]) ∧
        ∀ i, vs.length ≤ i → a.read i = .error (.arrayRange i vs.length)) ∧
    (¬ (∀ v ∈ vs, t.admits v = true) →
      ∃ expected got, Chunk.build t.arrayType vs = .error (.layout (.mismatch expected got))) := by
  have built := t.build_settles vs
  constructor
  · intro admitted
    obtain ⟨a, ha⟩ : ∃ a, Chunk.build t.arrayType vs = .ok a :=
      ⟨⟨t.arrayType, _, ArrayType.admits_build (built.success admitted)⟩,
        Chunk.build_eq_ok.2 ⟨rfl, built.success admitted⟩⟩
    obtain ⟨type, cells⟩ := Chunk.build_eq_ok.1 ha
    have stored : a.cells = vs.map t.arrayType.store := ArrayType.build_eq_store _ cells
    have size : a.size = vs.length := by
      rw [Chunk.size, stored, List.length_map]
    refine ⟨a, ha, type, size, ?_, ?_⟩
    · intro i hi
      rw [Chunk.read, stored, List.getElem?_map, List.getElem?_eq_getElem hi, type]
      exact t.read_store (admitted _ (List.getElem_mem hi))
    · intro i hi
      rw [Chunk.read, size, stored, List.getElem?_map, List.getElem?_eq_none hi]
      rfl
  · intro misfit
    obtain ⟨_, ⟨_, ⟨expected, got, rfl⟩, rfl⟩, he⟩ := built.failure misfit
    exact ⟨expected, got, Chunk.build_eq_error.2 he⟩

end LogicalTable
