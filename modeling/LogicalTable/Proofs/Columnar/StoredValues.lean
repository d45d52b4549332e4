import LogicalTable.Columnar.Export
import LogicalTable.Columnar.Storage

/-! Values read back from the slots that store them. The slots of a type hold whatever the type
admits, at every level. -/
namespace LogicalTable

theorem mapM_map_eq_ok {f : α → β} {g : β → Except ε α} :
    ∀ {as : List α}, (∀ a ∈ as, g (f a) = .ok a) → (as.map f).mapM g = .ok as
  | [], _ => rfl
  | a :: as, h => by
    obtain ⟨ha, has⟩ := List.forall_mem_cons.1 h
    rw [List.map_cons, List.mapM_cons, ha, ok_bind, mapM_map_eq_ok has]
    rfl

theorem Primitive.read_store (p : Primitive) {v : StorageValue}
    (h : (Shape.primitive p).admits v = true) : p.leafType.read (p.leafType.store v) = .ok v := by
  cases v with
  | null => cases p <;> rfl
  | int n => cases p <;> cases h; simp [leafType, LeafType.store, LeafType.read]
  | long n => cases p <;> cases h; simp [leafType, LeafType.store, LeafType.read]
  | double x => cases p <;> cases h; rfl
  | bool b => cases p <;> cases h; rfl
  | string s => cases p <;> cases h; rfl
  | blob bs => cases p <;> cases h; rfl
  | list vs => cases p <;> cases h
  | struct vs => cases p <;> cases h

mutual

theorem Shape.read_store : ∀ (s : Shape) {v : StorageValue}, s.admits v = true →
    s.arrayType.read (s.arrayType.store v) = .ok v
  | .primitive p, v, h => by
    rw [Shape.arrayType, ArrayType.read, ArrayType.store]
    exact p.read_store h
  | .list t, v, h => by
    rw [Shape.arrayType]
    cases v with
    | null => rfl
    | list vs =>
      have items : ∀ v ∈ vs, t.admits v = true := List.all_eq_true.1 h
      rw [ArrayType.store, ArrayType.read]
      exact bind_eq_ok.2 ⟨vs, mapM_map_eq_ok fun v hv => t.read_store (items v hv), rfl⟩
    | _ => cases h
  | .struct ts, v, h => by
    rw [Shape.arrayType]
    cases v with
    | null => rfl
    | struct vs =>
      rw [ArrayType.store, ArrayType.read]
      exact bind_eq_ok.2 ⟨vs, ts.readAll_storeAll h 0, rfl⟩
    | _ => cases h

/-- An admitted value comes back from its slot. -/
theorem DataType.read_store : ∀ (t : DataType) {v : StorageValue}, t.admits v = true →
    t.arrayType.read (t.arrayType.store v) = .ok v
  | .plain s, _, h => s.read_store h
  | .logical _ s _, _, h => s.read_store h

theorem Members.readAll_storeAll : ∀ (ts : Members) {vs : List StorageValue},
    ts.admits vs = true → ∀ index,
      Field.readAll (ts.fields index) (Field.storeAll (ts.fields index) vs) = .ok vs
  | .one t, [v], h, index => by
    have head : Field.read (.mk (Nat.repr index) t.arrayType true t.tag.metadata)
        (t.arrayType.store v) = .ok v := t.read_store h
    rw [Members.fields, Field.storeAll, Field.readAll]
    exact bind_eq_ok.2 ⟨v, head, rfl⟩
  | .cons t ts, v :: vs, h, index => by
    obtain ⟨hv, hvs⟩ := Bool.and_eq_true_iff.1 h
    have head : Field.read (.mk (Nat.repr index) t.arrayType true t.tag.metadata)
        (t.arrayType.store v) = .ok v := t.read_store hv
    rw [Members.fields, Field.storeAll, Field.readAll]
    exact bind_eq_ok.2 ⟨v, head, bind_eq_ok.2 ⟨vs, ts.readAll_storeAll hvs (index + 1), rfl⟩⟩

end

mutual

theorem Shape.complete_arrayType : ∀ (s : Shape) (c : Cell), s.arrayType.complete c = true
  | .primitive _, _ => rfl
  | .list t, c => by
    rw [Shape.arrayType, ArrayType.complete]
    exact List.all_eq_true.2 fun d _ => t.complete_arrayType d
  | .struct ts, c => ts.completeAll_fields 0 _ _

/-- The members of types may all be missing, so that no slot lacks one. -/
theorem DataType.complete_arrayType : ∀ (t : DataType) (c : Cell), t.arrayType.complete c = true
  | .plain s, c => s.complete_arrayType c
  | .logical _ s _, c => s.complete_arrayType c

theorem Members.completeAll_fields : ∀ (ts : Members) (index : Nat) (around : Bool)
    (cs : List Cell), Field.completeAll around (ts.fields index) cs = true
  | .one t, _, _, [] => rfl
  | .one t, index, around, c :: _ => by
    rw [Members.fields, Field.completeAll, Field.complete, t.complete_arrayType c]
    rfl
  | .cons t ts, _, _, [] => rfl
  | .cons t ts, index, around, c :: cs => by
    rw [Members.fields, Field.completeAll, Field.complete, t.complete_arrayType c,
      ts.completeAll_fields (index + 1) around cs]
    rfl

end

theorem Members.length_fields : ∀ (ts : Members) (index : Nat),
    (ts.fields index).length = ts.toList.length
  | .one _, _ => rfl
  | .cons _ ts, index => congrArg Nat.succ (ts.length_fields (index + 1))

end LogicalTable
