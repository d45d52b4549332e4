import LogicalTable.Columnar.Storage

/-! Building arrays of storage values. The rows of a level are taken apart into presence, offsets and
columns of members, from which the slots of the level are put together again. What is built is what
storing row by row gives.

Offsets are numbers without a bound here. An array counts the bytes of its texts or blobs by offsets of 32
bits, or of 64 in the large layouts and for the items of lists, and it is assumed throughout that the
offsets of what is built fit. -/
namespace LogicalTable

/-- The word for what a leaf type stores, and whether a value is that. None for types that arrays
are not built of. -/
def LeafType.expected? : LeafType → Option (String × (StorageValue → Bool))
  | boolean => some ("boolean", fun v => v.bool?.isSome)
  | int32 => some ("int32", fun v => v.int?.isSome)
  | int64 => some ("int64", fun v => v.long?.isSome)
  | float64 => some ("double", fun v => v.double?.isSome)
  | utf8 | largeUtf8 => some ("string", fun v => v.string?.isSome)
  | binary | largeBinary => some ("blob", fun v => v.blob?.isSome)
  | _ => none

/-- The slots of a column of leaves, however many bytes they take together: `utf8` and `binary` have room
for less than `2 ^ 31`. -/
def LeafType.build (t : LeafType) (vs : List StorageValue) : Except LayoutError (List Cell) :=
  match t.expected? with
  | some (expected, accepts) => vs.mapM fun v =>
    if v.isNull || accepts v then .ok (t.store v) else .error (.mismatch expected v.kind)
  | none => .error (.unbuildable t.name)

/-- Lists in a row, taken apart: where the items of each begin and those of the last end, which rows
are there, and the items of all of them. -/
structure ListParts where
  offsets : List Nat
  present : List Bool
  items : List StorageValue

namespace ListParts

def ofValues : (start : Nat) → List StorageValue → Except LayoutError ListParts
  | start, [] => .ok ⟨[start], [], []⟩
  | start, .null :: vs => do
    let p ← ofValues start vs
    return ⟨start :: p.offsets, false :: p.present, p.items⟩
  | start, .list items :: vs => do
    let p ← ofValues (start + items.length) vs
    return ⟨start :: p.offsets, true :: p.present, items ++ p.items⟩
  | _, v :: _ => .error (.mismatch "list" v.kind)

end ListParts

structure StructParts where
  present : List Bool
  columns : List (List StorageValue)

namespace StructParts

/-- Takes values apart. A missing row has a missing value in every column. -/
def ofValues (arity : Nat) : List StorageValue → Except LayoutError StructParts
  | [] => .ok ⟨[], List.replicate arity []⟩
  | .null :: vs => do
    let p ← ofValues arity vs
    return ⟨false :: p.present, p.columns.map (.null :: ·)⟩
  | .struct members :: vs =>
    if members.length = arity then do
      let p ← ofValues arity vs
      return ⟨true :: p.present, List.zipWith List.cons members p.columns⟩
    else .error (.mismatch ("struct of " ++ Nat.repr arity) "struct")
  | v :: _ => .error (.mismatch ("struct of " ++ Nat.repr arity) v.kind)

end StructParts

mutual

/-- The slots of an array, built level by level and member by member, not row by row. A struct
without members cannot have rows. Where the offsets would not fit their width, nothing is said. -/
def ArrayType.build : ArrayType → List StorageValue → Except Error (List Cell)
  | .leaf t, vs => orFail .layout (t.build vs)
  | .list f, _ => .error (.layout (.unbuildable (ArrayType.list f).text))
  | .largeList f, vs => do
    let p ← orFail .layout (ListParts.ofValues 0 vs)
    let items ← f.build p.items
    orFail .arrow ((ArrayType.largeList f).completed (Cell.lists items p.offsets p.present))
  | .struct fs, vs => do
    let p ← orFail .layout (StructParts.ofValues fs.length vs)
    let columns ← Field.buildAll fs p.columns
    if fs.isEmpty && !vs.isEmpty then .error (.arrow .invalidArgument)
    else orFail .arrow ((ArrayType.struct fs).completed (Cell.structs columns p.present))

def Field.build : Field → List StorageValue → Except Error (List Cell)
  | .mk _ t _ _, vs => t.build vs

def Field.buildAll : List Field → List (List StorageValue) → Except Error (List (List Cell))
  | f :: fs, c :: cs => do
    let slots ← f.build c
    let columns ← Field.buildAll fs cs
    return slots :: columns
  | _, _ => .ok []

end

namespace ListParts

def slot (item : StorageValue → Cell) : StorageValue → Cell
  | .list vs => .list (vs.map item)
  | _ => .missing

theorem slot_store (f : Field) : slot f.store = (ArrayType.largeList f).store := by
  funext v
  cases v <;> rfl

theorem offsets_ofValues {start : Nat} {vs : List StorageValue} {p : ListParts}
    (h : ofValues start vs = .ok p) : ∃ stops, p.offsets = start :: stops := by
  cases vs with
  | nil => cases h; exact ⟨[], rfl⟩
  | cons v vs =>
    cases v with
    | null => obtain ⟨q, _, hp⟩ := bind_eq_ok.1 h; cases hp; exact ⟨_, rfl⟩
    | list items => obtain ⟨q, _, hp⟩ := bind_eq_ok.1 h; cases hp; exact ⟨_, rfl⟩
    | _ => cases h

/-- Cut at the offsets, the items fall back to their rows. -/
theorem lists_ofValues (item : StorageValue → Cell) {vs : List StorageValue} {p : ListParts}
    (before : List Cell) (h : ofValues before.length vs = .ok p) :
    Cell.lists (before ++ p.items.map item) p.offsets p.present = vs.map (slot item) := by
  induction vs generalizing before p with
  | nil =>
    cases h
    rfl
  | cons v vs ih =>
    cases v with
    | null =>
      obtain ⟨q, hq, hp⟩ := bind_eq_ok.1 h
      cases hp
      obtain ⟨stops, hs⟩ := offsets_ofValues hq
      have rest := ih before hq
      rw [hs] at rest
      simp [hs, Cell.lists, rest, slot]
    | list items =>
      obtain ⟨q, hq, hp⟩ := bind_eq_ok.1 h
      cases hp
      obtain ⟨stops, hs⟩ := offsets_ofValues hq
      have rest := ih (before ++ items.map item) (by simpa using hq)
      rw [hs, List.append_assoc] at rest
      simp [hs, Cell.lists, rest, slot]
    | _ => cases h

end ListParts

theorem Field.storeAll_nil (fs : List Field) :
    Field.storeAll fs [] = fs.map fun f => f.store .null := by
  induction fs with
  | nil => rfl
  | cons f fs ih => simp [Field.storeAll, ih]

def Field.storeColumns (fs : List Field) (columns : List (List StorageValue)) : List (List Cell) :=
  List.zipWith (fun f c => c.map f.store) fs columns

namespace StructParts

theorem length_ofValues {arity : Nat} {vs : List StorageValue} {p : StructParts}
    (h : ofValues arity vs = .ok p) : p.columns.length = arity := by
  induction vs generalizing p with
  | nil => cases h; simp
  | cons v vs ih =>
    cases v with
    | null =>
      obtain ⟨q, hq, hp⟩ := bind_eq_ok.1 h
      cases hp
      simpa using ih hq
    | struct members =>
      simp only [ofValues] at h
      split at h
      · next hm =>
        obtain ⟨q, hq, hp⟩ := bind_eq_ok.1 h
        cases hp
        simp [hm, ih hq]
      · cases h
    | _ => cases h

theorem storeColumns_null {fs : List Field} {columns : List (List StorageValue)}
    (h : columns.length = fs.length) :
    (Field.storeColumns fs (columns.map (.null :: ·))).map (fun c => c.headD .missing) =
        Field.storeAll fs [] ∧
      (Field.storeColumns fs (columns.map (.null :: ·))).map List.tail =
        Field.storeColumns fs columns := by
  rw [Field.storeAll_nil]
  induction fs generalizing columns with
  | nil => simp [Field.storeColumns]
  | cons f fs ih =>
    cases columns with
    | nil => cases h
    | cons c columns =>
      obtain ⟨heads, tails⟩ := ih (Nat.succ.inj h)
      simp_all [Field.storeColumns]

theorem storeColumns_cons {fs : List Field} {members : List StorageValue}
    {columns : List (List StorageValue)} (hm : members.length = fs.length)
    (h : columns.length = fs.length) :
    (Field.storeColumns fs (List.zipWith List.cons members columns)).map
          (fun c => c.headD .missing) = Field.storeAll fs members ∧
      (Field.storeColumns fs (List.zipWith List.cons members columns)).map List.tail =
        Field.storeColumns fs columns := by
  induction fs generalizing members columns with
  | nil => simp [Field.storeColumns, Field.storeAll]
  | cons f fs ih =>
    cases members with
    | nil => cases hm
    | cons m members =>
      cases columns with
      | nil => cases h
      | cons c columns =>
        obtain ⟨heads, tails⟩ := ih (Nat.succ.inj hm) (Nat.succ.inj h)
        simp_all [Field.storeColumns, Field.storeAll]

theorem structs_ofValues {fs : List Field} {vs : List StorageValue} {p : StructParts}
    (h : ofValues fs.length vs = .ok p) :
    Cell.structs (Field.storeColumns fs p.columns) p.present =
      vs.map (ArrayType.struct fs).store := by
  induction vs generalizing p with
  | nil => cases h; rfl
  | cons v vs ih =>
    cases v with
    | null =>
      obtain ⟨q, hq, hp⟩ := bind_eq_ok.1 h
      cases hp
      obtain ⟨heads, tails⟩ := storeColumns_null (length_ofValues hq)
      simp only [Cell.structs, heads, tails, ih hq, List.map_cons, ArrayType.store]
    | struct members =>
      simp only [ofValues] at h
      split at h
      · next hm =>
        obtain ⟨q, hq, hp⟩ := bind_eq_ok.1 h
        cases hp
        obtain ⟨heads, tails⟩ := storeColumns_cons hm (length_ofValues hq)
        simp only [Cell.structs, heads, tails, ih hq, List.map_cons, ArrayType.store]
      · cases h
    | _ => cases h

end StructParts

theorem ArrayType.completed_eq_ok {t : ArrayType} {cs ds : List Cell} :
    t.completed cs = .ok ds ↔ cs.all t.complete = true ∧ cs = ds := by
  unfold ArrayType.completed
  by_cases hc : cs.all t.complete = true <;> simp [hc]

theorem LeafType.build_eq_store {t : LeafType} {vs : List StorageValue} {cs : List Cell}
    (h : t.build vs = .ok cs) : cs = vs.map t.store := by
  unfold LeafType.build at h
  split at h
  · next expected accepts _ =>
    induction vs generalizing cs with
    | nil => cases h; rfl
    | cons v vs ih =>
      rw [List.mapM_cons] at h
      obtain ⟨c, hc, h⟩ := bind_eq_ok.1 h
      obtain ⟨ds, hds, h⟩ := bind_eq_ok.1 h
      cases h
      split at hc
      · cases hc; rw [ih hds, List.map_cons]
      · cases hc
  · cases h

mutual

/-- Building level by level stores each value in its row. -/
theorem ArrayType.build_eq_store : ∀ (t : ArrayType) {vs : List StorageValue} {cs : List Cell},
    t.build vs = .ok cs → cs = vs.map t.store
  | .leaf t, vs, cs, h => LeafType.build_eq_store (orFail_eq_ok.1 h)
  | .list f, vs, cs, h => by cases h
  | .largeList f, vs, cs, h => by
    obtain ⟨p, hp, h⟩ := bind_eq_ok.1 h
    obtain ⟨items, hi, h⟩ := bind_eq_ok.1 h
    obtain ⟨_, rfl⟩ := ArrayType.completed_eq_ok.1 (orFail_eq_ok.1 h)
    rw [Field.build_eq_store f hi]
    have hl := ListParts.lists_ofValues f.store [] (orFail_eq_ok.1 hp)
    rw [List.nil_append, ListParts.slot_store] at hl
    exact hl
  | .struct fs, vs, cs, h => by
    obtain ⟨p, hp, h⟩ := bind_eq_ok.1 h
    obtain ⟨columns, hc, h⟩ := bind_eq_ok.1 h
    split at h
    · cases h
    · obtain ⟨_, rfl⟩ := ArrayType.completed_eq_ok.1 (orFail_eq_ok.1 h)
      rw [Field.buildAll_eq_storeColumns fs hc, StructParts.structs_ofValues (orFail_eq_ok.1 hp)]

theorem Field.build_eq_store : ∀ (f : Field) {vs : List StorageValue} {cs : List Cell},
    f.build vs = .ok cs → cs = vs.map f.store
  | .mk _ t _ _, vs, cs, h => by
    rw [t.build_eq_store h]
    rfl

theorem Field.buildAll_eq_storeColumns : ∀ (fs : List Field) {columns : List (List StorageValue)}
    {slots : List (List Cell)}, Field.buildAll fs columns = .ok slots →
      slots = Field.storeColumns fs columns
  | [], columns, slots, h => by cases h; rfl
  | f :: fs, [], slots, h => by cases h; rfl
  | f :: fs, c :: columns, slots, h => by
    obtain ⟨s, hs, h⟩ := bind_eq_ok.1 h
    obtain ⟨ss, hss, h⟩ := bind_eq_ok.1 h
    cases h
    rw [f.build_eq_store hs, Field.buildAll_eq_storeColumns fs hss]
    rfl

end

theorem ArrayType.admits_build {t : ArrayType} {vs : List StorageValue} {cs : List Cell}
    (h : t.build vs = .ok cs) : ∀ c ∈ cs, t.admits c = true := by
  intro c hc
  rw [t.build_eq_store h] at hc
  obtain ⟨v, _, rfl⟩ := List.mem_map.1 hc
  exact t.admits_store v

namespace Chunk

def build (t : ArrayType) (vs : List StorageValue) : Except Error Chunk :=
  match h : t.build vs with
  | .ok cs => .ok ⟨t, cs, t.admits_build h⟩
  | .error e => .error e

theorem build_eq_ok {t : ArrayType} {vs : List StorageValue} {a : Chunk} :
    build t vs = .ok a ↔ a.type = t ∧ t.build vs = .ok a.cells := by
  unfold build
  split
  · next cs h =>
    constructor
    · intro ha
      cases ha
      exact ⟨rfl, h⟩
    · rintro ⟨rfl, hc⟩
      cases h.symm.trans hc
      rfl
  · next e h =>
    constructor
    · intro ha
      cases ha
    · rintro ⟨_, hc⟩
      cases h.symm.trans hc

theorem build_eq_error {t : ArrayType} {vs : List StorageValue} {e : Error} :
    build t vs = .error e ↔ t.build vs = .error e := by
  unfold build
  split
  · next cs h => simp [h]
  · next d h => simp [h]

end Chunk
end LogicalTable
