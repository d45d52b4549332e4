import LogicalTable.Proofs.Dictionary.Expansion
import LogicalTable.Proofs.LogicalColumn.Views
import LogicalTable.Proofs.Table.Foreign

/-! What a column accepts it can read. A chunk in the plain layout of a type, whatever its members are
called, or a dictionary over that layout holds a value of the type in each row, and marks a row as
missing just where it holds none. -/
namespace LogicalTable

section Slots

theorem LeafType.primitive?_of_layout {l : LeafType} {p : Primitive}
    (same : (ArrayType.leaf l).sameLayout (.leaf p.leafType) = true) : l.primitive? = some p := by
  cases p <;> cases l <;> first | rfl | cases same

mutual

-- The recursion is on the type that is asked for; the array's own is known only up to its layout.
theorem Shape.read_layout : ∀ (s : Shape) {t : ArrayType} {c : Cell},
    t.sameLayout s.arrayType = true → t.admits c = true → ∃ v, t.read c = .ok v ∧ s.admits v = true
  | .primitive p, .leaf l, c, same, admitted =>
    LeafType.read_admitted (LeafType.primitive?_of_layout same) admitted
  | .list item, .list (.mk name t b m), c, same, admitted
  | .list item, .largeList (.mk name t b m), c, same, admitted => by
    cases c with
    | missing => exact ⟨.null, rfl, rfl⟩
    | list cs =>
      have each : ∀ c ∈ cs, ∃ v, (Field.mk name t b m).read c = .ok v ∧ item.admits v = true :=
        fun c hc => item.read_layout same (List.all_eq_true.1 admitted c hc)
      obtain ⟨vs, read, all⟩ := Field.mapM_read each
      exact ⟨.list vs, bind_eq_ok.2 ⟨vs, read, rfl⟩, all⟩
    | _ => cases admitted
  | .struct members, .struct fs, c, same, admitted => by
    cases c with
    | struct present cs =>
      obtain ⟨vs, read, all⟩ := members.readAll_layout 0 same admitted
      cases present with
      | true => exact ⟨.struct vs, bind_eq_ok.2 ⟨vs, read, rfl⟩, all⟩
      | false => exact ⟨.null, rfl, rfl⟩
    | _ => cases admitted
  | .primitive _, .list _, _, same, _ | .primitive _, .largeList _, _, same, _
  | .primitive _, .struct _, _, same, _ | .list _, .leaf _, _, same, _
  | .list _, .struct _, _, same, _ | .struct _, .leaf _, _, same, _
  | .struct _, .list _, _, same, _ | .struct _, .largeList _, _, same, _ => by cases same

theorem DataType.read_layout : ∀ (u : DataType) {t : ArrayType} {c : Cell},
    t.sameLayout u.arrayType = true → t.admits c = true → ∃ v, t.read c = .ok v ∧ u.admits v = true
  | .plain s, _, _, same, admitted => s.read_layout same admitted
  | .logical _ s _, _, _, same, admitted => s.read_layout same admitted

theorem Members.readAll_layout : ∀ (us : Members) (index : Nat) {fs : List Field} {cs : List Cell},
    Field.sameLayouts fs (us.fields index) = true → Field.admitAll fs cs = true →
    ∃ vs, Field.readAll fs cs = .ok vs ∧ us.admits vs = true
  | .one u, _, [.mk _ t _ _], [c], same, admitted => by
    obtain ⟨v, read, fits⟩ :=
      u.read_layout (Bool.and_eq_true_iff.1 same).1 (Bool.and_eq_true_iff.1 admitted).1
    exact ⟨[v], bind_eq_ok.2 ⟨v, read, rfl⟩, fits⟩
  | .cons u us, index, .mk _ t _ _ :: fs, c :: cs, same, admitted => by
    obtain ⟨head, tail⟩ := Bool.and_eq_true_iff.1 same
    obtain ⟨here, later⟩ := Bool.and_eq_true_iff.1 admitted
    obtain ⟨v, read, fits⟩ := u.read_layout head here
    obtain ⟨vs, reads, all⟩ := us.readAll_layout (index + 1) tail later
    exact ⟨v :: vs, bind_eq_ok.2 ⟨v, read, bind_eq_ok.2 ⟨vs, reads, rfl⟩⟩,
      Bool.and_eq_true_iff.2 ⟨fits, all⟩⟩
  | .one _, _, [], _, same, _ | .cons .., _, [], _, same, _ => by cases same
  | .one _, _, _ :: _ :: _, _, same, _ => by cases (Bool.and_eq_true_iff.1 same).2
  | .one _, _, [_], [], _, admitted | .cons .., _, _ :: _, [], _, admitted => by cases admitted
  | .one _, _, [_], _ :: _ :: _, _, admitted => by cases (Bool.and_eq_true_iff.1 admitted).2

end

theorem Shape.ne_null_of_layout {s : Shape} {t : ArrayType}
    (same : t.sameLayout s.arrayType = true) : t ≠ .leaf .null := by
  rintro rfl
  cases s with
  | primitive p => cases LeafType.primitive?_of_layout same
  | list _ => cases same
  | struct _ => cases same

theorem Shape.slot_layout (s : Shape) {t : ArrayType} {c : Cell}
    (same : t.sameLayout s.arrayType = true) (admitted : t.admits c = true) :
    ∃ v, t.read c = .ok v ∧ s.admits v = true ∧ c.isMissing = v.isNull := by
  obtain ⟨v, read, fits⟩ := s.read_layout same admitted
  exact ⟨v, read, fits, ArrayType.isMissing_eq (Shape.ne_null_of_layout same) admitted read⟩

end Slots

namespace ColumnChunk

variable {s : Shape} {c : Chunk}

theorem holds_of_each {c : ColumnChunk} {P : StorageValue → Prop}
    (each : ∀ i < c.size, ∃ v, c.read i = .ok v ∧ P v ∧ c.isMissing i = v.isNull) :
    ∃ vs, c.Holds vs ∧ ∀ v ∈ vs, P v := by
  choose v read fits missing using each
  refine ⟨List.ofFn fun i : Fin c.size => v i i.isLt, ⟨List.length_ofFn.symm, ?_, ?_⟩, ?_⟩
  · intro i h
    rw [List.getElem_ofFn]
    exact read i (by rwa [List.length_ofFn] at h)
  · intro i h
    rw [List.getElem_ofFn]
    exact missing i (by rwa [List.length_ofFn] at h)
  · intro v hv
    obtain ⟨i, rfl⟩ := List.mem_ofFn.1 hv
    exact fits i i.isLt

theorem holds_plain (same : c.type.sameLayout s.arrayType = true) :
    ∃ vs, (plain c).Holds vs ∧ ∀ v ∈ vs, s.admits v = true := by
  have marks : c.marksMissing = true := decide_eq_true (Shape.ne_null_of_layout same)
  refine holds_of_each fun i (h : i < c.cells.length) => ?_
  obtain ⟨v, read, fits, missing⟩ := s.slot_layout same (c.fit _ (List.getElem_mem h))
  refine ⟨v, ?_, fits, ?_⟩
  · rw [ColumnChunk.read, Chunk.read, List.getElem?_eq_getElem h]
    exact read
  · rw [ColumnChunk.isMissing, Chunk.isMissing_eq_getElem marks h]
    exact missing

/-- A row is marked as missing just where it holds no value. -/
theorem holds_dictionary {d : Dictionary} {width : DictKey} {value : Field}
    (parts : c.type.dictionaryParts = .ok (width, value))
    (same : value.type.sameLayout s.arrayType = true) (made : Dictionary.ofChunk c = .ok d) :
    ∃ vs, (dictionary d).Holds vs ∧ ∀ v ∈ vs, s.admits v = true := by
  have sound := (Dictionary.exists_ofChunk_iff parts).1 ⟨d, made⟩
  have expands := Dictionary.expands_ofChunk parts made
  have rows : d.chunk.size = c.size := by
    obtain ⟨_, rfl⟩ := (Dictionary.ofChunk_settles parts).of_ok made
    rfl
  refine holds_of_each fun i (h : i < d.chunk.size) => ?_
  rw [rows] at h
  rw [ColumnChunk.read, ColumnChunk.isMissing]
  by_cases absent : c.isMissing i = true
  · obtain ⟨missing, read⟩ := expands.missing i h absent
    exact ⟨.null, read, s.admits_null, missing⟩
  · -- The value stands in the first row of the key, which is there and lacks nothing.
    obtain ⟨k, key⟩ := sound.keyed i h (Bool.eq_false_iff.2 absent)
    obtain ⟨first, here, missing, read⟩ := expands.stored i k key
    have held := sound.valued k first here
    obtain ⟨v, value, fits, null⟩ := s.slot_layout same (Dictionary.valueCell_admitted parts here.1)
    rw [Dictionary.lacks, decide_eq_true (Shape.ne_null_of_layout same), Bool.true_and, null] at held
    exact ⟨v, read.trans value, fits, missing.trans held.symm⟩

end ColumnChunk

theorem Chunk.SeenAs.holds {s : Shape} {c : Chunk} {view : ColumnChunk} (h : c.SeenAs s view) :
    ∃ vs, view.Holds vs ∧ ∀ v ∈ vs, s.admits v = true := by
  cases h with
  | plain same => exact ColumnChunk.holds_plain same
  | dictionary parts same made => exact ColumnChunk.holds_dictionary parts same made

namespace LogicalColumn

theorem holds_chunksFrom {t : LogicalType} {index : Nat} {cs : List Chunk}
    {views : List ColumnChunk} (h : chunksFrom t index cs = .ok views) :
    ∃ vss, List.Forall₂ ColumnChunk.Holds views vss ∧
      ∀ v ∈ vss.flatten, t.storage.admits v = true := by
  have seen := chunksFrom_eq_ok.1 h
  clear h
  induction seen with
  | nil => exact ⟨[], .nil, nofun⟩
  | cons here _ ih =>
    obtain ⟨vs, head, fits⟩ := here.holds
    obtain ⟨vss, tail, all⟩ := ih
    exact ⟨vs :: vss, .cons head tail, List.forall_mem_append.2 ⟨fits, all⟩⟩

/-- A column that was made from chunks, or by appending such columns. -/
inductive Accepted : LogicalColumn → Prop where
  | ofChunks {t : DataType} {asked : ValueType} {cs : List Chunk} {c : LogicalColumn}
      (made : LogicalColumn.ofChunks t asked cs = .ok c) : Accepted c
  | append {c d e : LogicalColumn} (left : Accepted c) (right : Accepted d)
      (made : c.append d = .ok e) : Accepted e

/-- Each chunk of a column can be read, row by row. -/
theorem Accepted.holds {c : LogicalColumn} (h : c.Accepted) :
    ∃ vss, List.Forall₂ ColumnChunk.Holds c.chunks vss := by
  induction h with
  | ofChunks made =>
    obtain ⟨_, _, views⟩ := ofChunks_eq_ok.1 made
    obtain ⟨vss, holds, _⟩ := holds_chunksFrom views
    exact ⟨vss, holds⟩
  | append _ _ made left right =>
    obtain ⟨us, hus⟩ := left
    obtain ⟨vs, hvs⟩ := right
    unfold LogicalColumn.append at made
    split at made
    · cases made
      exact ⟨us ++ vs, List.rel_append hus hvs⟩
    · cases made

end LogicalColumn
end LogicalTable
