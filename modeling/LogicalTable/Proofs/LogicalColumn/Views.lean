import LogicalTable.Proofs.Columnar.Layouts
import LogicalTable.Proofs.Dictionary.Lossless
import LogicalTable.Proofs.LogicalColumn.RowPlaces

/-! Chunks as parts of a column of logical values. The column of a type takes chunks in its plain
layout and dictionaries over it, and what it reads is what the chunks hold, row after row. -/
namespace LogicalTable

theorem ArrayType.sameLayout_self (t : ArrayType) : t.sameLayout t = true := (sameLayout_iff t t).2 rfl

theorem ArrayType.isDictionaryOver_iff {plain t : ArrayType} : plain.isDictionaryOver t = true ↔
    ∃ width value, t.dictionaryParts = .ok (width, value) ∧ value.type.sameLayout plain = true := by
  rw [isDictionaryOver]
  cases t.dictionaryParts with
  | error e => simp
  | ok p =>
    obtain ⟨width, value⟩ := p
    constructor
    · exact fun same => ⟨width, value, rfl, same⟩
    · rintro ⟨_, _, ⟨⟩, same⟩
      exact same

theorem Shape.arrayType_ne_null (s : Shape) : s.arrayType ≠ .leaf .null := by
  cases s with
  | primitive p => cases p <;> decide
  | list _ => nofun
  | struct _ => nofun

/-- What a chunk of a column holds, in its rows. -/
structure ColumnChunk.Holds (c : ColumnChunk) (vs : List StorageValue) : Prop where
  size : c.size = vs.length
  read : ∀ i (h : i < vs.length), c.read i = .ok vs[i]
  missing : ∀ i (h : i < vs.length), c.isMissing i = vs[i].isNull

/-- What a chunk is as part of a column over a shape. -/
inductive Chunk.SeenAs (s : Shape) (c : Chunk) : ColumnChunk → Prop where
  | plain : c.type.sameLayout s.arrayType = true → SeenAs s c (.plain c)
  | dictionary {d : Dictionary} {width : DictKey} {value : Field} :
      c.type.dictionaryParts = .ok (width, value) → value.type.sameLayout s.arrayType = true →
      Dictionary.ofChunk c = .ok d → SeenAs s c (.dictionary d)

theorem Chunk.SeenAs.chunk {s : Shape} {c : Chunk} {view : ColumnChunk} (h : c.SeenAs s view) :
    view.chunk = c := by
  cases h with
  | plain _ => rfl
  | dictionary parts _ made =>
    obtain ⟨_, rfl⟩ := (Dictionary.ofChunk_settles parts).of_ok made
    rfl

/-- The place of a chunk counts for messages only. -/
theorem LogicalColumn.chunkAt_eq_ok {t : LogicalType} {index : Nat} {c : Chunk} {view : ColumnChunk} :
    chunkAt t index c = .ok view ↔ c.SeenAs t.storage view := by
  rw [chunkAt]
  constructor
  · intro h
    split at h
    · next same =>
      cases h
      exact .plain same
    · split at h
      · next keyed =>
        obtain ⟨width, value, parts, same⟩ := ArrayType.isDictionaryOver_iff.1 keyed
        obtain ⟨d, made, rfl⟩ := map_eq_ok.1 h
        exact .dictionary parts same made
      · cases h
  · intro h
    cases h with
    | plain same => exact if_pos same
    | dictionary parts same made =>
      have keyed := ArrayType.isDictionaryOver_iff.2 ⟨_, _, parts, same⟩
      rw [if_neg fun plain => t.storage.not_plainOver parts (ArrayType.plainOver_iff.2 plain),
        if_pos keyed, made]
      rfl

theorem LogicalColumn.chunksFrom_eq_ok {t : LogicalType} {index : Nat} {cs : List Chunk}
    {views : List ColumnChunk} :
    chunksFrom t index cs = .ok views ↔ List.Forall₂ (Chunk.SeenAs t.storage) cs views := by
  induction cs generalizing index views with
  | nil =>
    rw [List.forall₂_nil_left_iff]
    exact (Except.ok.injEq _ _).to_iff.trans eq_comm
  | cons c cs ih =>
    constructor
    · intro h
      obtain ⟨view, here, rest⟩ := bind_eq_ok.1 h
      obtain ⟨views, later, ⟨⟩⟩ := bind_eq_ok.1 rest
      exact .cons (chunkAt_eq_ok.1 here) (ih.1 later)
    · rintro (_ | ⟨here, later⟩)
      exact bind_eq_ok.2 ⟨_, chunkAt_eq_ok.2 here, bind_eq_ok.2 ⟨_, ih.2 later, rfl⟩⟩

/-- Whether a chunk holds values as part of a column, at whatever place. -/
def LogicalType.Takes (t : LogicalType) (c : Chunk) (vs : List StorageValue) : Prop :=
  ∀ index, ∃ v, LogicalColumn.chunkAt t index c = .ok v ∧ v.Holds vs

namespace LogicalType

variable {t : LogicalType} {vs : List StorageValue}

theorem takes_build (admitted : ∀ v ∈ vs, t.storage.admits v = true) :
    ∃ c, Chunk.build t.storage.arrayType vs = .ok c ∧ t.Takes c vs := by
  obtain ⟨c, hc, type, size, stored⟩ := Chunk.build_admitted (t := .plain t.storage) admitted
  have slot : ∀ i (h : i < vs.length),
      c.cells[i]? = some (t.storage.arrayType.store vs[i]) := by
    intro i h
    rw [stored, List.getElem?_map, List.getElem?_eq_getElem h]
    rfl
  have same : c.type.sameLayout t.storage.arrayType = true := by
    rw [type]
    exact ArrayType.sameLayout_self _
  refine ⟨c, hc, fun index => ⟨.plain c, LogicalColumn.chunkAt_eq_ok.2 (.plain same), size, ?_, ?_⟩⟩
  · intro i h
    rw [ColumnChunk.read, Chunk.read, slot i h, type]
    exact t.storage.read_store (admitted _ (List.getElem_mem h))
  · intro i h
    have marks : c.marksMissing = true := by
      rw [Chunk.marksMissing, type]
      exact decide_eq_true t.storage.arrayType_ne_null
    rw [ColumnChunk.isMissing, Chunk.isMissing, slot i h, marks]
    exact t.storage.isMissing_store (admitted _ (List.getElem_mem h))

theorem takes_encode {s : KeySource} (admitted : ∀ v ∈ vs, t.storage.admits v = true)
    (room : s.next.toNat + (distinctValues vs).length ≤ s.key.maxKey + 1) :
    ∃ c, s.encode t.storage.arrayType vs =
        ({ s with next := UInt64.ofNat (s.next.toNat + (distinctValues vs).length) }, .ok c) ∧
      t.Takes c vs := by
  obtain ⟨c, hc, type, size, slots, made⟩ :=
    KeySource.encode_readable (t := .plain t.storage) admitted room
  have parts : c.type.dictionaryParts = .ok (s.key, .plain "1" t.storage.arrayType) := by
    rw [type]
    exact ArrayType.dictionaryParts_dictionary ..
  have seen := Chunk.SeenAs.dictionary parts t.storage.arrayType.sameLayout_self made
  refine ⟨c, hc, fun index => ⟨_, LogicalColumn.chunkAt_eq_ok.2 seen, size, ?_, ?_⟩⟩
  · intro i h
    exact read_eq (t := .plain t.storage) slots admitted h
  · intro i h
    rw [ColumnChunk.isMissing, Dictionary.isMissing, List.getElem?_map,
      List.getElem?_eq_getElem h, Option.map_some]
    apply Bool.eq_iff_iff.2
    rw [beq_iff_eq, Option.some.injEq, firstRow?_eq_none, StorageValue.isNull_iff]

end LogicalType

/-- Asked for its own values, a converter decodes as its factory does. -/
theorem Converter.decode_own (c : Converter) (s : StorageValue) :
    c.decode c.valueType s = c.factory.decode s := by
  rw [decode, checkType, if_pos rfl]
  rfl

theorem LogicalType.of_eq_ok {t : DataType} {asked : ValueType} {u : LogicalType} :
    LogicalType.of t asked = .ok u ↔ t = u.dataType ∧ u.converter.valueType = asked := by
  constructor
  · intro h
    unfold LogicalType.of at h
    split at h
    · cases h
    · cases h
    · split at h
      · next typed =>
        cases h
        exact ⟨rfl, typed⟩
      · cases h
  · rintro ⟨rfl, typed⟩
    exact if_pos typed

namespace LogicalColumn

theorem ofChunks_eq_ok {t : DataType} {asked : ValueType} {cs : List Chunk} {c : LogicalColumn} :
    ofChunks t asked cs = .ok c ↔ t = c.type.dataType ∧ c.type.converter.valueType = asked ∧
      chunksFrom c.type 0 cs = .ok c.chunks := by
  constructor
  · intro h
    obtain ⟨u, attached, rest⟩ := bind_eq_ok.1 h
    obtain ⟨views, made, ⟨⟩⟩ := bind_eq_ok.1 rest
    obtain ⟨type, typed⟩ := LogicalType.of_eq_ok.1 attached
    exact ⟨type, typed, made⟩
  · rintro ⟨type, typed, made⟩
    exact bind_eq_ok.2 ⟨_, LogicalType.of_eq_ok.2 ⟨type, typed⟩,
      bind_eq_ok.2 ⟨_, made, congrArg Except.ok c.ofViews_self⟩⟩

theorem chunksFrom_eq {t : LogicalType} {cs : List Chunk} {vss : List (List StorageValue)}
    (h : List.Forall₂ t.Takes cs vss) (index : Nat) :
    ∃ views, chunksFrom t index cs = .ok views ∧ List.Forall₂ ColumnChunk.Holds views vss := by
  induction h generalizing index with
  | nil => exact ⟨[], rfl, .nil⟩
  | cons head _ ih =>
    obtain ⟨v, hv, holds⟩ := head index
    obtain ⟨views, hviews, rest⟩ := ih (index + 1)
    exact ⟨v :: views, bind_eq_ok.2 ⟨v, hv, bind_eq_ok.2 ⟨views, hviews, rfl⟩⟩, .cons holds rest⟩

variable {t : LogicalType} {views : List ColumnChunk} {vss : List (List StorageValue)}

theorem size_eq {c : LogicalColumn} (h : List.Forall₂ ColumnChunk.Holds c.chunks vss) :
    c.size = vss.flatten.length := by
  rw [size_eq_sum, sizes]
  generalize c.chunks = views at h
  induction h with
  | nil => rfl
  | cons head _ ih =>
    rw [List.flatten_cons, List.length_append, ← ih, ← head.size]
    rfl

theorem locateIn_eq (h : List.Forall₂ ColumnChunk.Holds views vss) {i : Nat}
    (hi : i < vss.flatten.length) :
    ∃ c row, locateIn views i = some (c, row) ∧ c.read row = .ok vss.flatten[i] ∧
      c.isMissing row = vss.flatten[i].isNull := by
  induction h generalizing i with
  | nil => exact (Nat.not_lt_zero i hi).elim
  | @cons c vs views vss head _ ih =>
    by_cases here : i < vs.length
    · have found : locateIn (c :: views) i = some (c, i) := if_pos (head.size ▸ here)
      have value : (vs :: vss).flatten[i] = vs[i] := List.getElem_append_left here
      rw [value]
      exact ⟨c, i, found, head.read i here, head.missing i here⟩
    · have later := Nat.not_lt.1 here
      have found : locateIn (c :: views) i = locateIn views (i - vs.length) := by
        rw [locateIn, head.size, if_neg here]
      have inside : i - vs.length < vss.flatten.length := by
        rw [List.flatten_cons, List.length_append] at hi
        omega
      have value : (vs :: vss).flatten[i] = vss.flatten[i - vs.length] :=
        List.getElem_append_right later
      rw [value, found]
      exact ih inside

section

variable {c : LogicalColumn} {i : Nat} (h : c.size ≤ i)
include h

theorem locate_beyond : c.locate i = .error (.columnRange i c.size) := by
  rw [locate, dif_neg (Nat.not_lt.2 h)]

theorem fails_beyond : c.read i = .error (.columnRange i c.size) ∧
    c.isMissing i = .error (.columnRange i c.size) ∧
    c.get i = .error (.layout (.columnRange i c.size)) := by
  have outside := locate_beyond h
  have read : c.read i = .error (.columnRange i c.size) := by
    rw [LogicalColumn.read, outside]
    rfl
  refine ⟨read, ?_, ?_⟩
  · rw [LogicalColumn.isMissing, outside]
    rfl
  · rw [LogicalColumn.get, read]
    rfl

end

/-- Rows that are read one by one are the values in a row. -/
theorem mapM_range {vs : List StorageValue} {f : Nat → Except ε α}
    {g : StorageValue → Except ε α} (h : ∀ i (hi : i < vs.length), f i = g vs[i]) :
    (List.range vs.length).mapM f = vs.mapM g := by
  induction vs generalizing f with
  | nil => rfl
  | cons v vs ih =>
    have rest := ih (f := fun i => f (i + 1)) fun i hi => h (i + 1) (Nat.succ_lt_succ hi)
    rw [List.length_cons, List.range_succ_eq_map, List.mapM_cons, List.mapM_cons, List.mapM_map,
      h 0 (Nat.zero_lt_succ _)]
    rw [← rest]
    rfl

theorem decodeChunk_eq {c : ColumnChunk} {vs : List StorageValue} (h : c.Holds vs) :
    decodeChunk t c = vs.mapM t.decode? := by
  rw [decodeChunk, h.size]
  refine mapM_range fun i hi => ?_
  rw [h.read i hi]
  rfl

theorem decodeAll_eq {c : LogicalColumn} (h : List.Forall₂ ColumnChunk.Holds c.chunks vss) :
    c.decodeAll = vss.flatten.mapM c.type.decode? := by
  rw [decodeAll]
  generalize c.chunks = views at h
  induction h with
  | nil => rfl
  | cons head _ ih =>
    rw [List.flatten_cons, List.mapM_append, List.mapM_cons, decodeChunk_eq head, ← ih]
    cases List.mapM c.type.decode? _ with
    | error e => rfl
    | ok ys =>
      cases List.mapM (decodeChunk c.type) _ with
      | error e => rfl
      | ok yss => rfl

end LogicalColumn
end LogicalTable
