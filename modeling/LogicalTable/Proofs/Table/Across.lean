import LogicalTable.Proofs.Schema.Operations
import LogicalTable.Proofs.Table.Written

/-! Batches across columns. The chunks of all columns at one place make up a batch, and the batches
of a table give the chunks of each column back. -/
namespace LogicalTable

section

variable {f : α → Option β} {as : List α} (all : ∀ a ∈ as, (f a).isSome = true)
include all

theorem length_filterMap_all : (as.filterMap f).length = as.length := by
  induction as with
  | nil => rfl
  | cons a as ih =>
    obtain ⟨head, tail⟩ := List.forall_mem_cons.1 all
    obtain ⟨b, hb⟩ := Option.isSome_iff_exists.1 head
    rw [List.filterMap_cons_some hb, List.length_cons, List.length_cons, ih tail]

theorem getElem?_filterMap_all (i : Nat) : (as.filterMap f)[i]? = as[i]?.bind f := by
  induction as generalizing i with
  | nil => rfl
  | cons a as ih =>
    obtain ⟨head, tail⟩ := List.forall_mem_cons.1 all
    obtain ⟨b, hb⟩ := Option.isSome_iff_exists.1 head
    rw [List.filterMap_cons_some hb]
    cases i with
    | zero => exact hb.symm
    | succ i => exact ih tail i

end

theorem filterMap_forall₂ {f : α → Option γ} {g : β → Option γ} {as : List α} {bs : List β}
    (h : List.Forall₂ (fun a b => f a = g b) as bs) : as.filterMap f = bs.filterMap g := by
  induction h with
  | nil => rfl
  | cons head _ ih => rw [List.filterMap_cons, List.filterMap_cons, head, ih]

theorem filterMap_range (as : List α) : (List.range as.length).filterMap (as[·]?) = as := by
  induction as with
  | nil => rfl
  | cons a as ih =>
    have first : (a :: as)[0]? = some a := rfl
    rw [List.length_cons, List.range_succ_eq_map,
      List.filterMap_cons_some (f := ((a :: as)[·]?)) first, List.filterMap_map]
    exact congrArg (a :: ·) ih

theorem Table.storageValues_position {t : Table} {i : Nat} (hi : i < t.schema.size) :
    t.storageValues (.position i) =
      ((t.chunksAt i).mapM (chunkValues (t.isDictionary i))).map List.flatten := by
  rw [storageValues, Schema.indexOf_position hi]
  rfl

/-- Batches of any writer are taken as they are, if there is no sentinel. -/
theorem Table.ofBatches_plain {a : ArraySchema} {r : Registry} {s : Schema} {batches : List Batch}
    (schema : a.schema r = .ok s) (width : ∀ b ∈ batches, b.width = s.size) (n : Nat) :
    ofBatches a batches r ⟨n, none⟩ = .ok ⟨s, a, batches⟩ := by
  have each : ∀ b ∈ batches, takeBatch s.size none b = .ok b := by
    intro b hb
    rw [takeBatch, if_neg (not_not_intro (width b hb))]
    rfl
  have taken := mapM_map_eq_ok (f := id) each
  rw [List.map_id] at taken
  rw [ofBatches, schema]
  exact bind_eq_ok.2 ⟨s, rfl, bind_eq_ok.2 ⟨batches, taken, rfl⟩⟩

/-- Chunks that a column can be cut into. -/
structure Column.CutInto (r : Registry) (lengths : List Nat) (c : Column) (chunks : List Chunk) :
    Prop where
  sizes : chunks.map Chunk.size = lengths
  types : ∀ d ∈ chunks, d.type = c.type.columnArrayType (c.type.dictKeyIn? r)

theorem Column.CutInto.get {r : Registry} {lengths : List Nat} {c : Column} {chunks : List Chunk}
    (h : c.CutInto r lengths chunks) {place rows : Nat} (hr : lengths[place]? = some rows) :
    ∃ d, chunks[place]? = some d ∧ d.size = rows ∧
      d.type = c.type.columnArrayType (c.type.dictKeyIn? r) := by
  rw [← h.sizes, List.getElem?_map] at hr
  obtain ⟨d, hd, size⟩ := Option.map_eq_some_iff.1 hr
  exact ⟨d, hd, size, h.types d (List.mem_of_getElem? hd)⟩

theorem Column.CutInto.of_stores {r : Registry} {lengths : List Nat} {c : Column}
    {chunks : List Chunk} {batches : List (List StorageValue)}
    (stores : List.Forall₂ (Chunk.Stores (c.type.dictKeyIn? r) c.type) chunks batches)
    (cut : batches.map List.length = lengths) : c.CutInto r lengths chunks := by
  subst cut
  induction stores with
  | nil => exact ⟨rfl, nofun⟩
  | cons head _ ih =>
    exact ⟨List.cons_eq_cons.2 ⟨head.size, ih.sizes⟩, List.forall_mem_cons.2 ⟨head.type, ih.types⟩⟩

/-- A batch of the chunks that stand at a place in columns that are cut alike. -/
structure Batch.Across (columns : List (List Chunk)) (lengths : List Nat) (place : Nat)
    (b : Batch) : Prop where
  size : lengths[place]? = some b.size
  width : b.width = columns.length
  column : ∀ i (_ : i < columns.length), b.columns[i]? = columns[i][place]?

section

variable {r : Registry} {lengths : List Nat} {cs : List Column} {columns : List (List Chunk)}
  (cut : List.Forall₂ (Column.CutInto r lengths) cs columns)
include cut

theorem length_cut : ∀ chunks ∈ columns, chunks.length = lengths.length := by
  induction cut with
  | nil => nofun
  | cons head _ ih =>
    have count := congrArg List.length head.sizes
    rw [List.length_map] at count
    exact List.forall_mem_cons.2 ⟨count, ih⟩

theorem isSome_place {place rows : Nat} (hr : lengths[place]? = some rows) :
    ∀ chunks ∈ columns, chunks[place]?.isSome = true := by
  induction cut with
  | nil => nofun
  | cons head _ ih =>
    obtain ⟨d, hd, _⟩ := head.get hr
    exact List.forall_mem_cons.2 ⟨by rw [hd]; rfl, ih⟩

theorem allStoredBy_place {place rows : Nat} (hr : lengths[place]? = some rows) (index : Nat) :
    Field.allStoredBy (Column.fields r index cs) rows (columns.filterMap (·[place]?)) = true := by
  induction cut generalizing index with
  | nil => rfl
  | @cons c chunks _ _ head _ ih =>
    obtain ⟨d, hd, size, type⟩ := head.get hr
    have stored : (c.field index r).storedBy rows d = true := by
      rw [Field.storedBy, Column.field, Field.type, Field.nullable, decide_eq_true type,
        decide_eq_true size]
      rfl
    rw [List.filterMap_cons_some (f := (·[place]?)) hd, Column.fields, Field.allStoredBy, stored, ih]
    rfl

theorem batchAt_across (nonempty : columns ≠ []) {place rows : Nat}
    (hr : lengths[place]? = some rows) :
    ∃ b, Table.batchAt (Column.fields r 0 cs) columns none place = .ok b ∧
      b.Across columns lengths place := by
  have here := isSome_place cut hr
  have stored := allStoredBy_place cut hr 0
  have width := length_filterMap_all here
  have column := getElem?_filterMap_all here
  cases cut with
  | nil => exact (nonempty rfl).elim
  | @cons c chunks cs columns head _ =>
    obtain ⟨d, hd, rfl, _⟩ := head.get hr
    have row : (chunks :: columns).filterMap (·[place]?) = d :: columns.filterMap (·[place]?) :=
      List.filterMap_cons_some hd
    rw [row] at stored width column
    refine ⟨⟨Column.fields r 0 (c :: cs), d, columns.filterMap (·[place]?), stored⟩, ?_, hr, width,
      fun i hi => ?_⟩
    · rw [Table.batchAt, row, Batch.ofColumns, dif_pos stored]
      rfl
    · rw [Batch.columns, column i, List.getElem?_eq_getElem hi]
      rfl

end

theorem width_across {columns : List (List Chunk)} {lengths places : List Nat} {batches : List Batch}
    (across : List.Forall₂ (Batch.Across columns lengths) places batches) :
    ∀ b ∈ batches, b.width = columns.length := by
  induction across with
  | nil => nofun
  | cons head _ ih => exact List.forall_mem_cons.2 ⟨head.width, ih⟩

section

variable {t : Table} {lengths : List Nat} {columns : List (List Chunk)}
  (across : List.Forall₂ (Batch.Across columns lengths) (List.range lengths.length) t.batches)
include across

theorem size_across : t.size = lengths.foldr (· + ·) 0 := by
  have sizes : (List.range lengths.length).filterMap (lengths[·]?) =
      t.batches.filterMap fun b => some b.size :=
    filterMap_forall₂ (across.imp fun _ _ h => h.size)
  rw [filterMap_range, List.filterMap_eq_map'] at sizes
  rw [Table.size, sizes]

theorem chunksAt_across {i : Nat} (hi : i < columns.length)
    (count : columns[i].length = lengths.length) : t.chunksAt i = columns[i] := by
  have chunks : (List.range lengths.length).filterMap (columns[i][·]?) =
      t.batches.filterMap fun b => b.columns[i]? :=
    filterMap_forall₂ (across.imp fun _ _ h => (h.column i hi).symm)
  rw [← count, filterMap_range] at chunks
  exact chunks.symm

theorem storageValues_across (width : t.schema.size = columns.length) {i : Nat}
    (hi : i < columns.length) {key : Option DictKey} {type : DataType}
    {batches : List (List StorageValue)} (cut : batches.map List.length = lengths)
    (stores : List.Forall₂ (Chunk.Stores key type) columns[i] batches)
    (marked : t.isDictionary i = key.isSome) :
    t.storageValues (.position i) = .ok batches.flatten := by
  have count : columns[i].length = lengths.length := by
    rw [stores.length_eq, ← cut, List.length_map]
  have values : columns[i].mapM (Table.chunkValues key.isSome) = .ok batches :=
    mapM_of_forall₂ (stores.imp fun _ _ stored => stored.values)
  rw [Table.storageValues_position (width ▸ hi), chunksAt_across across hi count, marked, values]
  rfl

end

end LogicalTable
