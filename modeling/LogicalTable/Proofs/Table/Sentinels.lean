import LogicalTable.Proofs.LogicalColumn.Views
import LogicalTable.Proofs.Table.Foreign
import LogicalTable.Proofs.Table.RoundTrip

/-! What sentinels do to the values of a table. They stand for missing integers in whole columns of
`int32` and `int64` arrays, whatever type the schema gives the column: a logical type that is stored as
such integers is not spared. -/
namespace LogicalTable

/-- A leaf type whose slots hold integers, with what is read from them. -/
structure LeafType.Integral (t : LeafType) (value : Int → StorageValue) : Prop where
  slots : ∀ c, t.admits c = true → c = .missing ∨ ∃ n, c = .integer n
  missing : t.read .missing = .ok .null
  integer : ∀ n, t.read (.integer n) = .ok (value n)
  there : ∀ n, value n ≠ .null
  injective : ∀ m n, t.admits (.integer m) = true → t.admits (.integer n) = true →
    value m = value n → m = n

theorem LeafType.integral_int32 : Integral .int32 fun n => .int (Int32.ofInt n) where
  slots := by
    intro c h
    cases c with
    | missing => exact Or.inl rfl
    | integer n => exact Or.inr ⟨n, rfl⟩
    | _ => cases h
  missing := rfl
  integer _ := rfl
  there _ := StorageValue.noConfusion
  injective m n hm hn same := by
    simp [admits, bounds?] at hm hn
    have ints := congrArg Int32.toInt (StorageValue.int.inj same)
    rwa [Int32.toInt_ofInt_of_le hm.1 hm.2, Int32.toInt_ofInt_of_le hn.1 hn.2] at ints

theorem LeafType.integral_int64 : Integral .int64 fun n => .long (Int64.ofInt n) where
  slots := by
    intro c h
    cases c with
    | missing => exact Or.inl rfl
    | integer n => exact Or.inr ⟨n, rfl⟩
    | _ => cases h
  missing := rfl
  integer _ := rfl
  there _ := StorageValue.noConfusion
  injective m n hm hn same := by
    simp [admits, bounds?] at hm hn
    have longs := congrArg Int64.toInt (StorageValue.long.inj same)
    rwa [Int64.toInt_ofInt_of_le hm.1 hm.2, Int64.toInt_ofInt_of_le hn.1 hn.2] at longs

section

variable {k : LeafType} {value : Int → StorageValue} {t : ArrayType} {c : Cell} {n : Int}

theorem LeafType.Integral.read_fill (h : k.Integral value) (leaf : t = .leaf k)
    (hc : t.admits c = true) :
    t.read (c.fill n) = (t.read c).map (fun v => if v = .null then value n else v) ∧
      ∀ v, t.read c = .ok v → (if v = .null then value n else v) = v → c.fill n = c := by
  subst leaf
  simp only [ArrayType.read]
  rcases h.slots c hc with rfl | ⟨m, rfl⟩
  · rw [Cell.fill, h.missing, h.integer]
    refine ⟨congrArg Except.ok (if_pos rfl).symm, ?_⟩
    rintro v ⟨⟩ same
    rw [if_pos rfl] at same
    exact (h.there n same).elim
  · have kept : (Cell.integer m).fill n = .integer m := rfl
    rw [kept, h.integer]
    exact ⟨congrArg Except.ok (if_neg (h.there m)).symm, fun _ _ _ => rfl⟩

theorem LeafType.Integral.read_drop (h : k.Integral value) (leaf : t = .leaf k)
    (hc : t.admits c = true) (hn : t.admits (.integer n) = true) :
    t.read (c.drop n) = (t.read c).map (fun v => if v = value n then .null else v) ∧
      ∀ v, t.read c = .ok v → (if v = value n then .null else v) = v → c.drop n = c := by
  subst leaf
  simp only [ArrayType.read]
  rcases h.slots c hc with rfl | ⟨m, rfl⟩
  · have kept : Cell.missing.drop n = .missing := rfl
    rw [kept, h.missing]
    exact ⟨congrArg Except.ok (if_neg (h.there n).symm).symm, fun _ _ _ => rfl⟩
  · rw [Cell.drop, h.integer]
    by_cases same : m = n
    · subst same
      rw [if_pos rfl, h.missing]
      refine ⟨congrArg Except.ok (if_pos rfl).symm, ?_⟩
      rintro v ⟨⟩ null
      rw [if_pos rfl] at null
      exact (h.there m null.symm).elim
    · have other : value m ≠ value n := fun equal => same (h.injective m n hc hn equal)
      rw [if_neg same, h.integer]
      exact ⟨congrArg Except.ok (if_neg other).symm, fun _ _ _ => rfl⟩

end

namespace Sentinel

/-- The storage value that stands for missing ones in columns of a type. -/
def standIn? (s : Sentinel) : ArrayType → Option StorageValue
  | .leaf .int32 => s.forInt32.toOption.map fun n => .int (Int32.ofInt n.1)
  | .leaf .int64 => some (.long (Int64.ofInt s.forInt64.1))
  | _ => none

/-- What a row of a type holds with sentinels in place of missing values. -/
def fill (s : Sentinel) (t : ArrayType) (v : StorageValue) : StorageValue :=
  if v = .null then (s.standIn? t).getD .null else v

/-- What a row of a type holds with sentinels taken as missing. -/
def clear (s : Sentinel) (t : ArrayType) (v : StorageValue) : StorageValue :=
  if some v = s.standIn? t then .null else v

section

variable {s : Sentinel} {t : ArrayType}

theorem fill_eq {w : StorageValue} (h : s.standIn? t = some w) :
    s.fill t = fun v => if v = .null then w else v := by
  funext v
  rw [fill, h, Option.getD_some]

theorem clear_eq {w : StorageValue} (h : s.standIn? t = some w) :
    s.clear t = fun v => if v = w then .null else v := by
  funext v
  simp only [clear, h, Option.some_inj]

theorem fill_eq_id (h : s.standIn? t = none) : s.fill t = id := by
  funext v
  rw [fill, h]
  exact ite_eq_right_iff.2 Eq.symm

theorem clear_eq_id (h : s.standIn? t = none) : s.clear t = id := by
  funext v
  rw [clear, h]
  exact if_neg nofun

end

/-- Either a type has integers one of which is the sentinel, or it does not know any. -/
inductive Knows (s : Sentinel) (t : ArrayType) : Option (For t) → Prop where
  | integers {k : LeafType} {value : Int → StorageValue} (n : For t) : t = .leaf k →
      k.Integral value → s.standIn? t = some (value n.1) → Knows s t (some n)
  | none : s.standIn? t = none → Knows s t none

theorem knows_of_forType {s : Sentinel} {t : ArrayType} {n? : Option (For t)}
    (h : s.forType t = .ok n?) : s.Knows t n? := by
  rw [forType.eq_def] at h
  split at h
  · obtain ⟨n, hn, rfl⟩ := map_eq_ok.1 h
    refine .integers n rfl LeafType.integral_int32 ?_
    rw [standIn?, hn]
    rfl
  · cases h
    exact .integers _ rfl LeafType.integral_int64 rfl
  · next not32 not64 =>
    cases h
    exact .none (standIn?.eq_3 s t not32 not64)

end Sentinel

/-- A chunk that reads like another one would if a function were applied to all that is read from it. The
function is not applied within dictionaries. -/
structure Chunk.Altered (f : StorageValue → StorageValue) (c d : Chunk) : Prop where
  type : d.type = c.type
  slots : List.Forall₂ (fun x y => c.type.read y = (c.type.read x).map f ∧
    ∀ v, c.type.read x = .ok v → f v = v → y = x) c.cells d.cells
  leaf : (∃ t, c.type = .leaf t) ∨ d = c ∧ f = id

namespace Chunk

variable {f : StorageValue → StorageValue} {c d : Chunk} {s : Sentinel}

theorem altered_id (c : Chunk) : c.Altered id c where
  type := rfl
  slots := List.forall₂_same.2 fun _ _ => ⟨(congrFun Except.map_id _).symm, fun _ _ _ => rfl⟩
  leaf := Or.inr ⟨rfl, rfl⟩

/-- Slots of a leaf type may be changed one by one. -/
theorem altered_of_map {k : LeafType} {change : Cell → Cell} (leaf : c.type = .leaf k)
    (type : d.type = c.type) (cells : d.cells = c.cells.map change)
    (each : ∀ x ∈ c.cells, c.type.read (change x) = (c.type.read x).map f ∧
      ∀ v, c.type.read x = .ok v → f v = v → change x = x) : c.Altered f d where
  type := type
  slots := by
    rw [cells, List.forall₂_map_right_iff, List.forall₂_same]
    exact each
  leaf := Or.inl ⟨k, leaf⟩

theorem altered_insertSentinel (h : c.insertSentinel s = .ok d) : c.Altered (s.fill c.type) d := by
  obtain ⟨n?, hn, rfl⟩ := map_eq_ok.1 h
  cases Sentinel.knows_of_forType hn with
  | none unknown =>
    rw [Sentinel.fill_eq_id unknown]
    exact altered_id c
  | integers n leaf integral standIn =>
    rw [Sentinel.fill_eq standIn]
    exact altered_of_map leaf rfl rfl fun x hx => integral.read_fill leaf (c.fit x hx)

theorem altered_removeSentinel (h : c.removeSentinel s = .ok d) : c.Altered (s.clear c.type) d := by
  obtain ⟨n?, hn, rfl⟩ := map_eq_ok.1 h
  cases Sentinel.knows_of_forType hn with
  | none unknown =>
    rw [Sentinel.clear_eq_id unknown]
    exact altered_id c
  | integers n leaf integral standIn =>
    rw [Sentinel.clear_eq standIn]
    exact altered_of_map leaf rfl rfl fun x hx => integral.read_drop leaf (c.fit x hx) n.2

theorem eq_of_cells (type : d.type = c.type) (cells : d.cells = c.cells) : d = c := by
  obtain ⟨type, cells, fit⟩ := c
  cases d
  cases type
  cases cells
  rfl

theorem ofChunk_leaf {t : LeafType} (leaf : c.type = .leaf t) :
    Dictionary.ofChunk c = .error (.ofField (.notStruct t.name)) := by
  rw [Dictionary.ofChunk, leaf]
  rfl

namespace Altered

theorem size (h : c.Altered f d) : d.size = c.size := h.slots.length_eq.symm

theorem read (h : c.Altered f d) (row : Nat) : d.read row = (c.read row).map f := by
  rw [Chunk.read, Chunk.read, h.size, h.type]
  rcases getElem?_forall₂ h.slots row with ⟨hx, hy⟩ | ⟨x, y, hx, hy, slot, _⟩
  · rw [hx, hy]
    rfl
  · rw [hx, hy]
    exact slot

theorem values (h : c.Altered f d) : d.values = c.values.map (List.map f) := by
  rw [Chunk.values, Chunk.values, h.type]
  exact mapM_eq_map (h.slots.imp fun _ _ slot => slot.1)

theorem chunkValues (h : c.Altered f d) (dictionary : Bool) :
    Table.chunkValues dictionary d = (Table.chunkValues dictionary c).map (List.map f) := by
  cases dictionary with
  | false =>
    rw [Table.chunkValues, Table.chunkValues, h.values]
    cases c.values <;> rfl
  | true =>
    rcases h.leaf with ⟨t, leaf⟩ | ⟨rfl, rfl⟩
    · rw [Table.chunkValues, Table.chunkValues, if_pos rfl, if_pos rfl, ofChunk_leaf leaf,
        ofChunk_leaf (h.type.trans leaf)]
      rfl
    · rw [List.map_id_fun]
      exact (congrFun Except.map_id _).symm

/-- Where the function keeps all that is read, the chunk is kept. -/
theorem eq_of_fixed (h : c.Altered f d) {dictionary : Bool} {vs : List StorageValue}
    (hv : Table.chunkValues dictionary c = .ok vs) (fixed : ∀ v ∈ vs, f v = v) : d = c := by
  rcases h.leaf with ⟨t, leaf⟩ | ⟨same, _⟩
  · cases dictionary with
    | true =>
      rw [Table.chunkValues, if_pos rfl, ofChunk_leaf leaf] at hv
      cases hv
    | false =>
      have read : c.values = .ok vs := orFail_eq_ok.1 hv
      clear hv
      refine eq_of_cells h.type ?_
      rw [Chunk.values] at read
      have slots := h.slots
      generalize c.cells = xs at slots read
      generalize d.cells = ys at slots
      induction slots generalizing vs with
      | nil => rfl
      | cons slot _ ih =>
        rw [List.mapM_cons] at read
        obtain ⟨v, hv, read⟩ := bind_eq_ok.1 read
        obtain ⟨vs, hvs, ⟨⟩⟩ := bind_eq_ok.1 read
        obtain ⟨first, rest⟩ := List.forall_mem_cons.1 fixed
        rw [slot.2 v hv first, ih rest hvs]
  · exact same

end Altered
end Chunk

section Columns

variable {f : ArrayType → StorageValue → StorageValue} {cs ds : List Chunk}

/-- A chunk of a column that reads like another one, but for a function of the type of its array. -/
structure ColumnChunk.Altered (f : ArrayType → StorageValue → StorageValue) (c d : ColumnChunk) :
    Prop where
  size : d.size = c.size
  read : ∀ row, d.read row = (c.read row).map (f c.chunk.type)

theorem Chunk.SeenAs.altered {s : Shape} {c d : Chunk} {p : ColumnChunk}
    (h : c.Altered (f c.type) d) (seen : c.SeenAs s p) : ∃ q, d.SeenAs s q ∧ p.Altered f q := by
  rcases h.leaf with ⟨k, leaf⟩ | ⟨rfl, same⟩
  · cases seen with
    | plain plain =>
      rw [← h.type] at plain
      exact ⟨.plain d, .plain plain, h.size, h.read⟩
    | dictionary parts _ _ =>
      rw [leaf] at parts
      cases parts
  · refine ⟨p, seen, rfl, fun row => ?_⟩
    rw [seen.chunk, same]
    exact (congrFun Except.map_id _).symm

theorem seenAs_altered {s : Shape} {ps : List ColumnChunk}
    (h : List.Forall₂ (fun c d => c.Altered (f c.type) d) cs ds)
    (seen : List.Forall₂ (Chunk.SeenAs s) cs ps) :
    ∃ qs, List.Forall₂ (Chunk.SeenAs s) ds qs ∧ List.Forall₂ (ColumnChunk.Altered f) ps qs := by
  induction h generalizing ps with
  | nil =>
    cases seen
    exact ⟨[], .nil, .nil⟩
  | cons head _ ih =>
    obtain _ | ⟨here, rest⟩ := seen
    obtain ⟨q, hq, first⟩ := here.altered head
    obtain ⟨qs, hqs, later⟩ := ih rest
    exact ⟨q :: qs, .cons hq hqs, .cons first later⟩

/-- A column of the same type and size that reads in each row like another one, but for a function of the
type of the row's array. -/
structure LogicalColumn.Altered (f : ArrayType → StorageValue → StorageValue) (c d : LogicalColumn) :
    Prop where
  type : d.type = c.type
  size : d.size = c.size
  read : ∀ i, d.read i = do
    let (p, row) ← c.locate i
    (p.read row).map (f p.chunk.type)

theorem LogicalColumn.altered_of_chunks {c d : LogicalColumn} (type : d.type = c.type)
    (h : List.Forall₂ (ColumnChunk.Altered f) c.chunks d.chunks) : Altered f c d := by
  have sizes : d.sizes = c.sizes := by
    rw [LogicalColumn.sizes, LogicalColumn.sizes]
    generalize c.chunks = ps at h
    generalize d.chunks = qs at h
    induction h with
    | nil => rfl
    | cons head _ ih => exact congrArg₂ List.cons head.size ih
  have size : d.size = c.size := by
    rw [size_eq_sum, size_eq_sum, sizes]
  refine ⟨type, size, fun i => ?_⟩
  have place : locateIn c.chunks i = none ∧ locateIn d.chunks i = none ∨
      ∃ p q row, locateIn c.chunks i = some (p, row) ∧ locateIn d.chunks i = some (q, row) ∧
        p.Altered f q := by
    generalize c.chunks = ps at h
    generalize d.chunks = qs at h
    induction h generalizing i with
    | nil => exact Or.inl ⟨rfl, rfl⟩
    | @cons p q _ _ head _ ih =>
      rw [locateIn, locateIn, head.size]
      split
      · exact Or.inr ⟨p, q, i, rfl, rfl, head⟩
      · exact ih _
  rw [read, locate_eq_locateIn, locate_eq_locateIn, size]
  rcases place with ⟨hp, hq⟩ | ⟨p, q, row, hp, hq, altered⟩
  · rw [hp, hq]
    rfl
  · rw [hp, hq]
    exact altered.read row

end Columns

namespace Batch

theorem ofColumns_eq_ok {fields : List Field} {cs : List Chunk} {b : Batch}
    (h : ofColumns fields cs = .ok b) : b.fields = fields ∧ b.columns = cs := by
  cases cs with
  | nil => cases h
  | cons c cs =>
    rw [ofColumns] at h
    split at h
    · cases h
      exact ⟨rfl, rfl⟩
    · cases h

theorem columns_mapColumns {f : ArrayType → StorageValue → StorageValue}
    {g : Chunk → Except LayoutError Chunk} {b d : Batch}
    (each : ∀ c e, g c = .ok e → c.Altered (f c.type) e) (h : b.mapColumns g = .ok d) :
    List.Forall₂ (fun x y => x.Altered (f x.type) y) b.columns d.columns := by
  obtain ⟨cs, hcs, h⟩ := bind_eq_ok.1 h
  rw [(ofColumns_eq_ok (orFail_eq_ok.1 h)).2]
  exact (forall₂_of_mapM (orFail_eq_ok.1 hcs)).imp each

theorem fields_mapColumns {g : Chunk → Except LayoutError Chunk} {b d : Batch}
    (h : b.mapColumns g = .ok d) : d.fields = b.fields := by
  obtain ⟨cs, _, h⟩ := bind_eq_ok.1 h
  exact (ofColumns_eq_ok (orFail_eq_ok.1 h)).1

end Batch

namespace Table

/-- The values of a chunk, each with the type of the array. -/
def chunkRows (dictionary : Bool) (c : Chunk) : Except Error (List (ArrayType × StorageValue)) :=
  (chunkValues dictionary c).map (List.map (c.type, ·))

/-- The values of a column, each with the type of the array that it stands in. -/
def rows (t : Table) (key : ColumnRef) : Except Error (List (ArrayType × StorageValue)) := do
  let position ← orFail .lookup (t.schema.indexOf key)
  let chunks ← (t.chunksAt position).mapM (chunkRows (t.isDictionary position))
  return chunks.flatten

/-- A table of the same types as another one, with chunks that read like its chunks but for a function of
the type. -/
structure Altered (f : ArrayType → StorageValue → StorageValue) (u t : Table) : Prop where
  schema : t.schema = u.schema
  arraySchema : t.arraySchema = u.arraySchema
  batches : List.Forall₂ (fun b d => List.Forall₂ (fun x y => x.Altered (f x.type) y) b.columns d.columns)
    u.batches t.batches

section

variable {f : ArrayType → StorageValue → StorageValue} {dictionary : Bool} {cs ds : List Chunk}

theorem chunkRows_map (change : ArrayType × StorageValue → StorageValue) (c : Chunk) :
    (chunkRows dictionary c).map (List.map change) =
      (chunkValues dictionary c).map (List.map fun v => change (c.type, v)) := by
  rw [chunkRows]
  cases chunkValues dictionary c with
  | error e => rfl
  | ok vs => exact congrArg Except.ok List.map_map

theorem mapM_chunkValues {change : ArrayType × StorageValue → StorageValue}
    (h : List.Forall₂ (fun x y => chunkValues dictionary y = (chunkRows dictionary x).map (List.map change))
      cs ds) :
    (ds.mapM (chunkValues dictionary)).map List.flatten =
      ((cs.mapM (chunkRows dictionary)).map List.flatten).map (List.map change) := by
  rw [mapM_eq_map h]
  cases cs.mapM (chunkRows dictionary) with
  | error e => rfl
  | ok rows => exact congrArg Except.ok List.map_flatten.symm

/-- Where the function keeps all values, the chunks are kept. -/
theorem eq_of_chunkRows (h : List.Forall₂ (fun x y => x.Altered (f x.type) y) cs ds)
    {rows : List (List (ArrayType × StorageValue))} (read : cs.mapM (chunkRows dictionary) = .ok rows)
    (fixed : ∀ p ∈ rows.flatten, f p.1 p.2 = p.2) : ds = cs := by
  induction h generalizing rows with
  | nil => rfl
  | @cons x y _ _ head _ ih =>
    rw [List.mapM_cons] at read
    obtain ⟨first, here, read⟩ := bind_eq_ok.1 read
    obtain ⟨rest, later, ⟨⟩⟩ := bind_eq_ok.1 read
    rw [List.flatten_cons, List.forall_mem_append] at fixed
    obtain ⟨vs, values, rfl⟩ := map_eq_ok.1 here
    have kept : ∀ v ∈ vs, f x.type v = v := fun v hv => fixed.1 _ (List.mem_map_of_mem hv)
    rw [head.eq_of_fixed values kept, ih later fixed.2]

end

theorem storageValues_eq_rows (t : Table) (key : ColumnRef) :
    t.storageValues key = (t.rows key).map (List.map Prod.snd) := by
  rw [storageValues, rows]
  cases t.schema.indexOf key with
  | error e => rfl
  | ok position =>
    refine mapM_chunkValues (List.forall₂_same.2 fun c _ => ?_)
    rw [chunkRows_map, List.map_id_fun']
    exact (congrFun Except.map_id _).symm

/-- What a table reads that has the batches of another one, changed by a function of what is stored and of
the type of the array. A column that the function changes nowhere is the same, as one of logical values
also. -/
structure Reads (f : ArrayType → StorageValue → StorageValue) (u t : Table) : Prop where
  schema : t.schema = u.schema
  arraySchema : t.arraySchema = u.arraySchema
  values : ∀ key, t.storageValues key = (u.rows key).map (List.map fun p => f p.1 p.2)
  logical : ∀ key asked c, u.logicalColumn key asked = .ok c →
    ∃ d, t.logicalColumn key asked = .ok d ∧ c.Altered f d
  unchanged : ∀ key rows, u.rows key = .ok rows →
    (t.storageValues key = u.storageValues key ↔ ∀ p ∈ rows, f p.1 p.2 = p.2) ∧
    ((∀ p ∈ rows, f p.1 p.2 = p.2) → ∀ asked, t.logicalColumn key asked = u.logicalColumn key asked)

namespace Altered

variable {f : ArrayType → StorageValue → StorageValue} {t u : Table}

theorem chunksAt (h : Altered f u t) (position : Nat) :
    List.Forall₂ (fun x y => x.Altered (f x.type) y) (u.chunksAt position) (t.chunksAt position) := by
  rw [Table.chunksAt, Table.chunksAt]
  have batches := h.batches
  generalize u.batches = bs at batches
  generalize t.batches = ds at batches
  induction batches with
  | nil => exact .nil
  | @cons b d _ _ head _ ih =>
    rcases getElem?_forall₂ head position with ⟨hx, hy⟩ | ⟨x, y, hx, hy, altered⟩
    · rw [List.filterMap_cons_none (f := fun b : Batch => b.columns[position]?) hx,
        List.filterMap_cons_none (f := fun b : Batch => b.columns[position]?) hy]
      exact ih
    · rw [List.filterMap_cons_some (f := fun b : Batch => b.columns[position]?) hx,
        List.filterMap_cons_some (f := fun b : Batch => b.columns[position]?) hy]
      exact .cons altered ih

theorem isDictionary (h : Altered f u t) (position : Nat) :
    t.isDictionary position = u.isDictionary position := by
  rw [Table.isDictionary, Table.isDictionary, h.arraySchema]

theorem values (h : Altered f u t) (key : ColumnRef) :
    t.storageValues key = (u.rows key).map (List.map fun p => f p.1 p.2) := by
  rw [storageValues, rows, h.schema]
  cases u.schema.indexOf key with
  | error e => rfl
  | ok position =>
    change ((t.chunksAt position).mapM (chunkValues (t.isDictionary position))).map List.flatten = _
    rw [h.isDictionary]
    refine mapM_chunkValues ((h.chunksAt position).imp fun x y altered => ?_)
    rw [chunkRows_map]
    exact altered.chunkValues _

theorem logical (h : Altered f u t) {key : ColumnRef} {asked : ValueType} {c : LogicalColumn}
    (hc : u.logicalColumn key asked = .ok c) :
    ∃ d, t.logicalColumn key asked = .ok d ∧ c.Altered f d := by
  obtain ⟨position, place, hc⟩ := bind_eq_ok.1 hc
  obtain ⟨column, here, hc⟩ := bind_eq_ok.1 hc
  obtain ⟨type, typed, views⟩ := LogicalColumn.ofChunks_eq_ok.1 hc
  have seen := LogicalColumn.chunksFrom_eq_ok.1 views
  obtain ⟨qs, hqs, altered⟩ := seenAs_altered (h.chunksAt position) seen
  refine ⟨.ofViews c.type qs, ?_, LogicalColumn.altered_of_chunks rfl altered⟩
  rw [logicalColumn, h.schema, place, ok_bind, here, ok_bind]
  exact LogicalColumn.ofChunks_eq_ok.2 ⟨type, typed, LogicalColumn.chunksFrom_eq_ok.2 hqs⟩

theorem unchanged (h : Altered f u t) {key : ColumnRef} {rows : List (ArrayType × StorageValue)}
    (read : u.rows key = .ok rows) (fixed : ∀ p ∈ rows, f p.1 p.2 = p.2) (asked : ValueType) :
    t.logicalColumn key asked = u.logicalColumn key asked := by
  obtain ⟨position, place, found⟩ := bind_eq_ok.1 read
  obtain ⟨chunks, held, ⟨⟩⟩ := bind_eq_ok.1 found
  have kept := eq_of_chunkRows (h.chunksAt position) held fixed
  rw [logicalColumn, logicalColumn, h.schema, place, ok_bind, ok_bind, kept]

theorem reads (h : Altered f u t) : Reads f u t where
  schema := h.schema
  arraySchema := h.arraySchema
  values := h.values
  logical _ _ _ := h.logical
  unchanged key rows read := by
    refine ⟨?_, h.unchanged read⟩
    rw [h.values, storageValues_eq_rows, read]
    exact (Except.ok.injEq _ _).to_iff.trans List.map_inj_left

end Altered

section

theorem batchAt_altered {s : Sentinel} {fields : List Field} {columns : List (List Chunk)} {place : Nat}
    {d : Batch} (h : batchAt fields columns (some s) place = .ok d) :
    ∃ b, batchAt fields columns none place = .ok b ∧
      List.Forall₂ (fun x y => x.Altered (s.fill x.type) y) b.columns d.columns := by
  obtain ⟨b, hb, inserted⟩ := bind_eq_ok.1 h
  refine ⟨b, ?_, Batch.columns_mapColumns (fun _ _ => Chunk.altered_insertSentinel) inserted⟩
  rw [batchAt, hb]
  rfl

theorem takeBatch_altered {s : Sentinel} {width : Nat} {b d : Batch}
    (h : takeBatch width (some s) b = .ok d) :
    ∃ c, takeBatch width none b = .ok c ∧
      List.Forall₂ (fun x y => x.Altered (s.clear x.type) y) c.columns d.columns := by
  rw [takeBatch] at h
  split at h
  · cases h
  · next fits =>
    refine ⟨b, ?_, Batch.columns_mapColumns (fun _ _ => Chunk.altered_removeSentinel) h⟩
    rw [takeBatch, if_neg fits]
    rfl

variable {s : Sentinel} {r : Registry} {n : Nat} {t : Table}

theorem ofColumns_altered {schema : Schema} {columns : List (List Chunk)}
    (h : ofColumns schema columns r ⟨n, some s⟩ = .ok t) :
    ∃ u, ofColumns schema columns r ⟨n, none⟩ = .ok u ∧ Altered s.fill u t := by
  simp only [ofColumns] at h ⊢
  split at h
  · cases h
  · next counted =>
    rw [if_neg counted]
    split at h
    · cases h
    · obtain ⟨filled, hf, ⟨⟩⟩ := bind_eq_ok.1 h
      obtain ⟨plain, hp, altered⟩ := mapM_related (fun _ _ => batchAt_altered) hf
      exact ⟨⟨schema, schema.arraySchema r n, plain⟩, bind_eq_ok.2 ⟨plain, hp, rfl⟩, rfl, rfl,
        altered⟩

theorem ofBatches_altered {a : ArraySchema} {batches : List Batch}
    (h : ofBatches a batches r ⟨n, some s⟩ = .ok t) :
    ∃ u, ofBatches a batches r ⟨n, none⟩ = .ok u ∧ Altered s.clear u t := by
  obtain ⟨schema, hs, h⟩ := bind_eq_ok.1 h
  obtain ⟨cleared, hc, ⟨⟩⟩ := bind_eq_ok.1 h
  obtain ⟨plain, hp, altered⟩ := mapM_related (fun _ _ => takeBatch_altered) hc
  have taken : ofBatches a batches r ⟨n, none⟩ = .ok ⟨schema, a, plain⟩ :=
    bind_eq_ok.2 ⟨schema, hs, bind_eq_ok.2 ⟨plain, hp, rfl⟩⟩
  exact ⟨_, taken, rfl, rfl, altered⟩

theorem fields_batchAt {fields : List Field} {columns : List (List Chunk)} {sentinel : Option Sentinel}
    {place : Nat} {b : Batch} (h : batchAt fields columns sentinel place = .ok b) : b.fields = fields := by
  obtain ⟨d, hd, h⟩ := bind_eq_ok.1 h
  have plain := (Batch.ofColumns_eq_ok (orFail_eq_ok.1 hd)).1
  cases sentinel with
  | none =>
    cases h
    exact plain
  | some s => exact (Batch.fields_mapColumns h).trans plain

theorem ofColumns_eq_ok {schema : Schema} {columns : List (List Chunk)} {options : TableOptions}
    {u : Table} (h : ofColumns schema columns r options = .ok u) : u.schema = schema ∧
      u.arraySchema = schema.arraySchema r options.chunkSize ∧
      ∀ b ∈ u.batches, b.fields = u.arraySchema.fields := by
  simp only [ofColumns] at h
  split at h
  · cases h
  · split at h
    · cases h
    · obtain ⟨batches, made, ⟨⟩⟩ := bind_eq_ok.1 h
      refine ⟨rfl, rfl, fun b hb => ?_⟩
      obtain ⟨place, _, placed⟩ := exists_right (forall₂_of_mapM made).flip hb
      exact fields_batchAt placed

theorem fst_of_mem_rows {u : Table} {i : Nat} {read : List (ArrayType × StorageValue)}
    (hi : i < u.schema.size) (h : u.rows (.position i) = .ok read) {p : ArrayType × StorageValue}
    (hp : p ∈ read) : ∃ c ∈ u.chunksAt i, p.1 = c.type := by
  rw [rows, Schema.indexOf_position hi] at h
  obtain ⟨_, ⟨⟩, h⟩ := bind_eq_ok.1 h
  obtain ⟨chunks, held, ⟨⟩⟩ := bind_eq_ok.1 h
  obtain ⟨ps, hps, hp⟩ := List.mem_flatten.1 hp
  obtain ⟨c, hc, here⟩ := exists_right (forall₂_of_mapM held).flip hps
  obtain ⟨vs, _, rfl⟩ := map_eq_ok.1 here
  obtain ⟨v, _, rfl⟩ := List.mem_map.1 hp
  exact ⟨c, hc, rfl⟩

/-- The arrays of a column have the type of the column, that of dictionaries if it has a key width. -/
theorem rows_ofColumns {schema : Schema} {columns : List (List Chunk)} {u : Table}
    (h : ofColumns schema columns r ⟨n, none⟩ = .ok u) {i : Nat} {c : Column}
    (hc : schema.columns[i]? = some c) {read : List (ArrayType × StorageValue)}
    (hr : u.rows (.position i) = .ok read) :
    ∀ p ∈ read, p.1 = c.type.columnArrayType (c.type.dictKeyIn? r) := by
  intro p hp
  obtain ⟨same, arrays, fields⟩ := ofColumns_eq_ok h
  have hi : i < u.schema.size := same ▸ (List.getElem?_eq_some_iff.1 hc).1
  obtain ⟨d, hd, type⟩ := fst_of_mem_rows hi hr hp
  obtain ⟨b, hb, here⟩ := List.mem_filterMap.1 hd
  have field : b.fields[i]? = some (c.field (0 + i) r) := by
    rw [fields b hb, arrays, Schema.arraySchema, Column.getElem?_fields, hc]
    rfl
  obtain ⟨e, he, stored, _⟩ := b.column_of_field field
  cases he.symm.trans here
  rw [type, stored]
  rfl

end

/-- What a policy does to a table that is put together of columns or of batches. It succeeds only where
the table could be had without it, and changes what stands in arrays of integers, whatever the type of the
column is. The arrays that a table of columns has are those of their types. -/
theorem reads_sentinel (s : Sentinel) (r : Registry) (n : Nat) :
    (∀ schema columns t, ofColumns schema columns r ⟨n, some s⟩ = .ok t →
      ∃ u, ofColumns schema columns r ⟨n, none⟩ = .ok u ∧ Reads s.fill u t ∧
        ∀ (i : Nat) (c : Column) rows, schema.columns[i]? = some c → u.rows (.position i) = .ok rows →
          ∀ p ∈ rows, p.1 = c.type.columnArrayType (c.type.dictKeyIn? r)) ∧
    ∀ a batches t, ofBatches a batches r ⟨n, some s⟩ = .ok t →
      ∃ u, ofBatches a batches r ⟨n, none⟩ = .ok u ∧ Reads s.clear u t := by
  constructor
  · intro schema columns t h
    obtain ⟨u, hu, altered⟩ := ofColumns_altered h
    exact ⟨u, hu, altered.reads, fun i c rows hc => rows_ofColumns hu hc⟩
  · intro a batches t h
    obtain ⟨u, hu, altered⟩ := ofBatches_altered h
    exact ⟨u, hu, altered.reads⟩

def days : Converter := .mk "day" .int64 none .date

def daysSchema : Schema := ⟨[
  ⟨.plain .string, "row", none, by decide⟩,
  ⟨.logical "day" .int64 (some days), "due", none, by decide⟩]⟩

def daysRegistry : Registry := ⟨[days], by simp⟩

def daysColumns : List (List Chunk) :=
  [[⟨.leaf .utf8, [.text "first", .text "second"], by decide⟩],
    [⟨.leaf .int64, [.integer 3, .missing], by decide⟩]]

def daysArrays : ArraySchema := daysSchema.arraySchema daysRegistry 2

/-- The same rows with the first day of the epoch in place of none. -/
def daysBatch : Batch where
  fields := daysArrays.fields
  first := ⟨.leaf .utf8, [.text "first", .text "second"], by decide⟩
  rest := [⟨.leaf .int64, [.integer 3, .integer 0], by decide⟩]
  stored := rfl

theorem reads_sentinel_days :
    ∃ t u v w, ofColumns daysSchema daysColumns daysRegistry ⟨2, some (.value 0)⟩ = .ok t ∧
      ofColumns daysSchema daysColumns daysRegistry ⟨2, none⟩ = .ok u ∧
      Reads (Sentinel.value 0).fill u t ∧
      (∀ rows, u.rows (.position 1) = .ok rows → ∀ p ∈ rows, p.1 = .leaf .int64) ∧
      ofBatches daysArrays [daysBatch] daysRegistry ⟨2, some (.value 0)⟩ = .ok v ∧
      ofBatches daysArrays [daysBatch] daysRegistry ⟨2, none⟩ = .ok w ∧
      Reads (Sentinel.value 0).clear w v := by
  obtain ⟨u, hu, filled, types⟩ :=
    (reads_sentinel (.value 0) daysRegistry 2).1 daysSchema daysColumns _ rfl
  obtain ⟨w, hw, cleared⟩ := (reads_sentinel (.value 0) daysRegistry 2).2 daysArrays [daysBatch] _ rfl
  exact ⟨_, u, _, w, rfl, hu, filled, fun rows => types 1 _ rows rfl, rfl, hw, cleared⟩

/-- A missing day, for which zero stands, is read as the first day of the epoch. -/
theorem filled_days :
    let fourth : Option Value := some (.date ⟨1970, 1, 4, by decide⟩)
    let first : Option Value := some (.date ⟨1970, 1, 1, by decide⟩)
    ∃ t u, ofColumns daysSchema daysColumns daysRegistry ⟨2, some (.value 0)⟩ = .ok t ∧
      ofColumns daysSchema daysColumns daysRegistry ⟨2, none⟩ = .ok u ∧
      u.storageValues (.position 1) = .ok [.long 3, .null] ∧
      t.storageValues (.position 1) = .ok [.long 3, .long 0] ∧
      (u.logicalColumn (.position 1) .date >>= LogicalColumn.decodeAll) = .ok [fourth, none] ∧
      (t.logicalColumn (.position 1) .date >>= LogicalColumn.decodeAll) = .ok [fourth, first] :=
  ⟨_, _, rfl, rfl, rfl, rfl, rfl, rfl⟩

end Table
end LogicalTable
