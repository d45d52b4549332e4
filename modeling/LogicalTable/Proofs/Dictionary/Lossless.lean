import LogicalTable.Proofs.Dictionary.Slots

/-! Runs of one source of keys over several chunks. Every chunk gives back its values and stores
each of them once, under a key that no other value of the run has. -/
namespace LogicalTable

open KeySource (rowAt encodedCells number?)

def Chunk.key? (c : Chunk) (row : Nat) : Option Int := c.cells[row]?.bind Cell.key?

def Chunk.keys (c : Chunk) : List Int := c.cells.filterMap Cell.key?

/-- What a chunk holds as a dictionary of values: each of them, in its row; one key for each value
that is there; and the value itself in its first row alone. -/
structure Encodes (c : Chunk) (vs : List StorageValue) : Prop where
  readable : ∃ d, Dictionary.ofChunk c = .ok d ∧ d.size = vs.length ∧
    d.distinctCount = (distinctValues vs).length ∧
    ∀ i (h : i < vs.length), d.read i = .ok vs[i] ∧ (d.isMissing i = true ↔ vs[i] = .null) ∧
      d.valueAt (some i) = .ok (if vs.idxOf vs[i] = i then vs[i] else .null)
  keyed : ∀ i (h : i < vs.length), c.key? i = none ↔ vs[i] = .null
  sameKey : ∀ i j (hi : i < vs.length) (hj : j < vs.length), vs[i] ≠ .null → vs[j] ≠ .null →
    (c.key? i = c.key? j ↔ vs[i] = vs[j])

theorem firstRow?_eq_none {vs : List StorageValue} {v : StorageValue} :
    firstRow? vs v = none ↔ v = .null := by
  rw [firstRow?, ← StorageValue.isNull_iff]
  by_cases h : v.isNull = true
  · simp [h]
  · simp [h]

theorem filterMap_firstRow? (vs us : List StorageValue) :
    us.filterMap (firstRow? vs) = (us.filter StorageValue.isPresent).map fun v => vs.idxOf v := by
  induction us with
  | nil => rfl
  | cons u us ih =>
    by_cases h : u.isNull = true
    · have absent : ¬ u.isPresent = true := by
        rw [StorageValue.isPresent, h]
        decide
      have nowhere : firstRow? vs u = none := if_pos h
      rw [List.filterMap_cons_none nowhere, List.filter_cons_of_neg absent, ih]
    · have present : u.isPresent = true := by
        rw [StorageValue.isPresent, Bool.eq_false_iff.2 h]
        rfl
      have place : firstRow? vs u = some (vs.idxOf u) := if_neg h
      rw [List.filterMap_cons_some place, List.filter_cons_of_pos present, List.map_cons, ih]

/-- There are as many first rows as values. -/
theorem length_firstRows (vs : List StorageValue) :
    ((vs.map (firstRow? vs)).filterMap id).eraseDups.length = (distinctValues vs).length := by
  rw [List.filterMap_map, Function.id_comp, filterMap_firstRow?, eraseDups_map, List.length_map]
  · rfl
  · intro a ha b _ h
    exact (List.idxOf_inj (List.mem_filter.1 ha).1).1 h

section Chunk

variable {start : Nat} {width : DictKey} {t : DataType} {vs : List StorageValue} {c : Chunk}

theorem Chunk.key?_eq (slots : c.cells = encodedCells start width t.arrayType vs)
    (room : start + (distinctValues vs).length ≤ width.maxKey + 1) {i : Nat} (h : i < vs.length) :
    c.key? i = number? start vs vs[i] := by
  have hc : i < (encodedCells start width t.arrayType vs).length := by
    rwa [length_encodedCells]
  rw [Chunk.key?, slots, List.getElem?_eq_getElem hc, getElem_encodedCells t.arrayType h hc,
    Option.bind_some, KeySource.key?_rowAt room (List.getElem_mem h)]

theorem valueAt_eq (slots : c.cells = encodedCells start width t.arrayType vs)
    (admitted : ∀ v ∈ vs, t.admits v = true) {i : Nat} (h : i < vs.length)
    (positions : List (Option Nat)) :
    Dictionary.valueAt ⟨c, t.arrayType, positions⟩ (some i) =
      .ok (if vs.idxOf vs[i] = i then vs[i] else .null) := by
  have hc : i < (encodedCells start width t.arrayType vs).length := by
    rwa [length_encodedCells]
  have held : t.admits (rowAt start vs i vs[i]).value = true := by
    rw [KeySource.value_rowAt]
    by_cases first : vs.idxOf vs[i] = i
    · rw [if_pos first]
      exact admitted _ (List.getElem_mem h)
    · rw [if_neg first]
      exact t.admits_null
  rw [Dictionary.valueAt]
  dsimp only
  rw [slots, List.getElem?_eq_getElem hc, getElem_encodedCells t.arrayType h hc,
    ← KeySource.value_rowAt start]
  exact t.read_store held

theorem read_eq (slots : c.cells = encodedCells start width t.arrayType vs)
    (admitted : ∀ v ∈ vs, t.admits v = true) {i : Nat} (h : i < vs.length) :
    Dictionary.read ⟨c, t.arrayType, vs.map (firstRow? vs)⟩ i = .ok vs[i] := by
  rw [Dictionary.read]
  dsimp only
  rw [List.getElem?_map, List.getElem?_eq_getElem h, Option.map_some]
  dsimp only
  by_cases hn : vs[i].isNull = true
  · rw [firstRow?, if_pos hn, StorageValue.isNull_iff.1 hn]
    rfl
  · have place := List.idxOf_lt_length_of_mem (List.getElem_mem h)
    have there : vs[vs.idxOf vs[i]] = vs[i] := List.getElem_idxOf place
    have value := valueAt_eq slots admitted place (vs.map (firstRow? vs))
    rw [firstRow?, if_neg hn, value, there, if_pos rfl]

theorem Encodes.of_cells (type : c.type = .dictionary width t.arrayType)
    (slots : c.cells = encodedCells start width t.arrayType vs)
    (room : start + (distinctValues vs).length ≤ width.maxKey + 1)
    (admitted : ∀ v ∈ vs, t.admits v = true) : Encodes c vs where
  readable := by
    refine ⟨_, ofChunk_eq type slots room admitted, List.length_map _, length_firstRows vs, ?_⟩
    intro i h
    refine ⟨read_eq slots admitted h, ?_, valueAt_eq slots admitted h _⟩
    rw [Dictionary.isMissing, List.getElem?_map, List.getElem?_eq_getElem h, Option.map_some,
      beq_iff_eq, Option.some.injEq, firstRow?_eq_none]
  keyed := by
    intro i h
    rw [Chunk.key?_eq slots room h, number?, ← StorageValue.isNull_iff]
    by_cases hn : vs[i].isNull = true
    · simp [hn]
    · simp [hn]
  sameKey := by
    intro i j hi hj ni nj
    rw [Chunk.key?_eq slots room hi, Chunk.key?_eq slots room hj]
    constructor
    · exact KeySource.number?_inj nj (List.getElem_mem hi)
    · exact congrArg _

/-- The keys of a chunk are those that were drawn for it. -/
theorem Chunk.keys_range (slots : c.cells = encodedCells start width t.arrayType vs)
    (room : start + (distinctValues vs).length ≤ width.maxKey + 1) {k : Int} (hk : k ∈ c.keys) :
    start ≤ k ∧ k < (start + (distinctValues vs).length : Nat) := by
  obtain ⟨x, hx, hxk⟩ := List.mem_filterMap.1 hk
  have there : some k ∈ (encodedCells start width t.arrayType vs).map Cell.key? :=
    List.mem_map.2 ⟨x, slots ▸ hx, hxk⟩
  rw [KeySource.map_key?_encodedCells room] at there
  obtain ⟨v, hv, hvk⟩ := List.mem_map.1 there
  rw [number?] at hvk
  by_cases hn : v.isNull = true
  · rw [if_pos hn] at hvk
    cases hvk
  · have place := List.idxOf_lt_length_of_mem
      (mem_distinctValues.2 ⟨hv, fun e => hn (StorageValue.isNull_iff.2 e)⟩)
    rw [if_neg hn] at hvk
    cases hvk
    omega

end Chunk

/-- Encodes chunks one after the other with one source of keys, up to the first that fails. -/
def KeySource.encodeAll (s : KeySource) (value : ArrayType) :
    List (List StorageValue) → KeySource × Except Error (List Chunk)
  | [] => (s, .ok [])
  | vs :: vss =>
    match s.encode value vs with
    | (s, .error e) => (s, .error e)
    | (s, .ok c) =>
      let (s, rest) := s.encodeAll value vss
      (s, rest.map (c :: ·))

/-- How many keys a run needs: one for each distinct value of each chunk. -/
def keysNeeded : List (List StorageValue) → Nat
  | [] => 0
  | vs :: vss => (distinctValues vs).length + keysNeeded vss

/-- A run of chunks. Later chunks only have keys that are still to be drawn. -/
theorem encodeAll_from {t : DataType} {vss : List (List StorageValue)}
    (admitted : ∀ vs ∈ vss, ∀ v ∈ vs, t.admits v = true) {s : KeySource}
    (room : s.next.toNat + keysNeeded vss ≤ s.key.maxKey) :
    ∃ e chunks, s.encodeAll t.arrayType vss = (e, .ok chunks) ∧
      List.Forall₂ Encodes chunks vss ∧
      (∀ c ∈ chunks, ∀ k ∈ c.keys, (s.next.toNat : Int) ≤ k) ∧
      chunks.Pairwise fun a b => ∀ k ∈ a.keys, k ∉ b.keys := by
  induction vss generalizing s with
  | nil => exact ⟨s, [], rfl, .nil, fun _ h => (List.not_mem_nil h).elim, .nil⟩
  | cons vs vss ih =>
    obtain ⟨first, rest⟩ := List.forall_mem_cons.1 admitted
    rw [keysNeeded] at room
    have enough : s.next.toNat + (distinctValues vs).length ≤ s.key.maxKey + 1 := by
      omega
    obtain ⟨c, hc, type, slots⟩ := KeySource.encode_eq first enough
    have counter : (UInt64.ofNat (s.next.toNat + (distinctValues vs).length)).toNat =
        s.next.toNat + (distinctValues vs).length := by
      have word := s.key.maxKey_lt
      rw [UInt64.toNat_ofNat', Nat.mod_eq_of_lt (by omega)]
    obtain ⟨e, chunks, he, encoded, later, apart⟩ := ih rest
      (s := { s with next := UInt64.ofNat (s.next.toNat + (distinctValues vs).length) })
      (by dsimp only; omega)
    dsimp only at later
    rw [counter] at later
    refine ⟨e, c :: chunks, ?_, .cons (.of_cells type slots enough first) encoded, ?_, ?_⟩
    · rw [KeySource.encodeAll, hc]
      dsimp only
      rw [he]
      rfl
    · intro d hd k hk
      rcases List.mem_cons.1 hd with rfl | hd
      · exact (Chunk.keys_range slots enough hk).1
      · have := later d hd k hk
        omega
    · refine .cons (fun d hd k hk other => ?_) apart
      have below := (Chunk.keys_range slots enough hk).2
      have above := later d hd k other
      omega

/-- As long as one source has keys left, every chunk of a run is encoded without loss, and no two
chunks share a key. -/
theorem KeySource.encodeAll_lossless {t : DataType} {vss : List (List StorageValue)} {s : KeySource}
    (admitted : ∀ vs ∈ vss, ∀ v ∈ vs, t.admits v = true)
    (room : s.next.toNat + keysNeeded vss ≤ s.key.maxKey) :
    ∃ e chunks, s.encodeAll t.arrayType vss = (e, .ok chunks) ∧ List.Forall₂ Encodes chunks vss ∧
      chunks.Pairwise fun a b => ∀ k ∈ a.keys, k ∉ b.keys := by
  obtain ⟨e, chunks, he, encoded, _, apart⟩ := encodeAll_from admitted room
  exact ⟨e, chunks, he, encoded, apart⟩

theorem KeySource.encodeAll_lossless_byte :
    ∃ e chunks, (⟨.byte, 250⟩ : KeySource).encodeAll (DataType.plain .string).arrayType
        [[.string "a", .null, .string "b", .string "a"], [], [.string "a"]] = (e, .ok chunks) ∧
      List.Forall₂ Encodes chunks
        [[.string "a", .null, .string "b", .string "a"], [], [.string "a"]] ∧
      chunks.Pairwise fun a b => ∀ k ∈ a.keys, k ∉ b.keys :=
  KeySource.encodeAll_lossless (by decide) (by decide)

end LogicalTable
