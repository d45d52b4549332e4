import LogicalTable.Proofs.Dictionary.Room
import LogicalTable.Table.Basic
import Mathlib.Data.List.Forall2

/-! The chunks of a column, which are written batch by batch, and the values that a table reads from
them. -/
namespace LogicalTable

/-- A chunk of values, as a column of a type and a key width has it. -/
structure Chunk.Stores (key : Option DictKey) (t : DataType) (c : Chunk) (vs : List StorageValue) :
    Prop where
  type : c.type = t.columnArrayType key
  size : c.size = vs.length
  values : Table.chunkValues key.isSome c = .ok vs

section

variable {t : DataType} {vs : List StorageValue} (admitted : ∀ v ∈ vs, t.admits v = true)
include admitted

theorem Chunk.stores_build : ∃ c, Chunk.build t.arrayType vs = .ok c ∧ c.Stores none t vs := by
  obtain ⟨c, hc, type, size, stored⟩ := Chunk.build_admitted admitted
  refine ⟨c, hc, type, size, ?_⟩
  have values : c.values = .ok vs := by
    rw [Chunk.values, stored, type]
    exact mapM_map_eq_ok fun v hv => t.read_store (admitted v hv)
  exact orFail_eq_ok.2 values

theorem KeySource.stores_encode {s : KeySource}
    (room : s.next.toNat + (distinctValues vs).length ≤ s.key.maxKey + 1) :
    ∃ c, s.encode t.arrayType vs =
        ({ s with next := UInt64.ofNat (s.next.toNat + (distinctValues vs).length) }, .ok c) ∧
      c.Stores (some s.key) t vs := by
  obtain ⟨c, hc, type, size, slots, located⟩ := encode_readable admitted room
  refine ⟨c, hc, type, size, ?_⟩
  have values : Dictionary.values ⟨c, t.arrayType, vs.map (firstRow? vs)⟩ = .ok vs := by
    refine mapM_map_eq_ok fun v hv => ?_
    have place := List.idxOf_lt_length_of_mem hv
    have there : vs[vs.idxOf v] = v := List.getElem_idxOf place
    have read := read_eq slots admitted place
    rw [Dictionary.read] at read
    dsimp only at read
    rwa [List.getElem?_map, List.getElem?_eq_getElem place, Option.map_some, there] at read
  rw [Table.chunkValues, Option.isSome_some, if_pos rfl, located]
  exact orFail_eq_ok.2 values

end

/-- A whole run that succeeded, with a counter that did not wrap. -/
theorem KeySource.stores_encodeAll {t : DataType} {vss : List (List StorageValue)}
    (admitted : ∀ vs ∈ vss, ∀ v ∈ vs, t.admits v = true) {s e : KeySource} {chunks : List Chunk}
    (word : s.next.toNat + keysNeeded vss < 0x10000000000000000)
    (before : s.next.toNat ≤ s.key.maxKey + 1)
    (encoded : s.encodeAll t.arrayType vss = (e, .ok chunks)) :
    List.Forall₂ (Chunk.Stores (some s.key) t) chunks vss := by
  induction vss generalizing s chunks with
  | nil =>
    cases encoded
    exact .nil
  | cons vs vss ih =>
    obtain ⟨first, rest⟩ := List.forall_mem_cons.1 admitted
    rw [keysNeeded] at word
    rw [encodeAll] at encoded
    cases drawn : s.encode t.arrayType vs with
    | mk u outcome =>
      rw [drawn] at encoded
      cases outcome with
      | error _ => cases encoded
      | ok c =>
        have room := room_of_encode (by omega) before drawn
        obtain ⟨d, hd, stores⟩ := KeySource.stores_encode first room
        obtain ⟨rfl, ⟨⟩⟩ := Prod.mk.inj (drawn.symm.trans hd)
        obtain ⟨cs, run, rfl⟩ := ok_of_map encoded
        generalize hn : UInt64.ofNat (s.next.toNat + (distinctValues vs).length) = next at run
        have counter : next.toNat = s.next.toNat + (distinctValues vs).length := by
          rw [← hn, UInt64.toNat_ofNat', Nat.mod_eq_of_lt (by omega)]
        have left : next.toNat + keysNeeded vss < 0x10000000000000000 := by omega
        exact .cons stores (ih rest (s := ⟨s.key, next⟩) left (counter ▸ room) run)

namespace Column

/-- Writes the values of a column, batch by batch. A column with a key width gets dictionaries, all
of them with keys from one source. -/
def write (r : Registry) (c : Column) (batches : List (List StorageValue)) :
    Except Error (List Chunk) :=
  match c.type.dictKeyIn? r with
  | none => batches.mapM (Chunk.build c.type.arrayType)
  | some key => ((KeySource.fresh key).encodeAll c.type.arrayType batches).2

/-- Values of a column for batches of given lengths, for which keys last if any are needed. -/
structure Writable (r : Registry) (lengths : List Nat) (c : Column)
    (batches : List (List StorageValue)) : Prop where
  lengths : batches.map List.length = lengths
  admitted : ∀ vs ∈ batches, ∀ v ∈ vs, c.type.admits v = true
  encoded : ∀ key, c.type.dictKeyIn? r = some key → ∃ chunks, c.write r batches = .ok chunks

theorem Writable.of_room {r : Registry} {lengths : List Nat} {c : Column}
    {batches : List (List StorageValue)} (cut : batches.map List.length = lengths)
    (admitted : ∀ vs ∈ batches, ∀ v ∈ vs, c.type.admits v = true)
    (room : ∀ key, c.type.dictKeyIn? r = some key → keysNeeded batches ≤ key.maxKey) :
    c.Writable r lengths batches := by
  refine ⟨cut, admitted, fun key hk => ?_⟩
  have left : (KeySource.fresh key).next.toNat + keysNeeded batches ≤ key.maxKey := by
    have := room key hk
    rwa [KeySource.fresh, UInt64.toNat_zero, Nat.zero_add]
  obtain ⟨_, chunks, encoded, _⟩ := encodeAll_from (s := .fresh key) admitted left
  refine ⟨chunks, ?_⟩
  rw [Column.write, hk]
  exact congrArg Prod.snd encoded

theorem Writable.write {r : Registry} {lengths : List Nat} {c : Column}
    {batches : List (List StorageValue)} (h : c.Writable r lengths batches)
    (rows : lengths.foldr (· + ·) 0 < 0x10000000000000000) :
    ∃ chunks, c.write r batches = .ok chunks ∧
      List.Forall₂ (Chunk.Stores (c.type.dictKeyIn? r) c.type) chunks batches := by
  have admitted := h.admitted
  have encoded := h.encoded
  have needed : keysNeeded batches ≤ lengths.foldr (· + ·) 0 := h.lengths ▸ keysNeeded_le batches
  clear h
  rw [Column.write] at encoded ⊢
  cases hk : c.type.dictKeyIn? r with
  | none =>
    obtain ⟨chunks, hc, stores⟩ := mapM_forall₂ fun vs hvs => Chunk.stores_build (admitted vs hvs)
    exact ⟨chunks, hc, stores.flip⟩
  | some key =>
    obtain ⟨chunks, hc⟩ := encoded key hk
    rw [hk] at hc
    refine ⟨chunks, hc, ?_⟩
    have zero : (KeySource.fresh key).next.toNat = 0 := rfl
    refine KeySource.stores_encodeAll (s := .fresh key) admitted ?_ ?_ (Prod.ext rfl hc)
    · omega
    · omega

end Column
end LogicalTable
