/-! Metadata of fields and schemas: texts under keys. Entries are kept in the order of their keys,
so that metadata are equal exactly when they have the same entries. -/
namespace LogicalTable

structure Metadata where
  entries : List (String × String)
  ordered : entries.Pairwise fun a b => a.1 < b.1
  deriving DecidableEq, Repr

namespace Metadata

def empty : Metadata := ⟨[], .nil⟩

def insertEntry (key value : String) : List (String × String) → List (String × String)
  | [] => [(key, value)]
  | (k, v) :: es =>
    if key < k then (key, value) :: (k, v) :: es
    else if key = k then (key, value) :: es
    else (k, v) :: insertEntry key value es

theorem mem_insertEntry {key value : String} {e : String × String} {es : List (String × String)}
    (h : e ∈ insertEntry key value es) : e = (key, value) ∨ e ∈ es := by
  induction es with
  | nil => simpa [insertEntry] using h
  | cons f fs ih => grind [insertEntry]

theorem ordered_insertEntry {key value : String} {es : List (String × String)}
    (h : es.Pairwise fun a b => a.1 < b.1) :
    (insertEntry key value es).Pairwise fun a b => a.1 < b.1 := by
  induction es with
  | nil => simp [insertEntry]
  | cons f fs ih =>
    obtain ⟨k, v⟩ := f
    obtain ⟨hf, hfs⟩ := List.pairwise_cons.1 h
    rw [insertEntry]
    split
    · next hk =>
      refine .cons (fun e he => ?_) h
      rcases List.mem_cons.1 he with rfl | he
      · exact hk
      · exact String.lt_trans hk (hf e he)
    · split
      · next hk => exact .cons (fun e he => hk ▸ hf e he) hfs
      · next hlt hne =>
        refine .cons (fun e he => ?_) (ih hfs)
        rcases mem_insertEntry he with rfl | he
        · exact Classical.byContradiction fun h =>
            hne (String.le_antisymm (String.not_lt.1 h) (String.not_lt.1 hlt))
        · exact hf e he

def insert (m : Metadata) (key value : String) : Metadata :=
  ⟨insertEntry key value m.entries, ordered_insertEntry m.ordered⟩

/-- The later of two texts under one key stays. -/
def ofList (es : List (String × String)) : Metadata :=
  es.foldl (fun m (key, value) => m.insert key value) empty

def get? (m : Metadata) (key : String) : Option String :=
  (m.entries.find? (·.1 = key)).map Prod.snd

theorem find?_insertEntry (key value k : String) (es : List (String × String)) :
    (insertEntry key value es).find? (·.1 = k) =
      if key = k then some (key, value) else es.find? (·.1 = k) := by
  induction es with
  | nil => by_cases h : key = k <;> simp [insertEntry, h]
  | cons f fs ih => grind [insertEntry]

theorem get?_insert (m : Metadata) (key value k : String) :
    (m.insert key value).get? k = if key = k then some value else m.get? k := by
  simp only [get?, insert, find?_insertEntry]
  split <;> rfl

theorem get?_empty (key : String) : empty.get? key = none := rfl

end Metadata
end LogicalTable
