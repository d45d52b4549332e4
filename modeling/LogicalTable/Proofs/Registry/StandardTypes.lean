import LogicalTable.Proofs.Exchange.Tolerances
import LogicalTable.Proofs.Registry.Runs
import LogicalTable.Registry.BuiltIn
import Mathlib.Data.List.Nodup

/-! Registries of the standard types. Their identifiers are different, so that none of them is in the way of
another one, and the standard registry holds one converter for each entry, in the order of the entries. -/
namespace LogicalTable

theorem factoryId_injective : Function.Injective factoryId := by
  intro a b same
  have name := Exchange.factoryClass?_factoryId a
  rw [same, Exchange.factoryClass?_factoryId] at name
  exact (Option.some.inj name).symm

namespace Registry

/-- A registry that comes from the empty one by registering the factories of the standard entries, under
any identifiers, in any order and as often as one likes. -/
inductive Obtained : Registry → Prop where
  | empty : Obtained empty
  | register {r s : Registry} {e : Entry} {id : String} {key : Option DictKey} {c : Converter} :
      Obtained r → e ∈ builtInEntries ++ geoEntries →
      r.registerShape id e.storage key e.factory = .ok (s, c) → Obtained s

variable {r s : Registry} {c d : Converter} {es : List Entry}

/-- A registration adds at most the converter that it asks for. -/
theorem mem_of_registerShape {id : String} {t : Shape} {key : Option DictKey} {f : ValueFactory}
    (h : r.registerShape id t key f = .ok (s, d)) (hc : c ∈ s.converters) :
    c ∈ r.converters ∨ c = .mk id t key f := by
  cases found : r.find? id with
  | some e =>
    rw [registerShape_known found] at h
    split at h
    · cases h
      exact Or.inl hc
    · cases h
  | none =>
    rw [registerShape_new found] at h
    cases h
    rcases List.mem_append.1 hc with old | new
    · exact Or.inl old
    · exact Or.inr (List.mem_singleton.1 new)

theorem Obtained.registerAll (h : Obtained r) (entries : ∀ e ∈ es, e ∈ builtInEntries ++ geoEntries) :
    Obtained (r.registerAll es).1 := by
  induction es generalizing r with
  | nil => exact h
  | cons e es ih =>
    obtain ⟨first, rest⟩ := List.forall_mem_cons.1 entries
    rw [Registry.registerAll]
    split
    · next step => exact ih (h.register first step) rest
    · exact h

theorem obtained_standard : Obtained standard := by
  rw [standard, builtIn]
  apply Obtained.registerAll
  · apply Obtained.registerAll .empty
    intro e he
    exact List.mem_append_left _ he
  · intro e he
    exact List.mem_append_right _ he

def Entry.converter (e : Entry) : Converter := .mk e.id e.storage e.dictKey e.factory

/-- Entries under new identifiers are registered in their order. -/
theorem converters_registerAll (new : ∀ e ∈ es, e.id ∉ r.ids) (distinct : (es.map Entry.id).Nodup) :
    (r.registerAll es).1.converters = r.converters ++ es.map Entry.converter := by
  induction es generalizing r with
  | nil => exact (List.append_nil _).symm
  | cons e es ih =>
    obtain ⟨first, rest⟩ := List.forall_mem_cons.1 new
    obtain ⟨other, distinct⟩ := List.nodup_cons.1 distinct
    have unknown : r.find? e.id = none := find?_eq_none.2 first
    have added : (r.push e.converter unknown).converters = r.converters ++ [e.converter] := rfl
    have later : ∀ f ∈ es, f.id ∉ (r.push e.converter unknown).ids := by
      intro f hf known
      rw [ids, added, List.map_append, List.mem_append] at known
      rcases known with old | last
      · exact rest f hf old
      · have same : f.id = e.id := List.mem_singleton.1 last
        exact other (same ▸ List.mem_map_of_mem hf)
    rw [Registry.registerAll, registerShape_new unknown]
    have all := ih later distinct
    rw [added, List.append_assoc] at all
    exact all

def standardClasses : List String :=
  ["LocalDateValueFactory", "LocalTimeValueFactory", "LocalDateTimeValueFactory", "DurationValueFactory",
    "ZonedDateTimeValueFactory2"].map ("org.knime.core.data.v2.time." ++ ·) ++
  ["org.knime.filehandling.core.data.location.FSLocationValueFactory"] ++
  ["GeoPointCell", "GeoLineCell", "GeoPolygonCell", "GeoMultiPointCell", "GeoMultiLineCell",
    "GeoMultiPolygonCell", "GeoCollectionCell"].map geoClass

theorem ids_entries : (builtInEntries ++ geoEntries).map Entry.id = standardClasses.map factoryId := rfl

theorem distinct_standardClasses : standardClasses.Nodup := by decide +kernel

theorem converters_standard :
    standard.converters = (builtInEntries ++ geoEntries).map Entry.converter := by
  have distinct : ((builtInEntries ++ geoEntries).map Entry.id).Nodup := by
    rw [ids_entries]
    exact List.Nodup.map factoryId_injective distinct_standardClasses
  rw [List.map_append, List.nodup_append] at distinct
  obtain ⟨times, geometries, apart⟩ := distinct
  have first : builtIn.converters = builtInEntries.map Entry.converter := by
    rw [builtIn]
    exact converters_registerAll (fun _ _ => List.not_mem_nil) times
  rw [standard, converters_registerAll ?_ geometries, first, List.map_append]
  intro e he
  rw [ids, first, List.map_map]
  intro known
  exact apart _ known _ (List.mem_map_of_mem he) rfl

end Registry
end LogicalTable
