import LogicalTable.Proofs.Outcome
import LogicalTable.Proofs.Registry.StandardTypes

/-! Which storage values the standard factories decode. A decoded value has the shape that the factory is
registered with, except that no factory looks at the type of a zone's text, and the one for geometries
takes whatever is not a string for a missing reference system. Such a member is as good as a missing one. -/
namespace LogicalTable

namespace ValueFactory

section Fields

variable {what : String} {arity i : Nat} {s : StorageValue} {vs : List StorageValue}

theorem fields_eq_ok : fields what arity s = .ok vs ↔ s = .struct vs ∧ vs.length = arity := by
  cases s with
  | struct ms =>
    simp only [fields, StorageValue.struct.injEq]
    constructor
    · intro h
      split at h
      · next size =>
        cases h
        exact ⟨rfl, size⟩
      · cases h
    · rintro ⟨rfl, size⟩
      exact if_pos size
  | _ => simp [fields]

theorem longField_eq_ok {n : Int64} : longField what vs i = .ok n ↔ vs[i]? = some (.long n) := by
  unfold longField
  split <;> simp_all

theorem intField_eq_ok {n : Int32} : intField what vs i = .ok n ↔ vs[i]? = some (.int n) := by
  unfold intField
  split <;> simp_all

theorem stringField_eq_ok {v : StorageValue} {t : Option String} (h : vs[i]? = some v) :
    stringField what vs i = .ok t ↔ v = (t.map .string).getD .null := by
  unfold stringField
  rw [h]
  cases v <;> cases t <;> simp

end Fields

section Shapes

variable {s : StorageValue} {v : Value}

theorem shape_of_date (h : date.decode s = .ok v) : ∃ n, s = .long n := by
  cases s with
  | long n => exact ⟨n, rfl⟩
  | _ => cases h

theorem shape_of_time (h : time.decode s = .ok v) : ∃ n, s = .long n := by
  cases s with
  | long n => exact ⟨n, rfl⟩
  | _ => cases h

theorem longs_of_dateTimeOfFields {what : String} {vs : List StorageValue} {t : DateTime}
    (h : dateTimeOfFields what vs = .ok t) :
    ∃ day nano, vs[0]? = some (.long day) ∧ vs[1]? = some (.long nano) := by
  obtain ⟨day, hday, h⟩ := bind_eq_ok.1 h
  obtain ⟨_, _, h⟩ := bind_eq_ok.1 h
  obtain ⟨nano, hnano, _⟩ := bind_eq_ok.1 h
  exact ⟨day, nano, longField_eq_ok.1 hday, longField_eq_ok.1 hnano⟩

theorem shape_of_dateTime (h : dateTime.decode s = .ok v) :
    ∃ day nano, s = .struct [.long day, .long nano] := by
  obtain ⟨vs, hvs, rest⟩ := bind_eq_ok.1 h
  obtain ⟨rfl, size⟩ := fields_eq_ok.1 hvs
  obtain ⟨t, ht, _⟩ := bind_eq_ok.1 rest
  obtain ⟨day, nano, hday, hnano⟩ := longs_of_dateTimeOfFields ht
  obtain ⟨a, b, rfl⟩ := List.length_eq_two.1 size
  cases hday
  cases hnano
  exact ⟨day, nano, rfl⟩

theorem shape_of_zonedDateTime (h : zonedDateTime.decode s = .ok v) :
    ∃ day nano offset zone, s = .struct [.long day, .long nano, .int offset, zone] := by
  obtain ⟨vs, hvs, rest⟩ := bind_eq_ok.1 h
  obtain ⟨rfl, size⟩ := fields_eq_ok.1 hvs
  obtain ⟨t, ht, rest⟩ := bind_eq_ok.1 rest
  obtain ⟨offset, hoffset, _⟩ := bind_eq_ok.1 rest
  obtain ⟨day, nano, hday, hnano⟩ := longs_of_dateTimeOfFields ht
  have third := intField_eq_ok.1 hoffset
  match vs, size with
  | [a, b, c, zone], _ =>
    cases hday
    cases hnano
    cases third
    exact ⟨day, nano, offset, zone, rfl⟩

theorem shape_of_duration (h : duration.decode s = .ok v) :
    ∃ seconds nanos, s = .struct [.long seconds, .int nanos] := by
  obtain ⟨vs, hvs, rest⟩ := bind_eq_ok.1 h
  obtain ⟨rfl, size⟩ := fields_eq_ok.1 hvs
  obtain ⟨seconds, hseconds, rest⟩ := bind_eq_ok.1 rest
  obtain ⟨nanos, hnanos, _⟩ := bind_eq_ok.1 rest
  have first := longField_eq_ok.1 hseconds
  have second := intField_eq_ok.1 hnanos
  obtain ⟨a, b, rfl⟩ := List.length_eq_two.1 size
  cases first
  cases second
  exact ⟨seconds, nanos, rfl⟩

theorem shape_of_fileLocation (h : fileLocation.decode s = .ok v) : ∃ category specifier path,
    s = .struct [.string category, ((specifier : Option String).map .string).getD .null, .string path] := by
  obtain ⟨vs, hvs, rest⟩ := bind_eq_ok.1 h
  obtain ⟨rfl, size⟩ := fields_eq_ok.1 hvs
  obtain ⟨a, b, c, rfl⟩ := List.length_eq_three.1 size
  obtain ⟨category?, hcategory, rest⟩ := bind_eq_ok.1 rest
  cases category? with
  | none => cases rest
  | some category =>
    obtain ⟨path?, hpath, rest⟩ := bind_eq_ok.1 rest
    cases path? with
    | none => cases rest
    | some path =>
      obtain ⟨specifier, hspecifier, _⟩ := bind_eq_ok.1 rest
      have first := (stringField_eq_ok rfl).1 hcategory
      have second := (stringField_eq_ok rfl).1 hspecifier
      have third := (stringField_eq_ok rfl).1 hpath
      exact ⟨category, specifier, path, by rw [first, second, third]; rfl⟩

theorem shape_of_geometry (h : geometry.decode s = .ok v) :
    ∃ data crs, s = .struct [.blob data, crs] := by
  obtain ⟨vs, hvs, rest⟩ := bind_eq_ok.1 h
  obtain ⟨rfl, size⟩ := fields_eq_ok.1 hvs
  obtain ⟨payload, crs, rfl⟩ := List.length_eq_two.1 size
  cases payload with
  | blob data => exact ⟨data, crs, rfl⟩
  | _ => cases rest

end Shapes

end ValueFactory

def StorageValue.lastMissing : StorageValue → StorageValue
  | struct vs => struct (vs.dropLast ++ [null])
  | v => v

namespace Converter

/-- A converter with one of the standard factories over the storage that is meant for it, whatever its
identifier and key width. -/
inductive Standard : Converter → Prop where
  | date (id key) : Standard (.mk id .int64 key .date)
  | time (id key) : Standard (.mk id .int64 key .time)
  | dateTime (id key) : Standard (.mk id (.record .int64 [.int64]) key .dateTime)
  | duration (id key) : Standard (.mk id (.record .int64 [.int32]) key .duration)
  | zonedDateTime (id key) :
      Standard (.mk id (.record .int64 [.int64, .int32, .string]) key .zonedDateTime)
  | fileLocation (id key) : Standard (.mk id (.record .string [.string, .string]) key .fileLocation)
  | geometry (id key) : Standard (.mk id (.record .blob [.string]) key .geometry)

/-- What a converter takes though it does not fit the storage: a zone or a reference system of a wrong
type, with all other members as they should be. -/
inductive Stray : Converter → StorageValue → Prop where
  | zone (id key day nano offset) {zone : StorageValue} : Shape.string.admits zone = false →
      Stray (.mk id (.record .int64 [.int64, .int32, .string]) key .zonedDateTime)
        (.struct [.long day, .long nano, .int offset, zone])
  | crs (id key data) {crs : StorageValue} : Shape.string.admits crs = false →
      Stray (.mk id (.record .blob [.string]) key .geometry) (.struct [.blob data, crs])

variable {c : Converter} {s : StorageValue} {v : Value}

theorem Standard.admits_or_stray (h : c.Standard) (hv : c.decodeAny s = .ok v) :
    c.storage.admits s = true ∨ c.Stray s := by
  cases h with
  | date =>
    obtain ⟨n, rfl⟩ := ValueFactory.shape_of_date hv
    exact Or.inl rfl
  | time =>
    obtain ⟨n, rfl⟩ := ValueFactory.shape_of_time hv
    exact Or.inl rfl
  | dateTime =>
    obtain ⟨day, nano, rfl⟩ := ValueFactory.shape_of_dateTime hv
    exact Or.inl rfl
  | duration =>
    obtain ⟨seconds, nanos, rfl⟩ := ValueFactory.shape_of_duration hv
    exact Or.inl rfl
  | fileLocation =>
    obtain ⟨category, specifier, path, rfl⟩ := ValueFactory.shape_of_fileLocation hv
    cases specifier <;> exact Or.inl rfl
  | zonedDateTime =>
    obtain ⟨day, nano, offset, zone, rfl⟩ := ValueFactory.shape_of_zonedDateTime hv
    cases fits : Shape.string.admits zone with
    | true => exact Or.inl fits
    | false => exact Or.inr (.zone _ _ day nano offset fits)
  | geometry =>
    obtain ⟨data, crs, rfl⟩ := ValueFactory.shape_of_geometry hv
    cases fits : Shape.string.admits crs with
    | true => exact Or.inl fits
    | false => exact Or.inr (.crs _ _ data fits)

/-- A stray member is decoded as a missing one. -/
theorem Stray.decode (h : c.Stray s) : c.storage.admits s = false ∧
    c.storage.admits s.lastMissing = true ∧ c.decodeAny s = c.decodeAny s.lastMissing := by
  cases h with
  | zone _ _ _ _ _ unfit => exact ⟨unfit, rfl, rfl⟩
  | @crs _ _ _ crs unfit =>
    refine ⟨unfit, rfl, ?_⟩
    cases crs with
    | string t => cases unfit
    | _ => rfl

theorem admits_of_encodeAny (h : c.encodeAny v = .ok s) : c.storage.admits s = true := by
  rw [encodeAny] at h
  split at h
  · cases h
  · obtain ⟨t, _, checked⟩ := bind_eq_ok.1 h
    split at checked
    · next fits =>
      cases checked
      exact fits
    · cases checked

end Converter

namespace Registry

variable {r : Registry} {c : Converter}

theorem standard_of_entry {e : Entry} (h : e ∈ builtInEntries ++ geoEntries) (id : String)
    (key : Option DictKey) : (Converter.mk id e.storage key e.factory).Standard := by
  rcases List.mem_append.1 h with builtIn | geo
  · simp only [builtInEntries, List.mem_cons, List.not_mem_nil, or_false] at builtIn
    rcases builtIn with rfl | rfl | rfl | rfl | rfl | rfl
    · exact .date id key
    · exact .time id key
    · exact .dateTime id key
    · exact .duration id key
    · exact .zonedDateTime id key
    · exact .fileLocation id key
  · obtain ⟨cell, _, rfl⟩ := List.mem_map.1 geo
    exact .geometry id key

theorem Obtained.standard (h : Obtained r) : ∀ c ∈ r.converters, c.Standard := by
  induction h with
  | empty =>
    intro c hc
    cases hc
  | register _ entry step ih =>
    intro c hc
    rcases mem_of_registerShape step hc with old | rfl
    · exact ih c old
    · exact standard_of_entry entry _ _

/-- What the converters of such a registry decode fits their storage, as what they encode does, but for the
stray members, which are decoded as missing ones. -/
theorem decodeAny_conforms (h : Obtained r) (hc : c ∈ r.converters) (s : StorageValue) :
    (c.storage.admits s = false → ¬ c.Stray s → ∃ e, c.decodeAny s = .error e) ∧
    (c.Stray s → c.storage.admits s = false ∧ c.storage.admits s.lastMissing = true ∧
      c.decodeAny s = c.decodeAny s.lastMissing) ∧
    ∀ v, c.encodeAny v = .ok s → c.storage.admits s = true := by
  have standard := h.standard c hc
  refine ⟨?_, Converter.Stray.decode, fun v => Converter.admits_of_encodeAny⟩
  intro unfit regular
  cases decoded : c.decodeAny s with
  | error e => exact ⟨e, rfl⟩
  | ok v =>
    rcases standard.admits_or_stray decoded with fits | stray
    · rw [fits] at unfit
      cases unfit
    · exact (regular stray).elim

def numberZone : StorageValue := .struct [.long 0, .long 0, .int 0, .long 5]

def zones : Converter :=
  .mk (timeId "ZonedDateTimeValueFactory2") (.record .int64 [.int64, .int32, .string]) none .zonedDateTime

theorem mem_standard_zones : zones ∈ standard.converters := by
  rw [converters_standard]
  exact List.mem_of_getElem? (i := 4) rfl

theorem decodeAny_conforms_zones : Obtained standard ∧ zones ∈ standard.converters ∧
    zones.storage.admits (.long 5) = false ∧ (∃ e, zones.decodeAny (.long 5) = .error e) ∧
    zones.Stray numberZone ∧ zones.storage.admits numberZone = false ∧
    zones.decodeAny numberZone = zones.decodeAny (.struct [.long 0, .long 0, .int 0, .null]) := by
  have conforms := decodeAny_conforms obtained_standard mem_standard_zones
  have stray : zones.Stray numberZone := .zone _ _ 0 0 0 rfl
  obtain ⟨unfit, _, same⟩ := (conforms numberZone).2.1 stray
  exact ⟨obtained_standard, mem_standard_zones, rfl, (conforms (.long 5)).1 rfl nofun, stray, unfit, same⟩

def numberCrs : StorageValue := .struct [.blob ([1, 1, 0, 0, 0] ++ List.replicate 16 0), .long 5]

def points : Converter := .mk (factoryId (geoClass "GeoPointCell")) (.record .blob [.string]) none .geometry

theorem mem_standard_points : points ∈ standard.converters := by
  rw [converters_standard]
  exact List.mem_of_getElem? (i := 6) rfl

/-- The first second of 1970 and a point are read from values that do not fit the storage. -/
theorem decodeAny_unfit : Obtained standard ∧
    (zones ∈ standard.converters ∧ zones.storage.admits numberZone = false ∧
      ∃ v, zones.decodeAny numberZone = .ok v) ∧
    (points ∈ standard.converters ∧ points.storage.admits numberCrs = false ∧
      ∃ v, points.decodeAny numberCrs = .ok v) :=
  ⟨obtained_standard, ⟨mem_standard_zones, rfl, _, rfl⟩, mem_standard_points, rfl, _, rfl⟩

end Registry
end LogicalTable
