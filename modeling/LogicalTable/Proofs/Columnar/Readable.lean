import LogicalTable.Columnar.Import
import LogicalTable.Columnar.Storage
import LogicalTable.Proofs.DataType.Logical
import LogicalTable.Proofs.Outcome

/-! Reading the arrays of any writer. Where a type was accepted, and no field inside is tagged as a
dictionary, each slot has a value of that type. A dictionary inside is not taken apart: there a slot with a
key cannot be read. -/
namespace LogicalTable

def Tag.isDictionary : Tag → Bool
  | dictionary _ => true
  | _ => false

mutual

/-- Whether no field inside is tagged as a dictionary. -/
def ArrayType.dictionaryFree : ArrayType → Bool
  | .leaf _ => true
  | .list f | .largeList f => f.dictionaryFree
  | .struct fs => Field.allDictionaryFree fs

def Field.dictionaryFree : Field → Bool
  | .mk _ t _ m => !(Tag.ofMetadata m).isDictionary && t.dictionaryFree

def Field.allDictionaryFree : List Field → Bool
  | [] => true
  | f :: fs => f.dictionaryFree && Field.allDictionaryFree fs

end

theorem ArrayType.dictionaryParts_eq_ok {t : ArrayType} {width : DictKey} {value : Field}
    (h : t.dictionaryParts = .ok (width, value)) : ∃ name k nullable m,
      t = .struct [.mk name (.leaf k) nullable m, value] ∧ DictKey.ofLeafType? k = some width := by
  unfold dictionaryParts at h
  split at h
  · next key v =>
    obtain ⟨name, type, nullable, m⟩ := key
    dsimp only [Field.type] at h
    split at h
    · next k =>
      split at h
      · next found =>
        cases h
        exact ⟨name, k, nullable, m, rfl, found⟩
      · cases h
    · cases h
  · cases h
  · cases h

namespace Columnar

variable {r : Registry}

/-- Identifiers do not change what can be stored. -/
theorem admits_applyLogical {storage t : DataType} {id : String}
    (h : applyLogical r storage id = .ok t) (v : StorageValue) : t.admits v = storage.admits v := by
  have named : ∀ {u : DataType}, orFail FieldError.construction (DataType.logical? id storage) = .ok u →
      u.admits v = storage.admits v := by
    intro u hu
    have made := orFail_eq_ok.1 hu
    cases storage with
    | plain s =>
      cases made
      rfl
    | logical => cases made
  rw [applyLogical] at h
  split at h
  · exact named h
  split at h
  · cases h
    rfl
  cases found : r.find? id with
  | none =>
    rw [found] at h
    exact named h
  | some c =>
    rw [found] at h
    dsimp only at h
    split at h
    · next same =>
      cases h
      have physical := Shape.samePhysical_iff.1 same
      have shape : storage.admits v = storage.shape.admits v := by
        cases storage <;> rfl
      rw [shape, ← storage.shape.admits_physical, ← physical, Shape.admits_physical]
      rfl
    · cases h

theorem importDictionary_eq_ok {t : ArrayType} {s : DataType} (h : importDictionary r t = .ok s) :
    ∃ width value, t.dictionaryParts = .ok (width, value) ∧ importField r value = .ok s := by
  unfold importDictionary at h
  split at h
  · next key value =>
    obtain ⟨⟨width, value'⟩, parts, imported⟩ := bind_eq_ok.1 h
    obtain ⟨_, _, _, _, same, _⟩ := ArrayType.dictionaryParts_eq_ok parts
    cases same
    exact ⟨width, value, parts, imported⟩
  · obtain ⟨_, _, failed⟩ := bind_eq_ok.1 h
    cases failed

theorem admits_stripRowKey (t : DataType) (v : StorageValue) : (stripRowKey t).admits v = t.admits v := by
  cases t with
  | plain => rfl
  | logical id s c =>
    rw [stripRowKey]
    split <;> rfl

theorem importColumn_eq_ok {index : Nat} {f : Field} {c : Column} (h : importColumn r index f = .ok c) :
    ∃ t, importField r f = .ok t ∧ c.type = if index = 0 then stripRowKey t else t := by
  obtain ⟨t, ht, made⟩ := bind_eq_ok.1 h
  have made := orFail_eq_ok.1 made
  rw [Column.make?] at made
  split at made
  · cases made
    exact ⟨t, orFail_eq_ok.1 ht, rfl⟩
  · cases made

theorem importColumns_eq_ok {index : Nat} {fs : List Field} {cs : List Column}
    (h : importColumns r index fs = .ok cs) :
    List.Forall₂ (fun f c => ∃ place, importColumn r place f = .ok c) fs cs := by
  induction fs generalizing index cs with
  | nil =>
    cases h
    exact .nil
  | cons f fs ih =>
    obtain ⟨c, hc, rest⟩ := bind_eq_ok.1 h
    obtain ⟨cs, hcs, ⟨⟩⟩ := bind_eq_ok.1 rest
    exact .cons ⟨index, hc⟩ (ih hcs)

end Columnar

theorem ArraySchema.schema_eq_ok {a : ArraySchema} {s : Schema} :
    a.schema r = .ok s ↔ Columnar.importColumns r 0 a.fields = .ok s.columns := by
  rw [schema, map_eq_ok]
  constructor
  · rintro ⟨cs, read, rfl⟩
    exact read
  · exact fun read => ⟨_, read, rfl⟩

theorem forall_mem_right {P : β → Prop} {as : List α} {bs : List β}
    (h : List.Forall₂ (fun _ b => P b) as bs) : ∀ b ∈ bs, P b := by
  induction h with
  | nil => exact fun b hb => (List.not_mem_nil hb).elim
  | cons head _ ih => exact List.forall_mem_cons.2 ⟨head, ih⟩

theorem Members.admits_ofList {t : DataType} {ts : List DataType} {vs : List StorageValue}
    (h : List.Forall₂ (fun t v => t.admits v = true) (t :: ts) vs) :
    (Members.ofList t ts).admits vs = true := by
  induction ts generalizing t vs with
  | nil =>
    obtain ⟨v, _, hv, rest, rfl⟩ := List.forall₂_cons_left_iff.1 h
    cases rest
    exact hv
  | cons u us ih =>
    obtain ⟨v, _, hv, rest, rfl⟩ := List.forall₂_cons_left_iff.1 h
    rw [ofList, admits, hv, ih rest]
    rfl

theorem LeafType.read_admitted {t : LeafType} {p : Primitive} {c : Cell}
    (h : t.primitive? = some p) (admitted : t.admits c = true) :
    ∃ v, t.read c = .ok v ∧ (Shape.primitive p).admits v = true := by
  cases t <;> cases h <;> cases c <;>
    first
    | exact ⟨_, rfl, rfl⟩
    | cases admitted

section

variable {r : Registry}

open Columnar (importType importField importFields importDictionary)

/-- The type of an accepted field is accepted as its tag has it read. -/
theorem Columnar.importField_eq_ok {f : Field} {s : DataType} (h : importField r f = .ok s) :
    ∃ u, (if (Tag.ofMetadata f.metadata).isDictionary then importDictionary r f.type
        else importType r f.type) = .ok u ∧ ∀ v, s.admits v = u.admits v := by
  obtain ⟨name, t, nullable, m⟩ := f
  rw [importField] at h
  change ∃ u, (if (Tag.ofMetadata m).isDictionary then importDictionary r t else importType r t) =
    .ok u ∧ ∀ v, s.admits v = u.admits v
  cases tag : Tag.ofMetadata m with
  | none =>
    rw [tag] at h
    exact ⟨s, h, fun _ => rfl⟩
  | logical id =>
    rw [tag] at h
    obtain ⟨u, hu, ha⟩ := bind_eq_ok.1 h
    exact ⟨u, hu, admits_applyLogical ha⟩
  | dictionary id =>
    rw [tag] at h
    obtain ⟨u, hu, ha⟩ := bind_eq_ok.1 h
    exact ⟨u, hu, admits_applyLogical ha⟩

theorem Field.mapM_read {f : Field} {item : DataType} {cs : List Cell}
    (each : ∀ c ∈ cs, ∃ v, f.read c = .ok v ∧ item.admits v = true) :
    ∃ vs, cs.mapM (fun c => f.read c) = .ok vs ∧ (Shape.list item).admits (.list vs) = true := by
  obtain ⟨vs, read, admitted⟩ := mapM_forall₂ each
  exact ⟨vs, read, List.all_eq_true.2 (forall_mem_right admitted)⟩

mutual

-- Acceptance and reading both follow the type, so the recursion is on it, not on the cell.
theorem ArrayType.read_admitted : ∀ {t : ArrayType} {s : DataType} {c : Cell},
    importType r t = .ok s → t.dictionaryFree = true → t.admits c = true →
    ∃ v, t.read c = .ok v ∧ s.admits v = true
  | .leaf t, s, c, imported, free, admitted => by
    rw [importType] at imported
    cases hp : t.primitive? with
    | none =>
      rw [hp] at imported
      cases imported
    | some p =>
      rw [hp] at imported
      cases imported
      exact LeafType.read_admitted hp admitted
  | .list f, s, c, imported, free, admitted | .largeList f, s, c, imported, free, admitted => by
    obtain ⟨item, hf, ⟨⟩⟩ := bind_eq_ok.1 imported
    cases c with
    | missing => exact ⟨.null, rfl, rfl⟩
    | list cs =>
      obtain ⟨vs, read, all⟩ := Field.mapM_read fun c hc =>
        Field.read_admitted hf free (List.all_eq_true.1 admitted c hc)
      exact ⟨.list vs, bind_eq_ok.2 ⟨vs, read, rfl⟩, all⟩
    | _ => cases admitted
  | .struct fs, s, c, imported, free, admitted => by
    obtain ⟨ts, hts, made⟩ := bind_eq_ok.1 imported
    cases c with
    | struct present cs =>
      obtain ⟨vs, read, all⟩ := Field.readAll_admitted hts free admitted
      cases ts with
      | nil => cases orFail_eq_ok.1 made
      | cons t ts =>
        cases orFail_eq_ok.1 made
        cases present with
        | true => exact ⟨.struct vs, bind_eq_ok.2 ⟨vs, read, rfl⟩, Members.admits_ofList all⟩
        | false => exact ⟨.null, rfl, rfl⟩
    | _ => cases admitted

theorem Field.read_admitted : ∀ {f : Field} {s : DataType} {c : Cell},
    importField r f = .ok s → f.dictionaryFree = true → f.admits c = true →
    ∃ v, f.read c = .ok v ∧ s.admits v = true
  | .mk name t nullable m, s, c, imported, free, admitted => by
    obtain ⟨untagged, inside⟩ := Bool.and_eq_true_iff.1 free
    obtain ⟨u, hu, same⟩ := Columnar.importField_eq_ok imported
    rw [Field.metadata, if_neg (by simpa using untagged)] at hu
    obtain ⟨v, read, fits⟩ := ArrayType.read_admitted hu inside admitted
    exact ⟨v, read, (same v).trans fits⟩

theorem Field.readAll_admitted : ∀ {fs : List Field} {ss : List DataType} {cs : List Cell},
    importFields r fs = .ok ss → Field.allDictionaryFree fs = true →
    Field.admitAll fs cs = true →
    ∃ vs, Field.readAll fs cs = .ok vs ∧ List.Forall₂ (fun s v => s.admits v = true) ss vs
  | [], ss, cs, imported, free, admitted => by
    cases imported
    exact ⟨[], by cases cs <;> rfl, .nil⟩
  | f :: fs, ss, cs, imported, free, admitted => by
    obtain ⟨s, hs, rest⟩ := bind_eq_ok.1 imported
    obtain ⟨ss, hss, ⟨⟩⟩ := bind_eq_ok.1 rest
    obtain ⟨head, tail⟩ := Bool.and_eq_true_iff.1 free
    cases cs with
    | nil => cases admitted
    | cons c cs =>
      obtain ⟨here, later⟩ := Bool.and_eq_true_iff.1 admitted
      obtain ⟨v, read, fits⟩ := Field.read_admitted hs head here
      obtain ⟨vs, reads, all⟩ := Field.readAll_admitted hss tail later
      exact ⟨v :: vs, bind_eq_ok.2 ⟨v, read, bind_eq_ok.2 ⟨vs, reads, rfl⟩⟩, .cons fits all⟩

end

end

/-- A slot is marked as missing just where it holds no value. -/
theorem ArrayType.isMissing_eq {t : ArrayType} {c : Cell} {v : StorageValue}
    (typed : t ≠ .leaf .null) (admitted : t.admits c = true) (read : t.read c = .ok v) :
    c.isMissing = v.isNull := by
  cases t with
  | leaf l =>
    rw [ArrayType.read] at read
    unfold LeafType.read at read
    split at read
    · exact (typed rfl).elim
    all_goals cases read
    all_goals rfl
  | list f | largeList f =>
    cases c with
    | missing =>
      cases read
      rfl
    | list cs =>
      obtain ⟨vs, _, ⟨⟩⟩ := bind_eq_ok.1 read
      rfl
    | _ => cases admitted
  | struct fs =>
    cases c with
    | struct present cs =>
      cases present with
      | true =>
        obtain ⟨vs, _, ⟨⟩⟩ := bind_eq_ok.1 read
        rfl
      | false =>
        cases read
        rfl
    | _ => cases admitted

def LeafType.sample : LeafType → Cell
  | .null => .missing
  | .boolean => .bool false
  | .float16 | .float32 | .float64 => .float .zero
  | .utf8 | .largeUtf8 | .utf8View => .text ""
  | .binary | .largeBinary => .bytes []
  | _ => .integer 0

mutual

/-- A slot of the type that is there, with all that is inside. -/
def ArrayType.sample : ArrayType → Cell
  | .leaf t => t.sample
  | .list f | .largeList f => .list [f.sample]
  | .struct fs => .struct true (Field.samples fs)

def Field.sample : Field → Cell
  | .mk _ t _ _ => t.sample

def Field.samples : List Field → List Cell
  | [] => []
  | f :: fs => f.sample :: Field.samples fs

end

mutual

theorem ArrayType.admits_sample : ∀ t : ArrayType, t.admits t.sample = true
  | .leaf t => by cases t <;> rfl
  | .list f | .largeList f => by
    rw [ArrayType.sample, ArrayType.admits, List.all_cons, f.admits_sample]
    rfl
  | .struct fs => Field.admitAll_samples fs

theorem Field.admits_sample : ∀ f : Field, f.admits f.sample = true
  | .mk _ t _ _ => t.admits_sample

theorem Field.admitAll_samples : ∀ fs : List Field, Field.admitAll fs (Field.samples fs) = true
  | [] => rfl
  | f :: fs => by
    rw [Field.samples, Field.admitAll, f.admits_sample, Field.admitAll_samples fs]
    rfl

end

theorem ArrayType.isMissing_sample {t : ArrayType} (h : t ≠ .leaf .null) :
    t.sample.isMissing = false := by
  cases t with
  | leaf t =>
    cases t with
    | null => exact (h rfl).elim
    | _ => rfl
  | _ => rfl

theorem DictKey.sample_key {k : LeafType} {width : DictKey} (h : ofLeafType? k = some width) :
    k.sample = .integer 0 ∧ k.read k.sample = .error (.noStorageValue k.name) := by
  cases k <;> cases h <;> exact ⟨rfl, rfl⟩

section

variable {r : Registry}

open Columnar (importType importField importFields importDictionary)

mutual

/-- A dictionary inside cannot be read. -/
theorem ArrayType.read_sample : ∀ {t : ArrayType} {s : DataType}, importType r t = .ok s →
    t.dictionaryFree = false → ∃ e, t.read t.sample = .error e
  | .leaf t, s, imported, tagged => by cases tagged
  | .list f, s, imported, tagged | .largeList f, s, imported, tagged => by
    obtain ⟨item, hf, _⟩ := bind_eq_ok.1 imported
    obtain ⟨e, he⟩ := Field.read_sample hf tagged
    refine ⟨e, ?_⟩
    rw [ArrayType.sample, ArrayType.read, List.mapM_cons, he]
    rfl
  | .struct fs, s, imported, tagged => by
    obtain ⟨ts, hts, _⟩ := bind_eq_ok.1 imported
    obtain ⟨e, he⟩ := Field.readAll_samples hts tagged
    refine ⟨e, ?_⟩
    rw [ArrayType.sample, ArrayType.read, he]
    rfl

theorem Field.read_sample : ∀ {f : Field} {s : DataType}, importField r f = .ok s →
    f.dictionaryFree = false → ∃ e, f.read f.sample = .error e
  | .mk name t nullable m, s, imported, tagged => by
    obtain ⟨u, hu, _⟩ := Columnar.importField_eq_ok imported
    rw [Field.metadata] at hu
    by_cases here : (Tag.ofMetadata m).isDictionary = true
    · rw [if_pos here] at hu
      obtain ⟨width, value, parts, _⟩ := Columnar.importDictionary_eq_ok hu
      obtain ⟨_, k, _, _, rfl, hk⟩ := ArrayType.dictionaryParts_eq_ok parts
      obtain ⟨_, failed⟩ := DictKey.sample_key hk
      refine ⟨.noStorageValue k.name, ?_⟩
      rw [Field.read, Field.sample, ArrayType.sample, ArrayType.read, Field.samples, Field.readAll,
        Field.sample, Field.read, ArrayType.sample, ArrayType.read, failed]
      rfl
    · rw [if_neg here] at hu
      have inside : t.dictionaryFree = false := by
        simpa [Field.dictionaryFree, here] using tagged
      exact ArrayType.read_sample hu inside

theorem Field.readAll_samples : ∀ {fs : List Field} {ss : List DataType},
    importFields r fs = .ok ss → Field.allDictionaryFree fs = false →
    ∃ e, Field.readAll fs (Field.samples fs) = .error e
  | [], ss, imported, tagged => by cases tagged
  | f :: fs, ss, imported, tagged => by
    obtain ⟨s, hs, rest⟩ := bind_eq_ok.1 imported
    obtain ⟨ss, hss, _⟩ := bind_eq_ok.1 rest
    rw [Field.samples, Field.readAll]
    cases hf : f.read f.sample with
    | error e => exact ⟨e, rfl⟩
    | ok v =>
      have later : Field.allDictionaryFree fs = false := by
        cases free : f.dictionaryFree with
        | true => rwa [Field.allDictionaryFree, free, Bool.true_and] at tagged
        | false =>
          obtain ⟨e, he⟩ := Field.read_sample hs free
          cases he.symm.trans hf
      obtain ⟨e, he⟩ := Field.readAll_samples hss later
      exact ⟨e, by rw [ok_bind, he]; rfl⟩

end

mutual

/-- Of accepted types all members are there. -/
theorem ArrayType.complete_sample : ∀ {t : ArrayType} {s : DataType}, importType r t = .ok s →
    t.complete t.sample = true
  | .leaf t, s, imported => rfl
  | .list f, s, imported | .largeList f, s, imported => by
    obtain ⟨item, hf, _⟩ := bind_eq_ok.1 imported
    exact List.all_eq_true.2 (List.forall_mem_singleton.2 (Field.complete_sample hf true))
  | .struct fs, s, imported => by
    obtain ⟨ts, hts, _⟩ := bind_eq_ok.1 imported
    exact Field.completeAll_samples hts

theorem ArrayType.complete_sample_dictionary : ∀ {t : ArrayType} {s : DataType},
    importDictionary r t = .ok s → t.complete t.sample = true
  | .struct [.mk name t nullable m, value], s, imported => by
    obtain ⟨width, _, parts, hv⟩ := Columnar.importDictionary_eq_ok imported
    obtain ⟨_, k, _, _, same, hk⟩ := ArrayType.dictionaryParts_eq_ok parts
    cases same
    have later := Field.complete_sample hv true
    obtain ⟨key, _⟩ := DictKey.sample_key hk
    have here : (Field.mk name (.leaf k) nullable m).complete true k.sample = true := by
      rw [Field.complete, key, ArrayType.complete]
      cases nullable <;> rfl
    exact Bool.and_eq_true_iff.2 ⟨here, Bool.and_eq_true_iff.2 ⟨later, rfl⟩⟩
  | .leaf _, s, imported | .list _, s, imported | .largeList _, s, imported
  | .struct [], s, imported | .struct [_], s, imported | .struct (_ :: _ :: _ :: _), s, imported => by
    obtain ⟨_, _, parts, _⟩ := Columnar.importDictionary_eq_ok imported
    cases parts

theorem Field.complete_sample : ∀ {f : Field} {s : DataType}, importField r f = .ok s →
    ∀ around, f.complete around f.sample = true
  | .mk name t nullable m, s, imported, around => by
    obtain ⟨u, hu, _⟩ := Columnar.importField_eq_ok imported
    rw [Field.metadata] at hu
    have there : t ≠ .leaf .null := by
      rintro rfl
      split at hu <;> cases hu
    have inside : t.complete t.sample = true := by
      by_cases tagged : (Tag.ofMetadata m).isDictionary = true
      · rw [if_pos tagged] at hu
        exact ArrayType.complete_sample_dictionary hu
      · rw [if_neg tagged] at hu
        exact ArrayType.complete_sample hu
    rw [Field.complete, Field.sample, ArrayType.isMissing_sample there, inside, Bool.not_false,
      Bool.or_true, Bool.and_true]

theorem Field.completeAll_samples : ∀ {fs : List Field} {ss : List DataType},
    importFields r fs = .ok ss → Field.completeAll true fs (Field.samples fs) = true
  | [], ss, imported => rfl
  | f :: fs, ss, imported => by
    obtain ⟨s, hs, rest⟩ := bind_eq_ok.1 imported
    obtain ⟨ss, hss, _⟩ := bind_eq_ok.1 rest
    rw [Field.samples, Field.completeAll, Field.complete_sample hs, Field.completeAll_samples hss]
    rfl

end

end

end LogicalTable
