import LogicalTable.Exchange.Import
import LogicalTable.Proofs.Outcome
import LogicalTable.Proofs.Registry.Runs
import LogicalTable.Registry.Factory

/-! Registries that are added to while documents are read. Factories come with a storage type or with
the texts of their storage and traits. Whatever is added, and whatever fails to be, a document that
has been read is read the same way again. -/
namespace LogicalTable

namespace Registry

/-- A call to register a factory. -/
inductive Call where
  | type (q : Request)
  | texts (module name spec traits : String) (factory : ValueFactory)

/-- The registry behind a call, which a failure leaves as it was, and the outcome. -/
def call (r : Registry) : Call → Registry × Except RegistryError Converter
  | .type q => r.attempt q
  | .texts module name spec traits f =>
    match r.register module name spec traits f with
    | .ok (s, c) => (s, .ok c)
    | .error e => (r, .error e)

def load (r : Registry) (cs : List Call) : Registry := cs.foldl (fun r c => (r.call c).1) r

variable {r s : Registry}

theorem extends_of_registerShape {id : String} {t : Shape} {k : Option DictKey} {f : ValueFactory}
    {c : Converter} (h : r.registerShape id t k f = .ok (s, c)) : s.Extends r := by
  have step : r.attempt ⟨id, .plain t, k, f⟩ = (s, .ok c) := by
    rw [attempt, registerType, h]
  exact extends_of_attempt step

/-- Texts that are read come down to a storage shape. -/
theorem register_eq {module name spec traits : String} {f : ValueFactory} {tree : Exchange.Spec}
    {node : Exchange.Traits} (hs : Exchange.specOfText? spec = some tree)
    (ht : Exchange.traitsOfText? traits = some node) : r.register module name spec traits f =
      orFail (.cannotRegister name) (Exchange.importShape r tree node) >>= fun storage =>
        r.registerShape (node.own.logicalType.getD (factoryId (module ++ "." ++ name))) storage
          node.own.dictEncoding f := by
  rw [register, hs, ht]

theorem extends_of_register {module name spec traits : String} {f : ValueFactory} {c : Converter}
    (h : r.register module name spec traits f = .ok (s, c)) : s.Extends r := by
  cases hs : Exchange.specOfText? spec with
  | none =>
    rw [register, hs] at h
    cases h
  | some tree =>
    cases ht : Exchange.traitsOfText? traits with
    | none =>
      rw [register, hs, ht] at h
      cases h
    | some node =>
      rw [register_eq hs ht] at h
      obtain ⟨storage, _, registered⟩ := bind_eq_ok.1 h
      exact extends_of_registerShape registered

theorem extends_of_call (r : Registry) (c : Call) : (r.call c).1.Extends r := by
  cases c with
  | type q => exact extends_of_attempt rfl
  | texts module name spec traits f =>
    rw [call]
    cases h : r.register module name spec traits f with
    | error e => exact .refl r
    | ok p => exact extends_of_register h

theorem extends_load (r : Registry) (cs : List Call) : (r.load cs).Extends r := by
  induction cs generalizing r with
  | nil => exact .refl r
  | cons c cs ih => exact (extends_of_call r c).trans (ih _)

end Registry

namespace Exchange

section Growing

variable {r s : Registry} (more : s.Extends r)
include more

theorem applyLogical_extends {u : Shape} {id : Option String} {t : DataType}
    (h : applyLogical r u id = .ok t) : applyLogical s u id = .ok t := by
  cases id with
  | none => exact h
  | some id =>
    rw [applyLogical] at h ⊢
    by_cases host : isHostWrapper id u = true
    · rwa [if_pos host] at h ⊢
    · rw [if_neg host] at h ⊢
      cases found : r.find? id with
      | none =>
        rw [found] at h
        cases h
      | some c =>
        rw [found] at h
        rw [more.answers.find? id c found]
        exact h

mutual

theorem importShape_extends : ∀ {spec : Spec} {node : Traits} {u : Shape},
    importShape r spec node = .ok u → importShape s spec node = .ok u
  | .leaf _, .simple _, _, h => h
  | .list spec, .list own node, _, h => by
    obtain ⟨v, hv, rest⟩ := bind_eq_ok.1 h
    obtain ⟨t, ht, made⟩ := bind_eq_ok.1 rest
    exact bind_eq_ok.2 ⟨v, importShape_extends hv, bind_eq_ok.2 ⟨t, applyLogical_extends more ht, made⟩⟩
  | .struct specs, .struct own nodes, _, h => by
    rw [importShape] at h ⊢
    by_cases count : specs.length ≠ nodes.length
    · rw [if_pos count] at h
      cases h
    · rw [if_neg count] at h ⊢
      obtain ⟨ts, hts, made⟩ := bind_eq_ok.1 h
      exact bind_eq_ok.2 ⟨ts, importTypes_extends hts, made⟩
  | .leaf _, .list _ _, _, h | .leaf _, .struct _ _, _, h | .list _, .simple _, _, h
  | .list _, .struct _ _, _, h | .struct _, .simple _, _, h | .struct _, .list _ _, _, h => by cases h

theorem importTypes_extends : ∀ {specs : List Spec} {nodes : List Traits} {ts : List DataType},
    importTypes r specs nodes = .ok ts → importTypes s specs nodes = .ok ts
  | spec :: specs, node :: nodes, _, h => by
    obtain ⟨u, hu, rest⟩ := bind_eq_ok.1 h
    obtain ⟨t, ht, rest⟩ := bind_eq_ok.1 rest
    obtain ⟨ts, hts, made⟩ := bind_eq_ok.1 rest
    exact bind_eq_ok.2 ⟨u, importShape_extends hu, bind_eq_ok.2 ⟨t, applyLogical_extends more ht,
      bind_eq_ok.2 ⟨ts, importTypes_extends hts, made⟩⟩⟩
  | [], _, _, h => by
    rwa [importTypes] at h ⊢ <;> simp
  | _ :: _, [], _, h => h

end

theorem importColumns_extends {index : Nat} {specs : List Spec} {nodes : List Traits}
    {names : List String} {metadata : List (Option String)} {cs : List Column}
    (h : importColumns r index specs nodes names metadata = .ok cs) :
    importColumns s index specs nodes names metadata = .ok cs := by
  induction specs generalizing index nodes names metadata cs with
  | nil => rwa [importColumns] at h ⊢ <;> simp
  | cons spec specs ih =>
    rcases nodes with _ | ⟨node, nodes⟩
    · rwa [importColumns] at h ⊢ <;> simp
    rcases names with _ | ⟨name, names⟩
    · rwa [importColumns] at h ⊢ <;> simp
    rcases metadata with _ | ⟨text, metadata⟩
    · rwa [importColumns] at h ⊢ <;> simp
    obtain ⟨t, ht, rest⟩ := bind_eq_ok.1 h
    obtain ⟨c, hc, rest⟩ := bind_eq_ok.1 rest
    obtain ⟨cs, hcs, made⟩ := bind_eq_ok.1 rest
    obtain ⟨u, hu, applied⟩ := bind_eq_ok.1 (orFail_eq_ok.1 ht)
    have again : importColumnType s index spec node = .ok t :=
      bind_eq_ok.2 ⟨u, importShape_extends more hu, applyLogical_extends more applied⟩
    exact bind_eq_ok.2 ⟨t, orFail_eq_ok.2 again, bind_eq_ok.2 ⟨c, hc, bind_eq_ok.2 ⟨cs, ih hcs, made⟩⟩⟩

/-- What one registry reads, one that has more converters behind its own reads too. -/
theorem importSchema_extends {d : Document} {t : Schema} (h : importSchema d r = .ok t) :
    importSchema d s = .ok t := by
  rw [importSchema] at h ⊢
  split at h
  · cases h
  · next lengths =>
    rw [if_neg lengths]
    obtain ⟨cs, hcs, made⟩ := map_eq_ok.1 h
    exact map_eq_ok.2 ⟨cs, importColumns_extends more hcs, made⟩

end Growing

/-- No later call breaks a document: the schema is the same, with the same converters throughout. -/
theorem importSchema_load {d : Document} {r : Registry} {t : Schema} (h : importSchema d r = .ok t)
    (cs : List Registry.Call) : importSchema d (r.load cs) = .ok t :=
  importSchema_extends (Registry.extends_load r cs) h

end Exchange

/-- Days, numbered in dictionaries. -/
def Registry.oneDay : Registry := ⟨[.mk "day" .int64 (some .int) .date], List.pairwise_singleton _ _⟩

/-- A conflict, a new identifier, texts that are no trees and a pair of texts that registers. -/
def Registry.Call.samples : List Registry.Call := [
  .type ⟨"day", .plain .string, none, .date⟩,
  .type ⟨"hour", .plain .int64, none, .time⟩,
  .texts "host" "Broken" "[" "[]" .date,
  .texts "host" "Moment" "\"int64\"" "[\"simple\", [\"moment\"]]" .time]

namespace Exchange

def Document.ofDayLists : Document where
  specs := [.leaf "string", .list (.leaf "long")]
  traits := [.simple {}, .list { logicalType := listId } (.simple { logicalType := "day" })]
  names := ["key", "days"]
  metadata := [none, none]

theorem importSchema_load_samples : ∃ t, importSchema .ofDayLists .oneDay = .ok t ∧
    importSchema .ofDayLists (Registry.oneDay.load Registry.Call.samples) = .ok t ∧
    (Registry.oneDay.load Registry.Call.samples).ids = ["day", "hour", "moment"] :=
  ⟨_, rfl, importSchema_load rfl _, by decide⟩

end Exchange
end LogicalTable
