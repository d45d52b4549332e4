import LogicalTable.Proofs.Exchange.Documents
import LogicalTable.Proofs.Exchange.RoundTrip
import LogicalTable.Proofs.Registry.Loading

/-! Two ways to register a factory. The texts of a storage type and its traits come to the same as the
type itself, in what is answered and in what is left behind, but that the identifiers inside the
storage have the converters of the registry. -/
namespace LogicalTable

/-- Converters that are the same but for converters attached within their storage. -/
structure Converter.Same (c d : Converter) : Prop where
  id : c.id = d.id
  storage : c.storage.same d.storage = true
  dictKey : c.dictKey = d.dictKey
  factory : c.factory = d.factory

theorem Converter.Same.refl (c : Converter) : c.Same c :=
  ⟨rfl, (Shape.same_iff _ _).2 rfl, rfl, rfl⟩

namespace Registry

/-- Registries of the same converters in the same order. -/
def Same (r s : Registry) : Prop := List.Forall₂ Converter.Same r.converters s.converters

theorem Same.refl (r : Registry) : r.Same r :=
  List.forall₂_same.2 fun c _ => .refl c

/-- Results with the same converter or the same failure. -/
inductive SameResult : Except RegistryError Converter → Except RegistryError Converter → Prop where
  | ok {c d : Converter} (same : c.Same d) : SameResult (.ok c) (.ok d)
  | error (e : RegistryError) : SameResult (.error e) (.error e)

theorem SameResult.refl (x : Except RegistryError Converter) : SameResult x x := by
  cases x with
  | ok c => exact .ok (.refl c)
  | error e => exact .error e

/-- Two calls that leave the same registry and have the same result. -/
structure SameStep (x y : Registry × Except RegistryError Converter) : Prop where
  registry : x.1.Same y.1
  result : SameResult x.2 y.2

theorem agrees_of_bare {c : Converter} {s t : Shape} (h : s.bare = t.bare) (k : Option DictKey)
    (f : ValueFactory) : agrees c s k f = agrees c t k f := by
  have same : c.storage.same s = c.storage.same t := by
    rw [Bool.eq_iff_iff, Shape.same_iff, Shape.same_iff, h]
  rw [agrees, agrees, same]

/-- Converters within the storage have no part in a registration. -/
theorem attempt_of_bare (r : Registry) {s t : Shape} (h : s.bare = t.bare) (id : String)
    (k : Option DictKey) (f : ValueFactory) :
    SameStep (r.attempt ⟨id, .plain s, k, f⟩) (r.attempt ⟨id, .plain t, k, f⟩) := by
  rw [attempt, attempt, registerType, registerType]
  cases found : r.find? id with
  | some c =>
    rw [registerShape_known found, registerShape_known found, agrees_of_bare h]
    exact ⟨.refl _, .refl _⟩
  | none =>
    rw [registerShape_new found, registerShape_new found]
    have same : (Converter.mk id s k f).Same (.mk id t k f) := ⟨rfl, (Shape.same_iff s t).2 h, rfl, rfl⟩
    exact ⟨List.rel_append (Same.refl r) (.cons same .nil), .ok same⟩

end Registry

namespace Exchange

/-- The value of a text that nests no deeper than texts may. -/
theorem parse?_text {j : Json} (textual : j.Textual) (nests : j.depth ≤ Json.maxDepth) :
    Json.parse? j.text.toList = some j := by
  have read := Json.whole_of_reads_alone (Json.reads_value true j textual Json.maxDepth)
    (Json.starts_chars textual)
  rw [Json.within, if_pos nests] at read
  rw [Json.parse?, Json.text, String.toList_ofList, read]

theorem specOfText?_json {spec : Spec} (nests : spec.json.depth ≤ Json.maxDepth) :
    specOfText? spec.json.text = some spec := by
  rw [specOfText?, parse?_text (textual_spec spec) nests, Option.bind_some, spec?_json]

theorem traitsOfText?_json {node : Traits} (nests : node.json.depth ≤ Json.maxDepth) :
    traitsOfText? node.json.text = some node := by
  rw [traitsOfText?, parse?_text (textual_traits node) nests, Option.bind_some, traits?_json]

/-- The traits of a storage shape with an identifier and a key width of its own. -/
def registrationTraits (q : Registry) (s : Shape) (id : Option String) (k : Option DictKey) :
    Traits :=
  (shapeTraits q s).withOwn { logicalType := id, dictEncoding := k }

/-- A shape that holds no factory of the host, and no identifier that the registry does not serve, is
read as it is. -/
theorem importShape_known {r : Registry} {s : Shape}
    (known : s.EveryLogical fun id u => isHostWrapper id u = false ∧ r.Serves id u) (q : Registry)
    (m : TraitMap) :
    importShape r (shapeSpec s) ((shapeTraits q s).withOwn m) = .ok (s.resolvedIn r) := by
  have whole : s.unwrapped = s :=
    s.unwrapped_eq_self (known.imp₂ (fun _ _ h _ => h.1) known)
  have served : s.unwrapped.EveryLogical r.Serves := by
    rw [whole]
    exact known.imp₂ (fun _ _ h _ => h.2) known
  rw [importShape_withOwn, (importShape_settles r q s).success served, whole]

end Exchange

namespace Registry

open Exchange (isHostWrapper shapeSpec registrationTraits)

/-- A factory registered by the texts of its storage and traits is registered for the storage, under
the identifier among the traits or, if there is none, that of the factory's class. What the registry
gains and the result are the same as for the storage itself; converters attached within it are those of
the registry. -/
theorem call_texts (r q : Registry) (module name : String) (id : Option String)
    (k : Option DictKey) (f : ValueFactory) (s : Shape)
    (known : s.EveryLogical fun i u => isHostWrapper i u = false ∧ r.Serves i u)
    (spec : (shapeSpec s).json.depth ≤ Json.maxDepth)
    (traits : (registrationTraits q s id k).json.depth ≤ Json.maxDepth) :
    let texts := Call.texts module name (shapeSpec s).json.text (registrationTraits q s id k).json.text f
    let own := id.getD (factoryId (module ++ "." ++ name))
    r.call texts = r.attempt ⟨own, .plain (s.resolvedIn r), k, f⟩ ∧
      SameStep (r.call texts) (r.attempt ⟨own, .plain s, k, f⟩) := by
  intro texts own
  have typed : r.call texts = r.attempt ⟨own, .plain (s.resolvedIn r), k, f⟩ := by
    rw [call, attempt, registerType,
      register_eq (Exchange.specOfText?_json spec) (Exchange.traitsOfText?_json traits),
      registrationTraits, Exchange.importShape_known known, Exchange.Traits.own_withOwn]
    rfl
  refine ⟨typed, ?_⟩
  rw [typed]
  exact attempt_of_bare r (s.bare_resolvedIn r) own k f

/-- A record of a list of days and a count. -/
def dayRecord : Shape :=
  .struct (.cons (.list (.logical "day" .int64 none)) (.one (.ofPrimitive .int64)))

/-- The call that registers times as such records by their texts, with the identifier of the class. -/
def dayRecordCall : Call := .texts "host" "Track" (shapeSpec dayRecord).json.text
  (registrationTraits oneDay dayRecord none (some .byte)).json.text .time

theorem call_dayRecord :
    SameStep (oneDay.call dayRecordCall)
      (oneDay.attempt ⟨factoryId "host.Track", .plain dayRecord, some .byte, .time⟩) ∧
    (oneDay.call dayRecordCall).1.ids = ["day", factoryId "host.Track"] := by
  have known : dayRecord.EveryLogical fun i u => isHostWrapper i u = false ∧ oneDay.Serves i u :=
    ⟨⟨⟨by decide, _, rfl, rfl⟩, trivial⟩, trivial⟩
  obtain ⟨typed, same⟩ := call_texts oneDay oneDay "host" "Track" none (some .byte) .time dayRecord
    known (by decide) (by decide)
  refine ⟨same, ?_⟩
  rw [dayRecordCall, typed]
  rfl

end Registry
end LogicalTable
