import LogicalTable.Proofs.Exchange.Documents
import LogicalTable.Proofs.Exchange.RoundTrip
import LogicalTable.Registry.Factory
import LogicalTable.Report.Basic

/-! A schema is read back from its document, from the document's JSON and from the text of it with
one result, whether the members of objects stand as they were written or sorted. -/
namespace LogicalTable

namespace Exchange

theorem importJson_json (d : Document) (r : Registry) : importJson d.json r = importSchema d r := by
  rw [importJson, ofJson?_json]

theorem importJson_sorted (j : Json) (r : Registry) : importJson j.sorted r = importJson j r := by
  rw [importJson, ofJson?_sorted, importJson]

/-- Text that nests too deep is refused; any other gives what its document gives. -/
theorem importText_json (d : Document) (r : Registry) {blank : String}
    (spaces : blank.toList.all Json.isSpace = true) : importText (d.json.text ++ blank) r =
      if d.json.depth ≤ Json.maxDepth then importSchema d r else .error .invalidJson := by
  rw [importText, ofText?_json d spaces]
  by_cases deep : d.json.depth ≤ Json.maxDepth
  · rw [if_pos deep, if_pos deep]
  · rw [if_neg deep, if_neg deep]

theorem importText_sorted_json (d : Document) (r : Registry) {blank : String}
    (spaces : blank.toList.all Json.isSpace = true) :
    importText (d.json.sorted.text ++ blank) r = importText (d.json.text ++ blank) r := by
  rw [importText, ofText?_sorted_json d spaces, importText]

end Exchange

open Exchange

/-- All ways that a schema takes through JSON, the printed report among them, end where its document
does, if that nests no deeper than texts may. -/
theorem Report.importText_schema (s : Schema) (r : Registry)
    (distinct : (s.names.map Text.trim).Nodup) :
    ∃ d, exportSchema s r = .ok d ∧ (d.json.depth ≤ Json.maxDepth →
      (∃ text, exportText s r = .ok text ∧ importText text r = importSchema d r) ∧
      (∃ j, exportJson s r = .ok j ∧ importJson j r = importSchema d r ∧
        importJson j.sorted r = importSchema d r ∧
        importText j.sorted.text r = importSchema d r) ∧
      ∃ line, Report.schema .json r s = .ok line ∧ importText line r = importSchema d r) := by
  obtain ⟨d, written, _⟩ := importSchema_settles (r := r) r distinct
  refine ⟨d, written, fun shallow => ?_⟩
  have json : exportJson s r = .ok d.json := by rw [exportJson, written]; rfl
  have read : ∀ blank : String, blank.toList.all Json.isSpace = true →
      importText (d.json.text ++ blank) r = importSchema d r := by
    intro blank spaces
    rw [importText_json d r spaces, if_pos shallow]
  have sorted : ∀ blank : String, blank.toList.all Json.isSpace = true →
      importText (d.json.sorted.text ++ blank) r = importSchema d r := by
    intro blank spaces
    rw [importText_sorted_json d r spaces, read blank spaces]
  refine ⟨⟨d.json.text, ?_, ?_⟩, ⟨d.json, json, importJson_json d r, ?_, ?_⟩,
    ⟨d.json.sorted.text ++ "\n", ?_, sorted "\n" (by decide)⟩⟩
  · rw [exportText, json]
    rfl
  · simpa using read "" (by decide)
  · rw [importJson_sorted, importJson_json]
  · simpa using sorted "" (by decide)
  · rw [Report.schema, json]
    rfl

/-- An identifier with escapes of its own. -/
def markId : String := "\x7b\"value_factory_class\":\"Märkte\\\"\\u0001\"\x7d"

def Registry.ofMarks : Registry := ⟨[.mk markId .int64 none .date], by simp⟩

/-- Names and metadata with quotes, backslashes, control characters and characters beyond ASCII. -/
def Schema.ofMarks : Schema := ⟨[
  ⟨.plain .string, "row \"key\"", some "a\\b\x01\t\n", by decide⟩,
  ⟨.list (.logical markId .int64 none), "Länge 𝄞", some "\\", by decide⟩]⟩

theorem Report.importText_schema_ofMarks : ∃ line d, Report.schema .json .ofMarks .ofMarks = .ok line ∧
    exportSchema .ofMarks .ofMarks = .ok d ∧ importText line .ofMarks = importSchema d .ofMarks := by
  obtain ⟨d, written, paths⟩ := Report.importText_schema .ofMarks .ofMarks (by decide)
  have shallow : d.json.depth ≤ Json.maxDepth := by
    cases written
    decide
  obtain ⟨_, _, line, printed, read⟩ := paths shallow
  exact ⟨line, d, printed, written, read⟩

end LogicalTable
