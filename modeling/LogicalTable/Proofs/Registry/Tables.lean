import LogicalTable.Proofs.Registry.Runs
import Mathlib.Data.List.Basic
import Mathlib.Logic.Function.Basic

/-! A registry kept as three tables: converters by identifier, identifiers by value type, and the order
of registration. They stay in step with the list of converters, whatever the requests. -/
namespace LogicalTable.Registry

/-- The tables, each changed on its own. -/
structure Tables where
  byId : String → Option Converter
  byValue : ValueType → Option String
  order : List String

namespace Tables

def empty : Tables := ⟨fun _ => none, fun _ => none, []⟩

/-- Serves a value type by an identifier, unless another one serves it already. -/
def serve (ts : Tables) (v : ValueType) (id : String) : Tables :=
  { ts with byValue := Function.update ts.byValue v ((ts.byValue v).or (some id)) }

def insert (ts : Tables) (c : Converter) : Tables :=
  { ts with byId := Function.update ts.byId c.id (some c) }

def append (ts : Tables) (id : String) : Tables := { ts with order := ts.order ++ [id] }

/-- A request that looks at the table of identifiers and, for a new one, writes all three tables in
turn. -/
def register (ts : Tables) (q : Request) : Tables × Except RegistryError Converter :=
  match q.storage with
  | .logical _ _ _ => (ts, .error (.logicalStorage q.id))
  | .plain s =>
    match ts.byId q.id with
    | some c =>
      if agrees c s q.dictKey q.factory then (ts, .ok c)
      else (ts, .error (.conflict q.id c.valueType.name c.storage.text))
    | none =>
      let c := .mk q.id s q.dictKey q.factory
      (((ts.serve c.valueType q.id).insert c).append q.id, .ok c)

def run (ts : Tables) (qs : List Request) : Tables := qs.foldl (fun ts q => (ts.register q).1) ts

def iter (ts : Tables) : List Converter := ts.order.filterMap ts.byId

end Tables

def tables (r : Registry) : Tables where
  byId := r.find?
  byValue v := (r.converters.find? (·.valueType = v)).map Converter.id
  order := r.ids

@[simp] theorem byId_tables (r : Registry) (id : String) : r.tables.byId id = r.find? id := rfl

@[simp] theorem byValue_tables (r : Registry) (v : ValueType) :
    r.tables.byValue v = (r.converters.find? (·.valueType = v)).map Converter.id := rfl

@[simp] theorem order_tables (r : Registry) : r.tables.order = r.ids := rfl

theorem tables_push (r : Registry) (c : Converter) (unknown : r.find? c.id = none) :
    (r.push c unknown).tables = ((r.tables.serve c.valueType c.id).insert c).append c.id := by
  have byId : (r.push c unknown).find? = Function.update r.find? c.id (some c) := by
    funext id
    by_cases h : id = c.id
    · subst h
      rw [find?_push, Function.update_self]
    · rw [Function.update_of_ne h, find?, push, List.find?_append,
        List.find?_cons_of_neg (by simpa using Ne.symm h)]
      exact Option.or_none
  have byValue : (r.push c unknown).tables.byValue = Function.update r.tables.byValue c.valueType
      ((r.tables.byValue c.valueType).or (some c.id)) := by
    funext v
    rw [byValue_tables, push, List.find?_append, Option.map_or]
    by_cases h : v = c.valueType
    · subst h
      rw [Function.update_self, List.find?_cons_of_pos (by simp)]
      rfl
    · rw [Function.update_of_ne h, List.find?_cons_of_neg (by simpa using Ne.symm h)]
      exact Option.or_none
  exact congr (congrArg₂ Tables.mk byId byValue) List.map_append

/-- Success, repetition and conflict all leave the tables in step. -/
theorem register_tables (r : Registry) (q : Request) :
    r.tables.register q = ((r.attempt q).1.tables, (r.attempt q).2) := by
  cases ha : r.attempt q with
  | mk s o =>
    rw [Tables.register]
    cases attempt_cases ha with
    | logical id t c hq => rw [hq]
    | known t c hq found same => simp only [hq, byId_tables, found, same, if_true]
    | conflict t c hq found other =>
      simp only [hq, byId_tables, found, other, Bool.false_eq_true, if_false]
    | new t unknown hq =>
      simp only [hq, byId_tables, unknown]
      exact congrArg (·, _) (tables_push r (.mk q.id t q.dictKey q.factory) unknown).symm

theorem tables_run (r : Registry) (qs : List Request) : (r.run qs).tables = r.tables.run qs := by
  induction qs generalizing r with
  | nil => rfl
  | cons q qs ih =>
    rw [run, Tables.run, List.foldl_cons, List.foldl_cons, register_tables]
    exact ih _

theorem iter_tables (r : Registry) : r.tables.iter = r.converters := by
  have found : ∀ c ∈ r.converters, (r.tables.byId ∘ Converter.id) c = some c := by
    intro c hc
    exact find?_of_mem hc
  rw [Tables.iter, order_tables, ids, List.filterMap_map, List.filterMap_congr found,
    List.filterMap_some]

/-- What a registry answers once the given requests have succeeded, in their order. -/
structure Records (r : Registry) (done : List (Request × Converter)) : Prop where
  order : r.ids = (done.map (·.1.id)).eraseDups
  listed : r.tables.iter.map Converter.id = r.ids
  known : ∀ id, id ∈ r.ids ↔ ∃ c, r.find? id = some c
  converter : ∀ id c, r.find? id = some c →
    c.id = id ∧ c.logicalType = .logical id c.storage (some c)
  earliest : ∀ v t, r.logicalFor v = .ok t ↔ ∃ before id after c, r.ids = before ++ id :: after ∧
    r.find? id = some c ∧ c.valueType = v ∧ c.logicalType = t ∧
    ∀ i ∈ before, ∀ b, r.find? i = some b → b.valueType ≠ v
  served : ∀ v, (∃ t, r.logicalFor v = .ok t) ↔ ∃ id c, r.find? id = some c ∧ c.valueType = v
  returned : ∀ e ∈ done, r.find? e.1.id = some e.2
  repeated : ∀ e ∈ done, ∀ p, Request.Matches p e.1 → r.attempt p = (r, .ok e.2)

theorem records_run (qs : List Request) : (empty.run qs).Records (empty.successes qs) where
  order := ids_run qs
  listed := congrArg _ (iter_tables _)
  known _ := mem_ids_iff
  converter id c found := by
    cases id_of_find? found
    exact ⟨rfl, rfl⟩
  earliest _ _ := logicalFor_eq_ok_iff
  served _ := exists_logicalFor_iff
  returned e he := by
    obtain ⟨_, _, found, _⟩ := registered_of_success he
    exact found
  repeated e he p m := by
    obtain ⟨t, hq, found, same⟩ := registered_of_success he
    exact attempt_known hq found same m

/-- After any run of requests from the empty registry: the registry records what succeeded, its three
tables have followed each request, a request that fails changes nothing, and no further run takes back
an answer. -/
theorem run_invariant (qs : List Request) :
    (empty.run qs).Records (empty.successes qs) ∧
    Tables.empty.run qs = (empty.run qs).tables ∧
    (∀ q ts e, (Tables.empty.run qs).register q = (ts, .error e) →
      (empty.run qs).attempt q = (empty.run qs, .error e) ∧ ts = Tables.empty.run qs) ∧
    ∀ more, (empty.run qs).AnsweredBy (empty.run (qs ++ more)) := by
  have followed : Tables.empty.run qs = (empty.run qs).tables := (tables_run empty qs).symm
  refine ⟨records_run qs, followed, ?_, ?_⟩
  · intro q ts e failed
    rw [followed, register_tables] at failed
    cases ha : (empty.run qs).attempt q with
    | mk s o =>
      rw [ha] at failed
      cases failed
      have same : s = empty.run qs := by
        cases attempt_cases ha <;> rfl
      subst same
      exact ⟨rfl, followed.symm⟩
  · intro more
    rw [run_append]
    exact (extends_run _ more).answers

end LogicalTable.Registry
