import LogicalTable.Registry.Basic
import Mathlib.Data.List.Induction

/-! Runs of registrations, some of which succeed and some fail. A registry only ever grows at its end,
so that what it has answered it goes on answering. -/
namespace LogicalTable.Registry

/-- A request to register a factory under an identifier, for any storage type. -/
structure Request where
  id : String
  storage : DataType
  dictKey : Option DictKey
  factory : ValueFactory

/-- Whether two requests ask for the same, converters within their storage types apart. -/
structure Request.Matches (p q : Request) : Prop where
  id : p.id = q.id
  storage : (p.storage == q.storage) = true
  valueType : p.factory.valueType = q.factory.valueType
  dictKey : p.dictKey = q.dictKey

/-- The registry behind a request, which a failure leaves as it was, and the outcome. -/
def attempt (r : Registry) (q : Request) : Registry × Except RegistryError Converter :=
  match r.registerType q.id q.storage q.dictKey q.factory with
  | .ok (s, c) => (s, .ok c)
  | .error e => (r, .error e)

def run (r : Registry) (qs : List Request) : Registry :=
  qs.foldl (fun r q => (r.attempt q).1) r

/-- The requests of a run that succeed, each with the converter that it returns. -/
def successes (r : Registry) : List Request → List (Request × Converter)
  | [] => []
  | q :: qs =>
    match r.attempt q with
    | (s, .ok c) => (q, c) :: s.successes qs
    | (s, .error _) => s.successes qs

/-- What one request can do: the registry behind it, and its outcome. -/
inductive Attempt (r : Registry) (q : Request) :
    Registry → Except RegistryError Converter → Prop where
  | logical (id : String) (s : Shape) (c : Option Converter) : q.storage = .logical id s c →
      Attempt r q r (.error (.logicalStorage q.id))
  | known (s : Shape) (c : Converter) : q.storage = .plain s → r.find? q.id = some c →
      agrees c s q.dictKey q.factory = true → Attempt r q r (.ok c)
  | conflict (s : Shape) (c : Converter) : q.storage = .plain s → r.find? q.id = some c →
      agrees c s q.dictKey q.factory = false →
      Attempt r q r (.error (.conflict q.id c.valueType.name c.storage.text))
  | new (s : Shape) (unknown : r.find? q.id = none) : q.storage = .plain s →
      Attempt r q (r.push (.mk q.id s q.dictKey q.factory) unknown)
        (.ok (.mk q.id s q.dictKey q.factory))

section Steps

variable {r s : Registry} {q : Request} {o : Except RegistryError Converter}

theorem registerShape_known {id : String} {t : Shape} {k : Option DictKey} {f : ValueFactory}
    {c : Converter} (found : r.find? id = some c) : r.registerShape id t k f =
      if agrees c t k f then .ok (r, c)
      else .error (.conflict id c.valueType.name c.storage.text) := by
  rw [registerShape]
  split
  · next d hd =>
    cases hd.symm.trans found
    rfl
  · next hd => cases hd.symm.trans found

theorem registerShape_new {id : String} {t : Shape} {k : Option DictKey} {f : ValueFactory}
    (unknown : r.find? id = none) :
    r.registerShape id t k f = .ok (r.push (.mk id t k f) unknown, .mk id t k f) := by
  rw [registerShape]
  split
  · next d hd => cases hd.symm.trans unknown
  · rfl

theorem attempt_cases (h : r.attempt q = (s, o)) : Attempt r q s o := by
  obtain ⟨id, storage, dictKey, factory⟩ := q
  cases storage with
  | logical i t c =>
    cases h
    exact .logical i t c rfl
  | plain t =>
    rw [attempt, registerType] at h
    cases found : r.find? id with
    | some c =>
      rw [registerShape_known found] at h
      cases same : agrees c t dictKey factory with
      | true =>
        rw [same] at h
        cases h
        exact .known t c rfl found same
      | false =>
        rw [same] at h
        cases h
        exact .conflict t c rfl found same
    | none =>
      rw [registerShape_new found] at h
      cases h
      exact .new t found rfl

end Steps

section Growth

variable {r s : Registry}

/-- Whether a registry has the converters of another one first. -/
def Extends (s r : Registry) : Prop := r.converters <+: s.converters

theorem Extends.refl (r : Registry) : r.Extends r := List.prefix_refl _

theorem Extends.trans {t : Registry} (h : s.Extends r) (k : t.Extends s) : t.Extends r :=
  List.IsPrefix.trans h k

theorem extends_of_attempt {q : Request} {o : Except RegistryError Converter}
    (h : r.attempt q = (s, o)) : s.Extends r := by
  cases attempt_cases h with
  | logical => exact .refl r
  | known => exact .refl r
  | conflict => exact .refl r
  | new => exact List.prefix_append _ _

theorem extends_run (r : Registry) (qs : List Request) : (r.run qs).Extends r := by
  induction qs generalizing r with
  | nil => exact .refl r
  | cons q qs ih => exact (extends_of_attempt rfl).trans (ih _)

/-- What is found among the first converters is found among all. -/
theorem Extends.find? (h : s.Extends r) {p : Converter → Bool} {c : Converter}
    (found : r.converters.find? p = some c) : s.converters.find? p = some c := by
  obtain ⟨more, hm⟩ := h
  rw [← hm, List.find?_append, found]
  rfl

theorem converterFor_eq_ok {v : ValueType} {c : Converter} :
    r.converterFor v = .ok c ↔ r.converters.find? (·.valueType = v) = some c := by
  rw [converterFor]
  cases r.converters.find? (·.valueType = v) <;> simp

theorem logicalFor_eq_ok {v : ValueType} {t : DataType} :
    r.logicalFor v = .ok t ↔ ∃ c, r.converterFor v = .ok c ∧ c.logicalType = t := by
  rw [logicalFor]
  cases r.converterFor v <;> simp [Except.map]

theorem logicalById_eq_ok {id : String} {t : DataType} :
    r.logicalById id = .ok t ↔ ∃ c, r.find? id = some c ∧ c.logicalType = t := by
  rw [logicalById]
  cases r.find? id <;> simp

theorem logicalByName_eq_ok {name : String} {t : DataType} :
    r.logicalByName name = .ok t ↔ ∃ c, (r.converters.find? fun c =>
      c.valueType.name = name || c.valueType.shortName = name) = some c ∧ c.logicalType = t := by
  rw [logicalByName]
  cases r.converters.find? _ <;> simp

/-- Whether the answers that one registry gives are given by another one too. -/
structure AnsweredBy (r s : Registry) : Prop where
  find? : ∀ id c, r.find? id = some c → s.find? id = some c
  logicalFor : ∀ v t, r.logicalFor v = .ok t → s.logicalFor v = .ok t
  logicalById : ∀ id t, r.logicalById id = .ok t → s.logicalById id = .ok t
  logicalByName : ∀ name t, r.logicalByName name = .ok t → s.logicalByName name = .ok t

theorem Extends.answers (h : s.Extends r) : r.AnsweredBy s where
  find? _ _ found := h.find? found
  logicalFor v t answered := by
    obtain ⟨c, hc, ht⟩ := logicalFor_eq_ok.1 answered
    exact logicalFor_eq_ok.2 ⟨c, converterFor_eq_ok.2 (h.find? (converterFor_eq_ok.1 hc)), ht⟩
  logicalById id t answered := by
    obtain ⟨c, hc, ht⟩ := logicalById_eq_ok.1 answered
    exact logicalById_eq_ok.2 ⟨c, h.find? hc, ht⟩
  logicalByName name t answered := by
    obtain ⟨c, hc, ht⟩ := logicalByName_eq_ok.1 answered
    exact logicalByName_eq_ok.2 ⟨c, h.find? hc, ht⟩

end Growth

section Content

variable {r s : Registry} {id : String} {c : Converter}

theorem mem_ids_iff : id ∈ r.ids ↔ ∃ c, r.find? id = some c := by
  rw [← not_iff_not, ← find?_eq_none, not_exists, Option.eq_none_iff_forall_not_mem]
  rfl

theorem find?_of_mem (h : c ∈ r.converters) : r.find? c.id = some c := by
  obtain ⟨before, after, split⟩ := List.append_of_mem h
  have distinct := r.distinct
  rw [split, List.map_append, List.map_cons, List.nodup_append] at distinct
  rw [find?, split, List.find?_append, List.find?_cons_of_pos (by simp), List.find?_eq_none.2]
  · rfl
  · intro b hb same
    exact distinct.2.2 b.id (List.mem_map_of_mem hb) c.id List.mem_cons_self (by simpa using same)

theorem mem_of_find? (h : r.find? id = some c) : c ∈ r.converters := List.mem_of_find?_eq_some h

/-- A value type is served by the first identifier whose converter is for it. -/
theorem logicalFor_eq_ok_iff {v : ValueType} {t : DataType} :
    r.logicalFor v = .ok t ↔ ∃ before id after c, r.ids = before ++ id :: after ∧
      r.find? id = some c ∧ c.valueType = v ∧ c.logicalType = t ∧
      ∀ i ∈ before, ∀ b, r.find? i = some b → b.valueType ≠ v := by
  rw [logicalFor_eq_ok]
  constructor
  · rintro ⟨c, hc, rfl⟩
    obtain ⟨serves, before, after, split, others⟩ :=
      List.find?_eq_some_iff_append.1 (converterFor_eq_ok.1 hc)
    refine ⟨before.map Converter.id, c.id, after.map Converter.id, c, ?_, ?_, by simpa using serves,
      rfl, ?_⟩
    · rw [ids, split, List.map_append, List.map_cons]
    · exact find?_of_mem (split ▸ List.mem_append_right _ List.mem_cons_self)
    · intro i hi b hb
      obtain ⟨d, hd, rfl⟩ := List.mem_map.1 hi
      cases (find?_of_mem (split ▸ List.mem_append_left _ hd)).symm.trans hb
      simpa using others b hd
  · rintro ⟨before, id, after, c, split, found, serves, rfl, others⟩
    obtain ⟨front, rest, hconv, hfront, hrest⟩ := List.map_eq_append_iff.1 split
    obtain ⟨d, back, rfl, hd, -⟩ := List.map_eq_cons_iff.1 hrest
    have mem : d ∈ r.converters := hconv ▸ List.mem_append_right _ List.mem_cons_self
    cases (hd ▸ find?_of_mem mem).symm.trans found
    refine ⟨c, converterFor_eq_ok.2 (List.find?_eq_some_iff_append.2 ?_), rfl⟩
    refine ⟨by simpa using serves, front, back, hconv, ?_⟩
    intro b hb
    have := others b.id (hfront ▸ List.mem_map_of_mem hb) b
      (find?_of_mem (hconv ▸ List.mem_append_left _ hb))
    simpa using this

theorem exists_logicalFor_iff {v : ValueType} :
    (∃ t, r.logicalFor v = .ok t) ↔ ∃ id c, r.find? id = some c ∧ c.valueType = v := by
  constructor
  · rintro ⟨t, h⟩
    obtain ⟨_, id, _, c, _, found, serves, _⟩ := logicalFor_eq_ok_iff.1 h
    exact ⟨id, c, found, serves⟩
  · rintro ⟨id, c, found, serves⟩
    have served : (r.converters.find? (·.valueType = v)).isSome :=
      List.find?_isSome.2 ⟨c, mem_of_find? found, decide_eq_true serves⟩
    obtain ⟨d, hd⟩ := Option.isSome_iff_exists.1 served
    exact ⟨d.logicalType, logicalFor_eq_ok.2 ⟨d, converterFor_eq_ok.2 hd, rfl⟩⟩

end Content

section History

variable {r s : Registry} {q p : Request} {c : Converter}

theorem run_append (r : Registry) (qs ps : List Request) :
    r.run (qs ++ ps) = (r.run qs).run ps := List.foldl_append

theorem successes_append (r : Registry) (qs ps : List Request) :
    r.successes (qs ++ ps) = r.successes qs ++ (r.run qs).successes ps := by
  induction qs generalizing r with
  | nil => rfl
  | cons q qs ih =>
    rw [List.cons_append, successes, successes, run, List.foldl_cons]
    cases r.attempt q with
    | mk s o =>
      cases o with
      | ok c => exact congrArg _ (ih s)
      | error e => exact ih s

theorem find?_push (r : Registry) (c : Converter) (unknown : r.find? c.id = none) :
    (r.push c unknown).find? c.id = some c := by
  rw [find?] at unknown
  rw [find?, push, List.find?_append, unknown]
  simp

theorem registered_of_attempt (h : r.attempt q = (s, .ok c)) : ∃ t, q.storage = .plain t ∧
    s.find? q.id = some c ∧ agrees c t q.dictKey q.factory = true := by
  cases attempt_cases h with
  | known t c hq found same => exact ⟨t, hq, found, same⟩
  | new t unknown hq =>
    refine ⟨t, hq, find?_push r (.mk q.id t q.dictKey q.factory) unknown, ?_⟩
    simp [agrees, Converter.storage, Converter.valueType, Converter.factory, Converter.dictKey,
      Shape.same_iff]

/-- A request that matches one whose converter is there returns that converter. -/
theorem attempt_known {t : Shape} (hq : q.storage = .plain t) (found : r.find? q.id = some c)
    (same : agrees c t q.dictKey q.factory = true) (m : p.Matches q) :
    r.attempt p = (r, .ok c) := by
  obtain ⟨id, storage, dictKey, factory⟩ := p
  obtain ⟨rfl, hs, hv, rfl⟩ := m
  rw [hq, DataType.beq_iff] at hs
  cases storage with
  | logical => cases hs
  | plain u =>
    have bare : u.bare = t.bare := DataType.plain.inj hs
    simp only [agrees, Bool.and_eq_true, beq_iff_eq, Shape.same_iff] at same hv
    have known : agrees c u q.dictKey factory = true := by
      simp only [agrees, Bool.and_eq_true, beq_iff_eq, Shape.same_iff]
      exact ⟨⟨same.1.1.trans bare.symm, same.1.2.trans hv.symm⟩, same.2⟩
    rw [attempt, registerType, registerShape_known found, known]
    rfl

theorem registered_of_success {qs : List Request} (h : (q, c) ∈ r.successes qs) :
    ∃ t, q.storage = .plain t ∧ (r.run qs).find? q.id = some c ∧
      agrees c t q.dictKey q.factory = true := by
  induction qs generalizing r with
  | nil => cases h
  | cons p ps ih =>
    rw [run, List.foldl_cons]
    rw [successes] at h
    cases ha : r.attempt p with
    | mk s o =>
      rw [ha] at h
      cases o with
      | error e => exact ih h
      | ok d =>
        rcases List.mem_cons.1 h with here | later
        · cases here
          obtain ⟨t, hq, found, same⟩ := registered_of_attempt ha
          exact ⟨t, hq, (extends_run s ps).answers.find? _ _ found, same⟩
        · exact ih later

/-- The identifiers of a registry are those of the requests that succeeded, in the order of the first
success under each. -/
theorem ids_run (qs : List Request) :
    (empty.run qs).ids = ((empty.successes qs).map (·.1.id)).eraseDups := by
  induction qs using List.reverseRecOn with
  | nil => rfl
  | append_singleton qs q ih =>
    have mem : q.id ∈ (empty.run qs).ids ↔ q.id ∈ (empty.successes qs).map (·.1.id) := by
      rw [ih, List.mem_eraseDups]
    rw [run_append, successes_append, List.map_append, List.eraseDups_append, ← ih]
    generalize (empty.successes qs).map (·.1.id) = done at mem
    generalize empty.run qs = r at mem
    rw [run, List.foldl_cons, List.foldl_nil, successes]
    cases ha : r.attempt q with
    | mk s o =>
      cases attempt_cases ha with
      | logical => simp [successes, List.removeAll]
      | conflict => simp [successes, List.removeAll]
      | known t c hq found =>
        have old : q.id ∈ done := mem.1 (mem_ids_iff.2 ⟨c, found⟩)
        simp [successes, List.removeAll, old]
      | new t unknown hq =>
        have fresh : q.id ∉ done := fun old => find?_eq_none.1 unknown (mem.2 old)
        simp [successes, List.removeAll, fresh, ids, push, Converter.id, List.eraseDups_cons]

end History

end LogicalTable.Registry
