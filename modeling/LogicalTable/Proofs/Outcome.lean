import LogicalTable.Error
import Mathlib.Data.List.Forall2

/-! Computations whose success is decided by a condition that is known before they run, and
computations of which only the outcome is described. -/
namespace LogicalTable

/-- The computation gives `a` if `p` holds, and otherwise fails in a way that `fault` describes. -/
structure Settles (fault : ε → Prop) (p : Prop) (a : α) (x : Except ε α) : Prop where
  success : p → x = .ok a
  failure : ¬ p → ∃ e, fault e ∧ x = .error e

namespace Settles

variable {fault : ε → Prop} {p q : Prop} {a : α} {b : β} {x : Except ε α}

theorem ok (fault : ε → Prop) (a : α) : Settles fault True a (.ok a) :=
  ⟨fun _ => rfl, fun h => (h trivial).elim⟩

theorem error {e : ε} (h : fault e) (hp : ¬ p) : Settles fault p a (.error e) :=
  ⟨fun h => (hp h).elim, fun _ => ⟨e, h, rfl⟩⟩

theorem congr (h : Settles fault p a x) (hpq : p ↔ q) : Settles fault q a x :=
  ⟨fun hq => h.success (hpq.2 hq), fun hq => h.failure fun hp => hq (hpq.1 hp)⟩

/-- What succeeded tells that the condition holds. -/
theorem of_ok (h : Settles fault p a x) {b : α} (hx : x = .ok b) : p ∧ a = b := by
  by_cases hp : p
  · exact ⟨hp, Except.ok.inj ((h.success hp).symm.trans hx)⟩
  · obtain ⟨e, _, failed⟩ := h.failure hp
    cases failed.symm.trans hx

theorem given (hq : q) (h : Settles fault p a x) : Settles fault (q ∧ p) a x :=
  h.congr ⟨fun hp => ⟨hq, hp⟩, fun hp => hp.2⟩

theorem forall_nil {r : γ → Prop} : Settles fault (∀ c ∈ ([] : List γ), r c) a (.ok a) :=
  (ok fault a).congr ⟨fun _ _ h => (List.not_mem_nil h).elim, fun _ => trivial⟩

theorem forall_cons {r : γ → Prop} {c : γ} {cs : List γ}
    (h : Settles fault (r c ∧ ∀ d ∈ cs, r d) a x) : Settles fault (∀ d ∈ c :: cs, r d) a x :=
  h.congr List.forall_mem_cons.symm

/-- What comes second matters only where the first computation succeeds. -/
theorem bind {f : α → Except ε β} (hx : Settles fault p a x)
    (hf : p → Settles fault q b (f a)) : Settles fault (p ∧ q) b (x >>= f) := by
  constructor
  · rintro ⟨hp, hq⟩
    rw [hx.success hp, ok_bind]
    exact (hf hp).success hq
  · intro h
    by_cases hp : p
    · rw [hx.success hp, ok_bind]
      exact (hf hp).failure fun hq => h ⟨hp, hq⟩
    · obtain ⟨e, he, h⟩ := hx.failure hp
      exact ⟨e, he, by rw [h, error_bind]⟩

theorem andThen {f : α → Except ε β} (hx : Settles fault p a x) (hf : p → f a = .ok b) :
    Settles fault p b (x >>= f) := by
  refine (hx.bind (q := True) fun hp => ?_).congr (and_iff_left trivial)
  rw [hf hp]
  exact ok fault b

theorem map (f : α → β) (hx : Settles fault p a x) : Settles fault p (f a) (x.map f) := by
  constructor
  · intro hp
    rw [hx.success hp]
    rfl
  · intro hp
    obtain ⟨e, he, h⟩ := hx.failure hp
    exact ⟨e, he, by rw [h]; rfl⟩

theorem orFail (wrap : ε → δ) {wide : δ → Prop} (hx : Settles fault p a x)
    (hw : ∀ e, fault e → wide (wrap e)) : Settles wide p a (orFail wrap x) := by
  constructor
  · intro hp
    exact orFail_eq_ok.2 (hx.success hp)
  · intro hp
    obtain ⟨e, he, h⟩ := hx.failure hp
    exact ⟨wrap e, hw e he, orFail_eq_error.2 ⟨e, h, rfl⟩⟩

end Settles

/-- A value that the computation gives satisfies `good`, and a failure of it satisfies `fault`. -/
structure Yields (fault : ε → Prop) (good : α → Prop) (x : Except ε α) : Prop where
  value : ∀ a, x = .ok a → good a
  failure : ∀ e, x = .error e → fault e

namespace Yields

variable {fault : ε → Prop} {good : α → Prop} {a : α} {x : Except ε α}

theorem ok (h : good a) : Yields fault good (.ok a) := by
  constructor
  · rintro b ⟨⟩
    exact h
  · rintro e ⟨⟩

theorem error {e : ε} (h : fault e) : Yields fault good (.error e) := by
  constructor
  · rintro b ⟨⟩
  · rintro f ⟨⟩
    exact h

theorem bind {better : β → Prop} {f : α → Except ε β} (hx : Yields fault good x)
    (hf : ∀ a, good a → Yields fault better (f a)) : Yields fault better (x >>= f) := by
  cases x with
  | ok a => exact hf a (hx.value a rfl)
  | error e => exact error (hx.failure e rfl)

theorem map {better : β → Prop} {f : α → β} (hx : Yields fault good x)
    (hf : ∀ a, good a → better (f a)) : Yields fault better (x.map f) := by
  cases x with
  | ok a => exact ok (hf a (hx.value a rfl))
  | error e => exact error (hx.failure e rfl)

theorem imp {wide : ε → Prop} {better : α → Prop} (hx : Yields fault good x)
    (hf : ∀ e, fault e → wide e) (hg : ∀ a, good a → better a) : Yields wide better x :=
  ⟨fun a h => hg a (hx.value a h), fun e h => hf e (hx.failure e h)⟩

theorem orFail {wide : δ → Prop} (wrap : ε → δ) (hx : Yields fault good x)
    (hw : ∀ e, fault e → wide (wrap e)) : Yields wide good (orFail wrap x) := by
  cases x with
  | ok a => exact ok (hx.value a rfl)
  | error e => exact error (hw e (hx.failure e rfl))

theorem mapM {fault : α → ε → Prop} {good : α → β → Prop} {f : α → Except ε β}
    (h : ∀ a, Yields (fault a) (good a) (f a)) (as : List α) :
    Yields (fun e => ∃ a ∈ as, fault a e) (List.Forall₂ good as) (as.mapM f) := by
  induction as with
  | nil => exact ok .nil
  | cons a as ih =>
    rw [List.mapM_cons]
    refine bind ((h a).imp (fun e he => ⟨a, List.mem_cons_self, he⟩) fun _ => id) fun b hb => ?_
    refine bind (ih.imp ?_ fun _ => id) fun bs hbs => ok (.cons hb hbs)
    rintro e ⟨c, hc, he⟩
    exact ⟨c, List.mem_cons_of_mem a hc, he⟩

end Yields

theorem mapM_forall₂ {f : α → Except ε β} {P : α → β → Prop} :
    ∀ {l : List α}, (∀ a ∈ l, ∃ b, f a = .ok b ∧ P a b) →
      ∃ bs, l.mapM f = .ok bs ∧ List.Forall₂ P l bs
  | [], _ => ⟨[], rfl, .nil⟩
  | a :: l, h => by
    obtain ⟨⟨b, hb, pb⟩, rest⟩ := List.forall_mem_cons.1 h
    obtain ⟨bs, hbs, pbs⟩ := mapM_forall₂ rest
    exact ⟨b :: bs, by rw [List.mapM_cons, hb, ok_bind, hbs]; rfl, .cons pb pbs⟩

theorem map_eq_ok {x : Except ε α} {f : α → β} {b : β} :
    x.map f = .ok b ↔ ∃ a, x = .ok a ∧ f a = b := by
  constructor
  · intro h
    cases x with
    | error e => cases h
    | ok a => exact ⟨a, rfl, Except.ok.inj h⟩
  · rintro ⟨a, rfl, rfl⟩
    rfl

section Lists

variable {R : α → β → Prop} {as : List α} {bs : List β}

theorem exists_forall₂ : ∀ {as : List α}, (∀ a ∈ as, ∃ b, R a b) → ∃ bs, List.Forall₂ R as bs
  | [], _ => ⟨[], .nil⟩
  | a :: as, h => by
    obtain ⟨⟨b, hb⟩, rest⟩ := List.forall_mem_cons.1 h
    obtain ⟨bs, hbs⟩ := exists_forall₂ rest
    exact ⟨b :: bs, .cons hb hbs⟩

theorem exists_right (h : List.Forall₂ R as bs) {a : α} (ha : a ∈ as) : ∃ b ∈ bs, R a b := by
  obtain ⟨i, hi, rfl⟩ := List.getElem_of_mem ha
  have hb : i < bs.length := h.length_eq ▸ hi
  exact ⟨bs[i], List.getElem_mem hb, h.get hi hb⟩

theorem forall₂_trans {P : β → γ → Prop} {Q : α → γ → Prop} {cs : List γ}
    (h : List.Forall₂ R as bs) (next : List.Forall₂ P bs cs)
    (through : ∀ a b c, R a b → P b c → Q a c) : List.Forall₂ Q as cs := by
  induction h generalizing cs with
  | nil =>
    cases next
    exact .nil
  | cons head _ ih =>
    obtain _ | ⟨here, rest⟩ := next
    exact .cons (through _ _ _ head here) (ih rest)

theorem getElem?_forall₂ (h : List.Forall₂ R as bs) (i : Nat) :
    as[i]? = none ∧ bs[i]? = none ∨ ∃ a b, as[i]? = some a ∧ bs[i]? = some b ∧ R a b := by
  induction h generalizing i with
  | nil => exact Or.inl ⟨rfl, rfl⟩
  | cons head _ ih =>
    cases i with
    | zero => exact Or.inr ⟨_, _, rfl, rfl, head⟩
    | succ i => exact ih i

/-- Results that differ by a function one by one differ by it as a whole. -/
theorem mapM_eq_map {f : α → Except ε γ} {g : β → Except ε δ} {change : γ → δ}
    (h : List.Forall₂ (fun a b => g b = (f a).map change) as bs) :
    bs.mapM g = (as.mapM f).map (List.map change) := by
  induction h with
  | nil => rfl
  | @cons a b as bs head _ ih =>
    rw [List.mapM_cons, List.mapM_cons, head, ih]
    cases f a with
    | error e => rfl
    | ok c => cases as.mapM f <;> rfl

theorem forall₂_of_mapM {f : α → Except ε β} (h : as.mapM f = .ok bs) :
    List.Forall₂ (fun a b => f a = .ok b) as bs := by
  induction as generalizing bs with
  | nil =>
    cases h
    exact .nil
  | cons a as ih =>
    rw [List.mapM_cons] at h
    obtain ⟨b, hb, h⟩ := bind_eq_ok.1 h
    obtain ⟨bs, hbs, ⟨⟩⟩ := bind_eq_ok.1 h
    exact .cons hb (ih hbs)

theorem mapM_of_forall₂ {f : α → Except ε β} (h : List.Forall₂ (fun a b => f a = .ok b) as bs) :
    as.mapM f = .ok bs := by
  induction h with
  | nil => rfl
  | cons head _ ih =>
    rw [List.mapM_cons, head, ok_bind, ih]
    rfl

/-- Either all of a list succeed, or the first failure is the failure of the whole. -/
theorem mapM_cases (f : α → Except ε β) (as : List α) :
    (∃ bs, List.Forall₂ (fun a b => f a = .ok b) as bs ∧ as.mapM f = .ok bs) ∨
    (∃ before a after e, as = before ++ a :: after ∧ (∀ b ∈ before, ∃ c, f b = .ok c) ∧
      f a = .error e ∧ as.mapM f = .error e) := by
  induction as with
  | nil => exact Or.inl ⟨[], .nil, rfl⟩
  | cons a as ih =>
    cases head : f a with
    | error e =>
      refine Or.inr ⟨[], a, as, e, rfl, fun b hb => (List.not_mem_nil hb).elim, head, ?_⟩
      rw [List.mapM_cons, head, error_bind]
    | ok b =>
      rcases ih with ⟨bs, all, _⟩ | ⟨before, c, after, e, rfl, earlier, here, whole⟩
      · exact Or.inl ⟨b :: bs, .cons head all, mapM_of_forall₂ (.cons head all)⟩
      · refine Or.inr ⟨a :: before, c, after, e, rfl, ?_, here, ?_⟩
        · exact List.forall_mem_cons.2 ⟨⟨b, head⟩, earlier⟩
        · rw [List.mapM_cons, head, ok_bind, whole, error_bind]

theorem mapM_related {f : γ → Except ε α} {g : γ → Except ε β} {cs : List γ}
    (each : ∀ c b, g c = .ok b → ∃ a, f c = .ok a ∧ R a b) (h : cs.mapM g = .ok bs) :
    ∃ as, cs.mapM f = .ok as ∧ List.Forall₂ R as bs := by
  have results := forall₂_of_mapM h
  clear h
  induction results with
  | nil => exact ⟨[], rfl, .nil⟩
  | @cons c b _ _ head _ ih =>
    obtain ⟨a, ha, related⟩ := each c b head
    obtain ⟨as, has, all⟩ := ih
    refine ⟨a :: as, ?_, .cons related all⟩
    rw [List.mapM_cons, ha, ok_bind, has]
    rfl

end Lists

end LogicalTable
