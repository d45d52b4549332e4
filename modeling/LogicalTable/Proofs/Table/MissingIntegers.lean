import LogicalTable.Proofs.Table.Sentinels

/-! Sentinels in whole batches. Putting them in and taking them out both replace one kind of slot by
another one in top-level columns of `int32` and `int64`, and keep everything else, so that both follow from
what is true of such replacements. -/
namespace LogicalTable

/-- The types of whole columns that know sentinels. -/
def ArrayType.Numbered (t : ArrayType) : Prop := t = .leaf .int32 ∨ t = .leaf .int64

instance (t : ArrayType) : Decidable t.Numbered := inferInstanceAs (Decidable (_ ∨ _))

theorem ArrayType.Numbered.isMissing_iff {t : ArrayType} (h : t.Numbered) {x : Cell}
    (hx : t.admits x = true) : x.isMissing = true ↔ x = .missing := by
  constructor
  · intro gone
    obtain rfl | ⟨n, rfl⟩ : x = .missing ∨ ∃ n, x = .integer n := by
      rcases h with rfl | rfl
      · exact LeafType.integral_int32.slots x hx
      · exact LeafType.integral_int64.slots x hx
    · rfl
    · cases gone
  · rintro rfl
    rfl

namespace Sentinel

/-- The integer that stands for missing ones in columns of a type. -/
def number : Sentinel → ArrayType → Int
  | min, .leaf .int32 => -0x80000000
  | min, _ => -0x8000000000000000
  | max, .leaf .int32 => 0x7fffffff
  | max, _ => 0x7fffffffffffffff
  | value n, _ => n.toInt

/-- An explicit value does not fit the type of a column. -/
structure Refused (s : Sentinel) (t : ArrayType) (n : Int64) : Prop where
  type : t = .leaf .int32
  value : s = .value n
  range : n.toInt < -0x80000000 ∨ 0x80000000 ≤ n.toInt

/-- The sentinel of a type, where the type knows any. -/
inductive Chosen (s : Sentinel) (t : ArrayType) : Option (For t) → Prop where
  | number (n : For t) : t.Numbered → n.1 = s.number t → Chosen s t (some n)
  | none : ¬ t.Numbered → Chosen s t none

theorem yields_forType (s : Sentinel) (t : ArrayType) :
    Yields (fun e => ∃ n, s.Refused t n ∧ e = .sentinelRange n.toInt)
      (fun n? => (∀ n, ¬ s.Refused t n) ∧ s.Chosen t n?) (s.forType t) := by
  rw [forType.eq_def]
  split
  · cases s with
    | min =>
      refine .ok ⟨?_, .number _ (Or.inl rfl) rfl⟩
      rintro m ⟨_, ⟨⟩, _⟩
    | max =>
      refine .ok ⟨?_, .number _ (Or.inl rfl) rfl⟩
      rintro m ⟨_, ⟨⟩, _⟩
    | value n =>
      rw [forInt32]
      split
      · next inside =>
        refine .ok ⟨?_, .number _ (Or.inl rfl) rfl⟩
        rintro m ⟨_, ⟨⟩, outside⟩
        omega
      · next outside => exact .error ⟨n, ⟨rfl, rfl, by omega⟩, rfl⟩
  · refine .ok ⟨?_, .number _ (Or.inr rfl) (by cases s <;> rfl)⟩
    rintro m ⟨⟨⟩, _, _⟩
  · next not32 not64 =>
    have other : ¬ t.Numbered := fun numbered => numbered.elim not32 not64
    refine .ok ⟨?_, .none other⟩
    intro n refused
    exact not32 refused.type

end Sentinel

/-- One kind of slot is replaced by another one, and all others are kept. -/
structure Cell.Replaced (old new x y : Cell) : Prop where
  replaced : x = old → y = new
  kept : x ≠ old → y = x

namespace Cell.Replaced

variable {old new x y z : Cell}

theorem unique (h : Replaced old new x y) (h' : Replaced old new x z) : y = z := by
  by_cases hx : x = old
  · rw [h.replaced hx, h'.replaced hx]
  · rw [h.kept hx, h'.kept hx]

/-- Nothing is left to be replaced. -/
theorem gone (apart : old ≠ new) (h : Replaced old new x y) : y ≠ old := by
  by_cases hx : x = old
  · rw [h.replaced hx]
    exact apart.symm
  · rw [h.kept hx]
    exact hx

theorem self_iff (apart : old ≠ new) : Replaced old new x x ↔ x ≠ old := by
  constructor
  · intro h
    exact h.gone apart
  · intro hx
    exact ⟨fun same => (hx same).elim, fun _ => rfl⟩

/-- Slots replaced both ways are those replaced back. -/
theorem back (h : Replaced old new x y) (h' : Replaced new old y z) : Replaced new old x z := by
  by_cases hx : x = old
  · have hz := h'.replaced (h.replaced hx)
    exact ⟨fun _ => hz, fun _ => hz.trans hx.symm⟩
  · rw [h.kept hx] at h'
    exact h'

end Cell.Replaced

theorem Cell.replaced_fill (n : Int) (x : Cell) : Replaced .missing (.integer n) x (x.fill n) where
  replaced := by
    rintro rfl
    rfl
  kept hx := by
    cases x with
    | missing => exact (hx rfl).elim
    | _ => rfl

theorem Cell.replaced_drop (n : Int) (x : Cell) : Replaced (.integer n) .missing x (x.drop n) where
  replaced := by
    rintro rfl
    exact if_pos rfl
  kept hx := by
    cases x with
    | integer m => exact if_neg fun same => hx (congrArg Cell.integer same)
    | _ => rfl

/-- In a column of a type that knows sentinels, a kind of slot is replaced, where both kinds may depend on
the number for the type. Another column is kept. -/
structure Chunk.Replaced (s : Sentinel) (old new : Int → Cell) (c d : Chunk) : Prop where
  type : d.type = c.type
  numbers : c.type.Numbered → List.Forall₂
    (Cell.Replaced (old (s.number c.type)) (new (s.number c.type))) c.cells d.cells
  others : ¬ c.type.Numbered → d = c

namespace Chunk

variable {s : Sentinel} {old new : Int → Cell} {c d e : Chunk}

namespace Replaced

theorem size (h : c.Replaced s old new d) : d.size = c.size := by
  by_cases numbered : c.type.Numbered
  · exact (h.numbers numbered).length_eq.symm
  · rw [h.others numbered]

theorem unique (h : c.Replaced s old new d) (h' : c.Replaced s old new e) : d = e := by
  by_cases numbered : c.type.Numbered
  · refine eq_of_cells (h.type.trans h'.type.symm) ?_
    have both := forall₂_trans (h.numbers numbered).flip (h'.numbers numbered)
      fun _ _ _ first second => Cell.Replaced.unique first second
    exact List.forall₂_eq_eq_eq ▸ both
  · rw [h.others numbered, h'.others numbered]

theorem gone (apart : ∀ n, old n ≠ new n) (h : c.Replaced s old new d) (numbered : d.type.Numbered) :
    old (s.number d.type) ∉ d.cells := by
  rw [h.type] at numbered ⊢
  intro left
  obtain ⟨x, _, hx⟩ := exists_right (h.numbers numbered).flip left
  exact hx.gone (apart _) rfl

theorem self_iff (apart : ∀ n, old n ≠ new n) :
    c.Replaced s old new c ↔ (c.type.Numbered → old (s.number c.type) ∉ c.cells) := by
  constructor
  · intro h
    exact h.gone apart
  · intro h
    refine ⟨rfl, fun numbered => List.forall₂_same.2 fun x hx => ?_, fun _ => rfl⟩
    rw [Cell.Replaced.self_iff (apart _)]
    rintro rfl
    exact h numbered hx

theorem back (h : c.Replaced s old new d) (h' : d.Replaced s new old e) : c.Replaced s new old e := by
  refine ⟨h'.type.trans h.type, fun numbered => ?_, fun other => ?_⟩
  · have later := h'.numbers (h.type ▸ numbered)
    rw [h.type] at later
    exact forall₂_trans (h.numbers numbered) later fun _ _ _ => Cell.Replaced.back
  · have kept := h.others other
    rw [← kept]
    exact h'.others (kept ▸ other)

end Replaced

theorem replaced_of_other (other : ¬ c.type.Numbered) : c.Replaced s old new c :=
  ⟨rfl, fun numbered => (other numbered).elim, fun _ => rfl⟩

theorem replaced_of_map {change : Cell → Cell} (numbered : c.type.Numbered) (type : d.type = c.type)
    (cells : d.cells = c.cells.map change)
    (each : ∀ x, Cell.Replaced (old (s.number c.type)) (new (s.number c.type)) x (change x)) :
    c.Replaced s old new d := by
  refine ⟨type, fun _ => ?_, fun other => (other numbered).elim⟩
  rw [cells, List.forall₂_map_right_iff, List.forall₂_same]
  exact fun x _ => each x

/-- How a change of a column comes out: it fails where the sentinel does not fit, and replaces slots where
it does. -/
abbrev Outcome (s : Sentinel) (old new : Int → Cell) (c : Chunk) : Except LayoutError Chunk → Prop :=
  Yields (fun e => ∃ n, s.Refused c.type n ∧ e = .sentinelRange n.toInt)
    fun d => (∀ n, ¬ s.Refused c.type n) ∧ c.Replaced s old new d

theorem outcome_insertSentinel (s : Sentinel) (c : Chunk) :
    c.Outcome s (fun _ => .missing) .integer (c.insertSentinel s) := by
  refine (s.yields_forType c.type).map fun n? chosen => ⟨chosen.1, ?_⟩
  cases chosen.2 with
  | none other => exact replaced_of_other other
  | number n numbered here =>
    have each (x : Cell) : Cell.Replaced .missing (.integer (s.number c.type)) x (x.fill n.1) := by
      rw [← here]
      exact Cell.replaced_fill n.1 x
    exact replaced_of_map numbered rfl rfl each

theorem outcome_removeSentinel (s : Sentinel) (c : Chunk) :
    c.Outcome s .integer (fun _ => .missing) (c.removeSentinel s) := by
  refine (s.yields_forType c.type).map fun n? chosen => ⟨chosen.1, ?_⟩
  cases chosen.2 with
  | none other => exact replaced_of_other other
  | number n numbered here =>
    have each (x : Cell) : Cell.Replaced (.integer (s.number c.type)) .missing x (x.drop n.1) := by
      rw [← here]
      exact Cell.replaced_drop n.1 x
    exact replaced_of_map numbered rfl rfl each

end Chunk

namespace Batch

/-- A column of the batch refuses an explicit value. -/
def Refuses (b : Batch) (s : Sentinel) (n : Int64) : Prop := ∃ c ∈ b.columns, s.Refused c.type n

/-- Slots are replaced in the columns of a batch, with the same schema and as many rows. -/
structure Replaced (s : Sentinel) (old new : Int → Cell) (b d : Batch) : Prop where
  fields : d.fields = b.fields
  size : d.size = b.size
  columns : List.Forall₂ (Chunk.Replaced s old new) b.columns d.columns

/-- Slots of columns that know sentinels may be missing. -/
def MayMiss (b : Batch) : Prop := ∀ f ∈ b.fields, f.type.Numbered → f.nullable = true

section

variable {s : Sentinel} {old new : Int → Cell} {b d e : Batch}

theorem storedBy_replaced {f : Field} {rows : Nat} {c d : Chunk}
    (nullable : f.type.Numbered → f.nullable = true) (stored : f.storedBy rows c = true)
    (h : c.Replaced s old new d) : f.storedBy rows d = true := by
  by_cases numbered : c.type.Numbered
  · simp only [Field.storedBy, Bool.and_eq_true_iff, decide_eq_true_eq] at stored ⊢
    obtain ⟨⟨type, rows⟩, _⟩ := stored
    rw [h.type, h.size, nullable (type ▸ numbered)]
    exact ⟨⟨type, rows⟩, rfl⟩
  · rw [h.others numbered]
    exact stored

/-- Columns with replaced slots can be put together again. -/
theorem ofColumns_replaced (may : b.MayMiss) {cs : List Chunk}
    (h : List.Forall₂ (Chunk.Replaced s old new) b.columns cs) :
    ∃ d, ofColumns b.fields cs = .ok d ∧ b.Replaced s old new d := by
  have nullable := (List.forall₂_and_left _ _).2 ⟨may, Field.allStoredBy_iff.1 b.stored⟩
  have stored := forall₂_trans nullable h fun _ _ _ field replaced =>
    storedBy_replaced field.1 field.2 replaced
  cases h with
  | @cons _ first _ rest here later =>
    rw [← here.size] at stored
    refine ⟨⟨b.fields, first, rest, Field.allStoredBy_iff.2 stored⟩, ?_, rfl, here.size, .cons here later⟩
    exact dif_pos (Field.allStoredBy_iff.2 stored)

theorem eq_of_columns (fields : d.fields = e.fields) (columns : d.columns = e.columns) : d = e := by
  obtain ⟨_, first, rest, _⟩ := d
  cases e
  cases fields
  cases columns
  rfl

namespace Replaced

theorem unique (h : b.Replaced s old new d) (h' : b.Replaced s old new e) : d = e := by
  apply eq_of_columns (h.fields.trans h'.fields.symm)
  have both := forall₂_trans h.columns.flip h'.columns
    fun _ _ _ first second => Chunk.Replaced.unique first second
  exact List.forall₂_eq_eq_eq ▸ both

theorem mayMiss (h : b.Replaced s old new d) (may : b.MayMiss) : d.MayMiss := by
  rw [MayMiss, h.fields]
  exact may

theorem refuses (h : b.Replaced s old new d) {n : Int64} (refused : d.Refuses s n) : b.Refuses s n := by
  obtain ⟨y, hy, refused⟩ := refused
  obtain ⟨x, hx, replaced⟩ := exists_right h.columns.flip hy
  exact ⟨x, hx, replaced.type ▸ refused⟩

theorem gone (apart : ∀ n, old n ≠ new n) (h : b.Replaced s old new d) :
    ∀ c ∈ d.columns, c.type.Numbered → old (s.number c.type) ∉ c.cells := by
  intro c hc
  obtain ⟨x, _, replaced⟩ := exists_right h.columns.flip hc
  exact replaced.gone apart

theorem self_iff (apart : ∀ n, old n ≠ new n) : b.Replaced s old new b ↔
    ∀ c ∈ b.columns, c.type.Numbered → old (s.number c.type) ∉ c.cells := by
  constructor
  · intro h
    exact h.gone apart
  · intro h
    refine ⟨rfl, rfl, List.forall₂_same.2 fun c hc => ?_⟩
    exact (Chunk.Replaced.self_iff apart).2 (h c hc)

theorem back (h : b.Replaced s old new d) (h' : d.Replaced s new old e) : b.Replaced s new old e where
  fields := h'.fields.trans h.fields
  size := h'.size.trans h.size
  columns := forall₂_trans h.columns h'.columns fun _ _ _ => Chunk.Replaced.back

end Replaced

abbrev Outcome (s : Sentinel) (old new : Int → Cell) (b : Batch) : Except Error Batch → Prop :=
  Yields (fun e => ∃ n, b.Refuses s n ∧ e = .layout (.sentinelRange n.toInt))
    fun d => (∀ n, ¬ b.Refuses s n) ∧ b.Replaced s old new d

theorem outcome_mapColumns {g : Chunk → Except LayoutError Chunk} (may : b.MayMiss)
    (each : ∀ c : Chunk, c.Outcome s old new (g c)) : b.Outcome s old new (b.mapColumns g) := by
  rw [mapColumns]
  refine ((Yields.mapM each b.columns).orFail Error.layout ?_).bind ?_
  · rintro e ⟨c, hc, n, refused, rfl⟩
    exact ⟨n, ⟨c, hc, refused⟩, rfl⟩
  · intro cs replaced
    obtain ⟨fits, replaced⟩ := (List.forall₂_and_left _ _).1 replaced
    obtain ⟨d, hd, replaced⟩ := ofColumns_replaced may replaced
    rw [hd]
    refine .ok ⟨?_, replaced⟩
    rintro n ⟨c, hc, refused⟩
    exact fits c hc n refused

variable {x : Except Error Batch}

namespace Outcome

theorem eq_error_iff (h : b.Outcome s old new x) {e : Error} :
    x = .error e ↔ ∃ n, b.Refuses s n ∧ e = .layout (.sentinelRange n.toInt) := by
  constructor
  · intro failed
    exact h.failure e failed
  · rintro ⟨n, refused, rfl⟩
    cases x with
    | ok d => exact ((h.value d rfl).1 n refused).elim
    | error e =>
      obtain ⟨m, again, rfl⟩ := h.failure e rfl
      obtain ⟨_, _, one⟩ := refused
      obtain ⟨_, _, other⟩ := again
      cases one.value.symm.trans other.value
      rfl

theorem eq_ok_iff (h : b.Outcome s old new x) :
    x = .ok d ↔ (∀ n, ¬ b.Refuses s n) ∧ b.Replaced s old new d := by
  constructor
  · intro made
    exact h.value d made
  · rintro ⟨fits, replaced⟩
    cases x with
    | ok e => rw [(h.value e rfl).2.unique replaced]
    | error e =>
      obtain ⟨n, refused, _⟩ := h.failure e rfl
      exact (fits n refused).elim

theorem exists_ok (h : b.Outcome s old new x) (fits : ∀ n, ¬ b.Refuses s n) :
    ∃ d, b.Replaced s old new d := by
  cases x with
  | ok d => exact ⟨d, (h.value d rfl).2⟩
  | error e =>
    obtain ⟨n, refused, _⟩ := h.failure e rfl
    exact (fits n refused).elim

end Outcome

theorem outcome_insertSentinel (may : b.MayMiss) :
    b.Outcome s (fun _ => .missing) .integer (b.insertSentinel s) :=
  outcome_mapColumns may (Chunk.outcome_insertSentinel s)

theorem outcome_removeSentinel (may : b.MayMiss) :
    b.Outcome s .integer (fun _ => .missing) (b.removeSentinel s) :=
  outcome_mapColumns may (Chunk.outcome_removeSentinel s)

end

theorem missingCount_eq_zero {c : Chunk} (numbered : c.type.Numbered) (h : .missing ∉ c.cells) :
    c.missingCount = 0 := by
  have complete : c.cells.countP Cell.isMissing = 0 := by
    rw [List.countP_eq_zero]
    intro x hx gone
    rw [numbered.isMissing_iff (c.fit x hx)] at gone
    exact h (gone ▸ hx)
  rw [Chunk.missingCount, complete, ite_self]

/-- What a sentinel that fits makes of a batch `b`: `d` with the sentinel in place of missing integers, and
`e` in which it is missing itself. -/
structure Sentinels (s : Sentinel) (b d e : Batch) : Prop where
  inserted : b.insertSentinel s = .ok d
  filled : b.Replaced s (fun _ => .missing) .integer d
  complete : ∀ c ∈ d.columns, c.type.Numbered → c.missingCount = 0
  inserted_again : d.insertSentinel s = .ok d
  removed : b.removeSentinel s = .ok e
  back : d.removeSentinel s = .ok e
  cleared : b.Replaced s .integer (fun _ => .missing) e
  removed_again : e.removeSentinel s = .ok e
  unchanged : e = b ↔ ∀ c ∈ b.columns, c.type.Numbered → .integer (s.number c.type) ∉ c.cells

theorem sentinels_of_fits {s : Sentinel} {b : Batch} (may : b.MayMiss)
    (fits : ∀ n, ¬ b.Refuses s n) : ∃ d e, b.Sentinels s d e := by
  have missing (n : Int) : Cell.missing ≠ .integer n := nofun
  have integer (n : Int) : Cell.integer n ≠ .missing := nofun
  obtain ⟨d, filled⟩ := (outcome_insertSentinel may).exists_ok fits
  obtain ⟨e, cleared⟩ := (outcome_removeSentinel may).exists_ok fits
  have fitsFilled (n : Int64) (refused : d.Refuses s n) : False := fits n (filled.refuses refused)
  have fitsCleared (n : Int64) (refused : e.Refuses s n) : False := fits n (cleared.refuses refused)
  have full := filled.gone missing
  obtain ⟨e', cleared'⟩ := (outcome_removeSentinel (filled.mayMiss may)).exists_ok fitsFilled
  obtain rfl := cleared.unique (filled.back cleared')
  refine ⟨d, e, ?_⟩
  exact {
    inserted := (outcome_insertSentinel may).eq_ok_iff.2 ⟨fits, filled⟩
    filled := filled
    complete := fun c hc numbered => missingCount_eq_zero numbered (full c hc numbered)
    inserted_again := (outcome_insertSentinel (filled.mayMiss may)).eq_ok_iff.2
      ⟨fitsFilled, (Replaced.self_iff missing).2 full⟩
    removed := (outcome_removeSentinel may).eq_ok_iff.2 ⟨fits, cleared⟩
    back := (outcome_removeSentinel (filled.mayMiss may)).eq_ok_iff.2 ⟨fitsFilled, cleared'⟩
    cleared := cleared
    removed_again := (outcome_removeSentinel (cleared.mayMiss may)).eq_ok_iff.2
      ⟨fitsCleared, (Replaced.self_iff integer).2 (cleared.gone integer)⟩
    unchanged := by
      rw [← Replaced.self_iff integer]
      constructor
      · rintro rfl
        exact cleared
      · intro kept
        exact cleared.unique kept }

/-- Sentinels in a batch whose integers may be missing. An explicit value is refused, with all of the batch,
where a column of `int32` cannot hold it. Otherwise no integer is missing once the sentinel is put in, and
taking it out again gives the batch without the integers that are the sentinel of their type. -/
theorem sentinels_exact (s : Sentinel) (b : Batch)
    (may : ∀ f ∈ b.fields, f.type.Numbered → f.nullable = true) :
    (∀ e, b.insertSentinel s = .error e ↔
      ∃ n, b.Refuses s n ∧ e = .layout (.sentinelRange n.toInt)) ∧
    (∀ e, b.removeSentinel s = .error e ↔
      ∃ n, b.Refuses s n ∧ e = .layout (.sentinelRange n.toInt)) ∧
    ((∀ n, ¬ b.Refuses s n) → ∃ d e, b.Sentinels s d e) := by
  refine ⟨fun e => ?_, fun e => ?_, sentinels_of_fits may⟩
  · exact (outcome_insertSentinel may).eq_error_iff
  · exact (outcome_removeSentinel may).eq_error_iff

/-- Counts of both widths, with a third one within structs. -/
def counts : Batch where
  fields := [.plain "narrow" (.leaf .int32), .plain "wide" (.leaf .int64),
    .plain "pair" (.struct [.plain "count" (.leaf .int32)])]
  first := ⟨.leaf .int32, [.integer 1, .missing, .integer 7], by decide⟩
  rest := [⟨.leaf .int64, [.missing, .integer 7, .integer 2], by decide⟩,
    ⟨.struct [.plain "count" (.leaf .int32)],
      [.struct true [.missing], .struct false [.missing], .struct true [.integer 7]], by decide⟩]
  stored := by decide

theorem sentinels_exact_counts :
    (∃ d e, counts.Sentinels (.value 7) d e ∧
      d.columns.map Chunk.cells = [[.integer 1, .integer 7, .integer 7],
        [.integer 7, .integer 7, .integer 2],
        [.struct true [.missing], .struct false [.missing], .struct true [.integer 7]]] ∧
      e.columns.map Chunk.cells = [[.integer 1, .missing, .missing], [.missing, .missing, .integer 2],
        [.struct true [.missing], .struct false [.missing], .struct true [.integer 7]]]) ∧
    counts.insertSentinel (.value 0x80000000) = .error (.layout (.sentinelRange 0x80000000)) ∧
    counts.removeSentinel (.value 0x80000000) = .error (.layout (.sentinelRange 0x80000000)) := by
  have may : ∀ f ∈ counts.fields, f.type.Numbered → f.nullable = true := by decide
  have refused : counts.Refuses (.value 0x80000000) 0x80000000 :=
    ⟨counts.first, List.mem_cons_self, rfl, rfl, by decide⟩
  have fits (n : Int64) : ¬ counts.Refuses (.value 7) n := by
    rintro ⟨_, _, _, ⟨⟩, outside⟩
    exact absurd outside (by decide)
  refine ⟨?_, ((sentinels_exact _ counts may).1 _).2 ⟨_, refused, rfl⟩,
    ((sentinels_exact _ counts may).2.1 _).2 ⟨_, refused, rfl⟩⟩
  obtain ⟨d, e, laws⟩ := (sentinels_exact _ counts may).2.2 fits
  refine ⟨d, e, laws, ?_⟩
  have inserted := laws.inserted
  have removed := laws.removed
  cases inserted
  cases removed
  exact ⟨rfl, rfl⟩

end Batch
end LogicalTable
