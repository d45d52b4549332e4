import LogicalTable.Proofs.Columnar.Readable
import LogicalTable.Proofs.Columnar.StorageRoundTrip

/-! Arrays of any type that can be built. Not only the types that store logical ones give back what was
put into them: whatever the type is, each value of a built array reads back from its slot. -/
namespace LogicalTable

/-- Whether the slot of a value reads back as the value. -/
def ArrayType.Keeps (t : ArrayType) (v : StorageValue) : Prop := t.read (t.store v) = .ok v

def Field.Keeps (f : Field) (v : StorageValue) : Prop := f.read (f.store v) = .ok v

theorem ArrayType.keeps_null {t : ArrayType} (typed : t ≠ .leaf .null) : t.Keeps .null := by
  cases t with
  | leaf l => cases l <;> first | rfl | exact (typed rfl).elim
  | _ => rfl

theorem ArrayType.ne_null_of_build {t : ArrayType} {vs : List StorageValue} {cs : List Cell}
    (built : t.build vs = .ok cs) : t ≠ .leaf .null := by
  rintro rfl
  cases built

theorem LeafType.keeps_of_accepts {t : LeafType} {expected : String} {accepts : StorageValue → Bool}
    (found : t.expected? = some (expected, accepts)) {v : StorageValue}
    (accepted : accepts v = true) : (ArrayType.leaf t).Keeps v := by
  rw [ArrayType.Keeps, ArrayType.read, ArrayType.store]
  cases t <;> cases found <;> cases v <;> cases accepted <;>
    simp [LeafType.store, LeafType.read]

theorem LeafType.keeps_of_build {t : LeafType} {vs : List StorageValue} {cs : List Cell}
    (built : t.build vs = .ok cs) : ∀ v ∈ vs, (ArrayType.leaf t).Keeps v := by
  intro v hv
  have typed := ArrayType.ne_null_of_build (t := .leaf t) (orFail_eq_ok.2 built)
  rw [LeafType.build] at built
  split at built
  · next expected accepts found =>
    obtain ⟨c, _, slot⟩ := exists_right (forall₂_of_mapM built) hv
    split at slot
    · next fits =>
      rcases Bool.or_eq_true_iff.1 fits with absent | accepted
      · rw [StorageValue.isNull_iff.1 absent]
        exact ArrayType.keeps_null typed
      · exact keeps_of_accepts found accepted
    · cases slot
  · cases built

theorem ArrayType.keeps_list {f : Field} {vs : List StorageValue} (items : ∀ v ∈ vs, f.Keeps v) :
    (ArrayType.largeList f).Keeps (.list vs) := by
  rw [ArrayType.Keeps, ArrayType.store, ArrayType.read]
  exact bind_eq_ok.2 ⟨vs, mapM_map_eq_ok items, rfl⟩

theorem Field.readAll_storeAll {fs : List Field} {vs : List StorageValue}
    (members : List.Forall₂ Field.Keeps fs vs) : Field.readAll fs (Field.storeAll fs vs) = .ok vs := by
  induction members with
  | nil => rfl
  | cons head _ ih =>
    rw [storeAll, readAll]
    exact bind_eq_ok.2 ⟨_, head, bind_eq_ok.2 ⟨_, ih, rfl⟩⟩

theorem ArrayType.keeps_struct {fs : List Field} {vs : List StorageValue}
    (members : List.Forall₂ Field.Keeps fs vs) : (ArrayType.struct fs).Keeps (.struct vs) := by
  rw [ArrayType.Keeps, ArrayType.store, ArrayType.read]
  exact bind_eq_ok.2 ⟨vs, Field.readAll_storeAll members, rfl⟩

def Field.KeepsColumn (f : Field) (c : List StorageValue) : Prop := ∀ v ∈ c, f.Keeps v

theorem Field.keepsColumns_cons {fs : List Field} {vs : List StorageValue}
    {columns : List (List StorageValue)} (arity : vs.length = columns.length)
    (kept : List.Forall₂ Field.KeepsColumn fs (List.zipWith List.cons vs columns)) :
    List.Forall₂ Field.Keeps fs vs ∧ List.Forall₂ Field.KeepsColumn fs columns := by
  induction vs generalizing fs columns with
  | nil =>
    cases columns with
    | nil =>
      cases kept
      exact ⟨.nil, .nil⟩
    | cons _ _ => cases arity
  | cons v vs ih =>
    cases columns with
    | nil => cases arity
    | cons c columns =>
      cases kept with
      | cons head tail =>
        obtain ⟨first, rest⟩ := List.forall_mem_cons.1 head
        obtain ⟨row, later⟩ := ih (Nat.succ.inj arity) tail
        exact ⟨.cons first row, .cons rest later⟩

theorem StructParts.keeps_of_columns {fs : List Field} {vs : List StorageValue} {p : StructParts}
    (parts : ofValues fs.length vs = .ok p)
    (kept : List.Forall₂ Field.KeepsColumn fs p.columns) :
    ∀ v ∈ vs, (ArrayType.struct fs).Keeps v := by
  induction vs generalizing p with
  | nil => exact fun v hv => (List.not_mem_nil hv).elim
  | cons v vs ih =>
    cases v with
    | null =>
      obtain ⟨q, hq, ⟨⟩⟩ := bind_eq_ok.1 parts
      have rest : List.Forall₂ Field.KeepsColumn fs q.columns :=
        (List.forall₂_map_right_iff.1 kept).imp fun _ _ h => (List.forall_mem_cons.1 h).2
      exact List.forall_mem_cons.2 ⟨ArrayType.keeps_null nofun, ih hq rest⟩
    | struct members =>
      rw [ofValues] at parts
      split at parts
      · next arity =>
        obtain ⟨q, hq, ⟨⟩⟩ := bind_eq_ok.1 parts
        obtain ⟨row, rest⟩ := Field.keepsColumns_cons (arity.trans (length_ofValues hq).symm) kept
        exact List.forall_mem_cons.2 ⟨ArrayType.keeps_struct row, ih hq rest⟩
      · cases parts
    | _ => cases parts

mutual

/-- Building takes only values that the type keeps. -/
theorem ArrayType.keeps_of_build : ∀ {t : ArrayType} {vs : List StorageValue} {cs : List Cell},
    t.build vs = .ok cs → ∀ v ∈ vs, t.Keeps v
  | .leaf t, vs, cs, built => LeafType.keeps_of_build (orFail_eq_ok.1 built)
  | .list f, vs, cs, built => by cases built
  | .largeList f, vs, cs, built => by
    obtain ⟨p, hp, rest⟩ := bind_eq_ok.1 built
    obtain ⟨slots, hs, _⟩ := bind_eq_ok.1 rest
    obtain ⟨rows, rfl⟩ := (ListParts.ofValues_settles 0 vs).of_ok (orFail_eq_ok.1 hp)
    have items := Field.keeps_of_build hs
    intro v hv
    rcases rows v hv with rfl | ⟨ws, rfl⟩
    · exact ArrayType.keeps_null nofun
    · exact ArrayType.keeps_list fun w hw => items w (List.mem_flatMap.2 ⟨_, hv, hw⟩)
  | .struct fs, vs, cs, built => by
    obtain ⟨p, hp, rest⟩ := bind_eq_ok.1 built
    obtain ⟨columns, hc, _⟩ := bind_eq_ok.1 rest
    have parts := orFail_eq_ok.1 hp
    have kept := Field.keepsColumns_of_build (StructParts.length_ofValues parts) hc
    exact StructParts.keeps_of_columns parts kept

theorem Field.keeps_of_build : ∀ {f : Field} {vs : List StorageValue} {cs : List Cell},
    f.build vs = .ok cs → f.KeepsColumn vs
  | .mk _ t _ _, _, _, built => ArrayType.keeps_of_build (t := t) built

theorem Field.keepsColumns_of_build : ∀ {fs : List Field} {columns : List (List StorageValue)}
    {slots : List (List Cell)}, columns.length = fs.length → Field.buildAll fs columns = .ok slots →
      List.Forall₂ Field.KeepsColumn fs columns
  | [], [], _, _, _ => .nil
  | f :: fs, c :: columns, _, arity, built => by
    obtain ⟨_, hs, rest⟩ := bind_eq_ok.1 built
    obtain ⟨_, hss, _⟩ := bind_eq_ok.1 rest
    exact .cons (Field.keeps_of_build hs) (Field.keepsColumns_of_build (Nat.succ.inj arity) hss)

end

/-- The slot of a kept value is marked as missing just for the missing value. -/
theorem ArrayType.Keeps.isMissing {t : ArrayType} {v : StorageValue} (kept : t.Keeps v)
    (typed : t ≠ .leaf .null) : (t.store v).isMissing = v.isNull :=
  isMissing_eq typed (t.admits_store v) kept

end LogicalTable
