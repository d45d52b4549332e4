import LogicalTable.LogicalColumn.Geo
import LogicalTable.Proofs.LogicalColumn.Access
import LogicalTable.Proofs.LogicalColumn.Building

/-! Columns in a row. Appending keeps the chunks of both columns as they are, numbers their rows through,
and reads each row from the chunk, and with the dictionary, that it came with. -/
namespace LogicalTable

namespace LogicalColumn

/-- A column whose rows are those of `c` and, behind them, those of `d`. -/
structure Joins (c d e : LogicalColumn) : Prop where
  type : e.type = c.type
  chunks : e.chunks = c.chunks ++ d.chunks
  size : e.size = c.size + d.size
  starts : e.starts = c.starts ++ d.starts.tail.map (c.size + ·)
  left : ∀ i < c.size, e.read i = c.read i ∧ e.isMissing i = c.isMissing i ∧ e.get i = c.get i
  right : ∀ i < d.size, e.read (c.size + i) = d.read i ∧
    e.isMissing (c.size + i) = d.isMissing i ∧ e.get (c.size + i) = d.get i
  /-- The values of both in a row, or the first failure. -/
  decodeAll : e.decodeAll = do return (← c.decodeAll) ++ (← d.decodeAll)

/-- Whether two columns give the same, or fail alike, in whatever way they are read. -/
structure SameValues (c d : LogicalColumn) : Prop where
  size : c.size = d.size
  read : ∀ i, c.read i = d.read i
  missing : ∀ i, c.isMissing i = d.isMissing i
  get : ∀ i, c.get i = d.get i
  decodeAll : c.decodeAll = d.decodeAll

variable {a b c d e : LogicalColumn} {cs ds : List ColumnChunk} {i : Nat}

theorem locateIn_left (ds : List ColumnChunk) (h : i < (cs.map ColumnChunk.size).sum) :
    locateIn (cs ++ ds) i = locateIn cs i := by
  induction cs generalizing i with
  | nil => simp at h
  | cons c cs ih =>
    rw [List.map_cons, List.sum_cons] at h
    rw [List.cons_append, locateIn, locateIn]
    by_cases here : i < c.size
    · rw [if_pos here, if_pos here]
    · rw [if_neg here, if_neg here, ih (by omega)]

/-- The rows of the second list of chunks follow all rows of the first, of which chunks may be empty. -/
theorem locateIn_right (cs ds : List ColumnChunk) (i : Nat) :
    locateIn (cs ++ ds) ((cs.map ColumnChunk.size).sum + i) = locateIn ds i := by
  induction cs with
  | nil => simp
  | cons c cs ih =>
    have later : ¬ c.size + (cs.map ColumnChunk.size).sum + i < c.size := by omega
    have rest : c.size + (cs.map ColumnChunk.size).sum + i - c.size =
        (cs.map ColumnChunk.size).sum + i := by omega
    rw [List.cons_append, List.map_cons, List.sum_cons, locateIn, if_neg later, rest, ih]

theorem locate_eq_ok (h : i < c.size) : ∃ place, locateIn c.chunks i = some place ∧
    c.locate i = .ok place := by
  obtain ⟨place, found⟩ := exists_locateIn (c.size_eq_sum ▸ h)
  exact ⟨place, found, by rw [locate_eq_locateIn, found]⟩

theorem read_of_locate (h : c.locate i = d.locate j) (same : c.type.decode? = d.type.decode?) :
    c.read i = d.read j ∧ c.isMissing i = d.isMissing j ∧ c.get i = d.get j := by
  have read : c.read i = d.read j := by
    rw [LogicalColumn.read, LogicalColumn.read, h]
  refine ⟨read, ?_, ?_⟩
  · rw [LogicalColumn.isMissing, LogicalColumn.isMissing, h]
  · rw [LogicalColumn.get, LogicalColumn.get, read, same]

theorem decode?_congr {t u : LogicalType} (h : t.converter = u.converter) : t.decode? = u.decode? := by
  funext s
  rw [LogicalType.decode?, LogicalType.decode?, h]

theorem decodeChunk_congr {t u : LogicalType} (h : t.converter = u.converter) :
    decodeChunk t = decodeChunk u := by
  funext c
  rw [decodeChunk, decodeChunk, decode?_congr h]

/-- Numbering on gives the starts that numbering all chunks anew gives. -/
theorem append_eq (c d : LogicalColumn) : c.append d =
    if c.type.dataType.same d.type.dataType then .ok (ofViews c.type (c.chunks ++ d.chunks))
    else .error (.unequalColumns c.type.id d.type.id) := by
  rw [append]
  split
  · exact congrArg Except.ok (ext rfl rfl)
  · rfl

theorem append_eq_ok : c.append d = .ok e ↔
    c.type.dataType.same d.type.dataType = true ∧ e = ofViews c.type (c.chunks ++ d.chunks) := by
  rw [append_eq]
  split
  · next same => simp [same, eq_comm]
  · next other => simp [other]

theorem size_append (t : LogicalType) (c d : LogicalColumn) :
    (ofViews t (c.chunks ++ d.chunks)).size = c.size + d.size := by
  rw [size_eq_sum, size_eq_sum, size_eq_sum, ← List.sum_append, sizes, sizes, sizes, ← List.map_append]
  rfl

theorem scanl_shift (n m : Nat) (ns : List Nat) :
    ns.scanl (· + ·) (n + m) = (ns.scanl (· + ·) m).map (n + ·) := by
  induction ns generalizing m with
  | nil => rfl
  | cons k ns ih => rw [List.scanl_cons, List.scanl_cons, List.map_cons, Nat.add_assoc, ih]

theorem starts_append (t : LogicalType) (c d : LogicalColumn) :
    (ofViews t (c.chunks ++ d.chunks)).starts = c.starts ++ d.starts.tail.map (c.size + ·) := by
  have last : c.sizes.foldl (· + ·) 0 = c.size := (List.sum_eq_foldl ..).symm.trans c.size_eq_sum.symm
  have both : (ofViews t (c.chunks ++ d.chunks)).sizes = c.sizes ++ d.sizes := List.map_append
  rw [starts_eq, starts_eq, starts_eq, both, List.scanl_append, last, List.map_tail, ← scanl_shift,
    Nat.add_zero]

theorem decodeAll_append (converter : c.type.converter = d.type.converter) :
    (ofViews c.type (c.chunks ++ d.chunks)).decodeAll =
      do return (← c.decodeAll) ++ (← d.decodeAll) := by
  rw [LogicalColumn.decodeAll, LogicalColumn.decodeAll, LogicalColumn.decodeAll,
    ← decodeChunk_congr converter, chunks_ofViews, type_ofViews, List.mapM_append]
  cases c.chunks.mapM (decodeChunk c.type) with
  | error e => rfl
  | ok xss =>
    cases d.chunks.mapM (decodeChunk c.type) with
    | error e => rfl
    | ok yss => exact congrArg Except.ok List.flatten_append

theorem joins_of_append (made : c.append d = .ok e) (converter : c.type.converter = d.type.converter) :
    Joins c d e := by
  obtain ⟨_, rfl⟩ := append_eq_ok.1 made
  have size := size_append c.type c d
  refine ⟨rfl, rfl, size, starts_append c.type c d, fun i hi => ?_, fun i hi => ?_,
    decodeAll_append converter⟩
  · obtain ⟨place, found, located⟩ := locate_eq_ok hi
    have whole : locateIn (c.chunks ++ d.chunks) i = some place :=
      (locateIn_left d.chunks (c.size_eq_sum ▸ hi)).trans found
    refine read_of_locate ?_ rfl
    rw [located, locate_eq_locateIn, chunks_ofViews, whole]
  · obtain ⟨place, found, located⟩ := locate_eq_ok hi
    have whole : locateIn (c.chunks ++ d.chunks) (c.size + i) = some place :=
      (c.size_eq_sum ▸ locateIn_right c.chunks d.chunks i).trans found
    refine read_of_locate ?_ (decode?_congr converter)
    rw [located, locate_eq_locateIn, chunks_ofViews, whole]

theorem sameValues_of_inside (size : c.size = d.size) (decodeAll : c.decodeAll = d.decodeAll)
    (inside : ∀ i < d.size, c.read i = d.read i ∧ c.isMissing i = d.isMissing i ∧ c.get i = d.get i) :
    SameValues c d := by
  have each : ∀ i, c.read i = d.read i ∧ c.isMissing i = d.isMissing i ∧ c.get i = d.get i := by
    intro i
    by_cases hi : i < d.size
    · exact inside i hi
    · have beyond := Nat.not_lt.1 hi
      obtain ⟨read, missing, get⟩ := fails_beyond beyond
      obtain ⟨read', missing', get'⟩ := fails_beyond (c := c) (i := i) (by omega)
      rw [read, missing, get, read', missing', get', size]
      exact ⟨rfl, rfl, rfl⟩
  exact ⟨size, fun i => (each i).1, fun i => (each i).2.1, fun i => (each i).2.2, decodeAll⟩

/-- Chunks of a column without rows have none either. -/
theorem decodeAll_of_isEmpty (empty : c.size = 0) : c.decodeAll = .ok [] := by
  rw [size_eq_sum, sizes] at empty
  rw [LogicalColumn.decodeAll]
  generalize c.chunks = cs at empty
  induction cs with
  | nil => rfl
  | cons d ds ih =>
    rw [List.map_cons, List.sum_cons, Nat.add_eq_zero_iff] at empty
    have nothing : decodeChunk c.type d = .ok [] := by
      rw [decodeChunk, empty.1]
      rfl
    obtain ⟨xss, hxss, flat⟩ := map_eq_ok.1 (ih empty.2)
    rw [List.mapM_cons, nothing, ok_bind, hxss]
    exact congrArg Except.ok flat

theorem Joins.sameValues_right (h : Joins c d e) (empty : c.size = 0) : SameValues e d := by
  have size := h.size
  rw [empty, Nat.zero_add] at size
  refine sameValues_of_inside size ?_ fun i hi => ?_
  · rw [h.decodeAll, decodeAll_of_isEmpty empty, ok_bind]
    cases d.decodeAll <;> rfl
  · have row := h.right i hi
    rwa [empty, Nat.zero_add] at row

theorem Joins.sameValues_left (h : Joins c d e) (empty : d.size = 0) : SameValues e c := by
  have size := h.size
  rw [empty, Nat.add_zero] at size
  refine sameValues_of_inside size ?_ h.left
  rw [h.decodeAll, decodeAll_of_isEmpty empty]
  cases c.decodeAll with
  | error _ => rfl
  | ok xs => exact congrArg Except.ok (List.append_nil xs)

theorem same_trans {t u v : DataType} (tu : t.same u = true) : t.same v = u.same v := by
  apply Bool.eq_iff_iff.2
  rw [DataType.same_iff, DataType.same_iff, (DataType.same_iff t u).1 tu]

/-- Only the failures tell in which order three columns were appended. -/
theorem append_assoc (a b c : LogicalColumn) :
    ((a.append b).bind (·.append c)).toOption = ((b.append c).bind a.append).toOption := by
  by_cases ab : a.type.dataType.same b.type.dataType = true
  · have ac := same_trans (v := c.type.dataType) ab
    by_cases bc : b.type.dataType.same c.type.dataType = true
    · simp [append_eq, ab, bc, ac, Except.bind, List.append_assoc]
    · simp [append_eq, ab, bc, ac, Except.bind, Except.toOption]
  · by_cases bc : b.type.dataType.same c.type.dataType = true
    · simp [append_eq, ab, bc, Except.bind, Except.toOption]
    · simp [append_eq, ab, bc, Except.bind, Except.toOption]

end LogicalColumn

namespace ColumnBuilder

variable (b : ColumnBuilder)

theorem type_cut : b.cut.1.type = b.type := by
  rw [cut]
  split
  · rfl
  · split <;> rfl

theorem type_push (s : StorageValue) : (b.push s).1.type = b.type := by
  rw [push]
  split
  · exact type_cut _
  · rfl

theorem type_append (v : Option Value) : (b.append v).1.type = b.type := by
  cases v with
  | none => exact b.type_push .null
  | some v =>
    rw [append]
    split
    · exact b.type_push _
    · rfl

theorem type_extend (vs : List (Option Value)) : (b.extend vs).1.type = b.type := by
  induction vs generalizing b with
  | nil => rfl
  | cons v vs ih =>
    have head := b.type_append v
    rw [extend]
    split
    · next d h =>
      rw [h] at head
      exact (ih d).trans head
    · next d e h =>
      rw [h] at head
      exact head

end ColumnBuilder

namespace GeoColumn

/-- A column of geometries, made of chunks or of values, or by appending such columns. -/
inductive Made : LogicalColumn → Prop where
  | ofChunks {t : DataType} {cs : List Chunk} {c : LogicalColumn}
      (made : GeoColumn.ofChunks t cs = .ok c) : Made c
  | ofValues {t : DataType} {gs : List (Option GeoValue)} {n : Nat} {c : LogicalColumn}
      (made : GeoColumn.ofValues t gs n = .ok c) : Made c
  | append {c d e : LogicalColumn} (left : Made c) (right : Made d) (made : c.append d = .ok e) : Made e

theorem Made.geospatial {c : LogicalColumn} (h : Made c) :
    checkType c.type.dataType = .ok () ∧ c.type.converter.valueType = .geometry := by
  induction h with
  | ofChunks made =>
    obtain ⟨_, checked, view⟩ := bind_eq_ok.1 made
    obtain ⟨rfl, typed, _⟩ := LogicalColumn.ofChunks_eq_ok.1 view
    exact ⟨orFail_eq_ok.1 checked, typed⟩
  | @ofValues t gs n c made =>
    obtain ⟨_, checked, rest⟩ := bind_eq_ok.1 made
    obtain ⟨b, made, outcome⟩ := bind_eq_ok.1 rest
    obtain ⟨u, ⟨rfl, typed⟩, _, _, start⟩ := ColumnBuilder.new_eq_ok.1 made
    have kept : (b.extend (gs.map fun g => g.map .geometry)).1.type = u :=
      (b.type_extend _).trans (congrArg ColumnBuilder.type start)
    split at outcome
    · next d extended =>
      rw [extended] at kept
      dsimp only at kept
      obtain ⟨_, _, view⟩ := bind_eq_ok.1 outcome
      obtain ⟨type, same, _⟩ := LogicalColumn.ofChunks_eq_ok.1 view
      rw [kept] at type same
      rw [← type, same]
      exact ⟨orFail_eq_ok.1 checked, typed⟩
    · cases outcome
  | append _ _ made left _ =>
    obtain ⟨_, rfl⟩ := LogicalColumn.append_eq_ok.1 made
    exact left

end GeoColumn

namespace LogicalColumn

/-- Columns of one type whose converter is one too can be appended, those of other types cannot. The rows
stay where they were read from, and no grouping of columns and no empty column changes them. Columns of
geometries are such columns, and stay columns of geometries. -/
theorem append_joins :
    (∀ c d : LogicalColumn, c.type.dataType.same d.type.dataType = true →
      c.type.converter = d.type.converter → ∃ e, c.append d = .ok e ∧ Joins c d e ∧
        (c.size = 0 → SameValues e d) ∧ (d.size = 0 → SameValues e c)) ∧
    (∀ c d : LogicalColumn, c.type.dataType.same d.type.dataType = false →
      c.append d = .error (.unequalColumns c.type.id d.type.id)) ∧
    (∀ a b c : LogicalColumn,
      ((a.append b).bind (·.append c)).toOption = ((b.append c).bind a.append).toOption) ∧
    ∀ c, GeoColumn.Made c →
      GeoColumn.checkType c.type.dataType = .ok () ∧ c.type.converter.valueType = .geometry := by
  refine ⟨?_, ?_, append_assoc, fun c => GeoColumn.Made.geospatial⟩
  · intro c d same converter
    have made := append_eq_ok.2 ⟨same, rfl⟩
    have joins := joins_of_append made converter
    exact ⟨_, made, joins, joins.sameValues_right, joins.sameValues_left⟩
  · intro c d other
    rw [append_eq, other]
    rfl

def keyedDay (key day : Int) (fits : (ArrayType.dictionary .byte (.leaf .int64)).admits
    (.struct true [.integer key, .integer day]) = true) : Chunk :=
  ⟨.dictionary .byte (.leaf .int64), [.struct true [.integer key, .integer day]],
    List.forall_mem_singleton.2 fits⟩

def dayUnder (key day : Int) (fits : (ArrayType.dictionary .byte (.leaf .int64)).admits
    (.struct true [.integer key, .integer day]) = true) : LogicalColumn :=
  .ofViews .day [.dictionary ⟨keyedDay key day fits, .leaf .int64, [some 0]⟩]

/-- One key may stand for other days on the two sides. -/
theorem append_joins_keyedDays :
    LogicalColumn.ofChunks LogicalType.day.dataType .date [keyedDay 4 19782 rfl] =
      .ok (dayUnder 4 19782 rfl) ∧
    LogicalColumn.ofChunks LogicalType.day.dataType .date [keyedDay 4 7 rfl] =
      .ok (dayUnder 4 7 rfl) ∧
    ∃ e, (dayUnder 4 19782 rfl).append (dayUnder 4 7 rfl) = .ok e ∧ e.starts = [0, 1, 2] ∧
      e.read 0 = .ok (.long 19782) ∧ e.read 1 = .ok (.long 7) := by
  obtain ⟨e, made, joins, _⟩ :=
    append_joins.1 (dayUnder 4 19782 rfl) (dayUnder 4 7 rfl) rfl rfl
  refine ⟨rfl, rfl, e, made, joins.starts.trans rfl, ?_, ?_⟩
  · exact (joins.left 0 (by decide)).1.trans rfl
  · exact (joins.right 0 (by decide)).1.trans rfl

end LogicalColumn
end LogicalTable
