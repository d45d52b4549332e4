import LogicalTable.Proofs.LogicalColumn.BuilderInvariants

/-! Calls of builders that may fail. A value that its factory refuses leaves no trace. One that completes a
chunk for which the keys run out stays behind, and nothing is cut after it. -/
namespace LogicalTable

namespace ColumnBuilder

/-- What is called between the making of a builder and its end. -/
inductive Call where
  | append (v : Option Value)
  | extend (vs : List (Option Value))

def Call.values : Call → List (Option Value)
  | append v => [v]
  | extend vs => vs

def perform (b : ColumnBuilder) : Call → ColumnBuilder × Except Error Unit
  | .append v => b.append v
  | .extend vs => b.extend vs

/-- The values that are added before the first failure. -/
def added (b : ColumnBuilder) : List (Option Value) → List (Option Value)
  | [] => []
  | v :: vs =>
    match b.append v with
    | (d, .ok ()) => v :: d.added vs
    | (_, .error _) => []

/-- The builder behind a run of calls, whatever their outcomes, and all values that were added. -/
def run (b : ColumnBuilder) : List Call → ColumnBuilder × List (Option Value)
  | [] => (b, [])
  | c :: cs => (((b.perform c).1.run cs).1, b.added c.values ++ ((b.perform c).1.run cs).2)

theorem perform_eq (b : ColumnBuilder) (c : Call) : b.perform c = b.extend c.values := by
  cases c with
  | extend vs => rfl
  | append v =>
    rw [perform, Call.values, extend]
    cases b.append v with
    | mk d o =>
      cases o with
      | ok u => rfl
      | error e => rfl

section Runs

variable {t : LogicalType} {n : Nat} {k : DictKey} {xs : List (Option Value)} {b d : ColumnBuilder}

/-- The states of builders that values have been added to. -/
inductive Reached (t : LogicalType) (n : Nat) (xs : List (Option Value)) (b : ColumnBuilder) :
    Prop where
  | sound (ss : List StorageValue) : List.Forall₂ t.Encodes xs ss → Sound t n ss b → Reached t n xs b
  | stuck (k : DictKey) : Stuck t n k b → Reached t n xs b

theorem Reached.type (h : Reached t n xs b) : b.type = t := by
  cases h with
  | sound _ _ h => exact h.type
  | stuck _ h => exact h.type

/-- What appending a value can do: the builder behind it, and the outcome. -/
inductive Outcome (t : LogicalType) (n : Nat) (xs : List (Option Value)) (b : ColumnBuilder)
    (v : Option Value) : ColumnBuilder → Except Error Unit → Prop where
  | added (d : ColumnBuilder) : Reached t n (xs ++ [v]) d → Outcome t n xs b v d (.ok ())
  | refused (w : Value) (c : ConversionError) : v = some w → t.converter.encode w = .error c →
      Outcome t n xs b v b (.error (.conversion c))
  | spent (u : KeySource) (s : StorageValue) : b.keys = some u → t.Encodes v s →
      b.pending.length + 1 = n →
      u.key.maxKey + 1 < u.next.toNat + (distinctValues (b.pending ++ [s])).length →
      Stuck t n u.key { b with pending := b.pending ++ [s], keys := some (.spent u.key) } →
      Outcome t n xs b v { b with pending := b.pending ++ [s], keys := some (.spent u.key) }
        (.error (.layout (.keysExhausted u.key.name)))

theorem Reached.append {v : Option Value} {o : Except Error Unit} (h : Reached t n xs b)
    (served : t.storage.samePhysical t.converter.storage = true)
    (word : xs.length < 0x10000000000000000) (ha : b.append v = (d, o)) :
    Outcome t n xs b v d o := by
  have type := h.type
  rcases b.encodes_or_refused v with ⟨s, encodes⟩ | ⟨w, c, rfl, refused, same⟩
  · rw [append_encoded encodes] at ha
    rw [type] at encodes
    cases h with
    | sound ss stored sound =>
      have few : ss.length < 0x10000000000000000 := stored.length_eq ▸ word
      rcases sound.push (encodes.admits served) few with
        ⟨e, he, next⟩ | ⟨u, hk, last, short, e, rfl, he, stuck⟩
      · cases he.symm.trans ha
        exact .added _ (.sound _ (List.rel_append stored (.cons encodes .nil)) next)
      · cases he.symm.trans ha
        exact .spent u s hk encodes last short stuck
    | stuck k stuck =>
      obtain ⟨e, he, next, _⟩ := stuck.push s
      cases he.symm.trans ha
      exact .added _ (.stuck k next)
  · cases same.symm.trans ha
    exact .refused w c rfl (type ▸ refused)

theorem Reached.extend {vs : List (Option Value)} (h : Reached t n xs b)
    (served : t.storage.samePhysical t.converter.storage = true)
    (word : xs.length + (b.added vs).length < 0x10000000000000000) :
    Reached t n (xs ++ b.added vs) (b.extend vs).1 := by
  induction vs generalizing b xs with
  | nil => rwa [added, List.append_nil]
  | cons v vs ih =>
    rw [added] at word ⊢
    rw [ColumnBuilder.extend]
    cases ha : b.append v with
    | mk d o =>
      rw [ha] at word
      cases h.append served (by omega) ha with
      | added _ reached =>
        dsimp only at word ⊢
        rw [List.append_cons]
        apply ih reached
        rw [List.length_append, List.length_singleton]
        rw [List.length_cons] at word
        omega
      | refused => rwa [List.append_nil]
      | spent u s _ _ _ _ stuck =>
        rw [List.append_nil]
        exact .stuck _ stuck

theorem Reached.run (cs : List Call) (h : Reached t n xs b)
    (served : t.storage.samePhysical t.converter.storage = true)
    (word : xs.length + (b.run cs).2.length < 0x10000000000000000) :
    Reached t n (xs ++ (b.run cs).2) (b.run cs).1 := by
  induction cs generalizing b xs with
  | nil => rwa [ColumnBuilder.run, List.append_nil]
  | cons c cs ih =>
    rw [ColumnBuilder.run] at word ⊢
    dsimp only at word ⊢
    rw [List.length_append] at word
    rw [← List.append_assoc]
    apply ih
    · rw [perform_eq]
      exact h.extend served (by omega)
    · rw [List.length_append]
      omega

theorem Stuck.extend (vs : List (Option Value)) (h : Stuck t n k b) :
    Stuck t n k (b.extend vs).1 ∧ (b.extend vs).1.chunks = b.chunks := by
  induction vs generalizing b with
  | nil => exact ⟨h, rfl⟩
  | cons v vs ih =>
    rw [ColumnBuilder.extend]
    rcases b.encodes_or_refused v with ⟨s, encodes⟩ | ⟨w, c, _, _, same⟩
    · obtain ⟨d, hd, next, chunks⟩ := h.push s
      rw [append_encoded encodes, hd]
      have later := ih next
      exact ⟨later.1, later.2.trans chunks⟩
    · rw [same]
      exact ⟨h, rfl⟩

/-- Whatever is called behind a failed cut, no chunk is added. -/
theorem Stuck.run (cs : List Call) (h : Stuck t n k b) :
    Stuck t n k (b.run cs).1 ∧ (b.run cs).1.chunks = b.chunks := by
  induction cs generalizing b with
  | nil => exact ⟨h, rfl⟩
  | cons c cs ih =>
    rw [ColumnBuilder.run, perform_eq]
    have next := h.extend c.values
    have later := ih next.1
    exact ⟨later.1, later.2.trans next.2⟩

/-- What holds of a builder to which values have been added by calls that may have failed. An append
that fails has been refused, without a trace, or has found too few keys for the chunk it completes; then
nothing that is called later gives another chunk, or an end. Otherwise the values that were added are those
of the column, in order. -/
structure Accounted (t : LogicalType) (n : Nat) (xs : List (Option Value)) (b : ColumnBuilder) :
    Prop where
  failed : ∀ v d e, b.append v = (d, .error e) →
    (d = b ∧ ∃ w c, v = some w ∧ t.converter.encode w = .error c ∧ e = .conversion c) ∨
    ∃ u s, b.keys = some u ∧ t.Encodes v s ∧ b.pending.length + 1 = n ∧
      u.key.maxKey + 1 < u.next.toNat + (distinctValues (b.pending ++ [s])).length ∧
      d = { b with pending := b.pending ++ [s], keys := some (.spent u.key) } ∧
      e = .layout (.keysExhausted u.key.name) ∧
      ∀ later, (d.run later).1.chunks = b.chunks ∧ (d.run later).1.finish = .error e
  column : ∀ c, b.column = .ok c → c.size = xs.length ∧
    ∀ i (_ : i < xs.length), ∃ s, t.Encodes xs[i] s ∧ c.read i = .ok s
  finished : (∃ c, b.column = .ok c) ∨
    ∃ k, t.converter.dictKey = some k ∧ b.finish = .error (.layout (.keysExhausted k.name))

theorem Sound.column {ss : List StorageValue} (stored : List.Forall₂ t.Encodes xs ss)
    (h : Sound t n ss b) (word : ss.length ≤ 0x10000000000000000) :
    (∃ c, b.column = .ok c ∧ c.size = xs.length ∧
      ∀ i (_ : i < xs.length), ∃ s, t.Encodes xs[i] s ∧ c.read i = .ok s) ∨
    ∃ k, t.converter.dictKey = some k ∧ b.finish = .error (.layout (.keysExhausted k.name)) := by
  rcases h.finish word with ⟨cs, pieces, hcs, takes, all⟩ | spent
  · obtain ⟨c, column, _, holds⟩ := column_eq h.type hcs takes
    refine Or.inl ⟨c, column, ?_, fun i hi => ?_⟩
    · rw [LogicalColumn.size_eq holds, all, stored.length_eq]
    · have hs : i < pieces.flatten.length := by rwa [all, ← stored.length_eq]
      obtain ⟨chunk, row, found, read, _⟩ := LogicalColumn.locateIn_eq holds hs
      subst all
      refine ⟨pieces.flatten[i], stored.get hi hs, ?_⟩
      rw [LogicalColumn.read, LogicalColumn.locate_eq_locateIn, found]
      exact read
  · exact Or.inr spent

theorem Stuck.column (h : Stuck t n k b) :
    b.column = .error (.layout (.keysExhausted k.name)) := by
  rw [ColumnBuilder.column, h.finish]
  rfl

theorem Reached.accounted (h : Reached t n xs b)
    (served : t.storage.samePhysical t.converter.storage = true)
    (word : xs.length < 0x10000000000000000) : Accounted t n xs b where
  failed v d e ha := by
    cases h.append served word ha with
    | refused w c hv refused => exact Or.inl ⟨rfl, w, c, hv, refused, rfl⟩
    | spent u s hk encodes last short stuck =>
      refine Or.inr ⟨u, s, hk, encodes, last, short, rfl, rfl, fun later => ?_⟩
      obtain ⟨still, chunks⟩ := stuck.run later
      exact ⟨chunks, still.finish⟩
  column c hc := by
    cases h with
    | sound ss stored sound =>
      rcases sound.column stored (stored.length_eq ▸ Nat.le_of_lt word) with
        ⟨e, he, held⟩ | ⟨k, _, failed⟩
      · cases he.symm.trans hc
        exact held
      · rw [ColumnBuilder.column, failed] at hc
        cases hc
    | stuck k stuck => cases stuck.column.symm.trans hc
  finished := by
    cases h with
    | sound ss stored sound =>
      rcases sound.column stored (stored.length_eq ▸ Nat.le_of_lt word) with ⟨c, hc, _⟩ | spent
      · exact Or.inl ⟨c, hc⟩
      · exact Or.inr spent
    | stuck k stuck => exact Or.inr ⟨k, stuck.width, stuck.finish⟩

end Runs

/-- However values were added, by calls that failed or not: a call that fails now leaves no trace, unless
the keys run out for the chunk that it completes. The converter has to be registered for storage like that
of the type, and the values must be fewer than there are words. -/
theorem append_accounted {type : DataType} {asked : ValueType} {n : Nat} {b₀ b : ColumnBuilder}
    {calls : List Call} {xs : List (Option Value)} (new : new type asked n = .ok b₀)
    (served : b₀.type.storage.samePhysical b₀.type.converter.storage = true)
    (reached : b₀.run calls = (b, xs)) (word : xs.length < 0x10000000000000000) :
    Accounted b₀.type n xs b := by
  have start : Reached b₀.type n [] b₀ := .sound [] .nil (sound_new new)
  have behind := start.run calls served
  rw [reached, List.nil_append, List.length_nil, Nat.zero_add] at behind
  exact (behind word).accounted served word

/-- A builder of days with two in each chunk, and a time among them, which is refused. -/
theorem append_accounted_days :
    let leap : Value := .date ⟨2024, 2, 29, by decide⟩
    let noon : Value := .time ⟨43200, 0, by decide⟩
    let calls : List Call := [.append (some leap), .extend [none, some leap, some noon, none],
      .append (some leap)]
    let b₀ : ColumnBuilder := ⟨.day, 2, [], [], some (.fresh .byte)⟩
    (b₀.run calls).2.length = 4 ∧ Accounted .day 2 (b₀.run calls).2 (b₀.run calls).1 := by
  intro leap noon calls b₀
  have added : (b₀.run calls).2.length = 4 := by decide +kernel
  have new : ColumnBuilder.new LogicalType.day.dataType .date 2 = .ok b₀ :=
    new_eq .day (by decide) (by decide)
  exact ⟨added, append_accounted new (by decide) (Prod.eta _).symm (by rw [added]; decide)⟩

theorem extend_waiting {t : LogicalType} {b : ColumnBuilder} {xs : List (Option Value)}
    {ss : List StorageValue} (type : b.type = t) (stored : List.Forall₂ t.Encodes xs ss)
    (room : b.pending.length + ss.length < b.chunkSize) :
    b.extend xs = ({ b with pending := b.pending ++ ss }, .ok ()) := by
  induction stored generalizing b with
  | nil => rw [List.append_nil, extend]
  | @cons x s xs ss head _ ih =>
    rw [List.length_cons] at room
    have more : (b.pending ++ [s]).length = b.pending.length + 1 := by
      rw [List.length_append, List.length_singleton]
    have waits : ¬(b.pending ++ [s]).length = b.chunkSize := by omega
    have pushed : b.append x = ({ b with pending := b.pending ++ [s] }, .ok ()) := by
      rw [append_encoded (type ▸ head)]
      exact if_neg waits
    have rest := ih (b := { b with pending := b.pending ++ [s] }) type (by dsimp only; omega)
    rw [extend, pushed]
    dsimp only
    rw [rest, List.append_assoc]
    rfl

def dayAt (i : Nat) : Option Value := (Date.ofDayNumber? i).map .date

def longAt (i : Nat) : StorageValue := .long (Int64.ofInt i)

def longs (n : Nat) : List StorageValue := (List.range n).map longAt

theorem encodes_date (d : Date) :
    LogicalType.day.Encodes (some (.date d)) (ValueFactory.dayStorage d) := by
  have typed : (Value.date d).type = LogicalType.day.converter.valueType := rfl
  refine .value ?_
  rw [Converter.encode, Converter.checkType, if_pos typed.symm, ok_bind, Converter.encodeAny,
    if_neg (not_not_intro typed)]
  rfl

theorem encodes_dayAt {i : Nat} (h : i < 257) : LogicalType.day.Encodes (dayAt i) (longAt i) := by
  have all : ∀ i ∈ List.range 257, (Date.ofDayNumber? i).map Date.dayNumber = some (i : Int) := by
    decide +kernel
  obtain ⟨d, hd, number⟩ := Option.map_eq_some_iff.1 (all i (List.mem_range.2 h))
  rw [dayAt, hd, longAt, ← number, ← ValueFactory.dayOfEpoch_eq]
  exact encodes_date d

theorem longAt_inj {i j : Nat} (hi : i < 0x8000000000000000) (hj : j < 0x8000000000000000)
    (h : longAt i = longAt j) : i = j := by
  have same := congrArg Int64.toInt (StorageValue.long.inj h)
  rw [Int64.toInt_ofInt_of_le (by omega) (by omega), Int64.toInt_ofInt_of_le (by omega) (by omega)]
    at same
  exact Int.ofNat.inj same

theorem length_longs (n : Nat) : (longs n).length = n := by
  rw [longs, List.length_map, List.length_range]

theorem longs_succ (n : Nat) : longs (n + 1) = longs n ++ [longAt n] := by
  rw [longs, longs, List.range_succ, List.map_append, List.map_singleton]

theorem distinctValues_longs {n : Nat} (h : n < 0x8000000000000000) :
    distinctValues (longs n) = longs n := by
  induction n with
  | zero => rfl
  | succ n ih =>
    have new : longAt n ∉ longs n := by
      intro old
      obtain ⟨m, hm, same⟩ := List.mem_map.1 old
      have smaller := List.mem_range.1 hm
      have equal := longAt_inj (by omega) (by omega) same
      omega
    rw [longs_succ, distinctValues_append_new (StorageValue.noConfusion) new, ih (by omega)]

theorem encode_longs (n : Nat) (h : n < 0x8000000000000000) :
    (n ≤ 256 → ∃ u c, (KeySource.fresh .byte).encode LogicalType.day.storage.arrayType (longs n) =
      (u, .ok c)) ∧
    (256 < n → (KeySource.fresh .byte).encode LogicalType.day.storage.arrayType (longs n) =
      (.spent .byte, .error (.layout (.keysExhausted "BYTE_KEY")))) := by
  have count : (distinctValues (longs n)).length = n := by
    rw [distinctValues_longs h, length_longs]
  have admitted : ∀ v ∈ longs n, LogicalType.day.storage.admits v = true := by
    intro v hv
    obtain ⟨i, _, rfl⟩ := List.mem_map.1 hv
    rfl
  have start : (KeySource.fresh .byte).next.toNat = 0 := rfl
  have last : (KeySource.fresh .byte).key.maxKey = 255 := rfl
  rcases KeySource.encode_cases (s := .fresh .byte) admitted (by omega) (by omega) with
    ⟨room, c, hc, _⟩ | ⟨short, hc, _⟩
  · exact ⟨fun _ => ⟨_, c, hc⟩, fun _ => by omega⟩
  · exact ⟨fun _ => by omega, fun _ => hc⟩

def ofDays (size n : Nat) (keys : KeySource) : ColumnBuilder := ⟨.day, size, longs n, [], some keys⟩

theorem extend_days {size n : Nat} (few : n ≤ 256) (room : n < size) (keys : KeySource) :
    (ofDays size 0 keys).extend ((List.range n).map dayAt) = (ofDays size n keys, .ok ()) := by
  have stored : List.Forall₂ LogicalType.day.Encodes ((List.range n).map dayAt) (longs n) := by
    rw [longs, List.forall₂_map_left_iff, List.forall₂_map_right_iff, List.forall₂_same]
    intro i hi
    have := List.mem_range.1 hi
    exact encodes_dayAt (by omega)
  have fits : (ofDays size 0 keys).pending.length + (longs n).length < (ofDays size 0 keys).chunkSize := by
    rw [length_longs]
    exact (Nat.zero_add n).symm ▸ room
  have added := extend_waiting (b := ofDays size 0 keys) rfl stored fits
  exact added

theorem append_day {n : Nat} (few : n ≤ 256) (keys : KeySource) :
    (ofDays (n + 1) n keys).append (dayAt n) = (ofDays (n + 1) (n + 1) keys).cut := by
  have filled : (ofDays (n + 1) n keys).push (longAt n) =
      (ColumnBuilder.mk .day (n + 1) (longs n ++ [longAt n]) [] (some keys)).cut :=
    if_pos ((congrArg List.length (longs_succ n)).symm.trans (length_longs (n + 1)))
  rw [append_encoded (encodes_dayAt (by omega)), filled, ← longs_succ]
  rfl

/-- A byte has keys for 256 days. The day that is one too many stays in the builder, which can then
not be brought to an end, though it could with the 256 days before. -/
theorem append_leaves_trace :
    let b := ofDays 257 256 (.fresh .byte)
    let d := ofDays 257 257 (.spent .byte)
    let e : Error := .layout (.keysExhausted "BYTE_KEY")
    ColumnBuilder.new LogicalType.day.dataType .date 257 = .ok (ofDays 257 0 (.fresh .byte)) ∧
      (ofDays 257 0 (.fresh .byte)).extend ((List.range 256).map dayAt) = (b, .ok ()) ∧
      b.append (dayAt 256) = (d, .error e) ∧ d ≠ b ∧ d.finish = .error e ∧
      ∃ cs, b.finish = .ok cs := by
  intro b d e
  have waits (n : Nat) (keys : KeySource) : (ofDays 257 (n + 1) keys).pending ≠ [] := by
    intro empty
    exact List.append_ne_nil_of_right_ne_nil _ (List.cons_ne_nil _ []) ((longs_succ n).symm.trans empty)
  have failing : b.append (dayAt 256) = (d, .error e) := by
    rw [append_day (Nat.le_refl 256)]
    exact cut_failed (waits 256 _) rfl ((encode_longs 257 (by decide)).2 (by decide))
  have ended : ∃ cs, b.finish = .ok cs := by
    obtain ⟨u, c, hc⟩ := (encode_longs 256 (by decide)).1 (by decide)
    have stored := cut_stored (b := b) (waits 255 _) rfl hc
    exact ⟨[c], by rw [finish, stored]; rfl⟩
  have stuck : Stuck .day 257 .byte d := by
    have last : longAt 256 ∈ longs 257 := List.mem_map_of_mem (List.mem_range.2 (by decide))
    have there : longAt 256 ≠ .null := by
      intro h
      cases h
    exact ⟨rfl, rfl, rfl, Nat.le_of_eq (length_longs 257).symm, ⟨_, last, there⟩, rfl,
      (by decide : 255 < 256)⟩
  refine ⟨new_eq .day (by decide) (by decide), extend_days (Nat.le_refl 256) (by decide) _, failing, ?_,
    stuck.finish, ended⟩
  intro same
  have lengths := congrArg (fun b : ColumnBuilder => b.pending.length) same
  dsimp only [b, d, ofDays] at lengths
  rw [length_longs, length_longs] at lengths
  omega

end ColumnBuilder
end LogicalTable
