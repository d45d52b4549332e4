import LogicalTable.Error
import LogicalTable.Proofs.Geometry.Tree

/-! Words of either byte order read back from their bytes, and readers that take just the encodings
of some parts off the front of the data. -/
namespace LogicalTable.Wkb

/-- How many numbers so many bytes can tell apart. -/
def wordCount : (size : Nat) → Nat
  | 0 => 1
  | size + 1 => 256 * wordCount size

@[simp] theorem length_littleEndian (size n : Nat) : (littleEndian size n).length = size := by
  induction size generalizing n with
  | zero => rfl
  | succ size ih => simp [littleEndian, ih]

theorem littleValue_littleEndian {size n : Nat} (h : n < wordCount size) :
    littleValue (littleEndian size n) = n := by
  induction size generalizing n with
  | zero =>
    simp only [wordCount] at h
    simp only [littleEndian, littleValue]
    omega
  | succ size ih =>
    have high : n / 256 < wordCount size := by
      rw [wordCount] at h
      omega
    rw [littleEndian, littleValue, ih high, UInt8.toNat_ofNat']
    omega

theorem littleEndian_littleValue (bs : List UInt8) :
    littleEndian bs.length (littleValue bs) = bs := by
  induction bs with
  | nil => rfl
  | cons b bs ih =>
    have low : b.toNat < 256 := b.toNat_lt
    have head : UInt8.ofNat (b.toNat + 256 * littleValue bs) = b := by
      apply UInt8.toNat_inj.1
      rw [UInt8.toNat_ofNat']
      omega
    have tail : (b.toNat + 256 * littleValue bs) / 256 = littleValue bs := by omega
    rw [List.length_cons, littleValue, littleEndian, head, tail, ih]

theorem littleValue_lt (bs : List UInt8) : littleValue bs < wordCount bs.length := by
  induction bs with
  | nil => exact Nat.one_pos
  | cons b bs ih =>
    have low : b.toNat < 256 := b.toNat_lt
    rw [littleValue, List.length_cons, wordCount]
    omega

namespace Endian

@[simp] theorem length_bytes (e : Endian) (size n : Nat) : (e.bytes size n).length = size := by
  cases e <;> simp [bytes]

theorem value_bytes (e : Endian) {size n : Nat} (h : n < wordCount size) :
    e.value (e.bytes size n) = n := by
  cases e with
  | little => exact littleValue_littleEndian h
  | big => rw [bytes, value, List.reverse_reverse, littleValue_littleEndian h]

theorem bytes_value (e : Endian) (bs : List UInt8) : e.bytes bs.length (e.value bs) = bs := by
  cases e with
  | little => exact littleEndian_littleValue bs
  | big =>
    have h := littleEndian_littleValue bs.reverse
    rw [List.length_reverse] at h
    rw [bytes, value, h, List.reverse_reverse]

theorem value_lt (e : Endian) (bs : List UInt8) : e.value bs < wordCount bs.length := by
  cases e with
  | little => exact littleValue_lt bs
  | big =>
    have h := littleValue_lt bs.reverse
    rwa [List.length_reverse] at h

@[simp] theorem length_header (e : Endian) (code : Nat) : (e.header code).length = 5 := by
  simp [header]

@[simp] theorem length_coord (e : Endian) (c : Coord) : (e.coord c).length = 16 := by
  simp [coord]

theorem four_le_length_counted (e : Endian) (item : α → List UInt8) (as : List α) :
    4 ≤ (e.counted item as).length := by
  simp [counted]

end Endian

theorem split?_eq_some {n : Nat} {bs front rest : List UInt8} :
    split? n bs = some (front, rest) ↔ front.length = n ∧ bs = front ++ rest := by
  induction n generalizing bs front with
  | zero =>
    rw [split?, List.length_eq_zero_iff]
    constructor
    · intro h
      cases h
      exact ⟨rfl, rfl⟩
    · rintro ⟨rfl, rfl⟩
      rfl
  | succ n ih =>
    cases bs with
    | nil =>
      constructor
      · intro h
        cases h
      · rintro ⟨count, he⟩
        rw [(List.append_eq_nil_iff.1 he.symm).1] at count
        cases count
    | cons b bs =>
      rw [split?, Option.map_eq_some_iff]
      constructor
      · rintro ⟨⟨tail, rest'⟩, h, he⟩
        cases he
        obtain ⟨count, rfl⟩ := ih.1 h
        exact ⟨congrArg Nat.succ count, rfl⟩
      · rintro ⟨count, he⟩
        cases front with
        | nil => cases count
        | cons c front =>
          obtain ⟨rfl, rfl⟩ := List.cons.inj he
          exact ⟨(front, rest), ih.2 ⟨Nat.succ.inj count, rfl⟩, rfl⟩

/-- Whether a reader takes just the encodings of parts that satisfy `p` off the front, and yields
their values. -/
def Accepts (read : Reader α) (p : β → Prop) (value : β → α) (bytes : β → List UInt8) : Prop :=
  ∀ bs a rest, read bs = .ok (a, rest) ↔ ∃ b, p b ∧ value b = a ∧ bs = bytes b ++ rest

namespace Accepts

variable {read : Reader α} {p : β → Prop} {value : β → α} {bytes : β → List UInt8}

theorem ok (h : Accepts read p value bytes) {b : β} (hb : p b) (rest : List UInt8) :
    read (bytes b ++ rest) = .ok (value b, rest) :=
  (h _ _ _).2 ⟨b, hb, rfl, rfl⟩

/-- The value put to use, with nothing more read. -/
theorem map (h : Accepts read p value bytes) (f : α → γ) :
    Accepts (fun bs => do let (a, rest) ← read bs; return (f a, rest)) p (fun b => f (value b))
      bytes := by
  intro bs c rest
  constructor
  · intro hc
    obtain ⟨⟨a, rest'⟩, ha, he⟩ := bind_eq_ok.1 hc
    obtain ⟨b, hb, rfl, hbs⟩ := (h _ _ _).1 ha
    cases he
    exact ⟨b, hb, rfl, hbs⟩
  · rintro ⟨b, hb, rfl, rfl⟩
    exact bind_eq_ok.2 ⟨_, h.ok hb rest, rfl⟩

end Accepts

variable (size : Nat)

theorem take_eq_ok {n : Nat} {bs front rest : List UInt8} :
    take size n bs = .ok (front, rest) ↔ front.length = n ∧ bs = front ++ rest := by
  rw [take, ← split?_eq_some]
  cases split? n bs <;> simp

theorem accepts_word (e : Endian) :
    Accepts (word size e) (fun n => n < 0x100000000) id (e.bytes 4) := by
  intro bs n rest
  constructor
  · intro h
    obtain ⟨⟨front, rest'⟩, hf, he⟩ := bind_eq_ok.1 h
    obtain ⟨count, rfl⟩ := (take_eq_ok size).1 hf
    cases he
    have bound := e.value_lt front
    have same := e.bytes_value front
    rw [count] at bound same
    exact ⟨_, bound, rfl, by rw [same]⟩
  · rintro ⟨m, hm, rfl, rfl⟩
    have front : take size 4 (e.bytes 4 m ++ rest) = .ok (e.bytes 4 m, rest) :=
      (take_eq_ok size).2 ⟨e.length_bytes 4 m, rfl⟩
    have number : e.value (e.bytes 4 m) = m := e.value_bytes hm
    refine bind_eq_ok.2 ⟨_, front, ?_⟩
    dsimp only
    rw [number]
    rfl

theorem accepts_double (e : Endian) :
    Accepts (double size e) (fun _ => True) id (fun x => e.bytes 8 x.bits.toNat) := by
  intro bs x rest
  constructor
  · intro h
    obtain ⟨⟨front, rest'⟩, hf, he⟩ := bind_eq_ok.1 h
    obtain ⟨count, rfl⟩ := (take_eq_ok size).1 hf
    cases he
    have bound := e.value_lt front
    have same := e.bytes_value front
    rw [count] at bound same
    have word : (UInt64.ofNat (e.value front)).toNat = e.value front :=
      UInt64.toNat_ofNat_of_lt' bound
    refine ⟨_, trivial, rfl, ?_⟩
    dsimp only
    rw [word, same]
  · rintro ⟨y, _, rfl, rfl⟩
    have front : take size 8 (e.bytes 8 y.bits.toNat ++ rest) = .ok (e.bytes 8 y.bits.toNat, rest) :=
      (take_eq_ok size).2 ⟨e.length_bytes 8 _, rfl⟩
    have number : e.value (e.bytes 8 y.bits.toNat) = y.bits.toNat := e.value_bytes y.bits.toNat_lt
    refine bind_eq_ok.2 ⟨_, front, ?_⟩
    dsimp only
    rw [number, UInt64.ofNat_toNat]
    rfl

theorem accepts_coord (e : Endian) :
    Accepts (coord size e) (fun _ => True) id e.coord := by
  intro bs c rest
  constructor
  · intro h
    obtain ⟨⟨x, rest₁⟩, hx, h⟩ := bind_eq_ok.1 h
    obtain ⟨⟨y, rest₂⟩, hy, he⟩ := bind_eq_ok.1 h
    obtain ⟨_, _, rfl, rfl⟩ := (accepts_double size e _ _ _).1 hx
    obtain ⟨_, _, rfl, rfl⟩ := (accepts_double size e _ _ _).1 hy
    cases he
    exact ⟨_, trivial, rfl, by rw [Endian.coord, List.append_assoc]; rfl⟩
  · rintro ⟨c, _, rfl, rfl⟩
    rw [Endian.coord, List.append_assoc]
    refine bind_eq_ok.2 ⟨_, (accepts_double size e).ok (b := c.x) trivial _, ?_⟩
    exact bind_eq_ok.2 ⟨_, (accepts_double size e).ok (b := c.y) trivial rest, rfl⟩

theorem count_eq_ok (e : Endian) (itemSize : Nat) {bs rest : List UInt8} {n : Nat} :
    count size e itemSize bs = .ok (n, rest) ↔
      n < 0x100000000 ∧ n * itemSize ≤ rest.length ∧ bs = e.bytes 4 n ++ rest := by
  constructor
  · intro h
    obtain ⟨⟨_, rest'⟩, hm, hn⟩ := bind_eq_ok.1 h
    obtain ⟨m, bound, rfl, rfl⟩ := (accepts_word size e _ _ _).1 hm
    dsimp only [id] at hn
    by_cases more : m * itemSize > rest'.length
    · rw [if_pos more] at hn
      cases hn
    · rw [if_neg more] at hn
      cases hn
      exact ⟨bound, Nat.le_of_not_gt more, rfl⟩
  · rintro ⟨bound, room, rfl⟩
    refine bind_eq_ok.2 ⟨_, (accepts_word size e).ok bound rest, ?_⟩
    exact if_neg (Nat.not_lt.2 room)

section Items

variable {item : Reader α} {p : β → Prop} {value : β → α} {bytes : β → List UInt8}

/-- Items in a row, whose number is known. -/
theorem accepts_replicated (h : Accepts item p value bytes) (n : Nat) :
    Accepts (replicated item n) (fun bs => bs.length = n ∧ ∀ b ∈ bs, p b) (List.map value)
      (List.flatMap bytes) := by
  induction n with
  | zero =>
    intro bs as rest
    constructor
    · intro ha
      cases ha
      exact ⟨[], ⟨rfl, fun _ hb => (List.not_mem_nil hb).elim⟩, rfl, rfl⟩
    · rintro ⟨parts, ⟨number, _⟩, rfl, rfl⟩
      rw [List.length_eq_zero_iff.1 number]
      rfl
  | succ n ih =>
    intro bs as rest
    constructor
    · intro ha
      obtain ⟨⟨a, rest₁⟩, ha₁, ha⟩ := bind_eq_ok.1 ha
      obtain ⟨⟨as', rest₂⟩, ha₂, he⟩ := bind_eq_ok.1 ha
      obtain ⟨b, hb, rfl, rfl⟩ := (h _ _ _).1 ha₁
      obtain ⟨parts, ⟨number, hparts⟩, rfl, rfl⟩ := (ih _ _ _).1 ha₂
      cases he
      refine ⟨b :: parts, ⟨congrArg Nat.succ number, List.forall_mem_cons.2 ⟨hb, hparts⟩⟩, rfl, ?_⟩
      rw [List.flatMap_cons, List.append_assoc]
    · rintro ⟨parts, ⟨number, hparts⟩, rfl, rfl⟩
      cases parts with
      | nil => cases number
      | cons b parts =>
        obtain ⟨hb, hparts⟩ := List.forall_mem_cons.1 hparts
        rw [List.flatMap_cons, List.append_assoc]
        refine bind_eq_ok.2 ⟨_, h.ok hb _, ?_⟩
        exact bind_eq_ok.2 ⟨_, ih.ok ⟨Nat.succ.inj number, hparts⟩ rest, rfl⟩

theorem mul_le_length_flatMap {itemSize : Nat} {parts : List β}
    (h : ∀ b ∈ parts, itemSize ≤ (bytes b).length) :
    parts.length * itemSize ≤ (parts.flatMap bytes).length := by
  induction parts with
  | nil => simp
  | cons b parts ih =>
    obtain ⟨hb, hparts⟩ := List.forall_mem_cons.1 h
    have := ih hparts
    rw [List.flatMap_cons, List.length_append, List.length_cons, Nat.succ_mul]
    omega

/-- Items behind their count. The count asks for no more than the data holds, as no item is smaller
than it is taken to be. -/
theorem accepts_counted (h : Accepts item p value bytes) {itemSize : Nat}
    (least : ∀ b, p b → itemSize ≤ (bytes b).length) (e : Endian) :
    Accepts (fun bs => do let (n, rest) ← count size e itemSize bs; replicated item n rest)
      (fun bs => CountFits bs ∧ ∀ b ∈ bs, p b) (List.map value) (e.counted bytes) := by
  intro bs as rest
  constructor
  · intro ha
    obtain ⟨⟨n, rest₁⟩, hn, hr⟩ := bind_eq_ok.1 ha
    obtain ⟨bound, _, rfl⟩ := (count_eq_ok size e itemSize).1 hn
    obtain ⟨parts, ⟨rfl, hparts⟩, rfl, rfl⟩ := (accepts_replicated h _ _ _ _).1 hr
    exact ⟨parts, ⟨bound, hparts⟩, rfl, by rw [Endian.counted, List.append_assoc]⟩
  · rintro ⟨parts, ⟨bound, hparts⟩, rfl, rfl⟩
    have room := mul_le_length_flatMap fun b hb => least b (hparts b hb)
    have number : count size e itemSize (e.counted bytes parts ++ rest) =
        .ok (parts.length, parts.flatMap bytes ++ rest) := by
      refine (count_eq_ok size e itemSize).2 ⟨bound, ?_, List.append_assoc _ _ _⟩
      rw [List.length_append]
      omega
    exact bind_eq_ok.2 ⟨_, number, (accepts_replicated h parts.length).ok ⟨rfl, hparts⟩ rest⟩

end Items
end LogicalTable.Wkb
