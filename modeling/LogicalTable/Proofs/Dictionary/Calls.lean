import LogicalTable.Proofs.Dictionary.Exhausted
import Mathlib.Data.List.Nodup

/-! Calls for keys in a row. A fresh source counts up from zero as far as its width reaches and fails
from then on, unless its width is the whole word of the counter: then the counter wraps, and the keys
start again. -/
namespace LogicalTable.KeySource

/-- One call for a key: what it gives, and the source behind it. -/
def call (s : KeySource) : Except LayoutError UInt64 × KeySource :=
  match s.draw with
  | .ok (k, t) => (.ok k, t)
  | .error e => (.error e, s)

def calls (s : KeySource) : Nat → List (Except LayoutError UInt64) × KeySource
  | 0 => ([], s)
  | n + 1 => (s.call.1 :: (s.call.2.calls n).1, (s.call.2.calls n).2)

theorem call_of_le {s : KeySource} (left : s.next.toNat ≤ s.key.maxKey) :
    s.call = (.ok s.next, { s with next := s.next + 1 }) := by
  rw [call, draw_eq_ok left]

theorem call_exhausted {s : KeySource} (gone : s.Exhausted) :
    s.call = (.error (.keysExhausted s.key.name), s) := by
  rw [call, draw_exhausted gone]

theorem calls_add (s : KeySource) (m n : Nat) :
    s.calls (m + n) = ((s.calls m).1 ++ ((s.calls m).2.calls n).1, ((s.calls m).2.calls n).2) := by
  induction m generalizing s with
  | zero =>
    rw [Nat.zero_add]
    rfl
  | succ m ih =>
    rw [Nat.succ_add, calls, ih, calls, List.cons_append]

/-- Failing is final. -/
theorem calls_exhausted {s : KeySource} (gone : s.Exhausted) (n : Nat) :
    s.calls n = (List.replicate n (.error (.keysExhausted s.key.name)), s) := by
  induction n with
  | zero => rfl
  | succ n ih => rw [calls, call_exhausted gone, ih, List.replicate_succ]

/-- As long as the width lasts, the keys are the next numbers. -/
theorem calls_within {key : DictKey} {start n : Nat} (room : start + n ≤ key.maxKey + 1) :
    calls ⟨key, UInt64.ofNat start⟩ n =
      ((List.range' start n).map fun i => .ok (UInt64.ofNat i), ⟨key, UInt64.ofNat (start + n)⟩) := by
  -- On the calls that are left, for every number that the counter may have reached.
  induction n generalizing start with
  | zero => rfl
  | succ n ih =>
    have word := key.maxKey_lt
    have left : (UInt64.ofNat start).toNat ≤ key.maxKey := by
      rw [UInt64.toNat_ofNat', Nat.mod_eq_of_lt (by omega)]
      omega
    have next : UInt64.ofNat start + 1 = UInt64.ofNat (start + 1) := (UInt64.ofNat_add start 1).symm
    rw [calls, call_of_le left, next, ih (by omega), List.range'_succ, List.map_cons,
      Nat.add_right_comm, Nat.add_assoc]

def firstKeys (n : Nat) : List UInt64 := (List.range n).map UInt64.ofNat

theorem toNat_firstKeys {n : Nat} (word : n ≤ 0x10000000000000000) :
    (firstKeys n).map UInt64.toNat = List.range n := by
  have same : ∀ i ∈ List.range n, (UInt64.ofNat i).toNat = i := by
    intro i hi
    have inside := List.mem_range.1 hi
    rw [UInt64.toNat_ofNat', Nat.mod_eq_of_lt (by omega)]
  rw [firstKeys, List.map_map]
  exact (List.map_congr_left same).trans (List.map_id' _)

theorem nodup_firstKeys {n : Nat} (word : n ≤ 0x10000000000000000) : (firstKeys n).Nodup := by
  apply List.Nodup.of_map UInt64.toNat
  rw [toNat_firstKeys word]
  exact List.nodup_range

theorem toNat_lt_of_mem_firstKeys {n : Nat} (word : n ≤ 0x10000000000000000) {k : UInt64}
    (h : k ∈ firstKeys n) : k.toNat < n := by
  have place := List.mem_map_of_mem (f := UInt64.toNat) h
  rw [toNat_firstKeys word] at place
  exact List.mem_range.1 place

theorem calls_fresh {key : DictKey} {n : Nat} (room : n ≤ key.maxKey + 1) :
    (fresh key).calls n = ((firstKeys n).map .ok, ⟨key, UInt64.ofNat n⟩) := by
  have room : 0 + n ≤ key.maxKey + 1 := by omega
  have within := calls_within room
  rw [Nat.zero_add] at within
  rw [firstKeys, List.map_map, List.range_eq_range']
  exact within

/-- A width below the whole word leaves the counter a value that tells that no key is left. -/
theorem spent_exhausted {key : DictKey} (narrow : key ≠ .long) : (spent key).Exhausted := by
  rw [Exhausted, spent]
  cases key with
  | byte => decide
  | int => decide
  | long => exact (narrow rfl).elim

theorem calls_spent {key : DictKey} (narrow : key ≠ .long) (n : Nat) :
    (fresh key).calls (key.maxKey + 1 + n) =
      ((firstKeys (key.maxKey + 1)).map .ok ++ List.replicate n (.error (.keysExhausted key.name)),
        spent key) := by
  have last : (fresh key).calls (key.maxKey + 1) = (_, spent key) := calls_fresh (Nat.le_refl _)
  rw [calls_add, last, calls_exhausted (spent_exhausted narrow)]
  rfl

/-- The counter of the widest keys is as it was at the start once all of them are drawn. -/
theorem calls_wrapped : ((fresh .long).calls 0x10000000000000000).2 = fresh .long := by
  have room : 0x10000000000000000 ≤ DictKey.long.maxKey + 1 := by decide
  rw [calls_fresh room]
  rfl

/-- While the counter holds the number of calls, they give the keys from zero up to the last one of the
width, each once, and then fail without a change to the source. The counter of the widest keys never
fails: behind the last key it gives all of them again. -/
theorem calls_countUp (key : DictKey) (n : Nat) :
    (key ≠ .long ∨ n ≤ 0x10000000000000000 → ∃ keys : List UInt64,
      ((fresh key).calls n).1 = keys.map .ok ++
        List.replicate (n - (key.maxKey + 1)) (.error (.keysExhausted key.name)) ∧
      keys.map UInt64.toNat = List.range (min n (key.maxKey + 1)) ∧ keys.Nodup ∧
      ∀ k ∈ keys, k.toNat ≤ key.maxKey) ∧
    (key ≠ .long → key.maxKey + 1 ≤ n →
      ((fresh key).calls n).2 = spent key ∧
      (spent key).call = (.error (.keysExhausted key.name), spent key)) ∧
    (fresh .long).calls (0x10000000000000000 + n) =
      (((fresh .long).calls 0x10000000000000000).1 ++ ((fresh .long).calls n).1,
        ((fresh .long).calls n).2) ∧
    (Error.layout (.keysExhausted key.name)).message =
      "Conversion error: dictionary keys exhausted for " ++ key.name := by
  have word := key.maxKey_lt
  refine ⟨fun counted => ?_, fun narrow all => ?_, ?_, ?_⟩
  · refine ⟨firstKeys (min n (key.maxKey + 1)), ?_, toNat_firstKeys (by omega),
      nodup_firstKeys (by omega), fun k hk => ?_⟩
    · by_cases room : n ≤ key.maxKey + 1
      · rw [calls_fresh room, Nat.min_eq_left room, Nat.sub_eq_zero_of_le room, List.replicate_zero,
          List.append_nil]
      · have narrow : key ≠ .long := by
          rintro rfl
          exact counted.elim (· rfl) room
        obtain ⟨m, rfl⟩ := Nat.exists_eq_add_of_le (Nat.le_of_not_le room)
        rw [calls_spent narrow, Nat.min_eq_right (Nat.le_add_right _ _), Nat.add_sub_cancel_left]
    · have below := toNat_lt_of_mem_firstKeys (by omega) hk
      omega
  · obtain ⟨m, rfl⟩ := Nat.exists_eq_add_of_le all
    rw [calls_spent narrow]
    exact ⟨rfl, call_exhausted (spent_exhausted narrow)⟩
  · rw [calls_add, calls_wrapped]
  · cases key <;> decide

/-- Of the narrowest keys there are 256, and the call behind the last one fails. -/
theorem calls_countUp_byte : DictKey.byte ≠ .long ∧ DictKey.byte.maxKey + 1 ≤ 300 ∧
    (∃ keys : List UInt64,
      ((fresh .byte).calls 300).1 =
        keys.map .ok ++ List.replicate 44 (.error (.keysExhausted "BYTE_KEY")) ∧
      keys.map UInt64.toNat = List.range 256 ∧ keys.Nodup ∧ ∀ k ∈ keys, k.toNat ≤ 255) ∧
    ((fresh .byte).calls 300).2 = spent .byte ∧
    (spent .byte).call = (.error (.keysExhausted "BYTE_KEY"), spent .byte) := by
  have narrow : DictKey.byte ≠ .long := by decide
  have all : DictKey.byte.maxKey + 1 ≤ 300 := by decide
  obtain ⟨keys, last, _⟩ := calls_countUp .byte 300
  exact ⟨narrow, all, keys (Or.inl narrow), last narrow all⟩

/-- The call behind the last of the widest keys gives the first one again. -/
theorem calls_long_again : ((fresh .long).calls 1).1 = [.ok 0] ∧
    ((fresh .long).calls 0x10000000000000000).2.call = (.ok 0, ⟨.long, 1⟩) := by
  rw [calls_wrapped]
  exact ⟨rfl, rfl⟩

end LogicalTable.KeySource
