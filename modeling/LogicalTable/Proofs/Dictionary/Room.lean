import LogicalTable.Proofs.Dictionary.Lossless
import Mathlib.Data.List.Induction

/-! What the success of encoding tells. Unless the counter of the keys wraps, the width had a key
for every distinct value. -/
namespace LogicalTable

theorem length_distinctValues_le (vs : List StorageValue) :
    (distinctValues vs).length ≤ vs.length := by
  induction vs using List.reverseRecOn with
  | nil => exact Nat.le_refl 0
  | append_singleton us v ih =>
    rw [List.length_append, List.length_singleton]
    by_cases old : v = .null ∨ v ∈ us
    · rw [distinctValues_append_same old]
      exact Nat.le_succ_of_le ih
    · obtain ⟨hv, new⟩ := not_or.1 old
      rw [distinctValues_append_new hv new, List.length_append]
      exact Nat.succ_le_succ ih

theorem keysNeeded_le (vss : List (List StorageValue)) :
    keysNeeded vss ≤ (vss.map List.length).foldr (· + ·) 0 := by
  induction vss with
  | nil => exact Nat.le_refl 0
  | cons vs vss ih =>
    have := length_distinctValues_le vs
    rw [keysNeeded, List.map_cons, List.foldr_cons]
    omega

namespace KeySource

/-- The last new value of a chunk still had a key. -/
theorem room_of_rows {start : Nat} {all us vs : List StorageValue} (h : us ++ vs = all)
    {s t : KeySource} {seen : List (StorageValue × UInt64)} {rows : List DictionaryRow}
    (progress : Progress start all us s seen)
    (word : start + (distinctValues all).length ≤ 0x10000000000000000)
    (before : start + (distinctValues us).length ≤ s.key.maxKey + 1)
    (encoded : s.rows seen vs = (t, .ok rows)) :
    start + (distinctValues all).length ≤ s.key.maxKey + 1 := by
  -- Over the values that are left: only new ones draw a key, and only while the width lasts.
  induction vs generalizing us s seen rows with
  | nil =>
    rw [List.append_nil] at h
    rwa [← h]
  | cons v vs ih =>
    have rest : (us ++ [v]) ++ vs = all := by
      rw [List.append_assoc]
      exact h
    rcases rows_cons h progress with ⟨old, step⟩ | ⟨⟨hv, new⟩, left, step⟩ | ⟨_, _, step⟩
    · rw [step] at encoded
      obtain ⟨_, encoded, _⟩ := ok_of_map encoded
      rw [← distinctValues_append_same old] at before
      exact ih rest (progress.same old) before encoded
    · subst h
      have counted : s.next.toNat = start + (distinctValues us).length := by
        have := length_distinctValues_lt hv new vs
        rw [progress.next, UInt64.toNat_ofNat', Nat.mod_eq_of_lt (by omega)]
      rw [step] at encoded
      obtain ⟨_, encoded, _⟩ := ok_of_map encoded
      refine ih (s := { s with next := s.next + 1 }) rest (progress.new hv new).2 ?_ encoded
      rw [distinctValues_append_new hv new, List.length_append, List.length_singleton]
      dsimp only
      omega
    · rw [step] at encoded
      cases encoded

theorem room_of_encode {s t : KeySource} {value : ArrayType} {vs : List StorageValue} {c : Chunk}
    (word : s.next.toNat + (distinctValues vs).length ≤ 0x10000000000000000)
    (before : s.next.toNat ≤ s.key.maxKey + 1) (encoded : s.encode value vs = (t, .ok c)) :
    s.next.toNat + (distinctValues vs).length ≤ s.key.maxKey + 1 := by
  rw [encode] at encoded
  cases drawn : s.rows [] vs with
  | mk u outcome =>
    cases outcome with
    | error e =>
      rw [drawn] at encoded
      cases encoded
    | ok rows => exact room_of_rows (List.nil_append vs) (Progress.init vs) word before drawn

end KeySource
end LogicalTable
