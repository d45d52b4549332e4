import LogicalTable.Binary64.Basic

/-! The shortest decimals of doubles: of all decimals that read back as the number, one with the
fewest digits, and the nearest of those. -/
namespace LogicalTable.Binary64

/-- A positive finite number in quarters of its spacing, with the ends of the interval that reads
back as it: all three are numerators over `den`. Below a power of two the spacing halves. -/
structure Span where
  low : Nat
  value : Nat
  high : Nat
  den : Nat
  closed : Bool

def span (x : Binary64) : Span :=
  let m := x.significand
  let q := x.exponent - 2
  let low := if m = impliedBit ∧ -1074 < x.exponent then 4 * m - 1 else 4 * m - 2
  let up := Nat.pow 2 q.toNat
  ⟨low * up, 4 * m * up, (4 * m + 2) * up, Nat.pow 2 (-q).toNat, m % 2 = 0⟩

def Span.holds (s : Span) (d : Nat) (e : Int) : Bool :=
  let n := d * Nat.pow 10 e.toNat * s.den
  let low := s.low * Nat.pow 10 (-e).toNat
  let high := s.high * Nat.pow 10 (-e).toNat
  if s.closed then low ≤ n && n ≤ high else low < n && n < high

/-- The decimal of unit `10 ^ e` next to the number, if one of its two neighbours reads back. -/
def Span.neighbour? (s : Span) (e : Int) : Option Nat :=
  let num := s.value * Nat.pow 10 (-e).toNat
  let unit := s.den * Nat.pow 10 e.toNat
  let below := num / unit
  match s.holds below e, s.holds (below + 1) e with
  | true, true => some (if num - below * unit ≤ (below + 1) * unit - num then below else below + 1)
  | true, false => some below
  | false, true => some (below + 1)
  | false, false => none

/-- The power of ten just above the number: `10 ^ (k - 1) ≤ value < 10 ^ k`, found from a guess
that errs by one place at most. -/
def Span.decade (s : Span) : Int :=
  let bits : Int := Nat.log2 s.value - Nat.log2 s.den
  let guess := bits * 30103 / 100000
  let reaches (k : Int) : Bool :=
    s.den * Nat.pow 10 k.toNat ≤ s.value * Nat.pow 10 (-k).toNat
  if reaches (guess + 1) then guess + 2
  else if reaches guess then guess + 1
  else if reaches (guess - 1) then guess
  else guess - 1

/-- Tries ever more digits, and settles for seventeen. -/
def Span.search (s : Span) (k : Int) : (tries digits : Nat) → Nat × Int
  | 0, digits =>
    (s.value * Nat.pow 10 ((digits : Int) - k).toNat / (s.den * Nat.pow 10 (k - digits).toNat),
      k - digits)
  | tries + 1, digits =>
    match s.neighbour? (k - digits) with
    | some d => (d, k - digits)
    | none => s.search k tries (digits + 1)

def shortest (x : Binary64) : Nat × Int :=
  let s := x.span
  s.search s.decade 17 1

end LogicalTable.Binary64
