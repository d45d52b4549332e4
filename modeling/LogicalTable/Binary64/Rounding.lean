import LogicalTable.Binary64.Basic

/-! Rounding of exact quotients to double precision, nearest with ties to even, and the sums and
products that rest on it. -/
namespace LogicalTable.Binary64

/-- The integer nearest to a quotient, the even one of two. -/
def nearest (num den : Nat) : Nat :=
  let q := num / den
  let r := 2 * (num % den)
  if r < den then q else if den < r then q + 1 else q + q % 2

/-- The magnitude nearest to `num / den`, for a positive `den`. A significand of 53 bits steps by
`2 ^ q`; the word of significand `m` at step `q` is `(q + 1074) * 2 ^ 52 + m`, also where rounding
carries `m` to the next power of two. -/
def nearestMagnitude (num den : Nat) : Nat :=
  if num = 0 then 0
  else
    let guess : Int := Nat.log2 num - Nat.log2 den
    let below : Bool :=
      if 0 ≤ guess then num < den * Nat.pow 2 guess.toNat
      else num * Nat.pow 2 (-guess).toNat < den
    let top : Int := if below then guess - 1 else guess
    let q : Int := max (top - 52) (-1074)
    let m := if 0 ≤ q then nearest num (den * Nat.pow 2 q.toNat)
      else nearest (num * Nat.pow 2 (-q).toNat) den
    min ((q + 1074).toNat * impliedBit + m) infiniteMagnitude

def ofQuotient (negative : Bool) (num den : Nat) : Binary64 :=
  ofMagnitude negative (nearestMagnitude num den)

/-- The number nearest to `d * 10 ^ e`. Exponents far out of range are settled by the number of
digits alone. -/
def ofDecimal (negative : Bool) (d : Nat) (e : Int) : Binary64 :=
  let digits : Int := (Nat.toDigits 10 d).length
  if d = 0 then ofMagnitude negative 0
  else if 310 < e + digits then infinity negative
  else if e + digits < -330 then ofMagnitude negative 0
  else if 0 ≤ e then ofQuotient negative (d * Nat.pow 10 e.toNat) 1
  else ofQuotient negative d (Nat.pow 10 (-e).toNat)

def ofDyadic (n : Int) (e : Int) : Binary64 :=
  if 0 ≤ e then ofQuotient (n < 0) (n.natAbs * Nat.pow 2 e.toNat) 1
  else ofQuotient (n < 0) n.natAbs (Nat.pow 2 (-e).toNat)

def signedSignificand (x : Binary64) : Int :=
  if x.isNegative then -(x.significand : Int) else x.significand

def add (x y : Binary64) : Binary64 :=
  if x.isNaN || y.isNaN then nan
  else if x.isInfinite then
    if y.isInfinite && x.isNegative != y.isNegative then nan else x
  else if y.isInfinite then y
  else if x.magnitude == 0 && y.magnitude == 0 then
    if x.isNegative && y.isNegative then x else zero
  else
    let e := min x.exponent y.exponent
    ofDyadic (x.signedSignificand * Nat.pow 2 (x.exponent - e).toNat +
      y.signedSignificand * Nat.pow 2 (y.exponent - e).toNat) e

def sub (x y : Binary64) : Binary64 := add x y.negate

def mul (x y : Binary64) : Binary64 :=
  let negative := x.isNegative != y.isNegative
  if x.isNaN || y.isNaN then nan
  else if x.isInfinite || y.isInfinite then
    if x.magnitude == 0 || y.magnitude == 0 then nan else infinity negative
  else
    let e := x.exponent + y.exponent
    let m := x.significand * y.significand
    if 0 ≤ e then ofQuotient negative (m * Nat.pow 2 e.toNat) 1
    else ofQuotient negative m (Nat.pow 2 (-e).toNat)

end LogicalTable.Binary64
