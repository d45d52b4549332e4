/-! Double precision numbers as 64-bit words. Two words are told apart by their bits; the numeric
order and equality read the words as numbers, so that NaN equals nothing and the zeros agree. -/
namespace LogicalTable

structure Binary64 where
  bits : UInt64
  deriving DecidableEq, Repr, Hashable

namespace Binary64

def signBit : Nat := 0x8000000000000000

/-- The bit that numbers imply above their stored significand, unless they are subnormal. -/
def impliedBit : Nat := 0x10000000000000

def magnitude (x : Binary64) : Nat := x.bits.toNat % signBit

def isNegative (x : Binary64) : Bool := signBit ≤ x.bits.toNat

/-- The magnitude of the infinities; larger ones are NaN. -/
def infiniteMagnitude : Nat := 2047 * impliedBit

def isNaN (x : Binary64) : Bool := infiniteMagnitude < x.magnitude

def isInfinite (x : Binary64) : Bool := x.magnitude == infiniteMagnitude

def rank (x : Binary64) : Int := if x.isNegative then -(x.magnitude : Int) else x.magnitude

def same (x y : Binary64) : Bool := !x.isNaN && !y.isNaN && x.rank == y.rank

def less (x y : Binary64) : Bool := !x.isNaN && !y.isNaN && x.rank < y.rank

def zero : Binary64 := ⟨0⟩

def nan : Binary64 := ⟨0x7ff8000000000000⟩

def ofMagnitude (negative : Bool) (m : Nat) : Binary64 :=
  ⟨UInt64.ofNat (if negative then signBit + m else m)⟩

def infinity (negative : Bool) : Binary64 := ofMagnitude negative infiniteMagnitude

def negate (x : Binary64) : Binary64 := ofMagnitude (!x.isNegative) x.magnitude

/-- A finite number is its significand times two to this power. -/
def significand (x : Binary64) : Nat :=
  if x.magnitude < impliedBit then x.magnitude else impliedBit + x.magnitude % impliedBit

def exponent (x : Binary64) : Int :=
  if x.magnitude < impliedBit then -1074 else x.magnitude / impliedBit - 1075

theorem same_self (x : Binary64) : x.same x = !x.isNaN := by
  simp [same]

end Binary64
end LogicalTable
