import LogicalTable.Text.Numeral
import LogicalTable.Binary64.Rounding
import LogicalTable.Binary64.Shortest

/-! Doubles in text: written in full, without an exponent; read with or without one. -/
namespace LogicalTable.Binary64

open LogicalTable.Text

def positional (d : Nat) (e : Int) : List Char :=
  let all := Nat.toDigits 10 d
  let digits := (all.reverse.dropWhile (· == '0')).reverse
  let e := e + (all.length - digits.length : Nat)
  let places := (-e).toNat
  if places = 0 then digits ++ List.replicate e.toNat '0'
  else if places < digits.length then
    digits.take (digits.length - places) ++ '.' :: digits.drop (digits.length - places)
  else '0' :: '.' :: List.replicate (places - digits.length) '0' ++ digits

def text (x : Binary64) : String :=
  if x.isNaN then "NaN"
  else
    let digits :=
      if x.isInfinite then ['i', 'n', 'f']
      else if x.magnitude = 0 then ['0']
      else positional x.shortest.1 x.shortest.2
    String.ofList (if x.isNegative then '-' :: digits else digits)

def lowerCase (cs : List Char) : List Char := cs.map Char.toLower

def exponentPart? : List Char → Option Int
  | [] => some 0
  | c :: cs => if c = 'e' ∨ c = 'E' then integer? cs else none

/-- An unsigned numeral: digits with at most one point among or around them, then an optional
exponent. -/
def ofUnsigned? (negative : Bool) (cs : List Char) : Option Binary64 :=
  let whole := cs.takeWhile isDigit
  let rest := cs.dropWhile isDigit
  let (fraction, rest) := match rest with
    | '.' :: tail => (tail.takeWhile isDigit, tail.dropWhile isDigit)
    | _ => ([], rest)
  if whole = [] ∧ fraction = [] then none
  else (exponentPart? rest).map fun e =>
    ofDecimal negative (digitsValue (whole ++ fraction)) (e - fraction.length)

def ofChars? (cs : List Char) : Option Binary64 :=
  let (negative, body) := match cs with
    | '-' :: rest => (true, rest)
    | '+' :: rest => (false, rest)
    | _ => (false, cs)
  let word := lowerCase body
  if word = ['i', 'n', 'f'] ∨ word = ['i', 'n', 'f', 'i', 'n', 'i', 't', 'y'] then
    some (infinity negative)
  else if word = ['n', 'a', 'n'] then some (ofMagnitude negative nan.magnitude)
  else ofUnsigned? negative body

end LogicalTable.Binary64
