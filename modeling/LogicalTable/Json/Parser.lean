import LogicalTable.Binary64.Text
import LogicalTable.Json.Basic

/-! Reading JSON text. A reader takes a value off the front of the text and returns the rest.

Values are read under a limit of nested arrays and objects. Members that the reader of a record
does not know are passed over: their text must be JSON too, but may nest without limit, hold
numbers out of range and half surrogate pairs. -/
namespace LogicalTable.Json

open LogicalTable.Text

abbrev Reader (α : Type) := List Char → Option (α × List Char)

def isSpace (c : Char) : Bool := c == ' ' || c == '\t' || c == '\n' || c == '\r'

def skipSpace (cs : List Char) : List Char := cs.dropWhile isSpace

/-- Where the reading of a string stands: between characters, behind a backslash, within the four
digits of a code unit (with the high surrogate before it, if any), or between the two units of a
surrogate pair. -/
inductive StringState where
  | plain
  | escape
  | unit (left value : Nat) (high : Option Nat)
  | pairEscape (high : Nat)
  | pairUnit (high : Nat)
  deriving DecidableEq, Repr

def isHighSurrogate (n : Nat) : Bool := 0xd800 ≤ n && n < 0xdc00

def isLowSurrogate (n : Nat) : Bool := 0xdc00 ≤ n && n < 0xe000

def escapeOf? (c : Char) : Option Char :=
  if c = '"' || c = '\\' || c = '/' then some c
  else if c = 'b' then some '\x08'
  else if c = 'f' then some '\x0c'
  else if c = 'n' then some '\n'
  else if c = 'r' then some '\r'
  else if c = 't' then some '\t'
  else none

/-- Steps over one character of a string: the next state and what was read, if it completes a
character. Unless `paired`, surrogates need not pair. -/
def stringStep (paired : Bool) : StringState → Char → Option (StringState × List Char)
  | .plain, c =>
    if c = '\\' then some (.escape, [])
    else if c.toNat < 0x20 then none
    else some (.plain, [c])
  | .escape, c =>
    if c = 'u' then some (.unit 4 0 none, [])
    else (escapeOf? c).map fun d => (.plain, [d])
  | .unit left value high, c => (hexValue? c).bind fun digit =>
    let value := 16 * value + digit
    if 1 < left then some (.unit (left - 1) value high, [])
    else if !paired then some (.plain, [Char.ofNat value])
    else match high with
      | some h =>
        if isLowSurrogate value then
          some (.plain, [Char.ofNat (0x10000 + (h - 0xd800) * 0x400 + (value - 0xdc00))])
        else none
      | none =>
        if isHighSurrogate value then some (.pairEscape value, [])
        else if isLowSurrogate value then none
        else some (.plain, [Char.ofNat value])
  | .pairEscape high, c => if c = '\\' then some (.pairUnit high, []) else none
  | .pairUnit high, c => if c = 'u' then some (.unit 4 0 (some high), []) else none

def stringBody (paired : Bool) : StringState → Reader (List Char)
  | _, [] => none
  | st, c :: cs =>
    if st = .plain ∧ c = '"' then some ([], cs)
    else do
      let (st, read) ← stringStep paired st c
      let (more, rest) ← stringBody paired st cs
      return (read ++ more, rest)

def stringReader (paired : Bool) : Reader String
  | '"' :: cs => (stringBody paired .plain cs).map fun (s, rest) => (String.ofList s, rest)
  | _ => none

def wholeDigits (cs : List Char) : Option (List Char × List Char) :=
  match cs with
  | '0' :: rest => if (rest.head?.map isDigit).getD false then none else some (['0'], rest)
  | _ =>
    let digits := cs.takeWhile isDigit
    if digits = [] then none else some (digits, cs.dropWhile isDigit)

def fractionDigits : Reader (List Char)
  | '.' :: cs =>
    let digits := cs.takeWhile isDigit
    if digits = [] then none else some ('.' :: digits, cs.dropWhile isDigit)
  | cs => some ([], cs)

def exponentDigits : Reader (List Char)
  | c :: cs =>
    if c = 'e' ∨ c = 'E' then
      let (sign, rest) := match cs with
        | '+' :: rest => (['+'], rest)
        | '-' :: rest => (['-'], rest)
        | _ => ([], cs)
      let digits := rest.takeWhile isDigit
      if digits = [] then none else some (c :: sign ++ digits, rest.dropWhile isDigit)
    else some ([], c :: cs)
  | [] => some ([], [])

/-- A number. Within `range` it must not round to an infinity. -/
def numberReader (range : Bool) : Reader Json := fun cs => do
  let (sign, cs) := match cs with
    | '-' :: rest => (['-'], rest)
    | _ => ([], cs)
  let (whole, cs) ← wholeDigits cs
  let (fraction, cs) ← fractionDigits cs
  let (exponent, cs) ← exponentDigits cs
  if sign = [] ∧ fraction = [] ∧ exponent = [] ∧ digitsValue whole < 0x10000000000000000 then
    return (natural (digitsValue whole), cs)
  else
    let literal := sign ++ whole ++ fraction ++ exponent
    if range && ((Binary64.ofChars? literal).map Binary64.isInfinite).getD true then none
    else return (number (String.ofList literal), cs)

/-- The rest of a given word and of the text behind it. -/
def word (w : List Char) (j : Json) : Reader Json := fun cs =>
  if w.isPrefixOf cs then some (j, cs.drop w.length) else none

def scalar (strict : Bool) : Reader Json
  | [] => none
  | c :: cs =>
    if c = 'n' then word ['u', 'l', 'l'] null cs
    else if c = 't' then word ['r', 'u', 'e'] (bool true) cs
    else if c = 'f' then word ['a', 'l', 's', 'e'] (bool false) cs
    else if c = '"' then (stringReader strict (c :: cs)).map fun (s, rest) => (string s, rest)
    else if c = '-' || isDigit c then numberReader strict (c :: cs)
    else none

def commaSeparated (item : Reader α) (close : Char) : (fuel : Nat) → Reader (List α)
  | 0, _ => none
  | fuel + 1, cs => do
    let (a, rest) ← item (skipSpace cs)
    match skipSpace rest with
    | [] => none
    | c :: rest =>
      if c = ',' then
        let (more, rest) ← commaSeparated item close fuel rest
        return (a :: more, rest)
      else if c = close then return ([a], rest)
      else none

/-- Items apart by commas, up to a closing character. Each takes at least one character, so that
the length of the text bounds their number. -/
def items (item : Reader α) (close : Char) : Reader (List α) := fun cs =>
  match skipSpace cs with
  | [] => none
  | c :: rest => if c = close then some ([], rest) else commaSeparated item close (rest.length + 1) cs

def memberName (strict : Bool) : Reader String := fun cs => do
  let (name, rest) ← stringReader strict cs
  match skipSpace rest with
  | ':' :: rest => return (name, skipSpace rest)
  | _ => none

def member (strict : Bool) (value : Reader Json) : Reader (String × Json) := fun cs => do
  let (name, rest) ← memberName strict cs
  let (j, rest) ← value rest
  return ((name, j), rest)

/-- A value whose arrays and objects nest at most `depth` deep. -/
def value (strict : Bool) : (depth : Nat) → Reader Json
  | 0, cs => scalar strict cs
  | depth + 1, cs =>
    match cs with
    | '[' :: rest => (items (value strict depth) ']' rest).map fun (js, rest) => (array js, rest)
    | '\x7b' :: rest =>
      (items (member strict (value strict depth)) '\x7d' rest).map
        fun (ms, rest) => (object ms, rest)
    | _ => scalar strict cs

def skipValue : Reader Json := fun cs => value false cs.length cs

structure FieldReader where
  name : String
  read : Reader Json

/-- A member of a record, with `none` for one that the record does not know. -/
def fieldMember (fields : List FieldReader) : Reader (Option (String × Json)) := fun cs => do
  let (name, rest) ← memberName true cs
  match fields.find? (·.name = name) with
  | some field => (field.read rest).map fun (j, rest) => (some (name, j), rest)
  | none => (skipValue rest).map fun (_, rest) => (none, rest)

/-- The values of the fields in their order, each of which must occur exactly once. -/
def fieldValues (fields : List FieldReader) (ms : List (String × Json)) : Option (List Json) :=
  fields.mapM fun field =>
    match ms.filter (·.1 = field.name) with
    | [(_, j)] => some j
    | _ => none

def positionalFields : List FieldReader → Reader (List Json)
  | [], _ => none
  | [field], cs => do
    let (j, rest) ← field.read (skipSpace cs)
    match skipSpace rest with
    | ']' :: rest => return ([j], rest)
    | _ => none
  | field :: fields, cs => do
    let (j, rest) ← field.read (skipSpace cs)
    match skipSpace rest with
    | ',' :: rest =>
      let (js, rest) ← positionalFields fields rest
      return (j :: js, rest)
    | _ => none

/-- A record of required fields, as an object or as the array of its values. -/
def record (fields : List FieldReader) : Reader (List Json)
  | '[' :: cs => positionalFields fields cs
  | '\x7b' :: cs => do
    let (ms, rest) ← items (fieldMember fields) '\x7d' cs
    let js ← fieldValues fields (ms.filterMap id)
    return (js, rest)
  | _ => none

def whole (read : Reader α) (cs : List Char) : Option α := do
  let (a, rest) ← read (skipSpace cs)
  if skipSpace rest = [] then some a else none

def maxDepth : Nat := 127

def parse? (cs : List Char) : Option Json := whole (value true maxDepth) cs

end LogicalTable.Json
