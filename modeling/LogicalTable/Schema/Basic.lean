import LogicalTable.Schema.Column

/-! Schemas: columns in order, referred to by position from either end or by name. Names may
repeat; a name means its first holder. -/
namespace LogicalTable

structure Schema where
  columns : List Column

/-- A reference to a column. Negative positions count from the end. -/
inductive ColumnRef where
  | position (i : Int)
  | name (n : String)
  deriving DecidableEq, Repr

/-- Sizes beyond the signed 64 bit range refer to its greatest position. -/
def ColumnRef.ofSize (n : Nat) : ColumnRef := .position (min n 0x7fffffffffffffff)

inductive Bound where
  | included (n : Nat)
  | excluded (n : Nat)
  | unbounded
  deriving DecidableEq, Repr

/-- The position behind one. Positions end with the unsigned 64 bit range. -/
def positionBehind (n : Nat) : Nat := min (n + 1) 0xffffffffffffffff

def Bound.start : Bound → Nat
  | .included n => n
  | .excluded n => positionBehind n
  | .unbounded => 0

def Bound.stop (size : Nat) : Bound → Nat
  | .included n => positionBehind n
  | .excluded n => n
  | .unbounded => size

/-- What to remove: the first column of a name, or the first equal column. -/
inductive RemoveKey where
  | name (n : String)
  | column (c : Column)

namespace Schema

def empty : Schema := ⟨[]⟩

def size (s : Schema) : Nat := s.columns.length

def names (s : Schema) : List String := s.columns.map Column.name

def types (s : Schema) : List DataType := s.columns.map Column.type

def same (s t : Schema) : Bool := s.columns == t.columns

instance : BEq Schema := ⟨same⟩

theorem beq_iff {s t : Schema} :
    (s == t) = true ↔ s.columns.map Column.key = t.columns.map Column.key := by
  obtain ⟨cs⟩ := s
  obtain ⟨ds⟩ := t
  change (cs == ds) = true ↔ _
  induction cs generalizing ds with
  | nil => cases ds <;> simp
  | cons c cs ih => cases ds <;> simp [Column.beq_iff, ih]

/-- One column for each type and name, with metadata for all of them or for none. -/
def ofTypes (types : List DataType) (names : List String)
    (metadata : Option (List (Option String))) : Except ConstructionError Schema := do
  if types.length ≠ names.length then throw (.nameCount types.length names.length)
  let entries ← match metadata with
    | some ms =>
      if ms.length ≠ types.length then throw (.metadataCount types.length ms.length) else pure ms
    | none => pure (types.map fun _ => none)
  let columns ← ((types.zip names).zip entries).mapM fun ((t, n), m) => Column.make? t n m
  return ⟨columns⟩

def absolute? (s : Schema) (i : Int) : Option Nat :=
  let p := if i < 0 then i + s.size else i
  if 0 ≤ p ∧ p < s.size then some p.toNat else none

def position? (s : Schema) (name : String) : Option Nat := s.columns.findIdx? (·.name = name)

def get (s : Schema) (key : ColumnRef) : Except LookupError Column :=
  match key with
  | .position i =>
    match (s.absolute? i).bind (s.columns[·]?) with
    | some c => .ok c
    | none => .error (.indexRange i s.size)
  | .name n =>
    match s.columns.find? (·.name = n) with
    | some c => .ok c
    | none => .error (.unknownName n)

def indexOf (s : Schema) : ColumnRef → Except LookupError Nat
  | .position i => do
    let _ ← s.get (.position i)
    return (if i < 0 then i + s.size else i).toNat
  | .name n =>
    match s.position? n with
    | some p => .ok p
    | none => .error (.unknownName n)

def select (s : Schema) (keys : List ColumnRef) : Except LookupError Schema :=
  (keys.mapM s.get).map Schema.mk

def part (s : Schema) (first last : Nat) (_ : first ≤ last ∧ last ≤ s.size) : Schema :=
  ⟨(s.columns.take last).drop first⟩

/-- The columns of a range of positions, which may reach beyond the schema or be inverted. -/
def slice (s : Schema) (start stop : Bound) : Schema :=
  let first := min start.start s.size
  let last := min (stop.stop s.size) s.size
  s.part first (max last first)
    ⟨Nat.le_max_right last first, Nat.max_le.2 ⟨Nat.min_le_right _ _, Nat.min_le_right _ _⟩⟩

def append (s t : Schema) : Schema := ⟨s.columns ++ t.columns⟩

def insert (s t : Schema) (place : Nat) : Except LookupError Schema :=
  if s.size < place then .error (.insertRange place s.size)
  else .ok ⟨s.columns.take place ++ t.columns ++ s.columns.drop place⟩

def removePosition (s : Schema) : RemoveKey → Except LookupError Nat
  | .name n =>
    match s.position? n with
    | some p => .ok p
    | none => .error (.unknownName n)
  | .column c =>
    match s.columns.findIdx? (· == c) with
    | some p => .ok p
    | none => .error (.absentColumn c.text)

/-- Takes one column out in place: the column or why there is none, and the schema behind that. -/
def removeInPlace (s : Schema) (key : RemoveKey) : Except LookupError Column × Schema :=
  match s.removePosition key with
  | .error e => (.error e, s)
  | .ok p =>
    match s.columns[p]? with
    | some c => (.ok c, ⟨s.columns.eraseIdx p⟩)
    | none => (.error (.indexRange p s.size), s)

def remove (s : Schema) (key : RemoveKey) : Except LookupError (Column × Schema) :=
  let (taken, rest) := s.removeInPlace key
  taken.map (·, rest)

def moreColumnsText : List Column → String
  | [] => ""
  | c :: cs => ",\n\t" ++ c.text ++ moreColumnsText cs

def text (s : Schema) : String :=
  "Schema<\n" ++
    (match s.columns with
      | [] => ""
      | c :: cs => "\t" ++ c.text ++ moreColumnsText cs) ++ ">"

end Schema
end LogicalTable
