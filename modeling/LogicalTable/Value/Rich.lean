import LogicalTable.Calendar.Time
import LogicalTable.Geometry.Basic
import LogicalTable.Value.Storage

/-! The values that logical types stand for: the built-in kinds, and values of extensions, which
carry their type and a payload in storage form. -/
namespace LogicalTable

/-- The type of a rich value: a number of its own, and its full name, which need not be. -/
structure ValueType where
  id : Nat
  name : String
  deriving DecidableEq, Repr

namespace ValueType

def isDelimiter (c : Char) : Bool :=
  ['<', '>', ',', ' ', '(', ')', '[', ']', ';', '&'].contains c

def lastSegment : List Char → List Char
  | ':' :: ':' :: cs => lastSegment cs
  | c :: cs =>
    let rest := lastSegment cs
    if rest.length < cs.length then rest else c :: rest
  | [] => []

def shorten : (path : List Char) → List Char → List Char
  | path, [] => lastSegment path
  | path, c :: cs =>
    if isDelimiter c then lastSegment path ++ c :: shorten [] cs else shorten (path ++ [c]) cs

def shortName (t : ValueType) : String := String.ofList (shorten [] t.name.toList)

def date : ValueType := ⟨0, "chrono::naive::date::NaiveDate"⟩

def time : ValueType := ⟨1, "chrono::naive::time::NaiveTime"⟩

def dateTime : ValueType := ⟨2, "chrono::naive::datetime::NaiveDateTime"⟩

def duration : ValueType := ⟨3, "chrono::time_delta::TimeDelta"⟩

def zonedDateTime : ValueType :=
  ⟨4, "chrono::datetime::DateTime<chrono::offset::fixed::FixedOffset>"⟩

def fileLocation : ValueType := ⟨5, "kntable_core::registry::builtin::FsLocation"⟩

def geometry : ValueType := ⟨6, "kntable_arrow::geo::GeoValue"⟩

end ValueType

structure FileLocation where
  category : String
  specifier : Option String
  path : String
  deriving DecidableEq, Repr

/-- A geometry with the name of its reference system, which may be empty. -/
structure GeoValue where
  geometry : Geometry
  crs : String

inductive Value where
  | date (d : Date)
  | time (t : TimeOfDay)
  | dateTime (t : DateTime)
  | duration (d : Duration)
  | zonedDateTime (t : ZonedDateTime)
  | fileLocation (l : FileLocation)
  | geometry (g : GeoValue)
  | extension (type : ValueType) (payload : StorageValue)

def Value.type : Value → ValueType
  | date _ => .date
  | time _ => .time
  | dateTime _ => .dateTime
  | duration _ => .duration
  | zonedDateTime _ => .zonedDateTime
  | fileLocation _ => .fileLocation
  | geometry _ => .geometry
  | extension t _ => t

end LogicalTable
