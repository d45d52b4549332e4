import LogicalTable.DataType.Converter

/-! The factories of the built-in value types. Times are kept to the microsecond; finer fractions
are cut off on encoding. -/
namespace LogicalTable.ValueFactory

def fields (what : String) (arity : Nat) (s : StorageValue) :
    Except ConversionError (List StorageValue) :=
  match s with
  | .struct vs => if vs.length = arity then .ok vs else .error (.expectedStruct what arity s.kind)
  | _ => .error (.expectedStruct what arity s.kind)

def longField (what : String) (vs : List StorageValue) (i : Nat) : Except ConversionError Int64 :=
  match vs[i]? with
  | some (.long v) => .ok v
  | _ => .error (.longField what i)

def intField (what : String) (vs : List StorageValue) (i : Nat) : Except ConversionError Int32 :=
  match vs[i]? with
  | some (.int v) => .ok v
  | _ => .error (.intField what i)

def stringField (what : String) (vs : List StorageValue) (i : Nat) :
    Except ConversionError (Option String) :=
  match vs[i]? with
  | some (.string v) => .ok (some v)
  | some .null | none => .ok none
  | some v => .error (.stringField what i v.kind)

/-- 1970-01-01 as a day of the era. -/
def epochDay : Int64 := 719163

def checkedSum? (a b : Int64) : Option Int64 :=
  if -0x8000000000000000 ≤ a.toInt + b.toInt ∧ a.toInt + b.toInt < 0x8000000000000000 then
    some (a + b)
  else none

def narrowed? (a : Int64) : Option Int32 :=
  if -0x80000000 ≤ a.toInt ∧ a.toInt < 0x80000000 then some a.toInt32 else none

def dayOfEpoch (d : Date) : Int64 := Int64.ofInt d.eraDay - epochDay

theorem dayOfEpoch_eq (d : Date) : dayOfEpoch d = Int64.ofInt d.dayNumber := by
  have shift : d.dayNumber = d.eraDay - 719163 := by
    simp only [Date.dayNumber, Date.epochDays]
    omega
  rw [shift, Int64.ofInt_sub]
  rfl

def dayStorage (d : Date) : StorageValue := .long (dayOfEpoch d)

def dateOfDay (n : Int64) : Except ConversionError Date :=
  match ((checkedSum? n epochDay).bind narrowed?).bind fun day => Date.ofEraDay? day.toInt with
  | some d => .ok d
  | none => .error (.dayRange n.toInt)

/-- Nanoseconds of the day in whole microseconds. A leap second counts as the last microsecond of
its second. -/
def nanoOfDay (t : TimeOfDay) : Nat :=
  t.second * nanosPerSecond + min t.nano (nanosPerSecond - 1) / 1000 * 1000

def nanoStorage (t : TimeOfDay) : StorageValue := .long (Int64.ofNat (nanoOfDay t))

def timeOfNano (n : Int64) : Except ConversionError TimeOfDay :=
  let nano := n.toInt
  if nano < 0 then .error (.nanoRange nano)
  else
    match TimeOfDay.ofParts? (nano.toNat / nanosPerSecond)
        (nano.toNat % nanosPerSecond / 1000 * 1000) with
    | some t => .ok t
    | none => .error (.nanoRange nano)

def dateTimeFields (t : DateTime) : List StorageValue := [dayStorage t.date, nanoStorage t.time]

def dateTimeOfFields (what : String) (vs : List StorageValue) : Except ConversionError DateTime := do
  let date ← dateOfDay (← longField what vs 0)
  let time ← timeOfNano (← longField what vs 1)
  return ⟨date, time⟩

def date : ValueFactory where
  valueType := .date
  encode
    | .date d => .ok (dayStorage d)
    | _ => .error (.expectedValue ValueType.date.name)
  decode
    | .long n => (dateOfDay n).map .date
    | _ => .error (.expectedLong "local date")

def time : ValueFactory where
  valueType := .time
  encode
    | .time t => .ok (nanoStorage t)
    | _ => .error (.expectedValue ValueType.time.name)
  decode
    | .long n => (timeOfNano n).map .time
    | _ => .error (.expectedLong "local time")

def dateTime : ValueFactory where
  valueType := .dateTime
  encode
    | .dateTime t => .ok (.struct (dateTimeFields t))
    | _ => .error (.expectedValue ValueType.dateTime.name)
  decode s := do
    let vs ← fields "local date time" 2 s
    return .dateTime (← dateTimeOfFields "local date time" vs)

def zonedDateTime : ValueFactory where
  valueType := .zonedDateTime
  encode
    | .zonedDateTime t => .ok (.struct (dateTimeFields t.wall ++
        [.int (Int32.ofInt t.offset.seconds), .string t.offset.text]))
    | _ => .error (.expectedValue ValueType.zonedDateTime.name)
  decode s := do
    let what := "zoned date time"
    let vs ← fields what 4 s
    let wall ← dateTimeOfFields what vs
    let seconds ← intField what vs 2
    match Offset.ofSeconds? seconds.toInt with
    | none => throw (.zoneOffset seconds.toInt)
    | some offset =>
      match ZonedDateTime.ofWall? wall offset with
      | none => throw (.zonedRange wall.text offset.text)
      | some t => return .zonedDateTime t

/-- Seconds and nanoseconds of a duration. A negative fraction borrows a second. -/
def durationParts (d : Duration) : Int64 × Int32 :=
  let seconds := Int64.ofInt d.wholeSeconds
  let nanos := Int32.ofInt d.fraction
  if nanos < 0 then (seconds - 1, nanos + 1000000000) else (seconds, nanos)

def duration : ValueFactory where
  valueType := .duration
  encode
    | .duration d =>
      let (seconds, nanos) := durationParts d
      .ok (.struct [.long seconds, .int (nanos / 1000 * 1000)])
    | _ => .error (.expectedValue ValueType.duration.name)
  decode s := do
    let what := "duration"
    let vs ← fields what 2 s
    let seconds := (← longField what vs 0).toInt
    let nanos := (← intField what vs 1).toInt
    match (Duration.ofNanos? (seconds * nanosPerSecond)).bind fun whole =>
        Duration.ofNanos? (whole.nanos + nanos.tdiv 1000 * 1000) with
    | some d => return .duration d
    | none => throw (.durationRange seconds)

def fileLocation : ValueFactory where
  valueType := .fileLocation
  encode
    | .fileLocation l => .ok (.struct
        [.string l.category, (l.specifier.map .string).getD .null, .string l.path])
    | _ => .error (.expectedValue ValueType.fileLocation.name)
  decode s := do
    let what := "fs location"
    let vs ← fields what 3 s
    let some category ← stringField what vs 0 | throw .missingCategory
    let some path ← stringField what vs 2 | throw .missingPath
    return .fileLocation ⟨category, ← stringField what vs 1, path⟩

/-- Geometries as well-known binary and reference system. Anything but a string reads as the empty
name of a reference system. -/
def geometry : ValueFactory where
  valueType := .geometry
  encode
    | .geometry g => .ok (.struct [.blob (Wkb.write g.geometry), .string g.crs])
    | _ => .error (.expectedValue ValueType.geometry.name)
  decode s := do
    match ← fields "geometry" 2 s with
    | [.blob data, crs] =>
      let g ← (Wkb.read data).mapError ConversionError.wkb
      return .geometry ⟨g, crs.string?.getD ""⟩
    | _ => throw .geometryPayload

def extension (t : ValueType) (write read : StorageValue → Except String StorageValue) :
    ValueFactory where
  valueType := t
  encode
    | .extension u v =>
      if u = t then (write v).mapError ConversionError.extension
      else .error (.expectedValue t.name)
    | _ => .error (.expectedValue t.name)
  decode s := ((read s).mapError ConversionError.extension).map (Value.extension t)

end LogicalTable.ValueFactory
