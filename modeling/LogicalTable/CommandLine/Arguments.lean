import LogicalTable.Report.Basic

/-! Command lines: a subcommand with its arguments, and options on either side of its name. Values
are checked late: an option's value that is an argument of its own is checked when the next
argument is looked at, or behind a subcommand. That decides between faults when there are two. -/
namespace LogicalTable

inductive Command where
  | schema (file : String)
  | arrow (file : String) (sentinel : Option Sentinel) (unfinished : Bool)
  | types
  deriving DecidableEq, Repr

def Command.file? : Command → Option String
  | schema file => some file
  | arrow file _ _ => some file
  | types => none

structure CommandLine where
  command : Command
  format : ReportFormat
  verbosity : Nat
  deriving DecidableEq, Repr

namespace CommandLine

inductive Refusal where
  | usage
  | help
  | version
  deriving DecidableEq, Repr

/-- What arguments belong to. -/
inductive Scope where
  | program
  | schema
  | arrow
  | types
  deriving DecidableEq, Repr

inductive Setting where
  | format
  | sentinel
  deriving DecidableEq, Repr

inductive Switch where
  | verbose
  | unfinished
  | help
  | version
  deriving DecidableEq, Repr

namespace Scope

def subcommand? (s : Scope) (name : String) : Option Scope :=
  match s, name with
  | program, "schema" => some schema
  | program, "arrow" => some arrow
  | program, "types" => some types
  | _, _ => none

def option? (s : Scope) (name : String) : Option (Setting ⊕ Switch) :=
  match s, name with
  | _, "format" => some (.inl .format)
  | _, "verbose" => some (.inr .verbose)
  | _, "help" => some (.inr .help)
  | program, "version" => some (.inr .version)
  | arrow, "sentinel" => some (.inl .sentinel)
  | arrow, "unfinished" => some (.inr .unfinished)
  | _, _ => none

def letter? (s : Scope) (c : Char) : Option Switch :=
  match s, c with
  | _, 'v' => some .verbose
  | _, 'h' => some .help
  | program, 'V' => some .version
  | _, _ => none

def takesFile : Scope → Bool
  | schema | arrow => true
  | program | types => false

end Scope

/-- An argument that is still to be checked. -/
inductive Pending where
  | setting (s : Setting) (value : Option String)
  | file (path : String)
  deriving DecidableEq, Repr

structure Progress where
  format : Option ReportFormat := none
  verbosity : Option Nat := none
  sentinel : Option Sentinel := none
  unfinished : Bool := false
  file : Option String := none
  pending : Option Pending := none
  deriving DecidableEq, Repr

namespace Progress

def set (p : Progress) (s : Setting) (value : String) : Except Refusal Progress :=
  match s with
  | .format =>
    match p.format, ReportFormat.ofName? value with
    | none, some f => .ok { p with format := some f }
    | _, _ => .error .usage
  | .sentinel =>
    match p.sentinel, Sentinel.ofText? value with
    | none, .ok v => .ok { p with sentinel := some v }
    | _, _ => .error .usage

/-- Checks the argument that is still to be checked. A setting needs a value and a path is not
empty. -/
def settle (p : Progress) : Except Refusal Progress :=
  match p.pending with
  | none => .ok p
  | some (.setting s (some value)) => { p with pending := none }.set s value
  | some (.setting _ none) => .error .usage
  | some (.file path) =>
    if path = "" then .error .usage else .ok { p with file := some path, pending := none }

/-- Turns a switch on. Its count ends at the greatest byte. -/
def turnOn (p : Progress) (s : Switch) : Except Refusal Progress := do
  let p ← p.settle
  match s with
  | .verbose => return { p with verbosity := some (min 255 (p.verbosity.getD 0 + 1)) }
  | .unfinished => if p.unfinished then throw .usage else return { p with unfinished := true }
  | .help => throw .help
  | .version => throw .version

def turnOnLetters (scope : Scope) : Progress → List Char → Except Refusal Progress
  | p, [] => .ok p
  | p, c :: cs =>
    match scope.letter? c with
    | some s => do
      let p ← p.turnOn s
      turnOnLetters scope p cs
    | none => .error .usage

def takeOption (p : Progress) (scope : Scope) (name : String) (value : Option String) :
    Except Refusal Progress :=
  match scope.option? name, value with
  | some (.inl s), some v => do
    let p ← p.settle
    p.set s v
  | some (.inl s), none => do
    let p ← p.settle
    return { p with pending := some (.setting s none) }
  | some (.inr s), none => p.turnOn s
  | some (.inr _), some _ | none, _ => .error .usage

def takePlain (p : Progress) (scope : Scope) (a : String) : Except Refusal Progress := do
  let p ← p.settle
  if scope.takesFile && p.file.isNone then return { p with pending := some (.file a) }
  throw .usage

def awaits (p : Progress) : Bool :=
  match p.pending with
  | some (.setting _ none) => true
  | _ => false

def takeText (p : Progress) (scope : Scope) (a : String) : Except Refusal Progress :=
  match p.pending with
  | some (.setting s none) => .ok { p with pending := some (.setting s (some a)) }
  | _ => p.takePlain scope a

def splitOption (cs : List Char) : String × Option String :=
  (String.ofList (cs.takeWhile (· ≠ '=')),
    match cs.dropWhile (· ≠ '=') with
    | [] => none
    | _ :: value => some (String.ofList value))

def take (p : Progress) (scope : Scope) (a : String) : Except Refusal Progress :=
  match a.toList with
  | '-' :: '-' :: cs => p.takeOption scope (splitOption cs).1 (splitOption cs).2
  | '-' :: c :: cs => turnOnLetters scope p (c :: cs)
  | _ => p.takeText scope a

def command (p : Progress) (scope : Scope) : Except Refusal Command :=
  match scope, p.file with
  | .schema, some file => .ok (.schema file)
  | .arrow, some file => .ok (.arrow file p.sentinel p.unfinished)
  | .types, _ => .ok .types
  | _, _ => .error .usage

end Progress

def helpOn : List String → Refusal
  | [] => .help
  | [name] => if name = "help" || (Scope.program.subcommand? name).isSome then .help else .usage
  | _ => .usage

def readPlain (scope : Scope) (p : Progress) (args : List String) : Except Refusal Progress :=
  args.foldlM (fun p a => p.takePlain scope a) p

/-- Reads the arguments of a scope, up to a subcommand; with it come the arguments behind it. -/
def read (scope : Scope) (p : Progress) :
    List String → Except Refusal (Progress × Option (Scope × List String))
  | [] => .ok (p, none)
  | a :: rest =>
    if !p.awaits && scope = .program && a = "help" then .error (helpOn rest)
    else
      match if p.awaits then none else scope.subcommand? a with
      | some s => .ok (p, some (s, rest))
      | none =>
        if a = "--" then (readPlain scope p rest).map (·, none)
        else
          match p.take scope a with
          | .ok p => read scope p rest
          | .error e => .error e

/-- Reads a command line. Options behind the subcommand count before those in front of it. -/
def parse (args : List String) : Except Refusal CommandLine := do
  match ← read .program {} args with
  | (_, none) => throw .usage
  | (outer, some (scope, rest)) =>
    let (inner, _) ← read scope {} rest
    let inner ← inner.settle
    let command ← inner.command scope
    let outer ← outer.settle
    return ⟨command, (inner.format <|> outer.format).getD .text,
      (inner.verbosity <|> outer.verbosity).getD 0⟩

end CommandLine
end LogicalTable
