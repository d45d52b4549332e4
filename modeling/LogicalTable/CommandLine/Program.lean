import LogicalTable.CommandLine.Arguments
import LogicalTable.Container.Basic
import LogicalTable.Registry.BuiltIn

/-! What the program does for a command line: what it prints, what it complains about, and its exit
code. -/
namespace LogicalTable

structure Outcome where
  code : UInt8
  output : String
  complaint : String
  deriving DecidableEq, Repr

namespace Program

def usage : String :=
  "Usage: kntable [--format <text|json>] [-v] <COMMAND>\n\n" ++
  "Commands:\n" ++
  "  schema <FILE>                                       print the schema of a document\n" ++
  "  arrow <FILE> [--sentinel <SENTINEL>] [--unfinished] print the schema of a container\n" ++
  "  types                                               list the logical types\n"

def version : String := "kntable 0.1.0\n"

def refuse : CommandLine.Refusal → Outcome
  | .usage => ⟨2, "", usage⟩
  | .help => ⟨0, usage, ""⟩
  | .version => ⟨0, version, ""⟩

def indent (margin : String) (s : String) : String :=
  String.ofList (s.toList.flatMap fun c => if c = '\n' then c :: margin.toList else [c])

/-- Causes in a row below their heading, numbered if there are more than one. -/
def causeLines : List String → List String
  | [cause] => ["    " ++ indent "    " cause]
  | causes => causes.zipIdx.map fun (cause, i) =>
    let number := Nat.repr i
    String.ofList (List.replicate (5 - number.length) ' ') ++ number ++ ": " ++
      indent "       " cause

def complaint (what : String) (causes : List String) : String :=
  "Error: " ++ what ++
    (if causes.isEmpty then "" else "\n\nCaused by:\n" ++ "\n".intercalate (causeLines causes)) ++
    "\n"

def causes (e : Error) : List String :=
  match e with
  | .arrow fault => [e.message, fault.text]
  | .file fault => [e.message, fault.text]
  | _ => [e.message]

def fail (what : String) (causes : List String) : Outcome := ⟨1, "", complaint what causes⟩

def print : Except SerializationError String → Outcome
  | .ok s => ⟨0, s, ""⟩
  | .error e => fail (Error.serialization e).message []

def execute (c : CommandLine) (files : String → FileContent) : Outcome :=
  match c.command with
  | .schema path =>
    match Schema.read (files path) .standard with
    | .ok s => print (Report.schema c.format .standard s)
    | .error e => fail ("Failed to read schema: " ++ path) (causes e)
  | .arrow path sentinel unfinished =>
    match Table.read { path, footerWritten := !unfinished } (files path) .standard { sentinel } with
    | .ok t => print (Report.table c.format .standard t)
    | .error e => fail ("Failed to read Arrow file: " ++ path) (causes e)
  | .types => ⟨0, Report.types c.format .standard, ""⟩

def run (args : List String) (files : String → FileContent) : Outcome :=
  match CommandLine.parse args with
  | .ok c => execute c files
  | .error e => refuse e

end Program
end LogicalTable
