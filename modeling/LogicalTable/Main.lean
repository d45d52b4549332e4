import LogicalTable.CommandLine.Program

/-! The program: reads the file that the command line names, and prints. -/

open LogicalTable

namespace LogicalTable.Program

def load (path : String) : IO FileContent := do
  try
    let bytes ← IO.FS.readBinFile path
    return .bytes bytes.toList
  catch
    | .inappropriateType .. => return .directory
    | _ => return .absent

end LogicalTable.Program

def main (args : List String) : IO UInt32 := do
  let content ← match (CommandLine.parse args).toOption.bind fun c => c.command.file? with
    | some path => Program.load path
    | none => pure .absent
  let outcome := Program.run args fun _ => content
  IO.print outcome.output
  IO.eprint outcome.complaint
  return outcome.code.toUInt32
