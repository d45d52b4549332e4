/-! Where the batches of a table are stored. A writer may still be at work on a file; until it is
done the file has no footer. -/
namespace LogicalTable

structure FileSource where
  path : String
  footerWritten : Bool := true
  /-- Whether the fields carry the names of the columns, and not their positions. -/
  columnNames : Bool := true
  deriving DecidableEq, Repr

/-- Whether the fields are read from the footer. Without one they are read from the first message. -/
def FileSource.footerRequired (s : FileSource) : Bool := s.footerWritten

end LogicalTable
