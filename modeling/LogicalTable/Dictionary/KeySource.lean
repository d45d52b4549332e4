import LogicalTable.DataType.Basic

/-! The source of dictionary keys, shared by all chunks of a column: the keys count up from zero as
far as their width reaches. -/
namespace LogicalTable

structure KeySource where
  key : DictKey
  next : UInt64
  deriving DecidableEq, Repr

namespace KeySource

def fresh (key : DictKey) : KeySource := ⟨key, 0⟩

/-- The next key, and the source behind it. The counter is a word, which wraps. -/
def draw (s : KeySource) : Except LayoutError (UInt64 × KeySource) :=
  if s.key.maxKey < s.next.toNat then .error (.keysExhausted s.key.name)
  else .ok (s.next, { s with next := s.next + 1 })

end KeySource
end LogicalTable
