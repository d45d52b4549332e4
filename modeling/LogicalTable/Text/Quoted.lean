import LogicalTable.Text.Numeral
import LogicalTable.Text.Shown

/-! Quoted text: escapes for the quote, the backslash and the usual controls, the code point in
hexadecimal for what cannot be shown. -/
namespace LogicalTable.Text

def quotedChar (c : Char) : List Char :=
  if c = '\x00' then ['\\', '0']
  else if c = '\t' then ['\\', 't']
  else if c = '\n' then ['\\', 'n']
  else if c = '\r' then ['\\', 'r']
  else if c = '\\' || c = '"' then ['\\', c]
  else if isShown c then [c]
  else '\\' :: 'u' :: '\x7b' :: hexadecimal c.toNat ++ ['\x7d']

def quoted (s : String) : String :=
  String.ofList ('"' :: s.toList.flatMap quotedChar ++ ['"'])

end LogicalTable.Text
