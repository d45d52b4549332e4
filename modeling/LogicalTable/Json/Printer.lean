import LogicalTable.Json.Basic
import LogicalTable.Text.Numeral

/-! Compact JSON text: no blanks, members as they stand, and only what must be escaped escaped. -/
namespace LogicalTable.Json

open LogicalTable.Text

def escapedChar (c : Char) : List Char :=
  if c = '"' || c = '\\' then ['\\', c]
  else if c = '\x08' then ['\\', 'b']
  else if c = '\t' then ['\\', 't']
  else if c = '\n' then ['\\', 'n']
  else if c = '\x0c' then ['\\', 'f']
  else if c = '\r' then ['\\', 'r']
  else if c.toNat < 0x20 then
    ['\\', 'u', '0', '0', hexDigit (c.toNat / 16), hexDigit (c.toNat % 16)]
  else [c]

def stringText (s : String) : List Char := '"' :: s.toList.flatMap escapedChar ++ ['"']

mutual

def chars : Json → List Char
  | null => ['n', 'u', 'l', 'l']
  | bool true => ['t', 'r', 'u', 'e']
  | bool false => ['f', 'a', 'l', 's', 'e']
  | natural n => Nat.toDigits 10 n
  | number literal => literal.toList
  | string s => stringText s
  | array items => '[' :: itemsText items
  | object members => '\x7b' :: membersText members

def itemsText : List Json → List Char
  | [] => [']']
  | j :: js => j.chars ++ moreItemsText js

def moreItemsText : List Json → List Char
  | [] => [']']
  | j :: js => ',' :: j.chars ++ moreItemsText js

def membersText : List (String × Json) → List Char
  | [] => ['\x7d']
  | (k, j) :: ms => stringText k ++ ':' :: j.chars ++ moreMembersText ms

def moreMembersText : List (String × Json) → List Char
  | [] => ['\x7d']
  | (k, j) :: ms => ',' :: stringText k ++ ':' :: j.chars ++ moreMembersText ms

end

def text (j : Json) : String := String.ofList j.chars

end LogicalTable.Json
