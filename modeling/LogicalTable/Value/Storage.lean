import LogicalTable.Binary64.Text
import LogicalTable.Text.Quoted

/-! Values as they are stored: one kind for each primitive, lists, structs, and the missing value at
any level. Doubles differ when their bits differ. -/
namespace LogicalTable

inductive StorageValue where
  | null
  | int (v : Int32)
  | long (v : Int64)
  | double (v : Binary64)
  | bool (v : Bool)
  | string (v : String)
  | blob (v : List UInt8)
  | list (vs : List StorageValue)
  | struct (vs : List StorageValue)
  deriving Repr

namespace StorageValue

mutual

def same : StorageValue → StorageValue → Bool
  | null, null => true
  | int a, int b => a == b
  | long a, long b => a == b
  | double a, double b => a == b
  | bool a, bool b => a == b
  | string a, string b => a == b
  | blob a, blob b => a == b
  | list as, list bs => sameAll as bs
  | struct as, struct bs => sameAll as bs
  | _, _ => false

def sameAll : List StorageValue → List StorageValue → Bool
  | [], [] => true
  | a :: as, b :: bs => same a b && sameAll as bs
  | _, _ => false

end

mutual

theorem same_iff : ∀ a b : StorageValue, same a b = true ↔ a = b
  | null, b => by cases b <;> simp [same]
  | int v, b => by cases b <;> simp [same]
  | long v, b => by cases b <;> simp [same]
  | double v, b => by cases b <;> simp [same]
  | bool v, b => by cases b <;> simp [same]
  | string v, b => by cases b <;> simp [same]
  | blob v, b => by cases b <;> simp [same]
  | list vs, b => by cases b <;> simp [same, sameAll_iff vs]
  | struct vs, b => by cases b <;> simp [same, sameAll_iff vs]

theorem sameAll_iff : ∀ as bs : List StorageValue, sameAll as bs = true ↔ as = bs
  | [], bs => by cases bs <;> simp [sameAll]
  | a :: as, bs => by cases bs <;> simp [sameAll, same_iff a, sameAll_iff as]

end

instance : DecidableEq StorageValue := fun a b => decidable_of_iff _ (same_iff a b)

def isNull : StorageValue → Bool
  | null => true
  | _ => false

theorem isNull_iff {v : StorageValue} : v.isNull = true ↔ v = null := by
  cases v <;> simp [isNull]

def kind : StorageValue → String
  | null => "null"
  | int _ => "int32"
  | long _ => "int64"
  | double _ => "double"
  | bool _ => "bool"
  | string _ => "string"
  | blob _ => "blob"
  | list _ => "list"
  | struct _ => "struct"

def int? : StorageValue → Option Int32
  | int v => some v
  | _ => none

def long? : StorageValue → Option Int64
  | long v => some v
  | _ => none

def double? : StorageValue → Option Binary64
  | double v => some v
  | _ => none

def bool? : StorageValue → Option Bool
  | bool v => some v
  | _ => none

def string? : StorageValue → Option String
  | string v => some v
  | _ => none

def blob? : StorageValue → Option (List UInt8)
  | blob v => some v
  | _ => none

def list? : StorageValue → Option (List StorageValue)
  | list vs => some vs
  | _ => none

def struct? : StorageValue → Option (List StorageValue)
  | struct vs => some vs
  | _ => none

mutual

/-- Strings are quoted, blobs show their size, lists stand in brackets and structs in braces. -/
def text : StorageValue → String
  | null => "null"
  | int v => Text.decimal v.toInt
  | long v => Text.decimal v.toInt
  | double v => v.text
  | bool v => if v then "true" else "false"
  | string v => Text.quoted v
  | blob v => "<" ++ Nat.repr v.length ++ " bytes>"
  | list vs => "[" ++ itemsText vs ++ "]"
  | struct vs => "\x7b" ++ itemsText vs ++ "\x7d"

def itemsText : List StorageValue → String
  | [] => ""
  | v :: vs => v.text ++ moreItemsText vs

def moreItemsText : List StorageValue → String
  | [] => ""
  | v :: vs => ", " ++ v.text ++ moreItemsText vs

end

end StorageValue
end LogicalTable
