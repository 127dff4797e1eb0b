import HeapAbstraction.Grammar.Basic
import HeapAbstraction.Heap.Printer
import HeapAbstraction.Number.Decimal

namespace HeapAbstraction.Script

inductive Value where
  | none
  | bool (b : Bool)
  | int (n : Int)
  | float (d : Decimal)
  | str (text : Bytes)
  | tuple (items : List Value)
  | heap (h : Heap)
  | grammar (g : Grammar)
  | catalog (number : Nat)
  | workspace
  | library
  | function (name : Bytes)
  | undefined

namespace Value

def typeName : Value → Bytes
  | .none => "NoneType"
  | .bool _ => "bool"
  | .int _ => "int"
  | .float _ => "float"
  | .str _ => "str"
  | .tuple _ => "tuple"
  | .heap _ => "Heap"
  | .grammar _ => "Grammar"
  | .catalog _ => "Catalog"
  | .workspace => "Workspace"
  | .library => "module"
  | .function _ => "method"
  | .undefined => "NotImplementedType"

def libraryName : Bytes := "_pyheap"

def hasText : Value → Bool
  | .grammar _ => false
  | .catalog _ => false
  | .workspace => false
  | .library => false
  | .function _ => false
  | .undefined => false
  | _ => true

def isLibrary : Value → Bool
  | .library => true
  | _ => false

def isPlain : Value → Bool
  | .none => true
  | .bool _ => true
  | .int _ => true
  | .float _ => true
  | .str _ => true
  | _ => false

-- a double cut to a whole number of 64 bits; one that does not fit is the least of them
def floatToInt (d : Decimal) : Int :=
  match d.trunc? with
  | some n => if -0x8000000000000000 ≤ n && n < 0x8000000000000000 then n else -0x8000000000000000
  | _ => -0x8000000000000000

def toInt : Value → Int
  | .bool b => if b then 1 else 0
  | .int n => n
  | .float d => floatToInt d
  | _ => 0

def toInt32 (v : Value) : Int := Int.bmod v.toInt 0x100000000

def toBool (v : Value) : Bool := v.toInt != 0

def toText : Value → Bytes
  | .str text => text
  | .bool true => "True"
  | .bool false => "False"
  | _ => []

end Value

end HeapAbstraction.Script
