import HeapAbstraction.Script.Value

namespace HeapAbstraction.Script

def wholeNumber? : Value → Option Int
  | .int n => some n
  | .bool b => some (if b then 1 else 0)
  | _ => none

def text? : Value → Option Bytes
  | .str text => some text
  | _ => none

def comparison? (name : Bytes) : Option (Ordering → Bool) :=
  if name = "__lt__" then some Ordering.isLT
  else if name = "__le__" then some Ordering.isLE
  else if name = "__eq__" then some Ordering.isEq
  else if name = "__ne__" then some Ordering.isNe
  else if name = "__gt__" then some Ordering.isGT
  else if name = "__ge__" then some Ordering.isGE
  else none

def arithmetic? (name : Bytes) : Option (Int → Int → Int) :=
  if name = "__add__" || name = "__radd__" then some (fun a b => a + b)
  else if name = "__sub__" then some (fun a b => a - b)
  else if name = "__rsub__" then some (fun a b => b - a)
  else if name = "__mul__" || name = "__rmul__" then some (fun a b => a * b)
  else none

def ofNumber? (a : Int) (name : Bytes) : Option (Int → Value) :=
  match comparison? name with
  | some holds => some (fun b => .bool (holds (compare a b)))
  | none => (arithmetic? name).map (fun op b => .int (op a b))

def ofText? (a : Bytes) (name : Bytes) : Option (Bytes → Value) :=
  match comparison? name with
  | some holds => some (fun b => .bool (holds (Bytes.order a b)))
  | none => if name = "__add__" then some (fun b => .str (a ++ b)) else none

def operator? (v : Value) (name : Bytes) : Option (Value → Value) :=
  match v with
  | .int a => (ofNumber? a name).map (fun f w => ((wholeNumber? w).map f).getD .undefined)
  | .str a => (ofText? a name).map (fun f w => ((text? w).map f).getD .undefined)
  | _ => none

end HeapAbstraction.Script
