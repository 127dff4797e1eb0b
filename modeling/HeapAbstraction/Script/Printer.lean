import HeapAbstraction.Script.Error
import HeapAbstraction.Script.Value

namespace HeapAbstraction.Script

def quoteAround (text : Bytes) : UInt8 := if text.contains 39 && !text.contains 34 then 34 else 39

def escapedIn (quote : UInt8) (code : Nat) (spelling : Bytes) : Bytes :=
  if code == 9 then [92, 116]
  else if code == 10 then [92, 110]
  else if code == 13 then [92, 114]
  else if code == 92 || code == quote.toNat then 92 :: spelling
  else if Text.isPrintable code then spelling
  else if code < 0x100 then [92, 120] ++ Text.hexDigits 2 code
  else if code < 0x10000 then [92, 117] ++ Text.hexDigits 4 code
  else [92, 85] ++ Text.hexDigits 8 code

def quotedText (text : Bytes) : Bytes :=
  let quote := quoteAround text
  quote :: (Text.pieces text).flatMap (fun
    | .scalar code spelling => escapedIn quote code spelling
    | p => p.spelling) ++ [quote]

mutual

def represent : Value → Except HeapError Bytes
  | .none => .ok "None"
  | .bool b => .ok (if b then "True" else "False")
  | .int n => .ok (Bytes.ofInt n)
  | .float d => .ok (Bytes.ofInt (Value.floatToInt d))
  | .str text => .ok (quotedText text)
  | .tuple items => do return "(" ++ (← representItems items) ++ ")"
  | .heap h => h.toText
  | .library => .ok ("<module " ++ Value.libraryName ++ ">")
  | v => .ok ("<" ++ v.typeName ++ ">")

def representItems : List Value → Except HeapError Bytes
  | [] => .ok []
  | [v] => represent v
  | v :: rest => do return (← represent v) ++ ", " ++ (← representItems rest)

end

def display : Value → Except HeapError Bytes
  | .str text => .ok text
  | .heap h => h.print { multiline := true }
  | v => represent v

end HeapAbstraction.Script
