import HeapAbstraction.Bytes

namespace HeapAbstraction.Document

inductive Token where
  | version (major minor : Nat)
  | tagHandle (handle : List Char) (meaning : Bytes)
  | documentStart
  | documentEnd
  | streamEnd
  | blockSequence
  | blockMapping
  | blockEnd
  | openSequence
  | closeSequence
  | openMapping
  | closeMapping
  | dash
  | comma
  | key
  | value
  | alias (name : List Char)
  | anchor (name : List Char)
  | tag (handle : List Char) (rest : Bytes)
  | scalar (bare : Bool) (text : List Char)
deriving DecidableEq, Repr

namespace Token

def isDirective : Token → Bool
  | .version _ _ => true
  | .tagHandle _ _ => true
  | _ => false

def endsDocument : Token → Bool
  | .documentStart => true
  | .documentEnd => true
  | .streamEnd => true
  | t => t.isDirective

end Token

end HeapAbstraction.Document
