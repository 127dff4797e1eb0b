import HeapAbstraction.Bytes

namespace HeapAbstraction.Document

inductive Node where
  | scalar (bare : Bool) (tag text : Bytes)
  | sequence (items : List Node)
  | mapping (entries : List (Node × Node))
  | alias (name : Bytes) (use node : Nat)
deriving Repr

def Node.empty : Node := .scalar true [] []

-- the contents of a document: its root, and the nodes with names by number. A node may name one that it is part of
structure Contents where
  root : Node := .empty
  named : List Node := []
deriving Repr

def Contents.node (c : Contents) (number : Nat) : Node := c.named[number]?.getD .empty

end HeapAbstraction.Document
