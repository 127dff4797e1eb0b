import HeapAbstraction.Bytes

namespace HeapAbstraction.HeapFile

inductive Statement where
  | nodes (names : List Bytes) (type : Bytes)
  | ext (names : List Bytes)
  | selector (source selector target : Bytes)
  | variable (name target : Bytes)
  | hyperedge (label : Bytes) (tentacles : List Bytes)
deriving DecidableEq, Repr

inductive Declaration where
  | nonterminal (label : Bytes) (rank : Int)
  | rule (label : Bytes) (body : List Statement)
  | heap (body : List Statement)
deriving DecidableEq, Repr

end HeapAbstraction.HeapFile
