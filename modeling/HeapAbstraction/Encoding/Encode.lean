import HeapAbstraction.Encoding.Varint
import HeapAbstraction.Heap.Basic

namespace HeapAbstraction

namespace Encoding

def version : Nat := 1

def putLabel : EdgeLabel → Bytes
  | .selector s => Varint.writeString s ++ Varint.write 0
  | .tentacle i => Varint.writeString [] ++ Varint.write (i + 1)

def putArc (a : Arc) : Bytes :=
  Varint.write a.target ++ Varint.write a.labels.length ++ a.labels.flatMap putLabel

def putElement (e : Element) : Bytes :=
  let ordinal := match e.ordinal with
    | some i => i + 1
    | none => 0
  Varint.write e.kind.code ++ Varint.writeString e.label.name ++ Varint.write e.label.rank.toNat ++
    Varint.write ordinal ++ Varint.write e.id ++ Varint.write e.arcs.length ++ e.arcs.flatMap putArc

end Encoding

def Heap.encode (h : Heap) : Bytes :=
  Varint.write Encoding.version ++ Varint.write h.nextId ++ Varint.write h.elements.length ++
    h.elements.flatMap Encoding.putElement

end HeapAbstraction
