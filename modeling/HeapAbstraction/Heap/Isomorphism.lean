import HeapAbstraction.Morphism.Search
import HeapAbstraction.Metrics

namespace HeapAbstraction

namespace Graph

def counted (search : List Morphism) : Counted (List Morphism) :=
  ⟨search, [(.searches, 1), (.found, search.length)]⟩

end Graph

namespace Heap

def comparable (a b : Heap) : Bool :=
  a.elements.length == b.elements.length && a.externalCount == b.externalCount

def compare (a b : Heap) : Counted Bool :=
  if a.comparable b then do
    let hits ← Graph.counted (Graph.isomorphisms true a.graph b.graph)
    return !hits.isEmpty
  else return false

def equals (a b : Heap) : Bool := (a.compare b).value

end Heap

end HeapAbstraction
