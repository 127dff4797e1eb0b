import HeapAbstraction.Heap.Basic

namespace HeapAbstraction

structure Graph where
  size : Nat
  label : Nat → Label
  successors : Nat → List Nat
  predecessors : Nat → List Nat
  arcLabels : Nat → Nat → List EdgeLabel
  ordinal : Nat → Option Nat

namespace Graph

def degree (g : Graph) (v : Nat) : Nat := (g.successors v).length + (g.predecessors v).length

def isExternal (g : Graph) (v : Nat) : Bool := (g.ordinal v).isSome

def isNode (g : Graph) (v : Nat) : Bool := (g.label v).kind == .node

end Graph

def Heap.graph (h : Heap) : Graph :=
  let cells := h.elements.toArray
  { size := cells.size
    label := fun v => (cells[v]?.map Element.label).getD default
    successors := fun v => (cells[v]?.map Element.successors).getD []
    predecessors := fun v => (cells[v]?.map Element.preds).getD []
    arcLabels := fun v w => (cells[v]?.map (fun e => e.labelsTo w)).getD []
    ordinal := fun v => cells[v]?.bind Element.ordinal }

end HeapAbstraction
