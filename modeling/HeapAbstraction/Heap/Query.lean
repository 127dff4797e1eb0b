import HeapAbstraction.Heap.Basic

namespace HeapAbstraction.Heap

def insertSorted (n : Nat) : List Nat → List Nat
  | [] => [n]
  | m :: rest => if n ≤ m then n :: m :: rest else m :: insertSorted n rest

def sortIds : List Nat → List Nat
  | [] => []
  | n :: rest => insertSorted n (sortIds rest)

def isLiveOf (kind : Kind) (e : Element) : Bool := !e.removed && e.kind == kind

def idsOf (h : Heap) (kind : Kind) : List Nat := sortIds ((h.elements.filter (isLiveOf kind)).map Element.id)

def nodes (h : Heap) : List Nat := h.idsOf .node

def nonterminalEdges (h : Heap) : List Nat := h.idsOf .nonterminal

def variableEdges (h : Heap) : List Nat := h.idsOf .variable

def countOf (h : Heap) (kind : Kind) : Nat := h.elements.countP (isLiveOf kind)

def externalNodes (h : Heap) : Except HeapError (List Nat) := h.externals.mapM h.idAt

def externalNodeAt (h : Heap) (ordinal : Int) : Except HeapError Nat :=
  match ordinal with
  | .ofNat i =>
      match h.externalSlot? i with
      | some v => h.idAt v
      | none => .error (.noExternalAt ordinal)
  | .negSucc _ => .error (.noExternalAt ordinal)

def externalIndexOf (h : Heap) (node : Int) : Except HeapError (Option Nat) := do
  let (_, e) ← h.find node .node
  return e.ordinal

def nodeTypeOf (h : Heap) (node : Int) : Except HeapError Bytes := do
  let (_, e) ← h.find node .node
  return e.label.name

def selectorsOf (h : Heap) (node : Int) : Except HeapError (List Bytes) := do
  let (_, e) ← h.find node .node
  return e.selectorNames

def selectorTargetOf (h : Heap) (node : Int) (selector : Bytes) : Except HeapError (Option Nat) := do
  let (_, e) ← h.find node .node
  match e.targetOf? (.selector selector) with
  | some t => some <$> h.idAt t
  | none => return none

def successorsOf (h : Heap) (node : Int) : Except HeapError (List Nat) := do
  let (_, e) ← h.find node .node
  e.successors.mapM h.idAt

def attachedOf (h : Heap) (node : Int) (kind : Kind) : Except HeapError (List Nat) := do
  let (_, e) ← h.find node .node
  let sources ← e.preds.mapM (fun v => match h.elements[v]? with
    | some u => .ok u
    | none => .error .fault)
  return sortIds ((sources.filter (fun u => u.kind == kind)).map Element.id)

def nonterminalOf (h : Heap) (edge : Int) : Except HeapError Nonterminal := do
  let (_, e) ← h.find edge .nonterminal
  return ⟨e.label.name, e.label.rank⟩

def attachedNodesOf (h : Heap) (edge : Int) : Except HeapError (List Nat) := do
  let (_, e) ← h.find edge .nonterminal
  (← tentacleSlots e).mapM h.idAt

def variableWith (h : Heap) (name : Bytes) : Except HeapError (Option Nat) :=
  match h.variableSlot? name with
  | some v => some <$> h.idAt v
  | none => .ok none

def variableNameOf (h : Heap) (edge : Int) : Except HeapError Bytes := do
  let (_, e) ← h.find edge .variable
  return e.label.name

def variableTargetOf (h : Heap) (edge : Int) : Except HeapError Nat := do
  let (_, e) ← h.find edge .variable
  match e.arcs with
  | a :: _ => h.idAt a.target
  | [] => .error .fault

end HeapAbstraction.Heap
