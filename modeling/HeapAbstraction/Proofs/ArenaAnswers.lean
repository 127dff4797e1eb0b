import HeapAbstraction.Proofs.ArenaReplacement
import HeapAbstraction.Proofs.Answers

namespace HeapAbstraction

@[ext]
structure Answers where
  idsOf : Kind → List Int32
  countOf : Kind → Nat
  externalCount : Nat
  externalNodes : Except HeapError (List Int32)
  externalNodeAt : Int → Except HeapError Int32
  externalIndexOf : Int → Except HeapError (Option Nat)
  nodeTypeOf : Int → Except HeapError Bytes
  selectorsOf : Int → Except HeapError (List Bytes)
  selectorTargetOf : Int → Bytes → Except HeapError (Option Int32)
  successorsOf : Int → Except HeapError (List Int32)
  attachedOf : Int → Kind → Except HeapError (List Int32)
  nonterminalOf : Int → Except HeapError Nonterminal
  attachedNodesOf : Int → Except HeapError (List Int32)
  variableWith : Bytes → Except HeapError (Option Int32)
  variableNameOf : Int → Except HeapError Bytes
  variableTargetOf : Int → Except HeapError Int32

namespace Arena

def sorted (ids : List Int32) : List Int32 := ids.insertionSort (fun x y => x.toInt ≤ y.toInt)

def isLiveOf (kind : Kind) (s : Slot) : Bool := !s.removed && s.kind == kind

def known (a : Arena) (id : Int) (kind : Kind) : Except HeapError Slot := do a.slot (← a.priv id kind)

def externalNodeAt (a : Arena) (ordinal : Int) : Except HeapError Int32 :=
  match ordinal with
  | .ofNat i =>
      match a.externals[i]? with
      | some v => a.pub v
      | none => .error (.noExternalAt ordinal)
  | .negSucc _ => .error (.noExternalAt ordinal)

def selectorTargetOf (a : Arena) (node : Int) (selector : Bytes) : Except HeapError (Option Int32) := do
  let s ← a.known node .node
  match s.findLabel (.selector selector) with
  | some t => some <$> a.pub t
  | none => return none

def attachedOf (a : Arena) (node : Int) (kind : Kind) : Except HeapError (List Int32) := do
  let s ← a.known node .node
  let sources ← s.pred.mapM a.slot
  return sorted ((sources.filter (fun r => r.kind == kind)).map Slot.pub)

def attachedNodesOf (a : Arena) (edge : Int) : Except HeapError (List Int32) := do
  let s ← a.known edge .nonterminal
  (← s.tentacles).mapM a.pub

def variableWith (a : Arena) (name : Bytes) : Except HeapError (Option Int32) :=
  match a.variableSlot? name with
  | some v => some <$> a.pub v
  | none => .ok none

def variableTargetOf (a : Arena) (edge : Int) : Except HeapError Int32 := do
  let s ← a.known edge .variable
  match s.succ with
  | t :: _ => a.pub t
  | [] => .error .fault

def answers (a : Arena) : Answers where
  idsOf kind := sorted ((a.slots.filter (isLiveOf kind)).map Slot.pub)
  countOf kind := a.slots.countP (isLiveOf kind)
  externalCount := a.externals.length
  externalNodes := a.externals.mapM a.pub
  externalNodeAt := a.externalNodeAt
  externalIndexOf node := Slot.ordinal <$> a.known node .node
  nodeTypeOf node := (fun s => s.label.name) <$> a.known node .node
  selectorsOf node := Slot.selectorNames <$> a.known node .node
  selectorTargetOf := a.selectorTargetOf
  successorsOf node := do (← a.known node .node).succ.mapM a.pub
  attachedOf := a.attachedOf
  nonterminalOf edge := (fun s => ⟨s.label.name, s.label.rank⟩) <$> a.known edge .nonterminal
  attachedNodesOf := a.attachedNodesOf
  variableWith := a.variableWith
  variableNameOf edge := (fun s => s.label.name) <$> a.known edge .variable
  variableTargetOf := a.variableTargetOf

end Arena

def Heap.answers (h : Heap) : Answers where
  idsOf kind := (h.idsOf kind).map Int32.ofNat
  countOf := h.countOf
  externalCount := h.externalCount
  externalNodes := List.map Int32.ofNat <$> h.externalNodes
  externalNodeAt ordinal := Int32.ofNat <$> h.externalNodeAt ordinal
  externalIndexOf := h.externalIndexOf
  nodeTypeOf := h.nodeTypeOf
  selectorsOf := h.selectorsOf
  selectorTargetOf node selector := Option.map Int32.ofNat <$> h.selectorTargetOf node selector
  successorsOf node := List.map Int32.ofNat <$> h.successorsOf node
  attachedOf node kind := List.map Int32.ofNat <$> h.attachedOf node kind
  nonterminalOf := h.nonterminalOf
  attachedNodesOf edge := List.map Int32.ofNat <$> h.attachedNodesOf edge
  variableWith name := Option.map Int32.ofNat <$> h.variableWith name
  variableNameOf := h.variableNameOf
  variableTargetOf edge := Int32.ofNat <$> h.variableTargetOf edge

theorem Heap.SameAnswers.answers {h k : Heap} (hk : h.SameAnswers k) : k.answers = h.answers := by
  simp only [Heap.answers, hk.idsOf, hk.countOf, hk.externalCount, hk.externalNodes, hk.externalNodeAt,
    hk.externalIndexOf, hk.nodeTypeOf, hk.selectorsOf, hk.selectorTargetOf, hk.successorsOf, hk.attachedOf,
    hk.nonterminalOf, hk.attachedNodesOf, hk.variableWith, hk.variableNameOf, hk.variableTargetOf]

namespace Arena

variable {h : Heap} {id : Int} {kind : Kind} {v : Nat} {e : Element}

end Arena

def Answers.state (A : Answers) (nextId : Nat) : HeapState where
  nextId := nextId
  nodeType x := (A.nodeTypeOf x).toOption
  selector x s := (A.selectorTargetOf x s).toOption.join.map Int32.toNatClampNeg
  hyperedge x := (do return (← A.nonterminalOf x, (← A.attachedNodesOf x).map Int32.toNatClampNeg)).toOption
  pointer x := (do return (← A.variableNameOf x, (← A.variableTargetOf x).toNatClampNeg)).toOption
  externals := (A.externalNodes.toOption.getD []).map Int32.toNatClampNeg

namespace Arena

def state (a : Arena) : HeapState := a.answers.state a.privOf.length

def graph (a : Arena) : Graph where
  size := a.slots.length
  label v := ((a.slots[v]?).map Slot.label).getD default
  successors v := ((a.slots[v]?).map Slot.succ).getD []
  predecessors v := ((a.slots[v]?).map Slot.pred).getD []
  arcLabels u v := ((a.slots[u]?).bind (fun s => (s.arcIndex v).bind (fun i => (s.out[i]?).map Arc.labels))).getD []
  ordinal v := (a.slots[v]?).bind Slot.ordinal

variable {h : Heap} {v x y : Nat} {e : Element}

section State

variable (hs : h.Sound) (hb : h.nextId ≤ 2 ^ 31)

include hs hb

end State

end Arena

end HeapAbstraction
