import HeapAbstraction.Heap.Query

namespace HeapAbstraction.Heap

def addElement (h : Heap) (label : Label) : Heap :=
  { elements := h.elements ++ [{ label := label, id := h.nextId }]
    nextId := h.nextId + 1 }

-- the largest number of elements that one request may ask for
def requestLimit : Int := 0x400000000000

def addNodes (h : Heap) (type : Bytes) (count : Int) : Except HeapError (Heap × List Nat) :=
  if count < 0 || requestLimit < count then .error .fault
  else
    let n := count.toNat
    let ids := (List.range n).map (fun i => h.nextId + i)
    .ok ({ elements := h.elements ++ ids.map (fun id => { label := .node type, id := id })
           nextId := h.nextId + n }, ids)

def dropExternal (h : Heap) (i : Nat) : Heap :=
  { h with elements := h.elements.map (Element.dropOrdinal i) }

def removeAt (h : Heap) (v : Nat) : Except HeapError Heap :=
  match h.elements[v]? with
  | none => .error .fault
  | some e =>
      if h.elements.detachable v then
        let h := match e.ordinal with
          | some i => h.dropExternal i
          | none => h
        .ok { h with
          elements := (h.elements.detach v).modify v (fun e => { e with removed := true, ordinal := none }) }
      else .error .fault

def removeIsolatedNode (h : Heap) (node : Int) : Except HeapError Heap := do
  let (v, e) ← h.find node .node
  if e.arcs.isEmpty && e.preds.isEmpty then h.removeAt v else .error (.notIsolated node)

def link (h : Heap) (source target : Nat) (l : EdgeLabel) : Heap :=
  { h with elements := h.elements.link source target l }

def unlink (h : Heap) (source target : Nat) (l : EdgeLabel) : Except HeapError Heap :=
  if target < h.elements.length || !h.elements.isLast source target l then
    .ok { h with elements := h.elements.unlink source target l }
  else .error .fault

def addSelector (h : Heap) (source : Int) (selector : Bytes) (target : Int) : Except HeapError Heap := do
  let (v, e) ← h.find source .node
  let (t, _) ← h.find target .node
  match e.targetOf? (.selector selector) with
  | some _ => .error (.duplicateSelector source selector)
  | none => return h.link v t (.selector selector)

def removeSelector (h : Heap) (node : Int) (selector : Bytes) : Except HeapError Heap := do
  let (v, e) ← h.find node .node
  match e.targetOf? (.selector selector) with
  | some t => h.unlink v t (.selector selector)
  | none => .error (.missingSelector node selector)

def replaceSelector (h : Heap) (node : Int) (old new : Bytes) : Except HeapError Heap := do
  let (v, e) ← h.find node .node
  match e.targetOf? (.selector old) with
  | none => .error (.missingSelector node old)
  | some t =>
      if old = new then return h
      else match e.targetOf? (.selector new) with
        | some _ => .error (.duplicateSelector node new)
        | none => return (← h.unlink v t (.selector old)).link v t (.selector new)

def setExternal (h : Heap) (node : Int) : Except HeapError Heap := do
  let (v, e) ← h.find node .node
  match e.ordinal with
  | some _ => .error (.alreadyExternal node)
  | none =>
      return { h with elements := h.elements.modify v (fun e => { e with ordinal := some h.externalCount }) }

def unsetExternal (h : Heap) (node : Int) : Except HeapError Heap := do
  let (_, e) ← h.find node .node
  match e.ordinal with
  | some i => return h.dropExternal i
  | none => .error (.notExternal node)

def addVariable (h : Heap) (name : Bytes) (target : Int) : Except HeapError (Heap × Nat) := do
  let (t, _) ← h.find target .node
  match h.variableSlot? name with
  | some _ => .error (.duplicateVariable name)
  | none => return ((h.addElement (.variable name)).link h.elements.length t (.tentacle 0), h.nextId)

def removeVariable (h : Heap) (edge : Int) : Except HeapError Heap := do
  let (v, _) ← h.find edge .variable
  h.removeAt v

def attach (h : Heap) (nt : Nonterminal) (targets : List Nat) : Heap :=
  targets.zipIdx.foldl (fun g p => g.link h.elements.length p.1 (.tentacle p.2)) (h.addElement (.nonterminal nt))

def addNonterminal (h : Heap) (nt : Nonterminal) (tentacles : List Int) : Except HeapError (Heap × Nat) := do
  if (tentacles.length : Int) ≠ nt.rank then
    .error (.tentacleCount nt tentacles.length)
  else
    let targets ← tentacles.mapM (fun node => Prod.fst <$> h.find node .node)
    return (h.attach nt targets, h.nextId)

def removeNonterminal (h : Heap) (edge : Int) : Except HeapError Heap := do
  let (v, _) ← h.find edge .nonterminal
  h.removeAt v

def relabel (h : Heap) (edge : Int) (nt : Nonterminal) : Except HeapError Heap := do
  let (v, e) ← h.find edge .nonterminal
  if e.label.rank ≠ nt.rank then
    .error (.relabelRank ⟨e.label.name, e.label.rank⟩ nt)
  else
    return { h with elements := h.elements.modify v (fun e => { e with label := .nonterminal nt }) }

end HeapAbstraction.Heap
