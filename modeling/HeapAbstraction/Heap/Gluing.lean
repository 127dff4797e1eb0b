import HeapAbstraction.Heap.Edit

namespace HeapAbstraction

structure Aborted where
  error : HeapError
  heap : Heap
deriving Repr

namespace Heap

def orAbort {α : Type} (h : Heap) : Except HeapError α → Except Aborted α
  | .ok a => .ok a
  | .error e => .error ⟨e, h⟩

structure Link where
  source : Nat
  target : Nat
  label : EdgeLabel
deriving DecidableEq, Repr

def links (h : Heap) : List Link :=
  h.elements.zipIdx.flatMap (fun p => p.1.arcs.flatMap (fun a => a.labels.map (fun l => ⟨p.2, a.target, l⟩)))

-- copies the elements of a heap: the one with ordinal `i` is the element in the `i`-th of the given slots, any other
-- is a new one. Gives the slot of each copy
def copyElements (targets : List Nat) : Heap → List Nat → List Element → Except Aborted (Heap × List Nat)
  | h, glue, [] => .ok (h, glue)
  | h, glue, e :: rest =>
      match e.ordinal with
      | some i =>
          match targets[i]? with
          | some t => copyElements targets h (glue ++ [t]) rest
          | none => .error ⟨.fault, h⟩
      | none =>
          match e.label with
          | .variable x =>
              if (h.variableSlot? x).isSome then .error ⟨.duplicateVariable x, h⟩
              else copyElements targets (h.addElement e.label) (glue ++ [h.elements.length]) rest
          | _ => copyElements targets (h.addElement e.label) (glue ++ [h.elements.length]) rest

def copyLinks (glue : List Nat) : Heap → List Link → Except Aborted Heap
  | h, [] => .ok h
  | h, k :: rest =>
      match glue[k.source]?, glue[k.target]? with
      | some s, some t =>
          match h.elements[s]? with
          | none => .error ⟨.fault, h⟩
          | some e =>
              if k.label.isSelector && (e.targetOf? k.label).isSome then
                .error ⟨.gluedSelector k.label.name e.id, h⟩
              else copyLinks glue (h.link s t k.label) rest
      | _, _ => .error ⟨.fault, h⟩

-- puts a heap in the place of a hyperedge: its external node `i` becomes the node at tentacle `i`, and all its other
-- elements are copied under new public IDs
def glue (h : Heap) (edge : Int) (replacement : Heap) : Except Aborted Heap := do
  let (v, e) ← h.orAbort (h.find edge .nonterminal)
  if e.label.rank ≠ (replacement.externalCount : Int) then
    .error ⟨.replacementRank edge e.label.rank replacement.externalCount, h⟩
  else
    let targets ← h.orAbort (tentacleSlots e)
    let bare ← h.orAbort (h.removeAt v)
    let (grown, copies) ← copyElements targets bare [] replacement.elements
    copyLinks copies grown replacement.links

end Heap

end HeapAbstraction
