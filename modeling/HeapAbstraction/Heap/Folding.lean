import HeapAbstraction.Heap.Gluing

namespace HeapAbstraction

structure Matching where
  pattern : Heap
  image : List Int
deriving Repr

namespace Matching

def ofMorphism (pattern host : Heap) (morphism : List Nat) : Except HeapError Matching := do
  let ids ← morphism.mapM host.idAt
  return ⟨pattern, ids.map Int.ofNat⟩

def selectors (m : Matching) : List (Nat × Bytes) :=
  m.pattern.elements.zipIdx.flatMap (fun p =>
    if p.1.kind = .node then p.1.selectorNames.map (fun s => (p.2, s)) else [])

def absorbed (m : Matching) : List Nat :=
  let inner := m.pattern.elements.zipIdx.filter (fun p => p.1.ordinal.isNone)
  ((inner.filter (fun p => p.1.kind != .node)) ++ (inner.filter (fun p => p.1.kind == .node))).map Prod.snd

def imageOf (m : Matching) (h : Heap) (p : Nat) : Except HeapError Nat :=
  match m.pattern.elements[p]?, m.image[p]? with
  | some e, some id => Prod.fst <$> h.find id e.kind
  | _, _ => .error .fault

end Matching

namespace Heap

def removeSelectorAt (h : Heap) (v : Nat) (selector : Bytes) : Except HeapError Heap :=
  match h.elements[v]? with
  | none => .error .fault
  | some e =>
      match e.targetOf? (.selector selector) with
      | some t => h.unlink v t (.selector selector)
      | none => .error (.missingSelector e.id selector)

def removeImageSelectors (m : Matching) : Heap → List (Nat × Bytes) → Except Aborted Heap
  | h, [] => .ok h
  | h, (p, s) :: rest => do
      let v ← h.orAbort (m.imageOf h p)
      let h ← h.orAbort (h.removeSelectorAt v s)
      removeImageSelectors m h rest

def removeImages (m : Matching) : Heap → List Nat → Except Aborted Heap
  | h, [] => .ok h
  | h, p :: rest => do
      let v ← h.orAbort (m.imageOf h p)
      let h ← h.orAbort (h.removeAt v)
      removeImages m h rest

-- puts a hyperedge in the place of a matched pattern: the selectors of the images of its nodes go, the images of its
-- elements without an ordinal go, and the hyperedge is attached to the other images
def fold (h : Heap) (m : Matching) (nt : Nonterminal) : Except Aborted Heap := do
  if nt.rank ≠ (m.pattern.externalCount : Int) then
    .error ⟨.patternRank nt m.pattern.externalCount, h⟩
  else if m.image.length ≠ m.pattern.elements.length then
    .error ⟨.partialMatching m.image.length m.pattern.elements.length, h⟩
  else
    let stripped ← removeImageSelectors m h m.selectors
    let targets ← stripped.orAbort (m.pattern.externals.mapM (m.imageOf stripped))
    let bare ← removeImages m stripped m.absorbed
    return bare.attach nt targets

end Heap

end HeapAbstraction
