import HeapAbstraction.Heap.Folding

namespace HeapAbstraction

-- what a walk over a list comes to when each item is taken out as it is come to and the later ones move up. A walk
-- that finds no item left in its place comes to the last one
def walkWhileTaken {α : Type} : List α → List α
  | a :: _ :: c :: rest => a :: walkWhileTaken (c :: rest)
  | l => l

def walkAgain {α : Type} (l : List α) : List α := if 2 < l.length then l.getLast?.toList else []

namespace Arc

def walkedLabels (a : Arc) : List EdgeLabel := walkWhileTaken a.labels ++ walkAgain a.labels

end Arc

namespace Element

def walkedSelectors (e : Element) : List Bytes :=
  let labels := (walkWhileTaken e.arcs).flatMap Arc.walkedLabels ++
    (walkAgain e.arcs).flatMap (fun a => a.labels.getLast?.toList)
  labels.map EdgeLabel.name

end Element

namespace Heap

def ownSelectors (h : Heap) (image : List Int) (p : Nat) : List Bytes :=
  match h.elements[p]? with
  | some e =>
      if e.kind != .node then []
      else if (image[p]?).bind h.slot? == some p then e.walkedSelectors
      else e.selectorNames
  | none => []

def stripItself (m : Matching) : Heap → List Nat → Except Aborted Heap
  | h, [] => .ok h
  | h, p :: rest => do
      let stripped ← removeImageSelectors m h ((h.ownSelectors m.image p).map (fun s => (p, s)))
      stripItself m stripped rest

def absorbItself (m : Matching) (chosen : Kind → Bool) : Heap → List Nat → Except Aborted Heap
  | h, [] => .ok h
  | h, p :: rest => do
      let inner := (h.elements[p]?).any (fun e => e.ordinal.isNone && chosen e.kind)
      let smaller ← if inner then removeImages m h [p] else .ok h
      absorbItself m chosen smaller rest

def foldItself (h : Heap) (image : List Int) (nt : Nonterminal) : Except Aborted Heap := do
  let m : Matching := ⟨h, image⟩
  let slots := List.range h.elements.length
  if nt.rank ≠ (h.externalCount : Int) then
    .error ⟨.patternRank nt h.externalCount, h⟩
  else if image.length ≠ h.elements.length then
    .error ⟨.partialMatching image.length h.elements.length, h⟩
  else
    let stripped ← stripItself m h slots
    let targets ← stripped.orAbort (h.externals.mapM (m.imageOf stripped))
    let smaller ← absorbItself m (· != .node) stripped slots
    let bare ← absorbItself m (· == .node) smaller slots
    return bare.attach nt targets

end Heap

end HeapAbstraction
