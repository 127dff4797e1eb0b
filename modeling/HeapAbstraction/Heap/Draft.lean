import HeapAbstraction.Heap.Compaction
import HeapAbstraction.Heap.SelfFolding
import HeapAbstraction.Heap.Isomorphism
import HeapAbstraction.Fingerprint.Basic
import HeapAbstraction.Morphism.Guarded

namespace HeapAbstraction

inductive Phase where
  | idle
  | editing
  | built
deriving DecidableEq, Repr

structure Draft where
  heap : Heap
  phase : Phase := .idle
deriving Repr

structure EdgeDraft where
  nonterminal : Nonterminal
  tentacles : List Int := []
deriving Repr

namespace Draft

def isActive (d : Draft) : Bool := d.phase == .editing

def settled (d : Draft) : Except HeapError Heap := if d.isActive then .error .builderActive else .ok d.heap

def begin (d : Draft) : Draft := { d with phase := .editing }

def build (d : Draft) : Draft × Except HeapError Unit :=
  match d.phase with
  | .built => (d, .error .builderInvalid)
  | _ =>
      match d.heap.build with
      | .ok h => (⟨h, .built⟩, .ok ())
      | .error e => (d.begin, .error e)

def edit {α : Type} (d : Draft) (f : Heap → Except Aborted (Heap × α)) : Draft × Except HeapError α :=
  match d.phase with
  | .built => (d, .error .builderInvalid)
  | _ =>
      match f d.heap with
      | .ok (h, a) => (⟨h, .editing⟩, .ok a)
      | .error e => (⟨e.heap, .editing⟩, .error e.error)

def startEdge (d : Draft) (nt : Nonterminal) : Draft × Except HeapError EdgeDraft :=
  d.edit (fun h => .ok (h, { nonterminal := nt }))

def finishEdge (d : Draft) (e : EdgeDraft) : Draft × Except HeapError Unit :=
  d.edit (fun h => do
    let (h, _) ← h.orAbort (h.addNonterminal e.nonterminal e.tentacles)
    return (h, ()))

def replaceEdge (d : Draft) (edge : Int) (replacement : Draft) : Draft × Except HeapError Unit :=
  d.edit (fun h => do
    let r ← h.orAbort replacement.settled
    return (← h.glue edge r, ()))

def fold (d : Draft) (m : Matching) (nt : Nonterminal) : Draft × Except HeapError Unit :=
  d.edit (fun h => do return (← h.fold m nt, ()))

def foldAt (d : Draft) (pattern : Heap) (morphism : Morphism) (nt : Nonterminal) : Draft × Except HeapError Unit :=
  match Matching.ofMorphism pattern d.heap morphism with
  | .error e => (d, .error e)
  | .ok m => d.fold m nt

def foldItself (d : Draft) (image : List Int) (nt : Nonterminal) : Draft × Except HeapError Unit :=
  d.edit (fun h => do return (← h.foldItself image nt, ()))

def foldItselfAt (d : Draft) (morphism : Morphism) (nt : Nonterminal) : Draft × Except HeapError Unit :=
  match Matching.ofMorphism d.heap d.heap morphism with
  | .error e => (d, .error e)
  | .ok m => d.foldItself m.image nt

def fingerprint (d : Draft) : Except HeapError UInt64 := do
  let h ← d.settled
  if h.closed then return h.fingerprint else .error .fault

def morphisms (predicates : List Predicate) (first : Bool) (pattern target : Draft) :
    Except HeapError (List Morphism) := do
  let p ← pattern.settled
  let t ← target.settled
  match Graph.guardedMorphisms? predicates first p.graph t.graph with
  | some found => return found
  | none => .error .fault

def isomorphisms (first : Bool) (pattern target : Draft) : Except HeapError (List Morphism) := do
  let p ← pattern.settled
  let t ← target.settled
  if p.graph.size = t.graph.size then morphisms Predicate.isomorphism first pattern target else return []

def equals (a b : Draft) : Except HeapError Bool :=
  if a.heap.comparable b.heap then return !(← isomorphisms true a b).isEmpty
  else return false

end Draft

end HeapAbstraction
