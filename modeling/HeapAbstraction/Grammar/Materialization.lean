import HeapAbstraction.Grammar.Basic
import HeapAbstraction.Heap.Compaction
import HeapAbstraction.Heap.Gluing

namespace HeapAbstraction

structure Requirement where
  name : Bytes
  selector : Bytes
deriving DecidableEq, Repr

inductive MaterializationError where
  | noVariable (requirement : Requirement)
  | edit (error : HeapError)
deriving DecidableEq, Repr

namespace MaterializationError

def kind? : MaterializationError → Option ErrorKind
  | .noVariable _ => some .badId
  | .edit e => e.kind?

def message : MaterializationError → Bytes
  | .noVariable r =>
      "materializing " ++ r.name ++ "." ++ r.selector ++ ": " ++
        ErrorKind.badId.inContext ("no variable " ++ Text.quoted r.name)
  | .edit e => e.message

end MaterializationError

inductive Response where
  | rules (rules : List Heap)
  | foreign

namespace Grammar

def resolve (g : Grammar) (nt : Nonterminal) (tentacle : Int) (selector : Bytes) :
    Except HeapError (List Heap) :=
  ((g.rulesFor nt).filter (fun rule => tentacle < rule.externalCount)).filterM (fun rule => do
    let node ← rule.externalNodeAt tentacle
    return (← rule.selectorTargetOf node selector).isSome)

end Grammar

namespace Heap

def applyRules (counter : LabelCounter) (h : Heap) (edge : Int) (label : Bytes) :
    List Heap → Task HeapError (List Heap)
  | [] => return []
  | rule :: rest => do
      let unfolded ← Task.ofExcept (match h.glue edge rule with
        | .ok glued => glued.build
        | .error e => .error e.error)
      counter.count .fault .materializations label
      return unfolded :: (← applyRules counter h edge label rest)

def applyResponse (h : Heap) (edge : Int) (response : Response) (counter : LabelCounter := .text) :
    Task HeapError (List Heap) :=
  match response with
  | .foreign => Task.ofExcept (.error .wrongResponseType)
  | .rules rules => do
      let nt ← Task.ofExcept (h.nonterminalOf edge)
      applyRules counter h edge nt.label rules

end Heap

namespace Grammar

def materializeEdge (g : Grammar) (h : Heap) (edge tentacle : Int) (selector : Bytes)
    (counter : LabelCounter := .text) : Task HeapError (List Heap) := do
  let nt ← Task.ofExcept (h.nonterminalOf edge)
  let rules ← Task.ofExcept (g.resolve nt tentacle selector)
  if rules.isEmpty then return [] else h.applyResponse edge (.rules rules) counter

def holds (h : Heap) (node : Nat) : Except HeapError (List (Nat × Nat)) := do
  let edges ← h.attachedOf node .nonterminal
  let held ← edges.mapM (fun (edge : Nat) => do
    let ends ← h.attachedNodesOf edge
    return (ends.zipIdx.filter (fun p => p.1 == node)).map (fun p => (edge, p.2)))
  return held.flatten

def materializeFirst (counter : LabelCounter) (g : Grammar) (h : Heap) (selector : Bytes) :
    List (Nat × Nat) → Task HeapError (List Heap)
  | [] => return [h]
  | (edge, tentacle) :: rest => do
      let unfolded ← g.materializeEdge h edge tentacle selector counter
      if unfolded.isEmpty then materializeFirst counter g h selector rest else return unfolded

def materializeNode (counter : LabelCounter) (g : Grammar) (h : Heap) (node : Nat) (selector : Bytes) :
    Task HeapError (List Heap) := do
  if (← Task.ofExcept (h.selectorTargetOf node selector)).isSome then return [h]
  else materializeFirst counter g h selector (← Task.ofExcept (holds h node))

def edited {α : Type} (x : Task HeapError α) : Task MaterializationError α := x.adapt .edit

def materializeOne (counter : LabelCounter) (g : Grammar) (h : Heap) (r : Requirement) :
    Task MaterializationError (List Heap) := do
  match ← edited (Task.ofExcept (h.variableWith r.name)) with
  | none => Task.ofExcept (.error (.noVariable r))
  | some edge =>
      let node ← edited (Task.ofExcept (h.variableTargetOf edge))
      edited (materializeNode counter g h node r.selector)

def materializeEach (counter : LabelCounter) (g : Grammar) (r : Requirement) :
    List Heap → Task MaterializationError (List Heap)
  | [] => return []
  | h :: rest => do
      let here ← materializeOne counter g h r
      return here ++ (← materializeEach counter g r rest)

def materializeAll (counter : LabelCounter) (g : Grammar) :
    List Heap → List Requirement → Task MaterializationError (List Heap)
  | current, [] => return current
  | current, r :: rest => do
      materializeAll counter g (← materializeEach counter g r current) rest

def materialize (g : Grammar) (h : Heap) (reqs : List Requirement) (counter : LabelCounter := .text) :
    Task MaterializationError (List Heap) :=
  materializeAll counter g [h] reqs

end Grammar

end HeapAbstraction
