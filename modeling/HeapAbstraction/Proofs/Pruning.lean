import HeapAbstraction.Proofs.FilteredSearch

namespace HeapAbstraction

-- what a search is given besides its two graphs: a condition that these have to meet, when to end a branch, and the
-- tests that a pair has to pass, in order
structure SearchSettings where
  admits : Graph → Graph → Bool := fun _ _ => true
  found : SearchState → Bool := SearchState.isComplete
  impossible : SearchState → Bool := SearchState.isHopeless
  tests : List Feasibility

namespace SearchSettings

def plan (k : SearchSettings) : SearchPlan :=
  { SearchPlan.ofTests k.tests with found := k.found, impossible := k.impossible }

def search (k : SearchSettings) (first : Bool) (P T : Graph) : List Morphism :=
  if k.admits P T then (k.plan.run first P T).hits else []

end SearchSettings

namespace Predicate

def looksAhead : Predicate → Bool
  | .lookaheadOut _ | .lookaheadIn _ | .lookaheadTwo _ => true
  | _ => false

def withoutLookahead (predicates : List Predicate) : List Predicate := predicates.filter (fun p => !p.looksAhead)

example : withoutLookahead embedding =
    [.sameLabel, .predecessors false, .successors false, .embedsOrdinal, .embedsLabels] := rfl

def preset (exact : Bool) : List Predicate := if exact then isomorphism else embedding

variable {exact : Bool} {s : SearchState} {c : Pair} {distances : List (Option Nat)}

end Predicate

namespace SearchPlan.Decides

variable {plan plan' : SearchPlan} {P T : Graph} {Valid : SearchState → Prop} {Solution : (Nat → Nat) → Prop}
  {Q : SearchState → Pair → Prop} {s : SearchState} {c : Pair} {m : Morphism} {n : Nat}

variable [∀ s c, Decidable (Q s c)]

end SearchPlan.Decides

namespace SearchSettings

variable {exact first : Bool} {P T : Graph}

def preset (exact : Bool) (T : Graph) : SearchSettings where
  admits P T := !exact || P.size == T.size
  tests := Predicate.tests (Predicate.preset exact) T

def unpruned (exact : Bool) (T : Graph) : SearchSettings :=
  { preset exact T with
    impossible := fun _ => false
    tests := Predicate.tests (Predicate.withoutLookahead (Predicate.preset exact)) T }

end SearchSettings

end HeapAbstraction
