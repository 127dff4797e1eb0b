import HeapAbstraction.Morphism.Predicate

namespace HeapAbstraction

inductive Verdict where
  | accept
  | reject
  | fault
deriving DecidableEq, Repr

def Verdict.ofBool (b : Bool) : Verdict := if b then .accept else .reject

inductive Signal where
  | proceed
  | enough
  | fault
deriving DecidableEq, Repr

structure Outcome where
  hits : List Morphism := []
  signal : Signal := .proceed
deriving DecidableEq, Repr

structure SearchPlan where
  found : SearchState → Bool := SearchState.isComplete
  impossible : SearchState → Bool := SearchState.isHopeless
  test : SearchState → Pair → Verdict

namespace SearchPlan

def explore (plan : SearchPlan) (visit : SearchState → Outcome) (s : SearchState) : List Pair → Outcome
  | [] => {}
  | c :: rest =>
      match plan.test s c with
      | .reject => explore plan visit s rest
      | .fault => { signal := .fault }
      | .accept =>
          let here := visit (s.extend c)
          match here.signal with
          | .proceed =>
              let later := explore plan visit s rest
              { later with hits := here.hits ++ later.hits }
          | _ => here

-- the morphisms that extend a state in which at most `n` pattern vertices are unmatched. With `first` the search ends
-- at the first one
def visit (plan : SearchPlan) (first : Bool) : Nat → SearchState → Outcome
  | n, s =>
      if plan.impossible s then {}
      else if plan.found s then ⟨[s.morphism], if first then .enough else .proceed⟩
      else match n with
        | 0 => {}
        | n + 1 => plan.explore (visit plan first n) s s.candidates

def run (plan : SearchPlan) (first : Bool) (pattern target : Graph) : Outcome :=
  plan.visit first pattern.size (SearchState.start pattern target)

def ofTests (tests : List Feasibility) : SearchPlan :=
  { test := fun s c => Verdict.ofBool (tests.all (fun f => f s c)) }

end SearchPlan

namespace Predicate

def isomorphism : List Predicate :=
  [.sameLabel, .predecessors true, .successors true, .lookaheadIn true, .lookaheadOut true, .lookaheadTwo true,
    .sameOrdinal, .sameLabels]

def embedding : List Predicate :=
  [.sameLabel, .predecessors false, .successors false, .lookaheadIn false, .lookaheadOut false,
    .lookaheadTwo false, .embedsOrdinal, .embedsLabels]

def distantEmbedding (depth : Int) (exempt : Bytes → Bool) : List Predicate :=
  embedding ++ [.farEnough depth exempt]

end Predicate

namespace Graph

def morphisms (predicates : List Predicate) (first : Bool) (pattern target : Graph) : List Morphism :=
  ((SearchPlan.ofTests (Predicate.tests predicates target)).run first pattern target).hits

def isomorphisms (first : Bool) (pattern target : Graph) : List Morphism :=
  if pattern.size = target.size then morphisms Predicate.isomorphism first pattern target else []

def embeddings (first : Bool) (pattern target : Graph) : List Morphism :=
  morphisms Predicate.embedding first pattern target

def distantEmbeddings (depth : Int) (exempt : Bytes → Bool) (first : Bool) (pattern target : Graph) :
    List Morphism :=
  morphisms (Predicate.distantEmbedding depth exempt) first pattern target

end Graph

end HeapAbstraction
