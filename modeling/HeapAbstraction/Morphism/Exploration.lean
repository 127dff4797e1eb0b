import HeapAbstraction.Morphism.Predicate

namespace HeapAbstraction

structure Exploration where
  state : SearchState
  distances : Option (List (Option Nat)) := none

namespace Exploration

def start (pattern target : Graph) : Exploration := { state := SearchState.start pattern target }

def hasVertex (g : Graph) (v : Int) : Bool := 0 ≤ v && v < g.size

def hasPair (x : Exploration) (p t : Int) : Bool :=
  hasVertex x.state.pattern.graph p && hasVertex x.state.target.graph t

def extend? (x : Exploration) (p t : Int) : Option Exploration :=
  if x.hasPair p t then some { x with state := x.state.extend ⟨p.toNat, t.toNat⟩ } else none

def backtrack? (x : Exploration) : Option Exploration := (x.state.backtrack?).map (fun s => { x with state := s })

def testLabelsOutside (x : Exploration) (p : Nat) (t : Int) : Option Bool :=
  let P := x.state.pattern
  let matchedBut (vs : List Nat) : Bool := vs.any (fun q => q != p && P.isMatched q)
  if matchedBut (P.graph.successors p) || (0 ≤ t && (P.graph.successors p).contains p) then none
  else some (!matchedBut (P.graph.predecessors p))

def test? (x : Exploration) (p t : Int) : Predicate → Option (Bool × Exploration)
  | .farEnough depth exempt =>
      let c : Pair := ⟨p.toNat, t.toNat⟩
      if depth ≤ 0 then some (true, x)
      else if !hasVertex x.state.pattern.graph p then none
      else if !Feasibility.hides x.state c then some (true, x)
      else
        let distances := x.distances.getD (x.state.target.graph.variableDistances exempt)
        if hasVertex x.state.target.graph t then
          some (Feasibility.isFar distances depth c.t, { x with distances := some distances })
        else none
  | .sameLabels => testLabels .sameLabels
  | .embedsLabels => testLabels .embedsLabels
  | predicate => if x.hasPair p t then some (predicate.test [] x.state ⟨p.toNat, t.toNat⟩, x) else none
where
  testLabels (predicate : Predicate) : Option (Bool × Exploration) :=
    if x.hasPair p t then some (predicate.test [] x.state ⟨p.toNat, t.toNat⟩, x)
    else if hasVertex x.state.pattern.graph p then
      (x.testLabelsOutside p.toNat t).map (fun b => (b, x))
    else none

end Exploration

end HeapAbstraction
