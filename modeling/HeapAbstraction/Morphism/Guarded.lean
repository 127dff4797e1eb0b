import HeapAbstraction.Morphism.Search

namespace HeapAbstraction

namespace Verdict

def andThen (first second : Verdict) : Verdict :=
  match first with
  | .accept => second
  | _ => first

end Verdict

namespace Feasibility

def scan (ok : Nat → Bool) : List Nat → Verdict
  | [] => .accept
  | v :: rest => if v = danglingSlot then .fault else if ok v then scan ok rest else .reject

def guardedNeighbours (exact : Bool) (ps ts : List Nat) (s : SearchState) (c : Pair) : Verdict :=
  let P := s.pattern.graph
  (scan (fun q => (s.imageOf c q).all (fun t => ts.contains t)) ps).andThen
    (scan (fun u => (s.preimageOf c u).all (fun q =>
      ps.contains q || (!exact && P.isExternal c.p && P.isExternal q))) ts)

def guardedFarEnough (distances : Option (List (Option Nat))) (depth : Int) (s : SearchState) (c : Pair) : Verdict :=
  if depth ≤ 0 || !hides s c then .accept
  else match distances with
    | some found => .ofBool (isFar found depth c.t)
    | none => .fault

def surrounded (s : SearchState) (c : Pair) : Bool :=
  let whole (g : Graph) (v : Nat) := !(g.successors v ++ g.predecessors v).contains danglingSlot
  whole s.pattern.graph c.p && whole s.target.graph c.t

end Feasibility

namespace Graph

def guardedDistances? (g : Graph) (exempt : Bytes → Bool) : Option (List (Option Nat)) :=
  let distances := g.variableDistances exempt
  let passed (v : Nat) : Bool := match g.label v with
    | .variable x => !exempt x
    | _ => ((distances[v]?).join).isSome
  if (List.range g.size).any (fun v => passed v && (g.successors v).contains danglingSlot) then none
  else some distances

end Graph

namespace Predicate

def guardedTest (distances : Option (List (Option Nat))) (predicate : Predicate) (s : SearchState) (c : Pair) :
    Verdict :=
  let P := s.pattern.graph
  let T := s.target.graph
  match predicate with
  | .successors exact => Feasibility.guardedNeighbours exact (P.successors c.p) (T.successors c.t) s c
  | .predecessors exact => Feasibility.guardedNeighbours exact (P.predecessors c.p) (T.predecessors c.t) s c
  | .farEnough depth _ => Feasibility.guardedFarEnough distances depth s c
  | _ => .ofBool (predicate.test [] s c)

def guardedTests (distances : Option (List (Option Nat))) : List Predicate → SearchState → Pair → Verdict
  | [], s, c => if Feasibility.surrounded s c then .accept else .fault
  | predicate :: rest, s, c =>
      match predicate.guardedTest distances s c with
      | .accept => guardedTests distances rest s c
      | verdict => verdict

end Predicate

namespace Graph

def guardedMorphisms? (predicates : List Predicate) (first : Bool) (pattern target : Graph) :
    Option (List Morphism) :=
  let distances := match Predicate.exemption predicates with
    | some exempt => target.guardedDistances? exempt
    | none => some []
  let plan : SearchPlan := { test := Predicate.guardedTests distances predicates }
  let outcome := plan.run first pattern target
  if outcome.signal = .fault then none else some outcome.hits

end Graph

end HeapAbstraction
