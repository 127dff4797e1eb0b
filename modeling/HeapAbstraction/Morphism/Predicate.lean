import HeapAbstraction.Morphism.State

namespace HeapAbstraction

abbrev Feasibility := SearchState → Pair → Bool

namespace Feasibility

def sameLabel : Feasibility := fun s c => s.pattern.graph.label c.p == s.target.graph.label c.t

def sameOrdinal : Feasibility := fun s c => s.pattern.graph.ordinal c.p == s.target.graph.ordinal c.t

def embedsOrdinal : Feasibility := fun s c =>
  let P := s.pattern.graph
  let T := s.target.graph
  if P.isExternal c.p then P.degree c.p ≤ T.degree c.t
  else !T.isExternal c.t && P.degree c.p == T.degree c.t

-- matched neighbours of the pattern vertex go to neighbours of the target vertex, and the other way round; between
-- two external vertices the target may have more
def neighboursAgree (exact : Bool) (ps ts : List Nat) : Feasibility := fun s c =>
  let P := s.pattern.graph
  ps.all (fun q => (s.imageOf c q).all (fun t => ts.contains t)) &&
    ts.all (fun u => (s.preimageOf c u).all (fun q =>
      ps.contains q || (!exact && P.isExternal c.p && P.isExternal q)))

def successorsAgree (exact : Bool) : Feasibility := fun s c =>
  neighboursAgree exact (s.pattern.graph.successors c.p) (s.target.graph.successors c.t) s c

def predecessorsAgree (exact : Bool) : Feasibility := fun s c =>
  neighboursAgree exact (s.pattern.graph.predecessors c.p) (s.target.graph.predecessors c.t) s c

def labelsFit (equal : Bool) (ps ts : List EdgeLabel) : Bool :=
  (!equal || ps.length == ts.length) && ps.all (fun l => ts.contains l)

def labelsAgree (equal : Graph → Nat → Nat → Bool) : Feasibility := fun s c =>
  let P := s.pattern.graph
  let T := s.target.graph
  (P.successors c.p).all (fun q => (s.imageOf c q).all (fun t =>
      labelsFit (equal P c.p q) (P.arcLabels c.p q) (T.arcLabels c.t t))) &&
    (P.predecessors c.p).all (fun q => (s.imageOf c q).all (fun t =>
      labelsFit (equal P q c.p) (P.arcLabels q c.p) (T.arcLabels t c.t)))

def sameLabels : Feasibility := labelsAgree (fun _ _ _ => true)

def embedsLabels : Feasibility := labelsAgree (fun P p q => !P.isExternal p || !P.isExternal q)

def openNeighbours (s : Side) (v : Nat) (us : List Nat) : List Nat :=
  us.filter (fun u => u != v && !s.isMatched u)

def lookahead (exact : Bool) (neighbours : Graph → Nat → List Nat) (frontier : Side → Nat → Bool) :
    Feasibility := fun s c =>
  let ps := openNeighbours s.pattern c.p (neighbours s.pattern.graph c.p)
  let ts := openNeighbours s.target c.t (neighbours s.target.graph c.t)
  ps.countP (frontier s.pattern) ≤ ts.countP (frontier s.target) &&
    if exact || !s.pattern.graph.isExternal c.p then ps.length == ts.length else ps.length ≤ ts.length

def lookaheadOut (exact : Bool) : Feasibility := lookahead exact Graph.successors Side.inOutFrontier

def lookaheadIn (exact : Bool) : Feasibility := lookahead exact Graph.predecessors Side.inInFrontier

def degreeSum (s : Side) (v : Nat) : Int32 :=
  let around := openNeighbours s v (s.graph.successors v) ++ openNeighbours s v (s.graph.predecessors v)
  around.foldl (fun sum u => sum + Int32.ofNat (s.graph.degree u)) 0

def lookaheadTwo (exact : Bool) : Feasibility := fun s c =>
  let p := degreeSum s.pattern c.p
  let t := degreeSum s.target c.t
  if exact then p == t else p ≤ t

-- whether a fold at the pair would hide the target vertex: the pattern vertex is a node that is internal or has a
-- selector
def hides (s : SearchState) (c : Pair) : Bool :=
  let P := s.pattern.graph
  P.isNode c.p && !(P.isExternal c.p && (P.successors c.p).isEmpty)

def isFar (distances : List (Option Nat)) (depth : Int) (v : Nat) : Bool :=
  ((distances[v]?).join).all (fun (d : Nat) => depth ≤ d)

def farEnough (distances : List (Option Nat)) (depth : Int) : Feasibility := fun s c =>
  depth ≤ 0 || !hides s c || isFar distances depth c.t

end Feasibility

-- distances of the levels behind `frontier`, which is at distance `d`; the first argument bounds their number
def Graph.distancesFrom (g : Graph) :
    Nat → Nat → List Nat → List (Option Nat) → List (Option Nat)
  | 0, _, _, dist => dist
  | n + 1, d, frontier, dist =>
      let next := (frontier.flatMap g.successors).eraseDups.filter
        (fun w => g.isNode w && dist[w]? == some none)
      if next.isEmpty then dist
      else g.distancesFrom n (d + 1) next (next.foldl (fun t w => t.set w (some (d + 1))) dist)

-- the number of selectors from the nearest node of a variable to each vertex; none if there is no path. Exempt
-- variables do not count
def Graph.variableDistances (g : Graph) (exempt : Bytes → Bool) : List (Option Nat) :=
  let counts (v : Nat) : Bool := match g.label v with
    | .variable x => !exempt x
    | _ => false
  let sources := (((List.range g.size).filter counts).flatMap g.successors).eraseDups
  let dist := sources.foldl (fun t w => t.set w (some 0)) (List.replicate g.size none)
  g.distancesFrom g.size 0 sources dist

inductive Predicate where
  | sameLabel
  | sameOrdinal
  | embedsOrdinal
  | successors (exact : Bool)
  | predecessors (exact : Bool)
  | sameLabels
  | embedsLabels
  | lookaheadOut (exact : Bool)
  | lookaheadIn (exact : Bool)
  | lookaheadTwo (exact : Bool)
  | farEnough (depth : Int) (exempt : Bytes → Bool)

namespace Predicate

def test (distances : List (Option Nat)) : Predicate → Feasibility
  | .sameLabel => Feasibility.sameLabel
  | .sameOrdinal => Feasibility.sameOrdinal
  | .embedsOrdinal => Feasibility.embedsOrdinal
  | .successors exact => Feasibility.successorsAgree exact
  | .predecessors exact => Feasibility.predecessorsAgree exact
  | .sameLabels => Feasibility.sameLabels
  | .embedsLabels => Feasibility.embedsLabels
  | .lookaheadOut exact => Feasibility.lookaheadOut exact
  | .lookaheadIn exact => Feasibility.lookaheadIn exact
  | .lookaheadTwo exact => Feasibility.lookaheadTwo exact
  | .farEnough depth _ => Feasibility.farEnough distances depth

def exemption : List Predicate → Option (Bytes → Bool)
  | [] => none
  | .farEnough depth exempt :: rest => if 0 < depth then some exempt else exemption rest
  | _ :: rest => exemption rest

def tests (ps : List Predicate) (target : Graph) : List Feasibility :=
  let distances := ((exemption ps).map target.variableDistances).getD []
  ps.map (test distances)

end Predicate

end HeapAbstraction
