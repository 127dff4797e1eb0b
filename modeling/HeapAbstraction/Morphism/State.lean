import HeapAbstraction.Morphism.Graph

namespace HeapAbstraction

structure Pair where
  p : Nat
  t : Nat
deriving DecidableEq, Repr

structure Side where
  graph : Graph
  partner : List (Option Nat)
  inOut : List Bool
  inIn : List Bool
  numOut : Int := 0
  numIn : Int := 0
  numMatched : Int := 0

namespace Side

def start (g : Graph) : Side :=
  { graph := g
    partner := List.replicate g.size none
    inOut := List.replicate g.size false
    inIn := List.replicate g.size false }

def partner? (s : Side) (v : Nat) : Option Nat := (s.partner[v]?).join

def isMatched (s : Side) (v : Nat) : Bool := (s.partner? v).isSome

def flaggedOut (s : Side) (v : Nat) : Bool := (s.inOut[v]?).getD false

def flaggedIn (s : Side) (v : Nat) : Bool := (s.inIn[v]?).getD false

def inOutFrontier (s : Side) (v : Nat) : Bool := s.flaggedOut v && !s.isMatched v

def inInFrontier (s : Side) (v : Nat) : Bool := s.flaggedIn v && !s.isMatched v

def numUnmatched (s : Side) : Int := s.partner.length - s.numMatched

def vertices (s : Side) : List Nat := List.range s.partner.length

def pair (s : Side) (v other : Nat) : Side :=
  { s with
    partner := s.partner.set v (some other)
    numMatched := s.numMatched + 1
    numOut := if s.flaggedOut v then s.numOut - 1 else s.numOut
    numIn := if s.flaggedIn v then s.numIn - 1 else s.numIn }

def unpair (s : Side) (v : Nat) : Side :=
  { s with
    partner := s.partner.set v none
    numMatched := s.numMatched - 1
    numOut := if s.flaggedOut v then s.numOut + 1 else s.numOut
    numIn := if s.flaggedIn v then s.numIn + 1 else s.numIn }

def flagOut (s : Side) (v : Nat) : Side :=
  { s with
    inOut := s.inOut.set v true
    numOut := if s.isMatched v then s.numOut else s.numOut + 1 }

def flagIn (s : Side) (v : Nat) : Side :=
  { s with
    inIn := s.inIn.set v true
    numIn := if s.isMatched v then s.numIn else s.numIn + 1 }

def unflagOut (s : Side) (v : Nat) : Side :=
  { s with
    inOut := s.inOut.set v false
    numOut := if s.isMatched v then s.numOut else s.numOut - 1 }

def unflagIn (s : Side) (v : Nat) : Side :=
  { s with
    inIn := s.inIn.set v false
    numIn := if s.isMatched v then s.numIn else s.numIn - 1 }

end Side

-- the two frontiers of a side: behind the arcs that leave matched vertices, and before those that enter them
inductive Frontier where
  | out
  | into
deriving DecidableEq, Repr

namespace Side

def flagged (s : Side) : Frontier → Nat → Bool
  | .out => s.flaggedOut
  | .into => s.flaggedIn

def flag (s : Side) : Frontier → Nat → Side
  | .out => s.flagOut
  | .into => s.flagIn

def unflag (s : Side) : Frontier → Nat → Side
  | .out => s.unflagOut
  | .into => s.unflagIn

end Side

structure JournalEntry where
  vertex : Nat
  onPattern : Bool
  frontier : Frontier
deriving DecidableEq, Repr

structure Delta where
  pair : Pair
  start : Nat
deriving DecidableEq, Repr

abbrev Morphism := List Nat

structure SearchState where
  pattern : Side
  target : Side
  deltas : List Delta := []
  journal : List JournalEntry := []

namespace SearchState

def start (pattern target : Graph) : SearchState :=
  { pattern := Side.start pattern, target := Side.start target }

def side (s : SearchState) (onPattern : Bool) : Side := if onPattern then s.pattern else s.target

def setSide (s : SearchState) (onPattern : Bool) (σ : Side) : SearchState :=
  if onPattern then { s with pattern := σ } else { s with target := σ }

def note (s : SearchState) (e : JournalEntry) : SearchState :=
  let σ := s.side e.onPattern
  if σ.flagged e.frontier e.vertex then s
  else { s.setSide e.onPattern (σ.flag e.frontier e.vertex) with journal := e :: s.journal }

def flagNeighbours (s : SearchState) (onPattern : Bool) (v : Nat) : SearchState :=
  let g := (s.side onPattern).graph
  let s := (g.successors v).foldl (fun s u => s.note ⟨u, onPattern, .out⟩) s
  (g.predecessors v).foldl (fun s u => s.note ⟨u, onPattern, .into⟩) s

def extend (s : SearchState) (c : Pair) : SearchState :=
  let s := { s with
    pattern := s.pattern.pair c.p c.t
    target := s.target.pair c.t c.p
    deltas := ⟨c, s.journal.length⟩ :: s.deltas }
  (s.flagNeighbours true c.p).flagNeighbours false c.t

def unnote (s : SearchState) (e : JournalEntry) : SearchState :=
  s.setSide e.onPattern ((s.side e.onPattern).unflag e.frontier e.vertex)

def backtrack? (s : SearchState) : Option SearchState :=
  match s.deltas with
  | [] => none
  | d :: rest =>
      let written := s.journal.length - d.start
      let s := (s.journal.take written).foldl unnote
        { s with deltas := rest, journal := s.journal.drop written }
      some { s with pattern := s.pattern.unpair d.pair.p, target := s.target.unpair d.pair.t }

def depth (s : SearchState) : Nat := s.deltas.length

def morphism (s : SearchState) : Morphism := s.pattern.partner.map (fun t => t.getD danglingSlot)

-- the pairs to try next: the lowest pattern vertex of a frontier with all of the target's frontier, or, when the
-- pattern has no frontier left, the lowest unmatched vertex with all unmatched ones
def candidates (s : SearchState) : List Pair :=
  let pairs (inP inT : Nat → Bool) : List Pair :=
    let p := (s.pattern.vertices.find? inP).getD danglingSlot
    (s.target.vertices.filter inT).map (fun t => ⟨p, t⟩)
  if 0 < s.pattern.numOut ∧ 0 < s.target.numOut then pairs s.pattern.inOutFrontier s.target.inOutFrontier
  else if 0 < s.pattern.numIn ∧ 0 < s.target.numIn then pairs s.pattern.inInFrontier s.target.inInFrontier
  else if s.pattern.numOut = 0 ∧ s.pattern.numIn = 0 then
    match s.pattern.vertices.find? (fun v => !s.pattern.isMatched v) with
    | some p => (s.target.vertices.filter (fun t => !s.target.isMatched t)).map (fun t => ⟨p, t⟩)
    | none => []
  else []

def imageOf (s : SearchState) (c : Pair) (q : Nat) : Option Nat :=
  if q = c.p then some c.t else s.pattern.partner? q

def preimageOf (s : SearchState) (c : Pair) (u : Nat) : Option Nat :=
  if u = c.t then some c.p else s.target.partner? u

def isComplete (s : SearchState) : Bool := s.pattern.numUnmatched == 0

def isHopeless (s : SearchState) : Bool :=
  s.target.numUnmatched < s.pattern.numUnmatched || s.target.numOut < s.pattern.numOut ||
    s.target.numIn < s.pattern.numIn

end SearchState

end HeapAbstraction
