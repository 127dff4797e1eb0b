import HeapAbstraction.Label

namespace HeapAbstraction

-- the slot that stands for the end of an arc whose element was dropped: the all-ones word, which no store reaches
def danglingSlot : Nat := 0xFFFFFFFFFFFFFFFF

structure Arc where
  target : Nat
  labels : List EdgeLabel
deriving DecidableEq, Repr

-- an element of a heap: its label, its public ID, its external ordinal if it has one, its arcs in the order they were
-- added, and the slots that have an arc to it
structure Element where
  label : Label
  id : Nat
  ordinal : Option Nat := none
  removed : Bool := false
  arcs : List Arc := []
  preds : List Nat := []
deriving DecidableEq, Repr

namespace Element

instance : Inhabited Element := ⟨⟨default, 0, none, false, [], []⟩⟩

def kind (e : Element) : Kind := e.label.kind

def successors (e : Element) : List Nat := e.arcs.map Arc.target

def arcTo? (e : Element) (t : Nat) : Option Arc := e.arcs.find? (fun a => a.target == t)

def labelsTo (e : Element) (t : Nat) : List EdgeLabel := ((e.arcTo? t).map Arc.labels).getD []

def targetOf? (e : Element) (l : EdgeLabel) : Option Nat :=
  (e.arcs.find? (fun a => a.labels.contains l)).map Arc.target

def selectorNames (e : Element) : List Bytes := e.arcs.flatMap (fun a => a.labels.map EdgeLabel.name)

def addPred (v : Nat) (e : Element) : Element := { e with preds := e.preds ++ [v] }

def dropPred (v : Nat) (e : Element) : Element := { e with preds := e.preds.erase v }

def dropArcTo (v : Nat) (e : Element) : Element := { e with arcs := e.arcs.eraseP (fun a => a.target == v) }

def dropOrdinal (i : Nat) (e : Element) : Element :=
  match e.ordinal with
  | none => e
  | some j => { e with ordinal := if j = i then none else if i < j then some (j - 1) else some j }

end Element

def Arc.insertLabel (t : Nat) (l : EdgeLabel) : List Arc → List Arc
  | [] => [⟨t, [l]⟩]
  | a :: rest =>
      if a.target = t then { a with labels := a.labels ++ [l] } :: rest else a :: insertLabel t l rest

abbrev Store := List Element

namespace Store

def link (s : Store) (source target : Nat) (l : EdgeLabel) : Store :=
  let joined := ((s[source]?).bind (fun e => e.arcTo? target)).isSome
  let s := s.modify source (fun e => { e with arcs := Arc.insertLabel target l e.arcs })
  if joined then s else s.modify target (Element.addPred source)

def unlink (s : Store) (source target : Nat) (l : EdgeLabel) : Store :=
  match (s[source]?).bind (fun e => e.arcTo? target) with
  | none => s
  | some a =>
      let labels := a.labels.erase l
      if labels.isEmpty then
        (s.modify source (Element.dropArcTo target)).modify target (Element.dropPred source)
      else
        s.modify source (fun e => { e with arcs := e.arcs.replace a { a with labels := labels } })

def isLast (s : Store) (source target : Nat) (l : EdgeLabel) : Bool :=
  ((s[source]?).bind (fun e => e.arcTo? target)).any (fun a => (a.labels.erase l).isEmpty)

def detachOut (s : Store) (v : Nat) : Store :=
  let targets := ((s[v]?).map Element.successors).getD []
  (targets.foldl (fun s t => s.modify t (Element.dropPred v)) s).modify v (fun e => { e with arcs := [] })

def detachIn (s : Store) (v : Nat) : Store :=
  let sources := ((s[v]?).map Element.preds).getD []
  (sources.foldl (fun s u => s.modify u (Element.dropArcTo v)) s).modify v (fun e => { e with preds := [] })

def detach (s : Store) (v : Nat) : Store := (s.detachOut v).detachIn v

def detachable (s : Store) (v : Nat) : Bool :=
  let ends (u : Nat) := ((s.detachOut v)[u]?.map (fun e => e.arcs.countP (fun a => a.target == v))).getD 0
  let sources := ((s.detachOut v)[v]?.map Element.preds).getD []
  (((s[v]?).map Element.successors).getD []).all (fun t => t < s.length) &&
    sources.all (fun u => sources.count u ≤ ends u)

def liveCount (s : Store) : Nat := s.countP (fun e => !e.removed)

end Store

end HeapAbstraction
