import HeapAbstraction.Heap.Edit

namespace HeapAbstraction

namespace Store

def movers (s : Store) (n : Nat) : List Nat :=
  ((List.range s.length).filter (fun v => n ≤ v && (s[v]?).any (fun e => !e.removed))).reverse

def holes (s : Store) (n : Nat) : List Nat :=
  (List.range n).filter (fun v => (s[v]?).any (fun e => e.removed))

def relocation (s : Store) : List Nat :=
  let n := s.liveCount
  let moves := (s.movers n).zip (s.holes n)
  s.zipIdx.map (fun p => if p.1.removed then danglingSlot else (moves.lookup p.2).getD p.2)

def origins (s : Store) : List Nat :=
  let n := s.liveCount
  let moves := (s.holes n).zip (s.movers n)
  (List.range n).map (fun v => (moves.lookup v).getD v)

end Store

namespace Element

def relocate (f : Nat → Nat) (e : Element) : Element :=
  { e with
    arcs := e.arcs.map (fun a => { a with target := f a.target })
    preds := e.preds.map f }

end Element

namespace Heap

def closed (h : Heap) : Bool :=
  h.elements.all (fun e => e.removed ||
    (e.arcs.all (fun a => a.target < h.elements.length) && e.preds.all (fun v => v < h.elements.length)))

def compact (h : Heap) : Heap :=
  let table := h.elements.relocation
  let move (v : Nat) := table[v]?.getD danglingSlot
  { h with elements := h.elements.origins.map (fun v => (h.elements[v]?.getD default).relocate move) }

def build (h : Heap) : Except HeapError Heap :=
  if h.elements.any (fun e => e.removed) then
    if h.closed then .ok h.compact else .error .fault
  else .ok h

end Heap

end HeapAbstraction
