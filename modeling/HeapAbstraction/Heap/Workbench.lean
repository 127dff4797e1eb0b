import HeapAbstraction.Heap.Draft

namespace HeapAbstraction

structure Workbench where
  drafts : List Draft := []
  buckets : List (UInt64 × List Nat) := []
  collected : Nat := 0

namespace Workbench

def add (w : Workbench) (h : Heap) : Workbench := { w with drafts := w.drafts ++ [⟨h, .idle⟩] }

def set (w : Workbench) (number : Nat) (d : Draft) : Workbench := { w with drafts := w.drafts.set number d }

-- the builder of a heap that is to go in the place of its own hyperedge is active by then
def replaceEdge (w : Workbench) (number : Nat) (edge : Int) (replacement : Nat) : Workbench × Except HeapError Unit :=
  match w.drafts[number]?, w.drafts[replacement]? with
  | some d, some r =>
      let (d', result) := d.replaceEdge edge (if replacement = number && d.phase != .built then d.begin else r)
      (w.set number d', result)
  | _, _ => (w, .error .fault)

def equals (w : Workbench) (a b : Nat) : Except HeapError Bool :=
  if a = b then .ok true
  else match w.drafts[a]?, w.drafts[b]? with
    | some x, some y => x.equals y
    | _, _ => .error .fault

def anyEqual (w : Workbench) (number : Nat) : List Nat → Except HeapError Bool
  | [] => .ok false
  | a :: rest => do
      if ← w.equals a number then return true else w.anyEqual number rest

def collect (w : Workbench) (number : Nat) : Except HeapError (Bool × Workbench) :=
  match w.drafts[number]? with
  | none => .error .fault
  | some d => do
      let key ← d.fingerprint
      let bucket := (w.buckets.lookup key).getD []
      if ← w.anyEqual number bucket then return (false, w)
      else return (true, { w with
        buckets := (key, bucket ++ [number]) :: w.buckets
        collected := w.collected + 1 })

end Workbench

end HeapAbstraction
