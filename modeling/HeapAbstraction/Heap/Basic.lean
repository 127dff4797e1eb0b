import HeapAbstraction.Heap.Store
import HeapAbstraction.Heap.Error

namespace HeapAbstraction

structure Heap where
  elements : Store := []
  nextId : Nat := 0
deriving DecidableEq, Repr

namespace Heap

def empty : Heap := {}

instance : Inhabited Heap := ⟨empty⟩

def slot? (h : Heap) : Int → Option Nat
  | .ofNat id => h.elements.findIdx? (fun e => !e.removed && e.id == id)
  | .negSucc _ => none

def element? (h : Heap) (id : Int) : Option Element := (h.slot? id).bind (fun v => h.elements[v]?)

def find (h : Heap) (id : Int) (kind : Kind) : Except HeapError (Nat × Element) :=
  match h.slot? id with
  | none => .error (.unknownId id)
  | some v =>
      match h.elements[v]? with
      | none => .error .fault
      | some e => if e.kind = kind then .ok (v, e) else .error (.wrongKind id e.kind kind)

def idAt (h : Heap) (v : Nat) : Except HeapError Nat :=
  match h.elements[v]? with
  | some e => .ok e.id
  | none => .error .fault

def externalCount (h : Heap) : Nat := h.elements.countP (fun e => e.ordinal.isSome)

def externalSlot? (h : Heap) (i : Nat) : Option Nat := h.elements.findIdx? (fun e => e.ordinal == some i)

def externals (h : Heap) : List Nat := (List.range h.externalCount).filterMap h.externalSlot?

def variableSlot? (h : Heap) (name : Bytes) : Option Nat :=
  h.elements.findIdx? (fun e => !e.removed && e.label == .variable name)

def tentacleSlots (e : Element) : Except HeapError (List Nat) :=
  let ends := e.arcs.flatMap (fun a => a.labels.map (fun l => (l, a.target)))
  let fits : EdgeLabel → Bool
    | .selector _ => false
    | .tentacle i => (i : Int) < e.label.rank
  if e.label.rank < 0 || !ends.all (fun p => fits p.1) then .error .fault
  else .ok ((List.range e.label.rank.toNat).map (fun i => (ends.reverse.lookup (.tentacle i)).getD 0))

end Heap

end HeapAbstraction
