import HeapAbstraction.Fingerprint.Hash
import HeapAbstraction.Heap.Query

namespace HeapAbstraction.Heap

section

variable (hash : Bytes → UInt64)

def word32 (x : Int) : Bytes := Bytes.littleEndian 4 (x % 0x100000000).toNat

def word64 (x : UInt64) : Bytes := Bytes.littleEndian 8 x.toNat

def initialColour (e : Element) : UInt64 :=
  let ordinal : Int := match e.ordinal with
    | some i => i
    | none => -1
  hash (UInt8.ofNat e.kind.code :: e.label.name ++ word32 e.label.rank ++ word32 ordinal)

def labelHash (direction : UInt8) (colour : UInt64) (l : EdgeLabel) : UInt64 :=
  let ordinal : Int := match l with
    | .selector _ => -1
    | .tentacle i => i
  hash (direction :: l.name ++ word32 ordinal ++ word64 colour)

def arcHash (direction : UInt8) (colour : UInt64) (labels : List EdgeLabel) : UInt64 :=
  (labels.map (labelHash hash direction colour)).foldr (· + ·) 0

def colourAt (colours : Array UInt64) (v : Nat) : UInt64 := (colours[v]?).getD 0

def recolour (h : Heap) (colours : Array UInt64) (e : Element) (v : Nat) : UInt64 :=
  let out := (e.arcs.map (fun a => arcHash hash 62 (colourAt colours a.target) a.labels)).foldr (· + ·) 0
  let into := (e.preds.map (fun u =>
    let arcs := ((h.elements[u]?).map Element.arcs).getD []
    ((arcs.filter (fun a => a.target == v)).map (fun a => arcHash hash 60 (colourAt colours u) a.labels)).foldr
      (· + ·) 0)).foldr (· + ·) 0
  hash (word64 (colourAt colours v) ++ word64 (out + into))

def colourRounds (h : Heap) : Nat → List UInt64 → List UInt64
  | 0, colours => colours
  | n + 1, colours =>
      let table := colours.toArray
      colourRounds h n (h.elements.zipIdx.map (fun p => recolour hash h table p.1 p.2))

def fingerprintWith (h : Heap) : UInt64 :=
  let colours := colourRounds hash h 3 (h.elements.map (initialColour hash))
  let sorted := sortIds (colours.map UInt64.toNat)
  hash (Bytes.littleEndian 8 h.elements.length ++ sorted.flatMap (Bytes.littleEndian 8))

end

def fingerprint (h : Heap) : UInt64 := h.fingerprintWith Hash.xxh64

end HeapAbstraction.Heap
