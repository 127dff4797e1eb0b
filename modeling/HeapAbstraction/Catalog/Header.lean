import HeapAbstraction.Encoding.Varint

namespace HeapAbstraction

structure Header where
  major : Nat := 0
  minor : Nat := 0
  count : Nat := 0
deriving DecidableEq, Repr

namespace Header

def initial : Header := { major := 2024, minor := 1 }

def isCompatible (h : Header) : Bool := h.major == initial.major && h.minor == initial.minor

def write (h : Header) : Bytes := Varint.write h.major ++ Varint.write h.minor ++ Varint.write h.count

def readNumbers : Nat → Bytes → List Nat × Bool
  | 0, _ => ([], true)
  | n + 1, bs =>
      match Varint.read bs with
      | .ok (v, rest) =>
          let (vs, complete) := readNumbers n rest
          (v :: vs, complete)
      | .error (.truncated bits) => ([bits], false)
      | .error _ => ([], false)

def read (bs : Bytes) : Header × Bool :=
  let (vs, complete) := readNumbers 3 bs
  (⟨vs.getD 0 0, vs.getD 1 0, vs.getD 2 0⟩, complete)

end Header

end HeapAbstraction
