import HeapAbstraction.Fingerprint.Basic
import HeapAbstraction.Heap.Isomorphism

namespace HeapAbstraction

structure HeapSet where
  buckets : List (UInt64 × List Heap) := []
  items : List Heap := []

namespace HeapSet

def empty : HeapSet := {}

def bucket (s : HeapSet) (key : UInt64) : List Heap := (s.buckets.lookup key).getD []

def anyEqual (h : Heap) : List Heap → Counted Bool
  | [] => return false
  | a :: rest => do
      if ← a.compare h then return true else anyEqual h rest

def putBucket (key : UInt64) (bucket : List Heap) : List (UInt64 × List Heap) → List (UInt64 × List Heap)
  | [] => [(key, bucket)]
  | (k, b) :: rest => if k = key then (key, bucket) :: rest else (k, b) :: putBucket key bucket rest

def insert (s : HeapSet) (h : Heap) : Counted (Bool × HeapSet) := do
  let key := h.fingerprint
  let bucket := s.bucket key
  if ← anyEqual h bucket then return (false, s)
  else return (true, { buckets := putBucket key (bucket ++ [h]) s.buckets, items := s.items ++ [h] })

def size (s : HeapSet) : Nat := s.items.length

end HeapSet

end HeapAbstraction
