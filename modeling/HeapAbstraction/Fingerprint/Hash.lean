import HeapAbstraction.Bytes

namespace HeapAbstraction.Hash

def prime1 : UInt64 := 0x9E3779B185EBCA87

def prime2 : UInt64 := 0xC2B2AE3D27D4EB4F

def prime3 : UInt64 := 0x165667B19E3779F9

def prime4 : UInt64 := 0x85EBCA77C2B2AE63

def prime5 : UInt64 := 0x27D4EB2F165667C5

def rotateLeft (x : UInt64) (n : UInt64) : UInt64 := (x <<< n) ||| (x >>> (64 - n))

def word (width : Nat) (bs : Bytes) : UInt64 :=
  (bs.take width).foldr (fun b w => w * 256 + b.toUInt64) 0

def round (acc input : UInt64) : UInt64 := rotateLeft (acc + input * prime2) 31 * prime1

structure Lanes where
  a : UInt64 := prime1 + prime2
  b : UInt64 := prime2
  c : UInt64 := 0
  d : UInt64 := 0 - prime1

def Lanes.absorb : Nat → Lanes → Bytes → Lanes
  | 0, l, _ => l
  | n + 1, l, bs =>
      let next : Lanes :=
        ⟨round l.a (word 8 bs), round l.b (word 8 (bs.drop 8)), round l.c (word 8 (bs.drop 16)),
          round l.d (word 8 (bs.drop 24))⟩
      absorb n next (bs.drop 32)

def merge (acc lane : UInt64) : UInt64 := (acc ^^^ round 0 lane) * prime1 + prime4

def Lanes.converge (l : Lanes) : UInt64 :=
  let acc := rotateLeft l.a 1 + rotateLeft l.b 7 + rotateLeft l.c 12 + rotateLeft l.d 18
  merge (merge (merge (merge acc l.a) l.b) l.c) l.d

def absorbWords : Nat → UInt64 → Bytes → UInt64
  | 0, acc, _ => acc
  | n + 1, acc, bs =>
      absorbWords n (rotateLeft (acc ^^^ round 0 (word 8 bs)) 27 * prime1 + prime4) (bs.drop 8)

def absorbHalf (acc : UInt64) (bs : Bytes) : UInt64 :=
  if 4 ≤ bs.length then rotateLeft (acc ^^^ (word 4 bs * prime1)) 23 * prime2 + prime3 else acc

def absorbBytes (acc : UInt64) (bs : Bytes) : UInt64 :=
  bs.foldl (fun acc b => rotateLeft (acc ^^^ (b.toUInt64 * prime5)) 11 * prime1) acc

def avalanche (acc : UInt64) : UInt64 :=
  let acc := (acc ^^^ (acc >>> 33)) * prime2
  let acc := (acc ^^^ (acc >>> 29)) * prime3
  acc ^^^ (acc >>> 32)

def xxh64 (bs : Bytes) : UInt64 :=
  let stripes := bs.length / 32
  let acc := if stripes = 0 then prime5 else (Lanes.absorb stripes {} bs).converge
  let acc := acc + UInt64.ofNat bs.length
  let rest := bs.drop (stripes * 32)
  let words := rest.length / 8
  let tail := rest.drop (words * 8)
  let acc := absorbHalf (absorbWords words acc rest) tail
  avalanche (absorbBytes acc (if 4 ≤ tail.length then tail.drop 4 else tail))

end HeapAbstraction.Hash
