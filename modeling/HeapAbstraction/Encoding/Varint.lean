import HeapAbstraction.Bytes

namespace HeapAbstraction.Varint

def writeBytes : Nat → Nat → Bytes
  | 0, _ => []
  | k + 1, n =>
      if n < 128 then [UInt8.ofNat n] else UInt8.ofNat (n % 128 + 128) :: writeBytes k (n / 128)

def write (n : Nat) : Bytes := writeBytes 10 (n % 0x10000000000000000)

def writeString (s : Bytes) : Bytes := write s.length ++ s

inductive ReadError where
  | truncated (bits : Nat)
  | overflow
  | badLength (n : Int)
deriving DecidableEq, Repr

def ReadError.message : ReadError → Bytes
  | .truncated _ => "unexpected EOF"
  | .overflow => "proto: integer overflow"
  | .badLength n => "proto: bad byte length " ++ Bytes.ofInt n

def readBytes : Nat → Nat → Nat → Bytes → Except ReadError (Nat × Bytes)
  | 0, _, _, _ => .error .overflow
  | _ + 1, _, acc, [] => .error (.truncated acc)
  | k + 1, shift, acc, b :: rest =>
      let acc := (acc + (b.toNat % 128) <<< shift) % 0x10000000000000000
      if b < 128 then .ok (acc, rest) else readBytes k (shift + 7) acc rest

def read (bs : Bytes) : Except ReadError (Nat × Bytes) := readBytes 10 0 0 bs

def readString (bs : Bytes) : Except ReadError (Bytes × Bytes) := do
  let (n, rest) ← read bs
  if 0x8000000000000000 ≤ n then .error (.badLength ((n : Int) - 0x10000000000000000))
  else if rest.length < n then .error (.truncated 0)
  else return (rest.take n, rest.drop n)

end HeapAbstraction.Varint
