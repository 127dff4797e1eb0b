import HeapAbstraction.Bytes

namespace HeapAbstraction.HeapFile

inductive RankError where
  | badDigit
  | outOfRange
deriving DecidableEq, Repr

def readDigits (base : Nat) : Nat → Bytes → Except RankError Nat
  | n, [] => .ok n
  | n, b :: rest =>
      let d := b.toNat - 48
      if base ≤ d then .error .badDigit
      else if 0x100000000 ≤ n * base + d then .error .outOfRange
      else readDigits base (n * base + d) rest

def readRank (digits : Bytes) : Except RankError Int := do
  let n ← match digits with
    | 48 :: rest => readDigits 8 0 rest
    | _ => readDigits 10 0 digits
  if 0x80000000 ≤ n then .error .outOfRange else return n

end HeapAbstraction.HeapFile
