import HeapAbstraction.Bytes

namespace HeapAbstraction

structure Decimal where
  negative : Bool := false
  mantissa : Nat := 0
  exponent : Int := 0
deriving DecidableEq, Repr

namespace Decimal

def roundDiv (num den : Nat) : Nat :=
  let q := num / den
  let twice := 2 * (num % den)
  if den < twice || (twice == den && q % 2 == 1) then q + 1 else q

-- the whole part of `num / den` after it was rounded to 53 significant bits, for quotients from one half on; a
-- smaller quotient has none
def wholePart (num den : Nat) : Nat :=
  if 2 * num < den then 0
  else
    -- `bits` is the length of the whole part, so the last of 53 bits stands for `2 ^ (bits - 53)`
    let bits := if num < den then 0 else (num / den).log2 + 1
    if bits ≤ 53 then roundDiv (num <<< (53 - bits)) den >>> (53 - bits)
    else roundDiv num (den <<< (bits - 53)) <<< (bits - 53)

def doubleWhole? (d : Decimal) : Option Nat :=
  let digits : Int := (Nat.toDigits 10 d.mantissa).length
  if d.mantissa = 0 || digits + d.exponent < 0 then some 0
  else if 310 < digits + d.exponent then none
  else
    let whole := match d.exponent with
      | .ofNat e => wholePart (d.mantissa * Nat.pow 10 e) 1
      | .negSucc e => wholePart d.mantissa (Nat.pow 10 (e + 1))
    if whole < 1 <<< 1024 then some whole else none

def trunc? (d : Decimal) : Option Int :=
  d.doubleWhole?.map (fun n => if d.negative then -(n : Int) else n)

def ofDigits (digits : Bytes) : Nat := digits.foldl (fun n b => n * 10 + (b.toNat - 48)) 0

def ofParts (negative : Bool) (whole fraction : Bytes) (exponent : Int) : Decimal :=
  ⟨negative, ofDigits (whole ++ fraction), exponent - fraction.length⟩

end Decimal

end HeapAbstraction
