import HeapAbstraction.Number.Decimal

namespace HeapAbstraction

namespace Scalar

inductive Meaning where
  | null
  | truth (b : Bool)
  | whole (n : Int)
  | fraction (cut : Option Int)
  | date
  | text (t : Bytes)
deriving DecidableEq, Repr

def nullWords : List Bytes := ["", "~", "null", "Null", "NULL"]

def trueWords : List Bytes := ["true", "True", "TRUE"]

def falseWords : List Bytes := ["false", "False", "FALSE"]

def fractionWords : List Bytes :=
  [".nan", ".NaN", ".NAN", ".inf", ".Inf", ".INF", "+.inf", "+.Inf", "+.INF", "-.inf", "-.Inf", "-.INF"]

def yesWords : List Bytes := ["y", "Y", "yes", "Yes", "YES", "on", "On", "ON"]

def noWords : List Bytes := ["n", "N", "no", "No", "NO", "off", "Off", "OFF"]

def splitSign : Bytes → Bool × Bytes
  | 45 :: rest => (true, rest)
  | 43 :: rest => (false, rest)
  | text => (false, text)

def digitValue (b : UInt8) : Nat :=
  if Bytes.isDigit b then b.toNat - 48
  else if 97 ≤ b && b ≤ 122 then b.toNat - 87
  else if 65 ≤ b && b ≤ 90 then b.toNat - 55
  else 36

def ofBase? (base : Nat) (digits : Bytes) : Option Nat :=
  if digits.isEmpty || digits.any (fun b => base ≤ digitValue b) then none
  else some (digits.foldl (fun n b => n * base + digitValue b) 0)

def whole? : Bytes → Option Nat
  | 48 :: 120 :: rest => ofBase? 16 rest
  | 48 :: 88 :: rest => ofBase? 16 rest
  | 48 :: 98 :: rest => ofBase? 2 rest
  | 48 :: 66 :: rest => ofBase? 2 rest
  | 48 :: 111 :: rest => ofBase? 8 rest
  | 48 :: 79 :: rest => ofBase? 8 rest
  | [48] => some 0
  | 48 :: rest => ofBase? 8 rest
  | text => ofBase? 10 text

def exponent? : Bytes → Option Int
  | [] => some 0
  | b :: rest =>
      if b == 101 || b == 69 then
        let (negative, digits) := splitSign rest
        if digits.isEmpty || !digits.all Bytes.isDigit then none
        else
          let e : Int := Decimal.ofDigits digits
          some (if negative then -e else e)
      else none

def decimal? (text : Bytes) : Option Decimal :=
  let (negative, unsigned) := splitSign text
  let whole := unsigned.takeWhile Bytes.isDigit
  let after := unsigned.dropWhile Bytes.isDigit
  match after with
  | 46 :: rest =>
      let fraction := rest.takeWhile Bytes.isDigit
      if whole.isEmpty && fraction.isEmpty then none
      else (exponent? (rest.dropWhile Bytes.isDigit)).map (Decimal.ofParts negative whole fraction)
  | _ =>
      if whole.isEmpty then none
      else (exponent? after).map (Decimal.ofParts negative whole [])

def separated : Bool → Bytes → Bool
  | _, [] => true
  | afterDigit, 95 :: rest => afterDigit && (rest.head?.map Bytes.isDigit).getD false && separated false rest
  | _, b :: rest => separated (Bytes.isDigit b) rest

def withoutUnderscores (text : Bytes) : Bytes := text.filter (· != 95)

def wide? (text : Bytes) : Option Int :=
  let (negative, digits) := splitSign text
  let limit : Nat := if digits.length < text.length then 0x8000000000000000 else 0x10000000000000000
  (whole? digits).bind (fun n =>
    if negative then if n ≤ limit then some (-(n : Int)) else none
    else if n < limit then some (n : Int)
    else none)

def signedInside? (text : Bytes) : Option Int :=
  let number (base : Nat) (rest : Bytes) : Option Int :=
    let (negative, digits) := splitSign rest
    if digits.length = rest.length then none
    else (ofBase? base digits).bind (fun n =>
      if negative then if n ≤ 0x8000000000000000 then some (-(n : Int)) else none
      else if n < 0x8000000000000000 then some (n : Int)
      else none)
  match text with
  | 48 :: 98 :: rest => number 2 rest
  | 48 :: 111 :: rest => number 8 rest
  | _ => none

def number? (text : Bytes) : Option Meaning :=
  match text with
  | [] => none
  | b :: _ =>
      if b == 46 then
        if separated false text then
          (decimal? (withoutUnderscores text)).bind (fun d => d.trunc?.map (fun n => .fraction (some n)))
        else none
      else if Bytes.isDigit b || b == 43 || b == 45 then
        let plain := withoutUnderscores text
        match (wide? plain : Option Int) with
        | some n => some (.whole n)
        | none =>
            match (decimal? plain).bind Decimal.trunc? with
            | some n => some (.fraction (some n))
            | none => (signedInside? plain).map .whole
      else none

def shortNumber? (text : Bytes) : Option (Nat × Bytes) :=
  let digits := (text.take 2).takeWhile Bytes.isDigit
  if digits.isEmpty then none else some (Decimal.ofDigits digits, text.drop digits.length)

def daysIn (year month : Nat) : Nat :=
  if month = 2 then if (year % 4 = 0 && year % 100 != 0) || year % 400 = 0 then 29 else 28
  else if month = 4 || month = 6 || month = 9 || month = 11 then 30
  else 31

def takeByte? (b : UInt8) : Bytes → Option Bytes
  | c :: rest => if c = b then some rest else none
  | [] => none

def isZone : Bytes → Bool
  | [90] => true
  | [s, a, b, 58, c, d] =>
      (s == 43 || s == 45) && [a, b, c, d].all Bytes.isDigit && Decimal.ofDigits [a, b] ≤ 24 &&
        Decimal.ofDigits [c, d] ≤ 60
  | _ => false

def withoutPart : Bytes → Bytes
  | b :: d :: rest =>
      if (b == 46 || b == 44) && Bytes.isDigit d then rest.dropWhile Bytes.isDigit else b :: d :: rest
  | text => text

def isTime (zoned : Bool) (text : Bytes) : Bool :=
  let found : Option (Nat × Nat × Nat × Bytes) := do
    let (hour, text) ← shortNumber? text
    let (minute, text) ← shortNumber? (← takeByte? 58 text)
    let (second, text) ← shortNumber? (← takeByte? 58 text)
    return (hour, minute, second, withoutPart text)
  match found with
  | none => false
  | some (hour, minute, second, rest) =>
      hour < 24 && minute < 60 && second < 60 && if zoned then isZone rest else rest.isEmpty

def isDate (text : Bytes) : Bool :=
  let found : Option (Nat × Nat × Nat × Bytes) := do
    let year := text.takeWhile Bytes.isDigit
    if year.length != 4 then none
    else
      let (month, text) ← shortNumber? (← takeByte? 45 (text.drop 4))
      let (day, text) ← shortNumber? (← takeByte? 45 text)
      return (Decimal.ofDigits year, month, day, text)
  match found with
  | none => false
  | some (year, month, day, rest) =>
      1 ≤ month && month ≤ 12 && 1 ≤ day && day ≤ daysIn year month &&
        match rest with
        | [] => true
        | b :: more =>
            if b == 84 || b == 116 then isTime true more
            else b == 32 && isTime false (more.dropWhile (· == 32))

def ofSpelling (text : Bytes) : Meaning :=
  if nullWords.contains text then .null
  else if trueWords.contains text then .truth true
  else if falseWords.contains text then .truth false
  else if fractionWords.contains text then .fraction none
  else if isDate text then .date
  else (number? text).getD (.text text)

def digit64? (b : UInt8) : Option Nat :=
  if 65 ≤ b && b ≤ 90 then some (b.toNat - 65)
  else if 97 ≤ b && b ≤ 122 then some (b.toNat - 71)
  else if Bytes.isDigit b then some (b.toNat + 4)
  else if b == 43 then some 62
  else if b == 47 then some 63
  else none

def ofBase64Group? : Bytes → Option Bytes
  | [a, b, 61, 61] => do
      let n := (← digit64? a) * 64 + (← digit64? b)
      return [UInt8.ofNat (n / 16)]
  | [a, b, c, 61] => do
      let n := ((← digit64? a) * 64 + (← digit64? b)) * 64 + (← digit64? c)
      return [UInt8.ofNat (n / 1024), UInt8.ofNat (n / 4)]
  | [a, b, c, d] => do
      let n := (((← digit64? a) * 64 + (← digit64? b)) * 64 + (← digit64? c)) * 64 + (← digit64? d)
      return [UInt8.ofNat (n / 65536), UInt8.ofNat (n / 256), UInt8.ofNat n]
  | _ => none

def ofBase64Groups? : Bytes → Option Bytes
  | [] => some []
  | a :: b :: c :: d :: rest => do
      let some bytes := ofBase64Group? [a, b, c, d] | none
      if d == 61 && !rest.isEmpty then none else return bytes ++ (← ofBase64Groups? rest)
  | _ => none

def ofBase64? (text : Bytes) : Option Bytes := ofBase64Groups? (text.filter (fun b => b != 10 && b != 13))

def spelledTags : List Bytes := ["!!null", "!!bool", "!!int", "!!float", "!!timestamp"]

def mergeTag : Bytes := "!!merge"

def mergeWord : Bytes := "<<"

-- the tag of a scalar: without one of its own, that of a bare scalar is told by its spelling, unless it is the word
-- that merges mappings
def tagOf (bare : Bool) (tag text : Bytes) : Bytes :=
  if !tag.isEmpty then tag
  else if !bare then "!!str"
  else if text = mergeWord then mergeTag
  else []

-- what a text stands for by its spelling, if a tag allows it. The whole numbers that only go without a sign are no
-- fractions
def underTag? (tag text : Bytes) : Option Meaning :=
  match ofSpelling text with
  | .null => if tag = "!!null" then some .null else none
  | .truth b => if tag = "!!bool" then some (.truth b) else none
  | .whole n =>
      if tag = "!!int" then some (.whole n)
      else if tag = "!!float" && n < 0x8000000000000000 then some (.fraction (some n))
      else none
  | .fraction n => if tag = "!!float" then some (.fraction n) else none
  | .date => if tag = "!!timestamp" then some .date else none
  | .text _ => none

def meaning? (bare : Bool) (tag text : Bytes) : Option Meaning :=
  let full := tagOf bare tag text
  if full.isEmpty then some (ofSpelling text)
  else if spelledTags.contains full then underTag? full text
  else if full = "!!binary" then (ofBase64? text).map .text
  else some (.text text)

def isTextual (bare : Bool) (tag text : Bytes) : Bool :=
  let full := tagOf bare tag text
  if full.isEmpty then match ofSpelling text with
    | .text _ => true
    | _ => false
  else full = "!!str" || full = mergeTag

namespace Meaning

def toBool? : Meaning → Option Bool
  | .truth b => some b
  | .text t => if yesWords.contains t then some true else if noWords.contains t then some false else none
  | _ => none

def toInt32? (m : Meaning) : Option Int :=
  let n := match m with
    | .whole n => some n
    | .fraction cut => cut
    | _ => none
  n.filter (fun n => -0x80000000 ≤ n && n < 0x80000000)

def spelling (raw : Bytes) : Meaning → Bytes
  | .text t => t
  | _ => raw

end Meaning

end Scalar

end HeapAbstraction
