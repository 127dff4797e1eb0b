import HeapAbstraction.Text.Utf8
import HeapAbstraction.Text.Printable

namespace HeapAbstraction.Text

def hexDigit (n : Nat) : UInt8 := if n < 10 then UInt8.ofNat (48 + n) else UInt8.ofNat (87 + n)

def hexDigits : Nat → Nat → Bytes
  | 0, _ => []
  | width + 1, n => hexDigits width (n / 16) ++ [hexDigit (n % 16)]

def escapeControl (code : Nat) : Option Bytes :=
  match code with
  | 7 => some "\\a"
  | 8 => some "\\b"
  | 9 => some "\\t"
  | 10 => some "\\n"
  | 11 => some "\\v"
  | 12 => some "\\f"
  | 13 => some "\\r"
  | _ => none

def Piece.escaped : Piece → Bytes
  | .stray b => "\\x" ++ hexDigits 2 b.toNat
  | .scalar code spelling =>
      if code = 34 || code = 92 then (92 : UInt8) :: spelling
      else if isPrintable code then spelling
      else match escapeControl code with
        | some s => s
        | none =>
            if code < 32 || code = 127 then "\\x" ++ hexDigits 2 code
            else if code < 0x10000 then "\\u" ++ hexDigits 4 code
            else "\\U" ++ hexDigits 8 code

def quoted (text : Bytes) : Bytes := "\"" ++ (pieces text).flatMap Piece.escaped ++ "\""

end HeapAbstraction.Text
