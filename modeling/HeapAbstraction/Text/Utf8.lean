import HeapAbstraction.Bytes

namespace HeapAbstraction.Text

inductive Piece where
  | scalar (code : Nat) (spelling : Bytes)
  | stray (byte : UInt8)
deriving DecidableEq, Repr

def isContinuation (b : UInt8) : Bool := 0x80 ≤ b && b ≤ 0xBF

def low6 (b : UInt8) : Nat := b.toNat % 64

def leadingScalar : Bytes → Option (Nat × Nat)
  | a :: rest =>
      if a < 0x80 then some (a.toNat, 1)
      else if 0xC2 ≤ a && a ≤ 0xDF then
        match rest with
        | b :: _ => if isContinuation b then some ((a.toNat - 0xC0) * 64 + low6 b, 2) else none
        | _ => none
      else if 0xE0 ≤ a && a ≤ 0xEF then
        match rest with
        | b :: c :: _ =>
            let lo : UInt8 := if a = 0xE0 then 0xA0 else 0x80
            let hi : UInt8 := if a = 0xED then 0x9F else 0xBF
            if lo ≤ b && b ≤ hi && isContinuation c then
              some (((a.toNat - 0xE0) * 64 + low6 b) * 64 + low6 c, 3)
            else none
        | _ => none
      else if 0xF0 ≤ a && a ≤ 0xF4 then
        match rest with
        | b :: c :: d :: _ =>
            let lo : UInt8 := if a = 0xF0 then 0x90 else 0x80
            let hi : UInt8 := if a = 0xF4 then 0x8F else 0xBF
            if lo ≤ b && b ≤ hi && isContinuation c && isContinuation d then
              some ((((a.toNat - 0xF0) * 64 + low6 b) * 64 + low6 c) * 64 + low6 d, 4)
            else none
        | _ => none
      else none
  | [] => none

def piecesFrom : Nat → Bytes → List Piece
  | _, [] => []
  | skip + 1, _ :: rest => piecesFrom skip rest
  | 0, a :: rest =>
      match leadingScalar (a :: rest) with
      | some (code, width) => .scalar code ((a :: rest).take width) :: piecesFrom (width - 1) rest
      | none => .stray a :: piecesFrom 0 rest

def pieces (text : Bytes) : List Piece := piecesFrom 0 text

def isValidUtf8 (text : Bytes) : Bool :=
  (pieces text).all fun
    | .scalar _ _ => true
    | .stray _ => false

def Piece.spelling : Piece → Bytes
  | .scalar _ s => s
  | .stray _ => [0xEF, 0xBF, 0xBD]

def charCount (text : Bytes) : Nat := (pieces text).length

end HeapAbstraction.Text
