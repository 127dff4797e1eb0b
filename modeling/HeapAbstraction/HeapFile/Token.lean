import HeapAbstraction.Text.Utf8

namespace HeapAbstraction.HeapFile

inductive Lexeme where
  | arrow
  | ident (name : Bytes)
  | int (digits : Bytes)
  | lbrace
  | rbrace
  | lparen
  | rparen
  | colon
  | dot
  | comma
  | slash
deriving DecidableEq, Repr

def Lexeme.text : Lexeme → Bytes
  | .arrow => "->"
  | .ident x => x
  | .int x => x
  | .lbrace => "\x7b"
  | .rbrace => "\x7d"
  | .lparen => "("
  | .rparen => ")"
  | .colon => ":"
  | .dot => "."
  | .comma => ","
  | .slash => "/"

structure Position where
  line : Nat := 1
  column : Nat := 1
deriving DecidableEq, Repr

structure Token where
  lexeme : Lexeme
  position : Position
deriving DecidableEq, Repr

def Position.after (p : Position) (text : Bytes) : Position :=
  let lines := text.count 10
  if lines = 0 then { p with column := p.column + Text.charCount text }
  else
    { line := p.line + lines
      column := 1 + Text.charCount (text.reverse.takeWhile (· != 10)).reverse }

def isNameByte (b : UInt8) : Bool := Bytes.isLetter b || Bytes.isDigit b

def isBlank (b : UInt8) : Bool := b == 32 || b == 9 || b == 13 || b == 10

def mark? (b : UInt8) : Option Lexeme :=
  match b with
  | 123 => some .lbrace
  | 125 => some .rbrace
  | 40 => some .lparen
  | 41 => some .rparen
  | 58 => some .colon
  | 46 => some .dot
  | 44 => some .comma
  | 47 => some .slash
  | _ => none

structure Munch where
  lexeme : Option Lexeme
  text : Bytes
  rest : Bytes
deriving DecidableEq, Repr

def munch? : Bytes → Option Munch
  | [] => none
  | 35 :: s => some ⟨none, 35 :: s.takeWhile (· != 10), s.dropWhile (· != 10)⟩
  | 45 :: 62 :: s => some ⟨some .arrow, [45, 62], s⟩
  | b :: s =>
      if Bytes.isLetter b then
        let name := b :: s.takeWhile isNameByte
        some ⟨some (.ident name), name, s.dropWhile isNameByte⟩
      else if Bytes.isDigit b then
        let digits := b :: s.takeWhile Bytes.isDigit
        some ⟨some (.int digits), digits, s.dropWhile Bytes.isDigit⟩
      else match mark? b with
        | some m => some ⟨some m, [b], s⟩
        | none => if isBlank b then some ⟨none, b :: s.takeWhile isBlank, s.dropWhile isBlank⟩ else none

structure Tokens where
  tokens : List Token
  finish : Position
deriving DecidableEq, Repr

-- splits a text; the first argument bounds the number of lexemes, and the length of the text is enough. Fails where
-- no rule matches, with the rest of the text
def tokensFrom : Nat → Position → Bytes → Except (Position × Bytes) Tokens
  | _, p, [] => .ok ⟨[], p⟩
  | 0, p, s => .error (p, s)
  | n + 1, p, s =>
      match munch? s with
      | none => .error (p, s)
      | some m => do
          let later ← tokensFrom n (p.after m.text) m.rest
          match m.lexeme with
          | some l => return { later with tokens := ⟨l, p⟩ :: later.tokens }
          | none => return later

def tokenize (s : Bytes) : Except (Position × Bytes) Tokens := tokensFrom s.length {} s

end HeapAbstraction.HeapFile
