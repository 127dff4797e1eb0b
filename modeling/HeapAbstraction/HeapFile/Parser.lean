import HeapAbstraction.HeapFile.Token
import HeapAbstraction.HeapFile.Tree
import HeapAbstraction.HeapFile.Rank
import HeapAbstraction.Text.Quoted

namespace HeapAbstraction.HeapFile

open Text (quoted)

inductive SyntaxError where
  | invalidText (position : Position) (rest : Bytes)
  | unexpected (position : Position) (token : Bytes) (expected : Bytes)
  | badRank (digits : Bytes) (error : RankError)
deriving DecidableEq, Repr

namespace SyntaxError

def positioned (p : Position) (text : Bytes) : Bytes :=
  Bytes.ofNat p.line ++ ":" ++ Bytes.ofNat p.column ++ ": " ++ text

def excerpt (text : Bytes) : Bytes :=
  let cs := (Text.pieces text).map Text.Piece.spelling
  if 16 < cs.length then (cs.take 16).flatten ++ "..." else cs.flatten

def expectation (expected : Bytes) : Bytes :=
  if expected.isEmpty then [] else " (expected " ++ expected ++ ")"

def message : SyntaxError → Bytes
  | .invalidText p rest => positioned p ("invalid input text " ++ quoted (excerpt rest))
  | .unexpected p token expected => positioned p ("unexpected token " ++ quoted token ++ expectation expected)
  | .badRank digits .badDigit =>
      "NonterminalDecl.Rank: strconv.ParseInt: parsing " ++ quoted digits ++ ": invalid syntax"
  | .badRank digits .outOfRange =>
      "NonterminalDecl.Rank: strconv.ParseInt: parsing " ++ quoted digits ++ ": value out of range"

end SyntaxError

inductive Attempt (α : Type) where
  | done (value : α) (rest : List Token)
  | absent (error : Option SyntaxError)
  | broken (error : SyntaxError)

def unexpected (finish : Position) (ts : List Token) (expected : Bytes) : SyntaxError :=
  match ts with
  | t :: _ => .unexpected t.position t.lexeme.text expected
  | [] => .unexpected finish "<EOF>" expected

def moreNames : List Token → List Bytes × List Token
  | ⟨.comma, _⟩ :: ⟨.ident x, _⟩ :: ts =>
      let (xs, rest) := moreNames ts
      (x :: xs, rest)
  | ts => ([], ts)

def parseNodes (finish : Position) : List Token → Attempt Statement
  | ⟨.ident k, _⟩ :: ⟨.ident x, _⟩ :: ts =>
      if k = Bytes.ofString "nodes" then
        let (xs, rest) := moreNames ts
        match rest with
        | ⟨.colon, _⟩ :: ⟨.ident type, _⟩ :: rest => .done (.nodes (x :: xs) type) rest
        | ⟨.colon, _⟩ :: rest => .broken (unexpected finish rest "<ident>")
        | _ => .broken (unexpected finish rest "\":\" <ident>")
      else .absent none
  | _ => .absent none

def parseExt : List Token → Attempt Statement
  | ⟨.ident k, _⟩ :: ⟨.ident x, _⟩ :: ts =>
      if k = Bytes.ofString "ext" then
        let (xs, rest) := moreNames ts
        .done (.ext (x :: xs)) rest
      else .absent none
  | _ => .absent none

def parseElementTail (finish : Position) (name : Bytes) : List Token → Attempt Statement
  | ⟨.dot, _⟩ :: ⟨.ident selector, _⟩ :: ts =>
      match ts with
      | ⟨.arrow, _⟩ :: ⟨.ident target, _⟩ :: rest => .done (.selector name selector target) rest
      | ⟨.arrow, _⟩ :: rest => .broken (unexpected finish rest "<ident>")
      | _ => .broken (unexpected finish ts "\"->\" <ident>")
  | ⟨.arrow, _⟩ :: ⟨.ident target, _⟩ :: rest => .done (.variable name target) rest
  | ⟨.lparen, _⟩ :: ⟨.rparen, _⟩ :: rest => .done (.hyperedge name []) rest
  | ⟨.lparen, _⟩ :: ⟨.ident x, _⟩ :: ts =>
      let (xs, rest) := moreNames ts
      match rest with
      | ⟨.rparen, _⟩ :: rest => .done (.hyperedge name (x :: xs)) rest
      | _ => .broken (unexpected finish rest "\")\"")
  | _ => .absent none

def parseElement (finish : Position) : List Token → Attempt Statement
  | ⟨.ident x, _⟩ :: ts => parseElementTail finish x ts
  | ⟨.int x, _⟩ :: ts => parseElementTail finish x ts
  | _ => .absent none

def parseStatement (finish : Position) (ts : List Token) : Attempt Statement :=
  match parseNodes finish ts with
  | .absent _ =>
      match parseExt ts with
      | .absent _ => parseElement finish ts
      | found => found
  | found => found

def parseStatements (finish : Position) : Nat → List Token → Except SyntaxError (List Statement × List Token)
  | 0, ts => .ok ([], ts)
  | n + 1, ts =>
      match parseStatement finish ts with
      | .done s rest => do
          let (ss, rest) ← parseStatements finish n rest
          return (s :: ss, rest)
      | .absent _ => .ok ([], ts)
      | .broken e => .error e

def parseBody (finish : Position) (ts : List Token) : Except SyntaxError (List Statement × List Token) := do
  let (body, rest) ← parseStatements finish ts.length ts
  match rest with
  | ⟨.rbrace, _⟩ :: rest => return (body, rest)
  | _ => .error (unexpected finish rest "\"\x7d\"")

def Attempt.ofBody {α : Type} (f : List Statement → α) :
    Except SyntaxError (List Statement × List Token) → Attempt α
  | .ok (body, rest) => .done (f body) rest
  | .error e => .broken e

def parseNonterminal (finish : Position) : List Token → Attempt Declaration
  | ⟨.ident label, _⟩ :: ts =>
      match ts with
      | ⟨.slash, _⟩ :: ⟨.int digits, _⟩ :: rest =>
          match readRank digits with
          | .ok rank => .done (.nonterminal label rank) rest
          | .error e => .broken (.badRank digits e)
      | ⟨.slash, _⟩ :: rest => .broken (unexpected finish rest "<int>")
      | _ => .broken (unexpected finish ts "\"/\" <int>")
  | ts => .absent (some (unexpected finish ts "<ident> \"/\" <int>"))

def parseRule (finish : Position) : List Token → Attempt Declaration
  | ⟨.ident label, _⟩ :: ts =>
      match ts with
      | ⟨.lbrace, _⟩ :: rest => .ofBody (.rule label) (parseBody finish rest)
      | _ => .broken (unexpected finish ts "\"\x7b\" Stmt* \"\x7d\"")
  | ts => .absent (some (unexpected finish ts "<ident> \"\x7b\" Stmt* \"\x7d\""))

def parseHeapBody (finish : Position) : List Token → Attempt Declaration
  | ⟨.lbrace, _⟩ :: rest => .ofBody .heap (parseBody finish rest)
  | ts => .absent (some (unexpected finish ts "\"\x7b\" Stmt* \"\x7d\""))

def parseDeclaration (finish : Position) : List Token → Attempt Declaration
  | ⟨.ident k, _⟩ :: ts =>
      if k = Bytes.ofString "nonterminal" then parseNonterminal finish ts
      else if k = Bytes.ofString "rule" then parseRule finish ts
      else if k = Bytes.ofString "heap" then parseHeapBody finish ts
      else .absent none
  | _ => .absent none

def parseDeclarations (finish : Position) : Nat → List Token → Except SyntaxError (List Declaration)
  | 0, ts => if ts.isEmpty then .ok [] else .error (unexpected finish ts [])
  | n + 1, ts =>
      match parseDeclaration finish ts with
      | .done d rest => do
          let ds ← parseDeclarations finish n rest
          return d :: ds
      | .absent error =>
          if ts.isEmpty then .ok [] else .error (error.getD (unexpected finish ts []))
      | .broken e => .error e

def parseTokens (t : Tokens) : Except SyntaxError (List Declaration) :=
  parseDeclarations t.finish t.tokens.length t.tokens

def parse (source : Bytes) : Except SyntaxError (List Declaration) :=
  match tokenize source with
  | .ok t => parseTokens t
  | .error (p, rest) => .error (.invalidText p rest)

end HeapAbstraction.HeapFile
