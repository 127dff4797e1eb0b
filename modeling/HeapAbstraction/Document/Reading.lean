import HeapAbstraction.Document.Node
import HeapAbstraction.Document.TokenStream
import HeapAbstraction.Text.Utf8

namespace HeapAbstraction.Document

structure Reading where
  tokens : TokenStream := {}
  handles : List (List Char × Bytes) := [(['!'], "!"), (['!', '!'], "!!")]
  anchors : List (List Char × Nat) := []
  named : List Node := []
  uses : Nat := 0
deriving Repr

abbrev Reader := StateT Reading Option

namespace Reader

def peek : Reader Token := fun r => do
  let tokens ← if r.tokens.isReady then some r.tokens
    else TokenStream.fill (r.tokens.cursor.size + 8) r.tokens
  return (← tokens.next?, { r with tokens := tokens })

def pass : Reader Unit := fun r => some ((), { r with tokens := r.tokens.take })

def malformed {α : Type} : Reader α := fun _ => none

def passIf (t : Token) : Reader Bool := do
  if (← peek) = t then
    pass
    return true
  else return false

def textOf (chars : List Char) : Bytes := Bytes.ofString (String.ofList chars)

def openAnchor (name : Option (List Char)) : Reader (Option Nat) :=
  match name with
  | none => return none
  | some n => do
      let number := (← get).named.length
      modify (fun r => { r with anchors := (n, number) :: r.anchors, named := r.named ++ [.empty] })
      return some number

def closeAnchor (number : Option Nat) (node : Node) : Reader Unit :=
  match number with
  | none => return ()
  | some k => modify (fun r => { r with named := r.named.set k node })

def aliasNode (name : List Char) : Reader Node := do
  let r ← get
  match r.anchors.lookup name with
  | none => malformed
  | some number =>
      set { r with uses := r.uses + 1 }
      return .alias (textOf name) r.uses number

def standardTags : Bytes := "tag:yaml.org,2002:"

def shortened (tag : Bytes) : Bytes :=
  if tag = "!" then []
  else if standardTags.isPrefixOf tag then "!!" ++ tag.drop standardTags.length
  else tag

def tagOf (handle : List Char) (rest : Bytes) : Reader Bytes := do
  if handle.isEmpty then return shortened rest
  else match (← get).handles.lookup handle with
    | none => malformed
    | some meaning => return shortened (meaning ++ rest)

structure Marks where
  anchor : Option (List Char) := none
  tag : Option Bytes := none
deriving DecidableEq, Repr

def readMark (m : Marks) : Reader Marks := do
  match ← peek with
  | .anchor name =>
      if m.anchor.isSome then return m
      else
        pass
        return { m with anchor := some name }
  | .tag handle rest =>
      if m.tag.isSome then return m
      else
        pass
        return { m with tag := some (← tagOf handle rest) }
  | _ => return m

def readMarks : Reader Marks := do
  readMark (← readMark {})

def endsEntry : Token → Bool
  | .key => true
  | .value => true
  | .blockEnd => true
  | _ => false

def readScalar (m : Marks) (bare : Bool) (text : List Char) : Reader Node := do
  let node := Node.scalar bare (m.tag.getD []) (textOf text)
  let number ← openAnchor m.anchor
  closeAnchor number node
  return node

def readCollection (m : Marks) (contents : Reader Node) : Reader Node := do
  let number ← openAnchor m.anchor
  let node ← contents
  closeAnchor number node
  return node

mutual

def readNode : Nat → Bool → Bool → Reader Node
  | 0, _, _ => malformed
  | n + 1, block, loose => do
      match ← peek with
      | .alias name =>
          pass
          aliasNode name
      | _ =>
          let m ← readMarks
          let t ← peek
          match t with
          | .scalar bare text =>
              pass
              readScalar m bare text
          | _ =>
              if loose && t = .dash then readCollection m (readLooseItems n [])
              else if t = .openSequence then
                pass
                readCollection m (readFlowItems n true [])
              else if t = .openMapping then
                pass
                readCollection m (readFlowEntries n true [])
              else if block && t = .blockSequence then
                pass
                readCollection m (readBlockItems n [])
              else if block && t = .blockMapping then
                pass
                readCollection m (readBlockEntries n [])
              else if m.anchor.isSome || m.tag.isSome then readScalar m true []
              else malformed

def readUnless : Nat → (Token → Bool) → Bool → Bool → Reader Node
  | 0, _, _, _ => malformed
  | n + 1, leftOut, block, loose => do
      if leftOut (← peek) then return .empty else readNode n block loose

def readBlockItems : Nat → List Node → Reader Node
  | 0, _ => malformed
  | n + 1, items => do
      if ← passIf .dash then
        let item ← readUnless n (fun t => t = .dash || t = .blockEnd) true false
        readBlockItems n (item :: items)
      else if ← passIf .blockEnd then return .sequence items.reverse
      else malformed

def readLooseItems : Nat → List Node → Reader Node
  | 0, _ => malformed
  | n + 1, items => do
      if ← passIf .dash then
        let item ← readUnless n (fun t => t = .dash || endsEntry t) true false
        readLooseItems n (item :: items)
      else return .sequence items.reverse

def readBlockEntries : Nat → List (Node × Node) → Reader Node
  | 0, _ => malformed
  | n + 1, entries => do
      if ← passIf .key then
        let key ← readUnless n endsEntry true true
        let value ← if ← passIf .value then readUnless n endsEntry true true else pure .empty
        readBlockEntries n ((key, value) :: entries)
      else if ← passIf .blockEnd then return .mapping entries.reverse
      else malformed

def readFlowValue : Nat → Token → Reader Node
  | 0, _ => malformed
  | n + 1, close => do
      if ← passIf .value then readUnless n (fun t => t = .comma || t = close) false false
      else return .empty

def readPair : Nat → Reader Node
  | 0 => malformed
  | n + 1 => do
      let t ← peek
      let key ← if t = .value || t = .comma || t = .closeSequence then do
          pass
          pure .empty
        else readNode n false false
      let value ← readFlowValue n .closeSequence
      return .mapping [(key, value)]

def readFlowItems : Nat → Bool → List Node → Reader Node
  | 0, _, _ => malformed
  | n + 1, first, items => do
      if ← passIf .closeSequence then return .sequence items.reverse
      else
        let separated ← if first then pure true else passIf .comma
        if !separated then malformed
        else if ← passIf .key then
          let item ← readPair n
          readFlowItems n false (item :: items)
        else if ← passIf .closeSequence then return .sequence items.reverse
        else
          let item ← readNode n false false
          readFlowItems n false (item :: items)

def readFlowEntries : Nat → Bool → List (Node × Node) → Reader Node
  | 0, _, _ => malformed
  | n + 1, first, entries => do
      if ← passIf .closeMapping then return .mapping entries.reverse
      else
        let separated ← if first then pure true else passIf .comma
        if !separated then malformed
        else if ← passIf .key then
          let key ← readUnless n (fun t => t = .value || t = .comma || t = .closeMapping) false false
          let value ← readFlowValue n .closeMapping
          readFlowEntries n false ((key, value) :: entries)
        else if ← passIf .closeMapping then return .mapping entries.reverse
        else
          let key ← readNode n false false
          readFlowEntries n false ((key, .empty) :: entries)

end

def readDirectives : Nat → Bool → List (List Char) → Reader Unit
  | 0, _, _ => malformed
  | n + 1, versioned, seen => do
      match ← peek with
      | .version major minor =>
          if versioned || major != 1 || minor != 1 then malformed
          else
            pass
            readDirectives n true seen
      | .tagHandle handle meaning =>
          if seen.contains handle then malformed
          else
            pass
            modify (fun r => { r with handles := (handle, meaning) :: r.handles })
            readDirectives n versioned (handle :: seen)
      | _ => return ()

def readDocument (fuel : Nat) : Reader (Option Node) := do
  let t ← peek
  if t = .streamEnd then return none
  else if t.isDirective || t = .documentStart then
    readDirectives fuel false []
    if ← passIf .documentStart then
      let root ← readUnless fuel Token.endsDocument true false
      let _ ← peek
      return some root
    else malformed
  else
    let root ← readNode fuel true false
    let _ ← peek
    return some root

end Reader

def isAllowed (code : Nat) : Bool :=
  code == 0x09 || code == 0x0A || code == 0x0D || (0x20 ≤ code && code ≤ 0x7E) || code == 0x85 ||
    (0xA0 ≤ code && code ≤ 0xD7FF) || (0xE000 ≤ code && code ≤ 0xFFFD) || 0x10000 ≤ code

def partSize : Nat := 512

def margin : Nat := 4

-- gathers characters, the latest first: those of the part that `used` bytes are taken of, and those in front
def charactersAux : Nat → List Char → List Char → List Text.Piece → List Char × Bool
  | _, part, front, [] => ((part ++ front).reverse, true)
  | used, part, front, piece :: rest =>
      let (char?, width) := match piece with
        | .scalar code bytes => (if isAllowed code then some (Char.ofNat code) else none, bytes.length)
        | .stray _ => (none, 1)
      let fits := used + width ≤ partSize
      match char? with
      | none => ((if fits then front else part ++ front).reverse, false)
      | some ch =>
          if fits then charactersAux (used + width) (ch :: part) front rest
          else charactersAux width [ch] (part ++ front) rest

-- the characters in front of the first part of a text that is not well formed or holds what a document may not hold.
-- Tells whether they are all
def characters (pieces : List Text.Piece) : List Char × Bool := charactersAux 0 [] [] pieces

def byteOrderMark : Char := '\ufeff'

def firstCount (source : Bytes) : Nat :=
  ((Text.pieces (source.take partSize)).filter (fun
    | .scalar _ _ => true
    | .stray _ => false)).length

-- the place where a text starts. A byte order mark is dropped; with a second one, lines lose their first character as
-- far as the text was looked at first
def startOf (source : Bytes) (text : List Char) : Cursor :=
  match text with
  | [] => { rest := ['\n'] }
  | ch :: rest =>
      if ch != byteOrderMark then { rest := text }
      else if rest.head? != some byteOrderMark then { rest := rest }
      else { rest := rest, lossyBefore := max 1 (firstCount source - 1) }

def read (source : Bytes) : Option Contents := do
  let (text, whole) := characters (Text.pieces source)
  let reading : Reading := { tokens := { cursor := startOf source text } }
  let (root, after) ← (Reader.readDocument (8 * (text.length + 8))).run reading
  if whole || margin ≤ after.tokens.cursor.rest.length then
    return { root := root.getD .empty, named := after.named }
  else none

end HeapAbstraction.Document
