import HeapAbstraction.Document.Mark
import HeapAbstraction.Document.Scalar

namespace HeapAbstraction.Document

structure KeyStart where
  possible : Bool := false
  required : Bool := false
  number : Nat := 0
  place : Place := {}
deriving DecidableEq, Repr

namespace KeyStart

def reach : Nat := 1024

def isExpired (k : KeyStart) (now : Place) : Bool :=
  k.place.line < now.line || k.place.index + reach < now.index

def check (k : KeyStart) (now : Place) : Option KeyStart :=
  if !k.possible || !k.isExpired now then some k
  else if k.required then none
  else some { k with possible := false }

end KeyStart

structure TokenStream where
  cursor : Cursor := {}
  indent : Int := -1
  outerIndents : List Int := []
  keyStart : KeyStart := {}
  outerKeyStarts : Array KeyStart := #[]
  -- the numbers of tokens that are not taken before it is known whether they start a key, each with its level
  awaited : List (Nat × Nat) := []
  keyAllowed : Bool := true
  found : Array Token := #[]
  taken : Nat := 0
deriving DecidableEq, Repr

namespace TokenStream

def inFlow (s : TokenStream) : Bool := !s.outerKeyStarts.isEmpty

def push (s : TokenStream) (t : Token) : TokenStream := { s with found := s.found.push t }

def insert (s : TokenStream) (number : Nat) (t : Token) : TokenStream :=
  if number < s.taken then s.push t
  else { s with found := s.found.insertIdxIfInBounds number t }

def move (s : TokenStream) (c : Cursor) : TokenStream := { s with cursor := c }

def pass (s : TokenStream) (n : Nat) : TokenStream := s.move (s.cursor.advance n)

def allowKey (s : TokenStream) (allowed : Bool) : TokenStream := { s with keyAllowed := allowed }

def nextNumber (s : TokenStream) : Nat := s.found.size

def await (s : TokenStream) (number : Nat) : TokenStream :=
  { s with awaited := (number, s.outerKeyStarts.size) :: s.awaited }

def release (s : TokenStream) (number : Nat) : TokenStream :=
  { s with awaited := s.awaited.eraseP (fun p => p.1 == number) }

def dropKey (s : TokenStream) : Option TokenStream :=
  if !s.keyStart.possible then some s
  else if s.keyStart.required then none
  else some ({ s with keyStart := { s.keyStart with possible := false } }.release s.keyStart.number)

def saveKey (s : TokenStream) : Option TokenStream :=
  if !s.keyAllowed then some s
  else s.dropKey.map (fun r =>
    { r with keyStart := {
        possible := true
        required := !s.inFlow && s.indent == (s.cursor.column : Int)
        number := s.nextNumber
        place := s.cursor.place } }.await s.nextNumber)

def openBlock (s : TokenStream) (column number : Nat) (t : Token) : TokenStream :=
  if !s.inFlow && s.indent < (column : Int) then
    { s with indent := column, outerIndents := s.indent :: s.outerIndents }.insert number t
  else s

def closeBlocksAux (column : Int) : List Int → TokenStream → TokenStream
  | [], s => s
  | outer :: rest, s =>
      if column < s.indent then
        closeBlocksAux column rest ({ s with indent := outer, outerIndents := rest }.push .blockEnd)
      else s

def closeBlocks (s : TokenStream) (column : Int) : TokenStream :=
  if s.inFlow then s else closeBlocksAux column s.outerIndents s

def fetchMark (s : TokenStream) (t : Token) (allowed : Bool) : Option TokenStream :=
  s.dropKey.map (fun r => ((r.allowKey allowed).pass 1).push t)

def fetchEnd (s : TokenStream) : Option TokenStream :=
  let place := s.cursor.place
  let below := if place.column = 0 then place else { place with line := place.line + 1, column := 0 }
  let closed := (s.move { s.cursor with place := below }).closeBlocks (-1)
  closed.dropKey.map (fun r => (r.allowKey false).push .streamEnd)

def fetchMarker (s : TokenStream) (t : Token) : Option TokenStream :=
  (s.closeBlocks (-1)).dropKey.map (fun r => ((r.allowKey false).pass 3).push t)

def fetchOpen (s : TokenStream) (t : Token) : Option TokenStream :=
  s.saveKey.map (fun r =>
    let inner : TokenStream := { r with
      keyStart := { number := r.nextNumber, place := r.cursor.place }
      outerKeyStarts := r.outerKeyStarts.push r.keyStart }
    ((inner.allowKey true).pass 1).push t)

def fetchClose (s : TokenStream) (t : Token) : Option TokenStream :=
  s.dropKey.map (fun r =>
    let outer := match r.outerKeyStarts.back? with
      | none => r
      | some k => { r with keyStart := k, outerKeyStarts := r.outerKeyStarts.pop }.release r.keyStart.number
    ((outer.allowKey false).pass 1).push t)

def fetchIndented (s : TokenStream) (t block : Token) (allowed : Bool) : Option TokenStream :=
  if !s.inFlow && !s.keyAllowed then none
  else (s.openBlock s.cursor.column s.nextNumber block).fetchMark t allowed

def fetchValue (s : TokenStream) : Option TokenStream := do
  let k ← s.keyStart.check s.cursor.place
  if k.possible then
    let keyed := (s.insert k.number .key).openBlock k.place.column k.number .blockMapping
    let done : TokenStream := { keyed with keyStart := { k with possible := false } }
    return (((done.release k.number).allowKey false).pass 1).push .value
  else if !s.inFlow && !s.keyAllowed then none
  else
    let opened := { s with keyStart := k }.openBlock s.cursor.column s.nextNumber .blockMapping
    return ((opened.allowKey !s.inFlow).pass 1).push .value

def fetchKeyable (s : TokenStream) (read : Cursor → Option (Token × Cursor)) : Option TokenStream := do
  let saved ← s.saveKey
  let (t, past) ← read saved.cursor
  return ((saved.allowKey false).move past).push t

def fetchBare (s : TokenStream) : Option TokenStream := do
  let saved ← s.saveKey
  let (text, broken, past) ← saved.cursor.bareScalar s.inFlow (s.indent + 1).toNat
  return ((saved.allowKey broken).move past).push (.scalar true text)

def fetchBlockScalar (s : TokenStream) (literal : Bool) : Option TokenStream := do
  let dropped ← s.dropKey
  let (text, past) ← dropped.cursor.blockScalar literal s.indent
  return ((dropped.allowKey true).move past).push (.scalar false text)

def fetchDirective (s : TokenStream) : Option TokenStream := do
  let dropped ← (s.closeBlocks (-1)).dropKey
  let (t, past) ← dropped.cursor.directive
  return ((dropped.allowKey false).move past).push t

def marks : List Char :=
  ['-', '?', ':', ',', '[', ']', '\x7b', '\x7d', '#', '&', '*', '!', '|', '>', '\x27', '\x22', '%', '@', '\x60']

def startsBare (inFlow : Bool) (ch : Char) (after : Option Char) : Bool :=
  !(isGap ch || marks.contains ch) || (ch == '-' && !after.any isBlank) ||
    (!inFlow && (ch == '?' || ch == ':') && !endsWord after)

def fetchAt (s : TokenStream) (ch : Char) (after : Option Char) : Option TokenStream :=
  let spaced := s.inFlow || endsWord after
  if ch == '[' then s.fetchOpen .openSequence
  else if ch == '\x7b' then s.fetchOpen .openMapping
  else if ch == ']' then s.fetchClose .closeSequence
  else if ch == '\x7d' then s.fetchClose .closeMapping
  else if ch == ',' then s.fetchMark .comma true
  else if ch == '-' && endsWord after then s.fetchIndented .dash .blockSequence true
  else if ch == '?' && spaced then s.fetchIndented .key .blockMapping !s.inFlow
  else if ch == ':' && spaced then s.fetchValue
  else if ch == '*' then s.fetchKeyable (fun c => c.name.map (fun p => (.alias p.1, p.2)))
  else if ch == '&' then s.fetchKeyable (fun c => c.name.map (fun p => (.anchor p.1, p.2)))
  else if ch == '!' then s.fetchKeyable (fun c => c.tag.map (fun p => (.tag p.1 p.2.1, p.2.2)))
  else if ch == '|' && !s.inFlow then s.fetchBlockScalar true
  else if ch == '>' && !s.inFlow then s.fetchBlockScalar false
  else if ch == '\x27' || ch == '\x22' then
    s.fetchKeyable (fun c => (c.quotedScalar (ch == '\x22')).map (fun p => (.scalar false p.1, p.2)))
  else if startsBare s.inFlow ch after then s.fetchBare
  else none

def passComment (s : TokenStream) : TokenStream :=
  if s.found.back? == some .dash then s else s.move s.cursor.passLineComment

def fetch (s : TokenStream) : Option TokenStream :=
  let (cursor, allowed) := s.cursor.toToken s.inFlow (s.cursor.size + 1) s.keyAllowed
  let r := ((s.move cursor).allowKey allowed).closeBlocks cursor.column
  match cursor.rest with
  | [] => r.fetchEnd
  | ch :: more =>
      if cursor.column = 0 && ch == '%' then r.fetchDirective
      else if cursor.isMarker '-' then r.fetchMarker .documentStart
      else if cursor.isMarker '.' then r.fetchMarker .documentEnd
      else (r.fetchAt ch more.head?).map passComment

def depthLimit : Nat := 10000

def isTooDeep (s : TokenStream) : Bool :=
  depthLimit < s.outerKeyStarts.size || depthLimit < s.outerIndents.length

def lookahead : Nat := 3

def awaitedLevel? (s : TokenStream) : Option Nat := s.awaited.lookup s.taken

def looksAhead (s : TokenStream) : Bool := s.taken + lookahead ≤ s.found.size

def isReady (s : TokenStream) : Bool := s.looksAhead && s.awaitedLevel?.isNone

def checkLevel (s : TokenStream) (level : Nat) : Option (Bool × TokenStream) :=
  match s.outerKeyStarts[level]? with
  | none => (s.keyStart.check s.cursor.place).map (fun k => (k.possible, { s with keyStart := k }))
  | some k =>
      (k.check s.cursor.place).map (fun checked =>
        (checked.possible, { s with outerKeyStarts := s.outerKeyStarts.setIfInBounds level checked }))

-- finds tokens until the next one can be taken: two more are known, and it does not start a key that is still to show
def fill : Nat → TokenStream → Option TokenStream
  | 0, s => some s
  | n + 1, s =>
      if s.isTooDeep then none
      else if !s.looksAhead then s.fetch.bind (fill n)
      else match s.awaitedLevel? with
        | none => some s
        | some level =>
            match s.checkLevel level with
            | none => none
            | some (true, checked) => checked.fetch.bind (fill n)
            | some (false, checked) => some checked

def next? (s : TokenStream) : Option Token := s.found[s.taken]?

def take (s : TokenStream) : TokenStream :=
  { s with taken := s.taken + 1, awaited := s.awaited.eraseP (fun p => p.1 == s.taken) }

end TokenStream

end HeapAbstraction.Document
