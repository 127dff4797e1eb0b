import HeapAbstraction.Document.Cursor

namespace HeapAbstraction.Document

structure Gap where
  spaces : List Char := []
  broken : Bool := false
  firstBreak : List Char := []
  moreBreaks : List Char := []
deriving DecidableEq, Repr

namespace Gap

def text (g : Gap) : List Char :=
  if !g.broken then g.spaces
  else if g.firstBreak.head? != some '\n' then g.firstBreak ++ g.moreBreaks
  else if g.moreBreaks.isEmpty then [' ']
  else g.moreBreaks

def addBreak (g : Gap) (text : List Char) : Gap :=
  if g.broken then { g with moreBreaks := g.moreBreaks ++ text } else { broken := true, firstBreak := text }

end Gap

namespace Cursor

def takeGap (indent : Nat) : Nat → Gap → Cursor → Option (Gap × Cursor)
  | 0, g, c => some (g, c)
  | n + 1, g, c =>
      match c.next with
      | none => some (g, c)
      | some ch =>
          if isBreak ch then
            let (text, below) := c.takeBreak
            takeGap indent n (g.addBreak text) below
          else if !isBlank ch then some (g, c)
          else if !g.broken then takeGap indent n { g with spaces := g.spaces ++ [ch] } c.skip
          else if ch == '\t' && c.column < indent then none
          else takeGap indent n g c.skip

def flowMarks : List Char := [',', '?', '[', ']', '\x7b', '\x7d']

def wordLength (inFlow : Bool) : List Char → Nat
  | [] => 0
  | ch :: rest =>
      if isGap ch || (ch == ':' && endsWord rest.head?) || (inFlow && flowMarks.contains ch) then 0
      else wordLength inFlow rest + 1

-- reads the words of a bare scalar that go on from `text` and `gap`. Gives the text, whether a line ended behind its
-- last word, and the place where it ends
def bareWords (inFlow : Bool) (indent : Nat) :
    Nat → List Char → Gap → Cursor → Option (List Char × Bool × Cursor)
  | 0, text, gap, c => some (text, gap.broken, c)
  | n + 1, text, gap, c =>
      if c.isAnyMarker || c.next == some '#' then some (text, gap.broken, c)
      else
        let length := wordLength inFlow c.rest
        let past := c.advance length
        if length = 0 then some (text, gap.broken, c)
        else
          let longer := text ++ gap.text ++ c.rest.take length
          if !past.next.any isGap then some (longer, false, past)
          else match past.takeGap indent past.size {} with
            | none => none
            | some (g, after) =>
                if !inFlow && after.column < indent then some (longer, g.broken, after)
                else bareWords inFlow indent n longer g after

def bareScalar (c : Cursor) (inFlow : Bool) (indent : Nat) : Option (List Char × Bool × Cursor) :=
  bareWords inFlow indent (c.size + 1) [] {} c

def escapes : List (Char × Char) :=
  [('0', '\x00'), ('a', '\x07'), ('b', '\x08'), ('t', '\t'), ('\t', '\t'), ('n', '\n'), ('v', '\x0b'), ('f', '\x0c'),
    ('r', '\r'), ('e', '\x1b'), (' ', ' '), ('\x22', '\x22'), ('\x27', '\x27'), ('\x5c', '\x5c'), ('N', '\x85'),
    ('_', '\u00a0'), ('L', '\u2028'), ('P', '\u2029')]

def codeWidth (letter : Char) : Option Nat :=
  [('x', 2), ('u', 4), ('U', 8)].lookup letter

def hexValue? (c : Char) : Option Nat :=
  if '0' ≤ c && c ≤ '9' then some (c.toNat - 48)
  else if 'a' ≤ c && c ≤ 'f' then some (c.toNat - 87)
  else if 'A' ≤ c && c ≤ 'F' then some (c.toNat - 55)
  else none

def codeOf? (digits : List Char) : Option Nat :=
  digits.foldl (fun n c => n.bind (fun k => (hexValue? c).map (fun d => k * 16 + d))) (some 0)

def escape (c : Cursor) : Option (Char × Cursor) := do
  let letter ← c.rest[1]?
  match escapes.lookup letter with
  | some ch => return (ch, c.advance 2)
  | none =>
      let width ← codeWidth letter
      let digits := (c.rest.drop 2).take width
      let code ← codeOf? digits
      if digits.length = width && code.isValidChar then return (Char.ofNat code, c.advance (width + 2))
      else none

def quoteOf (double : Bool) : Char := if double then '\x22' else '\x27'

def quotedWord (double : Bool) : Nat → List Char → Cursor → Option (List Char × Bool × Cursor)
  | 0, text, c => some (text, false, c)
  | n + 1, text, c =>
      match c.rest with
      | [] => some (text, false, c)
      | ch :: more =>
          if isGap ch then some (text, false, c)
          else if ch == quoteOf double then
            if !double && more.head? == some ch then quotedWord double n (text ++ [ch]) (c.advance 2)
            else some (text, false, c)
          else if double && ch == '\x5c' then
            if more.head?.any isBreak then some (text, true, c.skip.passBreak)
            else match c.escape with
              | none => none
              | some (stood, past) => quotedWord double n (text ++ [stood]) past
          else quotedWord double n (text ++ [ch]) c.skip

def quotedWords (double : Bool) : Nat → List Char → Cursor → Option (List Char × Cursor)
  | 0, _, _ => none
  | n + 1, text, c =>
      if c.isAnyMarker || c.rest.isEmpty then none
      else match quotedWord double (c.size + 1) text c with
        | none => none
        | some (longer, escaped, past) =>
            if past.next == some (quoteOf double) then some (longer, past.skip)
            else match past.takeGap 0 past.size { broken := escaped } with
              | none => none
              | some (g, after) => quotedWords double n (longer ++ g.text) after

def quotedScalar (c : Cursor) (double : Bool) : Option (List Char × Cursor) :=
  quotedWords double (c.size + 1) [] c.skip

inductive Ending where
  | strip
  | clip
  | keep
deriving DecidableEq, Repr

structure BlockHeader where
  ending : Ending := .clip
  indent : Nat := 0
deriving DecidableEq, Repr

def headerMark (h : BlockHeader) (c : Cursor) : Option (BlockHeader × Cursor) :=
  match c.next with
  | some '+' => if h.ending = .clip then some ({ h with ending := .keep }, c.skip) else some (h, c)
  | some '-' => if h.ending = .clip then some ({ h with ending := .strip }, c.skip) else some (h, c)
  | some ch =>
      if h.indent = 0 && ch.isDigit then
        if ch == '0' then none else some ({ h with indent := ch.toNat - 48 }, c.skip)
      else some (h, c)
  | none => some (h, c)

def passHeaderLine (c : Cursor) : Option Cursor :=
  let past := c.advance (c.rest.takeWhile isBlank).length
  let clear := if past.next == some '#' then past.toLineEnd else past
  if endsLine clear.next then some clear.passBreak else none

-- passes the empty lines of a block and the indentation of the next line, which `indent` gives if it is known. Gives
-- the indentation, the breaks that were passed, and the place
def blockBreaks (outer : Int) : Nat → Nat → Nat → List Char → Cursor → Option (Nat × List Char × Cursor)
  | 0, indent, _, breaks, c => some (indent, breaks, c)
  | n + 1, indent, widest, breaks, c =>
      let spaces := (c.rest.takeWhile (· == ' ')).length
      let past := c.advance (if indent = 0 then spaces else min spaces (indent - c.column))
      let wide := max widest past.column
      if (indent = 0 || past.column < indent) && past.next == some '\t' then none
      else if past.next.any isBreak then
        let (text, below) := past.takeBreak
        blockBreaks outer n indent wide (breaks ++ text) below
      else
        let found := if indent = 0 then max (max wide (outer + 1).toNat) 1 else indent
        some (found, breaks, past)

structure BlockText where
  text : List Char := []
  firstBreak : List Char := []
  moreBreaks : List Char := []
  blank : Bool := false
deriving DecidableEq, Repr

def BlockText.join (b : BlockText) (literal blank : Bool) : List Char :=
  if !literal && !b.blank && !blank && b.firstBreak.head? == some '\n' then
    if b.moreBreaks.isEmpty then [' '] else b.moreBreaks
  else b.firstBreak ++ b.moreBreaks

def blockLines (literal : Bool) (outer : Int) (indent : Nat) :
    Nat → BlockText → Cursor → Option (BlockText × Cursor)
  | 0, b, c => some (b, c)
  | n + 1, b, c =>
      if c.column != indent || c.rest.isEmpty then some (b, c)
      else
        let blank := c.next.any isBlank
        let line := c.rest.takeWhile (fun ch => !isBreak ch)
        let (text, below) := (c.advance line.length).takeBreak
        match blockBreaks outer (below.size + 1) indent 0 [] below with
        | none => none
        | some (_, breaks, after) =>
            blockLines literal outer indent n ⟨b.text ++ b.join literal blank ++ line, text, breaks, blank⟩ after

def BlockText.ended (b : BlockText) : Ending → List Char
  | .strip => b.text
  | .clip => b.text ++ b.firstBreak
  | .keep => b.text ++ b.firstBreak ++ b.moreBreaks

def blockScalar (c : Cursor) (literal : Bool) (outer : Int) : Option (List Char × Cursor) := do
  let (one, c) ← headerMark {} c.skip
  let (header, c) ← headerMark one c
  let c ← c.passHeaderLine
  let given := if header.indent = 0 then 0 else header.indent + outer.toNat
  let (indent, breaks, c) ← blockBreaks outer (c.size + 1) given 0 [] c
  let (b, c) ← blockLines literal outer indent (c.size + 1) { moreBreaks := breaks } c
  return (b.ended header.ending, c)

end Cursor

end HeapAbstraction.Document
