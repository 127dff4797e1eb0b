namespace HeapAbstraction.Document

def isBlank (c : Char) : Bool := c == ' ' || c == '\t'

def isBreak (c : Char) : Bool := c == '\n' || c == '\r' || c == '\x85' || c == '\u2028' || c == '\u2029'

def isGap (c : Char) : Bool := isBlank c || isBreak c

def endsWord (next : Option Char) : Bool := next.all isGap

def endsLine (next : Option Char) : Bool := next.all isBreak

structure Place where
  index : Nat := 0
  line : Nat := 0
  column : Nat := 0
deriving DecidableEq, Repr

structure Cursor where
  rest : List Char := []
  size : Nat := rest.length
  place : Place := {}
  afterBreak : Bool := false
  lossyBefore : Nat := 0
deriving DecidableEq, Repr

namespace Cursor

def next (c : Cursor) : Option Char := c.rest.head?

def column (c : Cursor) : Nat := c.place.column

def advance (c : Cursor) (n : Nat) : Cursor :=
  { c with
    rest := c.rest.drop n
    place := { c.place with index := c.place.index + n, column := c.place.column + n }
    afterBreak := c.afterBreak && (c.rest.take n).all isBlank }

def skip (c : Cursor) : Cursor := c.advance 1

def onNextLine (c : Cursor) (width : Nat) : Cursor :=
  { c with
    rest := c.rest.drop width
    place := { index := c.place.index + width, line := c.place.line + 1, column := 0 }
    afterBreak := true }

def takeBreak (c : Cursor) : List Char × Cursor :=
  match c.rest with
  | [] => ([], c)
  | '\r' :: '\n' :: _ => (['\n'], c.onNextLine 2)
  | ch :: _ => (if ch == '\u2028' || ch == '\u2029' then [ch] else ['\n'], c.onNextLine 1)

def passBreak (c : Cursor) : Cursor := c.takeBreak.2

def toLineEnd (c : Cursor) : Cursor := c.advance (c.rest.takeWhile (fun ch => !isBreak ch)).length

def passTo (index : Nat) : Nat → Cursor → Cursor
  | 0, c => c
  | n + 1, c =>
      if index ≤ c.place.index then c
      else if c.next.any isBreak then passTo index n c.passBreak
      else passTo index n c.skip

def commentReach : Nat := 512

def passComments : Nat → Cursor → Cursor
  | 0, c => c
  | n + 1, c =>
      let atEnd := c.toLineEnd
      match atEnd.rest with
      | [] => atEnd
      | b :: more =>
          let between := more.takeWhile (fun ch => isBlank ch || ch == '\n' || ch == '\r')
          let width := between.length + 1
          if (b == '\n' || b == '\r') && width < commentReach && more[between.length]? == some '#' then
            passComments n (atEnd.passTo (atEnd.place.index + width) width)
          else atEnd

def passLineComment (c : Cursor) : Cursor :=
  let blanks := (c.rest.takeWhile isBlank).length
  if !c.afterBreak && blanks < commentReach && c.rest[blanks]? == some '#' then (c.advance blanks).toLineEnd
  else c

def isLossy (c : Cursor) : Bool := c.place.column == 0 && c.place.index < c.lossyBefore

-- passes what stands between tokens, and tells whether a key may start behind it. A tab where a key may start is no
-- blank
def toToken (inFlow : Bool) : Nat → Bool → Cursor → Cursor × Bool
  | 0, keyAllowed, c => (c, keyAllowed)
  | n + 1, keyAllowed, c =>
      let start := if c.isLossy then c.skip else c
      let tabs := inFlow || !keyAllowed
      let blanks := (start.rest.takeWhile (fun ch => ch == ' ' || (tabs && ch == '\t'))).length
      let past := start.advance blanks
      let clear := if past.next == some '#' then past.passComments past.size else past
      if clear.next.any isBreak then toToken inFlow n (keyAllowed || !inFlow) clear.passBreak
      else (clear, keyAllowed)

def isMarker (mark : Char) (c : Cursor) : Bool :=
  c.column == 0 && c.rest.take 3 == [mark, mark, mark] && endsWord c.rest[3]?

def isAnyMarker (c : Cursor) : Bool := c.isMarker '-' || c.isMarker '.'

end Cursor

end HeapAbstraction.Document
