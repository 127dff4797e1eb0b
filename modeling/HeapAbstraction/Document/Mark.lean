import HeapAbstraction.Document.Scalar
import HeapAbstraction.Document.Token

namespace HeapAbstraction.Document

namespace Cursor

def isNameChar (c : Char) : Bool := c.isAlphanum || c == '_' || c == '-'

def nameEnds : List Char := ['?', ':', ',', ']', '\x7d', '%', '@', '\x60']

def name (c : Cursor) : Option (List Char × Cursor) :=
  let found := (c.rest.drop 1).takeWhile isNameChar
  let past := c.advance (found.length + 1)
  if !found.isEmpty && (endsWord past.next || past.next.any nameEnds.contains) then some (found, past) else none

def tagMarks : List Char :=
  ['_', '-', ';', '/', '?', ':', '@', '&', '=', '+', '$', '.', ',', '!', '~', '*', '\x27', '(', ')', '[', ']']

def isTagChar (c : Char) : Bool := c.isAlphanum || tagMarks.contains c

def escapedByte (c : Cursor) : Option (UInt8 × Cursor) :=
  match c.rest with
  | '%' :: a :: b :: _ => (codeOf? [a, b]).map (fun code => (UInt8.ofNat code, c.advance 3))
  | _ => none

def bytesOwed (b : UInt8) : Option Nat :=
  if b < 0x80 then some 0
  else if b < 0xC0 then none
  else if b < 0xE0 then some 1
  else if b < 0xF0 then some 2
  else if b < 0xF8 then some 3
  else none

def tagText : Nat → Nat → Bytes → Cursor → Option (Bytes × Cursor)
  | 0, _, text, c => some (text, c)
  | n + 1, owed + 1, text, c =>
      match c.escapedByte with
      | some (b, past) => if 0x80 ≤ b && b < 0xC0 then tagText n owed (text ++ [b]) past else none
      | none => none
  | n + 1, 0, text, c =>
      match c.rest with
      | [] => some (text, c)
      | '%' :: _ =>
          match c.escapedByte with
          | some (b, past) =>
              match bytesOwed b with
              | some owed => tagText n owed (text ++ [b]) past
              | none => none
          | none => none
      | ch :: _ => if isTagChar ch then tagText n 0 (text ++ [ch.toUInt8]) c.skip else some (text, c)

def tagRest (c : Cursor) : Option (Bytes × Cursor) := tagText (c.size + 1) 0 [] c

def handle (c : Cursor) : List Char × Cursor :=
  let found := (c.rest.drop 1).takeWhile isNameChar
  let past := c.advance (found.length + 1)
  if past.next == some '!' then ('!' :: found ++ ['!'], past.skip) else ('!' :: found, past)

def fullTag (c : Cursor) : Option (List Char × Bytes × Cursor) := do
  let (text, past) ← (c.advance 2).tagRest
  if text.isEmpty || past.next != some '>' then none else return ([], text, past.skip)

def shortTag (c : Cursor) : Option (List Char × Bytes × Cursor) := do
  let (found, past) := c.handle
  let (text, after) ← past.tagRest
  if 1 < found.length && found.getLast? == some '!' then
    if text.isEmpty then none else return (found, text, after)
  else
    let name := (found.drop 1).map Char.toUInt8 ++ text
    if name.isEmpty then return ([], "!", after) else return (['!'], name, after)

def tag (c : Cursor) : Option (List Char × Bytes × Cursor) := do
  let (found, text, past) ← if c.rest[1]? == some '<' then c.fullTag else c.shortTag
  if endsWord past.next then return (found, text, past) else none

def shortNumber (c : Cursor) : Option (Nat × Cursor) :=
  let digits := c.rest.takeWhile Char.isDigit
  if digits.isEmpty || 2 < digits.length then none
  else some (digits.foldl (fun n d => n * 10 + (d.toNat - 48)) 0, c.advance digits.length)

def passBlanks (c : Cursor) : Cursor := c.advance (c.rest.takeWhile isBlank).length

def versionDirective (c : Cursor) : Option (Token × Cursor) := do
  let (major, past) ← c.passBlanks.shortNumber
  if past.next != some '.' then none
  else
    let (minor, after) ← past.skip.shortNumber
    return (.version major minor, after)

def tagDirective (c : Cursor) : Option (Token × Cursor) := do
  let start := c.passBlanks
  if start.next != some '!' then none
  else
    let (found, past) := start.handle
    if (found.length != 1 && found.getLast? != some '!') || !past.next.any isBlank then none
    else
      let (text, after) ← past.passBlanks.tagRest
      if text.isEmpty || !endsWord after.next then none else return (.tagHandle found text, after)

def directive (c : Cursor) : Option (Token × Cursor) := do
  let word := (c.rest.drop 1).takeWhile isNameChar
  let past := c.advance (word.length + 1)
  if !endsWord past.next then none
  else
    let (t, after) ←
      if word == ['Y', 'A', 'M', 'L'] then past.versionDirective
      else if word == ['T', 'A', 'G'] then past.tagDirective
      else none
    return (t, ← after.passHeaderLine)

end Cursor

end HeapAbstraction.Document
