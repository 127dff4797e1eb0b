import HeapAbstraction.Document.Reading
import HeapAbstraction.Options.Decoding
import HeapAbstraction.Storage

namespace HeapAbstraction.Options

inductive LoadError where
  | unreadable (path : Bytes) (cause : FileError)
  | malformed (path : Bytes)
  | negativeDistance
  | fault
deriving DecidableEq, Repr

def LoadError.message : LoadError → Bytes
  | .unreadable path cause => "reading opts " ++ Text.quoted path ++ ": " ++ cause.message
  | .malformed path => "parsing opts " ++ Text.quoted path
  | .negativeDistance => "min_abstraction_distance must be >= 0"
  | .fault => []

def ofText (text : Bytes) : Except Stop Options :=
  match Document.read text with
  | none => .error .malformed
  | some c => ofContents c (8 * ((text.length + 8) * (text.length + 8)))

def load (s : Storage) (path : Bytes) : Except LoadError Options := do
  let text ← (s.readFile path).mapError (.unreadable path)
  match ofText text with
  | .error .malformed => .error (.malformed path)
  | .error .fault => .error .fault
  | .ok opts => if opts.minDistance < 0 then .error .negativeDistance else return opts

end HeapAbstraction.Options
