import HeapAbstraction.Command.Run
import HeapAbstraction.Encoding.Varint

namespace HeapAbstraction

def Database.toFile (db : Database) : Bytes :=
  db.entries.flatMap (fun e => Varint.writeString e.1 ++ Varint.writeString e.2)

def Database.ofFileAux : Nat → Bytes → Database → Database
  | 0, _, db => db
  | n + 1, bytes, db =>
      match Varint.readString bytes with
      | .error _ => db
      | .ok (key, rest) =>
          match Varint.readString rest with
          | .error _ => db
          | .ok (value, more) => ofFileAux n more (db.put key value)

def Database.ofFile (bytes : Bytes) : Database := ofFileAux bytes.length bytes {}

end HeapAbstraction

open HeapAbstraction

def pathText (path : Bytes) : String := (String.fromUTF8? ⟨path.toArray⟩).getD ""

def fileContent (path : Bytes) : IO (Option Bytes) := do
  if path.isEmpty then return none
  try
    let content ← IO.FS.readBinFile (pathText path)
    return some content.toList
  catch _ => return none

def withFile (s : Storage) (path : Bytes) : IO Storage := do
  match ← fileContent path with
  | some content => return s.writeFile path content
  | none => return s

def withCatalog (s : Storage) (path : Bytes) : IO Storage := do
  match ← fileContent path with
  | some content => return s.writeDatabase path (Database.ofFile content)
  | none => return s

def main (args : List String) : IO UInt32 := do
  let words := args.map Bytes.ofString
  let (flags, others) := match Flags.parse {} words with
    | .ok parsed => parsed
    | .error _ => ({}, [])
  let mut storage : Storage := {}
  for path in flags.opts :: flags.canon :: scriptCandidates (others.headD []) do
    storage ← withFile storage path
  storage ← withCatalog storage flags.catalog
  let result := run storage words
  (← IO.getStdout).write ⟨result.output.toArray⟩
  (← IO.getStderr).write ⟨result.errors.toArray⟩
  if !flags.canon.isEmpty && !flags.catalog.isEmpty then
    let db := result.storage.databaseAt flags.catalog
    IO.FS.writeBinFile (pathText flags.catalog) ⟨db.toFile.toArray⟩
  return UInt32.ofNat result.exitCode
