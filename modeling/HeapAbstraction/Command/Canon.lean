import HeapAbstraction.Grammar.Canonical
import HeapAbstraction.Heap.Printer
import HeapAbstraction.Storage

namespace HeapAbstraction

inductive CanonError where
  | unreadable (path : Bytes) (cause : FileError)
  | unparsable (path : Bytes) (cause : HeapFile.FileError)
  | badRules (path : Bytes) (cause : RuleError)
  | catalog (cause : CatalogError)
  | heap (cause : HeapError)

namespace CanonError

def message : CanonError → Bytes
  | .unreadable path cause => "reading " ++ Text.quoted path ++ ": " ++ cause.message
  | .unparsable path cause => "parsing " ++ Text.quoted path ++ ": " ++ cause.message
  | .badRules path cause => "rules in " ++ Text.quoted path ++ ": " ++ cause.message
  | .catalog cause => cause.message
  | .heap cause => cause.message

def breaksOff : CanonError → Bool
  | .heap _ => true
  | _ => false

end CanonError

structure CanonRun where
  output : Bytes := []
  catalog : Option Catalog := none

namespace CanonRun

def label (heap form : Nat) : Bytes := "heap[" ++ Bytes.ofNat heap ++ "] canonical[" ++ Bytes.ofNat form ++ "]"

abbrev Step := CanonRun × Except CanonError Unit

def addForm (run : CanonRun) (h : Heap) : Step :=
  match run.catalog with
  | none => (run, .ok ())
  | some c =>
      match c.insert h with
      | .ok (_, changed) => ({ run with catalog := some changed }, .ok ())
      | .error e => (run, .error (.catalog e))

def form (run : CanonRun) (heap index : Nat) (h : Heap) : Step :=
  match h.print { label := label heap index, multiline := true } with
  | .error e => (run, .error (.heap e))
  | .ok text => ({ run with output := run.output ++ text } : CanonRun).addForm h

def forms (heap : Nat) : CanonRun → Nat → List Heap → Step
  | run, _, [] => (run, .ok ())
  | run, index, h :: rest =>
      match run.form heap index h with
      | (next, .ok ()) => forms heap next (index + 1) rest
      | (next, .error e) => (next, .error e)

def heaps (opts : Options) (g : Grammar) : CanonRun → Nat → List Heap → Step
  | run, _, [] => (run, .ok ())
  | run, index, h :: rest =>
      match (g.canonicalize opts h).result with
      | .error e => (run, .error (.heap e))
      | .ok canonical =>
          match forms index run 0 canonical with
          | (next, .ok ()) => heaps opts g next (index + 1) rest
          | (next, .error e) => (next, .error e)

end CanonRun

def readRulesAndHeaps (s : Storage) (path : Bytes) : Except CanonError (Grammar × List Heap) := do
  let source ← (s.readFile path).mapError (.unreadable path)
  let defs ← (HeapFile.readDefinitions source).mapError (.unparsable path)
  let g ← (Grammar.ofDefinitions defs).mapError (.badRules path)
  return (g, defs.heaps.map HeapFile.HeapDef.heap)

def openForRun (s : Storage) (path : Bytes) : Storage × Except CanonError (Option Catalog) :=
  if path.isEmpty then (s, .ok none)
  else
    let (held, result) := s.openCatalog path false
    (held, (result.map some).mapError .catalog)

def closeAfterRun (s : Storage) : Option Catalog → Storage
  | none => s
  | some c => (s.closeCatalog c).1

-- prints the canonical forms of the heaps of a file. The catalog is opened once the rules are known to be good, and
-- closed however the run ends
def canonFile (s : Storage) (path catalogPath : Bytes) (opts : Options) :
    Storage × Bytes × Except CanonError Unit :=
  match readRulesAndHeaps s path with
  | .error e => (s, [], .error e)
  | .ok (g, heaps) =>
      match openForRun s catalogPath with
      | (held, .error e) => (held, [], .error e)
      | (held, .ok catalog) =>
          let (run, result) := CanonRun.heaps opts g { catalog := catalog } 0 heaps
          (closeAfterRun held run.catalog, run.output, result)

end HeapAbstraction
