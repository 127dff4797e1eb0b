import HeapAbstraction.HeapFile.Parser
import HeapAbstraction.Heap.Compaction

namespace HeapAbstraction.HeapFile

open Text (quoted)

inductive BodyError where
  | declaredTwice (node : Bytes)
  | undeclared (node : Bytes)
  | notALabel (label : Bytes)
  | edit (error : HeapError)
deriving DecidableEq, Repr

namespace BodyError

def kind? : BodyError → Option ErrorKind
  | .declaredTwice _ | .notALabel _ => some .badExpr
  | .undeclared _ => some .undeclaredNode
  | .edit e => e.kind?

def message : BodyError → Bytes
  | .declaredTwice x => ErrorKind.badExpr.inContext ("node " ++ quoted x ++ " declared twice")
  | .undeclared x => ErrorKind.undeclaredNode.inContext (quoted x)
  | .notALabel x => ErrorKind.badExpr.inContext (quoted x ++ " is not a nonterminal label")
  | .edit e => e.message

end BodyError

inductive FileError where
  | malformed (error : SyntaxError)
  | conflictingRanks (label : Bytes) (first second : Int)
  | inRule (label : Bytes) (error : BodyError)
  | ruleRank (label : Bytes) (externals : Nat) (declared : Int)
  | inHeap (number : Nat) (error : BodyError)
  | heapCount (found : Nat)
deriving DecidableEq, Repr

namespace FileError

def kind? : FileError → Option ErrorKind
  | .malformed _ | .heapCount _ => some .badExpr
  | .conflictingRanks .. | .ruleRank .. => some .rankMismatch
  | .inRule _ e | .inHeap _ e => e.kind?

def message : FileError → Bytes
  | .malformed e => ErrorKind.badExpr.inContext e.message
  | .conflictingRanks label first second =>
      ErrorKind.rankMismatch.inContext ("nonterminal " ++ label ++ " declared with ranks " ++ Bytes.ofInt first ++
        " and " ++ Bytes.ofInt second)
  | .inRule label e => "rule " ++ label ++ ": " ++ e.message
  | .ruleRank label externals declared =>
      ErrorKind.rankMismatch.inContext ("rule " ++ label ++ " has " ++ Bytes.ofNat externals ++
        " external nodes but is declared with rank " ++ Bytes.ofInt declared)
  | .inHeap number e => "heap #" ++ Bytes.ofNat number ++ ": " ++ e.message
  | .heapCount found =>
      ErrorKind.badExpr.inContext ("expected one heap, found " ++ Bytes.ofNat found)

end FileError

structure HeapDef where
  heap : Heap := {}
  names : List (Bytes × Nat) := []
deriving Repr

structure RuleDef where
  nonterminal : Nonterminal
  body : HeapDef
deriving Repr

structure Definitions where
  ranks : List (Bytes × Int) := []
  rules : List RuleDef := []
  heaps : List HeapDef := []
deriving Repr

namespace HeapDef

def edited (d : HeapDef) : Except HeapError Heap → Except BodyError HeapDef
  | .ok h => .ok { d with heap := h }
  | .error e => .error (.edit e)

def nameNodes (d : HeapDef) : List (Bytes × Nat) → Except BodyError HeapDef
  | [] => .ok d
  | (x, id) :: rest =>
      if (d.names.lookup x).isSome then .error (.declaredTwice x)
      else { d with names := d.names ++ [(x, id)] }.nameNodes rest

def declareNodes : HeapDef → List Statement → Except BodyError HeapDef
  | d, [] => .ok d
  | d, .nodes names type :: rest => do
      match d.heap.addNodes type names.length with
      | .error e => .error (.edit e)
      | .ok (h, ids) =>
          let d ← { d with heap := h }.nameNodes (names.zip ids)
          declareNodes d rest
  | d, _ :: rest => declareNodes d rest

def node (d : HeapDef) (name : Bytes) : Except BodyError Int :=
  match d.names.lookup name with
  | some id => .ok id
  | none => .error (.undeclared name)

def setExternals : HeapDef → List Bytes → Except BodyError HeapDef
  | d, [] => .ok d
  | d, x :: rest => do
      let d ← d.edited (d.heap.setExternal (← d.node x))
      d.setExternals rest

def startsWithDigit (name : Bytes) : Bool := name.head?.any Bytes.isDigit

def perform (ranks : List (Bytes × Int)) (d : HeapDef) : Statement → Except BodyError HeapDef
  | .nodes _ _ => .ok d
  | .ext names => d.setExternals names
  | .selector source selector target => do
      let s ← d.node source
      let t ← d.node target
      d.edited (d.heap.addSelector s selector t)
  | .variable name target => do
      let t ← d.node target
      d.edited (Prod.fst <$> d.heap.addVariable name t)
  | .hyperedge label tentacles =>
      if startsWithDigit label then .error (.notALabel label)
      else do
        let ts ← tentacles.mapM d.node
        let rank := (ranks.lookup label).getD ts.length
        d.edited (Prod.fst <$> d.heap.addNonterminal ⟨label, rank⟩ ts)

def performAll (ranks : List (Bytes × Int)) : HeapDef → List Statement → Except BodyError HeapDef
  | d, [] => .ok d
  | d, s :: rest => do performAll ranks (← d.perform ranks s) rest

def ofBody (ranks : List (Bytes × Int)) (body : List Statement) : Except BodyError HeapDef := do
  let d ← declareNodes {} body
  let d ← performAll ranks d body
  d.edited d.heap.build

end HeapDef

namespace Definitions

def declareRanks : List (Bytes × Int) → List Declaration → Except FileError (List (Bytes × Int))
  | ranks, [] => .ok ranks
  | ranks, .nonterminal label rank :: rest =>
      match ranks.lookup label with
      | some first =>
          if first ≠ rank then .error (.conflictingRanks label first rank) else declareRanks ranks rest
      | none => declareRanks (ranks ++ [(label, rank)]) rest
  | ranks, _ :: rest => declareRanks ranks rest

def addRule (defs : Definitions) (label : Bytes) (body : HeapDef) : Except FileError Definitions :=
  let externals := body.heap.externalCount
  let grown := { defs with rules := defs.rules ++ [⟨⟨label, externals⟩, body⟩] }
  match defs.ranks.lookup label with
  | some declared => if declared ≠ externals then .error (.ruleRank label externals declared) else .ok grown
  | none => .ok { grown with ranks := defs.ranks ++ [(label, (externals : Int))] }

def addDeclaration (defs : Definitions) : Declaration → Except FileError Definitions
  | .nonterminal _ _ => .ok defs
  | .rule label body =>
      match HeapDef.ofBody defs.ranks body with
      | .error e => .error (.inRule label e)
      | .ok d => defs.addRule label d
  | .heap body =>
      match HeapDef.ofBody defs.ranks body with
      | .error e => .error (.inHeap (defs.heaps.length + 1) e)
      | .ok d => .ok { defs with heaps := defs.heaps ++ [d] }

def addDeclarations : Definitions → List Declaration → Except FileError Definitions
  | defs, [] => .ok defs
  | defs, d :: rest => do addDeclarations (← defs.addDeclaration d) rest

def ofDeclarations (ds : List Declaration) : Except FileError Definitions := do
  addDeclarations { ranks := ← declareRanks [] ds } ds

end Definitions

def readDefinitions (source : Bytes) : Except FileError Definitions :=
  match parse source with
  | .error e => .error (.malformed e)
  | .ok ds => Definitions.ofDeclarations ds

def readHeap (source : Bytes) : Except FileError HeapDef := do
  let defs ← readDefinitions source
  match defs.heaps with
  | [d] => return d
  | ds => .error (.heapCount ds.length)

end HeapAbstraction.HeapFile
