import HeapAbstraction.ErrorKind
import HeapAbstraction.Label
import HeapAbstraction.Text.Quoted

namespace HeapAbstraction

open Text (quoted)

inductive HeapError where
  | unknownId (id : Int)
  | wrongKind (id : Int) (found expected : Kind)
  | notIsolated (node : Int)
  | duplicateSelector (node : Int) (selector : Bytes)
  | missingSelector (node : Int) (selector : Bytes)
  | alreadyExternal (node : Int)
  | notExternal (node : Int)
  | noExternalAt (ordinal : Int)
  | duplicateVariable (name : Bytes)
  | tentacleCount (nt : Nonterminal) (given : Nat)
  | relabelRank (old new : Nonterminal)
  | replacementRank (edge : Int) (rank : Int) (externals : Nat)
  | gluedSelector (selector : Bytes) (node : Nat)
  | patternRank (nt : Nonterminal) (externals : Nat)
  | partialMatching (given expected : Nat)
  | wrongResponseType
  | builderInvalid
  | builderActive
  -- not an error that is thrown: inconsistent storage was read, a size was out of bounds, or a counter refused a label
  | fault
deriving DecidableEq, Repr

namespace HeapError

def kind? : HeapError → Option ErrorKind
  | .unknownId _ | .partialMatching .. => some .badId
  | .wrongKind .. => some .wrongKind
  | .notIsolated _ => some .notIsolated
  | .duplicateSelector .. | .gluedSelector .. => some .duplicateSelector
  | .missingSelector .. => some .missingSelector
  | .alreadyExternal _ => some .alreadyExternal
  | .notExternal _ | .noExternalAt _ => some .notExternal
  | .duplicateVariable _ => some .duplicateVariable
  | .tentacleCount .. | .relabelRank .. | .replacementRank .. | .patternRank .. => some .rankMismatch
  | .wrongResponseType => some .wrongResponseType
  | .builderInvalid => some .builderInvalid
  | .builderActive => some .builderActive
  | .fault => none

def ranked (nt : Nonterminal) : Bytes := nt.label ++ "/" ++ Bytes.ofInt nt.rank

def context : HeapError → Option Bytes
  | .unknownId id => some ("public ID " ++ Bytes.ofInt id)
  | .wrongKind id found expected =>
      some ("public ID " ++ Bytes.ofInt id ++ " is a " ++ found.name ++ ", expected " ++ expected.name)
  | .notIsolated node | .alreadyExternal node | .notExternal node => some ("node " ++ Bytes.ofInt node)
  | .duplicateSelector node s => some ("node " ++ Bytes.ofInt node ++ " already has selector " ++ quoted s)
  | .missingSelector node s => some ("node " ++ Bytes.ofInt node ++ " has no selector " ++ quoted s)
  | .noExternalAt i => some ("no external node at ordinal " ++ Bytes.ofInt i)
  | .duplicateVariable x => some ("variable " ++ quoted x)
  | .tentacleCount nt given =>
      some (nt.label ++ " has rank " ++ Bytes.ofInt nt.rank ++ " but got " ++ Bytes.ofNat given ++ " tentacles")
  | .relabelRank old new => some ("cannot relabel " ++ ranked old ++ " as " ++ ranked new)
  | .replacementRank edge rank externals =>
      some ("edge " ++ Bytes.ofInt edge ++ " has rank " ++ Bytes.ofInt rank ++ " but replacement has " ++
        Bytes.ofNat externals ++ " external nodes")
  | .gluedSelector s node => some ("gluing selector " ++ quoted s ++ " onto node " ++ Bytes.ofNat node)
  | .patternRank nt externals =>
      some (nt.label ++ " has rank " ++ Bytes.ofInt nt.rank ++ " but pattern has " ++ Bytes.ofNat externals ++
        " external nodes")
  | .partialMatching given expected =>
      some ("matching covers " ++ Bytes.ofNat given ++ " of " ++ Bytes.ofNat expected ++ " pattern elements")
  | .wrongResponseType | .builderInvalid | .builderActive | .fault => none

def message (e : HeapError) : Bytes :=
  match e.kind?, e.context with
  | some k, some c => k.inContext c
  | some k, none => k.text
  | none, _ => []

end HeapError

end HeapAbstraction
