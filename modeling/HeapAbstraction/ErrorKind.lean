import HeapAbstraction.Bytes

namespace HeapAbstraction

inductive ErrorKind where
  | badId
  | wrongKind
  | rankMismatch
  | duplicateSelector
  | missingSelector
  | notIsolated
  | alreadyExternal
  | notExternal
  | duplicateVariable
  | builderInvalid
  | builderActive
  | wrongResponseType
  | badEncoding
  | badExpr
  | badCatalogParam
  | undeclaredNode
  | unknownNonterminal
  | nonShrinkingRule
deriving DecidableEq, Repr

namespace ErrorKind

def text : ErrorKind → Bytes
  | .badId => "bad or unknown heap element ID"
  | .wrongKind => "heap element is not of the expected kind"
  | .rankMismatch => "nonterminal rank does not match tentacle or external node count"
  | .duplicateSelector => "node already has a selector with that label"
  | .missingSelector => "node has no selector with that label"
  | .notIsolated => "node still has incident edges"
  | .alreadyExternal => "node is already external"
  | .notExternal => "node is not external"
  | .duplicateVariable => "variable name already in use"
  | .builderInvalid => "builder was already built"
  | .builderActive => "heap configuration has an active builder"
  | .wrongResponseType => "grammar response is not of the kind the applier expects"
  | .badEncoding => "bad heap configuration encoding"
  | .badExpr => "bad heap expression"
  | .badCatalogParam => "bad catalog param"
  | .undeclaredNode => "node name was not declared"
  | .unknownNonterminal => "nonterminal label was not declared"
  | .nonShrinkingRule => "folding the rule's right-hand side would not shrink a heap"

def inContext (kind : ErrorKind) (context : Bytes) : Bytes := context ++ ": " ++ kind.text

end ErrorKind

end HeapAbstraction
