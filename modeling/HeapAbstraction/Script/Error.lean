import HeapAbstraction.Catalog.Basic
import HeapAbstraction.Grammar.Materialization
import HeapAbstraction.Options.Load

namespace HeapAbstraction.Script

inductive ExceptionClass where
  | attributeError
  | permissionError
  | runtimeError
  | typeError
  | valueError
deriving DecidableEq, Repr

def ExceptionClass.name : ExceptionClass → Bytes
  | .attributeError => "AttributeError"
  | .permissionError => "PermissionError"
  | .runtimeError => "RuntimeError"
  | .typeError => "TypeError"
  | .valueError => "ValueError"

inductive CountedMethod where
  | equals
  | canonicalize
  | materialize
  | tryAdd
deriving DecidableEq, Repr

def CountedMethod.usage : CountedMethod → Bytes
  | .equals => "Equals() takes exactly one Heap"
  | .canonicalize => "Canonicalize() takes exactly one Heap"
  | .materialize => "Materialize() takes a Heap, a variable and a selector"
  | .tryAdd => "TryAdd() takes exactly one Heap"

inductive CallError where
  | noAttribute (typeName name : Bytes)
  | notCallable (typeName : Bytes)
  | tooManyArguments (given expected : Nat)
  | unsupportedArgument (index : Nat) (typeName : Bytes)
  | usage (method : CountedMethod)
  | argumentsGiven (method : Bytes) (given : Nat)
  | notOneArgument (method : Bytes) (given : Nat)
  | notHeap (typeName : Bytes)
  | heapFile (cause : HeapFile.FileError)
  | rules (cause : RuleError)
  | materialization (cause : MaterializationError)
  | options (cause : Options.LoadError)
  | negativeDistance
  | readOnlyCatalog
  | openCatalog (cause : CatalogError)
  | broken (cause : HeapError)

namespace CallError

def exceptionClass? : CallError → Option ExceptionClass
  | .noAttribute _ _ => some .attributeError
  | .notCallable _ => some .typeError
  | .tooManyArguments _ _ => some .runtimeError
  | .unsupportedArgument _ _ => some .typeError
  | .usage _ => some .typeError
  | .argumentsGiven _ _ => some .typeError
  | .notOneArgument _ _ => some .typeError
  | .notHeap _ => some .typeError
  | .heapFile _ => some .valueError
  | .rules _ => some .valueError
  | .materialization _ => some .runtimeError
  | .options _ => some .valueError
  | .negativeDistance => some .valueError
  | .readOnlyCatalog => some .permissionError
  | .openCatalog _ => some .runtimeError
  | .broken _ => none

def message : CallError → Bytes
  | .noAttribute typeName name => "'" ++ typeName ++ "' has no attribute '" ++ name ++ "'"
  | .notCallable typeName => "'" ++ typeName ++ "' object is not callable"
  | .tooManyArguments given expected =>
      Bytes.ofNat given ++ " args given, expected " ++ Bytes.ofNat expected
  | .unsupportedArgument index typeName =>
      "arg " ++ Bytes.ofNat index ++ " has unsupported object type: " ++ typeName
  | .usage method => method.usage
  | .argumentsGiven method given => method ++ "() takes no arguments (" ++ Bytes.ofNat given ++ " given)"
  | .notOneArgument method given =>
      method ++ "() takes exactly 1 argument (" ++ Bytes.ofNat given ++ " given)"
  | .notHeap typeName => "expected Heap object (got " ++ typeName ++ ")"
  | .heapFile cause => cause.message
  | .rules cause => cause.message
  | .materialization cause => cause.message
  | .options cause => cause.message
  | .negativeDistance => "min abstraction distance must be >= 0"
  | .readOnlyCatalog => "catalog is in read-only mode"
  | .openCatalog cause => cause.message
  | .broken cause => cause.message

end CallError

end HeapAbstraction.Script
