import HeapAbstraction.Grammar.Canonical
import HeapAbstraction.Script.Operator
import HeapAbstraction.Script.Printer

namespace HeapAbstraction.Script

structure Session where
  storage : Storage := {}
  options : Options := {}
  catalogs : List Catalog := []

abbrev Reply := Session × Except CallError Value

def loadArguments (args : List Value) (expected : Nat) : Except CallError Unit :=
  if expected < args.length then .error (.tooManyArguments args.length expected)
  else
    match args.zipIdx.find? (fun p => !p.1.isPlain) with
    | some (v, index) => .error (.unsupportedArgument index v.typeName)
    | none => .ok ()

def argument (args : List Value) (index : Nat) : Value := args.getD index .none

def expectHeap : Value → Except CallError Heap
  | .heap h => .ok h
  | v => .error (.notHeap v.typeName)

def onlyHeap (method : CountedMethod) : List Value → Except CallError Heap
  | [v] => expectHeap v
  | _ => .error (.usage method)

def heaps (hs : List Heap) : Value := .tuple (hs.map .heap)

def parseHeap (args : List Value) : Except CallError Value := do
  loadArguments args 1
  let d ← (HeapFile.readHeap (argument args 0).toText).mapError .heapFile
  return .heap d.heap

def parseGrammar (args : List Value) : Except CallError Value := do
  loadArguments args 1
  let defs ← (HeapFile.readDefinitions (argument args 0).toText).mapError .heapFile
  return .grammar (← (Grammar.ofDefinitions defs).mapError .rules)

def moduleCall (s : Session) (method : Bytes) (args : List Value) : Option Reply :=
  if method = "ParseHeap" then some (s, parseHeap args)
  else if method = "ParseGrammar" then some (s, parseGrammar args)
  else if method = "GetWorkspace" then some (s, .ok .workspace)
  else none

def heapCall (h : Heap) (method : Bytes) (args : List Value) : Option (Except CallError Value) :=
  if method = "NumNodes" then some (.ok (.int (h.countOf .node)))
  else if method = "NumEdges" then some (.ok (.int (h.countOf .nonterminal)))
  else if method = "Clone" then some (.ok (.heap h))
  else if method = "Equals" then some (do return .bool (h.equals (← onlyHeap .equals args)))
  else if method = "Fingerprint" then some (.ok (.int h.fingerprint.toInt64.toInt))
  else none

def canonicalize (opts : Options) (g : Grammar) (args : List Value) : Except CallError Value := do
  let h ← onlyHeap .canonicalize args
  match (g.canonicalize opts h).result with
  | .ok forms => return heaps forms
  | .error e => .error (.broken e)

def materializationError : MaterializationError → CallError
  | .noVariable requirement => .materialization (.noVariable requirement)
  | .edit cause => .broken cause

def materialize (g : Grammar) : List Value → Except CallError Value
  | [target, name, selector] => do
      loadArguments [name, selector] 2
      let h ← expectHeap target
      let unfolded ← ((g.materialize h [⟨name.toText, selector.toText⟩]).result).mapError materializationError
      return heaps unfolded
  | _ => .error (.usage .materialize)

def grammarCall (s : Session) (g : Grammar) (method : Bytes) (args : List Value) :
    Option (Except CallError Value) :=
  if method = "NumRules" then some (.ok (.int g.ruleCount))
  else if method = "Canonicalize" then some (canonicalize s.options g args)
  else if method = "Materialize" then some (materialize g args)
  else none

def loadError : Options.LoadError → CallError
  | .fault => .broken .fault
  | e => .options e

def loadOptions (s : Session) (args : List Value) : Except CallError Session := do
  loadArguments args 1
  let opts ← (Options.load s.storage (argument args 0).toText).mapError loadError
  return { s with options := opts }

def setConfluent (s : Session) (args : List Value) : Except CallError Session := do
  loadArguments args 1
  match args with
  | [] => return s
  | v :: _ => return { s with options := { s.options with confluent := v.toBool } }

def setMinDistance (s : Session) (args : List Value) : Except CallError Session := do
  loadArguments args 1
  let distance := (argument args 0).toInt32
  if distance < 0 then .error .negativeDistance
  else return { s with options := { s.options with minDistance := distance } }

def effect (s : Session) : Except CallError Session → Reply
  | .ok changed => (changed, .ok .none)
  | .error e => (s, .error e)

def openCatalog (s : Session) (args : List Value) : Reply :=
  match loadArguments args 2 with
  | .error e => (s, .error e)
  | .ok () =>
      match s.storage.openCatalog (argument args 0).toText ((argument args 1).toInt32 % 2 == 1) with
      | (storage, .error e) => ({ s with storage := storage }, .error (.openCatalog e))
      | (storage, .ok c) =>
          ({ s with storage := storage, catalogs := s.catalogs ++ [c] }, .ok (.catalog s.catalogs.length))

def catalogExists (s : Session) (args : List Value) : Except CallError Value := do
  loadArguments args 1
  return .bool (s.storage.mayExist (argument args 0).toText)

def workspaceCall (s : Session) (method : Bytes) (args : List Value) : Option Reply :=
  if method = "LoadOpts" then some (effect s (loadOptions s args))
  else if method = "SetConfluent" then some (effect s (setConfluent s args))
  else if method = "SetMinDistance" then some (effect s (setMinDistance s args))
  else if method = "OpenCatalog" then some (openCatalog s args)
  else if method = "CatalogExists" then some (s, catalogExists s args)
  else none

def Session.setCatalog (s : Session) (number : Nat) (c : Catalog) : Session :=
  { s with catalogs := s.catalogs.set number c }

def tryAdd (s : Session) (number : Nat) (c : Catalog) (args : List Value) : Reply :=
  if c.readOnly then (s, .error .readOnlyCatalog)
  else match onlyHeap .tryAdd args with
    | .error e => (s, .error e)
    | .ok h =>
        match c.insert h with
        | .error _ => (s, .error (.broken .fault))
        | .ok (added, changed) => (s.setCatalog number changed, .ok (.bool added))

def select (c : Catalog) (args : List Value) : Except CallError Value := do
  loadArguments args 2
  match c.select (argument args 0).toInt32 (argument args 1).toInt32 with
  | .ok found => return heaps found
  | .error _ => .error (.broken .fault)

def closeCatalog (s : Session) (number : Nat) (c : Catalog) : Session :=
  let (storage, closed) := s.storage.closeCatalog c
  { s with storage := storage }.setCatalog number closed

def catalogCall (s : Session) (number : Nat) (c : Catalog) (method : Bytes) (args : List Value) :
    Option Reply :=
  if method = "TryAdd" then some (tryAdd s number c args)
  else if method = "NumHeaps" then some (s, .ok (.int c.size))
  else if method = "Select" then some (s, select c args)
  else if method = "Close" then some (closeCatalog s number c, .ok .none)
  else none

def moduleAttribute? (name : Bytes) : Option Value :=
  if name = "LIB_VERSION" then some (.str "v1.2024.1")
  else if name = "PY_VERSION" then some (.str "v3.4.0")
  else if name = "READ_ONLY" then some (.int 1)
  else if name = "_Workspace" then some .workspace
  else if name = "__doc__" then some (.str "heap abstraction gpython module")
  else if name = "__name__" then some (.str Value.libraryName)
  else none

def moduleFunctions : List Bytes := ["ParseHeap", "ParseGrammar", "GetWorkspace"]

def lengthOf? : Value → Option Nat
  | .str text => some (Text.charCount text)
  | .tuple items => some items.length
  | _ => none

def truthOf? : Value → Option Bool
  | .none => some false
  | .bool b => some b
  | .int n => some (n != 0)
  | .str text => some !text.isEmpty
  | .tuple items => some !items.isEmpty
  | _ => none

def ownCall? (v : Value) (method : Bytes) : Option (Except CallError Value) :=
  if method = "__repr__" then
    if v.hasText || v.isLibrary then some (((represent v).map Value.str).mapError .broken) else none
  else if method = "__str__" then
    if v.hasText then some (((display v).map Value.str).mapError .broken) else none
  else if method = "__len__" then (lengthOf? v).map (fun n => .ok (.int n))
  else if method = "__bool__" then (truthOf? v).map (fun b => .ok (.bool b))
  else none

def operatorCall (v : Value) (method : Bytes) (args : List Value) : Option (Except CallError Value) :=
  (operator? v method).map (fun op => match args with
    | [w] => .ok (op w)
    | _ => .error (.notOneArgument method args.length))

def ownCall (v : Value) (method : Bytes) (args : List Value) : Option (Except CallError Value) :=
  match ownCall? v method with
  | some answer => some (if args.isEmpty then answer else .error (.argumentsGiven method args.length))
  | none => operatorCall v method args

def getAttribute (name : Bytes) : Except CallError Value :=
  match moduleAttribute? name with
  | some v => .ok v
  | none =>
      if moduleFunctions.contains name || (ownCall? .library name).isSome then .ok (.function name)
      else .error (.noAttribute Value.library.typeName name)

def callMethod? (s : Session) (receiver : Value) (method : Bytes) (args : List Value) : Option Reply :=
  match receiver with
  | .library => (moduleCall s method args).or ((ownCall receiver method args).map (fun r => (s, r)))
  | .heap h => ((heapCall h method args).or (ownCall receiver method args)).map (fun r => (s, r))
  | .grammar g => (grammarCall s g method args).map (fun r => (s, r))
  | .workspace => workspaceCall s method args
  | .catalog number =>
      match s.catalogs[number]? with
      | some c => catalogCall s number c method args
      | none => none
  | _ => (ownCall receiver method args).map (fun r => (s, r))

def missingMethod (receiver : Value) (method : Bytes) : CallError :=
  match receiver, moduleAttribute? method with
  | .library, some v => .notCallable v.typeName
  | _, _ => .noAttribute receiver.typeName method

def call (s : Session) (receiver : Value) (method : Bytes) (args : List Value) : Reply :=
  (callMethod? s receiver method args).getD (s, .error (missingMethod receiver method))

end HeapAbstraction.Script
