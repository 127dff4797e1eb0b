import HeapAbstraction.Heap.Query

namespace HeapAbstraction

structure PrintOptions where
  label : Bytes := []
  multiline : Bool := false
  publicIds : Bool := false
deriving DecidableEq, Repr

namespace Heap

def nodeName (id : Int) : Bytes := "n" ++ Bytes.ofInt id

def commaSeparated (names : List Bytes) : Bytes := List.intercalate ", " names

def nodeStatements (h : Heap) : Except HeapError (List Bytes) := do
  let typed ← h.nodes.mapM (fun (id : Nat) => do return (id, ← h.nodeTypeOf id))
  return (typed.map Prod.snd).eraseDups.map (fun type =>
    let names := (typed.filter (fun p => p.2 == type)).map (fun p => nodeName p.1)
    "nodes " ++ commaSeparated names ++ " : " ++ type)

def externalStatements (h : Heap) : Except HeapError (List Bytes) := do
  let ids ← h.externalNodes
  if ids.isEmpty then return []
  else return ["ext " ++ commaSeparated (ids.map (fun (id : Nat) => nodeName id))]

def selectorStatement (h : Heap) (node : Nat) (selector : Bytes) : Except HeapError Bytes := do
  let target : Int := match ← h.selectorTargetOf node selector with
    | some t => t
    | none => -1
  return nodeName node ++ "." ++ selector ++ " -> " ++ nodeName target

def selectorStatements (h : Heap) : Except HeapError (List Bytes) := do
  let groups ← h.nodes.mapM (fun (node : Nat) => do (← h.selectorsOf node).mapM (h.selectorStatement node))
  return groups.flatten

def hyperedgeStatement (h : Heap) (opts : PrintOptions) (edge : Nat) : Except HeapError Bytes := do
  let targets ← h.attachedNodesOf edge
  let nt ← h.nonterminalOf edge
  let statement := nt.label ++ "(" ++ commaSeparated (targets.map (fun (id : Nat) => nodeName id)) ++ ")"
  return if opts.publicIds then statement ++ "  # " ++ Bytes.ofNat edge else statement

def variableStatement (h : Heap) (edge : Nat) : Except HeapError Bytes := do
  let name ← h.variableNameOf edge
  let target ← h.variableTargetOf edge
  return name ++ " -> " ++ nodeName target

def statements (h : Heap) (opts : PrintOptions) : Except HeapError (List Bytes) := do
  let nodes ← h.nodeStatements
  let externals ← h.externalStatements
  let selectors ← h.selectorStatements
  let hyperedges ← h.nonterminalEdges.mapM (h.hyperedgeStatement opts)
  let pointers ← h.variableEdges.mapM h.variableStatement
  return nodes ++ externals ++ selectors ++ hyperedges ++ pointers

def print (h : Heap) (opts : PrintOptions) : Except HeapError Bytes := do
  let separator : Bytes := if opts.multiline then "\n    " else "  "
  let heading : Bytes := if opts.label.isEmpty then [] else "# " ++ opts.label ++ "\n"
  let ending : Bytes := if opts.multiline then "\n\x7d\n" else "  \x7d"
  let body ← h.statements opts
  return heading ++ "heap \x7b" ++ body.flatMap (fun s => separator ++ s) ++ ending

def toText (h : Heap) : Except HeapError Bytes := h.print {}

end Heap

end HeapAbstraction
