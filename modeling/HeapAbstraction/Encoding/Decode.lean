import HeapAbstraction.Encoding.Encode
import HeapAbstraction.Text.Quoted
import HeapAbstraction.ErrorKind

namespace HeapAbstraction.Encoding

open Text (quoted)

structure RawLabel where
  selector : Bytes
  tentacle : Option Nat
deriving DecidableEq, Repr

structure RawArc where
  target : Nat
  labels : List RawLabel
deriving DecidableEq, Repr

structure RawElement where
  kind : Nat
  name : Bytes
  rank : Nat
  ordinal : Option Nat
  id : Nat
  arcs : List RawArc
deriving DecidableEq, Repr

inductive ShapeError where
  | rankedNode (v rank : Nat)
  | rankedVariable (v rank : Nat)
  | repeatedVariable (name : Bytes)
  | unknownKind (v kind : Nat)
  | externalEdge (kind v : Nat)
  | repeatedArc (v target : Nat)
  | bareArc (v target : Nat)
  | notToNode (v target : Nat)
  | badSelector (selector : Bytes) (kind v : Nat)
  | repeatedSelector (v : Nat) (selector : Bytes)
  | badTentacle (ordinal kind v rank : Nat)
  | missingTentacle (kind v ordinal : Nat)
deriving DecidableEq, Repr

namespace ShapeError

def message : ShapeError → Bytes
  | .rankedNode v rank => "node " ++ Bytes.ofNat v ++ " has rank " ++ Bytes.ofNat rank
  | .rankedVariable v rank => "variable " ++ Bytes.ofNat v ++ " has rank " ++ Bytes.ofNat rank
  | .repeatedVariable x => "variable " ++ quoted x ++ " appears twice"
  | .unknownKind v kind => "vertex " ++ Bytes.ofNat v ++ " has unknown kind " ++ Bytes.ofNat kind
  | .externalEdge kind v => Kind.nameOfCode kind ++ " " ++ Bytes.ofNat v ++ " is external"
  | .repeatedArc v t => "vertex " ++ Bytes.ofNat v ++ " has two arcs to " ++ Bytes.ofNat t
  | .bareArc v t => "arc " ++ Bytes.ofNat v ++ " -> " ++ Bytes.ofNat t ++ " has no labels"
  | .notToNode v t => "arc " ++ Bytes.ofNat v ++ " -> " ++ Bytes.ofNat t ++ " does not end at a node"
  | .badSelector s kind v =>
      "bad selector " ++ quoted s ++ " on " ++ Kind.nameOfCode kind ++ " " ++ Bytes.ofNat v
  | .repeatedSelector v s => "node " ++ Bytes.ofNat v ++ " has selector " ++ quoted s ++ " twice"
  | .badTentacle i kind v rank =>
      "bad tentacle " ++ Bytes.ofNat i ++ " on " ++ Kind.nameOfCode kind ++ " " ++ Bytes.ofNat v ++ " of rank " ++
        Bytes.ofNat rank
  | .missingTentacle kind v i =>
      Kind.nameOfCode kind ++ " " ++ Bytes.ofNat v ++ " is missing tentacle " ++ Bytes.ofNat i

end ShapeError

inductive DecodeError where
  | unreadable (error : Varint.ReadError)
  | exceeds (value limit : Nat)
  | unsupported (version : Nat)
  | tooShort (elements bytes : Nat)
  | repeatedId (id : Nat)
  | repeatedOrdinal (ordinal : Nat)
  | ordinalGap
  | misshapen (error : ShapeError)
deriving DecidableEq, Repr

namespace DecodeError

def context : DecodeError → Bytes
  | .unreadable e => e.message
  | .exceeds x limit =>
      ErrorKind.badEncoding.inContext ("value " ++ Bytes.ofNat x ++ " exceeds " ++ Bytes.ofNat limit)
  | .unsupported v => "unsupported version " ++ Bytes.ofNat v
  | .tooShort n bytes => Bytes.ofNat n ++ " vertices cannot fit in " ++ Bytes.ofNat bytes ++ " bytes"
  | .repeatedId id => "public ID " ++ Bytes.ofNat id ++ " used twice"
  | .repeatedOrdinal i => "external ordinal " ++ Bytes.ofNat i ++ " used twice"
  | .ordinalGap => "external ordinals are not contiguous"
  | .misshapen e => e.message

def message (e : DecodeError) : Bytes := ErrorKind.badEncoding.inContext e.context

end DecodeError

def maxPublicIds : Nat := 0x1000000

def maxSmall : Nat := 0x10000

def minElementBytes : Nat := 6

abbrev Reader (α : Type) := Bytes → Except DecodeError (α × Bytes)

def getNat (limit : Nat) : Reader Nat := fun bs =>
  match Varint.read bs with
  | .error e => .error (.unreadable e)
  | .ok (x, rest) => if limit < x then .error (.exceeds x limit) else .ok (x, rest)

def getString : Reader Bytes := fun bs =>
  match Varint.readString bs with
  | .error e => .error (.unreadable e)
  | .ok r => .ok r

def getList {α : Type} (get : Reader α) : Nat → Reader (List α)
  | 0, bs => .ok ([], bs)
  | n + 1, bs => do
      let (a, bs) ← get bs
      let (as, bs) ← getList get n bs
      return (a :: as, bs)

def fromSuccessor : Nat → Option Nat
  | 0 => none
  | n + 1 => some n

def getLabel : Reader RawLabel := fun bs => do
  let (selector, bs) ← getString bs
  let (tentacle, bs) ← getNat maxSmall bs
  return (⟨selector, fromSuccessor tentacle⟩, bs)

def getArc (elements : Nat) : Reader RawArc := fun bs => do
  let (target, bs) ← getNat (elements - 1) bs
  let (count, bs) ← getNat maxSmall bs
  let (labels, bs) ← getList getLabel count bs
  return (⟨target, labels⟩, bs)

def getElement (ids elements : Nat) : Reader RawElement := fun bs => do
  let (kind, bs) ← getNat 3 bs
  let (name, bs) ← getString bs
  let (rank, bs) ← getNat maxSmall bs
  let (ordinal, bs) ← getNat elements bs
  let (id, bs) ← getNat (ids - 1) bs
  let (count, bs) ← getNat elements bs
  let (arcs, bs) ← getList (getArc elements) count bs
  return (⟨kind, name, rank, fromSuccessor ordinal, id, arcs⟩, bs)

def getElements (ids elements : Nat) : Nat → List RawElement → Reader (List RawElement)
  | 0, done, bs => .ok (done, bs)
  | n + 1, done, bs => do
      let (e, bs) ← getElement ids elements bs
      if done.any (fun d => d.id == e.id) then .error (.repeatedId e.id)
      else match e.ordinal with
        | some i =>
            if done.any (fun d => d.ordinal == some i) then .error (.repeatedOrdinal i)
            else getElements ids elements n (done ++ [e]) bs
        | none => getElements ids elements n (done ++ [e]) bs

namespace RawElement

def tentacleCount (e : RawElement) : Nat := if e.kind = 3 then 1 else e.rank

def kindAt (es : List RawElement) (v : Nat) : Nat := ((es[v]?).map RawElement.kind).getD 0

def checkLabels (e : RawElement) (v : Nat) :
    List Bytes → List Nat → List RawLabel → Except ShapeError (List Bytes × List Nat)
  | selectors, tentacles, [] => .ok (selectors, tentacles)
  | selectors, tentacles, l :: rest =>
      match l.tentacle with
      | none =>
          if e.kind ≠ 1 ∨ l.selector.isEmpty then .error (.badSelector l.selector e.kind v)
          else if selectors.contains l.selector then .error (.repeatedSelector v l.selector)
          else checkLabels e v (l.selector :: selectors) tentacles rest
      | some i =>
          if !l.selector.isEmpty ∨ e.tentacleCount ≤ i ∨ tentacles.contains i then
            .error (.badTentacle i e.kind v e.tentacleCount)
          else checkLabels e v selectors (i :: tentacles) rest

def checkArcs (es : List RawElement) (e : RawElement) (v : Nat) :
    List Nat → List Bytes → List Nat → List RawArc → Except ShapeError (List Nat)
  | _, _, tentacles, [] => .ok tentacles
  | targets, selectors, tentacles, a :: rest => do
      if targets.contains a.target then .error (.repeatedArc v a.target)
      else if a.labels.isEmpty then .error (.bareArc v a.target)
      else if kindAt es a.target ≠ 1 then .error (.notToNode v a.target)
      else
        let (selectors, tentacles) ← checkLabels e v selectors tentacles a.labels
        checkArcs es e v (a.target :: targets) selectors tentacles rest

def checkKind (e : RawElement) (v : Nat) (taken : List Bytes) : Except ShapeError Unit :=
  match Kind.ofCode? e.kind with
  | some .node => if e.rank ≠ 0 then .error (.rankedNode v e.rank) else .ok ()
  | some .variable =>
      if e.rank ≠ 0 then .error (.rankedVariable v e.rank)
      else if taken.contains e.name then .error (.repeatedVariable e.name)
      else .ok ()
  | some .nonterminal => .ok ()
  | none => .error (.unknownKind v e.kind)

def check (es : List RawElement) (e : RawElement) (v : Nat) (taken : List Bytes) :
    Except ShapeError Unit := do
  checkKind e v taken
  if e.ordinal.isSome ∧ e.kind ≠ 1 then .error (.externalEdge e.kind v)
  else
    let tentacles ← checkArcs es e v [] [] [] e.arcs
    match (List.range e.tentacleCount).find? (fun i => !tentacles.contains i) with
    | some i => .error (.missingTentacle e.kind v i)
    | none => .ok ()

def checkFrom (es : List RawElement) : Nat → List Bytes → List RawElement → Except ShapeError Unit
  | _, _, [] => .ok ()
  | v, taken, e :: rest => do
      e.check es v taken
      checkFrom es (v + 1) (if e.kind = 3 then e.name :: taken else taken) rest

def label (e : RawElement) : Label :=
  match Kind.ofCode? e.kind with
  | some .nonterminal => .nonterminal ⟨e.name, e.rank⟩
  | some .variable => .variable e.name
  | _ => .node e.name

def edgeLabel (l : RawLabel) : EdgeLabel :=
  match l.tentacle with
  | some i => .tentacle i
  | none => .selector l.selector

def toElement (es : List RawElement) (e : RawElement) (v : Nat) : Element :=
  { label := e.label
    id := e.id
    ordinal := e.ordinal
    arcs := e.arcs.map (fun a => ⟨a.target, a.labels.map edgeLabel⟩)
    preds := (List.range es.length).filter (fun u =>
      ((es[u]?).map RawElement.arcs).getD [] |>.any (fun a => a.target == v)) }

end RawElement

def assemble (ids : Nat) (es : List RawElement) : Heap :=
  { elements := es.zipIdx.map (fun p => p.1.toElement es p.2), nextId := ids }

def ordinalsContiguous (es : List RawElement) : Bool :=
  es.all (fun e => e.ordinal.all (fun i => i < es.countP (fun e => e.ordinal.isSome)))

end HeapAbstraction.Encoding

namespace HeapAbstraction

open Encoding in
def Heap.decode (bs : Bytes) : Except Encoding.DecodeError Heap := do
  let (found, rest) ← getNat maxSmall bs
  if found ≠ version then .error (.unsupported found)
  else
    let (ids, rest) ← getNat maxPublicIds rest
    let (count, rest) ← getNat ids rest
    if bs.length / minElementBytes < count then .error (.tooShort count bs.length)
    else
      let (es, _) ← getElements ids count count [] rest
      if !ordinalsContiguous es then .error .ordinalGap
      else match RawElement.checkFrom es 0 [] es with
        | .error e => .error (.misshapen e)
        | .ok () => return assemble ids es

end HeapAbstraction
