import HeapAbstraction.Document.Node
import HeapAbstraction.Options.Basic
import HeapAbstraction.Options.Scalar

namespace HeapAbstraction.Options

open Document (Node Contents)

inductive Stop where
  | malformed
  | fault
deriving DecidableEq, Repr

-- a value of any sort as far as values are told apart: a scalar by its meaning and spelling, or a collection
inductive Content where
  | scalar (meaning : Scalar.Meaning) (spelling : Bytes)
  | collection
deriving DecidableEq, Repr

namespace Content

def ofText (text : Bytes) : Content := .scalar (.text text) []

def ofScalar (meaning : Scalar.Meaning) (spelling : Bytes) : Content :=
  match meaning with
  | .fraction cut => .scalar (.fraction cut) spelling
  | .date => .scalar .date spelling
  | m => .scalar m []

end Content

structure Progress where
  visited : Nat := 0
  visitedByName : Nat := 0
  followed : List Nat := []
  mistaken : Bool := false
  taken : Option (List Content) := none
deriving Repr

abbrev Decoder := StateT Progress (Except Stop)

namespace Decoder

def stop {α : Type} (s : Stop) : Decoder α := throw s

def mistake : Decoder Unit := modify (fun p => { p with mistaken := true })

-- whether too many of the visits of nodes came by way of names: more than 99 of 100, and less the more there are
def isExcessive (visited byName : Nat) : Bool :=
  100 < byName && 1000 < visited &&
    if visited ≤ 400000 then 99 * visited < 100 * byName
    else if 4000000 ≤ visited then visited < 10 * byName
    else visited * (99 * 3600000 - 89 * (visited - 400000)) < 100 * 3600000 * byName

def visit : Decoder Unit := do
  let p ← get
  let byName := if p.followed.isEmpty then p.visitedByName else p.visitedByName + 1
  if isExcessive (p.visited + 1) byName then stop .malformed
  else set { p with visited := p.visited + 1, visitedByName := byName }

def visiting {α : Type} (c : Contents) (node : Node) (decode : Node → Decoder α) : Decoder α := do
  visit
  match node with
  | .alias _ use number =>
      if (← get).followed.contains use then stop .malformed
      else
        modify (fun p => { p with followed := use :: p.followed })
        visit
        let a ← decode (c.node number)
        modify (fun p => { p with followed := p.followed.erase use })
        return a
  | node => decode node

def meaning (bare : Bool) (tag text : Bytes) : Decoder Scalar.Meaning :=
  match Scalar.meaning? bare tag text with
  | some m => return m
  | none => stop .malformed

def scalarOr {α : Type} (c : Contents) (present : α) (node : Node) (take : Scalar.Meaning → Bytes → Option α) :
    Decoder α :=
  visiting c node (fun
    | .scalar bare tag text => do
        let m ← meaning bare tag text
        if m = .null then return present
        else match take m text with
          | some a => return a
          | none => do
              mistake
              return present
    | _ => do
        mistake
        return present)

def distance (c : Contents) (present : Int) (node : Node) : Decoder Int :=
  scalarOr c present node (fun m _ => m.toInt32?)

def switch (c : Contents) (present : Bool) (node : Node) : Decoder Bool :=
  scalarOr c present node (fun m _ => m.toBool?)

def name (c : Contents) (node : Node) : Decoder (Option Bytes) :=
  scalarOr c none node (fun m text => some (some (m.spelling text)))

def names (c : Contents) (present : List Bytes) (node : Node) : Decoder (List Bytes) :=
  visiting c node (fun
    | .sequence items => do return (← items.mapM (name c)).filterMap id
    | .scalar bare tag text => do
        if (← meaning bare tag text) = .null then return []
        else
          mistake
          return present
    | _ => do
        mistake
        return present)

end Decoder

def sameKey : Node → Node → Bool
  | .scalar _ _ a, .scalar _ _ b => a == b
  | .sequence _, .sequence _ => true
  | .mapping _, .mapping _ => true
  | .alias a _ _, .alias b _ _ => a == b
  | _, _ => false

def hasRepeatedKey : List (Node × Node) → Bool
  | [] => false
  | (key, _) :: rest => rest.any (fun e => sameKey key e.1) || hasRepeatedKey rest

def isMerge : Node → Bool
  | .scalar bare tag text => text == Scalar.mergeWord && Scalar.tagOf bare tag text == Scalar.mergeTag
  | _ => false

def isTextualKey (c : Contents) (key : Node) : Bool :=
  let node := match key with
    | .alias _ _ number => c.node number
    | node => node
  match node with
  | .scalar bare tag text => Scalar.isTextual bare tag text
  | _ => false

def isMapping (c : Contents) : Node → Bool
  | .mapping _ => true
  | .alias _ _ number => match c.node number with
    | .mapping _ => true
    | _ => false
  | _ => false

def mergedNodes : Node → List Node
  | .sequence items => items
  | node => [node]

def names : List Bytes :=
  ["min_abstraction_distance", "aggressive_null_abstraction", "constants", "confluent"]

def set (c : Contents) (opts : Options) (name : Bytes) (value : Node) : Decoder Options :=
  if name = "min_abstraction_distance" then do
    return { opts with minDistance := ← Decoder.distance c opts.minDistance value }
  else if name = "aggressive_null_abstraction" then do
    return { opts with aggressive := ← Decoder.switch c opts.aggressive value }
  else if name = "constants" then do return { opts with constants := ← Decoder.names c opts.constants value }
  else if name = "confluent" then do return { opts with confluent := ← Decoder.switch c opts.confluent value }
  else return opts

inductive Target where
  | options (opts : Options)
  | table (textKeys : Bool)

def takeKey (taken : Option (List Content)) (key : Content) : Decoder (Bool × Option (List Content)) :=
  match taken with
  | none => return (true, none)
  | some keys =>
      if key = .collection then Decoder.stop .fault
      else if keys.contains key then return (false, taken)
      else return (true, some (key :: keys))

def setOnce (c : Contents) (opts : Options) (done : List Bytes) (name : Bytes) (value : Node) :
    Decoder (Options × List Bytes) :=
  if !names.contains name then return (opts, done)
  else if done.contains name then do
    Decoder.mistake
    return (opts, done)
  else do return (← set c opts name value, name :: done)

def setEntries (c : Contents) : Options → List Bytes → Option (List Content) → List (Node × Node) →
    Decoder (Options × Option (List Content))
  | opts, _, taken, [] => return (opts, taken)
  | opts, done, taken, (key, value) :: rest => do
      match ← Decoder.name c key with
      | none => setEntries c opts done taken rest
      | some name =>
          let (isNew, taken) ← takeKey taken (.ofText name)
          if !isNew then setEntries c opts done taken rest
          else
            let (opts, done) ← setOnce c opts done name value
            setEntries c opts done taken rest

mutual

def decodeAny (c : Contents) : Nat → Node → Decoder (Bool × Content)
  | 0, _ => Decoder.stop .malformed
  | n + 1, node => Decoder.visiting c node (fun
    | .scalar bare tag text => do return (true, .ofScalar (← Decoder.meaning bare tag text) text)
    | .sequence items => do
        items.forM (fun item => do
          let _ ← decodeAny c n item
          return ())
        return (true, .collection)
    | .mapping entries => do
        let (good, _) ← decodeMapping c n (.table (entries.all (fun e => isTextualKey c e.1))) entries
        return (good, .collection)
    | .alias _ _ _ => Decoder.stop .malformed)

def decodeMapping (c : Contents) : Nat → Target → List (Node × Node) → Decoder (Bool × Target)
  | 0, _, _ => Decoder.stop .malformed
  | n + 1, target, entries => do
      if hasRepeatedKey entries then
        Decoder.mistake
        return (false, target)
      else
        let taken := (← get).taken
        modify (fun p => { p with taken := none })
        let own := entries.filter (fun e => !isMerge e.1)
        let (target, taken) ← match target with
          | .options opts => do
              let (opts, taken) ← setEntries c opts [] taken own
              pure (Target.options opts, taken)
          | .table textKeys => do pure (target, ← fillTable c n textKeys taken own)
        modify (fun p => { p with taken := taken })
        match entries.find? (fun e => isMerge e.1) with
        | none => return (true, target)
        | some (_, value) => do return (true, ← merge c n target (entries.map Prod.fst) value)

def fillTable (c : Contents) : Nat → Bool → Option (List Content) → List (Node × Node) →
    Decoder (Option (List Content))
  | _, _, taken, [] => return taken
  | 0, _, _, _ => Decoder.stop .malformed
  | n + 1, textKeys, taken, (key, value) :: rest => do
      let (good, found) ←
        if textKeys then do
          match ← Decoder.name c key with
          | some text => pure (true, Content.ofText text)
          | none => pure (false, Content.collection)
        else decodeAny c n key
      if !good then fillTable c n textKeys taken rest
      else
        let (isNew, taken) ← takeKey taken found
        if !isNew then fillTable c n textKeys taken rest
        else if found = .collection then Decoder.stop .malformed
        else
          let _ ← decodeAny c n value
          fillTable c n textKeys taken rest

def merge (c : Contents) : Nat → Target → List Node → Node → Decoder Target
  | 0, _, _, _ => Decoder.stop .malformed
  | n + 1, target, keys, value => do
      let outermost := (← get).taken.isNone
      if outermost then
        modify (fun p => { p with taken := some [] })
        takeKeys c n keys
      let merged ← mergeEach c n target (mergedNodes value)
      if outermost then modify (fun p => { p with taken := none })
      return merged

def takeKeys (c : Contents) : Nat → List Node → Decoder Unit
  | _, [] => return ()
  | 0, _ => Decoder.stop .malformed
  | n + 1, key :: rest => do
      let (good, found) ← decodeAny c n key
      if good then
        let (_, taken) ← takeKey (← get).taken found
        modify (fun p => { p with taken := taken })
      takeKeys c n rest

def mergeEach (c : Contents) : Nat → Target → List Node → Decoder Target
  | _, target, [] => return target
  | 0, _, _ => Decoder.stop .malformed
  | n + 1, target, node :: rest => do
      if !isMapping c node then Decoder.stop .malformed
      else
        let merged ← Decoder.visiting c node (fun
          | .mapping entries => do return (← decodeMapping c n target entries).2
          | _ => return target)
        mergeEach c n merged rest

end

def decodeRoot (c : Contents) (depth : Nat) : Decoder Options := do
  Decoder.visit
  Decoder.visiting c c.root (fun
    | .mapping entries => do
        match (← decodeMapping c depth (.options {}) entries).2 with
        | .options opts => return opts
        | .table _ => return {}
    | .scalar bare tag text => do
        if (← Decoder.meaning bare tag text) != .null then Decoder.mistake
        return {}
    | _ => do
        Decoder.mistake
        return {})

def ofContents (c : Contents) (depth : Nat) : Except Stop Options := do
  let (opts, progress) ← (decodeRoot c depth).run {}
  if progress.mistaken then throw .malformed else return opts

end HeapAbstraction.Options
