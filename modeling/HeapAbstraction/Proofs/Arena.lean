import HeapAbstraction.Proofs.ElementaryEdit
import HeapAbstraction.Heap.Draft

namespace HeapAbstraction

structure Slot where
  label : Label
  pub : Int32
  ordinal : Option Nat := none
  removed : Bool := false
  out : List Arc := []
  succ : List Nat := []
  pred : List Nat := []
deriving DecidableEq

namespace Slot

def kind (s : Slot) : Kind := s.label.kind

def arcIndex (s : Slot) (t : Nat) : Option Nat := s.succ.findIdx? (· == t)

def findLabel (s : Slot) (l : EdgeLabel) : Option Nat := (s.out.find? (fun a => a.labels.contains l)).map Arc.target

def ends (s : Slot) : List (EdgeLabel × Nat) := s.out.flatMap (fun a => a.labels.map (fun l => (l, a.target)))

def placeTentacle (table : List Nat) : EdgeLabel × Nat → Except HeapError (List Nat)
  | (.selector _, _) => .error .fault
  | (.tentacle i, t) => if i < table.length then .ok (table.set i t) else .error .fault

def tentacles (s : Slot) : Except HeapError (List Nat) :=
  if s.label.rank < 0 then .error .fault
  else s.ends.foldlM placeTentacle (List.replicate s.label.rank.toNat 0)

def element (s : Slot) : Element :=
  { label := s.label, id := s.pub.toInt.toNat, ordinal := s.ordinal, removed := s.removed, arcs := s.out, preds := s.pred }

def selectorNames (s : Slot) : List Bytes := s.out.flatMap (fun a => a.labels.map EdgeLabel.name)

def within (n : Nat) (s : Slot) : Bool := s.out.all (fun a => a.target < n) && s.pred.all (fun u => u < n)

end Slot

-- a private ID is a position in `slots`; `none` in `privOf` stands for a public ID whose element was removed
structure Arena where
  slots : List Slot := []
  removedCount : Nat := 0
  privOf : List (Option Nat) := []
  externals : List Nat := []
deriving DecidableEq

namespace Arena

-- a step that fails leaves the tables as its writes until then made them
abbrev Action := EStateM HeapError Arena

variable {α : Type}

def ask (q : Arena → Except HeapError α) : Action α := fun a =>
  match q a with
  | .ok r => .ok r a
  | .error e => .error e a

def slot (a : Arena) (v : Nat) : Except HeapError Slot :=
  match a.slots[v]? with
  | some s => .ok s
  | none => .error .fault

def resolve (a : Arena) : Int → Option Nat
  | .ofNat x => a.privOf[x]?.join
  | .negSucc _ => none

def priv (a : Arena) (id : Int) (kind : Kind) : Except HeapError Nat :=
  match a.resolve id with
  | none => .error (.unknownId id)
  | some v => do
      let s ← a.slot v
      if s.kind = kind then return v else .error (.wrongKind id s.kind kind)

def pub (a : Arena) (v : Nat) : Except HeapError Int32 := Slot.pub <$> a.slot v

def variableSlot? (a : Arena) (name : Bytes) : Option Nat :=
  a.slots.findIdx? (fun s => !s.removed && s.label == .variable name)

def write (v : Nat) (f : Slot → Slot) : Action Unit := fun a =>
  if v < a.slots.length then .ok () { a with slots := a.slots.modify v f } else .error .fault a

def addVertex (label : Label) : Action Nat := fun a =>
  .ok a.slots.length { a with
    slots := a.slots ++ [{ label := label, pub := Int32.ofNat a.privOf.length }]
    privOf := a.privOf ++ [some a.slots.length] }

def addArcLabel (u t : Nat) (l : EdgeLabel) : Action Unit := do
  let s ← ask (slot · u)
  match s.arcIndex t with
  | some i =>
      if i < s.out.length then
        write u (fun s => { s with out := s.out.modify i (fun a => { a with labels := a.labels ++ [l] }) })
      else throw .fault
  | none => do
      write u (fun s => { s with out := s.out ++ [⟨t, [l]⟩], succ := s.succ ++ [t] })
      write t (fun s => { s with pred := s.pred ++ [u] })

def removeArc (u i : Nat) : Action Unit := do
  let s ← ask (slot · u)
  match s.out[i]?, s.succ[i]? with
  | some _, some t => do
      write u (fun s => { s with out := s.out.eraseIdx i, succ := s.succ.eraseIdx i })
      write t (fun s => { s with pred := s.pred.erase u })
  | _, _ => throw .fault

def removeArcLabel (u t : Nat) (l : EdgeLabel) : Action Unit := do
  let s ← ask (slot · u)
  match s.arcIndex t with
  | none => return ()
  | some i =>
      match s.out[i]? with
      | none => throw .fault
      | some a =>
          if l ∈ a.labels then
            write u (fun s => { s with out := s.out.set i { a with labels := a.labels.erase l } })
            if (a.labels.erase l).isEmpty then removeArc u i else return ()
          else return ()

-- arcs go from the last to the first
def detachOut (v : Nat) : Nat → Action Unit
  | 0 => return ()
  | n + 1 => do
      removeArc v n
      detachOut v n

def lastArcInto (v n : Nat) (a : Arena) : Except HeapError (Nat × Nat) := do
  let s ← a.slot v
  match s.pred[n]? with
  | none => .error .fault
  | some u => do
      let r ← a.slot u
      match r.arcIndex v with
      | none => .error .fault
      | some i => return (u, i)

def detachIn (v : Nat) : Nat → Action Unit
  | 0 => return ()
  | n + 1 => do
      let (u, i) ← ask (lastArcInto v n)
      removeArc u i
      detachIn v n

def detach (v : Nat) : Action Unit := do
  let s ← ask (slot · v)
  detachOut v s.out.length
  let s ← ask (slot · v)
  detachIn v s.pred.length

def forget (id : Int32) : Action Unit := fun a =>
  if 0 ≤ id.toInt ∧ id.toInt.toNat < a.privOf.length then
    .ok () { a with privOf := a.privOf.set id.toInt.toNat none }
  else .error .fault a

def renumber : Nat → List Nat → Action Unit
  | _, [] => return ()
  | i, u :: rest => do
      write u (fun s => { s with ordinal := some i })
      renumber (i + 1) rest

def dropExternal (v : Nat) : Action Unit := do
  let s ← ask (slot · v)
  let a ← get
  match s.ordinal with
  | none => throw .fault
  | some i =>
      if i < a.externals.length then
        set { a with externals := a.externals.eraseIdx i }
        write v (fun s => { s with ordinal := none })
        renumber i ((a.externals.eraseIdx i).drop i)
      else throw .fault

def discard (v : Nat) : Action Unit := do
  detach v
  write v (fun s => { s with removed := true, ordinal := none })
  modify (fun a => { a with removedCount := a.removedCount + 1 })

def removeVertex (v : Nat) : Action Unit := do
  let s ← ask (slot · v)
  if s.ordinal.isSome then dropExternal v
  forget s.pub
  discard v

-- two indices walk towards each other over the `n` slots from `lo` on; a removed slot below changes places with a live
-- one above
def converge : List Slot → List (Option Nat) → Nat → Nat → List Slot × List (Option Nat)
  | slots, remap, lo, n + 2 =>
      match slots[lo]?, slots[lo + (n + 1)]? with
      | some s, some r =>
          if !s.removed then converge slots remap (lo + 1) (n + 1)
          else if r.removed then converge slots remap lo (n + 1)
          else converge ((slots.set lo r).set (lo + (n + 1)) s) (remap.set (lo + (n + 1)) (some lo)) (lo + 1) n
      | _, _ => (slots, remap)
  | slots, remap, _, _ => (slots, remap)

def identity (a : Arena) : List (Option Nat) := a.slots.zipIdx.map (fun p => if p.1.removed then none else some p.2)

def moved (remap : List (Option Nat)) (v : Nat) : Nat := (remap[v]?.join).getD danglingSlot

end Arena

def Slot.relocate (remap : List (Option Nat)) (s : Slot) : Slot :=
  let out := s.out.map (fun a => { a with target := Arena.moved remap a.target })
  { s with out := out, succ := out.map Arc.target, pred := s.pred.map (Arena.moved remap) }

namespace Arena

def pack : Action Unit := do
  let a ← get
  if a.removedCount ≠ 0 then
    let (slots, remap) := converge a.slots a.identity 0 a.slots.length
    let live := slots.take (a.slots.length - a.removedCount)
    set { a with slots := live, removedCount := 0 }
    if live.all (Slot.within a.slots.length) then
      set ({ slots := live.map (Slot.relocate remap)
             removedCount := 0
             privOf := a.privOf.map (fun o => o.bind (fun v => remap[v]?.join))
             externals := a.externals.map (moved remap) } : Arena)
    else throw .fault

def addVertices (label : Label) : Nat → Action (List Int32)
  | 0 => return []
  | n + 1 => do
      let v ← addVertex label
      let id ← ask (pub · v)
      let ids ← addVertices label n
      return id :: ids

def linkTentacles (v : Nat) : List (Nat × Nat) → Action Unit
  | [] => return ()
  | (t, i) :: rest => do
      addArcLabel v t (.tentacle i)
      linkTentacles v rest

def addHyperedge (nt : Nonterminal) (targets : List Nat) : Action Nat := do
  let v ← addVertex (.nonterminal nt)
  linkTentacles v targets.zipIdx
  return v

def removeSelectorAt (v : Nat) (selector : Bytes) : Action Unit := do
  let s ← ask (slot · v)
  match s.findLabel (.selector selector) with
  | some t => removeArcLabel v t (.selector selector)
  | none => throw (.missingSelector s.pub.toInt selector)

def privs (nodes : List Int) (a : Arena) : Except HeapError (List Nat) := nodes.mapM (fun node => a.priv node .node)

def perform : ElementaryEdit → Action (List Int32)
  | .addNodes type count =>
      if count < 0 || Heap.requestLimit < count then throw .fault else addVertices (.node type) count.toNat
  | .removeIsolatedNode node => do
      let v ← ask (priv · node .node)
      let s ← ask (slot · v)
      if s.out.isEmpty && s.pred.isEmpty then
        removeVertex v
        return []
      else throw (.notIsolated node)
  | .addSelector source selector target => do
      let v ← ask (priv · source .node)
      let t ← ask (priv · target .node)
      let s ← ask (slot · v)
      match s.findLabel (.selector selector) with
      | some _ => throw (.duplicateSelector source selector)
      | none =>
          addArcLabel v t (.selector selector)
          return []
  | .removeSelector node selector => do
      let v ← ask (priv · node .node)
      removeSelectorAt v selector
      return []
  | .replaceSelector node old new => do
      let v ← ask (priv · node .node)
      let s ← ask (slot · v)
      match s.findLabel (.selector old) with
      | none => throw (.missingSelector node old)
      | some t =>
          if old = new then return []
          else match s.findLabel (.selector new) with
            | some _ => throw (.duplicateSelector node new)
            | none =>
                removeArcLabel v t (.selector old)
                addArcLabel v t (.selector new)
                return []
  | .setExternal node => do
      let v ← ask (priv · node .node)
      let s ← ask (slot · v)
      let a ← get
      match s.ordinal with
      | some _ => throw (.alreadyExternal node)
      | none =>
          write v (fun s => { s with ordinal := some a.externals.length })
          modify (fun a => { a with externals := a.externals ++ [v] })
          return []
  | .unsetExternal node => do
      let v ← ask (priv · node .node)
      let s ← ask (slot · v)
      match s.ordinal with
      | some _ =>
          dropExternal v
          return []
      | none => throw (.notExternal node)
  | .addVariable name target => do
      let t ← ask (priv · target .node)
      let a ← get
      match a.variableSlot? name with
      | some _ => throw (.duplicateVariable name)
      | none =>
          let v ← addVertex (.variable name)
          addArcLabel v t (.tentacle 0)
          let id ← ask (pub · v)
          return [id]
  | .removeVariable edge => do
      let v ← ask (priv · edge .variable)
      removeVertex v
      return []
  | .addNonterminal nt tentacles =>
      if (tentacles.length : Int) ≠ nt.rank then throw (.tentacleCount nt tentacles.length)
      else do
        let targets ← ask (privs tentacles)
        let v ← addHyperedge nt targets
        let id ← ask (pub · v)
        return [id]
  | .removeNonterminal edge => do
      let v ← ask (priv · edge .nonterminal)
      removeVertex v
      return []
  | .relabel edge nt => do
      let v ← ask (priv · edge .nonterminal)
      let s ← ask (slot · v)
      if s.label.rank ≠ nt.rank then throw (.relabelRank ⟨s.label.name, s.label.rank⟩ nt)
      else
        write v (fun s => { s with label := .nonterminal nt })
        return []

def copyVertices (targets : List Nat) : List Nat → List Slot → Action (List Nat)
  | glue, [] => return glue
  | glue, r :: rest =>
      match r.ordinal with
      | some i =>
          match targets[i]? with
          | some t => copyVertices targets (glue ++ [t]) rest
          | none => throw .fault
      | none => do
          let a ← get
          if r.kind = .variable ∧ (a.variableSlot? r.label.name).isSome then throw (.duplicateVariable r.label.name)
          else
            let v ← addVertex r.label
            copyVertices targets (glue ++ [v]) rest

def copyLabels (u t : Nat) : List EdgeLabel → Action Unit
  | [] => return ()
  | l :: rest => do
      let s ← ask (slot · u)
      if l.isSelector && (s.findLabel l).isSome then throw (.gluedSelector l.name s.pub.toInt.toNat)
      else
        addArcLabel u t l
        copyLabels u t rest

def copyArcs (glue : List Nat) (u : Nat) : List Arc → Action Unit
  | [] => return ()
  | a :: rest =>
      match glue[a.target]? with
      | none => throw .fault
      | some t => do
          copyLabels u t a.labels
          copyArcs glue u rest

def copyOut (glue : List Nat) : List Nat → List Slot → Action Unit
  | u :: us, r :: rest => do
      copyArcs glue u r.out
      copyOut glue us rest
  | _, _ => return ()

def replaceEdge (edge : Int) (R : Arena) : Action Unit := do
  let v ← ask (priv · edge .nonterminal)
  let s ← ask (slot · v)
  if s.label.rank ≠ (R.externals.length : Int) then
    throw (.replacementRank edge s.label.rank R.externals.length)
  else
    let targets ← ask (fun _ => s.tentacles)
    removeVertex v
    let glue ← copyVertices targets [] R.slots
    copyOut glue glue R.slots

def imageOf (P : Arena) (image : List Int) (p : Nat) (a : Arena) : Except HeapError Nat :=
  match P.slots[p]?, image[p]? with
  | some s, some id => a.priv id s.kind
  | _, _ => .error .fault

def stripImage (P : Arena) (image : List Int) (p : Nat) : List Bytes → Action Unit
  | [] => return ()
  | selector :: rest => do
      let v ← ask (imageOf P image p)
      removeSelectorAt v selector
      stripImage P image p rest

def removeImage (P : Arena) (image : List Int) (p : Nat) : Action Unit := do
  let v ← ask (imageOf P image p)
  removeVertex v

def strip (P : Arena) (image : List Int) : List (Slot × Nat) → Action Unit
  | [] => return ()
  | (s, p) :: rest => do
      if s.kind = .node then stripImage P image p s.selectorNames
      strip P image rest

def absorb (P : Arena) (image : List Int) (chosen : Kind → Bool) : List (Slot × Nat) → Action Unit
  | [] => return ()
  | (s, p) :: rest => do
      if s.ordinal.isNone && chosen s.kind then removeImage P image p
      absorb P image chosen rest

def images (P : Arena) (image : List Int) (a : Arena) : Except HeapError (List Nat) :=
  P.externals.mapM (fun p => imageOf P image p a)

-- hyperedges and variables go first, so that absorbed nodes are detached when they go
def fold (P : Arena) (image : List Int) (nt : Nonterminal) : Action Unit := do
  if nt.rank ≠ (P.externals.length : Int) then throw (.patternRank nt P.externals.length)
  else if image.length ≠ P.slots.length then throw (.partialMatching image.length P.slots.length)
  else
    strip P image P.slots.zipIdx
    let targets ← ask (images P image)
    absorb P image (· != .node) P.slots.zipIdx
    absorb P image (· == .node) P.slots.zipIdx
    let _ ← addHyperedge nt targets

-- the tables are their own pattern, read as they are when the fold comes to a slot
def ownSelectors (image : List Int) (p : Nat) (a : Arena) : Except HeapError (List Bytes) := do
  let s ← a.slot p
  if s.kind != .node then return []
  else if (image[p]?).bind a.resolve == some p then return s.element.walkedSelectors
  else return s.selectorNames

def stripOwn (P : Arena) (image : List Int) : List Nat → Action Unit
  | [] => return ()
  | p :: rest => do
      let selectors ← ask (ownSelectors image p)
      stripImage P image p selectors
      stripOwn P image rest

def absorbOwn (P : Arena) (image : List Int) (chosen : Kind → Bool) : List Nat → Action Unit
  | [] => return ()
  | p :: rest => do
      let s ← ask (slot · p)
      if s.ordinal.isNone && chosen s.kind then removeImage P image p
      absorbOwn P image chosen rest

def foldItself (image : List Int) (nt : Nonterminal) : Action Unit := do
  let P ← get
  if nt.rank ≠ (P.externals.length : Int) then throw (.patternRank nt P.externals.length)
  else if image.length ≠ P.slots.length then throw (.partialMatching image.length P.slots.length)
  else
    stripOwn P image (List.range P.slots.length)
    let targets ← ask (images P image)
    absorbOwn P image (· != .node) (List.range P.slots.length)
    absorbOwn P image (· == .node) (List.range P.slots.length)
    let _ ← addHyperedge nt targets

end Arena

structure ArenaDraft where
  arena : Arena := {}
  phase : Phase := .idle

namespace ArenaDraft

variable {α : Type}

def isActive (d : ArenaDraft) : Bool := d.phase == .editing

def edit (d : ArenaDraft) (x : Arena.Action α) : ArenaDraft × Except HeapError α :=
  match d.phase with
  | .built => (d, .error .builderInvalid)
  | _ =>
      match x d.arena with
      | .ok r a => (⟨a, .editing⟩, .ok r)
      | .error e a => (⟨a, .editing⟩, .error e)

def begin (d : ArenaDraft) : ArenaDraft := { d with phase := .editing }

def build (d : ArenaDraft) : ArenaDraft × Except HeapError Unit :=
  match d.phase with
  | .built => (d, .error .builderInvalid)
  | _ =>
      match Arena.pack d.arena with
      | .ok _ a => (⟨a, .built⟩, .ok ())
      | .error e a => (⟨a, .editing⟩, .error e)

def perform (d : ArenaDraft) (e : ElementaryEdit) : ArenaDraft × Except HeapError (List Int32) := d.edit (Arena.perform e)

def startEdge (d : ArenaDraft) (nt : Nonterminal) : ArenaDraft × Except HeapError EdgeDraft :=
  d.edit (return { nonterminal := nt })

def finishEdge (d : ArenaDraft) (e : EdgeDraft) : ArenaDraft × Except HeapError Unit :=
  d.edit (do let _ ← Arena.perform (.addNonterminal e.nonterminal e.tentacles))

def settled (d : ArenaDraft) : Except HeapError Arena := if d.isActive then .error .builderActive else .ok d.arena

def replaceEdge (d : ArenaDraft) (edge : Int) (replacement : ArenaDraft) : ArenaDraft × Except HeapError Unit :=
  d.edit (do
    let r ← Arena.ask (fun _ => replacement.settled)
    Arena.replaceEdge edge r)

def fold (d : ArenaDraft) (pattern : Arena) (image : List Int) (nt : Nonterminal) : ArenaDraft × Except HeapError Unit :=
  d.edit (Arena.fold pattern image nt)

def foldItself (d : ArenaDraft) (image : List Int) (nt : Nonterminal) : ArenaDraft × Except HeapError Unit :=
  d.edit (Arena.foldItself image nt)

end ArenaDraft

end HeapAbstraction
