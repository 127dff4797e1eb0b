import HeapAbstraction.Proofs.Folding
import HeapAbstraction.Proofs.Decoding

namespace HeapAbstraction.Encoding

abbrev Guarded (ε α : Type) := ExceptT ε Option α

namespace Guarded

variable {ε ε' α β : Type}

def sure (r : Except ε α) : Guarded ε α := ExceptT.mk (some r)

def entry (table : List α) (i : Nat) : Guarded ε α := ExceptT.lift (table[i]?)

def allocate (n : Nat) (a : α) : Guarded ε (List α) :=
  if (n : Int) ≤ Heap.requestLimit then pure (List.replicate n a) else ExceptT.lift none

theorem entry_eq {table : List α} {i : Nat} {a : α} (h : table[i]? = some a) :
    (entry table i : Guarded ε α) = sure (.ok a) := by
  rw [entry, h]
  rfl

theorem allocate_eq {n : Nat} (a : α) (h : (n : Int) ≤ Heap.requestLimit) :
    (allocate n a : Guarded ε (List α)) = sure (.ok (List.replicate n a)) := if_pos h

theorem sure_bind (r : Except ε α) (f : α → Except ε β) : sure (r >>= f) = sure r >>= fun a => sure (f a) := by
  cases r <;> rfl

theorem ok_bind (a : α) (f : α → Guarded ε β) : (sure (.ok a) >>= f) = f a := rfl

theorem error_bind (e : ε) (f : α → Guarded ε β) : (sure (.error e) >>= f) = sure (.error e) := rfl

theorem throw_eq (e : ε) : (throw e : Guarded ε α) = sure (.error e) := rfl

theorem pure_eq (a : α) : (pure a : Guarded ε α) = sure (.ok a) := rfl

theorem adapt_sure (f : ε → ε') (r : Except ε α) : ExceptT.adapt f (sure r) = sure (r.mapError f) := rfl

end Guarded

open Guarded

structure Tape where
  rest : Bytes
  error : Option DecodeError := none

namespace Tape

def nat (limit : Nat) : StateM Tape Nat := fun t =>
  if t.error.isSome then (0, t)
  else match Varint.read t.rest with
    | .error (.truncated bits) => (bits, { t with error := some (.unreadable (.truncated bits)) })
    | .error e => (0, { t with error := some (.unreadable e) })
    | .ok (x, rest) => (x, ⟨rest, if limit < x then some (.exceeds x limit) else none⟩)

def string : StateM Tape Bytes := fun t =>
  if t.error.isSome then ([], t)
  else match Varint.readString t.rest with
    | .error e => ([], { t with error := some (.unreadable e) })
    | .ok (s, rest) => (s, ⟨rest, none⟩)

def list {α : Type} (item : StateM Tape α) : Nat → StateM Tape (List α)
  | 0 => pure []
  | n + 1 => do
      if (← get).error.isSome then return []
      let a ← item
      return a :: (← list item n)

def pred64 (n : Nat) : Nat := (n + 0xFFFFFFFFFFFFFFFF) % 0x10000000000000000

def label : StateM Tape RawLabel := do
  let selector ← string
  let tentacle ← nat maxSmall
  return ⟨selector, fromSuccessor tentacle⟩

def arc (elements : Nat) : StateM Tape RawArc := do
  let target ← nat (pred64 elements)
  let count ← nat maxSmall
  let labels ← list label count
  return ⟨target, labels⟩

def element (ids elements : Nat) : StateM Tape RawElement := do
  let kind ← nat 3
  let name ← string
  let rank ← nat maxSmall
  let ordinal ← nat elements
  let id ← nat (pred64 ids)
  let count ← nat elements
  let arcs ← list (arc elements) count
  return ⟨kind, name, rank, fromSuccessor ordinal, id, arcs⟩

def counts : StateM Tape (Nat × Nat) := do
  let ids ← nat maxPublicIds
  let count ← nat ids
  return (ids, count)

def settled {α : Type} (s : StateM Tape α) (t : Tape) : Guarded DecodeError (α × Tape) :=
  match (s t).2.error with
  | some e => throw e
  | none => return s t

end Tape

structure Tables where
  slots : List (Option Nat)
  ordinals : List (Option Nat) := []

namespace Tables

def enter (t : Tables) (v : Nat) (e : RawElement) : Guarded DecodeError Tables := do
  if (← entry t.slots e.id).isSome then throw (.repeatedId e.id)
  else
    let slots := t.slots.set e.id (some v)
    match e.ordinal with
    | none => return ⟨slots, t.ordinals⟩
    | some i =>
        let ordinals := t.ordinals ++ List.replicate (i + 1 - t.ordinals.length) none
        if (← entry ordinals i).isSome then throw (.repeatedOrdinal i)
        else return ⟨slots, ordinals.set i (some v)⟩

def fill (ids elements : Nat) :
    Nat → List RawElement → Tables → Tape → Guarded DecodeError (List RawElement × Tables)
  | 0, done, t, _ => return (done, t)
  | n + 1, done, t, tape => do
      let (e, tape) ← Tape.settled (Tape.element ids elements) tape
      let t ← t.enter done.length e
      fill ids elements n (done ++ [e]) t tape

end Tables

namespace RawElement

def flagLabels (e : RawElement) (v : Nat) :
    List Bytes → List Bool → List RawLabel → Guarded ShapeError (List Bytes × List Bool)
  | selectors, flags, [] => return (selectors, flags)
  | selectors, flags, l :: rest =>
      match l.tentacle with
      | none =>
          if e.kind ≠ 1 ∨ l.selector.isEmpty then throw (.badSelector l.selector e.kind v)
          else if selectors.contains l.selector then throw (.repeatedSelector v l.selector)
          else flagLabels e v (l.selector :: selectors) flags rest
      | some i =>
          if !l.selector.isEmpty ∨ e.tentacleCount ≤ i then throw (.badTentacle i e.kind v e.tentacleCount)
          else do
            if ← entry flags i then throw (.badTentacle i e.kind v e.tentacleCount)
            else flagLabels e v selectors (flags.set i true) rest

def flagArcs (es : List RawElement) (e : RawElement) (v : Nat) :
    List Nat → List Bytes → List Bool → List RawArc → Guarded ShapeError (List Bool)
  | _, _, flags, [] => return flags
  | targets, selectors, flags, a :: rest =>
      if targets.contains a.target then throw (.repeatedArc v a.target)
      else if a.labels.isEmpty then throw (.bareArc v a.target)
      else do
        let target ← entry es a.target
        if target.kind ≠ 1 then throw (.notToNode v a.target)
        else
          let (selectors, flags) ← flagLabels e v selectors flags a.labels
          flagArcs es e v (a.target :: targets) selectors flags rest

def flagged (es : List RawElement) (e : RawElement) (v : Nat) (taken : List Bytes) : Guarded ShapeError Unit := do
  sure (e.checkKind v taken)
  if e.ordinal.isSome ∧ e.kind ≠ 1 then throw (.externalEdge e.kind v)
  else
    let flags ← allocate e.tentacleCount false
    let flags ← flagArcs es e v [] [] flags e.arcs
    match flags.findIdx? (!·) with
    | some i => throw (.missingTentacle e.kind v i)
    | none => return ()

def flaggedFrom (es : List RawElement) : Nat → List Bytes → List RawElement → Guarded ShapeError Unit
  | _, _, [] => return ()
  | v, taken, e :: rest => do
      e.flagged es v taken
      flaggedFrom es (v + 1) (if e.kind = 3 then e.name :: taken else taken) rest

def withPreds (e : RawElement) (preds : List Nat) : Element :=
  { label := e.label, id := e.id, ordinal := e.ordinal, arcs := arcsOf e.arcs, preds := preds }

end RawElement

def addPred (u : Nat) (preds : List (List Nat)) (t : Nat) : Guarded DecodeError (List (List Nat)) := do
  return preds.set t ((← entry preds t) ++ [u])

def addPreds : Nat → List (List Nat) → List RawElement → Guarded DecodeError (List (List Nat))
  | _, preds, [] => return preds
  | u, preds, e :: rest => do
      let preds ← (e.arcs.map RawArc.target).foldlM (addPred u) preds
      addPreds (u + 1) preds rest

def Tables.ofHeap (h : Heap) : Tables :=
  ⟨(List.range h.nextId).map (fun x : Nat => h.slot? x), h.externals.map some⟩

def Tables.finish (t : Tables) (ids : Nat) (es : List RawElement) (preds : List (List Nat)) :
    Guarded DecodeError (Heap × Tables) :=
  if none ∈ t.ordinals then throw .ordinalGap
  else do
    ExceptT.adapt .misshapen (RawElement.flaggedFrom es 0 [] es)
    let preds ← addPreds 0 preds es
    return (⟨List.zipWith RawElement.withPreds es preds, ids⟩, t)

def bodyByTables (length : Nat) (tape : Tape) : Guarded DecodeError (Heap × Tables) := do
  let ((ids, count), tape) ← Tape.settled Tape.counts tape
  if length / minElementBytes < count then throw (.tooShort count length)
  else
    let slots ← allocate ids none
    let preds ← allocate count []
    let (es, tables) ← Tables.fill ids count count [] ⟨slots, []⟩ tape
    tables.finish ids es preds

def decodeByTables (bs : Bytes) : Guarded DecodeError (Heap × Tables) :=
  let (found, tape) := Tape.nat maxSmall ⟨bs, none⟩
  if tape.error.isNone ∧ found ≠ version then throw (.unsupported found)
  else bodyByTables bs.length tape

namespace Tape

variable {α β : Type}

structure Follows (s : StateM Tape α) (r : Reader α) : Prop where
  stuck : ∀ t, t.error.isSome = true → (s t).2 = t
  ok : ∀ bs a rest, r bs = .ok (a, rest) → s ⟨bs, none⟩ = (a, ⟨rest, none⟩)
  error : ∀ bs e, r bs = .error e → (s ⟨bs, none⟩).2.error = some e

theorem Follows.pure (a : α) : Follows (Pure.pure a) (fun bs => .ok (a, bs)) where
  stuck _ _ := rfl
  ok bs b rest h := by
    cases h
    rfl
  error bs e h := by cases h

theorem Follows.bind {s : StateM Tape α} {r : Reader α} {f : α → StateM Tape β} {g : α → Reader β}
    (hs : Follows s r) (hf : ∀ a, Follows (f a) (g a)) : Follows (s >>= f) (fun bs => do
      let (a, bs) ← r bs
      g a bs) where
  stuck t ht := by
    change (f (s t).1 (s t).2).2 = t
    rw [hs.stuck t ht, (hf _).stuck t ht]
  ok bs b rest h := by
    obtain ⟨⟨a, bs'⟩, ha, h⟩ := bind_ok h
    change f (s ⟨bs, none⟩).1 (s ⟨bs, none⟩).2 = _
    rw [hs.ok bs a bs' ha]
    exact (hf a).ok bs' b rest h
  error bs e h := by
    change (f (s ⟨bs, none⟩).1 (s ⟨bs, none⟩).2).2.error = _
    cases hr : r bs with
    | error e' =>
      have he := hs.error bs e' hr
      rw [(hf _).stuck _ (by simp [he]), he]
      simpa [hr, Bind.bind, Except.bind] using h
    | ok p =>
      rw [hs.ok bs p.1 p.2 hr]
      refine (hf p.1).error p.2 e ?_
      simpa [hr, Bind.bind, Except.bind] using h

theorem follows_nat (limit : Nat) : Follows (nat limit) (getNat limit) where
  stuck t ht := by simp [nat, ht]
  ok bs x rest h := by
    rw [getNat] at h
    simp only [nat, Option.isSome_none, Bool.false_eq_true, if_false]
    cases hr : Varint.read bs with
    | error e => simp [hr] at h
    | ok p =>
      obtain ⟨y, rest'⟩ := p
      simp only [hr] at h ⊢
      split at h
      · simp at h
      · rename_i hlt
        cases h
        simp [hlt]
  error bs e h := by
    rw [getNat] at h
    simp only [nat, Option.isSome_none, Bool.false_eq_true, if_false]
    cases hr : Varint.read bs with
    | error e' =>
      simp only [hr, Except.error.injEq] at h
      cases e' <;> simp [h]
    | ok p =>
      obtain ⟨y, rest'⟩ := p
      simp only [hr] at h ⊢
      split at h
      · rename_i hlt
        simpa [hlt] using h
      · simp at h

theorem follows_string : Follows string getString where
  stuck t ht := by simp [string, ht]
  ok bs x rest h := by
    rw [getString] at h
    simp only [string, Option.isSome_none, Bool.false_eq_true, if_false]
    cases hr : Varint.readString bs with
    | error e => simp [hr] at h
    | ok p =>
      simp only [hr, Except.ok.injEq] at h ⊢
      rw [h]
  error bs e h := by
    rw [getString] at h
    simp only [string, Option.isSome_none, Bool.false_eq_true, if_false]
    cases hr : Varint.readString bs with
    | error e' => simpa [hr] using h
    | ok p => simp [hr] at h

theorem follows_list {s : StateM Tape α} {r : Reader α} (hs : Follows s r) (n : Nat) :
    Follows (list s n) (getList r n) := by
  induction n with
  | zero => exact Follows.pure []
  | succ n ih =>
    -- without an error the loop is the reader and what comes behind it
    have hnext := hs.bind fun a => ih.bind fun as => Follows.pure (a :: as)
    have hrun (bs : Bytes) : list s (n + 1) ⟨bs, none⟩ = (do
      let a ← s
      return a :: (← list s n) : StateM Tape (List α)) ⟨bs, none⟩ := rfl
    refine ⟨fun t ht => ?_, fun bs as rest h => ?_, fun bs e h => ?_⟩
    · change ((if t.error.isSome = true then Pure.pure [] else _ : StateM Tape (List α)) t).2 = t
      rw [if_pos ht]
      rfl
    · rw [hrun]
      exact hnext.ok bs as rest h
    · rw [hrun]
      exact hnext.error bs e h

theorem follows_label : Follows label getLabel :=
  follows_string.bind fun _ => (follows_nat maxSmall).bind fun _ => .pure _

theorem pred64_eq {n : Nat} (hn : 0 < n) (hle : n ≤ maxPublicIds) : pred64 n = n - 1 := by
  simp only [maxPublicIds] at hle
  simp only [pred64]
  omega

variable {ids elements : Nat}

theorem follows_arc (hn : 0 < elements) (hle : elements ≤ maxPublicIds) : Follows (arc elements) (getArc elements) := by
  rw [arc, pred64_eq hn hle]
  exact (follows_nat _).bind fun _ => (follows_nat _).bind fun n => (follows_list follows_label n).bind fun _ => .pure _

theorem follows_element (hn : 0 < elements) (hle : elements ≤ ids) (hids : ids ≤ maxPublicIds) :
    Follows (element ids elements) (getElement ids elements) := by
  rw [element, pred64_eq (by omega) hids]
  have harcs (n : Nat) := follows_list (follows_arc hn (hle.trans hids)) n
  exact (follows_nat _).bind fun _ => follows_string.bind fun _ => (follows_nat _).bind fun _ =>
    (follows_nat _).bind fun _ => (follows_nat _).bind fun _ => (follows_nat _).bind fun n =>
      (harcs n).bind fun _ => .pure _

theorem Follows.settled {s : StateM Tape α} {r : Reader α} (hs : Follows s r) (bs : Bytes) :
    Tape.settled s ⟨bs, none⟩ = sure (r bs) >>= fun p => Pure.pure (p.1, ⟨p.2, none⟩) := by
  cases hr : r bs with
  | error e => simp only [Tape.settled, hs.error bs e hr, throw_eq, error_bind]
  | ok p => simp only [Tape.settled, hs.ok bs p.1 p.2 hr, ok_bind]

end Tape

variable {es done : List RawElement} {e : RawElement} {table : List (Option Nat)} {f : RawElement → Option Nat}
  {ids x i : Nat}

def Indexes (table : List (Option Nat)) (f : RawElement → Option Nat) (es : List RawElement) : Prop :=
  ∀ x v, table[x]? = some (some v) ↔ (es[v]?).bind f = some x

theorem bind_concat {v : Nat} : ((done ++ [e])[v]?).bind f = some x ↔
    (done[v]?).bind f = some x ∨ v = done.length ∧ f e = some x := by
  rcases Nat.lt_trichotomy v done.length with hv | rfl | hv
  · simp [List.getElem?_append_left hv, Nat.ne_of_lt hv]
  · simp
  · simp [List.getElem?_eq_none (l := done) hv.le, List.getElem?_eq_none (l := done ++ [e]) (by simpa using hv),
      Nat.ne_of_gt hv]

namespace Indexes

theorem isSome_iff {o : Option Nat} (h : Indexes table f done) (ho : table[x]? = some o) :
    o.isSome = true ↔ ∃ d ∈ done, f d = some x := by
  simp only [Option.isSome_iff_exists, List.mem_iff_getElem?]
  constructor
  · rintro ⟨v, rfl⟩
    obtain ⟨d, hd, hx⟩ := Option.bind_eq_some_iff.mp ((h x v).mp ho)
    exact ⟨d, ⟨v, hd⟩, hx⟩
  · rintro ⟨d, ⟨v, hd⟩, hx⟩
    have hv := (h x v).mpr (by simp [hd, hx])
    exact ⟨v, Option.some.inj (ho.symm.trans hv)⟩

theorem pad (h : Indexes table f done) (k : Nat) : Indexes (table ++ List.replicate k none) f done := by
  intro x v
  rw [← h x v]
  rcases Nat.lt_or_ge x table.length with hx | hx
  · rw [List.getElem?_append_left hx]
  · simp [List.getElem?_append_right hx, List.getElem?_eq_none hx, List.getElem?_replicate]

theorem skip (h : Indexes table f done) (he : f e = none) : Indexes table f (done ++ [e]) := by
  intro x v
  simp [bind_concat, h x v, he]

theorem set (h : Indexes table f done) (he : f e = some x) (hx : x < table.length)
    (hnew : ∀ d ∈ done, f d ≠ some x) : Indexes (table.set x (some done.length)) f (done ++ [e]) := by
  intro y v
  rw [bind_concat, ← h y v, List.getElem?_set, he]
  by_cases hy : x = y
  · subst hy
    have hno : ¬ table[x]? = some (some v) := by
      intro hv
      obtain ⟨d, hd, hdx⟩ := (h.isSome_iff hv).mp rfl
      exact hnew d hd hdx
    rw [if_pos rfl, if_pos hx, or_iff_right hno]
    simp [eq_comm]
  · simp [hy]

end Indexes

def checkFresh (done : List RawElement) (e : RawElement) : Except DecodeError Unit :=
  if done.any (fun d => d.id == e.id) then .error (.repeatedId e.id)
  else match e.ordinal with
    | some i => if done.any (fun d => d.ordinal == some i) then .error (.repeatedOrdinal i) else .ok ()
    | none => .ok ()

theorem getElements_succ (elements n : Nat) (bs : Bytes) : getElements ids elements (n + 1) done bs = (do
    let (e, bs) ← getElement ids elements bs
    checkFresh done e
    getElements ids elements n (done ++ [e]) bs) := by
  rw [getElements]
  refine congrArg _ (funext fun p => ?_)
  simp only [checkFresh]
  cases done.any (fun d => d.id == p.1.id) with
  | true => rfl
  | false =>
    cases p.1.ordinal with
    | none => rfl
    | some i =>
      simp only [Bool.false_eq_true, if_false]
      cases done.any (fun d => d.ordinal == some i) <;> rfl

namespace Tables

structure Holds (t : Tables) (ids : Nat) (done : List RawElement) : Prop where
  length : t.slots.length = ids
  slots : Indexes t.slots (fun e => some e.id) done
  ordinals : Indexes t.ordinals RawElement.ordinal done
  last : ∀ n, t.ordinals.length = n + 1 → ∃ e ∈ done, e.ordinal = some n

variable {t : Tables}

theorem holds_new (ids : Nat) : Holds ⟨List.replicate ids none, []⟩ ids [] where
  length := List.length_replicate
  slots x v := by simp [List.getElem?_replicate]
  ordinals x v := by simp
  last n hn := by simp at hn

theorem Holds.enter (ht : t.Holds ids done) (hid : e.id < ids) :
    ∃ t', t.enter done.length e = (sure (checkFresh done e) >>= fun _ => pure t') ∧
      (checkFresh done e = .ok () → t'.Holds ids (done ++ [e])) := by
  obtain ⟨o, ho⟩ : ∃ o, t.slots[e.id]? = some o := ⟨_, List.getElem?_eq_getElem (ht.length ▸ hid)⟩
  have hany : done.any (fun d => d.id == e.id) = o.isSome := by
    rw [Bool.eq_iff_iff, ht.slots.isSome_iff ho]
    simp
  rw [Tables.enter, entry_eq ho, ok_bind, checkFresh, hany]
  cases hsome : o.isSome with
  | true => exact ⟨t, rfl, by simp⟩
  | false =>
    have hnew : ∀ d ∈ done, some d.id ≠ some e.id := by
      rw [hsome] at hany
      simpa using hany
    have hslots := ht.slots.set (e := e) rfl (ht.length ▸ hid) hnew
    have hlength : (t.slots.set e.id (some done.length)).length = ids := by rw [List.length_set, ht.length]
    cases hord : e.ordinal with
    | none =>
      refine ⟨⟨t.slots.set e.id (some done.length), t.ordinals⟩, rfl, fun _ => ?_⟩
      refine ⟨hlength, hslots, ht.ordinals.skip hord, fun n hn => ?_⟩
      obtain ⟨d, hd, hdn⟩ := ht.last n hn
      exact ⟨d, List.mem_append_left _ hd, hdn⟩
    | some i =>
      -- the table is made long enough for the ordinal before it is looked up
      have hpad := ht.ordinals.pad (i + 1 - t.ordinals.length)
      have hlen : (t.ordinals ++ List.replicate (i + 1 - t.ordinals.length) none).length =
          max t.ordinals.length (i + 1) := by
        rw [List.length_append, List.length_replicate]
        omega
      simp only [Bool.false_eq_true, if_false]
      generalize t.ordinals ++ List.replicate (i + 1 - t.ordinals.length) none = os at hpad hlen ⊢
      have hi : i < os.length := by omega
      have hany' : done.any (fun d => d.ordinal == some i) = os[i].isSome := by
        rw [Bool.eq_iff_iff, hpad.isSome_iff (List.getElem?_eq_getElem hi)]
        simp
      refine ⟨⟨t.slots.set e.id (some done.length), os.set i (some done.length)⟩, ?_, fun had => ?_⟩
      · rw [entry_eq (List.getElem?_eq_getElem hi), ok_bind, hany']
        cases os[i].isSome <;> rfl
      · have hnew' : ∀ d ∈ done, d.ordinal ≠ some i := by
          simpa using had
        refine ⟨hlength, hslots, hpad.set hord hi hnew', fun n hn => ?_⟩
        rw [List.length_set, hlen] at hn
        rcases Nat.lt_or_ge i t.ordinals.length with hlt | hge
        · obtain ⟨d, hd, hdn⟩ := ht.last n (by omega)
          exact ⟨d, List.mem_append_left _ hd, hdn⟩
        · exact ⟨e, by simp, by rw [hord]; congr 1; omega⟩

theorem Holds.fill {elements : Nat} (hle : elements ≤ ids) (hids : ids ≤ maxPublicIds) (n : Nat) (hn : n ≤ elements)
    (ht : t.Holds ids done) (bs : Bytes) :
    ∃ t', Tables.fill ids elements n done t ⟨bs, none⟩ =
        (sure (getElements ids elements n done bs) >>= fun p => pure (p.1, t')) ∧
      ∀ es rest, getElements ids elements n done bs = .ok (es, rest) → t'.Holds ids es := by
  induction n generalizing done t bs with
  | zero =>
    refine ⟨t, rfl, fun es rest h => ?_⟩
    cases h
    exact ht
  | succ n ih =>
    have hfollow := Tape.follows_element (by omega) hle hids
    rw [Tables.fill, hfollow.settled, getElements_succ]
    cases he : getElement ids elements bs with
    | error err => exact ⟨t, rfl, fun es rest h => by cases h⟩
    | ok p =>
      obtain ⟨e, bs'⟩ := p
      have hid : e.id < ids := by
        have := getElement_id_le he
        omega
      obtain ⟨t₁, henter, ht₁⟩ := ht.enter hid
      change ∃ t', (t.enter done.length e >>= fun t => fill ids elements n (done ++ [e]) t ⟨bs', none⟩) =
          (sure (checkFresh done e >>= fun _ => getElements ids elements n (done ++ [e]) bs') >>= fun p => pure (p.1, t')) ∧
        ∀ es rest, (checkFresh done e >>= fun _ => getElements ids elements n (done ++ [e]) bs') = .ok (es, rest) →
          t'.Holds ids es
      rw [henter]
      cases had : checkFresh done e with
      | error err => exact ⟨t, rfl, fun es rest h => by cases h⟩
      | ok _ => exact ih (by omega) (ht₁ had) bs'

theorem Holds.mem_ordinals (ht : t.Holds ids es) :
    i ∈ es.filterMap RawElement.ordinal ↔ ∃ v, t.ordinals[i]? = some (some v) := by
  rw [List.mem_filterMap]
  simp only [List.mem_iff_getElem?, ht.ordinals i, Option.bind_eq_some_iff]
  exact ⟨fun ⟨e, ⟨v, hv⟩, he⟩ => ⟨v, e, hv, he⟩, fun ⟨v, e, hv, he⟩ => ⟨e, ⟨v, hv⟩, he⟩⟩

theorem Holds.none_mem_ordinals (ht : t.Holds ids es) (hd : Distinct ids es) :
    none ∈ t.ordinals ↔ ordinalsContiguous es = false := by
  constructor
  · intro hnone
    obtain ⟨i, hi⟩ := List.mem_iff_getElem?.mp hnone
    have hlt := (List.getElem?_eq_some_iff.mp hi).1
    obtain ⟨n, hn⟩ : ∃ n, t.ordinals.length = n + 1 := ⟨t.ordinals.length - 1, by omega⟩
    obtain ⟨e, he, hen⟩ := ht.last n hn
    have hlast : n ∈ es.filterMap RawElement.ordinal := List.mem_filterMap.mpr ⟨e, he, hen⟩
    rw [← Bool.not_eq_true]
    intro hc
    have hmem : i ∈ es.filterMap RawElement.ordinal := by
      rcases Nat.lt_or_ge i n with hin | hin
      · exact hd.exists_ordinal hc hlast hin
      · rwa [show i = n by omega]
    obtain ⟨v, hv⟩ := ht.mem_ordinals.mp hmem
    simp [hi] at hv
  · contrapose
    rw [Bool.not_eq_false]
    intro hnone
    have hmem (i : Nat) : i ∈ es.filterMap RawElement.ordinal ↔ i ∈ List.range t.ordinals.length := by
      rw [ht.mem_ordinals, List.mem_range]
      refine ⟨fun ⟨v, hv⟩ => (List.getElem?_eq_some_iff.mp hv).1, fun hi => ?_⟩
      cases ho : t.ordinals[i] with
      | none => exact absurd (ho ▸ List.getElem_mem hi) hnone
      | some v => exact ⟨v, by rw [List.getElem?_eq_getElem hi, ho]⟩
    have hperm := (List.perm_ext_iff_of_nodup hd.ordinals List.nodup_range).mpr hmem
    have hcount : es.countP (fun e => e.ordinal.isSome) = t.ordinals.length := by
      rw [← List.length_filterMap_eq_countP, hperm.length_eq, List.length_range]
    rw [ordinalsContiguous, List.all_eq_true]
    intro e he
    cases ho : e.ordinal with
    | none => rfl
    | some i =>
      have hi := (hmem i).mp (List.mem_filterMap.mpr ⟨e, he, ho⟩)
      simpa [hcount] using hi

theorem Holds.eq_ofHeap (ht : t.Holds ids es) (hv : Valid ids es) (hnone : none ∉ t.ordinals) :
    t = ofHeap (assemble ids es) := by
  have hs := hv.assemble_sound
  have hslots : t.slots = (List.range ids).map (fun x : Nat => (assemble ids es).slot? x) := by
    refine List.ext_getElem (by simp [ht.length]) fun x hx _ => ?_
    rw [List.getElem_map, List.getElem_range]
    refine Option.ext fun v => ?_
    have hentry := ht.slots x v
    rw [List.getElem?_eq_getElem hx, Option.some.injEq] at hentry
    rw [hentry]
    refine Iff.trans ?_ hs.slot?_eq_some.symm
    rw [idOf_assemble, labelAt_assemble]
    cases es[v]? <;> simp
  have hordinals : t.ordinals = (assemble ids es).externals.map some := by
    refine List.ext_getElem? fun i => Option.ext fun o => ?_
    rw [List.getElem?_map, Option.map_eq_some_iff]
    simp only [hs.getElem?_externals, ordinalAt_assemble]
    cases o with
    | none => simpa using fun h => hnone (List.mem_of_getElem? h)
    | some v => simpa using ht.ordinals i v
  exact Tables.mk.injEq .. ▸ ⟨hslots, hordinals⟩

end Tables

def flagsOf (n : Nat) (tentacles : List Nat) : List Bool := (List.range n).map tentacles.contains

section

variable {n : Nat} {tentacles : List Nat}

theorem replicate_eq_flagsOf (n : Nat) : List.replicate n false = flagsOf n [] := by
  rw [eq_comm, List.eq_replicate_iff]
  simp [flagsOf]

theorem getElem?_flagsOf (hi : i < n) : (flagsOf n tentacles)[i]? = some (tentacles.contains i) := by
  simp [flagsOf, hi]

theorem set_flagsOf (i : Nat) : (flagsOf n tentacles).set i true = flagsOf n (i :: tentacles) := by
  refine List.ext_getElem (by simp [flagsOf]) fun j hj _ => ?_
  simp only [flagsOf, List.getElem_set, List.getElem_map, List.getElem_range, List.contains_cons]
  by_cases hij : i = j
  · simp [hij]
  · simp [hij, Ne.symm hij]

theorem findIdx?_flagsOf :
    (flagsOf n tentacles).findIdx? (!·) = (List.range n).find? (fun i => !tentacles.contains i) := by
  refine Option.ext fun i => ?_
  rw [List.findIdx?_eq_some_iff_getElem, List.find?_range_eq_some]
  simp only [flagsOf, List.length_map, List.length_range, List.getElem_map, List.getElem_range, List.mem_range]
  constructor
  · rintro ⟨hi, hp, hbefore⟩
    exact ⟨hp, hi, fun j hj => by simpa using hbefore j hj⟩
  · rintro ⟨hp, hi, hbefore⟩
    exact ⟨hi, hp, fun j hj => by simpa using hbefore j hj⟩

end

namespace RawElement

variable {v : Nat} {selectors : List Bytes} {tentacles targets : List Nat}

theorem flagLabels_eq (e : RawElement) (v : Nat) (selectors : List Bytes) (tentacles : List Nat)
    (labels : List RawLabel) : flagLabels e v selectors (flagsOf e.tentacleCount tentacles) labels =
      sure ((checkLabels e v selectors tentacles labels).map fun p => (p.1, flagsOf e.tentacleCount p.2)) := by
  induction labels generalizing selectors tentacles with
  | nil => rfl
  | cons l labels ih =>
    rw [flagLabels, checkLabels]
    cases l.tentacle with
    | none =>
      simp only [ih]
      split
      · rfl
      · split <;> rfl
    | some i =>
      simp only [← or_assoc]
      by_cases hbad : (!l.selector.isEmpty) = true ∨ e.tentacleCount ≤ i
      · simp only [hbad, true_or, if_true]
        rfl
      · simp only [hbad, false_or, if_false]
        rw [entry_eq (getElem?_flagsOf (by omega)), ok_bind, set_flagsOf, ih]
        cases tentacles.contains i <;> rfl

theorem flagArcs_eq (e : RawElement) (v : Nat) (targets : List Nat) (selectors : List Bytes) (tentacles : List Nat)
    {arcs : List RawArc} (hlt : ∀ a ∈ arcs, a.target < es.length) :
    flagArcs es e v targets selectors (flagsOf e.tentacleCount tentacles) arcs =
      sure ((checkArcs es e v targets selectors tentacles arcs).map (flagsOf e.tentacleCount)) := by
  induction arcs generalizing targets selectors tentacles with
  | nil => rfl
  | cons a arcs ih =>
    have hin : a.target < es.length := hlt a List.mem_cons_self
    have ha : es[a.target]? = some es[a.target] := List.getElem?_eq_getElem hin
    have hkind : kindAt es a.target = es[a.target].kind := by
      rw [kindAt, ha]
      rfl
    rw [flagArcs, checkArcs, entry_eq ha, ok_bind, hkind]
    split
    · rfl
    · split
      · rfl
      · split
        · rfl
        · rw [flagLabels_eq]
          cases checkLabels e v selectors tentacles a.labels with
          | error err => rfl
          | ok p => exact ih _ _ _ fun b hb => hlt b (List.mem_cons_of_mem _ hb)

theorem tentacleCount_le (hb : e.Bounded) : (e.tentacleCount : Int) ≤ Heap.requestLimit := by
  have hr := hb.rank
  simp only [maxSmall] at hr
  rw [tentacleCount, Heap.requestLimit]
  split <;> omega

theorem flagged_eq (taken : List Bytes) (hb : e.Bounded) (hlt : ∀ a ∈ e.arcs, a.target < es.length) :
    e.flagged es v taken = sure (e.check es v taken) := by
  rw [flagged, check, sure_bind]
  congr 1
  funext _
  split
  · rfl
  · rw [allocate_eq false (tentacleCount_le hb), ok_bind, replicate_eq_flagsOf, flagArcs_eq e v [] [] [] hlt, sure_bind]
    cases checkArcs es e v [] [] [] e.arcs with
    | error err => rfl
    | ok tentacles =>
      change (match (flagsOf e.tentacleCount tentacles).findIdx? (!·) with
        | some i => _
        | none => _) = _
      rw [findIdx?_flagsOf, ok_bind]
      cases (List.range e.tentacleCount).find? (fun i => !tentacles.contains i) <;> rfl

theorem flaggedFrom_eq (v : Nat) (taken : List Bytes) {xs : List RawElement} (hb : ∀ e ∈ xs, e.Bounded)
    (hlt : ∀ e ∈ xs, ∀ a ∈ e.arcs, a.target < es.length) :
    flaggedFrom es v taken xs = sure (checkFrom es v taken xs) := by
  induction xs generalizing v taken with
  | nil => rfl
  | cons e xs ih =>
    rw [List.forall_mem_cons] at hb hlt
    rw [flaggedFrom, checkFrom, sure_bind, flagged_eq taken hb.1 hlt.1]
    congr 1
    funext _
    exact ih _ _ hb.2 hlt.2

end RawElement

def joins (es : List RawElement) (u t : Nat) : Bool :=
  (((es[u]?).map RawElement.arcs).getD []).any (fun a => a.target == t)

def predTable (es : List RawElement) (u : Nat) : List (List Nat) :=
  (List.range es.length).map (fun t => (List.range u).filter (fun w => joins es w t))

theorem foldlM_addPred (u : Nat) {targets : List Nat} (preds : List (List Nat)) (hnodup : targets.Nodup)
    (hlt : ∀ t ∈ targets, t < preds.length) : targets.foldlM (addPred u) preds =
      sure (.ok (preds.mapIdx fun t old => if t ∈ targets then old ++ [u] else old)) := by
  induction targets generalizing preds with
  | nil =>
    have hid : preds.mapIdx (fun _ old => old) = preds := List.ext_getElem (by simp) (by simp)
    simp [hid, pure_eq]
  | cons t targets ih =>
    rw [List.nodup_cons] at hnodup
    rw [List.forall_mem_cons] at hlt
    rw [List.foldlM_cons, addPred, entry_eq (List.getElem?_eq_getElem hlt.1), ok_bind, pure_eq, ok_bind,
      ih _ hnodup.2 (by simpa using hlt.2)]
    refine congrArg (fun table => sure (.ok table)) (List.ext_getElem (by simp) fun w hw _ => ?_)
    simp only [List.getElem_mapIdx, List.getElem_set, List.mem_cons]
    by_cases hwt : t = w
    · subst hwt
      simp [hnodup.1]
    · simp [hwt, Ne.symm hwt]

theorem addPreds_eq {u : Nat} {xs : List RawElement} (hxs : es.drop u = xs)
    (hnodup : ∀ e ∈ es, (e.arcs.map RawArc.target).Nodup) (hlt : ∀ e ∈ es, ∀ a ∈ e.arcs, a.target < es.length) :
    addPreds u (predTable es u) xs = sure (.ok (predTable es (u + xs.length))) := by
  induction xs generalizing u with
  | nil => rfl
  | cons e xs ih =>
    have hu : es[u]? = some e := by
      rw [← List.head?_drop, hxs]
      rfl
    have he := List.mem_of_getElem? hu
    have hnext : es.drop (u + 1) = xs := by
      rw [← List.tail_drop, hxs]
      rfl
    -- slot u is the last predecessor of all the ends of its arcs
    have hstep : (predTable es u).mapIdx (fun t old => if t ∈ e.arcs.map RawArc.target then old ++ [u] else old) =
        predTable es (u + 1) := by
      refine List.ext_getElem (by simp [predTable]) fun t _ _ => ?_
      have hjoins : joins es u t = true ↔ t ∈ e.arcs.map RawArc.target := by simp [joins, hu]
      simp only [predTable, List.getElem_mapIdx, List.getElem_map, List.getElem_range, List.range_succ,
        List.filter_append, ← hjoins]
      cases hj : joins es u t <;> simp [hj]
    rw [addPreds, foldlM_addPred u _ (hnodup e he) (by simpa [predTable] using hlt e he), ok_bind, hstep, ih hnext]
    simp [Nat.add_comm, Nat.add_left_comm]

theorem zipWith_predTable (ids : Nat) (es : List RawElement) :
    (⟨List.zipWith RawElement.withPreds es (predTable es es.length), ids⟩ : Heap) = assemble ids es := by
  refine congrArg (fun elements : Store => (⟨elements, ids⟩ : Heap)) (List.ext_getElem? fun v => ?_)
  refine Eq.trans ?_ (getElem?_assemble ids es v).symm
  rw [List.getElem?_zipWith, predTable, List.getElem?_map]
  cases he : es[v]? with
  | none => rfl
  | some e =>
    rw [List.getElem?_range (List.getElem?_eq_some_iff.mp he).1]
    rfl

theorem getElement_target_lt {elements : Nat} {bs rest : Bytes} (hn : 0 < elements)
    (h : getElement ids elements bs = .ok (e, rest)) : ∀ a ∈ e.arcs, a.target < elements := by
  obtain ⟨⟨kind, bs⟩, -, h⟩ := bind_ok h
  obtain ⟨⟨name, bs⟩, -, h⟩ := bind_ok h
  obtain ⟨⟨rank, bs⟩, -, h⟩ := bind_ok h
  obtain ⟨⟨ordinal, bs⟩, -, h⟩ := bind_ok h
  obtain ⟨⟨id, bs⟩, -, h⟩ := bind_ok h
  obtain ⟨⟨count, bs⟩, -, h⟩ := bind_ok h
  obtain ⟨⟨arcs, bs⟩, harcs, h⟩ := bind_ok h
  cases h
  refine (getList_ok harcs fun bs a rest ha => ?_).2
  obtain ⟨⟨target, bs⟩, htarget, ha⟩ := bind_ok ha
  obtain ⟨⟨count, bs⟩, -, ha⟩ := bind_ok ha
  obtain ⟨⟨labels, bs⟩, -, ha⟩ := bind_ok ha
  cases ha
  exact (getNat_le htarget).trans_lt (Nat.sub_lt hn Nat.one_pos)

theorem getElements_targets {elements n : Nat} {bs rest : Bytes} (hn : n ≤ elements)
    (hdone : ∀ e ∈ done, ∀ a ∈ e.arcs, a.target < elements)
    (h : getElements ids elements n done bs = .ok (es, rest)) :
    es.length = done.length + n ∧ ∀ e ∈ es, ∀ a ∈ e.arcs, a.target < elements := by
  induction n generalizing done bs with
  | zero =>
    cases h
    exact ⟨rfl, hdone⟩
  | succ n ih =>
    rw [getElements_succ] at h
    obtain ⟨⟨e, bs'⟩, he, h⟩ := bind_ok h
    obtain ⟨-, -, h⟩ := bind_ok h
    obtain ⟨hlen, hall⟩ := ih (by omega) (List.forall_mem_append.mpr ⟨hdone, by
      simpa using getElement_target_lt (by omega) he⟩) h
    refine ⟨?_, hall⟩
    rw [hlen, List.length_append, List.length_singleton]
    omega

theorem RawElement.Checked.targets_nodup (hc : e.Checked es) : (e.arcs.map RawArc.target).Nodup := by
  have htargets := hc.tidy.targets
  rwa [RawElement.arcsOf, List.map_map] at htargets

def finish (ids : Nat) (es : List RawElement) : Except DecodeError Heap :=
  if !ordinalsContiguous es then .error .ordinalGap
  else match RawElement.checkFrom es 0 [] es with
    | .error e => .error (.misshapen e)
    | .ok () => .ok (assemble ids es)

theorem Tables.Holds.finish {t : Tables} (ht : t.Holds ids es) (hd : Distinct ids es)
    (hlt : ∀ e ∈ es, ∀ a ∈ e.arcs, a.target < es.length) :
    t.finish ids es (List.replicate es.length []) =
      sure ((Encoding.finish ids es).map fun h => (h, Tables.ofHeap h)) := by
  rw [Tables.finish, Encoding.finish]
  cases hc : ordinalsContiguous es with
  | false =>
    rw [if_pos ((ht.none_mem_ordinals hd).mpr hc)]
    rfl
  | true =>
    have hnone : none ∉ t.ordinals := fun h => by
      rw [ht.none_mem_ordinals hd, hc] at h
      cases h
    have hnew : List.replicate es.length [] = predTable es 0 := by
      rw [eq_comm, List.eq_replicate_iff]
      simp [predTable]
    rw [if_neg hnone, RawElement.flaggedFrom_eq 0 [] hd.bounded hlt, adapt_sure]
    cases hcheck : RawElement.checkFrom es 0 [] es with
    | error e => rfl
    | ok _ =>
      obtain ⟨hchecked, -, hnames⟩ := RawElement.checkFrom_ok hcheck
      have hv : Valid ids es := { hd with contiguous := hc, checked := hchecked, names := hnames }
      change (addPreds 0 (List.replicate es.length []) es >>= fun preds => _) = _
      rw [hnew, addPreds_eq List.drop_zero (fun e he => (hchecked e he).targets_nodup) hlt, ok_bind, Nat.zero_add,
        zipWith_predTable, ht.eq_ofHeap hv hnone]
      rfl

def getCounts : Reader (Nat × Nat) := fun bs => do
  let (ids, bs) ← getNat maxPublicIds bs
  let (count, bs) ← getNat ids bs
  return ((ids, count), bs)

theorem Tape.follows_counts : Follows counts getCounts :=
  (follows_nat _).bind fun ids => (follows_nat ids).bind fun _ => .pure _

def getBody (length : Nat) (bs : Bytes) : Except DecodeError Heap := do
  let ((ids, count), bs) ← getCounts bs
  if length / minElementBytes < count then .error (.tooShort count length)
  else
    let (es, _) ← getElements ids count count [] bs
    finish ids es

theorem decode_eq (bs : Bytes) : Heap.decode bs = (do
    let (found, rest) ← getNat maxSmall bs
    if found ≠ version then .error (.unsupported found) else getBody bs.length rest) := by
  rw [Heap.decode]
  refine congrArg _ (funext fun p => ?_)
  obtain ⟨found, rest⟩ := p
  refine congrArg (ite _ _) ?_
  rw [getBody, getCounts]
  cases getNat maxPublicIds rest with
  | error e => rfl
  | ok p =>
    change (getNat p.1 p.2 >>= _) = ((getNat p.1 p.2 >>= _) >>= _)
    cases getNat p.1 p.2 <;> rfl

theorem getCounts_ok {bs rest : Bytes} {count : Nat} (h : getCounts bs = .ok ((ids, count), rest)) :
    count ≤ ids ∧ ids ≤ maxPublicIds := by
  obtain ⟨⟨ids, bs⟩, hids, h⟩ := bind_ok h
  obtain ⟨⟨count, bs⟩, hcount, h⟩ := bind_ok h
  cases h
  exact ⟨getNat_le hcount, getNat_le hids⟩

theorem le_requestLimit {n : Nat} (hn : n ≤ maxPublicIds) : (n : Int) ≤ Heap.requestLimit := by
  simp only [maxPublicIds] at hn
  rw [Heap.requestLimit]
  omega

theorem bodyByTables_eq (length : Nat) (bs : Bytes) :
    bodyByTables length ⟨bs, none⟩ = sure ((getBody length bs).map fun h => (h, Tables.ofHeap h)) := by
  rw [bodyByTables, Tape.follows_counts.settled, getBody]
  cases hcounts : getCounts bs with
  | error e => rfl
  | ok p =>
    obtain ⟨⟨ids, count⟩, rest⟩ := p
    obtain ⟨hle, hids⟩ := getCounts_ok hcounts
    change (if length / minElementBytes < count then _ else _) =
      sure (Except.map _ (if length / minElementBytes < count then _ else _))
    split
    · rfl
    · obtain ⟨t, hfill, ht⟩ := (Tables.holds_new ids).fill hle hids count le_rfl rest
      rw [allocate_eq none (le_requestLimit hids), ok_bind, allocate_eq [] (le_requestLimit (hle.trans hids)), ok_bind,
        hfill]
      cases hes : getElements ids count count [] rest with
      | error e => rfl
      | ok p =>
        obtain ⟨es, rest'⟩ := p
        obtain ⟨hlen, hlt⟩ := getElements_targets le_rfl (by simp) hes
        rw [List.length_nil, Nat.zero_add] at hlen
        subst hlen
        exact (ht es rest' hes).finish (getElements_distinct hle ⟨by simp, by simp, by simp, by simp⟩ hes) hlt

theorem bodyByTables_stuck {tape : Tape} {e : DecodeError} (length : Nat) (he : tape.error = some e) :
    bodyByTables length tape = sure (.error e) := by
  have hstuck : (Tape.counts tape).2.error = some e := by rw [Tape.follows_counts.stuck tape (by simp [he]), he]
  simp only [bodyByTables, Tape.settled, hstuck, throw_eq, error_bind]

theorem decodeByTables_eq (bs : Bytes) :
    decodeByTables bs = sure ((Heap.decode bs).map fun h => (h, Tables.ofHeap h)) := by
  rw [decode_eq]
  cases hfound : getNat maxSmall bs with
  | error e =>
    have herror := (Tape.follows_nat maxSmall).error bs e hfound
    rw [decodeByTables]
    cases hread : Tape.nat maxSmall ⟨bs, none⟩ with
    | mk found tape =>
      replace herror : tape.error = some e := by rwa [hread] at herror
      change (if tape.error.isNone ∧ _ then _ else _) = _
      rw [if_neg (by simp [herror]), bodyByTables_stuck _ herror]
      rfl
  | ok p =>
    rw [decodeByTables, (Tape.follows_nat maxSmall).ok bs p.1 p.2 hfound]
    change (if _ ∧ p.1 ≠ version then _ else _) = sure (Except.map _ (if p.1 ≠ version then _ else _))
    by_cases hversion : p.1 = version
    · rw [if_neg (by simp [hversion]), if_neg (by simp [hversion]), bodyByTables_eq]
    · rw [if_pos (by simp [hversion]), if_pos hversion]
      rfl

end HeapAbstraction.Encoding

namespace HeapAbstraction.Heap

open Encoding

variable {bs : Bytes} {h : Heap}

theorem selector_ne_nil_of_decode (hd : decode bs = .ok h) {v t : Nat} {s : Bytes}
    (hc : Arc.Carries (h.out v) (.selector s) t) : s ≠ [] := by
  obtain ⟨ids, es, -, hv, rfl⟩ := decode_ok hd
  rw [out_assemble] at hc
  cases he : es[v]? with
  | none => simp [he] at hc
  | some e =>
    rw [he] at hc
    exact ((hv.checked e (List.mem_of_getElem? he)).admits _ t hc).2

theorem Idle.labelAt_isSome (hi : h.Idle) {v x : Nat} (hx : h.idOf v = some x) : ∃ lab, h.labelAt v = some lab := by
  rw [idOf, Option.map_eq_some_iff] at hx
  obtain ⟨e, he, -⟩ := hx
  exact ⟨e.label, labelAt_eq_some.mpr ⟨e, he, hi e (List.mem_of_getElem? he), rfl⟩⟩

theorem decode_safe (bs : Bytes) :
    (∃ e, decodeByTables bs = Guarded.sure (.error e) ∧ decode bs = .error e ∧
      ∃ context, e.message = ErrorKind.badEncoding.inContext context) ∨
    ∃ h, decodeByTables bs = Guarded.sure (.ok (h, Tables.ofHeap h)) ∧ decode bs = .ok h ∧ h.Idle ∧ h.WellFormed ∧
      (∀ (x v : Nat), h.slot? x = some v ↔ h.idOf v = some x) ∧
      (∀ i v, h.externals[i]? = some v ↔ h.ordinalAt v = some i) ∧
      ∀ v s t, Arc.Carries (h.out v) (.selector s) t → s ≠ [] := by
  have htables := decodeByTables_eq bs
  cases hd : decode bs with
  | error e =>
    rw [hd] at htables
    exact .inl ⟨e, htables, rfl, e.context, rfl⟩
  | ok h =>
    rw [hd] at htables
    obtain ⟨hw, hi⟩ := wellFormed_of_decode hd
    have hs := hw.toSound
    refine .inr ⟨h, htables, rfl, hi, hw, fun x v => ?_, fun i v => hs.getElem?_externals,
      fun v s t => selector_ne_nil_of_decode hd⟩
    exact hs.slot?_eq_some.trans ⟨And.left, fun hx => ⟨hx, hi.labelAt_isSome hx⟩⟩

end HeapAbstraction.Heap
