import HeapAbstraction.Proofs.Additions
import HeapAbstraction.Proofs.HeapFile

namespace HeapAbstraction

def HeapState.ofTypes (types : List Bytes) : HeapState where
  nextId := types.length
  nodeType x := types[x]?
  selector _ _ := none
  hyperedge _ := none
  pointer _ := none
  externals := []

theorem HeapState.addNodes_ofTypes (types : List Bytes) (type : Bytes) (n : Nat) :
    (ofTypes types).addNodes type n = ofTypes (types ++ List.replicate n type) := by
  ext1
  · simp [addNodes, ofTypes]
  · funext x
    change (if types.length ≤ x ∧ x < types.length + n then some type else types[x]?) =
      (types ++ List.replicate n type)[x]?
    rw [List.getElem?_append, List.getElem?_replicate]
    split <;> split <;> grind
  all_goals rfl

namespace HeapFile

namespace Statement

def declared : Statement → List (Bytes × Bytes)
  | .nodes names type => names.map (fun x => (x, type))
  | _ => []

def uses : Statement → List Bytes
  | .nodes _ _ => []
  | .ext names => names
  | .selector source _ target => [source, target]
  | .variable _ target => [target]
  | .hyperedge _ tentacles => tentacles

def additions (ranks : List (Bytes × Int)) (id : Bytes → Nat) : Statement → List Addition
  | .nodes _ _ => []
  | .ext names => names.map (fun x => .external (id x))
  | .selector source s target => [.selector (id source) s (id target)]
  | .variable name target => [.pointer name (id target)]
  | .hyperedge label tentacles =>
      [.hyperedge ⟨label, (ranks.lookup label).getD tentacles.length⟩ (tentacles.map id)]

end Statement

namespace HeapDef

variable {d d' : HeapDef} {ranks : List (Bytes × Int)} {body : List Statement} {id : Bytes → Nat}

def carryOut (h : Heap) (as : List Addition) : Except HeapError Heap := as.foldlM (fun h a => a.edit.apply h) h

theorem edited_bind (r : Except HeapError Heap) (f : Heap → Except HeapError Heap) :
    d.edited (r >>= f) = d.edited r >>= fun d' => d'.edited (f d'.heap) := by
  cases r with
  | error e => rfl
  | ok h =>
    change d.edited (f h) = { d with heap := h }.edited (f h)
    cases f h <;> rfl

theorem node_eq {x : Bytes} (hx : d.names.lookup x = some (id x)) : d.node x = .ok (id x : Int) := by
  rw [node, hx]

theorem names_edited {r : Except HeapError Heap} (he : d.edited r = .ok d') : d'.names = d.names := by
  cases r with
  | error e => cases he
  | ok h =>
    cases he
    rfl

theorem edited_append (as bs : List Addition) : d.edited (carryOut d.heap (as ++ bs)) =
    d.edited (carryOut d.heap as) >>= fun d' => d'.edited (carryOut d'.heap bs) := by
  rw [carryOut, List.foldlM_append, edited_bind]
  rfl

theorem edited_singleton (a : Addition) : d.edited (carryOut d.heap [a]) = d.edited (a.edit.apply d.heap) := by
  rw [carryOut, List.foldlM_cons]
  cases a.edit.apply d.heap <;> rfl

theorem setExternals_eq {names : List Bytes} (hu : ∀ x ∈ names, d.names.lookup x = some (id x)) :
    d.setExternals names = d.edited (carryOut d.heap (names.map (fun x => .external (id x)))) := by
  induction names generalizing d with
  | nil => rfl
  | cons x names ih =>
    obtain ⟨hx, hnames⟩ := List.forall_mem_cons.mp hu
    have happend := edited_append (d := d) [.external (id x)] (names.map (fun x => .external (id x)))
    rw [edited_singleton] at happend
    refine Eq.trans ?_ happend.symm
    rw [setExternals, node_eq hx]
    change (d.edited (d.heap.setExternal (id x)) >>= fun d' => d'.setExternals names) =
      d.edited (d.heap.setExternal (id x)) >>= _
    cases hr : d.edited (d.heap.setExternal (id x)) with
    | error e => rfl
    | ok d' => exact ih (names_edited hr ▸ hnames)

theorem perform_eq {s : Statement} (hu : ∀ x ∈ s.uses, d.names.lookup x = some (id x))
    (hl : ∀ label tentacles, s = .hyperedge label tentacles → startsWithDigit label = false) :
    d.perform ranks s = d.edited (carryOut d.heap (s.additions ranks id)) := by
  cases s with
  | nodes names type => rfl
  | ext names => exact setExternals_eq hu
  | selector source f target =>
    rw [Statement.additions, edited_singleton, perform, node_eq (hu source (by simp [Statement.uses])),
      node_eq (hu target (by simp [Statement.uses]))]
    rfl
  | «variable» name target =>
    rw [Statement.additions, edited_singleton, perform, node_eq (hu target (by simp [Statement.uses]))]
    rfl
  | hyperedge label tentacles =>
    have hts : tentacles.mapM d.node = .ok (tentacles.map (fun x => (id x : Int))) :=
      mapM_eq_map fun x hx => node_eq (hu x hx)
    rw [Statement.additions, edited_singleton, perform, hl label tentacles rfl, hts]
    change d.edited (Prod.fst <$> d.heap.addNonterminal ⟨label, (ranks.lookup label).getD
      (tentacles.map (fun x => (id x : Int))).length⟩ (tentacles.map (fun x => (id x : Int)))) = _
    rw [List.length_map, Addition.edit, List.map_map]
    rfl

theorem performAll_eq (hu : ∀ s ∈ body, ∀ x ∈ s.uses, d.names.lookup x = some (id x))
    (hl : ∀ label tentacles, .hyperedge label tentacles ∈ body → startsWithDigit label = false) :
    performAll ranks d body = d.edited (carryOut d.heap (body.flatMap (Statement.additions ranks id))) := by
  induction body generalizing d with
  | nil => rfl
  | cons s body ih =>
    obtain ⟨hs, hbody⟩ := List.forall_mem_cons.mp hu
    rw [performAll, List.flatMap_cons, edited_append, perform_eq hs fun label ts h => hl label ts (by simp [h])]
    cases hr : d.edited (carryOut d.heap (s.additions ranks id)) with
    | error e => rfl
    | ok d' => exact ih (names_edited hr ▸ hbody) fun label ts h => hl label ts (by simp [h])

theorem nameNodes_eq {ps : List (Bytes × Nat)} (hnew : ∀ p ∈ ps, d.names.lookup p.1 = none)
    (hn : (ps.map Prod.fst).Nodup) : d.nameNodes ps = .ok { d with names := d.names ++ ps } := by
  induction ps generalizing d with
  | nil => simp [nameNodes]
  | cons p ps ih =>
    obtain ⟨x, i⟩ := p
    obtain ⟨hx, hps⟩ := List.forall_mem_cons.mp hnew
    obtain ⟨hnx, hn⟩ := List.nodup_cons.mp hn
    rw [nameNodes, hx]
    refine (ih (d := { d with names := d.names ++ [(x, i)] }) (fun q hq => ?_) hn).trans (by simp)
    have hne : (q.1 == x) = false := beq_false_of_ne fun h => hnx (List.mem_map.mpr ⟨q, hq, h⟩)
    simp [List.lookup_append, hps q hq, List.lookup_cons, hne]

theorem nameNodes_zipIdx {xs names : List Bytes} (hd : d.names = xs.zipIdx) (hn : (xs ++ names).Nodup) :
    d.nameNodes (names.zipIdx xs.length) = .ok { d with names := (xs ++ names).zipIdx } := by
  obtain ⟨-, hnames, hdisjoint⟩ := List.nodup_append.mp hn
  rw [nameNodes_eq]
  · rw [hd, List.zipIdx_append, Nat.zero_add]
  · intro p hp
    have hp' : p.1 ∈ names := by
      rw [← List.zipIdx_map_fst xs.length names]
      exact List.mem_map_of_mem hp
    rw [hd, lookup_zipIdx, if_neg fun hm => hdisjoint _ hm _ hp' rfl]
  · rwa [List.zipIdx_map_fst]

structure Declares (d : HeapDef) (nodes : List (Bytes × Bytes)) : Prop where
  wellFormed : d.heap.WellFormed
  state : d.heap.state = .ofTypes (nodes.map Prod.snd)
  names : d.names = (nodes.map Prod.fst).zipIdx

namespace Declares

variable {nodes : List (Bytes × Bytes)}

theorem addNodes (hd : d.Declares nodes) {names : List Bytes} (type : Bytes)
    (hc : (names.length : Int) ≤ Heap.requestLimit) : ∃ h, h.WellFormed ∧
      d.heap.addNodes type names.length = .ok (h, List.range' nodes.length names.length) ∧
        h.state = .ofTypes (nodes.map Prod.snd ++ List.replicate names.length type) := by
  have hadd := hd.wellFormed.state_addNodes type names.length
  rw [hd.state, HeapState.run, if_pos ⟨by omega, hc⟩, Int.toNat_natCast, HeapState.addNodes_ofTypes] at hadd
  cases hr : d.heap.addNodes type names.length with
  | error err => simp [hr] at hadd
  | ok r =>
    rw [hr] at hadd
    obtain ⟨hst, hids⟩ := Prod.mk.inj (Except.ok.inj hadd)
    refine ⟨r.1, hd.wellFormed.addNodes hr, ?_, hst⟩
    rw [List.range'_eq_map_range, ← List.length_map Prod.snd]
    exact congrArg (fun ids => Except.ok (r.1, ids)) hids

theorem nameNodes (hd : d.Declares nodes) {names : List Bytes} (type : Bytes)
    (hc : (names.length : Int) ≤ Heap.requestLimit) (hn : (nodes.map Prod.fst ++ names).Nodup) :
    ∃ h d', d.heap.addNodes type names.length = .ok (h, List.range' nodes.length names.length) ∧
      { d with heap := h }.nameNodes (names.zip (List.range' nodes.length names.length)) = .ok d' ∧
        d'.Declares (nodes ++ (Statement.nodes names type).declared) := by
  have hdecl : (nodes ++ (Statement.nodes names type).declared).map Prod.fst = nodes.map Prod.fst ++ names := by
    simp [Statement.declared, Function.comp_def]
  obtain ⟨h, hw, hadd, hst⟩ := hd.addNodes type hc
  have hname := nameNodes_zipIdx (d := { d with heap := h }) hd.names hn
  rw [List.length_map, List.zipIdx_eq_zip_range'] at hname
  refine ⟨h, _, hadd, hname, hw, ?_, by rw [hdecl]⟩
  simp [hst, Statement.declared, Function.comp_def, List.map_const']

theorem declareNodes (hd : d.Declares nodes) (hn : ((nodes ++ body.flatMap Statement.declared).map Prod.fst).Nodup)
    (hc : ∀ names type, .nodes names type ∈ body → (names.length : Int) ≤ Heap.requestLimit) :
    ∃ d', d.declareNodes body = .ok d' ∧ d'.Declares (nodes ++ body.flatMap Statement.declared) := by
  induction body generalizing d nodes with
  | nil => exact ⟨d, rfl, by simpa using hd⟩
  | cons s body ih =>
    have hc' names type (hm : .nodes names type ∈ body) := hc names type (List.mem_cons_of_mem _ hm)
    cases s with
    | nodes names type =>
      rw [List.flatMap_cons, ← List.append_assoc] at hn ⊢
      have hfirst : (nodes.map Prod.fst ++ names).Nodup := by
        rw [List.map_append, List.nodup_append] at hn
        simpa [Statement.declared, Function.comp_def] using hn.1
      obtain ⟨h, d₁, hadd, hname, hd₁⟩ := hd.nameNodes type (hc names type (by simp)) hfirst
      obtain ⟨d', hrest, hall⟩ := ih hd₁ hn hc'
      refine ⟨d', ?_, hall⟩
      rw [HeapDef.declareNodes, hadd]
      simp only [hname]
      exact hrest
    | _ => exact ih hd hn hc'

end Declares

end HeapDef

section Body

variable {ranks : List (Bytes × Int)} {body : List Statement}

def declaredNodes (body : List Statement) : List (Bytes × Bytes) := body.flatMap Statement.declared

def idIn (body : List Statement) (x : Bytes) : Nat := ((declaredNodes body).map Prod.fst).idxOf x

def bodyAdditions (ranks : List (Bytes × Int)) (body : List Statement) : List Addition :=
  body.flatMap (Statement.additions ranks (idIn body))

structure Acceptable (ranks : List (Bytes × Int)) (body : List Statement) : Prop where
  declared_once : ((declaredNodes body).map Prod.fst).Nodup
  count : ∀ names type, .nodes names type ∈ body → (names.length : Int) ≤ Heap.requestLimit
  used : ∀ s ∈ body, ∀ x ∈ s.uses, x ∈ (declaredNodes body).map Prod.fst
  label : ∀ label tentacles, .hyperedge label tentacles ∈ body → HeapDef.startsWithDigit label = false ∧
    (ranks.lookup label).getD tentacles.length = (tentacles.length : Int)
  apart : (bodyAdditions ranks body).Pairwise Addition.Apart

theorem state_empty : Heap.empty.state = .ofTypes [] := by
  ext1 <;> rfl

theorem free_ofTypes (types : List Bytes) (a : Addition) : a.Free (.ofTypes types) := by
  cases a <;> simp [Addition.Free, HeapState.ofTypes]

theorem fresh_ofTypes (types : List Bytes) : (HeapState.ofTypes types).Fresh := by
  intro x e _
  cases e <;> simp [HeapState.Edge, HeapState.ofTypes]

namespace Acceptable

variable (ha : Acceptable ranks body)

include ha

theorem grounded {a : Addition} (hm : a ∈ bodyAdditions ranks body) :
    a.Grounded (.ofTypes ((declaredNodes body).map Prod.snd)) := by
  obtain ⟨s, hs, hm⟩ := List.mem_flatMap.mp hm
  have hnode (x : Bytes) (hx : x ∈ s.uses) :
      ∃ type, (HeapState.ofTypes ((declaredNodes body).map Prod.snd)).nodeType (idIn body x) = some type := by
    have hlt : idIn body x < ((declaredNodes body).map Prod.snd).length := by
      rw [List.length_map, ← List.length_map Prod.fst]
      exact List.idxOf_lt_length_of_mem (ha.used s hs x hx)
    exact ⟨_, List.getElem?_eq_getElem hlt⟩
  cases s with
  | nodes names type => cases hm
  | ext names =>
    obtain ⟨x, hx, rfl⟩ := List.mem_map.mp hm
    exact ⟨by simpa [Addition.ends] using hnode x hx, by simp⟩
  | selector source f target =>
    obtain rfl := List.mem_singleton.mp hm
    exact ⟨by simpa [Addition.ends] using ⟨hnode source (by simp [Statement.uses]), hnode target (by simp [Statement.uses])⟩,
      by simp⟩
  | «variable» name target =>
    obtain rfl := List.mem_singleton.mp hm
    exact ⟨by simpa [Addition.ends] using hnode target (by simp [Statement.uses]), by simp⟩
  | hyperedge label tentacles =>
    obtain rfl := List.mem_singleton.mp hm
    refine ⟨fun y hy => ?_, ?_⟩
    · obtain ⟨x, hx, rfl⟩ := List.mem_map.mp hy
      exact hnode x hx
    · rintro nt ys ⟨⟩
      simpa using (ha.label label tentacles hs).2

theorem ofBody : ∃ d, HeapDef.ofBody ranks body = .ok d ∧ d.heap.WellFormed ∧ d.heap.Idle ∧
    d.heap.state = (HeapState.ofTypes ((declaredNodes body).map Prod.snd)).extend (bodyAdditions ranks body) ∧
      d.names = ((declaredNodes body).map Prod.fst).zipIdx := by
  have hstart : HeapDef.Declares {} [] := ⟨Heap.wellFormed_empty, state_empty, rfl⟩
  obtain ⟨d₁, hd₁, hdecl⟩ := hstart.declareNodes ha.declared_once ha.count
  have hgrounded : ∀ a ∈ bodyAdditions ranks body, a.Grounded d₁.heap.state := by
    rw [hdecl.state]
    exact fun a hm => ha.grounded hm
  have hfree : ∀ a ∈ bodyAdditions ranks body, a.Free d₁.heap.state := by
    rw [hdecl.state]
    exact fun a _ => free_ofTypes _ a
  have hlookup : ∀ s ∈ body, ∀ x ∈ s.uses, d₁.names.lookup x = some (idIn body x) := by
    intro s hs x hx
    rw [hdecl.names, lookup_zipIdx]
    exact if_pos (ha.used s hs x hx)
  obtain ⟨h₂, hh₂, hw₂, hst₂⟩ := hdecl.wellFormed.exists_additions hgrounded hfree ha.apart
  obtain ⟨h₃, hb, -, hi, hv⟩ := hw₂.toSound.build
  have hw₃ := (hw₂.build hb).1
  refine ⟨⟨h₃, d₁.names⟩, ?_, hw₃, hi, ?_, hdecl.names⟩
  · have hperform : HeapDef.performAll ranks d₁ body = .ok { d₁ with heap := h₂ } := by
      rw [HeapDef.performAll_eq hlookup fun label ts hm => (ha.label label ts hm).1]
      exact congrArg d₁.edited hh₂
    rw [HeapDef.ofBody, hd₁]
    change (HeapDef.performAll ranks d₁ body >>= _) = _
    rw [hperform]
    exact congrArg (HeapDef.edited _) hb
  · have hd := hw₃.denotes
    rw [hv] at hd
    rw [hd.unique hw₂.denotes, hst₂, hdecl.state]
    rfl

end Acceptable

end Body

end HeapFile

end HeapAbstraction
