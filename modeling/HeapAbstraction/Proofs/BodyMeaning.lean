import HeapAbstraction.Proofs.BodyChecks
import HeapAbstraction.Proofs.Outline
import HeapAbstraction.Proofs.Renumbering

namespace HeapAbstraction

theorem Heap.WellFormed.sorted_idsOf {h : Heap} (hw : h.WellFormed) (kind : Kind) :
    (h.idsOf kind).Pairwise (· < ·) := by
  have hle : (h.idsOf kind).Pairwise (· ≤ ·) := by
    rw [idsOf, sortIds_eq]
    exact List.pairwise_insertionSort _ _
  exact hle.imp₂ (fun _ _ => Nat.lt_of_le_of_ne) (hw.nodup_idsOf kind)

section Lists

variable {α β : Type}

theorem filter_isSome_map (g : α → Option β) (as : List α) :
    (as.map g).filter Option.isSome = (as.filterMap g).map some := by
  induction as with
  | nil => rfl
  | cons a as ih => cases ha : g a <;> simp [ha, ih]

theorem map_of_positions (as : List α) {g : α → Option β} {f : Nat → Option β} {n : Nat} {xs : List Nat}
    (hs : xs.Pairwise (· < ·)) (hm : ∀ x, x ∈ xs ↔ ∃ b, f x = some b)
    (hf : ∀ x b, f x = some b ↔ ∃ i a, x = n + i ∧ as[i]? = some a ∧ g a = some b) :
    xs.map f = (as.filterMap g).map some := by
  have hpoint : (List.range' n as.length).map f = as.map g := by
    refine List.ext_getElem (by simp) fun i hi hi' => Option.ext fun b => ?_
    rw [List.length_map] at hi'
    simp only [List.getElem_map, List.getElem_range', Nat.one_mul, hf]
    constructor
    · rintro ⟨j, a, hj, ha, hb⟩
      obtain rfl : i = j := by omega
      rw [List.getElem?_eq_getElem hi', Option.some.injEq] at ha
      rwa [ha]
    · exact fun hb => ⟨i, _, rfl, List.getElem?_eq_getElem hi', hb⟩
  have hxs : xs = (List.range' n as.length).filter (fun x => (f x).isSome) := by
    refine hs.eq_of_mem_iff (List.Pairwise.filter _ List.pairwise_lt_range') fun x => ?_
    rw [List.mem_filter, List.mem_range'_1, hm, Option.isSome_iff_exists]
    refine ⟨fun hx => ⟨?_, hx⟩, And.right⟩
    obtain ⟨b, hb⟩ := hx
    obtain ⟨i, a, rfl, ha, -⟩ := (hf x b).mp hb
    obtain ⟨hi, -⟩ := List.getElem?_eq_some_iff.mp ha
    omega
  calc xs.map f = ((List.range' n as.length).filter (Option.isSome ∘ f)).map f := congrArg (List.map f) hxs
    _ = (as.map g).filter Option.isSome := by rw [← List.filter_map, hpoint]
    _ = (as.filterMap g).map some := filter_isSome_map g as

def shiftPerm (σ : Equiv.Perm Nat) : Equiv.Perm Nat where
  toFun
    | 0 => 0
    | i + 1 => σ i + 1
  invFun
    | 0 => 0
    | i + 1 => σ.symm i + 1
  left_inv i := by cases i <;> simp
  right_inv i := by cases i <;> simp

theorem exists_perm_getElem? {as bs : List α} (h : as.Perm bs) : ∃ σ : Equiv.Perm Nat, ∀ i, bs[σ i]? = as[i]? := by
  induction h with
  | nil => exact ⟨1, fun _ => rfl⟩
  | cons a _ ih =>
    obtain ⟨σ, hσ⟩ := ih
    refine ⟨shiftPerm σ, fun i => ?_⟩
    cases i with
    | zero => rfl
    | succ i => exact hσ i
  | swap a b as =>
    refine ⟨Equiv.swap 0 1, fun i => ?_⟩
    match i with
    | 0 => rfl
    | 1 => rfl
    | i + 2 => rw [Equiv.swap_apply_of_ne_of_ne (by omega) (by omega)]; rfl
  | trans _ _ ih₁ ih₂ =>
    obtain ⟨σ, hσ⟩ := ih₁
    obtain ⟨τ, hτ⟩ := ih₂
    exact ⟨τ * σ, fun i => (hτ (σ i)).trans (hσ i)⟩

end Lists

namespace Addition

variable {as : List Addition} {types : List Bytes} {x : Nat}

theorem selector_mem {y : Nat} {s : Bytes} : .selector x s y ∈ as ↔ (x, s, y) ∈ as.filterMap selector? := by
  rw [List.mem_filterMap]
  constructor
  · exact fun h => ⟨_, h, rfl⟩
  · rintro ⟨a, hm, ha⟩
    cases a <;> cases ha
    exact hm

theorem selector_extend_ofTypes {y : Nat} {s : Bytes} (ha : as.Pairwise Apart) :
    ((HeapState.ofTypes types).extend as).selector x s = some y ↔ .selector x s y ∈ as := by
  rw [HeapState.selector_extend (fun a _ => HeapFile.free_ofTypes _ a) ha]
  exact or_iff_right nofun

theorem edge_extend_ofTypes {e : Addition} : ((HeapState.ofTypes types).extend as).Edge x e ↔
    ∃ i, x = types.length + i ∧ (as.filter isEdge)[i]? = some e := by
  refine (HeapState.edge_extend (HeapFile.fresh_ofTypes types)).trans (or_iff_right ?_)
  cases e <;> simp [HeapState.Edge, HeapState.ofTypes]

theorem hyperedge?_eq_some {a : Addition} {p : Nonterminal × List Nat} :
    a.hyperedge? = some p ↔ a = .hyperedge p.1 p.2 := by
  cases a <;> simp [hyperedge?, Prod.ext_iff]

theorem pointer?_eq_some {a : Addition} {p : Bytes × Nat} : a.pointer? = some p ↔ a = .pointer p.1 p.2 := by
  cases a <;> simp [pointer?, Prod.ext_iff]

theorem filterMap_isEdge {β : Type} {g : Addition → Option β} (hg : ∀ a b, g a = some b → a.isEdge = true)
    (as : List Addition) : (as.filter isEdge).filterMap g = as.filterMap g := by
  rw [List.filterMap_filter]
  refine List.filterMap_congr fun a _ => ?_
  cases ha : g a with
  | none => simp
  | some b => simp [hg a b ha]

theorem map_edges {β : Type} {g : Addition → Option β} {e : β → Addition} {f : Nat → Option β} {xs : List Nat}
    (hg : ∀ {a b}, g a = some b ↔ a = e b) (he : ∀ b, (e b).isEdge = true) (hs : xs.Pairwise (· < ·))
    (hm : ∀ x, x ∈ xs ↔ ∃ b, f x = some b)
    (hf : ∀ x b, f x = some b ↔ ((HeapState.ofTypes types).extend as).Edge x (e b)) :
    xs.map f = (as.filterMap g).map some := by
  have hisEdge (a : Addition) (b : β) (ha : g a = some b) : a.isEdge = true := by
    rw [hg.mp ha, he]
  rw [← filterMap_isEdge hisEdge]
  refine map_of_positions (n := types.length) (as.filter isEdge) hs hm fun x b => ?_
  rw [hf, edge_extend_ofTypes]
  constructor
  · rintro ⟨i, hx, hi⟩
    exact ⟨i, _, hx, hi, hg.mpr rfl⟩
  · rintro ⟨i, a, hx, hi, ha⟩
    exact ⟨i, hx, hg.mp ha ▸ hi⟩

def rename (ν : Nat → Nat) : Addition → Addition
  | .external x => .external (ν x)
  | .selector x s y => .selector (ν x) s (ν y)
  | .hyperedge nt ys => .hyperedge nt (ys.map ν)
  | .pointer name y => .pointer name (ν y)

theorem isEdge_rename (ν : Nat → Nat) (a : Addition) : (a.rename ν).isEdge = a.isEdge := by
  cases a <;> rfl

theorem rename_congr {φ ν : Nat → Nat} {a : Addition} (h : ∀ x ∈ a.ends, φ x = ν x) : a.rename φ = a.rename ν := by
  cases a with
  | hyperedge nt ys => exact congrArg (hyperedge nt) (List.map_congr_left h)
  | _ => simp_all [rename, ends]

def renumbering (n : Nat) (ν σ : Nat → Nat) (x : Nat) : Nat := if x < n then ν x else n + σ (x - n)

section Reorder

variable {types types' : List Bytes} {as bs : List Addition} {ν σ : Equiv.Perm Nat}

structure Reorders (types types' : List Bytes) (as bs : List Addition) (ν σ : Equiv.Perm Nat) : Prop where
  length : types'.length = types.length
  type : ∀ x, types'[ν x]? = types[x]?
  ends : ∀ a ∈ as, ∀ x ∈ a.ends, x < types.length
  mem : ∀ b, b ∈ bs ↔ ∃ a ∈ as, a.rename ν = b
  edge : ∀ i, (bs.filter isEdge)[σ i]? = ((as.filter isEdge)[i]?).map (rename ν)
  externals : bs.filterMap external? = (as.filterMap external?).map ν
  apart : as.Pairwise Apart
  apart' : bs.Pairwise Apart

namespace Reorders

variable (hr : Reorders types types' as bs ν σ)

include hr

theorem lt_iff (x : Nat) : ν x < types.length ↔ x < types.length := by
  have hnone : types'[ν x]? = none ↔ types[x]? = none := by rw [hr.type]
  rw [List.getElem?_eq_none_iff, List.getElem?_eq_none_iff, hr.length] at hnone
  omega

theorem rename_eq {a : Addition} (ha : a ∈ as) : a.rename (renumbering types.length ν σ) = a.rename ν :=
  rename_congr fun x hx => if_pos (hr.ends a ha x hx)

theorem renumbering_inj {x y : Nat} (h : renumbering types.length ν σ x = renumbering types.length ν σ y) : x = y := by
  have hx := hr.lt_iff x
  have hy := hr.lt_iff y
  unfold renumbering at h
  split at h <;> split at h
  · exact ν.injective h
  · omega
  · omega
  · have hσ : x - types.length = y - types.length := σ.injective (by omega)
    omega

theorem edge_iff {z : Nat} {e : Addition} : ((HeapState.ofTypes types').extend bs).Edge z e ↔
    ∃ x a, ((HeapState.ofTypes types).extend as).Edge x a ∧ renumbering types.length ν σ x = z ∧
      a.rename (renumbering types.length ν σ) = e := by
  have hnew (i : Nat) : renumbering types.length ν σ (types.length + i) = types.length + σ i := by
    simp [renumbering]
  have hmem {i : Nat} {a : Addition} (hi : (as.filter isEdge)[i]? = some a) : a ∈ as :=
    List.mem_of_mem_filter (List.mem_of_getElem? hi)
  simp only [edge_extend_ofTypes, hr.length]
  constructor
  · rintro ⟨j, rfl, hj⟩
    have hedge := hr.edge (σ.symm j)
    rw [σ.apply_symm_apply, hj, eq_comm, Option.map_eq_some_iff] at hedge
    obtain ⟨a, ha, rfl⟩ := hedge
    exact ⟨_, a, ⟨σ.symm j, rfl, ha⟩, by rw [hnew, σ.apply_symm_apply], hr.rename_eq (hmem ha)⟩
  · rintro ⟨_, a, ⟨i, rfl, ha⟩, rfl, rfl⟩
    refine ⟨σ i, hnew i, ?_⟩
    rw [hr.edge, ha, hr.rename_eq (hmem ha)]
    rfl

theorem renumbers : HeapState.Renumbers (renumbering types.length ν σ) ((HeapState.ofTypes types).extend as)
    ((HeapState.ofTypes types').extend bs) where
  inj _ _ _ _ := hr.renumbering_inj
  nodeType z type := by
    rw [HeapState.nodeType_extend, HeapState.nodeType_extend]
    change types'[z]? = some type ↔ ∃ x, types[x]? = some type ∧ _
    constructor
    · intro hz
      rw [← ν.apply_symm_apply z, hr.type] at hz
      obtain ⟨hlt, -⟩ := List.getElem?_eq_some_iff.mp hz
      exact ⟨ν.symm z, hz, (if_pos hlt).trans (ν.apply_symm_apply z)⟩
    · rintro ⟨x, hx, rfl⟩
      obtain ⟨hlt, -⟩ := List.getElem?_eq_some_iff.mp hx
      rw [renumbering, if_pos hlt, hr.type, hx]
  selector z s w := by
    simp only [selector_extend_ofTypes hr.apart, selector_extend_ofTypes hr.apart', hr.mem]
    constructor
    · rintro ⟨a, ha, hb⟩
      rw [← hr.rename_eq ha] at hb
      cases a <;> cases hb
      exact ⟨_, _, ha, rfl, rfl⟩
    · rintro ⟨x, y, ha, rfl, rfl⟩
      exact ⟨_, ha, (hr.rename_eq ha).symm⟩
  hyperedge z nt ws := by
    refine (hr.edge_iff (e := .hyperedge nt ws)).trans ⟨?_, ?_⟩
    · rintro ⟨x, a, ha, hz, hb⟩
      cases a <;> cases hb
      exact ⟨x, _, ha, hz, rfl⟩
    · rintro ⟨x, ys, ha, hz, rfl⟩
      exact ⟨x, .hyperedge nt ys, ha, hz, rfl⟩
  pointer z name w := by
    refine (hr.edge_iff (e := .pointer name w)).trans ⟨?_, ?_⟩
    · rintro ⟨x, a, ha, hz, hb⟩
      cases a <;> cases hb
      exact ⟨x, _, ha, hz, rfl⟩
    · rintro ⟨x, y, ha, hz, rfl⟩
      exact ⟨x, .pointer name y, ha, hz, rfl⟩
  externals := by
    rw [HeapState.externals_extend, HeapState.externals_extend, hr.externals]
    refine List.map_congr_left fun x hx => ?_
    obtain ⟨a, ha, hx⟩ := List.mem_filterMap.mp hx
    cases a <;> cases hx
    exact (if_pos (hr.ends _ ha _ List.mem_cons_self)).symm

end Reorders

end Reorder

end Addition

namespace HeapFile

structure Meaning (body : List Statement) (d : HeapDef) : Prop where
  wellFormed : d.heap.WellFormed
  idle : d.heap.Idle
  names : d.names.map Prod.fst = (declaredNodes body).map Prod.fst
  nodes : d.names.map Prod.snd = d.heap.nodes
  nodup : (d.names.map Prod.fst).Nodup ∧ (d.names.map Prod.snd).Nodup
  lookup : ∀ x ∈ (declaredNodes body).map Prod.fst, d.names.lookup x = some (idIn body x)
  types : d.heap.nodes.map d.heap.state.nodeType = (declaredNodes body).map (fun p => some p.2)
  externals : d.heap.externalNodes = .ok ((body.flatMap Statement.externals).map (idIn body))
  selector : ∀ x s y, d.heap.state.selector x s = some y ↔
    ∃ p ∈ body.filterMap Statement.selector?, (idIn body p.1, p.2.1, idIn body p.2.2) = (x, s, y)
  hyperedges : d.heap.nonterminalEdges.map d.heap.state.hyperedge =
    (body.filterMap Statement.hyperedge?).map (fun p => some (⟨p.1, p.2.length⟩, p.2.map (idIn body)))
  pointers : d.heap.variableEdges.map d.heap.state.pointer =
    (body.filterMap Statement.pointer?).map (fun p => some (p.1, idIn body p.2))

section Body

variable {ranks : List (Bytes × Int)} {body : List Statement} {d : HeapDef}

theorem state_of_ofBody (hd : HeapDef.ofBody ranks body = .ok d) : d.heap.state =
    (HeapState.ofTypes ((declaredNodes body).map Prod.snd)).extend (bodyAdditions ranks body) := by
  obtain ⟨d', hd', -, -, hst, -⟩ := (acceptable_of_ofBody hd).ofBody
  obtain rfl := Except.ok.inj (hd.symm.trans hd')
  exact hst

theorem meaning_of_ofBody (hd : HeapDef.ofBody ranks body = .ok d) : Meaning body d := by
  have ha := acceptable_of_ofBody hd
  have hst := state_of_ofBody hd
  obtain ⟨d', hd', hw, hi, -, hnames⟩ := ha.ofBody
  obtain rfl := Except.ok.inj (hd.symm.trans hd')
  have htype (x : Nat) : d.heap.state.nodeType x = ((declaredNodes body).map Prod.snd)[x]? := by
    rw [hst, HeapState.nodeType_extend]
    rfl
  have hnodes : d.heap.nodes = List.range (declaredNodes body).length := by
    refine (hw.sorted_idsOf .node).eq_of_mem_iff List.pairwise_lt_range fun x => ?_
    refine (hw.mem_nodes (x := x)).trans ?_
    rw [htype, ← Option.isSome_iff_exists]
    simp
  have hfst : d.names.map Prod.fst = (declaredNodes body).map Prod.fst := by rw [hnames, List.zipIdx_map_fst]
  have hsnd : d.names.map Prod.snd = d.heap.nodes := by
    rw [hnames, hnodes, List.zipIdx_map_snd, List.length_map, List.range_eq_range']
  refine ⟨hw, hi, hfst, hsnd, ⟨hfst ▸ ha.declared_once, hsnd ▸ hw.nodup_idsOf .node⟩, fun x hx => ?_, ?_, ?_,
    fun x s y => ?_, ?_, ?_⟩
  · rw [hnames, lookup_zipIdx]
    exact if_pos hx
  · refine List.ext_getElem (by simp [hnodes]) fun i hi hi' => ?_
    rw [List.length_map] at hi'
    simp [htype, hnodes, hi']
  · rw [hw.toSound.externalNodes_eq, hst, HeapState.externals_extend, external_bodyAdditions]
    rfl
  · rw [hst, Addition.selector_extend_ofTypes ha.apart, Addition.selector_mem, selector_bodyAdditions, List.mem_map]
  · have hedges := Addition.map_edges Addition.hyperedge?_eq_some (fun _ => rfl) (hw.sorted_idsOf .nonterminal)
      (fun x => hw.mem_nonterminalEdges) fun x p => by rw [hst]; rfl
    refine hedges.trans ?_
    rw [hyperedge_bodyAdditions, List.map_map]
    refine List.map_congr_left fun p hp => ?_
    simp only [Function.comp_apply, (ha.label _ _ (Statement.hyperedge_mem hp)).2]
  · have hedges := Addition.map_edges Addition.pointer?_eq_some (fun _ => rfl) (hw.sorted_idsOf .variable)
      (fun x => hw.mem_variableEdges) fun x p => by rw [hst]; rfl
    refine hedges.trans ?_
    rw [pointer_bodyAdditions, List.map_map]
    rfl

theorem Meaning.declared (hm : Meaning body d) {x : Bytes} {i : Nat} (hx : d.names.lookup x = some i) :
    x ∈ (declaredNodes body).map Prod.fst := by
  obtain ⟨l, k, hl, -⟩ := List.lookup_eq_some_iff.mp hx
  rw [← hm.names, hl]
  simp

theorem additions_rename {s : Statement} {id id' : Bytes → Nat} {ν : Nat → Nat} (h : ∀ x ∈ s.uses, id' x = ν (id x)) :
    s.additions ranks id' = (s.additions ranks id).map (Addition.rename ν) := by
  cases s with
  | hyperedge label tentacles =>
    simpa [Statement.additions, Statement.uses, Addition.rename] using h
  | _ => simp_all [Statement.additions, Statement.uses, Addition.rename]

def Statement.isExt : Statement → Bool
  | .ext _ => true
  | _ => false

theorem externals_filter (body : List Statement) :
    (body.filter Statement.isExt).flatMap Statement.externals = body.flatMap Statement.externals := by
  induction body with
  | nil => rfl
  | cons s body ih => cases s <;> simp [Statement.isExt, Statement.externals, List.filter_cons, ih]

section Reordering

variable {body' : List Statement} (hp : body.Perm body')

include hp

theorem Feasible.perm (hf : Feasible body) : Feasible body' := fun s hs => hf s (hp.mem_iff.mpr hs)

theorem Consistent.perm (hc : Consistent ranks body) : Consistent ranks body' where
  declared_once := ((hp.flatMap_right _).map _).nodup_iff.mp hc.declared_once
  declared s hs x hx := ((hp.flatMap_right _).map _).mem_iff.mp (hc.declared s (hp.mem_iff.mpr hs) x hx)
  external_once := (hp.flatMap_right _).nodup_iff.mp hc.external_once
  selector_once := ((hp.filterMap _).map _).nodup_iff.mp hc.selector_once
  pointer_once := ((hp.filterMap _).map _).nodup_iff.mp hc.pointer_once
  label p hm := hc.label p ((hp.filterMap _).mem_iff.mpr hm)
  rank p hm := hc.rank p ((hp.filterMap _).mem_iff.mpr hm)

theorem Acceptable.perm (ha : Acceptable ranks body) : Acceptable ranks body' := by
  obtain ⟨hc, hf⟩ := acceptable_iff.mp ha
  exact acceptable_iff.mpr ⟨hc.perm hp, hf.perm hp⟩

theorem exists_reorders (ha : Acceptable ranks body) (he : body.filter Statement.isExt = body'.filter Statement.isExt) :
    ∃ ν σ, (∀ x ∈ (declaredNodes body).map Prod.fst, idIn body' x = ν (idIn body x)) ∧
      Addition.Reorders ((declaredNodes body).map Prod.snd) ((declaredNodes body').map Prod.snd)
        (bodyAdditions ranks body) (bodyAdditions ranks body') ν σ := by
  have ha' := ha.perm hp
  have hnodes : (declaredNodes body).Perm (declaredNodes body') := hp.flatMap_right _
  obtain ⟨ν, hν⟩ := exists_perm_getElem? hnodes
  have hid (x : Bytes) (hx : x ∈ (declaredNodes body).map Prod.fst) : idIn body' x = ν (idIn body x) := by
    have hplace : ((declaredNodes body').map Prod.fst)[ν (idIn body x)]? = some x := by
      rw [List.getElem?_map, hν, ← List.getElem?_map]
      exact List.getElem?_idxOf hx
    obtain ⟨hlt, hx'⟩ := List.getElem?_eq_some_iff.mp hplace
    have hidx := ha'.declared_once.idxOf_getElem _ hlt
    rwa [hx'] at hidx
  have hrename : body.flatMap (Statement.additions ranks (idIn body')) =
      (bodyAdditions ranks body).map (Addition.rename ν) := by
    rw [bodyAdditions, List.map_flatMap]
    exact List.flatMap_congr fun s hs => additions_rename fun x hx => hid x (ha.used s hs x hx)
  have hadds : ((bodyAdditions ranks body).map (Addition.rename ν)).Perm (bodyAdditions ranks body') :=
    hrename ▸ hp.flatMap_right _
  obtain ⟨σ, hσ⟩ := exists_perm_getElem? (hadds.filter Addition.isEdge)
  refine ⟨ν, σ, hid, ?_, fun x => ?_, fun a hm x hx => ?_, fun b => ?_, fun i => ?_, ?_, ha.apart, ha'.apart⟩
  · rw [List.length_map, List.length_map, hnodes.length_eq]
  · rw [List.getElem?_map, List.getElem?_map, hν]
  · obtain ⟨type, hx⟩ := (ha.grounded hm).node x hx
    exact (List.getElem?_eq_some_iff.mp hx).1
  · rw [← hadds.mem_iff, List.mem_map]
  · rw [hσ, List.filter_map, List.getElem?_map]
    congr 3
    funext a
    exact Addition.isEdge_rename ν a
  · rw [external_bodyAdditions, external_bodyAdditions, ← externals_filter body', ← he, externals_filter, List.map_map]
    refine List.map_congr_left fun x hx => hid x ?_
    obtain ⟨s, hs, hx⟩ := List.mem_flatMap.mp hx
    refine ha.used s hs x ?_
    cases s with
    | ext names => exact hx
    | _ => cases hx

end Reordering

theorem ofBody_meaning (ranks : List (Bytes × Int)) (body : List Statement) :
    ((∃ d, HeapDef.ofBody ranks body = .ok d) ↔ Consistent ranks body ∧ Feasible body) ∧
      (∀ d, HeapDef.ofBody ranks body = .ok d → Meaning body d) ∧
        ∀ body' : List Statement, body.Perm body' → body.filter Statement.isExt = body'.filter Statement.isExt →
          ((∃ d, HeapDef.ofBody ranks body = .ok d) ↔ ∃ d', HeapDef.ofBody ranks body' = .ok d') ∧
            ∀ d d', HeapDef.ofBody ranks body = .ok d → HeapDef.ofBody ranks body' = .ok d' →
              ∃ f, d.heap.graph.IsIsomorphism d'.heap.graph f ∧
                ∀ v x name, d.heap.IsNode v → d.heap.idOf v = some x → d.names.lookup name = some x →
                  ∃ y, d'.names.lookup name = some y ∧ d'.heap.idOf (f v) = some y := by
  refine ⟨exists_ofBody_iff.trans acceptable_iff, fun d => meaning_of_ofBody, fun body' hp he => ⟨?_, ?_⟩⟩
  · rw [exists_ofBody_iff, exists_ofBody_iff]
    exact ⟨Acceptable.perm hp, Acceptable.perm hp.symm⟩
  · intro d d' hd hd'
    have ha := acceptable_of_ofBody hd
    obtain ⟨ν, σ, hid, hr⟩ := exists_reorders hp ha he
    have hm := meaning_of_ofBody hd
    have hm' := meaning_of_ofBody hd'
    have hstates := hr.renumbers
    rw [← state_of_ofBody hd, ← state_of_ofBody hd'] at hstates
    obtain ⟨f, hf, hids⟩ := Heap.exists_isIsomorphism hm.wellFormed.toSound hm.idle hm'.wellFormed.toSound hm'.idle
      (Heap.iso_of_renumbers hstates hm.wellFormed hm'.wellFormed)
    refine ⟨f, hf, ?_⟩
    rintro v x name ⟨type, hv⟩ hx hname
    have hdecl := hm.declared hname
    rw [hm.lookup name hdecl, Option.some.injEq] at hname
    refine ⟨idIn body' name, hm'.lookup name ?_, ?_⟩
    · exact ((hp.flatMap_right _).map _).mem_iff.mp hdecl
    · have hlt : idIn body name < ((declaredNodes body).map Prod.snd).length := by
        rw [List.length_map, ← List.length_map Prod.fst]
        exact List.idxOf_lt_length_of_mem hdecl
      rw [hids v x _ hx hv, ← hname, hid name hdecl]
      exact congrArg some (if_pos hlt)

def ringBody : List Statement := [
  .variable "head" "a", .ext ["b"], .hyperedge "L" ["a", "b"], .nodes ["a", "b"] "N", .selector "a" "next" "b",
  .selector "b" "next" "c", .ext ["a"], .nodes ["c"] "M", .selector "c" "next" "a", .hyperedge "K" ["c", "c", "a"]]

def turnedRingBody : List Statement := [
  .nodes ["c"] "M", .hyperedge "K" ["c", "c", "a"], .ext ["b"], .selector "c" "next" "a", .nodes ["a", "b"] "N",
  .selector "b" "next" "c", .ext ["a"], .hyperedge "L" ["a", "b"], .selector "a" "next" "b", .variable "head" "a"]

theorem ofBody_meaning_ring : ∃ d d', HeapDef.ofBody [("L", 2)] ringBody = .ok d ∧
    HeapDef.ofBody [("L", 2)] turnedRingBody = .ok d' ∧ Meaning ringBody d ∧
      ∃ f, d.heap.graph.IsIsomorphism d'.heap.graph f := by
  obtain ⟨hiff, hmeaning, hreorder⟩ := ofBody_meaning [("L", 2)] ringBody
  obtain ⟨hsame, hiso⟩ := hreorder turnedRingBody (by decide) (by decide)
  have hconsistent : Consistent [("L", 2)] ringBody :=
    ⟨by decide, by decide, by decide, by decide, by decide, by decide, by decide⟩
  obtain ⟨d, hd⟩ := hiff.mpr ⟨hconsistent, by simp only [Feasible]; decide⟩
  obtain ⟨d', hd'⟩ := hsame.mp ⟨d, hd⟩
  obtain ⟨f, hf, -⟩ := hiso d d' hd hd'
  exact ⟨d, d', hd, hd', hmeaning d hd, f, hf⟩

end Body

end HeapFile

end HeapAbstraction
