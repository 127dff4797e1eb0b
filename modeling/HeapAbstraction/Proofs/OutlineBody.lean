import HeapAbstraction.Proofs.Outline
import HeapAbstraction.Proofs.HeapBody
import HeapAbstraction.Proofs.Renumbering

namespace HeapAbstraction

open HeapFile

namespace HeapState

structure Closed (A : HeapState) : Prop where
  selector : ∀ x s y, A.selector x s = some y → (∃ type, A.nodeType x = some type) ∧ ∃ type, A.nodeType y = some type
  hyperedge : ∀ x nt ys, A.hyperedge x = some (nt, ys) →
    nt.rank = ys.length ∧ ∀ y ∈ ys, ∃ type, A.nodeType y = some type
  pointer : ∀ x name y, A.pointer x = some (name, y) → ∃ type, A.nodeType y = some type
  pointer_inj : ∀ x x' name y y', A.pointer x = some (name, y) → A.pointer x' = some (name, y') → x = x'
  external : ∀ x ∈ A.externals, ∃ type, A.nodeType x = some type
  externals_nodup : A.externals.Nodup
  node_hyperedge : ∀ x type p, A.nodeType x = some type → A.hyperedge x ≠ some p
  node_pointer : ∀ x type p, A.nodeType x = some type → A.pointer x ≠ some p
  hyperedge_pointer : ∀ x p q, A.hyperedge x = some p → A.pointer x ≠ some q

theorem kind?_ne_none {A : HeapState} {x : Nat} (hx : ∃ type, A.nodeType x = some type) : A.kind? x ≠ none := by
  obtain ⟨type, hx⟩ := hx
  simp [kind?, hx]

structure Writable (A : HeapState) : Prop where
  type : ∀ x type, A.nodeType x = some type → isIdentifier type = true
  selector : ∀ x s y, A.selector x s = some y → isIdentifier s = true
  label : ∀ x nt ys, A.hyperedge x = some (nt, ys) → isIdentifier nt.label = true
  name : ∀ x name y, A.pointer x = some (name, y) → isIdentifier name = true ∨ isNumeral name = true

end HeapState

theorem Heap.WellFormed.closed {h : Heap} (hw : h.WellFormed) : h.state.Closed := by
  have hd := hw.denotes
  have hp := hw.toSound.proper
  have ht := hw.toSound.wellFormed_iff.mp hw
  have htarget {x y : Nat} {l : EdgeLabel} (hl : h.view.link x l y) : ∃ type, h.state.nodeType y = some type := by
    obtain ⟨type, hy⟩ := hp.link_node _ _ _ hl
    exact ⟨type, (hd.nodeType y type).mpr hy⟩
  refine ⟨fun x s y hs => ?_, fun x nt ys hx => ?_, fun x name y hx => ?_, fun x x' name y y' hx hx' => ?_, fun x hx => ?_,
    hd.externals_nodup, fun x type p hx hx' => ?_, fun x type p hx hx' => ?_, fun x p q hx hx' => ?_⟩
  · have hl := (hd.selector x s y).mp hs
    obtain ⟨type, hx⟩ := ht.selector_source hp hl
    exact ⟨⟨type, (hd.nodeType x type).mpr hx⟩, htarget hl⟩
  · obtain ⟨hlab, hys⟩ := (hd.hyperedge x nt ys).mp hx
    obtain ⟨zs, -, hlen, hzs⟩ := hw.exists_attachedNodes hlab
    obtain rfl : ys = zs := List.ext_getElem? fun i => Option.ext fun y => (hys i y).trans (hzs i y).symm
    refine ⟨hlen.symm, fun y hy => ?_⟩
    obtain ⟨i, hi⟩ := List.mem_iff_getElem?.mp hy
    exact htarget ((hys i y).mp hi)
  · exact htarget ((hd.pointer x name y).mp hx).2
  · exact ht.variable_inj x x' name ((hd.pointer x name y).mp hx).1 ((hd.pointer x' name y').mp hx').1
  · obtain ⟨i, hi⟩ := hd.mem_externals.mp hx
    obtain ⟨type, hx⟩ := hp.ordinal_node x i hi
    exact ⟨type, (hd.nodeType x type).mpr hx⟩
  · have hlab := (hd.nodeType x type).mp hx
    rw [((hd.hyperedge x p.1 p.2).mp hx').1] at hlab
    cases hlab
  · have hlab := (hd.nodeType x type).mp hx
    rw [((hd.pointer x p.1 p.2).mp hx').1] at hlab
    cases hlab
  · have hlab := ((hd.hyperedge x p.1 p.2).mp hx).1
    rw [((hd.pointer x q.1 q.2).mp hx').1] at hlab
    cases hlab

namespace Outline

def body (o : Outline) : List Statement := o.lines.map Prod.fst

def ids (o : Outline) : List Nat := o.typed.map Prod.fst ++ (o.hyperedges.map Prod.fst ++ o.pointers.map Prod.fst)

def number (o : Outline) (x : Nat) : Nat := o.ids.idxOf x

def edges (o : Outline) : List (Nat × Addition) :=
  o.hyperedges.map (fun p => (p.1, .hyperedge p.2.1 (p.2.2.map o.number))) ++
    o.pointers.map (fun p => (p.1, .pointer p.2.1 (o.number p.2.2)))

def additions (o : Outline) : List Addition :=
  o.externals.map (fun x => .external (o.number x)) ++
    (o.selectors.map (fun p => .selector (o.number p.1) p.2.1 (o.number p.2.2)) ++ o.edges.map Prod.snd)

variable {o : Outline} {A : HeapState} {x y : Nat} {type : Bytes}

theorem lines_cases {l : Line} (hl : l ∈ o.lines) : (∃ g ∈ o.groups, l = nodesOf g) ∨
    (o.externals ≠ [] ∧ l = (.ext (names o.externals), none)) ∨ (∃ p ∈ o.selectors, l = selectorOf p) ∨
      (∃ p ∈ o.hyperedges, l = hyperedgeOf p) ∨ ∃ p ∈ o.pointers, l = pointerOf p := by
  have hext (hm : l ∈ extOf o.externals) : o.externals ≠ [] ∧ l = (.ext (names o.externals), none) := by
    rw [extOf] at hm
    split at hm
    · cases hm
    · rename_i hne
      exact ⟨fun h => hne (List.isEmpty_iff.mpr h), List.mem_singleton.mp hm⟩
  simp only [lines, List.mem_append, List.mem_map, eq_comm, or_assoc] at hl ⊢
  exact hl.imp_right fun hl => hl.imp_left hext

theorem length_group_le {g : Bytes × List Nat} (hg : g ∈ o.groups) : g.2.length ≤ o.typed.length := by
  rw [typed, List.length_flatMap]
  refine List.single_le_sum (fun _ _ => Nat.zero_le _) _ (List.mem_map.mpr ⟨g, hg, ?_⟩)
  exact List.length_map _

theorem isEdge_of_mem_edges {a : Addition} (ha : a ∈ o.edges.map Prod.snd) : a.isEdge = true := by
  simp only [edges, List.map_append, List.map_map, List.mem_append, List.mem_map] at ha
  obtain ⟨p, -, rfl⟩ | ⟨p, -, rfl⟩ := ha <;> rfl

theorem hyperedge_mem_edges {nt : Nonterminal} {ws : List Nat} :
    (x, .hyperedge nt ws) ∈ o.edges ↔ ∃ ys, (x, nt, ys) ∈ o.hyperedges ∧ ys.map o.number = ws := by
  simp [edges]

theorem pointer_mem_edges {name : Bytes} {w : Nat} :
    (x, .pointer name w) ∈ o.edges ↔ ∃ y, (x, name, y) ∈ o.pointers ∧ o.number y = w := by
  simp [edges]

theorem filter_additions (o : Outline) : o.additions.filter Addition.isEdge = o.edges.map Prod.snd := by
  have hedges : (o.edges.map Prod.snd).filter Addition.isEdge = o.edges.map Prod.snd :=
    List.filter_eq_self.mpr fun _ => isEdge_of_mem_edges
  rw [additions, List.filter_append, List.filter_append, hedges, List.filter_map, List.filter_map]
  simp [Function.comp_def, Addition.isEdge]

theorem filterMap_additions (o : Outline) : o.additions.filterMap Addition.external? = o.externals.map o.number := by
  have hedges : (o.edges.map Prod.snd).filterMap Addition.external? = [] := by
    simp [edges, List.filterMap_eq_nil_iff, Addition.external?]
  simp [additions, hedges, List.filterMap_map, Function.comp_def, Addition.external?]

theorem selector_mem_additions {s : Bytes} : .selector x s y ∈ o.additions ↔
    ∃ p ∈ o.selectors, o.number p.1 = x ∧ p.2.1 = s ∧ o.number p.2.2 = y := by
  have hedges : .selector x s y ∉ o.edges.map Prod.snd := fun hm => nomatch isEdge_of_mem_edges hm
  rw [additions, List.mem_append, List.mem_append, or_iff_left hedges]
  simp

theorem ids_eq (o : Outline) : o.ids = o.typed.map Prod.fst ++ o.edges.map Prod.fst := by
  simp [ids, edges, Function.comp_def]

theorem body_eq (o : Outline) : o.body = o.groups.map (fun g => (nodesOf g).1) ++ ((extOf o.externals).map Prod.fst ++
    (o.selectors.map (fun p => (selectorOf p).1) ++ (o.hyperedges.map (fun p => (hyperedgeOf p).1) ++
      o.pointers.map (fun p => (pointerOf p).1)))) := by
  simp [body, lines, Function.comp_def]

theorem declaredNodes_body (o : Outline) :
    declaredNodes o.body = o.typed.map (fun p => (Heap.nodeName p.1, p.2)) := by
  have hnone {α : Type} (f : α → Statement) (hf : ∀ a, (f a).declared = []) (as : List α) :
      (as.map f).flatMap Statement.declared = [] := by
    rw [List.flatMap_map, List.flatMap_eq_nil_iff]
    exact fun a _ => hf a
  have hext : ((extOf o.externals).map Prod.fst).flatMap Statement.declared = [] := by
    rw [extOf]
    split <;> rfl
  have hsel := hnone (fun p => (selectorOf p).1) (fun _ => rfl) o.selectors
  have hhyper := hnone (fun p => (hyperedgeOf p).1) (fun _ => rfl) o.hyperedges
  have hptr := hnone (fun p => (pointerOf p).1) (fun _ => rfl) o.pointers
  rw [declaredNodes, body_eq]
  simp only [List.flatMap_append, hext, hsel, hhyper, hptr, List.append_nil, typed, List.map_flatMap, List.flatMap_map]
  refine List.flatMap_congr fun g _ => ?_
  rw [nodesOf, Statement.declared, names, List.map_map, List.map_map]
  rfl

section Lists

variable (ho : o.Lists A)

include ho

theorem spellable (hw : A.Writable) {l : Line} (hl : l ∈ o.lines) : l.1.isSpellable = true := by
  have hnames (xs : List Nat) : (names xs).all isIdentifier = true := by
    simp [names, Heap.isIdentifier_nodeName]
  have hnode (x : Nat) : isIdentifier (Heap.nodeName x) = true := Heap.isIdentifier_nodeName x
  rcases lines_cases hl with ⟨g, hg, rfl⟩ | ⟨hne, rfl⟩ | ⟨p, hp, rfl⟩ | ⟨p, hp, rfl⟩ | ⟨p, hp, rfl⟩
  · obtain ⟨type, xs⟩ := g
    obtain ⟨x, hx⟩ := List.exists_mem_of_ne_nil xs (ho.inhabited _ hg)
    have htype : A.nodeType x = some type :=
      (ho.typed x type).mp (List.mem_flatMap.mpr ⟨_, hg, List.mem_map.mpr ⟨x, hx, rfl⟩⟩)
    have hne : (names xs).isEmpty = false := by
      simpa [names] using ho.inhabited _ hg
    simp [nodesOf, Statement.isSpellable, hne, hnames, hw.type x type htype]
  · have hne' : (names o.externals).isEmpty = false := by
      simpa [names] using hne
    simp [Statement.isSpellable, hnames, hne']
  · have hs := hw.selector _ _ _ ((ho.selectors _ _ _).mp hp)
    simp [selectorOf, Statement.isSpellable, isWord, hnode, hs]
  · have hlabel := hw.label _ _ _ ((ho.hyperedges _ _ _).mp hp)
    simp [hyperedgeOf, Statement.isSpellable, isWord, hnames, hlabel]
  · have hname := hw.name _ _ _ ((ho.pointers _ _ _).mp hp)
    simpa [pointerOf, Statement.isSpellable, isWord, hnode] using hname

theorem writable (ht : ∀ p ∈ o.typed, isIdentifier p.2 = true) (hs : ∀ p ∈ o.selectors, isIdentifier p.2.1 = true)
    (hl : ∀ p ∈ o.hyperedges, isIdentifier p.2.1.label = true)
    (hn : ∀ p ∈ o.pointers, isIdentifier p.2.1 = true ∨ isNumeral p.2.1 = true) : A.Writable where
  type x type hx := ht _ ((ho.typed x type).mpr hx)
  selector x s y hx := hs _ ((ho.selectors x s y).mpr hx)
  label x nt ys hx := hl _ ((ho.hyperedges x nt ys).mpr hx)
  name x name y hx := hn _ ((ho.pointers x name y).mpr hx)

theorem mem_typed : x ∈ o.typed.map Prod.fst ↔ ∃ type, A.nodeType x = some type := by
  simp [← ho.typed]

theorem mem_hyperedges : x ∈ o.hyperedges.map Prod.fst ↔ ∃ p, A.hyperedge x = some p := by
  simp [← ho.hyperedges]

theorem mem_pointers : x ∈ o.pointers.map Prod.fst ↔ ∃ p, A.pointer x = some p := by
  simp [← ho.pointers]

theorem mem_ids (hx : A.kind? x ≠ none) : x ∈ o.ids := by
  rw [ids, List.mem_append, List.mem_append, mem_typed ho, mem_hyperedges ho, mem_pointers ho]
  simp only [← Option.isSome_iff_exists]
  by_contra hno
  simp only [not_or] at hno
  exact hx (by rw [HeapState.kind?, if_neg hno.1, if_neg hno.2.1, if_neg hno.2.2])

theorem nodup_ids (hA : A.Closed) : o.ids.Nodup := by
  rw [ids, List.nodup_append, List.nodup_append]
  refine ⟨ho.typed_nodup, ⟨ho.hyperedges_nodup, ho.pointers_nodup, ?_⟩, ?_⟩
  · rintro x hx _ hx' rfl
    obtain ⟨p, hp⟩ := (mem_hyperedges ho).mp hx
    obtain ⟨q, hq⟩ := (mem_pointers ho).mp hx'
    exact hA.hyperedge_pointer x p q hp hq
  · rintro x hx _ hx' rfl
    obtain ⟨type, ht⟩ := (mem_typed ho).mp hx
    rcases List.mem_append.mp hx' with hx' | hx'
    · obtain ⟨p, hp⟩ := (mem_hyperedges ho).mp hx'
      exact hA.node_hyperedge x type p ht hp
    · obtain ⟨p, hp⟩ := (mem_pointers ho).mp hx'
      exact hA.node_pointer x type p ht hp

theorem number_inj (hx : A.kind? x ≠ none) (h : o.number x = o.number y) : x = y :=
  (List.idxOf_inj (mem_ids ho hx)).mp h

theorem number_node (hx : A.nodeType x = some type) : o.number x = (o.typed.map Prod.fst).idxOf x := by
  rw [number, ids, List.idxOf_append_of_mem ((mem_typed ho).mpr ⟨type, hx⟩)]

theorem idIn_body (hx : A.nodeType x = some type) : idIn o.body (Heap.nodeName x) = o.number x := by
  have hnames : (declaredNodes o.body).map Prod.fst = (o.typed.map Prod.fst).map (fun x : Nat => Heap.nodeName x) := by
    rw [declaredNodes_body, List.map_map, List.map_map]
    rfl
  rw [idIn, hnames, number_node ho hx]
  exact idxOf_map (fun _ _ => Heap.nodeName_injective) _ x

theorem names_idIn {xs : List Nat} (hxs : ∀ x ∈ xs, ∃ type, A.nodeType x = some type) :
    (names xs).map (idIn o.body) = xs.map o.number := by
  rw [names, List.map_map]
  refine List.map_congr_left fun x hx => ?_
  obtain ⟨type, ht⟩ := hxs x hx
  exact idIn_body ho ht

theorem additions_extOf (hA : A.Closed) :
    ((extOf o.externals).map Prod.fst).flatMap (Statement.additions [] (idIn o.body)) =
      o.externals.map (fun x => .external (o.number x)) := by
  have hnames := names_idIn ho (ho.externals ▸ hA.external)
  rw [extOf]
  split
  · rename_i he
    rw [List.isEmpty_iff.mp he]
    rfl
  · change (names o.externals).map (fun x => Addition.external (idIn o.body x)) ++ [] = _
    rw [List.append_nil, ← Function.comp_def Addition.external, ← List.map_map, hnames, List.map_map]
    rfl

theorem additions_selectorOf (hA : A.Closed) {p : Nat × Bytes × Nat} (hp : p ∈ o.selectors) :
    (selectorOf p).1.additions [] (idIn o.body) = [.selector (o.number p.1) p.2.1 (o.number p.2.2)] := by
  obtain ⟨⟨type, hx⟩, type', hy⟩ := hA.selector _ _ _ ((ho.selectors _ _ _).mp hp)
  rw [selectorOf, Statement.additions, idIn_body ho hx, idIn_body ho hy]

theorem additions_hyperedgeOf (hA : A.Closed) {p : Nat × Nonterminal × List Nat} (hp : p ∈ o.hyperedges) :
    (hyperedgeOf p).1.additions [] (idIn o.body) = [.hyperedge p.2.1 (p.2.2.map o.number)] := by
  obtain ⟨hrank, hys⟩ := hA.hyperedge _ _ _ ((ho.hyperedges _ _ _).mp hp)
  rw [hyperedgeOf, Statement.additions, names_idIn ho hys, names, List.length_map]
  exact congrArg (fun rank => [Addition.hyperedge ⟨p.2.1.label, rank⟩ (p.2.2.map o.number)]) hrank.symm

theorem additions_pointerOf (hA : A.Closed) {p : Nat × Bytes × Nat} (hp : p ∈ o.pointers) :
    (pointerOf p).1.additions [] (idIn o.body) = [.pointer p.2.1 (o.number p.2.2)] := by
  obtain ⟨type, hy⟩ := hA.pointer _ _ _ ((ho.pointers _ _ _).mp hp)
  rw [pointerOf, Statement.additions, idIn_body ho hy]

theorem bodyAdditions_body (hA : A.Closed) : bodyAdditions [] o.body = o.additions := by
  have hgroups : (o.groups.map (fun g => (nodesOf g).1)).flatMap (Statement.additions [] (idIn o.body)) = [] := by
    rw [List.flatMap_map, List.flatMap_eq_nil_iff]
    exact fun g _ => rfl
  have hsel := flatMap_map_singleton fun p => additions_selectorOf ho hA (p := p)
  have hhyper := flatMap_map_singleton fun p => additions_hyperedgeOf ho hA (p := p)
  have hptr := flatMap_map_singleton fun p => additions_pointerOf ho hA (p := p)
  rw [bodyAdditions]
  conv_lhs => arg 2; rw [body_eq]
  simp only [List.flatMap_append, hgroups, additions_extOf ho hA, hsel, hhyper, hptr, additions, edges, List.nil_append,
    List.map_append, List.map_map]
  rfl

theorem exists_node_of_use (hA : A.Closed) {l : Line} (hl : l ∈ o.lines) {n : Bytes} (hn : n ∈ l.1.uses) :
    ∃ x : Nat, n = Heap.nodeName x ∧ ∃ type, A.nodeType x = some type := by
  have hnames (xs : List Nat) (hxs : ∀ x ∈ xs, ∃ type, A.nodeType x = some type) (hn : n ∈ names xs) :
      ∃ x : Nat, n = Heap.nodeName x ∧ ∃ type, A.nodeType x = some type := by
    obtain ⟨x, hx, rfl⟩ := List.mem_map.mp hn
    exact ⟨x, rfl, hxs x hx⟩
  rcases lines_cases hl with ⟨g, hg, rfl⟩ | ⟨-, rfl⟩ | ⟨p, hp, rfl⟩ | ⟨p, hp, rfl⟩ | ⟨p, hp, rfl⟩
  · cases hn
  · exact hnames _ (ho.externals ▸ hA.external) hn
  · obtain ⟨hx, hy⟩ := hA.selector _ _ _ ((ho.selectors _ _ _).mp hp)
    exact hnames [p.1, p.2.2] (by simpa using ⟨hx, hy⟩) hn
  · exact hnames _ (hA.hyperedge _ _ _ ((ho.hyperedges _ _ _).mp hp)).2 hn
  · exact hnames [p.2.2] (by simpa using hA.pointer _ _ _ ((ho.pointers _ _ _).mp hp)) hn

theorem apart_externals (hA : A.Closed) :
    (o.externals.map (fun x => Addition.external (o.number x))).Pairwise Addition.Apart := by
  rw [List.pairwise_map, ho.externals]
  refine hA.externals_nodup.imp_of_mem fun {x y} hx hy hne h => hne ?_
  exact number_inj ho (HeapState.kind?_ne_none (hA.external x hx)) h

theorem apart_selectors (hA : A.Closed) :
    (o.selectors.map (fun p => Addition.selector (o.number p.1) p.2.1 (o.number p.2.2))).Pairwise Addition.Apart := by
  rw [List.pairwise_map]
  refine ho.selectors_nodup.imp_of_mem fun {p q} hp hq hne h => hne ?_
  obtain ⟨x, s, y⟩ := p
  obtain ⟨x', s', y'⟩ := q
  have hy := (ho.selectors x s y).mp hp
  have hy' := (ho.selectors x' s' y').mp hq
  obtain ⟨hx, rfl⟩ := h
  obtain rfl := number_inj ho (HeapState.kind?_ne_none (hA.selector x s y hy).1) hx
  rw [Option.some.inj (hy.symm.trans hy')]

theorem apart_edges (hA : A.Closed) : (o.edges.map Prod.snd).Pairwise Addition.Apart := by
  rw [edges, List.map_append, List.map_map, List.map_map, List.pairwise_append, List.pairwise_map, List.pairwise_map]
  refine ⟨List.pairwise_of_forall fun _ _ => trivial, ?_, ?_⟩
  · refine (List.pairwise_map.mp ho.pointers_nodup).imp_of_mem fun {p q} hp hq hne h => hne ?_
    have hp' := (ho.pointers p.1 p.2.1 p.2.2).mp hp
    have hq' := (ho.pointers q.1 q.2.1 q.2.2).mp hq
    exact hA.pointer_inj _ _ _ _ _ hp' (h ▸ hq')
  · intro a ha b hb
    obtain ⟨p, -, rfl⟩ := List.mem_map.mp ha
    obtain ⟨q, -, rfl⟩ := List.mem_map.mp hb
    trivial

theorem apart_additions (hA : A.Closed) : o.additions.Pairwise Addition.Apart := by
  -- Only additions of the same family can get into each other's way.
  have hcross {a b : Addition} (ha : a.isEdge = false) (hb : b.isEdge = true) : a.Apart b := by
    cases a <;> cases b <;> trivial
  rw [additions, List.pairwise_append, List.pairwise_append]
  refine ⟨apart_externals ho hA, ⟨apart_selectors ho hA, apart_edges ho hA, ?_⟩, ?_⟩
  · intro a ha b hb
    obtain ⟨p, -, rfl⟩ := List.mem_map.mp ha
    exact hcross rfl (isEdge_of_mem_edges hb)
  · intro a ha b hb
    obtain ⟨x, -, rfl⟩ := List.mem_map.mp ha
    rcases List.mem_append.mp hb with hb | hb
    · obtain ⟨p, -, rfl⟩ := List.mem_map.mp hb
      trivial
    · exact hcross rfl (isEdge_of_mem_edges hb)

theorem acceptable (hA : A.Closed) (hw : A.Writable) (hc : (o.typed.length : Int) ≤ Heap.requestLimit) :
    Acceptable [] o.body where
  declared_once := by
    rw [declaredNodes_body, List.map_map]
    have hnames := ho.typed_nodup.map (f := fun x : Nat => Heap.nodeName x) fun _ _ => Heap.nodeName_injective
    rwa [List.map_map] at hnames
  count xs type hm := by
    obtain ⟨l, hl, he⟩ := List.mem_map.mp hm
    rcases lines_cases hl with ⟨g, hg, rfl⟩ | ⟨-, rfl⟩ | ⟨p, hp, rfl⟩ | ⟨p, hp, rfl⟩ | ⟨p, hp, rfl⟩
    · cases he
      have hlen := length_group_le hg
      rw [names, List.length_map]
      omega
    all_goals cases he
  used s hs n hn := by
    obtain ⟨l, hl, rfl⟩ := List.mem_map.mp hs
    obtain ⟨x, rfl, type, hx⟩ := exists_node_of_use ho hA hl hn
    rw [declaredNodes_body, List.map_map]
    exact List.mem_map.mpr ⟨(x, type), (ho.typed x type).mpr hx, rfl⟩
  label label xs hm := by
    refine ⟨?_, rfl⟩
    obtain ⟨l, hl, he⟩ := List.mem_map.mp hm
    rcases lines_cases hl with ⟨g, hg, rfl⟩ | ⟨-, rfl⟩ | ⟨p, hp, rfl⟩ | ⟨p, hp, rfl⟩ | ⟨p, hp, rfl⟩
    case inr.inr.inr.inl =>
      cases he
      exact startsWithDigit_of_identifier (hw.label _ _ _ ((ho.hyperedges _ _ _).mp hp))
    all_goals cases he
  apart := bodyAdditions_body ho hA ▸ apart_additions ho hA

theorem typed_getElem? {z : Nat} :
    (o.typed.map Prod.snd)[z]? = some type ↔ ∃ x, A.nodeType x = some type ∧ o.number x = z := by
  rw [getElem?_map_snd ho.typed_nodup]
  refine exists_congr fun x => ?_
  rw [ho.typed]
  exact and_congr_right fun hx => by rw [number_node ho hx]

theorem edge_iff (hA : A.Closed) {z : Nat} {a : Addition} :
    ((HeapState.ofTypes (o.typed.map Prod.snd)).extend o.additions).Edge z a ↔ ∃ x, (x, a) ∈ o.edges ∧ o.number x = z := by
  have hnodup := nodup_ids ho hA
  rw [ids_eq, List.nodup_append] at hnodup
  obtain ⟨-, hedges, hdisj⟩ := hnodup
  -- The nodes take the first public IDs, so an edge has its place among the edges behind them.
  have hnumber {x : Nat} (hx : (x, a) ∈ o.edges) :
      o.number x = (o.typed.map Prod.snd).length + (o.edges.map Prod.fst).idxOf x := by
    have hnew : x ∉ o.typed.map Prod.fst := fun hm => hdisj x hm x (List.mem_map.mpr ⟨_, hx, rfl⟩) rfl
    rw [number, ids_eq, List.idxOf_append_of_notMem hnew, List.length_map, List.length_map]
  rw [HeapState.edge_extend (fresh_ofTypes _), filter_additions]
  constructor
  · rintro (h | ⟨i, rfl, hi⟩)
    · cases a <;> cases h
    · obtain ⟨x, hx, rfl⟩ := (getElem?_map_snd hedges).mp hi
      exact ⟨x, hx, hnumber hx⟩
  · rintro ⟨x, hx, rfl⟩
    exact .inr ⟨_, hnumber hx, (getElem?_map_snd hedges).mpr ⟨x, hx, rfl⟩⟩

theorem renumbers (hA : A.Closed) :
    HeapState.Renumbers o.number A ((HeapState.ofTypes (o.typed.map Prod.snd)).extend o.additions) where
  inj x y hx _ h := number_inj ho hx h
  nodeType z type := by
    rw [HeapState.nodeType_extend]
    exact typed_getElem? ho
  selector z s w := by
    rw [HeapState.selector_extend (fun a _ => free_ofTypes _ a) (apart_additions ho hA), selector_mem_additions]
    constructor
    · rintro (h | ⟨p, hp, rfl, rfl, rfl⟩)
      · cases h
      · exact ⟨p.1, p.2.2, (ho.selectors _ _ _).mp hp, rfl, rfl⟩
    · rintro ⟨x, y, hs, rfl, rfl⟩
      exact .inr ⟨(x, s, y), (ho.selectors _ _ _).mpr hs, rfl, rfl, rfl⟩
  hyperedge z nt ws := by
    refine (edge_iff ho hA (a := .hyperedge nt ws)).trans ?_
    constructor
    · rintro ⟨x, hx, rfl⟩
      obtain ⟨ys, hys, rfl⟩ := hyperedge_mem_edges.mp hx
      exact ⟨x, ys, (ho.hyperedges _ _ _).mp hys, rfl, rfl⟩
    · rintro ⟨x, ys, hx, rfl, rfl⟩
      exact ⟨x, hyperedge_mem_edges.mpr ⟨ys, (ho.hyperedges _ _ _).mpr hx, rfl⟩, rfl⟩
  pointer z name w := by
    refine (edge_iff ho hA (a := .pointer name w)).trans ?_
    constructor
    · rintro ⟨x, hx, rfl⟩
      obtain ⟨y, hy, rfl⟩ := pointer_mem_edges.mp hx
      exact ⟨x, y, (ho.pointers _ _ _).mp hy, rfl, rfl⟩
    · rintro ⟨x, y, hx, rfl, rfl⟩
      exact ⟨x, pointer_mem_edges.mpr ⟨y, (ho.pointers _ _ _).mpr hx, rfl⟩, rfl⟩
  externals := by
    rw [HeapState.externals_extend, filterMap_additions, ho.externals]
    rfl

theorem exists_heapDef (hA : A.Closed) (hw : A.Writable) (hc : (o.typed.length : Int) ≤ Heap.requestLimit) :
    ∃ d, HeapDef.ofBody [] o.body = .ok d ∧ d.heap.WellFormed ∧ d.heap.Idle ∧
      HeapState.Renumbers o.number A d.heap.state ∧
        ∀ x type, A.nodeType x = some type → d.names.lookup (Heap.nodeName x) = some (o.number x) := by
  obtain ⟨d, hd, hdw, hdi, hstate, hnames⟩ := (acceptable ho hA hw hc).ofBody
  have htypes : (declaredNodes o.body).map Prod.snd = o.typed.map Prod.snd := by
    rw [declaredNodes_body, List.map_map]
    rfl
  refine ⟨d, hd, hdw, hdi, ?_, fun x type hx => ?_⟩
  · rw [hstate, htypes, bodyAdditions_body ho hA]
    exact renumbers ho hA
  · have hmem : Heap.nodeName x ∈ (declaredNodes o.body).map Prod.fst := by
      rw [declaredNodes_body, List.map_map]
      exact List.mem_map.mpr ⟨(x, type), (ho.typed x type).mpr hx, rfl⟩
    rw [hnames, lookup_zipIdx, if_pos hmem]
    exact congrArg some (idIn_body ho hx)

end Lists

end Outline

end HeapAbstraction
