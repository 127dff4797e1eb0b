import HeapAbstraction.Proofs.Printing
import HeapAbstraction.Proofs.Answers
import HeapAbstraction.Proofs.Additions

namespace HeapAbstraction

open HeapFile (Statement)

structure Outline where
  groups : List (Bytes × List Nat)
  externals : List Nat
  selectors : List (Nat × Bytes × Nat)
  hyperedges : List (Nat × Nonterminal × List Nat)
  pointers : List (Nat × Bytes × Nat)

namespace Outline

def names (xs : List Nat) : List Bytes := xs.map (fun x : Nat => Heap.nodeName x)

def nodesOf (g : Bytes × List Nat) : Line := (.nodes (names g.2) g.1, none)

def extOf (xs : List Nat) : List Line := if xs.isEmpty then [] else [(.ext (names xs), none)]

def selectorOf (p : Nat × Bytes × Nat) : Line := (.selector (Heap.nodeName p.1) p.2.1 (Heap.nodeName p.2.2), none)

def hyperedgeOf (p : Nat × Nonterminal × List Nat) : Line := (.hyperedge p.2.1.label (names p.2.2), some p.1)

def pointerOf (p : Nat × Bytes × Nat) : Line := (.variable p.2.1 (Heap.nodeName p.2.2), none)

def lines (o : Outline) : List Line :=
  o.groups.map nodesOf ++ extOf o.externals ++ o.selectors.map selectorOf ++ o.hyperedges.map hyperedgeOf ++
    o.pointers.map pointerOf

def typed (o : Outline) : List (Nat × Bytes) := o.groups.flatMap (fun g => g.2.map (fun x => (x, g.1)))

end Outline

namespace Heap

def typeAt (h : Heap) (x : Nat) : Bytes := (h.state.nodeType x).getD []

def selectorsAt (h : Heap) (x : Nat) : List (Nat × Bytes × Nat) :=
  ((h.selectorsOf x).toOption.getD []).map (fun s => (x, s, (h.state.selector x s).getD 0))

def outline (h : Heap) : Outline where
  groups := (h.nodes.map h.typeAt).eraseDups.map (fun type => (type, h.nodes.filter (fun x => h.typeAt x == type)))
  externals := h.state.externals
  selectors := h.nodes.flatMap h.selectorsAt
  hyperedges := h.nonterminalEdges.map (fun e => (e, (h.state.hyperedge e).getD (⟨[], 0⟩, [])))
  pointers := h.variableEdges.map (fun e => (e, (h.state.pointer e).getD ([], 0)))

variable {h : Heap} {x : Nat}

namespace WellFormed

theorem mem_idsOf (hw : h.WellFormed) {kind : Kind} :
    x ∈ h.idsOf kind ↔ ∃ lab, h.view.label x = some lab ∧ lab.kind = kind := by
  rw [← hw.toSound.mem_ids, idsOf, sortIds_eq]
  exact (List.perm_insertionSort _ _).mem_iff

theorem nodup_idsOf (hw : h.WellFormed) (kind : Kind) : (h.idsOf kind).Nodup := by
  rw [idsOf, sortIds_eq, (List.perm_insertionSort _ _).nodup_iff]
  exact hw.toSound.ids_nodup.sublist (List.filter_sublist.map _)

theorem mem_nodes (hw : h.WellFormed) : x ∈ h.nodes ↔ ∃ type, h.state.nodeType x = some type := by
  rw [nodes, hw.mem_idsOf]
  constructor
  · rintro ⟨lab, hx, hk⟩
    cases lab with
    | node type => exact ⟨type, (hw.denotes.nodeType x type).mpr hx⟩
    | nonterminal nt => cases hk
    | «variable» name => cases hk
  · rintro ⟨type, hx⟩
    exact ⟨_, (hw.denotes.nodeType x type).mp hx, rfl⟩

theorem mem_nonterminalEdges (hw : h.WellFormed) : x ∈ h.nonterminalEdges ↔ ∃ p, h.state.hyperedge x = some p := by
  rw [nonterminalEdges, hw.mem_idsOf]
  constructor
  · rintro ⟨lab, hx, hk⟩
    obtain ⟨nt, rfl⟩ := exists_nonterminal hk
    obtain ⟨ys, -, -, hys⟩ := hw.exists_attachedNodes hx
    exact ⟨_, (hw.denotes.hyperedge x nt ys).mpr ⟨hx, hys⟩⟩
  · rintro ⟨⟨nt, ys⟩, hx⟩
    exact ⟨_, ((hw.denotes.hyperedge x nt ys).mp hx).1, rfl⟩

theorem mem_variableEdges (hw : h.WellFormed) : x ∈ h.variableEdges ↔ ∃ p, h.state.pointer x = some p := by
  rw [variableEdges, hw.mem_idsOf]
  constructor
  · rintro ⟨lab, hx, hk⟩
    obtain ⟨name, rfl⟩ := exists_variable hk
    obtain ⟨y, -, hy⟩ := hw.exists_variableTarget hx
    exact ⟨_, (hw.denotes.pointer x name y).mpr ⟨hx, hy⟩⟩
  · rintro ⟨⟨name, y⟩, hx⟩
    exact ⟨_, ((hw.denotes.pointer x name y).mp hx).1, rfl⟩

theorem exists_selectorsOf (hw : h.WellFormed) {type : Bytes} (hx : h.state.nodeType x = some type) :
    ∃ ss, h.selectorsOf x = .ok ss ∧ ss.Nodup ∧ ∀ s, s ∈ ss ↔ ∃ y, h.state.selector x s = some y := by
  have hlab := (hw.denotes.nodeType x type).mp hx
  obtain ⟨v, e, hf, hid, he, hl, -⟩ := hw.toSound.exists_find hlab
  have hn : h.IsNode v := ⟨type, hl⟩
  refine ⟨e.selectorNames, ?_, hw.selectorNames_nodup he hn, fun s => ?_⟩
  · change h.find x .node = _ at hf
    rw [selectorsOf, hf]
    rfl
  · rw [hw.mem_selectorNames he hn]
    simp only [hw.denotes.selector]
    exact (hw.toSound.exists_view_link hid).symm

end WellFormed

section Queries

variable {y : Nat} {s : Bytes}

theorem ok_of_toOption {ε α : Type} {r : Except ε α} {a : α} (hr : r.toOption = some a) : r = .ok a := by
  cases r with
  | error e => cases hr
  | ok b => exact congrArg Except.ok (Option.some.inj hr)

theorem nodeTypeOf_eq {type : Bytes} (hx : h.state.nodeType x = some type) : h.nodeTypeOf x = .ok type :=
  ok_of_toOption hx

theorem selectorTargetOf_eq (hx : h.state.selector x s = some y) : h.selectorTargetOf x s = .ok (some y) := by
  apply ok_of_toOption
  exact Option.join_eq_some_iff.mp hx

theorem hyperedge_eq {nt : Nonterminal} {ys : List Nat} (hx : h.state.hyperedge x = some (nt, ys)) :
    h.nonterminalOf x = .ok nt ∧ h.attachedNodesOf x = .ok ys := by
  obtain ⟨nt', hnt, hrest⟩ := bind_ok (ok_of_toOption hx)
  obtain ⟨ys', hys, hrest⟩ := bind_ok hrest
  cases hrest
  exact ⟨hnt, hys⟩

theorem pointer_eq {name : Bytes} (hx : h.state.pointer x = some (name, y)) :
    h.variableNameOf x = .ok name ∧ h.variableTargetOf x = .ok y := by
  obtain ⟨name', hname, hrest⟩ := bind_ok (ok_of_toOption hx)
  obtain ⟨y', hy, hrest⟩ := bind_ok hrest
  cases hrest
  exact ⟨hname, hy⟩

end Queries

section Print

variable (hw : h.WellFormed)

include hw

theorem nodeStatements_eq (opts : PrintOptions) :
    h.nodeStatements = .ok ((h.outline.groups.map Outline.nodesOf).map (Line.text opts)) := by
  have htyped : h.nodes.mapM (fun id : Nat => do return (id, ← h.nodeTypeOf id)) =
      .ok (h.nodes.map (fun x => (x, h.typeAt x))) := by
    refine mapM_eq_map fun x hx => ?_
    obtain ⟨type, ht⟩ := hw.mem_nodes.mp hx
    rw [nodeTypeOf_eq ht, typeAt, ht]
    rfl
  rw [nodeStatements, htyped]
  change Except.ok _ = _
  simp only [outline, List.map_map, Function.comp_def, List.filter_map, Outline.nodesOf, Line.text_none]
  rfl

theorem externalStatements_eq (opts : PrintOptions) :
    h.externalStatements = .ok ((Outline.extOf h.outline.externals).map (Line.text opts)) := by
  rw [externalStatements, hw.toSound.externalNodes_eq, outline, Outline.extOf]
  cases h.state.externals with
  | nil => rfl
  | cons x xs =>
    change Except.ok [_] = Except.ok [Line.text opts (.ext (Outline.names (x :: xs)), none)]
    rw [Line.text_none]
    rfl

theorem selectorStatements_eq (opts : PrintOptions) :
    h.selectorStatements = .ok ((h.outline.selectors.map Outline.selectorOf).map (Line.text opts)) := by
  have hgroup (x : Nat) (hx : x ∈ h.nodes) :
      (do (← h.selectorsOf x).mapM (h.selectorStatement x) : Except HeapError (List Bytes)) =
        .ok (((h.selectorsAt x).map Outline.selectorOf).map (Line.text opts)) := by
    obtain ⟨type, ht⟩ := hw.mem_nodes.mp hx
    obtain ⟨ss, hss, -, hmem⟩ := hw.exists_selectorsOf ht
    have hone (s : Bytes) (hs : s ∈ ss) : h.selectorStatement x s =
        .ok (Line.text opts (Outline.selectorOf (x, s, (h.state.selector x s).getD 0))) := by
      obtain ⟨y, hy⟩ := (hmem s).mp hs
      rw [selectorStatement, selectorTargetOf_eq hy, hy, Outline.selectorOf, Line.text_none]
      rfl
    rw [hss]
    change ss.mapM (h.selectorStatement x) = _
    rw [mapM_eq_map hone, selectorsAt, hss]
    simp only [Except.toOption, Option.getD_some, List.map_map, Function.comp_def]
  rw [selectorStatements, mapM_eq_map hgroup]
  change Except.ok _ = _
  rw [outline, ← List.flatMap_def, List.map_flatMap, List.map_flatMap]

theorem hyperedgeStatements_eq (opts : PrintOptions) : h.nonterminalEdges.mapM (h.hyperedgeStatement opts) =
    .ok ((h.outline.hyperedges.map Outline.hyperedgeOf).map (Line.text opts)) := by
  rw [outline, List.map_map, List.map_map]
  refine mapM_eq_map fun e he => ?_
  obtain ⟨⟨nt, ys⟩, hp⟩ := hw.mem_nonterminalEdges.mp he
  obtain ⟨hnt, hys⟩ := hyperedge_eq hp
  rw [hyperedgeStatement, hys]
  change (h.nonterminalOf e >>= _) = _
  rw [hnt, Function.comp_apply, Function.comp_apply, hp]
  change Except.ok _ = Except.ok _
  rw [Outline.hyperedgeOf, Line.text, PrintOptions.note]
  split
  · exact congrArg Except.ok (List.append_assoc ..)
  · exact congrArg Except.ok (List.append_nil _).symm

theorem variableStatements_eq (opts : PrintOptions) : h.variableEdges.mapM h.variableStatement =
    .ok ((h.outline.pointers.map Outline.pointerOf).map (Line.text opts)) := by
  rw [outline, List.map_map, List.map_map]
  refine mapM_eq_map fun e he => ?_
  obtain ⟨⟨name, y⟩, hp⟩ := hw.mem_variableEdges.mp he
  obtain ⟨hname, hy⟩ := pointer_eq hp
  rw [variableStatement, hname]
  change (h.variableTargetOf e >>= _) = _
  rw [hy, Function.comp_apply, Function.comp_apply, hp, Outline.pointerOf, Line.text_none]
  rfl

theorem print_eq (opts : PrintOptions) : h.print opts = .ok (opts.page (h.outline.lines.map (Line.text opts))) := by
  have hstatements : h.statements opts = .ok (h.outline.lines.map (Line.text opts)) := by
    rw [statements, nodeStatements_eq hw opts, externalStatements_eq hw opts, selectorStatements_eq hw opts,
      hyperedgeStatements_eq hw opts, variableStatements_eq hw opts]
    simp only [Outline.lines, List.map_append]
    rfl
  rw [print, hstatements]
  rfl

end Print

end Heap

structure Outline.Lists (o : Outline) (A : HeapState) : Prop where
  typed : ∀ x type, (x, type) ∈ o.typed ↔ A.nodeType x = some type
  typed_nodup : (o.typed.map Prod.fst).Nodup
  inhabited : ∀ g ∈ o.groups, g.2 ≠ []
  externals : o.externals = A.externals
  selectors : ∀ x s y, (x, s, y) ∈ o.selectors ↔ A.selector x s = some y
  selectors_nodup : o.selectors.Nodup
  hyperedges : ∀ x nt ys, (x, nt, ys) ∈ o.hyperedges ↔ A.hyperedge x = some (nt, ys)
  hyperedges_nodup : (o.hyperedges.map Prod.fst).Nodup
  pointers : ∀ x name y, (x, name, y) ∈ o.pointers ↔ A.pointer x = some (name, y)
  pointers_nodup : (o.pointers.map Prod.fst).Nodup

namespace Heap

variable {h : Heap}

theorem typeAt_eq {x : Nat} {type : Bytes} (hx : h.state.nodeType x = some type) : h.typeAt x = type := by
  rw [typeAt, hx, Option.getD_some]

theorem mem_typed {x : Nat} {type : Bytes} : (x, type) ∈ h.outline.typed ↔ x ∈ h.nodes ∧ h.typeAt x = type := by
  simp only [Outline.typed, outline, List.mem_flatMap, List.mem_map, List.mem_eraseDups, exists_exists_and_eq_and,
    List.mem_filter, beq_iff_eq, Prod.mk.injEq]
  constructor
  · rintro ⟨x', hx', x'', ⟨hx'', htype⟩, rfl, rfl⟩
    exact ⟨hx'', htype⟩
  · rintro ⟨hx, rfl⟩
    exact ⟨x, hx, x, ⟨hx, rfl⟩, rfl, rfl⟩

theorem map_fst_typed : h.outline.typed.map Prod.fst =
    (h.nodes.map h.typeAt).eraseDups.flatMap (fun type => h.nodes.filter (fun x => h.typeAt x == type)) := by
  simp only [Outline.typed, outline, List.map_flatMap, List.map_map, Function.comp_def, List.map_id', List.flatMap_map]

theorem mem_selectorsAt (hw : h.WellFormed) {x z : Nat} {type s : Bytes} {y : Nat} (hx : h.state.nodeType x = some type) :
    (z, s, y) ∈ h.selectorsAt x ↔ z = x ∧ h.state.selector x s = some y := by
  obtain ⟨ss, hss, -, hmem⟩ := hw.exists_selectorsOf hx
  simp only [selectorsAt, hss, Except.toOption, Option.getD_some, List.mem_map, Prod.mk.injEq]
  constructor
  · rintro ⟨s', hs', rfl, rfl, rfl⟩
    obtain ⟨y, hy⟩ := (hmem s').mp hs'
    exact ⟨rfl, by rw [hy, Option.getD_some]⟩
  · rintro ⟨rfl, hy⟩
    exact ⟨s, (hmem s).mpr ⟨y, hy⟩, rfl, rfl, by rw [hy, Option.getD_some]⟩

theorem WellFormed.lists_outline (hw : h.WellFormed) : h.outline.Lists h.state where
  typed x type := by
    rw [mem_typed, hw.mem_nodes]
    constructor
    · rintro ⟨⟨type', hx⟩, rfl⟩
      rw [typeAt_eq hx, hx]
    · exact fun hx => ⟨⟨type, hx⟩, typeAt_eq hx⟩
  typed_nodup := by
    rw [map_fst_typed, List.nodup_flatMap]
    refine ⟨fun type _ => (hw.nodup_idsOf .node).filter _, (nodup_eraseDups _).imp fun {t t'} hne x hx hx' => hne ?_⟩
    rw [← beq_iff_eq.mp (List.mem_filter.mp hx).2, ← beq_iff_eq.mp (List.mem_filter.mp hx').2]
  inhabited g hg := by
    obtain ⟨type, ht, rfl⟩ := List.mem_map.mp hg
    obtain ⟨x, hx, rfl⟩ := List.mem_map.mp (List.mem_eraseDups.mp ht)
    exact List.ne_nil_of_mem (List.mem_filter.mpr ⟨hx, beq_self_eq_true _⟩)
  externals := rfl
  selectors x s y := by
    simp only [outline, List.mem_flatMap]
    constructor
    · rintro ⟨x', hx', hm⟩
      obtain ⟨type, ht⟩ := hw.mem_nodes.mp hx'
      obtain ⟨rfl, hy⟩ := (mem_selectorsAt hw ht).mp hm
      exact hy
    · intro hy
      obtain ⟨type, ht⟩ := (hw.toSound.selector_state s).mp hy |>.1
      have hx := (hw.denotes.nodeType x type).mpr ht
      exact ⟨x, hw.mem_nodes.mpr ⟨type, hx⟩, (mem_selectorsAt hw hx).mpr ⟨rfl, hy⟩⟩
  selectors_nodup := by
    rw [outline, List.nodup_flatMap]
    refine ⟨fun x hx => ?_, (hw.nodup_idsOf .node).imp_of_mem fun {x x'} hx hx' hne => ?_⟩
    · obtain ⟨type, ht⟩ := hw.mem_nodes.mp hx
      obtain ⟨ss, hss, hn, -⟩ := hw.exists_selectorsOf ht
      rw [selectorsAt, hss]
      exact hn.map fun s s' he => (Prod.mk.inj (Prod.mk.inj he).2).1
    · rintro ⟨z, s, y⟩ hm hm'
      obtain ⟨type, ht⟩ := hw.mem_nodes.mp hx
      obtain ⟨type', ht'⟩ := hw.mem_nodes.mp hx'
      exact hne (((mem_selectorsAt hw ht).mp hm).1.symm.trans ((mem_selectorsAt hw ht').mp hm').1)
  hyperedges x nt ys := mem_map_getD (fun _ => hw.mem_nonterminalEdges) x (nt, ys)
  hyperedges_nodup := by
    rw [outline, List.map_map]
    exact (List.map_id _).symm ▸ hw.nodup_idsOf .nonterminal
  pointers x name y := mem_map_getD (fun _ => hw.mem_variableEdges) x (name, y)
  pointers_nodup := by
    rw [outline, List.map_map]
    exact (List.map_id _).symm ▸ hw.nodup_idsOf .variable

end Heap

end HeapAbstraction
