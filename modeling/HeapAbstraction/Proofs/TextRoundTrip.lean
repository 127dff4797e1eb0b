import HeapAbstraction.Proofs.OutlineBody

namespace HeapAbstraction

open HeapFile

theorem HeapFile.readHeap_of_parse {text : Bytes} {body : List Statement} {d : HeapDef}
    (hp : parse text = .ok [.heap body]) (hd : HeapDef.ofBody [] body = .ok d) : readHeap text = .ok d := by
  have hdefs : readDefinitions text = .ok ⟨[], [], [d]⟩ := by
    rw [readDefinitions, hp]
    change (Definitions.addDeclaration _ (.heap body) >>= fun defs => Definitions.addDeclarations defs []) = _
    rw [Definitions.addDeclaration, hd]
    rfl
  rw [readHeap, hdefs]
  rfl

namespace Heap

variable {h : Heap}

theorem WellFormed.length_typed (hw : h.WellFormed) : h.outline.typed.length = h.countOf .node := by
  have ho := hw.lists_outline
  have hperm : (h.outline.typed.map Prod.fst).Perm h.nodes := by
    rw [List.perm_ext_iff_of_nodup ho.typed_nodup (show h.nodes.Nodup from hw.nodup_idsOf .node)]
    exact fun x => (Outline.mem_typed ho).trans hw.mem_nodes.symm
  rw [← List.length_map Prod.fst, hperm.length_eq, nodes, length_idsOf]

theorem readHeap_print (hw : h.WellFormed) (hi : h.Idle) (hn : h.state.Writable)
    (hc : (h.countOf .node : Int) ≤ requestLimit) {opts : PrintOptions} (ho : opts.Harmless) :
    ∃ text d, h.print opts = .ok text ∧ readHeap text = .ok d ∧ d.heap.WellFormed ∧ d.heap.Idle ∧
      h.equals d.heap = true ∧ ∃ f, h.graph.IsIsomorphism d.heap.graph f ∧
        ∀ v x, h.IsNode v → h.idOf v = some x →
          ∃ y, d.names.lookup (nodeName x) = some y ∧ d.heap.idOf (f v) = some y := by
  have hl := hw.lists_outline
  have hspell : ∀ l ∈ h.outline.lines, l.1.isSpellable = true := fun l => Outline.spellable hl hn
  have hlisted : ∀ s ∈ h.outline.body, s.isListed = true := by
    intro s hs
    obtain ⟨l, hm, rfl⟩ := List.mem_map.mp hs
    exact Statement.isListed_of_isSpellable (hspell l hm)
  obtain ⟨d, hd, hdw, hdi, hr, hnames⟩ := Outline.exists_heapDef hl hw.closed hn (hw.length_typed ▸ hc)
  have hparse := parse_of_lexes hlisted (PrintOptions.lexes_page ho hspell)
  have hiso := iso_of_renumbers hr hw hdw
  obtain ⟨f, hf, hids⟩ := exists_isIsomorphism hw.toSound hi hdw.toSound hdi hiso
  refine ⟨_, d, print_eq hw opts, readHeap_of_parse hparse hd, hdw, hdi,
    (equals_iff hw.toSound hdw.toSound).mpr ⟨f, hf⟩, f, hf, ?_⟩
  rintro v x ⟨type, hv⟩ hx
  have htype : h.state.nodeType x = some type :=
    (hw.denotes.nodeType x type).mpr (hw.toSound.view_label.mpr ⟨v, hx, hv⟩)
  exact ⟨_, hnames x type htype, hids v x _ hx hv⟩

def reserved : Heap where
  elements := [
    { label := .node "nodes", id := 0, ordinal := some 1, arcs := [⟨2, [.selector "rule"]⟩, ⟨0, [.selector "heap"]⟩],
      preds := [0, 3, 5] },
    { label := .node "ext", id := 3, ordinal := some 0 },
    { label := .node "ext", id := 2, preds := [0, 3, 6] },
    { label := .nonterminal ⟨"heap", 3⟩, id := 4, arcs := [⟨2, [.tentacle 0, .tentacle 2]⟩, ⟨0, [.tentacle 1]⟩] },
    { label := .nonterminal ⟨"nonterminal", 0⟩, id := 5 },
    { label := .variable "07", id := 6, arcs := [⟨0, [.tentacle 0]⟩] },
    { label := .variable "nodes", id := 7, arcs := [⟨2, [.tentacle 0]⟩] }]
  nextId := 8

theorem wellFormed_reserved : reserved.WellFormed := by
  have h1 := wellFormed_empty.addNodes (show Heap.empty.addNodes "nodes" 2 = .ok (_, _) from rfl)
  have h2 := h1.addNodes (show Heap.addNodes _ "ext" 2 = .ok (_, _) from rfl)
  have h3 := h2.removeIsolatedNode (show Heap.removeIsolatedNode _ 1 = .ok _ from rfl)
  have h4 := (h3.build (show Heap.build _ = .ok _ from rfl)).1
  have h5 := h4.setExternal (show Heap.setExternal _ 3 = .ok _ from rfl)
  have h6 := h5.setExternal (show Heap.setExternal _ 0 = .ok _ from rfl)
  have h7 := h6.addSelector (show Heap.addSelector _ 0 "rule" 2 = .ok _ from rfl)
  have h8 := h7.addSelector (show Heap.addSelector _ 0 "heap" 0 = .ok _ from rfl)
  have h9 := h8.addNonterminal (show Heap.addNonterminal _ ⟨"heap", 3⟩ [2, 0, 2] = .ok (_, _) from rfl)
  have h10 := h9.addNonterminal (show Heap.addNonterminal _ ⟨"nonterminal", 0⟩ [] = .ok (_, _) from rfl)
  have h11 := h10.addVariable (show Heap.addVariable _ "07" 0 = .ok (_, _) from rfl)
  exact h11.addVariable (show Heap.addVariable _ "nodes" 2 = .ok (reserved, _) from rfl)

theorem writable_reserved : reserved.state.Writable :=
  Outline.writable wellFormed_reserved.lists_outline (by decide) (by decide) (by decide) (by decide)

def annotated : PrintOptions := ⟨"heap \x7b", true, true⟩

theorem readHeap_print_reserved : ∃ text d, reserved.print annotated = .ok text ∧ readHeap text = .ok d ∧
    d.heap.WellFormed ∧ d.heap.Idle ∧ reserved.equals d.heap = true ∧
      ∃ f, reserved.graph.IsIsomorphism d.heap.graph f ∧ ∀ v x, reserved.IsNode v → reserved.idOf v = some x →
        ∃ y, d.names.lookup (nodeName x) = some y ∧ d.heap.idOf (f v) = some y :=
  readHeap_print wellFormed_reserved (by decide) writable_reserved (by decide) ⟨by decide, by decide⟩

end Heap

end HeapAbstraction
