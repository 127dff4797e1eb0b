import HeapAbstraction.Proofs.NormalForms

namespace HeapAbstraction

namespace HeapState

variable {A B C : HeapState} {d : Int} {x y : Nat}

structure PartOf (B A : HeapState) : Prop where
  nodeType : ∀ x type, B.nodeType x = some type → A.nodeType x = some type
  selector : ∀ x s y, B.selector x s = some y → A.selector x s = some y
  pointer : ∀ x name y, B.pointer x = some (name, y) → A.pointer x = some (name, y)
  externals : B.externals = A.externals

theorem PartOf.refl (A : HeapState) : A.PartOf A := ⟨fun _ _ => id, fun _ _ _ => id, fun _ _ _ => id, rfl⟩

theorem PartOf.trans (hcb : C.PartOf B) (hba : B.PartOf A) : C.PartOf A where
  nodeType x type hx := hba.nodeType x type (hcb.nodeType x type hx)
  selector x s y hx := hba.selector x s y (hcb.selector x s y hx)
  pointer x name y hx := hba.pointer x name y (hcb.pointer x name y hx)
  externals := hcb.externals.trans hba.externals

inductive Behind (A : HeapState) (y : Nat) : Nat → Nat → Prop
  | start : Behind A y 0 y
  | step {k n m : Nat} {s : Bytes} (hn : Behind A y k n) (hs : A.selector n s = some m) : Behind A y (k + 1) m

def KeptBehind (A B : HeapState) (d : Int) (y : Nat) : Prop :=
  ∀ k n : Nat, (k : Int) < d → A.Behind y k n →
    (∃ type, A.nodeType n = some type ∧ B.nodeType n = some type) ∧ B.selector n = A.selector n

theorem KeptBehind.behind {k n : Nat} (hk : A.KeptBehind B d y) (hd : (k : Int) ≤ d) (hn : A.Behind y k n) :
    B.Behind y k n := by
  induction hn with
  | start => exact .start
  | @step k n m s hn hs ih =>
    have hlt : (k : Int) < d := by omega
    have hsel := (hk k n hlt hn).2
    exact (ih hlt.le).step (by rw [hsel, hs])

theorem KeptBehind.trans (hab : A.KeptBehind B d y) (hbc : B.KeptBehind C d y) : A.KeptBehind C d y := by
  intro k n hk hn
  obtain ⟨⟨type, hA, hB⟩, hselB⟩ := hab k n hk hn
  obtain ⟨⟨type', hB', hC⟩, hselC⟩ := hbc k n hk (hab.behind hk.le hn)
  obtain rfl := Option.some.inj (hB.symm.trans hB')
  exact ⟨⟨type, hA, hC⟩, hselC.trans hselB⟩

end HeapState

namespace HeapView

variable {P : Heap} {A B : HeapView} {a b : HeapState} {X : Nat → Nat} {nt : Nonterminal} {x y : Nat} {lab : Label}
  {l : EdgeLabel}

def Spares (P : Heap) (X : Nat → Nat) (x : Nat) : Prop :=
  ∀ p lab, P.labelAt p = some lab → X p = x → (∃ i, P.ordinalAt p = some i) ∧ ∀ l q, ¬ P.Linked p l q

theorem Spares.not_absorbed (hx : Spares P X x) : ¬ Absorbed P X x := by
  rintro ⟨p, lab, hp, ho, rfl⟩
  obtain ⟨⟨i, hi⟩, -⟩ := hx p lab hp rfl
  simp [ho] at hi

namespace Folds

variable (hf : Folds P A X nt B)

include hf

theorem label_of_spares (hx : Spares P X x) (hl : A.label x = some lab) : B.label x = some lab :=
  (hf.label x lab).mpr (.inr ⟨hl, hx.not_absorbed⟩)

theorem link_of_spares (hX : Embeds P A X) (hP : P.Sound) (hA : A.Proper) (hx : Spares P X x)
    (hl : A.label x = some lab) : B.link x l y ↔ A.link x l y := by
  have hclear : ∀ p l q, P.Linked p l q → X p ≠ x := by
    intro p l q hpq hpx
    obtain ⟨lab', hp⟩ := hP.labelAt_of_joined hpq.joined
    exact (hx p lab' hp hpx).2 l q hpq
  rw [hf.link_old (hA.ne_nextId hl)]
  refine and_iff_left_of_imp fun hxy => ⟨fun p => hclear p l, hx.not_absorbed, ?_⟩
  -- an inner element brings the sources of its arcs into the image
  rintro ⟨p, lab', hp, ho, rfl⟩
  obtain ⟨q, hqp, hq⟩ := hX.inner_in p lab' l x hp ho hxy
  exact hclear q l p hqp hq

theorem partOf (hA : A.Proper) (ha : A.Denotes a) (hb : B.Denotes b) : b.PartOf a where
  nodeType x type hx := by
    rw [hb.nodeType, hf.label] at hx
    rcases hx with ⟨-, hlab⟩ | ⟨hlab, -⟩
    · cases hlab
    · exact (ha.nodeType x type).mpr hlab
  selector x s y hx := by
    rw [hb.selector, hf.link] at hx
    rcases hx with ⟨hlink, -⟩ | ⟨-, i, p, hl, -⟩
    · exact (ha.selector x s y).mpr hlink
    · cases hl
  pointer x name y hx := by
    obtain ⟨hlab, hlink⟩ := (hb.pointer x name y).mp hx
    rcases hf.label_cases hA hlab with ⟨-, hlab⟩ | ⟨hne, hlab, -⟩
    · cases hlab
    · exact (ha.pointer x name y).mpr ⟨hlab, ((hf.link_old hne).mp hlink).1⟩
  externals := by
    apply List.ext_getElem?
    intro i
    apply Option.ext
    intro x
    rw [ha.externals, hb.externals, hf.ordinal]

theorem pointer_of_unnamed (hX : Embeds P A X) (hP : P.Sound) (hA : A.Proper) (ha : A.Denotes a) (hb : B.Denotes b)
    {name : Bytes} (hname : ∀ p, P.labelAt p ≠ some (.variable name)) (hx : a.pointer x = some (name, y)) :
    b.pointer x = some (name, y) := by
  obtain ⟨hlab, hlink⟩ := (ha.pointer x name y).mp hx
  have hspares : Spares P X x := by
    intro p lab hp hpx
    have hlab' := hX.label p lab hp
    rw [hpx, hlab] at hlab'
    exact absurd (hp.trans hlab'.symm) (hname p)
  exact (hb.pointer x name y).mpr
    ⟨hf.label_of_spares hspares hlab, (hf.link_of_spares hX hP hA hspares hlab).mpr hlink⟩

end Folds

end HeapView

namespace Heap

variable {h : Heap} {x y : Nat} {name : Bytes}

theorem not_variable_of_variableWith (hn : h.variableWith name = .ok none) (v : Nat) :
    h.labelAt v ≠ some (.variable name) := by
  cases hs : h.variableSlot? name with
  | none => exact variableSlot?_eq_none.mp hs v
  | some w =>
    rw [variableWith, hs] at hn
    cases hid : h.idAt w <;> simp [hid] at hn

theorem WellFormed.pointer_of_variableWith (hw : h.WellFormed) (hn : h.variableWith name = .ok (some x)) :
    ∃ y, h.state.pointer x = some (name, y) := by
  cases hs : h.variableSlot? name with
  | none => simp [variableWith, hs] at hn
  | some v =>
    have hv := labelAt_of_variableSlot? hs
    obtain ⟨z, hz⟩ := idOf_of_labelAt hv
    simp only [variableWith, hs, idAt_eq_ok.mpr hz, Except.map_ok, Except.ok.injEq, Option.some.injEq] at hn
    subst hn
    have hlab := hw.toSound.view_label.mpr ⟨v, hz, hv⟩
    obtain ⟨y, -, hlink⟩ := hw.exists_variableTarget hlab
    exact ⟨y, (hw.denotes.pointer z name y).mpr ⟨hlab, hlink⟩⟩

theorem WellFormed.pointer_inj (hw : h.WellFormed) {x' y' : Nat} (hx : h.state.pointer x = some (name, y))
    (hx' : h.state.pointer x' = some (name, y')) : x = x' ∧ y = y' := by
  have hlab := ((hw.denotes.pointer x name y).mp hx).1
  have hlab' := ((hw.denotes.pointer x' name y').mp hx').1
  obtain rfl := (hw.toSound.wellFormed_iff.mp hw).variable_inj x x' name hlab hlab'
  rw [hx] at hx'
  cases hx'
  exact ⟨rfl, rfl⟩

theorem WellFormed.exists_walk (hw : h.WellFormed) {exempt : Bytes → Bool} (hx : h.state.pointer x = some (name, y))
    (he : exempt name = false) {k n : Nat} (hn : h.state.Behind y k n) :
    ∃ v type, h.idOf v = some n ∧ h.labelAt v = some (.node type) ∧ h.graph.Walk exempt k v := by
  have hs := hw.toSound
  induction hn with
  | start =>
    obtain ⟨hlab, u, v, hu, hv, hlink⟩ := (hw.denotes.pointer x name y).mp hx
    rw [hs.view_label_of_idOf hu] at hlab
    obtain ⟨type, htype⟩ := hs.ends u v hlink.joined
    exact ⟨v, type, hv, htype,
      .start (lt_graph_size hlab) (graph_label hlab) he (mem_graph_successors.mpr hlink.joined)⟩
  | step hn hsel ih =>
    obtain ⟨v, -, hv, -, hwalk⟩ := ih
    obtain ⟨u, w, hu, hw', hlink⟩ := (hw.denotes.selector _ _ _).mp hsel
    obtain rfl := hs.id_inj u v _ hu hv
    obtain ⟨type, htype⟩ := hs.ends u w hlink.joined
    refine ⟨w, type, hw', htype, hwalk.step (mem_graph_successors.mpr hlink.joined) ?_⟩
    simp [Graph.isNode, graph_label htype, Label.kind]

theorem not_hidden {p : Nat} {type : Bytes} (hp : h.labelAt p = some (.node type)) (hh : h.graph.hidden p = false) :
    (∃ i, h.ordinalAt p = some i) ∧ ∀ l q, ¬ h.Linked p l q := by
  have hnode : h.graph.isNode p = true := by simp [Graph.isNode, graph_label hp, Label.kind]
  simp only [Graph.hidden, hnode, Bool.true_and, Bool.not_eq_false', Bool.and_eq_true, graph_isExternal,
    Option.isSome_iff_exists, List.isEmpty_iff] at hh
  refine ⟨hh.1, fun l q hpq => ?_⟩
  have hq := mem_graph_successors.mpr hpq.joined
  simp [hh.2] at hq

end Heap

namespace Grammar

variable {g : Grammar} {opts : Options} {h k C : Heap} {x y : Nat} {name : Bytes}

section

variable (hg : g.Sound) (hw : h.WellFormed) (hi : h.Idle)

include hg hw hi

theorem FoldStep.partOf (hs : g.FoldStep opts h k) : k.state.PartOf h.state := by
  obtain ⟨nt, rule, f, -, -, hfolds, hkw, -⟩ := hs.folds hg hw hi
  exact hfolds.partOf hw.toSound.proper hw.denotes hkw.denotes

theorem FoldsTo.partOf (hs : g.FoldsTo opts h C) : C.state.PartOf h.state := by
  induction hs with
  | refl => exact .refl _
  | tail hM hstep ih =>
    obtain ⟨hMw, hMi⟩ := FoldsTo.wellFormed hM hg hw hi
    exact (hstep.partOf hg hMw hMi).trans ih

theorem FoldStep.pointer_of_unnamed (hs : g.FoldStep opts h k)
    (hname : ∀ nt rule, (nt, rule) ∈ g.allRules → ∀ p, rule.labelAt p ≠ some (.variable name))
    (hx : h.state.pointer x = some (name, y)) : k.state.pointer x = some (name, y) := by
  obtain ⟨nt, rule, f, hr, hf, hfolds, hkw, -⟩ := hs.folds hg hw hi
  have hrs := (hg nt rule hr).wellFormed.toSound
  have hX := Heap.embeds_of_isEmbedding hf hrs hw.toSound hi
  exact hfolds.pointer_of_unnamed hX hrs hw.toSound.proper hw.denotes hkw.denotes (hname nt rule hr) hx

theorem FoldsTo.pointer_of_unnamed (hs : g.FoldsTo opts h C)
    (hname : ∀ nt rule, (nt, rule) ∈ g.allRules → ∀ p, rule.labelAt p ≠ some (.variable name))
    (hx : h.state.pointer x = some (name, y)) : C.state.pointer x = some (name, y) := by
  induction hs with
  | refl => exact hx
  | tail hM hstep ih =>
    obtain ⟨hMw, hMi⟩ := FoldsTo.wellFormed hM hg hw hi
    exact hstep.pointer_of_unnamed hg hMw hMi hname ih

theorem FoldStep.keptBehind (hs : g.FoldStep opts h k) (hx : h.state.pointer x = some (name, y))
    (hc : opts.isConstant name = false) : h.state.KeptBehind k.state opts.minDistance y := by
  intro j n hj hn
  obtain ⟨nt, rule, f, hr, hf, hdistant, hfold⟩ := hs.distantFold hg hw
  obtain ⟨k', hk', hkw, -, hfolds⟩ := hw.foldRule hi (hg nt rule hr) hf
  obtain rfl := Except.ok.inj (hk'.symm.trans hfold)
  have hrs := (hg nt rule hr).wellFormed.toSound
  have hX := Heap.embeds_of_isEmbedding hf hrs hw.toSound hi
  obtain ⟨v, type, hv, htype, hwalk⟩ := hw.exists_walk hx hc hn
  have hlab : h.view.label n = some (.node type) := by rw [hw.toSound.view_label_of_idOf hv, htype]
  have hspares : HeapView.Spares rule (h.imageId f) n := by
    intro p lab hp hpn
    have hlab' := hX.label p lab hp
    rw [hpn, hlab] at hlab'
    obtain rfl := Option.some.inj hlab'
    refine Heap.not_hidden hp (Bool.eq_false_iff.mpr fun hhidden => ?_)
    -- a vertex that the fold hides stands at least the minimal distance away
    have hfp : f p = v := hw.toSound.id_inj _ _ n (hpn ▸ Heap.idOf_imageId hf (Heap.lt_of_labelAt hp)) hv
    have := hdistant p (Heap.lt_graph_size hp) hhidden j (hfp ▸ hwalk)
    omega
  refine ⟨⟨type, (hw.denotes.nodeType n type).mpr hlab, ?_⟩, ?_⟩
  · exact (hkw.denotes.nodeType n type).mpr (hfolds.label_of_spares hspares hlab)
  · funext s
    apply Option.ext
    intro m
    rw [hkw.denotes.selector, hw.denotes.selector]
    exact hfolds.link_of_spares hX hrs hw.toSound.proper hspares hlab

theorem FoldsTo.keptBehind (hs : g.FoldsTo opts h C) (hc : opts.isConstant name = false)
    (hC : C.state.pointer x = some (name, y)) : h.state.KeptBehind C.state opts.minDistance y := by
  induction hs with
  | refl =>
    intro j n _ hn
    obtain ⟨v, type, hv, htype, -⟩ := hw.exists_walk hC hc hn
    have hlab := (hw.denotes.nodeType n type).mpr (by rw [hw.toSound.view_label_of_idOf hv, htype])
    exact ⟨⟨type, hlab, hlab⟩, rfl⟩
  | tail hM hstep ih =>
    obtain ⟨hMw, hMi⟩ := FoldsTo.wellFormed hM hg hw hi
    -- a variable that is left over at the end was there before every fold
    have hxM := (hstep.partOf hg hMw hMi).pointer x name y hC
    exact (ih hxM).trans (hstep.keptBehind hg hMw hMi hxM hc)

end

theorem canonicalize_keeps_interface {counter : LabelCounter} (hg : g.Sound) (hw : h.WellFormed) (hi : h.Idle)
    (hc : g.CountedBy counter) (opts : Options) :
    ∃ results, (g.canonicalize opts h counter).result = .ok results ∧ ∀ C ∈ results,
      C.externalNodes = h.externalNodes ∧ C.state.PartOf h.state ∧
        ∀ x name y, h.state.pointer x = some (name, y) →
          (∀ nt rule, (nt, rule) ∈ g.allRules → rule.variableWith name = .ok none) →
            C.state.pointer x = some (name, y) := by
  have hreturns : (g.canonicalize opts h counter).Returns _ := canonicalize_returns hg hw hi hc
  obtain ⟨results, hresult, hforms⟩ := hreturns
  refine ⟨results, hresult, fun C hC => ?_⟩
  have hpart := (hforms C hC).partOf hg hw hi
  have hCw := ((hforms C hC).wellFormed hg hw hi).1
  refine ⟨?_, hpart, fun x name y hx hfree => ?_⟩
  · rw [hCw.toSound.externalNodes_eq, hw.toSound.externalNodes_eq, hpart.externals]
  · apply (hforms C hC).pointer_of_unnamed hg hw hi _ hx
    intro nt rule hr p
    exact Heap.not_variable_of_variableWith (hfree nt rule hr) p

def heldChain : Heap where
  elements := [
    { label := .node "N", id := 0, arcs := [⟨1, [.selector "next"]⟩], preds := [4] },
    { label := .node "N", id := 1, arcs := [⟨2, [.selector "next"]⟩], preds := [0] },
    { label := .node "N", id := 2, arcs := [⟨3, [.selector "next"]⟩], preds := [1] },
    { label := .node "N", id := 3, ordinal := some 0, preds := [2] },
    { label := .variable "x", id := 4, arcs := [⟨0, [.tentacle 0]⟩] }]
  nextId := 5

theorem wellFormed_heldChain : heldChain.WellFormed := by
  have h1 := Heap.wellFormed_chain.addVariable (show Heap.addVariable _ "x" 0 = .ok (_, _) from rfl)
  exact h1.setExternal (show Heap.setExternal _ 3 = .ok heldChain from rfl)

def foldedHeldChain : Heap where
  elements := [
    { label := .node "N", id := 0, arcs := [⟨1, [.selector "next"]⟩], preds := [4] },
    { label := .node "N", id := 1, preds := [0, 2] },
    { label := .nonterminal ⟨"L", 2⟩, id := 5, arcs := [⟨1, [.tentacle 0]⟩, ⟨3, [.tentacle 1]⟩] },
    { label := .node "N", id := 3, ordinal := some 0, preds := [2] },
    { label := .variable "x", id := 4, arcs := [⟨0, [.tentacle 0]⟩] }]
  nextId := 6

theorem canonicalForms_heldChain :
    (paths.canonicalize { minDistance := 1 } heldChain).result = .ok [foldedHeldChain] := by
  decide +kernel

theorem canonicalize_keeps_interface_heldChain :
    (paths.canonicalize { minDistance := 1 } heldChain).result = .ok [foldedHeldChain] ∧
      foldedHeldChain.externalNodes = .ok [3] ∧ foldedHeldChain.state.PartOf heldChain.state ∧
        foldedHeldChain.state.pointer 4 = some (("x" : Bytes), 0) := by
  obtain ⟨results, hresult, hforms⟩ :=
    canonicalize_keeps_interface produced_paths.sound wellFormed_heldChain (by decide) countedBy_paths
      { minDistance := 1 }
  rw [canonicalForms_heldChain] at hresult
  cases hresult
  obtain ⟨hexternals, hpart, hvariables⟩ := hforms foldedHeldChain List.mem_cons_self
  refine ⟨canonicalForms_heldChain, hexternals, hpart, hvariables 4 "x" 0 rfl ?_⟩
  intro nt rule hr
  obtain ⟨-, rfl⟩ := Prod.mk.inj (List.mem_singleton.mp hr)
  rfl

theorem canonicalize_keeps_neighbourhood {counter : LabelCounter} (hg : g.Sound) (hw : h.WellFormed) (hi : h.Idle)
    (hc : g.CountedBy counter) (opts : Options) :
    ∃ results, (g.canonicalize opts h counter).result = .ok results ∧ ∀ C ∈ results,
      ∀ x name y z, h.state.pointer x = some (name, y) → opts.isConstant name = false →
        C.variableWith name = .ok (some z) →
          C.state.pointer x = some (name, y) ∧ h.state.KeptBehind C.state opts.minDistance y := by
  have hreturns : (g.canonicalize opts h counter).Returns _ := canonicalize_returns hg hw hi hc
  obtain ⟨results, hresult, hforms⟩ := hreturns
  refine ⟨results, hresult, fun C hC x name y z hx hc hz => ?_⟩
  have hCw := ((hforms C hC).wellFormed hg hw hi).1
  obtain ⟨w, hw'⟩ := hCw.pointer_of_variableWith hz
  have hzw := ((hforms C hC).partOf hg hw hi).pointer z name w hw'
  -- no two variables of the heap have one name
  obtain ⟨rfl, rfl⟩ := hw.pointer_inj hx hzw
  exact ⟨hw', (hforms C hC).keptBehind hg hw hi hc hw'⟩

theorem canonicalize_keeps_neighbourhood_heldChain :
    (paths.canonicalize { minDistance := 1 } heldChain).result = .ok [foldedHeldChain] ∧
      foldedHeldChain.state.pointer 4 = some (("x" : Bytes), 0) ∧ heldChain.state.selector 0 "next" = some 1 ∧
        foldedHeldChain.state.selector 0 = heldChain.state.selector 0 := by
  obtain ⟨results, hresult, hforms⟩ :=
    canonicalize_keeps_neighbourhood produced_paths.sound wellFormed_heldChain (by decide) countedBy_paths
      { minDistance := 1 }
  rw [canonicalForms_heldChain] at hresult
  cases hresult
  obtain ⟨hpointer, hkept⟩ := hforms foldedHeldChain List.mem_cons_self 4 "x" 0 4 rfl rfl rfl
  exact ⟨canonicalForms_heldChain, hpointer, rfl, (hkept 0 0 (by decide) .start).2⟩

end Grammar

end HeapAbstraction
