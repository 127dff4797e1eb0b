import HeapAbstraction.Proofs.FoldStep
import HeapAbstraction.Proofs.Unfolding
import HeapAbstraction.Proofs.Distance

namespace HeapAbstraction

namespace HeapView

variable {P : Heap} {A A' B B' : HeapView} {X Y φ : Nat → Nat} {nt : Nonterminal} {x y p : Nat} {lab lab' : Label}
  {l : EdgeLabel}

theorem Proper.ordinal_nextId (hA : A.Proper) : A.ordinal A.nextId = none := by
  cases ho : A.ordinal A.nextId with
  | none => rfl
  | some i =>
    obtain ⟨type, ht⟩ := hA.ordinal_node _ _ ho
    simp [hA.label_nextId] at ht

theorem Proper.ne_nextId (hA : A.Proper) (hx : A.label x = some lab) : x ≠ A.nextId := by
  rintro rfl
  simp [hA.label_nextId] at hx

theorem Folds.label_cases (hf : Folds P A X nt A') (hA : A.Proper) (hx : A'.label x = some lab) :
    (x = A.nextId ∧ lab = .nonterminal nt) ∨ (x ≠ A.nextId ∧ A.label x = some lab ∧ ¬ Absorbed P X x) := by
  rcases (hf.label x lab).mp hx with h | ⟨hl, hn⟩
  · exact .inl h
  · exact .inr ⟨hA.ne_nextId hl, hl, hn⟩

theorem Folds.link_new (hf : Folds P A X nt A') (hA : A.Proper) :
    A'.link A.nextId l y ↔ ∃ i p, l = .tentacle i ∧ P.ordinalAt p = some i ∧ X p = y := by
  rw [hf.link]
  exact ⟨fun h => h.elim (fun h => absurd h.1 hA.not_link_nextId) fun h => h.2, fun h => .inr ⟨rfl, h⟩⟩

theorem Folds.link_old (hf : Folds P A X nt A') (hx : x ≠ A.nextId) : A'.link x l y ↔
    A.link x l y ∧ (∀ p q, P.Linked p l q → X p ≠ x) ∧ ¬ Absorbed P X x ∧ ¬ Absorbed P X y := by
  rw [hf.link]
  exact ⟨fun h => h.elim id fun h => absurd h.1 hx, .inl⟩

structure TwinFolds (P : Heap) (A : HeapView) (X : Nat → Nat) (nt : Nonterminal) (A' B : HeapView) (Y : Nat → Nat)
    (B' : HeapView) (φ : Nat → Nat) : Prop where
  pattern : P.Sound
  proper : A.Proper
  copyProper : B.Proper
  embeds : Embeds P A X
  folds : Folds P A X nt A'
  copyFolds : Folds P B Y nt B'
  iso : Iso A B φ
  image : ∀ p lab, P.labelAt p = some lab → Y p = φ (X p)

namespace TwinFolds

variable (ht : TwinFolds P A X nt A' B Y B' φ)

include ht

theorem image_eq_iff (hp : P.labelAt p = some lab) (hy : A.label y = some lab') : Y p = φ y ↔ X p = y := by
  rw [ht.image p lab hp]
  exact ⟨ht.iso.inj _ _ _ _ (ht.embeds.label p lab hp) hy, fun h => h ▸ rfl⟩

theorem absorbed_iff (hy : A.label y = some lab) : Absorbed P Y (φ y) ↔ Absorbed P X y := by
  refine exists_congr fun p => exists_congr fun lab' => and_congr_right fun hp => and_congr_right fun _ => ?_
  exact ht.image_eq_iff hp hy

theorem label_outer {i : Nat} (ho : P.ordinalAt p = some i) :
    ∃ lab, P.labelAt p = some lab ∧ A.label (X p) = some lab ∧ B.label (Y p) = some lab := by
  obtain ⟨type, hp⟩ := ht.pattern.ordinal_node p i ho
  have hA := ht.embeds.label p _ hp
  exact ⟨_, hp, hA, ht.image p _ hp ▸ ht.iso.label _ _ hA⟩

theorem link_iff (hx : A'.label x = some lab) (hy : A'.label y = some lab') :
    B'.link (Function.update φ A.nextId B.nextId x) l (Function.update φ A.nextId B.nextId y) ↔ A'.link x l y := by
  rcases ht.folds.label_cases ht.proper hx with ⟨rfl, -⟩ | ⟨hxn, hlx, -⟩
  · rw [Function.update_self, ht.folds.link_new ht.proper, ht.copyFolds.link_new ht.copyProper]
    refine exists_congr fun i => exists_congr fun p => and_congr_right fun _ => and_congr_right fun ho => ?_
    obtain ⟨lab, hp, hXp, hYp⟩ := ht.label_outer ho
    rcases ht.folds.label_cases ht.proper hy with ⟨rfl, -⟩ | ⟨hyn, hly, -⟩
    · rw [Function.update_self]
      exact iff_of_false (ht.copyProper.ne_nextId hYp) (ht.proper.ne_nextId hXp)
    · rw [Function.update_of_ne hyn]
      exact ht.image_eq_iff hp hly
  · have hne := ht.copyProper.ne_nextId (ht.iso.label x _ hlx)
    rw [Function.update_of_ne hxn, ht.folds.link_old hxn, ht.copyFolds.link_old hne]
    rcases ht.folds.label_cases ht.proper hy with ⟨rfl, -⟩ | ⟨hyn, hly, -⟩
    · -- no old arc ends in the new hyperedge
      rw [Function.update_self]
      refine iff_of_false (fun h => ?_) (fun h => ?_)
      · obtain ⟨type, hn⟩ := ht.copyProper.link_node _ _ _ h.1
        exact ht.copyProper.ne_nextId hn rfl
      · obtain ⟨type, hn⟩ := ht.proper.link_node _ _ _ h.1
        exact ht.proper.ne_nextId hn rfl
    · rw [Function.update_of_ne hyn, ht.iso.link x y _ _ l hlx hly, ht.absorbed_iff hlx, ht.absorbed_iff hly]
      refine and_congr_right fun _ => and_congr_left fun _ => ?_
      refine forall_congr' fun p => forall_congr' fun q => forall_congr' fun hpq => not_congr ?_
      obtain ⟨lab, hp⟩ := ht.pattern.labelAt_of_joined hpq.joined
      exact ht.image_eq_iff hp hlx

theorem iso_update : Iso A' B' (Function.update φ A.nextId B.nextId) where
  label x lab hx := by
    rcases ht.folds.label_cases ht.proper hx with ⟨rfl, rfl⟩ | ⟨hxn, hl, hn⟩
    · rw [Function.update_self]
      exact (ht.copyFolds.label _ _).mpr (.inl ⟨rfl, rfl⟩)
    · rw [Function.update_of_ne hxn]
      exact (ht.copyFolds.label _ _).mpr (.inr ⟨ht.iso.label x lab hl, mt (ht.absorbed_iff hl).mp hn⟩)
  inj x y lab lab' hx hy hxy := by
    rcases ht.folds.label_cases ht.proper hx with ⟨rfl, -⟩ | ⟨hxn, hl, -⟩ <;>
      rcases ht.folds.label_cases ht.proper hy with ⟨rfl, -⟩ | ⟨hyn, hl', -⟩
    · rfl
    · rw [Function.update_self, Function.update_of_ne hyn] at hxy
      exact absurd hxy.symm (ht.copyProper.ne_nextId (ht.iso.label y _ hl'))
    · rw [Function.update_self, Function.update_of_ne hxn] at hxy
      exact absurd hxy (ht.copyProper.ne_nextId (ht.iso.label x _ hl))
    · rw [Function.update_of_ne hxn, Function.update_of_ne hyn] at hxy
      exact ht.iso.inj x y _ _ hl hl' hxy
  onto z lab hz := by
    rcases ht.copyFolds.label_cases ht.copyProper hz with ⟨rfl, rfl⟩ | ⟨-, hl, hn⟩
    · exact ⟨A.nextId, (ht.folds.label _ _).mpr (.inl ⟨rfl, rfl⟩), Function.update_self ..⟩
    · obtain ⟨x, hx, rfl⟩ := ht.iso.onto z lab hl
      have hkept := (ht.folds.label x lab).mpr (.inr ⟨hx, mt (ht.absorbed_iff hx).mpr hn⟩)
      exact ⟨x, hkept, Function.update_of_ne (ht.proper.ne_nextId hx) ..⟩
  ordinal x lab hx := by
    rw [ht.copyFolds.ordinal, ht.folds.ordinal]
    rcases ht.folds.label_cases ht.proper hx with ⟨rfl, -⟩ | ⟨hxn, hl, -⟩
    · rw [Function.update_self, ht.proper.ordinal_nextId, ht.copyProper.ordinal_nextId]
    · rw [Function.update_of_ne hxn]
      exact ht.iso.ordinal x lab hl
  link _ _ _ _ _ hx hy := ht.link_iff hx hy

end TwinFolds

end HeapView

namespace Heap

variable {a b P : Heap} {f φ : Nat → Nat} {v w x p : Nat} {lab : Label}

def carry (a b : Heap) (φ : Nat → Nat) (x : Nat) : Nat := ((a.slot? x).map (b.imageId φ)).getD 0

theorem carry_eq (ha : a.Sound) (hv : a.idOf v = some x) (hl : a.labelAt v = some lab) :
    carry a b φ x = b.imageId φ v := by
  simp [carry, ha.slot?_eq hv hl]

theorem linked_iff (hφ : a.graph.IsIsomorphism b.graph φ) (ha : a.Sound) (hb : b.Sound) {l : EdgeLabel}
    (hv : v < a.graph.size) (hw : w < a.graph.size) : b.Linked (φ v) l (φ w) ↔ a.Linked v l w := by
  by_cases hvw : w ∈ a.graph.successors v
  · rw [← mem_graph_arcLabels hb, ← mem_graph_arcLabels ha]
    exact hφ.labels v w hvw l
  · have hno := mt (hφ.arc v hv w hw).mp hvw
    rw [mem_graph_successors] at hvw hno
    exact iff_of_false (fun h => hno h.joined) (fun h => hvw h.joined)

section

variable (hφ : a.graph.IsIsomorphism b.graph φ) (hbi : b.Idle)

include hφ hbi

theorem slot_image (hl : a.labelAt v = some lab) :
    b.idOf (φ v) = some (b.imageId φ v) ∧ b.labelAt (φ v) = some lab := by
  have hv := lt_graph_size hl
  have hlt := hφ.lt v hv
  rw [graph_size] at hlt
  have hlab : b.labelAt (φ v) = some lab := by rw [hbi.labelAt hlt, hφ.label v hv, graph_label hl]
  refine ⟨?_, hlab⟩
  simp [imageId, idOf, List.getElem?_eq_getElem hlt]

theorem iso_carry (ha : a.Sound) (hai : a.Idle) (hb : b.Sound) : HeapView.Iso a.view b.view (carry a b φ) where
  label x lab hx := by
    obtain ⟨v, hv, hl⟩ := ha.view_label.mp hx
    rw [carry_eq ha hv hl]
    exact hb.view_label.mpr ⟨φ v, slot_image hφ hbi hl⟩
  inj x y lab lab' hx hy hxy := by
    obtain ⟨v, hv, hl⟩ := ha.view_label.mp hx
    obtain ⟨w, hw, hl'⟩ := ha.view_label.mp hy
    rw [carry_eq ha hv hl, carry_eq ha hw hl'] at hxy
    have hid := (slot_image hφ hbi hl).1
    rw [hxy] at hid
    have hvw := hφ.inj v (lt_graph_size hl) w (lt_graph_size hl') (hb.id_inj _ _ _ hid (slot_image hφ hbi hl').1)
    rw [hvw, hw] at hv
    exact (Option.some.inj hv).symm
  onto z lab hz := by
    obtain ⟨t, ht, hl⟩ := hb.view_label.mp hz
    obtain ⟨v, hv, rfl⟩ := hφ.onto t (lt_graph_size hl)
    rw [graph_size] at hv
    have hlab := hai.labelAt hv
    obtain ⟨x, hx⟩ := idOf_of_labelAt hlab
    obtain ⟨hid, hlab'⟩ := slot_image hφ hbi hlab
    rw [hl, Option.some.injEq] at hlab'
    refine ⟨x, hlab' ▸ ha.view_label.mpr ⟨v, hx, hlab⟩, ?_⟩
    rw [carry_eq ha hx hlab]
    exact Option.some.inj (hid.symm.trans ht)
  ordinal x lab hx := by
    obtain ⟨v, hv, hl⟩ := ha.view_label.mp hx
    rw [carry_eq ha hv hl, hb.view_ordinal_of_idOf (slot_image hφ hbi hl).1, ha.view_ordinal_of_idOf hv]
    have := hφ.ordinal v (lt_graph_size hl)
    rwa [graph_ordinal, graph_ordinal] at this
  link x y lab lab' l hx hy := by
    obtain ⟨v, hv, hl⟩ := ha.view_label.mp hx
    obtain ⟨w, hw, hl'⟩ := ha.view_label.mp hy
    rw [carry_eq ha hv hl, carry_eq ha hw hl',
      hb.view_link_of_idOf (slot_image hφ hbi hl).1 (slot_image hφ hbi hl').1, ha.view_link_of_idOf hv hw]
    exact linked_iff hφ ha hb (lt_graph_size hl) (lt_graph_size hl')

end

theorem carry_imageId (ha : a.Sound) (hai : a.Idle) (hf : P.graph.IsEmbedding a.graph f) (hp : P.labelAt p = some lab) :
    carry a b φ (a.imageId f p) = b.imageId (φ ∘ f) p := by
  have hlt := lt_of_labelAt hp
  have hv := hf.lt p (by rwa [graph_size])
  rw [graph_size] at hv
  rw [carry_eq ha (idOf_imageId hf hlt) (hai.labelAt hv)]
  rfl

end Heap

namespace Grammar

variable {g : Grammar} {opts : Options} {a a' b : Heap}

theorem FoldStep.transport (hs : g.FoldStep opts a a') (hg : g.Sound) (ha : a.WellFormed) (hai : a.Idle)
    (hb : b.WellFormed) (hbi : b.Idle) (hab : a.Isomorphic b) : ∃ b', g.FoldStep opts b b' ∧ a'.Isomorphic b' := by
  obtain ⟨nt, rule, m, hr, hm, hfold⟩ := hs
  obtain ⟨φ, hφ⟩ := hab
  have hrule := hg nt rule hr
  have hrg := hrule.wellFormed.toSound.graph
  obtain ⟨f, hf, hk, hpasses, rfl⟩ := (Graph.mem_distantEmbeddings hrg ha.toSound.graph).mp hm
  have hf' := hf.trans hφ hrg ha.toSound.graph hb.toSound.graph
  obtain ⟨a₁, ha₁, haw, hai', hfolds⟩ := ha.foldRule hai hrule hf
  obtain ⟨b', hb', hbw, hbi', hfolds'⟩ := hb.foldRule hbi hrule hf'
  rw [hfold] at ha₁
  cases ha₁
  refine ⟨b', ⟨nt, rule, _, hr, ?_, hb'⟩, ?_⟩
  · have hpasses' := hpasses.trans hφ hrg ha.toSound.graph hb.toSound.graph hf.toIsMonomorphism hf'.toIsMonomorphism
    exact (Graph.mem_distantEmbeddings hrg hb.toSound.graph).mpr
      ⟨_, hf', hk.trans hf hφ hb.toSound.graph, hpasses', rfl⟩
  · have htwin : HeapView.TwinFolds rule a.view (a.imageId f) nt a'.view b.view (b.imageId (φ ∘ f)) b'.view
        (Heap.carry a b φ) :=
      ⟨hrule.wellFormed.toSound, ha.toSound.proper, hb.toSound.proper,
        Heap.embeds_of_isEmbedding hf hrule.wellFormed.toSound ha.toSound hai, hfolds, hfolds',
        Heap.iso_carry hφ hbi ha.toSound hai hb.toSound,
        fun p lab hp => (Heap.carry_imageId ha.toSound hai hf hp).symm⟩
    exact Heap.isomorphic_of_iso haw.toSound hai' hbw.toSound hbi' htwin.iso_update

theorem FoldsTo.transport (hs : g.FoldsTo opts a a') (hg : g.Sound) (ha : a.WellFormed) (hai : a.Idle)
    (hb : b.WellFormed) (hbi : b.Idle) (hab : a.Isomorphic b) : ∃ b', g.FoldsTo opts b b' ∧ a'.Isomorphic b' := by
  induction hs with
  | refl => exact ⟨b, .refl, hab⟩
  | tail hM hstep ih =>
    obtain ⟨N, hN, hMN⟩ := ih
    obtain ⟨hMw, hMi⟩ := FoldsTo.wellFormed hM hg ha hai
    obtain ⟨hNw, hNi⟩ := FoldsTo.wellFormed hN hg hb hbi
    obtain ⟨b', hstep', hb'⟩ := hstep.transport hg hMw hMi hNw hNi hMN
    exact ⟨b', hN.tail hstep', hb'⟩

def Normal (g : Grammar) (opts : Options) (h : Heap) : Prop :=
  ∀ nt rule, (nt, rule) ∈ g.allRules →
    Graph.distantEmbeddings opts.minDistance opts.isConstant false rule.graph h.graph = []

theorem normal_iff (hg : g.Sound) (ha : a.WellFormed) (hai : a.Idle) :
    g.Normal opts a ↔ ∀ a', ¬ g.FoldStep opts a a' := by
  constructor
  · rintro hn a' ⟨nt, rule, m, hr, hm, -⟩
    rw [hn nt rule hr] at hm
    simp at hm
  · intro hn nt rule hr
    rw [List.eq_nil_iff_forall_not_mem]
    intro m hm
    obtain ⟨f, hf, rfl⟩ := exists_isEmbedding_of_mem_distantEmbeddings hg hr ha hm
    obtain ⟨a', hfold, -⟩ := ha.foldRule hai (hg nt rule hr) hf
    exact hn a' ⟨nt, rule, _, hr, hm, hfold⟩

theorem Normal.transport (hn : g.Normal opts a) (hg : g.Sound) (ha : a.WellFormed) (hai : a.Idle)
    (hb : b.WellFormed) (hbi : b.Idle) (hab : a.Isomorphic b) : g.Normal opts b := by
  rw [normal_iff hg ha hai] at hn
  rw [normal_iff hg hb hbi]
  intro b' hs
  obtain ⟨a', ha', -⟩ := hs.transport hg hb hbi ha hai (hab.symm hb.toSound)
  exact hn a' ha'

end Grammar

end HeapAbstraction
