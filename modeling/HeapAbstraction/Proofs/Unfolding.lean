import HeapAbstraction.Proofs.Folding
import HeapAbstraction.Proofs.Isomorphism

namespace HeapAbstraction

namespace HeapView

structure Iso (A B : HeapView) (φ : Nat → Nat) : Prop where
  label : ∀ x lab, A.label x = some lab → B.label (φ x) = some lab
  inj : ∀ x y lab lab', A.label x = some lab → A.label y = some lab' → φ x = φ y → x = y
  onto : ∀ z lab, B.label z = some lab → ∃ x, A.label x = some lab ∧ φ x = z
  ordinal : ∀ x lab, A.label x = some lab → B.ordinal (φ x) = A.ordinal x
  link : ∀ x y lab lab' l, A.label x = some lab → A.label y = some lab' → (B.link (φ x) l (φ y) ↔ A.link x l y)

theorem Iso.refl (A : HeapView) : Iso A A id where
  label _ _ h := h
  inj _ _ _ _ _ _ h := h
  onto z _ h := ⟨z, h, rfl⟩
  ordinal _ _ _ := rfl
  link _ _ _ _ _ _ _ := Iff.rfl

variable {P : Heap} {A B K K' : HeapView} {X φ g : Nat → Nat} {nt : Nonterminal} {e y z p i : Nat} {lab : Label}

theorem Iso.exists_link (hφ : Iso A B φ) (hB : B.Proper) {l : EdgeLabel} (hy : A.label y = some lab)
    (hl : B.link (φ y) l z) : ∃ x lab', A.label x = some lab' ∧ φ x = z ∧ A.link y l x := by
  obtain ⟨type, ht⟩ := hB.link_node _ _ _ hl
  obtain ⟨x, hx, rfl⟩ := hφ.onto z _ ht
  exact ⟨x, _, hx, rfl, (hφ.link y x _ _ l hy hx).mp hl⟩

structure FoldCopy (P : Heap) (A : HeapView) (X : Nat → Nat) (nt : Nonterminal) (B K : HeapView) (φ : Nat → Nat) : Prop where
  pattern : P.WellFormed
  proper : A.Proper
  typed : A.Typed
  embeds : Embeds P A X
  folds : Folds P A X nt B
  copyProper : K.Proper
  iso : Iso B K φ

namespace FoldCopy

variable (hc : FoldCopy P A X nt B K φ)

include hc

theorem label_edge : K.label (φ A.nextId) = some (.nonterminal nt) :=
  hc.iso.label _ _ ((hc.folds.label _ _).mpr (.inl ⟨rfl, rfl⟩))

theorem label_kept (hy : A.label y = some lab) (hn : ¬ Absorbed P X y) : B.label y = some lab :=
  (hc.folds.label y lab).mpr (.inr ⟨hy, hn⟩)

theorem ne_edge (hy : A.label y = some lab) (hn : ¬ Absorbed P X y) : φ y ≠ φ A.nextId := by
  intro h
  have hnew := (hc.folds.label A.nextId (.nonterminal nt)).mpr (.inl ⟨rfl, rfl⟩)
  have hy' := hc.iso.inj _ _ _ _ (hc.label_kept hy hn) hnew h
  rw [hy', hc.proper.label_nextId] at hy
  simp at hy

theorem label_outer (ho : P.ordinalAt p = some i) : ∃ type, A.label (X p) = some (.node type) := by
  obtain ⟨type, ht⟩ := hc.pattern.ordinal_node p i ho
  exact ⟨type, hc.embeds.label p _ ht⟩

theorem link_edge_iff : K.link (φ A.nextId) (.tentacle i) y ↔ ∃ p, P.ordinalAt p = some i ∧ φ (X p) = y := by
  have hnew := (hc.folds.label A.nextId (.nonterminal nt)).mpr (.inl ⟨rfl, rfl⟩)
  constructor
  · intro hl
    obtain ⟨x, lab', hx, rfl, hB⟩ := hc.iso.exists_link hc.copyProper hnew hl
    rcases (hc.folds.link _ _ _).mp hB with ⟨hA, -⟩ | ⟨-, j, p, hj, ho, rfl⟩
    · exact absurd hA hc.proper.not_link_nextId
    · cases hj
      exact ⟨p, ho, rfl⟩
  · rintro ⟨p, ho, rfl⟩
    obtain ⟨type, ht⟩ := hc.label_outer ho
    have hkept := hc.label_kept ht (hc.embeds.not_absorbed hc.pattern.toSound ho)
    exact (hc.iso.link _ _ _ _ _ hnew hkept).mpr ((hc.folds.link _ _ _).mpr (.inr ⟨rfl, i, p, rfl, ho, rfl⟩))

theorem variable_free {name : Bytes} (hp : P.labelAt p = some (.variable name)) : K.label y ≠ some (.variable name) := by
  intro hy
  obtain ⟨x, hx, rfl⟩ := hc.iso.onto y _ hy
  rcases (hc.folds.label x _).mp hx with ⟨-, h⟩ | ⟨hA, hn⟩
  · simp at h
  · have hx' := hc.typed.variable_inj _ _ _ hA (hc.embeds.label p _ hp)
    exact hn ⟨p, _, hp, hc.pattern.ordinalAt_eq_none (Heap.not_isNode_of_kind hp (by simp [Label.kind])), hx'.symm⟩

theorem selector_free {l : EdgeLabel} {q : Nat} (ho : P.ordinalAt p = some i) (hl : P.Linked p l q)
    (hy : K.link (φ A.nextId) (.tentacle i) y) : ¬ K.link y l z := by
  intro hz
  obtain ⟨p', ho', rfl⟩ := hc.link_edge_iff.mp hy
  obtain rfl := hc.pattern.ordinal_inj p' p i ho' ho
  obtain ⟨type, ht⟩ := hc.label_outer ho
  have hkept := hc.label_kept ht (hc.embeds.not_absorbed hc.pattern.toSound ho)
  obtain ⟨x, lab', hx, rfl, hB⟩ := hc.iso.exists_link hc.copyProper hkept hz
  rcases (hc.folds.link _ _ _).mp hB with ⟨-, hno, -⟩ | ⟨heq, -⟩
  · exact hno p' q hl rfl
  · rw [heq, hc.proper.label_nextId] at ht
    simp at ht

theorem outer_inj {p' i' : Nat} (ho : P.ordinalAt p = some i) (ho' : P.ordinalAt p' = some i')
    (hy : K.link (φ A.nextId) (.tentacle i) y) (hy' : K.link (φ A.nextId) (.tentacle i') y) : p = p' := by
  obtain ⟨q, hq, rfl⟩ := hc.link_edge_iff.mp hy
  obtain ⟨q', hq', heq⟩ := hc.link_edge_iff.mp hy'
  obtain rfl := hc.pattern.ordinal_inj q p i hq ho
  obtain rfl := hc.pattern.ordinal_inj q' p' i' hq' ho'
  obtain ⟨type, ht⟩ := hc.label_outer ho
  obtain ⟨type', ht'⟩ := hc.label_outer ho'
  have hX := hc.iso.inj _ _ _ _ (hc.label_kept ht' (hc.embeds.not_absorbed hc.pattern.toSound ho'))
    (hc.label_kept ht (hc.embeds.not_absorbed hc.pattern.toSound ho)) heq
  obtain ⟨_, hq⟩ := hc.pattern.ordinal_node q i ho
  obtain ⟨_, hq'⟩ := hc.pattern.ordinal_node q' i' ho'
  exact (hc.embeds.inj _ _ _ _ hq' hq hX).symm

end FoldCopy

open Classical in
noncomputable def restore (P : Heap) (X φ g : Nat → Nat) (y : Nat) : Nat :=
  if h : Absorbed P X y then g h.choose else φ y

theorem restore_of_not_absorbed (hn : ¬ Absorbed P X y) : restore P X φ g y = φ y := dif_neg hn

namespace FoldCopy

variable (hc : FoldCopy P A X nt B K φ) (hg : Glues K (φ A.nextId) P g K')

include hc in
theorem restore_inner (hl : P.labelAt p = some lab) (ho : P.ordinalAt p = none) : restore P X φ g (X p) = g p := by
  have h : Absorbed P X (X p) := ⟨p, lab, hl, ho, rfl⟩
  rw [restore, dif_pos h]
  obtain ⟨lab', hl', -, hX⟩ := h.choose_spec
  rw [hc.embeds.inj _ _ _ _ hl' hl hX]

include hc hg

theorem restore_image (hl : P.labelAt p = some lab) : restore P X φ g (X p) = g p := by
  cases ho : P.ordinalAt p with
  | none => exact hc.restore_inner hl ho
  | some i =>
    rw [restore_of_not_absorbed (hc.embeds.not_absorbed hc.pattern.toSound ho)]
    exact hc.copyProper.link_functional _ _ _ _ (hc.link_edge_iff.mpr ⟨p, ho, rfl⟩) (hg.outer p i ho)

theorem restore_cases (hy : A.label y = some lab) :
    (∃ p, P.labelAt p = some lab ∧ P.ordinalAt p = none ∧ X p = y ∧ restore P X φ g y = g p ∧ K.nextId ≤ g p) ∨
      (¬ Absorbed P X y ∧ restore P X φ g y = φ y ∧ K.label (φ y) = some lab ∧ φ y < K.nextId) := by
  by_cases h : Absorbed P X y
  · obtain ⟨p, lab', hl, ho, rfl⟩ := h
    have hlab := hc.embeds.label p lab' hl
    rw [hy] at hlab
    cases hlab
    exact .inl ⟨p, hl, ho, rfl, hc.restore_inner hl ho, hg.fresh p lab hl ho⟩
  · have hK := hc.iso.label y lab (hc.label_kept hy h)
    exact .inr ⟨h, restore_of_not_absorbed h, hK, hc.copyProper.label_lt _ _ hK⟩

theorem restore_inj {x : Nat} {lab' : Label} (hx : A.label x = some lab) (hy : A.label y = some lab')
    (h : restore P X φ g x = restore P X φ g y) : x = y := by
  rcases hc.restore_cases hg hx with ⟨p, hl, ho, rfl, hp, hge⟩ | ⟨hn, hp, -, hlt⟩
  · rcases hc.restore_cases hg hy with ⟨q, hl', ho', rfl, hq, -⟩ | ⟨-, hq, -, hlt⟩
    · rw [hg.inj p q _ _ hl ho hl' ho' (hp.symm.trans (h.trans hq))]
    · omega
  · rcases hc.restore_cases hg hy with ⟨q, -, -, -, hq, hge⟩ | ⟨hn', hq, -⟩
    · omega
    · exact hc.iso.inj _ _ _ _ (hc.label_kept hx hn) (hc.label_kept hy hn') (hp.symm.trans (h.trans hq))

theorem restore_link {x : Nat} {lab' : Label} {l : EdgeLabel} (hx : A.label x = some lab) (hy : A.label y = some lab') :
    K'.link (restore P X φ g x) l (restore P X φ g y) ↔ A.link x l y := by
  have hlive (p q : Nat) (hpq : P.Linked p l q) : (∃ a, P.labelAt p = some a) ∧ ∃ b, P.labelAt q = some b := by
    obtain ⟨type, ht⟩ := hc.pattern.ends p q hpq.joined
    exact ⟨hc.pattern.labelAt_of_joined hpq.joined, _, ht⟩
  rw [hg.link]
  constructor
  · rintro (⟨hK, -⟩ | ⟨p, q, hpq, hp, hq⟩)
    · -- old arcs are between elements that the fold left alone
      obtain ⟨a, ha⟩ := hc.copyProper.link_label _ _ _ hK
      obtain ⟨type, hb⟩ := hc.copyProper.link_node _ _ _ hK
      have halt := hc.copyProper.label_lt _ _ ha
      have hblt := hc.copyProper.label_lt _ _ hb
      rcases hc.restore_cases hg hx with ⟨p, -, -, -, hp, hge⟩ | ⟨hn, hp, -⟩
      · omega
      · rcases hc.restore_cases hg hy with ⟨q, -, -, -, hq, hge⟩ | ⟨hn', hq, -⟩
        · omega
        · rw [hp, hq, hc.iso.link _ _ _ _ _ (hc.label_kept hx hn) (hc.label_kept hy hn'), hc.folds.link] at hK
          rcases hK with ⟨hA, -⟩ | ⟨heq, -⟩
          · exact hA
          · rw [heq, hc.proper.label_nextId] at hx
            simp at hx
    · obtain ⟨⟨a, ha⟩, b, hb⟩ := hlive p q hpq
      rw [← hc.restore_image hg ha] at hp
      rw [← hc.restore_image hg hb] at hq
      rw [← hc.restore_inj hg (hc.embeds.label p a ha) hx hp, ← hc.restore_inj hg (hc.embeds.label q b hb) hy hq]
      exact hc.embeds.link p l q hpq
  · intro hA
    -- an arc of the pattern comes back with it; any other was left alone at both ends
    by_cases h : ∃ p q, P.Linked p l q ∧ X p = x
    · obtain ⟨p, q, hpq, rfl⟩ := h
      obtain ⟨⟨a, ha⟩, b, hb⟩ := hlive p q hpq
      obtain rfl := hc.proper.link_functional _ _ _ _ (hc.embeds.link p l q hpq) hA
      exact .inr ⟨p, q, hpq, (hc.restore_image hg ha).symm, (hc.restore_image hg hb).symm⟩
    · have hn : ¬ Absorbed P X x := by
        rintro ⟨p, a, ha, ho, rfl⟩
        obtain ⟨q, hpq, -⟩ := hc.embeds.inner_out p a l y ha ho hA
        exact h ⟨p, q, hpq, rfl⟩
      have hn' : ¬ Absorbed P X y := by
        rintro ⟨q, b, hb, ho, rfl⟩
        obtain ⟨p, hpq, hp⟩ := hc.embeds.inner_in q b l x hb ho hA
        exact h ⟨p, q, hpq, hp⟩
      have hB : B.link x l y := (hc.folds.link _ _ _).mpr (.inl ⟨hA, fun p q hpq hp => h ⟨p, q, hpq, hp⟩, hn, hn'⟩)
      rw [restore_of_not_absorbed hn, restore_of_not_absorbed hn']
      exact .inl ⟨(hc.iso.link _ _ _ _ _ (hc.label_kept hx hn) (hc.label_kept hy hn')).mpr hB, hc.ne_edge hx hn⟩

theorem iso_restore : Iso A K' (restore P X φ g) where
  label y lab hy := by
    rw [hg.label]
    rcases hc.restore_cases hg hy with ⟨p, hl, ho, -, hp, -⟩ | ⟨hn, hp, hK, -⟩
    · exact .inr ⟨p, hl, ho, hp.symm⟩
    · rw [hp]
      exact .inl ⟨hc.ne_edge hy hn, hK⟩
  inj x y lab lab' hx hy h := hc.restore_inj hg hx hy h
  onto z lab hz := by
    rcases (hg.label z lab).mp hz with ⟨hne, hK⟩ | ⟨p, hl, ho, rfl⟩
    · obtain ⟨y, hy, rfl⟩ := hc.iso.onto z lab hK
      rcases (hc.folds.label y lab).mp hy with ⟨rfl, -⟩ | ⟨hA, hn⟩
      · exact absurd rfl hne
      · exact ⟨y, hA, restore_of_not_absorbed hn⟩
    · exact ⟨X p, hc.embeds.label p lab hl, hc.restore_inner hl ho⟩
  ordinal y lab hy := by
    rw [hg.ordinal]
    rcases hc.restore_cases hg hy with ⟨p, hl, ho, rfl, hp, hge⟩ | ⟨hn, hp, -⟩
    · rw [hp, hc.embeds.inner p lab hl ho]
      cases hi : K.ordinal (g p) with
      | none => rfl
      | some i =>
        obtain ⟨type, ht⟩ := hc.copyProper.ordinal_node _ _ hi
        have := hc.copyProper.label_lt _ _ ht
        omega
    · rw [hp, hc.iso.ordinal y lab (hc.label_kept hy hn), hc.folds.ordinal]
  link x y lab lab' l hx hy := hc.restore_link hg hx hy

end FoldCopy

end HeapView

namespace Heap

variable {a b P h K : Heap} {φ X : Nat → Nat} {nt : Nonterminal}

theorem nonterminalOf_eq {x : Nat} (hs : h.Sound) (hx : h.view.label x = some (.nonterminal nt)) :
    h.nonterminalOf x = .ok nt := by
  obtain ⟨v, hid, hl⟩ := hs.view_label.mp hx
  obtain ⟨e, he, hr, hlab⟩ := labelAt_eq_some.mp hl
  have hfind : h.find x .nonterminal = .ok (v, e) := by simpa [hlab, Label.kind] using find_eq hs hid he hr
  simp [nonterminalOf, hfind, hlab, bind, Except.bind, pure, Except.pure, Label.name, Label.rank]

theorem exists_unfold {B : HeapView} (hw : h.WellFormed) (hP : P.WellFormed) (hi : P.Idle)
    (hX : HeapView.Embeds P h.view X) (hf : HeapView.Folds P h.view X nt B) (hk : nt.rank = P.externalCount)
    (hK : K.WellFormed) (hφ : HeapView.Iso B K.view φ) :
    ∃ K' ψ, K.nonterminalOf (φ h.nextId) = .ok nt ∧ K.glue (φ h.nextId) P = .ok K' ∧ K'.WellFormed ∧
      HeapView.Iso h.view K'.view ψ ∧ ∀ y, ¬ HeapView.Absorbed P X y → ψ y = φ y := by
  have hc : HeapView.FoldCopy P h.view X nt B K.view φ :=
    ⟨hP, hw.toSound.proper, hw.toSound.wellFormed_iff.mp hw, hX, hf, hK.toSound.proper, hφ⟩
  obtain ⟨K', hg⟩ := hK.exists_glue hP hi hc.label_edge hk (fun p name hp y => hc.variable_free hp)
    (fun p i l q y z ho hl hy => hc.selector_free ho hl hy)
    (fun p p' i i' y l q q' ho ho' _ _ hy hy' => hc.outer_inj ho ho' hy hy')
  obtain ⟨x, nt', g, hx, -, -, hglues, hw'⟩ := hK.glue hP hi hg
  rw [← Int.ofNat.inj hx] at hglues
  exact ⟨K', _, nonterminalOf_eq hK.toSound hc.label_edge, hg, hw', hc.iso_restore hglues,
    fun y hy => HeapView.restore_of_not_absorbed hy⟩

theorem exists_isIsomorphism (ha : a.Sound) (hai : a.Idle) (hb : b.Sound) (hbi : b.Idle)
    (hφ : HeapView.Iso a.view b.view φ) : ∃ f, a.graph.IsIsomorphism b.graph f ∧
      ∀ v x lab, a.idOf v = some x → a.labelAt v = some lab → b.idOf (f v) = some (φ x) := by
  have hslot (v : Nat) (hv : v < a.graph.size) : ∃ w x lab, a.idOf v = some x ∧ a.labelAt v = some lab ∧
      b.idOf w = some (φ x) ∧ b.labelAt w = some lab := by
    rw [graph_size] at hv
    have hl := hai.labelAt hv
    obtain ⟨x, hx⟩ := idOf_of_labelAt hl
    obtain ⟨w, hw, hwl⟩ := hb.view_label.mp (hφ.label x _ (ha.view_label.mpr ⟨v, hx, hl⟩))
    exact ⟨w, x, _, hx, hl, hw, hwl⟩
  -- slots go along with the public IDs of their elements
  choose! f x lab hx hl hf hfl using hslot
  have hlab (v : Nat) (hv : v < a.graph.size) : a.view.label (x v) = some (lab v) :=
    ha.view_label.mpr ⟨v, hx v hv, hl v hv⟩
  have hlink (v w : Nat) (hv : v < a.graph.size) (hw : w < a.graph.size) (l : EdgeLabel) :
      b.Linked (f v) l (f w) ↔ a.Linked v l w := by
    rw [← hb.view_link_of_idOf (hf v hv) (hf w hw), ← ha.view_link_of_idOf (hx v hv) (hx w hw)]
    exact hφ.link _ _ _ _ l (hlab v hv) (hlab w hw)
  refine ⟨f, ⟨fun v hv => ?_, fun v hv w hw hvw => ?_, fun t ht => ?_, fun v hv => ?_, fun v hv => ?_,
    fun v hv w hw => ?_, fun v w hvw l => ?_⟩, fun v y lab hid hv => ?_⟩
  · exact lt_graph_size (hfl v hv)
  · have hid := hf v hv
    rw [hvw, hf w hw, Option.some.injEq] at hid
    have hxx := hφ.inj _ _ _ _ (hlab w hw) (hlab v hv) hid
    exact ha.id_inj v w _ (hx v hv) (hxx ▸ hx w hw)
  · rw [graph_size] at ht
    have htl := hbi.labelAt ht
    obtain ⟨z, hz⟩ := idOf_of_labelAt htl
    obtain ⟨y, hy, rfl⟩ := hφ.onto z _ (hb.view_label.mpr ⟨t, hz, htl⟩)
    obtain ⟨v, hvy, hvl⟩ := ha.view_label.mp hy
    have hv := lt_graph_size hvl
    refine ⟨v, hv, hb.id_inj _ _ _ (hf v hv) ?_⟩
    rw [hz, Option.some.inj ((hx v hv).symm.trans hvy)]
  · rw [graph_label (hfl v hv), graph_label (hl v hv)]
  · rw [graph_ordinal, graph_ordinal, ← hb.view_ordinal_of_idOf (hf v hv), ← ha.view_ordinal_of_idOf (hx v hv)]
    exact hφ.ordinal _ _ (hlab v hv)
  · rw [mem_graph_successors, mem_graph_successors, hb.joined_iff, ha.joined_iff]
    exact exists_congr fun l => hlink v w hv hw l
  · obtain ⟨hv, hw⟩ := ha.graph.successors_lt v w hvw
    rw [mem_graph_arcLabels hb, mem_graph_arcLabels ha]
    exact hlink v w hv hw l
  · rw [hf v (lt_graph_size hv), Option.some.inj ((hx v (lt_graph_size hv)).symm.trans hid)]

theorem isomorphic_of_iso (ha : a.Sound) (hai : a.Idle) (hb : b.Sound) (hbi : b.Idle)
    (hφ : HeapView.Iso a.view b.view φ) : a.Isomorphic b := by
  obtain ⟨f, hf, -⟩ := exists_isIsomorphism ha hai hb hbi hφ
  exact ⟨f, hf⟩

end Heap

end HeapAbstraction
