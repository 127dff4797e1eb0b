import HeapAbstraction.Proofs.FoldInvariance
import HeapAbstraction.Proofs.HeapState
import Mathlib.Data.Set.Card

namespace HeapAbstraction

theorem ncard_mem_list {α : Type} {l : List α} (hl : l.Nodup) : {a | a ∈ l}.ncard = l.length := by
  classical
  rw [← List.coe_toFinset, Set.ncard_coe_finset, List.toFinset_card_of_nodup hl]

theorem ncard_countP {α : Type} (l : List α) (q : α → Bool) :
    {i : Nat | ∃ a, l[i]? = some a ∧ q a = true}.ncard = l.countP q := by
  rw [← List.length_findIdxs (s := 0), ← ncard_mem_list List.nodup_findIdxs]
  congr 1
  ext i
  simp [List.getElem?_eq_some_iff]

namespace Heap

variable {h : Heap} {k : Kind}

def slotsOf (h : Heap) (k : Kind) : Set Nat := {v | ∃ lab, h.labelAt v = some lab ∧ lab.kind = k}

def innerOf (h : Heap) (k : Kind) : Set Nat := {v ∈ h.slotsOf k | h.ordinalAt v = none}

def selectorSlots (h : Heap) : Set (Nat × Bytes) := {c | ∃ w, h.Linked c.1 (.selector c.2) w}

theorem finite_slotsOf (h : Heap) (k : Kind) : (h.slotsOf k).Finite :=
  (Set.finite_Iio h.elements.length).subset fun _ ⟨_, hl, _⟩ => lt_of_labelAt hl

theorem ncard_slotsOf (h : Heap) (k : Kind) : (h.slotsOf k).ncard = h.countOf k := by
  rw [countOf, ← ncard_countP]
  congr 1
  ext v
  simp only [slotsOf, Set.mem_ofPred_eq, labelAt_eq_some, isLiveOf, Bool.and_eq_true, Bool.not_eq_true', beq_iff_eq,
    Element.kind]
  constructor
  · rintro ⟨lab, ⟨e, he, hr, rfl⟩, hk⟩
    exact ⟨e, he, hr, hk⟩
  · rintro ⟨e, he, hr, hk⟩
    exact ⟨_, ⟨e, he, hr, rfl⟩, hk⟩

theorem ncard_ordinals (h : Heap) : {v | (h.ordinalAt v).isSome}.ncard = h.externalCount := by
  rw [externalCount, ← ncard_countP]
  congr 1
  ext v
  cases he : h.elements[v]? <;> simp [ordinalAt, he]

theorem Sound.innerOf_edge (hs : h.Sound) (hk : k ≠ .node) : h.innerOf k = h.slotsOf k := by
  refine Set.sep_eq_self_iff_mem_true.mpr ?_
  rintro v ⟨lab, hl, rfl⟩
  exact hs.ordinalAt_eq_none (not_isNode_of_kind hl hk)

theorem Sound.ncard_innerOf_node (hs : h.Sound) : (h.innerOf .node).ncard + h.externalCount = h.countOf .node := by
  have hsub : {v | (h.ordinalAt v).isSome} ⊆ h.slotsOf .node := by
    intro v hv
    obtain ⟨i, hi⟩ := Option.isSome_iff_exists.mp hv
    obtain ⟨type, ht⟩ := hs.ordinal_node v i hi
    exact ⟨_, ht, rfl⟩
  have hdiff : h.innerOf .node = h.slotsOf .node \ {v | (h.ordinalAt v).isSome} := by
    ext v
    simp [innerOf]
  rw [← ncard_ordinals, ← ncard_slotsOf, hdiff, Set.ncard_sdiff_add_ncard_of_subset hsub (h.finite_slotsOf _)]

theorem length_selectors (hi : h.Idle) {image : List Int} : (⟨h, image⟩ : Matching).selectors.length = h.selectorCount := by
  have hlen (es : List Element) (hes : ∀ e ∈ es, e.removed = false) (k : Nat) :
      ((es.zipIdx k).flatMap (fun p => if p.1.kind = .node then p.1.selectorNames.map (fun s => (p.2, s)) else [])).length =
        ((es.filter (isLiveOf .node)).map (fun e => e.selectorNames.length)).sum := by
    induction es generalizing k with
    | nil => rfl
    | cons e es ih =>
      obtain ⟨hr, hrest⟩ := List.forall_mem_cons.mp hes
      rw [List.zipIdx_cons, List.flatMap_cons, List.length_append, ih hrest, List.filter_cons]
      by_cases hk : e.kind = .node <;> simp [isLiveOf, hr, hk]
  exact hlen h.elements hi 0

theorem WellFormed.selectorSlots_eq (hw : h.WellFormed) (hi : h.Idle) :
    h.selectorSlots = {c | c ∈ (⟨h, []⟩ : Matching).selectors} := by
  ext ⟨v, s⟩
  simp only [Set.mem_ofPred_eq, hw.mem_selectors hi, selectorSlots]
  refine (and_iff_right_of_imp ?_).symm
  rintro ⟨w, hl⟩
  obtain ⟨lab, hlab⟩ := hw.labelAt_of_joined hl.joined
  obtain ⟨x, hx⟩ := idOf_of_labelAt hlab
  obtain ⟨y, hy⟩ := hw.idOf_target hl
  obtain ⟨type, ht⟩ := (hw.toSound.wellFormed_iff.mp hw).selector_source hw.toSound.proper
    ((hw.toSound.view_link_of_idOf hx hy).mpr hl)
  exact ⟨type, hw.toSound.view_label_of_idOf hx ▸ ht⟩

theorem WellFormed.ncard_selectorSlots (hw : h.WellFormed) (hi : h.Idle) : h.selectorSlots.ncard = h.selectorCount := by
  rw [hw.selectorSlots_eq hi, ncard_mem_list (hw.selectors_nodup hi), length_selectors hi]

theorem WellFormed.finite_selectorSlots (hw : h.WellFormed) (hi : h.Idle) : h.selectorSlots.Finite := by
  rw [hw.selectorSlots_eq hi]
  exact List.finite_toSet _

end Heap

namespace HeapView

variable {P : Heap} {A B : HeapView} {X : Nat → Nat} {nt : Nonterminal} {k : Kind}

def ofKind (A : HeapView) (k : Kind) : Set Nat := {x | ∃ lab, A.label x = some lab ∧ lab.kind = k}

def selectors (A : HeapView) : Set (Nat × Bytes) := {c | ∃ y, A.link c.1 (.selector c.2) y}

theorem Proper.finite_ofKind (hA : A.Proper) (k : Kind) : (A.ofKind k).Finite :=
  (Set.finite_Iio A.nextId).subset fun x ⟨lab, hx, _⟩ => hA.label_lt x lab hx

theorem Embeds.bijOn_inner (hX : Embeds P A X) (k : Kind) :
    Set.BijOn X (P.innerOf k) {x ∈ A.ofKind k | Absorbed P X x} := by
  refine ⟨?_, ?_, ?_⟩
  · rintro p ⟨⟨lab, hp, hk⟩, ho⟩
    exact ⟨⟨lab, hX.label p lab hp, hk⟩, p, lab, hp, ho, rfl⟩
  · rintro p ⟨⟨lab, hp, -⟩, -⟩ q ⟨⟨lab', hq, -⟩, -⟩ hpq
    exact hX.inj p q lab lab' hp hq hpq
  · rintro x ⟨⟨lab, hx, hk⟩, p, lab', hp, ho, rfl⟩
    rw [hX.label p lab' hp] at hx
    cases hx
    exact ⟨p, ⟨⟨lab, hp, hk⟩, ho⟩, rfl⟩

theorem Folds.ofKind_eq (hf : Folds P A X nt B) (k : Kind) :
    B.ofKind k = {x | x = A.nextId ∧ k = .nonterminal} ∪ {x ∈ A.ofKind k | ¬ Absorbed P X x} := by
  ext x
  simp only [ofKind, hf.label, Set.mem_union, Set.mem_ofPred_eq]
  constructor
  · rintro ⟨lab, ⟨rfl, rfl⟩ | ⟨hx, hn⟩, rfl⟩
    · exact .inl ⟨rfl, rfl⟩
    · exact .inr ⟨⟨lab, hx, rfl⟩, hn⟩
  · rintro (⟨rfl, rfl⟩ | ⟨⟨lab, hx, hk⟩, hn⟩)
    · exact ⟨_, .inl ⟨rfl, rfl⟩, rfl⟩
    · exact ⟨lab, .inr ⟨hx, hn⟩, hk⟩

theorem Folds.ncard_ofKind (hf : Folds P A X nt B) (hX : Embeds P A X) (hA : A.Proper) (k : Kind) :
    (B.ofKind k).ncard + (P.innerOf k).ncard = (A.ofKind k).ncard + if k = .nonterminal then 1 else 0 := by
  have hfin := hA.finite_ofKind k
  have hkept : {x ∈ A.ofKind k | ¬ Absorbed P X x} = A.ofKind k \ {x ∈ A.ofKind k | Absorbed P X x} := by
    ext x
    simp +contextual
  have hsplit : {x ∈ A.ofKind k | ¬ Absorbed P X x}.ncard + (P.innerOf k).ncard = (A.ofKind k).ncard := by
    rw [(hX.bijOn_inner k).ncard_eq, hkept]
    exact Set.ncard_sdiff_add_ncard_of_subset (Set.sep_subset _ _) hfin
  rw [hf.ofKind_eq k]
  by_cases hk : k = .nonterminal
  · have hnew : A.nextId ∉ {x ∈ A.ofKind k | ¬ Absorbed P X x} := by
      rintro ⟨⟨lab, hx, -⟩, -⟩
      exact hA.ne_nextId hx rfl
    have hone : {x | x = A.nextId ∧ k = .nonterminal} = {A.nextId} := by simp [hk]
    rw [hone, Set.singleton_union, Set.ncard_insert_of_notMem hnew (hfin.subset (Set.sep_subset _ _)), if_pos hk]
    omega
  · have hnone : {x | x = A.nextId ∧ k = .nonterminal} = ∅ := by simp [hk]
    rw [hnone, Set.empty_union, if_neg hk, hsplit]
    rfl

theorem Folds.bijOn_selectors (hf : Folds P A X nt B) (hX : Embeds P A X) (hP : P.Sound) :
    Set.BijOn (Prod.map X id) P.selectorSlots (A.selectors \ B.selectors) := by
  refine ⟨?_, ?_, ?_⟩
  · rintro ⟨p, s⟩ ⟨q, hl⟩
    refine ⟨⟨X q, hX.link p _ q hl⟩, ?_⟩
    rintro ⟨y, hy⟩
    rcases (hf.link _ _ _).mp hy with ⟨-, hno, -⟩ | ⟨-, i, r, hi, -⟩
    · exact hno p q hl rfl
    · simp at hi
  · rintro ⟨p, s⟩ ⟨q, hl⟩ ⟨p', s'⟩ ⟨q', hl'⟩ heq
    obtain ⟨hpp, hss⟩ := Prod.mk.inj heq
    obtain ⟨lab, hp⟩ := hP.labelAt_of_joined hl.joined
    obtain ⟨lab', hp'⟩ := hP.labelAt_of_joined hl'.joined
    exact Prod.ext (hX.inj p p' lab lab' hp hp' hpp) hss
  · rintro ⟨x, s⟩ ⟨⟨y, hy⟩, hno⟩
    -- an arc that the fold took away is an arc of the pattern
    by_contra hpat
    have hout (p q : Nat) (hl : P.Linked p (.selector s) q) : X p ≠ x := by
      rintro rfl
      exact hpat ⟨(p, s), ⟨q, hl⟩, rfl⟩
    refine hno ⟨y, (hf.link _ _ _).mpr (.inl ⟨hy, hout, ?_, ?_⟩)⟩
    · rintro ⟨p, lab, hp, ho, rfl⟩
      obtain ⟨q, hl, -⟩ := hX.inner_out p lab _ y hp ho hy
      exact hout p q hl rfl
    · rintro ⟨q, lab, hq, ho, rfl⟩
      obtain ⟨p, hl, hp⟩ := hX.inner_in q lab _ x hq ho hy
      exact hout p q hl hp

theorem Folds.ncard_selectors (hf : Folds P A X nt B) (hX : Embeds P A X) (hP : P.Sound) (hfin : A.selectors.Finite) :
    B.selectors.ncard + P.selectorSlots.ncard = A.selectors.ncard := by
  have hsub : B.selectors ⊆ A.selectors := by
    rintro ⟨x, s⟩ ⟨y, hy⟩
    rcases (hf.link _ _ _).mp hy with ⟨hA, -⟩ | ⟨-, i, r, hi, -⟩
    · exact ⟨y, hA⟩
    · simp at hi
  rw [(hf.bijOn_selectors hX hP).ncard_eq, Nat.add_comm]
  exact Set.ncard_sdiff_add_ncard_of_subset hsub hfin

end HeapView

namespace Heap

variable {h h' P : Heap} {k : Kind} {X : Nat → Nat} {nt : Nonterminal}

theorem Sound.bijOn_ofKind (hs : h.Sound) (k : Kind) : Set.BijOn (h.imageId id) (h.slotsOf k) (h.view.ofKind k) := by
  have hid {v : Nat} {lab : Label} (hl : h.labelAt v = some lab) : h.idOf v = some (h.imageId id v) := by
    obtain ⟨x, hx⟩ := idOf_of_labelAt hl
    simp [imageId, hx]
  refine ⟨?_, ?_, ?_⟩
  · rintro v ⟨lab, hl, hk⟩
    exact ⟨lab, hs.view_label.mpr ⟨v, hid hl, hl⟩, hk⟩
  · rintro v ⟨lab, hl, -⟩ w ⟨lab', hl', -⟩ hvw
    exact hs.id_inj v w _ (hid hl) (hvw ▸ hid hl')
  · rintro x ⟨lab, hx, hk⟩
    obtain ⟨v, hv, hl⟩ := hs.view_label.mp hx
    exact ⟨v, ⟨lab, hl, hk⟩, Option.some.inj ((hid hl).symm.trans hv)⟩

theorem Sound.bijOn_selectors (hs : h.Sound) :
    Set.BijOn (Prod.map (h.imageId id) id) h.selectorSlots h.view.selectors := by
  have hid {v w : Nat} {s : Bytes} (hl : h.Linked v (.selector s) w) : h.idOf v = some (h.imageId id v) := by
    obtain ⟨x, hx⟩ := hs.idOf_source hl
    simp [imageId, hx]
  refine ⟨?_, ?_, ?_⟩
  · rintro ⟨v, s⟩ ⟨w, hl⟩
    exact (hs.exists_view_link (hid hl)).mpr ⟨w, hl⟩
  · rintro ⟨v, s⟩ ⟨w, hl⟩ ⟨v', s'⟩ ⟨w', hl'⟩ heq
    obtain ⟨hvv, hss⟩ := Prod.mk.inj heq
    exact Prod.ext (hs.id_inj v v' _ (hid hl) (hvv ▸ hid hl')) hss
  · rintro ⟨x, s⟩ ⟨y, v, w, hv, hw, hl⟩
    exact ⟨(v, s), ⟨w, hl⟩, Prod.ext (Option.some.inj ((hid hl).symm.trans hv)) rfl⟩

theorem weight_folds (hf : HeapView.Folds P h.view X nt h'.view) (hX : HeapView.Embeds P h.view X) (hP : P.WellFormed)
    (hPi : P.Idle) (hw : h.WellFormed) (hi : h.Idle) (hw' : h'.WellFormed) (hi' : h'.Idle) :
    h'.weight + P.weight = h.weight + 2 * P.externalCount + 1 := by
  have hcount (k : Kind) : h'.countOf k + (P.innerOf k).ncard = h.countOf k + if k = .nonterminal then 1 else 0 := by
    have := hf.ncard_ofKind hX hw.toSound.proper k
    rwa [← (hw.toSound.bijOn_ofKind k).ncard_eq, ← (hw'.toSound.bijOn_ofKind k).ncard_eq, ncard_slotsOf,
      ncard_slotsOf] at this
  have hsel : h'.selectorCount + P.selectorCount = h.selectorCount := by
    have hfin := hw.toSound.bijOn_selectors.finite_iff_finite.mp (hw.finite_selectorSlots hi)
    have := hf.ncard_selectors hX hP.toSound hfin
    rwa [← hw.toSound.bijOn_selectors.ncard_eq, ← hw'.toSound.bijOn_selectors.ncard_eq, hw.ncard_selectorSlots hi,
      hw'.ncard_selectorSlots hi', hP.ncard_selectorSlots hPi] at this
  have hnode := hcount .node
  have hinner := hP.toSound.ncard_innerOf_node
  have hedge := hcount .nonterminal
  have hvar := hcount .variable
  rw [hP.toSound.innerOf_edge (by simp), ncard_slotsOf] at hedge hvar
  simp only [reduceCtorEq, ↓reduceIte, Nat.add_zero] at hnode hedge hvar
  simp only [weight, edgeCount]
  omega

end Heap

theorem IsRule.weight_ge {nt : Nonterminal} {rule : Heap} (hr : IsRule nt rule) :
    2 * rule.externalCount + 2 ≤ rule.weight := by
  have hc := hr.check
  have hinner := hr.wellFormed.toSound.ncard_innerOf_node
  rw [checkRule] at hc
  split at hc
  · simp at hc
  · split at hc
    · simp at hc
    · rename_i hshrinks
      rw [Heap.weight]
      omega

theorem Grammar.FoldStep.weight_lt {g : Grammar} {opts : Options} {h h' : Heap} (hs : g.FoldStep opts h h')
    (hg : g.Sound) (hw : h.WellFormed) (hi : h.Idle) : h'.weight < h.weight := by
  obtain ⟨nt, rule, f, hr, hf, hfolds, hw', hi'⟩ := hs.folds hg hw hi
  have hrule := hg nt rule hr
  have hX := Heap.embeds_of_isEmbedding hf hrule.wellFormed.toSound hw.toSound hi
  have hsum := Heap.weight_folds hfolds hX hrule.wellFormed hrule.idle hw hi hw' hi'
  have hge := hrule.weight_ge
  omega

end HeapAbstraction
