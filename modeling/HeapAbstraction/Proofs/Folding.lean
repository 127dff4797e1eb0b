import HeapAbstraction.Proofs.Gluing

namespace HeapAbstraction

namespace HeapView

-- the elements of `P` stand in `A` at the public IDs that `X` gives: its inner elements with all their arcs, its
-- external nodes with possibly more
structure Embeds (P : Heap) (A : HeapView) (X : Nat → Nat) : Prop where
  label : ∀ p lab, P.labelAt p = some lab → A.label (X p) = some lab
  inj : ∀ p q lab lab', P.labelAt p = some lab → P.labelAt q = some lab' → X p = X q → p = q
  link : ∀ p l q, P.Linked p l q → A.link (X p) l (X q)
  inner : ∀ p lab, P.labelAt p = some lab → P.ordinalAt p = none → A.ordinal (X p) = none
  inner_out : ∀ p lab l y, P.labelAt p = some lab → P.ordinalAt p = none → A.link (X p) l y →
    ∃ q, P.Linked p l q ∧ X q = y
  inner_in : ∀ p lab l y, P.labelAt p = some lab → P.ordinalAt p = none → A.link y l (X p) →
    ∃ q, P.Linked q l p ∧ X q = y

-- the elements of `P` have images of the same kind in `A`, at the public IDs that `X` gives. The inner ones are apart
-- from all others and have all their arcs. External nodes may share an image, but no selector of it
structure Placed (P : Heap) (A : HeapView) (X : Nat → Nat) : Prop where
  kind : ∀ p lab, P.labelAt p = some lab → (A.label (X p)).map Label.kind = some lab.kind
  apart : ∀ p q lab lab', P.labelAt p = some lab → P.labelAt q = some lab' → P.ordinalAt p = none → X p = X q → p = q
  link : ∀ p l q, P.Linked p l q → A.link (X p) l (X q)
  link_apart : ∀ p p' l q q', P.Linked p l q → P.Linked p' l q' → X p = X p' → p = p'
  inner : ∀ p lab, P.labelAt p = some lab → P.ordinalAt p = none → A.ordinal (X p) = none
  inner_in : ∀ p lab l y, P.labelAt p = some lab → P.ordinalAt p = none → A.link y l (X p) →
    ∃ q, P.Linked q l p ∧ X q = y

theorem Embeds.placed {P : Heap} {A : HeapView} {X : Nat → Nat} (hX : Embeds P A X) (hP : P.Sound) : Placed P A X where
  kind p lab hl := by rw [hX.label p lab hl, Option.map_some]
  apart p q lab lab' hl hl' _ hpq := hX.inj p q lab lab' hl hl' hpq
  link := hX.link
  link_apart p p' l q q' hpq hpq' hx := by
    obtain ⟨lab, hl⟩ := hP.labelAt_of_joined hpq.joined
    obtain ⟨lab', hl'⟩ := hP.labelAt_of_joined hpq'.joined
    exact hX.inj p p' lab lab' hl hl' hx
  inner := hX.inner
  inner_in := hX.inner_in

def Absorbed (P : Heap) (X : Nat → Nat) (x : Nat) : Prop :=
  ∃ p lab, P.labelAt p = some lab ∧ P.ordinalAt p = none ∧ X p = x

theorem Placed.not_absorbed {P : Heap} {A : HeapView} {X : Nat → Nat} {p i : Nat} (hX : Placed P A X) (hP : P.Sound)
    (ho : P.ordinalAt p = some i) : ¬ Absorbed P X (X p) := by
  rintro ⟨q, lab, hq, hqo, hpq⟩
  obtain ⟨type, ht⟩ := hP.ordinal_node p i ho
  rw [hX.apart q p _ _ hq ht hqo hpq, ho] at hqo
  simp at hqo

theorem Embeds.not_absorbed {P : Heap} {A : HeapView} {X : Nat → Nat} {p i : Nat} (hX : Embeds P A X) (hP : P.Sound)
    (ho : P.ordinalAt p = some i) : ¬ Absorbed P X (X p) := (hX.placed hP).not_absorbed hP ho

theorem Placed.exists_node {P : Heap} {A : HeapView} {X : Nat → Nat} {p : Nat} (hX : Placed P A X) (hp : P.IsNode p) :
    ∃ type, A.label (X p) = some (.node type) := by
  obtain ⟨type, ht⟩ := hp
  obtain ⟨lab, hl, hk⟩ := Option.map_eq_some_iff.mp (hX.kind p _ ht)
  cases lab with
  | node type' => exact ⟨type', hl⟩
  | nonterminal nt => cases hk
  | «variable» name => cases hk

structure Folds (P : Heap) (A : HeapView) (X : Nat → Nat) (nt : Nonterminal) (B : HeapView) : Prop where
  nextId : B.nextId = A.nextId + 1
  label : ∀ y lab, B.label y = some lab ↔
    (y = A.nextId ∧ lab = .nonterminal nt) ∨ (A.label y = some lab ∧ ¬ Absorbed P X y)
  ordinal : B.ordinal = A.ordinal
  link : ∀ a l b, B.link a l b ↔
    (A.link a l b ∧ (∀ p q, P.Linked p l q → X p ≠ a) ∧ ¬ Absorbed P X a ∧ ¬ Absorbed P X b) ∨
      (a = A.nextId ∧ ∃ i p, l = .tentacle i ∧ P.ordinalAt p = some i ∧ X p = b)

namespace Folds

variable {P : Heap} {A B : HeapView} {X : Nat → Nat} {nt : Nonterminal}

theorem link_edge (hf : Folds P A X nt B) (hX : Placed P A X) (hP : P.WellFormed) (hp : A.Proper) {y b : Nat}
    {lab : Label} {l : EdgeLabel} (hy : A.label y = some lab) (hn : ¬ ∃ type, lab = .node type)
    (hab : ¬ Absorbed P X y) : B.link y l b ↔ A.link y l b := by
  have hedge (p : Nat) (lab' : Label) (hl : P.labelAt p = some lab') : X p ≠ y := by
    intro hpy
    cases ho : P.ordinalAt p with
    | none => exact hab ⟨p, lab', hl, ho, hpy⟩
    | some i =>
      obtain ⟨type, htype⟩ := hX.exists_node (hP.ordinal_node p i ho)
      rw [hpy, hy] at htype
      exact hn ⟨type, Option.some.inj htype⟩
  rw [hf.link]
  constructor
  · rintro (⟨hl, -⟩ | ⟨rfl, -⟩)
    · exact hl
    · simp [hp.label_nextId] at hy
  · intro hl
    refine .inl ⟨hl, fun p q hpq => ?_, hab, ?_⟩
    · obtain ⟨lab', hl'⟩ := hP.labelAt_of_joined hpq.joined
      exact hedge p lab' hl'
    · rintro ⟨q, labq, hlq, hoq, rfl⟩
      obtain ⟨p, hpq, hpy⟩ := hX.inner_in q labq l y hlq hoq hl
      obtain ⟨lab', hl'⟩ := hP.labelAt_of_joined hpq.joined
      exact hedge p lab' hl' hpy

theorem typed (hf : Folds P A X nt B) (hX : Placed P A X) (hP : P.WellFormed) (hp : A.Proper) (ht : A.Typed)
    (hk : nt.rank = P.externalCount) : B.Typed := by
  refine ⟨fun y lab hy => ?_, fun y z name hy hz => ?_⟩
  · rcases (hf.label y lab).mp hy with ⟨rfl, rfl⟩ | ⟨hA, hab⟩
    · refine ⟨P.externalCount, hk, fun l => ?_⟩
      constructor
      · rintro ⟨b, hb⟩
        rcases (hf.link _ l b).mp hb with ⟨hlk, -⟩ | ⟨-, i, p, rfl, ho, -⟩
        · exact absurd hlk hp.not_link_nextId
        · exact ⟨i, hP.exists_ordinal.mp ⟨p, ho⟩, rfl⟩
      · rintro ⟨i, hi, rfl⟩
        obtain ⟨p, ho⟩ := hP.exists_ordinal.mpr hi
        exact ⟨X p, (hf.link _ _ _).mpr (.inr ⟨rfl, i, p, rfl, ho, rfl⟩)⟩
    · have hfit := ht.fits y lab hA
      have hne : y ≠ A.nextId := fun hx => by simp [hx, hp.label_nextId] at hA
      by_cases hn : ∃ type, lab = .node type
      · obtain ⟨type, rfl⟩ := hn
        rintro l ⟨b, hb⟩
        rcases (hf.link y l b).mp hb with ⟨hlk, -⟩ | ⟨hx, -⟩
        · exact hfit l ⟨b, hlk⟩
        · exact absurd hx hne
      · exact hfit.congr fun l => exists_congr fun b => (hf.link_edge hX hP hp hA hn hab).symm
  · have hold (w : Nat) (hw : B.label w = some (.variable name)) : A.label w = some (.variable name) := by
      rcases (hf.label w _).mp hw with ⟨-, hx⟩ | ⟨hA, -⟩
      · simp at hx
      · exact hA
    exact ht.variable_inj y z name (hold y hy) (hold z hz)

end Folds

def dropLinks (A : HeapView) (D : Nat → EdgeLabel → Prop) : HeapView :=
  { A with link := fun a l b => A.link a l b ∧ ¬ D a l }

end HeapView

namespace Heap

variable {h h' P : Heap} {m : Matching} {X : Nat → Nat} {p v x : Nat} {e : Element} {lab : Label} {l : EdgeLabel}

theorem selector_name (hl : l.isSelector = true) : .selector l.name = l := by
  cases l with
  | selector s => rfl
  | tentacle i => simp [EdgeLabel.isSelector] at hl

theorem imageOf_eq (hs : h.Sound) (he : m.pattern.elements[p]? = some e) (hi : m.image[p]? = some (x : Int))
    (hid : h.idOf v = some x) (hl : h.labelAt v = some lab) (hk : lab.kind = e.kind) : m.imageOf h p = .ok v := by
  obtain ⟨f, hf, hr, rfl⟩ := labelAt_eq_some.mp hl
  have := find_eq hs hid hf hr
  rw [hk] at this
  simp [Matching.imageOf, he, hi, this, Functor.map, Except.map]

theorem Sound.removeSelectorAt (hs : h.Sound) {s : Bytes} {t : Nat} (hl : h.Linked v (.selector s) t) :
    ∃ h', h.removeSelectorAt v s = .ok h' ∧ h'.Sound ∧ SameFaces h h' ∧
      ∀ u m w, h'.Linked u m w ↔ h.Linked u m w ∧ ¬ (u = v ∧ m = .selector s) := by
  obtain ⟨h', hu, hrest⟩ := hs.unlink hl
  obtain ⟨lab, hlab⟩ := hs.labelAt_of_joined hl.joined
  obtain ⟨e, he, -, -⟩ := labelAt_eq_some.mp hlab
  have ht : e.targetOf? (.selector s) = some t := by
    have htidy := hs.tidy v
    rw [Linked, out_eq he] at hl
    rw [out_eq he] at htidy
    exact (Element.targetOf?_eq_some htidy).mpr hl
  exact ⟨h', by simp [Heap.removeSelectorAt, he, ht, hu], hrest⟩

theorem removeImageSelectors_ok {sels : List (Nat × Bytes)} (hs : h.Sound)
    (hk : ∀ p s, (p, s) ∈ sels → ∃ e : Element, m.pattern.elements[p]? = some e ∧ m.image[p]? = some (X p : Int) ∧
      (h.view.label (X p)).map Label.kind = some e.kind ∧ ∃ y, h.view.link (X p) (.selector s) y)
    (hp : sels.Pairwise (fun a b => ¬ (X a.1 = X b.1 ∧ a.2 = b.2))) :
    ∃ h', removeImageSelectors m h sels = .ok h' ∧ h'.Sound ∧
      h'.view = h.view.dropLinks (fun a l => ∃ p s, (p, s) ∈ sels ∧ X p = a ∧ l = .selector s) := by
  induction sels generalizing h with
  | nil => exact ⟨h, rfl, hs, by simp [HeapView.dropLinks]⟩
  | cons k sels ih =>
    obtain ⟨p, s⟩ := k
    rw [List.pairwise_cons] at hp
    obtain ⟨e, he, hi, hl, y, hy⟩ := hk p s List.mem_cons_self
    obtain ⟨lab, hl, hkind⟩ := Option.map_eq_some_iff.mp hl
    obtain ⟨v, hid, hlv⟩ := hs.view_label.mp hl
    obtain ⟨t, ht⟩ := (hs.exists_view_link hid).mp ⟨y, hy⟩
    obtain ⟨h1, hr1, hs1, hf1, hl1⟩ := hs.removeSelectorAt ht
    have hv1 := hf1.view_dropLink hs hs1 hid hl1
    obtain ⟨h2, hr2, hs2, hv2⟩ := ih hs1 (fun p' s' hm => by
      obtain ⟨e', he', hi', hl', y', hy'⟩ := hk p' s' (List.mem_cons_of_mem _ hm)
      refine ⟨e', he', hi', by rw [hv1]; exact hl', y', ?_⟩
      rw [hv1]
      refine ⟨hy', fun hx => hp.1 _ hm ⟨hx.1.symm, ?_⟩⟩
      exact (EdgeLabel.selector.inj hx.2).symm) hp.2
    refine ⟨h2, ?_, hs2, ?_⟩
    · simp [removeImageSelectors, imageOf_eq hs he hi hid hlv hkind, hr1, hr2, orAbort, bind, Except.bind]
    · rw [hv2, hv1]
      simp only [HeapView.dropLinks, HeapView.dropLink, HeapView.mk.injEq, true_and]
      funext a l b
      simp only [eq_iff_iff, List.mem_cons, Prod.mk.injEq]
      constructor
      · rintro ⟨⟨hab, hne⟩, hrest⟩
        refine ⟨hab, ?_⟩
        rintro ⟨p', s', ⟨rfl, rfl⟩ | hm, hx, hls⟩
        · exact hne ⟨hx.symm, hls⟩
        · exact hrest ⟨p', s', hm, hx, hls⟩
      · rintro ⟨hab, hrest⟩
        refine ⟨⟨hab, fun hx => hrest ⟨p, s, .inl ⟨rfl, rfl⟩, hx.1.symm, hx.2⟩⟩, ?_⟩
        rintro ⟨p', s', hm, hx⟩
        exact hrest ⟨p', s', .inr hm, hx⟩

theorem removeImages_ok {ps : List Nat} (hs : h.Sound)
    (hk : ∀ p ∈ ps, ∃ e : Element, m.pattern.elements[p]? = some e ∧ m.image[p]? = some (X p : Int) ∧
      (h.view.label (X p)).map Label.kind = some e.kind ∧ h.view.ordinal (X p) = none)
    (hp : ps.Pairwise (fun p q => X p ≠ X q)) :
    ∃ h', removeImages m h ps = .ok h' ∧ h'.Sound ∧ h'.idOf = h.idOf ∧ h'.nextId = h.nextId ∧
      (∀ y lab, h'.view.label y = some lab ↔ h.view.label y = some lab ∧ ¬ ∃ p ∈ ps, X p = y) ∧
      h'.view.ordinal = h.view.ordinal ∧
      ∀ a l b, h'.view.link a l b ↔ h.view.link a l b ∧ (¬ ∃ p ∈ ps, X p = a) ∧ ¬ ∃ p ∈ ps, X p = b := by
  induction ps generalizing h with
  | nil => exact ⟨h, rfl, hs, rfl, rfl, by simp, rfl, by simp⟩
  | cons p ps ih =>
    rw [List.pairwise_cons] at hp
    obtain ⟨e, he, hi, hl, ho⟩ := hk p List.mem_cons_self
    obtain ⟨lab, hl, hkind⟩ := Option.map_eq_some_iff.mp hl
    obtain ⟨v, hid, hlv⟩ := hs.view_label.mp hl
    obtain ⟨h1, hr1, hrem⟩ := hs.removeAt hlv
    have hv1 := hrem.view hs hid
    have hord1 : h1.view.ordinal = h.view.ordinal := by
      rw [hv1]
      simp [HeapView.delete, ho]
    obtain ⟨h2, hr2, hs2, hid2, hn2, hl2, ho2, hk2⟩ := ih hrem.sound (fun q hq => by
      obtain ⟨f, hf, hiq, hlq, hoq⟩ := hk q (List.mem_cons_of_mem _ hq)
      refine ⟨f, hf, hiq, ?_, by rw [hord1]; exact hoq⟩
      rw [hv1, HeapView.label_delete_of_ne _ (hp.1 q hq).symm]
      exact hlq) hp.2
    have hcons (z : Nat) : (∃ q ∈ p :: ps, X q = z) ↔ z = X p ∨ ∃ q ∈ ps, X q = z := by simp [eq_comm]
    refine ⟨h2, ?_, hs2, hid2.trans hrem.idOf, hn2.trans hrem.nextId, fun y lab => ?_, ho2.trans hord1, fun a l b => ?_⟩
    · simp [removeImages, imageOf_eq hs he hi hid hlv hkind, hr1, hr2, orAbort, bind, Except.bind]
    · rw [hl2, hv1, hcons]
      by_cases hy : y = X p
      · subst hy
        simp
      · simp [HeapView.label_delete_of_ne _ hy, hy]
    · rw [hk2, hv1, hcons, hcons, not_or, not_or]
      constructor
      · rintro ⟨⟨hab, ha, hb⟩, ha', hb'⟩
        exact ⟨hab, ⟨ha, ha'⟩, hb, hb'⟩
      · rintro ⟨hab, ⟨ha, ha'⟩, hb, hb'⟩
        exact ⟨⟨hab, ha, hb⟩, ha', hb'⟩

theorem WellFormed.mem_selectorNames (hP : P.WellFormed) {e : Element} (he : P.elements[p]? = some e) (hn : P.IsNode p)
    {s : Bytes} : s ∈ e.selectorNames ↔ ∃ q, P.Linked p (.selector s) q := by
  simp only [Element.selectorNames, List.mem_flatMap, List.mem_map, Linked, out_eq he]
  constructor
  · rintro ⟨a, ha, l, hl, rfl⟩
    have hlk : P.Linked p l a.target := by
      rw [Linked, out_eq he]
      exact ⟨a, ha, rfl, hl⟩
    rw [selector_name (hP.isSelector hn hlk)]
    exact ⟨a.target, a, ha, rfl, hl⟩
  · rintro ⟨q, a, ha, -, hl⟩
    exact ⟨a, ha, .selector s, hl, rfl⟩

theorem WellFormed.selectorNames_nodup (hP : P.WellFormed) {e : Element} (he : P.elements[p]? = some e)
    (hn : P.IsNode p) : e.selectorNames.Nodup := by
  have hnames : e.selectorNames = (e.arcs.flatMap Arc.labels).map EdgeLabel.name := by
    simp [Element.selectorNames, List.map_flatMap]
  have hsel (l : EdgeLabel) (hl : l ∈ e.arcs.flatMap Arc.labels) : .selector l.name = l := by
    obtain ⟨q, hq⟩ := Arc.mem_flatMap_labels.mp hl
    rw [← out_eq he] at hq
    exact selector_name (hP.isSelector hn hq)
  rw [hnames]
  refine List.Nodup.map_on (fun l hl l' hl' hll => ?_) (out_eq he ▸ (hP.tidy p).labels)
  rw [← hsel l hl, ← hsel l' hl', hll]

theorem WellFormed.mem_selectors (hP : P.WellFormed) (hi : P.Idle) {s : Bytes} {image : List Int} :
    (p, s) ∈ (⟨P, image⟩ : Matching).selectors ↔ P.IsNode p ∧ ∃ q, P.Linked p (.selector s) q := by
  simp only [Matching.selectors, List.mem_flatMap, Prod.exists, List.mk_mem_zipIdx_iff_getElem?]
  constructor
  · rintro ⟨e, v, he, hm⟩
    split at hm
    · rename_i hk
      obtain ⟨s', hs', hx⟩ := List.mem_map.mp hm
      obtain ⟨rfl, rfl⟩ := Prod.mk.inj hx
      have hn : P.IsNode v := isNode_of_kind (labelAt_of_live he (hi e (List.mem_of_getElem? he))) hk
      exact ⟨hn, (hP.mem_selectorNames he hn).mp hs'⟩
    · simp at hm
  · rintro ⟨hn, hl⟩
    obtain ⟨type, ht⟩ := hn
    obtain ⟨e, he, -, hlab⟩ := labelAt_eq_some.mp ht
    refine ⟨e, p, he, ?_⟩
    rw [if_pos (by rw [Element.kind, hlab]; rfl)]
    exact List.mem_map.mpr ⟨s, (hP.mem_selectorNames he ⟨type, ht⟩).mpr hl, rfl⟩

theorem WellFormed.selectors_nodup (hP : P.WellFormed) (hi : P.Idle) {image : List Int} :
    (⟨P, image⟩ : Matching).selectors.Nodup := by
  rw [Matching.selectors, List.Nodup, List.pairwise_flatMap]
  constructor
  · rintro ⟨e, v⟩ hm
    rw [List.mk_mem_zipIdx_iff_getElem?] at hm
    split
    · rename_i hk
      have hn : P.IsNode v := isNode_of_kind (labelAt_of_live hm (hi e (List.mem_of_getElem? hm))) hk
      exact List.Nodup.map (fun _ _ hx => (Prod.mk.inj hx).2) (hP.selectorNames_nodup hm hn)
    · exact List.nodup_nil
  · refine (List.pairwise_map.mp (nodup_zipIdx_snd P.elements)).imp fun {a b} hne j hj k hk hjk => hne ?_
    have hfst (c : Element × Nat) (j : Nat × Bytes)
        (hj : j ∈ if c.1.kind = .node then c.1.selectorNames.map (fun s => (c.2, s)) else []) : j.1 = c.2 := by
      split at hj
      · obtain ⟨s, -, rfl⟩ := List.mem_map.mp hj
        rfl
      · simp at hj
    rw [← hfst a j hj, ← hfst b k hk, hjk]

theorem mem_absorbed (hi : P.Idle) {image : List Int} :
    p ∈ (⟨P, image⟩ : Matching).absorbed ↔ ∃ lab, P.labelAt p = some lab ∧ P.ordinalAt p = none := by
  have hmem : p ∈ (⟨P, image⟩ : Matching).absorbed ↔ ∃ e, P.elements[p]? = some e ∧ e.ordinal = none := by
    simp only [Matching.absorbed, List.mem_map, List.mem_append, List.mem_filter, Prod.exists, exists_eq_right,
      List.mk_mem_zipIdx_iff_getElem?, Option.isNone_iff_eq_none, bne_iff_ne, beq_iff_eq]
    refine exists_congr fun e => ?_
    by_cases hk : e.kind = .node <;> simp [hk]
  rw [hmem]
  constructor
  · rintro ⟨e, he, ho⟩
    exact ⟨e.label, labelAt_of_live he (hi e (List.mem_of_getElem? he)), by simp [ordinalAt, he, ho]⟩
  · rintro ⟨lab, hl, ho⟩
    obtain ⟨e, he, ho, -⟩ := exists_inner hl ho
    exact ⟨e, he, ho⟩

theorem absorbed_nodup {image : List Int} : (⟨P, image⟩ : Matching).absorbed.Nodup := by
  have hperm := List.filter_append_perm (fun p : Element × Nat => p.1.kind != .node)
    (P.elements.zipIdx.filter (fun p => p.1.ordinal.isNone))
  simp only [bne, Bool.not_not] at hperm
  refine ((hperm.map Prod.snd).nodup_iff.mpr ?_)
  exact (nodup_zipIdx_snd P.elements).sublist (List.filter_sublist.map _)

theorem mapM_forall₂ {ε α β : Type} {f : α → Except ε β} {Q : α → β → Prop} {as : List α}
    (h : ∀ a ∈ as, ∃ b, f a = .ok b ∧ Q a b) : ∃ bs, as.mapM f = .ok bs ∧ List.Forall₂ Q as bs := by
  induction as with
  | nil => exact ⟨[], rfl, .nil⟩
  | cons a as ih =>
    obtain ⟨b, hb, hq⟩ := h a List.mem_cons_self
    obtain ⟨bs, hbs, hqs⟩ := ih fun a' ha' => h a' (List.mem_cons_of_mem _ ha')
    refine ⟨b :: bs, ?_, .cons hq hqs⟩
    rw [List.mapM_cons, hb, hbs]
    rfl

theorem map_eq_of_forall₂ {f : Nat → Option Nat} {ps vs : List Nat}
    (h : List.Forall₂ (fun p v => f v = some (X p)) ps vs) : vs.map f = (ps.map X).map some := by
  induction h with
  | nil => rfl
  | cons hpv _ ih => rw [List.map_cons, hpv, ih, List.map_cons, List.map_cons]

theorem Sound.externalSlot?_eq_some (hs : P.Sound) {i : Nat} : P.externalSlot? i = some p ↔ P.ordinalAt p = some i := by
  have hat (q : Nat) : (∃ e, P.elements[q]? = some e ∧ (e.ordinal == some i) = true) ↔ P.ordinalAt q = some i := by
    simp [ordinalAt, Option.bind_eq_some_iff]
  rw [externalSlot?, List.findIdx?_eq_some_iff_getElem, ← hat]
  constructor
  · rintro ⟨hp, hpi, -⟩
    exact ⟨_, List.getElem?_eq_getElem hp, hpi⟩
  · rintro ⟨e, he, hei⟩
    obtain ⟨hp, rfl⟩ := List.getElem?_eq_some_iff.mp he
    refine ⟨hp, hei, fun q hq hqi => ?_⟩
    have := hs.ordinal_inj q p i ((hat q).mp ⟨_, List.getElem?_eq_getElem (hq.trans hp), hqi⟩) ((hat p).mp ⟨_, he, hei⟩)
    omega

theorem Sound.getElem?_externals (hs : P.Sound) {i : Nat} : P.externals[i]? = some p ↔ P.ordinalAt p = some i := by
  have hmap : P.externals = (List.range P.externalCount).map (fun i => (P.externalSlot? i).getD 0) := by
    rw [externals, ← List.filterMap_eq_map]
    refine List.filterMap_congr fun j hj => ?_
    obtain ⟨q, hq⟩ := hs.exists_ordinal.mpr (List.mem_range.mp hj)
    simp [hs.externalSlot?_eq_some.mpr hq]
  rw [hmap, List.getElem?_map, Option.map_eq_some_iff]
  constructor
  · rintro ⟨j, hj, rfl⟩
    obtain ⟨hlt, rfl⟩ := List.getElem?_eq_some_iff.mp hj
    rw [List.length_range] at hlt
    obtain ⟨q, hq⟩ := hs.exists_ordinal.mpr hlt
    rw [List.getElem_range, hs.externalSlot?_eq_some.mpr hq]
    exact hq
  · intro ho
    have hlt := hs.exists_ordinal.mp ⟨p, ho⟩
    exact ⟨i, by simp [hlt], by rw [hs.externalSlot?_eq_some.mpr ho]; rfl⟩

section

variable {image : List Int}

theorem WellFormed.strip (hP : P.WellFormed) (hi : P.Idle) (hs : h.Sound) (hX : HeapView.Placed P h.view X)
    (himg : ∀ p < P.elements.length, image[p]? = some (X p : Int)) :
    ∃ h', removeImageSelectors ⟨P, image⟩ h (⟨P, image⟩ : Matching).selectors = .ok h' ∧ h'.Sound ∧
      h'.nextId = h.nextId ∧ h'.view.label = h.view.label ∧ h'.view.ordinal = h.view.ordinal ∧
      ∀ a l b, h'.view.link a l b ↔ h.view.link a l b ∧ ¬ ∃ p q, P.IsNode p ∧ P.Linked p l q ∧ X p = a := by
  have hkeys : ∀ p s, (p, s) ∈ (⟨P, image⟩ : Matching).selectors → ∃ e : Element, P.elements[p]? = some e ∧
      image[p]? = some (X p : Int) ∧ (h.view.label (X p)).map Label.kind = some e.kind ∧
        ∃ y, h.view.link (X p) (.selector s) y := by
    intro p s hm
    obtain ⟨⟨type, ht⟩, q, hq⟩ := (hP.mem_selectors hi).mp hm
    obtain ⟨e, he, -, hlab⟩ := labelAt_eq_some.mp ht
    exact ⟨e, he, himg p (lt_of_labelAt ht), by rw [hX.kind p _ ht, Element.kind, hlab], X q, hX.link p _ q hq⟩
  have hpair : (⟨P, image⟩ : Matching).selectors.Pairwise (fun a b => ¬ (X a.1 = X b.1 ∧ a.2 = b.2)) := by
    refine (hP.selectors_nodup hi).imp_of_mem ?_
    rintro ⟨p, s⟩ ⟨q, t⟩ hm hm' hne ⟨hpq, rfl⟩
    obtain ⟨-, p', hp'⟩ := (hP.mem_selectors hi).mp hm
    obtain ⟨-, q', hq'⟩ := (hP.mem_selectors hi).mp hm'
    exact hne (Prod.ext (hX.link_apart p q _ p' q' hp' hq' hpq) rfl)
  obtain ⟨h', hr, hs', hv⟩ := removeImageSelectors_ok (m := ⟨P, image⟩) hs hkeys hpair
  refine ⟨h', hr, hs', congrArg HeapView.nextId hv, by rw [hv]; rfl, by rw [hv]; rfl, fun a l b => ?_⟩
  rw [hv]
  refine and_congr_right fun _ => not_congr ⟨?_, ?_⟩
  · rintro ⟨p, s, hm, rfl, rfl⟩
    obtain ⟨hn, q, hq⟩ := (hP.mem_selectors hi).mp hm
    exact ⟨p, q, hn, hq, rfl⟩
  · rintro ⟨p, q, hn, hq, rfl⟩
    have hl := selector_name (hP.isSelector hn hq)
    exact ⟨p, l.name, (hP.mem_selectors hi).mpr ⟨hn, q, hl.symm ▸ hq⟩, rfl, hl.symm⟩

theorem exists_image (hs : h.Sound) (hkind : (h.view.label (X p)).map Label.kind = some lab.kind)
    (himg : ∀ p < P.elements.length, image[p]? = some (X p : Int)) (hl : P.labelAt p = some lab) :
    ∃ v, (⟨P, image⟩ : Matching).imageOf h p = .ok v ∧ h.idOf v = some (X p) := by
  obtain ⟨e, he, -, rfl⟩ := labelAt_eq_some.mp hl
  obtain ⟨lab', hl', hk⟩ := Option.map_eq_some_iff.mp hkind
  obtain ⟨v, hid, hlv⟩ := hs.view_label.mp hl'
  exact ⟨v, imageOf_eq hs he (himg p (lt_of_labelAt hl)) hid hlv hk, hid⟩

theorem exists_targets (hP : P.Sound) (hs : h.Sound)
    (hkind : ∀ p lab, P.labelAt p = some lab → (h.view.label (X p)).map Label.kind = some lab.kind)
    (himg : ∀ p < P.elements.length, image[p]? = some (X p : Int)) :
    ∃ targets, P.externals.mapM ((⟨P, image⟩ : Matching).imageOf h) = .ok targets ∧
      List.Forall₂ (fun p v => P.IsNode p ∧ h.idOf v = some (X p)) P.externals targets := by
  refine mapM_forall₂ fun p hm => ?_
  obtain ⟨i, hpi⟩ := List.mem_iff_getElem?.mp hm
  obtain ⟨type, ht⟩ := hP.ordinal_node p i (hP.getElem?_externals.mp hpi)
  obtain ⟨v, hv, hid⟩ := exists_image hs (hkind p _ ht) himg ht
  exact ⟨v, hv, ⟨type, ht⟩, hid⟩

section Absorb

variable (hi : P.Idle) (hs : h.Sound)
  (hkind : ∀ p lab, P.labelAt p = some lab → (h.view.label (X p)).map Label.kind = some lab.kind)
  (hord : ∀ p lab, P.labelAt p = some lab → P.ordinalAt p = none → h.view.ordinal (X p) = none)
  (hinj : ∀ p q lab lab', P.labelAt p = some lab → P.labelAt q = some lab' → P.ordinalAt p = none → X p = X q → p = q)
  (himg : ∀ p < P.elements.length, image[p]? = some (X p : Int))

include hi hs hkind hord hinj himg

theorem exists_absorb_part {ps : List Nat} (hps : ps.Sublist (⟨P, image⟩ : Matching).absorbed) :
    ∃ h', removeImages ⟨P, image⟩ h ps = .ok h' ∧ h'.Sound ∧ h'.idOf = h.idOf ∧ h'.nextId = h.nextId ∧
      (∀ y lab, h'.view.label y = some lab ↔ h.view.label y = some lab ∧ ¬ ∃ p ∈ ps, X p = y) ∧
      h'.view.ordinal = h.view.ordinal ∧
      ∀ a l b, h'.view.link a l b ↔ h.view.link a l b ∧ (¬ ∃ p ∈ ps, X p = a) ∧ ¬ ∃ p ∈ ps, X p = b := by
  have hkeys : ∀ p ∈ ps, ∃ e : Element, P.elements[p]? = some e ∧ image[p]? = some (X p : Int) ∧
      (h.view.label (X p)).map Label.kind = some e.kind ∧ h.view.ordinal (X p) = none := by
    intro p hm
    obtain ⟨lab, hl, ho⟩ := (mem_absorbed hi).mp (hps.subset hm)
    obtain ⟨e, he, -, rfl⟩ := labelAt_eq_some.mp hl
    exact ⟨e, he, himg p (lt_of_labelAt hl), hkind p _ hl, hord p _ hl ho⟩
  have hpair : ps.Pairwise (fun p q => X p ≠ X q) := by
    refine (absorbed_nodup.sublist hps).imp_of_mem fun {p q} hm hm' hne hpq => ?_
    obtain ⟨lab, hl, ho⟩ := (mem_absorbed hi).mp (hps.subset hm)
    obtain ⟨lab', hl', -⟩ := (mem_absorbed hi).mp (hps.subset hm')
    exact hne (hinj p q _ _ hl hl' ho hpq)
  exact removeImages_ok (m := ⟨P, image⟩) hs hkeys hpair

theorem exists_absorb :
    ∃ h', removeImages ⟨P, image⟩ h (⟨P, image⟩ : Matching).absorbed = .ok h' ∧ h'.Sound ∧ h'.idOf = h.idOf ∧
      h'.nextId = h.nextId ∧
      (∀ y lab, h'.view.label y = some lab ↔ h.view.label y = some lab ∧ ¬ HeapView.Absorbed P X y) ∧
      h'.view.ordinal = h.view.ordinal ∧
      ∀ a l b, h'.view.link a l b ↔
        h.view.link a l b ∧ ¬ HeapView.Absorbed P X a ∧ ¬ HeapView.Absorbed P X b := by
  have habs (y : Nat) : (∃ p ∈ (⟨P, image⟩ : Matching).absorbed, X p = y) ↔ HeapView.Absorbed P X y := by
    simp only [mem_absorbed hi, HeapView.Absorbed]
    exact ⟨fun ⟨p, ⟨lab, hl, ho⟩, hx⟩ => ⟨p, lab, hl, ho, hx⟩, fun ⟨p, lab, hl, ho, hx⟩ => ⟨p, ⟨lab, hl, ho⟩, hx⟩⟩
  simpa only [habs] using exists_absorb_part hi hs hkind hord hinj himg (List.Sublist.refl _)

end Absorb

end

theorem isNode_of_mem_targets {targets : List Nat} (hP : P.Sound) (hX : HeapView.Placed P h.view X) (hs : h'.Sound)
    (hall : List.Forall₂ (fun p v => P.IsNode p ∧ h'.idOf v = some (X p)) P.externals targets)
    (hlab : ∀ y lab, h'.view.label y = some lab ↔ h.view.label y = some lab ∧ ¬ HeapView.Absorbed P X y) :
    ∀ t ∈ targets, h'.IsNode t := by
  intro t htm
  obtain ⟨i, hti⟩ := List.mem_iff_getElem?.mp htm
  obtain ⟨hlt, rfl⟩ := List.getElem?_eq_some_iff.mp hti
  have hlt' : i < P.externals.length := hall.length_eq ▸ hlt
  obtain ⟨hn, hid⟩ := hall.get hlt' hlt
  obtain ⟨type, htype⟩ := hX.exists_node hn
  have hpo := hP.getElem?_externals.mp (List.getElem?_eq_getElem hlt')
  have hlabel := (hlab _ _).mpr ⟨htype, hX.not_absorbed hP hpo⟩
  rw [hs.view_label_of_idOf hid] at hlabel
  exact ⟨type, hlabel⟩

theorem folds_attach {A C : HeapView} {nt : Nonterminal} (hA : A.Proper) (hP : P.WellFormed) (hn : C.nextId = A.nextId)
    (hlab : ∀ y lab, C.label y = some lab ↔ A.label y = some lab ∧ ¬ HeapView.Absorbed P X y)
    (hord : C.ordinal = A.ordinal)
    (hlink : ∀ a l b, C.link a l b ↔ (A.link a l b ∧ ¬ ∃ p q, P.IsNode p ∧ P.Linked p l q ∧ X p = a) ∧
      ¬ HeapView.Absorbed P X a ∧ ¬ HeapView.Absorbed P X b) :
    HeapView.Folds P A X nt (C.attach (.nonterminal nt) (P.externals.map X)) where
  nextId := by rw [← hn]; rfl
  label y lab := by
    change (C.insert (.nonterminal nt)).label y = some lab ↔ _
    by_cases hyn : y = C.nextId
    · subst hyn
      rw [HeapView.label_insert_self, hn, hA.label_nextId]
      simp [eq_comm]
    · rw [HeapView.label_insert_of_ne _ _ hyn, hlab]
      have : y ≠ A.nextId := fun hx => hyn (hx.trans hn.symm)
      simp [this]
  ordinal := hord
  link a l b := by
    refine or_congr ?_ ?_
    · change C.link a l b ↔ _
      rw [hlink]
      constructor
      · rintro ⟨⟨hab, hsel⟩, ha, hb⟩
        refine ⟨hab, fun p q hpq hpa => ?_, ha, hb⟩
        obtain ⟨lab, hl⟩ := hP.labelAt_of_joined hpq.joined
        by_cases hn : P.IsNode p
        · exact hsel ⟨p, q, hn, hpq, hpa⟩
        · exact ha ⟨p, lab, hl, hP.ordinalAt_eq_none hn, hpa⟩
      · rintro ⟨hab, hsel, ha, hb⟩
        exact ⟨⟨hab, fun ⟨p, q, _, hpq, hpa⟩ => hsel p q hpq hpa⟩, ha, hb⟩
    · rw [← hn]
      refine and_congr_right fun _ => exists_congr fun i => ?_
      simp only [List.getElem?_map, Option.map_eq_some_iff, hP.getElem?_externals]
      exact ⟨fun ⟨hl, p, ho, hx⟩ => ⟨p, hl, ho, hx⟩, fun ⟨p, hl, ho, hx⟩ => ⟨hl, p, ho, hx⟩⟩

theorem WellFormed.fold (hw : h.WellFormed) (hP : P.WellFormed) (hi : P.Idle) (hX : HeapView.Placed P h.view X)
    {image : List Int} (hlen : image.length = P.elements.length)
    (himg : ∀ p < P.elements.length, image[p]? = some (X p : Int)) {nt : Nonterminal}
    (hk : nt.rank = P.externalCount) :
    ∃ h', h.fold ⟨P, image⟩ nt = .ok h' ∧ HeapView.Folds P h.view X nt h'.view ∧ h'.WellFormed := by
  have hs := hw.toSound
  obtain ⟨h1, hr1, hs1, hn1, hl1, ho1, hk1⟩ := hP.strip hi hs hX himg
  have hkind1 : ∀ p lab, P.labelAt p = some lab → (h1.view.label (X p)).map Label.kind = some lab.kind := by
    rw [hl1]
    exact hX.kind
  have hord1 : ∀ p lab, P.labelAt p = some lab → P.ordinalAt p = none → h1.view.ordinal (X p) = none := by
    rw [ho1]
    exact hX.inner
  obtain ⟨targets, ht, hall⟩ := exists_targets hP.toSound hs1 hkind1 himg
  obtain ⟨h2, hr2, hs2, hid2, hn2, hl2, ho2, hk2⟩ := exists_absorb hi hs1 hkind1 hord1 hX.apart himg
  rw [hl1] at hl2
  rw [← hid2] at hall
  have hy : targets.map h2.idOf = (P.externals.map X).map some := map_eq_of_forall₂ (hall.imp fun _ _ hpv => hpv.2)
  obtain ⟨hs3, hv3⟩ : (h2.attachAs (.nonterminal nt) targets).Sound ∧ _ :=
    hs2.attachAs (isNode_of_mem_targets hP.toSound hX hs2 hall hl2) hy
  have hfold : HeapView.Folds P h.view X nt (h2.attachAs (.nonterminal nt) targets).view := by
    rw [hv3]
    exact folds_attach hs.proper hP (hn2.trans hn1) hl2 (ho2.trans ho1) (fun a l b => by rw [hk2, hk1])
  refine ⟨_, ?_, hfold, hs3.wellFormed_iff.mpr (hfold.typed hX hP hs.proper (hs.wellFormed_iff.mp hw) hk)⟩
  simp only [Heap.fold, hk, hlen, hr1, ht, hr2, ne_eq, not_true_eq_false, if_false, orAbort, bind, Except.bind, pure,
    Except.pure, attach_eq]

end Heap

end HeapAbstraction
