import HeapAbstraction.Proofs.Primitive

namespace HeapAbstraction

@[ext]
structure HeapView where
  nextId : Nat
  label : Nat → Option Label
  ordinal : Nat → Option Nat
  link : Nat → EdgeLabel → Nat → Prop

namespace HeapView

structure Proper (A : HeapView) : Prop where
  label_lt : ∀ x lab, A.label x = some lab → x < A.nextId
  link_label : ∀ x l y, A.link x l y → ∃ lab, A.label x = some lab
  link_node : ∀ x l y, A.link x l y → ∃ type, A.label y = some (.node type)
  link_functional : ∀ x l y z, A.link x l y → A.link x l z → y = z
  ordinal_node : ∀ x i, A.ordinal x = some i → ∃ type, A.label x = some (.node type)
  ordinal_inj : ∀ x y i, A.ordinal x = some i → A.ordinal y = some i → x = y

structure Typed (A : HeapView) : Prop where
  fits : ∀ x lab, A.label x = some lab → lab.Fits (fun l => ∃ y, A.link x l y)
  variable_inj : ∀ x y name, A.label x = some (.variable name) → A.label y = some (.variable name) → x = y

def insert (A : HeapView) (lab : Label) : HeapView :=
  { A with nextId := A.nextId + 1, label := Function.update A.label A.nextId (some lab) }

def delete (A : HeapView) (x : Nat) : HeapView where
  nextId := A.nextId
  label := Function.update A.label x none
  ordinal y := match A.ordinal x with
    | some i => Heap.dropFrom i (A.ordinal y)
    | none => A.ordinal y
  link a l b := A.link a l b ∧ a ≠ x ∧ b ≠ x

def addLinks (A : HeapView) (R : Nat → EdgeLabel → Nat → Prop) : HeapView :=
  { A with link := fun a l b => A.link a l b ∨ R a l b }

def dropLink (A : HeapView) (x : Nat) (l : EdgeLabel) : HeapView :=
  { A with link := fun a m b => A.link a m b ∧ ¬ (a = x ∧ m = l) }

@[simp]
theorem label_insert_self (A : HeapView) (lab : Label) : (A.insert lab).label A.nextId = some lab := by simp [insert]

theorem label_insert_of_ne (A : HeapView) (lab : Label) {x : Nat} (hx : x ≠ A.nextId) :
    (A.insert lab).label x = A.label x := by
  simp [insert, hx]

@[simp]
theorem label_delete_self (A : HeapView) (x : Nat) : (A.delete x).label x = none := by simp [delete]

theorem label_delete_of_ne (A : HeapView) {x y : Nat} (hy : y ≠ x) : (A.delete x).label y = A.label y := by
  simp [delete, hy]

theorem Proper.label_nextId {A : HeapView} (hp : A.Proper) : A.label A.nextId = none := by
  cases hl : A.label A.nextId with
  | none => rfl
  | some lab => exact absurd (hp.label_lt _ _ hl) (Nat.lt_irrefl _)

theorem ordinal_delete_edge {A : HeapView} (hp : A.Proper) {x : Nat} {lab : Label} (hx : A.label x = some lab)
    (hn : ∀ type, lab ≠ .node type) : (A.delete x).ordinal = A.ordinal := by
  cases ho : A.ordinal x with
  | none => simp [delete, ho]
  | some i =>
    obtain ⟨type, ht⟩ := hp.ordinal_node x i ho
    exact absurd (Option.some.inj (hx.symm.trans ht)) (hn type)

theorem link_delete_edge {A : HeapView} (hp : A.Proper) {x a b : Nat} {l : EdgeLabel} {lab : Label}
    (hx : A.label x = some lab) (hn : ∀ type, lab ≠ .node type) : (A.delete x).link a l b ↔ A.link a l b ∧ a ≠ x := by
  refine ⟨fun hab => ⟨hab.1, hab.2.1⟩, fun ⟨hab, hax⟩ => ⟨hab, hax, ?_⟩⟩
  rintro rfl
  obtain ⟨type, ht⟩ := hp.link_node _ _ _ hab
  exact hn type (Option.some.inj (hx.symm.trans ht))

end HeapView

namespace Heap

def view (h : Heap) : HeapView where
  nextId := h.nextId
  label x := (h.slot? x).bind h.labelAt
  ordinal x := (h.slot? x).bind h.ordinalAt
  link x l y := ∃ u v, h.idOf u = some x ∧ h.idOf v = some y ∧ h.Linked u l v

variable {h h' : Heap} {u v x y : Nat} {l : EdgeLabel} {lab : Label}

theorem idOf_of_labelAt (hl : h.labelAt v = some lab) : ∃ x, h.idOf v = some x := by
  obtain ⟨e, he, -, -⟩ := labelAt_eq_some.mp hl
  exact ⟨e.id, by simp [idOf, he]⟩

namespace Sound

theorem slot?_eq_some (hs : h.Sound) :
    h.slot? x = some v ↔ h.idOf v = some x ∧ ∃ lab, h.labelAt v = some lab := by
  have hlive (w : Nat) : (∃ e, h.elements[w]? = some e ∧ (!e.removed && e.id == x) = true) ↔
      h.idOf w = some x ∧ ∃ lab, h.labelAt w = some lab := by
    cases hw : h.elements[w]? with
    | none => simp [idOf, hw]
    | some e => cases hr : e.removed <;> simp [idOf, labelAt, hw, hr]
  rw [← hlive]
  change h.elements.findIdx? _ = some v ↔ _
  rw [List.findIdx?_eq_some_iff_getElem]
  constructor
  · rintro ⟨hv, hp, -⟩
    exact ⟨_, List.getElem?_eq_getElem hv, hp⟩
  · rintro ⟨e, he, hp⟩
    obtain ⟨hv, rfl⟩ := List.getElem?_eq_some_iff.mp he
    refine ⟨hv, hp, fun w hwv hq => ?_⟩
    have h1 := ((hlive v).mp ⟨_, he, hp⟩).1
    have h2 := ((hlive w).mp ⟨_, List.getElem?_eq_getElem (hwv.trans hv), hq⟩).1
    have := hs.id_inj w v x h2 h1
    omega

theorem slot?_eq (hs : h.Sound) (hi : h.idOf v = some x) (hl : h.labelAt v = some lab) : h.slot? x = some v :=
  hs.slot?_eq_some.mpr ⟨hi, lab, hl⟩

theorem view_label (hs : h.Sound) : h.view.label x = some lab ↔ ∃ v, h.idOf v = some x ∧ h.labelAt v = some lab := by
  simp only [view, Option.bind_eq_some_iff, hs.slot?_eq_some]
  exact ⟨fun ⟨v, ⟨hi, _⟩, hl⟩ => ⟨v, hi, hl⟩, fun ⟨v, hi, hl⟩ => ⟨v, ⟨hi, lab, hl⟩, hl⟩⟩

theorem view_label_of_idOf (hs : h.Sound) (hi : h.idOf v = some x) : h.view.label x = h.labelAt v := by
  cases hl : h.labelAt v with
  | some lab => exact hs.view_label.mpr ⟨v, hi, hl⟩
  | none =>
    cases hx : h.view.label x with
    | none => rfl
    | some lab =>
      obtain ⟨w, hw, hwl⟩ := hs.view_label.mp hx
      rw [hs.id_inj v w x hi hw, hwl] at hl
      simp at hl

theorem view_ordinal (hs : h.Sound) {i : Nat} :
    h.view.ordinal x = some i ↔ ∃ v, h.idOf v = some x ∧ h.ordinalAt v = some i := by
  simp only [view, Option.bind_eq_some_iff, hs.slot?_eq_some]
  constructor
  · exact fun ⟨v, ⟨hi, _⟩, ho⟩ => ⟨v, hi, ho⟩
  · rintro ⟨v, hi, ho⟩
    obtain ⟨type, ht⟩ := hs.ordinal_node v i ho
    exact ⟨v, ⟨hi, _, ht⟩, ho⟩

theorem view_ordinal_of_idOf (hs : h.Sound) (hi : h.idOf v = some x) : h.view.ordinal x = h.ordinalAt v := by
  refine Option.ext fun i => ?_
  rw [hs.view_ordinal]
  constructor
  · rintro ⟨w, hw, ho⟩
    rwa [hs.id_inj v w x hi hw]
  · exact fun ho => ⟨v, hi, ho⟩

theorem view_link_of_idOf (hs : h.Sound) (hu : h.idOf u = some x) (hv : h.idOf v = some y) :
    h.view.link x l y ↔ h.Linked u l v := by
  constructor
  · rintro ⟨u', v', hu', hv', hl⟩
    rwa [hs.id_inj u u' x hu hu', hs.id_inj v v' y hv hv']
  · exact fun hl => ⟨u, v, hu, hv, hl⟩

theorem idOf_target (hs : h.Sound) (hl : h.Linked u l v) : ∃ y, h.idOf v = some y := by
  obtain ⟨type, ht⟩ := hs.ends u v hl.joined
  exact idOf_of_labelAt ht

theorem idOf_source (hs : h.Sound) (hl : h.Linked u l v) : ∃ y, h.idOf u = some y := by
  obtain ⟨lab, ht⟩ := hs.labelAt_of_joined hl.joined
  exact idOf_of_labelAt ht

theorem exists_view_link (hs : h.Sound) (hu : h.idOf u = some x) :
    (∃ y, h.view.link x l y) ↔ ∃ v, h.Linked u l v := by
  constructor
  · rintro ⟨y, u', v, hu', -, hl⟩
    exact ⟨v, by rwa [hs.id_inj u u' x hu hu']⟩
  · rintro ⟨v, hl⟩
    obtain ⟨y, hy⟩ := hs.idOf_target hl
    exact ⟨y, u, v, hu, hy, hl⟩

theorem proper (hs : h.Sound) : h.view.Proper where
  label_lt x lab hl := by
    obtain ⟨v, hi, -⟩ := hs.view_label.mp hl
    exact hs.id_lt v x hi
  link_label x l y hl := by
    obtain ⟨u, v, hu, -, hl⟩ := hl
    obtain ⟨lab, ht⟩ := hs.labelAt_of_joined hl.joined
    exact ⟨lab, hs.view_label.mpr ⟨u, hu, ht⟩⟩
  link_node x l y hl := by
    obtain ⟨u, v, -, hv, hl⟩ := hl
    obtain ⟨type, ht⟩ := hs.ends u v hl.joined
    exact ⟨type, hs.view_label.mpr ⟨v, hv, ht⟩⟩
  link_functional x l y z hy hz := by
    obtain ⟨u, v, hu, hv, hy⟩ := hy
    obtain ⟨u', w, hu', hw, hz⟩ := hz
    have := hs.id_inj u u' x hu hu'
    subst this
    have := hs.linked_functional hy hz
    subst this
    exact Option.some.inj (hv.symm.trans hw)
  ordinal_node x i ho := by
    obtain ⟨v, hi, ho⟩ := hs.view_ordinal.mp ho
    obtain ⟨type, ht⟩ := hs.ordinal_node v i ho
    exact ⟨type, hs.view_label.mpr ⟨v, hi, ht⟩⟩
  ordinal_inj x y i hx hy := by
    obtain ⟨v, hv, hvo⟩ := hs.view_ordinal.mp hx
    obtain ⟨w, hw, hwo⟩ := hs.view_ordinal.mp hy
    rw [hs.ordinal_inj v w i hvo hwo, hw] at hv
    exact (Option.some.inj hv).symm

theorem wellFormed_iff (hs : h.Sound) : h.WellFormed ↔ h.view.Typed := by
  constructor
  · intro hw
    refine ⟨fun x lab hl => ?_, fun x y name hx hy => ?_⟩
    · obtain ⟨v, hi, hv⟩ := hs.view_label.mp hl
      exact (hw.fits hv).congr fun l => (hs.exists_view_link hi).symm
    · obtain ⟨v, hi, hv⟩ := hs.view_label.mp hx
      obtain ⟨w, hj, hw'⟩ := hs.view_label.mp hy
      rw [hw.variable_inj v w name hv hw', hj] at hi
      exact (Option.some.inj hi).symm
  · intro ht
    refine hs.wellFormed (fun v lab hl => ?_) (fun v w name hv hw => ?_)
    · obtain ⟨x, hi⟩ := idOf_of_labelAt hl
      exact (ht.fits x lab (hs.view_label.mpr ⟨v, hi, hl⟩)).congr fun l => hs.exists_view_link hi
    · obtain ⟨x, hx⟩ := idOf_of_labelAt hv
      obtain ⟨y, hy⟩ := idOf_of_labelAt hw
      have := ht.variable_inj x y name (hs.view_label.mpr ⟨v, hx, hv⟩) (hs.view_label.mpr ⟨w, hy, hw⟩)
      exact hs.id_inj v w x hx (this ▸ hy)

end Sound

theorem slot?_congr (hs : h.Sound) (hs' : h'.Sound) (hi : h'.idOf = h.idOf) (hl : h'.labelAt = h.labelAt) (x : Nat) :
    h'.slot? x = h.slot? x :=
  Option.ext fun v => by rw [hs.slot?_eq_some, hs'.slot?_eq_some, hi, hl]

theorem SameFaces.view (hf : SameFaces h h') (hs : h.Sound) (hs' : h'.Sound) : h'.view = { h.view with
    link := fun x l y => ∃ u v, h.idOf u = some x ∧ h.idOf v = some y ∧ h'.Linked u l v } := by
  have hslot := slot?_congr hs hs' hf.idOf hf.labelAt
  simp only [Heap.view, hslot, hf.idOf, hf.labelAt, hf.ordinalAt, hf.nextId]

theorem view_linkAll (hs : h.Sound) (ks : List Link)
    (hk : ∀ k ∈ ks, (∃ lab, h.labelAt k.source = some lab) ∧ h.IsNode k.target ∧ ∀ w, ¬ h.Linked k.source k.label w)
    (hp : ks.Pairwise (fun j k => ¬ (j.source = k.source ∧ j.label = k.label))) :
    (h.linkAll ks).view = h.view.addLinks (fun x l y => ∃ u v, h.idOf u = some x ∧ h.idOf v = some y ∧
      ⟨u, v, l⟩ ∈ ks) := by
  obtain ⟨h1, h2, h3⟩ := hs.linkAll ks hk hp
  rw [h2.view hs h1]
  simp only [HeapView.addLinks, HeapView.mk.injEq, true_and, h3]
  funext x l y
  simp only [view, eq_iff_iff]
  constructor
  · rintro ⟨u, v, hu, hv, hl | hk⟩
    · exact .inl ⟨u, v, hu, hv, hl⟩
    · exact .inr ⟨u, v, hu, hv, hk⟩
  · rintro (⟨u, v, hu, hv, hl⟩ | ⟨u, v, hu, hv, hk⟩)
    · exact ⟨u, v, hu, hv, .inl hl⟩
    · exact ⟨u, v, hu, hv, .inr hk⟩

theorem SameFaces.view_dropLink (hf : SameFaces h h') (hs : h.Sound) (hs' : h'.Sound) (hu : h.idOf u = some x)
    (hl : ∀ v m w, h'.Linked v m w ↔ h.Linked v m w ∧ ¬ (v = u ∧ m = l)) : h'.view = h.view.dropLink x l := by
  rw [hf.view hs hs']
  simp only [HeapView.dropLink, HeapView.mk.injEq, true_and, hl]
  funext a m b
  simp only [eq_iff_iff]
  constructor
  · rintro ⟨v, w, hv, hw, hlk, hne⟩
    refine ⟨⟨v, w, hv, hw, hlk⟩, ?_⟩
    rintro ⟨rfl, rfl⟩
    exact hne ⟨hs.id_inj v u a hv hu, rfl⟩
  · rintro ⟨⟨v, w, hv, hw, hlk⟩, hne⟩
    refine ⟨v, w, hv, hw, hlk, ?_⟩
    rintro ⟨rfl, rfl⟩
    exact hne ⟨Option.some.inj (hv.symm.trans hu), rfl⟩

theorem Removes.view (hr : Removes h v h') (hs : h.Sound) (hv : h.idOf v = some x) :
    h'.view = h.view.delete x := by
  have hne (w y : Nat) (hw : h.idOf w = some y) : w = v ↔ y = x := by
    constructor
    · rintro rfl
      exact Option.some.inj (hw.symm.trans hv)
    · rintro rfl
      exact hs.id_inj w v y hw hv
  ext1
  · exact hr.nextId
  · funext y
    refine Option.ext fun lab => ?_
    rw [hr.sound.view_label]
    simp only [HeapView.delete, hr.labelAt, hr.idOf]
    by_cases hy : y = x
    · subst hy
      rw [Function.update_self]
      simp only [reduceCtorEq, iff_false, not_exists]
      rintro w ⟨hw, hl⟩
      rw [if_pos ((hne w y hw).mpr rfl)] at hl
      simp at hl
    · rw [Function.update_of_ne hy, hs.view_label]
      refine exists_congr fun w => and_congr_right fun hw => ?_
      rw [if_neg fun hwv => hy ((hne w y hw).mp hwv)]
  · funext y
    refine Option.ext fun i => ?_
    rw [hr.sound.view_ordinal]
    simp only [HeapView.delete, hr.ordinalAt, hr.idOf, hs.view_ordinal_of_idOf hv]
    cases h.ordinalAt v with
    | none => exact hs.view_ordinal.symm
    | some j =>
      simp only [dropFrom_eq_some, hs.view_ordinal]
      constructor
      · rintro ⟨w, hw, ⟨hij, hi⟩ | ⟨hij, hi⟩⟩
        · exact .inl ⟨hij, w, hw, hi⟩
        · exact .inr ⟨hij, w, hw, hi⟩
      · rintro (⟨hij, w, hw, hi⟩ | ⟨hij, w, hw, hi⟩)
        · exact ⟨w, hw, .inl ⟨hij, hi⟩⟩
        · exact ⟨w, hw, .inr ⟨hij, hi⟩⟩
  · funext a l b
    simp only [Heap.view, HeapView.delete, eq_iff_iff, hr.idOf, hr.linked]
    constructor
    · rintro ⟨w, z, hw, hz, hl, h1, h2⟩
      exact ⟨⟨w, z, hw, hz, hl⟩, fun hax => h1 ((hne w a hw).mpr hax), fun hbx => h2 ((hne z b hz).mpr hbx)⟩
    · rintro ⟨⟨w, z, hw, hz, hl⟩, h1, h2⟩
      exact ⟨w, z, hw, hz, hl, fun hwv => h1 ((hne w a hw).mp hwv), fun hzv => h2 ((hne z b hz).mp hzv)⟩

theorem view_addElement (hs : h.Sound) : (h.addElement lab).view = h.view.insert lab := by
  have hs' : (h.addElement lab).Sound := hs.addElement
  have hid (w y : Nat) : (h.addElement lab).idOf w = some y ↔
      (w = h.elements.length ∧ y = h.nextId) ∨ h.idOf w = some y := by
    rw [idOf_addElement]
    split
    · rename_i hw
      simp only [Option.some.injEq, hw, idOf_length, reduceCtorEq, or_false, true_and, eq_comm]
    · rename_i hw
      simp [hw]
  have hlt (w y : Nat) (hw : h.idOf w = some y) : w ≠ h.elements.length := by
    rintro rfl
    simp [idOf_length] at hw
  ext1
  · rfl
  · funext y
    refine Option.ext fun lab' => ?_
    rw [hs'.view_label]
    simp only [HeapView.insert, hid, labelAt_addElement]
    by_cases hy : y = h.view.nextId
    · rw [hy, Function.update_self]
      constructor
      · rintro ⟨w, ⟨rfl, -⟩ | hw, hl⟩
        · simpa using hl
        · exact absurd (hs.id_lt w _ hw) (Nat.lt_irrefl _)
      · intro hl
        exact ⟨_, .inl ⟨rfl, rfl⟩, by simpa using hl⟩
    · rw [Function.update_of_ne hy, hs.view_label]
      constructor
      · rintro ⟨w, ⟨-, rfl⟩ | hw, hl⟩
        · exact absurd rfl hy
        · rw [if_neg (hlt w y hw)] at hl
          exact ⟨w, hw, hl⟩
      · rintro ⟨w, hw, hl⟩
        exact ⟨w, .inr hw, by rwa [if_neg (hlt w y hw)]⟩
  · funext y
    refine Option.ext fun i => ?_
    rw [hs'.view_ordinal]
    simp only [HeapView.insert, hs.view_ordinal, ordinalAt_addElement, hid]
    constructor
    · rintro ⟨w, ⟨rfl, -⟩ | hw, hi⟩
      · simp [ordinalAt] at hi
      · exact ⟨w, hw, hi⟩
    · rintro ⟨w, hw, hi⟩
      exact ⟨w, .inr hw, hi⟩
  · funext a l b
    simp only [view, HeapView.insert, eq_iff_iff, linked_addElement]
    constructor
    · rintro ⟨w, z, hw, hz, hl⟩
      obtain ⟨a', ha'⟩ := hs.idOf_source hl
      obtain ⟨b', hb'⟩ := hs.idOf_target hl
      rw [idOf_addElement, if_neg (hlt w a' ha')] at hw
      rw [idOf_addElement, if_neg (hlt z b' hb')] at hz
      exact ⟨w, z, hw, hz, hl⟩
    · rintro ⟨w, z, hw, hz, hl⟩
      exact ⟨w, z, (hid w a).mpr (.inr hw), (hid z b).mpr (.inr hz), hl⟩

end Heap

end HeapAbstraction
