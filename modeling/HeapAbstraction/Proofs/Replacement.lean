import HeapAbstraction.Heap.Workbench
import HeapAbstraction.Proofs.ArcOrder
import HeapAbstraction.Proofs.FoldInverse
import HeapAbstraction.Proofs.Refinement

namespace HeapAbstraction

namespace HeapState

structure Gluable (A : HeapState) (ys : List Nat) (R : HeapState) : Prop where
  rank : R.externals.length = ys.length
  names : ∀ x y a b name, A.pointer x = some (name, y) → R.pointer a ≠ some (name, b)
  free : ∀ (i : Nat) a y s, R.externals[i]? = some a → ys[i]? = some y → R.selector a s ≠ none → A.selector y s = none
  apart : ∀ (i j : Nat) a b y s, R.externals[i]? = some a → R.externals[j]? = some b → ys[i]? = some y → ys[j]? = some y →
    R.selector a s ≠ none → R.selector b s ≠ none → i = j

structure Glued (A : HeapState) (x : Nat) (R : HeapState) (g : Nat → Nat) (B : HeapState) : Prop where
  nodeType : ∀ y type, B.nodeType y = some type ↔
    A.nodeType y = some type ∨ ∃ a, R.nodeType a = some type ∧ a ∉ R.externals ∧ g a = y
  selector : ∀ y s z, B.selector y s = some z ↔
    A.selector y s = some z ∨ ∃ a b, R.selector a s = some b ∧ g a = y ∧ g b = z
  hyperedge : ∀ y nt zs, B.hyperedge y = some (nt, zs) ↔
    (y ≠ x ∧ A.hyperedge y = some (nt, zs)) ∨ ∃ a bs, R.hyperedge a = some (nt, bs) ∧ g a = y ∧ bs.map g = zs
  pointer : ∀ y name z, B.pointer y = some (name, z) ↔
    A.pointer y = some (name, z) ∨ ∃ a b, R.pointer a = some (name, b) ∧ g a = y ∧ g b = z
  externals : B.externals = A.externals

end HeapState

namespace HeapView

variable {A B : HeapView} {x : Nat} {R : Heap} {g : Nat → Nat} {a b : HeapState}

theorem Glues.link_fresh (hg : Glues A x R g B) (hA : A.Proper) (hR : R.Sound) {p a z : Nat} {lab : Label} {l : EdgeLabel}
    (hid : R.idOf p = some a) (hl : R.labelAt p = some lab) (ho : R.ordinalAt p = none) :
    B.link (g p) l z ↔ ∃ c, R.view.link a l c ∧ R.byId g c = z := by
  rw [hg.link_inner hA hR hl ho]
  constructor
  · rintro ⟨q, hq, rfl⟩
    obtain ⟨type, htype⟩ := hR.ends p q hq.joined
    obtain ⟨c, hc⟩ := Heap.idOf_of_labelAt htype
    exact ⟨c, ⟨p, q, hid, hc, hq⟩, hR.byId_eq g hc htype⟩
  · rintro ⟨c, ⟨p', q, hp', hc, hq⟩, rfl⟩
    obtain rfl := hR.id_inj p p' a hid hp'
    obtain ⟨type, htype⟩ := hR.ends p q hq.joined
    exact ⟨q, hq, (hR.byId_eq g hc htype).symm⟩

section Glued

variable (hg : Glues A x R g B) (hA : A.Proper) (hR : R.WellFormed) (ha : A.Denotes a) (hb : B.Denotes b)

include hg hA hR ha hb

theorem Glues.hyperedge_iff (y : Nat) (nt : Nonterminal) (zs : List Nat) : b.hyperedge y = some (nt, zs) ↔
    (y ≠ x ∧ a.hyperedge y = some (nt, zs)) ∨
      ∃ c cs, R.state.hyperedge c = some (nt, cs) ∧ R.byId g c = y ∧ cs.map (R.byId g) = zs := by
  rw [hb.hyperedge, hg.label, or_and_right]
  refine or_congr ?_ ?_
  · rw [ha.hyperedge, and_assoc]
    refine and_congr_right fun hyx => and_congr_right fun hlab => ?_
    exact forall₂_congr fun i z => by rw [hg.link_edge hA hR.toSound hlab hyx (by simp)]
  · constructor
    · rintro ⟨⟨p, hl, ho, rfl⟩, hget⟩
      obtain ⟨c, hid⟩ := Heap.idOf_of_labelAt hl
      have hlab := hR.toSound.view_label.mpr ⟨p, hid, hl⟩
      obtain ⟨cs, -, -, hcs⟩ := hR.exists_attachedNodes hlab
      refine ⟨c, cs, (hR.denotes.hyperedge _ _ _).mpr ⟨hlab, hcs⟩, hR.byId_eq g hid hl, ?_⟩
      refine List.ext_getElem? fun i => Option.ext fun z => ?_
      simp only [List.getElem?_map, Option.map_eq_some_iff, hcs, hget, hg.link_fresh hA hR.toSound hid hl ho]
    · rintro ⟨c, cs, hc, rfl, rfl⟩
      obtain ⟨hlab, hcs⟩ := (hR.denotes.hyperedge _ _ _).mp hc
      obtain ⟨p, hid, hl⟩ := hR.toSound.view_label.mp hlab
      have ho := hR.ordinalAt_eq_none (Heap.not_isNode_of_kind hl (by simp [Label.kind]))
      rw [hR.byId_eq g hid hl]
      refine ⟨⟨p, hl, ho, rfl⟩, fun i z => ?_⟩
      simp only [List.getElem?_map, Option.map_eq_some_iff, hcs, hg.link_fresh hA hR.toSound hid hl ho]

theorem Glues.pointer_iff {nt : Nonterminal} (hx : A.label x = some (.nonterminal nt)) (y : Nat) (name : Bytes) (z : Nat) :
    b.pointer y = some (name, z) ↔ a.pointer y = some (name, z) ∨
      ∃ c d, R.state.pointer c = some (name, d) ∧ R.byId g c = y ∧ R.byId g d = z := by
  rw [hb.pointer, hg.label, or_and_right]
  refine or_congr ?_ ?_
  · rw [ha.pointer, and_assoc]
    constructor
    · rintro ⟨hyx, hlab, hl⟩
      exact ⟨hlab, (hg.link_edge hA hR.toSound hlab hyx (by simp)).mp hl⟩
    · rintro ⟨hlab, hl⟩
      have hyx : y ≠ x := fun hyx => by simp [hyx, hx] at hlab
      exact ⟨hyx, hlab, (hg.link_edge hA hR.toSound hlab hyx (by simp)).mpr hl⟩
  · simp only [hR.denotes.pointer]
    constructor
    · rintro ⟨⟨p, hl, ho, rfl⟩, hlink⟩
      obtain ⟨c, hid⟩ := Heap.idOf_of_labelAt hl
      obtain ⟨d, hd, hz⟩ := (hg.link_fresh hA hR.toSound hid hl ho).mp hlink
      exact ⟨c, d, ⟨hR.toSound.view_label.mpr ⟨p, hid, hl⟩, hd⟩, hR.byId_eq g hid hl, hz⟩
    · rintro ⟨c, d, ⟨hlab, hd⟩, rfl, hz⟩
      obtain ⟨p, hid, hl⟩ := hR.toSound.view_label.mp hlab
      have ho := hR.ordinalAt_eq_none (Heap.not_isNode_of_kind hl (by simp [Label.kind]))
      rw [hR.byId_eq g hid hl]
      exact ⟨⟨p, hl, ho, rfl⟩, (hg.link_fresh hA hR.toSound hid hl ho).mpr ⟨d, hd, hz⟩⟩

theorem Glues.glued (ht : A.Typed) {nt : Nonterminal} (hx : A.label x = some (.nonterminal nt)) :
    a.Glued x R.state (R.byId g) b where
  nodeType y type := by
    rw [hb.nodeType, hg.label, ha.nodeType, ← hR.exists_label_byId]
    simp only [hR.denotes.nodeType, hR.denotes.not_mem_externals]
    refine or_congr_left (and_iff_right_of_imp ?_)
    rintro hlab rfl
    simp [hx] at hlab
  selector y s z := by
    rw [hb.selector, hg.link, ha.selector, ← hR.exists_link_byId]
    simp only [hR.denotes.selector]
    refine or_congr_left (and_iff_left_of_imp ?_)
    rintro hl rfl
    obtain ⟨type, htype⟩ := ht.selector_source hA hl
    simp [hx] at htype
  hyperedge := hg.hyperedge_iff hA hR ha hb
  pointer := hg.pointer_iff hA hR ha hb hx
  externals := by
    refine List.ext_getElem? fun i => Option.ext fun y => ?_
    rw [hb.externals, hg.ordinal, ha.externals]

end Glued

end HeapView

namespace Heap

variable {h h' R bare : Heap} {targets : List Nat} {v x p p' q q' i : Nat} {l : EdgeLabel} {nt : Nonterminal}

def innerIds (R : Heap) : List Nat := (R.elements.filter (fun e => e.ordinal.isNone)).map Element.id

structure Sends (R : Heap) (ys : List Nat) (n : Nat) (g : Nat → Nat) : Prop where
  outer : R.state.externals.map g = ys
  inner : R.innerIds.map g = List.range' n R.innerIds.length

theorem Sends.le {ys : List Nat} {n a : Nat} {g : Nat → Nat} (hg : R.Sends ys n g) (ha : a ∈ R.innerIds) : n ≤ g a := by
  have hmem : g a ∈ List.range' n R.innerIds.length := hg.inner ▸ List.mem_map_of_mem ha
  exact (List.mem_range'_1.mp hmem).1

theorem Sound.mem_innerIds (hs : R.Sound) (hi : R.Idle) {a : Nat} :
    a ∈ R.innerIds ↔ (∃ lab, R.view.label a = some lab) ∧ R.view.ordinal a = none := by
  simp only [innerIds, List.mem_map, List.mem_filter, Option.isNone_iff_eq_none]
  constructor
  · rintro ⟨e, ⟨hm, ho⟩, rfl⟩
    obtain ⟨p, he⟩ := List.mem_iff_getElem?.mp hm
    have hid : R.idOf p = some e.id := by simp [idOf, he]
    refine ⟨⟨e.label, hs.view_label.mpr ⟨p, hid, labelAt_of_live he (hi e hm)⟩⟩, ?_⟩
    rw [hs.view_ordinal_of_idOf hid]
    simp [ordinalAt, he, ho]
  · rintro ⟨⟨lab, hlab⟩, ho⟩
    obtain ⟨p, hid, hl⟩ := hs.view_label.mp hlab
    rw [hs.view_ordinal_of_idOf hid] at ho
    obtain ⟨e, he, ho, -⟩ := exists_inner hl ho
    rw [idOf, he] at hid
    exact ⟨e, ⟨List.mem_of_getElem? he, ho⟩, Option.some.inj hid⟩

theorem WellFormed.glued_old {A B : HeapState} {ys : List Nat} {n : Nat} {g : Nat → Nat} (hR : R.WellFormed) (hi : R.Idle)
    (hs : R.Sends ys n g) (hg : A.Glued x R.state g B) {y : Nat} (hy : y < n) (hyx : y ≠ x) :
    B.nodeType y = A.nodeType y ∧ B.hyperedge y = A.hyperedge y ∧ B.pointer y = A.pointer y := by
  have hfresh (a : Nat) (lab : Label) (hl : R.view.label a = some lab) (ho : R.view.ordinal a = none) : g a ≠ y := by
    have := hs.le ((hR.toSound.mem_innerIds hi).mpr ⟨⟨lab, hl⟩, ho⟩)
    omega
  have hedge (a : Nat) (lab : Label) (hl : R.view.label a = some lab) (hn : ∀ type, lab ≠ .node type) : g a ≠ y := by
    refine hfresh a lab hl (Option.eq_none_iff_forall_ne_some.mpr fun i ho => ?_)
    obtain ⟨type, ht⟩ := hR.toSound.proper.ordinal_node a i ho
    exact hn type (Option.some.inj (hl.symm.trans ht))
  refine ⟨Option.ext fun type => ?_, Option.ext ?_, Option.ext ?_⟩
  · rw [hg.nodeType]
    refine or_iff_left ?_
    rintro ⟨a, ha, ho, hay⟩
    exact hfresh a _ ((hR.denotes.nodeType a type).mp ha) (hR.denotes.not_mem_externals.mp ho) hay
  · rintro ⟨nt, zs⟩
    rw [hg.hyperedge, and_iff_right hyx]
    refine or_iff_left ?_
    rintro ⟨a, bs, ha, hay, -⟩
    exact hedge a _ ((hR.denotes.hyperedge a nt bs).mp ha).1 (by simp) hay
  · rintro ⟨name, z⟩
    rw [hg.pointer]
    refine or_iff_left ?_
    rintro ⟨a, b, ha, hay, -⟩
    exact hedge a _ ((hR.denotes.pointer a name b).mp ha).1 (by simp) hay

namespace Gluing

section

variable (hg : Gluing h v R targets bare h')

include hg

theorem nextId : h'.nextId = h.nextId + R.innerIds.length := by
  rw [hg.result, sameFaces_linkAll.nextId, addAll_eq, hg.removes.nextId]
  simp [innerLabels, innerIds]

theorem idOf_outer (ho : R.ordinalAt p = some i) :
    h.idOf (copySlot targets bare.elements.length R p) = some (copyId targets bare R p) := by
  obtain ⟨-, type, hn⟩ := hg.copied.outer_slot ho
  obtain ⟨type', hl⟩ := hg.copied.wellFormed.ordinal_node p i ho
  have hcopy := hg.copied.idOf_copy hl
  rwa [idOf, getElem?_addAll_old (lt_of_labelAt hn), ← idOf, hg.removes.idOf] at hcopy

theorem map_innerIds : R.innerIds.map (R.byId (copyId targets bare R)) = List.range' h.nextId R.innerIds.length := by
  have hR := hg.copied.wellFormed
  refine List.ext_getElem (by simp) fun j hlt _ => ?_
  have hj : j < (R.elements.filter (fun e => e.ordinal.isNone)).length := by simpa [innerIds] using hlt
  obtain ⟨p, he, hp⟩ := exists_copySlots targets bare.elements.length (List.getElem?_eq_getElem hj)
  have hl := labelAt_of_live he (hg.copied.idle _ (List.mem_of_getElem? he))
  have ho := (List.mem_filter.mp (List.getElem_mem hj)).2
  obtain ⟨k, hk, hcopy⟩ := idOf_copySlot (h := bare) targets hl (by simpa [ordinalAt, he] using ho)
  rw [copySlot, hp, Option.getD_some] at hk
  have hid : R.idOf p = some (R.elements.filter (fun e => e.ordinal.isNone))[j].id := by rw [idOf, he, Option.map_some]
  simp only [innerIds, List.getElem_map, List.getElem_range']
  rw [hR.byId_eq _ hid hl, copyId, hcopy, Option.getD_some, hg.removes.nextId]
  omega

end

section

variable (hg : Gluing h v R targets bare h') (hs : h.Sound) (hl : h.labelAt v = some (.nonterminal nt))

include hg hs hl

theorem not_link_outer (ho : R.ordinalAt p = some i) (hpq : R.Linked p l q) (z : Nat) :
    ¬ h.view.link (copyId targets bare R p) l z := by
  rintro ⟨u, w, hu, -, huw⟩
  obtain rfl := hs.id_inj _ _ _ hu (hg.idOf_outer ho)
  have hR := hg.copied.wellFormed
  have hsel := hR.isSelector (hR.ordinal_node p i ho) hpq
  obtain ⟨type, hw⟩ := hs.ends _ w huw.joined
  obtain ⟨type', hn⟩ := (hg.copied.outer_slot ho).2
  rw [hg.removes.labelAt] at hn
  refine hg.free ⟨p, q, l⟩ (mem_links.mpr hpq) hsel w (linked_addAll.mpr ((hg.removes.linked _ _ _).mpr ⟨huw, ?_, ?_⟩))
  · intro huv
    simp [huv] at hn
  · rintro rfl
    simp [hl] at hw

omit hs hl in
theorem link_apart (hpq : R.Linked p l q) (hpq' : R.Linked p' l q')
    (hpp : copyId targets bare R p = copyId targets bare R p') : p = p' := by
  have hc := hg.copied
  have hR := hc.wellFormed
  obtain ⟨lab, hlp⟩ := hR.labelAt_of_joined hpq.joined
  obtain ⟨lab', hlp'⟩ := hR.labelAt_of_joined hpq'.joined
  have hslot := hc.sound.addAll.id_inj _ _ _ (hc.idOf_copy hlp) (hpp ▸ hc.idOf_copy hlp')
  rcases hc.eq_of_copySlot hlp hlp' hslot with hpp | ⟨i, j, ho, -⟩
  · exact hpp
  · have hsel := hR.isSelector (hR.ordinal_node p i ho) hpq
    have hsymm : Std.Symm (fun j k : Link => ¬ (j.label = l ∧ k.label = l ∧
        copySlot targets bare.elements.length R j.source = copySlot targets bare.elements.length R k.source)) :=
      ⟨fun j k hjk hkj => hjk ⟨hkj.2.1, hkj.1, hkj.2.2.symm⟩⟩
    have hpair : R.links.Pairwise (fun j k => ¬ (j.label = l ∧ k.label = l ∧
        copySlot targets bare.elements.length R j.source = copySlot targets bare.elements.length R k.source)) := by
      refine hg.apart.imp ?_
      rintro j k hjk ⟨hj, rfl, heq⟩
      exact hjk hsel ⟨heq, hj⟩
    by_contra hne
    exact hpair.forall (mem_links.mpr hpq) (mem_links.mpr hpq') (fun heq => hne (congrArg Link.source heq))
      ⟨rfl, rfl, hslot⟩

end

end Gluing

section

variable {ys : List Nat}

theorem WellFormed.length_tentacles (hw : h.WellFormed) (hx : h.state.hyperedge x = some (nt, ys)) :
    (ys.length : Int) = nt.rank := by
  obtain ⟨hlab, hys⟩ := (hw.denotes.hyperedge x nt ys).mp hx
  obtain ⟨zs, -, hlen, hzs⟩ := hw.exists_attachedNodes hlab
  rwa [show ys = zs from List.ext_getElem? fun i => Option.ext fun y => (hys i y).trans (hzs i y).symm]

theorem Gluing.sends (hg : Gluing h v R targets bare h') (hw : h.WellFormed) (hid : h.idOf v = some x)
    (hl : h.labelAt v = some (.nonterminal nt)) (hk : nt.rank = R.externalCount)
    (hx : h.state.hyperedge x = some (nt, ys)) : R.Sends ys h.nextId (R.byId (copyId targets bare R)) where
  outer := by
    have hR := hg.copied.wellFormed
    have hs := hw.toSound
    have hlink := ((hw.denotes.hyperedge x nt ys).mp hx).2
    have hglues := (hg.glues hs hid hl).2
    have hlen := hw.length_tentacles hx
    rw [hR.externals_byId]
    refine List.ext_getElem? fun i => Option.ext fun y => ?_
    simp only [List.getElem?_map, Option.map_eq_some_iff, hR.getElem?_externals, hlink]
    constructor
    · rintro ⟨p, ho, rfl⟩
      exact hglues.outer p i ho
    · intro hy
      have hlt : i < ys.length := (List.getElem?_eq_some_iff.mp ((hlink i y).mpr hy)).1
      obtain ⟨p, ho⟩ := hR.exists_ordinal.mpr (show i < R.externalCount by omega)
      exact ⟨p, ho, hs.proper.link_functional _ _ _ _ (hglues.outer p i ho) hy⟩
  inner := hg.map_innerIds

theorem WellFormed.exists_gluing_of_state (hw : h.WellFormed) (hR : R.WellFormed) (hi : R.Idle)
    (hx : h.state.hyperedge x = some (nt, ys)) (hg : h.glue x R = .ok h') : ∃ v targets bare, h.idOf v = some x ∧
      h.labelAt v = some (.nonterminal nt) ∧ nt.rank = R.externalCount ∧ Gluing h v R targets bare h' := by
  have hs := hw.toSound
  obtain ⟨x', v, nt', hx', hid, hl, hk⟩ := exists_of_glue hs hg
  obtain rfl : x = x' := Int.ofNat.inj hx'
  have hlab := ((hw.denotes.hyperedge x nt ys).mp hx).1
  rw [hs.view_label_of_idOf hid, hl] at hlab
  obtain rfl := Label.nonterminal.inj (Option.some.inj hlab)
  obtain ⟨targets, bare, hglue⟩ := hw.exists_gluing hR hi hid hl hk hg
  exact ⟨v, targets, bare, hid, hl, hk, hglue⟩

theorem WellFormed.gluable (hw : h.WellFormed) (hR : R.WellFormed) (hi : R.Idle)
    (hx : h.state.hyperedge x = some (nt, ys)) (hg : h.glue x R = .ok h') : h.state.Gluable ys R.state := by
  have hs := hw.toSound
  obtain ⟨v, targets, bare, hid, hl, hk, hglue⟩ := hw.exists_gluing_of_state hR hi hx hg
  obtain ⟨hlab, hys⟩ := (hw.denotes.hyperedge x nt ys).mp hx
  -- the external node with an ordinal, and where it is glued to
  have houter (i a y : Nat) (hia : R.state.externals[i]? = some a) (hiy : ys[i]? = some y) :
      ∃ p, R.idOf p = some a ∧ R.ordinalAt p = some i ∧ copyId targets bare R p = y := by
    obtain ⟨p, hp, ho⟩ := hR.toSound.view_ordinal.mp ((hR.denotes.externals i a).mp hia)
    exact ⟨p, hp, ho, hs.proper.link_functional _ _ _ _ ((hglue.glues hs hid hl).2.outer p i ho) ((hys i y).mp hiy)⟩
  have hlinked (a p : Nat) (s : Bytes) (hp : R.idOf p = some a) (hsel : R.state.selector a s ≠ none) :
      ∃ q, R.Linked p (.selector s) q := by
    obtain ⟨b, hb⟩ := Option.ne_none_iff_exists'.mp hsel
    exact (hR.toSound.exists_view_link hp).mp ⟨b, (hR.denotes.selector a s b).mp hb⟩
  refine ⟨?_, fun y z a b name hy hb => ?_, fun i a y s hia hiy hsel => ?_, fun i j a b y s hia hjb hiy hjy hsel hsel' => ?_⟩
  · have := hw.length_tentacles hx
    have := hR.length_externals
    omega
  · obtain ⟨p, hp, hlp⟩ := hR.toSound.view_label.mp ((hR.denotes.pointer a name b).mp hb).1
    have ho := hR.ordinalAt_eq_none (not_isNode_of_kind hlp (by simp [Label.kind]))
    have hfree := hglue.names name ((mem_innerLabels hi).mpr ⟨p, hlp, ho⟩)
    exact (hglue.removes.variableSlot?_eq_none hs hl).mp hfree y ((hw.denotes.pointer y name z).mp hy).1
  · obtain ⟨p, hp, ho, rfl⟩ := houter i a y hia hiy
    obtain ⟨q, hpq⟩ := hlinked a p s hp hsel
    exact hw.denotes.selector_eq_none.mpr (hglue.not_link_outer hs hl ho hpq)
  · obtain ⟨p, hp, ho, rfl⟩ := houter i a y hia hiy
    obtain ⟨p', hp', ho', hpp⟩ := houter j b _ hjb hjy
    obtain ⟨q, hpq⟩ := hlinked a p s hp hsel
    obtain ⟨q', hpq'⟩ := hlinked b p' s hp' hsel'
    rw [hglue.link_apart hpq' hpq hpp, ho] at ho'
    exact Option.some.inj ho'

theorem WellFormed.glue_of_gluable (hw : h.WellFormed) (hR : R.WellFormed) (hi : R.Idle)
    (hx : h.state.hyperedge x = some (nt, ys)) (hg : h.state.Gluable ys R.state) : ∃ h', h.glue x R = .ok h' := by
  obtain ⟨hlab, hys⟩ := (hw.denotes.hyperedge x nt ys).mp hx
  have hrank : nt.rank = R.externalCount := by
    have := hw.length_tentacles hx
    have := hR.length_externals
    have := hg.rank
    omega
  -- an external node of the replacement, with a selector
  have houter (p i q : Nat) (l : EdgeLabel) (ho : R.ordinalAt p = some i) (hpq : R.Linked p l q) :
      ∃ a, R.state.externals[i]? = some a ∧ R.state.selector a l.name ≠ none ∧ .selector l.name = l := by
    obtain ⟨type, hl⟩ := hR.ordinal_node p i ho
    obtain ⟨a, ha⟩ := idOf_of_labelAt hl
    have hsel := selector_name (hR.isSelector ⟨type, hl⟩ hpq)
    refine ⟨a, (hR.denotes.externals i a).mpr (hR.toSound.view_ordinal.mpr ⟨p, ha, ho⟩), ?_, hsel⟩
    rw [ne_eq, hR.denotes.selector_eq_none, hsel]
    obtain ⟨b, hb⟩ := (hR.toSound.exists_view_link ha).mpr ⟨q, hpq⟩
    exact fun hnone => hnone b hb
  refine hw.exists_glue hR hi hlab hrank (fun p name hp y hy => ?_) (fun p i l q y z ho hpq hiy hyz => ?_)
    (fun p p' i j y l q q' ho ho' hpq hpq' hiy hjy => ?_)
  · obtain ⟨a, ha⟩ := idOf_of_labelAt hp
    have hlab' := hR.toSound.view_label.mpr ⟨p, ha, hp⟩
    obtain ⟨b, -, hb⟩ := hR.exists_variableTarget hlab'
    obtain ⟨z, -, hz⟩ := hw.exists_variableTarget hy
    exact hg.names y z a b name ((hw.denotes.pointer _ _ _).mpr ⟨hy, hz⟩) ((hR.denotes.pointer _ _ _).mpr ⟨hlab', hb⟩)
  · obtain ⟨a, hia, hsel, hl⟩ := houter p i q l ho hpq
    have hnone := hg.free i a y l.name hia ((hys i y).mpr hiy) hsel
    rw [hw.denotes.selector_eq_none, hl] at hnone
    exact hnone z hyz
  · obtain ⟨a, hia, hsel, -⟩ := houter p i q l ho hpq
    obtain ⟨b, hjb, hsel', -⟩ := houter p' j q' l ho' hpq'
    obtain rfl := hg.apart i j a b y l.name hia hjb ((hys i y).mpr hiy) ((hys j y).mpr hjy) hsel hsel'
    exact hR.ordinal_inj p p' i ho ho'

theorem WellFormed.externals_lt (hw : h.WellFormed) {y : Nat} (hy : y ∈ h.state.externals) : y < h.nextId := by
  obtain ⟨i, ho⟩ := hw.denotes.mem_externals.mp hy
  obtain ⟨type, ht⟩ := hw.toSound.proper.ordinal_node y i ho
  exact hw.toSound.proper.label_lt y _ ht

theorem WellFormed.find_of_state (hw : h.WellFormed) {id : Int} {kind : Kind} {err : HeapError}
    (hf : h.state.find id kind = .error err) : h.find id kind = .error err := by
  rcases hw.find_cases id kind with ⟨v, e, x, hfound⟩ | ⟨err', hf', hstate⟩
  · rw [hfound.state] at hf
    cases hf
  · rw [hstate] at hf
    cases hf
    exact hf'

theorem glue_of_find_error {edge : Int} {err : HeapError} (hf : h.find edge .nonterminal = .error err) :
    h.glue edge R = .error ⟨err, h⟩ := by
  simp [Heap.glue, hf, orAbort, bind, Except.bind]

theorem Sound.glue_of_rank_ne (hs : h.Sound) (hlab : h.view.label x = some (.nonterminal nt))
    (hk : nt.rank ≠ R.externalCount) : h.glue x R = .error ⟨.replacementRank x nt.rank R.externalCount, h⟩ := by
  obtain ⟨v, e, hf, -, -, -, hl⟩ := hs.exists_find hlab
  rw [Label.kind] at hf
  simp [Heap.glue, hf, orAbort, bind, Except.bind, hl, Label.rank, hk]

end

def tied : Heap where
  elements := [
    { label := .node "N", id := 0, arcs := [⟨1, [.selector "prev"]⟩], preds := [2] },
    { label := .node "N", id := 1, preds := [0] },
    { label := .nonterminal ⟨"L", 2⟩, id := 2, arcs := [⟨0, [.tentacle 0, .tentacle 1]⟩] }]
  nextId := 3

theorem wellFormed_tied : tied.WellFormed := by
  have h1 := wellFormed_empty.addNodes (show Heap.empty.addNodes "N" 2 = .ok (_, _) from rfl)
  have h2 := h1.addSelector (show Heap.addSelector _ 0 "prev" 1 = .ok _ from rfl)
  exact h2.addNonterminal (show Heap.addNonterminal _ ⟨"L", 2⟩ [0, 0] = .ok (tied, _) from rfl)

end Heap

theorem Workbench.replaceEdge_of_ne {w : Workbench} {d R : Draft} {n k : Nat} (hnk : n ≠ k) (hn : w.drafts[n]? = some d)
    (hk : w.drafts[k]? = some R) (edge : Int) : ∃ w', w.replaceEdge n edge k = (w', (d.replaceEdge edge R).2) ∧
      w'.drafts[n]? = some (d.replaceEdge edge R).1 ∧ ∀ m, m ≠ n → w'.drafts[m]? = w.drafts[m]? := by
  refine ⟨w.set n (d.replaceEdge edge R).1, ?_, ?_, fun m hm => ?_⟩
  · simp [Workbench.replaceEdge, hn, hk, hnk.symm]
  · rw [Workbench.set, List.getElem?_set_self (List.getElem?_eq_some_iff.mp hn).1]
  · rw [Workbench.set, List.getElem?_set_ne hm.symm]

namespace Draft

variable {d R : Draft} {edge : Int}

theorem phase_of_isActive (hd : d.isActive = true) : d.phase = .editing := by simpa [isActive] using hd

theorem replaceEdge_eq (hd : d.isActive = true) (hR : R.isActive = false) :
    d.replaceEdge edge R = match d.heap.glue edge R.heap with
      | .ok h => (⟨h, .editing⟩, .ok ())
      | .error e => (⟨e.heap, .editing⟩, .error e.error) := by
  have hphase := phase_of_isActive hd
  have hset : R.settled = .ok R.heap := by simp [settled, hR]
  cases hg : d.heap.glue edge R.heap with
  | ok h => exact replaceEdge_ok (by simp [hphase]) hset hg
  | error e => simp [replaceEdge, edit, hphase, hset, Heap.orAbort, hg, bind, Except.bind]

theorem exists_glue_of_replaceEdge {d' : Draft} (hd : d.isActive = true) (hR : R.isActive = false)
    (hg : d.replaceEdge edge R = (d', .ok ())) : ∃ h, d.heap.glue edge R.heap = .ok h ∧ d' = ⟨h, .editing⟩ := by
  rw [replaceEdge_eq hd hR] at hg
  cases hglue : d.heap.glue edge R.heap with
  | error e => simp [hglue] at hg
  | ok h =>
    rw [hglue] at hg
    exact ⟨h, rfl, (Prod.mk.inj hg).1.symm⟩

theorem replaceEdge_exact (d R : Draft) (hd : d.isActive = true) (hw : d.heap.WellFormed) (ha : R.isActive = false)
    (hR : R.heap.WellFormed) (hi : R.heap.Idle) :
    (∀ edge err, d.heap.state.find edge .nonterminal = .error err → d.replaceEdge edge R = (d, .error err)) ∧
    (∀ (w : Workbench) (n k : Nat) edge, n ≠ k → w.drafts[n]? = some d → w.drafts[k]? = some R →
      ∃ w', w.replaceEdge n edge k = (w', (d.replaceEdge edge R).2) ∧ w'.drafts[n]? = some (d.replaceEdge edge R).1 ∧
        ∀ m, m ≠ n → w'.drafts[m]? = w.drafts[m]?) ∧
    ∀ (x : Nat) nt ys, d.heap.state.hyperedge x = some (nt, ys) →
      (R.heap.state.externals.length ≠ ys.length →
        d.replaceEdge x R = (d, .error (.replacementRank x nt.rank R.heap.externalCount))) ∧
      ((d.replaceEdge x R).2 = .ok () ↔ d.heap.state.Gluable ys R.heap.state) ∧
      ∀ glued, d.replaceEdge x R = (glued, .ok ()) → glued.isActive = true ∧ glued.heap.WellFormed ∧
        glued.heap.nextId = d.heap.nextId + R.heap.innerIds.length ∧
        (∀ y ∈ glued.heap.state.externals, y < d.heap.nextId) ∧
        (∀ y < d.heap.nextId, y ≠ x → glued.heap.state.nodeType y = d.heap.state.nodeType y ∧
          glued.heap.state.hyperedge y = d.heap.state.hyperedge y ∧ glued.heap.state.pointer y = d.heap.state.pointer y) ∧
        ∃ g, R.heap.Sends ys d.heap.nextId g ∧ d.heap.state.Glued x R.heap.state g glued.heap.state := by
  have hs := hw.toSound
  have hself : (⟨d.heap, .editing⟩ : Draft) = d := by rw [← phase_of_isActive hd]
  refine ⟨fun edge err hf => ?_, fun w n k edge hnk hn hk => ?_, fun x nt ys hx => ⟨fun hlen => ?_, ?_, fun glued hglued => ?_⟩⟩
  · simp only [replaceEdge_eq hd ha, Heap.glue_of_find_error (hw.find_of_state hf), hself]
  · exact Workbench.replaceEdge_of_ne hnk hn hk edge
  · have hk : nt.rank ≠ R.heap.externalCount := by
      have := hw.length_tentacles hx
      have := hR.length_externals
      omega
    have hglue := hs.glue_of_rank_ne ((hw.denotes.hyperedge x nt ys).mp hx).1 hk
    simp only [replaceEdge_eq hd ha, hglue, hself]
  · constructor
    · intro hok
      obtain ⟨h, hglue, -⟩ := exists_glue_of_replaceEdge hd ha (Prod.ext rfl hok)
      exact hw.gluable hR hi hx hglue
    · intro hg
      obtain ⟨h, hglue⟩ := hw.glue_of_gluable hR hi hx hg
      rw [replaceEdge_eq hd ha, hglue]
  · obtain ⟨h, hglue, rfl⟩ := exists_glue_of_replaceEdge hd ha hglued
    obtain ⟨v, targets, bare, hid, hl, hk, hgluing⟩ := hw.exists_gluing_of_state hR hi hx hglue
    have hsends := hgluing.sends hw hid hl hk hx
    have hgw := hgluing.wellFormed hw hid hl
    have hstate := (hgluing.glues hs hid hl).2.glued hs.proper hR hw.denotes hgw.denotes (hs.wellFormed_iff.mp hw)
      ((hw.denotes.hyperedge x nt ys).mp hx).1
    exact ⟨rfl, hgw, hgluing.nextId, fun y hy => hw.externals_lt (hstate.externals ▸ hy),
      fun y hy hyx => hR.glued_old hi hsends hstate hy hyx, _, hsends, hstate⟩

theorem replaceEdge_exact_tied :
    replaceEdge ⟨Heap.tied, .editing⟩ 1 ⟨Heap.path, .idle⟩ =
        (⟨Heap.tied, .editing⟩, .error (.wrongKind 1 .node .nonterminal)) ∧
      Heap.tied.state.Gluable [0, 0] Heap.path.state ∧
      ∃ glued : Draft, replaceEdge ⟨Heap.tied, .editing⟩ 2 ⟨Heap.path, .idle⟩ = (glued, .ok ()) ∧
        glued.heap.state.selector 0 "prev" = some 1 ∧ glued.heap.state.selector 0 "next" = some 3 ∧
        glued.heap.state.selector 3 "next" = some 0 ∧ glued.heap.nextId = 4 := by
  obtain ⟨hkind, -, hedge⟩ := replaceEdge_exact ⟨Heap.tied, .editing⟩ ⟨Heap.path, .idle⟩ rfl Heap.wellFormed_tied rfl
    Heap.wellFormed_path (by decide)
  obtain ⟨-, hok, hglued⟩ := hedge 2 ⟨"L", 2⟩ [0, 0] rfl
  obtain ⟨-, -, hnext, -, -, g, ⟨hout, hin⟩, hstate⟩ := hglued _ rfl
  have hg0 : g 0 = 0 ∧ g 2 = 0 := by simpa [show Heap.path.state.externals = [0, 2] from rfl] using hout
  have hg1 : g 1 = 3 := by simpa [Heap.innerIds, Heap.path, Heap.tied] using hin
  exact ⟨hkind 1 _ rfl, hok.mp rfl, _, rfl, (hstate.selector 0 "prev" 1).mpr (.inl rfl),
    (hstate.selector 0 "next" 3).mpr (.inr ⟨0, 1, rfl, hg0.1, hg1⟩),
    (hstate.selector 3 "next" 0).mpr (.inr ⟨1, 2, rfl, hg1, hg0.2⟩), hnext⟩

end Draft

end HeapAbstraction
