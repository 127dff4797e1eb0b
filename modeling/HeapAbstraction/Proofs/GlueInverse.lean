import HeapAbstraction.Proofs.Answers
import HeapAbstraction.Proofs.Replacement

namespace HeapAbstraction

def HeapState.renamed (A : HeapState) (x y : Nat) : HeapState :=
  { (A.setHyperedge x none).setHyperedge y (A.hyperedge x) with nextId := y + 1 }

namespace HeapView

variable {A B C : HeapView} {x y : Nat} {nt : Nonterminal} {R : Heap} {g : Nat → Nat}

structure Renames (A : HeapView) (x : Nat) (nt : Nonterminal) (y : Nat) (C : HeapView) : Prop where
  nextId : C.nextId = y + 1
  label : ∀ z lab, C.label z = some lab ↔ (z = y ∧ lab = .nonterminal nt) ∨ (z ≠ x ∧ A.label z = some lab)
  ordinal : C.ordinal = A.ordinal
  link : ∀ a l b, C.link a l b ↔ (a = y ∧ A.link x l b) ∨ (a ≠ x ∧ A.link a l b)

theorem Renames.denotes (hr : Renames A x nt y C) (hA : A.Proper) (ht : A.Typed) (hx : A.label x = some (.nonterminal nt))
    (hy : A.nextId ≤ y) {a : HeapState} (ha : A.Denotes a) : C.Denotes (a.renamed x y) := by
  have hfresh (lab : Label) : A.label y ≠ some lab := fun hl => by
    have := hA.label_lt y lab hl
    omega
  have hxy : x ≠ y := fun h => hfresh _ (h ▸ hx)
  have hnolink (l : EdgeLabel) (b : Nat) : ¬ A.link y l b := fun hl => by
    obtain ⟨lab, hlab⟩ := hA.link_label y l b hl
    exact hfresh lab hlab
  have hother {z : Nat} (hzx : z ≠ x) (hzy : z ≠ y) (l : EdgeLabel) (b : Nat) : C.link z l b ↔ A.link z l b := by
    simp [hr.link, hzx, hzy]
  refine ⟨hr.nextId.symm, fun z type => ?_, fun z s b => ?_, fun z nt' zs => ?_, fun z name b => ?_, fun i z => ?_⟩
  · rw [hr.label]
    refine (ha.nodeType z type).trans ⟨fun hl => .inr ⟨?_, hl⟩, ?_⟩
    · rintro rfl
      simp [hx] at hl
    · rintro (⟨-, hl⟩ | ⟨-, hl⟩)
      · cases hl
      · exact hl
  · rw [hr.link]
    refine (ha.selector z s b).trans ⟨fun hl => .inr ⟨?_, hl⟩, ?_⟩
    · rintro rfl
      obtain ⟨type, htype⟩ := ht.selector_source hA hl
      simp [hx] at htype
    · rintro (⟨-, hl⟩ | ⟨-, hl⟩)
      · obtain ⟨type, htype⟩ := ht.selector_source hA hl
        simp [hx] at htype
      · exact hl
  · by_cases hzy : z = y
    · subst hzy
      simp only [HeapState.renamed, HeapState.setHyperedge, Function.update_self, ha.hyperedge, hr.label, hr.link, hx, hfresh,
        hnolink, and_false, or_false, true_and, Option.some.injEq, Label.nonterminal.injEq]
      rw [eq_comm]
    · by_cases hzx : z = x
      · subst hzx
        simp [HeapState.renamed, HeapState.setHyperedge, hzy, hr.label]
      · simp only [HeapState.renamed, HeapState.setHyperedge, Function.update_of_ne hzy, Function.update_of_ne hzx,
          ha.hyperedge, hr.label, hother hzx hzy, hzy, hzx, ne_eq, not_false_eq_true, false_and, false_or, true_and]
  · by_cases hzy : z = y
    · subst hzy
      have hnone : a.pointer z ≠ some (name, b) := fun hp => hfresh _ ((ha.pointer _ _ _).mp hp).1
      simp [HeapState.renamed, HeapState.setHyperedge, hnone, hr.label, hfresh]
    · by_cases hzx : z = x
      · subst hzx
        have hnone : a.pointer z ≠ some (name, b) := fun hp => by
          have hlab := ((ha.pointer _ _ _).mp hp).1
          simp [hx] at hlab
        simp [HeapState.renamed, HeapState.setHyperedge, hnone, hzy, hr.label]
      · simp only [HeapState.renamed, HeapState.setHyperedge, ha.pointer, hr.label, hother hzx hzy, hzy, hzx, ne_eq,
          not_false_eq_true, false_and, false_or, true_and]
  · rw [hr.ordinal]
    exact ha.externals i z

theorem Glues.not_absorbed (hg : Glues A x R g B) (hA : A.Proper) {z : Nat} {lab : Label} (hz : A.label z = some lab) :
    ¬ Absorbed R g z := by
  rintro ⟨p, lab', hl, ho, rfl⟩
  exact hg.label_inner hA hl ho lab hz

theorem Folds.renames (hf : Folds R B g nt C) (hg : Glues A x R g B) (hA : A.Proper) (ht : A.Typed) (hR : R.Sound)
    (hk : nt.rank = R.externalCount) (hx : A.label x = some (.nonterminal nt))
    (hfree : ∀ p i l q z, R.ordinalAt p = some i → R.Linked p l q → ¬ A.link (g p) l z) :
    Renames A x nt B.nextId C := by
  refine ⟨hf.nextId, fun z lab => ?_, hf.ordinal.trans hg.ordinal, fun c l b => ?_⟩
  · rw [hf.label, hg.label]
    refine or_congr_right ⟨?_, fun hz => ⟨.inl hz, hg.not_absorbed hA hz.2⟩⟩
    rintro ⟨hz | ⟨p, hl, ho, rfl⟩, hab⟩
    · exact hz
    · exact absurd ⟨p, lab, hl, ho, rfl⟩ hab
  · rw [hf.link, or_comm]
    refine or_congr (and_congr_right fun _ => ?_) ?_
    · constructor
      · rintro ⟨i, p, rfl, ho, rfl⟩
        exact hg.outer p i ho
      · intro hl
        obtain ⟨k, hrank, hten⟩ := ht.fits x _ hx
        obtain ⟨i, hik, rfl⟩ := (hten l).mp ⟨b, hl⟩
        obtain ⟨p, ho⟩ := hR.exists_ordinal.mpr (show i < R.externalCount by omega)
        exact ⟨i, p, rfl, ho, hA.link_functional _ _ _ _ (hg.outer p i ho) hl⟩
    · rw [hg.link]
      constructor
      · rintro ⟨⟨hl, hne⟩ | ⟨p, q, hpq, hpc, -⟩, hcov, -⟩
        · exact ⟨hne, hl⟩
        · exact absurd hpc (hcov p q hpq)
      · rintro ⟨hne, hl⟩
        obtain ⟨lab, hlab⟩ := hA.link_label _ _ _ hl
        obtain ⟨type, htype⟩ := hA.link_node _ _ _ hl
        refine ⟨.inl ⟨hl, hne⟩, fun p q hpq hpc => ?_, hg.not_absorbed hA hlab, hg.not_absorbed hA htype⟩
        obtain ⟨i, -, ho, -⟩ := hg.shared hA hR hlab hpq hpc
        exact hfree p i l q b ho hpq (hpc ▸ hl)

end HeapView

namespace Heap

variable {h h' R bare : Heap} {targets : List Nat} {v x : Nat} {nt : Nonterminal}

theorem Gluing.placed (hg : Gluing h v R targets bare h') (hs : h.Sound) (hid : h.idOf v = some x)
    (hl : h.labelAt v = some (.nonterminal nt)) : HeapView.Placed R h'.view (copyId targets bare R) := by
  have hR := hg.copied.wellFormed
  have hglues := (hg.glues hs hid hl).2
  have hp := hs.proper
  have hapart (p q : Nat) (lab lab' : Label) (hlp : R.labelAt p = some lab) (hlq : R.labelAt q = some lab')
      (ho : R.ordinalAt p = none) (hpq : copyId targets bare R p = copyId targets bare R q) : p = q := by
    cases ho' : R.ordinalAt q with
    | none => exact hglues.inj p q lab lab' hlp ho hlq ho' hpq
    | some i =>
      obtain ⟨type, htype⟩ := hp.link_node _ _ _ (hglues.outer q i ho')
      exact absurd (hpq ▸ htype) (hglues.label_inner hp hlp ho _)
  refine ⟨fun p lab hlp => ?_, hapart, fun p l q hpq => (hglues.link _ _ _).mpr (.inr ⟨p, q, hpq, rfl, rfl⟩),
    fun p p' l q q' hpq hpq' => hg.link_apart hpq hpq', fun p lab hlp ho => ?_, fun p lab l y hlp ho hlink => ?_⟩
  · cases ho : R.ordinalAt p with
    | none => rw [(hglues.label _ _).mpr (.inr ⟨p, hlp, ho, rfl⟩), Option.map_some]
    | some i =>
      obtain ⟨type, htype⟩ := hp.link_node _ _ _ (hglues.outer p i ho)
      have hne : copyId targets bare R p ≠ x := fun hx => by
        rw [hx, hs.view_label_of_idOf hid, hl] at htype
        cases htype
      obtain ⟨type', hnode⟩ := hR.ordinal_node p i ho
      obtain rfl := Option.some.inj (hlp.symm.trans hnode)
      rw [(hglues.label _ _).mpr (.inl ⟨hne, htype⟩)]
      rfl
  · rw [hglues.ordinal]
    refine Option.eq_none_iff_forall_ne_some.mpr fun i hi => ?_
    obtain ⟨type, htype⟩ := hp.ordinal_node _ i hi
    exact hglues.label_inner hp hlp ho _ htype
  · rcases (hglues.link _ _ _).mp hlink with ⟨hlk, -⟩ | ⟨q, p', hq, hqy, hpp⟩
    · obtain ⟨type, htype⟩ := hp.link_node _ _ _ hlk
      exact absurd htype (hglues.label_inner hp hlp ho _)
    · obtain ⟨type, htype⟩ := hR.ends q p' hq.joined
      obtain rfl := hapart p p' _ _ hlp htype ho hpp.symm
      exact ⟨q, hq, hqy⟩

theorem Sends.eq {ys : List Nat} {n : Nat} {g g' : Nat → Nat} (hg : R.Sends ys n g) (hg' : R.Sends ys n g') (hR : R.Sound)
    {e : Element} (he : e ∈ R.elements) : g e.id = g' e.id := by
  cases ho : e.ordinal with
  | none =>
    have hmem : e.id ∈ R.innerIds := List.mem_map_of_mem (List.mem_filter.mpr ⟨he, by simp [ho]⟩)
    exact List.map_inj_left.mp (hg.inner.trans hg'.inner.symm) _ hmem
  | some i =>
    obtain ⟨p, hp⟩ := List.mem_iff_getElem?.mp he
    have hord : R.view.ordinal e.id = some i := hR.view_ordinal.mpr ⟨p, by simp [idOf, hp], by simp [ordinalAt, hp, ho]⟩
    have hmem : e.id ∈ R.state.externals := List.mem_of_getElem? ((hR.externals_state i _).mpr hord)
    exact List.map_inj_left.mp (hg.outer.trans hg'.outer.symm) _ hmem

theorem Sends.getElem?_image {ys : List Nat} {n p : Nat} {g f : Nat → Nat} (hg : R.Sends ys n g)
    (hf : R.Sends ys n (R.byId f)) (hR : R.Sound) (hi : R.Idle) (hp : p < R.elements.length) :
    (R.elements.map (fun e => (g e.id : Int)))[p]? = some (f p : Int) := by
  have he := List.getElem?_eq_getElem hp
  have hid : R.idOf p = some R.elements[p].id := by rw [idOf, he, Option.map_some]
  rw [List.getElem?_map, he, Option.map_some, hg.eq hf hR (List.getElem_mem hp), hR.byId_eq f hid (hi.labelAt hp)]

theorem Gluing.exists_fold (hg : Gluing h v R targets bare h') (hw : h.WellFormed) (hid : h.idOf v = some x)
    (hl : h.labelAt v = some (.nonterminal nt)) (hk : nt.rank = R.externalCount) {k : Heap} (hkw : k.WellFormed)
    (hview : k.view = h'.view) (harcs : k.arcsOf = h'.arcsOf) {image : List Int} (hlen : image.length = R.elements.length)
    (himg : ∀ p < R.elements.length, image[p]? = some (copyId targets bare R p : Int)) :
    ∃ f, k.fold ⟨R, image⟩ nt = .ok f ∧ f.WellFormed ∧ HeapView.Renames h.view x nt k.nextId f.view ∧
      ∀ z lab, h.view.label z = some lab → z ≠ x → f.arcsOf z = h.arcsOf z := by
  classical
  have hs := hw.toSound
  have hR := hg.copied.wellFormed
  have hglues := (hg.glues hs hid hl).2
  have hplaced := hview ▸ hg.placed hs hid hl
  have hx : h.view.label x = some (.nonterminal nt) := hs.view_label.mpr ⟨v, hid, hl⟩
  obtain ⟨f, hfold, hfolds, hfw⟩ := hkw.fold hR hg.copied.idle hplaced hlen himg hk
  refine ⟨f, hfold, hfw, ?_, fun z lab hz hzx => ?_⟩
  · have hnext : k.nextId = h'.view.nextId := congrArg HeapView.nextId hview
    rw [hnext]
    exact (hview ▸ hfolds).renames hglues hs.proper (hs.wellFormed_iff.mp hw) hR.toSound hk hx
      fun p i l q z ho hpq => hg.not_link_outer hs hl ho hpq z
  · have hlab : k.view.label z = some lab := by
      rw [hview]
      exact (hglues.label z lab).mpr (.inl ⟨hzx, hz⟩)
    -- the selectors that the replacement brought, and none of those from before, go with it
    have hbefore (l : EdgeLabel) (t : Nat) (hc : Arc.Carries (h.arcsOf z) l t) (p q : Nat) (hpq : R.Linked p l q) :
        copyId targets bare R p ≠ z := by
      intro hpz
      obtain ⟨i, -, ho, -⟩ := hglues.shared hs.proper hR.toSound hz hpq hpz
      exact hg.not_link_outer hs hl ho hpq t (hpz ▸ hs.carries_arcsOf.mp hc)
    calc f.arcsOf z
        = Arc.restrict (fun l => ∀ p q, R.Linked p l q → copyId targets bare R p ≠ z) (k.arcsOf z) :=
          hR.arcsOf_fold hg.copied.idle hkw.toSound hfw.toSound hplaced himg hfold hlab
            (hglues.not_absorbed hs.proper hz) (by simp)
      _ = Arc.restrict (fun l => ∀ p q, R.Linked p l q → copyId targets bare R p ≠ z) (h'.arcsOf z) := by rw [harcs]
      _ = Arc.restrict (fun l => ∀ p q, R.Linked p l q → copyId targets bare R p ≠ z) (h.arcsOf z) :=
          hg.restrict_arcsOf hs hid hl hz hzx fun p l q hpq hpz => decide_eq_false fun hall => hall p q hpq hpz
      _ = h.arcsOf z :=
          Arc.restrict_eq_self hs.arcsOf_labelled fun l t hc => decide_eq_true (hbefore l t hc)

end Heap

namespace Draft

def Resumes (d mid : Draft) : Prop := mid = d ∨ ∃ built, d.build = (built, .ok ()) ∧ mid = built.begin

theorem Resumes.same {d mid : Draft} (hm : d.Resumes mid) (hd : d.isActive = true) (hw : d.heap.WellFormed) :
    mid.phase = .editing ∧ mid.heap.WellFormed ∧ mid.heap.view = d.heap.view ∧ mid.heap.arcsOf = d.heap.arcsOf := by
  have hphase := phase_of_isActive hd
  rcases hm with rfl | ⟨built, hb, rfl⟩
  · exact ⟨hphase, hw, rfl, rfl⟩
  · obtain ⟨h, hh, -⟩ := hw.toSound.build
    rw [build_ok (by simp [hphase]) hh] at hb
    obtain ⟨rfl, -⟩ := Prod.mk.inj hb
    obtain ⟨hw', -, hview⟩ := hw.build hh
    exact ⟨rfl, hw', hview, hw.toSound.arcsOf_build hh⟩

theorem fold_replaceEdge (host R : Draft) {x : Nat} {nt : Nonterminal} {ys : List Nat} {unfolded mid : Draft}
    {g : Nat → Nat} (hw : host.heap.WellFormed) (ha : R.isActive = false) (hR : R.heap.WellFormed) (hi : R.heap.Idle)
    (hx : host.heap.state.hyperedge x = some (nt, ys)) (hu : host.begin.replaceEdge x R = (unfolded, .ok ()))
    (hm : unfolded.Resumes mid) (hg : R.heap.Sends ys host.heap.nextId g) :
    ∃ folded, mid.fold ⟨R.heap, R.heap.elements.map (fun e => (g e.id : Int))⟩ nt = (folded, .ok ()) ∧
      folded.heap.WellFormed ∧ folded.heap.state = host.heap.state.renamed x mid.heap.nextId ∧
      ∀ (z : Nat) type, host.heap.state.nodeType z = some type →
        folded.heap.selectorsOf z = host.heap.selectorsOf z ∧ folded.heap.successorsOf z = host.heap.successorsOf z := by
  have hs := hw.toSound
  obtain ⟨h', hglue, rfl⟩ := exists_glue_of_replaceEdge rfl ha hu
  obtain ⟨v, targets, bare, hid, hl, hk, hgluing⟩ := hw.exists_gluing_of_state hR hi hx hglue
  obtain ⟨hphase, hkw, hview, harcs⟩ := hm.same rfl (hgluing.wellFormed hw hid hl)
  have hsends := hgluing.sends hw hid hl hk hx
  obtain ⟨f, hfold, hfw, hrenames, hfarcs⟩ := hgluing.exists_fold hw hid hl hk hkw hview harcs (by simp)
    fun p hp => hg.getElem?_image hsends hR.toSound hi hp
  have hlab := ((hw.denotes.hyperedge x nt ys).mp hx).1
  have hnext : host.heap.nextId ≤ mid.heap.nextId := by
    rw [show mid.heap.nextId = h'.nextId from congrArg HeapView.nextId hview, hgluing.nextId]
    exact Nat.le_add_right _ _
  refine ⟨⟨f, .editing⟩, ?_, hfw, ?_, fun z type hz => ?_⟩
  · refine edit_ok (by simp [hphase]) ?_
    rw [hfold]
    rfl
  · exact hfw.denotes.unique (hrenames.denotes hs.proper (hs.wellFormed_iff.mp hw) hlab hnext hw.denotes)
  · have hz := (hw.denotes.nodeType z type).mp hz
    have hzx : z ≠ x := by
      rintro rfl
      simp [hlab] at hz
    have hz' := (hrenames.label z _).mpr (.inr ⟨hzx, hz⟩)
    have harc := hfarcs z _ hz hzx
    rw [Heap.selectorsOf_eq hfw.toSound hz', Heap.selectorsOf_eq hs hz, Heap.successorsOf_eq hfw.toSound hz',
      Heap.successorsOf_eq hs hz, harc]
    exact ⟨rfl, rfl⟩

theorem fold_replaceEdge_tied : Heap.tied.WellFormed ∧ Heap.tied.state.hyperedge 2 = some (⟨"L", 2⟩, [0, 0]) ∧
    Heap.path.Sends [0, 0] 3 (fun a => if a = 1 then 3 else 0) ∧
    ∃ unfolded built folded : Draft, replaceEdge ⟨Heap.tied, .editing⟩ 2 ⟨Heap.path, .idle⟩ = (unfolded, .ok ()) ∧
      unfolded.build = (built, .ok ()) ∧ built.heap.selectorsOf 0 = .ok ["prev", "next"] ∧
      built.begin.fold ⟨Heap.path, [0, 3, 0]⟩ ⟨"L", 2⟩ = (folded, .ok ()) ∧
      folded.heap.state = Heap.tied.state.renamed 2 4 ∧ folded.heap.selectorsOf 0 = .ok ["prev"] := by
  have hx : Heap.tied.state.hyperedge 2 = some (⟨"L", 2⟩, [0, 0]) := rfl
  have hg : Heap.path.Sends [0, 0] 3 (fun a => if a = 1 then 3 else 0) := ⟨rfl, rfl⟩
  obtain ⟨folded, hfold, -, hstate, horder⟩ := fold_replaceEdge ⟨Heap.tied, .idle⟩ ⟨Heap.path, .idle⟩ Heap.wellFormed_tied rfl
    Heap.wellFormed_path (by decide) hx rfl (.inr ⟨_, rfl, rfl⟩) hg
  exact ⟨Heap.wellFormed_tied, hx, hg, _, _, folded, rfl, rfl, rfl, hfold, hstate, (horder 0 "N" rfl).1.trans rfl⟩

end Draft

end HeapAbstraction
