import HeapAbstraction.Proofs.Folding
import HeapAbstraction.Proofs.Compaction

namespace HeapAbstraction

namespace Arc

variable {as : List Arc} {keep keep' : EdgeLabel → Bool} {l : EdgeLabel} {t : Nat}

def restrict (keep : EdgeLabel → Bool) : List Arc → List Arc
  | [] => []
  | a :: rest =>
      if (a.labels.filter keep).isEmpty then restrict keep rest
      else { a with labels := a.labels.filter keep } :: restrict keep rest

theorem carries_restrict : Carries (restrict keep as) l t ↔ Carries as l t ∧ keep l = true := by
  induction as with
  | nil => simp [restrict]
  | cons a as ih =>
    rw [restrict, carries_cons]
    split
    · rename_i hempty
      have hnone : ¬ (l ∈ a.labels ∧ keep l = true) := by
        rw [← List.mem_filter, List.isEmpty_iff.mp hempty]
        exact List.not_mem_nil
      rw [ih]
      tauto
    · rw [carries_cons, ih, List.mem_filter]
      tauto

theorem restrict_congr (h : ∀ l t, Carries as l t → keep l = keep' l) : restrict keep as = restrict keep' as := by
  induction as with
  | nil => rfl
  | cons a as ih =>
    have hl : a.labels.filter keep = a.labels.filter keep' :=
      List.filter_congr fun l hl => h l a.target (by simp [hl])
    rw [restrict, restrict, hl, ih fun l t hc => h l t (by simp [hc])]

theorem restrict_eq_self (hne : ∀ a ∈ as, a.labels ≠ []) (h : ∀ l t, Carries as l t → keep l = true) :
    restrict keep as = as := by
  induction as with
  | nil => rfl
  | cons a as ih =>
    have hl : a.labels.filter keep = a.labels := List.filter_eq_self.mpr fun l hl => h l a.target (by simp [hl])
    have ih := ih (fun b hb => hne b (List.mem_cons_of_mem _ hb)) fun l t hc => h l t (by simp [hc])
    rw [restrict, hl, if_neg (by simpa using hne a List.mem_cons_self), ih]

theorem restrict_restrict : restrict keep (restrict keep' as) = restrict (fun l => keep' l && keep l) as := by
  induction as with
  | nil => rfl
  | cons a as ih =>
    have hl : (a.labels.filter keep').filter keep = a.labels.filter (fun l => keep' l && keep l) := by
      rw [List.filter_filter]
      simp only [Bool.and_comm]
    rw [restrict, restrict]
    split
    · rename_i hempty
      rw [List.isEmpty_iff.mp hempty] at hl
      rw [← hl, ih]
      rfl
    · rw [restrict, ih, hl]

theorem restrict_insertLabel (hk : keep l = false) : restrict keep (insertLabel t l as) = restrict keep as := by
  induction as with
  | nil => simp [insertLabel, restrict, hk]
  | cons a as ih =>
    by_cases ha : a.target = t
    · simp only [insertLabel, ha, if_true, restrict, List.filter_append, List.filter_cons, hk, Bool.false_eq_true,
        if_false, List.filter_nil, List.append_nil]
    · simp only [insertLabel, ha, if_false, restrict, ih]

theorem dropLabel_eq_restrict (h : Tidy as) (hl : Carries as l t) : dropLabel t l as = restrict (fun m => m != l) as := by
  induction as with
  | nil => rfl
  | cons a as ih =>
    obtain ⟨ht, hn, hne, hd, hr⟩ := tidy_cons.mp h
    rw [dropLabel, restrict]
    rcases (carries_cons a).mp hl with ⟨ha, hla⟩ | hrest
    · have hother : restrict (fun m => m != l) as = as :=
        restrict_eq_self hr.labelled fun m w hm => bne_iff_ne.mpr fun hml => hd l hla w (hml ▸ hm)
      rw [if_pos ha, hn.erase_eq_filter, hother]
    · have ha : a.target ≠ t := fun hat => ht (hat ▸ hrest.reaches)
      have hla : a.labels.filter (fun m => m != l) = a.labels :=
        List.filter_eq_self.mpr fun m hm => bne_iff_ne.mpr fun hml => hd m hm t (hml ▸ hrest)
      rw [if_neg ha, hla, if_neg (by simpa using hne), ih hr hrest]

theorem restrict_moved (f : Nat → Nat) : restrict keep (moved f as) = moved f (restrict keep as) := by
  induction as with
  | nil => rfl
  | cons a as ih =>
    change restrict keep ({ a with target := f a.target } :: moved f as) = _
    rw [restrict, restrict, ih]
    split <;> rfl

theorem moved_congr {f g : Nat → Nat} (h : ∀ t, Reaches as t → f t = g t) : moved f as = moved g as :=
  List.map_congr_left fun a ha => by rw [h a.target ⟨a, ha, rfl⟩]

theorem moved_moved (f g : Nat → Nat) : moved g (moved f as) = moved (g ∘ f) as := by simp [moved]

theorem flatMap_labels_restrict : (restrict keep as).flatMap Arc.labels = (as.flatMap Arc.labels).filter keep := by
  induction as with
  | nil => rfl
  | cons a as ih =>
    rw [restrict, List.flatMap_cons, List.filter_append, ← ih]
    split
    · rename_i hempty
      rw [List.isEmpty_iff.mp hempty, List.nil_append]
    · rw [List.flatMap_cons]

end Arc

namespace Heap

variable {h h' R : Heap} {u v w x y t : Nat} {l : EdgeLabel} {lab : Label} {keep : EdgeLabel → Bool} {m : Matching}

def publicId (h : Heap) (v : Nat) : Nat := (h.idOf v).getD 0

def arcsOf (h : Heap) (x : Nat) : List Arc := ((h.slot? x).map (fun v => Arc.moved h.publicId (h.out v))).getD []

namespace Sound

theorem arcsOf_eq (hs : h.Sound) (hid : h.idOf v = some x) : h.arcsOf x = Arc.moved h.publicId (h.out v) := by
  cases hl : h.labelAt v with
  | some lab => simp [arcsOf, hs.slot?_eq hid hl]
  | none =>
    have hslot : h.slot? x = none := by
      cases hw : h.slot? x with
      | none => rfl
      | some w =>
        obtain ⟨hidw, lab, hlw⟩ := hs.slot?_eq_some.mp hw
        rw [hs.id_inj v w x hid hidw, hlw] at hl
        simp at hl
    rw [arcsOf, hslot, hs.bare v hl]
    rfl

theorem publicId_target (hs : h.Sound) (hj : h.Joined u v) : h.idOf v = some (h.publicId v) := by
  obtain ⟨type, ht⟩ := hs.ends u v hj
  obtain ⟨y, hy⟩ := idOf_of_labelAt ht
  rw [publicId, hy, Option.getD_some]

theorem carries_arcsOf (hs : h.Sound) : Arc.Carries (h.arcsOf x) l y ↔ h.view.link x l y := by
  constructor
  · intro hc
    cases hw : h.slot? x with
    | none => simp [arcsOf, hw] at hc
    | some v =>
      obtain ⟨hid, -⟩ := hs.slot?_eq_some.mp hw
      rw [hs.arcsOf_eq hid] at hc
      obtain ⟨t, ht, rfl⟩ := Arc.carries_moved.mp hc
      exact ⟨v, t, hid, hs.publicId_target ht.reaches, ht⟩
  · rintro ⟨v, t, hid, hy, hl⟩
    rw [hs.arcsOf_eq hid]
    exact Arc.carries_moved.mpr ⟨t, hl, by rw [publicId, hy, Option.getD_some]⟩

theorem arcsOf_labelled (hs : h.Sound) : ∀ a ∈ h.arcsOf x, a.labels ≠ [] := by
  intro a ha
  cases hw : h.slot? x with
  | none => simp [arcsOf, hw] at ha
  | some v =>
    rw [hs.arcsOf_eq (hs.slot?_eq_some.mp hw).1] at ha
    obtain ⟨b, hb, rfl⟩ := List.mem_map.mp ha
    exact (hs.tidy v).labelled b hb

theorem restrict_arcsOf (hs : h.Sound) (hs' : h'.Sound) (hids : ∀ w y, h.idOf w = some y → h'.idOf w = some y)
    (hid : h.idOf v = some x) {keep' : EdgeLabel → Bool}
    (ho : Arc.restrict keep' (h'.out v) = Arc.restrict keep (h.out v)) :
    Arc.restrict keep' (h'.arcsOf x) = Arc.restrict keep (h.arcsOf x) := by
  have hmoved : Arc.moved h'.publicId (h.out v) = Arc.moved h.publicId (h.out v) := by
    refine Arc.moved_congr fun t ht => ?_
    have hy := hs.publicId_target ht
    rw [publicId, hids t _ hy, Option.getD_some]
  rw [hs.arcsOf_eq hid, hs'.arcsOf_eq (hids v x hid), Arc.restrict_moved, ho, ← Arc.restrict_moved, hmoved]

end Sound

theorem restrict_out_link (hk : u = v → keep l = false) :
    Arc.restrict keep ((h.link u t l).out v) = Arc.restrict keep (h.out v) := by
  simp only [out, getElem?_link]
  cases h.elements[v]? with
  | none => rfl
  | some e =>
    by_cases hu : u = v
    · simp [hu, Arc.restrict_insertLabel (hk hu)]
    · simp [hu]

theorem restrict_out_linkAll {ks : List Link} (hk : ∀ k ∈ ks, k.source = v → keep k.label = false) :
    Arc.restrict keep ((h.linkAll ks).out v) = Arc.restrict keep (h.out v) := by
  induction ks generalizing h with
  | nil => rfl
  | cons k ks ih =>
    change Arc.restrict keep (((h.link k.source k.target k.label).linkAll ks).out v) = _
    rw [ih fun j hj => hk j (List.mem_cons_of_mem _ hj), restrict_out_link (hk k List.mem_cons_self)]

theorem sameFaces_linkAll {ks : List Link} : SameFaces h (h.linkAll ks) := by
  induction ks generalizing h with
  | nil => exact .refl
  | cons k ks ih => exact sameFaces_link.trans ih

theorem out_addAll {labs : List Label} : (h.addAll labs).out v = h.out v := by
  induction labs generalizing h with
  | nil => rfl
  | cons lab labs ih => exact ih.trans out_addElement

theorem idOf_addAll {labs : List Label} (hid : h.idOf v = some x) : (h.addAll labs).idOf v = some x := by
  obtain ⟨e, he, -⟩ := Option.map_eq_some_iff.mp hid
  rwa [idOf, getElem?_addAll_old (List.getElem?_eq_some_iff.mp he).1]

theorem Moved.arcsOf {f : Nat → Nat} (hm : Moved h f h') (hs : h.Sound) : h'.arcsOf = h.arcsOf := by
  funext x
  cases hv : h.slot? x with
  | some v =>
    obtain ⟨hid, hlive⟩ := hs.slot?_eq_some.mp hv
    rw [← live_iff] at hlive
    rw [hs.arcsOf_eq hid, (hm.sound hs).arcsOf_eq ((hm.idOf hlive).trans hid), hm.out hlive, Arc.moved_moved]
    refine Arc.moved_congr fun t ht => ?_
    rw [Function.comp_apply, publicId, hm.idOf (live_ends hs ht).2, publicId]
  | none =>
    have hv' : h'.slot? x = none := by
      refine Option.eq_none_iff_forall_ne_some.mpr fun w hw => ?_
      obtain ⟨v, hlive, -, hid⟩ := hm.idOf_eq_some.mp ((hm.sound hs).slot?_eq_some.mp hw).1
      obtain ⟨lab, hl⟩ := live_iff.mp hlive
      simp [hs.slot?_eq hid hl] at hv
    simp [Heap.arcsOf, hv, hv']

theorem Sound.arcsOf_build (hs : h.Sound) (hb : h.build = .ok h') : h'.arcsOf = h.arcsOf := by
  rw [Heap.build] at hb
  split at hb
  · split at hb
    · cases hb
      exact (moved_compact h).arcsOf hs
    · cases hb
  · cases hb
    rfl

section Fold

theorem imageOf_ok {p : Nat} (hs : h.Sound) (hi : m.imageOf h p = .ok v) :
    ∃ x : Nat, m.image[p]? = some (x : Int) ∧ h.idOf v = some x ∧ ∃ lab, h.labelAt v = some lab := by
  rw [Matching.imageOf] at hi
  split at hi
  · rename_i e id he hid
    obtain ⟨d, hf⟩ := fst_map_ok hi
    obtain ⟨x, rfl, hx, -, hl, -⟩ := find_ok hs hf
    exact ⟨x, hid, hx, _, hl⟩
  · simp at hi

theorem out_removeSelectorAt {s : Bytes} (hs : h.Sound) (hr : h.removeSelectorAt v s = .ok h') :
    h'.Sound ∧ SameFaces h h' ∧
      ∀ w, h'.out w = if v = w then Arc.restrict (fun l => l != .selector s) (h.out w) else h.out w := by
  rw [Heap.removeSelectorAt] at hr
  split at hr
  · simp at hr
  · rename_i e he
    split at hr
    · rename_i t ht
      have hc := Element.carries_of_targetOf? ht
      have hl : h.Linked v (.selector s) t := by rwa [Linked, out_eq he]
      obtain ⟨a, ha⟩ := Option.isSome_iff_exists.mp (Element.arcTo?_isSome.mpr hc.reaches)
      rw [Heap.unlink] at hr
      split at hr
      · cases hr
        refine ⟨sound_unlink hs hl he ha, sameFaces_unlink he ha, fun w => ?_⟩
        rw [out_unlink he ha]
        split
        · rename_i hvw
          rw [Arc.dropLabel_eq_restrict (hs.tidy w) (hvw ▸ hl)]
        · rfl
      · simp at hr
    · simp at hr

def keeps (m : Matching) (sels : List (Nat × Bytes)) (x : Nat) (l : EdgeLabel) : Bool :=
  sels.all (fun k => !(m.image[k.1]? == some (x : Int) && l == .selector k.2))

theorem keeps_eq_true {sels : List (Nat × Bytes)} : keeps m sels x l = true ↔
    ∀ p s, (p, s) ∈ sels → m.image[p]? = some (x : Int) → l ≠ .selector s := by
  simp [keeps, imp_iff_not_or]

theorem out_removeImageSelectors {sels : List (Nat × Bytes)} (hs : h.Sound)
    (hr : removeImageSelectors m h sels = .ok h') : h'.Sound ∧ SameFaces h h' ∧
      ∀ v x, h.idOf v = some x → h'.out v = Arc.restrict (keeps m sels x) (h.out v) := by
  induction sels generalizing h with
  | nil =>
    cases hr
    exact ⟨hs, .refl, fun v x _ => (Arc.restrict_eq_self (hs.tidy v).labelled fun _ _ _ => rfl).symm⟩
  | cons k sels ih =>
    obtain ⟨p, s⟩ := k
    obtain ⟨w, hw, hr⟩ := bind_ok hr
    obtain ⟨h1, h1eq, hr⟩ := bind_ok hr
    obtain ⟨z, hz, hidw, -⟩ := imageOf_ok hs (orAbort_ok hw)
    obtain ⟨hs1, hf1, ho1⟩ := out_removeSelectorAt hs (orAbort_ok h1eq)
    obtain ⟨hs', hf', ho'⟩ := ih hs1 hr
    refine ⟨hs', hf1.trans hf', fun v x hid => ?_⟩
    rw [ho' v x (by rw [hf1.idOf, hid]), ho1]
    split
    · rename_i hwv
      subst hwv
      obtain rfl := Option.some.inj (hidw.symm.trans hid)
      rw [Arc.restrict_restrict]
      refine Arc.restrict_congr fun l t _ => ?_
      simp [keeps, hz, bne]
    · rename_i hwv
      have hzx : m.image[p]? ≠ some (x : Int) := by
        rw [hz]
        intro hzx
        obtain rfl : z = x := by simpa using hzx
        exact hwv (hs.id_inj w v z hidw hid)
      refine Arc.restrict_congr fun l t _ => ?_
      simp [keeps, hzx]

theorem out_removeImages {ps : List Nat} (hs : h.Sound) (hr : removeImages m h ps = .ok h') (hid : h.idOf v = some x)
    (hx : ∀ p ∈ ps, m.image[p]? ≠ some (x : Int))
    (hfar : ∀ t y, h.Joined v t → h.idOf t = some y → ∀ p ∈ ps, m.image[p]? ≠ some (y : Int)) :
    h'.idOf = h.idOf ∧ h'.out v = h.out v := by
  induction ps generalizing h with
  | nil =>
    cases hr
    exact ⟨rfl, rfl⟩
  | cons p ps ih =>
    obtain ⟨w, hw, hr⟩ := bind_ok hr
    obtain ⟨h1, h1eq, hr⟩ := bind_ok hr
    obtain ⟨z, hz, hidw, lab, hlw⟩ := imageOf_ok hs (orAbort_ok hw)
    obtain ⟨h1', h1eq', hrem⟩ := hs.removeAt hlw
    obtain rfl := Except.ok.inj (h1eq'.symm.trans (orAbort_ok h1eq))
    have hvw : v ≠ w := by
      rintro rfl
      obtain rfl := Option.some.inj (hidw.symm.trans hid)
      exact hx p List.mem_cons_self hz
    have ho1 : h1'.out v = h.out v := by
      rw [hrem.out v hvw]
      exact Arc.awayFrom_of_not_reaches fun hj => hfar w z hj hidw p List.mem_cons_self hz
    obtain ⟨hid', ho'⟩ := ih hrem.sound hr (by rw [hrem.idOf, hid]) (fun q hq => hx q (List.mem_cons_of_mem _ hq))
      (fun t y hj hy q hq => by
        rw [Joined, ho1] at hj
        rw [hrem.idOf] at hy
        exact hfar t y hj hy q (List.mem_cons_of_mem _ hq))
    exact ⟨hid'.trans hrem.idOf, ho'.trans ho1⟩

theorem exists_of_fold {nt : Nonterminal} (hf : h.fold m nt = .ok h') : ∃ stripped targets bare,
    removeImageSelectors m h m.selectors = .ok stripped ∧ removeImages m stripped m.absorbed = .ok bare ∧
      h' = bare.attachAs (.nonterminal nt) targets := by
  simp only [Heap.fold] at hf
  split at hf
  · simp at hf
  · split at hf
    · simp at hf
    · obtain ⟨stripped, hr1, hf⟩ := bind_ok hf
      obtain ⟨targets, -, hf⟩ := bind_ok hf
      obtain ⟨bare, hr2, hf⟩ := bind_ok hf
      cases hf
      exact ⟨stripped, targets, bare, hr1, hr2, attach_eq nt targets⟩

theorem Sound.arcsOf_fold {nt : Nonterminal} (hs : h.Sound) (hs' : h'.Sound) (hf : h.fold m nt = .ok h')
    (hid : h.idOf v = some x) (hx : ∀ p ∈ m.absorbed, m.image[p]? ≠ some (x : Int))
    (hfar : ∀ l y, h.view.link x l y → keeps m m.selectors x l = true →
      ∀ p ∈ m.absorbed, m.image[p]? ≠ some (y : Int)) :
    h'.arcsOf x = Arc.restrict (keeps m m.selectors x) (h.arcsOf x) := by
  obtain ⟨stripped, targets, bare, hr1, hr2, rfl⟩ := exists_of_fold hf
  obtain ⟨hs1, hf1, ho1⟩ := out_removeImageSelectors hs hr1
  obtain ⟨hid2, ho2⟩ := out_removeImages hs1 hr2 (by rw [hf1.idOf, hid]) hx fun t y hj hy => by
    obtain ⟨l, hl⟩ := hs1.joined_iff.mp hj
    rw [Linked, ho1 v x hid, Arc.carries_restrict] at hl
    exact hfar l y ⟨v, t, hid, hf1.idOf ▸ hy, hl.1⟩ hl.2
  have hids (w y : Nat) (hw : h.idOf w = some y) : (bare.attachAs (.nonterminal nt) targets).idOf w = some y := by
    rw [← hf1.idOf, ← hid2] at hw
    have hlt : w ≠ bare.elements.length := fun hx => by simp [hx, idOf_length] at hw
    rw [Heap.attachAs, sameFaces_linkAll.idOf, idOf_addElement, if_neg hlt, hw]
  have hlast : v ≠ bare.elements.length := fun hx => by
    rw [← hf1.idOf, ← hid2, hx, idOf_length] at hid
    simp at hid
  have hall : Arc.restrict (fun _ => true) ((bare.attachAs (.nonterminal nt) targets).out v) =
      Arc.restrict (keeps m m.selectors x) (h.out v) := by
    rw [Heap.attachAs, restrict_out_linkAll fun k hk hkv => ?_, out_addElement, ho2, ho1 v x hid, Arc.restrict_restrict]
    · simp only [Bool.and_true]
    · obtain ⟨q, -, rfl⟩ := List.mem_map.mp hk
      exact absurd hkv.symm hlast
  rw [← hs.restrict_arcsOf hs' hids hid hall, Arc.restrict_eq_self hs'.arcsOf_labelled fun _ _ _ => rfl]

variable {P : Heap} {X : Nat → Nat} {image : List Int} {nt : Nonterminal}

theorem WellFormed.arcsOf_fold (hP : P.WellFormed) (hi : P.Idle) (hs : h.Sound) (hs' : h'.Sound)
    (hX : HeapView.Placed P h.view X) (himg : ∀ p < P.elements.length, image[p]? = some (X p : Int))
    (hf : h.fold ⟨P, image⟩ nt = .ok h') (hlab : h.view.label x = some lab) (hn : ¬ HeapView.Absorbed P X x)
    (hk : ∀ l, keep l = true ↔ ∀ p q, P.Linked p l q → X p ≠ x) : h'.arcsOf x = Arc.restrict keep (h.arcsOf x) := by
  have himage (p y : Nat) (lab : Label) (hl : P.labelAt p = some lab) (hp : image[p]? = some (y : Int)) : X p = y := by
    rw [himg p (lt_of_labelAt hl)] at hp
    exact Int.ofNat.inj (Option.some.inj hp)
  have hkeep (l : EdgeLabel) : keeps ⟨P, image⟩ (⟨P, image⟩ : Matching).selectors x l = keep l := by
    rw [Bool.eq_iff_iff, keeps_eq_true, hk]
    constructor
    · intro hall p q hpq hpx
      obtain ⟨lab', hl⟩ := hP.labelAt_of_joined hpq.joined
      -- an inner element is absorbed, so the arc starts at an external node
      by_cases hnode : P.IsNode p
      · have hname := selector_name (hP.isSelector hnode hpq)
        have hm : (p, l.name) ∈ (⟨P, image⟩ : Matching).selectors := (hP.mem_selectors hi).mpr ⟨hnode, q, by rwa [hname]⟩
        exact hall p l.name hm (by rw [himg p (lt_of_labelAt hl), hpx]) hname.symm
      · exact hn ⟨p, lab', hl, hP.ordinalAt_eq_none hnode, hpx⟩
    · rintro hall p s hm hp rfl
      obtain ⟨⟨type, ht⟩, q, hpq⟩ := (hP.mem_selectors hi).mp hm
      exact hall p q hpq (himage p x _ ht hp)
  obtain ⟨v, hid, -⟩ := hs.view_label.mp hlab
  rw [hs.arcsOf_fold hs' hf hid ?_ ?_]
  · exact Arc.restrict_congr fun l _ _ => hkeep l
  · intro p hm hp
    obtain ⟨lab', hl, ho⟩ := (mem_absorbed hi).mp hm
    exact hn ⟨p, lab', hl, ho, himage p x _ hl hp⟩
  · intro l y hl hkl p hm hp
    obtain ⟨lab', hlp, ho⟩ := (mem_absorbed hi).mp hm
    obtain rfl := himage p y _ hlp hp
    obtain ⟨q, hq, hqx⟩ := hX.inner_in p lab' l x hlp ho hl
    exact (hk l).mp (hkeep l ▸ hkl) q p hq hqx

end Fold

theorem Gluing.restrict_arcsOf {targets : List Nat} {bare : Heap} {nt : Nonterminal} (hg : Gluing h v R targets bare h')
    (hs : h.Sound) (hid : h.idOf v = some x) (hl : h.labelAt v = some (.nonterminal nt))
    (hy : h.view.label y = some lab) (hne : y ≠ x)
    (hk : ∀ p l q, R.Linked p l q → copyId targets bare R p = y → keep l = false) :
    Arc.restrict keep (h'.arcsOf y) = Arc.restrict keep (h.arcsOf y) := by
  obtain ⟨w, hidw, hlw⟩ := hs.view_label.mp hy
  have hwv : w ≠ v := by
    rintro rfl
    exact hne (Option.some.inj (hidw.symm.trans hid))
  have hfree : ¬ h.Joined w v := fun hj => by
    obtain ⟨type, ht⟩ := hs.ends w v hj
    simp [hl] at ht
  have hids (u z : Nat) (hu : h.idOf u = some z) : h'.idOf u = some z := by
    rw [hg.result, sameFaces_linkAll.idOf]
    exact idOf_addAll (hg.removes.idOf ▸ hu)
  refine hs.restrict_arcsOf (hg.glues hs hid hl).1 hids hidw ?_
  rw [hg.result, restrict_out_linkAll fun k hm hkw => ?_, out_addAll, hg.removes.out w hwv,
    Arc.awayFrom_of_not_reaches hfree]
  obtain ⟨j, hj, rfl⟩ := List.mem_map.mp hm
  refine hk j.source j.label j.target (mem_links.mp hj) ?_
  rw [copyId, show copySlot targets bare.elements.length R j.source = w from hkw,
    idOf_addAll (hg.removes.idOf ▸ hidw), Option.getD_some]

end Heap

end HeapAbstraction
