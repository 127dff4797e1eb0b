import HeapAbstraction.Proofs.Invariant
import HeapAbstraction.Heap.Folding

namespace HeapAbstraction

theorem getElem?_foldl_modify {α : Type} (f : α → α) (ts : List Nat) (hn : ts.Nodup) (s : List α) (u : Nat) :
    (ts.foldl (fun s t => s.modify t f) s)[u]? = (s[u]?).map (fun a => if u ∈ ts then f a else a) := by
  induction ts generalizing s with
  | nil => simp
  | cons t ts ih =>
    obtain ⟨ht, hr⟩ := List.nodup_cons.mp hn
    rw [List.foldl_cons, ih hr, List.getElem?_modify]
    by_cases hu : t = u
    · subst hu
      cases s[t]? <;> simp [ht]
    · have hu' : u ≠ t := fun h => hu h.symm
      cases s[u]? <;> simp [hu, hu']

theorem length_eq_of_getElem? {α : Type} {as bs : List α} {f : Nat → α → α} (hf : ∀ v, bs[v]? = (as[v]?).map (f v)) :
    bs.length = as.length := by
  refine Nat.le_antisymm ?_ ?_
  · rw [← List.getElem?_eq_none_iff, hf, List.getElem?_eq_none (Nat.le_refl _), Option.map_none]
  · have := hf bs.length
    rw [List.getElem?_eq_none (Nat.le_refl _), eq_comm, Option.map_eq_none_iff] at this
    exact List.getElem?_eq_none_iff.mp this

namespace Heap

structure SameFaces (h h' : Heap) : Prop where
  nextId : h'.nextId = h.nextId
  length : h'.elements.length = h.elements.length
  idOf : h'.idOf = h.idOf
  labelAt : h'.labelAt = h.labelAt
  ordinalAt : h'.ordinalAt = h.ordinalAt

variable {h h' : Heap} {u v w t : Nat} {l m : EdgeLabel} {e : Element}

theorem SameFaces.refl : SameFaces h h := ⟨rfl, rfl, rfl, rfl, rfl⟩

theorem SameFaces.trans {k : Heap} (h1 : SameFaces h h') (h2 : SameFaces h' k) : SameFaces h k :=
  ⟨h2.nextId.trans h1.nextId, h2.length.trans h1.length, h2.idOf.trans h1.idOf, h2.labelAt.trans h1.labelAt,
    h2.ordinalAt.trans h1.ordinalAt⟩

theorem SameFaces.isNode (hf : SameFaces h h') : h'.IsNode v ↔ h.IsNode v := by simp only [IsNode, hf.labelAt]

theorem SameFaces.of_getElem? {g : Nat → Element → Element} (hn : h'.nextId = h.nextId)
    (hg : ∀ v, h'.elements[v]? = (h.elements[v]?).map (g v))
    (hk : ∀ v e, (g v e).id = e.id ∧ (g v e).label = e.label ∧ (g v e).ordinal = e.ordinal ∧
      (g v e).removed = e.removed) : SameFaces h h' := by
  refine ⟨hn, length_eq_of_getElem? hg, ?_, ?_, ?_⟩
  · funext v
    simp only [Heap.idOf, hg]
    cases h.elements[v]? <;> simp [hk]
  · funext v
    simp only [Heap.labelAt, hg]
    cases h.elements[v]? <;> simp [hk]
  · funext v
    simp only [Heap.ordinalAt, hg]
    cases h.elements[v]? <;> simp [hk]

theorem Sound.rewire (hs : h.Sound) (hf : SameFaces h h') (tidy : ∀ v, Arc.Tidy (h'.out v))
    (into_nodup : ∀ v, (h'.into v).Nodup) (mem_into : ∀ u v, u ∈ h'.into v ↔ h'.Joined u v)
    (ends : ∀ u v, h'.Joined u v → h.IsNode v) (bare : ∀ v, h.labelAt v = none → h'.out v = []) : h'.Sound where
  id_lt := by rw [hf.idOf, hf.nextId]; exact hs.id_lt
  id_inj := by rw [hf.idOf]; exact hs.id_inj
  tidy := tidy
  into_nodup := into_nodup
  mem_into := mem_into
  ends := fun u v hj => hf.isNode.mpr (ends u v hj)
  bare := by rw [hf.labelAt]; exact bare
  ordinal_node := fun v i hi => hf.isNode.mpr (hs.ordinal_node v i (by rwa [hf.ordinalAt] at hi))
  ordinal_inj := by rw [hf.ordinalAt]; exact hs.ordinal_inj
  ordinal_below := by rw [hf.ordinalAt]; exact hs.ordinal_below

section Link

theorem getElem?_link : (h.link u t l).elements[v]? = (h.elements[v]?).map (fun e => { e with
    arcs := if u = v then Arc.insertLabel t l e.arcs else e.arcs
    preds := if t = v ∧ ¬ h.Joined u t then e.preds ++ [u] else e.preds }) := by
  have hj : ((h.elements[u]?).bind (fun e => e.arcTo? t)).isSome = true ↔ h.Joined u t := by
    cases hu : h.elements[u]? with
    | none => simp [Joined, out, hu]
    | some e => simpa [Joined, out, hu] using Element.arcTo?_isSome
  simp only [link, Store.link]
  split
  · rename_i hb
    have hb' := hj.mp hb
    rw [List.getElem?_modify]
    cases h.elements[v]? <;> by_cases hv : u = v <;> simp [hv, hb']
    exact fun _ => hv ▸ hb'
  · rename_i hb
    have hb' : ¬ h.Joined u t := fun hx => hb (hj.mpr hx)
    rw [List.getElem?_modify, List.getElem?_modify]
    cases h.elements[v]? <;> by_cases hv : u = v <;> by_cases ht : t = v <;>
      simp [hv, ht, Element.addPred]
    · subst hv ht
      exact fun hx => absurd hx hb'
    · subst ht
      exact fun hx => absurd hx hb'

theorem sameFaces_link : SameFaces h (h.link u t l) :=
  .of_getElem? rfl (fun _ => getElem?_link) (fun _ _ => ⟨rfl, rfl, rfl, rfl⟩)

theorem out_link (hu : u < h.elements.length) :
    (h.link u t l).out v = if u = v then Arc.insertLabel t l (h.out v) else h.out v := by
  simp only [out, getElem?_link]
  by_cases hv : u = v
  · subst hv
    simp [List.getElem?_eq_getElem hu]
  · cases h.elements[v]? <;> simp [hv]

theorem into_link (ht : t < h.elements.length) :
    (h.link u t l).into v = if t = v ∧ ¬ h.Joined u t then h.into v ++ [u] else h.into v := by
  simp only [into, getElem?_link]
  by_cases hv : t = v
  · subst hv
    by_cases hj : h.Joined u t <;> simp [List.getElem?_eq_getElem ht, hj]
  · cases h.elements[v]? <;> simp [hv]

theorem linked_link (hu : u < h.elements.length) :
    (h.link u t l).Linked v m w ↔ h.Linked v m w ∨ (v = u ∧ m = l ∧ w = t) := by
  simp only [Linked, out_link hu]
  by_cases hv : u = v
  · subst hv
    simp [Arc.carries_insertLabel]
  · have hv' : v ≠ u := fun hx => hv hx.symm
    simp [hv, hv']

theorem joined_link (hu : u < h.elements.length) :
    (h.link u t l).Joined v w ↔ h.Joined v w ∨ (v = u ∧ w = t) := by
  simp only [Joined, out_link hu]
  by_cases hv : u = v
  · subst hv
    simp [Arc.reaches_insertLabel]
  · have hv' : v ≠ u := fun hx => hv hx.symm
    simp [hv, hv']

theorem Sound.link (hs : h.Sound) (hu : ∃ lab, h.labelAt u = some lab) (ht : h.IsNode t)
    (hl : ∀ w, ¬ h.Linked u l w) : (h.link u t l).Sound := by
  obtain ⟨lab, hu⟩ := hu
  have hul := lt_of_labelAt hu
  refine hs.rewire sameFaces_link ?_ ?_ ?_ ?_ ?_
  · intro v
    rw [out_link hul]
    split
    · rename_i hv
      exact (hs.tidy v).insertLabel (fun w hw => hl w (hv ▸ hw))
    · exact hs.tidy v
  · intro v
    rw [into_link ht.lt]
    split
    · rename_i hv
      have hn : u ∉ h.into v := fun hm => hv.2 (hv.1 ▸ (hs.mem_into u v).mp hm)
      refine List.nodup_append.mpr ⟨hs.into_nodup v, by simp, ?_⟩
      rintro a ha b hb rfl
      exact hn (List.mem_singleton.mp hb ▸ ha)
    · exact hs.into_nodup v
  · intro x v
    rw [into_link ht.lt, joined_link hul]
    split
    · rename_i hv
      simp only [List.mem_append, List.mem_singleton, hs.mem_into, hv.1, and_true]
    · rename_i hv
      rw [hs.mem_into]
      refine ⟨.inl, fun hx => hx.elim id ?_⟩
      rintro ⟨rfl, rfl⟩
      by_contra hj
      exact hv ⟨rfl, hj⟩
  · intro x v hj
    rcases (joined_link hul).mp hj with hj | ⟨-, rfl⟩
    · exact hs.ends x v hj
    · exact ht
  · intro v hv
    have : u ≠ v := by
      rintro rfl
      simp [hu] at hv
    rw [out_link hul, if_neg this]
    exact hs.bare v hv

def linkAll (h : Heap) (ks : List Link) : Heap := ks.foldl (fun g k => g.link k.source k.target k.label) h

theorem Sound.linkAll (hs : h.Sound) (ks : List Link)
    (hk : ∀ k ∈ ks, (∃ lab, h.labelAt k.source = some lab) ∧ h.IsNode k.target ∧ ∀ w, ¬ h.Linked k.source k.label w)
    (hp : ks.Pairwise (fun j k => ¬ (j.source = k.source ∧ j.label = k.label))) :
    (h.linkAll ks).Sound ∧ SameFaces h (h.linkAll ks) ∧
      ∀ u l v, (h.linkAll ks).Linked u l v ↔ h.Linked u l v ∨ ⟨u, v, l⟩ ∈ ks := by
  induction ks generalizing h with
  | nil => exact ⟨hs, .refl, by simp [Heap.linkAll]⟩
  | cons k ks ih =>
    obtain ⟨hhead, htail⟩ := List.pairwise_cons.mp hp
    obtain ⟨hsrc, htgt, hfree⟩ := hk k (by simp)
    have hlt : k.source < h.elements.length := hsrc.elim fun _ hl => lt_of_labelAt hl
    have hf : SameFaces h (h.link k.source k.target k.label) := sameFaces_link
    obtain ⟨h1, h2, h3⟩ := ih (hs.link hsrc htgt hfree) (fun j hj => by
      obtain ⟨hjs, hjt, hjf⟩ := hk j (by simp [hj])
      refine ⟨by rwa [hf.labelAt], hf.isNode.mpr hjt, fun w hw => ?_⟩
      rcases (linked_link hlt).mp hw with hw | ⟨hsame, hlab, -⟩
      · exact hjf w hw
      · exact hhead j hj ⟨hsame.symm, hlab.symm⟩) htail
    refine ⟨h1, hf.trans h2, fun u l v => ?_⟩
    rw [show h.linkAll (k :: ks) = (h.link k.source k.target k.label).linkAll ks from rfl, h3, linked_link hlt]
    simp only [List.mem_cons, or_assoc]
    constructor
    · rintro (hx | ⟨rfl, rfl, rfl⟩ | hx)
      · exact .inl hx
      · exact .inr (.inl rfl)
      · exact .inr (.inr hx)
    · rintro (hx | rfl | hx)
      · exact .inl hx
      · exact .inr (.inl ⟨rfl, rfl, rfl⟩)
      · exact .inr (.inr hx)

end Link

section Unlink

theorem getElem?_unlink {a : Arc} (hu : h.elements[u]? = some e) (ha : e.arcTo? t = some a) :
    (h.elements.unlink u t l)[v]? = (h.elements[v]?).map (fun f => { f with
      arcs := if u = v then Arc.dropLabel t l f.arcs else f.arcs
      preds := if t = v ∧ (a.labels.erase l).isEmpty = true then f.preds.erase u else f.preds }) := by
  have hd : Arc.dropLabel t l e.arcs = _ := Arc.dropLabel_eq ha
  simp only [Store.unlink, hu, Option.bind_some, ha]
  split
  · rename_i hb
    rw [if_pos hb] at hd
    rw [List.getElem?_modify, List.getElem?_modify]
    by_cases hv : u = v
    · subst hv
      by_cases ht : t = u
      · subst ht; simp [hu, hb, hd, Element.dropArcTo, Element.dropPred]
      · simp [hu, ht, hb, hd, Element.dropArcTo]
    · cases h.elements[v]? <;> by_cases ht : t = v <;>
        simp [hv, ht, hb, Element.dropPred]
  · rename_i hb
    rw [if_neg hb] at hd
    rw [List.getElem?_modify]
    by_cases hv : u = v
    · subst hv
      simp [hu, hb, hd]
    · cases h.elements[v]? <;> simp [hv, hb]

section

variable {e : Element} {a : Arc} (hs : h.Sound) (hl : h.Linked u l t) (he : h.elements[u]? = some e)
  (ha : e.arcTo? t = some a)

theorem sameFaces_unlink (he : h.elements[u]? = some e) (ha : e.arcTo? t = some a) :
    SameFaces h { h with elements := h.elements.unlink u t l } :=
  .of_getElem? rfl (fun _ => getElem?_unlink he ha) (fun _ _ => ⟨rfl, rfl, rfl, rfl⟩)

include he ha in
theorem out_unlink : Heap.out { h with elements := h.elements.unlink u t l } v =
    if u = v then Arc.dropLabel t l (h.out v) else h.out v := by
  simp only [out, getElem?_unlink he ha]
  by_cases hv : u = v
  · subst hv
    simp [he]
  · cases h.elements[v]? <;> simp [hv]

include he ha in
theorem into_unlink : Heap.into { h with elements := h.elements.unlink u t l } v =
    if t = v ∧ (a.labels.erase l).isEmpty = true then (h.into v).erase u else h.into v := by
  simp only [into, getElem?_unlink he ha]
  by_cases hv : t = v
  · subst hv
    cases h.elements[t]? <;> simp
  · cases h.elements[v]? <;> simp [hv]

include hs hl he ha

theorem linked_unlink {m : EdgeLabel} : Heap.Linked { h with elements := h.elements.unlink u t l } v m w ↔
    h.Linked v m w ∧ ¬ (v = u ∧ m = l) := by
  simp only [Linked, out_unlink he ha]
  by_cases hv : u = v
  · subst hv
    simp [Arc.carries_dropLabel (hs.tidy u) hl]
  · have hv' : v ≠ u := fun hx => hv hx.symm
    simp [hv, hv']

theorem joined_unlink : Heap.Joined { h with elements := h.elements.unlink u t l } v w ↔
    h.Joined v w ∧ (v = u → w = t → ¬ (a.labels.erase l).isEmpty = true) := by
  have hout : h.out u = e.arcs := out_eq he
  have htidy : Arc.Tidy e.arcs := hout ▸ hs.tidy u
  have hcar : Arc.Carries e.arcs l t := hout ▸ hl
  have hgone : (a.labels.erase l).isEmpty = true ↔ ¬ Arc.Reaches (Arc.dropLabel t l e.arcs) t := by
    rw [Arc.reaches_dropLabel_self htidy hcar ha, Bool.not_eq_false]
  simp only [Joined, out_unlink he ha]
  by_cases hv : u = v
  · subst hv
    rw [if_pos rfl, hgone, not_not, hout]
    by_cases hw : w = t
    · subst hw
      exact ⟨fun hx => ⟨hx.of_dropLabel, fun _ _ => hx⟩, fun hx => hx.2 rfl rfl⟩
    · simp [Arc.reaches_dropLabel_of_ne htidy hcar hw, hw]
  · have hv' : v ≠ u := fun hx => hv hx.symm
    simp [hv, hv']

theorem sound_unlink : Heap.Sound { h with elements := h.elements.unlink u t l } := by
  refine hs.rewire (sameFaces_unlink he ha) ?_ ?_ ?_ ?_ ?_
  · intro v
    rw [out_unlink he ha]
    split
    · exact (hs.tidy v).dropLabel
    · exact hs.tidy v
  · intro v
    rw [into_unlink he ha]
    split
    · exact (hs.into_nodup v).erase u
    · exact hs.into_nodup v
  · intro x v
    rw [into_unlink he ha, joined_unlink hs hl he ha]
    split
    · rename_i hv
      rw [(hs.into_nodup v).mem_erase_iff, hs.mem_into, hv.1.symm]
      constructor
      · exact fun hx => ⟨hx.2, fun hxu => absurd hxu hx.1⟩
      · exact fun hx => ⟨fun hxu => hx.2 hxu rfl hv.2, hx.1⟩
    · rename_i hv
      rw [hs.mem_into]
      exact ⟨fun hx => ⟨hx, fun _ hvt he => hv ⟨hvt.symm, he⟩⟩, fun hx => hx.1⟩
  · exact fun x v hj => hs.ends x v ((joined_unlink hs hl he ha).mp hj).1
  · intro v hv
    obtain ⟨lab, hlab⟩ := hs.labelAt_of_joined hl.joined
    have : u ≠ v := by
      rintro rfl
      simp [hlab] at hv
    rw [out_unlink he ha, if_neg this]
    exact hs.bare v hv

end

theorem Sound.unlink (hs : h.Sound) (hl : h.Linked u l t) :
    ∃ h', h.unlink u t l = .ok h' ∧ h'.Sound ∧ SameFaces h h' ∧
      ∀ v m w, h'.Linked v m w ↔ h.Linked v m w ∧ ¬ (v = u ∧ m = l) := by
  obtain ⟨lab, hlab⟩ := hs.labelAt_of_joined hl.joined
  obtain ⟨e, he, -, -⟩ := labelAt_eq_some.mp hlab
  have hcar : Arc.Carries e.arcs l t := out_eq he ▸ hl
  obtain ⟨a, ha⟩ := Option.isSome_iff_exists.mp (Element.arcTo?_isSome.mpr hcar.reaches)
  have hlt := hs.lt_of_joined hl.joined
  exact ⟨_, by simp [Heap.unlink, hlt], sound_unlink hs hl he ha, sameFaces_unlink he ha,
    fun _ _ _ => linked_unlink hs hl he ha⟩

end Unlink

section Ordinals

def dropFrom (i : Nat) (o : Option Nat) : Option Nat :=
  o.bind (fun j => if j = i then none else if i < j then some (j - 1) else some j)

theorem dropFrom_eq_some {i k : Nat} {o : Option Nat} :
    dropFrom i o = some k ↔ (k < i ∧ o = some k) ∨ (i ≤ k ∧ o = some (k + 1)) := by
  cases o with
  | none => simp [dropFrom]
  | some j =>
    simp only [dropFrom, Option.bind_some, Option.some.injEq]
    split
    · simp; omega
    · split <;> simp <;> omega

theorem dropOrdinal_eq (i : Nat) (e : Element) : e.dropOrdinal i = { e with ordinal := dropFrom i e.ordinal } := by
  obtain ⟨label, id, ordinal, removed, arcs, preds⟩ := e
  cases ordinal with
  | none => rfl
  | some j => simp [Element.dropOrdinal, dropFrom]

theorem getElem?_dropExternal (i : Nat) :
    (h.dropExternal i).elements[v]? = (h.elements[v]?).map (fun e => { e with ordinal := dropFrom i e.ordinal }) := by
  simp only [dropExternal, List.getElem?_map]
  exact congrArg (fun f => Option.map f h.elements[v]?) (funext (dropOrdinal_eq i))

theorem ordinalAt_dropExternal (i : Nat) : (h.dropExternal i).ordinalAt v = dropFrom i (h.ordinalAt v) := by
  simp only [ordinalAt, getElem?_dropExternal]
  cases h.elements[v]? <;> simp [dropFrom]

structure SameBody (h h' : Heap) : Prop where
  nextId : h'.nextId = h.nextId
  idOf : h'.idOf = h.idOf
  labelAt : h'.labelAt = h.labelAt
  out : h'.out = h.out
  into : h'.into = h.into

theorem SameBody.of_getElem? {g : Nat → Element → Element} (hn : h'.nextId = h.nextId)
    (hg : ∀ v, h'.elements[v]? = (h.elements[v]?).map (g v))
    (hk : ∀ v e, (g v e).id = e.id ∧ (g v e).label = e.label ∧ (g v e).removed = e.removed ∧ (g v e).arcs = e.arcs ∧
      (g v e).preds = e.preds) : SameBody h h' := by
  refine ⟨hn, ?_, ?_, ?_, ?_⟩ <;> funext v
  · simp only [Heap.idOf, hg]
    cases h.elements[v]? <;> simp [hk]
  · simp only [Heap.labelAt, hg]
    cases h.elements[v]? <;> simp [hk]
  · simp only [Heap.out, hg]
    cases h.elements[v]? <;> simp [hk]
  · simp only [Heap.into, hg]
    cases h.elements[v]? <;> simp [hk]

theorem sameBody_dropExternal (i : Nat) : SameBody h (h.dropExternal i) :=
  .of_getElem? rfl (fun _ => getElem?_dropExternal i) (fun _ _ => ⟨rfl, rfl, rfl, rfl, rfl⟩)

theorem SameBody.isNode (hb : SameBody h h') : h'.IsNode v ↔ h.IsNode v := by simp only [IsNode, hb.labelAt]

theorem SameBody.linked (hb : SameBody h h') : h'.Linked u l v ↔ h.Linked u l v := by simp only [Linked, hb.out]

theorem SameBody.joined (hb : SameBody h h') : h'.Joined u v ↔ h.Joined u v := by simp only [Joined, hb.out]

theorem Sound.renumber (hs : h.Sound) (hb : SameBody h h')
    (ordinal_node : ∀ v i, h'.ordinalAt v = some i → h.IsNode v)
    (ordinal_inj : ∀ v w i, h'.ordinalAt v = some i → h'.ordinalAt w = some i → v = w)
    (ordinal_below : ∀ v i j, h'.ordinalAt v = some i → j < i → ∃ w, h'.ordinalAt w = some j) : h'.Sound where
  id_lt := by rw [hb.idOf, hb.nextId]; exact hs.id_lt
  id_inj := by rw [hb.idOf]; exact hs.id_inj
  tidy := by rw [hb.out]; exact hs.tidy
  into_nodup := by rw [hb.into]; exact hs.into_nodup
  mem_into := fun u v => by rw [hb.joined, hb.into]; exact hs.mem_into u v
  ends := fun u v hj => hb.isNode.mpr (hs.ends u v (hb.joined.mp hj))
  bare := by rw [hb.labelAt, hb.out]; exact hs.bare
  ordinal_node := fun v i hi => hb.isNode.mpr (ordinal_node v i hi)
  ordinal_inj := ordinal_inj
  ordinal_below := ordinal_below

theorem Sound.dropExternal (hs : h.Sound) {i : Nat} (hi : h.ordinalAt v = some i) : (h.dropExternal i).Sound := by
  refine hs.renumber (sameBody_dropExternal i) ?_ ?_ ?_
  · intro w j hj
    rw [ordinalAt_dropExternal, dropFrom_eq_some] at hj
    rcases hj with ⟨_, hj⟩ | ⟨_, hj⟩ <;> exact hs.ordinal_node w _ hj
  · intro w x j hw hx
    rw [ordinalAt_dropExternal, dropFrom_eq_some] at hw hx
    rcases hw with ⟨h1, hw⟩ | ⟨h1, hw⟩ <;> rcases hx with ⟨h2, hx⟩ | ⟨h2, hx⟩
    · exact hs.ordinal_inj w x j hw hx
    · omega
    · omega
    · exact hs.ordinal_inj w x (j + 1) hw hx
  · intro w k j hk hj
    simp only [ordinalAt_dropExternal, dropFrom_eq_some] at hk ⊢
    by_cases hji : j < i
    · obtain ⟨x, hx⟩ := hs.ordinal_below v i j hi hji
      exact ⟨x, .inl ⟨hji, hx⟩⟩
    · rcases hk with ⟨hki, _⟩ | ⟨_, hk⟩
      · omega
      · obtain ⟨x, hx⟩ := hs.ordinal_below w (k + 1) (j + 1) hk (by omega)
        exact ⟨x, .inr ⟨by omega, hx⟩⟩

end Ordinals

section Remove

theorem getElem?_detachOut (hs : h.Sound) : (h.elements.detachOut v)[u]? = (h.elements[u]?).map (fun e => { e with
    arcs := if v = u then [] else e.arcs
    preds := e.preds.erase v }) := by
  have ht : ((h.elements[v]?).map Element.successors).getD [] = (h.out v).map Arc.target := by
    simp only [out]
    cases h.elements[v]? <;> rfl
  have hn : ((h.out v).map Arc.target).Nodup := (hs.tidy v).targets
  simp only [Store.detachOut, ht]
  rw [List.getElem?_modify, getElem?_foldl_modify _ _ hn]
  cases hu : h.elements[u]? with
  | none => rfl
  | some e =>
    have hp : (if u ∈ (h.out v).map Arc.target then Element.dropPred v e else e) =
        { e with preds := e.preds.erase v } := by
      split
      · rfl
      · rename_i hx
        rw [Arc.mem_map_target] at hx
        have : v ∉ e.preds := fun hm => hx ((hs.mem_into v u).mp (into_eq hu ▸ hm))
        rw [List.erase_of_not_mem this]
    simp only [Option.map_some, Option.map_eq_map, hp]
    by_cases hv : v = u <;> simp [hv]

theorem into_detachOut (hs : h.Sound) :
    (((h.elements.detachOut v)[v]?).map Element.preds).getD [] = (h.into v).erase v := by
  simp only [getElem?_detachOut hs, into]
  cases h.elements[v]? <;> simp

theorem detachable_of_sound (hs : h.Sound) (v : Nat) : h.elements.detachable v = true := by
  simp only [Store.detachable, into_detachOut hs, Bool.and_eq_true, List.all_eq_true, decide_eq_true_eq]
  constructor
  · intro t ht
    refine hs.lt_of_joined (u := v) ?_
    simp only [Joined, out]
    cases hv : h.elements[v]? with
    | none => simp [hv] at ht
    | some e =>
      rw [hv] at ht
      exact Element.mem_successors.mp ht
  · intro u hu
    obtain ⟨hne, hmem⟩ := (hs.into_nodup v).mem_erase_iff.mp hu
    have hj : h.Joined u v := (hs.mem_into u v).mp hmem
    obtain ⟨lab, hlab⟩ := hs.labelAt_of_joined hj
    obtain ⟨e, he, -, -⟩ := labelAt_eq_some.mp hlab
    have hone : ((h.into v).erase v).count u ≤ 1 := List.nodup_iff_count_le_one.mp ((hs.into_nodup v).erase v) u
    refine le_trans hone ?_
    rw [Joined, out_eq he] at hj
    obtain ⟨a, ha, hat⟩ := hj
    simp only [getElem?_detachOut hs, he, Option.map_some, Option.getD_some, if_neg (Ne.symm hne)]
    exact List.countP_pos_iff.mpr ⟨a, ha, by simpa using hat⟩

theorem getElem?_detach (hs : h.Sound) : (h.elements.detach v)[u]? = (h.elements[u]?).map (fun e => { e with
    arcs := if v = u then [] else Arc.awayFrom v e.arcs
    preds := if v = u then [] else e.preds.erase v }) := by
  simp only [Store.detach, Store.detachIn, into_detachOut hs]
  rw [List.getElem?_modify, getElem?_foldl_modify _ _ ((hs.into_nodup v).erase v), getElem?_detachOut hs]
  cases hu : h.elements[u]? with
  | none => rfl
  | some e =>
    have htidy : Arc.Tidy e.arcs := out_eq hu ▸ hs.tidy u
    by_cases hv : v = u
    · subst hv
      have hself : v ∉ (h.into v).erase v := fun hm => ((hs.into_nodup v).mem_erase_iff.mp hm).1 rfl
      simp [hself]
    · have hp : (if u ∈ (h.into v).erase v then e.arcs.eraseP (fun a => a.target == v) else e.arcs) =
          Arc.awayFrom v e.arcs := by
        split
        · exact htidy.eraseP_eq
        · rename_i hx
          refine (Arc.awayFrom_of_not_reaches fun hr => hx ?_).symm
          refine (hs.into_nodup v).mem_erase_iff.mpr ⟨fun huv => hv huv.symm, (hs.mem_into u v).mpr ?_⟩
          rwa [Joined, out_eq hu]
      simp only [hv, if_false, Option.map_some, Option.map_eq_map, ← hp, Element.dropArcTo]
      split <;> rfl

structure Removes (h : Heap) (v : Nat) (h' : Heap) : Prop where
  sound : h'.Sound
  nextId : h'.nextId = h.nextId
  length : h'.elements.length = h.elements.length
  idOf : h'.idOf = h.idOf
  labelAt : ∀ w, h'.labelAt w = if w = v then none else h.labelAt w
  ordinalAt : ∀ w, h'.ordinalAt w = match h.ordinalAt v with
    | some i => dropFrom i (h.ordinalAt w)
    | none => h.ordinalAt w
  linked : ∀ u l w, h'.Linked u l w ↔ h.Linked u l w ∧ u ≠ v ∧ w ≠ v
  out : ∀ w, w ≠ v → h'.out w = Arc.awayFrom v (h.out w)

def retire (h : Heap) (v : Nat) : Heap :=
  { h with elements := (h.elements.detach v).modify v (fun e => { e with removed := true, ordinal := none }) }

section

variable (hs : h.Sound) (hv : h.ordinalAt v = none)

include hs hv

theorem getElem?_retire : (h.retire v).elements[u]? = (h.elements[u]?).map (fun e => { e with
    removed := if v = u then true else e.removed
    arcs := if v = u then [] else Arc.awayFrom v e.arcs
    preds := if v = u then [] else e.preds.erase v }) := by
  rw [retire, List.getElem?_modify, getElem?_detach hs]
  cases hu : h.elements[u]? with
  | none => rfl
  | some e =>
    by_cases hvu : v = u
    · subst hvu
      have : e.ordinal = none := by simpa [Heap.ordinalAt, hu] using hv
      simp [this]
    · simp [hvu]

theorem length_retire : (h.retire v).elements.length = h.elements.length :=
  length_eq_of_getElem? (fun _ => getElem?_retire hs hv)

theorem idOf_retire : (h.retire v).idOf = h.idOf := by
  funext u
  simp only [Heap.idOf, getElem?_retire hs hv]
  cases h.elements[u]? <;> simp

theorem labelAt_retire : (h.retire v).labelAt w = if w = v then none else h.labelAt w := by
  simp only [Heap.labelAt, getElem?_retire hs hv]
  by_cases hw : v = w
  · subst hw
    cases h.elements[v]? <;> simp
  · have hw' : w ≠ v := fun hx => hw hx.symm
    cases h.elements[w]? <;> simp [hw, hw']

theorem ordinalAt_retire : (h.retire v).ordinalAt = h.ordinalAt := by
  funext w
  simp only [Heap.ordinalAt, getElem?_retire hs hv]
  cases h.elements[w]? <;> simp

theorem out_retire : (h.retire v).out w = if v = w then [] else Arc.awayFrom v (h.out w) := by
  simp only [out, getElem?_retire hs hv]
  by_cases hw : v = w <;> cases h.elements[w]? <;> simp [hw, Arc.awayFrom]

theorem into_retire : (h.retire v).into w = if v = w then [] else (h.into w).erase v := by
  simp only [into, getElem?_retire hs hv]
  by_cases hw : v = w <;> cases h.elements[w]? <;> simp [hw]

theorem linked_retire : (h.retire v).Linked u l w ↔ h.Linked u l w ∧ u ≠ v ∧ w ≠ v := by
  simp only [Linked, out_retire hs hv]
  by_cases hu : v = u
  · simp [hu]
  · have hu' : u ≠ v := fun hx => hu hx.symm
    simp [hu, hu', Arc.carries_awayFrom]

theorem joined_retire : (h.retire v).Joined u w ↔ h.Joined u w ∧ u ≠ v ∧ w ≠ v := by
  simp only [Joined, out_retire hs hv]
  by_cases hu : v = u
  · simp [hu]
  · have hu' : u ≠ v := fun hx => hu hx.symm
    simp [hu, hu', Arc.reaches_awayFrom]

theorem isNode_retire : (h.retire v).IsNode w ↔ h.IsNode w ∧ w ≠ v := by
  simp only [IsNode, labelAt_retire hs hv]
  by_cases hw : w = v <;> simp [hw]

theorem Sound.retire : (h.retire v).Sound where
  id_lt := by rw [idOf_retire hs hv]; exact hs.id_lt
  id_inj := by rw [idOf_retire hs hv]; exact hs.id_inj
  tidy w := by
    rw [out_retire hs hv]
    split
    · exact .nil
    · exact (hs.tidy w).awayFrom
  into_nodup w := by
    rw [into_retire hs hv]
    split
    · exact List.nodup_nil
    · exact (hs.into_nodup w).erase v
  mem_into u w := by
    rw [into_retire hs hv, joined_retire hs hv]
    split
    · rename_i hw
      simp [hw]
    · rename_i hw
      rw [(hs.into_nodup w).mem_erase_iff, hs.mem_into]
      exact ⟨fun hx => ⟨hx.2, hx.1, fun hwv => hw hwv.symm⟩, fun hx => ⟨hx.2.1, hx.1⟩⟩
  ends u w hj := by
    obtain ⟨h1, -, h2⟩ := (joined_retire hs hv).mp hj
    exact (isNode_retire hs hv).mpr ⟨hs.ends u w h1, h2⟩
  bare w hw := by
    rw [out_retire hs hv]
    split
    · rfl
    · rename_i hvw
      rw [labelAt_retire hs hv, if_neg (fun hx => hvw hx.symm)] at hw
      rw [hs.bare w hw]
      rfl
  ordinal_node w i hi := by
    rw [ordinalAt_retire hs hv] at hi
    exact (isNode_retire hs hv).mpr ⟨hs.ordinal_node w i hi, fun hwv => by simp [hwv, hv] at hi⟩
  ordinal_inj := by rw [ordinalAt_retire hs hv]; exact hs.ordinal_inj
  ordinal_below := by rw [ordinalAt_retire hs hv]; exact hs.ordinal_below

theorem removes_retire : Removes h v (h.retire v) where
  sound := hs.retire hv
  nextId := rfl
  length := length_retire hs hv
  idOf := idOf_retire hs hv
  labelAt _ := labelAt_retire hs hv
  ordinalAt w := by simp only [hv, ordinalAt_retire hs hv]
  linked _ _ _ := linked_retire hs hv
  out w hw := by rw [out_retire hs hv, if_neg hw.symm]

end

theorem Sound.removeAt (hs : h.Sound) {lab : Label} (hv : h.labelAt v = some lab) :
    ∃ h', h.removeAt v = .ok h' ∧ Removes h v h' := by
  obtain ⟨e, he, -, -⟩ := labelAt_eq_some.mp hv
  have heo : h.ordinalAt v = e.ordinal := by simp [Heap.ordinalAt, he]
  cases ho : e.ordinal with
  | none =>
    refine ⟨h.retire v, ?_, removes_retire hs (heo.trans ho)⟩
    simp only [Heap.removeAt, he, detachable_of_sound hs v, if_true, ho]
    rfl
  | some i =>
    have hb := sameBody_dropExternal (h := h) i
    have hvo : (h.dropExternal i).ordinalAt v = none := by
      rw [ordinalAt_dropExternal, heo, ho]
      simp [dropFrom]
    have hr := removes_retire (hs.dropExternal (heo.trans ho)) hvo
    refine ⟨(h.dropExternal i).retire v, ?_, hr.sound, hr.nextId, ?_, hr.idOf.trans hb.idOf, ?_, ?_, ?_,
      fun w hw => by rw [hr.out w hw, hb.out]⟩
    · simp only [Heap.removeAt, he, detachable_of_sound hs v, if_true, ho]
      rfl
    · exact hr.length.trans (by simp [Heap.dropExternal])
    · intro w
      rw [hr.labelAt, hb.labelAt]
    · intro w
      have := hr.ordinalAt w
      rw [hvo] at this
      simp only [this, ordinalAt_dropExternal, heo, ho]
    · intro u l w
      rw [hr.linked, hb.linked]

end Remove

section Add

variable {label : Label}

theorem getElem?_addElement : (h.addElement label).elements[v]? =
    if v = h.elements.length then some { label := label, id := h.nextId } else h.elements[v]? := by
  simp only [addElement]
  rcases Nat.lt_trichotomy v h.elements.length with hv | rfl | hv
  · rw [List.getElem?_append_left hv, if_neg (by omega)]
  · simp
  · rw [List.getElem?_eq_none (by simp; omega), if_neg (by omega), List.getElem?_eq_none (by omega)]

theorem idOf_addElement : (h.addElement label).idOf v =
    if v = h.elements.length then some h.nextId else h.idOf v := by
  simp only [idOf, getElem?_addElement]
  split <;> rfl

theorem labelAt_addElement : (h.addElement label).labelAt v =
    if v = h.elements.length then some label else h.labelAt v := by
  simp only [labelAt, getElem?_addElement]
  split <;> rfl

theorem ordinalAt_addElement : (h.addElement label).ordinalAt v = h.ordinalAt v := by
  simp only [ordinalAt, getElem?_addElement]
  split
  · rename_i hv
    simp [hv]
  · rfl

theorem out_addElement : (h.addElement label).out v = h.out v := by
  simp only [out, getElem?_addElement]
  split
  · rename_i hv
    simp [hv]
  · rfl

theorem into_addElement : (h.addElement label).into v = h.into v := by
  simp only [into, getElem?_addElement]
  split
  · rename_i hv
    simp [hv]
  · rfl

theorem linked_addElement : (h.addElement label).Linked u l v ↔ h.Linked u l v := by
  simp only [Linked, out_addElement]

theorem length_addElement : (h.addElement label).elements.length = h.elements.length + 1 := by simp [addElement]

theorem idOf_length : h.idOf h.elements.length = none := by simp [idOf]

theorem IsNode.addElement (hn : h.IsNode v) : (h.addElement label).IsNode v := by
  obtain ⟨type, ht⟩ := hn
  exact ⟨type, by rw [labelAt_addElement, if_neg (by have := lt_of_labelAt ht; omega), ht]⟩

theorem Sound.addElement (hs : h.Sound) : (h.addElement label).Sound where
  id_lt v x hx := by
    rw [idOf_addElement] at hx
    change x < h.nextId + 1
    split at hx
    · simp only [Option.some.injEq] at hx
      omega
    · exact Nat.lt_succ_of_lt (hs.id_lt v x hx)
  id_inj v w x hv hw := by
    rw [idOf_addElement] at hv hw
    split at hv <;> split at hw
    · omega
    · exact absurd (hs.id_lt w x hw) (by simp only [Option.some.injEq] at hv; omega)
    · exact absurd (hs.id_lt v x hv) (by simp only [Option.some.injEq] at hw; omega)
    · exact hs.id_inj v w x hv hw
  tidy v := by rw [out_addElement]; exact hs.tidy v
  into_nodup v := by rw [into_addElement]; exact hs.into_nodup v
  mem_into u v := by rw [into_addElement, Joined, out_addElement]; exact hs.mem_into u v
  ends u v hj := by
    rw [Joined, out_addElement] at hj
    exact (hs.ends u v hj).addElement
  bare v hv := by
    rw [out_addElement]
    rw [labelAt_addElement] at hv
    split at hv
    · simp at hv
    · exact hs.bare v hv
  ordinal_node v i hi := by
    rw [ordinalAt_addElement] at hi
    exact (hs.ordinal_node v i hi).addElement
  ordinal_inj v w i hv hw := by
    rw [ordinalAt_addElement] at hv hw
    exact hs.ordinal_inj v w i hv hw
  ordinal_below v i j hi hj := by
    simp only [ordinalAt_addElement] at hi ⊢
    exact hs.ordinal_below v i j hi hj

end Add

end Heap

end HeapAbstraction
