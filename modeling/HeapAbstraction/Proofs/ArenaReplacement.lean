import HeapAbstraction.Proofs.ArenaEdits
import HeapAbstraction.Heap.Draft

namespace HeapAbstraction

namespace Heap

theorem removeImages_sound {m : Matching} {h h' : Heap} {ps : List Nat} (hs : h.Sound)
    (hr : removeImages m h ps = .ok h') :
    h'.Sound ∧ h'.nextId = h.nextId ∧ h'.elements.length = h.elements.length := by
  induction ps generalizing h with
  | nil =>
    cases hr
    exact ⟨hs, rfl, rfl⟩
  | cons p ps ih =>
    obtain ⟨v, hv, hr⟩ := bind_ok hr
    obtain ⟨h₁, h₁eq, hr⟩ := bind_ok hr
    obtain ⟨x, -, -, lab, hl⟩ := imageOf_ok hs (orAbort_ok hv)
    obtain ⟨k, hk, hrem⟩ := hs.removeAt hl
    obtain rfl := Except.ok.inj (hk.symm.trans (orAbort_ok h₁eq))
    obtain ⟨hs', hn, hlen⟩ := ih hrem.sound hr
    exact ⟨hs', hn.trans hrem.nextId, hlen.trans hrem.length⟩

end Heap

namespace Arena

variable {α : Type} {h h' : Heap} {u v t : Nat} {e : Element}

theorem run_follow {x y : Action Unit} {r : Except Aborted Heap} {f : Heap → Except Aborted Heap}
    (hx : x (ofHeap h) = follow r) (hy : ∀ h', r = .ok h' → y (ofHeap h') = follow (f h')) :
    (do x; y : Action Unit) (ofHeap h) = follow (r >>= f) := by
  cases r with
  | ok h' => exact (run_bind hx).trans (hy h' rfl)
  | error e => exact run_bind_error hx

theorem run_asked {q : Arena → Except HeapError α} {r : Except HeapError α} {y : α → Action Unit}
    {f : α → Except Aborted Heap} (hq : q (ofHeap h) = r) (hy : ∀ a, r = .ok a → y a (ofHeap h) = follow (f a)) :
    (ask q >>= y) (ofHeap h) = follow (h.orAbort r >>= f) := by
  cases r with
  | ok a => exact (run_ask hq).trans (hy a rfl)
  | error err => exact run_bind_error (ask_error hq)

section Tentacles

end Tentacles

section Gluing

variable {glue : List Nat}

end Gluing

section Folding

variable {P : Heap} {image : List Int} {p : Nat}

theorem imageOf_ofHeap (hs : h.Sound) : imageOf (ofHeap P) image p (ofHeap h) = Matching.imageOf ⟨P, image⟩ h p := by
  rw [imageOf, Matching.imageOf, show (ofHeap P).slots[p]? = (P.elements[p]?).map Slot.ofElement from List.getElem?_map]
  cases P.elements[p]? with
  | none => rfl
  | some e =>
    cases image[p]? with
    | none => rfl
    | some id => exact priv_ofHeap hs id e.kind

theorem stripImage_ofHeap (hs : h.Sound) (hb : h.nextId ≤ 2 ^ 31) (selectors : List Bytes) :
    stripImage (ofHeap P) image p selectors (ofHeap h) =
      follow (Heap.removeImageSelectors ⟨P, image⟩ h (selectors.map (fun s => (p, s)))) := by
  induction selectors generalizing h with
  | nil => rfl
  | cons s selectors ih =>
    refine run_asked (imageOf_ofHeap hs) fun v hv => ?_
    obtain ⟨x, -, -, lab, hl⟩ := Heap.imageOf_ok hs hv
    obtain ⟨e, he, -, -⟩ := Heap.labelAt_eq_some.mp hl
    refine run_follow (removeSelectorAt_ofHeap hs hb he s) fun h' hr => ?_
    obtain ⟨hs', hf, -⟩ := Heap.out_removeSelectorAt hs (Heap.orAbort_ok hr)
    exact ih hs' (hf.nextId ▸ hb)

theorem removeImage_ofHeap (hs : h.Sound) (hb : h.nextId ≤ 2 ^ 31) :
    removeImage (ofHeap P) image p (ofHeap h) = follow (Heap.removeImages ⟨P, image⟩ h [p]) := by
  refine run_asked (imageOf_ofHeap hs) fun v hv => ?_
  obtain ⟨x, -, -, lab, hl⟩ := Heap.imageOf_ok hs hv
  rw [removeVertex_follow hs hb hl]
  cases h.orAbort (h.removeAt v) <;> rfl

theorem images_ofHeap (hs : h.Sound) : images (ofHeap P) image (ofHeap h) =
    P.externals.mapM (Matching.imageOf ⟨P, image⟩ h) := by
  simp only [images, imageOf_ofHeap hs]
  rfl

theorem images_lt (hs : h.Sound) {m : Matching} {ps targets : List Nat} (ht : ps.mapM (m.imageOf h) = .ok targets) :
    ∀ t ∈ targets, t < h.elements.length := by
  intro t hmem
  obtain ⟨p, -, hp⟩ := exists_of_mem_mapM ht t hmem
  obtain ⟨x, -, -, lab, hl⟩ := Heap.imageOf_ok hs hp
  exact Heap.lt_of_labelAt hl

theorem ownSelectors_ofHeap (hs : h.Sound) (he : h.elements[p]? = some e) :
    ownSelectors image p (ofHeap h) = .ok (h.ownSelectors image p) := by
  have hkind : (Slot.ofElement e).kind = e.kind := rfl
  have hresolve : (image[p]?).bind (ofHeap h).resolve = (image[p]?).bind h.slot? := by
    rw [funext (resolve_ofHeap hs)]
  have hwalk : (Slot.ofElement e).element.walkedSelectors = e.walkedSelectors := rfl
  have hnames : (Slot.ofElement e).selectorNames = e.selectorNames := rfl
  rw [ownSelectors, slot_ofHeap he, Heap.ownSelectors, he]
  change (if (Slot.ofElement e).kind != .node then _ else _ : Except HeapError (List Bytes)) =
    .ok (if e.kind != .node then _ else _)
  rw [hkind, hresolve, hwalk, hnames]
  split
  · rfl
  · split <;> rfl

theorem stripOwn_ofHeap (hs : h.Sound) (hb : h.nextId ≤ 2 ^ 31) {ps : List Nat} (hp : ∀ p ∈ ps, p < h.elements.length) :
    stripOwn (ofHeap P) image ps (ofHeap h) = follow (Heap.stripItself ⟨P, image⟩ h ps) := by
  induction ps generalizing h with
  | nil => rfl
  | cons p ps ih =>
    rw [stripOwn, run_ask (ownSelectors_ofHeap hs (List.getElem?_eq_getElem (hp p List.mem_cons_self)))]
    refine run_follow (stripImage_ofHeap hs hb _) fun h' hr => ?_
    obtain ⟨hs', hf, -⟩ := Heap.out_removeImageSelectors hs hr
    exact ih hs' (hf.nextId ▸ hb) fun q hq => hf.length ▸ hp q (List.mem_cons_of_mem _ hq)

theorem stripItself_faces (hs : h.Sound) {m : Matching} {ps : List Nat} (hr : Heap.stripItself m h ps = .ok h') :
    h'.Sound ∧ Heap.SameFaces h h' := by
  induction ps generalizing h with
  | nil =>
    cases hr
    exact ⟨hs, .refl⟩
  | cons p ps ih =>
    obtain ⟨k, hk, hr⟩ := bind_ok hr
    obtain ⟨hks, hf, -⟩ := Heap.out_removeImageSelectors hs hk
    obtain ⟨hs', hf'⟩ := ih hks hr
    exact ⟨hs', hf.trans hf'⟩

theorem absorbOwn_ofHeap (hs : h.Sound) (hb : h.nextId ≤ 2 ^ 31) (chosen : Kind → Bool) {ps : List Nat}
    (hp : ∀ p ∈ ps, p < h.elements.length) :
    absorbOwn (ofHeap P) image chosen ps (ofHeap h) = follow (Heap.absorbItself ⟨P, image⟩ chosen h ps) := by
  induction ps generalizing h with
  | nil => rfl
  | cons p ps ih =>
    obtain ⟨e, he⟩ : ∃ e, h.elements[p]? = some e := ⟨_, List.getElem?_eq_getElem (hp p List.mem_cons_self)⟩
    have hinner : ((Slot.ofElement e).ordinal.isNone && chosen (Slot.ofElement e).kind) =
        (h.elements[p]?).any (fun e => e.ordinal.isNone && chosen e.kind) := by
      rw [he]
      rfl
    rw [absorbOwn, run_slot he, hinner, Heap.absorbItself]
    dsimp only
    by_cases hc : (h.elements[p]?).any (fun e => e.ordinal.isNone && chosen e.kind) = true
    · rw [if_pos hc, if_pos hc]
      refine run_follow (removeImage_ofHeap hs hb) fun h' hr => ?_
      obtain ⟨hs', hn, hlen⟩ := Heap.removeImages_sound hs hr
      exact ih hs' (hn ▸ hb) fun q hq => hlen ▸ hp q (List.mem_cons_of_mem _ hq)
    · rw [if_neg hc, if_neg hc]
      exact ih hs hb fun q hq => hp q (List.mem_cons_of_mem _ hq)

theorem absorbItself_sound (hs : h.Sound) {m : Matching} {chosen : Kind → Bool} {ps : List Nat}
    (hr : Heap.absorbItself m chosen h ps = .ok h') :
    h'.Sound ∧ h'.nextId = h.nextId ∧ h'.elements.length = h.elements.length := by
  induction ps generalizing h with
  | nil =>
    cases hr
    exact ⟨hs, rfl, rfl⟩
  | cons p ps ih =>
    rw [Heap.absorbItself] at hr
    split at hr
    · obtain ⟨k, hk, hr⟩ := bind_ok hr
      obtain ⟨hks, hn, hlen⟩ := Heap.removeImages_sound hs hk
      obtain ⟨hs', hn', hlen'⟩ := ih hks hr
      exact ⟨hs', hn'.trans hn, hlen'.trans hlen⟩
    · exact ih hs hr

theorem foldItself_ofHeap (hs : h.Sound) (hb : h.nextId ≤ 2 ^ 31) (nt : Nonterminal) :
    foldItself image nt (ofHeap h) = follow (h.foldItself image nt) := by
  have hcount : (ofHeap h).externals.length = h.externalCount := hs.length_externals
  have hlength : (ofHeap h).slots.length = h.elements.length := List.length_map ..
  rw [foldItself, run_get, Heap.foldItself, hcount, hlength]
  by_cases hr : nt.rank ≠ h.externalCount
  · rw [if_pos hr, if_pos hr]
    rfl
  rw [if_neg hr, if_neg hr]
  by_cases hl : image.length ≠ h.elements.length
  · rw [if_pos hl, if_pos hl]
    rfl
  rw [if_neg hl, if_neg hl]
  refine run_follow (stripOwn_ofHeap hs hb fun p hp => List.mem_range.mp hp) fun stripped hstrip => ?_
  obtain ⟨hs₁, hf₁⟩ := stripItself_faces hs hstrip
  have hb₁ : stripped.nextId ≤ 2 ^ 31 := hf₁.nextId ▸ hb
  refine run_asked (images_ofHeap hs₁) fun targets htargets => ?_
  refine run_follow (absorbOwn_ofHeap hs₁ hb₁ _ fun p hp => hf₁.length ▸ List.mem_range.mp hp) fun smaller hsmaller => ?_
  obtain ⟨hs₂, hn₂, hlen₂⟩ := absorbItself_sound hs₁ hsmaller
  refine run_follow (absorbOwn_ofHeap hs₂ (hn₂ ▸ hb₁) _ fun p hp => by
    rw [hlen₂, hf₁.length]
    exact List.mem_range.mp hp) fun bare hbare => ?_
  obtain ⟨hs₃, -, hlen₃⟩ := absorbItself_sound hs₂ hbare
  have hlt : ∀ t ∈ targets, t < bare.elements.length := by
    rw [hlen₃, hlen₂]
    exact images_lt hs₁ htargets
  rw [run_bind (addHyperedge_ofHeap hs₃ nt hlt)]
  rfl

end Folding

end Arena

end HeapAbstraction
