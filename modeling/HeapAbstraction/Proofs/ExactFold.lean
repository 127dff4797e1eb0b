import HeapAbstraction.Proofs.Answers
import HeapAbstraction.Proofs.FoldFrame
import HeapAbstraction.Proofs.FoldInverse

namespace HeapAbstraction

namespace HeapState

def Absorbs (P : HeapState) (f : Nat → Nat) (x : Nat) : Prop := ∃ a, P.kind? a ≠ none ∧ a ∉ P.externals ∧ f a = x

def Covers (P : HeapState) (f : Nat → Nat) (x : Nat) (s : Bytes) : Prop := ∃ a b, P.selector a s = some b ∧ f a = x

open Classical in
noncomputable def foldAway (A P : HeapState) (f : Nat → Nat) (nt : Nonterminal) : HeapState where
  nextId := A.nextId + 1
  nodeType x := if P.Absorbs f x then none else A.nodeType x
  selector x s := if P.Covers f x s then none else A.selector x s
  hyperedge x :=
    if x = A.nextId then some (nt, P.externals.map f) else if P.Absorbs f x then none else A.hyperedge x
  pointer x := if P.Absorbs f x then none else A.pointer x
  externals := A.externals

end HeapState

namespace Heap

variable {P h h' : Heap} {X : Nat → Nat} {x : Nat}

theorem WellFormed.absorbs_iff (hP : P.WellFormed) : P.state.Absorbs (P.byId X) x ↔ HeapView.Absorbed P X x := by
  have hlive (a : Nat) : P.state.kind? a ≠ none ↔ ∃ lab, P.view.label a = some lab := by
    rw [hP.kind?_state, ne_eq, Option.map_eq_none_iff, ← ne_eq, Option.ne_none_iff_exists']
  simp only [HeapState.Absorbs, HeapView.Absorbed, hlive, hP.denotes.not_mem_externals]
  constructor
  · rintro ⟨a, ⟨lab, hl⟩, ho, hx⟩
    obtain ⟨p, hp⟩ := hP.exists_label_byId.mp ⟨a, hl, ho, hx⟩
    exact ⟨p, lab, hp⟩
  · rintro ⟨p, lab, hp⟩
    obtain ⟨a, hl, ho, hx⟩ := hP.exists_label_byId.mpr ⟨p, hp⟩
    exact ⟨a, ⟨lab, hl⟩, ho, hx⟩

theorem WellFormed.covers_iff (hP : P.WellFormed) {s : Bytes} :
    P.state.Covers (P.byId X) x s ↔ ∃ p q, P.Linked p (.selector s) q ∧ X p = x := by
  simp only [HeapState.Covers, hP.denotes.selector]
  constructor
  · rintro ⟨a, b, hl, hx⟩
    obtain ⟨p, q, hpq, hx, -⟩ := hP.exists_link_byId.mp ⟨a, b, hl, hx, rfl⟩
    exact ⟨p, q, hpq, hx⟩
  · rintro ⟨p, q, hpq, hx⟩
    obtain ⟨a, b, hl, hx, -⟩ := hP.exists_link_byId.mpr ⟨p, q, hpq, hx, rfl⟩
    exact ⟨a, b, hl, hx⟩

end Heap

namespace HeapView

variable {P : Heap} {A B : HeapView} {X : Nat → Nat} {nt : Nonterminal} {a : HeapState}

theorem Folds.link_selector (hf : Folds P A X nt B) (hX : Embeds P A X) {x y : Nat} {s : Bytes} :
    B.link x (.selector s) y ↔ A.link x (.selector s) y ∧ ¬ ∃ p q, P.Linked p (.selector s) q ∧ X p = x := by
  rw [hf.link]
  constructor
  · rintro (⟨hl, hcov, -⟩ | ⟨-, i, p, hl, -⟩)
    · exact ⟨hl, fun ⟨p, q, hpq, hx⟩ => hcov p q hpq hx⟩
    · cases hl
  · rintro ⟨hl, hcov⟩
    refine .inl ⟨hl, fun p q hpq hx => hcov ⟨p, q, hpq, hx⟩, ?_, ?_⟩
    · rintro ⟨p, lab, hp, ho, rfl⟩
      obtain ⟨q, hq, -⟩ := hX.inner_out p lab _ y hp ho hl
      exact hcov ⟨p, q, hq, rfl⟩
    · rintro ⟨p, lab, hp, ho, rfl⟩
      obtain ⟨q, hq, hx⟩ := hX.inner_in p lab _ x hp ho hl
      exact hcov ⟨q, p, hq, hx⟩

theorem Folds.link_fresh (hf : Folds P A X nt B) (hA : A.Proper) (hP : P.Sound) {i y : Nat} :
    B.link A.nextId (.tentacle i) y ↔ (P.externals.map X)[i]? = some y := by
  simp only [List.getElem?_map, Option.map_eq_some_iff, hP.getElem?_externals]
  rw [hf.link]
  constructor
  · rintro (⟨hl, -⟩ | ⟨-, j, p, hl, ho, rfl⟩)
    · exact absurd hl hA.not_link_nextId
    · cases hl
      exact ⟨p, ho, rfl⟩
  · rintro ⟨p, ho, rfl⟩
    exact .inr ⟨rfl, i, p, rfl, ho, rfl⟩

theorem Folds.denotes (hf : Folds P A X nt B) (hX : Embeds P A X) (hP : P.WellFormed) (hA : A.Proper)
    (ha : A.Denotes a) : B.Denotes (a.foldAway P.state (P.byId X) nt) := by
  have hplaced := hX.placed hP.toSound
  have hkept {x : Nat} {lab : Label} (hx : x ≠ A.nextId) :
      B.label x = some lab ↔ A.label x = some lab ∧ ¬ Absorbed P X x := by simp [hf.label, hx]
  refine ⟨?_, fun x type => ?_, fun x s y => ?_, fun x nt' ys => ?_, fun x name y => ?_, fun i x => ?_⟩
  · rw [hf.nextId, ← ha.nextId]
    rfl
  · by_cases hx : x = A.nextId
    · subst hx
      have hn : a.nodeType A.nextId ≠ some type := fun ht => by simpa [hA.label_nextId] using (ha.nodeType _ _).mp ht
      simp [HeapState.foldAway, hf.label, hA.label_nextId, hn]
    · simp [HeapState.foldAway, hP.absorbs_iff, hkept hx, ← ha.nodeType, and_comm]
  · simp only [HeapState.foldAway, hP.covers_iff, hf.link_selector hX, ← ha.selector, Option.ite_none_left_eq_some,
      and_comm]
  · by_cases hx : x = A.nextId
    · subst hx
      have hlab : B.label A.nextId = some (.nonterminal nt') ↔ nt = nt' := by simp [hf.label, hA.label_nextId, eq_comm]
      simp only [HeapState.foldAway, ha.nextId, if_true, hP.externals_byId, hlab, hf.link_fresh hA hP.toSound,
        Option.some.injEq, Prod.mk.injEq]
      refine and_congr_right fun _ => ⟨fun hy i y => by rw [hy], fun hy => ?_⟩
      exact List.ext_getElem? fun i => Option.ext fun y => (hy i y).symm
    · simp only [HeapState.foldAway, ha.nextId, hx, if_false, hP.absorbs_iff, Option.ite_none_left_eq_some, hkept hx,
        ha.hyperedge]
      rw [and_left_comm, and_assoc]
      refine and_congr_right fun hlab => and_congr_right fun hab => ?_
      exact forall₂_congr fun i y => by rw [hf.link_edge hplaced hP hA hlab (by simp) hab]
  · by_cases hx : x = A.nextId
    · subst hx
      have hn : a.pointer A.nextId ≠ some (name, y) := fun ht => by
        simpa [hA.label_nextId] using ((ha.pointer _ _ _).mp ht).1
      simp [HeapState.foldAway, hf.label, hA.label_nextId, hn]
    · simp only [HeapState.foldAway, hP.absorbs_iff, Option.ite_none_left_eq_some, hkept hx, ha.pointer]
      rw [and_left_comm, and_assoc]
      exact and_congr_right fun hlab => and_congr_right fun hab => (hf.link_edge hplaced hP hA hlab (by simp) hab).symm
  · rw [hf.ordinal]
    exact ha.externals i x

end HeapView

namespace Heap

variable {P h h' : Heap} {X : Nat → Nat} {image : List Int} {p : Nat}

theorem mem_of_absorbed_eq {pre post : List Nat} (hsplit : (⟨P, image⟩ : Matching).absorbed = pre ++ p :: post)
    (hp : P.IsNode p) {q : Nat} {lab : Label} (hl : P.labelAt q = some lab) (ho : P.ordinalAt q = none)
    (hn : ¬ P.IsNode q) : q ∈ pre := by
  have hedge (r : Nat) : r ∈ ((P.elements.zipIdx.filter (fun c => c.1.ordinal.isNone)).filter
      (fun c => c.1.kind != .node)).map Prod.snd ↔ ∃ e, P.elements[r]? = some e ∧ e.ordinal = none ∧ e.kind ≠ .node := by
    simp [List.mk_mem_zipIdx_iff_getElem?, and_comm]
  have hq : ∃ e, P.elements[q]? = some e ∧ e.ordinal = none ∧ e.kind ≠ .node := by
    obtain ⟨e, he, ho, rfl⟩ := exists_inner hl ho
    exact ⟨e, he, ho, fun hk => hn (isNode_of_kind hl hk)⟩
  rw [Matching.absorbed, List.map_append, List.append_eq_append_iff] at hsplit
  rcases hsplit with ⟨as, rfl, -⟩ | ⟨bs, hpre, hpost⟩
  · exact List.mem_append_left _ ((hedge q).mpr hq)
  · cases bs with
    | nil =>
      rw [List.append_nil] at hpre
      exact hpre ▸ (hedge q).mpr hq
    | cons b bs =>
      obtain ⟨rfl, -⟩ := List.cons.inj hpost
      obtain ⟨e, he, -, hk⟩ := (hedge p).mp (hpre ▸ List.mem_append_right _ List.mem_cons_self)
      obtain ⟨type, ht⟩ := hp
      obtain ⟨d, hd, -, hlab⟩ := labelAt_eq_some.mp ht
      obtain rfl := Option.some.inj (he.symm.trans hd)
      exact absurd (by rw [Element.kind, hlab]; rfl) hk

theorem Sound.bare_of_not_linked (hs : h.Sound) {v x : Nat} (hid : h.idOf v = some x)
    (hout : ∀ l y, ¬ h.view.link x l y) (hin : ∀ l y, ¬ h.view.link y l x) : h.out v = [] ∧ h.into v = [] := by
  constructor
  · refine List.eq_nil_iff_forall_not_mem.mpr fun a ha => ?_
    obtain ⟨l, hl⟩ := hs.joined_iff.mp (show h.Joined v a.target from ⟨a, ha, rfl⟩)
    exact hout l _ ⟨v, a.target, hid, hs.publicId_target hl.joined, hl⟩
  · refine List.eq_nil_iff_forall_not_mem.mpr fun u hu => ?_
    obtain ⟨l, hl⟩ := hs.joined_iff.mp ((hs.mem_into u v).mp hu)
    obtain ⟨lab, hlab⟩ := hs.labelAt_of_joined hl.joined
    obtain ⟨y, hy⟩ := idOf_of_labelAt hlab
    exact hin l y ⟨u, v, hy, hid, hl⟩

theorem WellFormed.removed_bare (hP : P.WellFormed) (hi : P.Idle) (hs : h.Sound) (hX : HeapView.Embeds P h.view X)
    (himg : ∀ p < P.elements.length, image[p]? = some (X p : Int)) :
    ∃ stripped, removeImageSelectors ⟨P, image⟩ h (⟨P, image⟩ : Matching).selectors = .ok stripped ∧
      ∀ pre p post, (⟨P, image⟩ : Matching).absorbed = pre ++ p :: post → P.IsNode p →
        ∃ bare v, removeImages ⟨P, image⟩ stripped pre = .ok bare ∧ (⟨P, image⟩ : Matching).imageOf bare p = .ok v ∧
          bare.out v = [] ∧ bare.into v = [] := by
  have hplaced := hX.placed hP.toSound
  obtain ⟨stripped, hr, hs1, -, hl1, ho1, hk1⟩ := hP.strip hi hs hplaced himg
  refine ⟨stripped, hr, fun pre p post hsplit hp => ?_⟩
  have hsub : (pre ++ [p]).Sublist (⟨P, image⟩ : Matching).absorbed := by
    rw [hsplit, List.append_cons pre p post]
    exact List.sublist_append_left _ _
  have hmem : p ∈ (⟨P, image⟩ : Matching).absorbed := hsub.subset (by simp)
  obtain ⟨lab, hlp, hop⟩ := (mem_absorbed hi).mp hmem
  obtain ⟨bare, hr2, hs2, -, -, hl2, -, hk2⟩ := exists_absorb_part hi hs1 (by rw [hl1]; exact hplaced.kind)
    (by rw [ho1]; exact hplaced.inner) hplaced.apart himg ((List.sublist_append_left pre [p]).trans hsub)
  have hpre : ¬ ∃ q ∈ pre, X q = X p := by
    rintro ⟨q, hq, hqp⟩
    obtain ⟨labq, hlq, -⟩ := (mem_absorbed hi).mp (hsub.subset (List.mem_append_left _ hq))
    obtain rfl := hX.inj q p _ _ hlq hlp hqp
    have hnd := absorbed_nodup.sublist hsub
    exact List.disjoint_of_nodup_append hnd hq List.mem_cons_self
  have hlab : bare.view.label (X p) = some lab := by
    rw [hl2, hl1]
    exact ⟨hX.label p lab hlp, hpre⟩
  obtain ⟨v, hv, hid⟩ : ∃ v, (⟨P, image⟩ : Matching).imageOf bare p = .ok v ∧ bare.idOf v = some (X p) :=
    exists_image hs2 (by rw [hlab]; rfl) himg hlp
  refine ⟨bare, v, hr2, hv, hs2.bare_of_not_linked hid (fun l y hlink => ?_) (fun l y hlink => ?_)⟩
  · obtain ⟨⟨hA, hcov⟩, -⟩ := (hk2 _ _ _).mp hlink |>.imp_left (hk1 _ _ _).mp
    obtain ⟨q, hq, -⟩ := hX.inner_out p lab l y hlp hop hA
    exact hcov ⟨p, q, hp, hq, rfl⟩
  · obtain ⟨⟨hA, hcov⟩, hy, -⟩ := (hk2 _ _ _).mp hlink |>.imp_left (hk1 _ _ _).mp
    obtain ⟨q, hq, rfl⟩ := hX.inner_in p lab l y hlp hop hA
    -- the arc comes from a node, whose selectors are gone, or from an edge, which went first
    by_cases hn : P.IsNode q
    · exact hcov ⟨q, p, hn, hq, rfl⟩
    · obtain ⟨labq, hlq⟩ := hP.labelAt_of_joined hq.joined
      exact hy ⟨q, mem_of_absorbed_eq hsplit hp hlq (hP.ordinalAt_eq_none hn) hn, rfl⟩

open Classical in
theorem WellFormed.selectorsOf_fold (hP : P.WellFormed) (hi : P.Idle) (hw : h.WellFormed) (hs' : h'.Sound)
    (hX : HeapView.Embeds P h.view X) (himg : ∀ p < P.elements.length, image[p]? = some (X p : Int)) {nt : Nonterminal}
    (hf : h.fold ⟨P, image⟩ nt = .ok h') (hfolds : HeapView.Folds P h.view X nt h'.view) {x : Nat} {type : Bytes}
    {names : List Bytes} (hx : h.view.label x = some (.node type)) (hnames : h.selectorsOf x = .ok names)
    (hn : ¬ HeapView.Absorbed P X x) :
    h'.selectorsOf x = .ok (names.filter (fun s => ¬ P.state.Covers (P.byId X) x s)) := by
  have hs := hw.toSound
  obtain ⟨v, hid, hl⟩ := hs.view_label.mp hx
  have harcs : h'.arcsOf x = Arc.restrict (fun l => ∀ p q, P.Linked p l q → X p ≠ x) (h.arcsOf x) :=
    hP.arcsOf_fold hi hs hs' (hX.placed hP.toSound) himg hf hx hn (by simp)
  have hkeep : ∀ l ∈ (h.arcsOf x).flatMap Arc.labels, decide (∀ p q, P.Linked p l q → X p ≠ x) =
      decide (¬ P.state.Covers (P.byId X) x l.name) := by
    intro l hml
    obtain ⟨y, hy⟩ := Arc.mem_flatMap_labels.mp hml
    obtain ⟨w, t, hw', -, hlk⟩ := hs.carries_arcsOf.mp hy
    obtain rfl := hs.id_inj v w x hid hw'
    rw [hP.covers_iff, selector_name (hw.isSelector ⟨type, hl⟩ hlk)]
    simp
  rw [selectorsOf_eq hs hx, Except.ok.injEq] at hnames
  rw [selectorsOf_eq hs' ((hfolds.label x _).mpr (.inr ⟨hx, hn⟩)), ← hnames, ← List.map_flatMap, ← List.map_flatMap, harcs,
    Arc.flatMap_labels_restrict, List.filter_map, List.filter_congr hkeep]
  rfl

end Heap

namespace Draft

open Classical in
theorem foldAt_exact (host pattern : Draft) (nt : Nonterminal) {predicates : List Predicate} {first : Bool}
    {found : List Morphism} {m : Morphism} (hw : host.heap.WellFormed) (hi : host.heap.Idle)
    (hP : pattern.heap.WellFormed) (hPi : pattern.heap.Idle) (hp : Predicate.embedding ⊆ predicates)
    (hf : morphisms predicates first pattern host = .ok found) (hm : m ∈ found)
    (hk : nt.rank = pattern.heap.externalCount) :
    ∃ matching folded f, Matching.ofMorphism pattern.heap host.heap m = .ok matching ∧
      host.begin.foldAt pattern.heap m nt = (folded, .ok ()) ∧ folded.heap.WellFormed ∧
      (∀ p v a, m[p]? = some v → pattern.heap.idOf p = some a → host.heap.idOf v = some (f a)) ∧
      folded.heap.state = host.heap.state.foldAway pattern.heap.state f nt ∧
      (∀ (x : Nat) type names, host.heap.state.nodeType x = some type → host.heap.selectorsOf x = .ok names →
        ¬ pattern.heap.state.Absorbs f x →
          folded.heap.selectorsOf x = .ok (names.filter (fun s => ¬ pattern.heap.state.Covers f x s))) ∧
      ∃ stripped, Heap.removeImageSelectors matching host.heap matching.selectors = .ok stripped ∧
        ∀ pre p post, matching.absorbed = pre ++ p :: post → pattern.heap.IsNode p →
          ∃ bare v, Heap.removeImages matching stripped pre = .ok bare ∧ matching.imageOf bare p = .ok v ∧
            bare.out v = [] ∧ bare.into v = [] := by
  obtain ⟨e, hemb, rfl, hX⟩ := embeds_of_mem_morphisms ⟨hw, fun _ => hi⟩ hP hp hf hm
  obtain ⟨matching, folded, hmatch, hfold, hfolds, hfw⟩ := hw.fold_isEmbedding hi hP hPi hk hemb
  obtain rfl := Except.ok.inj ((Heap.ofMorphism_eq hemb).symm.trans hmatch)
  have himg (p : Nat) (hp : p < pattern.heap.elements.length) :
      ((List.range pattern.heap.elements.length).map (fun p => (host.heap.imageId e p : Int)))[p]? =
        some (host.heap.imageId e p : Int) := by simp [hp]
  refine ⟨_, ⟨folded, .editing⟩, pattern.heap.byId (host.heap.imageId e), hmatch, foldAt_ok (by simp [begin]) hmatch hfold,
    hfw, fun p v a hv ha => ?_, hfw.denotes.unique (hfolds.denotes hX hP hw.toSound.proper hw.denotes),
    fun x type names hx hnames hn => hP.selectorsOf_fold hPi hw hfw.toSound hX himg hfold hfolds
      ((hw.denotes.nodeType x type).mp hx) hnames (hP.absorbs_iff.not.mp hn),
    hP.removed_bare hPi hw.toSound hX himg⟩
  rw [List.getElem?_map, Option.map_eq_some_iff] at hv
  obtain ⟨q, hq, rfl⟩ := hv
  obtain ⟨hlt, rfl⟩ := List.getElem?_eq_some_iff.mp hq
  rw [List.length_range, Heap.graph_size] at hlt
  rw [List.getElem_range, Heap.idOf_imageId hemb hlt, hP.toSound.byId_eq _ ha (hPi.labelAt hlt)]

theorem foldAt_exact_heldChain :
    morphisms (Predicate.distantEmbedding 1 (fun _ => false)) false ⟨Heap.path, .idle⟩ ⟨Grammar.heldChain, .idle⟩ =
        .ok [[1, 2, 3]] ∧
      ∃ folded : Draft, foldAt ⟨Grammar.heldChain, .editing⟩ Heap.path [1, 2, 3] ⟨"L", 2⟩ = (folded, .ok ()) ∧
        folded.heap.state.hyperedge 5 = some (⟨"L", 2⟩, [1, 3]) ∧ folded.heap.state.nodeType 2 = none ∧
        folded.heap.state.selector 1 "next" = none ∧ folded.heap.state.externals = [3] ∧
        folded.heap.selectorsOf 0 = .ok ["next"] := by
  have hfound : morphisms (Predicate.distantEmbedding 1 (fun _ => false)) false ⟨Heap.path, .idle⟩
      ⟨Grammar.heldChain, .idle⟩ = .ok [[1, 2, 3]] := by decide
  obtain ⟨-, folded, f, -, hfold, -, hf, hstate, -⟩ :=
    foldAt_exact ⟨Grammar.heldChain, .idle⟩ ⟨Heap.path, .idle⟩ ⟨"L", 2⟩ Grammar.wellFormed_heldChain (by decide)
      Heap.wellFormed_path (by decide) (List.subset_append_left _ _) hfound List.mem_cons_self rfl
  have hf0 : 1 = f 0 := Option.some.inj (hf 0 1 0 rfl rfl)
  have hf1 : 2 = f 1 := Option.some.inj (hf 1 2 1 rfl rfl)
  have hf2 : 3 = f 2 := Option.some.inj (hf 2 3 2 rfl rfl)
  refine ⟨hfound, folded, hfold, ?_, ?_, ?_, ?_, ?_⟩
  · rw [hstate]
    exact congrArg some (Prod.ext rfl (by simp [show Heap.path.state.externals = [0, 2] from rfl, ← hf0, ← hf2]))
  · rw [hstate]
    exact if_pos ⟨1, by decide, by decide, hf1.symm⟩
  · rw [hstate]
    exact if_pos ⟨0, 1, rfl, hf0.symm⟩
  · rw [hstate]
    rfl
  · cases hfold
    rfl

end Draft

end HeapAbstraction
