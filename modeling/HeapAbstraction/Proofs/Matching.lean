import HeapAbstraction.Proofs.Folding
import HeapAbstraction.Proofs.Embedding

namespace HeapAbstraction

theorem Verdict.andThen_eq_accept {a b : Verdict} : a.andThen b = .accept ↔ a = .accept ∧ b = .accept := by
  cases a <;> simp [andThen]

namespace Feasibility

variable {s : SearchState} {c : Pair}

theorem all_of_scan {ok : Nat → Bool} {vs : List Nat} (h : scan ok vs = .accept) : vs.all ok = true := by
  induction vs with
  | nil => rfl
  | cons v vs ih =>
    rw [scan] at h
    split at h
    · simp at h
    · split at h
      · rename_i hv
        simp [hv, ih h]
      · simp at h

theorem neighboursAgree_of_guarded {exact : Bool} {ps ts : List Nat} (h : guardedNeighbours exact ps ts s c = .accept) :
    neighboursAgree exact ps ts s c = true := by
  obtain ⟨hp, ht⟩ := Verdict.andThen_eq_accept.mp h
  rw [neighboursAgree, all_of_scan hp, all_of_scan ht]
  rfl

end Feasibility

namespace Predicate

variable {s : SearchState} {c : Pair} {distances : Option (List (Option Nat))} {predicates : List Predicate}

theorem guardedTest_of_guardedTests (h : guardedTests distances predicates s c = .accept) :
    ∀ predicate ∈ predicates, predicate.guardedTest distances s c = .accept := by
  induction predicates with
  | nil => simp
  | cons predicate predicates ih =>
    rw [guardedTests] at h
    cases ht : predicate.guardedTest distances s c with
    | reject => simp [ht] at h
    | fault => simp [ht] at h
    | accept =>
      simp only [ht] at h
      simpa [ht] using ih h

theorem test_of_guardedTest {predicate : Predicate} (hp : predicate ∈ embedding)
    (h : predicate.guardedTest distances s c = .accept) : predicate.test [] s c = true := by
  simp only [embedding, List.mem_cons, List.not_mem_nil, or_false] at hp
  rcases hp with rfl | rfl | rfl | rfl | rfl | rfl | rfl | rfl
  · exact Verdict.ofBool_eq_accept.mp h
  · exact Feasibility.neighboursAgree_of_guarded h
  · exact Feasibility.neighboursAgree_of_guarded h
  · exact Verdict.ofBool_eq_accept.mp h
  · exact Verdict.ofBool_eq_accept.mp h
  · exact Verdict.ofBool_eq_accept.mp h
  · exact Verdict.ofBool_eq_accept.mp h
  · exact Verdict.ofBool_eq_accept.mp h

theorem feasible_of_tests {found : List (Option Nat)} (h : ∀ predicate ∈ embedding, predicate.test found s c = true) :
    Feasible false s c := by
  have hall : (embedding.map (Predicate.test found)).all (fun t => t s c) = true := by simpa using h
  exact (Graph.accept_embedding.mp hall).1

end Predicate

namespace Graph

variable {P T : Graph} {first : Bool} {m : Morphism} {predicates : List Predicate}

theorem exists_isEmbedding_of_mem_run {plan : SearchPlan} (hP : P.WellFormed) (hT : T.WellFormed)
    (hfound : plan.found = SearchState.isComplete) (hsound : ∀ s c, plan.test s c = .accept → Feasible false s c)
    (hm : m ∈ (plan.run first P T).hits) : ∃ f, P.IsEmbedding T f ∧ m = (List.range P.size).map f := by
  have hstep (s : SearchState) (c : Pair) (hs : Consistent false P T s) (hc : c ∈ s.candidates)
      (ht : plan.test s c = .accept) : Consistent false P T (s.extend c) := by
    obtain ⟨hp, htt, hmp, hmt⟩ := hs.candidate hc
    exact hs.extend hs.toExact hP hT hp htt hmp hmt (hsound s c ht)
  obtain ⟨s, hs, hc, rfl⟩ := SearchPlan.exists_of_mem_visit hstep (consistent_start false P T) hm
  rw [hfound] at hc
  have ha : s.Agrees (fun p => (s.pattern.partner? p).getD 0) := fun p t hp => by simp [hp]
  exact ⟨_, matches_false_iff.mp (hs.matches hP hT (by simp) hc ha), hs.toExact.morphism_eq hc ha⟩

theorem exists_isEmbedding_of_mem_morphisms (hP : P.WellFormed) (hT : T.WellFormed)
    (hp : Predicate.embedding ⊆ predicates) (hm : m ∈ morphisms predicates first P T) :
    ∃ f, P.IsEmbedding T f ∧ m = (List.range P.size).map f := by
  refine exists_isEmbedding_of_mem_run hP hT rfl (fun s c ht => ?_) hm
  have hall := Verdict.ofBool_eq_accept.mp ht
  simp only [Predicate.tests, List.all_map, List.all_eq_true] at hall
  exact Predicate.feasible_of_tests fun predicate hmem => hall predicate (hp hmem)

theorem exists_isEmbedding_of_mem_guardedMorphisms {found : List Morphism} (hP : P.WellFormed) (hT : T.WellFormed)
    (hp : Predicate.embedding ⊆ predicates) (hf : guardedMorphisms? predicates first P T = some found)
    (hm : m ∈ found) : ∃ f, P.IsEmbedding T f ∧ m = (List.range P.size).map f := by
  simp only [guardedMorphisms?, Option.ite_none_left_eq_some, Option.some.injEq] at hf
  obtain ⟨-, rfl⟩ := hf
  refine exists_isEmbedding_of_mem_run hP hT rfl (fun s c ht => ?_) hm
  exact Predicate.feasible_of_tests fun predicate hmem =>
    Predicate.test_of_guardedTest hmem (Predicate.guardedTest_of_guardedTests ht predicate (hp hmem))

end Graph

namespace Heap

variable {P h : Heap} {f : Nat → Nat} {p : Nat} {lab : Label}

def imageId (h : Heap) (f : Nat → Nat) (p : Nat) : Nat := (h.idOf (f p)).getD 0

theorem idOf_imageId (hf : P.graph.IsEmbedding h.graph f) (hp : p < P.elements.length) :
    h.idOf (f p) = some (h.imageId f p) := by
  have hlt := hf.lt p (by rwa [graph_size])
  rw [graph_size] at hlt
  simp [imageId, idOf, List.getElem?_eq_getElem hlt]

theorem embeds_of_isEmbedding (hf : P.graph.IsEmbedding h.graph f) (hP : P.Sound) (hs : h.Sound) (hi : h.Idle) :
    HeapView.Embeds P h.view (h.imageId f) := by
  have hid (p : Nat) (lab : Label) (hl : P.labelAt p = some lab) := idOf_imageId hf (lt_of_labelAt hl)
  have hint (p : Nat) : P.graph.isExternal p = false ↔ P.ordinalAt p = none := by
    rw [graph_isExternal, Option.isSome_eq_false_iff, Option.isNone_iff_eq_none]
  have hnode (q : Nat) (v : Nat) (hq : P.Joined v q) : ∃ lab, P.labelAt q = some lab := by
    obtain ⟨type, ht⟩ := hP.ends v q hq
    exact ⟨_, ht⟩
  refine ⟨fun p lab hl => ?_, fun p q lab lab' hl hl' hpq => ?_, fun p l q hpq => ?_, fun p lab hl ho => ?_,
    fun p lab l y hl ho hlink => ?_, fun p lab l y hl ho hlink => ?_⟩
  · rw [hs.view_label_of_idOf (hid p lab hl)]
    have hlt := hf.lt p (lt_graph_size hl)
    rw [graph_size] at hlt
    rw [hi.labelAt hlt, hf.label p (lt_graph_size hl), graph_label hl]
  · have h1 := hid p lab hl
    rw [hpq] at h1
    exact hf.inj p (lt_graph_size hl) q (lt_graph_size hl') (hs.id_inj _ _ _ h1 (hid q lab' hl'))
  · obtain ⟨lab, hl⟩ := hP.labelAt_of_joined hpq.joined
    obtain ⟨lab', hl'⟩ := hnode q p hpq.joined
    rw [hs.view_link_of_idOf (hid p lab hl) (hid q lab' hl'), ← mem_graph_arcLabels hs]
    exact hf.labels p q (mem_graph_successors.mpr hpq.joined) ((mem_graph_arcLabels hP).mpr hpq)
  · rw [hs.view_ordinal_of_idOf (hid p lab hl)]
    have := hf.inner p (lt_graph_size hl) ((hint p).mpr ho)
    rwa [graph_isExternal, Option.isSome_eq_false_iff, Option.isNone_iff_eq_none] at this
  · obtain ⟨u, v, hu, hv, hlink⟩ := hlink
    have := hs.id_inj _ _ _ hu (hid p lab hl)
    subst this
    obtain ⟨q, hq, rfl⟩ := hf.successors p (lt_graph_size hl) ((hint p).mpr ho) v (mem_graph_successors.mpr hlink.joined)
    obtain ⟨lab', hl'⟩ := hnode q p (mem_graph_successors.mp hq)
    refine ⟨q, ?_, Option.some.inj ((hid q lab' hl').symm.trans hv)⟩
    rw [← mem_graph_arcLabels hP]
    exact hf.labels_eq p q hq (by simp [(hint p).mpr ho]) ((mem_graph_arcLabels hs).mpr hlink)
  · obtain ⟨u, v, hu, hv, hlink⟩ := hlink
    have := hs.id_inj _ _ _ hv (hid p lab hl)
    subst this
    have hpred : u ∈ h.graph.predecessors (f p) :=
      (hs.graph.mem_predecessors _ _).mpr (mem_graph_successors.mpr hlink.joined)
    obtain ⟨q, hq, rfl⟩ := hf.predecessors p (lt_graph_size hl) ((hint p).mpr ho) u hpred
    have hq := (hP.graph.mem_predecessors _ _).mp hq
    obtain ⟨lab', hl'⟩ := hP.labelAt_of_joined (mem_graph_successors.mp hq)
    refine ⟨q, ?_, Option.some.inj ((hid q lab' hl').symm.trans hu)⟩
    rw [← mem_graph_arcLabels hP]
    exact hf.labels_eq q p hq (by simp [(hint p).mpr ho]) ((mem_graph_arcLabels hs).mpr hlink)

theorem ofMorphism_eq (hf : P.graph.IsEmbedding h.graph f) :
    Matching.ofMorphism P h ((List.range P.graph.size).map f) =
      .ok ⟨P, (List.range P.elements.length).map (fun p => (h.imageId f p : Int))⟩ := by
  have hids (ps : List Nat) (hps : ∀ p ∈ ps, p < P.elements.length) :
      (ps.map f).mapM h.idAt = .ok (ps.map (h.imageId f)) := by
    induction ps with
    | nil => rfl
    | cons p ps ih =>
      have hp := idOf_imageId hf (hps p List.mem_cons_self)
      obtain ⟨e, he, hid⟩ := Option.map_eq_some_iff.mp hp
      have hat : h.idAt (f p) = .ok (h.imageId f p) := by simp [idAt, he, hid]
      have ih := ih fun q hq => hps q (List.mem_cons_of_mem _ hq)
      simp only [List.map_cons, List.mapM_cons, hat, ih]
      rfl
  rw [Matching.ofMorphism, graph_size, hids _ fun p hp => List.mem_range.mp hp]
  simp [bind, Except.bind, pure, Except.pure, Function.comp_def]

theorem WellFormed.fold_isEmbedding {nt : Nonterminal} (hw : h.WellFormed) (hi : h.Idle) (hP : P.WellFormed)
    (hPi : P.Idle) (hk : nt.rank = P.externalCount) (hf : P.graph.IsEmbedding h.graph f) :
    ∃ m h', Matching.ofMorphism P h ((List.range P.graph.size).map f) = .ok m ∧ h.fold m nt = .ok h' ∧
      HeapView.Folds P h.view (h.imageId f) nt h'.view ∧ h'.WellFormed := by
  have hX := embeds_of_isEmbedding hf hP.toSound hw.toSound hi
  obtain ⟨h', hfold, hfolds, hw'⟩ := hw.fold hP hPi (hX.placed hP.toSound) (by simp)
    (fun p hp => show ((List.range P.elements.length).map (fun p => (h.imageId f p : Int)))[p]? = _ by simp [hp]) hk
  exact ⟨_, h', ofMorphism_eq hf, hfold, hfolds, hw'⟩

end Heap

end HeapAbstraction
