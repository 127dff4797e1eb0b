import HeapAbstraction.Proofs.Embedding
import HeapAbstraction.Heap.Isomorphism

namespace HeapAbstraction

namespace Graph

structure IsIsomorphism (P T : Graph) (f : Nat → Nat) : Prop where
  lt : ∀ p < P.size, f p < T.size
  inj : ∀ p < P.size, ∀ q < P.size, f p = f q → p = q
  onto : ∀ t < T.size, ∃ p < P.size, f p = t
  label : ∀ p < P.size, T.label (f p) = P.label p
  ordinal : ∀ p < P.size, T.ordinal (f p) = P.ordinal p
  arc : ∀ p < P.size, ∀ q < P.size, f q ∈ T.successors (f p) ↔ q ∈ P.successors p
  labels : ∀ p q, q ∈ P.successors p → ∀ l, l ∈ T.arcLabels (f p) (f q) ↔ l ∈ P.arcLabels p q

variable {P T U : Graph} {f g : Nat → Nat}

theorem IsIsomorphism.size_eq (hf : P.IsIsomorphism T f) : P.size = T.size := by
  have h : (Finset.range P.size).card = (Finset.range T.size).card := by
    refine Finset.card_nbij f (fun p hp => ?_) (fun p hp q hq hpq => ?_) (fun t ht => ?_)
    · simpa using hf.lt p (by simpa using hp)
    · exact hf.inj p (by simpa using hp) q (by simpa using hq) hpq
    · obtain ⟨p, hp, rfl⟩ := hf.onto t (by simpa using ht)
      exact ⟨p, by simpa using hp, rfl⟩
  simpa using h

theorem IsIsomorphism.refl (P : Graph) : P.IsIsomorphism P id where
  lt _ hp := hp
  inj _ _ _ _ h := h
  onto t ht := ⟨t, ht, rfl⟩
  label _ _ := rfl
  ordinal _ _ := rfl
  arc _ _ _ _ := Iff.rfl
  labels _ _ _ _ := Iff.rfl

theorem IsIsomorphism.symm (hf : P.IsIsomorphism T f) (hT : T.WellFormed) : ∃ g, T.IsIsomorphism P g := by
  choose! g hg hfg using hf.onto
  refine ⟨g, hg, fun t ht u hu h => ?_, fun p hp => ?_, fun t ht => ?_, fun t ht => ?_, fun t ht u hu => ?_,
    fun t u hu l => ?_⟩
  · rw [← hfg t ht, ← hfg u hu, h]
  · have hlt := hf.lt p hp
    exact ⟨f p, hlt, hf.inj _ (hg _ hlt) p hp (hfg _ hlt)⟩
  · rw [← hf.label _ (hg t ht), hfg t ht]
  · rw [← hf.ordinal _ (hg t ht), hfg t ht]
  · rw [← hf.arc _ (hg t ht) _ (hg u hu), hfg t ht, hfg u hu]
  · obtain ⟨ht, hu'⟩ := hT.successors_lt t u hu
    have harc : g u ∈ P.successors (g t) := by
      rw [← hf.arc _ (hg t ht) _ (hg u hu'), hfg t ht, hfg u hu']
      exact hu
    rw [← hf.labels _ _ harc, hfg t ht, hfg u hu']

theorem IsIsomorphism.trans (hf : P.IsIsomorphism T f) (hg : T.IsIsomorphism U g) (hP : P.WellFormed) :
    P.IsIsomorphism U (g ∘ f) where
  lt p hp := hg.lt _ (hf.lt p hp)
  inj p hp q hq h := hf.inj p hp q hq (hg.inj _ (hf.lt p hp) _ (hf.lt q hq) h)
  onto u hu := by
    obtain ⟨t, ht, rfl⟩ := hg.onto u hu
    obtain ⟨p, hp, rfl⟩ := hf.onto t ht
    exact ⟨p, hp, rfl⟩
  label p hp := (hg.label _ (hf.lt p hp)).trans (hf.label p hp)
  ordinal p hp := (hg.ordinal _ (hf.lt p hp)).trans (hf.ordinal p hp)
  arc p hp q hq := (hg.arc _ (hf.lt p hp) _ (hf.lt q hq)).trans (hf.arc p hp q hq)
  labels p q hpq l := by
    obtain ⟨hp, hq⟩ := hP.successors_lt p q hpq
    exact (hg.labels _ _ ((hf.arc p hp q hq).mpr hpq) l).trans (hf.labels p q hpq l)

theorem matches_true_iff (hP : P.WellFormed) (hT : T.WellFormed) (hn : P.size = T.size) :
    P.Matches true T f ↔ P.IsIsomorphism T f := by
  have hl (p q : Nat) : P.loose true p q = false := by simp [loose]
  constructor
  · intro h
    refine ⟨h.lt, h.inj, fun t ht => h.onto_of_size_eq hn ht, h.label, h.ordinal rfl, fun p hp q hq => ⟨fun hpq => ?_, ?_⟩,
      fun p q hpq l => ⟨fun hm => h.labels_eq p q hpq (hl p q) hm, fun hm => h.labels p q hpq hm⟩⟩
    · simpa [hl] using h.reflects p hp q hq hpq
    · exact h.arc p q
  · intro h
    refine ⟨⟨h.lt, h.inj, ?_⟩, h.label, fun _ => h.ordinal, by simp, ?_, ?_, ?_, ?_, ?_⟩
    · intro p q hpq
      obtain ⟨hp, hq⟩ := hP.successors_lt p q hpq
      exact (h.arc p hp q hq).mpr hpq
    · exact fun p hp q hq hpq => .inl ((h.arc p hp q hq).mp hpq)
    · exact fun p q hpq l hm => (h.labels p q hpq l).mpr hm
    · exact fun p q hpq _ l hm => (h.labels p q hpq l).mp hm
    · intro p hp _ u hu
      obtain ⟨q, hq, rfl⟩ := h.onto u (hT.successors_lt _ u hu).2
      exact ⟨q, (h.arc p hp q hq).mp hu, rfl⟩
    · intro p hp _ u hu
      rw [hT.mem_predecessors] at hu
      obtain ⟨q, hq, rfl⟩ := h.onto u (hT.successors_lt u _ hu).1
      exact ⟨q, (hP.mem_predecessors q p).mpr ((h.arc q hq p hp).mp hu), rfl⟩

theorem accept_isomorphism {distances : List (Option Nat)} {s : SearchState} {c : Pair} :
    ((Predicate.isomorphism.map (Predicate.test distances)).all (fun t => t s c)) = true ↔
      Feasible true s c ∧ Feasibility.lookaheadIn true s c = true ∧ Feasibility.lookaheadOut true s c = true ∧
        Feasibility.lookaheadTwo true s c = true := by
  simp only [Predicate.isomorphism, Predicate.test, List.map_cons, List.map_nil, List.all_cons, List.all_nil,
    Bool.and_eq_true, Bool.and_true, sameLabels_eq]
  constructor
  · rintro ⟨h1, h2, h3, h4, h5, h6, h7, h8⟩
    exact ⟨⟨h1, h2, h3, h7, h8⟩, h4, h5, h6⟩
  · rintro ⟨⟨h1, h2, h3, h7, h8⟩, h4, h5, h6⟩
    exact ⟨h1, h2, h3, h4, h5, h6, h7, h8⟩

theorem isomorphisms_spec (hP : P.WellFormed) (hT : T.WellFormed) : (isomorphisms false P T).Nodup ∧
    ∀ m, m ∈ isomorphisms false P T ↔ ∃ f, P.IsIsomorphism T f ∧ m = (List.range P.size).map f := by
  rw [isomorphisms]
  split
  · rename_i hn
    -- equal sums stay equal in 32 bits, so nothing is lost here
    have hd : (SearchPlan.ofTests (Predicate.tests Predicate.isomorphism T)).Decides P T (Consistent true P T)
        (P.Matches true T) (fun _ _ => True) := by
      refine SearchPlan.decides hP hT (fun _ => hn) (fun s c => Verdict.ofBool_ne_fault) rfl (fun s hs => hs) ?_ ?_
      · intro s c h
        exact ⟨(accept_isomorphism.mp (Verdict.ofBool_eq_accept.mp h)).1, trivial⟩
      · intro s c h1 h2 h3 h4 _
        exact Verdict.ofBool_eq_accept.mpr (accept_isomorphism.mpr ⟨h1, h2, h3, h4 (.inl rfl)⟩)
    obtain ⟨hnodup, hmem⟩ := hd.run hP hT (consistent_start true P T)
    refine ⟨hnodup, fun m => (hmem m).trans (exists_congr fun f => ?_)⟩
    rw [matches_true_iff hP hT hn]
    refine and_congr_right fun _ => and_iff_right ?_
    exact SearchPlan.survives_of_forall fun _ _ => trivial
  · rename_i hn
    refine ⟨List.nodup_nil, fun m => ⟨fun h => absurd h List.not_mem_nil, ?_⟩⟩
    rintro ⟨f, hf, -⟩
    exact absurd hf.size_eq hn

theorem isomorphisms_first (P T : Graph) : isomorphisms true P T = (isomorphisms false P T).take 1 := by
  rw [isomorphisms, isomorphisms]
  split
  · exact SearchPlan.hits_first P T
  · rfl

end Graph

namespace Heap

def Isomorphic (a b : Heap) : Prop := ∃ f, a.graph.IsIsomorphism b.graph f

variable {a b c : Heap}

theorem Isomorphic.refl (a : Heap) : a.Isomorphic a := ⟨id, .refl _⟩

theorem Isomorphic.symm (hb : b.Sound) (h : a.Isomorphic b) : b.Isomorphic a := by
  obtain ⟨f, hf⟩ := h
  exact hf.symm hb.graph

theorem Isomorphic.trans (ha : a.Sound) (h : a.Isomorphic b) (h' : b.Isomorphic c) : a.Isomorphic c := by
  obtain ⟨f, hf⟩ := h
  obtain ⟨g, hg⟩ := h'
  exact ⟨_, hf.trans hg ha.graph⟩

theorem Isomorphic.comparable (ha : a.Sound) (hb : b.Sound) (h : a.Isomorphic b) : a.comparable b = true := by
  obtain ⟨f, hf⟩ := h
  have hsize := hf.size_eq
  rw [graph_size, graph_size] at hsize
  have hord (i : Nat) : i < a.externalCount ↔ i < b.externalCount := by
    rw [← ha.exists_ordinal, ← hb.exists_ordinal]
    constructor
    · rintro ⟨v, hv⟩
      have hlt : v < a.graph.size := by
        rw [graph_size]
        exact (ha.ordinal_node v i hv).lt
      exact ⟨f v, by rw [← graph_ordinal, hf.ordinal v hlt, graph_ordinal, hv]⟩
    · rintro ⟨w, hw⟩
      have hlt : w < b.graph.size := by
        rw [graph_size]
        exact (hb.ordinal_node w i hw).lt
      obtain ⟨v, hv, rfl⟩ := hf.onto w hlt
      exact ⟨v, by rw [← graph_ordinal, ← hf.ordinal v hv, graph_ordinal, hw]⟩
  have hcount : a.externalCount = b.externalCount := by
    have h1 := hord a.externalCount
    have h2 := hord b.externalCount
    omega
  simp [Heap.comparable, hsize, hcount]

theorem equals_iff (ha : a.Sound) (hb : b.Sound) : a.equals b = true ↔ a.Isomorphic b := by
  obtain ⟨-, hmem⟩ := Graph.isomorphisms_spec ha.graph hb.graph
  have hfound : (!(Graph.isomorphisms true a.graph b.graph).isEmpty) = true ↔ a.Isomorphic b := by
    rw [Graph.isomorphisms_first, Bool.not_eq_true', List.isEmpty_eq_false_iff_exists_mem]
    constructor
    · rintro ⟨m, hm⟩
      obtain ⟨f, hf, -⟩ := (hmem m).mp (List.mem_of_mem_take hm)
      exact ⟨f, hf⟩
    · rintro ⟨f, hf⟩
      have := (hmem _).mpr ⟨f, hf, rfl⟩
      cases hl : Graph.isomorphisms false a.graph b.graph with
      | nil => simp [hl] at this
      | cons m ms => exact ⟨m, by simp⟩
  rw [Heap.equals, Heap.compare]
  split
  · exact hfound
  · rename_i hc
    simp only [Bool.not_eq_true] at hc
    refine ⟨fun h => absurd h (by simp), fun h => ?_⟩
    simp [h.comparable ha hb] at hc

end Heap

theorem isomorphisms_exact :
    (∀ P T : Graph, P.WellFormed → T.WellFormed → (Graph.isomorphisms false P T).Nodup ∧
      ∀ m, m ∈ Graph.isomorphisms false P T ↔ ∃ f, P.IsIsomorphism T f ∧ m = (List.range P.size).map f) ∧
    (∀ a b : Heap, a.WellFormed → a.Idle → b.WellFormed → b.Idle → (a.equals b = true ↔ a.Isomorphic b)) ∧
    (∀ a : Heap, a.WellFormed → a.Idle → a.equals a = true) ∧
    (∀ a b : Heap, a.WellFormed → a.Idle → b.WellFormed → b.Idle → a.equals b = true → b.equals a = true) ∧
    (∀ a b c : Heap, a.WellFormed → a.Idle → b.WellFormed → b.Idle → c.WellFormed → c.Idle →
      a.equals b = true → b.equals c = true → a.equals c = true) := by
  refine ⟨fun P T hP hT => Graph.isomorphisms_spec hP hT, fun a b ha _ hb _ => Heap.equals_iff ha.toSound hb.toSound,
    fun a ha _ => ?_, fun a b ha _ hb _ hab => ?_, fun a b c ha _ hb _ hc _ hab hbc => ?_⟩
  · exact (Heap.equals_iff ha.toSound ha.toSound).mpr (.refl a)
  · rw [Heap.equals_iff ha.toSound hb.toSound] at hab
    exact (Heap.equals_iff hb.toSound ha.toSound).mpr (hab.symm hb.toSound)
  · rw [Heap.equals_iff ha.toSound hb.toSound] at hab
    rw [Heap.equals_iff hb.toSound hc.toSound] at hbc
    exact (Heap.equals_iff ha.toSound hc.toSound).mpr (hab.trans ha.toSound hbc)

namespace Heap

def turnedPath : Heap where
  elements := [
    { label := .node "N", id := 0, arcs := [⟨1, [.selector "next"]⟩], preds := [2] },
    { label := .node "N", id := 1, ordinal := some 1, preds := [0] },
    { label := .node "N", id := 2, ordinal := some 0, arcs := [⟨0, [.selector "next"]⟩] }]
  nextId := 3

theorem wellFormed_turnedPath : turnedPath.WellFormed := by
  have h1 := wellFormed_empty.addNodes (show Heap.empty.addNodes "N" 3 = .ok (_, _) from rfl)
  have h2 := h1.addSelector (show Heap.addSelector _ 0 "next" 1 = .ok _ from rfl)
  have h3 := h2.addSelector (show Heap.addSelector _ 2 "next" 0 = .ok _ from rfl)
  have h4 := h3.setExternal (show Heap.setExternal _ 2 = .ok _ from rfl)
  exact h4.setExternal (show Heap.setExternal _ 1 = .ok turnedPath from rfl)

end Heap

theorem isomorphisms_path_turnedPath :
    Graph.isomorphisms false Heap.path.graph Heap.turnedPath.graph = [[2, 0, 1]] ∧
      (∃ f, Heap.path.graph.IsIsomorphism Heap.turnedPath.graph f ∧ [2, 0, 1] = (List.range 3).map f) ∧
      Heap.path.equals Heap.turnedPath = true ∧ Heap.path.Isomorphic Heap.turnedPath ∧
      Heap.turnedPath.equals Heap.path = true ∧ Heap.path.equals Heap.path = true := by
  have hp := Heap.wellFormed_path
  have ht := Heap.wellFormed_turnedPath
  have hpi : Heap.path.Idle := by decide
  have hti : Heap.turnedPath.Idle := by decide
  have hlist : Graph.isomorphisms false Heap.path.graph Heap.turnedPath.graph = [[2, 0, 1]] := by decide
  have heq : Heap.path.equals Heap.turnedPath = true := by decide
  obtain ⟨h1, h2, h3, h4, h5⟩ := isomorphisms_exact
  refine ⟨hlist, ?_, heq, (h2 _ _ hp hpi ht hti).mp heq, h4 _ _ hp hpi ht hti heq, ?_⟩
  · exact ((h1 _ _ hp.toSound.graph ht.toSound.graph).2 [2, 0, 1]).mp (by simp [hlist])
  · exact h5 _ _ _ hp hpi ht hti hp hpi heq (h4 _ _ hp hpi ht hti heq)

end HeapAbstraction
