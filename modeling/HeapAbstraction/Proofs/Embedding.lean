import HeapAbstraction.Proofs.HeapGraph

namespace HeapAbstraction

theorem SearchPlan.decides {plan : SearchPlan} {exact : Bool} {P T : Graph} {Q : SearchState → Pair → Prop}
    (hP : P.WellFormed) (hT : T.WellFormed) (hn : exact = true → P.size = T.size) (hfault : ∀ s c, plan.test s c ≠ .fault)
    (hfound : plan.found = SearchState.isComplete)
    (himp : ∀ s, plan.impossible s = true → s.isHopeless = true)
    (hsound : ∀ s c, plan.test s c = .accept → Feasible exact s c ∧ Q s c)
    (hcomplete : ∀ s c, Feasible exact s c → Feasibility.lookaheadIn exact s c = true →
      Feasibility.lookaheadOut exact s c = true →
      (exact = true ∨ T.SumsFit → Feasibility.lookaheadTwo exact s c = true) → Q s c → plan.test s c = .accept) :
    plan.Decides P T (Consistent exact P T) (P.Matches exact T) Q := by
  refine ⟨hfault, hfound, fun s hs => hs.toExact, fun s c hs hc ht => ?_, fun s c _ ht => (hsound s c ht).2,
    fun s f hs hd ha => ?_, fun f hf => hf.toIsMonomorphism, fun s f hs hf ha => ?_, fun s c f hs hc hf ha hfc hQ => ?_⟩
  · obtain ⟨hp, htt, hmp, hmt⟩ := hs.candidate hc
    exact hs.extend hs.toExact hP hT hp htt hmp hmt (hsound s c ht).1
  · exact hs.matches hP hT hn hd ha
  · by_contra hi
    have := hs.not_isHopeless hf.toIsMonomorphism ha hP hT
    simp [himp s (by simpa using hi)] at this
  · obtain ⟨hp, -⟩ := hs.candidate hc
    exact hcomplete s c (feasible_of_matches hs.toExact hP hT hf ha hp hfc)
      (lookaheadIn_of_matches hs.toExact hP hT hf ha hp hfc) (lookaheadOut_of_matches hs.toExact hP hT hf ha hp hfc)
      (lookaheadTwo_of_matches hs.toExact hP hT hf ha hp hfc) hQ

theorem Verdict.ofBool_eq_accept {b : Bool} : Verdict.ofBool b = .accept ↔ b = true := by cases b <;> simp [ofBool]

theorem Verdict.ofBool_ne_fault {b : Bool} : Verdict.ofBool b ≠ .fault := by cases b <;> simp [ofBool]

theorem consistent_start (exact : Bool) (P T : Graph) : Consistent exact P T (SearchState.start P T) := by
  have hnone (p t : Nat) : (SearchState.start P T).pattern.partner? p ≠ some t := by
    simp only [SearchState.start, Side.partner?, Side.start, List.getElem?_replicate]
    split <;> simp
  exact { SearchState.exact_start P T with
    suited := fun p t h => absurd h (hnone p t)
    compatible := fun p t _ _ h _ => absurd h (hnone p t) }

theorem embedsLabels_eq :
    Feasibility.embedsLabels = Feasibility.labelsAgree (fun P p q => !P.loose false p q) := by
  simp [Feasibility.embedsLabels, Graph.loose, Bool.not_and]

theorem sameLabels_eq : Feasibility.sameLabels = Feasibility.labelsAgree (fun P p q => !P.loose true p q) := by
  simp [Feasibility.sameLabels, Graph.loose]

namespace Graph

-- an injective map of a pattern into a target. The target may have more arcs and labels than the pattern only between
-- the images of external vertices; the images of the others are not external and have no further neighbours
structure IsEmbedding (P T : Graph) (f : Nat → Nat) : Prop extends IsMonomorphism P T f where
  label : ∀ p < P.size, T.label (f p) = P.label p
  reflects : ∀ p < P.size, ∀ q < P.size, f q ∈ T.successors (f p) →
    q ∈ P.successors p ∨ (P.isExternal p = true ∧ P.isExternal q = true)
  labels : ∀ p q, q ∈ P.successors p → P.arcLabels p q ⊆ T.arcLabels (f p) (f q)
  labels_eq : ∀ p q, q ∈ P.successors p → ¬ (P.isExternal p = true ∧ P.isExternal q = true) →
    T.arcLabels (f p) (f q) ⊆ P.arcLabels p q
  inner : ∀ p < P.size, P.isExternal p = false → T.isExternal (f p) = false
  successors : ∀ p < P.size, P.isExternal p = false → ∀ u ∈ T.successors (f p), ∃ q ∈ P.successors p, f q = u
  predecessors : ∀ p < P.size, P.isExternal p = false → ∀ u ∈ T.predecessors (f p), ∃ q ∈ P.predecessors p, f q = u

variable {P T : Graph} {f : Nat → Nat} {t : Nat}

theorem matches_false_iff : P.Matches false T f ↔ P.IsEmbedding T f := by
  have hl (p q : Nat) : P.loose false p q = true ↔ P.isExternal p = true ∧ P.isExternal q = true := by simp [loose]
  have hc (p : Nat) : (false || !P.isExternal p) = true ↔ P.isExternal p = false := by simp
  constructor
  · intro h
    exact { h.toIsMonomorphism with
      label := h.label
      reflects := fun p hp q hq hpq => by rw [← hl]; exact h.reflects p hp q hq hpq
      labels := h.labels
      labels_eq := fun p q hpq hne => h.labels_eq p q hpq (by rwa [← hl, Bool.not_eq_true] at hne)
      inner := h.inner rfl
      successors := fun p hp hi => h.successors p hp ((hc p).mpr hi)
      predecessors := fun p hp hi => h.predecessors p hp ((hc p).mpr hi) }
  · intro h
    exact { h.toIsMonomorphism with
      label := h.label
      ordinal := by simp
      inner := fun _ => h.inner
      reflects := fun p hp q hq hpq => by rw [hl]; exact h.reflects p hp q hq hpq
      labels := h.labels
      labels_eq := fun p q hpq hne => h.labels_eq p q hpq (by rw [← hl, hne]; simp)
      successors := fun p hp hi => h.successors p hp ((hc p).mp hi)
      predecessors := fun p hp hi => h.predecessors p hp ((hc p).mp hi) }

theorem accept_embedding {distances : List (Option Nat)} {s : SearchState} {c : Pair} :
    ((Predicate.embedding.map (Predicate.test distances)).all (fun t => t s c)) = true ↔
      Feasible false s c ∧ Feasibility.lookaheadIn false s c = true ∧ Feasibility.lookaheadOut false s c = true ∧
        Feasibility.lookaheadTwo false s c = true := by
  simp only [Predicate.embedding, Predicate.test, List.map_cons, List.map_nil, List.all_cons, List.all_nil,
    Bool.and_eq_true, Bool.and_true, embedsLabels_eq]
  constructor
  · rintro ⟨h1, h2, h3, h4, h5, h6, h7, h8⟩
    exact ⟨⟨h1, h2, h3, h7, h8⟩, h4, h5, h6⟩
  · rintro ⟨⟨h1, h2, h3, h7, h8⟩, h4, h5, h6⟩
    exact ⟨h1, h2, h3, h4, h5, h6, h7, h8⟩

-- the sums of degrees are compared in 32 bits, so a search may also give up a pair that an embedding has
def Passes (P T : Graph) (f : Nat → Nat) : Prop :=
  SearchPlan.Survives (fun s c => Feasibility.lookaheadTwo false s c = true) f P.size (SearchState.start P T)

instance (P T : Graph) (f : Nat → Nat) : Decidable (P.Passes T f) := SearchPlan.decidableSurvives f P.size _

theorem decides_embedding (hP : P.WellFormed) (hT : T.WellFormed) (distances : List (Option Nat)) :
    (SearchPlan.ofTests (Predicate.embedding.map (Predicate.test distances))).Decides P T (Consistent false P T)
      (P.IsEmbedding T) (fun s c => Feasibility.lookaheadTwo false s c = true) := by
  rw [← show P.Matches false T = P.IsEmbedding T from funext fun f => propext matches_false_iff]
  refine SearchPlan.decides hP hT (by simp) (fun s c => Verdict.ofBool_ne_fault) rfl (fun s hs => hs) ?_ ?_
  · intro s c h
    obtain ⟨hfeasible, -, -, htwo⟩ := accept_embedding.mp (Verdict.ofBool_eq_accept.mp h)
    exact ⟨hfeasible, htwo⟩
  · intro s c h1 h2 h3 _ h4
    exact Verdict.ofBool_eq_accept.mpr (accept_embedding.mpr ⟨h1, h2, h3, h4⟩)

theorem mem_embeddings_iff {m : Morphism} (hP : P.WellFormed) (hT : T.WellFormed) :
    m ∈ embeddings false P T ↔ ∃ f, P.IsEmbedding T f ∧ P.Passes T f ∧ m = (List.range P.size).map f :=
  ((decides_embedding hP hT []).run hP hT (consistent_start false P T)).2 m

theorem IsEmbedding.passes (hf : P.IsEmbedding T f) (hP : P.WellFormed) (hT : T.WellFormed) (hfit : T.SumsFit) :
    P.Passes T f := by
  refine SearchPlan.survives_of_exact hP hT (fun s c hs ha hc hfc => ?_) (SearchState.exact_start P T)
    (SearchState.agrees_start P T f)
  exact lookaheadTwo_of_matches hs hP hT (matches_false_iff.mpr hf) ha (hs.candidate hc).1 hfc (.inr hfit)

end Graph

namespace Heap

def path : Heap where
  elements := [
    { label := .node "N", id := 0, ordinal := some 0, arcs := [⟨1, [.selector "next"]⟩] },
    { label := .node "N", id := 1, arcs := [⟨2, [.selector "next"]⟩], preds := [0] },
    { label := .node "N", id := 2, ordinal := some 1, preds := [1] }]
  nextId := 3

def chain : Heap where
  elements := [
    { label := .node "N", id := 0, arcs := [⟨1, [.selector "next"]⟩] },
    { label := .node "N", id := 1, arcs := [⟨2, [.selector "next"]⟩], preds := [0] },
    { label := .node "N", id := 2, arcs := [⟨3, [.selector "next"]⟩], preds := [1] },
    { label := .node "N", id := 3, preds := [2] }]
  nextId := 4

theorem wellFormed_path : path.WellFormed := by
  have h1 := wellFormed_empty.addNodes (show Heap.empty.addNodes "N" 3 = .ok (_, _) from rfl)
  have h2 := h1.addSelector (show Heap.addSelector _ 0 "next" 1 = .ok _ from rfl)
  have h3 := h2.addSelector (show Heap.addSelector _ 1 "next" 2 = .ok _ from rfl)
  have h4 := h3.setExternal (show Heap.setExternal _ 0 = .ok _ from rfl)
  exact h4.setExternal (show Heap.setExternal _ 2 = .ok path from rfl)

theorem wellFormed_chain : chain.WellFormed := by
  have h1 := wellFormed_empty.addNodes (show Heap.empty.addNodes "N" 4 = .ok (_, _) from rfl)
  have h2 := h1.addSelector (show Heap.addSelector _ 0 "next" 1 = .ok _ from rfl)
  have h3 := h2.addSelector (show Heap.addSelector _ 1 "next" 2 = .ok _ from rfl)
  exact h3.addSelector (show Heap.addSelector _ 2 "next" 3 = .ok chain from rfl)

end Heap

namespace Graph

def lone : Graph where
  size := 1
  label _ := .node "N"
  successors _ := []
  predecessors _ := []
  arcLabels _ _ := []
  ordinal _ := some 0

def complete (n : Nat) : Graph where
  size := n
  label _ := .node "N"
  successors v := if v < n then List.range n else []
  predecessors v := if v < n then List.range n else []
  arcLabels _ _ := [.selector "next"]
  ordinal _ := none

theorem wellFormed_lone : lone.WellFormed := by constructor <;> simp [lone]

theorem mem_complete {n v w : Nat} : w ∈ (complete n).successors v ↔ v < n ∧ w < n := by
  by_cases hv : v < n <;> simp [complete, hv]

theorem wellFormed_complete (n : Nat) : (complete n).WellFormed where
  successors_lt v w hw := mem_complete.mp hw
  mem_predecessors u v := mem_complete.trans (and_comm.trans mem_complete.symm)
  successors_nodup v := by
    by_cases hv : v < n <;> simp [complete, hv, List.nodup_range]
  predecessors_nodup v := by
    by_cases hv : v < n <;> simp [complete, hv, List.nodup_range]
  labels_nodup v w := by simp [complete]

theorem isEmbedding_lone (T : Graph) (hl : T.label t = .node "N") (ht : t < T.size) : lone.IsEmbedding T fun _ => t where
  lt p _ := ht
  inj p hp q hq _ := by simp [lone] at hp hq; omega
  arc p q hpq := by simp [lone] at hpq
  label p _ := hl
  reflects p _ q _ _ := .inr ⟨rfl, rfl⟩
  labels p q hpq := by simp [lone] at hpq
  labels_eq p q hpq := by simp [lone] at hpq
  inner p _ hp := by simp [lone, isExternal] at hp
  successors p _ hp := by simp [lone, isExternal] at hp
  predecessors p _ hp := by simp [lone, isExternal] at hp

theorem degreeSum_complete {n v : Nat} (hv : v < n) :
    Feasibility.degreeSum (SearchState.start lone (complete n)).target v = Int32.ofNat (4 * (n * (n - 1))) := by
  have hopen : Feasibility.openNeighbours (SearchState.start lone (complete n)).target v (List.range n) =
      (List.range n).erase v := by
    rw [List.nodup_range.erase_eq_filter]
    refine List.filter_congr fun u _ => ?_
    simp [SearchState.start, Side.start, Side.isMatched, Side.partner?, List.getElem?_replicate]
    split <;> simp
  have hsum : (((List.range n).erase v).map (complete n).degree).sum = (n - 1) * (2 * n) := by
    have hdegree : ∀ u ∈ (List.range n).erase v, (complete n).degree u = 2 * n := by
      intro u hu
      have hu' : u < n := List.mem_range.mp (List.mem_of_mem_erase hu)
      simp [degree, complete, hu', two_mul]
    rw [List.map_congr_left hdegree, List.map_const', List.sum_replicate,
      List.length_erase_of_mem (List.mem_range.mpr hv), List.length_range, smul_eq_mul]
  rw [Feasibility.degreeSum_eq]
  have hgraph : (SearchState.start lone (complete n)).target.graph = complete n := rfl
  have hs : (complete n).successors v = List.range n := if_pos hv
  have hp : (complete n).predecessors v = List.range n := if_pos hv
  rw [hgraph, hs, hp, hopen, hsum]
  congr 1
  ring

-- In a complete graph of this size the sum of degrees is taken for a negative number, and the search gives up a pair
-- that it would need.
theorem embeddings_complete {n : Nat} (hn : 23171 ≤ n) (hn' : n ≤ 32768) :
    (∀ t < n, lone.IsEmbedding (complete n) fun _ => t) ∧ embeddings false lone (complete n) = [] := by
  refine ⟨fun t ht => isEmbedding_lone _ rfl ht, List.eq_nil_iff_forall_not_mem.mpr fun m hm => ?_⟩
  obtain ⟨f, hf, hpasses, -⟩ := (mem_embeddings_iff wellFormed_lone (wellFormed_complete n)).mp hm
  have hstart := SearchState.exact_start lone (complete n)
  obtain ⟨c, hc, hfc⟩ := hstart.exists_candidate wellFormed_lone (wellFormed_complete n) hf.toIsMonomorphism
    (SearchState.agrees_start _ _ f) rfl
  have htwo : Feasibility.lookaheadTwo false (SearchState.start lone (complete n)) c = true := (hpasses c hc hfc).1
  have hlow : 23171 * 23170 ≤ n * (n - 1) := Nat.mul_le_mul hn (by omega)
  have hhigh : n * (n - 1) ≤ 32768 * 32767 := Nat.mul_le_mul hn' (by omega)
  have hpattern : Feasibility.degreeSum (SearchState.start lone (complete n)).pattern c.p = 0 := rfl
  have ht : c.t < n := (hstart.candidate hc).2.1
  rw [Feasibility.lookaheadTwo, hpattern, degreeSum_complete ht] at htwo
  simp only [Bool.false_eq_true, if_false, decide_eq_true_eq, Int32.le_iff_toInt_le, Int32.toInt_ofNat'] at htwo
  rw [Int.bmod_def, Int.emod_eq_of_lt (by omega) (by rw [Int32.size]; omega), if_neg (by rw [Int32.size]; omega),
    Int32.toInt_zero, Int32.size] at htwo
  omega

end Graph

end HeapAbstraction
