import HeapAbstraction.Proofs.Isomorphism

namespace HeapAbstraction

namespace Side

variable {σ : Side} {φ : Nat → Nat} {v t : Nat}

def relabel (φ : Nat → Nat) (σ : Side) : Side := { σ with partner := σ.partner.map (Option.map φ) }

theorem partner?_relabel : (σ.relabel φ).partner? v = (σ.partner? v).map φ := by
  simp only [partner?, relabel, List.getElem?_map]
  cases σ.partner[v]? with
  | none => rfl
  | some o => cases o <;> rfl

theorem isMatched_relabel : (σ.relabel φ).isMatched v = σ.isMatched v := by
  rw [isMatched, partner?_relabel, Option.isSome_map, isMatched]

theorem relabel_pair : (σ.pair v t).relabel φ = (σ.relabel φ).pair v (φ t) := by
  simp only [relabel, pair, List.map_set]
  rfl

theorem flagged_relabel (k : Frontier) : (σ.relabel φ).flagged k v = σ.flagged k v := by cases k <;> rfl

theorem relabel_flag (k : Frontier) : (σ.flag k v).relabel φ = (σ.relabel φ).flag k v := by
  cases k with
  | out =>
    simp only [flag, flagOut, isMatched_relabel]
    rfl
  | into =>
    simp only [flag, flagIn, isMatched_relabel]
    rfl

theorem relabel_flagNew (k : Frontier) : (flagNew k σ v).relabel φ = flagNew k (σ.relabel φ) v := by
  rw [flagNew, flagNew, flagged_relabel]
  split
  · rfl
  · exact relabel_flag k

theorem relabel_extended : (σ.extended v t).relabel φ = (σ.relabel φ).extended v (φ t) := by
  have hfold (k : Frontier) (us : List Nat) (τ : Side) :
      (us.foldl (flagNew k) τ).relabel φ = us.foldl (flagNew k) (τ.relabel φ) :=
    (List.foldl_hom (relabel φ) fun τ u => (relabel_flagNew k).symm).symm
  rw [extended, hfold, hfold, relabel_pair]
  rfl

-- the vertex for which a search looks for an image next
def chosen (σ : Side) : Nat :=
  if 0 < σ.numOut then (σ.vertices.find? σ.inOutFrontier).getD danglingSlot
  else if 0 < σ.numIn then (σ.vertices.find? σ.inInFrontier).getD danglingSlot
  else (σ.vertices.find? (fun v => !σ.isMatched v)).getD danglingSlot

theorem chosen_relabel : (σ.relabel φ).chosen = σ.chosen := by
  have hout : (σ.relabel φ).inOutFrontier = σ.inOutFrontier := by
    funext v
    rw [inOutFrontier, isMatched_relabel]
    rfl
  have hin : (σ.relabel φ).inInFrontier = σ.inInFrontier := by
    funext v
    rw [inInFrontier, isMatched_relabel]
    rfl
  have hvertices : (σ.relabel φ).vertices = σ.vertices := by simp [vertices, relabel]
  simp only [chosen, hout, hin, hvertices, isMatched_relabel]
  rfl

theorem degreeSum_relabel : Feasibility.degreeSum (σ.relabel φ) v = Feasibility.degreeSum σ v := by
  simp only [Feasibility.degreeSum, Feasibility.openNeighbours, isMatched_relabel]
  rfl

end Side

namespace SearchState

variable {P T : Graph} {s : SearchState} {c : Pair} {f : Nat → Nat}

-- where a map can still be reached, the target's frontiers are no smaller, so the pattern alone decides
theorem Exact.eq_chosen (hs : s.Exact P T) (hP : P.WellFormed) (hT : T.WellFormed) (hf : P.IsMonomorphism T f)
    (ha : s.Agrees f) (hc : c ∈ s.candidates) : c.p = s.pattern.chosen := by
  have hout := hs.numOut_le hf ha
  have hin := hs.numIn_le hf ha hP hT
  have hno := hs.pattern.numOut
  have hni := hs.pattern.numIn
  rw [candidates] at hc
  rw [Side.chosen]
  by_cases h1 : 0 < s.pattern.numOut
  · rw [if_pos ⟨h1, by omega⟩] at hc
    obtain ⟨t, -, rfl⟩ := List.mem_map.mp hc
    rw [if_pos h1]
  · rw [if_neg fun h => h1 h.1] at hc
    by_cases h2 : 0 < s.pattern.numIn
    · rw [if_pos ⟨h2, by omega⟩] at hc
      obtain ⟨t, -, rfl⟩ := List.mem_map.mp hc
      rw [if_neg h1, if_pos h2]
    · rw [if_neg fun h => h2 h.1, if_pos ⟨by omega, by omega⟩] at hc
      rw [if_neg h1, if_neg h2]
      cases hfind : s.pattern.vertices.find? (fun v => !s.pattern.isMatched v) with
      | none => simp [hfind] at hc
      | some p =>
        simp only [hfind] at hc
        obtain ⟨t, -, rfl⟩ := List.mem_map.mp hc
        rfl

end SearchState

namespace Graph

variable {P T T' : Graph} {f φ : Nat → Nat}

namespace IsIsomorphism

variable (hφ : T.IsIsomorphism T' φ) (hT : T.WellFormed) (hT' : T'.WellFormed)

include hφ hT hT'

theorem degree_image {t : Nat} (ht : t < T.size) : T'.degree (φ t) = T.degree t :=
  (((matches_true_iff hT hT' hφ.size_eq).mpr hφ).degree_eq hT hT' ht rfl).symm

theorem sum_openNeighbours {neighbours : Graph → Nat → List Nat} (hr : Respects true T T' φ neighbours) {σ σ' : Side}
    (hm : ∀ t < T.size, σ'.isMatched (φ t) = σ.isMatched t) {v : Nat} (hv : v < T.size) :
    ((Feasibility.openNeighbours σ' (φ v) (neighbours T' (φ v))).map T'.degree).sum =
      ((Feasibility.openNeighbours σ v (neighbours T v)).map T.degree).sum := by
  have hlt (u : Nat) (hu : u ∈ Feasibility.openNeighbours σ v (neighbours T v)) : u < T.size :=
    hr.lt v u (mem_openNeighbours.mp hu).1
  have hmaps (u : Nat) (hu : u ∈ Feasibility.openNeighbours σ v (neighbours T v)) :
      φ u ∈ Feasibility.openNeighbours σ' (φ v) (neighbours T' (φ v)) := by
    obtain ⟨hu', hne, hmu⟩ := mem_openNeighbours.mp hu
    exact mem_openNeighbours.mpr ⟨hr.image v u hu', fun h => hne (hφ.inj u (hlt u hu) v hv h),
      (hm u (hlt u hu)).trans hmu⟩
  have honto (w : Nat) (hw : w ∈ Feasibility.openNeighbours σ' (φ v) (neighbours T' (φ v))) :
      ∃ u ∈ Feasibility.openNeighbours σ v (neighbours T v), φ u = w := by
    obtain ⟨hw', hne, hmw⟩ := mem_openNeighbours.mp hw
    obtain ⟨u, hu, rfl⟩ := hr.onto v hv rfl w hw'
    refine ⟨u, mem_openNeighbours.mpr ⟨hu, fun h => hne (h ▸ rfl), ?_⟩, rfl⟩
    rw [← hm u (hr.lt v u hu)]
    exact hmw
  have hsub := map_subperm ((hr.nodup v).filter _) (fun u hu w hw h => hφ.inj u (hlt u hu) w (hlt w hw) h) hmaps
  have hperm := perm_of_map_subperm hsub ((hr.nodup_target _).filter _) honto
  rw [← (hperm.map T'.degree).sum_eq, List.map_map]
  exact congrArg List.sum (List.map_congr_left fun u hu => hφ.degree_image hT hT' (hlt u hu))

theorem degreeSum_image {σ σ' : Side} (hσ : σ.graph = T) (hσ' : σ'.graph = T')
    (hm : ∀ t < T.size, σ'.isMatched (φ t) = σ.isMatched t) {v : Nat} (hv : v < T.size) :
    Feasibility.degreeSum σ' (φ v) = Feasibility.degreeSum σ v := by
  have hmatches := (matches_true_iff hT hT' hφ.size_eq).mpr hφ
  rw [Feasibility.degreeSum_eq, Feasibility.degreeSum_eq, hσ, hσ',
    hφ.sum_openNeighbours hT hT' (hmatches.respects_successors hT hT') hm hv,
    hφ.sum_openNeighbours hT hT' (hmatches.respects_predecessors hT hT') hm hv]

end IsIsomorphism

-- two searches of one pattern, in a target and in an isomorphic one, that have come equally far
structure Twins (P T T' : Graph) (φ : Nat → Nat) (s s' : SearchState) : Prop where
  left : s.Exact P T
  right : s'.Exact P T'
  pattern : s'.pattern = s.pattern.relabel φ

namespace Twins

variable {s s' : SearchState} {c : Pair}

theorem isMatched_image (h : Twins P T T' φ s s') (hφ : T.IsIsomorphism T' φ) {t : Nat} (ht : t < T.size) :
    s'.target.isMatched (φ t) = s.target.isMatched t := by
  rw [Bool.eq_iff_iff, Side.isMatched, Side.isMatched, Option.isSome_iff_exists, Option.isSome_iff_exists]
  refine exists_congr fun p => ?_
  rw [← h.right.inverse, ← h.left.inverse, h.pattern, Side.partner?_relabel, Option.map_eq_some_iff]
  constructor
  · rintro ⟨u, hu, hut⟩
    have hlt : u < T.size := h.left.lt_target (by simp [Side.isMatched, (h.left.inverse p u).mp hu])
    rwa [hφ.inj u hlt t ht hut] at hu
  · intro hp
    exact ⟨t, hp, rfl⟩

theorem lookaheadTwo_eq (h : Twins P T T' φ s s') (hφ : T.IsIsomorphism T' φ) (hT : T.WellFormed) (hT' : T'.WellFormed)
    (ht : c.t < T.size) : Feasibility.lookaheadTwo false s' ⟨c.p, φ c.t⟩ = Feasibility.lookaheadTwo false s c := by
  rw [Feasibility.lookaheadTwo, Feasibility.lookaheadTwo, h.pattern, Side.degreeSum_relabel,
    hφ.degreeSum_image hT hT' h.left.target.graph h.right.target.graph (fun t ht => h.isMatched_image hφ ht) ht]

theorem extend (h : Twins P T T' φ s s') (hP : P.WellFormed) (hT : T.WellFormed) (hT' : T'.WellFormed)
    (hc : c ∈ s.candidates) (hc' : ⟨c.p, φ c.t⟩ ∈ s'.candidates) :
    Twins P T T' φ (s.extend c) (s'.extend ⟨c.p, φ c.t⟩) := by
  obtain ⟨hp, ht, hmp, hmt⟩ := h.left.candidate hc
  obtain ⟨hp', ht', hmp', hmt'⟩ := h.right.candidate hc'
  refine ⟨h.left.extend hP hT hp ht hmp hmt, h.right.extend hP hT' hp' ht' hmp' hmt', ?_⟩
  rw [SearchState.pattern_extend, SearchState.pattern_extend, Side.relabel_extended, h.pattern]

theorem survives (h : Twins P T T' φ s s') (hφ : T.IsIsomorphism T' φ) (hP : P.WellFormed) (hT : T.WellFormed)
    (hT' : T'.WellFormed) (hf : P.IsMonomorphism T f) (hf' : P.IsMonomorphism T' (φ ∘ f)) (ha : s.Agrees f) {n : Nat}
    (hsurvives : SearchPlan.Survives (fun s c => Feasibility.lookaheadTwo false s c = true) f n s) :
    SearchPlan.Survives (fun s c => Feasibility.lookaheadTwo false s c = true) (φ ∘ f) n s' := by
  induction n generalizing s s' with
  | zero => trivial
  | succ n ih =>
    intro c' hc' hfc'
    have ha' : s'.Agrees (φ ∘ f) := by
      intro p u hu
      rw [h.pattern, Side.partner?_relabel, Option.map_eq_some_iff] at hu
      obtain ⟨t, ht, rfl⟩ := hu
      exact congrArg φ (ha p t ht)
    -- the other search is not done either, and asks for an image of the same vertex
    have hopen : s.isComplete = false := by
      by_contra hdone
      obtain ⟨hp, -, hmp, -⟩ := h.right.candidate hc'
      rw [h.pattern, Side.isMatched_relabel] at hmp
      simp [h.left.isComplete_iff.mp (by simpa using hdone) c'.p hp] at hmp
    obtain ⟨c, hc, hfc⟩ := h.left.exists_candidate hP hT hf ha hopen
    have hp : c'.p = c.p := by
      rw [h.left.eq_chosen hP hT hf ha hc, h.right.eq_chosen hP hT' hf' ha' hc', h.pattern, Side.chosen_relabel]
    obtain rfl : c' = ⟨c.p, φ c.t⟩ := by
      rw [← hfc, ← hp]
      exact congrArg (Pair.mk c'.p) hfc'.symm
    obtain ⟨htwo, hlater⟩ := hsurvives c hc hfc
    have hlt := h.left.candidate hc
    refine ⟨(h.lookaheadTwo_eq hφ hT hT' hlt.2.1).trans htwo, ih (h.extend hP hT hT' hc hc') ?_ hlater⟩
    exact (h.left.agrees_extend hP hlt.1 hlt.2.2.1).mpr ⟨ha, hfc⟩

end Twins

theorem Passes.trans (hpasses : P.Passes T f) (hφ : T.IsIsomorphism T' φ) (hP : P.WellFormed) (hT : T.WellFormed)
    (hT' : T'.WellFormed) (hf : P.IsMonomorphism T f) (hf' : P.IsMonomorphism T' (φ ∘ f)) : P.Passes T' (φ ∘ f) := by
  have hstart : Twins P T T' φ (SearchState.start P T) (SearchState.start P T') := by
    refine ⟨SearchState.exact_start P T, SearchState.exact_start P T', ?_⟩
    simp [SearchState.start, Side.start, Side.relabel]
  exact hstart.survives hφ hP hT hT' hf hf' (SearchState.agrees_start P T f) hpasses

end Graph

end HeapAbstraction
