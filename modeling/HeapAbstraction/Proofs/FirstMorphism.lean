import HeapAbstraction.Proofs.Pruning

namespace HeapAbstraction

namespace SearchState

variable {s : SearchState} {c : Pair} {n : Nat}

theorem pattern_candidate (hs : s.pattern.Tallied n) (hc : c ∈ s.candidates) :
    c.p < n ∧ s.pattern.isMatched c.p = false := by
  have hout (v : Nat) (h : s.pattern.inOutFrontier v = true) : s.pattern.isMatched v = false := by
    rw [Side.inOutFrontier, Bool.and_eq_true, Bool.not_eq_true'] at h
    exact h.2
  have hin (v : Nat) (h : s.pattern.inInFrontier v = true) : s.pattern.isMatched v = false := by
    rw [Side.inInFrontier, Bool.and_eq_true, Bool.not_eq_true'] at h
    exact h.2
  have hno := hs.numOut
  have hni := hs.numIn
  simp only [candidates] at hc
  split at hc
  · rename_i h
    obtain ⟨p, hp, hlt, hfr⟩ := Exact.exists_find hs s.pattern.inOutFrontier (by omega)
    obtain ⟨t, -, rfl⟩ := List.mem_map.mp hc
    simp only [hp, Option.getD_some]
    exact ⟨hlt, hout p hfr⟩
  · split at hc
    · rename_i h
      obtain ⟨p, hp, hlt, hfr⟩ := Exact.exists_find hs s.pattern.inInFrontier (by omega)
      obtain ⟨t, -, rfl⟩ := List.mem_map.mp hc
      simp only [hp, Option.getD_some]
      exact ⟨hlt, hin p hfr⟩
    · split at hc
      · split at hc
        · rename_i p hp
          obtain ⟨t, -, rfl⟩ := List.mem_map.mp hc
          refine ⟨?_, by simpa using List.find?_some hp⟩
          simpa [Side.vertices, hs.partner_length] using List.mem_of_find?_eq_some hp
        · simp at hc
      · simp at hc

end SearchState

namespace Graph

def Bounded (g : Graph) : Prop := ∀ v < g.size, ∀ w ∈ g.successors v ++ g.predecessors v, w < g.size

variable {P : Graph} {s : SearchState} {c : Pair}

theorem Bounded.extend (hP : P.Bounded) (hg : s.pattern.graph = P) (hs : s.pattern.Tallied P.size)
    (hc : c ∈ s.candidates) : (s.extend c).pattern.graph = P ∧ (s.extend c).pattern.Tallied P.size ∧
      tally P.size (fun v => !s.pattern.isMatched v) =
        tally P.size (fun v => !(s.extend c).pattern.isMatched v) + 1 := by
  obtain ⟨hp, hm⟩ := SearchState.pattern_candidate hs hc
  obtain ⟨htallied, hgraph, hpartner, -, -⟩ := hs.extended (t := c.t) (hg ▸ hP c.p hp) hp hm
  rw [← SearchState.pattern_extend] at htallied hgraph hpartner
  have hmatched (q : Nat) : (s.extend c).pattern.isMatched q = (q == c.p || s.pattern.isMatched q) := by
    rw [Side.isMatched, Side.isMatched]
    refine (congrArg Option.isSome (hpartner q)).trans ?_
    by_cases hq : q = c.p <;> simp [hq]
  refine ⟨hgraph.trans hg, htallied, tally_succ hp (by simp [hm]) (by simp [hmatched]) fun q hq => ?_⟩
  simp [hmatched, hq]

end Graph

namespace SearchPlan

variable {plan : SearchPlan} {first : Bool} {s : SearchState} {o full : Outcome} {n : Nat}

inductive Ends (plan : SearchPlan) (first : Bool) : SearchState → Outcome → Prop
  | hopeless {s : SearchState} (hi : plan.impossible s = true) : Ends plan first s {}
  | found {s : SearchState} (hi : plan.impossible s = false) (hf : plan.found s = true) :
      Ends plan first s ⟨[s.morphism], if first then .enough else .proceed⟩
  | explored {s : SearchState} {visit : SearchState → Outcome} (hi : plan.impossible s = false)
      (hf : plan.found s = false)
      (hv : ∀ c ∈ s.candidates, plan.test s c = .accept → Ends plan first (s.extend c) (visit (s.extend c))) :
      Ends plan first s (plan.explore visit s s.candidates)

theorem explore_eq_of_accepted {visit visit' : SearchState → Outcome} {cs : List Pair}
    (hv : ∀ c ∈ cs, plan.test s c = .accept → visit (s.extend c) = visit' (s.extend c)) :
    plan.explore visit s cs = plan.explore visit' s cs := by
  induction cs with
  | nil => rfl
  | cons c cs ih =>
    rw [explore, explore, ih fun c hc => hv c (List.mem_cons_of_mem _ hc)]
    cases ht : plan.test s c with
    | reject => rfl
    | fault => rfl
    | accept => rw [hv c List.mem_cons_self ht]

theorem Ends.unique {o' : Outcome} (h : plan.Ends first s o) (h' : plan.Ends first s o') : o = o' := by
  induction h generalizing o' with
  | hopeless hi =>
    cases h' with
    | hopeless => rfl
    | found hi' => simp [hi] at hi'
    | explored hi' => simp [hi] at hi'
  | found hi hf =>
    cases h' with
    | hopeless hi' => simp [hi] at hi'
    | found => rfl
    | explored _ hf' => simp [hf] at hf'
  | explored hi hf _ ih =>
    cases h' with
    | hopeless hi' => simp [hi] at hi'
    | found _ hf' => simp [hf] at hf'
    | explored _ _ hv' => exact explore_eq_of_accepted fun c hc ht => ih c hc ht (hv' c hc ht)

theorem Ends.exists_first (h : plan.Ends false s full) : ∃ o, plan.Ends true s o ∧ IsFirst o full := by
  induction h with
  | hopeless hi => exact ⟨_, .hopeless hi, by simp, rfl⟩
  | found hi hf => exact ⟨_, .found hi hf, by simp, rfl⟩
  | @explored s visit hi hf _ ih =>
    have : Nonempty Outcome := ⟨{}⟩
    have hchoose (s' : SearchState) (h : ∃ o, plan.Ends true s' o ∧ IsFirst o (visit s')) :
        ∃ o, plan.Ends true s' o ∧ IsFirst o (visit s') := h
    choose! visitFirst hfirst using hchoose
    exact ⟨_, .explored hi hf fun c hc ht => (hfirst _ (ih c hc ht)).1,
      isFirst_explore fun c hc ht => (hfirst _ (ih c hc ht)).2⟩

theorem ends_visit {P : Graph} (hP : P.Bounded) (hg : s.pattern.graph = P) (hs : s.pattern.Tallied P.size)
    (hn : tally P.size (fun v => !s.pattern.isMatched v) ≤ n) : plan.Ends first s (plan.visit first n s) := by
  induction n generalizing s with
  | zero =>
    have hnone : s.candidates = [] := List.eq_nil_iff_forall_not_mem.mpr fun c hc => by
      obtain ⟨-, -, htally⟩ := hP.extend hg hs hc
      omega
    rw [SearchPlan.visit]
    split
    · rename_i hi
      exact .hopeless hi
    · rename_i hi
      rw [Bool.not_eq_true] at hi
      split
      · rename_i hf
        exact .found hi hf
      · rename_i hf
        have hends : plan.Ends first s (plan.explore (fun _ => {}) s s.candidates) :=
          .explored hi (by simpa using hf) (by simp [hnone])
        rwa [hnone] at hends
  | succ n ih =>
    rw [SearchPlan.visit]
    split
    · rename_i hi
      exact .hopeless hi
    · rename_i hi
      rw [Bool.not_eq_true] at hi
      split
      · rename_i hf
        exact .found hi hf
      · rename_i hf
        refine .explored hi (by simpa using hf) fun c hc _ => ?_
        obtain ⟨hg', hs', htally⟩ := hP.extend hg hs hc
        exact ih hg' hs' (by omega)

theorem ends_run {P : Graph} (hP : P.Bounded) (T : Graph) :
    plan.Ends first (SearchState.start P T) (plan.run first P T) := by
  have hn := tally_not (n := P.size) (f := (SearchState.start P T).pattern.isMatched)
  exact ends_visit hP rfl (Side.exact_start P).toTallied (by omega)

end SearchPlan

namespace SearchSettings

def Returns (k : SearchSettings) (first : Bool) (P T : Graph) (found : List Morphism) : Prop :=
  if k.admits P T then ∃ o, k.plan.Ends first (SearchState.start P T) o ∧ o.hits = found else found = []

theorem search_first_eq_head (k : SearchSettings) (P T : Graph) :
    k.search true P T = (k.search false P T).head?.toList ∧
      (∀ all, k.Returns false P T all → k.Returns true P T all.head?.toList) ∧
      (P.Bounded → ∀ first found, k.Returns first P T found ↔ found = k.search first P T) := by
  refine ⟨?_, fun all hall => ?_, fun hP first found => ?_⟩
  · rw [search, search]
    split
    · rw [SearchPlan.hits_first, List.take_one]
    · rfl
  · rw [Returns] at hall ⊢
    split at hall
    · rename_i ha
      obtain ⟨full, hends, rfl⟩ := hall
      obtain ⟨o, ho, hfirst⟩ := hends.exists_first
      rw [if_pos ha]
      exact ⟨o, ho, by rw [hfirst.hits, List.take_one]⟩
    · rename_i ha
      rw [if_neg ha, hall]
      rfl
  · rw [Returns, search]
    split
    · constructor
      · rintro ⟨o, ho, rfl⟩
        rw [ho.unique (SearchPlan.ends_run hP T)]
      · rintro rfl
        exact ⟨_, SearchPlan.ends_run hP T, rfl⟩
    · rfl

theorem search_first_eq_head_path_chain :
    Heap.path.graph.Bounded ∧
      (unpruned false Heap.chain.graph).search false Heap.path.graph Heap.chain.graph = [[0, 1, 2], [1, 2, 3]] ∧
      (unpruned false Heap.chain.graph).Returns true Heap.path.graph Heap.chain.graph [[0, 1, 2]] := by
  have hP : Heap.path.graph.Bounded := by
    unfold Graph.Bounded
    decide
  have hall : (unpruned false Heap.chain.graph).search false Heap.path.graph Heap.chain.graph =
      [[0, 1, 2], [1, 2, 3]] := by decide
  obtain ⟨-, hfirst, hsearch⟩ := search_first_eq_head (unpruned false Heap.chain.graph) Heap.path.graph Heap.chain.graph
  have hreturns := (hsearch hP false [[0, 1, 2], [1, 2, 3]]).mpr hall.symm
  exact ⟨hP, hall, hfirst _ hreturns⟩

end SearchSettings

end HeapAbstraction
