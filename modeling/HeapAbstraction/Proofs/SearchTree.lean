import HeapAbstraction.Proofs.SearchState
import HeapAbstraction.Morphism.Guarded

namespace HeapAbstraction

namespace SearchPlan

variable {plan : SearchPlan} {visit : SearchState → Outcome} {s : SearchState} {cs : List Pair} {m : Morphism}
  {first : Bool} {n : Nat}

theorem mem_explore_hits (hm : m ∈ (plan.explore visit s cs).hits) :
    ∃ c ∈ cs, plan.test s c = .accept ∧ m ∈ (visit (s.extend c)).hits := by
  induction cs with
  | nil => simp [explore] at hm
  | cons c cs ih =>
    have hlater (hm : m ∈ (plan.explore visit s cs).hits) :
        ∃ c' ∈ c :: cs, plan.test s c' = .accept ∧ m ∈ (visit (s.extend c')).hits := by
      obtain ⟨c', hc, h⟩ := ih hm
      exact ⟨c', List.mem_cons_of_mem _ hc, h⟩
    rw [explore] at hm
    cases ht : plan.test s c with
    | reject =>
      rw [ht] at hm
      exact hlater hm
    | fault => simp [ht] at hm
    | accept =>
      rw [ht] at hm
      cases hg : (visit (s.extend c)).signal with
      | proceed =>
        simp only [hg, List.mem_append] at hm
        rcases hm with hm | hm
        · exact ⟨c, List.mem_cons_self, ht, hm⟩
        · exact hlater hm
      | enough =>
        simp only [hg] at hm
        exact ⟨c, List.mem_cons_self, ht, hm⟩
      | fault =>
        simp only [hg] at hm
        exact ⟨c, List.mem_cons_self, ht, hm⟩

theorem exists_of_mem_visit {Valid : SearchState → Prop}
    (hstep : ∀ s c, Valid s → c ∈ s.candidates → plan.test s c = .accept → Valid (s.extend c))
    (hs : Valid s) (hm : m ∈ (plan.visit first n s).hits) :
    ∃ s', Valid s' ∧ plan.found s' = true ∧ m = s'.morphism := by
  induction n generalizing s with
  | zero =>
    rw [SearchPlan.visit] at hm
    split at hm
    · simp at hm
    · split at hm
      · rename_i hf
        exact ⟨s, hs, hf, by simpa using hm⟩
      · simp at hm
  | succ n ih =>
    rw [SearchPlan.visit] at hm
    split at hm
    · simp at hm
    · split at hm
      · rename_i hf
        exact ⟨s, hs, hf, by simpa using hm⟩
      · obtain ⟨c, hc, ht, hm⟩ := mem_explore_hits hm
        exact ih (hstep s c hs hc ht) hm

theorem explore_eq (hfault : ∀ c ∈ cs, plan.test s c ≠ .fault) (hv : ∀ s', (visit s').signal = .proceed) :
    plan.explore visit s cs =
      ⟨(cs.filter (fun c => plan.test s c = .accept)).flatMap (fun c => (visit (s.extend c)).hits), .proceed⟩ := by
  induction cs with
  | nil => rfl
  | cons c cs ih =>
    have ih := ih fun c hc => hfault c (List.mem_cons_of_mem _ hc)
    rw [explore]
    cases ht : plan.test s c with
    | reject => simp [ht, ih]
    | fault => exact absurd ht (hfault c List.mem_cons_self)
    | accept => simp [ht, ih, hv]

theorem signal_visit (hfault : ∀ s c, plan.test s c ≠ .fault) : (plan.visit false n s).signal = .proceed := by
  induction n generalizing s with
  | zero =>
    rw [SearchPlan.visit]
    split
    · rfl
    · split <;> rfl
  | succ n ih =>
    rw [SearchPlan.visit]
    split
    · rfl
    · split
      · rfl
      · simp only [explore_eq (fun c _ => hfault s c) fun _ => ih]

def Survives (Q : SearchState → Pair → Prop) (f : Nat → Nat) : Nat → SearchState → Prop
  | 0, _ => True
  | n + 1, s => ∀ c ∈ s.candidates, f c.p = c.t → Q s c ∧ Survives Q f n (s.extend c)

instance decidableSurvives {Q : SearchState → Pair → Prop} [∀ s c, Decidable (Q s c)] (f : Nat → Nat) :
    (n : Nat) → (s : SearchState) → Decidable (Survives Q f n s)
  | 0, _ => isTrue trivial
  | n + 1, s =>
    have := fun c => decidableSurvives (Q := Q) f n (s.extend c)
    inferInstanceAs (Decidable (∀ c ∈ s.candidates, f c.p = c.t → Q s c ∧ Survives Q f n (s.extend c)))

theorem survives_of_forall {Q : SearchState → Pair → Prop} {f : Nat → Nat} (hQ : ∀ s c, Q s c) : Survives Q f n s := by
  induction n generalizing s with
  | zero => trivial
  | succ n ih => exact fun c _ _ => ⟨hQ s c, ih⟩

-- Where a search finds exactly the solutions that survive: what an accepted pair keeps, what it ends in, and that no
-- solution is given up but at a pair that fails `Q`.
structure Decides (plan : SearchPlan) (P T : Graph) (Valid : SearchState → Prop) (Solution : (Nat → Nat) → Prop)
    (Q : SearchState → Pair → Prop) : Prop where
  fault : ∀ s c, plan.test s c ≠ .fault
  found : plan.found = SearchState.isComplete
  exact : ∀ s, Valid s → s.Exact P T
  step : ∀ s c, Valid s → c ∈ s.candidates → plan.test s c = .accept → Valid (s.extend c)
  passed : ∀ s c, Valid s → plan.test s c = .accept → Q s c
  sound : ∀ s f, Valid s → s.isComplete = true → s.Agrees f → Solution f
  mono : ∀ f, Solution f → P.IsMonomorphism T f
  possible : ∀ s f, Valid s → Solution f → s.Agrees f → plan.impossible s = false
  accepts : ∀ s c f, Valid s → c ∈ s.candidates → Solution f → s.Agrees f → f c.p = c.t → Q s c → plan.test s c = .accept

namespace Decides

variable {P T : Graph} {Valid : SearchState → Prop} {Solution : (Nat → Nat) → Prop} {Q : SearchState → Pair → Prop}
  {f : Nat → Nat} {c : Pair} (hd : plan.Decides P T Valid Solution Q) (hP : P.WellFormed) (hT : T.WellFormed)

include hd

theorem survives_of_isComplete (hs : Valid s) (hc : s.isComplete = true) : Survives Q f n s := by
  cases n with
  | zero => trivial
  | succ n =>
    intro c hcm
    obtain ⟨hp, -, hmp, -⟩ := (hd.exact s hs).candidate hcm
    simp [(hd.exact s hs).isComplete_iff.mp hc c.p hp] at hmp

theorem eq_morphism_iff (hs : Valid s) (hc : s.isComplete = true) :
    m = s.morphism ↔ ∃ f, Solution f ∧ s.Agrees f ∧ Survives Q f n s ∧ m = (List.range P.size).map f := by
  constructor
  · rintro rfl
    have ha : s.Agrees (fun p => (s.pattern.partner? p).getD 0) := fun p t hp => by simp [hp]
    exact ⟨_, hd.sound s _ hs hc ha, ha, hd.survives_of_isComplete hs hc, (hd.exact s hs).morphism_eq hc ha⟩
  · rintro ⟨f, -, ha, -, rfl⟩
    exact ((hd.exact s hs).morphism_eq hc ha).symm

theorem not_impossible (hs : Valid s)
    (h : ∃ f, Solution f ∧ s.Agrees f ∧ Survives Q f n s ∧ m = (List.range P.size).map f) :
    plan.impossible s = false := by
  obtain ⟨f, hf, ha, -⟩ := h
  exact hd.possible s f hs hf ha

include hP in
theorem agrees_extend (hs : Valid s) (hc : c ∈ s.candidates) : (s.extend c).Agrees f ↔ s.Agrees f ∧ f c.p = c.t := by
  obtain ⟨hp, -, hmp, -⟩ := (hd.exact s hs).candidate hc
  exact (hd.exact s hs).agrees_extend hP hp hmp

include hP in
theorem tally_extend (hs : Valid s) (hc : c ∈ s.candidates) :
    tally P.size (fun v => !s.pattern.isMatched v) =
      tally P.size (fun v => !(s.extend c).pattern.isMatched v) + 1 := by
  obtain ⟨hp, -, hmp, -⟩ := (hd.exact s hs).candidate hc
  have hex (q : Nat) : (s.extend c).pattern.isMatched q = (q == c.p || s.pattern.isMatched q) := by
    rw [Side.isMatched, (hd.exact s hs).partner?_extend hP hp hmp, Side.isMatched]
    by_cases hq : q = c.p <;> simp [hq]
  refine tally_succ hp (by simp [hmp]) (by simp [hex]) fun q hq => ?_
  simp [hex, hq]

-- all candidates of a state give an image to the same vertex
theorem survives_succ (hs : Valid s) (hc : c ∈ s.candidates) (hfc : f c.p = c.t) :
    Survives Q f (n + 1) s ↔ Q s c ∧ Survives Q f n (s.extend c) := by
  refine ⟨fun h => h c hc hfc, fun h c' hc' hfc' => ?_⟩
  obtain ⟨p, ts, ho⟩ := (hd.exact s hs).exists_offers
  rw [ho.candidates] at hc hc'
  obtain ⟨t, -, rfl⟩ := List.mem_map.mp hc
  obtain ⟨t', -, rfl⟩ := List.mem_map.mp hc'
  obtain rfl : t = t' := hfc.symm.trans hfc'
  exact h

include hP hT in
theorem exists_solution_iff (hs : Valid s) (hc : s.isComplete = false) :
    (∃ f, Solution f ∧ s.Agrees f ∧ Survives Q f (n + 1) s ∧ m = (List.range P.size).map f) ↔
      ∃ c ∈ s.candidates, plan.test s c = .accept ∧
        ∃ f, Solution f ∧ (s.extend c).Agrees f ∧ Survives Q f n (s.extend c) ∧ m = (List.range P.size).map f := by
  constructor
  · rintro ⟨f, hf, ha, hsurvives, rfl⟩
    obtain ⟨c, hcm, hfc⟩ := (hd.exact s hs).exists_candidate hP hT (hd.mono f hf) ha hc
    obtain ⟨hQ, hlater⟩ := hsurvives c hcm hfc
    exact ⟨c, hcm, hd.accepts s c f hs hcm hf ha hfc hQ, f, hf, (hd.agrees_extend hP hs hcm).mpr ⟨ha, hfc⟩, hlater, rfl⟩
  · rintro ⟨c, hcm, ht, f, hf, ha, hlater, rfl⟩
    obtain ⟨ha, hfc⟩ := (hd.agrees_extend hP hs hcm).mp ha
    exact ⟨f, hf, ha, (hd.survives_succ hs hcm hfc).mpr ⟨hd.passed s c hs ht, hlater⟩, rfl⟩

include hP hT in
theorem mem_visit (hs : Valid s) (hn : tally P.size (fun v => !s.pattern.isMatched v) ≤ n) :
    m ∈ (plan.visit false n s).hits ↔
      ∃ f, Solution f ∧ s.Agrees f ∧ Survives Q f n s ∧ m = (List.range P.size).map f := by
  induction n generalizing s with
  | zero =>
    have hc : s.isComplete = true := by
      rw [SearchState.isComplete, beq_iff_eq, (hd.exact s hs).pattern.toTallied.numUnmatched]
      omega
    rw [SearchPlan.visit, hd.found, if_pos hc]
    split
    · rename_i hi
      have hno := mt (hd.not_impossible (m := m) (n := 0) hs) (by simp [hi])
      simp [hno]
    · simpa using hd.eq_morphism_iff hs hc
  | succ n ih =>
    rw [SearchPlan.visit, hd.found]
    split
    · rename_i hi
      have hno := mt (hd.not_impossible (m := m) (n := n + 1) hs) (by simp [hi])
      simp [hno]
    · split
      · rename_i hc
        simpa using hd.eq_morphism_iff hs hc
      · rename_i hc
        rw [hd.exists_solution_iff hP hT hs (by simpa using hc),
          explore_eq (fun c _ => hd.fault s c) fun _ => signal_visit hd.fault]
        simp only [List.mem_flatMap, List.mem_filter, decide_eq_true_eq, and_assoc]
        refine exists_congr fun c => and_congr_right fun hcm => and_congr_right fun ht => ?_
        have htally := hd.tally_extend hP hs hcm
        exact ih (hd.step s c hs hcm ht) (by omega)

include hP hT in
theorem nodup_visit (hs : Valid s) (hn : tally P.size (fun v => !s.pattern.isMatched v) ≤ n) :
    (plan.visit false n s).hits.Nodup := by
  induction n generalizing s with
  | zero =>
    rw [SearchPlan.visit]
    split
    · exact List.nodup_nil
    · split
      · exact List.nodup_singleton _
      · exact List.nodup_nil
  | succ n ih =>
    rw [SearchPlan.visit]
    split
    · exact List.nodup_nil
    · split
      · exact List.nodup_singleton _
      · rw [explore_eq (fun c _ => hd.fault s c) fun _ => signal_visit hd.fault]
        have hsub (c : Pair) (hcm : c ∈ s.candidates) :
            tally P.size (fun v => !(s.extend c).pattern.isMatched v) ≤ n := by
          have := hd.tally_extend hP hs hcm
          omega
        refine List.nodup_flatMap.mpr ⟨fun c hc => ?_, ?_⟩
        · obtain ⟨hcm, ht⟩ := List.mem_filter.mp hc
          exact ih (hd.step s c hs hcm (by simpa using ht)) (hsub c hcm)
        · -- the candidates differ in the target vertex that they give to the same pattern vertex
          obtain ⟨p, ts, ho⟩ := (hd.exact s hs).exists_offers
          have hnd : s.candidates.Nodup := by
            rw [ho.candidates]
            exact ho.nodup.map fun t u htu => congrArg Pair.t htu
          refine (hnd.filter _).imp_of_mem fun {c d} hc hd' hne => ?_
          obtain ⟨hcm, htc⟩ := List.mem_filter.mp hc
          obtain ⟨hdm, htd⟩ := List.mem_filter.mp hd'
          refine List.disjoint_left.mpr fun m hm hm' => hne ?_
          rw [hd.mem_visit hP hT (hd.step s c hs hcm (by simpa using htc)) (hsub c hcm)] at hm
          rw [hd.mem_visit hP hT (hd.step s d hs hdm (by simpa using htd)) (hsub d hdm)] at hm'
          obtain ⟨f, -, ha, -, rfl⟩ := hm
          obtain ⟨g, -, hb, -, hfg⟩ := hm'
          have hfc := ((hd.agrees_extend hP hs hcm).mp ha).2
          have hgd := ((hd.agrees_extend hP hs hdm).mp hb).2
          rw [ho.candidates] at hcm hdm
          obtain ⟨t, ht, rfl⟩ := List.mem_map.mp hcm
          obtain ⟨u, hu, rfl⟩ := List.mem_map.mp hdm
          have hat := List.map_inj_left.mp hfg p (List.mem_range.mpr (ho.lt t ht).1)
          simp only at hfc hgd
          rw [← hfc, ← hgd, hat]

include hP hT in
theorem run (hs : Valid (SearchState.start P T)) : (plan.run false P T).hits.Nodup ∧
    ∀ m, m ∈ (plan.run false P T).hits ↔
      ∃ f, Solution f ∧ Survives Q f P.size (SearchState.start P T) ∧ m = (List.range P.size).map f := by
  have hn := SearchState.tally_start P T
  refine ⟨hd.nodup_visit hP hT hs hn, fun m => ?_⟩
  rw [SearchPlan.run, hd.mem_visit hP hT hs hn]
  exact exists_congr fun f => ⟨fun ⟨hf, _, h⟩ => ⟨hf, h⟩, fun ⟨hf, h⟩ => ⟨hf, SearchState.agrees_start P T f, h⟩⟩

end Decides

theorem survives_of_exact {P T : Graph} {Q : SearchState → Pair → Prop} {f : Nat → Nat} (hP : P.WellFormed)
    (hT : T.WellFormed)
    (hQ : ∀ s c, s.Exact P T → s.Agrees f → c ∈ s.candidates → f c.p = c.t → Q s c) (hs : s.Exact P T)
    (ha : s.Agrees f) : Survives Q f n s := by
  induction n generalizing s with
  | zero => trivial
  | succ n ih =>
    intro c hc hfc
    obtain ⟨hp, ht, hmp, hmt⟩ := hs.candidate hc
    exact ⟨hQ s c hs ha hc hfc, ih (hs.extend hP hT hp ht hmp hmt) ((hs.agrees_extend hP hp hmp).mpr ⟨ha, hfc⟩)⟩

def IsFirst (o full : Outcome) : Prop :=
  full.signal ≠ .enough ∧ match full.hits with
    | [] => o = full
    | m :: _ => o = ⟨[m], .enough⟩

theorem isFirst_explore {visitFirst : SearchState → Outcome}
    (hv : ∀ c ∈ cs, plan.test s c = .accept → IsFirst (visitFirst (s.extend c)) (visit (s.extend c))) :
    IsFirst (plan.explore visitFirst s cs) (plan.explore visit s cs) := by
  induction cs with
  | nil => exact ⟨by simp [explore], rfl⟩
  | cons c cs ih =>
    have ih := ih fun c hc => hv c (List.mem_cons_of_mem _ hc)
    rw [explore, explore]
    cases ht : plan.test s c with
    | reject => exact ih
    | fault => exact ⟨by simp, rfl⟩
    | accept =>
      obtain ⟨hne, hc⟩ := hv c List.mem_cons_self ht
      obtain ⟨hne', hc'⟩ := ih
      cases hh : (visit (s.extend c)).hits with
      | nil =>
        rw [hh] at hc
        simp only [hc]
        cases hg : (visit (s.extend c)).signal with
        | proceed =>
          refine ⟨by simpa [hg] using hne', ?_⟩
          simp only [hh, List.nil_append]
          exact hc'
        | enough => exact absurd hg hne
        | fault => exact ⟨by simp [hg], by simp [hh]⟩
      | cons m ms =>
        rw [hh] at hc
        simp only [hc]
        cases hg : (visit (s.extend c)).signal with
        | proceed => exact ⟨by simpa [hg] using hne', by simp [hh]⟩
        | enough => exact absurd hg hne
        | fault => exact ⟨by simp [hg], by simp [hh]⟩

theorem isFirst_visit : IsFirst (plan.visit true n s) (plan.visit false n s) := by
  induction n generalizing s with
  | zero =>
    rw [SearchPlan.visit, SearchPlan.visit]
    split
    · exact ⟨by simp, rfl⟩
    · split
      · exact ⟨by simp, rfl⟩
      · exact ⟨by simp, rfl⟩
  | succ n ih =>
    rw [SearchPlan.visit, SearchPlan.visit]
    split
    · exact ⟨by simp, rfl⟩
    · split
      · exact ⟨by simp, rfl⟩
      · exact isFirst_explore fun _ _ _ => ih

theorem IsFirst.hits {o full : Outcome} (h : IsFirst o full) : o.hits = full.hits.take 1 := by
  obtain ⟨-, h⟩ := h
  split at h
  · rename_i hh
    rw [h, hh]
    rfl
  · rename_i hh
    rw [h, hh]
    rfl

theorem hits_first (P T : Graph) : (plan.run true P T).hits = (plan.run false P T).hits.take 1 :=
  isFirst_visit.hits

end SearchPlan

end HeapAbstraction
