import HeapAbstraction.Proofs.SearchTransport

namespace HeapAbstraction

theorem count_none_foldl_set {α : Type} [BEq α] [LawfulBEq α] (a : α) (ws : List Nat) (dist : List (Option α)) :
    (ws.foldl (fun t w => t.set w (some a)) dist).count none ≤ dist.count none := by
  induction ws generalizing dist with
  | nil => exact Nat.le_refl _
  | cons w ws ih =>
    rw [List.foldl_cons]
    refine (ih _).trans ?_
    by_cases hw : w < dist.length
    · rw [List.count_set hw]
      simp
    · rw [List.set_eq_of_length_le (Nat.not_lt.mp hw)]

namespace Graph

inductive Walk (g : Graph) (exempt : Bytes → Bool) : Nat → Nat → Prop
  | start {u v : Nat} {name : Bytes} (hu : u < g.size) (hl : g.label u = .variable name) (he : exempt name = false)
      (hv : v ∈ g.successors u) : Walk g exempt 0 v
  | step {k v w : Nat} (hv : Walk g exempt k v) (hw : w ∈ g.successors v) (hn : g.isNode w = true) :
      Walk g exempt (k + 1) w

structure Levels (g : Graph) (exempt : Bytes → Bool) (d : Nat) (frontier : List Nat) (dist : List (Option Nat)) :
    Prop where
  length : dist.length = g.size
  le : ∀ v k : Nat, dist[v]? = some (some k) → k ≤ d
  frontier : ∀ v : Nat, v ∈ frontier ↔ dist[v]? = some (some d)
  near : ∀ v : Nat, ∀ k ≤ d, (∃ j ≤ k, dist[v]? = some (some j)) ↔ ∃ j ≤ k, g.Walk exempt j v

def Measures (g : Graph) (exempt : Bytes → Bool) (dist : List (Option Nat)) : Prop :=
  ∀ v k : Nat, (∃ j ≤ k, dist[v]? = some (some j)) ↔ ∃ j ≤ k, g.Walk exempt j v

def nextLevel (g : Graph) (frontier : List Nat) (dist : List (Option Nat)) : List Nat :=
  (frontier.flatMap g.successors).eraseDups.filter (fun w => g.isNode w && dist[w]? == some none)

def nextDistances (g : Graph) (d : Nat) (frontier : List Nat) (dist : List (Option Nat)) : List (Option Nat) :=
  (g.nextLevel frontier dist).foldl (fun t w => t.set w (some (d + 1))) dist

variable {g : Graph} {exempt : Bytes → Bool} {d : Nat} {frontier : List Nat} {dist : List (Option Nat)}

theorem mem_nextLevel {w : Nat} : w ∈ g.nextLevel frontier dist ↔
    (∃ v ∈ frontier, w ∈ g.successors v) ∧ g.isNode w = true ∧ dist[w]? = some none := by
  simp only [nextLevel, List.mem_filter, List.mem_eraseDups, List.mem_flatMap, Bool.and_eq_true, beq_iff_eq]

namespace Levels

theorem exists_walk (hl : g.Levels exempt d frontier dist) {v : Nat} (hv : v ∈ frontier) :
    ∃ j ≤ d, g.Walk exempt j v :=
  (hl.near v d (Nat.le_refl d)).mp ⟨d, Nat.le_refl d, (hl.frontier v).mp hv⟩

theorem near_step (hl : g.Levels exempt d frontier dist) {i v w : Nat} (hi : dist[v]? = some (some i))
    (hw : w ∈ g.successors v) (hn : g.isNode w = true) :
    (∃ j ≤ i + 1, dist[w]? = some (some j)) ∨ (i = d ∧ v ∈ frontier) := by
  rcases Nat.lt_or_eq_of_le (hl.le v i hi) with hid | rfl
  · obtain ⟨j, hj, hwalk⟩ := (hl.near v i hid.le).mp ⟨i, Nat.le_refl i, hi⟩
    obtain ⟨m, hm, hdist⟩ := (hl.near w (j + 1) (by omega)).mpr ⟨j + 1, Nat.le_refl _, hwalk.step hw hn⟩
    exact .inl ⟨m, by omega, hdist⟩
  · exact .inr ⟨rfl, (hl.frontier v).mpr hi⟩

theorem measures (hl : g.Levels exempt d frontier dist)
    (hclosed : ∀ v ∈ frontier, ∀ w ∈ g.successors v, g.isNode w = true → ∃ j, dist[w]? = some (some j)) :
    g.Measures exempt dist := by
  intro v k
  constructor
  · rintro ⟨j, hj, hv⟩
    obtain ⟨i, hi, hwalk⟩ := (hl.near v j (hl.le v j hv)).mp ⟨j, Nat.le_refl j, hv⟩
    exact ⟨i, by omega, hwalk⟩
  · rintro ⟨j, hj, hwalk⟩
    suffices hs : ∃ i ≤ j, dist[v]? = some (some i) by
      obtain ⟨i, hi, hv⟩ := hs
      exact ⟨i, by omega, hv⟩
    clear hj
    -- along the walk, every vertex has a distance that is no greater than the number of steps to it
    induction hwalk with
    | start hu hlab he hv => exact (hl.near _ 0 (Nat.zero_le d)).mpr ⟨0, Nat.le_refl 0, .start hu hlab he hv⟩
    | step _ hw hn ih =>
      obtain ⟨i, hi, hv⟩ := ih
      rcases hl.near_step hv hw hn with ⟨m, hm, hdist⟩ | ⟨rfl, hfront⟩
      · exact ⟨m, by omega, hdist⟩
      · obtain ⟨m, hdist⟩ := hclosed _ hfront _ hw hn
        exact ⟨m, (hl.le _ m hdist).trans (by omega), hdist⟩

theorem known_or_open (hl : g.Levels exempt d frontier dist) (hg : g.WellFormed) {v w : Nat} (hw : w ∈ g.successors v) :
    (∃ j, dist[w]? = some (some j)) ∨ dist[w]? = some none := by
  have hlt : w < dist.length := hl.length ▸ (hg.successors_lt v w hw).2
  rw [List.getElem?_eq_getElem hlt]
  cases dist[w] with
  | none => exact .inr rfl
  | some j => exact .inl ⟨j, rfl⟩

theorem getElem?_next (hl : g.Levels exempt d frontier dist) (hg : g.WellFormed) {v k : Nat} :
    (g.nextDistances d frontier dist)[v]? = some (some k) ↔
      dist[v]? = some (some k) ∨ (k = d + 1 ∧ v ∈ g.nextLevel frontier dist) := by
  by_cases hm : v ∈ g.nextLevel frontier dist
  · obtain ⟨⟨u, -, hu⟩, -, hopen⟩ := mem_nextLevel.mp hm
    have hv : v < dist.length := hl.length ▸ (hg.successors_lt u v hu).2
    rw [nextDistances, getElem?_foldl_set _ _ _ _ hv, if_pos hm, hopen]
    simp [hm, eq_comm]
  · have hsame : (g.nextDistances d frontier dist)[v]? = dist[v]? := by
      by_cases hv : v < dist.length
      · rw [nextDistances, getElem?_foldl_set _ _ _ _ hv, if_neg hm]
      · rw [List.getElem?_eq_none (Nat.not_lt.mp hv), nextDistances, List.getElem?_eq_none]
        rw [length_foldl_set]
        exact Nat.not_lt.mp hv
    simp [hsame, hm]

theorem exists_next (hl : g.Levels exempt d frontier dist) (hg : g.WellFormed) {j v : Nat} (hj : j ≤ d + 1)
    (hwalk : g.Walk exempt j v) : (∃ i ≤ d, dist[v]? = some (some i)) ∨ v ∈ g.nextLevel frontier dist := by
  rcases Nat.lt_or_eq_of_le hj with hj | rfl
  · exact .inl ((hl.near v d (Nat.le_refl d)).mpr ⟨j, by omega, hwalk⟩)
  · cases hwalk with
    | step hu hvu hn =>
      obtain ⟨i, hi, hdu⟩ := (hl.near _ d (Nat.le_refl d)).mpr ⟨d, Nat.le_refl d, hu⟩
      rcases hl.near_step hdu hvu hn with ⟨m, -, hdv⟩ | ⟨-, hfront⟩
      · exact .inl ⟨m, hl.le v m hdv, hdv⟩
      · rcases hl.known_or_open hg hvu with ⟨m, hdv⟩ | hopen
        · exact .inl ⟨m, hl.le v m hdv, hdv⟩
        · exact .inr (mem_nextLevel.mpr ⟨⟨_, hfront, hvu⟩, hn, hopen⟩)

theorem next (hl : g.Levels exempt d frontier dist) (hg : g.WellFormed) :
    g.Levels exempt (d + 1) (g.nextLevel frontier dist) (g.nextDistances d frontier dist) where
  length := by rw [nextDistances, length_foldl_set, hl.length]
  le v k hk := by
    rcases (hl.getElem?_next hg).mp hk with hk | ⟨rfl, -⟩
    · exact (hl.le v k hk).trans (Nat.le_succ d)
    · exact Nat.le_refl _
  frontier v := by
    rw [hl.getElem?_next hg]
    refine ⟨fun hm => .inr ⟨rfl, hm⟩, fun h => h.elim (fun hv => ?_) And.right⟩
    exact absurd (hl.le v _ hv) (Nat.not_succ_le_self d)
  near v k hk := by
    simp only [hl.getElem?_next hg]
    rcases Nat.lt_or_eq_of_le hk with hk | rfl
    · rw [← hl.near v k (by omega)]
      refine exists_congr fun j => and_congr_right fun hj => or_iff_left ?_
      rintro ⟨rfl, -⟩
      omega
    · constructor
      · rintro ⟨j, hj, hv | ⟨rfl, hm⟩⟩
        · obtain ⟨i, hi, hwalk⟩ := (hl.near v d (Nat.le_refl d)).mp ⟨j, hl.le v j hv, hv⟩
          exact ⟨i, by omega, hwalk⟩
        · obtain ⟨⟨u, hu, hvu⟩, hn, -⟩ := mem_nextLevel.mp hm
          obtain ⟨i, hi, hwalk⟩ := hl.exists_walk hu
          exact ⟨i + 1, by omega, hwalk.step hvu hn⟩
      · rintro ⟨j, hj, hwalk⟩
        rcases hl.exists_next hg hj hwalk with ⟨i, hi, hv⟩ | hm
        · exact ⟨i, by omega, .inl hv⟩
        · exact ⟨d + 1, Nat.le_refl _, .inr ⟨rfl, hm⟩⟩

theorem count_lt (h : g.nextLevel frontier dist ≠ []) :
    (g.nextDistances d frontier dist).count none < dist.count none := by
  obtain ⟨w, ws, hws⟩ := List.exists_cons_of_ne_nil h
  have hw : dist[w]? = some none := (mem_nextLevel.mp (by rw [hws]; exact List.mem_cons_self)).2.2
  obtain ⟨hlt, hget⟩ := List.getElem?_eq_some_iff.mp hw
  rw [nextDistances, hws, List.foldl_cons]
  refine Nat.lt_of_le_of_lt (count_none_foldl_set _ _ _) ?_
  have hpos : 0 < dist.count none := List.count_pos_iff.mpr (hget ▸ List.getElem_mem hlt)
  rw [List.count_set hlt, hget]
  simp only [beq_self_eq_true, if_true, reduceCtorEq, beq_iff_eq, if_false, Nat.add_zero]
  omega

end Levels

theorem Levels.distancesFrom (hg : g.WellFormed) {n : Nat} (hl : g.Levels exempt d frontier dist)
    (hn : dist.count none ≤ n) : g.Measures exempt (g.distancesFrom n d frontier dist) := by
  induction n generalizing d frontier dist with
  | zero =>
    refine hl.measures fun v _ w hw _ => (hl.known_or_open hg hw).resolve_right fun hopen => ?_
    have : 0 < dist.count none := List.count_pos_iff.mpr (List.mem_of_getElem? hopen)
    omega
  | succ n ih =>
    rw [Graph.distancesFrom]
    change g.Measures exempt (if (g.nextLevel frontier dist).isEmpty then dist else _)
    split
    · rename_i hempty
      refine hl.measures fun v hv w hw hnode => (hl.known_or_open hg hw).resolve_right fun hopen => ?_
      have hm : w ∈ g.nextLevel frontier dist := mem_nextLevel.mpr ⟨⟨v, hv, hw⟩, hnode, hopen⟩
      rw [List.isEmpty_iff.mp hempty] at hm
      exact absurd hm List.not_mem_nil
    · rename_i hne
      have hlt : (g.nextDistances d frontier dist).count none < dist.count none := Levels.count_lt (by simpa using hne)
      exact ih (hl.next hg) (Nat.lt_succ_iff.mp (Nat.lt_of_lt_of_le hlt hn))

def sources (g : Graph) (exempt : Bytes → Bool) : List Nat :=
  (((List.range g.size).filter (fun v => match g.label v with
    | .variable x => !exempt x
    | _ => false)).flatMap g.successors).eraseDups

theorem mem_sources {v : Nat} : v ∈ g.sources exempt ↔ g.Walk exempt 0 v := by
  simp only [sources, List.mem_eraseDups, List.mem_flatMap, List.mem_filter, List.mem_range]
  constructor
  · rintro ⟨u, ⟨hu, hc⟩, hv⟩
    split at hc
    · rename_i name hl
      exact .start hu hl (by simpa using hc) hv
    · simp at hc
  · rintro ⟨hu, hl, he, hv⟩
    exact ⟨_, ⟨hu, by simp [hl, he]⟩, hv⟩

theorem levels_start (hg : g.WellFormed) : g.Levels exempt 0 (g.sources exempt)
    ((g.sources exempt).foldl (fun t w => t.set w (some 0)) (List.replicate g.size none)) := by
  have hlt (v : Nat) (hv : v ∈ g.sources exempt) : v < g.size := by
    cases mem_sources.mp hv with
    | start hu _ _ hv => exact (hg.successors_lt _ v hv).2
  have hget (v k : Nat) : ((g.sources exempt).foldl (fun t w => t.set w (some 0)) (List.replicate g.size none))[v]? =
      some (some k) ↔ v ∈ g.sources exempt ∧ k = 0 := by
    by_cases hv : v < g.size
    · rw [getElem?_foldl_set _ _ _ _ (by simpa using hv)]
      split
      · rename_i hm
        simp [hm, eq_comm]
      · rename_i hm
        simp [hm, hv]
    · rw [List.getElem?_eq_none (by simpa [length_foldl_set] using hv)]
      exact iff_of_false (by simp) fun hm => hv (hlt v hm.1)
  refine ⟨by simp [length_foldl_set], fun v k hk => by rw [((hget v k).mp hk).2], fun v => by simp [hget],
    fun v k hk => ?_⟩
  obtain rfl := Nat.le_zero.mp hk
  simp only [hget, Nat.le_zero, exists_eq_left, and_true, mem_sources]

theorem measures_variableDistances (hg : g.WellFormed) : g.Measures exempt (g.variableDistances exempt) := by
  refine (levels_start hg).distancesFrom hg ?_
  refine (count_none_foldl_set _ _ _).trans ?_
  simp

theorem isFar_iff (hm : g.Measures exempt dist) {depth : Int} {v : Nat} :
    Feasibility.isFar dist depth v = true ↔ ∀ k, g.Walk exempt k v → depth ≤ k := by
  simp only [Feasibility.isFar, Option.all_eq_true, decide_eq_true_eq, Option.join_eq_some_iff]
  constructor
  · intro hfar k hk
    obtain ⟨j, hj, hv⟩ := (hm v k).mpr ⟨k, Nat.le_refl k, hk⟩
    have := hfar j hv
    omega
  · intro hwalk k hv
    obtain ⟨j, hj, hk⟩ := (hm v k).mp ⟨k, Nat.le_refl k, hv⟩
    have := hwalk j hk
    omega

def hidden (P : Graph) (p : Nat) : Bool := P.isNode p && !(P.isExternal p && (P.successors p).isEmpty)

def KeepsDistance (P T : Graph) (depth : Int) (exempt : Bytes → Bool) (f : Nat → Nat) : Prop :=
  ∀ p < P.size, P.hidden p = true → ∀ k, T.Walk exempt k (f p) → depth ≤ k

end Graph

namespace SearchPlan.Decides

variable {plan plan' : SearchPlan} {P T : Graph} {Valid : SearchState → Prop} {Solution : (Nat → Nat) → Prop}
  {Q : SearchState → Pair → Prop}

theorem restrict (hd : plan.Decides P T Valid Solution Q) (hP : P.WellFormed) {R : Nat → Nat → Prop}
    (hfault : ∀ s c, plan'.test s c ≠ .fault) (hfound : plan'.found = plan.found)
    (himp : plan'.impossible = plan.impossible)
    (htest : ∀ s c, Valid s → (plan'.test s c = .accept ↔ plan.test s c = .accept ∧ R c.p c.t)) :
    plan'.Decides P T (fun s => Valid s ∧ ∀ p t, s.pattern.partner? p = some t → R p t)
      (fun f => Solution f ∧ ∀ p < P.size, R p (f p)) Q where
  fault := hfault
  found := hfound.trans hd.found
  exact s hs := hd.exact s hs.1
  step s c hs hc ht := by
    obtain ⟨haccept, hR⟩ := (htest s c hs.1).mp ht
    obtain ⟨hp, -, hmp, -⟩ := (hd.exact s hs.1).candidate hc
    refine ⟨hd.step s c hs.1 hc haccept, fun p t hpt => ?_⟩
    rw [(hd.exact s hs.1).partner?_extend hP hp hmp] at hpt
    split at hpt
    · rename_i hpc
      rw [hpc, ← Option.some.inj hpt]
      exact hR
    · exact hs.2 p t hpt
  passed s c hs ht := hd.passed s c hs.1 ((htest s c hs.1).mp ht).1
  sound s f hs hc ha := by
    refine ⟨hd.sound s f hs.1 hc ha, fun p hp => ?_⟩
    obtain ⟨t, ht⟩ := Option.isSome_iff_exists.mp ((hd.exact s hs.1).isComplete_iff.mp hc p hp)
    rw [ha p t ht]
    exact hs.2 p t ht
  mono f hf := hd.mono f hf.1
  possible s f hs hf ha := himp ▸ hd.possible s f hs.1 hf.1 ha
  accepts s c f hs hc hf ha hfc hQ := by
    obtain ⟨hp, -⟩ := (hd.exact s hs.1).candidate hc
    exact (htest s c hs.1).mpr ⟨hd.accepts s c f hs.1 hc hf.1 ha hfc hQ, hfc ▸ hf.2 c.p hp⟩

end SearchPlan.Decides

namespace Graph

variable {P T T' : Graph} {exempt : Bytes → Bool} {depth : Int} {f φ : Nat → Nat}

theorem farEnough_iff (hT : T.WellFormed) {s : SearchState} {c : Pair} (hs : s.pattern.graph = P) :
    Feasibility.farEnough (((Predicate.exemption (Predicate.distantEmbedding depth exempt)).map
      T.variableDistances).getD []) depth s c = true ↔
        (P.hidden c.p = true → ∀ k, T.Walk exempt k c.t → depth ≤ k) := by
  have hhides : Feasibility.hides s c = P.hidden c.p := by rw [Feasibility.hides, hs, hidden]
  by_cases hd : 0 < depth
  · have hex : Predicate.exemption (Predicate.distantEmbedding depth exempt) = some exempt := by
      simp [Predicate.distantEmbedding, Predicate.embedding, Predicate.exemption, hd]
    rw [hex, Option.map_some, Option.getD_some, Feasibility.farEnough, hhides]
    simp only [Bool.or_eq_true, decide_eq_true_eq, Int.not_le.mpr hd, false_or, Bool.not_eq_true',
      isFar_iff (measures_variableDistances hT)]
    cases P.hidden c.p <;> simp
  · refine iff_of_true ?_ fun _ k _ => by omega
    simp [Feasibility.farEnough, Int.not_lt.mp hd]

theorem accept_distantEmbedding (hT : T.WellFormed) {s : SearchState} {c : Pair} (hs : s.pattern.graph = P) :
    (SearchPlan.ofTests (Predicate.tests (Predicate.distantEmbedding depth exempt) T)).test s c = .accept ↔
      (SearchPlan.ofTests (Predicate.tests Predicate.embedding T)).test s c = .accept ∧
        (P.hidden c.p = true → ∀ k, T.Walk exempt k c.t → depth ≤ k) := by
  simp only [SearchPlan.ofTests, Verdict.ofBool_eq_accept, Predicate.tests]
  rw [Predicate.distantEmbedding, List.map_append, List.all_append, Bool.and_eq_true]
  refine and_congr_right fun _ => ?_
  simp only [List.map_cons, List.map_nil, List.all_cons, List.all_nil, Bool.and_true, Predicate.test]
  exact farEnough_iff hT hs

theorem mem_distantEmbeddings (hP : P.WellFormed) (hT : T.WellFormed) {m : Morphism} :
    m ∈ distantEmbeddings depth exempt false P T ↔
      ∃ f, P.IsEmbedding T f ∧ P.KeepsDistance T depth exempt f ∧ P.Passes T f ∧ m = (List.range P.size).map f := by
  have hplan : (SearchPlan.ofTests (Predicate.tests (Predicate.distantEmbedding depth exempt) T)).Decides P T _ _ _ :=
    (decides_embedding hP hT []).restrict hP
      (R := fun p t => P.hidden p = true → ∀ k, T.Walk exempt k t → depth ≤ k)
      (fun s c => Verdict.ofBool_ne_fault) rfl rfl fun s c hs => accept_distantEmbedding hT hs.pattern.graph
  have hstart : Consistent false P T (SearchState.start P T) ∧ ∀ p t, (SearchState.start P T).pattern.partner? p = some t →
      P.hidden p = true → ∀ k, T.Walk exempt k t → depth ≤ k := by
    refine ⟨consistent_start false P T, fun p t hp => ?_⟩
    simp only [SearchState.start, Side.partner?, Side.start, List.getElem?_replicate] at hp
    split at hp <;> simp at hp
  rw [distantEmbeddings, morphisms, (hplan.run hP hT hstart).2 m]
  simp only [and_assoc, KeepsDistance, Passes]

theorem Walk.exists_preimage (hφ : T.IsIsomorphism T' φ) (hT' : T'.WellFormed) {k u : Nat} (hw : T'.Walk exempt k u) :
    ∃ t < T.size, φ t = u ∧ T.Walk exempt k t := by
  induction hw with
  | start hu hl he hv =>
    obtain ⟨a, ha, rfl⟩ := hφ.onto _ hu
    obtain ⟨b, hb, rfl⟩ := hφ.onto _ (hT'.successors_lt _ _ hv).2
    exact ⟨b, hb, rfl, .start ha ((hφ.label a ha).symm.trans hl) he ((hφ.arc a ha b hb).mp hv)⟩
  | step _ hw hn ih =>
    obtain ⟨a, ha, rfl, hwalk⟩ := ih
    obtain ⟨b, hb, rfl⟩ := hφ.onto _ (hT'.successors_lt _ _ hw).2
    rw [isNode, hφ.label b hb] at hn
    exact ⟨b, hb, rfl, hwalk.step ((hφ.arc a ha b hb).mp hw) hn⟩

theorem IsEmbedding.trans (hf : P.IsEmbedding T f) (hφ : T.IsIsomorphism T' φ) (hP : P.WellFormed) (hT : T.WellFormed)
    (hT' : T'.WellFormed) : P.IsEmbedding T' (φ ∘ f) := by
  have hext (p : Nat) (hp : p < P.size) : T'.isExternal (φ (f p)) = T.isExternal (f p) := by
    rw [isExternal, isExternal, hφ.ordinal _ (hf.lt p hp)]
  refine ⟨⟨fun p hp => hφ.lt _ (hf.lt p hp), fun p hp q hq h => ?_, fun p q hpq => ?_⟩, fun p hp => ?_,
    fun p hp q hq h => ?_, fun p q hpq l hl => ?_, fun p q hpq hne l hl => ?_, fun p hp hi => ?_, fun p hp hi u hu => ?_,
    fun p hp hi u hu => ?_⟩
  · exact hf.inj p hp q hq (hφ.inj _ (hf.lt p hp) _ (hf.lt q hq) h)
  · obtain ⟨hp, hq⟩ := hP.successors_lt p q hpq
    exact (hφ.arc _ (hf.lt p hp) _ (hf.lt q hq)).mpr (hf.arc p q hpq)
  · exact (hφ.label _ (hf.lt p hp)).trans (hf.label p hp)
  · exact hf.reflects p hp q hq ((hφ.arc _ (hf.lt p hp) _ (hf.lt q hq)).mp h)
  · exact (hφ.labels _ _ (hf.arc p q hpq) l).mpr (hf.labels p q hpq hl)
  · exact hf.labels_eq p q hpq hne ((hφ.labels _ _ (hf.arc p q hpq) l).mp hl)
  · exact (hext p hp).trans (hf.inner p hp hi)
  · obtain ⟨t, ht, rfl⟩ := hφ.onto u (hT'.successors_lt _ u hu).2
    obtain ⟨q, hq, rfl⟩ := hf.successors p hp hi t ((hφ.arc _ (hf.lt p hp) _ ht).mp hu)
    exact ⟨q, hq, rfl⟩
  · rw [hT'.mem_predecessors] at hu
    obtain ⟨t, ht, rfl⟩ := hφ.onto u (hT'.successors_lt u _ hu).1
    have hpred := (hT.mem_predecessors t (f p)).mpr ((hφ.arc _ ht _ (hf.lt p hp)).mp hu)
    obtain ⟨q, hq, rfl⟩ := hf.predecessors p hp hi t hpred
    exact ⟨q, hq, rfl⟩

theorem KeepsDistance.trans (hf : P.IsEmbedding T f) (hk : P.KeepsDistance T depth exempt f)
    (hφ : T.IsIsomorphism T' φ) (hT' : T'.WellFormed) : P.KeepsDistance T' depth exempt (φ ∘ f) := by
  intro p hp hh k hw
  obtain ⟨t, ht, hpt, hwalk⟩ := hw.exists_preimage hφ hT'
  rw [hφ.inj t ht (f p) (hf.lt p hp) hpt] at hwalk
  exact hk p hp hh k hwalk

end Graph

end HeapAbstraction
