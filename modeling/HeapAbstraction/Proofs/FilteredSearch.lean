import HeapAbstraction.Proofs.FoldFrame

namespace HeapAbstraction

theorem flatMap_filter {α β : Type} (p : α → Bool) (f : α → List β) (l : List α) :
    (l.filter p).flatMap f = l.flatMap (fun a => if p a then f a else []) := by
  induction l with
  | nil => rfl
  | cons a l ih => by_cases h : p a = true <;> simp [h, ih]

namespace SearchPlan.Decides

variable {plan plan' : SearchPlan} {P T : Graph} {Valid : SearchState → Prop} {Solution : (Nat → Nat) → Prop}
  {Q : SearchState → Pair → Prop} {R : Nat → Nat → Prop} {keep : Morphism → Bool} {s : SearchState} {c : Pair} {n : Nat}

theorem filter_eq_nil (hd : plan.Decides P T Valid Solution Q) (hP : P.WellFormed) (hT : T.WellFormed)
    (hkeep : ∀ f, keep ((List.range P.size).map f) = true ↔ ∀ p < P.size, R p (f p)) (hs : Valid s)
    (hc : c ∈ s.candidates) (ht : plan.test s c = .accept)
    (hn : tally P.size (fun v => !(s.extend c).pattern.isMatched v) ≤ n) (hR : ¬ R c.p c.t) :
    (plan.visit false n (s.extend c)).hits.filter keep = [] := by
  refine List.filter_eq_nil_iff.mpr fun m hm hk => hR ?_
  rw [hd.mem_visit hP hT (hd.step s c hs hc ht) hn] at hm
  obtain ⟨f, -, ha, -, rfl⟩ := hm
  obtain ⟨hp, -⟩ := (hd.exact s hs).candidate hc
  rw [← ((hd.agrees_extend hP hs hc).mp ha).2]
  exact (hkeep f).mp hk c.p hp

theorem hits_restrict (hd : plan.Decides P T Valid Solution Q) (hP : P.WellFormed) (hT : T.WellFormed)
    (hkeep : ∀ f, keep ((List.range P.size).map f) = true ↔ ∀ p < P.size, R p (f p))
    (hfault : ∀ s c, plan'.test s c ≠ .fault) (hfound : plan'.found = plan.found)
    (himp : plan'.impossible = plan.impossible)
    (htest : ∀ s c, Valid s → (plan'.test s c = .accept ↔ plan.test s c = .accept ∧ R c.p c.t))
    (hs : Valid s) (hR : ∀ p t, s.pattern.partner? p = some t → R p t)
    (hn : tally P.size (fun v => !s.pattern.isMatched v) ≤ n) :
    (plan'.visit false n s).hits = (plan.visit false n s).hits.filter keep := by
  have hr := hd.restrict hP hfault hfound himp htest
  have hhit (s : SearchState) (hs : Valid s) (hR : ∀ p t, s.pattern.partner? p = some t → R p t)
      (hc : s.isComplete = true) : keep s.morphism = true := by
    obtain ⟨f, hf, -, -, hm⟩ := (hr.eq_morphism_iff (n := 0) ⟨hs, hR⟩ hc).mp rfl
    rw [hm]
    exact (hkeep f).mpr hf.2
  induction n generalizing s with
  | zero =>
    rw [SearchPlan.visit, SearchPlan.visit, himp, hfound, hd.found]
    split
    · rfl
    · split
      · rename_i hc
        simp [hhit s hs hR hc]
      · rfl
  | succ n ih =>
    rw [SearchPlan.visit, SearchPlan.visit, himp, hfound, hd.found]
    split
    · rfl
    · split
      · rename_i hc
        simp [hhit s hs hR hc]
      · rw [explore_eq (fun c _ => hfault s c) fun _ => signal_visit hfault,
          explore_eq (fun c _ => hd.fault s c) fun _ => signal_visit hd.fault, List.filter_flatMap, flatMap_filter,
          flatMap_filter]
        refine List.flatMap_congr fun c hc => ?_
        have htally := hd.tally_extend hP hs hc
        by_cases ht : plan.test s c = .accept
        · by_cases hRc : R c.p c.t
          · obtain ⟨hs', hR'⟩ := hr.step s c ⟨hs, hR⟩ hc ((htest s c hs).mpr ⟨ht, hRc⟩)
            rw [if_pos (by simp [htest s c hs, ht, hRc]), if_pos (by simp [ht])]
            exact ih hs' hR' (by omega)
          · rw [if_neg (by simp [htest s c hs, hRc]), if_pos (by simp [ht]),
              hd.filter_eq_nil hP hT hkeep hs hc ht (by omega) hRc]
        · rw [if_neg (by simp [htest s c hs, ht]), if_neg (by simp [ht])]

end SearchPlan.Decides

namespace Graph

variable {P T : Graph} {exempt exempt' : Bytes → Bool} {depth depth' : Int} {f : Nat → Nat} {m : Morphism}

-- the nodes that are internal or have a selector get images that are no nearer than `depth`: the shortest way over
-- selectors to such an image from the node of a variable that is not exempt, where there is one, has that length at
-- least
def KeepsAway (P T : Graph) (depth : Int) (exempt : Bytes → Bool) (m : Morphism) : Prop :=
  0 < depth → ∀ p t, m[p]? = some t → P.isNode p = true → P.isExternal p = false ∨ P.successors p ≠ [] →
    ∀ k, IsLeast {k | T.Walk exempt k t} k → depth ≤ k

theorem le_walk_iff {t : Nat} :
    (∀ k, T.Walk exempt k t → depth ≤ k) ↔ (0 < depth → ∀ k, IsLeast {k | T.Walk exempt k t} k → depth ≤ k) := by
  constructor
  · intro hall _ k hk
    exact hall k hk.1
  · intro hleast k hk
    by_cases hd : 0 < depth
    · classical
      have hfind : IsLeast {k | T.Walk exempt k t} (Nat.find ⟨k, hk⟩) :=
        ⟨Nat.find_spec ⟨k, hk⟩, fun j hj => Nat.find_min' _ hj⟩
      have := hleast hd _ hfind
      have := hfind.2 hk
      omega
    · omega

theorem hidden_iff {p : Nat} :
    P.hidden p = true ↔ P.isNode p = true ∧ (P.isExternal p = false ∨ P.successors p ≠ []) := by
  simp [hidden]

theorem keepsAway_iff : P.KeepsAway T depth exempt m ↔
    ∀ p t, m[p]? = some t → P.hidden p = true → ∀ k, T.Walk exempt k t → depth ≤ k := by
  simp only [le_walk_iff, hidden_iff, KeepsAway]
  exact ⟨fun hm p t hpt hh hd => hm hd p t hpt hh.1 hh.2, fun hm hd p t hpt hn ho => hm p t hpt ⟨hn, ho⟩ hd⟩

theorem keepsAway_map_iff : P.KeepsAway T depth exempt ((List.range P.size).map f) ↔
    ∀ p < P.size, P.hidden p = true → ∀ k, T.Walk exempt k (f p) → depth ≤ k := by
  rw [keepsAway_iff]
  constructor
  · intro hm p hp
    exact hm p (f p) (by simp [hp])
  · intro hf p t hpt
    obtain ⟨hp, rfl⟩ : p < P.size ∧ f p = t := by simpa [List.getElem?_eq_some_iff] using hpt
    exact hf p hp

theorem Walk.mono (he : ∀ name, exempt' name = true → exempt name = true) {k t : Nat} (hw : T.Walk exempt k t) :
    T.Walk exempt' k t := by
  induction hw with
  | start hu hl hf hv => exact .start hu hl (Bool.eq_false_iff.mpr fun ht => by simp [he _ ht] at hf) hv
  | step _ hw hn ih => exact ih.step hw hn

theorem KeepsAway.mono (hm : P.KeepsAway T depth' exempt' m) (hd : depth ≤ depth')
    (he : ∀ name, exempt' name = true → exempt name = true) : P.KeepsAway T depth exempt m := by
  rw [keepsAway_iff] at hm ⊢
  intro p t hpt hh k hw
  exact hd.trans (hm p t hpt hh k (hw.mono he))

open Classical in
theorem distantEmbeddings_eq (hP : P.WellFormed) (hT : T.WellFormed) : distantEmbeddings depth exempt false P T =
    (embeddings false P T).filter (fun m => P.KeepsAway T depth exempt m) := by
  have hn := SearchState.tally_start P T
  refine (decides_embedding hP hT []).hits_restrict hP hT
    (R := fun p t => P.hidden p = true → ∀ k, T.Walk exempt k t → depth ≤ k)
    (fun f => decide_eq_true_iff.trans keepsAway_map_iff) (fun s c => Verdict.ofBool_ne_fault) rfl rfl
    (fun s c hs => accept_distantEmbedding hT hs.pattern.graph) (consistent_start false P T) (fun p t hp => ?_) hn
  simp only [SearchState.start, Side.partner?, Side.start, List.getElem?_replicate] at hp
  split at hp <;> simp at hp

open Classical in
theorem distantEmbeddings_sublist (hP : P.WellFormed) (hT : T.WellFormed) (depth : Int) (exempt : Bytes → Bool) :
    distantEmbeddings depth exempt false P T =
        (embeddings false P T).filter (fun m => P.KeepsAway T depth exempt m) ∧
      ∀ depth' exempt', depth ≤ depth' → (∀ name, exempt' name = true → exempt name = true) →
        (distantEmbeddings depth' exempt' false P T).Sublist (distantEmbeddings depth exempt false P T) := by
  refine ⟨distantEmbeddings_eq hP hT, fun depth' exempt' hd he => ?_⟩
  rw [distantEmbeddings_eq hP hT, distantEmbeddings_eq hP hT]
  refine List.monotone_filter_right _ fun m hm => ?_
  rw [decide_eq_true_eq] at hm ⊢
  exact hm.mono hd he

theorem distantEmbeddings_sublist_heldChain :
    embeddings false Heap.path.graph Grammar.heldChain.graph = [[0, 1, 2], [1, 2, 3]] ∧
      distantEmbeddings 1 (fun _ => false) false Heap.path.graph Grammar.heldChain.graph = [[1, 2, 3]] ∧
      ¬ Heap.path.graph.KeepsAway Grammar.heldChain.graph 1 (fun _ => false) [0, 1, 2] ∧
      Heap.path.graph.KeepsAway Grammar.heldChain.graph 1 (fun _ => false) [1, 2, 3] ∧
      (distantEmbeddings 2 (fun _ => false) false Heap.path.graph Grammar.heldChain.graph).Sublist [[1, 2, 3]] := by
  have hall : embeddings false Heap.path.graph Grammar.heldChain.graph = [[0, 1, 2], [1, 2, 3]] := by decide
  have hfar : distantEmbeddings 1 (fun _ => false) false Heap.path.graph Grammar.heldChain.graph = [[1, 2, 3]] := by
    decide
  obtain ⟨heq, hsub⟩ := distantEmbeddings_sublist Heap.wellFormed_path.toSound.graph
    Grammar.wellFormed_heldChain.toSound.graph 1 (fun _ => false)
  rw [hall, hfar] at heq
  have hkept (m : Morphism) (hm : m ∈ [[0, 1, 2], [1, 2, 3]]) :
      m ∈ [[1, 2, 3]] ↔ Heap.path.graph.KeepsAway Grammar.heldChain.graph 1 (fun _ => false) m := by
    classical
    rw [heq, List.mem_filter, decide_eq_true_eq]
    exact and_iff_right hm
  refine ⟨hall, hfar, fun h => ?_, (hkept [1, 2, 3] (by simp)).mp (by simp),
    hfar ▸ hsub 2 (fun _ => false) (by decide) (fun _ => id)⟩
  have := (hkept [0, 1, 2] (by simp)).mpr h
  simp at this

end Graph

end HeapAbstraction
