import HeapAbstraction.Proofs.Weight
import HeapAbstraction.Proofs.HeapSet

namespace HeapAbstraction.Grammar

variable {g : Grammar} {opts : Options} {counter : LabelCounter} {h₀ h rule : Heap} {nt : Nonterminal} {m : Morphism}

theorem mem_distantEmbeddings_first {first : Bool}
    (hm : m ∈ Graph.distantEmbeddings opts.minDistance opts.isConstant first rule.graph h.graph) :
    m ∈ Graph.distantEmbeddings opts.minDistance opts.isConstant false rule.graph h.graph := by
  cases first with
  | false => exact hm
  | true =>
    rw [Graph.distantEmbeddings, Graph.morphisms, SearchPlan.hits_first] at hm
    exact List.mem_of_mem_take hm

theorem distantEmbeddings_eq_nil
    (hn : Graph.distantEmbeddings opts.minDistance opts.isConstant true rule.graph h.graph = []) :
    Graph.distantEmbeddings opts.minDistance opts.isConstant false rule.graph h.graph = [] := by
  rw [Graph.distantEmbeddings, Graph.morphisms, SearchPlan.hits_first, List.take_eq_nil_iff] at hn
  exact hn.resolve_left Nat.one_ne_zero

theorem exists_foldRule (hg : g.Sound) (hw : h.WellFormed) (hi : h.Idle) (hr : (nt, rule) ∈ g.allRules)
    (hm : m ∈ Graph.distantEmbeddings opts.minDistance opts.isConstant false rule.graph h.graph) :
    ∃ k, h.foldRule nt rule m = .ok k ∧ g.FoldStep opts h k := by
  obtain ⟨f, hf, rfl⟩ := exists_isEmbedding_of_mem_distantEmbeddings hg hr hw hm
  obtain ⟨k, hk, -⟩ := hw.foldRule hi (hg nt rule hr) hf
  exact ⟨k, hk, nt, rule, _, hr, hm, hk⟩

-- the counter takes the label of every rule
def CountedBy (g : Grammar) (counter : LabelCounter) : Prop :=
  ∀ nt rule, (nt, rule) ∈ g.allRules → counter.accepts nt.label = true

theorem foldCounted_returns (hg : g.Sound) (hw : h.WellFormed) (hi : h.Idle) (hc : g.CountedBy counter)
    (hr : (nt, rule) ∈ g.allRules)
    (hm : m ∈ Graph.distantEmbeddings opts.minDistance opts.isConstant false rule.graph h.graph) :
    (foldCounted counter h nt rule m).Returns (fun k => h.foldRule nt rule m = .ok k ∧ g.FoldStep opts h k) := by
  obtain ⟨k, hk, hstep⟩ := exists_foldRule hg hw hi hr hm
  refine .bind (.ofExcept hk rfl) fun k' hk' => ?_
  rw [LabelCounter.count, if_pos (hc nt rule hr)]
  exact .bind_counted (.pure (hk' ▸ ⟨hk, hstep⟩))

section

variable (hg : g.Sound) (hw : h₀.WellFormed) (hi : h₀.Idle) (hc : g.CountedBy counter)

include hg hw hi hc

theorem foldOnce_returns (hh : g.FoldsTo opts h₀ h) {rules : List (Nonterminal × Heap)} (hr : rules ⊆ g.allRules) :
    (foldOnce opts counter h rules).Returns (fun r => (∀ k, r = some k → g.FoldStep opts h k) ∧
      (r = none → ∀ nt rule, (nt, rule) ∈ rules →
        Graph.distantEmbeddings opts.minDistance opts.isConstant false rule.graph h.graph = [])) := by
  induction rules with
  | nil => exact .pure (by simp)
  | cons p rules ih =>
    obtain ⟨nt, rule⟩ := p
    obtain ⟨hmem, hrest⟩ := List.cons_subset.mp hr
    obtain ⟨hwh, hih⟩ := hh.wellFormed hg hw hi
    refine .bind_counted ?_
    split
    · rename_i m rest hfound
      have hm : m ∈ (ruleEmbeddings opts true rule h).value := hfound ▸ List.mem_cons_self
      refine .bind (foldCounted_returns hg hwh hih hc hmem (mem_distantEmbeddings_first hm)) fun k hk => .pure ?_
      simpa using hk.2
    · rename_i hfound
      refine (ih hrest).mono fun r hres => ⟨hres.1, fun hn nt' rule' hp => ?_⟩
      rcases List.mem_cons.mp hp with hp | hp
      · cases hp
        exact distantEmbeddings_eq_nil hfound
      · exact hres.2 hn nt' rule' hp

theorem foldRepeatedly_returns {n : Nat} (hh : g.FoldsTo opts h₀ h) (hn : h.weight < n) :
    (foldRepeatedly opts counter g n h).Returns (fun k => g.FoldsTo opts h₀ k ∧ g.Normal opts k) := by
  induction n generalizing h with
  | zero => omega
  | succ n ih =>
    obtain ⟨hwh, hih⟩ := hh.wellFormed hg hw hi
    refine .bind (foldOnce_returns hg hw hi hc hh (List.Subset.refl _)) fun r hr => ?_
    split
    · rename_i folded
      have hstep := hr.1 folded rfl
      have hlt := hstep.weight_lt hg hwh hih
      exact ih (hh.tail hstep) (by omega)
    · exact .pure ⟨hh, hr.2 rfl⟩

end

namespace Exploration

variable (g : Grammar) (opts : Options)

def Settles (x : Exploration) (h : Heap) : Prop :=
  (∀ k, g.FoldStep opts h k → ∃ s ∈ x.seen.items, s.Isomorphic k) ∧
    (g.Normal opts h → ∃ s ∈ x.fixed.items, s.Isomorphic h)

structure Covers (h₀ : Heap) (x : Exploration) (pending : List Heap) : Prop where
  seen : x.seen.Valid
  fixed : x.fixed.Valid
  start : h₀ ∈ x.seen.items
  reached : ∀ k ∈ x.seen.items, g.FoldsTo opts h₀ k
  normal : ∀ k ∈ x.fixed.items, k ∈ x.seen.items ∧ g.Normal opts k
  met : pending ⊆ x.seen.items
  settled : ∀ k ∈ x.seen.items, k ∈ pending ∨ x.Settles g opts k

def meet (x : Exploration) (k : Heap) : Exploration :=
  let r := (x.seen.insert k).value
  { x with seen := r.2, fresh := if r.1 then x.fresh ++ [k] else x.fresh }

def keep (x : Exploration) (k : Heap) : Exploration := { x with fixed := (x.fixed.insert k).value.2 }

variable {g opts} {x y : Exploration} {k : Heap} {pending todo level : List Heap}

theorem Settles.mono (hx : x.Settles g opts k) (hs : x.seen.items ⊆ y.seen.items) (hf : x.fixed.items ⊆ y.fixed.items) :
    y.Settles g opts k :=
  ⟨fun k' hk => (hx.1 k' hk).imp fun _ h => ⟨hs h.1, h.2⟩, fun hn => (hx.2 hn).imp fun _ h => ⟨hf h.1, h.2⟩⟩

namespace Covers

theorem wellFormed (hx : x.Covers g opts h₀ pending) (hg : g.Sound) (hw : h₀.WellFormed) (hi : h₀.Idle)
    (hk : k ∈ x.seen.items) : k.WellFormed ∧ k.Idle :=
  (hx.reached k hk).wellFormed hg hw hi

theorem settle (hx : x.Covers g opts h₀ (h :: pending)) (hs : x.Settles g opts h) : x.Covers g opts h₀ pending where
  seen := hx.seen
  fixed := hx.fixed
  start := hx.start
  reached := hx.reached
  normal := hx.normal
  met := fun k hk => hx.met (List.mem_cons_of_mem h hk)
  settled k hk := by
    rcases hx.settled k hk with hp | hsettled
    · rcases List.mem_cons.mp hp with rfl | hp
      · exact .inr hs
      · exact .inl hp
    · exact .inr hsettled

theorem meet (hx : x.Covers g opts h₀ (todo ++ x.fresh)) (hk : g.FoldsTo opts h₀ k) (hs : k.Sound) :
    (x.meet k).Covers g opts h₀ (todo ++ (x.meet k).fresh) ∧ x.seen.items ⊆ (x.meet k).seen.items ∧
      (∀ s ∈ (x.meet k).fresh, s ∈ x.fresh ∨ s = k) ∧ ∃ s ∈ (x.meet k).seen.items, s.Isomorphic k := by
  rcases hx.seen.insert_cases hs with ⟨hex, hv⟩ | ⟨-, t, hv, ht, hitems⟩
  · have hsame : x.meet k = x := by simp [Exploration.meet, hv]
    rw [hsame]
    exact ⟨hx, List.Subset.refl _, fun s hs => .inl hs, hex⟩
  · have hmeet : x.meet k = { x with seen := t, fresh := x.fresh ++ [k] } := by simp [Exploration.meet, hv]
    have hsub : x.seen.items ⊆ t.items := hitems ▸ List.subset_append_left _ _
    have hnew : k ∈ t.items := by simp [hitems]
    rw [hmeet]
    refine ⟨⟨ht, hx.fixed, hsub hx.start, fun s hs => ?_, fun s hs => ?_, fun s hs => ?_, fun s hs => ?_⟩, hsub, ?_,
      k, hnew, .refl k⟩
    · rcases List.mem_append.mp (hitems ▸ hs) with hs | hs
      · exact hx.reached s hs
      · exact List.mem_singleton.mp hs ▸ hk
    · obtain ⟨hseen, hn⟩ := hx.normal s hs
      exact ⟨hsub hseen, hn⟩
    · rw [← List.append_assoc] at hs
      rcases List.mem_append.mp hs with hs | hs
      · exact hsub (hx.met hs)
      · exact List.mem_singleton.mp hs ▸ hnew
    · rw [← List.append_assoc]
      rcases List.mem_append.mp (hitems ▸ hs) with hs | hs
      · rcases hx.settled s hs with hp | hsettled
        · exact .inl (List.mem_append_left _ hp)
        · exact .inr (hsettled.mono hsub (List.Subset.refl _))
      · exact .inl (List.mem_append_right _ hs)
    · intro s hs
      simpa using hs

theorem keep (hx : x.Covers g opts h₀ pending) (hk : k ∈ x.seen.items) (hn : g.Normal opts k) :
    (x.keep k).Covers g opts h₀ pending ∧ ∃ s ∈ (x.keep k).fixed.items, s.Isomorphic k := by
  rcases hx.fixed.insert_cases (hx.seen.sound k hk) with ⟨hex, hv⟩ | ⟨-, t, hv, ht, hitems⟩
  · have hsame : x.keep k = x := by simp [Exploration.keep, hv]
    rw [hsame]
    exact ⟨hx, hex⟩
  · have hkeep : x.keep k = { x with fixed := t } := by simp [Exploration.keep, hv]
    have hsub : x.fixed.items ⊆ t.items := hitems ▸ List.subset_append_left _ _
    rw [hkeep]
    refine ⟨⟨hx.seen, ht, hx.start, hx.reached, fun s hs => ?_, hx.met, fun s hs => ?_⟩, k, by simp [hitems], .refl k⟩
    · rcases List.mem_append.mp (hitems ▸ hs) with hs | hs
      · exact hx.normal s hs
      · rw [List.mem_singleton.mp hs]
        exact ⟨hk, hn⟩
    · exact (hx.settled s hs).imp id fun hsettled => hsettled.mono (List.Subset.refl _) hsub

end Covers

end Exploration

structure Exploration.AtLevel (g : Grammar) (opts : Options) (h₀ : Heap) (w : Nat) (todo : List Heap) (x : Exploration) :
    Prop where
  covers : x.Covers g opts h₀ (todo ++ x.fresh)
  light : ∀ k ∈ x.fresh, k.weight < w

section

variable {x : Exploration} {w : Nat} {todo level : List Heap} (hg : g.Sound) (hw : h₀.WellFormed) (hi : h₀.Idle)
  (hc : g.CountedBy counter)

include hg hw hi hc

theorem foldEach_returns (hx : x.AtLevel g opts h₀ w todo) (hh : h ∈ x.seen.items) (hle : h.weight ≤ w)
    (hr : (nt, rule) ∈ g.allRules) {ms : List Morphism}
    (hm : ms ⊆ Graph.distantEmbeddings opts.minDistance opts.isConstant false rule.graph h.graph) :
    (foldEach counter h nt rule x ms).Returns (fun y => y.AtLevel g opts h₀ w todo ∧ x.seen.items ⊆ y.seen.items ∧
      ∀ m ∈ ms, ∀ k, h.foldRule nt rule m = .ok k → ∃ s ∈ y.seen.items, s.Isomorphic k) := by
  induction ms generalizing x with
  | nil => exact .pure ⟨hx, List.Subset.refl _, by simp⟩
  | cons m ms ih =>
    obtain ⟨hmem, hrest⟩ := List.cons_subset.mp hm
    obtain ⟨hwh, hih⟩ := hx.covers.wellFormed hg hw hi hh
    refine .bind (foldCounted_returns hg hwh hih hc hr hmem) fun folded hfolded => .bind_counted ?_
    obtain ⟨hfold, hstep⟩ := hfolded
    have hreach : g.FoldsTo opts h₀ folded := (hx.covers.reached h hh).tail hstep
    obtain ⟨hcovers, hsub, hfresh, hmet⟩ := hx.covers.meet hreach (hreach.wellFormed hg hw hi).1.toSound
    have hlevel : (x.meet folded).AtLevel g opts h₀ w todo := by
      refine ⟨hcovers, fun s hs => ?_⟩
      rcases hfresh s hs with hs | rfl
      · exact hx.light s hs
      · exact Nat.lt_of_lt_of_le (hstep.weight_lt hg hwh hih) hle
    refine (ih hlevel (hsub hh) hrest).mono fun y hy => ⟨hy.1, fun s hs => hy.2.1 (hsub hs), fun m' hm' k hk => ?_⟩
    rcases List.mem_cons.mp hm' with rfl | hm'
    · rw [hfold] at hk
      cases hk
      exact hmet.imp fun s hs => ⟨hy.2.1 hs.1, hs.2⟩
    · exact hy.2.2 m' hm' k hk

theorem foldRules_returns (hx : x.AtLevel g opts h₀ w todo) (hh : h ∈ x.seen.items) (hle : h.weight ≤ w) {folded : Bool}
    {rules : List (Nonterminal × Heap)} (hr : rules ⊆ g.allRules) :
    (foldRules opts counter h x folded rules).Returns (fun r => r.1.AtLevel g opts h₀ w todo ∧ x.seen.items ⊆ r.1.seen.items ∧
      (∀ nt rule, (nt, rule) ∈ rules →
        ∀ m ∈ Graph.distantEmbeddings opts.minDistance opts.isConstant false rule.graph h.graph,
          ∀ k, h.foldRule nt rule m = .ok k → ∃ s ∈ r.1.seen.items, s.Isomorphic k) ∧
      (r.2 = false ↔ folded = false ∧ ∀ nt rule, (nt, rule) ∈ rules →
        Graph.distantEmbeddings opts.minDistance opts.isConstant false rule.graph h.graph = [])) := by
  induction rules generalizing x folded with
  | nil => exact .pure ⟨hx, List.Subset.refl _, by simp, by simp⟩
  | cons p rules ih =>
    obtain ⟨nt, rule⟩ := p
    obtain ⟨hmem, hrest⟩ := List.cons_subset.mp hr
    refine .bind_counted (.bind (foldEach_returns hg hw hi hc hx hh hle hmem (List.Subset.refl _)) fun y hy => ?_)
    obtain ⟨hlevel, hsub, hfound⟩ := hy
    refine (ih hlevel (hsub hh) hrest).mono fun r hres => ?_
    obtain ⟨hlevel', hsub', hfound', hflag⟩ := hres
    refine ⟨hlevel', fun s hs => hsub' (hsub hs), fun nt' rule' hp m hm k hk => ?_, ?_⟩
    · rcases List.mem_cons.mp hp with hp | hp
      · cases hp
        exact (hfound m hm k hk).imp fun s hs => ⟨hsub' hs.1, hs.2⟩
      · exact hfound' nt' rule' hp m hm k hk
    · rw [hflag, Bool.or_eq_false_iff, Bool.not_eq_false', List.isEmpty_iff, and_assoc]
      refine and_congr_right fun _ => ?_
      simp only [List.mem_cons, Prod.mk.injEq]
      constructor
      · rintro ⟨hnil, hall⟩ nt' rule' (⟨rfl, rfl⟩ | hp)
        · exact hnil
        · exact hall nt' rule' hp
      · exact fun hall => ⟨hall nt rule (.inl ⟨rfl, rfl⟩), fun nt' rule' hp => hall nt' rule' (.inr hp)⟩

theorem foldLevel_returns (hx : x.AtLevel g opts h₀ w level) (hle : ∀ k ∈ level, k.weight ≤ w) :
    (foldLevel opts counter g x level).Returns (Exploration.AtLevel g opts h₀ w []) := by
  induction level generalizing x with
  | nil => exact .pure hx
  | cons h level ih =>
    obtain ⟨hleh, hlerest⟩ := List.forall_mem_cons.mp hle
    have hh : h ∈ x.seen.items := hx.covers.met List.mem_cons_self
    refine .bind (foldRules_returns hg hw hi hc hx hh hleh (List.Subset.refl _)) fun p hp => ?_
    obtain ⟨y, folded⟩ := p
    obtain ⟨hlevel, hsub, hfound, hflag⟩ := hp
    have hsteps (k : Heap) (hs : g.FoldStep opts h k) : ∃ s ∈ y.seen.items, s.Isomorphic k := by
      obtain ⟨nt, rule, m, hr, hm, hk⟩ := hs
      exact hfound nt rule hr m hm k hk
    cases folded with
    | true =>
      have hn : ¬ g.Normal opts h := fun hn => Bool.noConfusion (hflag.mpr ⟨rfl, hn⟩)
      exact ih ⟨hlevel.covers.settle ⟨hsteps, fun h => absurd h hn⟩, hlevel.light⟩ hlerest
    | false =>
      have hn : g.Normal opts h := (hflag.mp rfl).2
      obtain ⟨hkeep, hkept⟩ := hlevel.covers.keep (hsub hh) hn
      exact .bind_counted (ih ⟨hkeep.settle ⟨hsteps, fun _ => hkept⟩, hlevel.light⟩ hlerest)

theorem foldLevel_start {n : Nat} (hx : x.Covers g opts h₀ level) (hl : ∀ k ∈ level, k.weight < n + 1) :
    (foldLevel opts counter g { x with fresh := [] } level).Returns (Exploration.AtLevel g opts h₀ n []) := by
  refine foldLevel_returns hg hw hi hc ⟨?_, by simp⟩ fun k hk => Nat.lt_succ_iff.mp (hl k hk)
  rw [List.append_nil]
  exact ⟨hx.seen, hx.fixed, hx.start, hx.reached, hx.normal, hx.met, hx.settled⟩

theorem foldLevels_returns {n : Nat} (hx : x.Covers g opts h₀ level) (hl : ∀ k ∈ level, k.weight < n) :
    (foldLevels opts counter g n x level).Returns (fun y => y.Covers g opts h₀ []) := by
  induction n generalizing x level with
  | zero =>
    have hnil : level = [] := List.eq_nil_iff_forall_not_mem.mpr fun k hk => absurd (hl k hk) (Nat.not_lt_zero _)
    exact .pure (hnil ▸ hx)
  | succ n ih =>
    refine .bind (foldLevel_start hg hw hi hc hx hl) fun y hy => ?_
    split
    · rename_i hempty
      have hcovers := hy.covers
      rw [List.isEmpty_iff.mp hempty] at hcovers
      exact .pure hcovers
    · exact ih hy.covers hy.light

omit hg hi hc in
theorem covers_start : Exploration.Covers g opts h₀ { seen := (({} : HeapSet).insert h₀).value.2 } [h₀] := by
  rcases HeapSet.valid_empty.insert_cases hw.toSound with ⟨⟨k, hk, -⟩, -⟩ | ⟨-, t, hv, ht, hitems⟩
  · simp at hk
  · rw [hv]
    have hone : t.items = [h₀] := hitems
    refine ⟨ht, HeapSet.valid_empty, by simp [hone], fun k hk => ?_, by simp, by simp [hone], fun k hk => ?_⟩
    · rw [hone, List.mem_singleton] at hk
      exact hk ▸ .refl
    · exact .inl (hone ▸ hk)

theorem foldEverywhere_returns : (foldEverywhere opts counter g h₀).Returns
    (fun results => ∃ x, Exploration.Covers g opts h₀ x [] ∧ results = x.fixed.items) := by
  refine .bind_counted (.bind (foldLevels_returns hg hw hi hc (covers_start hw) (by simp)) fun x hx => ?_)
  exact .pure ⟨x, hx, rfl⟩

omit hg hw hi hc in
theorem canonicalize_of_canonicalForms {post : List Heap → Prop} (hf : (canonicalForms opts counter g h₀).Returns post) :
    (g.canonicalize opts h₀ counter).Returns post :=
  .bind hf fun _ hpost => .bind_counted (.bind_counted (.pure hpost))

theorem canonicalize_confluent (ho : opts.confluent = true) : (g.canonicalize opts h₀ counter).Returns
    (fun results => ∃ k, results = [k] ∧ g.FoldsTo opts h₀ k ∧ g.Normal opts k) := by
  refine canonicalize_of_canonicalForms ?_
  rw [canonicalForms, if_pos ho]
  exact .bind (foldRepeatedly_returns hg hw hi hc .refl (Nat.lt_succ_self _)) fun k hk => .pure ⟨k, rfl, hk⟩

theorem canonicalize_exhaustive (ho : opts.confluent = false) : (g.canonicalize opts h₀ counter).Returns
    (fun results => ∃ x, Exploration.Covers g opts h₀ x [] ∧ results = x.fixed.items) := by
  refine canonicalize_of_canonicalForms ?_
  rw [canonicalForms, if_neg (by simp [ho])]
  exact foldEverywhere_returns hg hw hi hc

theorem canonicalize_returns :
    (g.canonicalize opts h₀ counter).Returns (fun results => ∀ k ∈ results, g.FoldsTo opts h₀ k) := by
  cases ho : opts.confluent with
  | true =>
    refine (canonicalize_confluent hg hw hi hc ho).mono ?_
    rintro _ ⟨k, rfl, hk, -⟩
    simpa using hk
  | false =>
    refine (canonicalize_exhaustive hg hw hi hc ho).mono ?_
    rintro _ ⟨x, hx, rfl⟩ k hk
    exact hx.reached k (hx.normal k hk).1

end

end HeapAbstraction.Grammar
