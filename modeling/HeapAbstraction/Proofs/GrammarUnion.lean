import HeapAbstraction.Proofs.Deduplication
import HeapAbstraction.Proofs.FoldStep

namespace HeapAbstraction

namespace Nonterminal

variable {a b c : Nonterminal}

def Precedes (a b : Nonterminal) : Prop := a.label < b.label ∨ a.label = b.label ∧ a.rank < b.rank

def Ranked (nt : Nonterminal) : Prop := 0 ≤ nt.rank ∧ nt.rank < 0x80000000

theorem Precedes.trans (hab : a.Precedes b) (hbc : b.Precedes c) : a.Precedes c := by
  rcases hab with hab | ⟨hab, hr⟩ <;> rcases hbc with hbc | ⟨hbc, hr'⟩
  · exact .inl (List.lt_trans hab hbc)
  · exact .inl (hbc ▸ hab)
  · exact .inl (hab ▸ hbc)
  · exact .inr ⟨hab.trans hbc, Int.lt_trans hr hr'⟩

theorem not_precedes_self (a : Nonterminal) : ¬ a.Precedes a := by
  rintro (h | ⟨-, h⟩)
  · exact List.lt_irrefl _ h
  · exact Int.lt_irrefl _ h

theorem compare_cases (ha : a.Ranked) (hb : b.Ranked) :
    a.compare b < 0 ∧ a.Precedes b ∨ a.compare b = 0 ∧ a = b ∨ 0 < a.compare b ∧ b.Precedes a := by
  rw [Nonterminal.compare]
  cases ho : Bytes.order a.label b.label with
  | lt => exact .inl ⟨by simp, .inl (Bytes.order_lt_iff.mp ho)⟩
  | gt => exact .inr (.inr ⟨by simp, .inl (Bytes.order_gt_iff.mp ho)⟩)
  | eq =>
    have hlabel := Bytes.order_eq_iff.mp ho
    obtain ⟨ha₀, ha₁⟩ := ha
    obtain ⟨hb₀, hb₁⟩ := hb
    have hdiff : Int.bmod (a.rank - b.rank) 0x100000000 = a.rank - b.rank :=
      Int.bmod_eq_of_le_mul_two (by omega) (by omega)
    simp only [hdiff]
    rcases Int.lt_trichotomy a.rank b.rank with h | h | h
    · exact .inl ⟨by omega, .inr ⟨hlabel, h⟩⟩
    · refine .inr (.inl ⟨by omega, ?_⟩)
      cases a
      cases b
      simp_all
    · exact .inr (.inr ⟨by omega, .inr ⟨hlabel.symm, h⟩⟩)

end Nonterminal

namespace Grammar

variable {nt k : Nonterminal} {rule : Heap} {table : List (Nonterminal × List Heap)}

def merged (rules : List Heap) (rule : Heap) : List Heap :=
  if rules.any (fun r => r.equals rule) then rules else rules ++ [rule]

structure Ordered (table : List (Nonterminal × List Heap)) : Prop where
  sorted : (table.map Prod.fst).Pairwise Nonterminal.Precedes
  ranked : ∀ k ∈ table.map Prod.fst, k.Ranked

theorem mem_keys_insertRule : k ∈ (insertRule nt rule table).map Prod.fst ↔ k = nt ∨ k ∈ table.map Prod.fst := by
  induction table with
  | nil => simp [insertRule]
  | cons entry table ih =>
    obtain ⟨k', rules⟩ := entry
    rw [insertRule]
    split
    · rename_i hk
      simp [hk]
    · split
      · simp
      · rw [List.map_cons, List.mem_cons, ih, List.map_cons, List.mem_cons, or_left_comm]

theorem Ordered.insertRule (ho : Ordered table) (hnt : nt.Ranked) : Ordered (insertRule nt rule table) := by
  refine ⟨?_, fun k hk => ?_⟩
  · induction table with
    | nil => exact List.pairwise_singleton _ _
    | cons entry table ih =>
      obtain ⟨k, rules⟩ := entry
      obtain ⟨hfirst, hrest⟩ := List.pairwise_cons.mp ho.sorted
      have hk : k.Ranked := ho.ranked k List.mem_cons_self
      rw [Grammar.insertRule]
      split
      · exact ho.sorted
      · rename_i hne
        rcases Nonterminal.compare_cases hnt hk with ⟨hlt, hp⟩ | ⟨-, heq⟩ | ⟨hgt, hp⟩
        · rw [if_pos hlt]
          refine List.pairwise_cons.mpr ⟨fun k' hk' => ?_, ho.sorted⟩
          rcases List.mem_cons.mp hk' with rfl | hk'
          · exact hp
          · exact hp.trans (hfirst k' hk')
        · exact absurd heq.symm hne
        · rw [if_neg (by omega)]
          refine List.pairwise_cons.mpr ⟨fun k' hk' => ?_, ih ⟨hrest, fun k hk => ho.ranked k (List.mem_cons_of_mem _ hk)⟩⟩
          rcases mem_keys_insertRule.mp hk' with rfl | hk'
          · exact hp
          · exact hfirst k' hk'
  · rcases mem_keys_insertRule.mp hk with rfl | hk
    · exact hnt
    · exact ho.ranked k hk

theorem lookup_eq_none_of_precedes (hk : ∀ k ∈ table.map Prod.fst, nt.Precedes k) : table.lookup nt = none := by
  refine List.lookup_eq_none_iff.mpr fun p hp => ?_
  simp only [bne_iff_ne, ne_eq]
  intro heq
  exact Nonterminal.not_precedes_self nt (heq ▸ hk p.1 (List.mem_map_of_mem hp))

theorem lookup_insertRule (ho : Ordered table) (hnt : nt.Ranked) : (insertRule nt rule table).lookup k =
    if k = nt then some (merged ((table.lookup nt).getD []) rule) else table.lookup k := by
  induction table with
  | nil => exact lookup_cons_ite k nt [rule] []
  | cons entry table ih =>
    obtain ⟨k', rules⟩ := entry
    obtain ⟨hfirst, hrest⟩ := List.pairwise_cons.mp ho.sorted
    have hk' : k'.Ranked := ho.ranked k' List.mem_cons_self
    rw [Grammar.insertRule]
    split
    · rename_i heq
      subst heq
      by_cases hk : k = k' <;> simp [lookup_cons_ite, hk, merged]
    · rename_i hne
      rcases Nonterminal.compare_cases hnt hk' with ⟨hlt, hp⟩ | ⟨-, heq⟩ | ⟨hgt, hp⟩
      · have hnone : ((k', rules) :: table).lookup nt = none :=
          lookup_eq_none_of_precedes (List.forall_mem_cons.mpr ⟨hp, fun k hk => hp.trans (hfirst k hk)⟩)
        rw [if_pos hlt, hnone, lookup_cons_ite]
        rfl
      · exact absurd heq.symm hne
      · have hlookup := ih ⟨hrest, fun k hk => ho.ranked k (List.mem_cons_of_mem _ hk)⟩
        rw [if_neg (by omega), lookup_cons_ite, hlookup, lookup_cons_ite, lookup_cons_ite, if_neg (Ne.symm hne)]
        by_cases hk : k = k' <;> simp [hk, hne]

end Grammar

def rightHandSides (added : List (Nonterminal × Heap)) (nt : Nonterminal) : List Heap :=
  (added.filter (fun p => p.1 = nt)).map Prod.snd

namespace Grammar

variable {g : Grammar} {nt : Nonterminal} {rule : Heap} {added : List (Nonterminal × Heap)}

structure Unites (g : Grammar) (added : List (Nonterminal × Heap)) : Prop where
  ordered : Ordered g.rules
  wellFormed : ∀ p ∈ added, p.2.WellFormed
  nonterminals : ∀ nt, nt ∈ g.nonterminals ↔ ∃ rule, (nt, rule) ∈ added
  rulesFor : ∀ nt, g.rulesFor nt = HeapSet.firsts (rightHandSides added nt)

theorem Unites.wellFormed_rightHandSides (hu : g.Unites added) (nt : Nonterminal) :
    ∀ h ∈ rightHandSides added nt, h.WellFormed := by
  intro h hm
  obtain ⟨p, hp, rfl⟩ := List.mem_map.mp hm
  exact hu.wellFormed p (List.mem_of_mem_filter hp)

theorem unites_nil : Unites {} [] := ⟨⟨.nil, by simp⟩, by simp, by simp [nonterminals], fun _ => rfl⟩

theorem merged_firsts {offered : List Heap} (hw : ∀ h ∈ offered, h.WellFormed) (hr : rule.WellFormed) :
    merged (HeapSet.firsts offered) rule = HeapSet.firsts (offered ++ [rule]) := by
  have hc := HeapSet.collects_offerAll hw
  rw [HeapSet.firsts_concat, merged, ← hc.items]
  by_cases hex : ∃ k ∈ (HeapSet.offerAll offered).2.items, k.Isomorphic rule
  · have hold : ¬ HeapSet.IsNew offered rule offered.length := by
      rw [hc.isNew_iff]
      rintro hnone
      obtain ⟨k, hk, hiso⟩ := hex
      exact hnone k hk hiso
    rw [if_pos ((hc.any_equals hr).mpr hex), if_neg hold, List.append_nil]
  · have hnew : HeapSet.IsNew offered rule offered.length := hc.isNew_iff.mpr fun k hk hiso => hex ⟨k, hk, hiso⟩
    rw [if_neg (mt (hc.any_equals hr).mp hex), if_pos hnew]

theorem Unites.addRule (hu : g.Unites added) (hr : IsRule nt rule) (h32 : nt.rank < 0x80000000) :
    ∃ g', g.addRule nt rule = .ok g' ∧ g'.Unites (added ++ [(nt, rule)]) := by
  have hnt : nt.Ranked := ⟨by rw [hr.rank]; omega, h32⟩
  have hwell : ∀ p ∈ added ++ [(nt, rule)], p.2.WellFormed := by
    rw [List.forall_mem_append]
    exact ⟨hu.wellFormed, by simpa using hr.wellFormed⟩
  refine ⟨⟨insertRule nt rule g.rules⟩, ?_, hu.ordered.insertRule hnt, hwell, fun k => ?_, fun k => ?_⟩
  · rw [Grammar.addRule, hr.check]
    rfl
  · rw [Grammar.nonterminals, mem_keys_insertRule, ← Grammar.nonterminals, hu.nonterminals]
    simp [or_comm, exists_or]
  · have hold := hu.rulesFor k
    rw [Grammar.rulesFor] at hold ⊢
    rw [lookup_insertRule hu.ordered hnt]
    by_cases hk : k = nt
    · subst hk
      have hsides : rightHandSides (added ++ [(k, rule)]) k = rightHandSides added k ++ [rule] := by
        simp [rightHandSides]
      rw [if_pos rfl, hold, Option.getD_some, hsides, merged_firsts (hu.wellFormed_rightHandSides k) hr.wellFormed]
    · have hsides : rightHandSides (added ++ [(nt, rule)]) k = rightHandSides added k := by
        simp [rightHandSides, Ne.symm hk]
      rw [if_neg hk, hold, hsides]

def listing (g : Grammar) : List (Nonterminal × Heap) :=
  g.nonterminals.flatMap (fun nt => (g.rulesFor nt).map (fun rule => (nt, rule)))

theorem Ordered.lookup {table : List (Nonterminal × List Heap)} (ho : Ordered table) {p : Nonterminal × List Heap}
    (hp : p ∈ table) : table.lookup p.1 = some p.2 := by
  induction table with
  | nil => cases hp
  | cons entry table ih =>
    obtain ⟨hfirst, hrest⟩ := List.pairwise_cons.mp ho.sorted
    rw [lookup_cons_ite]
    rcases List.mem_cons.mp hp with rfl | hp
    · exact if_pos rfl
    · have hne : p.1 ≠ entry.1 := by
        intro heq
        exact Nonterminal.not_precedes_self _ (heq ▸ hfirst p.1 (List.mem_map_of_mem hp))
      rw [if_neg hne]
      exact ih ⟨hrest, fun k hk => ho.ranked k (List.mem_cons_of_mem _ hk)⟩ hp

theorem Ordered.allRules_eq (ho : Ordered g.rules) : g.allRules = g.listing := by
  rw [allRules, listing, Grammar.nonterminals, List.flatMap_map]
  refine List.flatMap_congr fun p hp => ?_
  rw [Grammar.rulesFor, ho.lookup hp]
  rfl

theorem ruleCount_eq (g : Grammar) : g.ruleCount = g.allRules.length := by
  rw [ruleCount, allRules, List.length_flatMap, List.sum]
  simp

end Grammar

namespace GrammarBuilder

inductive Call where
  | addRule (nt : Nonterminal) (rule : Heap)
  | addRules (nt : Nonterminal) (rules : List Heap)

namespace Call

def added : Call → List (Nonterminal × Heap)
  | .addRule nt rule => [(nt, rule)]
  | .addRules nt rules => rules.map (fun rule => (nt, rule))

def perform (b : GrammarBuilder) : Call → Except RuleError GrammarBuilder
  | .addRule nt rule => b.addRule nt rule
  | .addRules nt rules =>
      match b.addRules nt rules with
      | (b, .ok _) => .ok b
      | (_, .error e) => .error e

end Call

def performAll (calls : List Call) (b : GrammarBuilder) : Except RuleError GrammarBuilder :=
  calls.foldlM (fun b c => c.perform b) b

variable {g : Grammar} {added : List (Nonterminal × Heap)}

theorem addRule_unites (hu : g.Unites added) {nt : Nonterminal} {rule : Heap}
    (hr : IsRule nt rule ∧ nt.rank < 0x80000000) :
    ∃ g', GrammarBuilder.addRule ⟨some g⟩ nt rule = .ok ⟨some g'⟩ ∧ g'.Unites (added ++ [(nt, rule)]) := by
  obtain ⟨g', hg', hu'⟩ := hu.addRule hr.1 hr.2
  exact ⟨g', congrArg (fun r => r >>= fun g => pure (⟨some g⟩ : GrammarBuilder)) hg', hu'⟩

theorem addRules_unites (hu : g.Unites added) {nt : Nonterminal} {rules : List Heap}
    (hr : ∀ rule ∈ rules, IsRule nt rule ∧ nt.rank < 0x80000000) :
    ∃ g', GrammarBuilder.addRules ⟨some g⟩ nt rules = (⟨some g'⟩, .ok ()) ∧
      g'.Unites (added ++ rules.map (fun rule => (nt, rule))) := by
  induction rules generalizing g added with
  | nil => exact ⟨g, rfl, by simpa using hu⟩
  | cons rule rules ih =>
    obtain ⟨hrule, hrules⟩ := List.forall_mem_cons.mp hr
    obtain ⟨g₁, hg₁, hu₁⟩ := addRule_unites hu hrule
    obtain ⟨g', hg', hu'⟩ := ih hu₁ hrules
    refine ⟨g', ?_, by simpa using hu'⟩
    rw [GrammarBuilder.addRules, hg₁]
    exact hg'

theorem perform_unites (hu : g.Unites added) {c : Call}
    (hr : ∀ p ∈ c.added, IsRule p.1 p.2 ∧ p.1.rank < 0x80000000) :
    ∃ g', c.perform ⟨some g⟩ = .ok ⟨some g'⟩ ∧ g'.Unites (added ++ c.added) := by
  cases c with
  | addRule nt rule => exact addRule_unites hu (hr (nt, rule) List.mem_cons_self)
  | addRules nt rules =>
    obtain ⟨g', hg', hu'⟩ := addRules_unites hu fun rule hm => hr (nt, rule) (List.mem_map_of_mem hm)
    refine ⟨g', ?_, hu'⟩
    rw [Call.perform, hg']

theorem performAll_unites (hu : g.Unites added) {calls : List Call}
    (hr : ∀ p ∈ calls.flatMap Call.added, IsRule p.1 p.2 ∧ p.1.rank < 0x80000000) :
    ∃ g', performAll calls ⟨some g⟩ = .ok ⟨some g'⟩ ∧ g'.Unites (added ++ calls.flatMap Call.added) := by
  induction calls generalizing g added with
  | nil => exact ⟨g, rfl, by simpa using hu⟩
  | cons c calls ih =>
    rw [List.flatMap_cons, List.forall_mem_append] at hr
    obtain ⟨g₁, hg₁, hu₁⟩ := perform_unites hu hr.1
    obtain ⟨g', hg', hu'⟩ := ih hu₁ hr.2
    refine ⟨g', ?_, by simpa using hu'⟩
    rw [performAll, List.foldlM_cons, hg₁]
    exact hg'

theorem build_union {calls : List Call}
    (hr : ∀ p ∈ calls.flatMap Call.added, IsRule p.1 p.2 ∧ p.1.rank < 0x80000000) :
    ∃ b g, performAll calls {} = .ok b ∧ b.build = .ok (⟨none⟩, g) ∧
      g.nonterminals.Pairwise Nonterminal.Precedes ∧
      (∀ nt, nt ∈ g.nonterminals ↔ ∃ rule, (nt, rule) ∈ calls.flatMap Call.added) ∧
      (∀ nt, g.rulesFor nt = HeapSet.firsts (rightHandSides (calls.flatMap Call.added) nt) ∧
        (g.rulesFor nt).Pairwise (fun a b => ¬ a.Isomorphic b) ∧
        ∀ rule ∈ rightHandSides (calls.flatMap Call.added) nt,
          ∃! i : Fin (g.rulesFor nt).length, ((g.rulesFor nt).get i).Isomorphic rule) ∧
      g.ruleCount = g.listing.length ∧
      ∀ {σ : Type} (v : Visitor σ (Nonterminal × Heap)) (memory : σ),
        (g.forEachRule v memory).1 = g.listing.take (((v.answers memory g.listing).takeWhile id).length + 1) ∧
          ((∀ m p, (v m p).1 = true) → (g.forEachRule v memory).1 = g.listing) := by
  obtain ⟨g, hg, hu⟩ := performAll_unites Grammar.unites_nil hr
  rw [List.nil_append] at hu
  refine ⟨_, g, hg, rfl, hu.ordered.sorted, hu.nonterminals, fun nt => ⟨hu.rulesFor nt, ?_⟩, ?_, fun v memory => ?_⟩
  · have hw := hu.wellFormed_rightHandSides nt
    have hc := HeapSet.collects_offerAll hw
    rw [hu.rulesFor, ← hc.items]
    refine ⟨hc.represent.distinct, fun rule hm => ?_⟩
    obtain ⟨k, hk, hiso⟩ := hc.represent.covers rule hm
    exact hc.valid.existsUnique_get hk hiso (hw rule hm).toSound
  · rw [Grammar.ruleCount_eq, hu.ordered.allRules_eq]
  · rw [Grammar.forEachRule, hu.ordered.allRules_eq]
    exact ⟨v.fst_visit memory _, fun hv => Visitor.fst_visit_of_forall hv memory _⟩

def mixedCalls : List Call := [
  .addRules ⟨"L", 2⟩ [.path, .turnedPath], .addRule ⟨"K", 1⟩ .knot, .addRule ⟨"L", 1⟩ .loops, .addRules ⟨"L", 2⟩ [.path],
  .addRules ⟨"K", 1⟩ [.turnedLoops, .loops]]

def mixedGrammar : Grammar :=
  ⟨[(⟨"K", 1⟩, [.knot, .turnedLoops]), (⟨"L", 1⟩, [.loops]), (⟨"L", 2⟩, [.path])]⟩

theorem build_union_mixed : performAll mixedCalls {} = .ok ⟨some mixedGrammar⟩ ∧
    mixedGrammar.nonterminals.Pairwise Nonterminal.Precedes ∧
      HeapSet.firsts [.knot, .turnedLoops, .loops] = [.knot, .turnedLoops] ∧
        (mixedGrammar.forEachRule (fun n _ => (n + 1 < 2, n + 1)) 0).1 = mixedGrammar.listing.take 2 := by
  have hr : ∀ p ∈ mixedCalls.flatMap Call.added, IsRule p.1 p.2 ∧ p.1.rank < 0x80000000 := by
    have hknot : IsRule ⟨"K", 1⟩ .knot := ⟨Heap.wellFormed_knot, by decide, rfl⟩
    have hpath : IsRule ⟨"L", 2⟩ .path := ⟨Heap.wellFormed_path, by decide, rfl⟩
    have hturned : IsRule ⟨"L", 2⟩ .turnedPath := ⟨Heap.wellFormed_turnedPath, by decide, rfl⟩
    have hloops (label : Bytes) : IsRule ⟨label, 1⟩ .loops := ⟨Heap.wellFormed_loops, by decide, rfl⟩
    have hturnedLoops : IsRule ⟨"K", 1⟩ .turnedLoops := ⟨Heap.wellFormed_turnedLoops, by decide, rfl⟩
    simp [mixedCalls, Call.added, hknot, hpath, hturned, hloops, hturnedLoops]
  have hrun : performAll mixedCalls {} = .ok ⟨some mixedGrammar⟩ := rfl
  obtain ⟨b, g, hb, hg, hsorted, -, hrules, -, hvisit⟩ := build_union hr
  cases hrun.symm.trans hb
  cases hg
  exact ⟨hrun, hsorted, (hrules ⟨"K", 1⟩).1.symm, (hvisit _ 0).1⟩

end GrammarBuilder

end HeapAbstraction
