import HeapAbstraction.Proofs.Matching
import HeapAbstraction.Proofs.HeapFile
import HeapAbstraction.Grammar.Canonical

namespace HeapAbstraction

structure IsRule (nt : Nonterminal) (rule : Heap) : Prop where
  wellFormed : rule.WellFormed
  idle : rule.Idle
  check : checkRule nt rule = .ok ()

theorem IsRule.rank {nt : Nonterminal} {rule : Heap} (hr : IsRule nt rule) : nt.rank = rule.externalCount := by
  have hc := hr.check
  rw [checkRule] at hc
  split at hc
  · simp at hc
  · rename_i h
    exact (not_not.mp h).symm

namespace Grammar

variable {g g' : Grammar} {nt : Nonterminal} {rule : Heap}

def Sound (g : Grammar) : Prop := ∀ nt rule, (nt, rule) ∈ g.allRules → IsRule nt rule

theorem mem_allRules : (nt, rule) ∈ g.allRules ↔ ∃ rules, (nt, rules) ∈ g.rules ∧ rule ∈ rules := by
  simp only [allRules, List.mem_flatMap, List.mem_map, Prod.mk.injEq, Prod.exists]
  constructor
  · rintro ⟨k, rules, hk, r, hr, rfl, rfl⟩
    exact ⟨rules, hk, hr⟩
  · rintro ⟨rules, hk, hr⟩
    exact ⟨nt, rules, hk, rule, hr, rfl, rfl⟩

theorem mem_insertRule {k : Nonterminal} {r : Heap} {table : List (Nonterminal × List Heap)}
    (hm : ∃ rs, (k, rs) ∈ insertRule nt rule table ∧ r ∈ rs) :
    (k = nt ∧ r = rule) ∨ ∃ rs, (k, rs) ∈ table ∧ r ∈ rs := by
  induction table with
  | nil =>
    simp only [insertRule, List.mem_singleton] at hm
    obtain ⟨rs, hk, hr⟩ := hm
    cases hk
    exact .inl ⟨rfl, List.mem_singleton.mp hr⟩
  | cons entry table ih =>
    obtain ⟨k', rules⟩ := entry
    obtain ⟨rs, hk, hr⟩ := hm
    rw [insertRule] at hk
    split at hk
    · rename_i hnt
      rcases List.mem_cons.mp hk with hk | hk
      · cases hk
        split at hr
        · exact .inr ⟨rules, List.mem_cons_self, hr⟩
        · rcases List.mem_append.mp hr with hr | hr
          · exact .inr ⟨rules, List.mem_cons_self, hr⟩
          · exact .inl ⟨hnt, List.mem_singleton.mp hr⟩
      · exact .inr ⟨rs, List.mem_cons_of_mem _ hk, hr⟩
    · split at hk
      · rcases List.mem_cons.mp hk with hk | hk
        · cases hk
          exact .inl ⟨rfl, List.mem_singleton.mp hr⟩
        · exact .inr ⟨rs, hk, hr⟩
      · rcases List.mem_cons.mp hk with hk | hk
        · cases hk
          exact .inr ⟨rules, List.mem_cons_self, hr⟩
        · rcases ih ⟨rs, hk, hr⟩ with h | ⟨rs', hk', hr'⟩
          · exact .inl h
          · exact .inr ⟨rs', List.mem_cons_of_mem _ hk', hr'⟩

theorem sound_empty : ({} : Grammar).Sound := by
  intro nt rule h
  simp [allRules] at h

theorem Sound.addRule (hg : g.Sound) (hw : rule.WellFormed) (hi : rule.Idle) (ha : g.addRule nt rule = .ok g') :
    g'.Sound := by
  obtain ⟨_, hc, ha⟩ := bind_ok ha
  cases ha
  intro k r hm
  rcases mem_insertRule (mem_allRules.mp hm) with ⟨rfl, rfl⟩ | h
  · exact ⟨hw, hi, hc⟩
  · exact hg k r (mem_allRules.mpr h)

theorem Sound.addRules {rules : List (Nonterminal × Heap)} (hg : g.Sound)
    (hr : ∀ r ∈ rules, r.2.WellFormed ∧ r.2.Idle) (ha : g.addRules rules = .ok g') : g'.Sound := by
  induction rules generalizing g with
  | nil =>
    simp only [Grammar.addRules, Except.ok.injEq] at ha
    exact ha ▸ hg
  | cons r rules ih =>
    obtain ⟨g₁, h1, h2⟩ := bind_ok ha
    obtain ⟨⟨hw, hi⟩, hr⟩ := List.forall_mem_cons.mp hr
    exact ih (hg.addRule hw hi h1) hr h2

end Grammar

namespace GrammarBuilder

variable {b : GrammarBuilder} {nt : Nonterminal}

inductive Reachable : GrammarBuilder → Prop
  | new : Reachable {}
  | addRules {b : GrammarBuilder} (hb : Reachable b) (nt : Nonterminal) {rules : List Heap}
      (hr : ∀ rule ∈ rules, rule.WellFormed ∧ rule.Idle) : Reachable (b.addRules nt rules).1
  | build {b b' : GrammarBuilder} {g : Grammar} (hb : Reachable b) (hg : b.build = .ok (b', g)) : Reachable b'

def Sound (b : GrammarBuilder) : Prop := ∀ g, b.grammar = some g → g.Sound

theorem Sound.addRules (hb : b.Sound) {rules : List Heap} (hr : ∀ rule ∈ rules, rule.WellFormed ∧ rule.Idle) :
    (b.addRules nt rules).1.Sound := by
  induction rules generalizing b with
  | nil => exact hb
  | cons rule rules ih =>
    obtain ⟨⟨hw, hi⟩, hr⟩ := List.forall_mem_cons.mp hr
    rw [GrammarBuilder.addRules]
    split
    · rename_i b₁ ha
      refine ih (fun g hg => ?_) hr
      rw [GrammarBuilder.addRule] at ha
      split at ha
      · simp at ha
      · rename_i g₀ hg₀
        obtain ⟨g₁, h1, ha⟩ := bind_ok ha
        cases ha
        cases hg
        exact (hb g₀ hg₀).addRule hw hi h1
    · exact hb

theorem build_ok {b' : GrammarBuilder} {g : Grammar} (hg : b.build = .ok (b', g)) :
    b.grammar = some g ∧ b'.grammar = none := by
  rw [build] at hg
  split at hg
  · simp at hg
  · rename_i g' hb
    cases hg
    exact ⟨hb, rfl⟩

theorem Reachable.sound (hb : b.Reachable) : b.Sound := by
  induction hb with
  | new =>
    intro g hg
    cases hg
    exact Grammar.sound_empty
  | addRules _ nt hr ih => exact ih.addRules hr
  | build _ hg _ =>
    intro g' hg'
    rw [(build_ok hg).2] at hg'
    simp at hg'

end GrammarBuilder

namespace Grammar

inductive Produced : Grammar → Prop
  | build {b b' : GrammarBuilder} {g : Grammar} (hb : b.Reachable) (hg : b.build = .ok (b', g)) : Produced g
  | ofDefinitions {defs : HeapFile.Definitions} {g : Grammar}
      (hd : ∀ r ∈ defs.rules, r.body.heap.WellFormed ∧ r.body.heap.Idle) (hg : ofDefinitions defs = .ok g) : Produced g

theorem Produced.sound {g : Grammar} (hg : g.Produced) : g.Sound := by
  cases hg with
  | build hb hg => exact hb.sound _ (GrammarBuilder.build_ok hg).1
  | ofDefinitions hd hg =>
    refine sound_empty.addRules (fun r hr => ?_) hg
    obtain ⟨d, hmem, rfl⟩ := List.mem_map.mp hr
    exact hd d hmem

end Grammar

namespace Task

variable {ε α β : Type}

def Returns (x : Task ε α) (post : α → Prop) : Prop := ∃ a, x.result = .ok a ∧ post a

theorem Returns.pure {post : α → Prop} {a : α} (ha : post a) : Returns (Pure.pure a : Task ε α) post := ⟨a, rfl, ha⟩

theorem Returns.mono {x : Task ε α} {post post' : α → Prop} (hx : Returns x post) (h : ∀ a, post a → post' a) :
    Returns x post' := by
  obtain ⟨a, ha, hpost⟩ := hx
  exact ⟨a, ha, h a hpost⟩

theorem Returns.ofExcept {x : Except ε α} {post : α → Prop} {a : α} (hx : x = .ok a) (ha : post a) :
    Returns (Task.ofExcept x) post :=
  ⟨a, hx, ha⟩

theorem Returns.bind {x : Task ε α} {f : α → Task ε β} {mid : α → Prop} {post : β → Prop} (hx : Returns x mid)
    (hf : ∀ a, mid a → Returns (f a) post) : Returns (x >>= f) post := by
  obtain ⟨a, ha, hmid⟩ := hx
  obtain ⟨b, hb, hpost⟩ := hf a hmid
  refine ⟨b, ?_, hpost⟩
  have hrun : (x >>= f).result = (ExceptT.bindCont f x.result).value := rfl
  rw [hrun, ha]
  exact hb

theorem Returns.bind_counted {x : Counted α} {f : α → Task ε β} {post : β → Prop} (hf : Returns (f x.value) post) :
    Returns (Task.counted x >>= f) post := by
  obtain ⟨b, hb, hpost⟩ := hf
  exact ⟨b, hb, hpost⟩

end Task

namespace Heap

variable {h h' rule : Heap} {nt : Nonterminal} {f : Nat → Nat}

theorem WellFormed.foldRule (hw : h.WellFormed) (hi : h.Idle) (hr : IsRule nt rule)
    (hf : rule.graph.IsEmbedding h.graph f) :
    ∃ h', h.foldRule nt rule ((List.range rule.graph.size).map f) = .ok h' ∧ h'.WellFormed ∧ h'.Idle ∧
      HeapView.Folds rule h.view (h.imageId f) nt h'.view := by
  obtain ⟨m, folded, hm, hfold, hfolds, hw'⟩ := hw.fold_isEmbedding hi hr.wellFormed hr.idle hr.rank hf
  obtain ⟨h', hb, -⟩ := hw'.toSound.build
  obtain ⟨hwb, hib, hv⟩ := hw'.build hb
  refine ⟨h', ?_, hwb, hib, hv ▸ hfolds⟩
  simp only [Heap.foldRule, hm, hfold, bind, Except.bind]
  exact hb

end Heap

namespace Grammar

variable {g : Grammar} {opts : Options} {h h' : Heap} {nt : Nonterminal} {rule : Heap} {m : Morphism}

def FoldStep (g : Grammar) (opts : Options) (h h' : Heap) : Prop :=
  ∃ nt rule m, (nt, rule) ∈ g.allRules ∧
    m ∈ Graph.distantEmbeddings opts.minDistance opts.isConstant false rule.graph h.graph ∧
      h.foldRule nt rule m = .ok h'

theorem exists_isEmbedding_of_mem_distantEmbeddings (hg : g.Sound) (hr : (nt, rule) ∈ g.allRules) (hw : h.WellFormed)
    (hm : m ∈ Graph.distantEmbeddings opts.minDistance opts.isConstant false rule.graph h.graph) :
    ∃ f, rule.graph.IsEmbedding h.graph f ∧ m = (List.range rule.graph.size).map f :=
  Graph.exists_isEmbedding_of_mem_morphisms (hg nt rule hr).wellFormed.toSound.graph hw.toSound.graph
    (List.subset_append_left _ _) hm

theorem FoldStep.folds (hs : g.FoldStep opts h h') (hg : g.Sound) (hw : h.WellFormed) (hi : h.Idle) :
    ∃ nt rule f, (nt, rule) ∈ g.allRules ∧ rule.graph.IsEmbedding h.graph f ∧
      HeapView.Folds rule h.view (h.imageId f) nt h'.view ∧ h'.WellFormed ∧ h'.Idle := by
  obtain ⟨nt, rule, m, hr, hm, hfold⟩ := hs
  obtain ⟨f, hf, rfl⟩ := exists_isEmbedding_of_mem_distantEmbeddings hg hr hw hm
  obtain ⟨k, hk, hkw, hki, hkf⟩ := hw.foldRule hi (hg nt rule hr) hf
  rw [hk] at hfold
  cases hfold
  exact ⟨nt, rule, f, hr, hf, hkf, hkw, hki⟩

def FoldsTo (g : Grammar) (opts : Options) : Heap → Heap → Prop := Relation.ReflTransGen (g.FoldStep opts)

theorem FoldsTo.wellFormed (hs : g.FoldsTo opts h h') (hg : g.Sound) (hw : h.WellFormed) (hi : h.Idle) :
    h'.WellFormed ∧ h'.Idle := by
  induction hs with
  | refl => exact ⟨hw, hi⟩
  | tail _ hstep ih =>
    obtain ⟨-, -, -, -, -, -, hw', hi'⟩ := hstep.folds hg ih.1 ih.2
    exact ⟨hw', hi'⟩

end Grammar

end HeapAbstraction
