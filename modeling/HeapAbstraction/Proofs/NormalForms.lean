import HeapAbstraction.Proofs.Concretization
import HeapAbstraction.Proofs.GuardedSearch

namespace HeapAbstraction.Grammar

variable {g : Grammar} {opts : Options} {counter : LabelCounter} {h₀ h k N : Heap} {x : Exploration}

def DistantFold (g : Grammar) (opts : Options) (h k : Heap) : Prop :=
  ∃ nt rule f, (nt, rule) ∈ g.allRules ∧ rule.graph.IsEmbedding h.graph f ∧
    rule.graph.KeepsDistance h.graph opts.minDistance opts.isConstant f ∧
      h.foldRule nt rule ((List.range rule.graph.size).map f) = .ok k

theorem FoldStep.distantFold (hs : g.FoldStep opts h k) (hg : g.Sound) (hw : h.WellFormed) :
    g.DistantFold opts h k := by
  obtain ⟨nt, rule, m, hr, hm, hk⟩ := hs
  obtain ⟨f, hf, hd, -, rfl⟩ :=
    (Graph.mem_distantEmbeddings (hg nt rule hr).wellFormed.toSound.graph hw.toSound.graph).mp hm
  exact ⟨nt, rule, f, hr, hf, hd, hk⟩

theorem DistantFold.foldStep (hs : g.DistantFold opts h k) (hg : g.Sound) (hw : h.WellFormed)
    (hfit : h.graph.SumsFit) : g.FoldStep opts h k := by
  obtain ⟨nt, rule, f, hr, hf, hd, hk⟩ := hs
  have hP := (hg nt rule hr).wellFormed.toSound.graph
  have hm := (Graph.mem_distantEmbeddings hP hw.toSound.graph).mpr ⟨f, hf, hd, hf.passes hP hw.toSound.graph hfit, rfl⟩
  exact ⟨nt, rule, _, hr, hm, hk⟩

theorem Normal.not_keepsDistance (hn : g.Normal opts h) (hg : g.Sound) (hw : h.WellFormed) {nt : Nonterminal}
    {rule : Heap} (hr : (nt, rule) ∈ g.allRules) {f : Nat → Nat} (hf : rule.graph.IsEmbedding h.graph f)
    (hpasses : rule.graph.Passes h.graph f) :
    ¬ rule.graph.KeepsDistance h.graph opts.minDistance opts.isConstant f := by
  intro hd
  have hm := (Graph.mem_distantEmbeddings (hg nt rule hr).wellFormed.toSound.graph hw.toSound.graph).mpr
    ⟨f, hf, hd, hpasses, rfl⟩
  rw [hn nt rule hr] at hm
  simp at hm

section

variable (hg : g.Sound) (hw : h₀.WellFormed) (hi : h₀.Idle)

include hg hw hi

theorem Exploration.Covers.exists_seen (hx : x.Covers g opts h₀ []) (hN : g.FoldsTo opts h₀ N) :
    ∃ s ∈ x.seen.items, s.Isomorphic N := by
  induction hN with
  | refl => exact ⟨h₀, hx.start, .refl h₀⟩
  | @tail M N hM hstep ih =>
    obtain ⟨s, hs, hsM⟩ := ih
    obtain ⟨hsw, hsi⟩ := hx.wellFormed hg hw hi hs
    obtain ⟨hMw, hMi⟩ := FoldsTo.wellFormed hM hg hw hi
    -- the step is followed in the isomorphic copy that was met
    obtain ⟨s', hstep', hN⟩ := hstep.transport hg hMw hMi hsw hsi (hsM.symm hMw.toSound)
    obtain ⟨t, ht, hts⟩ := ((hx.settled s hs).resolve_left List.not_mem_nil).1 s' hstep'
    have hs' : s'.Sound := (FoldsTo.wellFormed ((hx.reached s hs).tail hstep') hg hw hi).1.toSound
    exact ⟨t, ht, hts.trans (hx.seen.sound t ht) (hN.symm hs')⟩

theorem Exploration.Covers.exists_fixed (hx : x.Covers g opts h₀ []) (hN : g.FoldsTo opts h₀ N) (hn : g.Normal opts N) :
    ∃ c ∈ x.fixed.items, c.Isomorphic N := by
  obtain ⟨s, hs, hsN⟩ := hx.exists_seen hg hw hi hN
  obtain ⟨hsw, hsi⟩ := hx.wellFormed hg hw hi hs
  obtain ⟨hNw, hNi⟩ := hN.wellFormed hg hw hi
  have hsn := hn.transport hg hNw hNi hsw hsi (hsN.symm hNw.toSound)
  obtain ⟨c, hc, hcs⟩ := ((hx.settled s hs).resolve_left List.not_mem_nil).2 hsn
  exact ⟨c, hc, hcs.trans (hx.fixed.sound c hc) hsN⟩

end

theorem canonicalize_normalForms (hg : g.Sound) (hw : h.WellFormed) (hi : h.Idle) (hc : g.CountedBy counter)
    (ho : opts.confluent = false) :
    (∀ H F, g.FoldsTo opts h H → (g.FoldStep opts H F → g.DistantFold opts H F) ∧
        (H.graph.SumsFit → (g.FoldStep opts H F ↔ g.DistantFold opts H F))) ∧
      ∃ results, (g.canonicalize opts h counter).result = .ok results ∧
        results.Pairwise (fun a b => ¬ a.Isomorphic b) ∧
        (∀ C ∈ results, g.FoldsTo opts h C ∧ ∀ F, ¬ g.FoldStep opts C F) ∧
          ∀ N, g.FoldsTo opts h N → (∀ F, ¬ g.FoldStep opts N F) → ∃! C, C ∈ results ∧ N.Isomorphic C := by
  refine ⟨fun H F hH => ?_, ?_⟩
  · have hHw := (hH.wellFormed hg hw hi).1
    exact ⟨fun hs => hs.distantFold hg hHw, fun hfit => ⟨fun hs => hs.distantFold hg hHw,
      fun hs => hs.foldStep hg hHw hfit⟩⟩
  have hreturns : (g.canonicalize opts h counter).Returns _ := canonicalize_exhaustive hg hw hi hc ho
  obtain ⟨_, hresult, x, hx, rfl⟩ := hreturns
  refine ⟨_, hresult, hx.fixed.distinct, fun C hC => ?_, fun N hN hn => ?_⟩
  · obtain ⟨hseen, hnormal⟩ := hx.normal C hC
    obtain ⟨hCw, hCi⟩ := hx.wellFormed hg hw hi hseen
    exact ⟨hx.reached C hseen, (normal_iff hg hCw hCi).mp hnormal⟩
  · obtain ⟨hNw, hNi⟩ := hN.wellFormed hg hw hi
    obtain ⟨c, hc, hcN⟩ := hx.exists_fixed hg hw hi hN ((normal_iff hg hNw hNi).mpr hn)
    refine ⟨c, ⟨hc, hcN.symm hNw.toSound⟩, ?_⟩
    rintro c' ⟨hc', hNc'⟩
    exact (hx.fixed.eq_of_isomorphic hc hc' (hcN.trans (hx.fixed.sound c hc) hNc')).symm

def abstractTail : Heap where
  elements := [
    { label := .node "N", id := 0, arcs := [⟨1, [.selector "next"]⟩] },
    { label := .node "N", id := 1, preds := [0, 2] },
    { label := .nonterminal ⟨"L", 2⟩, id := 4, arcs := [⟨1, [.tentacle 0]⟩, ⟨3, [.tentacle 1]⟩] },
    { label := .node "N", id := 3, preds := [2] }]
  nextId := 5

theorem canonicalForms_chain :
    (paths.canonicalize { confluent := false } Heap.chain).result = .ok [abstractChain, abstractTail] := by
  decide +kernel

theorem canonicalize_normalForms_chain :
    (paths.canonicalize { confluent := false } Heap.chain).result = .ok [abstractChain, abstractTail] ∧
      ¬ abstractChain.Isomorphic abstractTail ∧ paths.FoldsTo { confluent := false } Heap.chain abstractTail ∧
        ∀ F, ¬ paths.FoldStep { confluent := false } abstractTail F := by
  obtain ⟨-, results, hresult, hdistinct, hforms, -⟩ := canonicalize_normalForms produced_paths.sound
    Heap.wellFormed_chain (by decide) countedBy_paths (show ({ confluent := false } : Options).confluent = false from rfl)
  rw [canonicalForms_chain] at hresult
  cases hresult
  obtain ⟨hfolds, hnormal⟩ := hforms abstractTail (by simp)
  exact ⟨canonicalForms_chain, by simpa using hdistinct, hfolds, hnormal⟩

theorem canonicalize_modes_agree (hg : g.Sound) (hw : h.WellFormed) (hi : h.Idle) (hc : g.CountedBy counter)
    (opts : Options) :
    ∃ C results, (g.canonicalize { opts with confluent := true } h counter).result = .ok [C] ∧
      (g.canonicalize { opts with confluent := false } h counter).result = .ok results ∧
        (∀ nt rule, (nt, rule) ∈ g.allRules →
          Graph.distantEmbeddings opts.minDistance opts.isConstant false rule.graph C.graph = [] ∧
          (C.graph.SumsFit → ∀ f, rule.graph.IsEmbedding C.graph f →
            ¬ rule.graph.KeepsDistance C.graph opts.minDistance opts.isConstant f)) ∧
            ∃ R ∈ results, C.Isomorphic R := by
  have hfirst : (g.canonicalize { opts with confluent := true } h counter).Returns _ :=
    canonicalize_confluent hg hw hi hc rfl
  have hall : (g.canonicalize { opts with confluent := false } h counter).Returns _ :=
    canonicalize_exhaustive hg hw hi hc rfl
  obtain ⟨_, hone, C, rfl, hC, hn⟩ := hfirst
  obtain ⟨_, hresult, x, hx, rfl⟩ := hall
  have hCw := (hC.wellFormed hg hw hi).1
  obtain ⟨R, hR, hRC⟩ := hx.exists_fixed hg hw hi hC hn
  refine ⟨C, _, hone, hresult, fun nt rule hr => ⟨hn nt rule hr, fun hfit f hf => ?_⟩, R, hR, hRC.symm hCw.toSound⟩
  have hP := (hg nt rule hr).wellFormed.toSound.graph
  exact hn.not_keepsDistance hg hCw hr hf (hf.passes hP hCw.toSound.graph hfit)

theorem canonicalize_modes_agree_chain : (paths.canonicalize { confluent := true } Heap.chain).result = .ok [abstractChain] ∧
    (∀ f, Heap.path.graph.IsEmbedding abstractChain.graph f →
      ¬ Heap.path.graph.KeepsDistance abstractChain.graph 0 (Options.isConstant {}) f) ∧
        ∃ R ∈ [abstractChain, abstractTail], abstractChain.Isomorphic R := by
  have hfirst : (paths.canonicalize { confluent := true } Heap.chain).result = .ok [abstractChain] := rfl
  obtain ⟨C, results, hone, hall, hnormal, hiso⟩ :=
    canonicalize_modes_agree produced_paths.sound Heap.wellFormed_chain (by decide) countedBy_paths {}
  rw [hfirst] at hone
  rw [canonicalForms_chain] at hall
  cases hone
  cases hall
  exact ⟨hfirst, (hnormal ⟨"L", 2⟩ Heap.path List.mem_cons_self).2 (by decide), hiso⟩

theorem Exploration.Covers.exists_fixed_isomorphic {h' : Heap} {y : Exploration} (hx : x.Covers g opts h [])
    (hy : y.Covers g opts h' []) (hg : g.Sound) (hw : h.WellFormed) (hi : h.Idle) (hw' : h'.WellFormed) (hi' : h'.Idle)
    (hh : h.Isomorphic h') : ∀ a ∈ x.fixed.items, ∃ b ∈ y.fixed.items, a.Isomorphic b := by
  intro a ha
  obtain ⟨hseen, hnormal⟩ := hx.normal a ha
  obtain ⟨haw, hai⟩ := hx.wellFormed hg hw hi hseen
  -- the folds that lead to `a` have copies that start at the other heap
  obtain ⟨N, hN, haN⟩ := (hx.reached a hseen).transport hg hw hi hw' hi' hh
  obtain ⟨hNw, hNi⟩ := hN.wellFormed hg hw' hi'
  have hNn := hnormal.transport hg haw hai hNw hNi haN
  obtain ⟨b, hb, hbN⟩ := hy.exists_fixed hg hw' hi' hN hNn
  exact ⟨b, hb, haN.trans haw.toSound (hbN.symm hNw.toSound)⟩

theorem canonicalize_isomorphic {h' : Heap} (hg : g.Sound) (hw : h.WellFormed) (hi : h.Idle) (hw' : h'.WellFormed)
    (hi' : h'.Idle) (hh : h.Isomorphic h') (hc : g.CountedBy counter) (ho : opts.confluent = false) :
    ∃ results results', (g.canonicalize opts h counter).result = .ok results ∧
      (g.canonicalize opts h' counter).result = .ok results' ∧
      ∃ σ : Fin results.length ≃ Fin results'.length, ∀ i, (results.get i).Isomorphic (results'.get (σ i)) := by
  have hreturns : (g.canonicalize opts h counter).Returns _ := canonicalize_exhaustive hg hw hi hc ho
  have hreturns' : (g.canonicalize opts h' counter).Returns _ := canonicalize_exhaustive hg hw' hi' hc ho
  obtain ⟨_, hresult, x, hx, rfl⟩ := hreturns
  obtain ⟨_, hresult', y, hy, rfl⟩ := hreturns'
  have hxy := hx.exists_fixed_isomorphic hy hg hw hi hw' hi' hh
  have hyx := hy.exists_fixed_isomorphic hx hg hw' hi' hw hi (hh.symm hw'.toSound)
  exact ⟨_, _, hresult, hresult', hx.fixed.exists_equiv hy.fixed hxy hyx⟩

def turnedChain : Heap where
  elements := [
    { label := .node "N", id := 0, arcs := [⟨2, [.selector "next"]⟩], preds := [3] },
    { label := .node "N", id := 1, preds := [2] },
    { label := .node "N", id := 2, arcs := [⟨1, [.selector "next"]⟩], preds := [0] },
    { label := .node "N", id := 3, arcs := [⟨0, [.selector "next"]⟩] }]
  nextId := 4

theorem wellFormed_turnedChain : turnedChain.WellFormed := by
  have h1 := Heap.wellFormed_empty.addNodes (show Heap.empty.addNodes "N" 4 = .ok (_, _) from rfl)
  have h2 := h1.addSelector (show Heap.addSelector _ 0 "next" 2 = .ok _ from rfl)
  have h3 := h2.addSelector (show Heap.addSelector _ 2 "next" 1 = .ok _ from rfl)
  exact h3.addSelector (show Heap.addSelector _ 3 "next" 0 = .ok turnedChain from rfl)

def turnedForms : List Heap := [
  { elements := [
      { label := .node "N", id := 0, preds := [3, 2] },
      { label := .node "N", id := 1, preds := [2] },
      { label := .nonterminal ⟨"L", 2⟩, id := 4, arcs := [⟨0, [.tentacle 0]⟩, ⟨1, [.tentacle 1]⟩] },
      { label := .node "N", id := 3, arcs := [⟨0, [.selector "next"]⟩] }]
    nextId := 5 },
  { elements := [
      { label := .nonterminal ⟨"L", 2⟩, id := 4, arcs := [⟨3, [.tentacle 0]⟩, ⟨2, [.tentacle 1]⟩] },
      { label := .node "N", id := 1, preds := [2] },
      { label := .node "N", id := 2, arcs := [⟨1, [.selector "next"]⟩], preds := [0] },
      { label := .node "N", id := 3, preds := [0] }]
    nextId := 5 }]

theorem canonicalize_isomorphic_chain : Heap.chain.Isomorphic turnedChain ∧
    (paths.canonicalize { confluent := false } Heap.chain).result = .ok [abstractChain, abstractTail] ∧
      (paths.canonicalize { confluent := false } turnedChain).result = .ok turnedForms ∧
        ∃ σ : Fin 2 ≃ Fin 2, ∀ i, ([abstractChain, abstractTail].get i).Isomorphic (turnedForms.get (σ i)) := by
  have hforms : (paths.canonicalize { confluent := false } turnedChain).result = .ok turnedForms := by decide +kernel
  have hiso : Heap.chain.Isomorphic turnedChain :=
    (Heap.equals_iff Heap.wellFormed_chain.toSound wellFormed_turnedChain.toSound).mp (by decide)
  obtain ⟨results, results', hresult, hresult', hpairs⟩ := canonicalize_isomorphic produced_paths.sound
    Heap.wellFormed_chain (by decide) wellFormed_turnedChain (by decide) hiso countedBy_paths
    (show ({ confluent := false } : Options).confluent = false from rfl)
  rw [canonicalForms_chain] at hresult
  rw [hforms] at hresult'
  cases hresult
  cases hresult'
  exact ⟨hiso, canonicalForms_chain, hforms, hpairs⟩

end HeapAbstraction.Grammar
