import HeapAbstraction.Proofs.FoldSearch

namespace HeapAbstraction

namespace Grammar

variable {g : Grammar} {opts : Options} {counter : LabelCounter} {h h' K : Heap} {φ : Nat → Nat}

def Concretizes (g : Grammar) (h h' : Heap) : Prop :=
  ∃ edge nt rule glued, (nt, rule) ∈ g.allRules ∧ h.nonterminalOf edge = .ok nt ∧ h.glue edge rule = .ok glued ∧
    glued.build = .ok h'

theorem FoldStep.exists_concretizes (hs : g.FoldStep opts h h') (hg : g.Sound) (hw : h.WellFormed) (hi : h.Idle)
    (hK : K.WellFormed) (hφ : HeapView.Iso h'.view K.view φ) :
    ∃ K' ψ, g.Concretizes K K' ∧ K'.WellFormed ∧ K'.Idle ∧ HeapView.Iso h.view K'.view ψ := by
  obtain ⟨nt, rule, f, hr, hf, hfolds, -, -⟩ := hs.folds hg hw hi
  have hrule := hg nt rule hr
  have hX := Heap.embeds_of_isEmbedding hf hrule.wellFormed.toSound hw.toSound hi
  obtain ⟨glued, ψ, hedge, hglue, hwg, hψ, -⟩ :=
    Heap.exists_unfold hw hrule.wellFormed hrule.idle hX hfolds hrule.rank hK hφ
  obtain ⟨K', hb, -⟩ := hwg.toSound.build
  obtain ⟨hw', hi', hv⟩ := hwg.build hb
  exact ⟨K', ψ, ⟨_, nt, rule, glued, hr, hedge, hglue, hb⟩, hw', hi', hv ▸ hψ⟩

theorem FoldsTo.exists_concretizes (hs : g.FoldsTo opts h h') (hg : g.Sound) (hw : h.WellFormed) (hi : h.Idle) :
    ∃ K ψ, Relation.ReflTransGen g.Concretizes h' K ∧ K.WellFormed ∧ K.Idle ∧ HeapView.Iso h.view K.view ψ := by
  -- the last fold is undone first
  induction hs using Relation.ReflTransGen.head_induction_on with
  | refl => exact ⟨h', id, .refl, hw, hi, .refl _⟩
  | head hstep hrest ih =>
    obtain ⟨-, -, -, -, -, -, hw₁, hi₁⟩ := hstep.folds hg hw hi
    obtain ⟨K, φ, hsteps, hKw, hKi, hφ⟩ := ih hw₁ hi₁
    obtain ⟨K', ψ, hlast, hw', hi', hψ⟩ := hstep.exists_concretizes hg hw hi hKw hφ
    exact ⟨K', ψ, hsteps.tail hlast, hw', hi', hψ⟩

theorem canonicalize_sound (hg : g.Produced) (hw : h.WellFormed) (hi : h.Idle) (hc : g.CountedBy counter)
    (opts : Options) : ∃ results, (g.canonicalize opts h counter).result = .ok results ∧
      ∀ C ∈ results, ∃ last, Relation.ReflTransGen g.Concretizes C last ∧ last.Isomorphic h := by
  have hreturns : (g.canonicalize opts h counter).Returns _ := canonicalize_returns hg.sound hw hi hc
  obtain ⟨results, hresult, hforms⟩ := hreturns
  refine ⟨results, hresult, fun C hC => ?_⟩
  obtain ⟨last, ψ, hsteps, hlw, hli, hψ⟩ := (hforms C hC).exists_concretizes hg.sound hw hi
  have hiso := Heap.isomorphic_of_iso hw.toSound hi hlw.toSound hli hψ
  exact ⟨last, hsteps, hiso.symm hlw.toSound⟩

def paths : Grammar := ⟨[(⟨"L", 2⟩, [Heap.path])]⟩

theorem produced_paths : paths.Produced := by
  have hrules : ∀ rule ∈ [Heap.path], rule.WellFormed ∧ rule.Idle := by
    intro rule hrule
    rw [List.mem_singleton.mp hrule]
    exact ⟨Heap.wellFormed_path, by decide⟩
  have hb := GrammarBuilder.Reachable.new.addRules ⟨"L", 2⟩ hrules
  exact .build hb (show GrammarBuilder.build _ = .ok (⟨none⟩, paths) from rfl)

theorem countedBy_paths : paths.CountedBy .text := by
  intro nt rule hr
  obtain ⟨rfl, -⟩ := Prod.mk.inj (List.mem_singleton.mp hr)
  rfl

def abstractChain : Heap where
  elements := [
    { label := .node "N", id := 0, preds := [1] },
    { label := .nonterminal ⟨"L", 2⟩, id := 4, arcs := [⟨0, [.tentacle 0]⟩, ⟨2, [.tentacle 1]⟩] },
    { label := .node "N", id := 2, arcs := [⟨3, [.selector "next"]⟩], preds := [1] },
    { label := .node "N", id := 3, preds := [2] }]
  nextId := 5

theorem canonicalize_sound_chain : (paths.canonicalize {} Heap.chain).result = .ok [abstractChain] ∧
    ∃ last, Relation.ReflTransGen paths.Concretizes abstractChain last ∧ last.Isomorphic Heap.chain := by
  have hforms : (paths.canonicalize {} Heap.chain).result = .ok [abstractChain] := rfl
  obtain ⟨results, hresult, hall⟩ := 
    canonicalize_sound produced_paths Heap.wellFormed_chain (by decide) countedBy_paths {}
  rw [hforms] at hresult
  cases hresult
  exact ⟨hforms, hall abstractChain List.mem_cons_self⟩

end Grammar

end HeapAbstraction
