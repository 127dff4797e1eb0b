import HeapAbstraction.Proofs.Matching
import HeapAbstraction.Proofs.Decoding
import HeapAbstraction.Proofs.HeapFile
import HeapAbstraction.Heap.Draft

namespace HeapAbstraction

namespace Draft

def perform (d : Draft) (e : ElementaryEdit) : Draft × Except HeapError Unit :=
  d.edit (fun h => do return (← h.orAbort (e.apply h), ()))

-- what a builder leaves: a new heap, or one that was read or decoded, after any number of calls over any number of
-- sessions. A fold takes a matching that a search for embeddings found in the heap as it is
inductive Reachable : Draft → Prop
  | empty : Reachable ⟨.empty, .idle⟩
  | read {source : Bytes} {parsed : HeapFile.HeapDef} (hr : HeapFile.readHeap source = .ok parsed) :
      Reachable ⟨parsed.heap, .idle⟩
  | decode {bs : Bytes} {h : Heap} (hr : Heap.decode bs = .ok h) : Reachable ⟨h, .idle⟩
  | begin {d : Draft} (hd : Reachable d) : Reachable d.begin
  | build {d : Draft} (hd : Reachable d) : Reachable d.build.1
  | perform {d : Draft} (hd : Reachable d) (e : ElementaryEdit) : Reachable (d.perform e).1
  | replaceEdge {d d' replacement : Draft} {edge : Int} (hd : Reachable d) (hw : replacement.heap.WellFormed)
      (hi : replacement.heap.Idle) (hr : d.replaceEdge edge replacement = (d', .ok ())) : Reachable d'
  | fold {d host pattern : Draft} {predicates : List Predicate} {first : Bool} {found : List Morphism}
      {morphism : Morphism} {matching : Matching} (hd : Reachable d) (hh : Reachable host)
      (hw : pattern.heap.WellFormed) (hi : pattern.heap.Idle) (hp : Predicate.embedding ⊆ predicates)
      (hf : Draft.morphisms predicates first pattern host = .ok found) (hm : morphism ∈ found)
      (hmatch : Matching.ofMorphism pattern.heap host.heap morphism = .ok matching)
      (hsame : d.heap.view = host.heap.view) (nt : Nonterminal) : Reachable (d.fold matching nt).1

structure Kept (d : Draft) : Prop where
  wellFormed : d.heap.WellFormed
  idle : d.phase ≠ .editing → d.heap.Idle

variable {d d' : Draft}

theorem edit_of_ne {α : Type} (hp : d.phase ≠ .built) (f : Heap → Except Aborted (Heap × α)) :
    d.edit f = match f d.heap with
      | .ok (h, a) => (⟨h, .editing⟩, .ok a)
      | .error e => (⟨e.heap, .editing⟩, .error e.error) := by
  rw [edit]
  split
  · exact absurd ‹_› hp
  · rfl

theorem edit_of_built {α : Type} (hp : d.phase = .built) (f : Heap → Except Aborted (Heap × α)) :
    d.edit f = (d, .error .builderInvalid) := by rw [edit, hp]

theorem Kept.edit {α : Type} (hk : d.Kept) {f : Heap → Except Aborted (Heap × α)}
    (hok : ∀ h a, f d.heap = .ok (h, a) → h.WellFormed) (herr : ∀ e, f d.heap = .error e → e.heap.WellFormed) :
    (d.edit f).1.Kept := by
  rw [Draft.edit]
  split
  · exact hk
  · split
    · rename_i h a hf
      exact ⟨hok h a hf, by simp⟩
    · rename_i e hf
      exact ⟨herr e hf, by simp⟩

theorem Kept.begin (hk : d.Kept) : d.begin.Kept := ⟨hk.wellFormed, by simp [Draft.begin]⟩

theorem Kept.build (hk : d.Kept) : d.build.1.Kept := by
  rw [Draft.build]
  split
  · exact hk
  · obtain ⟨h, hb, -⟩ := hk.wellFormed.toSound.build
    obtain ⟨hw, hi, -⟩ := hk.wellFormed.build hb
    simp only [hb]
    exact ⟨hw, fun _ => hi⟩

theorem Kept.perform (hk : d.Kept) (e : ElementaryEdit) : (d.perform e).1.Kept := by
  refine hk.edit (fun h a hf => ?_) fun err hf => ?_
  · obtain ⟨h₁, ha, hf⟩ := bind_ok hf
    cases hf
    exact hk.wellFormed.apply (Heap.orAbort_ok ha)
  · cases ha : e.apply d.heap with
    | ok h => simp [ha, Heap.orAbort, bind, Except.bind, pure, Except.pure] at hf
    | error e =>
      simp only [ha, Heap.orAbort, bind, Except.bind, Except.error.injEq] at hf
      rw [← hf]
      exact hk.wellFormed

theorem settled_ok {h : Heap} (hs : d.settled = .ok h) : d.phase ≠ .editing ∧ d.heap = h := by
  rw [settled] at hs
  split at hs
  · simp at hs
  · rename_i ha
    exact ⟨by simpa [isActive] using ha, Except.ok.inj hs⟩

theorem Kept.replaceEdge (hk : d.Kept) {replacement : Draft} {edge : Int} (hw : replacement.heap.WellFormed)
    (hi : replacement.heap.Idle) (hr : d.replaceEdge edge replacement = (d', .ok ())) : d'.Kept := by
  rw [Draft.replaceEdge, Draft.edit] at hr
  split at hr
  · simp at hr
  · split at hr
    · rename_i h a hf
      cases hr
      obtain ⟨r, hset, hf⟩ := bind_ok hf
      obtain ⟨h₁, hg, hf⟩ := bind_ok hf
      cases hf
      obtain ⟨-, rfl⟩ := settled_ok (Heap.orAbort_ok hset)
      obtain ⟨-, -, -, -, -, -, -, hw'⟩ := hk.wellFormed.glue hw hi hg
      exact ⟨hw', by simp⟩
    · simp at hr

theorem embeds_of_mem_morphisms {host pattern : Draft} {predicates : List Predicate} {first : Bool}
    {found : List Morphism} {morphism : Morphism} (hh : host.Kept) (hw : pattern.heap.WellFormed)
    (hp : Predicate.embedding ⊆ predicates) (hf : Draft.morphisms predicates first pattern host = .ok found)
    (hm : morphism ∈ found) : ∃ f, pattern.heap.graph.IsEmbedding host.heap.graph f ∧
      morphism = (List.range pattern.heap.graph.size).map f ∧
        HeapView.Embeds pattern.heap host.heap.view (host.heap.imageId f) := by
  obtain ⟨p, hps, hf⟩ := bind_ok hf
  obtain ⟨t, hts, hf⟩ := bind_ok hf
  obtain ⟨-, rfl⟩ := settled_ok hps
  obtain ⟨hidle, rfl⟩ := settled_ok hts
  split at hf
  · rename_i hits hg
    cases hf
    obtain ⟨f, hemb, hmor⟩ := Graph.exists_isEmbedding_of_mem_guardedMorphisms hw.toSound.graph
      hh.wellFormed.toSound.graph hp hg hm
    exact ⟨f, hemb, hmor, Heap.embeds_of_isEmbedding hemb hw.toSound hh.wellFormed.toSound (hh.idle hidle)⟩
  · simp at hf

theorem Kept.fold (hk : d.Kept) {pattern : Heap} {X : Nat → Nat} (hw : pattern.WellFormed) (hi : pattern.Idle)
    (hX : HeapView.Embeds pattern d.heap.view X) (nt : Nonterminal) :
    (d.fold ⟨pattern, (List.range pattern.elements.length).map (fun p => (X p : Int))⟩ nt).1.Kept := by
  by_cases hrank : nt.rank = pattern.externalCount
  · obtain ⟨h', hfold, -, hw'⟩ := hk.wellFormed.fold hw hi (hX.placed hw.toSound) (by simp)
      (fun p hp => show ((List.range pattern.elements.length).map (fun p => (X p : Int)))[p]? = _ by simp [hp]) hrank
    refine hk.edit (fun h a hf => ?_) fun e hf => ?_
    · rw [hfold] at hf
      cases hf
      exact hw'
    · rw [hfold] at hf
      cases hf
  · refine hk.edit (fun h a hf => ?_) fun e hf => ?_
    · simp [Heap.fold, hrank, bind, Except.bind] at hf
    · simp only [Heap.fold, hrank, ne_eq, not_false_eq_true, if_true, bind, Except.bind, Except.error.injEq] at hf
      rw [← hf]
      exact hk.wellFormed

theorem Reachable.kept (hd : d.Reachable) : d.Kept := by
  induction hd with
  | empty => exact ⟨Heap.wellFormed_empty, fun _ => by simp [Heap.Idle, Heap.empty]⟩
  | read hr =>
    obtain ⟨hw, hi⟩ := (HeapFile.built_readHeap hr).wellFormed
    exact ⟨hw, fun _ => hi⟩
  | decode hr =>
    obtain ⟨hw, hi⟩ := Heap.wellFormed_of_decode hr
    exact ⟨hw, fun _ => hi⟩
  | begin _ ih => exact ih.begin
  | build _ ih => exact ih.build
  | perform _ e ih => exact ih.perform e
  | replaceEdge _ hw hi hr ih => exact ih.replaceEdge hw hi hr
  | fold _ _ hw hi hp hf hm hmatch hsame nt ih ihh =>
    obtain ⟨f, hemb, rfl, hX⟩ := embeds_of_mem_morphisms ihh hw hp hf hm
    rw [Heap.ofMorphism_eq hemb] at hmatch
    cases hmatch
    exact ih.fold hw hi (hsame ▸ hX) nt

end Draft

end HeapAbstraction
