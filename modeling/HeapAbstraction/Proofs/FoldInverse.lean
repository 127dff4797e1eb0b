import HeapAbstraction.Proofs.Representation
import HeapAbstraction.Proofs.Unfolding

namespace HeapAbstraction.Draft

variable {d pattern host : Draft} {h : Heap}

theorem edit_ok {α : Type} {f : Heap → Except Aborted (Heap × α)} {a : α} (hp : d.phase ≠ .built)
    (hf : f d.heap = .ok (h, a)) : d.edit f = (⟨h, .editing⟩, .ok a) := by rw [edit_of_ne hp, hf]

theorem build_ok (hp : d.phase ≠ .built) (hb : d.heap.build = .ok h) : d.build = (⟨h, .built⟩, .ok ()) := by
  rw [build]
  split
  · exact absurd (by assumption) hp
  · rw [hb]

theorem foldAt_ok {P : Heap} {m : Morphism} {matching : Matching} {nt : Nonterminal} (hp : d.phase ≠ .built)
    (hm : Matching.ofMorphism P d.heap m = .ok matching) (hf : d.heap.fold matching nt = .ok h) :
    d.foldAt P m nt = (⟨h, .editing⟩, .ok ()) := by
  rw [foldAt, hm]
  refine edit_ok hp ?_
  rw [hf]
  rfl

theorem replaceEdge_ok {edge : Int} (hp : d.phase ≠ .built) (hs : pattern.settled = .ok pattern.heap)
    (hg : d.heap.glue edge pattern.heap = .ok h) : d.replaceEdge edge pattern = (⟨h, .editing⟩, .ok ()) := by
  refine edit_ok hp ?_
  rw [hs]
  change (d.heap.glue edge pattern.heap >>= fun g => pure (g, ())) = _
  rw [hg]
  rfl

theorem settled_of_morphisms {predicates : List Predicate} {first : Bool} {found : List Morphism}
    (hf : morphisms predicates first pattern host = .ok found) : pattern.settled = .ok pattern.heap := by
  obtain ⟨p, hp, -⟩ := bind_ok hf
  rw [hp, (settled_ok hp).2]

theorem not_absorbed_of_morphism {P H : Heap} {f : Nat → Nat} {v x : Nat} (hH : H.Sound) (hf : P.graph.IsEmbedding H.graph f)
    (hv : H.idOf v = some x)
    (ho : ∀ p, ((List.range P.graph.size).map f)[p]? = some v → (P.ordinalAt p).isSome = true) :
    ¬ HeapView.Absorbed P (H.imageId f) x := by
  rintro ⟨p, lab, hl, hnone, rfl⟩
  have hpv := hH.id_inj (f p) v _ (Heap.idOf_imageId hf (Heap.lt_of_labelAt hl)) hv
  have hout := ho p (by rw [List.getElem?_map, List.getElem?_range (Heap.lt_graph_size hl), Option.map_some, hpv])
  simp [hnone] at hout

theorem replaceEdge_foldAt (host pattern : Draft) (nt : Nonterminal) {predicates : List Predicate} {first : Bool}
    {found : List Morphism} {m : Morphism} (hw : host.heap.WellFormed) (hi : host.heap.Idle)
    (hP : pattern.heap.WellFormed) (hPi : pattern.heap.Idle) (hp : Predicate.embedding ⊆ predicates)
    (hf : morphisms predicates first pattern host = .ok found) (hm : m ∈ found)
    (hk : nt.rank = pattern.heap.externalCount) :
    ∃ folded short unfolded restored : Draft, host.begin.foldAt pattern.heap m nt = (folded, .ok ()) ∧
      folded.build = (short, .ok ()) ∧ short.heap.nonterminalOf host.heap.nextId = .ok nt ∧
      short.begin.replaceEdge host.heap.nextId pattern = (unfolded, .ok ()) ∧ unfolded.build = (restored, .ok ()) ∧
      restored.heap.WellFormed ∧ restored.heap.Idle ∧
      ∃ f, host.heap.graph.IsIsomorphism restored.heap.graph f ∧ ∀ v x, host.heap.idOf v = some x →
        (∀ p, m[p]? = some v → (pattern.heap.ordinalAt p).isSome = true) → restored.heap.idOf (f v) = some x := by
  have hset := settled_of_morphisms hf
  obtain ⟨e, hemb, rfl, hX⟩ := embeds_of_mem_morphisms ⟨hw, fun _ => hi⟩ hP hp hf hm
  obtain ⟨matching, folded, hmatch, hfold, hfolds, hfw⟩ := hw.fold_isEmbedding hi hP hPi hk hemb
  obtain ⟨short, hb, -⟩ := hfw.toSound.build
  obtain ⟨hsw, -, hview⟩ := hfw.build hb
  rw [← hview] at hfolds
  obtain ⟨unfolded, ψ, hnt, hglue, hgw, hψ, hfix⟩ := Heap.exists_unfold hw hP hPi hX hfolds hk hsw (.refl _)
  obtain ⟨restored, hb', -⟩ := hgw.toSound.build
  obtain ⟨hrw, hri, hview'⟩ := hgw.build hb'
  rw [← hview'] at hψ
  obtain ⟨f, hiso, hids⟩ := Heap.exists_isIsomorphism hw.toSound hi hrw.toSound hri hψ
  refine ⟨⟨folded, .editing⟩, ⟨short, .built⟩, ⟨unfolded, .editing⟩, ⟨restored, .built⟩,
    foldAt_ok (by simp [begin]) hmatch hfold, build_ok (by simp) hb, hnt, replaceEdge_ok (by simp [begin]) hset hglue,
    build_ok (by simp) hb', hrw, hri, f, hiso, fun v x hv ho => ?_⟩
  have hlt : v < host.heap.elements.length := by
    obtain ⟨e, he, -⟩ := Option.map_eq_some_iff.mp hv
    exact (List.getElem?_eq_some_iff.mp he).1
  rw [hids v x _ hv (hi.labelAt hlt), hfix x (not_absorbed_of_morphism hw.toSound hemb hv ho)]
  rfl

theorem replaceEdge_foldAt_chain : Heap.chain.WellFormed ∧ Heap.path.WellFormed ∧
    morphisms Predicate.embedding false ⟨Heap.path, .idle⟩ ⟨Heap.chain, .idle⟩ = .ok [[0, 1, 2], [1, 2, 3]] ∧
    ∃ folded short unfolded restored : Draft, foldAt ⟨Heap.chain, .editing⟩ Heap.path [0, 1, 2] ⟨"L", 2⟩ = (folded, .ok ()) ∧
      folded.build = (short, .ok ()) ∧ short.begin.replaceEdge 4 ⟨Heap.path, .idle⟩ = (unfolded, .ok ()) ∧
      unfolded.build = (restored, .ok ()) ∧ restored.heap.nodes = [0, 2, 3, 5] ∧
      ∃ f, Heap.chain.graph.IsIsomorphism restored.heap.graph f ∧ restored.heap.idOf (f 0) = some 0 ∧
        restored.heap.idOf (f 2) = some 2 ∧ restored.heap.idOf (f 3) = some 3 := by
  have hfound : morphisms Predicate.embedding false ⟨Heap.path, .idle⟩ ⟨Heap.chain, .idle⟩ =
      .ok [[0, 1, 2], [1, 2, 3]] := by decide
  obtain ⟨folded, short, unfolded, restored, hfold, hbuild, -, hglue, hend, -, -, f, hf, hfix⟩ :=
    replaceEdge_foldAt ⟨Heap.chain, .idle⟩ ⟨Heap.path, .idle⟩ ⟨"L", 2⟩ Heap.wellFormed_chain (by decide)
      Heap.wellFormed_path (by decide) (List.Subset.refl _) hfound List.mem_cons_self rfl
  have houter (v : Nat) (hv : v ≠ 1) (p : Nat) (hp : ([0, 1, 2] : List Nat)[p]? = some v) :
      (Heap.path.ordinalAt p).isSome = true := by
    rcases p with _ | _ | _ | p
    · rfl
    · exact absurd (Option.some.inj hp).symm hv
    · rfl
    · cases hp
  refine ⟨Heap.wellFormed_chain, Heap.wellFormed_path, hfound, folded, short, unfolded, restored, hfold, hbuild, hglue, hend,
    ?_, f, hf, hfix 0 0 rfl (houter 0 (by decide)), hfix 2 2 rfl (houter 2 (by decide)),
    hfix 3 3 rfl (houter 3 (by decide))⟩
  cases hfold
  cases hbuild
  cases hglue
  cases hend
  rfl

end HeapAbstraction.Draft
