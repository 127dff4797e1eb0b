import HeapAbstraction.Proofs.Distance
import HeapAbstraction.Proofs.GuardedSearch
import HeapAbstraction.Proofs.Representation

namespace HeapAbstraction

namespace Heap

structure Grows (S : Nat → Prop) (h h' : Heap) : Prop where
  length : h.elements.length ≤ h'.elements.length
  idOf : ∀ v < h.elements.length, h'.idOf v = h.idOf v
  labelAt : ∀ v < h.elements.length, h'.labelAt v = h.labelAt v
  live : ∀ v < h'.elements.length, h.elements.length ≤ v → ∃ lab, h'.labelAt v = some lab
  ordinalAt : ∀ v, S v → h'.ordinalAt v = h.ordinalAt v
  linked : ∀ u l v, h.Linked u l v → h'.Linked u l v
  still : ∀ u l v, h'.Linked u l v → h.Linked u l v ∨ (¬ S u ∧ ¬ S v)

variable {S : Nat → Prop} {h h' k : Heap} {u v t : Nat} {l : EdgeLabel} {lab : Label}

theorem Grows.refl (h : Heap) : h.Grows S h :=
  ⟨le_rfl, fun _ _ => rfl, fun _ _ => rfl, fun _ hv hv' => absurd hv hv'.not_gt, fun _ _ => rfl, fun _ _ _ hl => hl,
    fun _ _ _ hl => .inl hl⟩

theorem Grows.trans (hg : h.Grows S h') (hg' : h'.Grows S k) : h.Grows S k where
  length := hg.length.trans hg'.length
  idOf v hv := (hg'.idOf v (hv.trans_le hg.length)).trans (hg.idOf v hv)
  labelAt v hv := (hg'.labelAt v (hv.trans_le hg.length)).trans (hg.labelAt v hv)
  live v hv hv' := by
    by_cases hlt : v < h'.elements.length
    · rw [hg'.labelAt v hlt]
      exact hg.live v hlt hv'
    · exact hg'.live v hv (Nat.le_of_not_lt hlt)
  ordinalAt v hv := (hg'.ordinalAt v hv).trans (hg.ordinalAt v hv)
  linked u l v hl := hg'.linked u l v (hg.linked u l v hl)
  still u l v hl := by
    rcases hg'.still u l v hl with hl | hout
    · exact hg.still u l v hl
    · exact .inr hout

theorem Grows.isNode (hg : h.Grows S h') (hv : v < h.elements.length) : h'.IsNode v ↔ h.IsNode v := by
  rw [IsNode, IsNode, hg.labelAt v hv]

theorem Grows.idle (hg : h.Grows S h') (hi : h.Idle) : h'.Idle := by
  intro e he
  obtain ⟨v, hv⟩ := List.mem_iff_getElem?.mp he
  have hlt := (List.getElem?_eq_some_iff.mp hv).1
  obtain ⟨lab, hl⟩ : ∃ lab, h'.labelAt v = some lab := by
    by_cases hold : v < h.elements.length
    · exact ⟨_, (hg.labelAt v hold).trans (hi.labelAt hold)⟩
    · exact hg.live v hlt (Nat.le_of_not_lt hold)
  obtain ⟨e', he', hr, -⟩ := labelAt_eq_some.mp hl
  rw [Option.some.inj (hv.symm.trans he'), hr]

section Primitive

end Primitive

end Heap

namespace ElementaryEdit

def arguments : ElementaryEdit → List Int
  | .addNodes .. => []
  | .removeIsolatedNode node | .removeSelector node _ | .replaceSelector node _ _ => [node]
  | .addSelector source _ target => [source, target]
  | .setExternal node | .unsetExternal node => [node]
  | .addVariable _ target => [target]
  | .removeVariable edge | .removeNonterminal edge | .relabel edge _ => [edge]
  | .addNonterminal _ tentacles => tentacles

end ElementaryEdit

namespace Heap.WellFormed

variable {S : Nat → Prop} {h h' : Heap} {e : ElementaryEdit}

end Heap.WellFormed

namespace Draft

variable {S : Nat → Prop} {d d' : Draft} {e : ElementaryEdit} {edits : List ElementaryEdit}

def performAll (d : Draft) : List ElementaryEdit → Except HeapError Draft
  | [] => .ok d
  | e :: edits => match d.perform e with
    | (d', .ok ()) => d'.performAll edits
    | (_, .error err) => .error err

theorem perform_ok (he : d.perform e = (d', .ok ())) : e.apply d.heap = .ok d'.heap ∧ d'.phase = .editing := by
  rw [perform, edit] at he
  split at he
  · simp at he
  · split at he
    · rename_i h a hf
      obtain ⟨h₁, ha, hf⟩ := bind_ok hf
      cases hf
      cases he
      exact ⟨Heap.orAbort_ok ha, rfl⟩
    · simp at he

end Draft

namespace Heap.Grows

variable {S : Nat → Prop} {h h' : Heap} {P : Graph} {f : Nat → Nat} {u v : Nat}

theorem joined (hg : h.Grows S h') (hs : h.Sound) (hs' : h'.Sound) (hj : h.Joined u v) : h'.Joined u v := by
  obtain ⟨l, hl⟩ := hs.joined_iff.mp hj
  exact hs'.joined_iff.mpr ⟨l, hg.linked u l v hl⟩

end Heap.Grows

namespace Graph

variable {P T : Graph}

end Graph

namespace Draft

end Draft

end HeapAbstraction
