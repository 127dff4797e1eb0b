import HeapAbstraction.Proofs.Edit
import HeapAbstraction.Proofs.Feasibility

namespace HeapAbstraction

namespace Heap

variable {h : Heap} {u v : Nat} {l : EdgeLabel} {lab : Label}

theorem graph_size (h : Heap) : h.graph.size = h.elements.length := by simp [graph]

theorem lt_graph_size (hl : h.labelAt v = some lab) : v < h.graph.size := by
  rw [graph_size]
  exact lt_of_labelAt hl

theorem graph_label (hl : h.labelAt v = some lab) : h.graph.label v = lab := by
  obtain ⟨e, he, -, rfl⟩ := labelAt_eq_some.mp hl
  simp [graph, he]

theorem graph_ordinal (h : Heap) (v : Nat) : h.graph.ordinal v = h.ordinalAt v := by simp [graph, ordinalAt]

theorem graph_isExternal (h : Heap) (v : Nat) : h.graph.isExternal v = (h.ordinalAt v).isSome := by
  rw [Graph.isExternal, graph_ordinal]

theorem mem_graph_successors : v ∈ h.graph.successors u ↔ h.Joined u v := by
  simp only [graph, List.getElem?_toArray, Joined, out]
  cases h.elements[u]? with
  | none => simp
  | some e => exact Element.mem_successors

theorem graph_predecessors (h : Heap) (v : Nat) : h.graph.predecessors v = h.into v := by simp [graph, into]

theorem mem_graph_arcLabels (hs : h.Sound) : l ∈ h.graph.arcLabels u v ↔ h.Linked u l v := by
  have htidy := hs.tidy u
  simp only [graph, List.getElem?_toArray, Linked, out] at htidy ⊢
  cases he : h.elements[u]? with
  | none => simp
  | some e => exact Element.mem_labelsTo (by simpa [he] using htidy)

theorem Sound.graph (hs : h.Sound) : h.graph.WellFormed where
  successors_lt v w hw := by
    rw [mem_graph_successors] at hw
    obtain ⟨lab, hl⟩ := hs.labelAt_of_joined hw
    rw [graph_size]
    exact ⟨lt_of_labelAt hl, hs.lt_of_joined hw⟩
  mem_predecessors v w := by rw [graph_predecessors, hs.mem_into, mem_graph_successors]
  successors_nodup v := by
    have htidy := (hs.tidy v).targets
    simp only [Heap.graph, List.getElem?_toArray, out] at htidy ⊢
    cases he : h.elements[v]? with
    | none => simp
    | some e => simpa [he, Element.successors] using htidy
  predecessors_nodup v := by
    rw [graph_predecessors]
    exact hs.into_nodup v
  labels_nodup v w := by
    have htidy := hs.tidy v
    simp only [Heap.graph, List.getElem?_toArray, out] at htidy ⊢
    cases he : h.elements[v]? with
    | none => simp
    | some e => exact Element.labelsTo_nodup (by simpa [he] using htidy)

theorem Idle.labelAt (hi : h.Idle) (hv : v < h.elements.length) : h.labelAt v = some (h.graph.label v) := by
  have he := List.getElem?_eq_getElem hv
  have hl := labelAt_of_live he (hi _ (List.getElem_mem hv))
  rw [graph_label hl, hl]

end Heap

end HeapAbstraction
