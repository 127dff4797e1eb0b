import HeapAbstraction.Proofs.HeapState
import HeapAbstraction.Proofs.Unfolding

namespace HeapAbstraction

namespace HeapState

structure Renumbers (φ : Nat → Nat) (A B : HeapState) : Prop where
  inj : ∀ x y, A.kind? x ≠ none → A.kind? y ≠ none → φ x = φ y → x = y
  nodeType : ∀ z type, B.nodeType z = some type ↔ ∃ x, A.nodeType x = some type ∧ φ x = z
  selector : ∀ z s w, B.selector z s = some w ↔ ∃ x y, A.selector x s = some y ∧ φ x = z ∧ φ y = w
  hyperedge : ∀ z nt ws, B.hyperedge z = some (nt, ws) ↔ ∃ x ys, A.hyperedge x = some (nt, ys) ∧ φ x = z ∧ ys.map φ = ws
  pointer : ∀ z name w, B.pointer z = some (name, w) ↔ ∃ x y, A.pointer x = some (name, y) ∧ φ x = z ∧ φ y = w
  externals : B.externals = A.externals.map φ

end HeapState

namespace Heap

variable {a b : Heap} {φ : Nat → Nat} {x y : Nat}

theorem WellFormed.label_cases (hw : a.WellFormed) {lab : Label} (hx : a.view.label x = some lab) :
    (∃ type, lab = .node type ∧ a.state.nodeType x = some type) ∨
      (∃ nt ys, lab = .nonterminal nt ∧ a.state.hyperedge x = some (nt, ys)) ∨
        ∃ name y, lab = .variable name ∧ a.state.pointer x = some (name, y) := by
  have hd := hw.denotes
  cases lab with
  | node type => exact .inl ⟨type, rfl, (hd.nodeType x type).mpr hx⟩
  | nonterminal nt =>
    obtain ⟨ys, -, -, hys⟩ := hw.exists_attachedNodes hx
    exact .inr (.inl ⟨nt, ys, rfl, (hd.hyperedge x nt ys).mpr ⟨hx, hys⟩⟩)
  | «variable» name =>
    obtain ⟨y, -, hy⟩ := hw.exists_variableTarget hx
    exact .inr (.inr ⟨name, y, rfl, (hd.pointer x name y).mpr ⟨hx, hy⟩⟩)

theorem WellFormed.kind?_ne_none (hw : a.WellFormed) {lab : Label} (hx : a.view.label x = some lab) :
    a.state.kind? x ≠ none := by
  simp [hw.kind?_state, hx]

theorem WellFormed.not_tentacle (hw : a.WellFormed) {type : Bytes} (hx : a.state.nodeType x = some type) (i w : Nat) :
    ¬ a.view.link x (.tentacle i) w := by
  intro hl
  have hfit := (hw.toSound.wellFormed_iff.mp hw).fits x _ ((hw.denotes.nodeType x type).mp hx)
  cases hfit _ ⟨w, hl⟩

theorem WellFormed.tentacle_pointer (hw : a.WellFormed) {name : Bytes} (hx : a.state.pointer x = some (name, y))
    (i w : Nat) : [y][i]? = some w ↔ a.view.link x (.tentacle i) w := by
  obtain ⟨hlab, hlink⟩ := (hw.denotes.pointer x name y).mp hx
  have hfit := (hw.toSound.wellFormed_iff.mp hw).fits x _ hlab
  constructor
  · intro hi
    obtain ⟨rfl, rfl⟩ : i = 0 ∧ y = w := by simpa [List.getElem?_singleton] using hi
    exact hlink
  · intro hl
    cases (hfit _).mp ⟨w, hl⟩
    rw [hw.toSound.proper.link_functional _ _ _ _ hl hlink]
    rfl

theorem WellFormed.link_live (hw : a.WellFormed) {l : EdgeLabel} (hl : a.view.link x l y) :
    a.state.kind? x ≠ none ∧ a.state.kind? y ≠ none := by
  obtain ⟨lab, hx⟩ := hw.toSound.proper.link_label _ _ _ hl
  obtain ⟨type, hy⟩ := hw.toSound.proper.link_node _ _ _ hl
  exact ⟨hw.kind?_ne_none hx, hw.kind?_ne_none hy⟩

variable (hr : HeapState.Renumbers φ a.state b.state) (ha : a.WellFormed) (hb : b.WellFormed)

include hr ha hb

theorem label_renumbers {lab : Label} (hx : a.view.label x = some lab) : b.view.label (φ x) = some lab := by
  rcases ha.label_cases hx with ⟨type, rfl, h⟩ | ⟨nt, ys, rfl, h⟩ | ⟨name, y, rfl, h⟩
  · exact (hb.denotes.nodeType _ _).mp ((hr.nodeType _ _).mpr ⟨x, h, rfl⟩)
  · exact ((hb.denotes.hyperedge _ _ _).mp ((hr.hyperedge _ _ _).mpr ⟨x, ys, h, rfl, rfl⟩)).1
  · exact ((hb.denotes.pointer _ _ _).mp ((hr.pointer _ _ _).mpr ⟨x, y, h, rfl, rfl⟩)).1

theorem exists_label_of_renumbers {z : Nat} {lab : Label} (hz : b.view.label z = some lab) :
    ∃ x, a.view.label x = some lab ∧ φ x = z := by
  rcases hb.label_cases hz with ⟨type, rfl, h⟩ | ⟨nt, ys, rfl, h⟩ | ⟨name, y, rfl, h⟩
  · obtain ⟨x, hx, rfl⟩ := (hr.nodeType _ _).mp h
    exact ⟨x, (ha.denotes.nodeType _ _).mp hx, rfl⟩
  · obtain ⟨x, ys, hx, rfl, -⟩ := (hr.hyperedge _ _ _).mp h
    exact ⟨x, ((ha.denotes.hyperedge _ _ _).mp hx).1, rfl⟩
  · obtain ⟨x, y, hx, rfl, -⟩ := (hr.pointer _ _ _).mp h
    exact ⟨x, ((ha.denotes.pointer _ _ _).mp hx).1, rfl⟩

theorem ordinal_renumbers {lab : Label} (hx : a.view.label x = some lab) : b.view.ordinal (φ x) = a.view.ordinal x := by
  refine Option.ext fun i => ?_
  rw [← hb.denotes.externals, ← ha.denotes.externals, hr.externals, List.getElem?_map, Option.map_eq_some_iff]
  constructor
  · rintro ⟨y, hy, hφ⟩
    obtain ⟨type, ht⟩ := ha.toSound.proper.ordinal_node y i ((ha.denotes.externals i y).mp hy)
    rw [← hr.inj y x (ha.kind?_ne_none ht) (ha.kind?_ne_none hx) hφ]
    exact hy
  · exact fun h => ⟨x, h, rfl⟩

theorem exists_tentacles {lab : Label} (hx : a.view.label x = some lab) : ∃ ys : List Nat,
    (∀ i y, ys[i]? = some y ↔ a.view.link x (.tentacle i) y) ∧
      ∀ i w, (ys.map φ)[i]? = some w ↔ b.view.link (φ x) (.tentacle i) w := by
  rcases ha.label_cases hx with ⟨type, rfl, h⟩ | ⟨nt, ys, rfl, h⟩ | ⟨name, y, rfl, h⟩
  · have hφ := (hr.nodeType _ _).mpr ⟨x, h, rfl⟩
    exact ⟨[], fun i y => by simpa using ha.not_tentacle h i y, fun i w => by simpa using hb.not_tentacle hφ i w⟩
  · have hφ := (hr.hyperedge _ _ _).mpr ⟨x, ys, h, rfl, rfl⟩
    exact ⟨ys, ((ha.denotes.hyperedge _ _ _).mp h).2, ((hb.denotes.hyperedge _ _ _).mp hφ).2⟩
  · have hφ := (hr.pointer _ _ _).mpr ⟨x, y, h, rfl, rfl⟩
    exact ⟨[y], ha.tentacle_pointer h, hb.tentacle_pointer hφ⟩

theorem link_renumbers {lab lab' : Label} {l : EdgeLabel} (hx : a.view.label x = some lab)
    (hy : a.view.label y = some lab') : b.view.link (φ x) l (φ y) ↔ a.view.link x l y := by
  cases l with
  | selector s =>
    rw [← hb.denotes.selector, ← ha.denotes.selector, hr.selector]
    constructor
    · rintro ⟨x', y', h, hφx, hφy⟩
      obtain ⟨hx', hy'⟩ := ha.link_live ((ha.denotes.selector x' s y').mp h)
      rw [← hr.inj x' x hx' (ha.kind?_ne_none hx) hφx, ← hr.inj y' y hy' (ha.kind?_ne_none hy) hφy]
      exact h
    · exact fun h => ⟨x, y, h, rfl, rfl⟩
  | tentacle i =>
    obtain ⟨ys, hys, hws⟩ := exists_tentacles hr ha hb hx
    rw [← hws, ← hys, List.getElem?_map, Option.map_eq_some_iff]
    constructor
    · rintro ⟨y', h, hφy⟩
      obtain ⟨-, hy'⟩ := ha.link_live ((hys i y').mp h)
      rw [← hr.inj y' y hy' (ha.kind?_ne_none hy) hφy]
      exact h
    · exact fun h => ⟨y, h, rfl⟩

theorem iso_of_renumbers : HeapView.Iso a.view b.view φ where
  label _ _ hx := label_renumbers hr ha hb hx
  inj x y _ _ hx hy := hr.inj x y (ha.kind?_ne_none hx) (ha.kind?_ne_none hy)
  onto _ _ hz := exists_label_of_renumbers hr ha hb hz
  ordinal _ _ hx := ordinal_renumbers hr ha hb hx
  link _ _ _ _ _ hx hy := link_renumbers hr ha hb hx hy

end Heap

end HeapAbstraction
