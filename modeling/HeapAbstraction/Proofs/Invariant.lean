import HeapAbstraction.Proofs.Arcs
import HeapAbstraction.Heap.Edit

namespace HeapAbstraction

namespace Label

def Fits : Label → (EdgeLabel → Prop) → Prop
  | .node _, c => ∀ l, c l → l.isSelector = true
  | .nonterminal nt, c => ∃ k : Nat, nt.rank = k ∧ ∀ l, c l ↔ ∃ i < k, l = .tentacle i
  | .variable _, c => ∀ l, c l ↔ l = .tentacle 0

def Shapes : Label → List EdgeLabel → Prop
  | .node _, ls => ∀ l ∈ ls, l.isSelector = true
  | .nonterminal nt, ls => ∃ k : Nat, nt.rank = k ∧ ls.Perm ((List.range k).map .tentacle)
  | .variable _, ls => ls = [.tentacle 0]

theorem shapes_iff_fits {lab : Label} {ls : List EdgeLabel} (hn : ls.Nodup) :
    lab.Shapes ls ↔ lab.Fits (fun l => l ∈ ls) := by
  cases lab with
  | node type => exact Iff.rfl
  | nonterminal nt =>
    have hr (k : Nat) : ((List.range k).map EdgeLabel.tentacle).Nodup :=
      List.nodup_range.map (fun _ _ h => EdgeLabel.tentacle.inj h)
    simp only [Shapes, Fits, List.perm_ext_iff_of_nodup hn (hr _), List.mem_map, List.mem_range, eq_comm]
  | «variable» x =>
    constructor
    · intro h l
      rw [show ls = [.tentacle 0] from h]
      exact List.mem_singleton
    · intro h
      have hp : ls.Perm [.tentacle 0] :=
        (List.perm_ext_iff_of_nodup hn (by simp)).mpr (fun l => by simpa using h l)
      exact List.perm_singleton.mp hp

theorem Fits.congr {lab : Label} {c d : EdgeLabel → Prop} (h : lab.Fits c) (hcd : ∀ l, c l ↔ d l) : lab.Fits d := by
  have : c = d := funext fun l => propext (hcd l)
  exact this ▸ h

end Label

namespace Heap

section

variable (h : Heap)

def out (v : Nat) : List Arc := ((h.elements[v]?).map Element.arcs).getD []

def into (v : Nat) : List Nat := ((h.elements[v]?).map Element.preds).getD []

def idOf (v : Nat) : Option Nat := (h.elements[v]?).map Element.id

def ordinalAt (v : Nat) : Option Nat := (h.elements[v]?).bind Element.ordinal

def labelAt (v : Nat) : Option Label := (h.elements[v]?).bind (fun e => if e.removed then none else some e.label)

def Linked (u : Nat) (l : EdgeLabel) (v : Nat) : Prop := Arc.Carries (h.out u) l v

def Joined (u v : Nat) : Prop := Arc.Reaches (h.out u) v

instance (u v : Nat) : Decidable (h.Joined u v) := inferInstanceAs (Decidable (Arc.Reaches (h.out u) v))

def IsNode (v : Nat) : Prop := ∃ type, h.labelAt v = some (.node type)

def Idle : Prop := ∀ e ∈ h.elements, e.removed = false

instance : Decidable h.Idle := inferInstanceAs (Decidable (∀ e ∈ h.elements, e.removed = false))

-- what every edit keeps, also between the steps of a larger one: public IDs are given once, each element lists
-- exactly the slots with an arc to it, arcs end at nodes, and the ordinals are those of nodes, each once, without gap
structure Sound : Prop where
  id_lt : ∀ v x, h.idOf v = some x → x < h.nextId
  id_inj : ∀ v w x, h.idOf v = some x → h.idOf w = some x → v = w
  tidy : ∀ v, Arc.Tidy (h.out v)
  into_nodup : ∀ v, (h.into v).Nodup
  mem_into : ∀ u v, u ∈ h.into v ↔ h.Joined u v
  ends : ∀ u v, h.Joined u v → h.IsNode v
  bare : ∀ v, h.labelAt v = none → h.out v = []
  ordinal_node : ∀ v i, h.ordinalAt v = some i → h.IsNode v
  ordinal_inj : ∀ v w i, h.ordinalAt v = some i → h.ordinalAt w = some i → v = w
  ordinal_below : ∀ v i j, h.ordinalAt v = some i → j < i → ∃ w, h.ordinalAt w = some j

structure WellFormed : Prop extends Sound h where
  shaped : ∀ v lab, h.labelAt v = some lab → lab.Shapes ((h.out v).flatMap Arc.labels)
  variable_inj : ∀ v w x, h.labelAt v = some (.variable x) → h.labelAt w = some (.variable x) → v = w

end

variable {h : Heap} {u v w : Nat} {l : EdgeLabel} {e : Element}

theorem out_eq (he : h.elements[v]? = some e) : h.out v = e.arcs := by simp [out, he]

theorem into_eq (he : h.elements[v]? = some e) : h.into v = e.preds := by simp [into, he]

theorem labelAt_eq_some {lab : Label} :
    h.labelAt v = some lab ↔ ∃ e, h.elements[v]? = some e ∧ e.removed = false ∧ e.label = lab := by
  simp only [labelAt, Option.bind_eq_some_iff]
  refine exists_congr fun e => and_congr_right fun _ => ?_
  cases e.removed <;> simp

theorem labelAt_of_live (he : h.elements[v]? = some e) (hr : e.removed = false) : h.labelAt v = some e.label :=
  labelAt_eq_some.mpr ⟨e, he, hr, rfl⟩

theorem lt_of_labelAt {lab : Label} (hl : h.labelAt v = some lab) : v < h.elements.length := by
  obtain ⟨e, he, -⟩ := labelAt_eq_some.mp hl
  exact (List.getElem?_eq_some_iff.mp he).1

theorem Linked.joined (hl : h.Linked u l v) : h.Joined u v := Arc.Carries.reaches hl

theorem IsNode.lt (hn : h.IsNode v) : v < h.elements.length := by
  obtain ⟨_, hl⟩ := hn
  exact lt_of_labelAt hl

namespace Sound

theorem lt_of_joined (hs : h.Sound) (hj : h.Joined u v) : v < h.elements.length := (hs.ends u v hj).lt

theorem labelAt_of_joined (hs : h.Sound) (hj : h.Joined u v) : ∃ lab, h.labelAt u = some lab := by
  cases hl : h.labelAt u with
  | some lab => exact ⟨lab, rfl⟩
  | none => simp [Joined, hs.bare u hl] at hj

theorem linked_functional (hs : h.Sound) (hv : h.Linked u l v) (hw : h.Linked u l w) : v = w :=
  (hs.tidy u).functional hv hw

theorem joined_iff (hs : h.Sound) : h.Joined u v ↔ ∃ l, h.Linked u l v := (hs.tidy u).reaches_iff

theorem ordinalAt_eq_none (hs : h.Sound) (hn : ¬ h.IsNode v) : h.ordinalAt v = none := by
  cases ho : h.ordinalAt v with
  | none => rfl
  | some i => exact absurd (hs.ordinal_node v i ho) hn

theorem into_eq_nil (hs : h.Sound) (hv : h.labelAt v = none) : h.into v = [] := by
  refine List.eq_nil_iff_forall_not_mem.mpr fun u hu => ?_
  obtain ⟨type, hl⟩ := hs.ends u v ((hs.mem_into u v).mp hu)
  simp [hv] at hl

end Sound

theorem WellFormed.fits (hw : h.WellFormed) {lab : Label} (hl : h.labelAt v = some lab) :
    lab.Fits (fun l => ∃ w, h.Linked v l w) :=
  ((Label.shapes_iff_fits (hw.tidy v).labels).mp (hw.shaped v lab hl)).congr (fun _ => Arc.mem_flatMap_labels)

theorem Sound.wellFormed (hs : h.Sound)
    (hf : ∀ v lab, h.labelAt v = some lab → lab.Fits (fun l => ∃ w, h.Linked v l w))
    (hv : ∀ v w x, h.labelAt v = some (.variable x) → h.labelAt w = some (.variable x) → v = w) : h.WellFormed :=
  { hs with
    shaped := fun v lab hl => (Label.shapes_iff_fits (hs.tidy v).labels).mpr
      ((hf v lab hl).congr (fun _ => Arc.mem_flatMap_labels.symm))
    variable_inj := hv }

theorem WellFormed.isSelector (hw : h.WellFormed) (hn : h.IsNode u) (hl : h.Linked u l v) : l.isSelector = true := by
  obtain ⟨type, ht⟩ := hn
  exact hw.fits ht l ⟨v, hl⟩

end Heap

end HeapAbstraction
