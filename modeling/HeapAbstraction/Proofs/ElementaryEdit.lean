import HeapAbstraction.Proofs.Compaction
import Mathlib.Logic.Relation

namespace HeapAbstraction

inductive ElementaryEdit where
  | addNodes (type : Bytes) (count : Int)
  | removeIsolatedNode (node : Int)
  | addSelector (source : Int) (selector : Bytes) (target : Int)
  | removeSelector (node : Int) (selector : Bytes)
  | replaceSelector (node : Int) (old new : Bytes)
  | setExternal (node : Int)
  | unsetExternal (node : Int)
  | addVariable (name : Bytes) (target : Int)
  | removeVariable (edge : Int)
  | addNonterminal (nt : Nonterminal) (tentacles : List Int)
  | removeNonterminal (edge : Int)
  | relabel (edge : Int) (nt : Nonterminal)

def ElementaryEdit.apply (h : Heap) : ElementaryEdit → Except HeapError Heap
  | .addNodes type count => Prod.fst <$> h.addNodes type count
  | .removeIsolatedNode node => h.removeIsolatedNode node
  | .addSelector source selector target => h.addSelector source selector target
  | .removeSelector node selector => h.removeSelector node selector
  | .replaceSelector node old new => h.replaceSelector node old new
  | .setExternal node => h.setExternal node
  | .unsetExternal node => h.unsetExternal node
  | .addVariable name target => Prod.fst <$> h.addVariable name target
  | .removeVariable edge => h.removeVariable edge
  | .addNonterminal nt tentacles => Prod.fst <$> h.addNonterminal nt tentacles
  | .removeNonterminal edge => h.removeNonterminal edge
  | .relabel edge nt => h.relabel edge nt

def ElementaryEdit.run (h : Heap) : ElementaryEdit → Except HeapError (Heap × List Nat)
  | .addNodes type count => h.addNodes type count
  | .addVariable name target => (fun r => (r.1, [r.2])) <$> h.addVariable name target
  | .addNonterminal nt tentacles => (fun r => (r.1, [r.2])) <$> h.addNonterminal nt tentacles
  | e => (fun h' => (h', [])) <$> e.apply h

theorem ElementaryEdit.fst_run (h : Heap) (e : ElementaryEdit) : Prod.fst <$> e.run h = e.apply h := by
  cases e <;> simp only [run, apply, Functor.map_map, id_map']

theorem ElementaryEdit.apply_of_run {h : Heap} {e : ElementaryEdit} {r : Heap × List Nat} (hr : e.run h = .ok r) :
    e.apply h = .ok r.1 := by
  rw [← fst_run, hr]
  rfl

theorem Heap.WellFormed.apply {h h' : Heap} (hw : h.WellFormed) {e : ElementaryEdit} (he : e.apply h = .ok h') :
    h'.WellFormed := by
  cases e with
  | addNodes type count =>
    obtain ⟨ids, he⟩ := fst_map_ok he
    exact hw.addNodes he
  | removeIsolatedNode node => exact hw.removeIsolatedNode he
  | addSelector source selector target => exact hw.addSelector he
  | removeSelector node selector => exact hw.removeSelector he
  | replaceSelector node old new => exact hw.replaceSelector he
  | setExternal node => exact hw.setExternal he
  | unsetExternal node => exact hw.unsetExternal he
  | addVariable name target =>
    obtain ⟨id, he⟩ := fst_map_ok he
    exact hw.addVariable he
  | removeVariable edge => exact hw.removeVariable he
  | addNonterminal nt tentacles =>
    obtain ⟨id, he⟩ := fst_map_ok he
    exact hw.addNonterminal he
  | removeNonterminal edge => exact hw.removeNonterminal he
  | relabel edge nt => exact hw.relabel he

namespace Heap

def Step (h h' : Heap) : Prop := ∃ e : ElementaryEdit, e.apply h = .ok h'

abbrev Steps : Heap → Heap → Prop := Relation.ReflTransGen Step

variable {h h' : Heap}

theorem Steps.apply {e : ElementaryEdit} (he : e.apply h = .ok h') : h.Steps h' := .single ⟨e, he⟩

theorem WellFormed.steps (hw : h.WellFormed) (hs : h.Steps h') : h'.WellFormed := by
  induction hs with
  | refl => exact hw
  | tail _ hstep ih =>
    obtain ⟨e, he⟩ := hstep
    exact ih.apply he

-- what a run of edits of a new heap leaves behind when it is built
def Built (h : Heap) : Prop := ∃ k, empty.Steps k ∧ k.build = .ok h

theorem Built.wellFormed (hb : h.Built) : h.WellFormed ∧ h.Idle := by
  obtain ⟨k, hsteps, hb⟩ := hb
  obtain ⟨hw, hi, -⟩ := (wellFormed_empty.steps hsteps).build hb
  exact ⟨hw, hi⟩

end Heap

end HeapAbstraction
