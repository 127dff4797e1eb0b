import HeapAbstraction.Proofs.Lists
import HeapAbstraction.Proofs.Refinement
import HeapAbstraction.Proofs.Unfolding

namespace HeapAbstraction

inductive Addition where
  | external (x : Nat)
  | selector (x : Nat) (s : Bytes) (y : Nat)
  | hyperedge (nt : Nonterminal) (ys : List Nat)
  | pointer (name : Bytes) (y : Nat)
deriving DecidableEq, Repr

namespace Addition

def edit : Addition → ElementaryEdit
  | .external x => .setExternal x
  | .selector x s y => .addSelector x s y
  | .hyperedge nt ys => .addNonterminal nt (ys.map Int.ofNat)
  | .pointer name y => .addVariable name y

def addTo (A : HeapState) : Addition → HeapState
  | .external x => { A with externals := A.externals ++ [x] }
  | .selector x s y => A.setSelector x s (some y)
  | .hyperedge nt ys => A.next.setHyperedge A.nextId (some (nt, ys))
  | .pointer name y => A.next.setPointer A.nextId (some (name, y))

def ends : Addition → List Nat
  | .external x => [x]
  | .selector x _ y => [x, y]
  | .hyperedge _ ys => ys
  | .pointer _ y => [y]

structure Grounded (A : HeapState) (a : Addition) : Prop where
  node : ∀ x ∈ a.ends, ∃ type, A.nodeType x = some type
  rank : ∀ nt ys, a = .hyperedge nt ys → nt.rank = ys.length

def Free (A : HeapState) : Addition → Prop
  | .external x => x ∉ A.externals
  | .selector x s _ => A.selector x s = none
  | .hyperedge _ _ => True
  | .pointer name _ => ∀ x y, A.pointer x ≠ some (name, y)

def Apart : Addition → Addition → Prop
  | .external x, .external y => x ≠ y
  | .selector x s _, .selector y t _ => ¬ (x = y ∧ s = t)
  | .pointer name _, .pointer name' _ => name ≠ name'
  | _, _ => True

variable {A : HeapState} {a b : Addition} {as : List Addition}

theorem find_node {x : Nat} {type : Bytes} (hx : A.nodeType x = some type) : A.find x .node = .ok x := by
  simp [HeapState.find, HeapState.kind?, hx]

theorem run_edit (hg : a.Grounded A) (hf : a.Free A) : ∃ ids, A.run a.edit = .ok (a.addTo A, ids) := by
  cases a with
  | external x =>
    obtain ⟨type, hx⟩ := hg.node x (by simp [ends])
    exact ⟨[], by simp [edit, HeapState.run, find_node hx, bind, Except.bind, pure, Except.pure, if_neg hf, addTo]⟩
  | selector x s y =>
    obtain ⟨type, hx⟩ := hg.node x (by simp [ends])
    obtain ⟨type', hy⟩ := hg.node y (by simp [ends])
    have hfree : A.selector x s = none := hf
    exact ⟨[], by simp [edit, HeapState.run, find_node hx, find_node hy, bind, Except.bind, pure, Except.pure, hfree, addTo]⟩
  | hyperedge nt ys =>
    have hfind : (ys.map Int.ofNat).mapM (fun node => A.find node .node) = .ok ys := by
      rw [List.mapM_map, mapM_eq_map (g := id), List.map_id]
      intro y hy
      obtain ⟨type, hy⟩ := hg.node y hy
      exact find_node hy
    have hrank := hg.rank nt ys rfl
    exact ⟨[A.nextId], by simp [edit, HeapState.run, hrank, hfind, bind, Except.bind, pure, Except.pure, addTo]⟩
  | pointer name y =>
    obtain ⟨type, hy⟩ := hg.node y (by simp [ends])
    have hfree : ¬ ∃ x z, A.pointer x = some (name, z) := by
      rintro ⟨x, z, hp⟩
      exact hf x z hp
    exact ⟨[A.nextId], by
      simp [edit, HeapState.run, find_node hy, bind, Except.bind, pure, Except.pure, if_neg hfree, addTo]⟩

theorem nodeType_addTo (a : Addition) : (a.addTo A).nodeType = A.nodeType := by
  cases a <;> rfl

theorem Grounded.addTo (hg : b.Grounded A) (a : Addition) : b.Grounded (a.addTo A) where
  node := by
    rw [nodeType_addTo]
    exact hg.node
  rank := hg.rank

theorem Free.addTo (hf : b.Free A) (hab : a.Apart b) : b.Free (a.addTo A) := by
  cases a with
  | external x =>
    cases b with
    | external y =>
      have hxy : x ≠ y := hab
      have hy : y ∉ A.externals := hf
      simp [Free, Addition.addTo, hy, hxy.symm]
    | _ => exact hf
  | selector x s y =>
    cases b with
    | selector x' s' y' =>
      have hne : ¬ (x = x' ∧ s = s') := hab
      have hfree : A.selector x' s' = none := hf
      change Function.update A.selector x (Function.update (A.selector x) s (some y)) x' s' = none
      by_cases hx : x' = x
      · subst hx
        rw [Function.update_self, Function.update_of_ne fun hs => hne ⟨rfl, hs.symm⟩]
        exact hfree
      · rw [Function.update_of_ne hx]
        exact hfree
    | _ => exact hf
  | hyperedge nt ys =>
    cases b <;> exact hf
  | pointer name y =>
    cases b with
    | pointer name' y' =>
      intro x z
      change Function.update A.pointer A.nextId (some (name, y)) x ≠ some (name', z)
      by_cases hx : x = A.nextId
      · subst hx
        rw [Function.update_self]
        intro h
        exact hab (Prod.mk.inj (Option.some.inj h)).1
      · rw [Function.update_of_ne hx]
        exact hf x z
    | _ => exact hf

end Addition

open Addition

def HeapState.extend (A : HeapState) (as : List Addition) : HeapState := as.foldl addTo A

theorem Heap.WellFormed.exists_additions {h : Heap} (hw : h.WellFormed) {as : List Addition}
    (hg : ∀ a ∈ as, a.Grounded h.state) (hf : ∀ a ∈ as, a.Free h.state) (ha : as.Pairwise Apart) :
    ∃ h', as.foldlM (fun h a => a.edit.apply h) h = .ok h' ∧ h'.WellFormed ∧ h'.state = h.state.extend as := by
  induction as generalizing h with
  | nil => exact ⟨h, rfl, hw, rfl⟩
  | cons a as ih =>
    obtain ⟨hga, hgs⟩ := List.forall_mem_cons.mp hg
    obtain ⟨hfa, hfs⟩ := List.forall_mem_cons.mp hf
    obtain ⟨haa, has⟩ := List.pairwise_cons.mp ha
    obtain ⟨ids, hrun⟩ := run_edit hga hfa
    have hsquare := hw.state_run a.edit
    cases hr : a.edit.run h with
    | error err => simp [hr, hrun] at hsquare
    | ok r =>
      rw [hr, hrun] at hsquare
      obtain ⟨hst, -⟩ := Prod.mk.inj (Except.ok.inj hsquare)
      have hok := ElementaryEdit.apply_of_run hr
      obtain ⟨h', hrest, hw', hst'⟩ := ih (h := r.1) (hw.apply hok) (fun b hb => hst ▸ (hgs b hb).addTo a)
        (fun b hb => hst ▸ (hfs b hb).addTo (haa b hb)) has
      refine ⟨h', ?_, hw', ?_⟩
      · rw [List.foldlM_cons, hok]
        exact hrest
      · rw [hst', hst]
        rfl

namespace Addition

def external? : Addition → Option Nat
  | .external x => some x
  | _ => none

def isEdge : Addition → Bool
  | .hyperedge _ _ | .pointer _ _ => true
  | _ => false

end Addition

namespace HeapState

variable {A : HeapState} {a e : Addition} {as : List Addition} {x y : Nat} {s : Bytes}

def Edge (A : HeapState) (x : Nat) : Addition → Prop
  | .hyperedge nt ys => A.hyperedge x = some (nt, ys)
  | .pointer name y => A.pointer x = some (name, y)
  | _ => False

def Fresh (A : HeapState) : Prop := ∀ x e, A.nextId ≤ x → ¬ A.Edge x e

theorem nextId_addTo : (a.addTo A).nextId = A.nextId + if a.isEdge then 1 else 0 := by
  cases a <;> rfl

theorem selector_addTo (hf : a.Free A) :
    (a.addTo A).selector x s = some y ↔ A.selector x s = some y ∨ a = .selector x s y := by
  cases a with
  | selector x' s' y' =>
    have hfree : A.selector x' s' = none := hf
    change Function.update A.selector x' (Function.update (A.selector x') s' (some y')) x s = some y ↔ _
    by_cases hx : x = x'
    · subst hx
      by_cases hs : s = s'
      · subst hs
        simp [hfree]
      · simp [hs, Ne.symm hs]
    · simp [hx, Ne.symm hx]
  | external x' => simp [addTo]
  | hyperedge nt ys => simp [addTo, setHyperedge, next]
  | pointer name y' => simp [addTo, setPointer, next]

theorem edge_addTo (hA : A.Fresh) : (a.addTo A).Edge x e ↔ A.Edge x e ∨ a.isEdge = true ∧ x = A.nextId ∧ e = a := by
  have hnew (e : Addition) : ¬ A.Edge A.nextId e := hA _ e (Nat.le_refl _)
  cases a with
  | external x' => cases e <;> simp [Edge, addTo, isEdge]
  | selector x' s y => cases e <;> simp [Edge, addTo, setSelector, isEdge]
  | hyperedge nt ys =>
    cases e with
    | hyperedge nt' ys' =>
      by_cases hx : x = A.nextId
      · subst hx
        have hold : A.hyperedge A.nextId ≠ some (nt', ys') := hnew (.hyperedge nt' ys')
        simp [Edge, addTo, setHyperedge, next, isEdge, hold, eq_comm]
      · simp [Edge, addTo, setHyperedge, next, hx]
    | _ => simp [Edge, addTo, setHyperedge, next]
  | pointer name y =>
    cases e with
    | pointer name' y' =>
      by_cases hx : x = A.nextId
      · subst hx
        have hold : A.pointer A.nextId ≠ some (name', y') := hnew (.pointer name' y')
        simp [Edge, addTo, setPointer, next, isEdge, hold, eq_comm]
      · simp [Edge, addTo, setPointer, next, hx]
    | _ => simp [Edge, addTo, setPointer, next]

theorem fresh_addTo (hA : A.Fresh) : (a.addTo A).Fresh := by
  intro x e hx
  rw [nextId_addTo] at hx
  rw [edge_addTo hA]
  rintro (he | ⟨ha, rfl, -⟩)
  · exact hA x e (by omega) he
  · simp [ha] at hx

theorem nodeType_extend : (A.extend as).nodeType = A.nodeType := by
  induction as generalizing A with
  | nil => rfl
  | cons a as ih => exact (ih (A := a.addTo A)).trans (nodeType_addTo a)

theorem externals_extend : (A.extend as).externals = A.externals ++ as.filterMap external? := by
  induction as generalizing A with
  | nil => simp [extend]
  | cons a as ih =>
    refine (ih (A := a.addTo A)).trans ?_
    cases a <;> simp [addTo, external?, setSelector, setHyperedge, setPointer, next, List.filterMap_cons]

theorem selector_extend (hf : ∀ a ∈ as, a.Free A) (ha : as.Pairwise Apart) :
    (A.extend as).selector x s = some y ↔ A.selector x s = some y ∨ .selector x s y ∈ as := by
  induction as generalizing A with
  | nil => simp [extend]
  | cons a as ih =>
    obtain ⟨hfa, hfs⟩ := List.forall_mem_cons.mp hf
    obtain ⟨haa, has⟩ := List.pairwise_cons.mp ha
    refine (ih (A := a.addTo A) (fun b hb => (hfs b hb).addTo (haa b hb)) has).trans ?_
    rw [selector_addTo hfa, List.mem_cons, or_assoc, eq_comm (a := a)]

theorem edge_extend (hA : A.Fresh) :
    (A.extend as).Edge x e ↔ A.Edge x e ∨ ∃ i, x = A.nextId + i ∧ (as.filter isEdge)[i]? = some e := by
  induction as generalizing A with
  | nil => simp [extend]
  | cons a as ih =>
    refine (ih (A := a.addTo A) (fresh_addTo hA)).trans ?_
    rw [edge_addTo hA, nextId_addTo, or_assoc]
    refine or_congr_right ?_
    cases ha : a.isEdge with
    | false => simp [ha]
    | true =>
      simp only [true_and, if_true, List.filter_cons_of_pos ha]
      constructor
      · rintro (⟨rfl, rfl⟩ | ⟨i, rfl, hi⟩)
        · exact ⟨0, rfl, rfl⟩
        · exact ⟨i + 1, by omega, by simpa using hi⟩
      · rintro ⟨i, rfl, hi⟩
        cases i with
        | zero => exact .inl ⟨rfl, by simpa using hi.symm⟩
        | succ i => exact .inr ⟨i, by omega, by simpa using hi⟩

end HeapState

end HeapAbstraction
