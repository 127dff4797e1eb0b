import HeapAbstraction.Proofs.Answers

namespace HeapAbstraction

structure Element.Continues (e e' : Element) : Prop where
  id : e'.id = e.id
  kind : e'.kind = e.kind
  removed : e.removed = true → e'.removed = true

namespace Element.Continues

theorem refl (e : Element) : e.Continues e := ⟨rfl, rfl, fun h => h⟩

theorem trans {e e' e'' : Element} (h : e.Continues e') (h' : e'.Continues e'') : e.Continues e'' :=
  ⟨h'.id.trans h.id, h'.kind.trans h.kind, fun hr => h'.removed (h.removed hr)⟩

end Element.Continues

namespace Store

def Continues (s s' : Store) : Prop :=
  ∀ (v : Nat) (e' : Element), s'[v]? = some e' → ∃ e : Element, s[v]? = some e ∧ e.Continues e'

theorem Continues.refl (s : Store) : s.Continues s := fun _ e he => ⟨e, he, .refl e⟩

theorem Continues.trans {s s' s'' : Store} (h : s.Continues s') (h' : s'.Continues s'') : s.Continues s'' := by
  intro v e'' he''
  obtain ⟨e', he', hc'⟩ := h' v e'' he''
  obtain ⟨e, he, hc⟩ := h v e' he'
  exact ⟨e, he, hc.trans hc'⟩

variable {s : Store} {f : Element → Element}

end Store

namespace Heap

variable {h h' k : Heap}

structure Numbered (h : Heap) : Prop where
  id_lt : ∀ v x, h.idOf v = some x → x < h.nextId
  id_inj : ∀ v w x, h.idOf v = some x → h.idOf w = some x → v = w

-- what any calls may do to public IDs: an ID that `h` had given out stands for the element it stood for, and new IDs
-- come from the counter
structure Evolves (h h' : Heap) : Prop where
  nextId : h.nextId ≤ h'.nextId
  old : ∀ e' ∈ h'.elements, e'.id < h.nextId → ∃ e ∈ h.elements, e.Continues e'
  numbered : h.Numbered → h'.Numbered

namespace Evolves

theorem refl (h : Heap) : h.Evolves h := ⟨le_refl _, fun e he _ => ⟨e, he, .refl e⟩, fun hn => hn⟩

theorem trans (hk : h.Evolves h') (hk' : h'.Evolves k) : h.Evolves k := by
  refine ⟨hk.nextId.trans hk'.nextId, fun e'' he'' hlt => ?_, fun hn => hk'.numbered (hk.numbered hn)⟩
  obtain ⟨e', he', hc'⟩ := hk'.old e'' he'' (hlt.trans_le hk.nextId)
  obtain ⟨e, he, hc⟩ := hk.old e' he' (hc'.id ▸ hlt)
  exact ⟨e, he, hc.trans hc'⟩

end Evolves

structure Reworks (h h' : Heap) : Prop where
  nextId : h'.nextId = h.nextId
  elements : h.elements.Continues h'.elements

namespace Reworks

theorem refl (h : Heap) : h.Reworks h := ⟨rfl, .refl _⟩

theorem trans (hk : h.Reworks h') (hk' : h'.Reworks k) : h.Reworks k :=
  ⟨hk'.nextId.trans hk.nextId, hk.elements.trans hk'.elements⟩

theorem idOf (hk : h.Reworks h') {v x : Nat} (hx : h'.idOf v = some x) : h.idOf v = some x := by
  obtain ⟨e', he', rfl⟩ := Option.map_eq_some_iff.mp hx
  obtain ⟨e, he, hc⟩ := hk.elements v e' he'
  rw [Heap.idOf, he, hc.id, Option.map_some]

theorem evolves (hk : h.Reworks h') : h.Evolves h' where
  nextId := hk.nextId.ge
  old e' he' _ := by
    obtain ⟨v, hv⟩ := List.mem_iff_getElem?.mp he'
    obtain ⟨e, he, hc⟩ := hk.elements v e' hv
    exact ⟨e, List.mem_of_getElem? he, hc⟩
  numbered hn :=
    { id_lt := fun v x hx => hk.nextId.symm ▸ hn.id_lt v x (hk.idOf hx)
      id_inj := fun v w x hv hw => hn.id_inj v w x (hk.idOf hv) (hk.idOf hw) }

end Reworks

theorem Moved.evolves {f : Nat → Nat} (hm : Moved h f h') : h.Evolves h' where
  nextId := hm.nextId.ge
  old e' he' _ := by
    obtain ⟨w, hw⟩ := List.mem_iff_getElem?.mp he'
    obtain ⟨v, ⟨e, he, hr⟩, rfl⟩ := hm.cover w (List.getElem?_eq_some_iff.mp hw).1
    obtain ⟨preds, hp, -⟩ := hm.at_move v e he hr
    rw [hp] at hw
    cases hw
    exact ⟨e, List.mem_of_getElem? he, rfl, rfl, id⟩
  numbered hn := by
    refine ⟨fun w x hw => ?_, fun v w x hv hw => ?_⟩
    · obtain ⟨v, -, -, hx⟩ := hm.idOf_eq_some.mp hw
      exact hm.nextId.symm ▸ hn.id_lt v x hx
    · obtain ⟨a, -, rfl, ha⟩ := hm.idOf_eq_some.mp hv
      obtain ⟨b, -, rfl, hb⟩ := hm.idOf_eq_some.mp hw
      rw [hn.id_inj a b x ha hb]

structure Issues (h h' : Heap) (ids : List Nat) : Prop where
  evolves : h.Evolves h'
  nextId : h'.nextId = h.nextId + ids.length
  eq_range : ids = List.range' h.nextId ids.length

theorem Reworks.issues (hk : h.Reworks h') : h.Issues h' [] := ⟨hk.evolves, hk.nextId, rfl⟩

def Leads {α : Type} (h : Heap) (result : α → Heap) : Except Aborted α → Prop
  | .ok a => h.Evolves (result a)
  | .error e => h.Evolves e.heap

section Leads

variable {α β : Type} {result : α → Heap} {result' : β → Heap}

theorem Evolves.leads (hk : h.Evolves h') {r : Except Aborted α} (hr : h'.Leads result r) : h.Leads result r := by
  cases r with
  | ok a => exact hk.trans hr
  | error e => exact hk.trans hr

theorem Leads.bind {r : Except Aborted α} {f : α → Except Aborted β} (hr : h.Leads result r)
    (hf : ∀ a, (result a).Leads result' (f a)) : h.Leads result' (r >>= f) := by
  cases r with
  | ok a => exact hr.leads (hf a)
  | error e => exact hr

end Leads

theorem mem_idsOf_iff {kind : Kind} {x : Nat} :
    x ∈ h.idsOf kind ↔ ∃ e ∈ h.elements, e.removed = false ∧ e.kind = kind ∧ e.id = x := by
  rw [idsOf, sortIds_eq, (List.perm_insertionSort _ _).mem_iff]
  simp only [List.mem_map, List.mem_filter, isLiveOf, Bool.and_eq_true, Bool.not_eq_true', beq_iff_eq, and_assoc]

theorem Evolves.mem_idsOf (hk : h.Evolves h') {x : Nat} {kind : Kind} (hlt : x < h.nextId) (hx : x ∈ h'.idsOf kind) :
    x ∈ h.idsOf kind := by
  obtain ⟨e', he', hr, rfl, rfl⟩ := mem_idsOf_iff.mp hx
  obtain ⟨e, he, hc⟩ := hk.old e' he' hlt
  refine mem_idsOf_iff.mpr ⟨e, he, ?_, hc.kind.symm, hc.id.symm⟩
  exact Bool.eq_false_iff.mpr fun h => by simp [hc.removed h] at hr

end Heap

-- a call of a builder, with heaps to put in or to look for as the store has them
inductive BuilderCall (Replacement Pattern : Type) where
  | begin
  | build
  | edit (e : ElementaryEdit)
  | startEdge (nt : Nonterminal)
  | finishEdge (e : EdgeDraft)
  | replaceEdge (edge : Int) (replacement : Replacement)
  | fold (pattern : Pattern) (image : List Int) (nt : Nonterminal)
  | foldItself (image : List Int) (nt : Nonterminal)

section Runs

variable {σ κ : Type}

-- after the first `n` calls, whether they succeed or fail
def after (call : σ → κ → σ) (s : σ) (calls : List κ) (n : Nat) : σ := (calls.take n).foldl call s

variable (call : σ → κ → σ) (s : σ) (calls : List κ)

variable {R : σ → σ → Prop}

end Runs

namespace Draft

variable {d : Draft}

def call (d : Draft) : BuilderCall Draft Heap → Draft
  | .begin => d.begin
  | .build => d.build.1
  | .edit e => (d.carryOut e).1
  | .startEdge nt => (d.startEdge nt).1
  | .finishEdge e => (d.finishEdge e).1
  | .replaceEdge edge replacement => (d.replaceEdge edge replacement).1
  | .fold pattern image nt => (d.fold ⟨pattern, image⟩ nt).1
  | .foldItself image nt => (d.foldItself image nt).1

end Draft

end HeapAbstraction
