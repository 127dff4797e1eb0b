import HeapAbstraction.Proofs.Answers
import HeapAbstraction.Proofs.FoldFrame
import HeapAbstraction.Grammar.Materialization

namespace HeapAbstraction

theorem ok_of_toOption_pair {ε α β : Type} {x : Except ε α} {y : Except ε β} {a : α} {b : β}
    (h : (do return (← x, ← y) : Except ε (α × β)).toOption = some (a, b)) : x = .ok a ∧ y = .ok b := by
  cases x with
  | error err => cases h
  | ok a' =>
    cases y with
    | error err => cases h
    | ok b' =>
      cases h
      exact ⟨rfl, rfl⟩

namespace Heap

variable {h rule : Heap} {x y e i : Nat} {ys : List Nat} {nt : Nonterminal} {name s type : Bytes}

theorem answers_of_hyperedge (he : h.state.hyperedge e = some (nt, ys)) :
    h.nonterminalOf e = .ok nt ∧ h.attachedNodesOf e = .ok ys := ok_of_toOption_pair he

theorem answers_of_pointer (hx : h.state.pointer x = some (name, y)) :
    h.variableNameOf x = .ok name ∧ h.variableTargetOf x = .ok y := ok_of_toOption_pair hx

theorem WellFormed.hyperedge_lt (hw : h.WellFormed) (he : h.state.hyperedge e = some (nt, ys)) : e < h.nextId :=
  hw.toSound.proper.label_lt e _ ((hw.denotes.hyperedge e nt ys).mp he).1

theorem WellFormed.nodeType_of_pointer (hw : h.WellFormed) (hx : h.state.pointer x = some (name, y)) :
    ∃ type, h.state.nodeType y = some type := by
  obtain ⟨type, htype⟩ := hw.toSound.proper.link_node _ _ _ ((hw.denotes.pointer x name y).mp hx).2
  exact ⟨type, (hw.denotes.nodeType y type).mpr htype⟩

theorem WellFormed.selectorTargetOf_eq (hw : h.WellFormed) (hy : h.state.nodeType y = some type) (s : Bytes) :
    h.selectorTargetOf y s = .ok (h.state.selector y s) := by
  have hs := hw.toSound
  obtain ⟨v, e, hf, hid, he, -, -⟩ := hs.exists_find ((hw.denotes.nodeType y type).mp hy)
  change h.find y .node = _ at hf
  have htarget : ∃ o, h.selectorTargetOf y s = .ok o := by
    rw [selectorTargetOf, hf]
    exact ⟨_, target_eq hs hid he _⟩
  obtain ⟨o, ho⟩ := htarget
  simp [state, ho, Except.toOption]

theorem WellFormed.nodeType_of_external (hw : h.WellFormed) {a : Nat} (ha : h.state.externals[i]? = some a) :
    ∃ type, h.state.nodeType a = some type := by
  obtain ⟨type, ht⟩ := hw.toSound.proper.ordinal_node a i ((hw.denotes.externals i a).mp ha)
  exact ⟨type, (hw.denotes.nodeType a type).mpr ht⟩

def provides (rule : Heap) (i : Nat) (s : Bytes) : Bool :=
  ((rule.state.externals[i]?).bind (fun a => rule.state.selector a s)).isSome

theorem provides_iff : rule.provides i s = true ↔
    ∃ a b, rule.state.externals[i]? = some a ∧ rule.state.selector a s = some b := by
  rw [provides, Option.isSome_iff_exists, exists_comm]
  simp only [Option.bind_eq_some_iff]

theorem WellFormed.provides_eq (hw : rule.WellFormed) (hi : i < rule.externalCount) : (do
    let node ← rule.externalNodeAt i
    return (← rule.selectorTargetOf node s).isSome : Except HeapError Bool) = .ok (rule.provides i s) := by
  have hlt : i < rule.state.externals.length := by rwa [hw.length_externals]
  have ha := List.getElem?_eq_getElem hlt
  obtain ⟨type, htype⟩ := hw.nodeType_of_external ha
  rw [hw.toSound.externalNodeAt_eq, provides, ha]
  change (rule.selectorTargetOf _ s >>= fun o => pure o.isSome) = _
  rw [hw.selectorTargetOf_eq htype]
  rfl

section Holds

variable (hw : h.WellFormed) (hy : h.state.nodeType y = some type)

include hw hy

theorem WellFormed.attachedOf_nonterminal : ∃ es : List Nat, h.attachedOf y .nonterminal = .ok es ∧
    es.Pairwise (· < ·) ∧ ∀ e, e ∈ es ↔ ∃ nt ys, h.state.hyperedge e = some (nt, ys) ∧ y ∈ ys := by
  have hs := hw.toSound
  obtain ⟨v, el, hf, hid, he, -, -⟩ := hs.exists_find ((hw.denotes.nodeType y type).mp hy)
  change h.find y .node = _ at hf
  refine ⟨sortIds (el.preds.filterMap (h.idOfKind .nonterminal)), ?_, ?_, fun e => ?_⟩
  · rw [attachedOf, hf]
    exact sources_eq (fun u f hf => by simp only [hf]) (live_preds hs he)
  · rw [sortIds_eq]
    have hnodup : ((el.preds.filterMap (h.idOfKind .nonterminal)).insertionSort (· ≤ ·)).Nodup :=
      (List.perm_insertionSort _ _).nodup_iff.mpr (attached_nodup hs he)
    exact ((List.pairwise_insertionSort (· ≤ ·) _).and hnodup).imp fun hab => lt_of_le_of_ne hab.1 hab.2
  · rw [sortIds_eq, (List.perm_insertionSort _ _).mem_iff, mem_attached hs hid he]
    constructor
    · rintro ⟨⟨l, hl⟩, hkind⟩
      obtain ⟨lab, hlab, hk⟩ := Option.map_eq_some_iff.mp hkind
      obtain ⟨nt, rfl⟩ := exists_nonterminal hk
      obtain ⟨ys, -, -, hget⟩ := hw.exists_attachedNodes hlab
      obtain ⟨k, -, hfit⟩ := (hs.wellFormed_iff.mp hw).fits e _ hlab
      obtain ⟨i, -, rfl⟩ := (hfit l).mp ⟨y, hl⟩
      exact ⟨nt, ys, (hw.denotes.hyperedge e nt ys).mpr ⟨hlab, hget⟩, List.mem_of_getElem? ((hget i y).mpr hl)⟩
    · rintro ⟨nt, ys, hys, hmem⟩
      obtain ⟨hlab, hget⟩ := (hw.denotes.hyperedge e nt ys).mp hys
      obtain ⟨i, hi⟩ := List.mem_iff_getElem?.mp hmem
      exact ⟨⟨_, (hget i y).mp hi⟩, by rw [hlab]; rfl⟩

theorem WellFormed.holds : ∃ hs : List (Nat × Nat), Grammar.holds h y = .ok hs ∧
    hs.Pairwise (fun a b => a.1 < b.1 ∨ (a.1 = b.1 ∧ a.2 < b.2)) ∧
      ∀ e i, (e, i) ∈ hs ↔ ∃ nt ys, h.state.hyperedge e = some (nt, ys) ∧ ys[i]? = some y := by
  obtain ⟨es, hes, hlt, hmem⟩ := hw.attachedOf_nonterminal hy
  let ends (e : Nat) : List Nat := ((h.state.hyperedge e).map Prod.snd).getD []
  let held (e : Nat) : List (Nat × Nat) := ((ends e).zipIdx.filter (fun p => p.1 == y)).map (fun p => (e, p.2))
  have hends (e : Nat) (he : e ∈ es) : h.attachedNodesOf e = .ok (ends e) := by
    obtain ⟨nt, ys, hys, -⟩ := (hmem e).mp he
    rw [(answers_of_hyperedge hys).2]
    simp [ends, hys]
  have hheld (e : Nat) (p : Nat × Nat) : p ∈ held e ↔ p.1 = e ∧ (ends e)[p.2]? = some y := by
    simp only [held, List.mem_map, List.mem_filter, beq_iff_eq]
    constructor
    · rintro ⟨⟨z, j⟩, ⟨hz, rfl⟩, rfl⟩
      exact ⟨rfl, List.mk_mem_zipIdx_iff_getElem?.mp hz⟩
    · rintro ⟨rfl, hj⟩
      exact ⟨(y, p.2), ⟨List.mk_mem_zipIdx_iff_getElem?.mpr hj, rfl⟩, rfl⟩
  refine ⟨es.flatMap held, ?_, ?_, fun e i => ?_⟩
  · have hall : es.mapM (fun e : Nat => (do
        let ends ← h.attachedNodesOf e
        return (ends.zipIdx.filter (fun p => p.1 == y)).map (fun p => (e, p.2)) :
          Except HeapError (List (Nat × Nat)))) = .ok (es.map held) :=
      mapM_eq_map fun e he => by
        rw [hends e he]
        rfl
    rw [Grammar.holds, hes, List.flatMap_def]
    exact congrArg (fun r => r >>= fun held => pure held.flatten) hall
  · refine List.pairwise_flatMap.mpr ⟨fun e _ => List.pairwise_map.mpr ?_, hlt.imp fun hab p hp q hq => .inl ?_⟩
    · have hidx : (ends e).zipIdx.Pairwise (fun a b => a.2 < b.2) := by
        rw [← List.pairwise_map, List.zipIdx_map_snd]
        exact List.pairwise_lt_range' 1
      exact (hidx.filter _).imp fun hab => .inr ⟨rfl, hab⟩
    · rwa [((hheld _ p).mp hp).1, ((hheld _ q).mp hq).1]
  · rw [List.mem_flatMap]
    constructor
    · rintro ⟨e', he', hp⟩
      obtain ⟨rfl, hget⟩ := (hheld e' _).mp hp
      obtain ⟨nt, ys, hys, -⟩ := (hmem e).mp he'
      exact ⟨nt, ys, hys, by simpa [ends, hys] using hget⟩
    · rintro ⟨nt, ys, hys, hget⟩
      refine ⟨e, (hmem e).mpr ⟨nt, ys, hys, List.mem_of_getElem? hget⟩, (hheld e _).mpr ⟨rfl, ?_⟩⟩
      simpa [ends, hys] using hget

end Holds

end Heap

namespace Grammar

variable {g : Grammar} {nt : Nonterminal} {rule : Heap}

theorem Sound.isRule (hg : g.Sound) (hr : rule ∈ g.rulesFor nt) : IsRule nt rule := by
  rw [rulesFor] at hr
  cases hl : g.rules.lookup nt with
  | none => simp [hl] at hr
  | some rules =>
    obtain ⟨before, after, hrules, -⟩ := List.lookup_eq_some_iff.mp hl
    refine hg nt rule (mem_allRules.mpr ⟨rules, ?_, by simpa [hl] using hr⟩)
    simp [hrules]

theorem Sound.resolve_eq (hg : g.Sound) (nt : Nonterminal) (i : Nat) (s : Bytes) :
    g.resolve nt i s = .ok ((g.rulesFor nt).filter (fun rule => rule.provides i s)) := by
  have hcount (rule : Heap) (hr : rule ∈ g.rulesFor nt) :
      (rule.provides i s && decide ((i : Int) < rule.externalCount)) = rule.provides i s := by
    rw [Bool.and_eq_left_iff_imp]
    intro hp
    obtain ⟨a, b, ha, -⟩ := Heap.provides_iff.mp hp
    have := (hg.isRule hr).wellFormed.length_externals
    have := (List.getElem?_eq_some_iff.mp ha).1
    exact decide_eq_true (by omega)
  rw [resolve, filterM_eq_filter (p := fun rule => rule.provides i s), List.filter_filter]
  · exact congrArg Except.ok (List.filter_congr hcount)
  · intro rule hr
    obtain ⟨hmem, hlt⟩ := List.mem_filter.mp hr
    exact (hg.isRule hmem).wellFormed.provides_eq (by simpa using hlt)

end Grammar

end HeapAbstraction
