import HeapAbstraction.Proofs.ArenaAnswers
import HeapAbstraction.Proofs.ArenaIds
import HeapAbstraction.Proofs.FoldInverse
import HeapAbstraction.Proofs.DecodingTables

namespace HeapAbstraction

namespace Arena

structure Consistent (a : Arena) : Prop where
  ids_fit : a.privOf.length ≤ 2 ^ 31
  pub_fits : ∀ s ∈ a.slots, 0 ≤ s.pub.toInt ∧ s.pub.toInt < a.privOf.length
  pub_inj : ∀ (v w : Nat) (r s : Slot), a.slots[v]? = some r → a.slots[w]? = some s → r.pub = s.pub → v = w
  privOf_iff : ∀ x v : Nat, a.privOf[x]? = some (some v) ↔
    ∃ s : Slot, a.slots[v]? = some s ∧ s.removed = false ∧ s.pub.toInt = x
  removed_count : a.removedCount = a.slots.countP Slot.removed
  removed_bare : ∀ s ∈ a.slots, s.removed = true → s.out = [] ∧ s.succ = [] ∧ s.pred = [] ∧ s.ordinal = none
  succ_eq : ∀ s ∈ a.slots, s.succ = s.out.map Arc.target
  succ_nodup : ∀ s ∈ a.slots, s.succ.Nodup
  labelled : ∀ s ∈ a.slots, ∀ arc ∈ s.out, arc.labels ≠ []
  labels_nodup : ∀ s ∈ a.slots, (s.out.flatMap Arc.labels).Nodup
  pred_nodup : ∀ s ∈ a.slots, s.pred.Nodup
  mem_pred : ∀ (u v : Nat) (s : Slot), a.slots[v]? = some s →
    (u ∈ s.pred ↔ ∃ r : Slot, a.slots[u]? = some r ∧ v ∈ r.succ)
  ends : ∀ s ∈ a.slots, ∀ t ∈ s.succ, ∃ r : Slot, a.slots[t]? = some r ∧ r.removed = false ∧ r.kind = .node
  shaped : ∀ s ∈ a.slots, s.removed = false → s.label.Shapes (s.out.flatMap Arc.labels)
  variable_inj : ∀ (v w : Nat) (r s : Slot) (name : Bytes), a.slots[v]? = some r → a.slots[w]? = some s →
    r.removed = false → s.removed = false → r.label = .variable name → s.label = .variable name → v = w
  externals_iff : ∀ i v : Nat, a.externals[i]? = some v ↔ ∃ s : Slot, a.slots[v]? = some s ∧ s.ordinal = some i
  ordinal_node : ∀ s ∈ a.slots, ∀ i, s.ordinal = some i → s.removed = false ∧ s.kind = .node

variable {a : Arena} {h : Heap}

@[simp]
theorem length_privOf (h : Heap) : (ofHeap h).privOf.length = h.nextId := by simp [ofHeap]

theorem slots_ofHeap {v : Nat} {s : Slot} :
    (ofHeap h).slots[v]? = some s ↔ ∃ e, h.elements[v]? = some e ∧ Slot.ofElement e = s := by
  rw [show (ofHeap h).slots[v]? = (h.elements[v]?).map Slot.ofElement from List.getElem?_map, Option.map_eq_some_iff]

theorem forall_slots {P : Slot → Prop} (hP : ∀ (v : Nat) (e : Element), h.elements[v]? = some e → P (Slot.ofElement e)) :
    ∀ s ∈ (ofHeap h).slots, P s := by
  intro s hs
  obtain ⟨e, he, rfl⟩ := List.mem_map.mp hs
  obtain ⟨v, hv⟩ := List.mem_iff_getElem?.mp he
  exact hP v e hv

section Drawn

variable {u v w i x : Nat} {d e : Element}

theorem mem_succ (he : h.elements[u]? = some e) : v ∈ (Slot.ofElement e).succ ↔ h.Joined u v := by
  rw [Heap.Joined, Heap.out_eq he]
  exact Element.mem_successors

theorem pub_inj_ofHeap (hs : h.Sound) (hb : h.nextId ≤ 2 ^ 31) (hd : h.elements[v]? = some d)
    (he : h.elements[w]? = some e) (heq : (Slot.ofElement d).pub = (Slot.ofElement e).pub) : v = w := by
  have hid : (d.id : Int) = e.id := by rw [← pub_ofElement hs hb hd, ← pub_ofElement hs hb he, heq]
  exact hs.id_inj v w d.id (by simp [Heap.idOf, hd]) (by simp [Heap.idOf, he, Int.ofNat.inj hid])

theorem privOf_ofHeap (hs : h.Sound) (hb : h.nextId ≤ 2 ^ 31) : (ofHeap h).privOf[x]? = some (some v) ↔
    ∃ s : Slot, (ofHeap h).slots[v]? = some s ∧ s.removed = false ∧ s.pub.toInt = x := by
  have hget : (ofHeap h).privOf[x]? = some (some v) ↔ h.slot? x = some v := by
    rw [← resolve_ofHeap hs x]
    change _ ↔ ((ofHeap h).privOf[x]?).join = some v
    cases (ofHeap h).privOf[x]? <;> simp
  rw [hget, hs.slot?_eq_some]
  constructor
  · rintro ⟨hid, lab, hl⟩
    obtain ⟨e, he, hr, -⟩ := Heap.labelAt_eq_some.mp hl
    refine ⟨_, slots_ofHeap.mpr ⟨e, he, rfl⟩, hr, ?_⟩
    rw [pub_ofElement hs hb he]
    simpa [Heap.idOf, he] using hid
  · rintro ⟨s, hs', hr, hx⟩
    obtain ⟨e, he, rfl⟩ := slots_ofHeap.mp hs'
    rw [pub_ofElement hs hb he] at hx
    exact ⟨by simp [Heap.idOf, he, Int.ofNat.inj hx], _, Heap.labelAt_of_live he hr⟩

theorem bare_ofElement (hs : h.Sound) (he : h.elements[v]? = some e) (hr : e.removed = true) :
    e.arcs = [] ∧ (Slot.ofElement e).succ = [] ∧ e.preds = [] ∧ e.ordinal = none := by
  have hnone : h.labelAt v = none := by simp [Heap.labelAt, he, hr]
  have hout : e.arcs = [] := Heap.out_eq he ▸ hs.bare v hnone
  have hin : e.preds = [] := Heap.into_eq he ▸ hs.into_eq_nil hnone
  refine ⟨hout, by simp [Slot.ofElement, Element.successors, hout], hin, ?_⟩
  rw [← Heap.ordinalAt_eq he]
  refine hs.ordinalAt_eq_none ?_
  rintro ⟨type, ht⟩
  simp [hnone] at ht

theorem mem_pred_ofHeap (hs : h.Sound) (he : h.elements[v]? = some e) :
    u ∈ e.preds ↔ ∃ r : Slot, (ofHeap h).slots[u]? = some r ∧ v ∈ r.succ := by
  rw [← Heap.into_eq he, hs.mem_into]
  constructor
  · intro hj
    obtain ⟨lab, hl⟩ := hs.labelAt_of_joined hj
    obtain ⟨d, hd, -, -⟩ := Heap.labelAt_eq_some.mp hl
    exact ⟨_, slots_ofHeap.mpr ⟨d, hd, rfl⟩, (mem_succ hd).mpr hj⟩
  · rintro ⟨r, hr, hv⟩
    obtain ⟨d, hd, rfl⟩ := slots_ofHeap.mp hr
    exact (mem_succ hd).mp hv

theorem node_ofHeap (hn : h.IsNode v) :
    ∃ r : Slot, (ofHeap h).slots[v]? = some r ∧ r.removed = false ∧ r.kind = .node := by
  obtain ⟨type, hl⟩ := hn
  obtain ⟨e, he, hr, hlab⟩ := Heap.labelAt_eq_some.mp hl
  exact ⟨_, slots_ofHeap.mpr ⟨e, he, rfl⟩, hr, by simp [Slot.kind, Slot.ofElement, hlab, Label.kind]⟩

theorem externals_iff_ofHeap (hs : h.Sound) :
    (ofHeap h).externals[i]? = some v ↔ ∃ s : Slot, (ofHeap h).slots[v]? = some s ∧ s.ordinal = some i := by
  change h.externals[i]? = some v ↔ _
  rw [hs.getElem?_externals]
  constructor
  · intro ho
    obtain ⟨e, he, hei⟩ := Option.bind_eq_some_iff.mp ho
    exact ⟨_, slots_ofHeap.mpr ⟨e, he, rfl⟩, hei⟩
  · rintro ⟨s, hs', hi⟩
    obtain ⟨e, he, rfl⟩ := slots_ofHeap.mp hs'
    rw [Heap.ordinalAt_eq he]
    exact hi

end Drawn

theorem consistent_ofHeap (hw : h.WellFormed) (hb : h.nextId ≤ 2 ^ 31) : (ofHeap h).Consistent where
  ids_fit := by rwa [length_privOf]
  pub_fits := forall_slots fun v e he => by
    have hlt := hw.toSound.id_lt v e.id (by simp [Heap.idOf, he])
    rw [length_privOf, pub_ofElement hw.toSound hb he]
    omega
  pub_inj v w r s hr hs := by
    obtain ⟨d, hd, rfl⟩ := slots_ofHeap.mp hr
    obtain ⟨e, he, rfl⟩ := slots_ofHeap.mp hs
    exact pub_inj_ofHeap hw.toSound hb hd he
  privOf_iff _ _ := privOf_ofHeap hw.toSound hb
  removed_count := by
    change h.elements.countP Element.removed = (h.elements.map Slot.ofElement).countP Slot.removed
    rw [List.countP_map]
    rfl
  removed_bare := forall_slots fun _ _ he hr => bare_ofElement hw.toSound he hr
  succ_eq := forall_slots fun _ _ _ => rfl
  succ_nodup := forall_slots fun v _ he => (Heap.out_eq he ▸ hw.tidy v).targets
  labelled := forall_slots fun v _ he => (Heap.out_eq he ▸ hw.tidy v).labelled
  labels_nodup := forall_slots fun v _ he => (Heap.out_eq he ▸ hw.tidy v).labels
  pred_nodup := forall_slots fun v e he => show e.preds.Nodup from Heap.into_eq he ▸ hw.into_nodup v
  mem_pred u v s hs := by
    obtain ⟨e, he, rfl⟩ := slots_ofHeap.mp hs
    exact mem_pred_ofHeap hw.toSound he
  ends := forall_slots fun v e he t ht => node_ofHeap (hw.ends v t ((mem_succ he).mp ht))
  shaped := forall_slots fun v e he hr => by
    have hshape := hw.shaped v _ (Heap.labelAt_of_live he hr)
    rwa [Heap.out_eq he] at hshape
  variable_inj v w r s name hr hs hrlive hslive hrname hsname := by
    obtain ⟨d, hd, rfl⟩ := slots_ofHeap.mp hr
    obtain ⟨e, he, rfl⟩ := slots_ofHeap.mp hs
    exact hw.variable_inj v w name (Heap.labelAt_eq_some.mpr ⟨d, hd, hrlive, hrname⟩)
      (Heap.labelAt_eq_some.mpr ⟨e, he, hslive, hsname⟩)
  externals_iff _ _ := externals_iff_ofHeap hw.toSound
  ordinal_node := forall_slots fun v e he i hi => by
    obtain ⟨r, hr, hlive, hkind⟩ := node_ofHeap (hw.ordinal_node v i (by rw [Heap.ordinalAt_eq he]; exact hi))
    obtain ⟨d, hd, rfl⟩ := slots_ofHeap.mp hr
    obtain rfl := Option.some.inj (he.symm.trans hd)
    exact ⟨hlive, hkind⟩

def heap (a : Arena) : Heap := ⟨a.slots.map Slot.element, a.privOf.length⟩

section Heap

variable {v i : Nat} {s : Slot} {lab : Label}

theorem elements_heap (a : Arena) (v : Nat) : a.heap.elements[v]? = (a.slots[v]?).map Slot.element := List.getElem?_map

theorem elements_heap_of (hv : a.slots[v]? = some s) : a.heap.elements[v]? = some s.element := by
  rw [elements_heap, hv]
  rfl

theorem labelAt_heap : a.heap.labelAt v = some lab ↔ ∃ s, a.slots[v]? = some s ∧ s.removed = false ∧ s.label = lab := by
  rw [Heap.labelAt_eq_some, elements_heap]
  constructor
  · rintro ⟨e, he, hr, hl⟩
    obtain ⟨s, hs, rfl⟩ := Option.map_eq_some_iff.mp he
    exact ⟨s, hs, hr, hl⟩
  · rintro ⟨s, hs, hr, hl⟩
    exact ⟨s.element, by rw [hs]; rfl, hr, hl⟩

theorem ordinalAt_heap : a.heap.ordinalAt v = some i ↔ ∃ s, a.slots[v]? = some s ∧ s.ordinal = some i := by
  rw [Heap.ordinalAt, elements_heap, Option.bind_map, Option.bind_eq_some_iff]
  rfl

theorem idOf_heap {x : Nat} : a.heap.idOf v = some x ↔ ∃ s, a.slots[v]? = some s ∧ s.pub.toInt.toNat = x := by
  rw [Heap.idOf, elements_heap, Option.map_map, Option.map_eq_some_iff]
  rfl

theorem joined_heap (hc : a.Consistent) {u : Nat} : a.heap.Joined u v ↔ ∃ s, a.slots[u]? = some s ∧ v ∈ s.succ := by
  cases hu : a.slots[u]? with
  | none => simp [Heap.Joined, Heap.out, elements_heap, hu]
  | some s =>
    have hsucc : v ∈ s.succ ↔ Arc.Reaches s.out v := by
      rw [hc.succ_eq s (List.mem_of_getElem? hu)]
      exact Arc.mem_map_target
    rw [Heap.Joined, Heap.out_eq (elements_heap_of hu)]
    simp [hsucc, Slot.element]

end Heap

namespace Consistent

variable {u v i x : Nat}

theorem exists_pub (hc : a.Consistent) (hx : a.heap.idOf v = some x) : ∃ s, a.slots[v]? = some s ∧ s.pub.toInt = x := by
  obtain ⟨s, hs, rfl⟩ := idOf_heap.mp hx
  exact ⟨s, hs, (Int.toNat_of_nonneg (hc.pub_fits s (List.mem_of_getElem? hs)).1).symm⟩

theorem tidy_out (hc : a.Consistent) (v : Nat) : Arc.Tidy (a.heap.out v) := by
  cases hv : a.slots[v]? with
  | none =>
    rw [show a.heap.out v = [] by simp [Heap.out, elements_heap, hv]]
    exact .nil
  | some s =>
    have hmem : s ∈ a.slots := List.mem_of_getElem? hv
    rw [Heap.out_eq (elements_heap_of hv)]
    exact ⟨hc.succ_eq s hmem ▸ hc.succ_nodup s hmem, hc.labels_nodup s hmem, hc.labelled s hmem⟩

theorem nodup_into (hc : a.Consistent) (v : Nat) : (a.heap.into v).Nodup := by
  cases hv : a.slots[v]? with
  | none => simp [Heap.into, elements_heap, hv]
  | some s =>
    rw [Heap.into_eq (elements_heap_of hv)]
    exact hc.pred_nodup s (List.mem_of_getElem? hv)

theorem mem_into (hc : a.Consistent) : u ∈ a.heap.into v ↔ a.heap.Joined u v := by
  rw [joined_heap hc]
  cases hv : a.slots[v]? with
  | some s =>
    rw [Heap.into_eq (elements_heap_of hv)]
    exact hc.mem_pred u v s hv
  | none =>
    refine ⟨fun hu => by simp [Heap.into, elements_heap, hv] at hu, ?_⟩
    rintro ⟨r, hr, hrv⟩
    obtain ⟨s, hs, -⟩ := hc.ends r (List.mem_of_getElem? hr) v hrv
    simp [hv] at hs

theorem bare_out (hc : a.Consistent) (hv : a.heap.labelAt v = none) : a.heap.out v = [] := by
  cases hs : a.slots[v]? with
  | none => simp [Heap.out, elements_heap, hs]
  | some s =>
    have hr : s.removed = true := by
      by_contra hr
      rw [Bool.not_eq_true] at hr
      simp [labelAt_heap.mpr ⟨s, hs, hr, rfl⟩] at hv
    rw [Heap.out_eq (elements_heap_of hs)]
    exact (hc.removed_bare s (List.mem_of_getElem? hs) hr).1

theorem getElem?_externals (hc : a.Consistent) : a.externals[i]? = some v ↔ a.heap.ordinalAt v = some i :=
  (hc.externals_iff i v).trans ordinalAt_heap.symm

theorem sound (hc : a.Consistent) : a.heap.Sound where
  id_lt v x hx := by
    obtain ⟨s, hs, hsx⟩ := hc.exists_pub hx
    have hlt := (hc.pub_fits s (List.mem_of_getElem? hs)).2
    change x < a.privOf.length
    omega
  id_inj v w x hv hw := by
    obtain ⟨r, hr, hrx⟩ := hc.exists_pub hv
    obtain ⟨s, hs, hsx⟩ := hc.exists_pub hw
    exact hc.pub_inj v w r s hr hs (Int32.toInt.inj (hrx.trans hsx.symm))
  tidy := hc.tidy_out
  into_nodup := hc.nodup_into
  mem_into _ _ := hc.mem_into
  ends u v hj := by
    obtain ⟨r, hr, hrv⟩ := (joined_heap hc).mp hj
    obtain ⟨s, hs, hlive, hkind⟩ := hc.ends r (List.mem_of_getElem? hr) v hrv
    exact Heap.isNode_of_kind (labelAt_heap.mpr ⟨s, hs, hlive, rfl⟩) hkind
  bare _ := hc.bare_out
  ordinal_node v i hv := by
    obtain ⟨s, hs, ho⟩ := ordinalAt_heap.mp hv
    obtain ⟨hlive, hkind⟩ := hc.ordinal_node s (List.mem_of_getElem? hs) i ho
    exact Heap.isNode_of_kind (labelAt_heap.mpr ⟨s, hs, hlive, rfl⟩) hkind
  ordinal_inj v w i hv hw :=
    Option.some.inj ((hc.getElem?_externals.mpr hv).symm.trans (hc.getElem?_externals.mpr hw))
  ordinal_below v i j hv hj := by
    have hlt : j < a.externals.length := hj.trans (List.getElem?_eq_some_iff.mp (hc.getElem?_externals.mpr hv)).1
    exact ⟨a.externals[j], hc.getElem?_externals.mp (List.getElem?_eq_getElem hlt)⟩

theorem wellFormed (hc : a.Consistent) : a.heap.WellFormed where
  toSound := hc.sound
  shaped v lab hl := by
    obtain ⟨s, hs, hlive, rfl⟩ := labelAt_heap.mp hl
    rw [Heap.out_eq (elements_heap_of hs)]
    exact hc.shaped s (List.mem_of_getElem? hs) hlive
  variable_inj v w name hv hw := by
    obtain ⟨r, hr, hrlive, hrname⟩ := labelAt_heap.mp hv
    obtain ⟨s, hs, hslive, hsname⟩ := labelAt_heap.mp hw
    exact hc.variable_inj v w r s name hr hs hrlive hslive hrname hsname

theorem ofElement_element (hc : a.Consistent) {s : Slot} (hmem : s ∈ a.slots) : Slot.ofElement s.element = s := by
  have hpub : Int32.ofNat s.pub.toInt.toNat = s.pub := by
    obtain ⟨hnonneg, hlt⟩ := hc.pub_fits s hmem
    have hfit := hc.ids_fit
    rw [← Int32.toInt_inj, Int32.toInt_ofNat_of_lt (by omega), Int.toNat_of_nonneg hnonneg]
  simp only [Slot.ofElement, Slot.element, Element.successors, ← hc.succ_eq s hmem, hpub]

theorem slot?_heap (hc : a.Consistent) : a.heap.slot? x = some v ↔ a.privOf[x]? = some (some v) := by
  rw [hc.privOf_iff, hc.sound.slot?_eq_some]
  constructor
  · rintro ⟨hid, lab, hl⟩
    obtain ⟨s, hs, hsx⟩ := hc.exists_pub hid
    obtain ⟨s', hs', hlive, -⟩ := labelAt_heap.mp hl
    obtain rfl := Option.some.inj (hs.symm.trans hs')
    exact ⟨s, hs, hlive, hsx⟩
  · rintro ⟨s, hs, hlive, hsx⟩
    exact ⟨idOf_heap.mpr ⟨s, hs, by rw [hsx]; rfl⟩, s.label, labelAt_heap.mpr ⟨s, hs, hlive, rfl⟩⟩

theorem ofHeap_heap (hc : a.Consistent) : ofHeap a.heap = a := by
  have hslots : (a.slots.map Slot.element).map Slot.ofElement = a.slots := by
    rw [List.map_map]
    exact (List.map_congr_left fun s hmem => hc.ofElement_element hmem).trans (List.map_id _)
  have hremoved : (a.slots.map Slot.element).countP Element.removed = a.removedCount := by
    rw [List.countP_map, hc.removed_count]
    rfl
  have hpriv : (List.range a.privOf.length).map (fun x : Nat => a.heap.slot? x) = a.privOf := by
    refine List.ext_getElem (by simp) fun x hx hx' => Option.ext fun v => ?_
    rw [List.getElem_map, List.getElem_range, hc.slot?_heap, List.getElem?_eq_getElem hx', Option.some_inj]
  have hexternals : a.heap.externals = a.externals := by
    refine List.ext_getElem? fun i => Option.ext fun v => ?_
    rw [hc.sound.getElem?_externals, hc.getElem?_externals]
  change Arena.mk ((a.slots.map Slot.element).map Slot.ofElement) ((a.slots.map Slot.element).countP Element.removed)
    ((List.range a.privOf.length).map (fun x : Nat => a.heap.slot? x)) a.heap.externals = a
  rw [hslots, hremoved, hpriv, hexternals]

end Consistent

theorem consistent_iff : a.Consistent ↔ ∃ h : Heap, h.WellFormed ∧ h.nextId ≤ 2 ^ 31 ∧ ofHeap h = a := by
  constructor
  · intro hc
    exact ⟨a.heap, hc.wellFormed, hc.ids_fit, hc.ofHeap_heap⟩
  · rintro ⟨h, hw, hb, rfl⟩
    exact consistent_ofHeap hw hb

theorem Consistent.idle (hc : a.Consistent) (hr : a.removedCount = 0) : a.heap.Idle := by
  intro e he
  obtain ⟨s, hs, rfl⟩ := List.mem_map.mp he
  have hnone := List.countP_eq_zero.mp (hc.removed_count.symm.trans hr) s hs
  exact Bool.not_eq_true _ ▸ hnone

def decoded (h : Heap) (t : Encoding.Tables) : Arena where
  slots := h.elements.map Slot.ofElement
  privOf := t.slots
  externals := t.ordinals.filterMap id

end Arena

namespace ArenaDraft

open Arena

def ofDraft (d : Draft) : ArenaDraft := ⟨ofHeap d.heap, d.phase⟩

def morphisms (predicates : List Predicate) (first : Bool) (pattern target : ArenaDraft) :
    Except HeapError (List Morphism) := do
  let p ← pattern.settled
  let t ← target.settled
  match Graph.guardedMorphisms? predicates first p.graph t.graph with
  | some found => return found
  | none => .error .fault

inductive Reachable : ArenaDraft → Prop
  | empty : Reachable {}
  | decode {bs : Bytes} {h : Heap} {t : Encoding.Tables}
      (hr : Encoding.decodeByTables bs = Encoding.Guarded.sure (.ok (h, t))) : Reachable ⟨decoded h t, .idle⟩
  | begin {d : ArenaDraft} (hd : Reachable d) : Reachable d.begin
  | build {d : ArenaDraft} (hd : Reachable d) : Reachable d.build.1
  | perform {d : ArenaDraft} (hd : Reachable d) (e : ElementaryEdit) : Reachable (d.perform e).1
  | startEdge {d : ArenaDraft} (hd : Reachable d) (nt : Nonterminal) : Reachable (d.startEdge nt).1
  | finishEdge {d : ArenaDraft} (hd : Reachable d) (e : EdgeDraft) : Reachable (d.finishEdge e).1
  | replaceEdge {d d' replacement : ArenaDraft} {edge : Int} (hd : Reachable d) (hc : replacement.arena.Consistent)
      (hi : replacement.arena.removedCount = 0) (hr : d.replaceEdge edge replacement = (d', .ok ())) : Reachable d'
  | fold {d host pattern : ArenaDraft} {predicates : List Predicate} {first : Bool} {found : List Morphism}
      {morphism : Morphism} {ids : List Int32} (hd : Reachable d) (hh : Reachable host) (hc : pattern.arena.Consistent)
      (hi : pattern.arena.removedCount = 0) (hp : Predicate.embedding ⊆ predicates)
      (hf : morphisms predicates first pattern host = .ok found) (hm : morphism ∈ found)
      (hids : morphism.mapM host.arena.pub = .ok ids) (hsame : d.arena.state = host.arena.state) (nt : Nonterminal) :
      Reachable (d.fold pattern.arena (ids.map Int32.toInt) nt).1

theorem edit_of_ne {d : ArenaDraft} {α : Type} (hp : d.phase ≠ .built) (x : Action α) :
    d.edit x = match x d.arena with
      | .ok r a => (⟨a, .editing⟩, .ok r)
      | .error e a => (⟨a, .editing⟩, .error e) := by
  rw [edit]
  split
  · exact absurd ‹_› hp
  · rfl

theorem edit_of_built {d : ArenaDraft} {α : Type} (hp : d.phase = .built) (x : Action α) :
    d.edit x = (d, .error .builderInvalid) := by rw [edit, hp]

section OfDraft

variable {d : Draft}

theorem arena_ofDraft (d : Draft) : (ofDraft d).arena = ofHeap d.heap := rfl

theorem build_ofDraft (hs : d.heap.Sound) : (ofDraft d).build = (ofDraft d.build.1, d.build.2) := by
  obtain ⟨h, phase⟩ := d
  obtain ⟨h', hb, -⟩ := hs.build
  have hpack := pack_ofHeap hs hb
  cases phase with
  | built => rfl
  | idle => simp [ArenaDraft.build, Draft.build, ofDraft, hpack, hb]
  | editing => simp [ArenaDraft.build, Draft.build, ofDraft, hpack, hb]

theorem perform_ofDraft (hw : d.heap.WellFormed) (hb : d.heap.nextId ≤ 2 ^ 31) (e : ElementaryEdit) :
    (ofDraft d).perform e = (ofDraft (d.carryOut e).1, List.map Int32.ofNat <$> (d.carryOut e).2) := by
  rw [perform, Draft.carryOut]
  by_cases hp : d.phase = .built
  · rw [edit_of_built hp, Draft.edit_of_built hp]
    rfl
  · rw [edit_of_ne hp, Draft.edit_of_ne hp]
    rw [arena_ofDraft, perform_ofHeap hw hb]
    cases e.run d.heap <;> rfl

theorem replaceEdge_ok {d d' replacement : ArenaDraft} {edge : Int}
    (hr : d.replaceEdge edge replacement = (d', .ok ())) : d.phase ≠ .built ∧ replacement.phase ≠ .editing ∧
      ∃ b, Arena.replaceEdge edge replacement.arena d.arena = .ok () b ∧ d' = ⟨b, .editing⟩ := by
  rw [replaceEdge] at hr
  by_cases hp : d.phase = .built
  · rw [edit_of_built hp] at hr
    cases hr
  · rw [edit_of_ne hp] at hr
    split at hr
    · rename_i b hx
      cases hr
      obtain ⟨r, hset, hx⟩ := ask_run_ok hx
      rw [settled] at hset
      split at hset
      · cases hset
      · rename_i hactive
        cases hset
        exact ⟨hp, by simpa [isActive] using hactive, b, hx, rfl⟩
    · cases hr

end OfDraft

namespace Reachable

-- a heap that was read is one that edits of a new heap made
theorem steps {h : Heap} (hs : Heap.empty.Steps h) (hb : h.nextId ≤ 2 ^ 31) : Reachable ⟨ofHeap h, .editing⟩ := by
  induction hs with
  | refl => exact Reachable.empty.begin
  | @tail h h' hs hstep ih =>
    obtain ⟨e, he⟩ := hstep
    have hw := Heap.wellFormed_empty.steps hs
    obtain ⟨⟨h'', ids⟩, hrun, rfl⟩ : ∃ r, e.run h = .ok r ∧ r.1 = h' := by
      rw [← ElementaryEdit.fst_run] at he
      cases hr : e.run h with
      | error err => simp [hr] at he
      | ok r => exact ⟨r, rfl, by simpa [hr] using he⟩
    have hstate := hw.state_run e
    rw [hrun] at hstate
    have hle : h.nextId ≤ 2 ^ 31 := (HeapState.nextId_le_run hstate.symm).trans hb
    have hperform := (ih hle).perform e
    have hedit := perform_ofDraft (d := ⟨h, .editing⟩) hw hle e
    rw [Draft.carryOut, Draft.edit_of_ne (by simp)] at hedit
    change (ArenaDraft.perform ⟨ofHeap h, .editing⟩ e) = _ at hedit
    rw [hedit] at hperform
    simp only [hrun, Heap.orAbort] at hperform
    exact hperform

theorem read {source : Bytes} {parsed : HeapFile.HeapDef} (hr : HeapFile.readHeap source = .ok parsed)
    (hb : parsed.heap.nextId ≤ 2 ^ 31) : Reachable ⟨ofHeap parsed.heap, .built⟩ := by
  obtain ⟨k, hsteps, hbuild⟩ := HeapFile.built_readHeap hr
  have hw := Heap.wellFormed_empty.steps hsteps
  have hnext : parsed.heap.nextId = k.nextId := congrArg HeapView.nextId (hw.build hbuild).2.2
  have hbuilt := (steps hsteps (hnext ▸ hb)).build
  have hpack := build_ofDraft (d := ⟨k, .editing⟩) hw.toSound
  change (ArenaDraft.build ⟨ofHeap k, .editing⟩) = _ at hpack
  rw [hpack] at hbuilt
  simp only [Draft.build, hbuild] at hbuilt
  exact hbuilt

end Reachable

variable {d : ArenaDraft}

end ArenaDraft

end HeapAbstraction
