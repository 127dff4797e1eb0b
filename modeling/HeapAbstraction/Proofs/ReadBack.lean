import HeapAbstraction.Proofs.RoundTrip
import HeapAbstraction.Proofs.Representation

namespace HeapAbstraction

namespace Encoding

structure Sized (e : Element) : Prop where
  name : e.label.name.length < lengthBound
  rank : e.label.rank.toNat ≤ lengthBound
  ordinal : ∀ i, e.ordinal = some i → i < lengthBound
  id : e.id ≤ lengthBound
  arcs : e.arcs.length ≤ lengthBound
  target : ∀ a ∈ e.arcs, a.target ≤ lengthBound
  labels : ∀ a ∈ e.arcs, a.labels.length ≤ lengthBound
  selector : ∀ a ∈ e.arcs, ∀ s, .selector s ∈ a.labels → s.length < lengthBound
  tentacle : ∀ a ∈ e.arcs, ∀ i, .tentacle i ∈ a.labels → i < lengthBound

variable {ids n limit : Nat} {e : Element} {rest : Bytes}

theorem eq_of_getNat_write {x : Nat} {r : Nat × Bytes} (hx : x ≤ lengthBound)
    (h : getNat limit (Varint.write x ++ rest) = .ok r) : r = (x, rest) := by
  have hsmall : x < 0x10000000000000000 := by
    rw [lengthBound] at hx
    omega
  rw [getNat, Varint.read_write hsmall] at h
  simp only at h
  split at h
  · cases h
  · exact (Except.ok.inj h).symm

theorem eq_of_getList_flatMap {α β : Type} {put : α → Bytes} {get : Reader β} {raw : α → β} {as : List α}
    {r : List β × Bytes} (hget : ∀ a ∈ as, ∀ rest r, get (put a ++ rest) = .ok r → r = (raw a, rest))
    (h : getList get as.length (as.flatMap put ++ rest) = .ok r) : r = (as.map raw, rest) := by
  induction as generalizing r with
  | nil => exact (Except.ok.inj h).symm
  | cons a as ih =>
    obtain ⟨ha, has⟩ := List.forall_mem_cons.mp hget
    rw [List.flatMap_cons, List.append_assoc] at h
    obtain ⟨r₁, h₁, h⟩ := bind_ok h
    obtain rfl := ha _ _ h₁
    obtain ⟨r₂, h₂, h⟩ := bind_ok h
    obtain rfl := ih has h₂
    exact (Except.ok.inj h).symm

theorem eq_of_getLabel_putLabel {l : EdgeLabel} {r : RawLabel × Bytes} (hs : ∀ s, l = .selector s → s.length < lengthBound)
    (ht : ∀ i, l = .tentacle i → i < lengthBound) (h : getLabel (putLabel l ++ rest) = .ok r) : r = (rawLabel l, rest) := by
  cases l with
  | selector s =>
    rw [putLabel, List.append_assoc] at h
    obtain ⟨r₁, h₁, h⟩ := bind_ok h
    obtain rfl := Except.ok.inj ((getString_writeString (hs s rfl)).symm.trans h₁)
    obtain ⟨r₂, h₂, h⟩ := bind_ok h
    obtain rfl := eq_of_getNat_write (Nat.zero_le _) h₂
    exact (Except.ok.inj h).symm
  | tentacle i =>
    rw [putLabel, List.append_assoc] at h
    obtain ⟨r₁, h₁, h⟩ := bind_ok h
    obtain rfl := Except.ok.inj ((getString_writeString (by decide)).symm.trans h₁)
    obtain ⟨r₂, h₂, h⟩ := bind_ok h
    obtain rfl := eq_of_getNat_write (ht i rfl) h₂
    exact (Except.ok.inj h).symm

theorem eq_of_getArc_putArc (he : Sized e) {a : Arc} (ha : a ∈ e.arcs) {r : RawArc × Bytes}
    (h : getArc n (putArc a ++ rest) = .ok r) : r = (rawArc a, rest) := by
  have hlabels : ∀ l ∈ a.labels, ∀ rest r, getLabel (putLabel l ++ rest) = .ok r → r = (rawLabel l, rest) :=
    fun l hl rest r => eq_of_getLabel_putLabel (fun s hs => he.selector a ha s (hs ▸ hl))
      fun i hi => he.tentacle a ha i (hi ▸ hl)
  rw [getArc, putArc, List.append_assoc, List.append_assoc] at h
  obtain ⟨r₁, h₁, h⟩ := bind_ok h
  obtain rfl := eq_of_getNat_write (he.target a ha) h₁
  obtain ⟨r₂, h₂, h⟩ := bind_ok h
  obtain rfl := eq_of_getNat_write (he.labels a ha) h₂
  obtain ⟨r₃, h₃, h⟩ := bind_ok h
  obtain rfl := eq_of_getList_flatMap hlabels h₃
  exact (Except.ok.inj h).symm

theorem eq_of_getElement_putElement (he : Sized e) {r : RawElement × Bytes}
    (h : getElement ids n (putElement e ++ rest) = .ok r) : r = (rawElement e, rest) := by
  have hkind : e.kind.code ≤ lengthBound := by cases e.kind <;> decide
  have harcs : ∀ a ∈ e.arcs, ∀ rest r, getArc n (putArc a ++ rest) = .ok r → r = (rawArc a, rest) :=
    fun a ha rest r => eq_of_getArc_putArc he ha
  -- the ordinal is written as its successor, or as zero
  obtain ⟨ordinal, hord, hle, hput⟩ : ∃ ordinal, fromSuccessor ordinal = e.ordinal ∧ ordinal ≤ lengthBound ∧
      putElement e = Varint.write e.kind.code ++ (Varint.writeString e.label.name ++
        (Varint.write e.label.rank.toNat ++ (Varint.write ordinal ++ (Varint.write e.id ++
          (Varint.write e.arcs.length ++ e.arcs.flatMap putArc))))) := by
    simp only [putElement, List.append_assoc]
    cases ho : e.ordinal with
    | none => exact ⟨0, rfl, Nat.zero_le _, rfl⟩
    | some i => exact ⟨i + 1, rfl, he.ordinal i ho, rfl⟩
  rw [hput, getElement] at h
  simp only [List.append_assoc] at h
  obtain ⟨r₁, h₁, h⟩ := bind_ok h
  obtain rfl := eq_of_getNat_write hkind h₁
  obtain ⟨r₂, h₂, h⟩ := bind_ok h
  obtain rfl := Except.ok.inj ((getString_writeString he.name).symm.trans h₂)
  obtain ⟨r₃, h₃, h⟩ := bind_ok h
  obtain rfl := eq_of_getNat_write he.rank h₃
  obtain ⟨r₄, h₄, h⟩ := bind_ok h
  obtain rfl := eq_of_getNat_write hle h₄
  obtain ⟨r₅, h₅, h⟩ := bind_ok h
  obtain rfl := eq_of_getNat_write he.id h₅
  obtain ⟨r₆, h₆, h⟩ := bind_ok h
  obtain rfl := eq_of_getNat_write he.arcs h₆
  obtain ⟨r₇, h₇, h⟩ := bind_ok h
  obtain rfl := eq_of_getList_flatMap harcs h₇
  rw [← Except.ok.inj h, rawElement, ← hord]

theorem eq_of_getElements_flatMap {es : List Element} (hes : ∀ e ∈ es, Sized e) {done : List RawElement}
    {r : List RawElement × Bytes} (h : getElements ids n es.length done (es.flatMap putElement ++ rest) = .ok r) :
    r = (done ++ es.map rawElement, rest) := by
  induction es generalizing done with
  | nil => simpa [getElements] using (Except.ok.inj h).symm
  | cons e es ih =>
    obtain ⟨he, hes⟩ := List.forall_mem_cons.mp hes
    rw [List.flatMap_cons, List.append_assoc] at h
    obtain ⟨r₁, h₁, h⟩ := bind_ok h
    obtain rfl := eq_of_getElement_putElement he h₁
    have hstep : getElements ids n es.length (done ++ [rawElement e]) (es.flatMap putElement ++ rest) = .ok r := by
      simp only at h
      split at h
      · cases h
      · split at h
        · split at h
          · cases h
          · exact h
        · exact h
    rw [ih hes hstep, List.append_assoc]
    rfl

end Encoding

namespace Heap

open Encoding

structure Within (h : Heap) (ids small : Nat) : Prop where
  ids : h.nextId ≤ ids
  name : ∀ e ∈ h.elements, e.label.name.length < lengthBound
  rank : ∀ e ∈ h.elements, e.label.rank ≤ small
  labels : ∀ e ∈ h.elements, ∀ a ∈ e.arcs, a.labels.length ≤ small
  selector : ∀ e ∈ h.elements, ∀ a ∈ e.arcs, ∀ l ∈ a.labels, l.isSelector = true → l.name.length < lengthBound

def Named (h : Heap) : Prop := ∀ e ∈ h.elements, ∀ a ∈ e.arcs, .selector [] ∉ a.labels

instance (h : Heap) : Decidable h.Named := inferInstanceAs (Decidable (∀ e ∈ h.elements, _))

variable {h k : Heap} {v ids small : Nat} {e : Element}

theorem Within.mono (hb : h.Within ids small) {ids' small' : Nat} (hids : ids ≤ ids') (hsmall : small ≤ small') :
    h.Within ids' small' where
  ids := hb.ids.trans hids
  name := hb.name
  rank e he := (hb.rank e he).trans (Int.ofNat_le.mpr hsmall)
  labels e he a ha := (hb.labels e he a ha).trans hsmall
  selector := hb.selector

theorem Within.sized (hb : h.Within lengthBound lengthBound) (hw : h.WellFormed) (hi : h.Idle)
    (he : h.elements[v]? = some e) : Sized e := by
  have hmem := List.mem_of_getElem? he
  have hs := hw.toSound
  have hlen : h.elements.length ≤ lengthBound := hs.length_le.trans hb.ids
  have hrank : e.label.rank.toNat ≤ lengthBound := Int.toNat_le.mpr (hb.rank e hmem)
  exact {
    name := hb.name e hmem
    rank := hrank
    ordinal := fun i hi => (hs.ordinal_lt he hi).trans_le hlen
    id := (hs.id_lt v e.id (by simp [idOf, he])).le.trans hb.ids
    arcs := (hs.arcs_le he).trans hlen
    target := fun a ha => (hs.target_lt he ha).le.trans hlen
    labels := hb.labels e hmem
    selector := fun a ha s hs => hb.selector e hmem a ha _ hs rfl
    tentacle := fun a ha i hl => (hw.tentacle_lt hi he ha hl).trans_le (max_le (by decide) hrank) }

theorem Within.valid_of_decode (hb : h.Within lengthBound lengthBound) (hw : h.WellFormed) (hi : h.Idle)
    (hd : Heap.decode h.encode = .ok k) : h.nextId ≤ maxPublicIds ∧ Valid h.nextId h.raw := by
  have hlen : h.elements.length ≤ lengthBound := hw.toSound.length_le.trans hb.ids
  have hsized : ∀ e ∈ h.elements, Sized e := by
    intro e he
    obtain ⟨v, hv⟩ := List.mem_iff_getElem?.mp he
    exact hb.sized hw hi hv
  obtain ⟨bs₁, bs₂, bs₃, rest, ids, count, es, hversion, hids, hcount, hes, hv, -⟩ := decode_reads hd
  have hwritten : h.encode = Varint.write version ++ (Varint.write h.nextId ++ (Varint.write h.elements.length ++
      (h.elements.flatMap putElement ++ []))) := by
    rw [encode, List.append_nil, List.append_assoc, List.append_assoc]
  -- whatever is read is what was written, so it is the elements of the heap that passed the checks
  rw [hwritten] at hversion
  cases eq_of_getNat_write (by decide) hversion
  have hle := getNat_le hids
  cases eq_of_getNat_write hb.ids hids
  cases eq_of_getNat_write hlen hcount
  cases eq_of_getElements_flatMap hsized hes
  exact ⟨hle, hv⟩

theorem Within.encodable_of_decode (hb : h.Within lengthBound lengthBound) (hw : h.WellFormed) (hi : h.Idle)
    (hd : Heap.decode h.encode = .ok k) : h.Encodable := by
  obtain ⟨hids, hv⟩ := hb.valid_of_decode hw hi hd
  refine hw.encodable_of_valid hi hids hv fun v e he => ?_
  have hmem : rawElement e ∈ h.raw := List.mem_map_of_mem (List.mem_of_getElem? he)
  exact ⟨_, hmem, (hw.label_rawElement hi he).symm, (arcsOf_rawArc e.arcs).symm⟩

theorem Within.exists_decode_iff (hb : h.Within lengthBound lengthBound) (hw : h.WellFormed) (hi : h.Idle) :
    (∃ k, Heap.decode h.encode = .ok k) ↔ h.Encodable := by
  refine ⟨fun ⟨k, hk⟩ => hb.encodable_of_decode hw hi hk, fun hh => ?_⟩
  have hdecode := hh.decode_encode []
  rw [List.append_nil] at hdecode
  exact ⟨_, hdecode⟩

theorem Within.encodable_iff (hb : h.Within maxPublicIds maxSmall) (hw : h.WellFormed) (hi : h.Idle) :
    h.Encodable ↔ h.Named := by
  constructor
  · intro hh e he a ha hempty
    exact (hh.selector e he a ha _ hempty rfl).1 rfl
  · intro hn
    refine { toWellFormed := hw, idle := hi, ids := hb.ids, name := hb.name, rank := hb.rank, labels := hb.labels,
             selector := fun e he a ha l hl hs => ?_ }
    cases l with
    | selector s =>
      refine ⟨fun hs => hn e he a ha ?_, hb.selector e he a ha _ hl rfl⟩
      rwa [show s = [] from hs] at hl
    | tentacle i => cases hs

end Heap

namespace Draft

open Encoding

variable {d : Draft}

theorem exists_decode_encode_iff (hd : d.Reachable) (ha : d.isActive = false)
    (hb : d.heap.Within maxPublicIds maxSmall) : (∃ h, Heap.decode d.heap.encode = .ok h) ↔ d.heap.Named := by
  have hw := hd.kept.wellFormed
  have hi : d.heap.Idle := hd.kept.idle (by simpa [isActive] using ha)
  exact ((hb.mono (by decide) (by decide)).exists_decode_iff hw hi).trans (hb.encodable_iff hw hi)

theorem exists_decode_encode_knot : (∃ d : Draft, d.Reachable ∧ d.isActive = false ∧ d.heap = Heap.knot) ∧
    Heap.knot.Within maxPublicIds maxSmall ∧ Heap.knot.Named ∧ ∃ h, Heap.decode Heap.knot.encode = .ok h := by
  have h1 := Reachable.empty.perform (.addNodes "N" 3)
  have h2 := ((h1.perform (.removeIsolatedNode 1)).build).begin
  have h3 := (h2.perform (.addSelector 2 "next" 0)).perform (.addVariable "x" 0)
  have h4 := (h3.perform (.addSelector 0 "self" 0)).perform (.addNonterminal ⟨"L", 2⟩ [2, 0])
  have h5 : Reachable ⟨Heap.knot, .built⟩ := (h4.perform (.setExternal 2)).build
  have hb : Heap.knot.Within maxPublicIds maxSmall := ⟨by decide, by decide, by decide, by decide, by decide⟩
  have hn : Heap.knot.Named := by decide
  exact ⟨⟨_, h5, rfl, rfl⟩, hb, hn, (exists_decode_encode_iff h5 rfl hb).mpr hn⟩

theorem decode_encode_nameless : ∃ d₁ d₂ d₃ : Draft,
    perform ⟨.empty, .idle⟩ (.addNodes "N" 2) = (d₁, .ok ()) ∧ d₁.perform (.addSelector 0 "" 1) = (d₂, .ok ()) ∧
    d₂.build = (d₃, .ok ()) ∧ d₃.Reachable ∧ d₃.isActive = false ∧ d₃.heap.Within maxPublicIds maxSmall ∧
      Heap.decode d₃.heap.encode = .error (.misshapen (.badSelector "" 1 0)) := by
  have h1 := (Reachable.empty.perform (.addNodes "N" 2)).perform (.addSelector 0 "" 1)
  exact ⟨_, _, _, rfl, rfl, rfl, h1.build, rfl, ⟨by decide, by decide, by decide, by decide, by decide⟩, rfl⟩

end Draft

end HeapAbstraction
