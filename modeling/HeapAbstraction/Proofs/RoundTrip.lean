import HeapAbstraction.Proofs.Decoding
import HeapAbstraction.Proofs.Answers
import HeapAbstraction.Proofs.Unfolding

namespace HeapAbstraction

namespace Encoding

def rawLabel : EdgeLabel → RawLabel
  | .selector s => ⟨s, none⟩
  | .tentacle i => ⟨[], some i⟩

def rawArc (a : Arc) : RawArc := ⟨a.target, a.labels.map rawLabel⟩

def rawElement (e : Element) : RawElement :=
  ⟨e.kind.code, e.label.name, e.label.rank.toNat, e.ordinal, e.id, e.arcs.map rawArc⟩

structure Readable (ids n : Nat) (e : Element) : Prop where
  name : e.label.name.length < lengthBound
  rank : e.label.rank.toNat ≤ maxSmall
  ordinal : ∀ i, e.ordinal = some i → i < n
  id : e.id ≤ ids - 1
  arcs : e.arcs.length ≤ n
  target : ∀ a ∈ e.arcs, a.target ≤ n - 1
  labels : ∀ a ∈ e.arcs, a.labels.length ≤ maxSmall
  selector : ∀ a ∈ e.arcs, ∀ s, .selector s ∈ a.labels → s.length < lengthBound
  tentacle : ∀ a ∈ e.arcs, ∀ i, .tentacle i ∈ a.labels → i < maxSmall

variable {ids n limit : Nat} {e : Element} {rest : Bytes}

theorem getNat_write {x : Nat} (hx : x ≤ limit) (hl : limit ≤ maxPublicIds) :
    getNat limit (Varint.write x ++ rest) = .ok (x, rest) := by
  have hsmall : x < 0x10000000000000000 := by
    rw [maxPublicIds] at hl
    omega
  rw [getNat, Varint.read_write hsmall]
  exact if_neg (Nat.not_lt.mpr hx)

theorem getString_writeString {s : Bytes} (hs : s.length < lengthBound) :
    getString (Varint.writeString s ++ rest) = .ok (s, rest) := by
  rw [getString, Varint.readString_writeString hs]

theorem maxSmall_le : maxSmall ≤ maxPublicIds := by decide

theorem getList_flatMap {α β : Type} {put : α → Bytes} {get : Reader β} {raw : α → β} {as : List α}
    (hget : ∀ a ∈ as, ∀ rest, get (put a ++ rest) = .ok (raw a, rest)) :
    getList get as.length (as.flatMap put ++ rest) = .ok (as.map raw, rest) := by
  induction as with
  | nil => rfl
  | cons a as ih =>
    obtain ⟨ha, has⟩ := List.forall_mem_cons.mp hget
    rw [List.flatMap_cons, List.append_assoc, List.length_cons, getList, ha]
    simp only [bind, Except.bind, ih has]
    rfl

theorem getLabel_putLabel {l : EdgeLabel} (hs : ∀ s, l = .selector s → s.length < lengthBound)
    (ht : ∀ i, l = .tentacle i → i < maxSmall) : getLabel (putLabel l ++ rest) = .ok (rawLabel l, rest) := by
  cases l with
  | selector s =>
    rw [getLabel, putLabel, List.append_assoc, getString_writeString (hs s rfl)]
    simp only [bind, Except.bind, getNat_write (Nat.zero_le _) maxSmall_le]
    rfl
  | tentacle i =>
    rw [getLabel, putLabel, List.append_assoc, getString_writeString (by decide)]
    simp only [bind, Except.bind, getNat_write (Nat.succ_le_of_lt (ht i rfl)) maxSmall_le]
    rfl

theorem getArc_putArc (hn : n ≤ maxPublicIds) (he : Readable ids n e) {a : Arc} (ha : a ∈ e.arcs) :
    getArc n (putArc a ++ rest) = .ok (rawArc a, rest) := by
  have hlabels : ∀ l ∈ a.labels, ∀ rest, getLabel (putLabel l ++ rest) = .ok (rawLabel l, rest) := by
    intro l hl rest
    refine getLabel_putLabel (fun s hs => he.selector a ha s (hs ▸ hl)) fun i hi => he.tentacle a ha i (hi ▸ hl)
  rw [getArc, putArc, List.append_assoc, List.append_assoc, getNat_write (he.target a ha) (by omega)]
  simp only [bind, Except.bind, getNat_write (he.labels a ha) maxSmall_le, getList_flatMap hlabels]
  rfl

theorem getElement_putElement (hn : n ≤ maxPublicIds) (hids : ids ≤ maxPublicIds) (he : Readable ids n e) :
    getElement ids n (putElement e ++ rest) = .ok (rawElement e, rest) := by
  have hkind : e.kind.code ≤ 3 := by cases e.kind <;> decide
  have harcs : ∀ a ∈ e.arcs, ∀ rest, getArc n (putArc a ++ rest) = .ok (rawArc a, rest) :=
    fun a ha rest => getArc_putArc hn he ha
  have hid (rest : Bytes) : getNat (ids - 1) (Varint.write e.id ++ rest) = .ok (e.id, rest) :=
    getNat_write he.id (by omega)
  rw [getElement, putElement]
  simp only [List.append_assoc]
  rw [getNat_write hkind (by decide)]
  simp only [bind, Except.bind, getString_writeString he.name, getNat_write he.rank maxSmall_le]
  cases ho : e.ordinal with
  | none =>
    simp only [getNat_write (Nat.zero_le n) hn, hid, getNat_write he.arcs hn, getList_flatMap harcs]
    simp only [rawElement, ho]
    rfl
  | some i =>
    simp only [getNat_write (Nat.succ_le_of_lt (he.ordinal i ho)) hn, hid, getNat_write he.arcs hn, getList_flatMap harcs]
    simp only [rawElement, ho]
    rfl

theorem getElements_flatMap (hn : n ≤ maxPublicIds) (hids : ids ≤ maxPublicIds) {es : List Element}
    {done : List RawElement} (hes : ∀ e ∈ es, Readable ids n e)
    (hid : (done ++ es.map rawElement).Pairwise (fun d e => d.id ≠ e.id))
    (hord : (done ++ es.map rawElement).Pairwise (fun d e => ∀ i, d.ordinal = some i → e.ordinal ≠ some i)) :
    getElements ids n es.length done (es.flatMap putElement ++ rest) = .ok (done ++ es.map rawElement, rest) := by
  induction es generalizing done with
  | nil => simp [getElements]
  | cons e es ih =>
    obtain ⟨he, hes⟩ := List.forall_mem_cons.mp hes
    have hsplit : done ++ (e :: es).map rawElement = (done ++ [rawElement e]) ++ es.map rawElement := by simp
    have hfresh : done.any (fun d => d.id == (rawElement e).id) = false := by
      rw [List.any_eq_false]
      intro d hd
      simpa using (List.pairwise_append.mp hid).2.2 d hd (rawElement e) (by simp)
    have hfree (i : Nat) (hi : (rawElement e).ordinal = some i) : done.any (fun d => d.ordinal == some i) = false := by
      rw [List.any_eq_false]
      intro d hd
      have hne := (List.pairwise_append.mp hord).2.2 d hd (rawElement e) (by simp)
      simpa using fun hdi => hne i hdi hi
    rw [hsplit] at hid hord ⊢
    rw [List.flatMap_cons, List.append_assoc, List.length_cons, getElements, getElement_putElement hn hids he]
    simp only [bind, Except.bind, hfresh, Bool.false_eq_true, if_false]
    cases ho : (rawElement e).ordinal with
    | none => exact ih hes hid hord
    | some i =>
      simp only [hfree i ho, Bool.false_eq_true, if_false]
      exact ih hes hid hord

theorem edgeLabel_rawLabel (l : EdgeLabel) : RawElement.edgeLabel (rawLabel l) = l := by cases l <;> rfl

theorem map_edgeLabel (ls : List EdgeLabel) : (ls.map rawLabel).map RawElement.edgeLabel = ls := by
  rw [List.map_map]
  exact List.map_id'' edgeLabel_rawLabel ls

theorem arcsOf_rawArc (as : List Arc) : RawElement.arcsOf (as.map rawArc) = as := by
  rw [RawElement.arcsOf, List.map_map]
  refine List.map_id'' (fun a => ?_) as
  simp only [Function.comp_apply, rawArc, map_edgeLabel]

namespace RawElement

variable {es : List RawElement} {r : RawElement} {v : Nat} {selectors : List Bytes} {tentacles targets : List Nat}

theorem checkLabels_rawLabel {ls : List EdgeLabel} (hn : ls.Nodup)
    (hnew : ∀ l ∈ ls, ¬ Seen selectors tentacles l ∧ r.Admits l) :
    ∃ seen, checkLabels r v selectors tentacles (ls.map rawLabel) = .ok seen := by
  induction ls generalizing selectors tentacles with
  | nil => exact ⟨_, rfl⟩
  | cons l ls ih =>
    obtain ⟨hl, hls⟩ := List.nodup_cons.mp hn
    obtain ⟨⟨hfresh, hadmits⟩, hrest⟩ := List.forall_mem_cons.mp hnew
    have hnext (ss : List Bytes) (ts : List Nat) (hseen : ∀ m, Seen ss ts m → Seen selectors tentacles m ∨ m = l) :
        ∃ seen, checkLabels r v ss ts (ls.map rawLabel) = .ok seen := by
      apply ih hls
      intro m hm
      refine ⟨fun hs => ?_, (hrest m hm).2⟩
      rcases hseen m hs with hs | rfl
      · exact (hrest m hm).1 hs
      · exact hl hm
    cases l with
    | selector s =>
      obtain ⟨hkind, hs⟩ := hadmits
      have hmem : s ∉ selectors := hfresh
      have hstep : checkLabels r v selectors tentacles ((.selector s :: ls).map rawLabel) =
          checkLabels r v (s :: selectors) tentacles (ls.map rawLabel) := by
        rw [List.map_cons, checkLabels]
        simp [rawLabel, hkind, hs, hmem]
      rw [hstep]
      apply hnext
      intro m hm
      cases m with
      | selector s' => simpa [Seen, or_comm] using hm
      | tentacle i => exact .inl hm
    | tentacle i =>
      have hlt : i < r.tentacleCount := hadmits
      have hmem : i ∉ tentacles := hfresh
      have hstep : checkLabels r v selectors tentacles ((.tentacle i :: ls).map rawLabel) =
          checkLabels r v selectors (i :: tentacles) (ls.map rawLabel) := by
        rw [List.map_cons, checkLabels]
        simp [rawLabel, Nat.not_le.mpr hlt, hmem]
      rw [hstep]
      apply hnext
      intro m hm
      cases m with
      | selector s => exact .inl hm
      | tentacle j => simpa [Seen, or_comm] using hm

theorem checkArcs_rawArc {as : List Arc} (ht : Arc.Tidy as)
    (hends : ∀ t, Arc.Reaches as t → t ∉ targets ∧ kindAt es t = 1)
    (hnew : ∀ l t, Arc.Carries as l t → ¬ Seen selectors tentacles l ∧ r.Admits l) :
    ∃ found, checkArcs es r v targets selectors tentacles (as.map rawArc) = .ok found := by
  induction as generalizing targets selectors tentacles with
  | nil => exact ⟨_, rfl⟩
  | cons a as ih =>
    obtain ⟨hreach, hnodup, hne, hapart, htidy⟩ := Arc.tidy_cons.mp ht
    obtain ⟨htarget, hkind⟩ := hends a.target (by simp)
    have hlabels := checkLabels_rawLabel (v := v) hnodup fun l hl => hnew l a.target (by simp [hl])
    obtain ⟨⟨ss, ts⟩, hok⟩ := hlabels
    obtain ⟨-, -, hseen⟩ := checkLabels_ok hok
    rw [map_edgeLabel] at hseen
    have hstep : checkArcs es r v targets selectors tentacles ((a :: as).map rawArc) =
        checkArcs es r v (a.target :: targets) ss ts (as.map rawArc) := by
      rw [List.map_cons, checkArcs]
      simp only [rawArc] at hok ⊢
      simp [htarget, hne, hkind, hok, bind, Except.bind]
    rw [hstep]
    refine ih htidy (fun t hr => ?_) fun l t hc => ?_
    · refine ⟨fun hmem => ?_, (hends t (by simp [hr])).2⟩
      rcases List.mem_cons.mp hmem with rfl | hmem
      · exact hreach hr
      · exact (hends t (by simp [hr])).1 hmem
    · obtain ⟨hfresh, hadmits⟩ := hnew l t (by simp [hc])
      refine ⟨fun hs => ?_, hadmits⟩
      rcases (hseen l).mp hs with hs | hl
      · exact hfresh hs
      · exact hapart l hl t hc

theorem checkKind_rawElement {e : Element} {taken : List Bytes} (hn : e.kind = .variable → e.label.name ∉ taken) :
    (rawElement e).checkKind v taken = .ok () := by
  have hcode : Kind.ofCode? (rawElement e).kind = some e.label.kind := Kind.ofCode?_code _
  rw [checkKind, hcode]
  cases hl : e.label with
  | node type => simp [rawElement, hl, Label.kind, Label.rank]
  | nonterminal nt => rfl
  | «variable» name =>
    have hfree : name ∉ taken := by simpa [Element.kind, hl, Label.kind, Label.name] using hn
    simp [rawElement, hl, Label.kind, Label.rank, Label.name, hfree]

theorem check_rawElement {e : Element} {taken : List Bytes} (hc : (rawElement e).Checked es)
    (hn : e.kind = .variable → e.label.name ∉ taken) : (rawElement e).check es v taken = .ok () := by
  have htidy := hc.tidy
  have hends := hc.ends
  have hadmits := hc.admits
  have harcs : arcsOf (rawElement e).arcs = e.arcs := arcsOf_rawArc e.arcs
  rw [harcs] at htidy hends hadmits
  have hok := checkArcs_rawArc (v := v) htidy (fun t ht => ⟨List.not_mem_nil, hends t ht⟩) fun l t hl =>
    ⟨by cases l <;> exact List.not_mem_nil, hadmits l t hl⟩
  obtain ⟨found, hfound⟩ := hok
  have hall : (List.range (rawElement e).tentacleCount).find? (fun i => !found.contains i) = none := by
    rw [List.find?_eq_none]
    intro i hi
    obtain ⟨t, ht⟩ := hc.complete i (List.mem_range.mp hi)
    have hmem := ((checkArcs_ok hfound).2.2.2 i).mpr (.inr ⟨t, ht⟩)
    simpa using hmem
  have hexternal : ¬ ((rawElement e).ordinal.isSome ∧ (rawElement e).kind ≠ 1) := fun h => h.2 (hc.ordinal h.1)
  change checkArcs es (rawElement e) v [] [] [] (rawElement e).arcs = .ok found at hfound
  rw [check, checkKind_rawElement hn]
  simp only [bind, Except.bind, if_neg hexternal, hfound, hall]

theorem checkFrom_rawElement {xs : List Element} {taken : List Bytes} (hc : ∀ e ∈ xs, (rawElement e).Checked es)
    (hfree : ∀ e ∈ xs, e.kind = .variable → e.label.name ∉ taken)
    (hapart : xs.Pairwise (fun d e => d.kind = .variable → e.kind = .variable → d.label.name ≠ e.label.name)) :
    checkFrom es v taken (xs.map rawElement) = .ok () := by
  induction xs generalizing v taken with
  | nil => rfl
  | cons e xs ih =>
    obtain ⟨he, hxs⟩ := List.forall_mem_cons.mp hc
    obtain ⟨hname, hnames⟩ := List.forall_mem_cons.mp hfree
    obtain ⟨hne, hapart⟩ := List.pairwise_cons.mp hapart
    rw [List.map_cons, checkFrom, check_rawElement he hname]
    apply ih hxs _ hapart
    intro d hd hk
    split
    · rename_i hcode
      have hek : e.kind = .variable := by
        have hkind := Kind.ofCode?_code e.kind
        rw [show e.kind.code = 3 from hcode] at hkind
        exact (Option.some.inj hkind).symm
      simp only [List.mem_cons, not_or]
      exact ⟨(hne d hd hek hk).symm, hnames d hd hk⟩
    · exact hnames d hd hk

end RawElement

theorem RawElement.name_label (r : RawElement) : r.label.name = r.name := by
  rw [label]
  split <;> rfl

theorem RawElement.rank_label_le (r : RawElement) : r.label.rank ≤ r.rank := by
  rw [label]
  split <;> simp [Label.rank]

theorem edgeLabel_of_isSelector {l : RawLabel} (hl : (RawElement.edgeLabel l).isSelector = true) :
    RawElement.edgeLabel l = .selector l.selector := by
  rw [RawElement.edgeLabel] at hl ⊢
  split at hl
  · cases hl
  · rfl

theorem length_putElement (e : Element) : minElementBytes ≤ (putElement e).length := by
  have hput : ∃ ordinal, putElement e = Varint.write e.kind.code ++ Varint.writeString e.label.name ++
      Varint.write e.label.rank.toNat ++ Varint.write ordinal ++ Varint.write e.id ++ Varint.write e.arcs.length ++
        e.arcs.flatMap putArc := ⟨_, rfl⟩
  obtain ⟨ordinal, hput⟩ := hput
  have h1 := Varint.length_write_pos e.kind.code
  have h2 := Varint.length_write_pos e.label.name.length
  have h3 := Varint.length_write_pos e.label.rank.toNat
  have h4 := Varint.length_write_pos ordinal
  have h5 := Varint.length_write_pos e.id
  have h6 := Varint.length_write_pos e.arcs.length
  simp only [hput, Varint.writeString, List.length_append, minElementBytes]
  omega

theorem length_flatMap_putElement (es : List Element) : minElementBytes * es.length ≤ (es.flatMap putElement).length := by
  induction es with
  | nil => simp
  | cons e es ih =>
    have := length_putElement e
    rw [List.flatMap_cons, List.length_append, List.length_cons, Nat.mul_succ]
    omega

end Encoding

namespace Heap

open Encoding

-- a heap that edits can leave behind, within the limits of the format. Selectors have names, and no string is longer
-- than its length can tell
structure Encodable (h : Heap) : Prop extends WellFormed h where
  idle : h.Idle
  ids : h.nextId ≤ maxPublicIds
  name : ∀ e ∈ h.elements, e.label.name.length < lengthBound
  rank : ∀ e ∈ h.elements, e.label.rank ≤ maxSmall
  labels : ∀ e ∈ h.elements, ∀ a ∈ e.arcs, a.labels.length ≤ maxSmall
  selector : ∀ e ∈ h.elements, ∀ a ∈ e.arcs, ∀ l ∈ a.labels, l.isSelector = true →
    l.name ≠ [] ∧ l.name.length < lengthBound

def raw (h : Heap) : List RawElement := h.elements.map rawElement

variable {h k : Heap} {v : Nat} {e : Element}

theorem length_le_of_nodup {ns : List Nat} (hn : ns.Nodup) {bound : Nat} (hb : ∀ n ∈ ns, n < bound) : ns.length ≤ bound := by
  have hsub : ns ⊆ List.range bound := fun n hm => List.mem_range.mpr (hb n hm)
  simpa using (hn.subperm hsub).length_le

theorem linked_of_mem {a : Arc} {l : EdgeLabel} (he : h.elements[v]? = some e) (ha : a ∈ e.arcs) (hl : l ∈ a.labels) :
    h.Linked v l a.target := by
  rw [Linked, out_eq he]
  exact ⟨a, ha, rfl, hl⟩

theorem Sound.length_le (hs : h.Sound) : h.elements.length ≤ h.nextId := by
  rw [← List.length_map Element.id]
  apply length_le_of_nodup hs.ids_nodup
  intro x hx
  obtain ⟨e, he, rfl⟩ := List.mem_map.mp hx
  obtain ⟨v, hv⟩ := List.mem_iff_getElem?.mp he
  exact hs.id_lt v e.id (by simp [idOf, hv])

theorem Sound.target_lt (hs : h.Sound) (he : h.elements[v]? = some e) {a : Arc} (ha : a ∈ e.arcs) :
    a.target < h.elements.length := by
  apply hs.lt_of_joined (u := v)
  rw [Joined, out_eq he]
  exact ⟨a, ha, rfl⟩

theorem Sound.arcs_le (hs : h.Sound) (he : h.elements[v]? = some e) : e.arcs.length ≤ h.elements.length := by
  have htidy := (hs.tidy v).targets
  rw [out_eq he] at htidy
  rw [← List.length_map Arc.target]
  apply length_le_of_nodup htidy
  intro t ht
  obtain ⟨a, ha, rfl⟩ := List.mem_map.mp ht
  exact hs.target_lt he ha

theorem Sound.ordinal_lt (hs : h.Sound) (he : h.elements[v]? = some e) {i : Nat} (hi : e.ordinal = some i) :
    i < h.elements.length :=
  ((hs.exists_ordinal (i := i)).mp ⟨v, by simp [ordinalAt, he, hi]⟩).trans_le List.countP_le_length

theorem WellFormed.tentacle_iff (hw : h.WellFormed) (hi : h.Idle) (he : h.elements[v]? = some e) (i : Nat) :
    (∃ t, h.Linked v (.tentacle i) t) ↔ i < (rawElement e).tentacleCount := by
  have hfits := hw.fits (labelAt_of_live he (hi e (List.mem_of_getElem? he)))
  rw [RawElement.tentacleCount, show (rawElement e).kind = e.label.kind.code from rfl,
    show (rawElement e).rank = e.label.rank.toNat from rfl]
  cases hl : e.label with
  | node type =>
    rw [hl] at hfits
    refine iff_of_false (fun ht => ?_) (by simp [Label.kind, Label.rank, Kind.code])
    cases hfits _ ht
  | nonterminal nt =>
    rw [hl] at hfits
    obtain ⟨k, hk, hten⟩ := hfits
    refine (hten _).trans ?_
    simp [Label.kind, Label.rank, Kind.code, hk]
  | «variable» name =>
    rw [hl] at hfits
    refine (hfits _).trans ?_
    simp [Label.kind, Kind.code]

theorem WellFormed.tentacle_lt (hw : h.WellFormed) (hi : h.Idle) (he : h.elements[v]? = some e) {a : Arc} {i : Nat}
    (ha : a ∈ e.arcs) (hl : .tentacle i ∈ a.labels) : i < max 1 e.label.rank.toNat := by
  have hlt := (hw.tentacle_iff hi he i).mp ⟨_, linked_of_mem he ha hl⟩
  rw [RawElement.tentacleCount] at hlt
  split at hlt
  · exact lt_max_of_lt_left hlt
  · exact lt_max_of_lt_right hlt

namespace Encodable

variable (hh : h.Encodable)

include hh

theorem selector_node (he : h.elements[v]? = some e) {s : Bytes} {t : Nat} (hl : h.Linked v (.selector s) t) :
    (rawElement e).kind = 1 ∧ s ≠ [] := by
  have hmem := List.mem_of_getElem? he
  have hlab := labelAt_of_live he (hh.idle e hmem)
  obtain ⟨x, hx⟩ := hh.toSound.idOf_source hl
  obtain ⟨y, hy⟩ := hh.toSound.idOf_target hl
  obtain ⟨type, htype⟩ := (hh.toSound.wellFormed_iff.mp hh.toWellFormed).selector_source hh.toSound.proper
    ((hh.toSound.view_link_of_idOf hx hy).mpr hl)
  rw [hh.toSound.view_label_of_idOf hx, hlab, Option.some.injEq] at htype
  rw [Linked, out_eq he] at hl
  obtain ⟨a, ha, -, hs⟩ := hl
  exact ⟨by simp [rawElement, Element.kind, htype, Label.kind, Kind.code], (hh.selector e hmem a ha _ hs rfl).1⟩

theorem readable (he : h.elements[v]? = some e) : Readable h.nextId h.elements.length e := by
  have hs := hh.toSound
  have hmem := List.mem_of_getElem? he
  have hid := hs.id_lt v e.id (by simp [idOf, he])
  have hrank : e.label.rank.toNat ≤ maxSmall := by
    have := hh.rank e hmem
    omega
  refine ⟨hh.name e hmem, hrank, fun i hi => hs.ordinal_lt he hi, by omega, hs.arcs_le he, fun a ha => ?_,
    hh.labels e hmem, fun a ha s hs => (hh.selector e hmem a ha _ hs rfl).2, fun a ha i hi => ?_⟩
  · have := hs.target_lt he ha
    omega
  · have hlt := hh.tentacle_lt hh.idle he ha hi
    have hmax : max 1 e.label.rank.toNat ≤ maxSmall := max_le (by decide) hrank
    omega

theorem checked (he : h.elements[v]? = some e) : (rawElement e).Checked h.raw := by
  have hlab := labelAt_of_live he (hh.idle e (List.mem_of_getElem? he))
  have harcs : RawElement.arcsOf (rawElement e).arcs = h.out v := by
    rw [out_eq he]
    exact arcsOf_rawArc e.arcs
  have hkind : (rawElement e).kind = e.label.kind.code := rfl
  refine ⟨?_, fun ho => ?_, ?_, fun t ht => ?_, fun l t hl => ?_, fun i hi => ?_⟩
  · cases hl : e.label with
    | node type => exact .inl ⟨by simp [hkind, hl, Label.kind, Kind.code], by simp [rawElement, hl, Label.rank]⟩
    | nonterminal nt => exact .inr (.inl (by simp [hkind, hl, Label.kind, Kind.code]))
    | «variable» name => exact .inr (.inr (by simp [hkind, hl, Label.kind, Kind.code]))
  · obtain ⟨i, hi⟩ := Option.isSome_iff_exists.mp ho
    have hord : h.ordinalAt v = some i := by rw [ordinalAt, he]; exact hi
    obtain ⟨type, htype⟩ := hh.ordinal_node v i hord
    rw [hlab, Option.some.injEq] at htype
    simp [hkind, htype, Label.kind, Kind.code]
  · rw [harcs]
    exact hh.tidy v
  · rw [harcs] at ht
    obtain ⟨type, htype⟩ := hh.ends v t ht
    obtain ⟨d, hd, -, hdl⟩ := labelAt_eq_some.mp htype
    simp [RawElement.kindAt, raw, hd, rawElement, Element.kind, hdl, Label.kind, Kind.code]
  · rw [harcs] at hl
    cases l with
    | selector s => exact hh.selector_node he hl
    | tentacle i => exact (hh.tentacle_iff hh.idle he i).mp ⟨t, hl⟩
  · rw [harcs]
    exact (hh.tentacle_iff hh.idle he i).mpr hi

theorem ordinalsContiguous_raw : ordinalsContiguous h.raw = true := by
  have hcount : h.raw.countP (fun r => r.ordinal.isSome) = h.externalCount := by
    rw [raw, List.countP_map]
    rfl
  rw [ordinalsContiguous, List.all_eq_true]
  intro r hr
  obtain ⟨e, he, rfl⟩ := List.mem_map.mp hr
  obtain ⟨v, hv⟩ := List.mem_iff_getElem?.mp he
  rw [Option.all_eq_true]
  intro i hi
  have hlt := (hh.toSound.exists_ordinal (i := i)).mp ⟨v, by rw [ordinalAt, hv]; exact hi⟩
  simpa [hcount] using hlt

theorem names_apart : h.elements.Pairwise (fun d e => d.kind = .variable → e.kind = .variable →
    d.label.name ≠ e.label.name) := by
  have hvariable (e : Element) (hk : e.kind = .variable) : e.label = .variable e.label.name := by
    cases hl : e.label with
    | node type => simp [Element.kind, hl, Label.kind] at hk
    | nonterminal nt => simp [Element.kind, hl, Label.kind] at hk
    | «variable» name => rfl
  have hlabel (v : Nat) (hv : v < h.elements.length) (hk : h.elements[v].kind = .variable) :
      h.labelAt v = some (.variable h.elements[v].label.name) := by
    rw [← hvariable _ hk]
    exact labelAt_of_live (List.getElem?_eq_getElem hv) (hh.idle _ (List.getElem_mem hv))
  rw [List.pairwise_iff_getElem]
  intro v w hv hw hvw hvk hwk hname
  have := hh.variable_inj v w _ (hlabel v hv hvk) (hname ▸ hlabel w hw hwk)
  omega

theorem checkFrom_raw : RawElement.checkFrom h.raw 0 [] h.raw = .ok () := by
  refine RawElement.checkFrom_rawElement (fun e he => ?_) (fun _ _ _ => List.not_mem_nil) hh.names_apart
  obtain ⟨v, hv⟩ := List.mem_iff_getElem?.mp he
  exact hh.checked hv

theorem getElements_raw (rest : Bytes) : getElements h.nextId h.elements.length h.elements.length []
    (h.elements.flatMap putElement ++ rest) = .ok (h.raw, rest) := by
  have hs := hh.toSound
  have hread : ∀ e ∈ h.elements, Readable h.nextId h.elements.length e := by
    intro e he
    obtain ⟨v, hv⟩ := List.mem_iff_getElem?.mp he
    exact hh.readable hv
  have hid : h.raw.Pairwise (fun d e => d.id ≠ e.id) := List.pairwise_map.mpr (List.pairwise_map.mp hs.ids_nodup)
  have hord : h.raw.Pairwise (fun d e => ∀ i, d.ordinal = some i → e.ordinal ≠ some i) := by
    refine List.pairwise_map.mpr ((List.pairwise_filterMap.mp hs.ordinals_nodup).imp fun hde i hd he => ?_)
    exact hde i hd i he rfl
  exact getElements_flatMap (hs.length_le.trans hh.ids) hh.ids hread hid hord

theorem decode_encode (s : Bytes) : Heap.decode (h.encode ++ s) = .ok (assemble h.nextId h.raw) := by
  have hlong : ¬ (h.encode ++ s).length / minElementBytes < h.elements.length := by
    have hbytes := length_flatMap_putElement h.elements
    rw [Nat.not_lt, Nat.le_div_iff_mul_le (by decide), Nat.mul_comm, encode, List.length_append, List.length_append]
    omega
  have hversion : getNat maxSmall (h.encode ++ s) = .ok (version, Varint.write h.nextId ++
      (Varint.write h.elements.length ++ (h.elements.flatMap putElement ++ s))) := by
    simp only [encode, List.append_assoc]
    exact getNat_write (by decide) maxSmall_le
  rw [Heap.decode, hversion]
  simp only [bind, Except.bind, ne_eq, not_true_eq_false, if_false, getNat_write hh.ids le_rfl,
    getNat_write hh.toSound.length_le hh.ids, if_neg hlong, hh.getElements_raw, hh.ordinalsContiguous_raw,
    hh.checkFrom_raw, Bool.not_true, Bool.false_eq_true]
  rfl

end Encodable

structure SameLayout (h k : Heap) : Prop where
  nextId : k.nextId = h.nextId
  length : k.elements.length = h.elements.length
  slot : ∀ (v : Nat) (e : Element), h.elements[v]? = some e →
    ∃ preds, k.elements[v]? = some { e with preds := preds } ∧ preds.Perm e.preds

namespace SameLayout

theorem symm (hk : h.SameLayout k) : k.SameLayout h := by
  refine ⟨hk.nextId.symm, hk.length.symm, fun v e he => ?_⟩
  have hlt : v < h.elements.length := hk.length ▸ (List.getElem?_eq_some_iff.mp he).1
  have hv := List.getElem?_eq_getElem hlt
  obtain ⟨preds, hp, hperm⟩ := hk.slot v _ hv
  obtain rfl := Option.some.inj (hp.symm.trans he)
  exact ⟨_, hv, hperm.symm⟩

theorem trans {j : Heap} (hk : h.SameLayout k) (hj : k.SameLayout j) : h.SameLayout j := by
  refine ⟨hj.nextId.trans hk.nextId, hj.length.trans hk.length, fun v e he => ?_⟩
  obtain ⟨preds, hp, hperm⟩ := hk.slot v e he
  obtain ⟨preds', hp', hperm'⟩ := hj.slot v _ hp
  exact ⟨preds', hp', hperm'.trans hperm⟩

theorem moved (hk : h.SameLayout k) (hi : h.Idle) : Moved h id k where
  nextId := hk.nextId
  inj _ _ _ _ := id
  at_move v e he _ := by
    obtain ⟨preds, hp, hperm⟩ := hk.slot v e he
    exact ⟨preds, by simpa [Element.relocate] using hp, by simpa using hperm⟩
  cover w hw := by
    have hv := List.getElem?_eq_getElem (hk.length ▸ hw)
    exact ⟨w, ⟨_, hv, hi _ (List.mem_of_getElem? hv)⟩, rfl⟩

theorem map_eq {α : Type} (hk : h.SameLayout k) {f : Element → α}
    (hf : ∀ (v : Nat) (e : Element) (preds : List Nat), h.elements[v]? = some e →
      k.elements[v]? = some { e with preds := preds } → preds.Perm e.preds → f { e with preds := preds } = f e) :
    k.elements.map f = h.elements.map f := by
  apply List.ext_getElem?
  intro v
  rw [List.getElem?_map, List.getElem?_map]
  cases he : h.elements[v]? with
  | none =>
    have hlen := List.getElem?_eq_none_iff.mp he
    rw [List.getElem?_eq_none (hk.length ▸ hlen)]
  | some e =>
    obtain ⟨preds, hp, hperm⟩ := hk.slot v e he
    rw [hp, Option.map_some, hf v e preds he hp hperm, Option.map_some]

theorem encode_eq (hk : h.SameLayout k) : k.encode = h.encode := by
  have hput : k.elements.map putElement = h.elements.map putElement := hk.map_eq fun _ _ _ _ _ _ => rfl
  rw [encode, encode, hk.nextId, hk.length, List.flatMap_def, List.flatMap_def, hput]

theorem isomorphic (hk : h.SameLayout k) (hw : h.WellFormed) (hi : h.Idle) : h.Isomorphic k := by
  have hm := hk.moved hi
  apply isomorphic_of_iso hw.toSound hi (hm.sound hw.toSound) hm.idle
  rw [hm.view hw.toSound]
  exact .refl _

end SameLayout

theorem Encodable.preds_perm (hh : h.Encodable) (he : h.elements[v]? = some e) :
    ((rawElement e).toElement h.raw v).preds.Perm e.preds := by
  have hraw (u : Nat) : h.raw[u]? = (h.elements[u]?).map rawElement := List.getElem?_map ..
  have hout (u : Nat) : (assemble h.nextId h.raw).out u = h.out u := by
    rw [out_assemble, hraw, out]
    cases h.elements[u]? with
    | none => rfl
    | some d => exact arcsOf_rawArc d.arcs
  have hinto : (assemble h.nextId h.raw).into v = ((rawElement e).toElement h.raw v).preds := by
    rw [Heap.into, getElem?_assemble, hraw, he]
    rfl
  have hlt : v < h.raw.length := by
    rw [raw, List.length_map]
    exact (List.getElem?_eq_some_iff.mp he).1
  have hnodup : ((rawElement e).toElement h.raw v).preds.Nodup := List.nodup_range.filter _
  rw [← into_eq he]
  apply (List.perm_ext_iff_of_nodup hnodup (hh.into_nodup v)).mpr
  intro u
  rw [← hinto, mem_into_assemble hlt, hh.mem_into, Joined, Joined, hout]

theorem WellFormed.label_rawElement (hw : h.WellFormed) (hi : h.Idle) (he : h.elements[v]? = some e) :
    (rawElement e).label = e.label := by
  have hfits := hw.fits (labelAt_of_live he (hi e (List.mem_of_getElem? he)))
  rw [RawElement.label, show (rawElement e).kind = e.label.kind.code from rfl, Kind.ofCode?_code]
  cases hl : e.label with
  | node type => simp [rawElement, hl, Label.kind, Label.name]
  | nonterminal nt =>
    rw [hl] at hfits
    obtain ⟨k, hk, -⟩ := hfits
    obtain ⟨label, rank⟩ := nt
    simp only at hk
    simp [rawElement, hl, Label.kind, Label.name, Label.rank, hk]
  | «variable» name => simp [rawElement, hl, Label.kind, Label.name]

theorem Encodable.sameLayout (hh : h.Encodable) : h.SameLayout (assemble h.nextId h.raw) := by
  refine ⟨rfl, by simp [assemble, raw], fun v e he => ?_⟩
  have hmem := List.mem_of_getElem? he
  have hlabel := hh.label_rawElement hh.idle he
  have harcs : RawElement.arcsOf (rawElement e).arcs = e.arcs := arcsOf_rawArc e.arcs
  refine ⟨_, ?_, hh.preds_perm he⟩
  rw [getElem?_assemble, raw, List.getElem?_map, he]
  simp only [Option.map_some, Option.some.injEq, RawElement.toElement, Element.mk.injEq]
  exact ⟨hlabel, rfl, rfl, (hh.idle e hmem).symm, harcs, trivial⟩

theorem WellFormed.encodable_of_valid (hw : h.WellFormed) (hi : h.Idle) {ids : Nat} {es : List RawElement}
    (hids : h.nextId ≤ maxPublicIds) (hv : Valid ids es)
    (hmem : ∀ (v : Nat) (e : Element), h.elements[v]? = some e →
      ∃ r ∈ es, e.label = r.label ∧ e.arcs = RawElement.arcsOf r.arcs) :
    h.Encodable := by
  have hread : ∀ e ∈ h.elements, ∃ r ∈ es, e.label = r.label ∧ e.arcs = RawElement.arcsOf r.arcs := by
    intro e he
    obtain ⟨v, hv⟩ := List.mem_iff_getElem?.mp he
    exact hmem v e hv
  refine ⟨hw, hi, hids, fun e he => ?_, fun e he => ?_, fun e he a ha => ?_, fun e he a ha l hl hs => ?_⟩
  · obtain ⟨r, hr, hlabel, -⟩ := hread e he
    rw [hlabel, r.name_label]
    exact (hv.bounded r hr).name
  · obtain ⟨r, hr, hlabel, -⟩ := hread e he
    rw [hlabel]
    have hle := r.rank_label_le
    have hrank := (hv.bounded r hr).rank
    omega
  · obtain ⟨r, hr, -, harcs⟩ := hread e he
    rw [harcs] at ha
    obtain ⟨b, hb, rfl⟩ := List.mem_map.mp ha
    rw [List.length_map]
    exact (hv.bounded r hr).labels b hb
  · obtain ⟨r, hr, -, harcs⟩ := hread e he
    rw [harcs] at ha
    obtain ⟨b, hb, rfl⟩ := List.mem_map.mp ha
    obtain ⟨m, hm, rfl⟩ := List.mem_map.mp hl
    have hadmits := (hv.checked r hr).admits _ b.target ⟨_, ha, rfl, hl⟩
    rw [edgeLabel_of_isSelector hs] at hadmits ⊢
    exact ⟨hadmits.2, (hv.bounded r hr).selector b hb m hm⟩

theorem encodable_of_decode {bs : Bytes} (hd : Heap.decode bs = .ok h) : h.Encodable := by
  obtain ⟨hw, hi⟩ := wellFormed_of_decode hd
  obtain ⟨ids, es, hids, hv, rfl⟩ := decode_ok hd
  refine hw.encodable_of_valid hi hids hv fun v e he => ?_
  rw [getElem?_assemble] at he
  obtain ⟨r, hr, rfl⟩ := Option.map_eq_some_iff.mp he
  exact ⟨r, List.mem_of_getElem? hr, rfl, rfl⟩

theorem SameLayout.eq_of_decode {bs cs : Bytes} (hk : h.SameLayout k) (hd : Heap.decode bs = .ok h)
    (hd' : Heap.decode cs = .ok k) : h = k := by
  have hsorted {j : Heap} {bs : Bytes} (hd : Heap.decode bs = .ok j) :
      ∀ e ∈ j.elements, e.preds.Pairwise (fun u v => u < v) := by
    obtain ⟨ids, es, -, -, rfl⟩ := decode_ok hd
    intro e he
    obtain ⟨p, -, rfl⟩ := List.mem_map.mp he
    exact List.pairwise_lt_range.filter _
  have helements : k.elements.map id = h.elements.map id := by
    apply hk.map_eq
    intro v e preds he hp hperm
    have hasc := hsorted hd e (List.mem_of_getElem? he)
    have hasc' : preds.Pairwise (fun u v => u < v) := hsorted hd' _ (List.mem_of_getElem? hp)
    rw [hperm.eq_of_pairwise (fun a b _ _ hab hba => absurd hab (Nat.lt_asymm hba)) hasc' hasc]
  cases h
  cases k
  rw [Heap.mk.injEq]
  exact ⟨by simpa using helements.symm, hk.nextId.symm⟩

theorem Encodable.exists_decode (hh : h.Encodable) (s : Bytes) :
    ∃ h', Heap.decode (h.encode ++ s) = .ok h' ∧ h.SameLayout h' :=
  ⟨_, hh.decode_encode s, hh.sameLayout⟩

theorem decode_roundTrip :
    (∀ h : Heap, h.Encodable → ∀ s, ∃ h', Heap.decode (h.encode ++ s) = .ok h' ∧ h.SameLayout h' ∧ h.SameAnswers h' ∧
      (∀ opts, h'.print opts = h.print opts) ∧ h'.fingerprint = h.fingerprint ∧ h.Isomorphic h' ∧ h'.encode = h.encode) ∧
    (∀ h k : Heap, h.Encodable → k.Encodable → h.encode = k.encode → h.SameLayout k ∧ h.SameAnswers k) ∧
    ∀ bs h, Heap.decode bs = .ok h → h.Encodable ∧ ∀ s, Heap.decode (h.encode ++ s) = .ok h := by
  refine ⟨fun h hh s => ?_, fun h k hh hk heq => ?_, fun bs h hd => ⟨encodable_of_decode hd, fun s => ?_⟩⟩
  · obtain ⟨h', hd, hsame⟩ := hh.exists_decode s
    have hanswers := (hsame.moved hh.idle).sameAnswers hh.toWellFormed
    have hiso := hsame.isomorphic hh.toWellFormed hh.idle
    have hprint := hiso.fingerprintWith_eq Hash.xxh64 hh.toSound (wellFormed_of_decode hd).1.toSound
    exact ⟨h', hd, hsame, hanswers, hanswers.print, hprint.symm, hiso, hsame.encode_eq⟩
  · obtain ⟨h', hd, hsame⟩ := hh.exists_decode []
    obtain ⟨k', hd', hsame'⟩ := hk.exists_decode []
    rw [heq, hd', Except.ok.injEq] at hd
    have hboth := hsame.trans (hd ▸ hsame'.symm)
    exact ⟨hboth, (hboth.moved hh.idle).sameAnswers hh.toWellFormed⟩
  · obtain ⟨h', hd', hsame⟩ := (encodable_of_decode hd).exists_decode s
    rw [hd', hsame.eq_of_decode hd hd']

def knot : Heap where
  elements := [
    { label := .node "N", id := 0, arcs := [⟨0, [.selector "self"]⟩], preds := [1, 2, 0, 3] },
    { label := .node "N", id := 2, ordinal := some 0, arcs := [⟨0, [.selector "next"]⟩], preds := [3] },
    { label := .variable "x", id := 3, arcs := [⟨0, [.tentacle 0]⟩] },
    { label := .nonterminal ⟨"L", 2⟩, id := 4, arcs := [⟨1, [.tentacle 0]⟩, ⟨0, [.tentacle 1]⟩] }]
  nextId := 5

theorem wellFormed_knot : knot.WellFormed := by
  have h1 := wellFormed_empty.addNodes (show Heap.empty.addNodes "N" 3 = .ok (_, _) from rfl)
  have h2 := h1.removeIsolatedNode (show Heap.removeIsolatedNode _ 1 = .ok _ from rfl)
  have h3 := (h2.build (show Heap.build _ = .ok _ from rfl)).1
  have h4 := h3.addSelector (show Heap.addSelector _ 2 "next" 0 = .ok _ from rfl)
  have h5 := h4.addVariable (show Heap.addVariable _ "x" 0 = .ok (_, _) from rfl)
  have h6 := h5.addSelector (show Heap.addSelector _ 0 "self" 0 = .ok _ from rfl)
  have h7 := h6.addNonterminal (show Heap.addNonterminal _ ⟨"L", 2⟩ [2, 0] = .ok (_, _) from rfl)
  exact h7.setExternal (show Heap.setExternal _ 2 = .ok knot from rfl)

theorem encodable_knot : knot.Encodable :=
  ⟨wellFormed_knot, by decide, by decide, by decide, by decide, by decide, by decide⟩

theorem decode_roundTrip_knot : Heap.decode (knot.encode ++ [7]) ≠ .ok knot ∧
    ∃ h', Heap.decode (knot.encode ++ [7]) = .ok h' ∧ knot.SameLayout h' ∧ knot.SameAnswers h' ∧
      h'.encode = knot.encode ∧ Heap.decode (h'.encode ++ [7, 7]) = .ok h' := by
  obtain ⟨hback, -, hagain⟩ := decode_roundTrip
  obtain ⟨h', hd, hlayout, hanswers, -, -, -, hencode⟩ := hback knot encodable_knot [7]
  exact ⟨by decide +kernel, h', hd, hlayout, hanswers, hencode, (hagain _ h' hd).2 [7, 7]⟩

end Heap

end HeapAbstraction
