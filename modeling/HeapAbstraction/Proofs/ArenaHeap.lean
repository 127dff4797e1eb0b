import HeapAbstraction.Proofs.ArenaStore
import HeapAbstraction.Proofs.Folding

namespace HeapAbstraction

def Element.mark (e : Element) : Bool × Nat := (e.removed, e.id)

-- what the tables beside the slots are made of
def Element.face (e : Element) : (Bool × Nat) × Option Nat := (e.mark, e.ordinal)

namespace Store

variable {s : Store} {f : Element → Element}

theorem map_face_modify {v : Nat} (hf : ∀ e, (f e).face = e.face) :
    (s.modify v f).map Element.face = s.map Element.face := map_modify_of_eq fun e _ => hf e

theorem map_face_foldl (hf : ∀ e, (f e).face = e.face) (vs : List Nat) (s : Store) :
    (vs.foldl (fun s v => s.modify v f) s).map Element.face = s.map Element.face := by
  induction vs generalizing s with
  | nil => rfl
  | cons v vs ih => rw [List.foldl_cons, ih, map_face_modify hf]

theorem map_face_link (u t : Nat) (l : EdgeLabel) : (s.link u t l).map Element.face = s.map Element.face := by
  simp only [link]
  split
  · exact map_face_modify fun _ => by rfl
  · exact (map_face_modify fun _ => by rfl).trans (map_face_modify fun _ => by rfl)

theorem map_face_unlink (u t : Nat) (l : EdgeLabel) : (s.unlink u t l).map Element.face = s.map Element.face := by
  rw [unlink]
  split
  · rfl
  · dsimp only
    split
    · exact (map_face_modify fun _ => by rfl).trans (map_face_modify fun _ => by rfl)
    · exact map_face_modify fun _ => by rfl

theorem map_face_detach (v : Nat) : (s.detach v).map Element.face = s.map Element.face := by
  have hout : (s.detachOut v).map Element.face = s.map Element.face :=
    (map_face_modify fun _ => by rfl).trans (map_face_foldl (fun _ => by rfl) _ s)
  exact ((map_face_modify fun _ => by rfl).trans (map_face_foldl (fun _ => by rfl) _ _)).trans hout

end Store

namespace Arena

def ofHeap (h : Heap) : Arena where
  slots := h.elements.map Slot.ofElement
  removedCount := h.elements.countP Element.removed
  privOf := (List.range h.nextId).map (fun x : Nat => h.slot? x)
  externals := h.externals

variable {h h' : Heap} {u v t i : Nat} {e : Element} {l : EdgeLabel} {id : Int} {kind : Kind}

theorem slot?_of_marks (hm : h'.elements.map Element.mark = h.elements.map Element.mark) (x : Nat) :
    h'.slot? x = h.slot? x := by
  have hslot (k : Heap) : k.slot? x = (k.elements.map Element.mark).findIdx? (fun m => !m.1 && m.2 == x) := by
    rw [List.findIdx?_map]
    rfl
  rw [hslot, hslot, hm]

theorem removed_of_marks (hm : h'.elements.map Element.mark = h.elements.map Element.mark) :
    h'.elements.countP Element.removed = h.elements.countP Element.removed := by
  have hcount (k : Heap) : k.elements.countP Element.removed = (k.elements.map Element.mark).countP Prod.fst := by
    rw [List.countP_map]
    rfl
  rw [hcount, hcount, hm]

theorem externals_of_ordinals (ho : h'.elements.map Element.ordinal = h.elements.map Element.ordinal) :
    h'.externals = h.externals := by
  have hcount (k : Heap) : k.externalCount = (k.elements.map Element.ordinal).countP Option.isSome := by
    rw [List.countP_map]
    rfl
  have hslot (k : Heap) (i : Nat) : k.externalSlot? i = (k.elements.map Element.ordinal).findIdx? (· == some i) := by
    rw [List.findIdx?_map]
    rfl
  simp only [Heap.externals, hcount, ho, funext (hslot h'), funext (hslot h)]

theorem ofHeap_of_marks (hn : h'.nextId = h.nextId) (hm : h'.elements.map Element.mark = h.elements.map Element.mark) :
    ofHeap h' = { (ofHeap h).withElements h'.elements with externals := h'.externals } := by
  simp only [ofHeap, withElements, hn, slot?_of_marks hm, removed_of_marks hm]

theorem ofHeap_of_faces (hn : h'.nextId = h.nextId) (hf : h'.elements.map Element.face = h.elements.map Element.face) :
    ofHeap h' = (ofHeap h).withElements h'.elements := by
  have hmark : h'.elements.map Element.mark = h.elements.map Element.mark := by
    simpa [Function.comp_def, Element.face] using congrArg (List.map Prod.fst) hf
  have hordinal : h'.elements.map Element.ordinal = h.elements.map Element.ordinal := by
    simpa [Function.comp_def, Element.face] using congrArg (List.map Prod.snd) hf
  rw [ofHeap_of_marks hn hmark, externals_of_ordinals hordinal]
  rfl

theorem slot_ofHeap (he : h.elements[v]? = some e) : (ofHeap h).slot v = .ok (Slot.ofElement e) :=
  slot_withElements (a := ofHeap h) he

theorem resolve_ofHeap (hs : h.Sound) (id : Int) : (ofHeap h).resolve id = h.slot? id := by
  cases id with
  | negSucc n => rfl
  | ofNat x =>
    change ((List.range h.nextId).map (fun x : Nat => h.slot? x))[x]?.join = h.slot? x
    by_cases hx : x < h.nextId
    · simp [hx]
    · have hnone : h.slot? x = none := by
        cases hv : h.slot? x with
        | none => rfl
        | some v => exact absurd (hs.id_lt v x (hs.slot?_eq_some.mp hv).1) hx
      simp [hx, hnone]

theorem priv_ofHeap (hs : h.Sound) (id : Int) (kind : Kind) :
    (ofHeap h).priv id kind = Prod.fst <$> h.find id kind := by
  rw [priv, resolve_ofHeap hs, Heap.find]
  cases hv : h.slot? id with
  | none => rfl
  | some v =>
    cases he : h.elements[v]? with
    | none => simp [slot, ofHeap, he, bind, Except.bind]
    | some e =>
      have hkind : (Slot.ofElement e).kind = e.kind := rfl
      simp only [slot_ofHeap he, he, hkind, bind, Except.bind]
      by_cases hk : e.kind = kind
      · simp [hk, pure, Except.pure]
      · simp [hk]

theorem priv_of_find (hs : h.Sound) (hf : h.find id kind = .ok (v, e)) :
    (ofHeap h).priv id kind = .ok v ∧ (ofHeap h).slot v = .ok (Slot.ofElement e) := by
  obtain ⟨x, -, -, he, -, -⟩ := Heap.find_ok hs hf
  exact ⟨by rw [priv_ofHeap hs, hf]; rfl, slot_ofHeap he⟩

theorem priv_of_find_error (hs : h.Sound) {err : HeapError} (hf : h.find id kind = .error err) :
    (ofHeap h).priv id kind = .error err := by
  rw [priv_ofHeap hs, hf]
  rfl

theorem addVertex_ofHeap (hs : h.Sound) (label : Label) :
    addVertex label (ofHeap h) = .ok h.elements.length (ofHeap (h.addElement label)) := by
  have hpriv : (ofHeap (h.addElement label)).privOf = (ofHeap h).privOf ++ [some h.elements.length] := by
    have hs' : (h.addElement label).Sound := hs.addElement
    have hold (x : Nat) (hx : x < h.nextId) : (h.addElement label).slot? x = h.slot? x := by
      refine Option.ext fun w => ?_
      rw [hs'.slot?_eq_some, hs.slot?_eq_some, Heap.idOf_addElement, Heap.labelAt_addElement]
      split
      · rename_i hw
        subst hw
        refine ⟨fun hid => absurd (Option.some.inj hid.1) hx.ne', ?_⟩
        rintro ⟨hid, -⟩
        simp [Heap.idOf] at hid
      · rfl
    have hnew : (h.addElement label).slot? h.nextId = some h.elements.length :=
      hs'.slot?_eq_some.mpr ⟨by simp [Heap.idOf_addElement], label, by simp [Heap.labelAt_addElement]⟩
    change (List.range (h.nextId + 1)).map (fun x : Nat => (h.addElement label).slot? x) = _
    rw [List.range_succ, List.map_append, List.map_singleton, hnew]
    congr 1
    exact List.map_congr_left fun x hx => hold x (List.mem_range.mp hx)
  have hexternals : (h.addElement label).externals = h.externals := by
    have hcount : (h.addElement label).externalCount = h.externalCount := by
      simp [Heap.externalCount, Heap.addElement]
    have hslot (i : Nat) : (h.addElement label).externalSlot? i = h.externalSlot? i := by
      simp [Heap.externalSlot?, Heap.addElement, List.findIdx?_append]
    simp only [Heap.externals, hcount, hslot]
  have hremoved : (h.addElement label).elements.countP Element.removed = h.elements.countP Element.removed := by
    simp [Heap.addElement]
  have hlength : (ofHeap h).slots.length = h.elements.length := List.length_map ..
  have hnext : (ofHeap h).privOf.length = h.nextId := by simp [ofHeap]
  have hslots : (h.addElement label).elements.map Slot.ofElement =
      h.elements.map Slot.ofElement ++ [{ label := label, pub := Int32.ofNat h.nextId }] := by
    simp [Heap.addElement, Slot.ofElement, Element.successors]
  rw [addVertex, hlength, hnext, ← hpriv]
  simp only [ofHeap, hslots, hexternals, hremoved]

theorem addArcLabel_ofHeap (hu : u < h.elements.length) (ht : t < h.elements.length) :
    addArcLabel u t l (ofHeap h) = .ok () (ofHeap (h.link u t l)) := by
  have hface : ofHeap (h.link u t l) = (ofHeap h).withElements (h.elements.link u t l) :=
    ofHeap_of_faces rfl (Store.map_face_link u t l)
  rw [hface]
  exact addArcLabel_withElements (a := ofHeap h) (List.getElem?_eq_getElem hu) ht

theorem removeArcLabel_ofHeap (hs : h.Sound) (hl : h.Linked u l t) (hr : h.unlink u t l = .ok h') :
    removeArcLabel u t l (ofHeap h) = .ok () (ofHeap h') := by
  obtain ⟨lab, hlab⟩ := hs.labelAt_of_joined hl.joined
  obtain ⟨e, he, -, -⟩ := Heap.labelAt_eq_some.mp hlab
  rw [Heap.Linked, Heap.out_eq he] at hl
  obtain ⟨b, hb⟩ := Option.isSome_iff_exists.mp (Element.arcTo?_isSome.mpr hl.reaches)
  have hlt := hs.lt_of_joined (u := u) (v := t) (by rw [Heap.Joined, Heap.out_eq he]; exact hl.reaches)
  have hmem : l ∈ b.labels := by
    obtain ⟨c, hc, hct, hlc⟩ := hl
    have htidy : Arc.Tidy e.arcs := Heap.out_eq he ▸ hs.tidy u
    have hbt : b.target = t := by simpa using List.find?_some hb
    rwa [htidy.unique (List.mem_of_find?_eq_some hb) hc (hbt.trans hct.symm)]
  rw [Heap.unlink, if_pos (by simp [hlt])] at hr
  cases hr
  have hface : ofHeap { h with elements := h.elements.unlink u t l } =
      (ofHeap h).withElements (h.elements.unlink u t l) := ofHeap_of_faces rfl (Store.map_face_unlink u t l)
  rw [hface]
  exact removeArcLabel_withElements (a := ofHeap h) he hb hmem hlt

section Ordinals

theorem externals_dropExternal (hs : h.Sound) (ho : h.ordinalAt v = some i) :
    (h.dropExternal i).externals = h.externals.eraseIdx i := by
  refine List.ext_getElem? fun k => Option.ext fun w => ?_
  rw [(hs.dropExternal ho).getElem?_externals, Heap.ordinalAt_dropExternal, Heap.dropFrom_eq_some, List.getElem?_eraseIdx]
  split
  · rename_i hk
    rw [hs.getElem?_externals]
    exact ⟨fun h => h.elim And.right fun h => absurd h.1 (Nat.not_le.mpr hk), fun h => .inl ⟨hk, h⟩⟩
  · rename_i hk
    rw [hs.getElem?_externals]
    exact ⟨fun h => h.elim (fun h => absurd h.1 hk) And.right, fun h => .inr ⟨Nat.not_lt.mp hk, h⟩⟩

theorem getElem?_of_idxOf? {us : List Nat} {k w : Nat} (hk : us.idxOf? w = some k) : us[k]? = some w := by
  obtain ⟨hlt, hw, -⟩ := List.findIdx?_eq_some_iff_getElem.mp hk
  rw [List.getElem?_eq_getElem hlt, beq_iff_eq.mp hw]

def number (es : Store) : Nat → List Nat → Store
  | _, [] => es
  | i, u :: us => number (es.modify u (fun e => { e with ordinal := some i })) (i + 1) us

theorem renumber_withElements {a : Arena} {es : Store} {us : List Nat} (hu : ∀ u ∈ us, u < es.length) :
    renumber i us (a.withElements es) = .ok () (a.withElements (number es i us)) := by
  induction us generalizing es i with
  | nil => rfl
  | cons u us ih =>
    have hwrite : write u (fun s => { s with ordinal := some i }) (a.withElements es) =
        .ok () (a.withElements (es.modify u (fun e => { e with ordinal := some i }))) :=
      write_withElements (hu u List.mem_cons_self) fun _ _ => rfl
    rw [renumber, run_bind hwrite]
    exact ih fun w hw => by
      rw [List.length_modify]
      exact hu w (List.mem_cons_of_mem _ hw)

theorem getElem?_number {us : List Nat} (hn : us.Nodup) (es : Store) (i w : Nat) :
    (number es i us)[w]? = (es[w]?).map (fun e => { e with ordinal := ((us.idxOf? w).map (i + ·)).or e.ordinal }) := by
  induction us generalizing es i with
  | nil =>
    rw [number]
    cases es[w]? <;> rfl
  | cons u us ih =>
    obtain ⟨hu, hn⟩ := List.nodup_cons.mp hn
    rw [number, ih hn, List.getElem?_modify, List.idxOf?_cons]
    by_cases hw : u = w
    · subst hw
      cases es[u]? <;> simp [List.idxOf?_eq_none_iff.mpr hu]
    · cases es[w]? <;> cases us.idxOf? w <;> simp [hw, Nat.add_right_comm, Nat.add_assoc]

theorem getElem?_drop_externals (hs : h.Sound) (n k w : Nat) :
    (h.externals.drop n)[k]? = some w ↔ h.ordinalAt w = some (n + k) := by
  rw [List.getElem?_drop, hs.getElem?_externals]

theorem nodup_drop_externals (hs : h.Sound) (n : Nat) : (h.externals.drop n).Nodup := by
  rw [List.nodup_iff_getElem?_ne_getElem?]
  intro j k hjk hk heq
  obtain ⟨w, hw⟩ : ∃ w, (h.externals.drop n)[k]? = some w := ⟨_, List.getElem?_eq_getElem hk⟩
  have hj := (getElem?_drop_externals hs n j w).mp (heq.trans hw)
  have := Option.some.inj (hj.symm.trans ((getElem?_drop_externals hs n k w).mp hw))
  omega

theorem lt_of_mem_drop_externals (hs : h.Sound) {n w : Nat} (hw : w ∈ h.externals.drop n) : w < h.elements.length := by
  obtain ⟨k, hk⟩ := List.mem_iff_getElem?.mp hw
  exact (hs.ordinal_node w _ ((getElem?_drop_externals hs n k w).mp hk)).lt

-- the later external nodes stand one place further down now, and that place is their ordinal
theorem number_dropExternal (hs : h.Sound) (ho : h.ordinalAt v = some i) :
    number (h.elements.modify v (fun e => { e with ordinal := none })) i (h.externals.drop (i + 1)) =
      (h.dropExternal i).elements := by
  refine List.ext_getElem? fun w => ?_
  rw [getElem?_number (nodup_drop_externals hs _), Heap.getElem?_dropExternal, List.getElem?_modify]
  cases hw : h.elements[w]? with
  | none => rfl
  | some d =>
    have hdw : h.ordinalAt w = d.ordinal := by simp [Heap.ordinalAt, hw]
    cases hk : (h.externals.drop (i + 1)).idxOf? w with
    | some k =>
      have hwk : h.ordinalAt w = some (i + 1 + k) := (getElem?_drop_externals hs _ k w).mp (getElem?_of_idxOf? hk)
      have hvw : v ≠ w := by
        rintro rfl
        have := Option.some.inj (ho.symm.trans hwk)
        omega
      have hlater : Heap.dropFrom i d.ordinal = some (i + k) :=
        Heap.dropFrom_eq_some.mpr (.inr ⟨by omega, by rw [← hdw, hwk, Nat.add_right_comm]⟩)
      simp [hvw, hlater]
    | none =>
      have hno (j : Nat) (hj : d.ordinal = some j) : ¬ i < j := by
        intro hij
        have hat : h.ordinalAt w = some (i + 1 + (j - (i + 1))) := by rw [hdw, hj, Nat.add_sub_cancel' hij]
        exact List.idxOf?_eq_none_iff.mp hk (List.mem_of_getElem? ((getElem?_drop_externals hs _ _ w).mpr hat))
      by_cases hvw : v = w
      · subst hvw
        have hgone : Heap.dropFrom i d.ordinal = none := by simp [← hdw, ho, Heap.dropFrom]
        simp [hgone]
      · have hkept : Heap.dropFrom i d.ordinal = d.ordinal := by
          cases hj : d.ordinal with
          | none => rfl
          | some j =>
            have hji : j ≠ i := by
              rintro rfl
              exact hvw (hs.ordinal_inj v w j ho (hdw.trans hj))
            simp [Heap.dropFrom, hji, hno j hj]
        simp [hvw, hkept]

theorem dropExternal_run {a : Arena} {s : Slot} (hs : a.slot v = .ok s) (ho : s.ordinal = some i)
    (hi : i < a.externals.length) : dropExternal v a = (do
      write v (fun s => { s with ordinal := none })
      renumber i ((a.externals.eraseIdx i).drop i) : Action Unit) { a with externals := a.externals.eraseIdx i } := by
  rw [dropExternal, run_ask hs, run_get, ho]
  dsimp only
  rw [if_pos hi]
  rfl

theorem dropExternal_ofHeap (hs : h.Sound) (ho : h.ordinalAt v = some i) :
    dropExternal v (ofHeap h) = .ok () (ofHeap (h.dropExternal i)) := by
  obtain ⟨e, he, hei⟩ := Option.bind_eq_some_iff.mp ho
  have hi : i < h.externals.length := (List.getElem?_eq_some_iff.mp (hs.getElem?_externals.mpr ho)).1
  have hdrop : (h.externals.eraseIdx i).drop i = h.externals.drop (i + 1) := by
    refine List.ext_getElem? fun k => ?_
    rw [List.getElem?_drop, List.getElem?_drop, List.getElem?_eraseIdx, if_neg (by omega), Nat.add_right_comm]
  have hclear : write v (fun s => { s with ordinal := none }) { ofHeap h with externals := h.externals.eraseIdx i } =
      .ok () (withElements { ofHeap h with externals := h.externals.eraseIdx i }
        (h.elements.modify v (fun e => { e with ordinal := none }))) :=
    write_withElements (a := { ofHeap h with externals := h.externals.eraseIdx i })
      (List.getElem?_eq_some_iff.mp he).1 fun _ _ => rfl
  have hbelow : ∀ u ∈ h.externals.drop (i + 1),
      u < (h.elements.modify v (fun e => { e with ordinal := none })).length := by
    rw [List.length_modify]
    exact fun u => lt_of_mem_drop_externals hs
  have hmark : (h.dropExternal i).elements.map Element.mark = h.elements.map Element.mark := by
    rw [Heap.dropExternal, List.map_map]
    refine List.map_congr_left fun e _ => ?_
    simp only [Function.comp_apply, Element.dropOrdinal]
    cases e.ordinal <;> rfl
  refine (dropExternal_run (slot_ofHeap he) hei hi).trans ((run_bind hclear).trans ?_)
  rw [show (ofHeap h).externals = h.externals from rfl, hdrop, renumber_withElements hbelow, number_dropExternal hs ho,
    ofHeap_of_marks (h := h) (by rfl) hmark, externals_dropExternal hs ho]
  rfl

end Ordinals

section Removal

theorem detach_withElements (a : Arena) (hs : h.Sound) (he : h.elements[v]? = some e) :
    detach v (a.withElements h.elements) = .ok () (a.withElements (h.elements.detach v)) := by
  have hout := detachOut_withElements (a := a) he fun t ht => by
    refine hs.lt_of_joined (u := v) ?_
    rw [Heap.Joined, Heap.out_eq he]
    exact Element.mem_successors.mp ht
  have hv : (h.elements.detachOut v)[v]? = some { e with arcs := [], preds := e.preds.erase v } := by
    rw [Heap.getElem?_detachOut hs, he]
    simp
  have hnodup : e.preds.Nodup := Heap.into_eq he ▸ hs.into_nodup v
  have hself : v ∉ e.preds.erase v := fun hm => (hnodup.mem_erase_iff.mp hm).1 rfl
  have hin := detachIn_withElements (a := a) hv (hnodup.erase v) hself fun u hu => by
    obtain ⟨hne, hmem⟩ := hnodup.mem_erase_iff.mp hu
    have hj : h.Joined u v := (hs.mem_into u v).mp (by rwa [Heap.into_eq he])
    obtain ⟨lab, hlab⟩ := hs.labelAt_of_joined hj
    obtain ⟨d, hd, -, -⟩ := Heap.labelAt_eq_some.mp hlab
    rw [Heap.Joined, Heap.out_eq hd] at hj
    refine ⟨_, by rw [Heap.getElem?_detachOut hs, hd]; rfl, ?_⟩
    dsimp only
    rwa [if_neg hne.symm]
  rw [detach, run_ask (slot_withElements he)]
  refine (run_bind hout).trans ?_
  rw [run_ask (slot_withElements hv)]
  exact hin

theorem discard_withElements (a : Arena) (hs : h.Sound) (he : h.elements[v]? = some e) :
    discard v (a.withElements h.elements) =
      .ok () { a.withElements (h.retire v).elements with removedCount := a.removedCount + 1 } := by
  have hlen : v < (h.elements.detach v).length := by
    have hface := congrArg List.length (Store.map_face_detach (s := h.elements) v)
    rw [List.length_map, List.length_map] at hface
    rw [hface]
    exact (List.getElem?_eq_some_iff.mp he).1
  have hmark : write v (fun s => { s with removed := true, ordinal := none }) (a.withElements (h.elements.detach v)) =
      .ok () (a.withElements (h.retire v).elements) := write_withElements hlen fun _ _ => rfl
  rw [discard, run_bind (detach_withElements a hs he), run_bind hmark]
  rfl

theorem privOf_retire (hs : h.Sound) (ho : h.ordinalAt v = none) (he : h.elements[v]? = some e) :
    (ofHeap (h.retire v)).privOf = (ofHeap h).privOf.set e.id none := by
  have hid : h.idOf v = some e.id := by simp [Heap.idOf, he]
  have hs' := hs.retire ho
  refine List.ext_getElem? fun x => ?_
  simp only [ofHeap, List.getElem?_set, List.length_map, List.length_range, List.getElem?_map]
  change Option.map _ (List.range h.nextId)[x]? = _
  by_cases hx : x < h.nextId
  · rw [List.getElem?_range hx]
    by_cases hxe : e.id = x
    · have hnone : (h.retire v).slot? x = none := by
        refine Option.eq_none_iff_forall_ne_some.mpr fun w hw => ?_
        obtain ⟨hwid, lab, hlab⟩ := hs'.slot?_eq_some.mp hw
        rw [Heap.idOf_retire hs ho] at hwid
        rw [Heap.labelAt_retire hs ho, if_pos (hs.id_inj w v x hwid (hxe ▸ hid))] at hlab
        cases hlab
      simp [hxe, hx, hnone]
    · have hsame : (h.retire v).slot? x = h.slot? x := by
        refine Option.ext fun w => ?_
        rw [hs'.slot?_eq_some, hs.slot?_eq_some, Heap.idOf_retire hs ho, Heap.labelAt_retire hs ho]
        refine and_congr_right fun hw => ?_
        rw [if_neg]
        rintro rfl
        exact hxe (Option.some.inj (hid.symm.trans hw))
      simp [hxe, hsame]
  · have hlt : e.id < h.nextId := hs.id_lt v e.id hid
    rw [List.getElem?_eq_none (by simpa using hx), if_neg (by omega)]
    rfl

theorem removed_retire (hs : h.Sound) (ho : h.ordinalAt v = none) (he : h.elements[v]? = some e)
    (hr : e.removed = false) :
    (h.retire v).elements.countP Element.removed = h.elements.countP Element.removed + 1 := by
  obtain ⟨hlt, hev⟩ := List.getElem?_eq_some_iff.mp he
  have hmap : (h.retire v).elements.map Element.removed = (h.elements.map Element.removed).set v true := by
    refine List.ext_getElem? fun w => ?_
    rw [List.getElem?_map, Heap.getElem?_retire hs ho, List.getElem?_set, List.getElem?_map]
    by_cases hw : v = w
    · subst hw
      simp [hlt]
    · cases h.elements[w]? <;> simp [hw]
  have hcount (k : Heap) : k.elements.countP Element.removed = (k.elements.map Element.removed).countP id := by
    rw [List.countP_map]
    rfl
  rw [hcount, hcount, hmap, List.countP_set (by simpa using hlt)]
  simp [hev, hr]

theorem retire_ofHeap (hs : h.Sound) (hb : h.nextId ≤ 2 ^ 31) (ho : h.ordinalAt v = none) (he : h.elements[v]? = some e)
    (hr : e.removed = false) :
    (do forget (Int32.ofNat e.id); discard v : Action Unit) (ofHeap h) = .ok () (ofHeap (h.retire v)) := by
  have hlt : e.id < h.nextId := hs.id_lt v e.id (by simp [Heap.idOf, he])
  have hint : (Int32.ofNat e.id).toInt = e.id := Int32.toInt_ofNat_of_lt (by omega)
  have hforget : forget (Int32.ofNat e.id) (ofHeap h) =
      .ok () { ofHeap h with privOf := (ofHeap h).privOf.set e.id none } := by
    rw [forget, hint, if_pos ⟨Int.natCast_nonneg _, by simpa [ofHeap] using hlt⟩]
    rfl
  have hdiscard := discard_withElements { ofHeap h with privOf := (ofHeap h).privOf.set e.id none } hs he
  have hordinals : (h.retire v).externals = h.externals := by
    refine List.ext_getElem? fun i => Option.ext fun w => ?_
    rw [(hs.retire ho).getElem?_externals, hs.getElem?_externals, Heap.ordinalAt_retire hs ho]
  rw [run_bind hforget]
  refine hdiscard.trans ?_
  rw [← privOf_retire hs ho he]
  simp only [withElements, ofHeap, removed_retire hs ho he hr, hordinals]

theorem removeVertex_ofHeap (hs : h.Sound) (hb : h.nextId ≤ 2 ^ 31) {lab : Label} (hl : h.labelAt v = some lab)
    (hr : h.removeAt v = .ok h') : removeVertex v (ofHeap h) = .ok () (ofHeap h') := by
  obtain ⟨e, he, hlive, -⟩ := Heap.labelAt_eq_some.mp hl
  have heo : h.ordinalAt v = e.ordinal := by simp [Heap.ordinalAt, he]
  simp only [Heap.removeAt, he, Heap.detachable_of_sound hs v, if_true] at hr
  rw [removeVertex, run_ask (slot_ofHeap he)]
  change (if e.ordinal.isSome = true then dropExternal v >>= _ else _) (ofHeap h) = _
  cases ho : e.ordinal with
  | none =>
    rw [ho] at hr
    cases hr
    exact retire_ofHeap hs hb (heo.trans ho) he hlive
  | some i =>
    rw [ho] at hr
    cases hr
    have hdrop := dropExternal_ofHeap hs (heo.trans ho)
    have hvo : (h.dropExternal i).ordinalAt v = none := by
      rw [Heap.ordinalAt_dropExternal, heo, ho]
      simp [Heap.dropFrom]
    have he' : (h.dropExternal i).elements[v]? = some (e.dropOrdinal i) := by simp [Heap.dropExternal, he]
    have hid : (e.dropOrdinal i).id = e.id := by simp [Element.dropOrdinal, ho]
    have hlive' : (e.dropOrdinal i).removed = false := by simp [Element.dropOrdinal, ho, hlive]
    have hretire := retire_ofHeap (hs.dropExternal (heo.trans ho)) hb hvo he' hlive'
    rw [hid] at hretire
    rw [if_pos (Option.isSome_some), run_bind hdrop]
    exact hretire

end Removal

end Arena

end HeapAbstraction
