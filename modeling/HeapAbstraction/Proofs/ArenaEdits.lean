import HeapAbstraction.Proofs.ArenaCompaction
import HeapAbstraction.Proofs.Refinement
import HeapAbstraction.Proofs.ArcOrder

namespace HeapAbstraction

theorem exists_of_mem_mapM {ε α β : Type} {f : α → Except ε β} {as : List α} {bs : List β} (hm : as.mapM f = .ok bs) :
    ∀ b ∈ bs, ∃ a ∈ as, f a = .ok b := by
  have hall := Heap.mapM_ok hm
  clear hm
  induction hall with
  | nil => simp
  | @cons a b as bs hab _ ih =>
    refine List.forall_mem_cons.mpr ⟨⟨a, List.mem_cons_self, hab⟩, fun c hc => ?_⟩
    obtain ⟨d, hd, hdc⟩ := ih c hc
    exact ⟨d, List.mem_cons_of_mem _ hd, hdc⟩

theorem Heap.Sound.length_externals {h : Heap} (hs : h.Sound) : h.externals.length = h.externalCount := by
  have hlt (i : Nat) : i < h.externals.length ↔ i < h.externalCount := by
    rw [← hs.exists_ordinal]
    constructor
    · intro hi
      exact ⟨_, hs.getElem?_externals.mp (List.getElem?_eq_getElem hi)⟩
    · rintro ⟨v, hv⟩
      exact (List.getElem?_eq_some_iff.mp (hs.getElem?_externals.mpr hv)).1
  have h1 := hlt h.externalCount
  have h2 := hlt h.externals.length
  omega

theorem Heap.Found.id_eq {h : Heap} {id : Int} {kind : Kind} {v x : Nat} {e : Element} (hf : h.Found id kind v e x)
    (hs : h.Sound) : id = x ∧ e.id = x := by
  obtain ⟨y, rfl, hy, -⟩ := Heap.find_ok hs hf.find
  have hx := Option.some.inj (hy.symm.trans hf.idOf)
  refine ⟨by rw [hx], ?_⟩
  simpa [Heap.idOf, hf.getElem?] using hf.idOf

namespace Arena

variable {α β : Type} {h h' : Heap} {u v t x : Nat} {e : Element} {l : EdgeLabel} {id : Int} {kind : Kind}

def reply (h : Heap) : Except HeapError (Heap × List Nat) → EStateM.Result HeapError Arena (List Int32)
  | .ok (h', ids) => .ok (ids.map Int32.ofNat) (ofHeap h')
  | .error err => .error err (ofHeap h)

def done (h : Heap) (r : Except HeapError Heap) : EStateM.Result HeapError Arena (List Int32) :=
  reply h ((fun h' => (h', [])) <$> r)

def given (h : Heap) (r : Except HeapError (Heap × Nat)) : EStateM.Result HeapError Arena (List Int32) :=
  reply h ((fun p => (p.1, [p.2])) <$> r)

def follow : Except Aborted Heap → EStateM.Result HeapError Arena Unit
  | .ok h => .ok () (ofHeap h)
  | .error e => .error e.error (ofHeap e.heap)

theorem run_done {x : Action Unit} {r : Except HeapError Heap} (hx : x (ofHeap h) = follow (h.orAbort r)) :
    (do x; return [] : Action (List Int32)) (ofHeap h) = done h r := by
  cases r with
  | ok h' => exact run_bind hx
  | error err => exact run_bind_error hx

section Found

theorem run_find (hw : h.WellFormed) {f : Nat → Action α} {G : Except HeapError β → EStateM.Result HeapError Arena α}
    {g : Nat × Element → Except HeapError β} (hG : ∀ err, G (.error err) = .error err (ofHeap h))
    (hfg : ∀ v e x, h.Found id kind v e x → f v (ofHeap h) = G (g (v, e))) :
    (ask (priv · id kind) >>= f) (ofHeap h) = G (h.find id kind >>= g) := by
  rcases hw.find_cases id kind with ⟨v, e, x, hf⟩ | ⟨err, hf, -⟩
  · rw [run_ask (priv_of_find hw.toSound hf.find).1, hf.find]
    exact hfg v e x hf
  · rw [run_bind_error (ask_error (priv_of_find_error hw.toSound hf)), hf]
    exact (hG err).symm

theorem run_slot {f : Slot → Action α} (he : h.elements[v]? = some e) :
    (ask (slot · v) >>= f) (ofHeap h) = f (Slot.ofElement e) (ofHeap h) := run_ask (slot_ofHeap he)

theorem findLabel_ofElement (e : Element) (l : EdgeLabel) : (Slot.ofElement e).findLabel l = e.targetOf? l := rfl

theorem ordinal_ofElement (e : Element) : (Slot.ofElement e).ordinal = e.ordinal := rfl

theorem pub_ofElement (hs : h.Sound) (hb : h.nextId ≤ 2 ^ 31) (he : h.elements[v]? = some e) :
    (Slot.ofElement e).pub.toInt = e.id := by
  have hlt : e.id < h.nextId := hs.id_lt v e.id (by simp [Heap.idOf, he])
  exact Int32.toInt_ofNat_of_lt (by omega)

theorem variableSlot?_ofHeap (name : Bytes) : (ofHeap h).variableSlot? name = h.variableSlot? name := by
  rw [variableSlot?, ofHeap, List.findIdx?_map]
  rfl

theorem pub_ofHeap (hid : h.idOf v = some x) : pub (ofHeap h) v = .ok (Int32.ofNat x) := by
  obtain ⟨e, he, rfl⟩ := Option.map_eq_some_iff.mp hid
  rw [pub, slot_ofHeap he]
  rfl

end Found

section Edits

theorem removeVertex_follow (hs : h.Sound) (hb : h.nextId ≤ 2 ^ 31) {lab : Label} (hl : h.labelAt v = some lab) :
    removeVertex v (ofHeap h) = follow (h.orAbort (h.removeAt v)) := by
  obtain ⟨h', hr, -⟩ := hs.removeAt hl
  rw [removeVertex_ofHeap hs hb hl hr, hr]
  rfl

theorem addVertices_ofHeap (hs : h.Sound) (label : Label) (n : Nat) : addVertices label n (ofHeap h) =
    .ok ((List.range' h.nextId n).map Int32.ofNat) (ofHeap (h.addAll (List.replicate n label))) := by
  induction n generalizing h with
  | zero => rfl
  | succ n ih =>
    have hid : (h.addElement label).idOf h.elements.length = some h.nextId := by simp [Heap.idOf_addElement]
    rw [addVertices, run_bind (addVertex_ofHeap hs label), run_ask (pub_ofHeap hid), run_bind (ih hs.addElement)]
    rfl

theorem perform_addNodes (hw : h.WellFormed) (type : Bytes) (count : Int) :
    perform (.addNodes type count) (ofHeap h) = reply h (h.addNodes type count) := by
  rw [perform, Heap.addNodes]
  by_cases hc : (count < 0 || Heap.requestLimit < count) = true
  · rw [if_pos hc, if_pos hc]
    rfl
  · rw [if_neg hc, if_neg hc, addVertices_ofHeap hw.toSound, Heap.addAll_replicate]
    simp only [reply, List.map_map, List.range'_eq_map_range]
    rfl

theorem perform_removeIsolatedNode (hw : h.WellFormed) (hb : h.nextId ≤ 2 ^ 31) (node : Int) :
    perform (.removeIsolatedNode node) (ofHeap h) = done h (h.removeIsolatedNode node) := by
  refine run_find hw (fun _ => rfl) fun v e x hf => ?_
  rw [run_slot hf.getElem?]
  change (if (e.arcs.isEmpty && e.preds.isEmpty) = true then removeVertex v >>= _ else _) (ofHeap h) =
    done h (if (e.arcs.isEmpty && e.preds.isEmpty) = true then _ else _)
  split
  · exact run_done (removeVertex_follow hw.toSound hb hf.labelAt)
  · rfl

theorem perform_addSelector (hw : h.WellFormed) (source : Int) (selector : Bytes) (target : Int) :
    perform (.addSelector source selector target) (ofHeap h) = done h (h.addSelector source selector target) := by
  refine run_find hw (fun _ => rfl) fun v e x hf => ?_
  refine run_find hw (fun _ => rfl) fun t d y hg => ?_
  rw [run_slot hf.getElem?]
  simp only [findLabel_ofElement]
  cases e.targetOf? (.selector selector) with
  | some _ => rfl
  | none =>
    have hv : v < h.elements.length := Heap.lt_of_labelAt hf.labelAt
    have ht : t < h.elements.length := Heap.lt_of_labelAt hg.labelAt
    exact run_bind (addArcLabel_ofHeap hv ht)

theorem removeSelectorAt_ofHeap (hs : h.Sound) (hb : h.nextId ≤ 2 ^ 31) (he : h.elements[v]? = some e)
    (selector : Bytes) :
    removeSelectorAt v selector (ofHeap h) = follow (h.orAbort (h.removeSelectorAt v selector)) := by
  rw [removeSelectorAt, run_slot he]
  simp only [findLabel_ofElement, Heap.removeSelectorAt, he]
  cases ht : e.targetOf? (.selector selector) with
  | none =>
    dsimp only
    rw [pub_ofElement hs hb he]
    rfl
  | some t =>
    have hl : h.Linked v (.selector selector) t := by
      rw [Heap.Linked, Heap.out_eq he]
      exact Element.carries_of_targetOf? ht
    obtain ⟨h', hr⟩ : ∃ h', h.unlink v t (.selector selector) = .ok h' :=
      ⟨_, if_pos (by simp [hs.lt_of_joined hl.joined])⟩
    dsimp only
    rw [hr]
    exact removeArcLabel_ofHeap hs hl hr

theorem perform_removeSelector (hw : h.WellFormed) (hb : h.nextId ≤ 2 ^ 31) (node : Int) (selector : Bytes) :
    perform (.removeSelector node selector) (ofHeap h) = done h (h.removeSelector node selector) := by
  refine run_find hw (fun _ => rfl) fun v e x hf => ?_
  refine (run_done (removeSelectorAt_ofHeap hw.toSound hb hf.getElem? selector)).trans (congrArg (done h) ?_)
  obtain ⟨hnode, hid⟩ := hf.id_eq hw.toSound
  have heq : node = e.id := by rw [hnode, hid]
  rw [Heap.removeSelectorAt, hf.getElem?]
  exact heq ▸ rfl

theorem perform_replaceSelector (hw : h.WellFormed) (node : Int) (old new : Bytes) :
    perform (.replaceSelector node old new) (ofHeap h) = done h (h.replaceSelector node old new) := by
  refine run_find hw (fun _ => rfl) fun v e x hf => ?_
  rw [run_slot hf.getElem?]
  simp only [findLabel_ofElement]
  cases ht : e.targetOf? (.selector old) with
  | none => rfl
  | some t =>
    dsimp only
    by_cases hsame : old = new
    · rw [if_pos hsame, if_pos hsame]
      rfl
    · rw [if_neg hsame, if_neg hsame]
      cases e.targetOf? (.selector new) with
      | some _ => rfl
      | none =>
        have hl := hf.linked ht
        have hlt : t < h.elements.length := hw.toSound.lt_of_joined hl.joined
        obtain ⟨h', hr⟩ : ∃ h', h.unlink v t (.selector old) = .ok h' := ⟨_, if_pos (by simp [hlt])⟩
        have hlen : h'.elements.length = h.elements.length := by
          rw [Heap.unlink, if_pos (by simp [hlt])] at hr
          cases hr
          simpa using congrArg List.length (Store.map_face_unlink (s := h.elements) v t (.selector old))
        have hv : v < h'.elements.length := hlen ▸ Heap.lt_of_labelAt hf.labelAt
        dsimp only
        rw [run_bind (removeArcLabel_ofHeap hw.toSound hl hr), run_bind (addArcLabel_ofHeap hv (hlen ▸ hlt)), hr]
        rfl

theorem externals_setOrdinal (hs : h.Sound) (ho : h.ordinalAt v = none)
    (hr : h' = { h with elements := h.elements.modify v (fun e => { e with ordinal := some h.externalCount }) })
    (hs' : h'.Sound) (hv : v < h.elements.length) : h'.externals = h.externals ++ [v] := by
  have hordinal (w : Nat) : h'.ordinalAt w = if v = w then some h.externalCount else h.ordinalAt w := by
    rw [hr, Heap.ordinalAt, Heap.ordinalAt, List.getElem?_modify]
    by_cases hw : v = w
    · subst hw
      simp [List.getElem?_eq_getElem hv]
    · cases h.elements[w]? <;> simp [hw]
  refine List.ext_getElem? fun i => Option.ext fun w => ?_
  rw [hs'.getElem?_externals, hordinal, List.getElem?_append, hs.length_externals]
  by_cases hw : v = w
  · subst hw
    have hno : h.externals[i]? ≠ some v := fun hi => by simpa [ho] using hs.getElem?_externals.mp hi
    by_cases hi : i < h.externalCount
    · simp [hi, hno, hi.ne']
    · rw [if_pos rfl, if_neg hi, List.getElem?_singleton]
      have hend : h.externalCount = i ↔ i - h.externalCount = 0 := by omega
      by_cases hz : i - h.externalCount = 0
      · simp [hend.mpr hz]
      · simp [hz, show h.externalCount ≠ i from fun h => hz (hend.mp h)]
  · rw [if_neg hw]
    by_cases hi : i < h.externalCount
    · rw [if_pos hi, hs.getElem?_externals]
    · have hno : h.ordinalAt w ≠ some i := fun hwi => hi (hs.exists_ordinal.mp ⟨w, hwi⟩)
      simp only [hno, if_neg hi, List.getElem?_singleton, false_iff]
      split
      · exact fun h => hw (Option.some.inj h)
      · simp

theorem perform_setExternal (hw : h.WellFormed) (node : Int) :
    perform (.setExternal node) (ofHeap h) = done h (h.setExternal node) := by
  refine run_find hw (fun _ => rfl) fun v e x hf => ?_
  rw [run_slot hf.getElem?, run_get]
  simp only [ordinal_ofElement]
  cases ho : e.ordinal with
  | some i => rfl
  | none =>
    have hv : v < h.elements.length := Heap.lt_of_labelAt hf.labelAt
    have hov : h.ordinalAt v = none := by simp [Heap.ordinalAt, hf.getElem?, ho]
    have hmark : (h.elements.modify v (fun e => { e with ordinal := some h.externalCount })).map Element.mark =
        h.elements.map Element.mark := map_modify_of_eq fun _ _ => by rfl
    have hwrite : write v (fun s => { s with ordinal := some h.externals.length }) (ofHeap h) =
        .ok () ((ofHeap h).withElements (h.elements.modify v (fun e => { e with ordinal := some h.externalCount }))) :=
      write_withElements (a := ofHeap h) hv fun e _ => by
        simp [Slot.ofElement, Element.successors, hw.toSound.length_externals]
    have hset : h.setExternal node = .ok { h with
        elements := h.elements.modify v (fun e => { e with ordinal := some h.externalCount }) } := by
      rw [Heap.setExternal, hf.find]
      simp only [bind, Except.bind, ho]
      rfl
    have htables := externals_setOrdinal hw.toSound hov rfl (hw.setExternal hset).toSound hv
    dsimp only
    refine (run_bind hwrite).trans ?_
    refine congrArg (EStateM.Result.ok []) (Eq.trans ?_ (ofHeap_of_marks (h := h) (by rfl) hmark).symm)
    rw [htables]
    rfl

theorem perform_unsetExternal (hw : h.WellFormed) (node : Int) :
    perform (.unsetExternal node) (ofHeap h) = done h (h.unsetExternal node) := by
  refine run_find hw (fun _ => rfl) fun v e x hf => ?_
  rw [run_slot hf.getElem?]
  simp only [ordinal_ofElement]
  cases ho : e.ordinal with
  | none => rfl
  | some i =>
    have hv : h.ordinalAt v = some i := by simp [Heap.ordinalAt, hf.getElem?, ho]
    exact run_bind (dropExternal_ofHeap hw.toSound hv)

theorem perform_removeVariable (hw : h.WellFormed) (hb : h.nextId ≤ 2 ^ 31) (edge : Int) :
    perform (.removeVariable edge) (ofHeap h) = done h (h.removeVariable edge) := by
  refine run_find hw (fun _ => rfl) fun v e x hf => ?_
  exact run_done (removeVertex_follow hw.toSound hb hf.labelAt)

theorem perform_removeNonterminal (hw : h.WellFormed) (hb : h.nextId ≤ 2 ^ 31) (edge : Int) :
    perform (.removeNonterminal edge) (ofHeap h) = done h (h.removeNonterminal edge) := by
  refine run_find hw (fun _ => rfl) fun v e x hf => ?_
  exact run_done (removeVertex_follow hw.toSound hb hf.labelAt)

theorem perform_relabel (hw : h.WellFormed) (edge : Int) (nt : Nonterminal) :
    perform (.relabel edge nt) (ofHeap h) = done h (h.relabel edge nt) := by
  refine run_find hw (fun _ => rfl) fun v e x hf => ?_
  rw [run_slot hf.getElem?]
  change (if e.label.rank ≠ nt.rank then throw (.relabelRank ⟨e.label.name, e.label.rank⟩ nt) else _ : Action (List Int32))
    (ofHeap h) = done h (if e.label.rank ≠ nt.rank then _ else _)
  split
  · rfl
  · have hwrite : write v (fun s => { s with label := .nonterminal nt }) (ofHeap h) = .ok ()
        ((ofHeap h).withElements (h.elements.modify v (fun e => { e with label := .nonterminal nt }))) :=
      write_withElements (a := ofHeap h) (Heap.lt_of_labelAt hf.labelAt) fun _ _ => rfl
    have hface : ofHeap { h with elements := h.elements.modify v (fun e => { e with label := .nonterminal nt }) } =
        (ofHeap h).withElements (h.elements.modify v (fun e => { e with label := .nonterminal nt })) :=
      ofHeap_of_faces rfl (Store.map_face_modify fun _ => by rfl)
    rw [← hface] at hwrite
    exact run_bind hwrite

theorem linkTentacles_ofHeap (hv : v < h.elements.length) {ps : List (Nat × Nat)}
    (ht : ∀ p ∈ ps, p.1 < h.elements.length) : linkTentacles v ps (ofHeap h) =
      .ok () (ofHeap (h.linkAll (ps.map (fun p => ⟨v, p.1, .tentacle p.2⟩)))) := by
  induction ps generalizing h with
  | nil => rfl
  | cons p ps ih =>
    obtain ⟨t, i⟩ := p
    have hlen := (Heap.sameFaces_link (h := h) (u := v) (t := t) (l := .tentacle i)).length
    rw [linkTentacles, run_bind (addArcLabel_ofHeap hv (ht (t, i) List.mem_cons_self)), ih (hlen ▸ hv) fun p hp => by
      rw [hlen]
      exact ht p (List.mem_cons_of_mem _ hp)]
    rfl

theorem addHyperedge_ofHeap (hs : h.Sound) (nt : Nonterminal) {targets : List Nat}
    (ht : ∀ t ∈ targets, t < h.elements.length) :
    addHyperedge nt targets (ofHeap h) = .ok h.elements.length (ofHeap (h.attach nt targets)) := by
  have hlen : (h.addElement (.nonterminal nt)).elements.length = h.elements.length + 1 := by simp [Heap.addElement]
  have htargets : ∀ p ∈ targets.zipIdx, p.1 < (h.addElement (.nonterminal nt)).elements.length := by
    intro p hp
    have := ht p.1 (List.fst_mem_of_mem_zipIdx hp)
    omega
  have hlink := linkTentacles_ofHeap (v := h.elements.length) (by omega) htargets
  rw [addHyperedge, run_bind (addVertex_ofHeap hs _), run_bind hlink, Heap.attach_eq]
  rfl

theorem idOf_attach (nt : Nonterminal) (targets : List Nat) :
    (h.attach nt targets).idOf h.elements.length = some h.nextId := by
  rw [Heap.attach_eq, Heap.attachAs, Heap.sameFaces_linkAll.idOf, Heap.idOf_addElement, if_pos rfl]

theorem perform_addVariable (hw : h.WellFormed) (name : Bytes) (target : Int) :
    perform (.addVariable name target) (ofHeap h) = given h (h.addVariable name target) := by
  refine run_find hw (fun _ => rfl) fun t e x hf => ?_
  rw [run_get, variableSlot?_ofHeap]
  dsimp only
  cases h.variableSlot? name with
  | some _ => rfl
  | none =>
    have hlen : (h.addElement (.variable name)).elements.length = h.elements.length + 1 := by simp [Heap.addElement]
    have ht : t < h.elements.length := Heap.lt_of_labelAt hf.labelAt
    have hid : ((h.addElement (.variable name)).link h.elements.length t (.tentacle 0)).idOf h.elements.length =
        some h.nextId := by
      rw [Heap.sameFaces_link.idOf, Heap.idOf_addElement, if_pos rfl]
    dsimp only
    rw [run_bind (addVertex_ofHeap hw.toSound _), run_bind (addArcLabel_ofHeap (by omega) (by omega)),
      run_ask (pub_ofHeap hid)]
    rfl

theorem privs_ofHeap (hs : h.Sound) (nodes : List Int) :
    privs nodes (ofHeap h) = nodes.mapM (fun node => Prod.fst <$> h.find node .node) := by
  simp only [privs, priv_ofHeap hs]

theorem mapM_find_lt (hs : h.Sound) {nodes : List Int} {targets : List Nat}
    (hm : nodes.mapM (fun node => Prod.fst <$> h.find node .node) = .ok targets) :
    ∀ t ∈ targets, t < h.elements.length := by
  intro t ht
  obtain ⟨node, -, hnode⟩ := exists_of_mem_mapM hm t ht
  obtain ⟨e, hf⟩ := fst_map_ok hnode
  obtain ⟨y, -, -, he, -⟩ := Heap.find_ok hs hf
  exact (List.getElem?_eq_some_iff.mp he).1

theorem perform_addNonterminal (hw : h.WellFormed) (nt : Nonterminal) (tentacles : List Int) :
    perform (.addNonterminal nt tentacles) (ofHeap h) = given h (h.addNonterminal nt tentacles) := by
  rw [perform, Heap.addNonterminal]
  by_cases hr : (tentacles.length : Int) ≠ nt.rank
  · rw [if_pos hr, if_pos hr]
    rfl
  · rw [if_neg hr, if_neg hr]
    have hprivs := privs_ofHeap hw.toSound tentacles
    cases hm : tentacles.mapM (fun node => Prod.fst <$> h.find node .node) with
    | error err =>
      rw [hm] at hprivs
      exact run_bind_error (ask_error hprivs)
    | ok targets =>
      rw [hm] at hprivs
      rw [run_ask hprivs, run_bind (addHyperedge_ofHeap hw.toSound nt (mapM_find_lt hw.toSound hm)),
        run_ask (pub_ofHeap (idOf_attach nt targets))]
      rfl

theorem perform_ofHeap (hw : h.WellFormed) (hb : h.nextId ≤ 2 ^ 31) (e : ElementaryEdit) :
    perform e (ofHeap h) = reply h (e.run h) := by
  cases e with
  | addNodes type count => exact perform_addNodes hw type count
  | removeIsolatedNode node => exact perform_removeIsolatedNode hw hb node
  | addSelector source selector target => exact perform_addSelector hw source selector target
  | removeSelector node selector => exact perform_removeSelector hw hb node selector
  | replaceSelector node old new => exact perform_replaceSelector hw node old new
  | setExternal node => exact perform_setExternal hw node
  | unsetExternal node => exact perform_unsetExternal hw node
  | addVariable name target => exact perform_addVariable hw name target
  | removeVariable edge => exact perform_removeVariable hw hb edge
  | addNonterminal nt tentacles => exact perform_addNonterminal hw nt tentacles
  | removeNonterminal edge => exact perform_removeNonterminal hw hb edge
  | relabel edge nt => exact perform_relabel hw edge nt

end Edits

end Arena

end HeapAbstraction
