import HeapAbstraction.Proofs.HeapState
import HeapAbstraction.Proofs.Representation

namespace HeapAbstraction

open Classical in
noncomputable def HeapState.run (A : HeapState) : ElementaryEdit → Except HeapError (HeapState × List Nat)
  | .addNodes type count =>
      if 0 ≤ count ∧ count ≤ Heap.requestLimit then
        .ok (A.addNodes type count.toNat, (List.range count.toNat).map (fun i => A.nextId + i))
      else .error .fault
  | .removeIsolatedNode node => do
      let x ← A.find node .node
      if A.Isolated x then return (A.removeNode x, []) else .error (.notIsolated node)
  | .addSelector source s target => do
      let x ← A.find source .node
      let y ← A.find target .node
      if A.selector x s = none then return (A.setSelector x s (some y), [])
      else .error (.duplicateSelector source s)
  | .removeSelector node s => do
      let x ← A.find node .node
      if A.selector x s = none then .error (.missingSelector node s) else return (A.setSelector x s none, [])
  | .replaceSelector node old new => do
      let x ← A.find node .node
      if A.selector x old = none then .error (.missingSelector node old)
      else if new ≠ old ∧ A.selector x new ≠ none then .error (.duplicateSelector node new)
      else return ((A.setSelector x old none).setSelector x new (A.selector x old), [])
  | .setExternal node => do
      let x ← A.find node .node
      if x ∈ A.externals then .error (.alreadyExternal node)
      else return ({ A with externals := A.externals ++ [x] }, [])
  | .unsetExternal node => do
      let x ← A.find node .node
      if x ∈ A.externals then return ({ A with externals := A.externals.erase x }, [])
      else .error (.notExternal node)
  | .addVariable name target => do
      let y ← A.find target .node
      if ∃ x z, A.pointer x = some (name, z) then .error (.duplicateVariable name)
      else return (A.next.setPointer A.nextId (some (name, y)), [A.nextId])
  | .removeVariable edge => do
      let x ← A.find edge .variable
      return (A.setPointer x none, [])
  | .addNonterminal nt tentacles =>
      if (tentacles.length : Int) ≠ nt.rank then .error (.tentacleCount nt tentacles.length)
      else do
        let ys ← tentacles.mapM (fun node => A.find node .node)
        return (A.next.setHyperedge A.nextId (some (nt, ys)), [A.nextId])
  | .removeNonterminal edge => do
      let x ← A.find edge .nonterminal
      return (A.setHyperedge x none, [])
  | .relabel edge nt => do
      let x ← A.find edge .nonterminal
      let some (old, ys) := A.hyperedge x | .error (.unknownId edge)
      if old.rank ≠ nt.rank then .error (.relabelRank old nt)
      else return (A.setHyperedge x (some (nt, ys)), [])

namespace HeapState

theorem addNodes_zero (A : HeapState) (type : Bytes) : A.addNodes type 0 = A := by
  ext1 <;> simp [addNodes]
  funext x
  rw [if_neg (by omega)]

theorem addNodes_succ (A : HeapState) (type : Bytes) (n : Nat) :
    A.addNodes type (n + 1) = (A.addNodes type n).addNodes type 1 := by
  simp only [addNodes, HeapState.mk.injEq, and_true, Nat.add_assoc, true_and]
  funext x
  by_cases hx : A.nextId ≤ x ∧ x < A.nextId + n
  · rw [if_pos hx, if_pos (by omega)]
    simp
  · rw [if_neg hx]
    by_cases hlast : x = A.nextId + n
    · rw [if_pos (by omega), if_pos (by omega)]
    · rw [if_neg (by omega), if_neg (by omega)]

end HeapState

namespace Heap

variable {h h' : Heap} {u v x y : Nat} {s : Bytes}

theorem SameBody.view (hb : SameBody h h') (hs : h.Sound) (hs' : h'.Sound) :
    h'.view = { h.view with ordinal := fun x => (h.slot? x).bind h'.ordinalAt } := by
  have hslot := slot?_congr hs hs' hb.idOf hb.labelAt
  simp only [Heap.view, hslot, hb.idOf, hb.labelAt, hb.nextId, hb.linked]

theorem Sound.view_dropExternal (hs : h.Sound) {i : Nat} (ho : h.ordinalAt v = some i) :
    (h.dropExternal i).view = { h.view with ordinal := fun z => dropFrom i (h.view.ordinal z) } := by
  rw [(sameBody_dropExternal i).view hs (hs.dropExternal ho)]
  simp only [Heap.view, HeapView.mk.injEq, true_and, and_true]
  funext z
  cases h.slot? z with
  | none => rfl
  | some w => exact ordinalAt_dropExternal i

theorem Sound.view_setOrdinal (hs : h.Sound) (hn : h.IsNode v) (hid : h.idOf v = some x) (ho : h.ordinalAt v = none) :
    (h.setOrdinal v h.externalCount).view =
      { h.view with ordinal := Function.update h.view.ordinal x (some h.externalCount) } := by
  rw [(sameBody_setOrdinal _).view hs (hs.setOrdinal hn ho)]
  simp only [HeapView.mk.injEq, true_and, and_true]
  funext z
  obtain ⟨type, hl⟩ := hn
  by_cases hz : z = x
  · subst hz
    rw [hs.slot?_eq hid hl, Function.update_self]
    exact (ordinalAt_setOrdinal (lt_of_labelAt hl)).mpr (.inl ⟨rfl, rfl⟩)
  · rw [Function.update_of_ne hz]
    change _ = (h.slot? z).bind h.ordinalAt
    cases hw : h.slot? z with
    | none => rfl
    | some w =>
      have hwv : w ≠ v := by
        rintro rfl
        exact hz (Option.some.inj ((hs.slot?_eq_some.mp hw).1.symm.trans hid))
      refine Option.ext fun j => ?_
      simp [ordinalAt_setOrdinal (lt_of_labelAt hl), hwv]

theorem Sound.view_setLabel (hs : h.Sound) {old nt : Nonterminal} (hid : h.idOf v = some x)
    (hl : h.labelAt v = some (.nonterminal old)) : (h.setLabel v (.nonterminal nt)).view =
      { h.view with label := Function.update h.view.label x (some (.nonterminal nt)) } := by
  have hs' : (h.setLabel v (.nonterminal nt)).Sound := hs.setLabel hl (by simp [Label.kind]) (by simp [Label.kind])
  ext1
  · rfl
  · funext z
    refine Option.ext fun lab => ?_
    rw [hs'.view_label]
    simp only [idOf_setLabel, labelAt_setLabel hl]
    by_cases hz : z = x
    · subst hz
      rw [Function.update_self]
      constructor
      · rintro ⟨w, hw, hlab⟩
        rwa [if_pos (hs.id_inj w v z hw hid)] at hlab
      · exact fun hlab => ⟨v, hid, by rwa [if_pos rfl]⟩
    · rw [Function.update_of_ne hz, hs.view_label]
      refine exists_congr fun w => and_congr_right fun hw => ?_
      rw [if_neg]
      rintro rfl
      exact hz (Option.some.inj (hw.symm.trans hid))
  · funext z
    refine Option.ext fun i => ?_
    rw [hs'.view_ordinal, hs.view_ordinal, idOf_setLabel, ordinalAt_setLabel]
  · simp only [Heap.view, idOf_setLabel, Linked, out_setLabel]

theorem Sound.view_link (hs : h.Sound) (hu : h.IsNode u) (hv : h.IsNode v) (hux : h.idOf u = some x)
    (hvy : h.idOf v = some y) (hfree : ∀ w, ¬ h.Linked u (.selector s) w) : (h.link u v (.selector s)).view =
      h.view.addLinks (fun a l b => a = x ∧ l = .selector s ∧ b = y) := by
  obtain ⟨type, hlab⟩ := hu
  refine (view_linkAll hs [⟨u, v, .selector s⟩] ?_ (List.pairwise_singleton ..)).trans ?_
  · intro k hk
    obtain rfl := List.mem_singleton.mp hk
    exact ⟨⟨_, hlab⟩, hv, hfree⟩
  · congr 1
    funext a l b
    simp only [List.mem_singleton, Link.mk.injEq, eq_iff_iff]
    constructor
    · rintro ⟨u', v', ha, hb, rfl, rfl, rfl⟩
      exact ⟨Option.some.inj (ha.symm.trans hux), rfl, Option.some.inj (hb.symm.trans hvy)⟩
    · rintro ⟨rfl, rfl, rfl⟩
      exact ⟨u, v, hux, hvy, rfl, rfl, rfl⟩

structure Found (h : Heap) (id : Int) (kind : Kind) (v : Nat) (e : Element) (x : Nat) : Prop where
  find : h.find id kind = .ok (v, e)
  state : h.state.find id kind = .ok x
  idOf : h.idOf v = some x
  getElem? : h.elements[v]? = some e
  labelAt : h.labelAt v = some e.label
  kind_eq : e.label.kind = kind

namespace WellFormed

theorem find_cases (hw : h.WellFormed) (id : Int) (kind : Kind) : (∃ v e x, h.Found id kind v e x) ∨
    ∃ err, h.find id kind = .error err ∧ h.state.find id kind = .error err := by
  have hs := hw.toSound
  cases id with
  | negSucc n => exact .inr ⟨_, rfl, rfl⟩
  | ofNat x =>
    have hkind := hw.kind?_state x
    cases hx : h.view.label x with
    | none =>
      rw [hx] at hkind
      exact .inr ⟨_, hs.find_of_unknown hx, by simp [HeapState.find, hkind]⟩
    | some lab =>
      rw [hx] at hkind
      by_cases hk : lab.kind = kind
      · obtain ⟨v, e, hf, hid, he, hl, rfl⟩ := hs.exists_find hx
        exact .inl ⟨v, e, x, hk ▸ hf, by simp [HeapState.find, hkind, hk], hid, he, hl, hk⟩
      · exact .inr ⟨_, hs.find_of_kind_ne hx hk, by simp [HeapState.find, hkind, hk]⟩

end WellFormed

namespace Found

variable {id : Int} {kind : Kind} {e : Element}

theorem isNode (hf : h.Found id .node v e x) : h.IsNode v := isNode_of_kind hf.labelAt hf.kind_eq

theorem view_label (hf : h.Found id kind v e x) (hs : h.Sound) : h.view.label x = some e.label :=
  hs.view_label.mpr ⟨v, hf.idOf, hf.labelAt⟩

theorem linked (hf : h.Found id kind v e x) {l : EdgeLabel} {t : Nat} (ht : e.targetOf? l = some t) : h.Linked v l t := by
  rw [Linked, out_eq hf.getElem?]
  exact Element.carries_of_targetOf? ht

theorem free (hf : h.Found id kind v e x) {l : EdgeLabel} (ht : e.targetOf? l = none) (w : Nat) : ¬ h.Linked v l w := by
  rw [Linked, out_eq hf.getElem?]
  exact Element.targetOf?_eq_none.mp ht w

theorem selector_none (hf : h.Found id kind v e x) (hw : h.WellFormed) (ht : e.targetOf? (.selector s) = none) :
    h.state.selector x s = none := by
  refine hw.denotes.selector_eq_none.mpr ?_
  rintro y ⟨u, w, hu, -, hl⟩
  rw [hw.id_inj u v x hu hf.idOf] at hl
  exact hf.free ht w hl

theorem selector_some (hf : h.Found id kind v e x) (hw : h.WellFormed) {t : Nat}
    (ht : e.targetOf? (.selector s) = some t) : ∃ y, h.idOf t = some y ∧ h.state.selector x s = some y := by
  obtain ⟨y, hy⟩ := hw.toSound.idOf_target (hf.linked ht)
  exact ⟨y, hy, (hw.denotes.selector x s y).mpr ⟨v, t, hf.idOf, hy, hf.linked ht⟩⟩

theorem mem_externals (hf : h.Found id kind v e x) (hw : h.WellFormed) : x ∈ h.state.externals ↔ ∃ i, e.ordinal = some i := by
  rw [hw.denotes.mem_externals, hw.toSound.view_ordinal_of_idOf hf.idOf, ordinalAt, hf.getElem?, Option.bind_some]

theorem bare_iff (hf : h.Found id kind v e x) (hs : h.Sound) : (e.arcs.isEmpty && e.preds.isEmpty) = true ↔
    (∀ l y, ¬ h.view.link x l y) ∧ ∀ y l, ¬ h.view.link y l x := by
  rw [Bool.and_eq_true, List.isEmpty_iff, List.isEmpty_iff, ← out_eq hf.getElem?, ← into_eq hf.getElem?]
  constructor
  · rintro ⟨hout, hin⟩
    refine ⟨?_, ?_⟩
    · rintro l y ⟨u, w, hu, -, hl⟩
      rw [hs.id_inj u v x hu hf.idOf, Linked, hout] at hl
      exact Arc.carries_nil hl
    · rintro y l ⟨u, w, -, hw, hl⟩
      rw [hs.id_inj w v x hw hf.idOf] at hl
      have hmem := (hs.mem_into u v).mpr hl.joined
      simp [hin] at hmem
  · rintro ⟨hout, hin⟩
    refine ⟨List.eq_nil_iff_forall_not_mem.mpr fun a ha => ?_, List.eq_nil_iff_forall_not_mem.mpr fun u hu => ?_⟩
    · obtain ⟨l, hl⟩ := hs.joined_iff.mp (show h.Joined v a.target from ⟨a, ha, rfl⟩)
      obtain ⟨y, hy⟩ := hs.idOf_target hl
      exact hout l y ⟨v, _, hf.idOf, hy, hl⟩
    · obtain ⟨l, hl⟩ := hs.joined_iff.mp ((hs.mem_into u v).mp hu)
      obtain ⟨y, hy⟩ := hs.idOf_source hl
      exact hin y l ⟨u, v, hy, hf.idOf, hl⟩

end Found

theorem exists_variable {lab : Label} (hk : lab.kind = .variable) : ∃ name, lab = .variable name := by
  cases lab with
  | node type => cases hk
  | nonterminal nt => cases hk
  | «variable» name => exact ⟨name, rfl⟩

theorem WellFormed.length_externals (hw : h.WellFormed) : h.state.externals.length = h.externalCount := by
  have hlt (i : Nat) : i < h.state.externals.length ↔ i < h.externalCount := by
    rw [← hw.toSound.exists_ordinal]
    constructor
    · intro hi
      have hx := (hw.denotes.externals i _).mp (List.getElem?_eq_getElem hi)
      obtain ⟨v, -, hv⟩ := hw.toSound.view_ordinal.mp hx
      exact ⟨v, hv⟩
    · rintro ⟨v, hv⟩
      obtain ⟨type, ht⟩ := hw.ordinal_node v i hv
      obtain ⟨x, hx⟩ := idOf_of_labelAt ht
      have hi := (hw.denotes.externals i x).mpr (hw.toSound.view_ordinal.mpr ⟨v, hx, hv⟩)
      exact (List.getElem?_eq_some_iff.mp hi).1
  have h1 := hlt h.externalCount
  have h2 := hlt h.state.externals.length
  omega

def snapshot (h : Heap) : HeapState × List Nat := (h.state, [])

namespace WellFormed

theorem find_bind (hw : h.WellFormed) {id : Int} {kind : Kind} {α β : Type} {F : α → β}
    {f : Nat × Element → Except HeapError α} {g : Nat → Except HeapError β}
    (hfound : ∀ v e x, h.Found id kind v e x → F <$> f (v, e) = g x) :
    F <$> (h.find id kind >>= f) = h.state.find id kind >>= g := by
  rcases hw.find_cases id kind with ⟨v, e, x, hf⟩ | ⟨err, hf, hA⟩
  · rw [hf.find, hf.state]
    exact hfound v e x hf
  · rw [hf, hA]
    rfl

theorem denotes_addNodes (hw : h.WellFormed) (type : Bytes) (n : Nat) :
    (h.addAll (List.replicate n (.node type))).WellFormed ∧
      (h.addAll (List.replicate n (.node type))).view.Denotes (h.state.addNodes type n) := by
  induction n with
  | zero =>
    refine ⟨hw, ?_⟩
    rw [HeapState.addNodes_zero]
    exact hw.denotes
  | succ n ih =>
    have hadd : h.addAll (List.replicate (n + 1) (.node type)) =
        (h.addAll (List.replicate n (.node type))).addElement (.node type) := by
      rw [List.replicate_succ', addAll, List.foldl_append]
      rfl
    rw [hadd, HeapState.addNodes_succ, view_addElement ih.1.toSound]
    exact ⟨ih.1.addElement_node, ih.2.addNode ih.1.toSound.proper type⟩

theorem state_addNodes (hw : h.WellFormed) (type : Bytes) (count : Int) :
    (fun r => (r.1.state, r.2)) <$> h.addNodes type count = h.state.run (.addNodes type count) := by
  by_cases hc : 0 ≤ count ∧ count ≤ requestLimit
  · have hno : ¬ (count < 0 || decide (requestLimit < count)) = true := by simpa using hc
    have hnew := addAll_replicate (h := h) (.node type) count.toNat
    obtain ⟨hw', hd'⟩ := hw.denotes_addNodes type count.toNat
    simp only [Heap.addNodes, HeapState.run, if_neg hno, if_pos hc, List.map_map, Except.map_ok, Function.comp_def]
    rw [← hnew, hw'.denotes.unique hd']
    rfl
  · have hno : (count < 0 || decide (requestLimit < count)) = true := by
      rw [Bool.or_eq_true, decide_eq_true_eq, decide_eq_true_eq]
      omega
    simp [Heap.addNodes, HeapState.run, hno, hc]

theorem state_addSelector (hw : h.WellFormed) (source : Int) (s : Bytes) (target : Int) :
    snapshot <$> h.addSelector source s target = h.state.run (.addSelector source s target) := by
  refine hw.find_bind fun u e x hu => hw.find_bind fun v f y hv => ?_
  cases ht : e.targetOf? (.selector s) with
  | some t =>
    obtain ⟨z, -, hz⟩ := hu.selector_some hw ht
    simp [hz]
  | none =>
    have he : h.addSelector source s target = .ok (h.link u v (.selector s)) := by
      simp [Heap.addSelector, hu.find, hv.find, ht, bind, Except.bind, pure, Except.pure]
    have hnone := hu.selector_none hw ht
    have hst : (h.link u v (.selector s)).state = h.state.setSelector x s (some y) := by
      refine (hw.addSelector he).denotes.unique ?_
      rw [hw.toSound.view_link hu.isNode hv.isNode hu.idOf hv.idOf (hu.free ht)]
      exact hw.denotes.addSelector (hw.denotes.selector_eq_none.mp hnone)
    simp [hnone, snapshot, hst, pure, Except.pure]

theorem state_removeSelector (hw : h.WellFormed) (node : Int) (s : Bytes) :
    snapshot <$> h.removeSelector node s = h.state.run (.removeSelector node s) := by
  refine hw.find_bind fun v e x hv => ?_
  cases ht : e.targetOf? (.selector s) with
  | none => simp [ht, hv.selector_none hw ht]
  | some t =>
    obtain ⟨y, -, hy⟩ := hv.selector_some hw ht
    obtain ⟨h', he, hs', hf, hl⟩ := hw.toSound.unlink (hv.linked ht)
    have hst : h'.state = h.state.setSelector x s none := by
      refine (hw.unlink_selector hv.isNode (hv.linked ht) he).1.denotes.unique ?_
      rw [hf.view_dropLink hw.toSound hs' hv.idOf hl]
      exact hw.denotes.dropSelector
    simp [ht, he, hy, snapshot, hst, pure, Except.pure]

theorem state_replaceSelector (hw : h.WellFormed) (node : Int) (old new : Bytes) :
    snapshot <$> h.replaceSelector node old new = h.state.run (.replaceSelector node old new) := by
  refine hw.find_bind fun v e x hv => ?_
  cases ht : e.targetOf? (.selector old) with
  | none => simp [ht, hv.selector_none hw ht]
  | some t =>
    obtain ⟨y, hy, hold⟩ := hv.selector_some hw ht
    by_cases hne : old = new
    · subst hne
      have hsame : (h.state.setSelector x old none).setSelector x old (h.state.selector x old) = h.state := by
        simp [HeapState.setSelector]
      simp [ht, hold ▸ hsame, hold, snapshot, pure, Except.pure]
    · have hne' : new ≠ old := fun hx => hne hx.symm
      cases hn : e.targetOf? (.selector new) with
      | some t' =>
        obtain ⟨z, -, hz⟩ := hv.selector_some hw hn
        simp [ht, hn, hold, hne, hne', hz]
      | none =>
        obtain ⟨k, hk, hs', hf, hl⟩ := hw.toSound.unlink (hv.linked ht)
        have he : h.replaceSelector node old new = .ok (k.link v t (.selector new)) := by
          simp [Heap.replaceSelector, hv.find, ht, hn, hne, hk, bind, Except.bind, pure, Except.pure]
        have hst : (k.link v t (.selector new)).state =
            (h.state.setSelector x old none).setSelector x new (some y) := by
          refine (hw.replaceSelector he).denotes.unique ?_
          have hfree (w : Nat) : ¬ k.Linked v (.selector new) w := fun hx => hv.free hn w ((hl _ _ _).mp hx).1
          rw [hs'.view_link (hf.isNode.mpr hv.isNode) (hf.isNode.mpr (hw.ends v t (hv.linked ht).joined))
            (hf.idOf ▸ hv.idOf) (hf.idOf ▸ hy) hfree, hf.view_dropLink hw.toSound hs' hv.idOf hl]
          refine hw.denotes.dropSelector.addSelector fun z hz => ?_
          exact hw.denotes.selector_eq_none.mp (hv.selector_none hw hn) z hz.1
        simp [ht, hn, hk, hold, hne, hne', hv.selector_none hw hn, snapshot, hst, bind, Except.bind, pure, Except.pure]

theorem state_removeIsolatedNode (hw : h.WellFormed) (node : Int) :
    snapshot <$> h.removeIsolatedNode node = h.state.run (.removeIsolatedNode node) := by
  refine hw.find_bind fun v e x hv => ?_
  have hs := hw.toSound
  obtain ⟨type, htype⟩ := hv.isNode
  have hx : h.view.label x = some (.node type) := hs.view_label.mpr ⟨v, hv.idOf, htype⟩
  have hedge (z : Nat) (nt : Nonterminal) (hz : h.view.label z = some (.nonterminal nt)) :
      ∃ ys, h.state.hyperedge z = some (nt, ys) :=
    (hw.exists_attachedNodes hz).imp fun ys hys => (hw.denotes.hyperedge z nt ys).mpr ⟨hz, hys.2.2⟩
  have hiso := hw.denotes.isolated_iff hs.proper (hs.wellFormed_iff.mp hw) hedge hx
  rw [← hv.bare_iff hs] at hiso
  by_cases hb : (e.arcs.isEmpty && e.preds.isEmpty) = true
  · obtain ⟨hout, hin⟩ := (hv.bare_iff hs).mp hb
    obtain ⟨h', he, hr⟩ := hs.removeAt htype
    have hst : h'.state = h.state.removeNode x := by
      have hok : h.removeIsolatedNode node = .ok h' := by
        simp [Heap.removeIsolatedNode, hv.find, hb, he, bind, Except.bind]
      refine (hw.removeIsolatedNode hok).denotes.unique ?_
      rw [hr.view hs hv.idOf]
      exact hw.denotes.removeNode hx hout hin
    simp only [if_pos hb, if_pos (hiso.mpr hb), he, Except.map_ok, snapshot, hst]
    rfl
  · simp only [if_neg hb, if_neg (mt hiso.mp hb)]
    rfl

theorem state_removeVariable (hw : h.WellFormed) (edge : Int) :
    snapshot <$> h.removeVariable edge = h.state.run (.removeVariable edge) := by
  refine hw.find_bind fun v e x hv => ?_
  obtain ⟨h', he, hr⟩ := hw.toSound.removeAt hv.labelAt
  obtain ⟨name, hname⟩ := exists_variable hv.kind_eq
  have hst : h'.state = h.state.setPointer x none := by
    refine (hw.removeEdge (by simp) hv.find he).denotes.unique ?_
    rw [hr.view hw.toSound hv.idOf]
    exact hw.denotes.removePointer hw.toSound.proper (hw.toSound.wellFormed_iff.mp hw)
      (hname ▸ hv.view_label hw.toSound)
  simp only [he, Except.map_ok, snapshot, hst]
  rfl

theorem state_removeNonterminal (hw : h.WellFormed) (edge : Int) :
    snapshot <$> h.removeNonterminal edge = h.state.run (.removeNonterminal edge) := by
  refine hw.find_bind fun v e x hv => ?_
  obtain ⟨h', he, hr⟩ := hw.toSound.removeAt hv.labelAt
  obtain ⟨nt, hnt⟩ := exists_nonterminal hv.kind_eq
  have hst : h'.state = h.state.setHyperedge x none := by
    refine (hw.removeEdge (by simp) hv.find he).denotes.unique ?_
    rw [hr.view hw.toSound hv.idOf]
    exact hw.denotes.removeHyperedge hw.toSound.proper (hw.toSound.wellFormed_iff.mp hw)
      (hnt ▸ hv.view_label hw.toSound)
  simp only [he, Except.map_ok, snapshot, hst]
  rfl

theorem state_setExternal (hw : h.WellFormed) (node : Int) :
    snapshot <$> h.setExternal node = h.state.run (.setExternal node) := by
  refine hw.find_bind fun v e x hv => ?_
  have hmem := hv.mem_externals hw
  cases ho : e.ordinal with
  | some i =>
    rw [if_pos (hmem.mpr ⟨i, ho⟩)]
    simp [ho]
  | none =>
    have hv' : h.ordinalAt v = none := by simp [ordinalAt, hv.getElem?, ho]
    have he : h.setExternal node = .ok (h.setOrdinal v h.externalCount) := by
      simp only [Heap.setExternal, hv.find, ho, bind, Except.bind]
      rfl
    have hst : (h.setOrdinal v h.externalCount).state = { h.state with externals := h.state.externals ++ [x] } := by
      refine (hw.setExternal he).denotes.unique ?_
      rw [hw.toSound.view_setOrdinal hv.isNode hv.idOf hv', ← hw.length_externals]
      refine hw.denotes.addExternal ?_
      rwa [hw.toSound.view_ordinal_of_idOf hv.idOf]
    rw [if_neg fun hm => by simpa [ho] using hmem.mp hm, ← hst]
    simp only [ho]
    rfl

theorem state_unsetExternal (hw : h.WellFormed) (node : Int) :
    snapshot <$> h.unsetExternal node = h.state.run (.unsetExternal node) := by
  refine hw.find_bind fun v e x hv => ?_
  have hmem := hv.mem_externals hw
  cases ho : e.ordinal with
  | none =>
    rw [if_neg fun hm => by simpa [ho] using hmem.mp hm]
    simp [ho]
  | some i =>
    have hv' : h.ordinalAt v = some i := by simp [ordinalAt, hv.getElem?, ho]
    have he : h.unsetExternal node = .ok (h.dropExternal i) := by
      simp only [Heap.unsetExternal, hv.find, ho, bind, Except.bind]
      rfl
    have hst : (h.dropExternal i).state = { h.state with externals := h.state.externals.erase x } := by
      refine (hw.unsetExternal he).denotes.unique ?_
      rw [hw.toSound.view_dropExternal hv']
      refine hw.denotes.dropExternal ?_
      rwa [hw.toSound.view_ordinal_of_idOf hv.idOf]
    rw [if_pos (hmem.mpr ⟨i, ho⟩), ← hst]
    simp only [ho]
    rfl

theorem exists_pointer (hw : h.WellFormed) (name : Bytes) :
    (∃ x y, h.state.pointer x = some (name, y)) ↔ h.variableSlot? name ≠ none := by
  rw [ne_eq, variableSlot?_eq_none, not_forall]
  simp only [ne_eq, not_not]
  constructor
  · rintro ⟨x, y, hp⟩
    obtain ⟨v, -, hv⟩ := hw.toSound.view_label.mp ((hw.denotes.pointer x name y).mp hp).1
    exact ⟨v, hv⟩
  · rintro ⟨v, hv⟩
    obtain ⟨x, hid⟩ := idOf_of_labelAt hv
    have hx := hw.toSound.view_label.mpr ⟨v, hid, hv⟩
    obtain ⟨y, -, hl⟩ := hw.exists_variableTarget hx
    exact ⟨x, y, (hw.denotes.pointer x name y).mpr ⟨hx, hl⟩⟩

theorem state_addVariable (hw : h.WellFormed) (name : Bytes) (target : Int) :
    (fun r => (r.1.state, [r.2])) <$> h.addVariable name target = h.state.run (.addVariable name target) := by
  refine hw.find_bind fun t e y ht => ?_
  have hex := hw.exists_pointer name
  cases hn : h.variableSlot? name with
  | some v =>
    rw [if_pos (hex.mpr (by simp [hn]))]
    simp
  | none =>
    have he : h.addVariable name target = .ok (h.attachAs (.variable name) [t], h.nextId) := by
      simp only [Heap.addVariable, ht.find, hn, bind, Except.bind]
      rfl
    have hst : (h.attachAs (.variable name) [t]).state = h.state.next.setPointer h.nextId (some (name, y)) := by
      have hview : (h.attachAs (.variable name) [t]).view = h.view.attach (.variable name) [y] :=
        (hw.toSound.attachAs (by simpa using ht.isNode) (by simp [ht.idOf])).2
      refine (hw.addVariable he).denotes.unique ?_
      rw [hview]
      exact hw.denotes.addPointer hw.toSound.proper name y
    rw [if_neg (by rw [hex, hn]; simp)]
    change Except.ok ((h.attachAs (.variable name) [t]).state, [h.nextId]) = _
    rw [hst]
    rfl

theorem mapM_find_cases (hw : h.WellFormed) (tentacles : List Int) :
    (∃ targets ys, tentacles.mapM (fun node => Prod.fst <$> h.find node .node) = .ok targets ∧
      tentacles.mapM (fun node => h.state.find node .node) = .ok ys ∧ (∀ t ∈ targets, h.IsNode t) ∧
        targets.map h.idOf = ys.map some) ∨
    ∃ err, tentacles.mapM (fun node => Prod.fst <$> h.find node .node) = .error err ∧
      tentacles.mapM (fun node => h.state.find node .node) = .error err := by
  induction tentacles with
  | nil => exact .inl ⟨[], [], rfl, rfl, by simp, rfl⟩
  | cons node rest ih =>
    simp only [List.mapM_cons]
    rcases hw.find_cases node .node with ⟨v, e, x, hv⟩ | ⟨err, hf, hA⟩
    · rw [hv.find, hv.state]
      rcases ih with ⟨targets, ys, hts, hys, hn, hid⟩ | ⟨err, hf, hA⟩
      · refine .inl ⟨v :: targets, x :: ys, ?_, ?_, ?_, ?_⟩
        · rw [hts]
          rfl
        · rw [hys]
          rfl
        · exact List.forall_mem_cons.mpr ⟨hv.isNode, hn⟩
        · rw [List.map_cons, List.map_cons, hv.idOf, hid]
      · refine .inr ⟨err, ?_, ?_⟩
        · rw [hf]
          rfl
        · rw [hA]
          rfl
    · refine .inr ⟨err, ?_, ?_⟩
      · rw [hf]
        rfl
      · rw [hA]
        rfl

theorem state_addNonterminal (hw : h.WellFormed) (nt : Nonterminal) (tentacles : List Int) :
    (fun r => (r.1.state, [r.2])) <$> h.addNonterminal nt tentacles = h.state.run (.addNonterminal nt tentacles) := by
  by_cases hrank : (tentacles.length : Int) ≠ nt.rank
  · simp [Heap.addNonterminal, HeapState.run, hrank]
  · rcases hw.mapM_find_cases tentacles with ⟨targets, ys, hts, hys, hn, hid⟩ | ⟨err, hf, hA⟩
    · have he : h.addNonterminal nt tentacles = .ok (h.attach nt targets, h.nextId) := by
        simp only [Heap.addNonterminal, if_neg hrank, hts, bind, Except.bind]
        rfl
      have hst : (h.attach nt targets).state = h.state.next.setHyperedge h.nextId (some (nt, ys)) := by
        have hview : (h.attachAs (.nonterminal nt) targets).view = h.view.attach (.nonterminal nt) ys :=
          (hw.toSound.attachAs hn hid).2
        refine (hw.addNonterminal he).denotes.unique ?_
        rw [attach_eq, hview]
        exact hw.denotes.addHyperedge hw.toSound.proper nt ys
      simp only [he, Except.map_ok, hst, HeapState.run, if_neg hrank, hys, bind, Except.bind]
      rfl
    · simp only [Heap.addNonterminal, HeapState.run, if_neg hrank, hf, hA, bind, Except.bind]
      rfl

theorem state_relabel (hw : h.WellFormed) (edge : Int) (nt : Nonterminal) :
    snapshot <$> h.relabel edge nt = h.state.run (.relabel edge nt) := by
  refine hw.find_bind fun v e x hv => ?_
  obtain ⟨old, hold⟩ := exists_nonterminal hv.kind_eq
  have hx : h.view.label x = some (.nonterminal old) := hold ▸ hv.view_label hw.toSound
  obtain ⟨ys, -, -, hget⟩ := hw.exists_attachedNodes hx
  have hedge := (hw.denotes.hyperedge x old ys).mpr ⟨hx, hget⟩
  by_cases hrank : old.rank ≠ nt.rank
  · simp [hedge, hold, Label.rank, Label.name, hrank]
  · have he : h.relabel edge nt = .ok (h.setLabel v (.nonterminal nt)) := by
      simp only [Heap.relabel, hv.find, hold, Label.rank, if_neg hrank, bind, Except.bind]
      rfl
    have hst : (h.setLabel v (.nonterminal nt)).state = h.state.setHyperedge x (some (nt, ys)) := by
      refine (hw.relabel he).denotes.unique ?_
      rw [hw.toSound.view_setLabel hv.idOf (hold ▸ hv.labelAt)]
      exact hw.denotes.relabel hedge nt
    simp only [hedge, hold, Label.rank, if_neg hrank, ← hst]
    rfl

theorem state_run (hw : h.WellFormed) (e : ElementaryEdit) :
    (fun r => (r.1.state, r.2)) <$> e.run h = h.state.run e := by
  cases e with
  | addNodes type count => exact hw.state_addNodes type count
  | removeIsolatedNode node => exact (Functor.map_map ..).trans (hw.state_removeIsolatedNode node)
  | addSelector source s target => exact (Functor.map_map ..).trans (hw.state_addSelector source s target)
  | removeSelector node s => exact (Functor.map_map ..).trans (hw.state_removeSelector node s)
  | replaceSelector node old new => exact (Functor.map_map ..).trans (hw.state_replaceSelector node old new)
  | setExternal node => exact (Functor.map_map ..).trans (hw.state_setExternal node)
  | unsetExternal node => exact (Functor.map_map ..).trans (hw.state_unsetExternal node)
  | addVariable name target => exact (Functor.map_map ..).trans (hw.state_addVariable name target)
  | removeVariable edge => exact (Functor.map_map ..).trans (hw.state_removeVariable edge)
  | addNonterminal nt tentacles => exact (Functor.map_map ..).trans (hw.state_addNonterminal nt tentacles)
  | removeNonterminal edge => exact (Functor.map_map ..).trans (hw.state_removeNonterminal edge)
  | relabel edge nt => exact (Functor.map_map ..).trans (hw.state_relabel edge nt)

end WellFormed

end Heap

namespace HeapError

-- every way to fail has a kind of error of its own, and what is given has a property
def Declared {α : Type} (Q : α → Prop) : Except HeapError α → Prop
  | .ok a => Q a
  | .error err => err.kind? ≠ none

namespace Declared

variable {α β : Type} {P : α → Prop} {Q : β → Prop}

theorem error {err : HeapError} {k : ErrorKind} (hk : err.kind? = some k) : Declared Q (.error err) := by
  simp [Declared, hk]

theorem bind {r : Except HeapError α} {f : α → Except HeapError β} (hr : Declared P r)
    (hf : ∀ a, P a → Declared Q (f a)) : Declared Q (r >>= f) := by
  cases r with
  | error e => exact hr
  | ok a => exact hf a hr

theorem ite {p : Prop} {_ : Decidable p} {r t : Except HeapError β} (hr : Declared Q r) (ht : Declared Q t) :
    Declared Q (if p then r else t) := by
  split
  · exact hr
  · exact ht

theorem mapM {f : α → Except HeapError β} (hf : ∀ a, Declared Q (f a)) (as : List α) :
    Declared (fun bs => ∀ b ∈ bs, Q b) (as.mapM f) := by
  induction as with
  | nil => exact fun _ hb => absurd hb List.not_mem_nil
  | cons a as ih =>
    rw [List.mapM_cons]
    exact (hf a).bind fun b hb => ih.bind fun bs hbs => List.forall_mem_cons.mpr ⟨hb, hbs⟩

end Declared

end HeapError

namespace HeapState

open HeapError

variable {A B : HeapState} {e : ElementaryEdit}

theorem declared_find (A : HeapState) (id : Int) (kind : Kind) : Declared (fun _ => True) (A.find id kind) := by
  cases id with
  | negSucc n => exact .error rfl
  | ofNat x =>
    rw [find]
    split
    · exact .error rfl
    · exact .ite trivial (.error rfl)

theorem declared_run (A : HeapState) (e : ElementaryEdit)
    (hc : ∀ type count, e = .addNodes type count → 0 ≤ count ∧ count ≤ Heap.requestLimit) :
    Declared (fun r => A.nextId ≤ r.1.nextId) (A.run e) := by
  have hfind {f : Nat → Except HeapError (HeapState × List Nat)} (id : Int) (kind : Kind)
      (hf : ∀ x, Declared (fun r => A.nextId ≤ r.1.nextId) (f x)) :
      Declared (fun r => A.nextId ≤ r.1.nextId) (A.find id kind >>= f) := (A.declared_find id kind).bind fun x _ => hf x
  cases e with
  | addNodes type count =>
    rw [run, if_pos (hc type count rfl)]
    exact Nat.le_add_right _ _
  | removeIsolatedNode node => exact hfind _ _ fun x => .ite (Nat.le_refl _) (.error rfl)
  | addSelector source s target => exact hfind _ _ fun x => hfind _ _ fun y => .ite (Nat.le_refl _) (.error rfl)
  | removeSelector node s => exact hfind _ _ fun x => .ite (.error rfl) (Nat.le_refl _)
  | replaceSelector node old new => exact hfind _ _ fun x => .ite (.error rfl) (.ite (.error rfl) (Nat.le_refl _))
  | setExternal node => exact hfind _ _ fun x => .ite (.error rfl) (Nat.le_refl _)
  | unsetExternal node => exact hfind _ _ fun x => .ite (Nat.le_refl _) (.error rfl)
  | addVariable name target => exact hfind _ _ fun y => .ite (.error rfl) (Nat.le_succ _)
  | removeVariable edge => exact hfind _ _ fun x => Nat.le_refl _
  | addNonterminal nt tentacles =>
    exact .ite (.error rfl) ((Declared.mapM (fun _ => A.declared_find _ _) _).bind fun ys _ => Nat.le_succ _)
  | removeNonterminal edge => exact hfind _ _ fun x => Nat.le_refl _
  | relabel edge nt =>
    refine hfind _ _ fun x => ?_
    split
    · exact .ite (.error rfl) (Nat.le_refl _)
    · exact .error rfl

theorem nextId_le_run {ids : List Nat} (hr : A.run e = .ok (B, ids)) : A.nextId ≤ B.nextId := by
  have hd := A.declared_run e fun type count he => by
    by_contra hc
    simp [he, run, hc] at hr
  rwa [hr] at hd

end HeapState

namespace Draft

variable {d : Draft}

def carryOut (d : Draft) (e : ElementaryEdit) : Draft × Except HeapError (List Nat) :=
  d.edit (fun h => h.orAbort (e.run h))

end Draft

end HeapAbstraction
