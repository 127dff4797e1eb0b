import HeapAbstraction.Proofs.ArcOrder
import HeapAbstraction.Proofs.Lists
import HeapAbstraction.Proofs.Refinement
import HeapAbstraction.Proofs.Fingerprint
import HeapAbstraction.Heap.Printer

namespace HeapAbstraction.Heap

structure SameAnswers (h k : Heap) : Prop where
  nextId : k.nextId = h.nextId
  idsOf : k.idsOf = h.idsOf
  countOf : k.countOf = h.countOf
  externalCount : k.externalCount = h.externalCount
  externalNodes : k.externalNodes = h.externalNodes
  externalNodeAt : k.externalNodeAt = h.externalNodeAt
  externalIndexOf : k.externalIndexOf = h.externalIndexOf
  nodeTypeOf : k.nodeTypeOf = h.nodeTypeOf
  selectorsOf : k.selectorsOf = h.selectorsOf
  selectorTargetOf : k.selectorTargetOf = h.selectorTargetOf
  successorsOf : k.successorsOf = h.successorsOf
  attachedOf : k.attachedOf = h.attachedOf
  nonterminalOf : k.nonterminalOf = h.nonterminalOf
  attachedNodesOf : k.attachedNodesOf = h.attachedNodesOf
  variableWith : k.variableWith = h.variableWith
  variableNameOf : k.variableNameOf = h.variableNameOf
  variableTargetOf : k.variableTargetOf = h.variableTargetOf

variable {h k : Heap} {f : Nat → Nat} {kind : Kind}

theorem SameAnswers.print (hk : h.SameAnswers k) (opts : PrintOptions) : k.print opts = h.print opts := by
  have hnode : k.nodeStatements = h.nodeStatements := by
    simp only [nodeStatements, nodes, hk.idsOf, hk.nodeTypeOf]
  have hexternal : k.externalStatements = h.externalStatements := by
    simp only [externalStatements, hk.externalNodes]
  have hselector : k.selectorStatements = h.selectorStatements := by
    have hone : k.selectorStatement = h.selectorStatement := by
      funext node selector
      simp only [selectorStatement, hk.selectorTargetOf]
    simp only [selectorStatements, nodes, hk.idsOf, hk.selectorsOf, hone]
  have hedge : k.hyperedgeStatement opts = h.hyperedgeStatement opts := by
    funext edge
    simp only [hyperedgeStatement, hk.attachedNodesOf, hk.nonterminalOf]
  have hpointer : k.variableStatement = h.variableStatement := by
    funext edge
    simp only [variableStatement, hk.variableNameOf, hk.variableTargetOf]
  simp only [Heap.print, statements, nonterminalEdges, variableEdges, hnode, hexternal, hselector, hedge, hpointer, hk.idsOf]

namespace Sound

theorem externalNodeAt_eq (hs : h.Sound) (i : Nat) : h.externalNodeAt i = match h.state.externals[i]? with
    | some x => .ok x
    | none => .error (.noExternalAt i) := by
  change (match h.externalSlot? i with
    | some v => h.idAt v
    | none => .error (.noExternalAt i)) = _
  cases hx : h.state.externals[i]? with
  | some x =>
    obtain ⟨v, hid, ho⟩ := hs.view_ordinal.mp ((hs.externals_state i x).mp hx)
    simp only [hs.externalSlot?_eq_some.mpr ho, idAt_eq_ok.mpr hid]
  | none =>
    cases hv : h.externalSlot? i with
    | none => rfl
    | some v =>
      have ho := hs.externalSlot?_eq_some.mp hv
      obtain ⟨type, hl⟩ := hs.ordinal_node v i ho
      obtain ⟨x, hid⟩ := idOf_of_labelAt hl
      simp [(hs.externals_state i x).mpr (hs.view_ordinal.mpr ⟨v, hid, ho⟩)] at hx

theorem mem_ids (hs : h.Sound) {x : Nat} : x ∈ (h.elements.filter (isLiveOf kind)).map Element.id ↔
    ∃ lab, h.view.label x = some lab ∧ lab.kind = kind := by
  simp only [List.mem_map, List.mem_filter, isLiveOf, Bool.and_eq_true, Bool.not_eq_true', beq_iff_eq, hs.view_label]
  constructor
  · rintro ⟨e, ⟨hm, hr, hk⟩, rfl⟩
    obtain ⟨v, hv⟩ := List.mem_iff_getElem?.mp hm
    exact ⟨e.label, ⟨v, by simp [idOf, hv], labelAt_of_live hv hr⟩, hk⟩
  · rintro ⟨lab, ⟨v, hid, hl⟩, hk⟩
    obtain ⟨e, he, hr, rfl⟩ := labelAt_eq_some.mp hl
    rw [idOf, he] at hid
    exact ⟨e, ⟨List.mem_of_getElem? he, hr, hk⟩, Option.some.inj hid⟩

theorem ids_nodup (hs : h.Sound) : (h.elements.map Element.id).Nodup := by
  rw [List.Nodup, List.pairwise_map, List.pairwise_iff_getElem]
  intro v w hv hw hvw heq
  have := hs.id_inj v w h.elements[v].id (by simp [idOf, hv]) (by simp [idOf, hw, heq])
  omega

end Sound

theorem length_sortIds (ns : List Nat) : (sortIds ns).length = ns.length := by
  rw [sortIds_eq, List.length_insertionSort]

theorem length_idsOf (h : Heap) (kind : Kind) : (h.idsOf kind).length = h.countOf kind := by
  rw [idsOf, length_sortIds, List.length_map, countOf, List.countP_eq_length_filter]

theorem idsOf_eq_of_view (hs : h.Sound) (hk : k.Sound) (hv : k.view = h.view) (kind : Kind) : k.idsOf kind = h.idsOf kind := by
  have hnodup {a : Heap} (ha : a.Sound) : ((a.elements.filter (isLiveOf kind)).map Element.id).Nodup :=
    ha.ids_nodup.sublist (List.filter_sublist.map _)
  apply sortIds_perm
  apply (List.perm_ext_iff_of_nodup (hnodup hk) (hnodup hs)).mpr
  intro x
  rw [hk.mem_ids, hs.mem_ids, hv]

theorem WellFormed.variableSlot?_eq_some (hw : h.WellFormed) {name : Bytes} {v : Nat} :
    h.variableSlot? name = some v ↔ h.labelAt v = some (.variable name) := by
  constructor
  · exact labelAt_of_variableSlot?
  · intro hv
    cases hs : h.variableSlot? name with
    | none => exact absurd hv (variableSlot?_eq_none.mp hs v)
    | some w => rw [hw.variable_inj v w name hv (labelAt_of_variableSlot? hs)]

def idOfKind (h : Heap) (kind : Kind) (v : Nat) : Option Nat :=
  if (h.labelAt v).map Label.kind = some kind then h.idOf v else none

section

variable {get : Nat → Except HeapError Element} (hget : ∀ u d, h.elements[u]? = some d → get u = .ok d)

include hget

theorem mapM_sources {us : List Nat} (hu : ∀ u ∈ us, h.elements.Live u) : ∃ ds : List Element, us.mapM get = .ok ds ∧
    (ds.filter (fun d => d.kind == kind)).map Element.id = us.filterMap (h.idOfKind kind) := by
  induction us with
  | nil => exact ⟨[], rfl, rfl⟩
  | cons u us ih =>
    obtain ⟨⟨d, hd, hr⟩, hus⟩ := List.forall_mem_cons.mp hu
    obtain ⟨ds, hds, hids⟩ := ih hus
    refine ⟨d :: ds, ?_, ?_⟩
    · rw [List.mapM_cons, hget u d hd, hds]
      rfl
    · have hlab := labelAt_of_live hd hr
      have hid : h.idOf u = some d.id := by simp [idOf, hd]
      by_cases hk : d.kind = kind
      · have hone : h.idOfKind kind u = some d.id := by simp [idOfKind, hlab, hid, ← hk, Element.kind]
        rw [List.filterMap_cons_some hone, ← hids]
        simp [hk]
      · have hone : h.idOfKind kind u = none := by simpa [idOfKind, hlab, hid, Element.kind] using hk
        rw [List.filterMap_cons_none hone, ← hids]
        simp [hk]

theorem sources_eq {us : List Nat} (hu : ∀ u ∈ us, h.elements.Live u) :
    (do let ds ← us.mapM get
        return sortIds ((ds.filter (fun d => d.kind == kind)).map Element.id) : Except HeapError (List Nat)) =
      .ok (sortIds (us.filterMap (h.idOfKind kind))) := by
  have hsources : ∃ ds, us.mapM get = .ok ds ∧ _ = us.filterMap (h.idOfKind kind) := mapM_sources hget hu
  obtain ⟨ds, hds, hids⟩ := hsources
  rw [hds, ← hids]
  rfl

end

theorem ordinalAt_eq {v : Nat} {e : Element} (he : h.elements[v]? = some e) : h.ordinalAt v = e.ordinal := by
  simp [ordinalAt, he]

theorem find_bind_of_view (hs : h.Sound) (hk : k.Sound) (hv : k.view = h.view) {α : Type}
    {F G : Nat × Element → Except HeapError α}
    (hFG : ∀ (x v w : Nat) (e d : Element), h.find x kind = .ok (v, e) → h.idOf v = some x → h.elements[v]? = some e →
      k.find x kind = .ok (w, d) → k.idOf w = some x → k.elements[w]? = some d → d.label = e.label →
        h.view.label x = some e.label → e.label.kind = kind → G (w, d) = F (v, e)) (id : Int) :
    (k.find id kind >>= G) = (h.find id kind >>= F) := by
  cases id with
  | negSucc n => rfl
  | ofNat x =>
    change (k.find x kind >>= G) = (h.find x kind >>= F)
    cases hl : h.view.label x with
    | none =>
      rw [hs.find_of_unknown hl, hk.find_of_unknown (hv ▸ hl)]
      rfl
    | some lab =>
      by_cases hkind : lab.kind = kind
      · subst hkind
        obtain ⟨v, e, hf, hid, he, -, rfl⟩ := hs.exists_find hl
        obtain ⟨w, d, hf', hid', hd, -, hlab⟩ := hk.exists_find (hv ▸ hl)
        rw [hf, hf']
        exact hFG x v w e d hf hid he hf' hid' hd hlab hl rfl
      · rw [hs.find_of_kind_ne hl hkind, hk.find_of_kind_ne (hv ▸ hl) hkind]
        rfl

section

variable {v x : Nat} {e : Element} (hs : h.Sound) (hid : h.idOf v = some x) (he : h.elements[v]? = some e)

include hs hid he

theorem selectorNames_eq : e.selectorNames = (h.arcsOf x).flatMap (fun a => a.labels.map EdgeLabel.name) := by
  rw [hs.arcsOf_eq hid, out_eq he, Element.selectorNames]
  simp [Arc.moved, List.flatMap_map]

theorem mapM_successors : e.successors.mapM h.idAt = .ok ((h.arcsOf x).map Arc.target) := by
  have hat : ∀ t ∈ e.successors, h.idAt t = .ok (h.publicId t) := by
    intro t ht
    refine idAt_eq_ok.mpr (hs.publicId_target (u := v) ?_)
    rw [Joined, out_eq he]
    exact Element.mem_successors.mp ht
  rw [mapM_eq_map hat, hs.arcsOf_eq hid, out_eq he]
  simp [Arc.moved, Element.successors]

theorem target_eq (l : EdgeLabel) : (match e.targetOf? l with
    | some t => some <$> h.idAt t
    | none => pure none : Except HeapError (Option Nat)) =
      .ok (((h.arcsOf x).find? (fun a => a.labels.contains l)).map Arc.target) := by
  have hfind : ((h.arcsOf x).find? (fun a => a.labels.contains l)).map Arc.target = (e.targetOf? l).map h.publicId := by
    rw [hs.arcsOf_eq hid, out_eq he]
    simp [Arc.moved, Element.targetOf?, List.find?_map, Function.comp_def]
  rw [hfind]
  cases ht : e.targetOf? l with
  | none => rfl
  | some t =>
    have hj : h.Joined v t := by
      rw [Joined, out_eq he]
      exact (Element.carries_of_targetOf? ht).reaches
    simp only [idAt_eq_ok.mpr (hs.publicId_target hj)]
    rfl

theorem mem_attached {y : Nat} : y ∈ e.preds.filterMap (h.idOfKind kind) ↔
    (∃ l, h.view.link y l x) ∧ (h.view.label y).map Label.kind = some kind := by
  rw [← into_eq he]
  simp only [List.mem_filterMap, hs.mem_into, idOfKind, Option.ite_none_right_eq_some]
  constructor
  · rintro ⟨u, hj, hkind, hy⟩
    obtain ⟨l, hl⟩ := hs.joined_iff.mp hj
    exact ⟨⟨l, u, v, hy, hid, hl⟩, by rwa [hs.view_label_of_idOf hy]⟩
  · rintro ⟨⟨l, u, w, hy, hw, hl⟩, hkind⟩
    obtain rfl := hs.id_inj w v x hw hid
    exact ⟨u, hl.joined, by rwa [← hs.view_label_of_idOf hy], hy⟩

omit hid he in
theorem selectorsOf_eq {type : Bytes} (hx : h.view.label x = some (.node type)) :
    h.selectorsOf x = .ok ((h.arcsOf x).flatMap (fun a => a.labels.map EdgeLabel.name)) := by
  obtain ⟨v, e, hf, hid, he, -, -⟩ := hs.exists_find hx
  change h.find x .node = _ at hf
  rw [selectorsOf, hf, ← selectorNames_eq hs hid he]
  rfl

omit hid he in
theorem successorsOf_eq {type : Bytes} (hx : h.view.label x = some (.node type)) :
    h.successorsOf x = .ok ((h.arcsOf x).map Arc.target) := by
  obtain ⟨v, e, hf, hid, he, -, -⟩ := hs.exists_find hx
  change h.find x .node = _ at hf
  rw [successorsOf, hf, ← mapM_successors hs hid he]
  rfl

omit hid in
theorem attached_nodup : (e.preds.filterMap (h.idOfKind kind)).Nodup := by
  refine List.Nodup.filterMap (fun u w y hu hw => ?_) (into_eq he ▸ hs.into_nodup v)
  simp only [idOfKind, Option.mem_def, Option.ite_none_right_eq_some] at hu hw
  exact hs.id_inj u w y hu.2 hw.2

omit hid in
theorem live_preds : ∀ u ∈ e.preds, h.elements.Live u := by
  intro u hu
  exact (Moved.live_ends hs ((hs.mem_into u v).mp (by rwa [into_eq he]))).1

end

section

variable (hw : h.WellFormed) (hkw : k.WellFormed) (hv : k.view = h.view)

include hw hkw hv

theorem attachedOf_of_view (node : Int) (kind : Kind) : k.attachedOf node kind = h.attachedOf node kind := by
  have hs := hw.toSound
  have hk := hkw.toSound
  refine find_bind_of_view hs hk hv (fun x v w e d _ hid he _ hid' hd _ _ _ => ?_) node
  refine (sources_eq (fun u f hf => by simp only [hf]) (live_preds hk hd)).trans ?_
  refine Eq.trans ?_ (sources_eq (fun u f hf => by simp only [hf]) (live_preds hs he)).symm
  refine congrArg Except.ok (sortIds_perm ?_)
  refine (List.perm_ext_iff_of_nodup (attached_nodup hk hd) (attached_nodup hs he)).mpr fun y => ?_
  rw [mem_attached hk hid' hd, mem_attached hs hid he, hv]

theorem attachedNodesOf_of_view (edge : Int) : k.attachedNodesOf edge = h.attachedNodesOf edge := by
  refine find_bind_of_view hw.toSound hkw.toSound hv (fun x v w e d hf _ _ hf' _ _ _ hl hkind => ?_) edge
  obtain ⟨nt, hlab⟩ := exists_nonterminal hkind
  rw [hlab] at hl
  obtain ⟨ys, hys, -, hget⟩ := hw.exists_attachedNodes hl
  obtain ⟨zs, hzs, -, hget'⟩ := hkw.exists_attachedNodes (hv ▸ hl)
  have hsame : zs = ys := by
    refine List.ext_getElem? fun i => Option.ext fun y => ?_
    rw [hget, hget', hv]
  rw [attachedNodesOf, hf] at hys
  rw [attachedNodesOf, hf', hsame] at hzs
  exact hzs.trans hys.symm

theorem variableTargetOf_of_view (edge : Int) : k.variableTargetOf edge = h.variableTargetOf edge := by
  refine find_bind_of_view hw.toSound hkw.toSound hv (fun x v w e d hf _ _ hf' _ _ _ hl hkind => ?_) edge
  obtain ⟨name, hlab⟩ : ∃ name, e.label = .variable name := by
    cases hlab : e.label with
    | node type => simp [hlab, Label.kind] at hkind
    | nonterminal nt => simp [hlab, Label.kind] at hkind
    | «variable» name => exact ⟨name, rfl⟩
  rw [hlab] at hl
  obtain ⟨y, hy, hlink⟩ := hw.exists_variableTarget hl
  obtain ⟨z, hz, hlink'⟩ := hkw.exists_variableTarget (hv ▸ hl)
  have hsame : z = y := hw.toSound.proper.link_functional _ _ _ _ (hv ▸ hlink') hlink
  rw [variableTargetOf, hf] at hy
  rw [variableTargetOf, hf', hsame] at hz
  exact hz.trans hy.symm

theorem variableWith_of_view (name : Bytes) : k.variableWith name = h.variableWith name := by
  cases hx : h.variableSlot? name with
  | some v =>
    obtain ⟨x, hid⟩ := idOf_of_labelAt (labelAt_of_variableSlot? hx)
    have hl := hw.toSound.view_label.mpr ⟨v, hid, labelAt_of_variableSlot? hx⟩
    obtain ⟨w, hid', hl'⟩ := hkw.toSound.view_label.mp (hv ▸ hl)
    simp only [variableWith, hx, hkw.variableSlot?_eq_some.mpr hl', idAt_eq_ok.mpr hid, idAt_eq_ok.mpr hid']
  | none =>
    have hx' : k.variableSlot? name = none := by
      refine variableSlot?_eq_none.mpr fun w hl => ?_
      obtain ⟨x, hid⟩ := idOf_of_labelAt hl
      obtain ⟨v, -, hl⟩ := hw.toSound.view_label.mp (hv ▸ hkw.toSound.view_label.mpr ⟨w, hid, hl⟩)
      exact variableSlot?_eq_none.mp hx v hl
    simp only [variableWith, hx, hx']

theorem sameAnswers_of_view (harcs : ∀ x type, h.view.label x = some (.node type) → k.arcsOf x = h.arcsOf x) :
    h.SameAnswers k := by
  have hs := hw.toSound
  have hk := hkw.toSound
  have hids := idsOf_eq_of_view hs hk hv
  have hstate : k.state = h.state := hkw.denotes.unique (hv ▸ hw.denotes)
  have harcs (x : Nat) (e : Element) (hl : h.view.label x = some e.label) (hkind : e.label.kind = .node) :
      k.arcsOf x = h.arcsOf x := by
    cases hlab : e.label with
    | node type => exact harcs x type (hlab ▸ hl)
    | nonterminal nt => simp [hlab, Label.kind] at hkind
    | «variable» name => simp [hlab, Label.kind] at hkind
  exact {
    nextId := congrArg HeapView.nextId hv
    idsOf := funext hids
    countOf := funext fun kind => by rw [← length_idsOf, ← length_idsOf, hids]
    externalCount := by rw [← hkw.length_externals, ← hw.length_externals, hstate]
    externalNodes := by rw [hk.externalNodes_eq, hs.externalNodes_eq, hstate]
    externalNodeAt := funext fun i => by
      cases i with
      | negSucc n => rfl
      | ofNat i => exact (hk.externalNodeAt_eq i).trans (hstate ▸ (hs.externalNodeAt_eq i).symm)
    externalIndexOf := funext (find_bind_of_view hs hk hv fun x v w e d _ hid he _ hid' hd _ _ _ => by
      have ho : d.ordinal = e.ordinal := by
        rw [← ordinalAt_eq hd, ← ordinalAt_eq he, ← hk.view_ordinal_of_idOf hid', ← hs.view_ordinal_of_idOf hid, hv]
      simp only [ho])
    nodeTypeOf := funext (find_bind_of_view hs hk hv fun x v w e d _ _ _ _ _ _ hlab _ _ => by simp only [hlab])
    selectorsOf := funext (find_bind_of_view hs hk hv fun x v w e d _ hid he _ hid' hd _ hl hkind => by
      simp only [selectorNames_eq hk hid' hd, selectorNames_eq hs hid he, harcs x e hl hkind])
    selectorTargetOf := funext₂ fun node s => find_bind_of_view hs hk hv (fun x v w e d _ hid he _ hid' hd _ hl hkind => by
      exact (target_eq hk hid' hd _).trans ((harcs x e hl hkind) ▸ (target_eq hs hid he _).symm)) node
    successorsOf := funext (find_bind_of_view hs hk hv fun x v w e d _ hid he _ hid' hd _ hl hkind => by
      exact (mapM_successors hk hid' hd).trans ((harcs x e hl hkind) ▸ (mapM_successors hs hid he).symm))
    attachedOf := funext₂ (attachedOf_of_view hw hkw hv)
    nonterminalOf := funext (find_bind_of_view hs hk hv fun x v w e d _ _ _ _ _ _ hlab _ _ => by simp only [hlab])
    attachedNodesOf := funext (attachedNodesOf_of_view hw hkw hv)
    variableWith := funext (variableWith_of_view hw hkw hv)
    variableNameOf := funext (find_bind_of_view hs hk hv fun x v w e d _ _ _ _ _ _ hlab _ _ => by simp only [hlab])
    variableTargetOf := funext (variableTargetOf_of_view hw hkw hv) }

end

namespace Moved

theorem wellFormed (hm : Moved h f k) (hw : h.WellFormed) : k.WellFormed := by
  rw [(hm.sound hw.toSound).wellFormed_iff, hm.view hw.toSound]
  exact hw.toSound.wellFormed_iff.mp hw

theorem sameAnswers (hm : Moved h f k) (hw : h.WellFormed) : h.SameAnswers k :=
  sameAnswers_of_view hw (hm.wellFormed hw) (hm.view hw.toSound) fun x _ _ => by rw [hm.arcsOf hw.toSound]

end Moved

end HeapAbstraction.Heap
