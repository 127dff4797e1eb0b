import HeapAbstraction.Proofs.View

namespace HeapAbstraction

theorem bind_ok {ε α β : Type} {x : Except ε α} {f : α → Except ε β} {b : β} (h : (x >>= f) = .ok b) :
    ∃ a, x = .ok a ∧ f a = .ok b := by
  cases x with
  | error e => cases h
  | ok a => exact ⟨a, rfl, h⟩

theorem fst_map_ok {ε α β : Type} {r : Except ε (α × β)} {a : α} (h : Prod.fst <$> r = .ok a) : ∃ b, r = .ok (a, b) := by
  cases r with
  | error e => simp at h
  | ok p =>
    simp only [Except.map_ok, Except.ok.injEq] at h
    exact ⟨p.2, by rw [← h]⟩

theorem nodup_zipIdx_snd {α : Type} (as : List α) : (as.zipIdx.map Prod.snd).Nodup := by
  rw [List.zipIdx_map_snd]
  exact List.nodup_range'

namespace HeapView

variable {A : HeapView} {x y : Nat} {l : EdgeLabel} {lab : Label}

def attach (A : HeapView) (lab : Label) (ys : List Nat) : HeapView :=
  (A.insert lab).addLinks (fun a l b => a = A.nextId ∧ ∃ i, l = .tentacle i ∧ ys[i]? = some b)

theorem Proper.not_link_nextId (hp : A.Proper) : ¬ A.link A.nextId l y := by
  intro hl
  obtain ⟨lab, ht⟩ := hp.link_label _ _ _ hl
  simp [hp.label_nextId] at ht

theorem Typed.insert_node (ht : A.Typed) (hp : A.Proper) {type : Bytes} : (A.insert (.node type)).Typed := by
  refine ⟨fun x lab hl => ?_, fun x y name hx hy => ?_⟩
  · by_cases hx : x = A.nextId
    · subst hx
      obtain rfl : .node type = lab := by simpa using hl
      exact fun l ⟨y, hy⟩ => absurd hy hp.not_link_nextId
    · rw [label_insert_of_ne A _ hx] at hl
      exact ht.fits x lab hl
  · have hn : ∀ z, (A.insert (.node type)).label z = some (.variable name) → A.label z = some (.variable name) := by
      intro z hz
      by_cases hz' : z = A.nextId
      · subst hz'
        simp at hz
      · rwa [label_insert_of_ne A _ hz'] at hz
    exact ht.variable_inj x y name (hn x hx) (hn y hy)

theorem Typed.addLinks_node (ht : A.Typed) {R : Nat → EdgeLabel → Nat → Prop}
    (hR : ∀ a l b, R a l b → (∃ type, A.label a = some (.node type)) ∧ l.isSelector = true) : (A.addLinks R).Typed := by
  refine ⟨fun x lab hl => ?_, ht.variable_inj⟩
  have hx := ht.fits x lab hl
  by_cases hn : ∃ type, lab = .node type
  · obtain ⟨type, rfl⟩ := hn
    rintro l ⟨y, hy | hy⟩
    · exact hx l ⟨y, hy⟩
    · exact (hR x l y hy).2
  · refine hx.congr fun l => exists_congr fun y => ⟨.inl, fun hy => hy.elim id fun hr => ?_⟩
    obtain ⟨⟨type, htype⟩, -⟩ := hR x l y hr
    exact absurd ⟨type, Option.some.inj (hl.symm.trans htype)⟩ hn

theorem Typed.dropLink_node (ht : A.Typed) {type : Bytes} (hx : A.label x = some (.node type)) :
    (A.dropLink x l).Typed := by
  refine ⟨fun z lab hl => ?_, ht.variable_inj⟩
  have hz := ht.fits z lab hl
  by_cases hzx : z = x
  · subst hzx
    obtain rfl := Option.some.inj (hx.symm.trans hl)
    exact fun m ⟨y, hy⟩ => hz m ⟨y, hy.1⟩
  · exact hz.congr fun m => exists_congr fun y => ⟨fun hy => ⟨hy, fun hx => hzx hx.1⟩, fun hy => hy.1⟩

theorem Typed.delete (ht : A.Typed) (hx : ∀ a l, A.link a l x → ∃ type, A.label a = some (.node type)) :
    (A.delete x).Typed := by
  have hl {z : Nat} {lab : Label} (hz : (A.delete x).label z = some lab) : z ≠ x ∧ A.label z = some lab := by
    by_cases hzx : z = x
    · subst hzx
      simp at hz
    · exact ⟨hzx, by rwa [label_delete_of_ne A hzx] at hz⟩
  refine ⟨fun z lab hz => ?_, fun z w name hz hw => ht.variable_inj z w name (hl hz).2 (hl hw).2⟩
  obtain ⟨hzx, hz'⟩ := hl hz
  have hf := ht.fits z lab hz'
  by_cases hn : ∃ type, lab = .node type
  · obtain ⟨type, rfl⟩ := hn
    exact fun m ⟨y, hy⟩ => hf m ⟨y, hy.1⟩
  · refine hf.congr fun m => exists_congr fun y => ⟨fun hy => ⟨hy, hzx, ?_⟩, fun hy => hy.1⟩
    rintro rfl
    obtain ⟨type, htype⟩ := hx z m hy
    exact hn ⟨type, Option.some.inj (hz'.symm.trans htype)⟩

theorem Typed.attach (ht : A.Typed) (hp : A.Proper) {ys : List Nat}
    (hf : lab.Fits (fun l => ∃ i < ys.length, l = .tentacle i))
    (hv : ∀ name, lab = .variable name → ∀ z, A.label z ≠ some (.variable name)) : (A.attach lab ys).Typed := by
  have hl {z : Nat} (hz : z ≠ A.nextId) : (A.attach lab ys).label z = A.label z := label_insert_of_ne A lab hz
  have hnew : (A.attach lab ys).label A.nextId = some lab := label_insert_self A lab
  refine ⟨fun z lab' hz => ?_, fun z w name hz hw => ?_⟩
  · by_cases hzn : z = A.nextId
    · subst hzn
      obtain rfl := Option.some.inj (hnew.symm.trans hz)
      refine hf.congr fun l => ?_
      constructor
      · rintro ⟨i, hi, rfl⟩
        exact ⟨_, .inr ⟨rfl, i, rfl, List.getElem?_eq_getElem hi⟩⟩
      · rintro ⟨y, hy | ⟨-, i, rfl, hy⟩⟩
        · exact absurd hy hp.not_link_nextId
        · exact ⟨i, (List.getElem?_eq_some_iff.mp hy).1, rfl⟩
    · rw [hl hzn] at hz
      refine (ht.fits z lab' hz).congr fun l => exists_congr fun y => ⟨.inl, fun hy => hy.elim id fun hr => ?_⟩
      exact absurd hr.1 hzn
  · have hname (z : Nat) (hz : (A.attach lab ys).label z = some (.variable name)) :
        (z = A.nextId ∧ lab = .variable name) ∨ A.label z = some (.variable name) := by
      by_cases hzn : z = A.nextId
      · subst hzn
        exact .inl ⟨rfl, Option.some.inj (hnew.symm.trans hz)⟩
      · exact .inr (hl hzn ▸ hz)
    rcases hname z hz with ⟨rfl, h1⟩ | h1 <;> rcases hname w hw with ⟨rfl, h2⟩ | h2
    · rfl
    · exact absurd h2 (hv name h1 w)
    · exact absurd h1 (hv name h2 z)
    · exact ht.variable_inj z w name h1 h2

end HeapView

namespace Heap

variable {h h' : Heap} {u v w x : Nat} {e : Element} {lab : Label}

theorem find_ok (hs : h.Sound) {id : Int} {kind : Kind} (hf : h.find id kind = .ok (v, e)) :
    ∃ x : Nat, id = x ∧ h.idOf v = some x ∧ h.elements[v]? = some e ∧ h.labelAt v = some e.label ∧
      e.label.kind = kind := by
  simp only [find] at hf
  split at hf
  · simp at hf
  · rename_i w hw
    split at hf
    · simp at hf
    · rename_i f hv
      split at hf
      · rename_i hk
        simp only [Except.ok.injEq, Prod.mk.injEq] at hf
        obtain ⟨rfl, rfl⟩ := hf
        cases id with
        | negSucc n => simp [slot?] at hw
        | ofNat x =>
          obtain ⟨hi, lab, hl⟩ := hs.slot?_eq_some.mp hw
          obtain ⟨g, hg, hr, -⟩ := labelAt_eq_some.mp hl
          obtain rfl := Option.some.inj (hv.symm.trans hg)
          exact ⟨x, rfl, hi, hv, labelAt_of_live hv hr, hk⟩
      · simp at hf

theorem find_eq (hs : h.Sound) (hi : h.idOf v = some x) (he : h.elements[v]? = some e) (hr : e.removed = false) :
    h.find x e.label.kind = .ok (v, e) := by
  have hx : h.slot? x = some v := hs.slot?_eq hi (labelAt_of_live he hr)
  simp [find, hx, he, Element.kind]

theorem isNode_of_kind (hl : h.labelAt v = some lab) (hk : lab.kind = .node) : h.IsNode v := by
  cases lab with
  | node type => exact ⟨type, hl⟩
  | nonterminal nt => simp [Label.kind] at hk
  | «variable» name => simp [Label.kind] at hk

theorem not_isNode_of_kind (hl : h.labelAt v = some lab) (hk : lab.kind ≠ .node) : ¬ h.IsNode v := by
  rintro ⟨type, ht⟩
  obtain rfl := Option.some.inj (hl.symm.trans ht)
  exact hk rfl

def attachAs (h : Heap) (lab : Label) (targets : List Nat) : Heap :=
  (h.addElement lab).linkAll (targets.zipIdx.map (fun p => ⟨h.elements.length, p.1, .tentacle p.2⟩))

theorem attach_eq (nt : Nonterminal) (targets : List Nat) :
    h.attach nt targets = h.attachAs (.nonterminal nt) targets := by
  simp only [attach, attachAs, linkAll, List.foldl_map]

theorem Sound.attachAs (hs : h.Sound) {targets ys : List Nat} (ht : ∀ t ∈ targets, h.IsNode t)
    (hy : targets.map h.idOf = ys.map some) :
    (h.attachAs lab targets).Sound ∧ (h.attachAs lab targets).view = h.view.attach lab ys := by
  have hsa : (h.addElement lab).Sound := hs.addElement
  have hkeys : ∀ k ∈ targets.zipIdx.map (fun p => (⟨h.elements.length, p.1, .tentacle p.2⟩ : Link)),
      (∃ lab', (h.addElement lab).labelAt k.source = some lab') ∧ (h.addElement lab).IsNode k.target ∧
        ∀ w, ¬ (h.addElement lab).Linked k.source k.label w := by
    intro k hk
    obtain ⟨p, hp, rfl⟩ := List.mem_map.mp hk
    refine ⟨⟨lab, by simp [labelAt_addElement]⟩, (ht p.1 (List.fst_mem_of_mem_zipIdx hp)).addElement, ?_⟩
    intro w hw
    rw [linked_addElement] at hw
    obtain ⟨lab', hl⟩ := hs.labelAt_of_joined hw.joined
    exact absurd (lt_of_labelAt hl) (Nat.lt_irrefl _)
  have hpair : (targets.zipIdx.map (fun p => (⟨h.elements.length, p.1, .tentacle p.2⟩ : Link))).Pairwise
      (fun j k => ¬ (j.source = k.source ∧ j.label = k.label)) := by
    rw [List.pairwise_map]
    refine (List.pairwise_map.mp (nodup_zipIdx_snd targets)).imp fun hne hx => hne ?_
    simpa using hx.2
  obtain ⟨h1, h2, h3⟩ := hsa.linkAll _ hkeys hpair
  refine ⟨h1, ?_⟩
  rw [Heap.attachAs, view_linkAll hsa _ hkeys hpair, view_addElement hs, HeapView.attach]
  congr 1
  funext a l b
  simp only [eq_iff_iff, List.mem_map, Link.mk.injEq, Prod.exists]
  constructor
  · rintro ⟨u, v, hu, hv, t, i, hti, rfl, rfl, rfl⟩
    rw [List.mk_mem_zipIdx_iff_getElem?] at hti
    rw [idOf_addElement, if_pos rfl] at hu
    have htn : t ≠ h.elements.length := by
      have := (ht t (List.mem_of_getElem? hti)).lt
      omega
    rw [idOf_addElement, if_neg htn] at hv
    refine ⟨(Option.some.inj hu).symm, i, rfl, ?_⟩
    have hyi := congrArg (fun ls => ls[i]?) hy
    simp only [List.getElem?_map, hti, Option.map_some, hv] at hyi
    cases hb : ys[i]? with
    | none => simp [hb] at hyi
    | some b' => simpa [hb, eq_comm] using hyi
  · rintro ⟨rfl, i, rfl, hb⟩
    have hyi := congrArg (fun ls => ls[i]?) hy
    simp only [List.getElem?_map, hb, Option.map_some] at hyi
    obtain ⟨t, hti, hid⟩ := Option.map_eq_some_iff.mp hyi
    have htn : t ≠ h.elements.length := by
      have := (ht t (List.mem_of_getElem? hti)).lt
      omega
    refine ⟨h.elements.length, t, ?_, ?_, t, i, List.mk_mem_zipIdx_iff_getElem?.mpr hti, rfl, rfl, rfl⟩
    · rw [idOf_addElement, if_pos rfl]
      rfl
    · rw [idOf_addElement, if_neg htn, hid]

theorem Sound.attachAs_wellFormed (hs : h.Sound) (hw : h.WellFormed) {targets : List Nat}
    (ht : ∀ t ∈ targets, h.IsNode t) (hf : lab.Fits (fun l => ∃ i < targets.length, l = .tentacle i))
    (hv : ∀ name, lab = .variable name → ∀ v, h.labelAt v ≠ some (.variable name)) :
    (h.attachAs lab targets).WellFormed := by
  obtain ⟨ys, hy⟩ : ∃ ys : List Nat, targets.map h.idOf = ys.map some := by
    refine ⟨targets.map (fun t => (h.idOf t).getD 0), ?_⟩
    rw [List.map_map]
    refine List.map_congr_left fun t hm => ?_
    obtain ⟨type, hl⟩ := ht t hm
    obtain ⟨x, hx⟩ := idOf_of_labelAt hl
    simp [hx]
  have hlen : targets.length = ys.length := by simpa using congrArg List.length hy
  obtain ⟨h1, h2⟩ : (h.attachAs lab targets).Sound ∧ _ := hs.attachAs ht hy
  rw [h1.wellFormed_iff, h2]
  refine (hs.wellFormed_iff.mp hw).attach hs.proper (hlen ▸ hf) ?_
  intro name hname z hz
  obtain ⟨v, -, hl⟩ := hs.view_label.mp hz
  exact hv name hname v hl

theorem wellFormed_empty : Heap.empty.WellFormed := by
  have hs : Heap.empty.Sound := by
    constructor <;> simp [Heap.empty, idOf, out, into, Joined, labelAt, ordinalAt, Arc.Tidy.nil]
  exact hs.wellFormed (by simp [labelAt, Heap.empty]) (by simp [labelAt, Heap.empty])

theorem WellFormed.addElement_node (hw : h.WellFormed) {type : Bytes} : (h.addElement (.node type)).WellFormed := by
  have hs := hw.toSound
  rw [hs.addElement.wellFormed_iff, view_addElement hs]
  exact (hs.wellFormed_iff.mp hw).insert_node hs.proper

def addAll (h : Heap) (labs : List Label) : Heap := labs.foldl addElement h

theorem addAll_replicate (lab : Label) (n : Nat) : h.addAll (List.replicate n lab) =
    { elements := h.elements ++ (List.range n).map (fun i => { label := lab, id := h.nextId + i })
      nextId := h.nextId + n } := by
  induction n with
  | zero => simp [addAll]
  | succ n ih =>
    rw [List.replicate_succ', addAll, List.foldl_append]
    change (h.addAll (List.replicate n lab)).addElement lab = _
    rw [ih]
    simp [addElement, List.range_succ, Nat.add_assoc]

theorem WellFormed.addNodes (hw : h.WellFormed) {type : Bytes} {count : Int} {ids : List Nat}
    (he : h.addNodes type count = .ok (h', ids)) : h'.WellFormed := by
  simp only [Heap.addNodes] at he
  split at he
  · simp at he
  · simp only [Except.ok.injEq, Prod.mk.injEq, List.map_map] at he
    rw [← he.1]
    have := addAll_replicate (h := h) (.node type) count.toNat
    simp only [Function.comp_def]
    rw [← this]
    generalize count.toNat = n
    induction n with
    | zero => exact hw
    | succ n ih =>
      rw [List.replicate_succ', addAll, List.foldl_append]
      exact ih.addElement_node

theorem WellFormed.removeAt (hw : h.WellFormed) (hv : h.labelAt v = some lab)
    (hin : ∀ u, h.Joined u v → h.IsNode u) (he : h.removeAt v = .ok h') : h'.WellFormed := by
  have hs := hw.toSound
  obtain ⟨k, hk, hr⟩ := hs.removeAt hv
  obtain rfl : k = h' := by simpa [hk] using he
  obtain ⟨x, hx⟩ := idOf_of_labelAt hv
  rw [hr.sound.wellFormed_iff, hr.view hs hx]
  refine (hs.wellFormed_iff.mp hw).delete ?_
  rintro a l ⟨u, w, hu, hw', hl⟩
  rw [hs.id_inj w v x hw' hx] at hl
  obtain ⟨type, ht⟩ := hin u hl.joined
  exact ⟨type, hs.view_label.mpr ⟨u, hu, ht⟩⟩

theorem WellFormed.removeIsolatedNode (hw : h.WellFormed) {node : Int}
    (he : h.removeIsolatedNode node = .ok h') : h'.WellFormed := by
  have hs := hw.toSound
  simp only [Heap.removeIsolatedNode] at he
  obtain ⟨⟨v, e⟩, hf, he⟩ := bind_ok he
  obtain ⟨x, -, -, hv, hl, -⟩ := find_ok hs hf
  dsimp only at he
  split at he
  · rename_i hb
    simp only [Bool.and_eq_true, List.isEmpty_iff] at hb
    refine hw.removeAt hl (fun u hj => ?_) he
    have := (hs.mem_into u v).mpr hj
    simp [into_eq hv, hb.2] at this
  · simp at he

theorem WellFormed.removeEdge (hw : h.WellFormed) {edge : Int} {kind : Kind} (hk : kind ≠ .node)
    (hf : h.find edge kind = .ok (v, e)) (he : h.removeAt v = .ok h') : h'.WellFormed := by
  obtain ⟨x, -, -, -, hl, hek⟩ := find_ok hw.toSound hf
  refine hw.removeAt hl (fun u hj => ?_) he
  exact absurd (hw.ends u v hj) (not_isNode_of_kind hl (hek ▸ hk))

theorem WellFormed.removeVariable (hw : h.WellFormed) {edge : Int}
    (he : h.removeVariable edge = .ok h') : h'.WellFormed := by
  simp only [Heap.removeVariable] at he
  obtain ⟨⟨v, e⟩, hf, he⟩ := bind_ok he
  exact hw.removeEdge (by simp) hf he

theorem WellFormed.removeNonterminal (hw : h.WellFormed) {edge : Int}
    (he : h.removeNonterminal edge = .ok h') : h'.WellFormed := by
  simp only [Heap.removeNonterminal] at he
  obtain ⟨⟨v, e⟩, hf, he⟩ := bind_ok he
  exact hw.removeEdge (by simp) hf he

theorem WellFormed.link_selector (hw : h.WellFormed) {s : Bytes} (hu : h.IsNode u) (hv : h.IsNode v)
    (hfree : ∀ w, ¬ h.Linked u (.selector s) w) : (h.link u v (.selector s)).WellFormed := by
  have hs := hw.toSound
  obtain ⟨type, hlab⟩ := hu
  obtain ⟨x, hx⟩ := idOf_of_labelAt hlab
  have hkeys : ∀ k ∈ [(⟨u, v, .selector s⟩ : Link)], (∃ lab', h.labelAt k.source = some lab') ∧ h.IsNode k.target ∧
      ∀ w, ¬ h.Linked k.source k.label w := by
    intro k hk
    obtain rfl := List.mem_singleton.mp hk
    exact ⟨⟨_, hlab⟩, hv, hfree⟩
  obtain ⟨h1, -, -⟩ := hs.linkAll _ hkeys (List.pairwise_singleton ..)
  have h2 := view_linkAll hs _ hkeys (List.pairwise_singleton ..)
  change (h.link u v (.selector s)).Sound at h1
  change (h.link u v (.selector s)).view = _ at h2
  rw [h1.wellFormed_iff, h2]
  refine (hs.wellFormed_iff.mp hw).addLinks_node ?_
  rintro a l b ⟨u', v', hu', -, hmem⟩
  simp only [List.mem_singleton, Link.mk.injEq] at hmem
  obtain ⟨rfl, rfl, rfl⟩ := hmem
  exact ⟨⟨type, hs.view_label.mpr ⟨u', hu', hlab⟩⟩, rfl⟩

theorem WellFormed.addSelector (hw : h.WellFormed) {source target : Int} {s : Bytes}
    (he : h.addSelector source s target = .ok h') : h'.WellFormed := by
  have hs := hw.toSound
  simp only [Heap.addSelector] at he
  obtain ⟨⟨u, e⟩, hf, he⟩ := bind_ok he
  obtain ⟨⟨v, f⟩, hg, he⟩ := bind_ok he
  obtain ⟨-, -, -, hu, hlu, hku⟩ := find_ok hs hf
  obtain ⟨-, -, -, -, hlv, hkv⟩ := find_ok hs hg
  dsimp only at he
  split at he
  · simp at he
  · rename_i hnone
    obtain rfl : h.link u v (.selector s) = h' := by simpa [pure, Except.pure] using he
    refine hw.link_selector (isNode_of_kind hlu hku) (isNode_of_kind hlv hkv) fun w hl => ?_
    rw [Linked, out_eq hu] at hl
    exact Element.targetOf?_eq_none.mp hnone w hl

theorem WellFormed.unlink_selector (hw : h.WellFormed) {s : Bytes} (hu : h.IsNode u)
    (hl : h.Linked u (.selector s) v) (he : h.unlink u v (.selector s) = .ok h') :
    h'.WellFormed ∧ SameFaces h h' ∧ ∀ w, ¬ h'.Linked u (.selector s) w := by
  have hs := hw.toSound
  obtain ⟨k, hk, h1, h2, h3⟩ := hs.unlink hl
  obtain rfl : k = h' := by simpa [hk] using he
  obtain ⟨type, hlab⟩ := hu
  obtain ⟨x, hx⟩ := idOf_of_labelAt hlab
  refine ⟨?_, h2, fun w hw' => ((h3 u _ w).mp hw').2 ⟨rfl, rfl⟩⟩
  rw [h1.wellFormed_iff, h2.view_dropLink hs h1 hx h3]
  exact (hs.wellFormed_iff.mp hw).dropLink_node (hs.view_label.mpr ⟨u, hx, hlab⟩)

theorem WellFormed.removeSelector (hw : h.WellFormed) {node : Int} {s : Bytes}
    (he : h.removeSelector node s = .ok h') : h'.WellFormed := by
  have hs := hw.toSound
  simp only [Heap.removeSelector] at he
  obtain ⟨⟨u, e⟩, hf, he⟩ := bind_ok he
  obtain ⟨-, -, -, hu, hlu, hku⟩ := find_ok hs hf
  dsimp only at he
  split at he
  · rename_i t ht
    have hl : h.Linked u (.selector s) t := by
      rw [Linked, out_eq hu]
      exact Element.carries_of_targetOf? ht
    exact (hw.unlink_selector (isNode_of_kind hlu hku) hl he).1
  · simp at he

theorem WellFormed.replaceSelector (hw : h.WellFormed) {node : Int} {old new : Bytes}
    (he : h.replaceSelector node old new = .ok h') : h'.WellFormed := by
  have hs := hw.toSound
  simp only [Heap.replaceSelector] at he
  obtain ⟨⟨u, e⟩, hf, he⟩ := bind_ok he
  obtain ⟨-, -, -, hu, hlu, hku⟩ := find_ok hs hf
  dsimp only at he
  split at he
  · simp at he
  · rename_i t ht
    have hl : h.Linked u (.selector old) t := by
      rw [Linked, out_eq hu]
      exact Element.carries_of_targetOf? ht
    split at he
    · obtain rfl : h = h' := by simpa [pure, Except.pure] using he
      exact hw
    · split at he
      · simp at he
      · rename_i hnone
        obtain ⟨k, hk, -, -, h3⟩ := hs.unlink hl
        obtain ⟨hwk, hfk, -⟩ := hw.unlink_selector (isNode_of_kind hlu hku) hl hk
        obtain rfl : k.link u t (.selector new) = h' := by simpa [hk, bind, Except.bind, pure, Except.pure] using he
        refine hwk.link_selector (hfk.isNode.mpr (isNode_of_kind hlu hku))
          (hfk.isNode.mpr (hs.ends u t hl.joined)) fun w hlw => ?_
        have := ((h3 u _ w).mp hlw).1
        rw [Linked, out_eq hu] at this
        exact Element.targetOf?_eq_none.mp hnone w this

theorem mem_iff_lt_length {is : List Nat} (hn : is.Nodup) (hb : ∀ i ∈ is, ∀ j < i, j ∈ is) (i : Nat) :
    i ∈ is ↔ i < is.length := by
  rw [← List.toFinset_card_of_nodup hn]
  constructor
  · intro hi
    have hsub : Finset.range (i + 1) ⊆ is.toFinset := by
      intro j hj
      rcases Nat.lt_succ_iff_lt_or_eq.mp (Finset.mem_range.mp hj) with hj | rfl
      · exact List.mem_toFinset.mpr (hb i hi j hj)
      · exact List.mem_toFinset.mpr hi
    simpa using Finset.card_le_card hsub
  · intro hi
    by_contra hni
    have hsub : is.toFinset ⊆ Finset.range i := by
      intro j hj
      rw [List.mem_toFinset] at hj
      rw [Finset.mem_range]
      rcases Nat.lt_trichotomy j i with hji | rfl | hij
      · exact hji
      · exact absurd hj hni
      · exact absurd (hb j hj i hij) hni
    have := Finset.card_le_card hsub
    rw [Finset.card_range] at this
    omega

theorem Sound.ordinals_nodup (hs : h.Sound) : (h.elements.filterMap Element.ordinal).Nodup := by
  rw [List.Nodup, List.pairwise_filterMap, List.pairwise_iff_getElem]
  rintro v w hv hw hvw i hi j hj rfl
  have := hs.ordinal_inj v w i (by simp [ordinalAt, hv, hi]) (by simp [ordinalAt, hw, hj])
  omega

theorem mem_ordinals {i : Nat} : i ∈ h.elements.filterMap Element.ordinal ↔ ∃ v, h.ordinalAt v = some i := by
  rw [List.mem_filterMap]
  simp only [ordinalAt, Option.bind_eq_some_iff, List.mem_iff_getElem?]
  constructor
  · rintro ⟨e, ⟨v, hv⟩, hi⟩
    exact ⟨v, e, hv, hi⟩
  · rintro ⟨v, e, hv, hi⟩
    exact ⟨e, ⟨v, hv⟩, hi⟩

theorem Sound.exists_ordinal (hs : h.Sound) {i : Nat} : (∃ v, h.ordinalAt v = some i) ↔ i < h.externalCount := by
  have hc : h.externalCount = (h.elements.filterMap Element.ordinal).length := by
    rw [externalCount, List.length_filterMap_eq_countP]
  rw [hc, ← mem_ordinals]
  refine mem_iff_lt_length hs.ordinals_nodup (fun i hi j hj => ?_) i
  obtain ⟨v, hv⟩ := mem_ordinals.mp hi
  exact mem_ordinals.mpr (hs.ordinal_below v i j hv hj)

theorem SameBody.wellFormed (hb : SameBody h h') (hw : h.WellFormed) (hs : h'.Sound) : h'.WellFormed :=
  { hs with
    shaped := by rw [hb.labelAt, hb.out]; exact hw.shaped
    variable_inj := by rw [hb.labelAt]; exact hw.variable_inj }

def setOrdinal (h : Heap) (v i : Nat) : Heap :=
  { h with elements := h.elements.modify v (fun e => { e with ordinal := some i }) }

theorem getElem?_setOrdinal {i : Nat} : (h.setOrdinal v i).elements[w]? = (h.elements[w]?).map (fun e : Element =>
    { e with ordinal := if v = w then some i else e.ordinal }) := by
  simp only [setOrdinal, List.getElem?_modify]
  by_cases hvw : v = w <;> cases h.elements[w]? <;> simp [hvw]

theorem sameBody_setOrdinal (i : Nat) : SameBody h (h.setOrdinal v i) :=
  .of_getElem? rfl (fun _ => getElem?_setOrdinal) (fun _ _ => ⟨rfl, rfl, rfl, rfl, rfl⟩)

theorem ordinalAt_setOrdinal (hv : v < h.elements.length) {i j : Nat} :
    (h.setOrdinal v i).ordinalAt w = some j ↔ (w = v ∧ j = i) ∨ (w ≠ v ∧ h.ordinalAt w = some j) := by
  simp only [ordinalAt, getElem?_setOrdinal]
  by_cases hvw : v = w
  · subst hvw
    simp [List.getElem?_eq_getElem hv, eq_comm]
  · have hwv : w ≠ v := fun hx => hvw hx.symm
    cases h.elements[w]? <;> simp [hvw, hwv]

theorem Sound.setOrdinal (hs : h.Sound) (hn : h.IsNode v) (ho : h.ordinalAt v = none) :
    (h.setOrdinal v h.externalCount).Sound := by
  have hlt (w i : Nat) (hi : h.ordinalAt w = some i) : i < h.externalCount := hs.exists_ordinal.mp ⟨w, hi⟩
  refine hs.renumber (sameBody_setOrdinal _) ?_ ?_ ?_
  · intro w i hi
    rcases (ordinalAt_setOrdinal hn.lt).mp hi with ⟨rfl, -⟩ | ⟨-, hi⟩
    · exact hn
    · exact hs.ordinal_node w i hi
  · intro w z i hwi hzi
    rcases (ordinalAt_setOrdinal hn.lt).mp hwi with ⟨rfl, hi⟩ | ⟨-, hi⟩ <;>
      rcases (ordinalAt_setOrdinal hn.lt).mp hzi with ⟨rfl, hj⟩ | ⟨-, hj⟩
    · rfl
    · exact absurd (hlt z i hj) (by omega)
    · exact absurd (hlt w i hi) (by omega)
    · exact hs.ordinal_inj w z i hi hj
  · intro w i j hi hj
    have hjn : j < h.externalCount := by
      rcases (ordinalAt_setOrdinal hn.lt).mp hi with ⟨-, hi⟩ | ⟨-, hi⟩
      · omega
      · exact hj.trans (hlt w i hi)
    obtain ⟨z, hz⟩ := hs.exists_ordinal.mpr hjn
    refine ⟨z, (ordinalAt_setOrdinal hn.lt).mpr (.inr ⟨?_, hz⟩)⟩
    rintro rfl
    simp [ho] at hz

theorem WellFormed.setExternal (hw : h.WellFormed) {node : Int} (he : h.setExternal node = .ok h') :
    h'.WellFormed := by
  have hs := hw.toSound
  simp only [Heap.setExternal] at he
  obtain ⟨⟨v, e⟩, hf, he⟩ := bind_ok he
  obtain ⟨x, -, -, hv, hl, hk⟩ := find_ok hs hf
  dsimp only at he
  split at he
  · simp at he
  · rename_i hnone
    obtain rfl := Except.ok.inj he
    have ho : h.ordinalAt v = none := by simp [ordinalAt, hv, hnone]
    exact (sameBody_setOrdinal _).wellFormed hw (hs.setOrdinal (isNode_of_kind hl hk) ho)

theorem WellFormed.unsetExternal (hw : h.WellFormed) {node : Int} (he : h.unsetExternal node = .ok h') :
    h'.WellFormed := by
  have hs := hw.toSound
  simp only [Heap.unsetExternal] at he
  obtain ⟨⟨v, e⟩, hf, he⟩ := bind_ok he
  obtain ⟨x, -, -, hv, -, -⟩ := find_ok hs hf
  dsimp only at he
  split at he
  · rename_i i hi
    obtain rfl := Except.ok.inj he
    have ho : h.ordinalAt v = some i := by simp [ordinalAt, hv, hi]
    exact (sameBody_dropExternal i).wellFormed hw (hs.dropExternal ho)
  · simp at he

theorem variableSlot?_eq_none {name : Bytes} :
    h.variableSlot? name = none ↔ ∀ v, h.labelAt v ≠ some (.variable name) := by
  simp only [variableSlot?, List.findIdx?_eq_none_iff, ne_eq, labelAt_eq_some, not_exists, not_and]
  constructor
  · intro hn v e he hr hl
    have := hn e (List.mem_of_getElem? he)
    simp [hr, hl] at this
  · intro hn e he
    obtain ⟨v, hv⟩ := List.mem_iff_getElem?.mp he
    cases hr : e.removed with
    | true => simp
    | false => simpa using hn v e hv hr

theorem labelAt_of_variableSlot? {name : Bytes} (hv : h.variableSlot? name = some v) :
    h.labelAt v = some (.variable name) := by
  obtain ⟨hlt, he, -⟩ := List.findIdx?_eq_some_iff_getElem.mp hv
  simp only [Bool.and_eq_true, Bool.not_eq_true', beq_iff_eq] at he
  exact labelAt_eq_some.mpr ⟨_, List.getElem?_eq_getElem hlt, he⟩

theorem WellFormed.addVariable (hw : h.WellFormed) {name : Bytes} {target : Int} {id : Nat}
    (he : h.addVariable name target = .ok (h', id)) : h'.WellFormed := by
  have hs := hw.toSound
  simp only [Heap.addVariable] at he
  obtain ⟨⟨t, e⟩, hf, he⟩ := bind_ok he
  obtain ⟨x, -, -, -, hl, hk⟩ := find_ok hs hf
  dsimp only at he
  split at he
  · simp at he
  · rename_i hnone
    simp only [pure, Except.pure, Except.ok.injEq, Prod.mk.injEq] at he
    obtain rfl := he.1
    change (h.attachAs (.variable name) [t]).WellFormed
    refine hs.attachAs_wellFormed hw ?_ ?_ ?_
    · intro u hu
      obtain rfl := List.mem_singleton.mp hu
      exact isNode_of_kind hl hk
    · intro l
      simp
    · rintro name' hname v
      obtain rfl := Label.variable.inj hname
      exact variableSlot?_eq_none.mp hnone v

theorem mapM_ok {ε α β : Type} {f : α → Except ε β} {as : List α} {bs : List β} (h : as.mapM f = .ok bs) :
    List.Forall₂ (fun a b => f a = .ok b) as bs := by
  induction as generalizing bs with
  | nil =>
    obtain rfl : [] = bs := by simpa [pure, Except.pure] using h
    exact .nil
  | cons a as ih =>
    rw [List.mapM_cons] at h
    obtain ⟨b, hb, h⟩ := bind_ok h
    obtain ⟨bs', hbs, h⟩ := bind_ok h
    obtain rfl : b :: bs' = bs := by simpa [pure, Except.pure] using h
    exact .cons hb (ih hbs)

theorem WellFormed.addNonterminal (hw : h.WellFormed) {nt : Nonterminal} {tentacles : List Int} {id : Nat}
    (he : h.addNonterminal nt tentacles = .ok (h', id)) : h'.WellFormed := by
  have hs := hw.toSound
  simp only [Heap.addNonterminal] at he
  split at he
  · simp at he
  · rename_i hrank
    obtain ⟨targets, ht, he⟩ := bind_ok he
    simp only [pure, Except.pure, Except.ok.injEq, Prod.mk.injEq] at he
    obtain rfl := he.1
    have hall := mapM_ok ht
    have hlen := hall.length_eq
    rw [attach_eq]
    refine hs.attachAs_wellFormed hw ?_ ?_ (by simp)
    · intro t hm
      obtain ⟨i, hi⟩ := List.mem_iff_getElem?.mp hm
      obtain ⟨hi', rfl⟩ := List.getElem?_eq_some_iff.mp hi
      have := hall.get (i := i) (by omega) hi'
      simp only [Functor.map, Except.map] at this
      split at this
      · simp at this
      · rename_i p hp
        obtain ⟨v, e⟩ := p
        obtain ⟨x, -, -, -, hl, hk⟩ := find_ok hs hp
        have hv : v = targets[i] := by simpa using this
        exact hv ▸ isNode_of_kind hl hk
    · refine ⟨targets.length, ?_, fun l => Iff.rfl⟩
      rw [← hlen]
      omega

def setLabel (h : Heap) (v : Nat) (lab : Label) : Heap :=
  { h with elements := h.elements.modify v (fun e => { e with label := lab }) }

section

variable {new : Label}

theorem getElem?_setLabel : (h.setLabel v new).elements[w]? = (h.elements[w]?).map (fun e : Element =>
    { e with label := if v = w then new else e.label }) := by
  simp only [setLabel, List.getElem?_modify]
  by_cases hvw : v = w <;> cases h.elements[w]? <;> simp [hvw]

theorem idOf_setLabel : (h.setLabel v new).idOf = h.idOf := by
  funext w
  simp only [idOf, getElem?_setLabel]
  cases h.elements[w]? <;> simp

theorem ordinalAt_setLabel : (h.setLabel v new).ordinalAt = h.ordinalAt := by
  funext w
  simp only [ordinalAt, getElem?_setLabel]
  cases h.elements[w]? <;> simp

theorem out_setLabel : (h.setLabel v new).out = h.out := by
  funext w
  simp only [out, getElem?_setLabel]
  cases h.elements[w]? <;> simp

theorem into_setLabel : (h.setLabel v new).into = h.into := by
  funext w
  simp only [into, getElem?_setLabel]
  cases h.elements[w]? <;> simp

theorem labelAt_setLabel (hl : h.labelAt v = some lab) :
    (h.setLabel v new).labelAt w = if w = v then some new else h.labelAt w := by
  by_cases hvw : w = v
  · subst hvw
    obtain ⟨e, he, hr, -⟩ := labelAt_eq_some.mp hl
    simp [labelAt, getElem?_setLabel, he, hr]
  · have hvw' : v ≠ w := fun hx => hvw hx.symm
    simp only [labelAt, getElem?_setLabel]
    cases h.elements[w]? <;> simp [hvw, hvw']

theorem Sound.setLabel (hs : h.Sound) (hl : h.labelAt v = some lab) (hlab : lab.kind ≠ .node) (hnew : new.kind ≠ .node) :
    (h.setLabel v new).Sound := by
  have hnode (w : Nat) : (h.setLabel v new).IsNode w ↔ h.IsNode w := by
    simp only [IsNode, labelAt_setLabel hl]
    by_cases hvw : w = v
    · subst hvw
      have hne (type : Bytes) : new ≠ .node type := fun hx => hnew (hx ▸ rfl)
      have hne' (type : Bytes) : lab ≠ .node type := fun hx => hlab (hx ▸ rfl)
      simp [hl, hne, hne']
    · simp [hvw]
  refine ⟨?_, ?_, ?_, ?_, fun u w => ?_, fun u w hj => ?_, fun w hw => ?_, fun w i hi => ?_, ?_, ?_⟩
  · rw [idOf_setLabel]; exact hs.id_lt
  · rw [idOf_setLabel]; exact hs.id_inj
  · rw [out_setLabel]; exact hs.tidy
  · rw [into_setLabel]; exact hs.into_nodup
  · rw [Joined, out_setLabel, into_setLabel]; exact hs.mem_into u w
  · rw [Joined, out_setLabel] at hj
    exact (hnode w).mpr (hs.ends u w hj)
  · rw [labelAt_setLabel hl] at hw
    rw [out_setLabel]
    split at hw
    · simp at hw
    · exact hs.bare w hw
  · rw [ordinalAt_setLabel] at hi
    exact (hnode w).mpr (hs.ordinal_node w i hi)
  · rw [ordinalAt_setLabel]; exact hs.ordinal_inj
  · rw [ordinalAt_setLabel]; exact hs.ordinal_below

end

theorem WellFormed.relabel (hw : h.WellFormed) {edge : Int} {nt : Nonterminal}
    (he : h.relabel edge nt = .ok h') : h'.WellFormed := by
  have hs := hw.toSound
  simp only [Heap.relabel] at he
  obtain ⟨⟨v, e⟩, hf, he⟩ := bind_ok he
  obtain ⟨x, -, -, hv, hl, hk⟩ := find_ok hs hf
  dsimp only at he
  split at he
  · simp at he
  · rename_i hrank
    obtain rfl := Except.ok.inj he
    obtain ⟨old, hold⟩ : ∃ old, e.label = .nonterminal old := by
      cases hlab : e.label with
      | node type => simp [hlab, Label.kind] at hk
      | nonterminal old => exact ⟨old, rfl⟩
      | «variable» name => simp [hlab, Label.kind] at hk
    rw [hold] at hl hrank
    change (h.setLabel v (.nonterminal nt)).WellFormed
    have hs' : (h.setLabel v (.nonterminal nt)).Sound := hs.setLabel hl (by simp [Label.kind]) (by simp [Label.kind])
    refine { hs' with shaped := fun w lab hwl => ?_, variable_inj := fun w z name hwl hzl => ?_ }
    · rw [labelAt_setLabel hl] at hwl
      rw [out_setLabel]
      split at hwl
      · rename_i hwv
        subst hwv
        obtain rfl := Option.some.inj hwl
        obtain ⟨k, hk', hp⟩ := hw.shaped w _ hl
        refine ⟨k, ?_, hp⟩
        simp only [Label.rank, ne_eq, not_not] at hrank
        omega
      · exact hw.shaped w lab hwl
    · rw [labelAt_setLabel hl] at hwl hzl
      split at hwl <;> split at hzl
      · simp at hwl
      · simp at hwl
      · simp at hzl
      · exact hw.variable_inj w z name hwl hzl

end Heap

end HeapAbstraction
