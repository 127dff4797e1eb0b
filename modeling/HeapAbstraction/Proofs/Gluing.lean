import HeapAbstraction.Proofs.Compaction

namespace HeapAbstraction

namespace HeapView

structure Glues (A : HeapView) (x : Nat) (R : Heap) (g : Nat → Nat) (B : HeapView) : Prop where
  outer : ∀ p i, R.ordinalAt p = some i → A.link x (.tentacle i) (g p)
  fresh : ∀ p lab, R.labelAt p = some lab → R.ordinalAt p = none → A.nextId ≤ g p
  inj : ∀ p q lab lab', R.labelAt p = some lab → R.ordinalAt p = none → R.labelAt q = some lab' →
    R.ordinalAt q = none → g p = g q → p = q
  label : ∀ y lab, B.label y = some lab ↔
    (y ≠ x ∧ A.label y = some lab) ∨ ∃ p, R.labelAt p = some lab ∧ R.ordinalAt p = none ∧ g p = y
  ordinal : B.ordinal = A.ordinal
  link : ∀ a l b, B.link a l b ↔ (A.link a l b ∧ a ≠ x) ∨ ∃ p q, R.Linked p l q ∧ g p = a ∧ g q = b

namespace Glues

variable {A B : HeapView} {x p q y : Nat} {R : Heap} {g : Nat → Nat} {l : EdgeLabel} {lab : Label}

theorem outer_lt (hg : Glues A x R g B) (hp : A.Proper) {i : Nat} (hi : R.ordinalAt p = some i) : g p < A.nextId := by
  obtain ⟨type, ht⟩ := hp.link_node _ _ _ (hg.outer p i hi)
  exact hp.label_lt _ _ ht

theorem label_inner (hg : Glues A x R g B) (hp : A.Proper) (hl : R.labelAt p = some lab) (ho : R.ordinalAt p = none)
    (lab' : Label) : A.label (g p) ≠ some lab' := by
  intro ht
  have := hp.label_lt _ _ ht
  have := hg.fresh p lab hl ho
  omega

theorem link_inner (hg : Glues A x R g B) (hp : A.Proper) (hr : R.Sound) (hl : R.labelAt p = some lab)
    (ho : R.ordinalAt p = none) : B.link (g p) l y ↔ ∃ q, R.Linked p l q ∧ g q = y := by
  have hge := hg.fresh p lab hl ho
  rw [hg.link]
  constructor
  · rintro (⟨hlk, -⟩ | ⟨p', q, hlk, hpp, rfl⟩)
    · obtain ⟨lab', ht⟩ := hp.link_label _ _ _ hlk
      exact absurd ht (hg.label_inner hp hl ho lab')
    · cases ho' : R.ordinalAt p' with
      | some i => exact absurd (hg.outer_lt hp ho') (by omega)
      | none =>
        obtain ⟨lab', hl'⟩ := hr.labelAt_of_joined hlk.joined
        obtain rfl := hg.inj p' p lab' lab hl' ho' hl ho hpp
        exact ⟨q, hlk, rfl⟩
  · rintro ⟨q, hlk, rfl⟩
    exact .inr ⟨p, q, hlk, rfl, rfl⟩

theorem shared (hg : Glues A x R g B) (hp : A.Proper) (hr : R.Sound) (hA : A.label y = some lab)
    (hlk : R.Linked p l q) (hpy : g p = y) : ∃ i type, R.ordinalAt p = some i ∧ lab = .node type := by
  cases ho : R.ordinalAt p with
  | none =>
    obtain ⟨lab', hl'⟩ := hr.labelAt_of_joined hlk.joined
    exact absurd (hpy ▸ hA) (hg.label_inner hp hl' ho lab)
  | some i =>
    obtain ⟨type, htype⟩ := hp.link_node _ _ _ (hg.outer p i ho)
    exact ⟨i, type, rfl, Option.some.inj ((hpy ▸ hA).symm.trans htype)⟩

theorem link_edge (hg : Glues A x R g B) (hp : A.Proper) (hr : R.Sound) (hA : A.label y = some lab) (hyx : y ≠ x)
    (hn : ¬ ∃ type, lab = .node type) {b : Nat} : B.link y l b ↔ A.link y l b := by
  rw [hg.link]
  constructor
  · rintro (⟨hlk, -⟩ | ⟨p, q, hlk, hpy, -⟩)
    · exact hlk
    · obtain ⟨-, type, -, hlab⟩ := hg.shared hp hr hA hlk hpy
      exact absurd ⟨type, hlab⟩ hn
  · exact fun hlk => .inl ⟨hlk, hyx⟩

theorem typed (hg : Glues A x R g B) (hp : A.Proper) (ht : A.Typed) (hr : R.WellFormed)
    (hv : ∀ p name, R.labelAt p = some (.variable name) → ∀ y, A.label y ≠ some (.variable name)) : B.Typed := by
  refine ⟨fun y lab hy => ?_, fun y z name hy hz => ?_⟩
  · rcases (hg.label y lab).mp hy with ⟨hyx, hA⟩ | ⟨p, hl, ho, rfl⟩
    · have hfit := ht.fits y lab hA
      by_cases hn : ∃ type, lab = .node type
      · obtain ⟨type, rfl⟩ := hn
        rintro l ⟨b, hb⟩
        rcases (hg.link y l b).mp hb with ⟨hlk, -⟩ | ⟨p, q, hlk, hpy, -⟩
        · exact hfit l ⟨b, hlk⟩
        · obtain ⟨i, -, ho, -⟩ := hg.shared hp hr.toSound hA hlk hpy
          exact hr.isSelector (hr.ordinal_node p i ho) hlk
      · exact hfit.congr fun l => exists_congr fun b => (hg.link_edge hp hr.toSound hA hyx hn).symm
    · refine (hr.fits hl).congr fun l => ?_
      constructor
      · rintro ⟨q, hq⟩
        exact ⟨g q, (hg.link_inner hp hr.toSound hl ho).mpr ⟨q, hq, rfl⟩⟩
      · rintro ⟨b, hb⟩
        obtain ⟨q, hq, -⟩ := (hg.link_inner hp hr.toSound hl ho).mp hb
        exact ⟨q, hq⟩
  · rcases (hg.label y _).mp hy with ⟨-, h1⟩ | ⟨p, h1, -, rfl⟩ <;>
      rcases (hg.label z _).mp hz with ⟨-, h2⟩ | ⟨q, h2, -, rfl⟩
    · exact ht.variable_inj y z name h1 h2
    · exact absurd h1 (hv q name h2 y)
    · exact absurd h2 (hv p name h1 z)
    · rw [hr.variable_inj p q name h1 h2]

end Glues

end HeapView

namespace Heap

variable {h h' : Heap} {u v w x : Nat} {l : EdgeLabel} {e : Element} {lab : Label} {labs : List Label}

theorem mem_ends {as : List Arc} {t : Nat} :
    (l, t) ∈ as.flatMap (fun a => a.labels.map (fun l => (l, a.target))) ↔ Arc.Carries as l t := by
  simp only [List.mem_flatMap, List.mem_map, Prod.mk.injEq, Arc.Carries]
  constructor
  · rintro ⟨a, ha, m, hm, rfl, rfl⟩
    exact ⟨a, ha, rfl, hm⟩
  · rintro ⟨a, ha, rfl, hm⟩
    exact ⟨a, ha, l, hm, rfl, rfl⟩

theorem map_fst_ends (as : List Arc) :
    (as.flatMap (fun a => a.labels.map (fun l => (l, a.target)))).map Prod.fst = as.flatMap Arc.labels := by
  simp [List.map_flatMap, Function.comp_def]

theorem WellFormed.tentacleSlots (hw : h.WellFormed) {nt : Nonterminal} (he : h.elements[v]? = some e)
    (hl : h.labelAt v = some (.nonterminal nt)) (hn : e.label = .nonterminal nt) :
    ∃ targets, Heap.tentacleSlots e = .ok targets ∧ (targets.length : Int) = nt.rank ∧
      ∀ i t, targets[i]? = some t ↔ h.Linked v (.tentacle i) t := by
  obtain ⟨k, hk, hfit⟩ := hw.fits hl
  have hlinked (m : EdgeLabel) (t : Nat) : h.Linked v m t ↔ Arc.Carries e.arcs m t := by rw [Linked, out_eq he]
  set ends := e.arcs.flatMap (fun a => a.labels.map (fun l => (l, a.target))) with hends
  have hnodup : (ends.reverse.map Prod.fst).Nodup := by
    rw [List.map_reverse, List.nodup_reverse, map_fst_ends, ← out_eq he]
    exact (hw.tidy v).labels
  have hlook (m : EdgeLabel) (t : Nat) : ends.reverse.lookup m = some t ↔ h.Linked v m t := by
    rw [lookup_eq_some hnodup, List.mem_reverse, mem_ends, hlinked]
  refine ⟨(List.range k).map (fun i => (ends.reverse.lookup (.tentacle i)).getD 0), ?_, by simp [hk], fun i t => ?_⟩
  · rw [Heap.tentacleSlots, if_neg]
    · simp [hn, Label.rank, hk, hends]
    · simp only [hn, Label.rank, hk, Bool.or_eq_true, decide_eq_true_eq, Bool.not_eq_true', List.all_eq_false, not_or]
      refine ⟨by omega, ?_⟩
      rintro ⟨⟨m, t⟩, hm, hfalse⟩
      obtain ⟨i, hi, rfl⟩ := (hfit m).mp ⟨t, (hlinked m t).mpr (mem_ends.mp hm)⟩
      exact hfalse (decide_eq_true (by omega))
  · rw [List.getElem?_map, Option.map_eq_some_iff]
    constructor
    · rintro ⟨j, hj, rfl⟩
      obtain ⟨hlt, rfl⟩ := List.getElem?_eq_some_iff.mp hj
      rw [List.getElem_range]
      obtain ⟨t, ht⟩ := (hfit (.tentacle i)).mpr ⟨i, by simpa using hlt, rfl⟩
      rwa [(hlook _ _).mpr ht]
    · intro ht
      obtain ⟨j, hj, hij⟩ := (hfit (.tentacle i)).mp ⟨t, ht⟩
      obtain rfl := EdgeLabel.tentacle.inj hij
      exact ⟨i, by simp [hj], by rw [(hlook _ _).mpr ht]; rfl⟩

theorem addAll_eq (labs : List Label) : h.addAll labs =
    { elements := h.elements ++ labs.mapIdx (fun i lab => { label := lab, id := h.nextId + i })
      nextId := h.nextId + labs.length } := by
  induction labs generalizing h with
  | nil => simp [addAll]
  | cons lab labs ih =>
    change (h.addElement lab).addAll labs = _
    rw [ih]
    simp [addElement, List.mapIdx_cons, Nat.add_comm, Nat.add_left_comm]

theorem getElem?_addAll_old (hv : v < h.elements.length) : (h.addAll labs).elements[v]? = h.elements[v]? := by
  rw [addAll_eq, List.getElem?_append_left hv]

theorem getElem?_addAll_new {j : Nat} : (h.addAll labs).elements[h.elements.length + j]? =
    (labs[j]?).map (fun lab => { label := lab, id := h.nextId + j }) := by
  rw [addAll_eq, List.getElem?_append_right (Nat.le_add_right _ _), Nat.add_sub_cancel_left, List.getElem?_mapIdx]

theorem Sound.addAll (hs : h.Sound) : (h.addAll labs).Sound := by
  induction labs generalizing h with
  | nil => exact hs
  | cons lab labs ih => exact ih hs.addElement

theorem linked_addAll : (h.addAll labs).Linked u l v ↔ h.Linked u l v := by
  induction labs generalizing h with
  | nil => exact Iff.rfl
  | cons lab labs ih => exact ih.trans linked_addElement

def innerLabels (es : List Element) : List Label := (es.filter (fun e => e.ordinal.isNone)).map Element.label

def copySlots (targets : List Nat) : Nat → List Element → List Nat
  | _, [] => []
  | n, e :: rest =>
      match e.ordinal with
      | some i => (targets[i]?).getD 0 :: copySlots targets n rest
      | none => n :: copySlots targets (n + 1) rest

theorem copySlots_outer {targets : List Nat} {n p i : Nat} {es : List Element} (hp : es[p]? = some e)
    (ho : e.ordinal = some i) : (copySlots targets n es)[p]? = some ((targets[i]?).getD 0) := by
  induction es generalizing n p with
  | nil => simp at hp
  | cons f es ih =>
    cases p with
    | zero =>
      obtain rfl : f = e := by simpa using hp
      simp [copySlots, ho]
    | succ p =>
      rw [List.getElem?_cons_succ] at hp
      cases hf : f.ordinal <;> simp [copySlots, hf, ih hp]

theorem copySlots_inner (targets : List Nat) (n : Nat) {p : Nat} {es : List Element} (hp : es[p]? = some e)
    (ho : e.ordinal = none) :
    ∃ j, (copySlots targets n es)[p]? = some (n + j) ∧ (innerLabels es)[j]? = some e.label := by
  induction es generalizing n p with
  | nil => simp at hp
  | cons f es ih =>
    cases p with
    | zero =>
      obtain rfl : f = e := by simpa using hp
      exact ⟨0, by simp [copySlots, ho], by simp [innerLabels, ho]⟩
    | succ p =>
      rw [List.getElem?_cons_succ] at hp
      cases hf : f.ordinal with
      | some i =>
        obtain ⟨j, h1, h2⟩ := ih n hp
        exact ⟨j, by simp [copySlots, hf, h1], by simpa [innerLabels, hf] using h2⟩
      | none =>
        obtain ⟨j, h1, h2⟩ := ih (n + 1) hp
        exact ⟨j + 1, by simp [copySlots, hf, h1, Nat.add_comm, Nat.add_left_comm], by simpa [innerLabels, hf] using h2⟩

theorem exists_copySlots (targets : List Nat) (n : Nat) {j : Nat} {es : List Element}
    (hj : (es.filter (fun e => e.ordinal.isNone))[j]? = some e) :
    ∃ p : Nat, es[p]? = some e ∧ (copySlots targets n es)[p]? = some (n + j) := by
  induction es generalizing n j with
  | nil => simp at hj
  | cons f es ih =>
    cases hf : f.ordinal with
    | some i =>
      obtain ⟨p, h1, h2⟩ := ih n (by simpa [hf] using hj)
      exact ⟨p + 1, by simpa using h1, by simp [copySlots, hf, h2]⟩
    | none =>
      cases j with
      | zero => exact ⟨0, by simpa [hf] using hj, by simp [copySlots, hf]⟩
      | succ j =>
        obtain ⟨p, h1, h2⟩ := ih (n + 1) (j := j) (by simpa [hf] using hj)
        exact ⟨p + 1, by simpa using h1, by simp [copySlots, hf, h2, Nat.add_comm, Nat.add_left_comm]⟩

theorem copySlots_inj {targets : List Nat} {n p q c : Nat} {es : List Element} {f : Element}
    (hp : es[p]? = some e) (ho : e.ordinal = none) (hq : es[q]? = some f) (ho' : f.ordinal = none)
    (hpc : (copySlots targets n es)[p]? = some c) (hqc : (copySlots targets n es)[q]? = some c) : p = q := by
  induction es generalizing n p q with
  | nil => simp at hp
  | cons g es ih =>
    have hlater (p : Nat) (e : Element) (hp : es[p]? = some e) (ho : e.ordinal = none)
        (hg : g.ordinal = none) : (copySlots targets n (g :: es))[p + 1]? ≠ some n := by
      obtain ⟨j, hj, -⟩ := copySlots_inner targets (n + 1) hp ho
      simp only [copySlots, hg, List.getElem?_cons_succ, hj, ne_eq, Option.some.injEq]
      omega
    cases p with
    | zero =>
      cases q with
      | zero => rfl
      | succ q =>
        obtain rfl : g = e := by simpa using hp
        obtain rfl : n = c := by simpa [copySlots, ho] using hpc
        exact absurd hqc (hlater q f (by simpa using hq) ho' ho)
    | succ p =>
      cases q with
      | zero =>
        obtain rfl : g = f := by simpa using hq
        obtain rfl : n = c := by simpa [copySlots, ho'] using hqc
        exact absurd hpc (hlater p e (by simpa using hp) ho ho')
      | succ q =>
        rw [List.getElem?_cons_succ] at hp hq
        cases hg : g.ordinal with
        | some i => rw [ih hp hq (by simpa [copySlots, hg] using hpc) (by simpa [copySlots, hg] using hqc)]
        | none => rw [ih hp hq (by simpa [copySlots, hg] using hpc) (by simpa [copySlots, hg] using hqc)]

theorem variableSlot?_addElement {name : Bytes} : ((h.addElement lab).variableSlot? name).isSome = true ↔
    (h.variableSlot? name).isSome = true ∨ lab = .variable name := by
  simp only [variableSlot?, List.findIdx?_isSome, addElement, List.any_append, Bool.or_eq_true]
  simp

theorem copyElements_ok {targets : List Nat} {es : List Element} {glue copies : List Nat}
    (hc : copyElements targets h glue es = .ok (h', copies)) :
    h' = h.addAll (innerLabels es) ∧ copies = glue ++ copySlots targets h.elements.length es ∧
      ∀ name, Label.variable name ∈ innerLabels es → (h.variableSlot? name).isSome = false := by
  induction es generalizing h glue with
  | nil =>
    simp only [copyElements, Except.ok.injEq, Prod.mk.injEq] at hc
    obtain ⟨rfl, rfl⟩ := hc
    simp [innerLabels, addAll, copySlots]
  | cons e es ih =>
    rw [copyElements] at hc
    cases ho : e.ordinal with
    | some i =>
      simp only [ho] at hc
      cases ht : targets[i]? with
      | none => simp [ht] at hc
      | some t =>
        simp only [ht] at hc
        obtain ⟨h1, h2, h3⟩ := ih hc
        refine ⟨by simpa [innerLabels, ho] using h1, by simp [h2, copySlots, ho, ht], ?_⟩
        simpa [innerLabels, ho] using h3
    | none =>
      have hinner : innerLabels (e :: es) = e.label :: innerLabels es := by simp [innerLabels, ho]
      have hstep : ∀ (hfree : ∀ name, e.label = .variable name → (h.variableSlot? name).isSome = false),
          copyElements targets (h.addElement e.label) (glue ++ [h.elements.length]) es = .ok (h', copies) →
          h' = h.addAll (innerLabels (e :: es)) ∧ copies = glue ++ copySlots targets h.elements.length (e :: es) ∧
            ∀ name, Label.variable name ∈ innerLabels (e :: es) → (h.variableSlot? name).isSome = false := by
        intro hfree hrest
        obtain ⟨h1, h2, h3⟩ := ih hrest
        rw [hinner]
        refine ⟨h1, by simp [h2, copySlots, ho, length_addElement], fun name hm => ?_⟩
        rcases List.mem_cons.mp hm with hm | hm
        · exact hfree name hm.symm
        · have := h3 name hm
          rw [← Bool.not_eq_true, variableSlot?_addElement, not_or] at this
          simpa using this.1
      simp only [ho] at hc
      split at hc
      · rename_i name hname
        split at hc
        · simp at hc
        · rename_i hfree
          refine hstep (fun name' hname' => ?_) hc
          obtain rfl := Label.variable.inj (hname.symm.trans hname')
          simpa using hfree
      · rename_i hne
        exact hstep (fun name hname => absurd hname (hne name)) hc

theorem copyElements_eq {targets : List Nat} {es : List Element} (glue : List Nat)
    (ht : ∀ e ∈ es, ∀ i, e.ordinal = some i → i < targets.length)
    (hfree : ∀ name, Label.variable name ∈ innerLabels es → (h.variableSlot? name).isSome = false)
    (hpair : (innerLabels es).Pairwise (fun a b => ∀ name, a = .variable name → b ≠ .variable name)) :
    ∃ p, copyElements targets h glue es = .ok p := by
  induction es generalizing h glue with
  | nil => exact ⟨_, rfl⟩
  | cons e es ih =>
    have ht' : ∀ e ∈ es, ∀ i, e.ordinal = some i → i < targets.length := fun e he => ht e (List.mem_cons_of_mem _ he)
    rw [copyElements]
    cases ho : e.ordinal with
    | some i =>
      have hinner : innerLabels (e :: es) = innerLabels es := by simp [innerLabels, ho]
      rw [hinner] at hfree hpair
      have hlt := ht e List.mem_cons_self i ho
      simp only [List.getElem?_eq_getElem hlt]
      exact ih _ ht' hfree hpair
    | none =>
      have hinner : innerLabels (e :: es) = e.label :: innerLabels es := by simp [innerLabels, ho]
      rw [hinner] at hfree hpair
      rw [List.pairwise_cons] at hpair
      have hrest : ∃ p, copyElements targets (h.addElement e.label) (glue ++ [h.elements.length]) es = .ok p := by
        refine ih _ ht' (fun name hm => ?_) hpair.2
        rw [← Bool.not_eq_true, variableSlot?_addElement, not_or]
        refine ⟨by simp [hfree name (List.mem_cons_of_mem _ hm)], fun hname => ?_⟩
        exact hpair.1 _ hm name hname rfl
      simp only
      split
      · rename_i name hname
        rw [if_neg (by simp [hfree name (by simp [hname])])]
        exact hrest
      · exact hrest

def Link.through (g : Nat → Nat) (k : Link) : Link := ⟨g k.source, g k.target, k.label⟩

theorem mem_links {p q : Nat} : ⟨p, q, l⟩ ∈ h.links ↔ h.Linked p l q := by
  simp only [links, List.mem_flatMap, List.mem_map, Prod.exists, Link.mk.injEq, List.mk_mem_zipIdx_iff_getElem?]
  constructor
  · rintro ⟨e, v, he, a, ha, m, hm, rfl, rfl, rfl⟩
    rw [Linked, out_eq he]
    exact ⟨a, ha, rfl, hm⟩
  · intro hl
    cases he : h.elements[p]? with
    | none => simp [Linked, out, he] at hl
    | some e =>
      rw [Linked, out_eq he] at hl
      obtain ⟨a, ha, rfl, hm⟩ := hl
      exact ⟨e, p, he, a, ha, l, hm, rfl, rfl, rfl⟩

theorem Sound.links_pairwise (hs : h.Sound) :
    h.links.Pairwise (fun j k => ¬ (j.source = k.source ∧ j.label = k.label)) := by
  rw [links, List.pairwise_flatMap]
  constructor
  · rintro ⟨e, v⟩ hm
    rw [List.mk_mem_zipIdx_iff_getElem?] at hm
    have hnd := (hs.tidy v).labels
    rw [out_eq hm, ← map_fst_ends] at hnd
    have : (e.arcs.flatMap (fun a => a.labels.map (fun l => (⟨v, a.target, l⟩ : Link)))).map Link.label =
        (e.arcs.flatMap (fun a => a.labels.map (fun l => (l, a.target)))).map Prod.fst := by
      simp [List.map_flatMap, Function.comp_def]
    rw [← this] at hnd
    exact (List.pairwise_map.mp hnd).imp fun hne hx => hne hx.2
  · refine (List.pairwise_map.mp (nodup_zipIdx_snd h.elements)).imp fun {p q} hne j hj k hk hx => hne ?_
    simp only [List.mem_flatMap, List.mem_map] at hj hk
    obtain ⟨a, -, m, -, rfl⟩ := hj
    obtain ⟨b, -, n, -, rfl⟩ := hk
    exact hx.1

theorem copyLinks_ok {copies : List Nat} {ks : List Link} (hc : copyLinks copies h ks = .ok h') :
    h' = h.linkAll (ks.map (Link.through (fun p => (copies[p]?).getD 0))) ∧
      (∀ k ∈ ks, k.label.isSelector = true → ∀ w, ¬ h.Linked ((copies[k.source]?).getD 0) k.label w) ∧
      ks.Pairwise (fun j k => k.label.isSelector = true →
        ¬ ((copies[j.source]?).getD 0 = (copies[k.source]?).getD 0 ∧ j.label = k.label)) := by
  induction ks generalizing h with
  | nil =>
    obtain rfl : h = h' := by simpa [copyLinks] using hc
    simp [linkAll]
  | cons k ks ih =>
    rw [copyLinks] at hc
    split at hc
    · rename_i s t hs ht
      split at hc
      · simp at hc
      · rename_i e he
        split at hc
        · simp at hc
        · rename_i hsel
          have hlt : s < h.elements.length := (List.getElem?_eq_some_iff.mp he).1
          obtain ⟨h1, h2, h3⟩ := ih hc
          have hrest (j : Link) (hj : j ∈ ks) (hjs : j.label.isSelector = true) (w : Nat) :
              ¬ h.Linked ((copies[j.source]?).getD 0) j.label w ∧
                ¬ (((copies[j.source]?).getD 0) = s ∧ j.label = k.label ∧ w = t) := by
            have := h2 j hj hjs w
            rwa [linked_link hlt, not_or] at this
          refine ⟨?_, ?_, List.pairwise_cons.mpr ⟨fun j hj hjs hx => ?_, h3⟩⟩
          · rw [h1, List.map_cons, linkAll, linkAll, List.foldl_cons]
            simp [Link.through, hs, ht]
          · intro j hj hjs w
            rcases List.mem_cons.mp hj with rfl | hj
            · rw [hs, Option.getD_some, Linked, out_eq he]
              simp only [hjs, Bool.true_and, Option.isSome_iff_ne_none, ne_eq, not_not] at hsel
              exact Element.targetOf?_eq_none.mp hsel w
            · exact (hrest j hj hjs w).1
          · rw [hs, Option.getD_some] at hx
            exact (hrest j hj hjs t).2 ⟨hx.1.symm, hx.2.symm, rfl⟩
    · simp at hc

theorem copyLinks_eq {copies : List Nat} {ks : List Link}
    (hk : ∀ k ∈ ks, ∃ s t, copies[k.source]? = some s ∧ copies[k.target]? = some t ∧ s < h.elements.length ∧
      ∀ w, ¬ h.Linked s k.label w)
    (hp : ks.Pairwise (fun j k => ¬ ((copies[j.source]?).getD 0 = (copies[k.source]?).getD 0 ∧ j.label = k.label))) :
    ∃ h', copyLinks copies h ks = .ok h' := by
  induction ks generalizing h with
  | nil => exact ⟨h, rfl⟩
  | cons k ks ih =>
    obtain ⟨s, t, hs, ht, hlt, hfree⟩ := hk k List.mem_cons_self
    rw [List.pairwise_cons] at hp
    have he := List.getElem?_eq_getElem hlt
    have hnone : (h.elements[s]).targetOf? k.label = none := by
      rw [Element.targetOf?_eq_none, ← out_eq he]
      exact hfree
    rw [copyLinks]
    simp only [hs, ht, he, hnone, Option.isSome_none, Bool.and_false, Bool.false_eq_true, if_false]
    refine ih (fun j hj => ?_) hp.2
    obtain ⟨s', t', hs', ht', hlt', hfree'⟩ := hk j (List.mem_cons_of_mem _ hj)
    refine ⟨s', t', hs', ht', by rwa [sameFaces_link.length], fun w hw => ?_⟩
    rw [linked_link hlt] at hw
    rcases hw with hw | ⟨rfl, hl, -⟩
    · exact hfree' w hw
    · exact hp.1 j hj ⟨by rw [hs, hs'], hl.symm⟩

theorem label_addAll (hs : h.Sound) {y : Nat} : (h.addAll labs).view.label y = some lab ↔
    h.view.label y = some lab ∨ ∃ j, y = h.nextId + j ∧ labs[j]? = some lab := by
  rw [hs.addAll.view_label, hs.view_label]
  constructor
  · rintro ⟨w, hw, hl⟩
    by_cases hlt : w < h.elements.length
    · simp only [idOf, labelAt, getElem?_addAll_old hlt] at hw hl
      exact .inl ⟨w, hw, hl⟩
    · obtain ⟨j, rfl⟩ := Nat.exists_eq_add_of_le (Nat.not_lt.mp hlt)
      simp only [idOf, labelAt, getElem?_addAll_new] at hw hl
      cases hj : labs[j]? with
      | none => simp [hj] at hw
      | some lab' =>
        simp only [hj, Option.map_some, Option.some.injEq, Option.bind_some, Bool.false_eq_true, if_false] at hw hl
        exact .inr ⟨j, hw.symm, hl ▸ hj⟩
  · rintro (⟨w, hw, hl⟩ | ⟨j, rfl, hj⟩)
    · have hlt := lt_of_labelAt hl
      exact ⟨w, by simpa only [idOf, getElem?_addAll_old hlt] using hw,
        by simpa only [labelAt, getElem?_addAll_old hlt] using hl⟩
    · exact ⟨h.elements.length + j, by simp [idOf, getElem?_addAll_new, hj],
        by simp [labelAt, getElem?_addAll_new, hj]⟩

theorem ordinal_addAll (hs : h.Sound) : (h.addAll labs).view.ordinal = h.view.ordinal := by
  induction labs generalizing h with
  | nil => rfl
  | cons lab labs ih => exact (ih hs.addElement).trans (by rw [view_addElement hs]; rfl)

theorem link_addAll (hs : h.Sound) : (h.addAll labs).view.link = h.view.link := by
  induction labs generalizing h with
  | nil => rfl
  | cons lab labs ih => exact (ih hs.addElement).trans (by rw [view_addElement hs]; rfl)

def copySlot (targets : List Nat) (n : Nat) (R : Heap) (p : Nat) : Nat :=
  ((copySlots targets n R.elements)[p]?).getD 0

section

variable {R : Heap} {targets : List Nat} {n p q i : Nat}

theorem copySlot_outer (hp : R.ordinalAt p = some i) : copySlot targets n R p = (targets[i]?).getD 0 := by
  obtain ⟨e, he, ho⟩ := Option.bind_eq_some_iff.mp hp
  rw [copySlot, copySlots_outer he ho, Option.getD_some]

theorem exists_inner (hl : R.labelAt p = some lab) (ho : R.ordinalAt p = none) :
    ∃ e, R.elements[p]? = some e ∧ e.ordinal = none ∧ e.label = lab := by
  obtain ⟨e, he, -, rfl⟩ := labelAt_eq_some.mp hl
  exact ⟨e, he, by simpa [ordinalAt, he] using ho, rfl⟩

theorem copySlot_inner (targets : List Nat) (n : Nat) (hl : R.labelAt p = some lab) (ho : R.ordinalAt p = none) :
    ∃ j, copySlot targets n R p = n + j ∧ (innerLabels R.elements)[j]? = some lab := by
  obtain ⟨e, he, ho, rfl⟩ := exists_inner hl ho
  obtain ⟨j, h1, h2⟩ := copySlots_inner targets n he ho
  exact ⟨j, by rw [copySlot, h1, Option.getD_some], h2⟩

theorem copySlot_inj {lab' : Label} (hl : R.labelAt p = some lab) (ho : R.ordinalAt p = none)
    (hl' : R.labelAt q = some lab') (ho' : R.ordinalAt q = none)
    (hpq : copySlot targets n R p = copySlot targets n R q) : p = q := by
  obtain ⟨e, he, ho, rfl⟩ := exists_inner hl ho
  obtain ⟨f, hf, ho', rfl⟩ := exists_inner hl' ho'
  obtain ⟨j, h1, -⟩ := copySlots_inner targets n he ho
  obtain ⟨k, h2, -⟩ := copySlots_inner targets n hf ho'
  rw [copySlot, copySlot, h1, h2, Option.getD_some, Option.getD_some] at hpq
  exact copySlots_inj he ho hf ho' h1 (hpq ▸ h2)

theorem exists_copySlot (targets : List Nat) (n : Nat) (hi : R.Idle) {j : Nat} (hj : (innerLabels R.elements)[j]? = some lab) :
    ∃ p, R.labelAt p = some lab ∧ R.ordinalAt p = none ∧ copySlot targets n R p = n + j := by
  rw [innerLabels, List.getElem?_map, Option.map_eq_some_iff] at hj
  obtain ⟨e, hj, rfl⟩ := hj
  have ho := (List.mem_filter.mp (List.mem_of_getElem? hj)).2
  obtain ⟨p, he, hc⟩ := exists_copySlots targets n hj
  refine ⟨p, labelAt_of_live he (hi e (List.mem_of_getElem? he)), by simpa [ordinalAt, he] using ho, ?_⟩
  rw [copySlot, hc, Option.getD_some]

theorem mem_innerLabels (hi : R.Idle) : lab ∈ innerLabels R.elements ↔
    ∃ p, R.labelAt p = some lab ∧ R.ordinalAt p = none := by
  constructor
  · intro hm
    obtain ⟨j, hj⟩ := List.mem_iff_getElem?.mp hm
    obtain ⟨p, h1, h2, -⟩ := exists_copySlot [] 0 hi hj
    exact ⟨p, h1, h2⟩
  · rintro ⟨p, hl, ho⟩
    obtain ⟨j, -, hj⟩ := copySlot_inner [] 0 hl ho
    exact List.mem_of_getElem? hj

theorem labelAt_copySlot (hl : R.labelAt p = some lab) (ho : R.ordinalAt p = none) :
    (h.addAll (innerLabels R.elements)).labelAt (copySlot targets h.elements.length R p) = some lab := by
  obtain ⟨j, hj, hlab⟩ := copySlot_inner targets h.elements.length hl ho
  simp [labelAt, hj, getElem?_addAll_new, hlab]

theorem idOf_copySlot (targets : List Nat) (hl : R.labelAt p = some lab) (ho : R.ordinalAt p = none) : ∃ j,
    copySlot targets h.elements.length R p = h.elements.length + j ∧
      (h.addAll (innerLabels R.elements)).idOf (copySlot targets h.elements.length R p) = some (h.nextId + j) := by
  obtain ⟨j, hj, hlab⟩ := copySlot_inner targets h.elements.length hl ho
  exact ⟨j, hj, by simp [idOf, hj, getElem?_addAll_new, hlab]⟩

theorem IsNode.addAll (hn : h.IsNode v) : (h.addAll labs).IsNode v := by
  obtain ⟨type, ht⟩ := hn
  exact ⟨type, by rwa [labelAt, getElem?_addAll_old (lt_of_labelAt ht)]⟩

def copyId (targets : List Nat) (h R : Heap) (p : Nat) : Nat :=
  ((h.addAll (innerLabels R.elements)).idOf (copySlot targets h.elements.length R p)).getD 0

structure Copied (h R : Heap) (targets : List Nat) : Prop where
  wellFormed : R.WellFormed
  idle : R.Idle
  sound : h.Sound
  outer : ∀ p i, R.ordinalAt p = some i → ∃ t, targets[i]? = some t ∧ h.IsNode t

namespace Copied

variable (hc : Copied h R targets)

include hc

theorem outer_slot (ho : R.ordinalAt p = some i) :
    targets[i]? = some (copySlot targets h.elements.length R p) ∧ h.IsNode (copySlot targets h.elements.length R p) := by
  obtain ⟨t, ht, hn⟩ := hc.outer p i ho
  rw [copySlot_outer ho, ht]
  exact ⟨rfl, hn⟩

theorem isNode_copy (hn : R.IsNode p) :
    (h.addAll (innerLabels R.elements)).IsNode (copySlot targets h.elements.length R p) := by
  obtain ⟨type, ht⟩ := hn
  cases ho : R.ordinalAt p with
  | none => exact ⟨type, labelAt_copySlot ht ho⟩
  | some i => exact (hc.outer_slot ho).2.addAll

theorem live_copy (hl : R.labelAt p = some lab) : ∃ lab',
    (h.addAll (innerLabels R.elements)).labelAt (copySlot targets h.elements.length R p) = some lab' := by
  cases ho : R.ordinalAt p with
  | none => exact ⟨lab, labelAt_copySlot hl ho⟩
  | some i =>
    obtain ⟨type, ht⟩ := (hc.outer_slot ho).2.addAll
    exact ⟨_, ht⟩

theorem not_linked_inner (hl : R.labelAt p = some lab) (ho : R.ordinalAt p = none) :
    ¬ (h.addAll (innerLabels R.elements)).Linked (copySlot targets h.elements.length R p) l w := by
  intro hlk
  obtain ⟨j, hj, -⟩ := copySlot_inner targets h.elements.length hl ho
  obtain ⟨lab', hl'⟩ := hc.sound.labelAt_of_joined (linked_addAll.mp hlk).joined
  have := lt_of_labelAt hl'
  omega

theorem inner_of_tentacle (hlk : R.Linked p l q) (hl : l.isSelector = false) : R.ordinalAt p = none := by
  cases ho : R.ordinalAt p with
  | none => rfl
  | some i =>
    have := hc.wellFormed.isSelector (hc.wellFormed.ordinal_node p i ho) hlk
    simp [hl] at this

theorem linkable (hsel : ∀ k ∈ R.links, k.label.isSelector = true → ∀ w,
      ¬ (h.addAll (innerLabels R.elements)).Linked (copySlot targets h.elements.length R k.source) k.label w)
    (hpair : R.links.Pairwise (fun j k => k.label.isSelector = true →
      ¬ (copySlot targets h.elements.length R j.source = copySlot targets h.elements.length R k.source ∧
        j.label = k.label))) :
    (∀ k ∈ R.links.map (Link.through (copySlot targets h.elements.length R)),
      (∃ lab, (h.addAll (innerLabels R.elements)).labelAt k.source = some lab) ∧
        (h.addAll (innerLabels R.elements)).IsNode k.target ∧
        ∀ w, ¬ (h.addAll (innerLabels R.elements)).Linked k.source k.label w) ∧
    (R.links.map (Link.through (copySlot targets h.elements.length R))).Pairwise
      (fun j k => ¬ (j.source = k.source ∧ j.label = k.label)) := by
  have hs := hc.wellFormed.toSound
  constructor
  · intro k hk
    obtain ⟨⟨p, q, l⟩, hm, rfl⟩ := List.mem_map.mp hk
    have hlk := mem_links.mp hm
    obtain ⟨lab, hl⟩ := hs.labelAt_of_joined hlk.joined
    refine ⟨hc.live_copy hl, hc.isNode_copy (hs.ends p q hlk.joined), fun w => ?_⟩
    cases hlab : l.isSelector with
    | true => exact hsel _ hm hlab w
    | false => exact hc.not_linked_inner hl (hc.inner_of_tentacle hlk hlab)
  · rw [List.pairwise_map]
    refine (hpair.and hs.links_pairwise).imp_of_mem ?_
    rintro ⟨p, q, l⟩ ⟨p', q', l'⟩ hm hm' ⟨h1, h2⟩ ⟨hpp, hll⟩
    obtain rfl : l = l' := hll
    cases hlab : l.isSelector with
    | true => exact h1 hlab ⟨hpp, rfl⟩
    | false =>
      have hlk := mem_links.mp hm
      have hlk' := mem_links.mp hm'
      obtain ⟨lab, hl⟩ := hs.labelAt_of_joined hlk.joined
      obtain ⟨lab', hl'⟩ := hs.labelAt_of_joined hlk'.joined
      have := copySlot_inj hl (hc.inner_of_tentacle hlk hlab) hl' (hc.inner_of_tentacle hlk' hlab) hpp
      exact h2 ⟨this, rfl⟩

theorem idOf_copy (hl : R.labelAt p = some lab) :
    (h.addAll (innerLabels R.elements)).idOf (copySlot targets h.elements.length R p) = some (copyId targets h R p) := by
  obtain ⟨lab', hl'⟩ := hc.live_copy hl
  obtain ⟨y, hy⟩ := idOf_of_labelAt hl'
  rw [copyId, hy, Option.getD_some]

theorem label_grown {y : Nat} : (h.addAll (innerLabels R.elements)).view.label y = some lab ↔
    h.view.label y = some lab ∨ ∃ p, R.labelAt p = some lab ∧ R.ordinalAt p = none ∧ copyId targets h R p = y := by
  rw [label_addAll hc.sound]
  refine or_congr Iff.rfl ⟨?_, ?_⟩
  · rintro ⟨j, rfl, hj⟩
    obtain ⟨p, h1, h2, h3⟩ := exists_copySlot targets h.elements.length hc.idle hj
    refine ⟨p, h1, h2, ?_⟩
    rw [copyId, h3, idOf, getElem?_addAll_new, hj]
    rfl
  · rintro ⟨p, h1, h2, rfl⟩
    obtain ⟨j, hj, hlab⟩ := copySlot_inner targets h.elements.length h1 h2
    refine ⟨j, ?_, hlab⟩
    rw [copyId, hj, idOf, getElem?_addAll_new, hlab]
    rfl

theorem exists_copied_link {a b : Nat} : (∃ u w, (h.addAll (innerLabels R.elements)).idOf u = some a ∧
      (h.addAll (innerLabels R.elements)).idOf w = some b ∧
      ⟨u, w, l⟩ ∈ R.links.map (Link.through (copySlot targets h.elements.length R))) ↔
    ∃ p q, R.Linked p l q ∧ copyId targets h R p = a ∧ copyId targets h R q = b := by
  constructor
  · rintro ⟨u, w, hu, hw, hm⟩
    obtain ⟨⟨p, q, m⟩, hpq, hx⟩ := List.mem_map.mp hm
    simp only [Link.through, Link.mk.injEq] at hx
    obtain ⟨rfl, rfl, rfl⟩ := hx
    refine ⟨p, q, mem_links.mp hpq, ?_, ?_⟩
    · rw [copyId, hu, Option.getD_some]
    · rw [copyId, hw, Option.getD_some]
  · rintro ⟨p, q, hpq, rfl, rfl⟩
    obtain ⟨lab, hlp⟩ := hc.wellFormed.labelAt_of_joined hpq.joined
    obtain ⟨type, hlq⟩ := hc.wellFormed.ends p q hpq.joined
    exact ⟨_, _, hc.idOf_copy hlp, hc.idOf_copy hlq, List.mem_map.mpr ⟨⟨p, q, l⟩, mem_links.mpr hpq, rfl⟩⟩

end Copied

theorem orAbort_ok {α : Type} {r : Except HeapError α} {a : α} (ho : h.orAbort r = .ok a) : r = .ok a := by
  cases r with
  | error e => simp [orAbort] at ho
  | ok b => simpa [orAbort] using ho

theorem exists_nonterminal (hk : lab.kind = .nonterminal) : ∃ nt, lab = .nonterminal nt := by
  cases lab with
  | node type => simp [Label.kind] at hk
  | nonterminal nt => exact ⟨nt, rfl⟩
  | «variable» name => simp [Label.kind] at hk

theorem exists_of_glue (hs : h.Sound) {edge : Int} (hg : h.glue edge R = .ok h') : ∃ (x v : Nat) (nt : Nonterminal),
    edge = x ∧ h.idOf v = some x ∧ h.labelAt v = some (.nonterminal nt) ∧ nt.rank = R.externalCount := by
  simp only [Heap.glue] at hg
  obtain ⟨⟨v, e⟩, hf, hg⟩ := bind_ok hg
  obtain ⟨x, rfl, hid, -, hl, hk⟩ := find_ok hs (orAbort_ok hf)
  obtain ⟨nt, hn⟩ := exists_nonterminal hk
  dsimp only at hg
  split at hg
  · simp at hg
  · rename_i hrank
    exact ⟨x, v, nt, rfl, hid, hn ▸ hl, by simpa [hn, Label.rank] using hrank⟩

theorem WellFormed.glue_eq (hw : h.WellFormed) {nt : Nonterminal} (hid : h.idOf v = some x)
    (hl : h.labelAt v = some (.nonterminal nt)) (hk : nt.rank = R.externalCount) :
    ∃ targets bare, targets.length = R.externalCount ∧ (∀ i t, targets[i]? = some t ↔ h.Linked v (.tentacle i) t) ∧
      Removes h v bare ∧
      h.glue x R = copyElements targets bare [] R.elements >>= fun p => copyLinks p.2 p.1 R.links := by
  obtain ⟨e, he, hr, hn⟩ := labelAt_eq_some.mp hl
  obtain ⟨targets, h1, h2, h3⟩ := hw.tentacleSlots he hl hn
  obtain ⟨bare, h4, h5⟩ := hw.toSound.removeAt hl
  have hf := find_eq hw.toSound hid he hr
  refine ⟨targets, bare, by omega, h3, h5, ?_⟩
  rw [hn] at hf
  simp only [Label.kind] at hf
  simp [Heap.glue, hf, orAbort, h1, h4, hn, Label.rank, hk, bind, Except.bind]

theorem Removes.copied {bare : Heap} (hr : Removes h v bare) (hs : h.Sound) (hR : R.WellFormed) (hi : R.Idle)
    {nt : Nonterminal} (hl : h.labelAt v = some (.nonterminal nt)) (hlen : targets.length = R.externalCount)
    (ht : ∀ i t, targets[i]? = some t ↔ h.Linked v (.tentacle i) t) : Copied bare R targets where
  wellFormed := hR
  idle := hi
  sound := hr.sound
  outer p i ho := by
    have hlt : i < targets.length := hlen ▸ hR.exists_ordinal.mp ⟨p, ho⟩
    have hti := List.getElem?_eq_getElem hlt
    refine ⟨_, hti, ?_⟩
    obtain ⟨type, htype⟩ := hs.ends v _ ((ht i _).mp hti).joined
    refine ⟨type, ?_⟩
    rw [hr.labelAt, if_neg, htype]
    intro hv
    simp [hv, hl] at htype

-- what a gluing that succeeded did: the hyperedge in slot `v` went, the inner elements of `R` came, and then the arc
-- labels of `R`, where no name and no selector was taken
structure Gluing (h : Heap) (v : Nat) (R : Heap) (targets : List Nat) (bare h' : Heap) : Prop where
  removes : Removes h v bare
  tentacles : ∀ i t, targets[i]? = some t ↔ h.Linked v (.tentacle i) t
  copied : Copied bare R targets
  names : ∀ name, .variable name ∈ innerLabels R.elements → (bare.variableSlot? name).isSome = false
  free : ∀ k ∈ R.links, k.label.isSelector = true → ∀ w,
    ¬ (bare.addAll (innerLabels R.elements)).Linked (copySlot targets bare.elements.length R k.source) k.label w
  apart : R.links.Pairwise (fun j k => k.label.isSelector = true →
    ¬ (copySlot targets bare.elements.length R j.source = copySlot targets bare.elements.length R k.source ∧
      j.label = k.label))
  result : h' = (bare.addAll (innerLabels R.elements)).linkAll
    (R.links.map (Link.through (copySlot targets bare.elements.length R)))

theorem WellFormed.exists_gluing (hw : h.WellFormed) (hR : R.WellFormed) (hi : R.Idle) {nt : Nonterminal}
    (hid : h.idOf v = some x) (hl : h.labelAt v = some (.nonterminal nt)) (hk : nt.rank = R.externalCount)
    (hg : h.glue x R = .ok h') : ∃ targets bare, Gluing h v R targets bare h' := by
  obtain ⟨targets, bare, hlen, ht, hr, heq⟩ := hw.glue_eq hid hl hk
  rw [heq] at hg
  obtain ⟨⟨grown, copies⟩, hce, hcl⟩ := bind_ok hg
  obtain ⟨rfl, hcopies, hfree⟩ := copyElements_ok hce
  rw [List.nil_append] at hcopies
  subst hcopies
  obtain ⟨h1, h2, h3⟩ := copyLinks_ok hcl
  exact ⟨targets, bare, hr, ht, hr.copied hw.toSound hR hi hl hlen ht, hfree, h2, h3, h1⟩

theorem Gluing.glues {bare : Heap} (hg : Gluing h v R targets bare h') (hs : h.Sound) {nt : Nonterminal}
    (hid : h.idOf v = some x) (hl : h.labelAt v = some (.nonterminal nt)) :
    h'.Sound ∧ HeapView.Glues h.view x R (copyId targets bare R) h'.view := by
  have hc := hg.copied
  have hr := hg.removes
  obtain ⟨hk, hp⟩ := hc.linkable hg.free hg.apart
  have hgs : (bare.addAll (innerLabels R.elements)).Sound := hc.sound.addAll
  have hview := view_linkAll hgs _ hk hp
  have hbare := hr.view hs hid
  rw [← hg.result] at hview
  have hedge : h.view.label x = some (.nonterminal nt) := hs.view_label.mpr ⟨v, hid, hl⟩
  refine ⟨hg.result ▸ (hgs.linkAll _ hk hp).1, ?_, ?_, ?_, ?_, ?_, ?_⟩
  · intro p i ho
    obtain ⟨h1, type, h2⟩ := hc.outer_slot ho
    obtain ⟨type', h3⟩ := hc.wellFormed.ordinal_node p i ho
    have hcopy := hc.idOf_copy h3
    rw [idOf, getElem?_addAll_old (lt_of_labelAt h2)] at hcopy
    exact ⟨v, _, hid, hr.idOf ▸ hcopy, (hg.tentacles i _).mp h1⟩
  · intro p lab hlp ho
    obtain ⟨j, -, hj⟩ := idOf_copySlot (h := bare) targets hlp ho
    rw [copyId, hj, Option.getD_some, hr.nextId]
    exact Nat.le_add_right _ _
  · intro p q lab lab' hlp ho hlq ho' hpq
    have h1 := hc.idOf_copy hlp
    have h2 := hc.idOf_copy hlq
    rw [← hpq] at h2
    exact copySlot_inj hlp ho hlq ho' (hgs.id_inj _ _ _ h1 h2)
  · intro y lab
    rw [hview]
    refine hc.label_grown.trans (or_congr ?_ Iff.rfl)
    rw [hbare]
    by_cases hyx : y = x
    · subst hyx
      simp
    · simp [HeapView.label_delete_of_ne _ hyx, hyx]
  · rw [hview]
    change (bare.addAll (innerLabels R.elements)).view.ordinal = _
    rw [ordinal_addAll hc.sound, hbare]
    exact HeapView.ordinal_delete_edge hs.proper hedge (by simp)
  · intro a l b
    rw [hview]
    refine or_congr ?_ hc.exists_copied_link
    rw [link_addAll hc.sound, hbare]
    exact HeapView.link_delete_edge hs.proper hedge (by simp)

theorem Removes.variableSlot?_eq_none {bare : Heap} (hr : Removes h v bare) (hs : h.Sound) {nt : Nonterminal}
    (hl : h.labelAt v = some (.nonterminal nt)) {name : Bytes} :
    (bare.variableSlot? name).isSome = false ↔ ∀ y, h.view.label y ≠ some (.variable name) := by
  rw [Option.isSome_eq_false_iff, Option.isNone_iff_eq_none, Heap.variableSlot?_eq_none]
  constructor
  · intro hnone y hy
    obtain ⟨w, -, hwl⟩ := hs.view_label.mp hy
    refine hnone w ?_
    rw [hr.labelAt, if_neg, hwl]
    intro hwv
    simp [hwv, hl] at hwl
  · intro hfree w hwl
    rw [hr.labelAt] at hwl
    split at hwl
    · simp at hwl
    · obtain ⟨y, hy⟩ := idOf_of_labelAt hwl
      exact hfree y (hs.view_label.mpr ⟨w, hy, hwl⟩)

theorem Gluing.wellFormed {bare : Heap} (hg : Gluing h v R targets bare h') (hw : h.WellFormed) {nt : Nonterminal}
    (hid : h.idOf v = some x) (hl : h.labelAt v = some (.nonterminal nt)) : h'.WellFormed := by
  have hs := hw.toSound
  have hR := hg.copied.wellFormed
  obtain ⟨hs', hglue⟩ := hg.glues hs hid hl
  refine hs'.wellFormed_iff.mpr (hglue.typed hs.proper (hs.wellFormed_iff.mp hw) hR fun p name hp y hy => ?_)
  have hop := hR.ordinalAt_eq_none (not_isNode_of_kind hp (by simp [Label.kind]))
  have hfree := hg.names name ((mem_innerLabels hg.copied.idle).mpr ⟨p, hp, hop⟩)
  exact (hg.removes.variableSlot?_eq_none hs hl).mp hfree y hy

theorem WellFormed.glue (hw : h.WellFormed) (hR : R.WellFormed) (hi : R.Idle) {edge : Int}
    (hg : h.glue edge R = .ok h') : ∃ (x : Nat) (nt : Nonterminal) (g : Nat → Nat), edge = x ∧
      h.view.label x = some (.nonterminal nt) ∧ nt.rank = R.externalCount ∧
      HeapView.Glues h.view x R g h'.view ∧ h'.WellFormed := by
  have hs := hw.toSound
  obtain ⟨x, v, nt, rfl, hid, hl, hk⟩ := exists_of_glue hs hg
  obtain ⟨targets, bare, hglue⟩ := hw.exists_gluing hR hi hid hl hk hg
  exact ⟨x, nt, _, rfl, hs.view_label.mpr ⟨v, hid, hl⟩, hk, (hglue.glues hs hid hl).2, hglue.wellFormed hw hid hl⟩

theorem getElem?_copySlots (hl : R.labelAt p = some lab) :
    (copySlots targets n R.elements)[p]? = some (copySlot targets n R p) := by
  obtain ⟨e, he, -, -⟩ := labelAt_eq_some.mp hl
  rw [copySlot]
  cases ho : e.ordinal with
  | none =>
    obtain ⟨j, hj, -⟩ := copySlots_inner targets n he ho
    rw [hj, Option.getD_some]
  | some i => rw [copySlots_outer he ho, Option.getD_some]

theorem WellFormed.innerLabels_pairwise (hR : R.WellFormed) (hi : R.Idle) :
    (innerLabels R.elements).Pairwise (fun a b => ∀ name, a = .variable name → b ≠ .variable name) := by
  rw [List.pairwise_iff_getElem]
  intro j k hj hk hjk name hja hkb
  obtain ⟨p, hp, -, hpj⟩ := exists_copySlot [] 0 hi (List.getElem?_eq_getElem hj)
  obtain ⟨q, hq, -, hqk⟩ := exists_copySlot [] 0 hi (List.getElem?_eq_getElem hk)
  obtain rfl := hR.variable_inj p q name (hja ▸ hp) (hkb ▸ hq)
  omega

theorem Copied.eq_of_copySlot (hc : Copied h R targets) {l' : Label} (hl : R.labelAt p = some lab)
    (hl' : R.labelAt q = some l') (hpq : copySlot targets h.elements.length R p = copySlot targets h.elements.length R q) :
    p = q ∨ ∃ i j, R.ordinalAt p = some i ∧ R.ordinalAt q = some j := by
  have hmixed (p q i : Nat) (lab : Label) (ho : R.ordinalAt p = some i) (hl : R.labelAt q = some lab)
      (ho' : R.ordinalAt q = none) :
      copySlot targets h.elements.length R p ≠ copySlot targets h.elements.length R q := by
    obtain ⟨j, hj, -⟩ := copySlot_inner targets h.elements.length hl ho'
    have := (hc.outer_slot ho).2.lt
    omega
  cases ho : R.ordinalAt p with
  | none =>
    cases ho' : R.ordinalAt q with
    | none => exact .inl (copySlot_inj hl ho hl' ho' hpq)
    | some j => exact absurd hpq.symm (hmixed q p j lab ho' hl ho)
  | some i =>
    cases ho' : R.ordinalAt q with
    | none => exact absurd hpq (hmixed p q i l' ho hl' ho')
    | some j => exact .inr ⟨i, j, rfl, rfl⟩

theorem WellFormed.exists_glue (hw : h.WellFormed) (hR : R.WellFormed) (hi : R.Idle) {nt : Nonterminal}
    (hlabel : h.view.label x = some (.nonterminal nt)) (hk : nt.rank = R.externalCount)
    (hvar : ∀ p name, R.labelAt p = some (.variable name) → ∀ y, h.view.label y ≠ some (.variable name))
    (hfree : ∀ p i l q y z, R.ordinalAt p = some i → R.Linked p l q → h.view.link x (.tentacle i) y →
      ¬ h.view.link y l z)
    (hclash : ∀ p p' i i' y l q q', R.ordinalAt p = some i → R.ordinalAt p' = some i' → R.Linked p l q →
      R.Linked p' l q' → h.view.link x (.tentacle i) y → h.view.link x (.tentacle i') y → p = p') :
    ∃ h', h.glue x R = .ok h' := by
  have hs := hw.toSound
  have hRs := hR.toSound
  obtain ⟨v, hid, hl⟩ := hs.view_label.mp hlabel
  obtain ⟨targets, bare, hlen, ht, hr, heq⟩ := hw.glue_eq hid hl hk
  have hc := hr.copied hs hR hi hl hlen ht
  have hnofree (name : Bytes) (hm : Label.variable name ∈ innerLabels R.elements) :
      (bare.variableSlot? name).isSome = false := by
    obtain ⟨p, hp, -⟩ := (mem_innerLabels hi).mp hm
    exact (hr.variableSlot?_eq_none hs hl).mpr (hvar p name hp)
  have hrange (e : Element) (he : e ∈ R.elements) (i : Nat) (ho : e.ordinal = some i) : i < targets.length := by
    obtain ⟨p, hp⟩ := List.mem_iff_getElem?.mp he
    exact hlen ▸ hRs.exists_ordinal.mp ⟨p, by simp [ordinalAt, hp, ho]⟩
  obtain ⟨⟨grown, copies⟩, hce⟩ := copyElements_eq [] hrange hnofree (hR.innerLabels_pairwise hi)
  obtain ⟨rfl, hcopies, -⟩ := copyElements_ok hce
  rw [List.nil_append] at hcopies
  subst hcopies
  -- the node that an outer element is copied to, as the tentacle shows it
  have htentacle (p i : Nat) (ho : R.ordinalAt p = some i) : ∃ y,
      h.idOf (copySlot targets bare.elements.length R p) = some y ∧ h.view.link x (.tentacle i) y := by
    have hlk := (ht i _).mp (hc.outer_slot ho).1
    obtain ⟨y, hy⟩ := hs.idOf_target hlk
    exact ⟨y, hy, v, _, hid, hy, hlk⟩
  rw [heq, hce]
  refine copyLinks_eq (fun k hk => ?_) (hRs.links_pairwise.imp_of_mem ?_)
  · obtain ⟨p, q, l⟩ := k
    have hlk := mem_links.mp hk
    obtain ⟨lab, hlp⟩ := hRs.labelAt_of_joined hlk.joined
    obtain ⟨type, hlq⟩ := hRs.ends p q hlk.joined
    obtain ⟨lab', hl'⟩ := hc.live_copy hlp
    refine ⟨_, _, getElem?_copySlots hlp, getElem?_copySlots hlq, lt_of_labelAt hl', fun w hwl => ?_⟩
    cases ho : R.ordinalAt p with
    | none => exact hc.not_linked_inner hlp ho hwl
    | some i =>
      obtain ⟨y, hy, hlink⟩ := htentacle p i ho
      have hwl' := ((hr.linked _ _ _).mp (linked_addAll.mp hwl)).1
      obtain ⟨z, hz⟩ := hs.idOf_target hwl'
      exact hfree p i l q y z ho hlk hlink ⟨_, _, hy, hz, hwl'⟩
  · rintro ⟨p, q, l⟩ ⟨p', q', l'⟩ hm hm' hne ⟨hpp, hll⟩
    obtain rfl : l = l' := hll
    have hlk := mem_links.mp hm
    have hlk' := mem_links.mp hm'
    obtain ⟨lab, hlp⟩ := hRs.labelAt_of_joined hlk.joined
    obtain ⟨lab', hlp'⟩ := hRs.labelAt_of_joined hlk'.joined
    refine hne ⟨?_, rfl⟩
    rcases hc.eq_of_copySlot hlp hlp' hpp with hpp' | ⟨i, j, ho, ho'⟩
    · exact hpp'
    · obtain ⟨y, hy, hlink⟩ := htentacle p i ho
      obtain ⟨y', hy', hlink'⟩ := htentacle p' j ho'
      change copySlot targets bare.elements.length R p = copySlot targets bare.elements.length R p' at hpp
      rw [hpp, hy'] at hy
      obtain rfl := Option.some.inj hy
      exact hclash p p' i j y' l q q' ho ho' hlk hlk' hlink hlink'

end

end Heap

end HeapAbstraction
