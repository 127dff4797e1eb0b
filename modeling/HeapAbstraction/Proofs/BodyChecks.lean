import HeapAbstraction.Proofs.HeapBody

namespace HeapAbstraction

theorem ElementaryEdit.exists_run {h h' : Heap} {e : ElementaryEdit} (he : e.apply h = .ok h') :
    ∃ ids, e.run h = .ok (h', ids) := by
  have hfst : Prod.fst <$> e.run h = e.apply h := by
    cases e <;> simp only [run, apply, Functor.map_map, id_map']
  exact fst_map_ok (hfst.trans he)

namespace Addition

variable {A : HeapState} {a b : Addition} {x y : Nat}

theorem node_of_find (hf : A.find x .node = .ok y) : y = x ∧ ∃ type, A.nodeType x = some type := by
  have hf : A.find (.ofNat x) .node = .ok y := hf
  rw [HeapState.find] at hf
  cases hk : A.kind? x with
  | none => simp [hk] at hf
  | some k =>
    simp only [hk] at hf
    split at hf
    · rename_i hnode
      refine ⟨(Except.ok.inj hf).symm, Option.isSome_iff_exists.mp ?_⟩
      by_contra hno
      rw [HeapState.kind?, if_neg hno] at hk
      split at hk
      · simp [hnode] at hk
      · split at hk <;> simp [hnode] at hk
    · simp at hf

theorem node_of_mapM_find {ys zs : List Nat} (hz : (ys.map Int.ofNat).mapM (fun node => A.find node .node) = .ok zs) :
    zs = ys ∧ ∀ y ∈ ys, ∃ type, A.nodeType y = some type := by
  induction ys generalizing zs with
  | nil =>
    cases hz
    simp
  | cons y ys ih =>
    rw [List.map_cons, List.mapM_cons] at hz
    obtain ⟨z, hf, hrest⟩ := bind_ok hz
    obtain ⟨rfl, hy⟩ := node_of_find hf
    obtain ⟨zs', hzs, hlast⟩ := bind_ok hrest
    cases hlast
    obtain ⟨rfl, hys⟩ := ih hzs
    exact ⟨rfl, List.forall_mem_cons.mpr ⟨hy, hys⟩⟩

theorem of_run {r : HeapState × List Nat} (hr : A.run a.edit = .ok r) : a.Grounded A ∧ a.Free A ∧ r.1 = a.addTo A := by
  cases a with
  | external x =>
    obtain ⟨y, hf, hrest⟩ := bind_ok hr
    obtain ⟨rfl, hx⟩ := node_of_find hf
    split at hrest
    · cases hrest
    · rename_i hfree
      cases hrest
      exact ⟨⟨by simpa [ends] using hx, by simp⟩, hfree, rfl⟩
  | selector x s y =>
    obtain ⟨x', hf, hrest⟩ := bind_ok hr
    obtain ⟨rfl, hx⟩ := node_of_find hf
    obtain ⟨y', hf', hlast⟩ := bind_ok hrest
    obtain ⟨rfl, hy⟩ := node_of_find hf'
    split at hlast
    · rename_i hfree
      cases hlast
      exact ⟨⟨by simpa [ends] using ⟨hx, hy⟩, by simp⟩, hfree, rfl⟩
    · cases hlast
  | hyperedge nt ys =>
    rw [edit, HeapState.run] at hr
    split at hr
    · cases hr
    · rename_i hrank
      obtain ⟨zs, hzs, hrest⟩ := bind_ok hr
      cases hrest
      obtain ⟨rfl, hys⟩ := node_of_mapM_find hzs
      refine ⟨⟨hys, ?_⟩, trivial, rfl⟩
      rintro nt' ys' ⟨⟩
      simpa using (not_not.mp hrank).symm
  | pointer name y =>
    obtain ⟨y', hf, hrest⟩ := bind_ok hr
    obtain ⟨rfl, hy⟩ := node_of_find hf
    split at hrest
    · cases hrest
    · rename_i hfree
      cases hrest
      exact ⟨⟨by simpa [ends] using hy, by simp⟩, fun x z hp => hfree ⟨x, z, hp⟩, rfl⟩

theorem Grounded.of_addTo (hg : b.Grounded (a.addTo A)) : b.Grounded A where
  node := by
    have hnode := hg.node
    rwa [nodeType_addTo] at hnode
  rank := hg.rank

theorem Free.of_addTo (hA : A.Fresh) (hf : b.Free (a.addTo A)) : b.Free A ∧ a.Apart b := by
  cases a with
  | external x =>
    cases b with
    | external y =>
      have hy : y ∉ A.externals ++ [x] := hf
      rw [List.mem_append, List.mem_singleton, not_or] at hy
      exact ⟨hy.1, Ne.symm hy.2⟩
    | _ => exact ⟨hf, trivial⟩
  | selector x s y =>
    cases b with
    | selector x' s' y' =>
      have hfree : Function.update A.selector x (Function.update (A.selector x) s (some y)) x' s' = none := hf
      by_cases hx : x' = x
      · subst hx
        rw [Function.update_self] at hfree
        by_cases hs : s' = s
        · subst hs
          simp at hfree
        · rw [Function.update_of_ne hs] at hfree
          exact ⟨hfree, fun h => hs h.2.symm⟩
      · rw [Function.update_of_ne hx] at hfree
        exact ⟨hfree, fun h => hx h.1.symm⟩
    | _ => exact ⟨hf, trivial⟩
  | hyperedge nt ys =>
    cases b <;> exact ⟨hf, trivial⟩
  | pointer name y =>
    cases b with
    | pointer name' y' =>
      have hfree (x z : Nat) : Function.update A.pointer A.nextId (some (name, y)) x ≠ some (name', z) := hf x z
      refine ⟨fun x z hp => ?_, fun hname => ?_⟩
      · have hx : x ≠ A.nextId := by
          rintro rfl
          exact hA A.nextId (.pointer name' z) (Nat.le_refl _) hp
        have hne := hfree x z
        rw [Function.update_of_ne hx] at hne
        exact hne hp
      · have hne := hfree A.nextId y
        rw [Function.update_self] at hne
        exact hne (by rw [hname])
    | _ => exact ⟨hf, trivial⟩

def selector? : Addition → Option (Nat × Bytes × Nat)
  | .selector x s y => some (x, s, y)
  | _ => none

def hyperedge? : Addition → Option (Nonterminal × List Nat)
  | .hyperedge nt ys => some (nt, ys)
  | _ => none

def pointer? : Addition → Option (Bytes × Nat)
  | .pointer name y => some (name, y)
  | _ => none

theorem pairwise_apart_iff {as : List Addition} : as.Pairwise Apart ↔
    (as.filterMap external?).Nodup ∧ ((as.filterMap selector?).map (fun p => (p.1, p.2.1))).Nodup ∧
      ((as.filterMap pointer?).map Prod.fst).Nodup := by
  have happart (a b : Addition) : a.Apart b ↔ (∀ x, a.external? = some x → ∀ y, b.external? = some y → x ≠ y) ∧
      (∀ x, a.selector? = some x → ∀ y, b.selector? = some y → (x.1, x.2.1) ≠ (y.1, y.2.1)) ∧
        ∀ x, a.pointer? = some x → ∀ y, b.pointer? = some y → x.1 ≠ y.1 := by
    cases a <;> cases b <;> simp [Apart, external?, selector?, pointer?]
  refine (List.Pairwise.iff happart).trans ?_
  simp only [List.Nodup, List.pairwise_map, List.pairwise_filterMap, ← List.pairwise_and_iff]

end Addition

theorem Heap.WellFormed.of_additions {h h' : Heap} (hw : h.WellFormed) (hA : h.state.Fresh) {as : List Addition}
    (hc : as.foldlM (fun h a => a.edit.apply h) h = .ok h') :
    (∀ a ∈ as, a.Grounded h.state ∧ a.Free h.state) ∧ as.Pairwise Addition.Apart := by
  induction as generalizing h with
  | nil => simp
  | cons a as ih =>
    rw [List.foldlM_cons] at hc
    obtain ⟨h₁, hstep, hrest⟩ := bind_ok hc
    obtain ⟨ids, hrun⟩ := ElementaryEdit.exists_run hstep
    have hsquare := hw.state_run a.edit
    rw [hrun] at hsquare
    obtain ⟨hg, hf, hst⟩ := Addition.of_run hsquare.symm
    have hst : h₁.state = a.addTo h.state := hst
    obtain ⟨hall, hapart⟩ := ih (hw.apply hstep) (hst ▸ HeapState.fresh_addTo hA) hrest
    rw [hst] at hall
    refine ⟨List.forall_mem_cons.mpr ⟨⟨hg, hf⟩, fun b hb => ⟨(hall b hb).1.of_addTo, ?_⟩⟩, ?_⟩
    · exact ((hall b hb).2.of_addTo hA).1
    · exact List.pairwise_cons.mpr ⟨fun b hb => ((hall b hb).2.of_addTo hA).2, hapart⟩

namespace HeapFile

namespace HeapDef

variable {d d' : HeapDef} {ranks : List (Bytes × Int)} {body : List Statement}

theorem node_ok {x : Bytes} {i : Int} (hn : d.node x = .ok i) : ∃ id, d.names.lookup x = some id := by
  rw [node] at hn
  split at hn
  · rename_i id hx
    exact ⟨id, hx⟩
  · cases hn

theorem setExternals_ok {names : List Bytes} (hd : d.setExternals names = .ok d') :
    (∀ x ∈ names, ∃ id, d.names.lookup x = some id) ∧ d'.names = d.names := by
  induction names generalizing d with
  | nil =>
    cases hd
    simp
  | cons x names ih =>
    obtain ⟨i, hn, hd⟩ := bind_ok hd
    obtain ⟨d₁, he, hd⟩ := bind_ok hd
    obtain ⟨hall, hnames⟩ := ih hd
    rw [names_edited he] at hall hnames
    exact ⟨List.forall_mem_cons.mpr ⟨node_ok hn, hall⟩, hnames⟩

theorem perform_ok {s : Statement} (hd : d.perform ranks s = .ok d') :
    (∀ x ∈ s.uses, ∃ id, d.names.lookup x = some id) ∧
      (∀ label tentacles, s = .hyperedge label tentacles → startsWithDigit label = false) ∧ d'.names = d.names := by
  cases s with
  | nodes names type =>
    cases hd
    simp [Statement.uses]
  | ext names =>
    obtain ⟨hall, hnames⟩ := setExternals_ok hd
    exact ⟨hall, by simp, hnames⟩
  | selector source f target =>
    obtain ⟨s, hs, hd⟩ := bind_ok hd
    obtain ⟨t, ht, hd⟩ := bind_ok hd
    exact ⟨by simpa [Statement.uses] using ⟨node_ok hs, node_ok ht⟩, by simp, names_edited hd⟩
  | «variable» name target =>
    obtain ⟨t, ht, hd⟩ := bind_ok hd
    exact ⟨by simpa [Statement.uses] using node_ok ht, by simp, names_edited hd⟩
  | hyperedge label tentacles =>
    rw [perform] at hd
    split at hd
    · cases hd
    · rename_i hlabel
      obtain ⟨ts, hts, hd⟩ := bind_ok hd
      refine ⟨fun x hx => ?_, ?_, names_edited hd⟩
      · obtain ⟨i, -, hi⟩ := exists_of_mem_forall₂ (Heap.mapM_ok hts).flip hx
        exact node_ok hi
      · rintro label' tentacles' ⟨⟩
        simpa using hlabel

theorem performAll_ok (hd : performAll ranks d body = .ok d') :
    (∀ s ∈ body, ∀ x ∈ s.uses, ∃ id, d.names.lookup x = some id) ∧
      ∀ label tentacles, .hyperedge label tentacles ∈ body → startsWithDigit label = false := by
  induction body generalizing d with
  | nil => simp
  | cons s body ih =>
    obtain ⟨d₁, hs, hd⟩ := bind_ok hd
    obtain ⟨huses, hlabel, hnames⟩ := perform_ok hs
    obtain ⟨hall, hlabels⟩ := ih hd
    rw [hnames] at hall
    refine ⟨List.forall_mem_cons.mpr ⟨huses, hall⟩, fun label tentacles hm => ?_⟩
    rcases List.mem_cons.mp hm with h | hm
    · exact hlabel label tentacles h.symm
    · exact hlabels label tentacles hm

theorem nameNodes_ok {ps : List (Bytes × Nat)} (hd : d.nameNodes ps = .ok d') :
    (∀ p ∈ ps, d.names.lookup p.1 = none) ∧ (ps.map Prod.fst).Nodup := by
  induction ps generalizing d with
  | nil => simp
  | cons p ps ih =>
    obtain ⟨x, i⟩ := p
    rw [nameNodes] at hd
    split at hd
    · cases hd
    · rename_i hx
      obtain ⟨hall, hn⟩ := ih hd
      have hnew (q : Bytes × Nat) (hq : q ∈ ps) : d.names.lookup q.1 = none ∧ q.1 ≠ x := by
        have hq := hall q hq
        rw [List.lookup_append, Option.or_eq_none_iff, lookup_cons_ite] at hq
        refine ⟨hq.1, fun hqx => ?_⟩
        simp [hqx] at hq
      refine ⟨List.forall_mem_cons.mpr ⟨Option.not_isSome_iff_eq_none.mp hx, fun q hq => (hnew q hq).1⟩, ?_⟩
      rw [List.map_cons, List.nodup_cons]
      refine ⟨fun hm => ?_, hn⟩
      obtain ⟨q, hq, hqx⟩ := List.mem_map.mp hm
      exact (hnew q hq).2 hqx

theorem addNodes_ok {h : Heap} {type : Bytes} {count : Int} {r : Heap × List Nat}
    (ha : h.addNodes type count = .ok r) : count ≤ Heap.requestLimit := by
  rw [Heap.addNodes] at ha
  split at ha
  · cases ha
  · rename_i hc
    simp only [Bool.or_eq_true, decide_eq_true_eq, not_or] at hc
    omega

theorem Declares.of_declareNodes {nodes : List (Bytes × Bytes)} (hd : d.Declares nodes) (hn : (nodes.map Prod.fst).Nodup)
    (hr : d.declareNodes body = .ok d') : ((nodes ++ body.flatMap Statement.declared).map Prod.fst).Nodup ∧
      ∀ names type, .nodes names type ∈ body → (names.length : Int) ≤ Heap.requestLimit := by
  induction body generalizing d nodes with
  | nil => exact ⟨by simpa using hn, by simp⟩
  | cons s body ih =>
    cases s with
    | nodes names type =>
      rw [HeapDef.declareNodes] at hr
      split at hr
      · cases hr
      · rename_i h ids ha
        obtain ⟨d₁, hname, hrest⟩ := bind_ok hr
        have hc := addNodes_ok ha
        obtain ⟨h', -, ha', -⟩ := hd.addNodes type hc
        rw [ha, Except.ok.injEq, Prod.mk.injEq] at ha'
        obtain ⟨rfl, rfl⟩ := ha'
        obtain ⟨hnew, hnames⟩ := nameNodes_ok hname
        have hzip : (names.zip (List.range' nodes.length names.length)).map Prod.fst = names :=
          List.map_fst_zip (by simp)
        rw [hzip] at hnames
        have hfirst : (nodes.map Prod.fst ++ names).Nodup := by
          refine List.nodup_append.mpr ⟨hn, hnames, ?_⟩
          rintro x hx _ hx' rfl
          rw [← hzip] at hx'
          obtain ⟨p, hp, rfl⟩ := List.mem_map.mp hx'
          have hnone := hnew p hp
          rw [hd.names, lookup_zipIdx, if_pos hx] at hnone
          cases hnone
        obtain ⟨h', d₂, ha', hname', hd₂⟩ := hd.nameNodes type hc hfirst
        rw [ha, Except.ok.injEq, Prod.mk.injEq] at ha'
        obtain ⟨rfl, -⟩ := ha'
        obtain rfl := Except.ok.inj (hname.symm.trans hname')
        have hn₂ : ((nodes ++ (Statement.nodes names type).declared).map Prod.fst).Nodup := by
          simpa [Statement.declared, Function.comp_def] using hfirst
        obtain ⟨hall, hcs⟩ := ih hd₂ hn₂ hrest
        refine ⟨by rwa [List.flatMap_cons, ← List.append_assoc], fun names' type' hm => ?_⟩
        rcases List.mem_cons.mp hm with h | hm
        · cases h
          exact hc
        · exact hcs names' type' hm
    | _ =>
      obtain ⟨hall, hcs⟩ := ih hd hn hr
      exact ⟨hall, by simpa using hcs⟩

end HeapDef

variable {ranks : List (Bytes × Int)} {body : List Statement}

theorem acceptable_of_ofBody {d : HeapDef} (hd : HeapDef.ofBody ranks body = .ok d) : Acceptable ranks body := by
  obtain ⟨d₁, hdecl, hd⟩ := bind_ok hd
  obtain ⟨d₂, hperform, -⟩ := bind_ok hd
  have hstart : HeapDef.Declares {} [] := ⟨Heap.wellFormed_empty, state_empty, rfl⟩
  obtain ⟨hn, hc⟩ := hstart.of_declareNodes List.nodup_nil hdecl
  obtain ⟨d', hdecl', hd₁⟩ := hstart.declareNodes hn hc
  obtain rfl := Except.ok.inj (hdecl.symm.trans hdecl')
  rw [List.nil_append] at hn hd₁
  obtain ⟨huses, hlabels⟩ := HeapDef.performAll_ok hperform
  have hused : ∀ s ∈ body, ∀ x ∈ s.uses, x ∈ (declaredNodes body).map Prod.fst := by
    intro s hs x hx
    obtain ⟨id, hid⟩ := huses s hs x hx
    rw [hd₁.names, lookup_zipIdx] at hid
    by_contra hno
    cases (if_neg hno).symm.trans hid
  have hlookup : ∀ s ∈ body, ∀ x ∈ s.uses, d₁.names.lookup x = some (idIn body x) := by
    intro s hs x hx
    rw [hd₁.names, lookup_zipIdx]
    exact if_pos (hused s hs x hx)
  rw [HeapDef.performAll_eq hlookup hlabels] at hperform
  have hcarry := HeapDef.edited_ok hperform
  have hfresh : d₁.heap.state.Fresh := hd₁.state ▸ fresh_ofTypes _
  obtain ⟨hall, hapart⟩ := hd₁.wellFormed.of_additions hfresh hcarry
  refine ⟨hn, hc, hused, fun label tentacles hm => ⟨hlabels label tentacles hm, ?_⟩, hapart⟩
  have hadd : .hyperedge ⟨label, (ranks.lookup label).getD tentacles.length⟩ (tentacles.map (idIn body)) ∈
      bodyAdditions ranks body := List.mem_flatMap.mpr ⟨_, hm, List.mem_singleton_self _⟩
  simpa using (hall _ hadd).1.rank _ _ rfl

theorem exists_ofBody_iff : (∃ d, HeapDef.ofBody ranks body = .ok d) ↔ Acceptable ranks body := by
  constructor
  · rintro ⟨d, hd⟩
    exact acceptable_of_ofBody hd
  · intro ha
    obtain ⟨d, hd, -⟩ := ha.ofBody
    exact ⟨d, hd⟩

namespace Statement

def externals : Statement → List Bytes
  | .ext names => names
  | _ => []

def selector? : Statement → Option (Bytes × Bytes × Bytes)
  | .selector source s target => some (source, s, target)
  | _ => none

def pointer? : Statement → Option (Bytes × Bytes)
  | .variable name target => some (name, target)
  | _ => none

def hyperedge? : Statement → Option (Bytes × List Bytes)
  | .hyperedge label tentacles => some (label, tentacles)
  | _ => none

theorem hyperedge_mem {p : Bytes × List Bytes} (hp : p ∈ body.filterMap hyperedge?) : .hyperedge p.1 p.2 ∈ body := by
  obtain ⟨s, hs, hp⟩ := List.mem_filterMap.mp hp
  cases s <;> cases hp
  exact hs

end Statement

-- what a body may say: every node is declared once, somewhere, nothing has its place twice, and hyperedges have a
-- label and, where the label has a rank, that many tentacles
structure Consistent (ranks : List (Bytes × Int)) (body : List Statement) : Prop where
  declared_once : ((declaredNodes body).map Prod.fst).Nodup
  declared : ∀ s ∈ body, ∀ x ∈ s.uses, x ∈ (declaredNodes body).map Prod.fst
  external_once : (body.flatMap Statement.externals).Nodup
  selector_once : ((body.filterMap Statement.selector?).map (fun p => (p.1, p.2.1))).Nodup
  pointer_once : ((body.filterMap Statement.pointer?).map Prod.fst).Nodup
  label : ∀ p ∈ body.filterMap Statement.hyperedge?, HeapDef.startsWithDigit p.1 = false
  rank : ∀ p ∈ body.filterMap Statement.hyperedge?, ∀ r ∈ ranks.lookup p.1, r = p.2.length

def Feasible (body : List Statement) : Prop := ∀ s ∈ body, (s.declared.length : Int) ≤ Heap.requestLimit

theorem feasible_iff :
    Feasible body ↔ ∀ names type, .nodes names type ∈ body → (names.length : Int) ≤ Heap.requestLimit := by
  constructor
  · intro hf names type hm
    simpa [Statement.declared] using hf _ hm
  · intro hc s hs
    cases s with
    | nodes names type => simpa [Statement.declared] using hc names type hs
    | _ => exact (by decide : (0 : Int) ≤ Heap.requestLimit)

theorem filterMap_bodyAdditions {α : Type} {f : Addition → Option α} {g : Statement → List α}
    (hg : ∀ s, (s.additions ranks (idIn body)).filterMap f = g s) :
    (bodyAdditions ranks body).filterMap f = body.flatMap g := by
  rw [bodyAdditions, List.filterMap_flatMap]
  exact List.flatMap_congr fun s _ => hg s

theorem external_bodyAdditions : (bodyAdditions ranks body).filterMap Addition.external? =
    (body.flatMap Statement.externals).map (idIn body) := by
  rw [List.map_flatMap]
  refine filterMap_bodyAdditions fun s => ?_
  cases s <;> simp [Statement.additions, Statement.externals, Addition.external?, List.filterMap_map, Function.comp_def]

theorem selector_bodyAdditions : (bodyAdditions ranks body).filterMap Addition.selector? =
    (body.filterMap Statement.selector?).map (fun p => (idIn body p.1, p.2.1, idIn body p.2.2)) := by
  rw [List.map_filterMap, List.filterMap_eq_flatMap_toList _ body]
  refine filterMap_bodyAdditions fun s => ?_
  cases s <;> simp [Statement.additions, Statement.selector?, Addition.selector?, List.filterMap_map, Function.comp_def]

theorem hyperedge_bodyAdditions : (bodyAdditions ranks body).filterMap Addition.hyperedge? =
    (body.filterMap Statement.hyperedge?).map
      (fun p => (⟨p.1, (ranks.lookup p.1).getD p.2.length⟩, p.2.map (idIn body))) := by
  rw [List.map_filterMap, List.filterMap_eq_flatMap_toList _ body]
  refine filterMap_bodyAdditions fun s => ?_
  cases s <;> simp [Statement.additions, Statement.hyperedge?, Addition.hyperedge?, List.filterMap_map, Function.comp_def]

theorem pointer_bodyAdditions : (bodyAdditions ranks body).filterMap Addition.pointer? =
    (body.filterMap Statement.pointer?).map (fun p => (p.1, idIn body p.2)) := by
  rw [List.map_filterMap, List.filterMap_eq_flatMap_toList _ body]
  refine filterMap_bodyAdditions fun s => ?_
  cases s <;> simp [Statement.additions, Statement.pointer?, Addition.pointer?, List.filterMap_map, Function.comp_def]

theorem idIn_inj {x y : Bytes} (hx : x ∈ (declaredNodes body).map Prod.fst) (h : idIn body x = idIn body y) : x = y :=
  (List.idxOf_inj hx).mp h

theorem apart_bodyAdditions_iff (hd : ∀ s ∈ body, ∀ x ∈ s.uses, x ∈ (declaredNodes body).map Prod.fst) :
    (bodyAdditions ranks body).Pairwise Addition.Apart ↔ (body.flatMap Statement.externals).Nodup ∧
      ((body.filterMap Statement.selector?).map (fun p => (p.1, p.2.1))).Nodup ∧
        ((body.filterMap Statement.pointer?).map Prod.fst).Nodup := by
  have hexternals : ((body.flatMap Statement.externals).map (idIn body)).Nodup ↔
      (body.flatMap Statement.externals).Nodup := by
    refine ⟨List.Nodup.of_map _, fun hn => hn.map_on fun x hx y _ hxy => ?_⟩
    obtain ⟨s, hs, hx⟩ := List.mem_flatMap.mp hx
    refine idIn_inj (hd s hs x ?_) hxy
    cases s with
    | ext names => exact hx
    | _ => cases hx
  have hselectors : (((body.filterMap Statement.selector?).map (fun p => (p.1, p.2.1))).map
      (fun p => (idIn body p.1, p.2))).Nodup ↔
        ((body.filterMap Statement.selector?).map (fun p => (p.1, p.2.1))).Nodup := by
    refine ⟨List.Nodup.of_map _, fun hn => hn.map_on fun p hp q _ hpq => ?_⟩
    obtain ⟨r, hr, rfl⟩ := List.mem_map.mp hp
    obtain ⟨s, hs, hr⟩ := List.mem_filterMap.mp hr
    obtain ⟨hfst, hsnd⟩ := Prod.mk.inj hpq
    refine Prod.ext (idIn_inj (hd s hs _ ?_) hfst) hsnd
    cases s <;> cases hr
    exact List.mem_cons_self
  rw [Addition.pairwise_apart_iff, external_bodyAdditions, selector_bodyAdditions, pointer_bodyAdditions, hexternals,
    ← hselectors]
  simp only [List.map_map, Function.comp_def]

theorem acceptable_iff : Acceptable ranks body ↔ Consistent ranks body ∧ Feasible body := by
  constructor
  · intro ha
    obtain ⟨he, hs, hp⟩ := (apart_bodyAdditions_iff ha.used).mp ha.apart
    refine ⟨⟨ha.declared_once, ha.used, he, hs, hp, fun p hp => (ha.label _ _ (Statement.hyperedge_mem hp)).1,
      fun p hp r hr => ?_⟩, feasible_iff.mpr ha.count⟩
    have hrank := (ha.label _ _ (Statement.hyperedge_mem hp)).2
    rwa [Option.mem_def.mp hr] at hrank
  · rintro ⟨hc, hf⟩
    refine ⟨hc.declared_once, feasible_iff.mp hf, hc.declared, fun label tentacles hm => ?_,
      (apart_bodyAdditions_iff hc.declared).mpr ⟨hc.external_once, hc.selector_once, hc.pointer_once⟩⟩
    have hedge : (label, tentacles) ∈ body.filterMap Statement.hyperedge? := List.mem_filterMap.mpr ⟨_, hm, rfl⟩
    refine ⟨hc.label _ hedge, ?_⟩
    cases hr : ranks.lookup label with
    | none => rfl
    | some r => exact hc.rank _ hedge r hr

end HeapFile

end HeapAbstraction
