import HeapAbstraction.Proofs.Edit
import HeapAbstraction.Proofs.Varint
import HeapAbstraction.Encoding.Decode

namespace HeapAbstraction.Encoding

theorem eq_of_pairwise {α : Type} {R : α → α → Prop} {as : List α} {a b : α} {v w : Nat} (hp : as.Pairwise R)
    (hsymm : ∀ a b, R a b → R b a) (hv : as[v]? = some a) (hw : as[w]? = some b) (hn : ¬ R a b) : v = w := by
  obtain ⟨hlv, rfl⟩ := List.getElem?_eq_some_iff.mp hv
  obtain ⟨hlw, rfl⟩ := List.getElem?_eq_some_iff.mp hw
  rcases Nat.lt_trichotomy v w with hlt | heq | hlt
  · exact absurd (List.pairwise_iff_getElem.mp hp v w hlv hlw hlt) hn
  · exact heq
  · exact absurd (hsymm _ _ (List.pairwise_iff_getElem.mp hp w v hlw hlv hlt)) hn

variable {es done : List RawElement} {e : RawElement} {v ids n limit : Nat} {bs rest : Bytes}

theorem getNat_le {x : Nat} (h : getNat limit bs = .ok (x, rest)) : x ≤ limit := by
  rw [getNat] at h
  split at h
  · simp at h
  · split at h
    · simp at h
    · rename_i hlt
      simp only [Except.ok.injEq, Prod.mk.injEq] at h
      omega

theorem getElement_id_le {elements : Nat} (h : getElement ids elements bs = .ok (e, rest)) : e.id ≤ ids - 1 := by
  obtain ⟨⟨kind, bs⟩, -, h⟩ := bind_ok h
  obtain ⟨⟨name, bs⟩, -, h⟩ := bind_ok h
  obtain ⟨⟨rank, bs⟩, -, h⟩ := bind_ok h
  obtain ⟨⟨ordinal, bs⟩, -, h⟩ := bind_ok h
  obtain ⟨⟨id, bs⟩, hid, h⟩ := bind_ok h
  obtain ⟨⟨count, bs⟩, -, h⟩ := bind_ok h
  obtain ⟨⟨arcs, bs⟩, -, h⟩ := bind_ok h
  cases h
  exact getNat_le hid

def lengthBound : Nat := 0x8000000000000000

theorem getString_length {s : Bytes} (h : getString bs = .ok (s, rest)) : s.length < lengthBound := by
  rw [getString] at h
  split at h
  · simp at h
  · rename_i r hr
    cases h
    exact Varint.readString_length hr

theorem getList_ok {α : Type} {get : Reader α} {as : List α} {Q : α → Prop} (h : getList get n bs = .ok (as, rest))
    (hget : ∀ bs a rest, get bs = .ok (a, rest) → Q a) : as.length = n ∧ ∀ a ∈ as, Q a := by
  induction n generalizing as bs with
  | zero =>
    simp only [getList, Except.ok.injEq, Prod.mk.injEq] at h
    obtain ⟨rfl, -⟩ := h
    simp
  | succ n ih =>
    obtain ⟨⟨a, bs⟩, ha, h⟩ := bind_ok h
    obtain ⟨⟨as, bs⟩, has, h⟩ := bind_ok h
    cases h
    obtain ⟨hlen, hall⟩ := ih has
    exact ⟨congrArg (· + 1) hlen, List.forall_mem_cons.mpr ⟨hget _ _ _ ha, hall⟩⟩

structure RawElement.Bounded (e : RawElement) : Prop where
  name : e.name.length < lengthBound
  rank : e.rank ≤ maxSmall
  labels : ∀ a ∈ e.arcs, a.labels.length ≤ maxSmall
  selector : ∀ a ∈ e.arcs, ∀ l ∈ a.labels, l.selector.length < lengthBound

theorem getLabel_ok {l : RawLabel} (h : getLabel bs = .ok (l, rest)) : l.selector.length < lengthBound := by
  obtain ⟨⟨selector, bs⟩, hs, h⟩ := bind_ok h
  obtain ⟨⟨tentacle, bs⟩, -, h⟩ := bind_ok h
  cases h
  exact getString_length hs

theorem getArc_ok {elements : Nat} {a : RawArc} (h : getArc elements bs = .ok (a, rest)) :
    a.labels.length ≤ maxSmall ∧ ∀ l ∈ a.labels, l.selector.length < lengthBound := by
  obtain ⟨⟨target, bs⟩, -, h⟩ := bind_ok h
  obtain ⟨⟨count, bs⟩, hcount, h⟩ := bind_ok h
  obtain ⟨⟨labels, bs⟩, hlabels, h⟩ := bind_ok h
  cases h
  obtain ⟨hlen, hall⟩ := getList_ok hlabels fun _ _ _ => getLabel_ok
  exact ⟨hlen ▸ getNat_le hcount, hall⟩

theorem getElement_bounded {elements : Nat} (h : getElement ids elements bs = .ok (e, rest)) : e.Bounded := by
  obtain ⟨⟨kind, bs⟩, -, h⟩ := bind_ok h
  obtain ⟨⟨name, bs⟩, hname, h⟩ := bind_ok h
  obtain ⟨⟨rank, bs⟩, hrank, h⟩ := bind_ok h
  obtain ⟨⟨ordinal, bs⟩, -, h⟩ := bind_ok h
  obtain ⟨⟨id, bs⟩, -, h⟩ := bind_ok h
  obtain ⟨⟨count, bs⟩, -, h⟩ := bind_ok h
  obtain ⟨⟨arcs, bs⟩, harcs, h⟩ := bind_ok h
  cases h
  have hall := (getList_ok harcs fun _ _ _ => getArc_ok).2
  exact ⟨getString_length hname, getNat_le hrank, fun a ha => (hall a ha).1, fun a ha => (hall a ha).2⟩

structure Distinct (ids : Nat) (es : List RawElement) : Prop where
  bounded : ∀ e ∈ es, e.Bounded
  id_lt : ∀ e ∈ es, e.id < ids
  ids : (es.map RawElement.id).Nodup
  ordinals : (es.filterMap RawElement.ordinal).Nodup

theorem Distinct.concat (hd : Distinct ids done) (hb : e.Bounded) (hid : e.id < ids) (hne : ∀ d ∈ done, d.id ≠ e.id)
    (ho : ∀ i, e.ordinal = some i → ∀ d ∈ done, d.ordinal ≠ some i) : Distinct ids (done ++ [e]) := by
  refine ⟨fun d hdm => ?_, fun d hdm => ?_, ?_, ?_⟩
  · rcases List.mem_append.mp hdm with hdm | hdm
    · exact hd.bounded d hdm
    · rw [List.mem_singleton.mp hdm]
      exact hb
  · rcases List.mem_append.mp hdm with hdm | hdm
    · exact hd.id_lt d hdm
    · rw [List.mem_singleton.mp hdm]
      exact hid
  · rw [List.map_append, List.nodup_append]
    refine ⟨hd.ids, by simp, fun x hx y hy => ?_⟩
    obtain ⟨d, hdm, rfl⟩ := List.mem_map.mp hx
    rw [List.map_singleton, List.mem_singleton] at hy
    exact hy ▸ hne d hdm
  · rw [List.filterMap_append, List.nodup_append]
    refine ⟨hd.ordinals, ?_, fun i hi j hj => ?_⟩
    · cases h : e.ordinal <;> simp [h]
    · obtain ⟨d, hdm, hi⟩ := List.mem_filterMap.mp hi
      obtain ⟨d', hd', hj⟩ := List.mem_filterMap.mp hj
      rw [List.mem_singleton.mp hd'] at hj
      rintro rfl
      exact ho i hj d hdm hi

theorem getElements_distinct {elements : Nat} (hn : n ≤ ids) (hd : Distinct ids done)
    (h : getElements ids elements n done bs = .ok (es, rest)) : Distinct ids es := by
  induction n generalizing done bs with
  | zero =>
    simp only [getElements, Except.ok.injEq, Prod.mk.injEq] at h
    exact h.1 ▸ hd
  | succ n ih =>
    obtain ⟨⟨e, bs⟩, he, h⟩ := bind_ok h
    have hb := getElement_bounded he
    have hid : e.id < ids := by
      have := getElement_id_le he
      omega
    simp only at h
    split at h
    · simp at h
    · rename_i hany
      have hne : ∀ d ∈ done, d.id ≠ e.id := by simpa using hany
      split at h
      · rename_i i ho
        split at h
        · simp at h
        · rename_i hany'
          have hne' : ∀ d ∈ done, d.ordinal ≠ some i := by simpa using hany'
          exact ih (by omega) (hd.concat hb hid hne fun j hj => by rw [ho] at hj; exact Option.some.inj hj ▸ hne') h
      · rename_i ho
        exact ih (by omega) (hd.concat hb hid hne (by simp [ho])) h

theorem Distinct.exists_ordinal (hd : Distinct ids es) (hc : ordinalsContiguous es = true) {i j : Nat}
    (hi : i ∈ es.filterMap RawElement.ordinal) (hj : j < i) : j ∈ es.filterMap RawElement.ordinal := by
  have hlen : (es.filterMap RawElement.ordinal).length = es.countP (fun e => e.ordinal.isSome) :=
    List.length_filterMap_eq_countP
  have hlt (k : Nat) (hk : k ∈ es.filterMap RawElement.ordinal) : k < (es.filterMap RawElement.ordinal).length := by
    obtain ⟨e, he, hk⟩ := List.mem_filterMap.mp hk
    have hall := List.all_eq_true.mp hc e he
    rw [hk] at hall
    rw [hlen]
    simpa using hall
  -- as many different numbers below their count are all the numbers below it
  have hsub : (es.filterMap RawElement.ordinal).Subperm (List.range (es.filterMap RawElement.ordinal).length) :=
    hd.ordinals.subperm fun k hk => List.mem_range.mpr (hlt k hk)
  have hperm := hsub.perm_of_length_le (by simp)
  exact hperm.mem_iff.mpr (List.mem_range.mpr (hj.trans (hlt i hi)))

namespace RawElement

def arcsOf (as : List RawArc) : List Arc := as.map (fun a => ⟨a.target, a.labels.map edgeLabel⟩)

def Seen (selectors : List Bytes) (tentacles : List Nat) : EdgeLabel → Prop
  | .selector s => s ∈ selectors
  | .tentacle i => i ∈ tentacles

def Admits (e : RawElement) : EdgeLabel → Prop
  | .selector s => e.kind = 1 ∧ s ≠ []
  | .tentacle i => i < e.tentacleCount

variable {selectors selectors' : List Bytes} {tentacles tentacles' targets taken : List Nat}

theorem checkLabels_ok {labels : List RawLabel}
    (h : checkLabels e v selectors tentacles labels = .ok (selectors', tentacles')) :
    (labels.map edgeLabel).Nodup ∧
      (∀ l ∈ labels.map edgeLabel, ¬ Seen selectors tentacles l ∧ e.Admits l) ∧
      ∀ l, Seen selectors' tentacles' l ↔ Seen selectors tentacles l ∨ l ∈ labels.map edgeLabel := by
  induction labels generalizing selectors tentacles with
  | nil =>
    simp only [checkLabels, Except.ok.injEq, Prod.mk.injEq] at h
    obtain ⟨rfl, rfl⟩ := h
    simp
  | cons l labels ih =>
    -- one label that was not met before is met from now on
    have hstep {ss : List Bytes} {ts : List Nat} (hnew : ¬ Seen selectors tentacles (edgeLabel l))
        (had : e.Admits (edgeLabel l)) (hseen : ∀ k, Seen ss ts k ↔ Seen selectors tentacles k ∨ k = edgeLabel l)
        (h : checkLabels e v ss ts labels = .ok (selectors', tentacles')) :
        ((l :: labels).map edgeLabel).Nodup ∧
          (∀ k ∈ (l :: labels).map edgeLabel, ¬ Seen selectors tentacles k ∧ e.Admits k) ∧
          ∀ k, Seen selectors' tentacles' k ↔ Seen selectors tentacles k ∨ k ∈ (l :: labels).map edgeLabel := by
      obtain ⟨hnodup, hall, hiff⟩ := ih h
      refine ⟨List.nodup_cons.mpr ⟨fun hmem => (hall _ hmem).1 ((hseen _).mpr (Or.inr rfl)), hnodup⟩,
        fun k hk => ?_, fun k => ?_⟩
      · rcases List.mem_cons.mp hk with rfl | hk
        · exact ⟨hnew, had⟩
        · exact ⟨fun hs => (hall k hk).1 ((hseen k).mpr (Or.inl hs)), (hall k hk).2⟩
      · rw [hiff, hseen, List.map_cons, List.mem_cons, or_assoc]
    rw [checkLabels] at h
    cases hl : l.tentacle with
    | none =>
      have hlab : edgeLabel l = .selector l.selector := by simp [edgeLabel, hl]
      simp only [hl] at h
      split at h
      · simp at h
      · rename_i hkind
        split at h
        · simp at h
        · rename_i hmem
          simp only [not_or, not_not] at hkind
          refine hstep ?_ ?_ (fun k => ?_) h
          · rw [hlab]
            simpa [Seen] using hmem
          · rw [hlab]
            exact ⟨hkind.1, by simpa using hkind.2⟩
          · cases k <;> simp [Seen, hlab, or_comm]
    | some i =>
      have hlab : edgeLabel l = .tentacle i := by simp [edgeLabel, hl]
      simp only [hl] at h
      split at h
      · simp at h
      · rename_i hbad
        simp only [not_or, not_le] at hbad
        refine hstep ?_ ?_ (fun k => ?_) h
        · rw [hlab]
          simpa [Seen] using hbad.2.2
        · rw [hlab]
          exact hbad.2.1
        · cases k <;> simp [Seen, hlab, or_comm]

theorem checkArcs_ok {as : List RawArc} (h : checkArcs es e v targets selectors tentacles as = .ok tentacles') :
    Arc.Tidy (arcsOf as) ∧
      (∀ t, Arc.Reaches (arcsOf as) t → t ∉ targets ∧ kindAt es t = 1) ∧
      (∀ l t, Arc.Carries (arcsOf as) l t → ¬ Seen selectors tentacles l ∧ e.Admits l) ∧
      ∀ i, i ∈ tentacles' ↔ i ∈ tentacles ∨ ∃ t, Arc.Carries (arcsOf as) (.tentacle i) t := by
  induction as generalizing targets selectors tentacles with
  | nil =>
    simp only [checkArcs, Except.ok.injEq] at h
    subst h
    simp [arcsOf, Arc.Tidy.nil]
  | cons a as ih =>
    rw [checkArcs] at h
    split at h
    · simp at h
    · rename_i htarget
      split at h
      · simp at h
      · rename_i hbare
        split at h
        · simp at h
        · rename_i hkind
          obtain ⟨⟨ss, ts⟩, hlabels, h⟩ := bind_ok h
          obtain ⟨hnodup, hall, hseen⟩ := checkLabels_ok hlabels
          obtain ⟨htidy, hreach, hcarry, htent⟩ := ih h
          have hcons : arcsOf (a :: as) = ⟨a.target, a.labels.map edgeLabel⟩ :: arcsOf as := rfl
          have hne : a.labels.map edgeLabel ≠ [] := by
            simpa using hbare
          rw [hcons]
          refine ⟨Arc.tidy_cons.mpr ⟨fun hr => (hreach _ hr).1 List.mem_cons_self, hnodup, hne,
            fun l hl t hc => (hcarry l t hc).1 ((hseen l).mpr (Or.inr hl)), htidy⟩, fun t ht => ?_, fun l t hc => ?_,
            fun i => ?_⟩
          · rcases (Arc.reaches_cons _).mp ht with rfl | ht
            · exact ⟨by simpa using htarget, not_not.mp hkind⟩
            · exact ⟨fun hmem => (hreach t ht).1 (List.mem_cons_of_mem _ hmem), (hreach t ht).2⟩
          · rcases (Arc.carries_cons _).mp hc with ⟨rfl, hl⟩ | hc
            · exact hall l hl
            · exact ⟨fun hs => (hcarry l t hc).1 ((hseen l).mpr (Or.inl hs)), (hcarry l t hc).2⟩
          · have hi := hseen (.tentacle i)
            simp only [Seen] at hi
            rw [htent, hi, or_assoc]
            simp only [Arc.carries_cons, exists_or, exists_eq_left']

structure Checked (es : List RawElement) (e : RawElement) : Prop where
  kind : (e.kind = 1 ∧ e.rank = 0) ∨ e.kind = 2 ∨ e.kind = 3
  ordinal : e.ordinal.isSome = true → e.kind = 1
  tidy : Arc.Tidy (arcsOf e.arcs)
  ends : ∀ t, Arc.Reaches (arcsOf e.arcs) t → kindAt es t = 1
  admits : ∀ l t, Arc.Carries (arcsOf e.arcs) l t → e.Admits l
  complete : ∀ i < e.tentacleCount, ∃ t, Arc.Carries (arcsOf e.arcs) (.tentacle i) t

theorem Checked.fits (hc : e.Checked es) : e.label.Fits (fun l => ∃ t, Arc.Carries (arcsOf e.arcs) l t) := by
  -- tentacles below the count are all there, and no others
  have htent (i : Nat) : (∃ t, Arc.Carries (arcsOf e.arcs) (.tentacle i) t) ↔ i < e.tentacleCount :=
    ⟨fun ⟨t, ht⟩ => hc.admits _ t ht, hc.complete i⟩
  rcases hc.kind with ⟨hk, hr⟩ | hk | hk
  · have hlab : e.label = .node e.name := by simp [label, hk, Kind.ofCode?]
    rw [hlab]
    rintro (s | i) hl
    · rfl
    · rw [htent] at hl
      simp [tentacleCount, hk, hr] at hl
  · have hlab : e.label = .nonterminal ⟨e.name, e.rank⟩ := by simp [label, hk, Kind.ofCode?]
    rw [hlab]
    refine ⟨e.rank, rfl, ?_⟩
    rintro (s | i)
    · refine ⟨fun ⟨t, ht⟩ => ?_, by simp⟩
      have := hc.admits _ t ht
      simp [Admits, hk] at this
    · simp [htent, tentacleCount, hk]
  · have hlab : e.label = .variable e.name := by simp [label, hk, Kind.ofCode?]
    rw [hlab]
    rintro (s | i)
    · refine ⟨fun ⟨t, ht⟩ => ?_, by simp⟩
      have := hc.admits _ t ht
      simp [Admits, hk] at this
    · simp [htent, tentacleCount, hk]

theorem code_of_ofCode? {n : Nat} {k : Kind} (h : Kind.ofCode? n = some k) : n = k.code := by
  unfold Kind.ofCode? at h
  split at h <;> cases h <;> rfl

theorem checkKind_ok {names : List Bytes} (h : e.checkKind v names = .ok ()) :
    ((e.kind = 1 ∧ e.rank = 0) ∨ e.kind = 2 ∨ e.kind = 3) ∧ (e.kind = 3 → e.name ∉ names) := by
  rw [checkKind] at h
  cases hk : Kind.ofCode? e.kind with
  | none => simp [hk] at h
  | some k =>
    have hc := code_of_ofCode? hk
    cases k with
    | node =>
      have hr : e.rank = 0 := by
        by_contra hr
        simp [hk, hr] at h
      simp [hc, hr, Kind.code]
    | nonterminal => simp [hc, Kind.code]
    | «variable» =>
      have hn : e.name ∉ names := by
        intro hn
        simp only [hk] at h
        split at h
        · simp at h
        · simp [hn] at h
      simp [hc, hn, Kind.code]

theorem label_eq_variable {x : Bytes} (h : e.label = .variable x) : e.kind = 3 ∧ e.name = x := by
  rw [label] at h
  split at h
  · simp at h
  · rename_i hk
    exact ⟨code_of_ofCode? hk, by simpa using h⟩
  · simp at h

theorem check_ok {names : List Bytes} (h : e.check es v names = .ok ()) :
    e.Checked es ∧ (e.kind = 3 → e.name ∉ names) := by
  obtain ⟨_, hkind, h⟩ := bind_ok h
  have hk := checkKind_ok hkind
  split at h
  · simp at h
  · rename_i hext
    obtain ⟨tentacles, harcs, h⟩ := bind_ok h
    obtain ⟨htidy, hreach, hcarry, htent⟩ := checkArcs_ok harcs
    split at h
    · simp at h
    · rename_i hfind
      refine ⟨⟨hk.1, fun ho => ?_, htidy, fun t ht => (hreach t ht).2, fun l t hc => (hcarry l t hc).2, fun i hi => ?_⟩,
        hk.2⟩
      · by_contra hne
        exact hext ⟨ho, hne⟩
      · have := List.find?_eq_none.mp hfind i (List.mem_range.mpr hi)
        have hmem : i ∈ tentacles := by simpa using this
        simpa using (htent i).mp hmem

theorem checkFrom_ok {names : List Bytes} {xs : List RawElement} (h : checkFrom es v names xs = .ok ()) :
    (∀ e ∈ xs, e.Checked es) ∧ (∀ e ∈ xs, e.kind = 3 → e.name ∉ names) ∧
      xs.Pairwise (fun d e => d.kind = 3 → e.kind = 3 → d.name ≠ e.name) := by
  induction xs generalizing v names with
  | nil => simp
  | cons e xs ih =>
    obtain ⟨_, he, h⟩ := bind_ok h
    obtain ⟨hchecked, hname⟩ := check_ok he
    obtain ⟨hall, hnames, hpair⟩ := ih h
    refine ⟨List.forall_mem_cons.mpr ⟨hchecked, hall⟩, List.forall_mem_cons.mpr ⟨hname, fun d hd hk hmem => ?_⟩,
      List.pairwise_cons.mpr ⟨fun d hd hke hkd heq => ?_, hpair⟩⟩
    · refine hnames d hd hk ?_
      split
      · exact List.mem_cons_of_mem _ hmem
      · exact hmem
    · refine hnames d hd hkd ?_
      rw [if_pos hke, heq]
      exact List.mem_cons_self

end RawElement

structure Valid (ids : Nat) (es : List RawElement) : Prop extends Distinct ids es where
  contiguous : ordinalsContiguous es = true
  checked : ∀ e ∈ es, e.Checked es
  names : es.Pairwise (fun d e => d.kind = 3 → e.kind = 3 → d.name ≠ e.name)

theorem getElem?_assemble (ids : Nat) (es : List RawElement) (v : Nat) :
    (assemble ids es).elements[v]? = (es[v]?).map (fun e => e.toElement es v) := by
  simp only [assemble, List.getElem?_map, List.getElem?_zipIdx, Option.map_map, Nat.zero_add]
  rfl

section

variable {u t i : Nat} {l : EdgeLabel} {lab : Label}

theorem out_assemble (ids : Nat) (es : List RawElement) (v : Nat) :
    (assemble ids es).out v = ((es[v]?).map (fun e => RawElement.arcsOf e.arcs)).getD [] := by
  rw [Heap.out, getElem?_assemble, Option.map_map]
  rfl

theorem out_assemble_of_getElem? (he : es[v]? = some e) : (assemble ids es).out v = RawElement.arcsOf e.arcs := by
  rw [out_assemble, he]
  rfl

theorem idOf_assemble (ids : Nat) (es : List RawElement) (v : Nat) :
    (assemble ids es).idOf v = (es[v]?).map RawElement.id := by
  rw [Heap.idOf, getElem?_assemble, Option.map_map]
  rfl

theorem ordinalAt_assemble (ids : Nat) (es : List RawElement) (v : Nat) :
    (assemble ids es).ordinalAt v = (es[v]?).bind RawElement.ordinal := by
  rw [Heap.ordinalAt, getElem?_assemble, Option.bind_map]
  rfl

theorem labelAt_assemble (ids : Nat) (es : List RawElement) (v : Nat) :
    (assemble ids es).labelAt v = (es[v]?).map RawElement.label := by
  rw [Heap.labelAt, getElem?_assemble]
  cases es[v]? <;> rfl

theorem exists_of_joined (hj : (assemble ids es).Joined u v) :
    ∃ e, es[u]? = some e ∧ Arc.Reaches (RawElement.arcsOf e.arcs) v := by
  rw [Heap.Joined, out_assemble] at hj
  cases he : es[u]? with
  | none => simp [he] at hj
  | some e => exact ⟨e, rfl, by simpa [he] using hj⟩

theorem mem_into_assemble (hv : v < es.length) : u ∈ (assemble ids es).into v ↔ (assemble ids es).Joined u v := by
  rw [Heap.into, getElem?_assemble, List.getElem?_eq_getElem hv, Heap.Joined, out_assemble]
  simp only [RawElement.toElement, Option.map_some, Option.getD_some, List.mem_filter, List.mem_range]
  cases he : es[u]? with
  | none => simp
  | some e =>
    have hu := (List.getElem?_eq_some_iff.mp he).1
    simp [hu, Arc.Reaches, RawElement.arcsOf]

theorem isNode_of_kindAt (hk : RawElement.kindAt es t = 1) : (assemble ids es).IsNode t := by
  rw [RawElement.kindAt] at hk
  cases he : es[t]? with
  | none => simp [he] at hk
  | some e =>
    have hk : e.kind = 1 := by simpa [he] using hk
    exact ⟨e.name, by simp [labelAt_assemble, he, RawElement.label, hk, Kind.ofCode?]⟩

namespace Valid

theorem assemble_sound (hv : Valid ids es) : (assemble ids es).Sound := by
  have hends (u v : Nat) (hj : (assemble ids es).Joined u v) : (assemble ids es).IsNode v := by
    obtain ⟨e, he, hr⟩ := exists_of_joined hj
    exact isNode_of_kindAt ((hv.checked e (List.mem_of_getElem? he)).ends v hr)
  have hlt (v : Nat) (hn : (assemble ids es).IsNode v) : v < es.length := by
    obtain ⟨type, ht⟩ := hn
    rw [labelAt_assemble] at ht
    obtain ⟨e, he, -⟩ := Option.map_eq_some_iff.mp ht
    exact (List.getElem?_eq_some_iff.mp he).1
  have hord (v i : Nat) (ho : (assemble ids es).ordinalAt v = some i) :
      ∃ e, es[v]? = some e ∧ e.ordinal = some i := by
    rw [ordinalAt_assemble] at ho
    exact Option.bind_eq_some_iff.mp ho
  refine ⟨fun v x hx => ?_, fun v w x hx hy => ?_, fun v => ?_, fun v => ?_, fun u v => ?_, hends, fun v hl => ?_,
    fun v i ho => ?_, fun v w i hx hy => ?_, fun v i j ho hj => ?_⟩
  · rw [idOf_assemble] at hx
    obtain ⟨e, he, rfl⟩ := Option.map_eq_some_iff.mp hx
    exact hv.id_lt e (List.mem_of_getElem? he)
  · rw [idOf_assemble, ← List.getElem?_map] at hx hy
    exact eq_of_pairwise hv.ids (fun _ _ => Ne.symm) hx hy (not_not.mpr rfl)
  · rw [out_assemble]
    cases he : es[v]? with
    | none => exact Arc.Tidy.nil
    | some e => exact (hv.checked e (List.mem_of_getElem? he)).tidy
  · rw [Heap.into, getElem?_assemble]
    cases es[v]? with
    | none => exact List.nodup_nil
    | some e => exact List.nodup_range.filter _
  · rcases Nat.lt_or_ge v es.length with hlv | hlv
    · exact mem_into_assemble hlv
    · have hnone : (assemble ids es).into v = [] := by
        rw [Heap.into, getElem?_assemble, List.getElem?_eq_none hlv]
        rfl
      rw [hnone]
      refine ⟨fun hu => absurd hu (List.not_mem_nil), fun hj => ?_⟩
      exact absurd (hlt v (hends u v hj)) (by omega)
  · rw [labelAt_assemble, Option.map_eq_none_iff] at hl
    rw [out_assemble, hl]
    rfl
  · obtain ⟨e, he, ho⟩ := hord v i ho
    have hk := (hv.checked e (List.mem_of_getElem? he)).ordinal (by simp [ho])
    exact isNode_of_kindAt (by simp [RawElement.kindAt, he, hk])
  · obtain ⟨d, hd, hdo⟩ := hord v i hx
    obtain ⟨e, he, heo⟩ := hord w i hy
    refine eq_of_pairwise (List.pairwise_filterMap.mp hv.ordinals) (fun a b hab j hj k hk => ?_) hd he ?_
    · exact (hab k hk j hj).symm
    · exact fun hne => hne i hdo i heo rfl
  · obtain ⟨e, he, ho⟩ := hord v i ho
    have hj := hv.toDistinct.exists_ordinal hv.contiguous
      (List.mem_filterMap.mpr ⟨e, List.mem_of_getElem? he, ho⟩) hj
    obtain ⟨d, hd, hdj⟩ := List.mem_filterMap.mp hj
    obtain ⟨w, hw⟩ := List.mem_iff_getElem?.mp hd
    exact ⟨w, by simp [ordinalAt_assemble, hw, hdj]⟩

theorem assemble_wellFormed (hv : Valid ids es) : (assemble ids es).WellFormed := by
  refine hv.assemble_sound.wellFormed (fun v lab hl => ?_) fun v w x hx hy => ?_
  · rw [labelAt_assemble] at hl
    obtain ⟨e, he, rfl⟩ := Option.map_eq_some_iff.mp hl
    simp only [Heap.Linked, out_assemble_of_getElem? he]
    exact (hv.checked e (List.mem_of_getElem? he)).fits
  · rw [labelAt_assemble] at hx hy
    obtain ⟨d, hd, hdx⟩ := Option.map_eq_some_iff.mp hx
    obtain ⟨e, he, hex⟩ := Option.map_eq_some_iff.mp hy
    obtain ⟨hdk, hdn⟩ := RawElement.label_eq_variable hdx
    obtain ⟨hek, hen⟩ := RawElement.label_eq_variable hex
    refine eq_of_pairwise hv.names (fun a b hab hb ha => (hab ha hb).symm) hd he ?_
    exact fun hne => hne hdk hek (hdn.trans hen.symm)

end Valid

end

end HeapAbstraction.Encoding

namespace HeapAbstraction

open Encoding in
theorem Heap.decode_reads {bs : Bytes} {h : Heap} (hd : Heap.decode bs = .ok h) :
    ∃ bs₁ bs₂ bs₃ rest ids count es, getNat maxSmall bs = .ok (version, bs₁) ∧
      getNat maxPublicIds bs₁ = .ok (ids, bs₂) ∧ getNat ids bs₂ = .ok (count, bs₃) ∧
      getElements ids count count [] bs₃ = .ok (es, rest) ∧ Valid ids es ∧ h = assemble ids es := by
  obtain ⟨⟨found, bs₁⟩, hfound, hd⟩ := bind_ok hd
  simp only at hd
  split at hd
  · simp at hd
  · rename_i hversion
    rw [not_not.mp hversion] at hfound
    obtain ⟨⟨ids, bs₂⟩, hids, hd⟩ := bind_ok hd
    obtain ⟨⟨count, bs₃⟩, hcount, hd⟩ := bind_ok hd
    simp only at hd
    split at hd
    · simp at hd
    · obtain ⟨⟨es, rest⟩, hes, hd⟩ := bind_ok hd
      have hdist := getElements_distinct (getNat_le hcount) ⟨by simp, by simp, by simp, by simp⟩ hes
      simp only at hd
      split at hd
      · simp at hd
      · rename_i hord
        split at hd
        · simp at hd
        · rename_i hcheck
          cases hd
          obtain ⟨hchecked, -, hnames⟩ := RawElement.checkFrom_ok hcheck
          have hv : Valid ids es := { hdist with
            contiguous := by simpa using hord
            checked := hchecked
            names := hnames }
          exact ⟨bs₁, bs₂, bs₃, rest, ids, count, es, hfound, hids, hcount, hes, hv, rfl⟩

open Encoding in
theorem Heap.decode_ok {bs : Bytes} {h : Heap} (hd : Heap.decode bs = .ok h) :
    ∃ ids es, ids ≤ maxPublicIds ∧ Valid ids es ∧ h = assemble ids es := by
  obtain ⟨_, _, _, _, ids, _, es, -, hids, -, -, hv, rfl⟩ := decode_reads hd
  exact ⟨ids, es, getNat_le hids, hv, rfl⟩

theorem Heap.wellFormed_of_decode {bs : Bytes} {h : Heap} (hd : Heap.decode bs = .ok h) : h.WellFormed ∧ h.Idle := by
  obtain ⟨ids, es, -, hv, rfl⟩ := Heap.decode_ok hd
  refine ⟨hv.assemble_wellFormed, fun e he => ?_⟩
  obtain ⟨p, -, rfl⟩ := List.mem_map.mp he
  rfl

end HeapAbstraction
