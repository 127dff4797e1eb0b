import HeapAbstraction.Proofs.Isomorphism
import HeapAbstraction.Proofs.Compaction
import HeapAbstraction.Fingerprint.Basic
import HeapAbstraction.Heap.Draft
import Mathlib.Data.List.Sort
import Mathlib.Data.UInt

namespace HeapAbstraction

namespace Heap

theorem insertSorted_eq (n : Nat) (ns : List Nat) : insertSorted n ns = ns.orderedInsert (· ≤ ·) n := by
  induction ns with
  | nil => rfl
  | cons m ns ih => rw [insertSorted, List.orderedInsert_cons, ih]

theorem sortIds_eq (ns : List Nat) : sortIds ns = ns.insertionSort (· ≤ ·) := by
  induction ns with
  | nil => rfl
  | cons n ns ih => rw [sortIds, List.insertionSort_cons, ih, insertSorted_eq]

theorem sortIds_perm {ms ns : List Nat} (h : ms.Perm ns) : sortIds ms = sortIds ns := by
  rw [sortIds_eq, sortIds_eq]
  refine List.Perm.eq_of_pairwise' (List.pairwise_insertionSort _ _) (List.pairwise_insertionSort _ _) ?_
  exact (List.perm_insertionSort _ ms).trans (h.trans (List.perm_insertionSort _ ns).symm)

variable (hash : Bytes → UInt64)

theorem arcHash_perm {direction : UInt8} {colour : UInt64} {ls ms : List EdgeLabel} (h : ls.Perm ms) :
    arcHash hash direction colour ls = arcHash hash direction colour ms :=
  (h.map _).sum_eq

theorem sum_arcs_to {e : Element} (ht : Arc.Tidy e.arcs) {direction : UInt8} {colour : UInt64} (v : Nat) :
    ((e.arcs.filter (fun a => a.target == v)).map (fun a => arcHash hash direction colour a.labels)).sum =
      arcHash hash direction colour (e.labelsTo v) := by
  rw [Element.labelsTo, Element.arcTo?]
  generalize e.arcs = as at ht
  induction as with
  | nil => rfl
  | cons a as ih =>
    by_cases hv : a.target = v
    · have hrest : as.filter (fun b => b.target == v) = [] := by
        rw [List.filter_eq_nil_iff]
        intro b hb htarget
        have := (List.nodup_cons.mp ht.targets).1
        rw [hv, ← beq_iff_eq.mp htarget] at this
        exact this (List.mem_map_of_mem hb)
      simp [hv, hrest]
    · simpa [hv] using ih (ht.sublist (List.sublist_cons_self a as))

theorem labelsTo_target {e : Element} (ht : Arc.Tidy e.arcs) {a : Arc} (ha : a ∈ e.arcs) : e.labelsTo a.target = a.labels := by
  have hsome : (e.arcTo? a.target).isSome := Element.arcTo?_isSome.mpr ⟨a, ha, rfl⟩
  obtain ⟨b, hb⟩ := Option.isSome_iff_exists.mp hsome
  have htarget : b.target = a.target := by simpa using List.find?_some hb
  rw [Element.labelsTo, hb, ht.unique (List.mem_of_find?_eq_some hb) ha htarget]
  rfl

end Heap

namespace Graph

variable (hash : Bytes → UInt64)

def nextColour (g : Graph) (colour : Nat → UInt64) (v : Nat) : UInt64 :=
  let out := ((g.successors v).map (fun t => Heap.arcHash hash 62 (colour t) (g.arcLabels v t))).sum
  let into := ((g.predecessors v).map (fun u => Heap.arcHash hash 60 (colour u) (g.arcLabels u v))).sum
  hash (Heap.word64 (colour v) ++ Heap.word64 (out + into))

variable {P T : Graph} {φ : Nat → Nat} {p q : Nat}

namespace IsIsomorphism

variable (hφ : P.IsIsomorphism T φ) (hP : P.WellFormed) (hT : T.WellFormed)

include hφ hP hT

theorem successors_perm (hp : p < P.size) : ((P.successors p).map φ).Perm (T.successors (φ p)) := by
  have hn : ((P.successors p).map φ).Nodup := by
    refine List.Nodup.map_on (fun q hq r hr h => ?_) (hP.successors_nodup p)
    exact hφ.inj q (hP.successors_lt p q hq).2 r (hP.successors_lt p r hr).2 h
  refine (List.perm_ext_iff_of_nodup hn (hT.successors_nodup _)).mpr fun t => ?_
  constructor
  · intro ht
    obtain ⟨q, hq, rfl⟩ := List.mem_map.mp ht
    exact (hφ.arc p hp q (hP.successors_lt p q hq).2).mpr hq
  · intro ht
    obtain ⟨q, hq, rfl⟩ := hφ.onto t (hT.successors_lt _ t ht).2
    exact List.mem_map_of_mem ((hφ.arc p hp q hq).mp ht)

theorem predecessors_perm (hp : p < P.size) : ((P.predecessors p).map φ).Perm (T.predecessors (φ p)) := by
  have hlt {q : Nat} (hq : q ∈ P.predecessors p) : q < P.size :=
    (hP.successors_lt q p ((hP.mem_predecessors q p).mp hq)).1
  have hn : ((P.predecessors p).map φ).Nodup :=
    List.Nodup.map_on (fun q hq r hr h => hφ.inj q (hlt hq) r (hlt hr) h) (hP.predecessors_nodup p)
  refine (List.perm_ext_iff_of_nodup hn (hT.predecessors_nodup _)).mpr fun t => ?_
  rw [hT.mem_predecessors]
  constructor
  · intro ht
    obtain ⟨q, hq, rfl⟩ := List.mem_map.mp ht
    exact (hφ.arc q (hlt hq) p hp).mpr ((hP.mem_predecessors q p).mp hq)
  · intro ht
    obtain ⟨q, hq, rfl⟩ := hφ.onto t (hT.successors_lt t _ ht).1
    exact List.mem_map_of_mem ((hP.mem_predecessors q p).mpr ((hφ.arc q hq p hp).mp ht))

theorem arcLabels_perm (hq : q ∈ P.successors p) : (T.arcLabels (φ p) (φ q)).Perm (P.arcLabels p q) :=
  (List.perm_ext_iff_of_nodup (hT.labels_nodup _ _) (hP.labels_nodup p q)).mpr (hφ.labels p q hq)

theorem nextColour_eq {c d : Nat → UInt64} (hcd : ∀ p < P.size, d (φ p) = c p) (hp : p < P.size) :
    T.nextColour hash d (φ p) = P.nextColour hash c p := by
  have hout : ((T.successors (φ p)).map (fun t => Heap.arcHash hash 62 (d t) (T.arcLabels (φ p) t))).sum =
      ((P.successors p).map (fun q => Heap.arcHash hash 62 (c q) (P.arcLabels p q))).sum := by
    rw [← ((hφ.successors_perm hP hT hp).map _).sum_eq, List.map_map]
    congr 1
    refine List.map_congr_left fun q hq => ?_
    rw [Function.comp_apply, hcd q (hP.successors_lt p q hq).2]
    exact Heap.arcHash_perm hash (hφ.arcLabels_perm hP hT hq)
  have hinto : ((T.predecessors (φ p)).map (fun u => Heap.arcHash hash 60 (d u) (T.arcLabels u (φ p)))).sum =
      ((P.predecessors p).map (fun q => Heap.arcHash hash 60 (c q) (P.arcLabels q p))).sum := by
    rw [← ((hφ.predecessors_perm hP hT hp).map _).sum_eq, List.map_map]
    congr 1
    refine List.map_congr_left fun q hq => ?_
    have hqp := (hP.mem_predecessors q p).mp hq
    rw [Function.comp_apply, hcd q (hP.successors_lt q p hqp).1]
    exact Heap.arcHash_perm hash (hφ.arcLabels_perm hP hT hqp)
  rw [nextColour, nextColour, hout, hinto, hcd p hp]

end IsIsomorphism

end Graph

namespace Heap

variable (hash : Bytes → UInt64) {a b h : Heap} {φ : Nat → Nat} {v n : Nat} {e : Element} {cs ds : List UInt64}

theorem Sound.recolour_eq (hs : h.Sound) (table : Array UInt64) (he : h.elements[v]? = some e) :
    recolour hash h table e v = h.graph.nextColour hash (colourAt table) v := by
  have htidy : Arc.Tidy e.arcs := out_eq he ▸ hs.tidy v
  have hout : (e.arcs.map (fun a => arcHash hash 62 (colourAt table a.target) a.labels)).foldr (· + ·) 0 =
      ((h.graph.successors v).map (fun t => arcHash hash 62 (colourAt table t) (h.graph.arcLabels v t))).sum := by
    simp only [Heap.graph, List.getElem?_toArray, he, Option.map_some, Option.getD_some, Element.successors, List.map_map]
    congr 1
    refine List.map_congr_left fun a ha => ?_
    rw [Function.comp_apply, labelsTo_target htidy ha]
  have hinto : (e.preds.map (fun u =>
      (((((h.elements[u]?).map Element.arcs).getD []).filter (fun a => a.target == v)).map
        (fun a => arcHash hash 60 (colourAt table u) a.labels)).foldr (· + ·) 0)).foldr (· + ·) 0 =
      ((h.graph.predecessors v).map (fun u => arcHash hash 60 (colourAt table u) (h.graph.arcLabels u v))).sum := by
    simp only [Heap.graph, List.getElem?_toArray, he, Option.map_some, Option.getD_some]
    congr 1
    refine List.map_congr_left fun u _ => ?_
    cases hu : h.elements[u]? with
    | none => rfl
    | some e' => exact sum_arcs_to hash (out_eq hu ▸ hs.tidy u) v
  rw [recolour, Graph.nextColour, hout, hinto]

structure Coloured (a b : Heap) (φ : Nat → Nat) (cs ds : List UInt64) : Prop where
  length : cs.length = a.elements.length
  copyLength : ds.length = b.elements.length
  colour : ∀ v < a.elements.length, ds[φ v]? = cs[v]?

theorem exists_element_image (hφ : a.graph.IsIsomorphism b.graph φ) (he : a.elements[v]? = some e) :
    ∃ e', b.elements[φ v]? = some e' ∧ e'.label = e.label ∧ e'.ordinal = e.ordinal := by
  have hv : v < a.graph.size := by
    rw [graph_size]
    exact (List.getElem?_eq_some_iff.mp he).1
  have hlt := hφ.lt v hv
  rw [graph_size] at hlt
  have he' := List.getElem?_eq_getElem hlt
  have hlabel := hφ.label v hv
  have hordinal := hφ.ordinal v hv
  simp only [graph, List.getElem?_toArray, he, he', Option.map_some, Option.getD_some, Option.bind_some] at hlabel hordinal
  exact ⟨_, he', hlabel, hordinal⟩

theorem coloured_initial (hφ : a.graph.IsIsomorphism b.graph φ) :
    Coloured a b φ (a.elements.map (initialColour hash)) (b.elements.map (initialColour hash)) where
  length := List.length_map _
  copyLength := List.length_map _
  colour v hv := by
    obtain ⟨e', he', hl, ho⟩ := exists_element_image hφ (List.getElem?_eq_getElem hv)
    rw [List.getElem?_map, List.getElem?_map, he', List.getElem?_eq_getElem hv, Option.map_some, Option.map_some,
      initialColour, initialColour, Element.kind, Element.kind, hl, ho]

namespace Coloured

variable (hφ : a.graph.IsIsomorphism b.graph φ)

include hφ

theorem next (ha : a.Sound) (hb : b.Sound) (hc : Coloured a b φ cs ds) :
    Coloured a b φ (a.elements.zipIdx.map (fun p => recolour hash a cs.toArray p.1 p.2))
      (b.elements.zipIdx.map (fun p => recolour hash b ds.toArray p.1 p.2)) where
  length := by simp
  copyLength := by simp
  colour v hv := by
    have he := List.getElem?_eq_getElem hv
    obtain ⟨e', he', -⟩ := exists_element_image hφ he
    have hsize : v < a.graph.size := by rwa [graph_size]
    have hcd (w : Nat) (hw : w < a.graph.size) : colourAt ds.toArray (φ w) = colourAt cs.toArray w := by
      rw [graph_size] at hw
      simp [colourAt, hc.colour w hw]
    simp only [List.getElem?_map, List.getElem?_zipIdx, he, he', Option.map_some, Nat.zero_add, ha.recolour_eq hash _ he,
      hb.recolour_eq hash _ he', hφ.nextColour_eq hash ha.graph hb.graph hcd hsize]

theorem rounds (ha : a.Sound) (hb : b.Sound) (hc : Coloured a b φ cs ds) :
    Coloured a b φ (colourRounds hash a n cs) (colourRounds hash b n ds) := by
  induction n generalizing cs ds with
  | zero => exact hc
  | succ n ih => exact ih (hc.next hash hφ ha hb)

theorem perm (hc : Coloured a b φ cs ds) : cs.Perm ds := by
  have hslots : ((List.range a.elements.length).map φ).Perm (List.range b.elements.length) := by
    have hlt (v : Nat) (hv : v ∈ List.range a.elements.length) : v < a.graph.size := by
      rw [graph_size]
      exact List.mem_range.mp hv
    have hn : ((List.range a.elements.length).map φ).Nodup :=
      List.Nodup.map_on (fun v hv w hw h => hφ.inj v (hlt v hv) w (hlt w hw) h) List.nodup_range
    refine (List.perm_ext_iff_of_nodup hn List.nodup_range).mpr fun t => ?_
    rw [List.mem_range, ← graph_size b]
    constructor
    · intro ht
      obtain ⟨v, hv, rfl⟩ := List.mem_map.mp ht
      exact hφ.lt v (hlt v hv)
    · intro ht
      obtain ⟨v, hv, rfl⟩ := hφ.onto t ht
      rw [graph_size] at hv
      exact List.mem_map_of_mem (List.mem_range.mpr hv)
  have htable (xs : List UInt64) : xs = (List.range xs.length).map (fun i => xs[i]?.getD 0) := by
    refine List.ext_getElem (by simp) fun i hi _ => ?_
    simp [hi]
  rw [htable cs, htable ds, hc.length, hc.copyLength]
  have hcs : (List.range a.elements.length).map (fun i => cs[i]?.getD 0) =
      ((List.range a.elements.length).map φ).map (fun i => ds[i]?.getD 0) := by
    rw [List.map_map]
    exact List.map_congr_left fun v hv => by rw [Function.comp_apply, hc.colour v (List.mem_range.mp hv)]
  rw [hcs]
  exact hslots.map _

end Coloured

theorem Isomorphic.fingerprintWith_eq (hab : a.Isomorphic b) (ha : a.Sound) (hb : b.Sound) :
    a.fingerprintWith hash = b.fingerprintWith hash := by
  obtain ⟨φ, hφ⟩ := hab
  have hcolours := ((coloured_initial hash hφ).rounds hash (n := 3) hφ ha hb).perm hφ
  have hsize : a.elements.length = b.elements.length := by simpa only [graph_size] using hφ.size_eq
  rw [fingerprintWith, fingerprintWith, hsize, sortIds_perm (hcolours.map UInt64.toNat)]

theorem Sound.fingerprint_draft (hs : h.Sound) {phase : Phase} (hp : phase ≠ .editing) :
    Draft.fingerprint ⟨h, phase⟩ = .ok h.fingerprint := by
  have hactive : Draft.isActive ⟨h, phase⟩ = false := by simpa [Draft.isActive] using hp
  rw [Draft.fingerprint, Draft.settled, if_neg (by simp [hactive])]
  exact if_pos hs.closed

theorem fingerprint_isomorphic (ha : a.WellFormed) (hb : b.WellFormed) (hab : a.Isomorphic b) :
    (∀ hash : Bytes → UInt64, a.fingerprintWith hash = b.fingerprintWith hash) ∧
      ∃ key, ∀ phase, phase ≠ .editing →
        Draft.fingerprint ⟨a, phase⟩ = .ok key ∧ Draft.fingerprint ⟨b, phase⟩ = .ok key := by
  have hsame (hash : Bytes → UInt64) := hab.fingerprintWith_eq hash ha.toSound hb.toSound
  refine ⟨hsame, a.fingerprint, fun phase hp => ⟨ha.toSound.fingerprint_draft hp, ?_⟩⟩
  rw [hb.toSound.fingerprint_draft hp]
  exact congrArg Except.ok (hsame Hash.xxh64).symm

def loops : Heap where
  elements := [
    { label := .node "N", id := 0, ordinal := some 0, arcs := [⟨0, [.selector "a", .selector "b"]⟩], preds := [0, 2] },
    { label := .node "N", id := 1, preds := [2] },
    { label := .nonterminal ⟨"L", 3⟩, id := 2, arcs := [⟨0, [.tentacle 0, .tentacle 2]⟩, ⟨1, [.tentacle 1]⟩] }]
  nextId := 3

def turnedLoops : Heap where
  elements := [
    { label := .node "N", id := 0, preds := [2] },
    { label := .node "N", id := 1, ordinal := some 0, arcs := [⟨1, [.selector "b", .selector "a"]⟩], preds := [2, 1] },
    { label := .nonterminal ⟨"L", 3⟩, id := 2, arcs := [⟨1, [.tentacle 0, .tentacle 2]⟩, ⟨0, [.tentacle 1]⟩] }]
  nextId := 3

theorem wellFormed_loops : loops.WellFormed := by
  have h1 := wellFormed_empty.addNodes (show Heap.empty.addNodes "N" 2 = .ok (_, _) from rfl)
  have h2 := h1.addSelector (show Heap.addSelector _ 0 "a" 0 = .ok _ from rfl)
  have h3 := h2.addSelector (show Heap.addSelector _ 0 "b" 0 = .ok _ from rfl)
  have h4 := h3.addNonterminal (show Heap.addNonterminal _ ⟨"L", 3⟩ [0, 1, 0] = .ok (_, _) from rfl)
  exact h4.setExternal (show Heap.setExternal _ 0 = .ok loops from rfl)

theorem wellFormed_turnedLoops : turnedLoops.WellFormed := by
  have h1 := wellFormed_empty.addNodes (show Heap.empty.addNodes "N" 2 = .ok (_, _) from rfl)
  have h2 := h1.addNonterminal (show Heap.addNonterminal _ ⟨"L", 3⟩ [1, 0, 1] = .ok (_, _) from rfl)
  have h3 := h2.addSelector (show Heap.addSelector _ 1 "b" 1 = .ok _ from rfl)
  have h4 := h3.addSelector (show Heap.addSelector _ 1 "a" 1 = .ok _ from rfl)
  exact h4.setExternal (show Heap.setExternal _ 1 = .ok turnedLoops from rfl)

theorem fingerprint_isomorphic_loops : loops.Isomorphic turnedLoops ∧
    loops.fingerprintWith (fun bs => UInt64.ofNat bs.length) =
      turnedLoops.fingerprintWith (fun bs => UInt64.ofNat bs.length) ∧
      Draft.fingerprint ⟨loops, .idle⟩ = Draft.fingerprint ⟨turnedLoops, .idle⟩ := by
  have hiso : loops.Isomorphic turnedLoops :=
    (equals_iff wellFormed_loops.toSound wellFormed_turnedLoops.toSound).mp (by decide)
  obtain ⟨hall, key, hkey⟩ := fingerprint_isomorphic wellFormed_loops wellFormed_turnedLoops hiso
  obtain ⟨ha, hb⟩ := hkey .idle (by simp)
  exact ⟨hiso, hall _, ha.trans hb.symm⟩

end Heap

end HeapAbstraction
