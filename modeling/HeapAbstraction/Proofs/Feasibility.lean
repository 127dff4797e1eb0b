import HeapAbstraction.Proofs.SearchTree

namespace HeapAbstraction

namespace Graph

def degreesAround (g : Graph) (v : Nat) : Nat :=
  ((g.successors v).map g.degree).sum + ((g.predecessors v).map g.degree).sum

-- no sum of degrees around a vertex leaves 32 bits
def SumsFit (g : Graph) : Prop := ∀ v < g.size, g.degreesAround v < 2 ^ 31

instance (g : Graph) : Decidable g.SumsFit := inferInstanceAs (Decidable (∀ v < g.size, g.degreesAround v < 2 ^ 31))

namespace WellFormed

variable {g : Graph} (hg : g.WellFormed)

include hg

theorem predecessors_lt {u v : Nat} (hu : u ∈ g.predecessors v) : u < g.size :=
  (hg.successors_lt u v ((hg.mem_predecessors u v).mp hu)).1

end WellFormed

def loose (exact : Bool) (P : Graph) (p q : Nat) : Bool := !exact && P.isExternal p && P.isExternal q

theorem loose_comm (exact : Bool) (P : Graph) (p q : Nat) : P.loose exact p q = P.loose exact q p := by
  rw [loose, loose, Bool.and_assoc, Bool.and_assoc, Bool.and_comm (P.isExternal p)]

structure Matches (exact : Bool) (P T : Graph) (f : Nat → Nat) : Prop extends IsMonomorphism P T f where
  label : ∀ p < P.size, T.label (f p) = P.label p
  ordinal : exact = true → ∀ p < P.size, T.ordinal (f p) = P.ordinal p
  inner : exact = false → ∀ p < P.size, P.isExternal p = false → T.isExternal (f p) = false
  reflects : ∀ p < P.size, ∀ q < P.size, f q ∈ T.successors (f p) → q ∈ P.successors p ∨ P.loose exact p q = true
  labels : ∀ p q, q ∈ P.successors p → P.arcLabels p q ⊆ T.arcLabels (f p) (f q)
  labels_eq : ∀ p q, q ∈ P.successors p → P.loose exact p q = false → T.arcLabels (f p) (f q) ⊆ P.arcLabels p q
  successors : ∀ p < P.size, (exact || !P.isExternal p) = true → ∀ u ∈ T.successors (f p), ∃ q ∈ P.successors p, f q = u
  predecessors : ∀ p < P.size, (exact || !P.isExternal p) = true →
    ∀ u ∈ T.predecessors (f p), ∃ q ∈ P.predecessors p, f q = u

variable {exact : Bool} {P T : Graph} {f : Nat → Nat} {p q : Nat}

theorem map_subperm {xs ys : List Nat} (hn : xs.Nodup) (hi : ∀ x ∈ xs, ∀ y ∈ xs, f x = f y → x = y)
    (hs : ∀ x ∈ xs, f x ∈ ys) : (xs.map f).Subperm ys := by
  refine List.Nodup.subperm (List.Nodup.map_on hi hn) fun y hy => ?_
  obtain ⟨x, hx, rfl⟩ := List.mem_map.mp hy
  exact hs x hx

theorem perm_of_map_subperm {xs ys : List Nat} (hs : (xs.map f).Subperm ys) (hn : ys.Nodup)
    (ho : ∀ y ∈ ys, ∃ x ∈ xs, f x = y) : (xs.map f).Perm ys := by
  refine hs.antisymm (List.Nodup.subperm hn fun y hy => ?_)
  obtain ⟨x, hx, rfl⟩ := ho y hy
  exact List.mem_map.mpr ⟨x, hx, rfl⟩

namespace IsMonomorphism

variable (hf : P.IsMonomorphism T f) (hP : P.WellFormed) (hT : T.WellFormed)

include hf hP

theorem successors_subperm (p : Nat) : ((P.successors p).map f).Subperm (T.successors (f p)) :=
  map_subperm (hP.successors_nodup p)
    (fun q hq r hr hqr => hf.inj q (hP.successors_lt p q hq).2 r (hP.successors_lt p r hr).2 hqr)
    (fun q hq => hf.arc p q hq)

include hT

theorem mem_predecessors_image (hq : q ∈ P.predecessors p) : f q ∈ T.predecessors (f p) := by
  rw [hP.mem_predecessors] at hq
  exact (hT.mem_predecessors _ _).mpr (hf.arc q p hq)

theorem predecessors_subperm (p : Nat) : ((P.predecessors p).map f).Subperm (T.predecessors (f p)) := by
  have hlt (q : Nat) (hq : q ∈ P.predecessors p) : q < P.size :=
    (hP.successors_lt q p ((hP.mem_predecessors q p).mp hq)).1
  exact map_subperm (hP.predecessors_nodup p) (fun q hq r hr hqr => hf.inj q (hlt q hq) r (hlt r hr) hqr)
    (fun q hq => hf.mem_predecessors_image hP hT hq)

theorem degree_le (p : Nat) : P.degree p ≤ T.degree (f p) := by
  have hs := (hf.successors_subperm hP p).length_le
  have hp := (hf.predecessors_subperm hP hT p).length_le
  rw [List.length_map] at hs hp
  exact Nat.add_le_add hs hp

theorem onto_of_degree_eq (hd : P.degree p = T.degree (f p)) :
    (∀ u ∈ T.successors (f p), ∃ q ∈ P.successors p, f q = u) ∧
      ∀ u ∈ T.predecessors (f p), ∃ q ∈ P.predecessors p, f q = u := by
  have hs := hf.successors_subperm hP p
  have hp := hf.predecessors_subperm hP hT p
  have hsl := hs.length_le
  have hpl := hp.length_le
  rw [degree, degree] at hd
  rw [List.length_map] at hsl hpl
  constructor
  · intro u hu
    exact List.mem_map.mp ((hs.perm_of_length_le (by rw [List.length_map]; omega)).mem_iff.mpr hu)
  · intro u hu
    exact List.mem_map.mp ((hp.perm_of_length_le (by rw [List.length_map]; omega)).mem_iff.mpr hu)

omit hP hT in
theorem onto_of_size_eq (hn : P.size = T.size) {u : Nat} (hu : u < T.size) : ∃ q < P.size, f q = u := by
  have hmaps : Set.MapsTo f (Finset.range P.size) (Finset.range T.size) := fun q hq => by
    simpa using hf.lt q (by simpa using hq)
  have hinj : Set.InjOn f (Finset.range P.size) := fun q hq r hr hqr =>
    hf.inj q (by simpa using hq) r (by simpa using hr) hqr
  have hsurj := Finset.surjOn_of_injOn_of_card_le f hmaps hinj (by simp [hn])
  obtain ⟨q, hq, rfl⟩ := hsurj (by simpa using hu)
  exact ⟨q, by simpa using hq, rfl⟩

end IsMonomorphism

theorem Matches.degree_eq (hf : P.Matches exact T f) (hP : P.WellFormed) (hT : T.WellFormed) (hp : p < P.size)
    (hc : (exact || !P.isExternal p) = true) : P.degree p = T.degree (f p) := by
  have hm := hf.toIsMonomorphism
  have hs := perm_of_map_subperm (hm.successors_subperm hP p) (hT.successors_nodup _) (hf.successors p hp hc)
  have hq := perm_of_map_subperm (hm.predecessors_subperm hP hT p) (hT.predecessors_nodup _) (hf.predecessors p hp hc)
  have hsl := hs.length_eq
  have hql := hq.length_eq
  rw [List.length_map] at hsl hql
  rw [degree, degree, hsl, hql]

end Graph

structure Compatible (exact : Bool) (P T : Graph) (c d : Pair) : Prop where
  arc : d.p ∈ P.successors c.p → d.t ∈ T.successors c.t
  reflects : d.t ∈ T.successors c.t → d.p ∈ P.successors c.p ∨ P.loose exact c.p d.p = true
  labels : d.p ∈ P.successors c.p → P.arcLabels c.p d.p ⊆ T.arcLabels c.t d.t
  length_eq : d.p ∈ P.successors c.p → P.loose exact c.p d.p = false →
    (P.arcLabels c.p d.p).length = (T.arcLabels c.t d.t).length

structure Suited (exact : Bool) (P T : Graph) (c : Pair) : Prop where
  label : T.label c.t = P.label c.p
  ordinal : exact = true → T.ordinal c.t = P.ordinal c.p
  inner : exact = false → P.isExternal c.p = false → T.isExternal c.t = false ∧ P.degree c.p = T.degree c.t

structure Consistent (exact : Bool) (P T : Graph) (s : SearchState) : Prop extends s.Exact P T where
  suited : ∀ p t, s.pattern.partner? p = some t → Suited exact P T ⟨p, t⟩
  compatible : ∀ p t q u, s.pattern.partner? p = some t → s.pattern.partner? q = some u →
    Compatible exact P T ⟨p, t⟩ ⟨q, u⟩

structure Feasible (exact : Bool) (s : SearchState) (c : Pair) : Prop where
  label : Feasibility.sameLabel s c = true
  predecessors : Feasibility.predecessorsAgree exact s c = true
  successors : Feasibility.successorsAgree exact s c = true
  ordinal : (if exact then Feasibility.sameOrdinal else Feasibility.embedsOrdinal) s c = true
  labels : Feasibility.labelsAgree (fun P p q => !P.loose exact p q) s c = true

section

variable {exact : Bool} {P T : Graph} {s : SearchState} {c : Pair} {f : Nat → Nat}

theorem neighboursAgree_iff {ps ts : List Nat} : Feasibility.neighboursAgree exact ps ts s c = true ↔
    (∀ q ∈ ps, ∀ t, s.imageOf c q = some t → t ∈ ts) ∧
      ∀ u ∈ ts, ∀ q, s.preimageOf c u = some q → q ∈ ps ∨ s.pattern.graph.loose exact c.p q = true := by
  simp only [Feasibility.neighboursAgree, Bool.and_eq_true, List.all_eq_true, Option.all_eq_true, Bool.or_eq_true,
    List.contains_iff_mem, Graph.loose]

theorem labelsFit_iff {equal : Bool} {ps ts : List EdgeLabel} : Feasibility.labelsFit equal ps ts = true ↔
    (equal = true → ps.length = ts.length) ∧ ps ⊆ ts := by
  rw [Feasibility.labelsFit, Bool.and_eq_true, List.all_eq_true]
  refine and_congr ?_ ?_
  · cases equal <;> simp
  · exact forall_congr' fun l => by rw [List.contains_iff_mem]

theorem labelsAgree_iff {equal : Graph → Nat → Nat → Bool} : Feasibility.labelsAgree equal s c = true ↔
    (∀ q ∈ s.pattern.graph.successors c.p, ∀ t, s.imageOf c q = some t →
      Feasibility.labelsFit (equal s.pattern.graph c.p q) (s.pattern.graph.arcLabels c.p q)
        (s.target.graph.arcLabels c.t t) = true) ∧
    ∀ q ∈ s.pattern.graph.predecessors c.p, ∀ t, s.imageOf c q = some t →
      Feasibility.labelsFit (equal s.pattern.graph q c.p) (s.pattern.graph.arcLabels q c.p)
        (s.target.graph.arcLabels t c.t) = true := by
  simp only [Feasibility.labelsAgree, Bool.and_eq_true, List.all_eq_true, Option.all_eq_true]

theorem suited_of_feasible (hs : s.Exact P T) (hf : Feasible exact s c) : Suited exact P T c := by
  have hl := hf.label
  have ho := hf.ordinal
  rw [Feasibility.sameLabel, hs.pattern.graph, hs.target.graph, beq_iff_eq] at hl
  refine ⟨hl.symm, ?_, ?_⟩
  · rintro rfl
    simp only [if_true, Feasibility.sameOrdinal, hs.pattern.graph, hs.target.graph, beq_iff_eq] at ho
    exact ho.symm
  · rintro rfl hi
    simpa [Feasibility.embedsOrdinal, hs.pattern.graph, hs.target.graph, hi] using ho

section

variable (hs : s.Exact P T) (hP : P.WellFormed) (hT : T.WellFormed) (hp : c.p < P.size) (ht : c.t < T.size)
  (hmp : s.pattern.isMatched c.p = false) (hmt : s.target.isMatched c.t = false)

include hs

include hP hp hmp in
theorem imageOf_eq_partner? (q : Nat) : s.imageOf c q = (s.extend c).pattern.partner? q := by
  rw [hs.partner?_extend hP hp hmp]
  rfl

include hT ht hmt in
theorem preimageOf_eq_partner? (u : Nat) : s.preimageOf c u = (s.extend c).target.partner? u := by
  rw [hs.partner?_extend_target hT ht hmt]
  rfl

include hP hT hp ht hmp hmt

theorem compatible_of_feasible (hf : Feasible exact s c) {q u : Nat}
    (hq : (s.extend c).pattern.partner? q = some u) :
    Compatible exact P T c ⟨q, u⟩ ∧ Compatible exact P T ⟨q, u⟩ c := by
  have hu := ((hs.extend hP hT hp ht hmp hmt).inverse q u).mp hq
  rw [← imageOf_eq_partner? hs hP hp hmp] at hq
  rw [← preimageOf_eq_partner? hs hT ht hmt] at hu
  obtain ⟨hs1, hs2⟩ := neighboursAgree_iff.mp hf.successors
  obtain ⟨hp1, hp2⟩ := neighboursAgree_iff.mp hf.predecessors
  obtain ⟨hl1, hl2⟩ := labelsAgree_iff.mp hf.labels
  simp only [hs.pattern.graph, hs.target.graph, labelsFit_iff, Bool.not_eq_true', hP.mem_predecessors,
    hT.mem_predecessors] at hs1 hs2 hp1 hp2 hl1 hl2
  constructor
  · exact ⟨fun h => hs1 q h u hq, fun h => hs2 u h q hu, fun h => (hl1 q h u hq).2, fun h => (hl1 q h u hq).1⟩
  · refine ⟨fun h => hp1 q h u hq, fun h => ?_, fun h => (hl2 q h u hq).2, fun h => (hl2 q h u hq).1⟩
    rw [Graph.loose_comm]
    exact hp2 u h q hu

theorem Consistent.extend (hc : Consistent exact P T s) (hf : Feasible exact s c) :
    Consistent exact P T (s.extend c) := by
  have hex := hs.extend hP hT hp ht hmp hmt
  have hpart := hs.partner?_extend hP hp hmp
  refine { hex with suited := fun p t hpt => ?_, compatible := fun p t q u hpt hqu => ?_ }
  · rw [hpart] at hpt
    split at hpt
    · rename_i hpc
      obtain rfl := Option.some.inj hpt
      exact hpc ▸ suited_of_feasible hs hf
    · exact hc.suited p t hpt
  · have hboth (p t : Nat) (h : (s.extend c).pattern.partner? p = some t) :=
      compatible_of_feasible hs hP hT hp ht hmp hmt hf h
    by_cases hpc : p = c.p
    · have htc : c.t = t := by simpa [hpart, hpc] using hpt
      subst hpc htc
      exact (hboth q u hqu).1
    · by_cases hqc : q = c.p
      · have huc : c.t = u := by simpa [hpart, hqc] using hqu
        subst hqc huc
        exact (hboth p t hpt).2
      · rw [hpart, if_neg hpc] at hpt
        rw [hpart, if_neg hqc] at hqu
        exact hc.compatible p t q u hpt hqu

end

theorem Consistent.matches (hc : Consistent exact P T s) (hP : P.WellFormed) (hT : T.WellFormed)
    (hn : exact = true → P.size = T.size) (hdone : s.isComplete = true) (ha : s.Agrees f) : P.Matches exact T f := by
  have hpart (p : Nat) (hp : p < P.size) : s.pattern.partner? p = some (f p) := by
    obtain ⟨t, ht⟩ := Option.isSome_iff_exists.mp (hc.isComplete_iff.mp hdone p hp)
    rw [ha p t ht, ht]
  have hcomp (p q : Nat) (hp : p < P.size) (hq : q < P.size) : Compatible exact P T ⟨p, f p⟩ ⟨q, f q⟩ :=
    hc.compatible p _ q _ (hpart p hp) (hpart q hq)
  have harc (p q : Nat) (h : q ∈ P.successors p) : Compatible exact P T ⟨p, f p⟩ ⟨q, f q⟩ :=
    hcomp p q (hP.successors_lt p q h).1 (hP.successors_lt p q h).2
  have hmono : P.IsMonomorphism T f := by
    refine ⟨fun p hp => ?_, fun p hp q hq hpq => ?_, fun p q h => (harc p q h).arc h⟩
    · have := (hc.inverse p (f p)).mp (hpart p hp)
      exact hc.lt_target (by simp [Side.isMatched, this])
    · have h1 := (hc.inverse p (f p)).mp (hpart p hp)
      have h2 := (hc.inverse q (f q)).mp (hpart q hq)
      rw [← hpq, h1] at h2
      exact Option.some.inj h2
  have honto (p : Nat) (hp : p < P.size) (hclosed : (exact || !P.isExternal p) = true) :
      (∀ u ∈ T.successors (f p), ∃ q ∈ P.successors p, f q = u) ∧
        ∀ u ∈ T.predecessors (f p), ∃ q ∈ P.predecessors p, f q = u := by
    cases exact with
    | false =>
      have hi : P.isExternal p = false := by simpa using hclosed
      exact hmono.onto_of_degree_eq hP hT ((hc.suited p _ (hpart p hp)).inner rfl hi).2
    | true =>
      constructor
      · intro u hu
        obtain ⟨q, hq, rfl⟩ := hmono.onto_of_size_eq (hn rfl) (hT.successors_lt _ u hu).2
        exact ⟨q, by simpa [Graph.loose] using (hcomp p q hp hq).reflects hu, rfl⟩
      · intro u hu
        rw [hT.mem_predecessors] at hu
        obtain ⟨q, hq, rfl⟩ := hmono.onto_of_size_eq (hn rfl) (hT.successors_lt u _ hu).1
        exact ⟨q, (hP.mem_predecessors q p).mpr (by simpa [Graph.loose] using (hcomp q p hq hp).reflects hu), rfl⟩
  refine { hmono with
    label := fun p hp => (hc.suited p _ (hpart p hp)).label
    ordinal := fun hx p hp => (hc.suited p _ (hpart p hp)).ordinal hx
    inner := fun hx p hp hi => ((hc.suited p _ (hpart p hp)).inner hx hi).1
    reflects := fun p hp q hq h => (hcomp p q hp hq).reflects h
    labels := fun p q h => (harc p q h).labels h
    labels_eq := fun p q h hl => ?_
    successors := fun p hp hcl => (honto p hp hcl).1
    predecessors := fun p hp hcl => (honto p hp hcl).2 }
  have hsub := List.Nodup.subperm (hP.labels_nodup p q) ((harc p q h).labels h)
  exact (hsub.perm_of_length_le ((harc p q h).length_eq h hl).ge).symm.subset

section

variable (hs : s.Exact P T) (hP : P.WellFormed) (hT : T.WellFormed) (hf : P.Matches exact T f) (ha : s.Agrees f)
  (hp : c.p < P.size) (hfc : f c.p = c.t)

include hs ha hp hfc

theorem eq_of_imageOf {q u : Nat} (hq : s.imageOf c q = some u) : q < P.size ∧ f q = u := by
  rw [SearchState.imageOf] at hq
  split at hq
  · rename_i hqc
    exact ⟨hqc ▸ hp, by rw [hqc, hfc]; exact Option.some.inj hq⟩
  · exact ⟨hs.lt_pattern (by simp [Side.isMatched, hq]), ha q u hq⟩

theorem eq_of_preimageOf {q u : Nat} (hu : s.preimageOf c u = some q) : q < P.size ∧ f q = u := by
  rw [SearchState.preimageOf] at hu
  split at hu
  · rename_i huc
    obtain rfl := Option.some.inj hu
    exact ⟨hp, by rw [huc, hfc]⟩
  · have hq := (hs.inverse q u).mpr hu
    exact ⟨hs.lt_pattern (by simp [Side.isMatched, hq]), ha q u hq⟩

include hP hT hf

theorem feasible_of_matches : Feasible exact s c where
  label := by
    rw [Feasibility.sameLabel, hs.pattern.graph, hs.target.graph, beq_iff_eq, ← hfc, hf.label c.p hp]
  successors := by
    refine neighboursAgree_iff.mpr ⟨fun q hq t hqt => ?_, fun u hu q huq => ?_⟩
    · rw [hs.pattern.graph] at hq
      rw [hs.target.graph, ← hfc, ← (eq_of_imageOf hs ha hp hfc hqt).2]
      exact hf.arc c.p q hq
    · obtain ⟨hq, rfl⟩ := eq_of_preimageOf hs ha hp hfc huq
      rw [hs.target.graph, ← hfc] at hu
      rw [hs.pattern.graph]
      exact hf.reflects c.p hp q hq hu
  predecessors := by
    refine neighboursAgree_iff.mpr ⟨fun q hq t hqt => ?_, fun u hu q huq => ?_⟩
    · rw [hs.pattern.graph] at hq
      rw [hs.target.graph, ← hfc, ← (eq_of_imageOf hs ha hp hfc hqt).2]
      exact hf.mem_predecessors_image hP hT hq
    · obtain ⟨hq, rfl⟩ := eq_of_preimageOf hs ha hp hfc huq
      rw [hs.target.graph, ← hfc, hT.mem_predecessors] at hu
      rw [hs.pattern.graph, hP.mem_predecessors, Graph.loose_comm]
      exact hf.reflects q hq c.p hp hu
  ordinal := by
    cases exact with
    | true =>
      simp only [if_true, Feasibility.sameOrdinal, hs.pattern.graph, hs.target.graph, beq_iff_eq]
      rw [← hfc, hf.ordinal rfl c.p hp]
    | false =>
      simp only [Bool.false_eq_true, if_false, Feasibility.embedsOrdinal, hs.pattern.graph, hs.target.graph]
      split
      · rw [decide_eq_true_eq, ← hfc]
        exact hf.degree_le hP hT c.p
      · rename_i hi
        rw [Bool.not_eq_true] at hi
        rw [← hfc, hf.inner rfl c.p hp hi, hf.degree_eq hP hT hp (by simp [hi])]
        simp
  labels := by
    have hfit (p q : Nat) (h : q ∈ P.successors p) :
        Feasibility.labelsFit (!P.loose exact p q) (P.arcLabels p q) (T.arcLabels (f p) (f q)) = true := by
      refine labelsFit_iff.mpr ⟨fun hl => ?_, hf.labels p q h⟩
      have h1 := (List.Nodup.subperm (hP.labels_nodup p q) (hf.labels p q h)).length_le
      have h2 := (List.Nodup.subperm (hT.labels_nodup _ _) (hf.labels_eq p q h (by simpa using hl))).length_le
      omega
    refine labelsAgree_iff.mpr ⟨fun q hq t hqt => ?_, fun q hq t hqt => ?_⟩
    · rw [hs.pattern.graph] at hq ⊢
      rw [hs.target.graph, ← hfc, ← (eq_of_imageOf hs ha hp hfc hqt).2]
      exact hfit c.p q hq
    · rw [hs.pattern.graph, hP.mem_predecessors] at hq
      rw [hs.pattern.graph, hs.target.graph, ← hfc, ← (eq_of_imageOf hs ha hp hfc hqt).2]
      exact hfit q c.p hq

end

structure Respects (exact : Bool) (P T : Graph) (f : Nat → Nat) (neighbours : Graph → Nat → List Nat) : Prop where
  lt : ∀ p q, q ∈ neighbours P p → q < P.size
  nodup : ∀ p, (neighbours P p).Nodup
  nodup_target : ∀ t, (neighbours T t).Nodup
  image : ∀ p q, q ∈ neighbours P p → f q ∈ neighbours T (f p)
  onto : ∀ p < P.size, (exact || !P.isExternal p) = true → ∀ u ∈ neighbours T (f p), ∃ q ∈ neighbours P p, f q = u

theorem Graph.Matches.respects_successors (hf : P.Matches exact T f) (hP : P.WellFormed) (hT : T.WellFormed) :
    Respects exact P T f Graph.successors where
  lt p q hq := (hP.successors_lt p q hq).2
  nodup := hP.successors_nodup
  nodup_target := hT.successors_nodup
  image := hf.arc
  onto := hf.successors

theorem Graph.Matches.respects_predecessors (hf : P.Matches exact T f) (hP : P.WellFormed) (hT : T.WellFormed) :
    Respects exact P T f Graph.predecessors where
  lt p q hq := (hP.successors_lt q p ((hP.mem_predecessors q p).mp hq)).1
  nodup := hP.predecessors_nodup
  nodup_target := hT.predecessors_nodup
  image _ _ hq := hf.mem_predecessors_image hP hT hq
  onto := hf.predecessors

section

variable {neighbours : Graph → Nat → List Nat} (hs : s.Exact P T) (hf : P.Matches exact T f) (ha : s.Agrees f)
  (hp : c.p < P.size) (hfc : f c.p = c.t) (hr : Respects exact P T f neighbours)

theorem mem_openNeighbours {σ : Side} {v u : Nat} {us : List Nat} :
    u ∈ Feasibility.openNeighbours σ v us ↔ u ∈ us ∧ u ≠ v ∧ σ.isMatched u = false := by
  simp [Feasibility.openNeighbours]

theorem Feasibility.degreeSum_eq (σ : Side) (v : Nat) : degreeSum σ v =
    Int32.ofNat (((openNeighbours σ v (σ.graph.successors v)).map σ.graph.degree).sum +
      ((openNeighbours σ v (σ.graph.predecessors v)).map σ.graph.degree).sum) := by
  have hfold (us : List Nat) (n : Nat) : us.foldl (fun sum u => sum + Int32.ofNat (σ.graph.degree u)) (Int32.ofNat n) =
      Int32.ofNat (n + (us.map σ.graph.degree).sum) := by
    induction us generalizing n with
    | nil => simp
    | cons u us ih => rw [List.foldl_cons, ← Int32.ofNat_add, ih, List.map_cons, List.sum_cons, Nat.add_assoc]
  rw [← List.sum_append, ← List.map_append]
  exact (hfold _ 0).trans (by rw [Nat.zero_add])

include hs hf ha hp hfc hr

theorem openNeighbours_image {q : Nat} (hq : q ∈ Feasibility.openNeighbours s.pattern c.p (neighbours P c.p)) :
    f q ∈ Feasibility.openNeighbours s.target c.t (neighbours T c.t) := by
  obtain ⟨hq, hne, hm⟩ := mem_openNeighbours.mp hq
  have hlt := hr.lt _ _ hq
  refine mem_openNeighbours.mpr ⟨hfc ▸ hr.image _ _ hq, fun h => hne ?_, ?_⟩
  · exact hf.inj q hlt c.p hp (h.trans hfc.symm)
  · rw [hs.isMatched_image hf.toIsMonomorphism ha hlt, hm]

theorem openNeighbours_subperm : ((Feasibility.openNeighbours s.pattern c.p (neighbours P c.p)).map f).Subperm
    (Feasibility.openNeighbours s.target c.t (neighbours T c.t)) := by
  have hlt (q : Nat) (hq : q ∈ Feasibility.openNeighbours s.pattern c.p (neighbours P c.p)) : q < P.size :=
    hr.lt _ _ (mem_openNeighbours.mp hq).1
  exact Graph.map_subperm ((hr.nodup c.p).filter _) (fun q hq r hr' hqr => hf.inj q (hlt q hq) r (hlt r hr') hqr)
    (fun q hq => openNeighbours_image hs hf ha hp hfc hr hq)

theorem openNeighbours_perm (hcl : (exact || !P.isExternal c.p) = true) :
    ((Feasibility.openNeighbours s.pattern c.p (neighbours P c.p)).map f).Perm
      (Feasibility.openNeighbours s.target c.t (neighbours T c.t)) := by
  refine Graph.perm_of_map_subperm (openNeighbours_subperm hs hf ha hp hfc hr) ((hr.nodup_target c.t).filter _) ?_
  intro u hu
  obtain ⟨hu, hne, hm⟩ := mem_openNeighbours.mp hu
  obtain ⟨q, hq, rfl⟩ := hr.onto c.p hp hcl u (hfc ▸ hu)
  have hlt := hr.lt _ _ hq
  refine ⟨q, mem_openNeighbours.mpr ⟨hq, fun h => hne (h ▸ hfc), ?_⟩, rfl⟩
  rwa [hs.isMatched_image hf.toIsMonomorphism ha hlt] at hm

theorem lookahead_of_matches {frontier : Side → Nat → Bool}
    (hfr : ∀ q < P.size, frontier s.pattern q = true → frontier s.target (f q) = true) :
    Feasibility.lookahead exact neighbours frontier s c = true := by
  rw [Feasibility.lookahead, hs.pattern.graph, hs.target.graph]
  have hsub := openNeighbours_subperm hs hf ha hp hfc hr
  simp only [Bool.and_eq_true, decide_eq_true_eq]
  constructor
  · have hcount : (Feasibility.openNeighbours s.pattern c.p (neighbours P c.p)).countP (frontier s.pattern) ≤
        ((Feasibility.openNeighbours s.pattern c.p (neighbours P c.p)).map f).countP (frontier s.target) := by
      rw [List.countP_map]
      refine List.countP_mono_left fun q hq hq' => hfr q ?_ hq'
      exact hr.lt _ _ (mem_openNeighbours.mp hq).1
    exact hcount.trans (hsub.countP_le _)
  · split
    · rename_i hcl
      rw [beq_iff_eq, ← (openNeighbours_perm hs hf ha hp hfc hr hcl).length_eq, List.length_map]
    · simpa using hsub.length_le

end

section

variable (hs : s.Exact P T) (hP : P.WellFormed) (hT : T.WellFormed) (hf : P.Matches exact T f) (ha : s.Agrees f)
  (hp : c.p < P.size) (hfc : f c.p = c.t)

include hs hP hT hf ha hp hfc

theorem lookaheadOut_of_matches : Feasibility.lookaheadOut exact s c = true :=
  lookahead_of_matches hs hf ha hp hfc (hf.respects_successors hP hT)
    fun _ hq hfr => hs.inOutFrontier_image hf.toIsMonomorphism ha hq hfr

theorem lookaheadIn_of_matches : Feasibility.lookaheadIn exact s c = true :=
  lookahead_of_matches hs hf ha hp hfc (hf.respects_predecessors hP hT)
    fun _ hq hfr => hs.inInFrontier_image hf.toIsMonomorphism ha hP hT hq hfr

theorem lookaheadTwo_of_matches (hfit : exact = true ∨ T.SumsFit) : Feasibility.lookaheadTwo exact s c = true := by
  have hsum {ps ts : List Nat} (h : (ps.map f).Subperm ts) : (ps.map P.degree).sum ≤ (ts.map T.degree).sum := by
    calc (ps.map P.degree).sum ≤ (ps.map (fun q => T.degree (f q))).sum :=
          List.sum_le_sum fun q _ => hf.degree_le hP hT q
      _ = ((ps.map f).map T.degree).sum := by rw [List.map_map]; rfl
      _ ≤ (ts.map T.degree).sum := by
          obtain ⟨us, hperm, hsub⟩ := h
          rw [← (hperm.map T.degree).sum_eq]
          exact (hsub.map T.degree).sum_le_sum fun _ _ => Nat.zero_le _
  have hs1 := hsum (openNeighbours_subperm hs hf ha hp hfc (hf.respects_successors hP hT))
  have hs2 := hsum (openNeighbours_subperm hs hf ha hp hfc (hf.respects_predecessors hP hT))
  rw [Feasibility.lookaheadTwo]
  simp only [Feasibility.degreeSum_eq, hs.pattern.graph, hs.target.graph]
  cases exact with
  | false =>
    simp only [Bool.false_eq_true, if_false, decide_eq_true_eq]
    have hbound := hfit.resolve_left Bool.false_ne_true c.t (hfc ▸ hf.lt c.p hp)
    have hopen (us : List Nat) : ((Feasibility.openNeighbours s.target c.t us).map T.degree).sum ≤ (us.map T.degree).sum :=
      (List.filter_sublist.map T.degree).sum_le_sum fun _ _ => Nat.zero_le _
    have ht1 := hopen (T.successors c.t)
    have ht2 := hopen (T.predecessors c.t)
    rw [Graph.degreesAround] at hbound
    rw [Int32.le_iff_toInt_le, Int32.toInt_ofNat_of_lt (by omega), Int32.toInt_ofNat_of_lt (by omega)]
    omega
  | true =>
    have heq {ps ts : List Nat} (hlt : ∀ q ∈ ps, q < P.size) (h : (ps.map f).Perm ts) :
        (ps.map P.degree).sum = (ts.map T.degree).sum := by
      rw [← (h.map T.degree).sum_eq, List.map_map]
      refine congrArg List.sum (List.map_congr_left fun q hq => ?_)
      exact hf.degree_eq hP hT (hlt q hq) rfl
    have hr1 := hf.respects_successors hP hT
    have hr2 := hf.respects_predecessors hP hT
    have h1 := heq (fun q hq => hr1.lt _ _ (mem_openNeighbours.mp hq).1) (openNeighbours_perm hs hf ha hp hfc hr1 rfl)
    have h2 := heq (fun q hq => hr2.lt _ _ (mem_openNeighbours.mp hq).1) (openNeighbours_perm hs hf ha hp hfc hr2 rfl)
    simp only [if_true, beq_iff_eq, h1, h2]

end

end

end HeapAbstraction
