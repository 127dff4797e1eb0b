import Mathlib
import HeapAbstraction.Morphism.State
import HeapAbstraction.Proofs.Lists

namespace HeapAbstraction

def tally (n : Nat) (f : Nat → Bool) : Nat := ((Finset.range n).filter (fun v => f v = true)).card

theorem mem_tally {n v : Nat} {f : Nat → Bool} : v ∈ (Finset.range n).filter (fun v => f v = true) ↔ v < n ∧ f v = true := by
  rw [Finset.mem_filter, Finset.mem_range]

theorem tally_congr {n : Nat} {f g : Nat → Bool} (h : ∀ v < n, f v = g v) : tally n f = tally n g := by
  refine congrArg Finset.card (Finset.filter_congr fun v hv => ?_)
  rw [h v (Finset.mem_range.mp hv)]

theorem tally_succ {n v : Nat} {f g : Nat → Bool} (hv : v < n) (hf : f v = true) (hg : g v = false)
    (h : ∀ w, w ≠ v → f w = g w) : tally n f = tally n g + 1 := by
  have hins : (Finset.range n).filter (fun v => f v = true) =
      insert v ((Finset.range n).filter (fun v => g v = true)) := by
    ext w
    rw [Finset.mem_insert, mem_tally, mem_tally]
    by_cases hw : w = v
    · subst hw
      simp [hv, hf]
    · simp [hw, h w hw]
  rw [tally, hins, Finset.card_insert_of_notMem, tally]
  rw [mem_tally, hg]
  simp

theorem tally_le {n k : Nat} {f g : Nat → Bool} (i : Nat → Nat) (hm : ∀ v < n, f v = true → i v < k ∧ g (i v) = true)
    (hi : ∀ v < n, ∀ w < n, i v = i w → v = w) : tally n f ≤ tally k g := by
  refine Finset.card_le_card_of_injOn i (fun v hv => ?_) fun v hv w hw hvw => ?_
  · obtain ⟨hv, hf⟩ := mem_tally.mp hv
    exact mem_tally.mpr (hm v hv hf)
  · exact hi v (mem_tally.mp hv).1 w (mem_tally.mp hw).1 hvw

theorem tally_pos {n : Nat} {f : Nat → Bool} : 0 < tally n f ↔ ∃ v < n, f v = true := by
  rw [tally, Finset.card_pos]
  exact ⟨fun ⟨v, hv⟩ => ⟨v, mem_tally.mp hv⟩, fun ⟨v, hv⟩ => ⟨v, mem_tally.mpr hv⟩⟩

theorem tally_not {n : Nat} {f : Nat → Bool} : tally n (fun v => !f v) + tally n f = n := by
  have h := Finset.card_filter_add_card_filter_not (s := Finset.range n) (fun v => f v = true)
  rw [Finset.card_range] at h
  rw [tally, tally, Nat.add_comm]
  simpa using h

structure Graph.WellFormed (g : Graph) : Prop where
  successors_lt : ∀ v w, w ∈ g.successors v → v < g.size ∧ w < g.size
  mem_predecessors : ∀ v w, v ∈ g.predecessors w ↔ w ∈ g.successors v
  successors_nodup : ∀ v, (g.successors v).Nodup
  predecessors_nodup : ∀ v, (g.predecessors v).Nodup
  labels_nodup : ∀ v w, (g.arcLabels v w).Nodup

namespace Side

structure Tallied (n : Nat) (s : Side) : Prop where
  partner_length : s.partner.length = n
  inOut_length : s.inOut.length = n
  inIn_length : s.inIn.length = n
  numMatched : s.numMatched = tally n s.isMatched
  numOut : s.numOut = tally n s.inOutFrontier
  numIn : s.numIn = tally n s.inInFrontier

structure Exact (g : Graph) (s : Side) : Prop extends Tallied g.size s where
  graph : s.graph = g
  flaggedOut : ∀ v, s.flaggedOut v = true ↔ ∃ u, s.isMatched u = true ∧ v ∈ g.successors u
  flaggedIn : ∀ v, s.flaggedIn v = true ↔ ∃ u, s.isMatched u = true ∧ v ∈ g.predecessors u

variable {g : Graph} {s : Side} {n v w t : Nat}

theorem exact_start (g : Graph) : (Side.start g).Exact g := by
  have hp (v : Nat) : (Side.start g).isMatched v = false := by
    simp only [isMatched, partner?, start, List.getElem?_replicate]
    split <;> rfl
  have ho (v : Nat) : (Side.start g).flaggedOut v = false := by
    simp only [flaggedOut, start, List.getElem?_replicate]
    split <;> rfl
  have hi (v : Nat) : (Side.start g).flaggedIn v = false := by
    simp only [flaggedIn, start, List.getElem?_replicate]
    split <;> rfl
  have hzero (f : Nat → Bool) (hf : ∀ v, f v = false) : tally g.size f = 0 := by
    simp [tally, hf]
  refine ⟨⟨?_, ?_, ?_, ?_, ?_, ?_⟩, rfl, fun v => ?_, fun v => ?_⟩
  · simp [start]
  · simp [start]
  · simp [start]
  · rw [hzero _ hp]
    rfl
  · rw [hzero _ fun v => by simp [inOutFrontier, ho]]
    rfl
  · rw [hzero _ fun v => by simp [inInFrontier, hi]]
    rfl
  · simp [hp, ho]
  · simp [hp, hi]

theorem partner?_pair (hv : v < s.partner.length) : (s.pair v t).partner? w = if w = v then some t else s.partner? w := by
  simp only [partner?, pair, List.getElem?_set]
  by_cases hw : v = w
  · subst hw
    simp [hv]
  · have hw' : w ≠ v := fun h => hw h.symm
    simp [hw, hw']

theorem isMatched_pair (hv : v < s.partner.length) : (s.pair v t).isMatched w = (w == v || s.isMatched w) := by
  rw [isMatched, partner?_pair hv, isMatched]
  by_cases hw : w = v <;> simp [hw]

theorem isMatched_pair_self (hv : v < s.partner.length) : (s.pair v t).isMatched v = true := by simp [isMatched_pair hv]

theorem isMatched_pair_of_ne (hv : v < s.partner.length) (hw : w ≠ v) : (s.pair v t).isMatched w = s.isMatched w := by
  simp [isMatched_pair hv, hw]

def mirror (s : Side) : Side := { s with inOut := s.inIn, inIn := s.inOut, numOut := s.numIn, numIn := s.numOut }

theorem Tallied.mirror (hs : s.Tallied n) : s.mirror.Tallied n :=
  ⟨hs.partner_length, hs.inIn_length, hs.inOut_length, hs.numMatched, hs.numIn, hs.numOut⟩

theorem Tallied.numOut_pair (hs : s.Tallied n) (hv : v < n) (hm : s.isMatched v = false) :
    (s.pair v t).numOut = tally n (s.pair v t).inOutFrontier := by
  have hlt : v < s.partner.length := hs.partner_length.symm ▸ hv
  change (if s.flaggedOut v then s.numOut - 1 else s.numOut) = _
  have hnew : (s.pair v t).inOutFrontier v = false := by simp [inOutFrontier, isMatched_pair_self hlt]
  have hrest (w : Nat) (hw : w ≠ v) : s.inOutFrontier w = (s.pair v t).inOutFrontier w := by
    simp only [inOutFrontier, isMatched_pair_of_ne hlt hw]
    rfl
  cases hf : s.flaggedOut v with
  | true =>
    have := tally_succ (f := s.inOutFrontier) hv (by simp [inOutFrontier, hf, hm]) hnew hrest
    simp [hs.numOut, this]
  | false =>
    have hold : s.inOutFrontier v = false := by simp [inOutFrontier, hf]
    simp only [hs.numOut, Bool.false_eq_true, if_false, Nat.cast_inj]
    refine tally_congr fun w _ => ?_
    by_cases hw : w = v
    · rw [hw, hold, hnew]
    · exact hrest w hw

theorem Tallied.pair (hs : s.Tallied n) (hv : v < n) (hm : s.isMatched v = false) : (s.pair v t).Tallied n := by
  have hlt : v < s.partner.length := hs.partner_length.symm ▸ hv
  refine ⟨by simp [Side.pair, hs.partner_length], hs.inOut_length, hs.inIn_length, ?_, hs.numOut_pair hv hm,
    hs.mirror.numOut_pair hv hm⟩
  rw [tally_succ hv (isMatched_pair_self hlt) hm fun w hw => isMatched_pair_of_ne hlt hw]
  simp [Side.pair, hs.numMatched]

theorem flaggedOut_flagOut (hv : v < s.inOut.length) : (s.flagOut v).flaggedOut w = (w == v || s.flaggedOut w) := by
  simp only [flaggedOut, flagOut, List.getElem?_set]
  by_cases hw : v = w
  · subst hw
    simp [hv]
  · have hw' : w ≠ v := fun h => hw h.symm
    simp [hw, hw']

theorem Tallied.flagOut (hs : s.Tallied n) (hv : v < n) (hf : s.flaggedOut v = false) : (s.flagOut v).Tallied n := by
  have hlt : v < s.inOut.length := hs.inOut_length.symm ▸ hv
  refine ⟨hs.partner_length, by simp [Side.flagOut, hs.inOut_length], hs.inIn_length, hs.numMatched, ?_, hs.numIn⟩
  change (if s.isMatched v then s.numOut else s.numOut + 1) = _
  have hfront (w : Nat) : (s.flagOut v).inOutFrontier w = ((w == v || s.flaggedOut w) && !s.isMatched w) := by
    rw [inOutFrontier, flaggedOut_flagOut hlt]
    rfl
  have hrest (w : Nat) (hw : w ≠ v) : (s.flagOut v).inOutFrontier w = s.inOutFrontier w := by
    have hb : (w == v) = false := by simpa using hw
    rw [hfront, hb, Bool.false_or, inOutFrontier]
  have hold : s.inOutFrontier v = false := by simp [inOutFrontier, hf]
  cases hm : s.isMatched v with
  | false =>
    rw [tally_succ hv (by simp [hfront, hm]) hold hrest]
    simp [hs.numOut]
  | true =>
    simp only [hs.numOut, if_true, Nat.cast_inj]
    refine tally_congr fun w _ => ?_
    by_cases hw : w = v
    · subst hw
      simp [hfront, hm, hold]
    · exact (hrest w hw).symm

def flagNew (k : Frontier) (s : Side) (v : Nat) : Side := if s.flagged k v then s else s.flag k v

theorem foldl_flagNew_out (vs : List Nat) (hs : s.Tallied n) (hv : ∀ v ∈ vs, v < n) :
    (vs.foldl (flagNew .out) s).Tallied n ∧ (vs.foldl (flagNew .out) s).graph = s.graph ∧
      (vs.foldl (flagNew .out) s).partner = s.partner ∧ (vs.foldl (flagNew .out) s).inIn = s.inIn ∧
      ∀ w, (vs.foldl (flagNew .out) s).flaggedOut w = true ↔ w ∈ vs ∨ s.flaggedOut w = true := by
  induction vs generalizing s with
  | nil => simp [hs]
  | cons v vs ih =>
    obtain ⟨hlt, hrest⟩ := List.forall_mem_cons.mp hv
    rw [List.foldl_cons]
    cases hf : s.flaggedOut v with
    | true =>
      have hsame : flagNew .out s v = s := if_pos hf
      obtain ⟨h1, h2, h3, h4, h5⟩ := ih hs hrest
      rw [hsame]
      refine ⟨h1, h2, h3, h4, fun w => ?_⟩
      rw [h5, List.mem_cons]
      by_cases hw : w = v
      · simp [hw, hf]
      · simp [hw]
    | false =>
      have hnew : flagNew .out s v = s.flagOut v := if_neg (Bool.eq_false_iff.mp hf)
      have hlen : v < s.inOut.length := hs.inOut_length.symm ▸ hlt
      obtain ⟨h1, h2, h3, h4, h5⟩ := ih (hs.flagOut hlt hf) hrest
      rw [hnew]
      refine ⟨h1, h2, h3, h4, fun w => ?_⟩
      rw [h5, flaggedOut_flagOut hlen, Bool.or_eq_true, beq_iff_eq, List.mem_cons]
      tauto

theorem mirror_flagNew (s : Side) (v : Nat) : (flagNew .into s v).mirror = flagNew .out s.mirror v := by
  rw [flagNew, flagNew]
  change (if s.flaggedIn v then s else s.flagIn v).mirror = if s.flaggedIn v then s.mirror else s.mirror.flagOut v
  split
  · rfl
  · rfl

theorem foldl_flagNew_into (vs : List Nat) (hs : s.Tallied n) (hv : ∀ v ∈ vs, v < n) :
    (vs.foldl (flagNew .into) s).Tallied n ∧ (vs.foldl (flagNew .into) s).graph = s.graph ∧
      (vs.foldl (flagNew .into) s).partner = s.partner ∧ (vs.foldl (flagNew .into) s).inOut = s.inOut ∧
      ∀ w, (vs.foldl (flagNew .into) s).flaggedIn w = true ↔ w ∈ vs ∨ s.flaggedIn w = true := by
  have hmirror : (vs.foldl (flagNew .into) s).mirror = vs.foldl (flagNew .out) s.mirror :=
    (List.foldl_hom mirror fun s v => (mirror_flagNew s v).symm).symm
  obtain ⟨h1, h2, h3, h4, h5⟩ := foldl_flagNew_out vs hs.mirror hv
  rw [← hmirror] at h1 h2 h3 h4 h5
  exact ⟨h1.mirror, h2, h3, h4, h5⟩

def extended (s : Side) (v t : Nat) : Side :=
  (s.graph.predecessors v).foldl (flagNew .into) ((s.graph.successors v).foldl (flagNew .out) (s.pair v t))

theorem Tallied.extended (hs : s.Tallied n) (hb : ∀ w ∈ s.graph.successors v ++ s.graph.predecessors v, w < n)
    (hv : v < n) (hm : s.isMatched v = false) :
    (s.extended v t).Tallied n ∧ (s.extended v t).graph = s.graph ∧
      (∀ w, (s.extended v t).partner? w = if w = v then some t else s.partner? w) ∧
      (∀ w, (s.extended v t).flaggedOut w = true ↔ w ∈ s.graph.successors v ∨ s.flaggedOut w = true) ∧
      ∀ w, (s.extended v t).flaggedIn w = true ↔ w ∈ s.graph.predecessors v ∨ s.flaggedIn w = true := by
  have hlt : v < s.partner.length := hs.partner_length.symm ▸ hv
  obtain ⟨h1, h2, h3, h4, h5⟩ := foldl_flagNew_out (s.graph.successors v) (hs.pair (t := t) hv hm)
    fun w hw => hb w (List.mem_append_left _ hw)
  obtain ⟨k1, k2, k3, k4, k5⟩ := foldl_flagNew_into (s.graph.predecessors v) h1
    fun w hw => hb w (List.mem_append_right _ hw)
  refine ⟨k1, k2.trans h2, fun w => ?_, fun w => ?_, fun w => ?_⟩
  · rw [← partner?_pair hlt, Side.extended, partner?, k3, h3, partner?]
  · rw [Side.extended, Side.flaggedOut, k4, ← Side.flaggedOut]
    exact h5 w
  · refine (k5 w).trans (or_congr_right ?_)
    rw [Side.flaggedIn, h4]
    rfl

theorem exists_insert_iff {neighbours : Nat → List Nat} {matched : Nat → Prop} :
    (w ∈ neighbours v ∨ ∃ u, matched u ∧ w ∈ neighbours u) ↔ ∃ u, (u = v ∨ matched u) ∧ w ∈ neighbours u := by
  constructor
  · rintro (hw | ⟨u, hu, hw⟩)
    · exact ⟨v, .inl rfl, hw⟩
    · exact ⟨u, .inr hu, hw⟩
  · rintro ⟨u, rfl | hu, hw⟩
    · exact .inl hw
    · exact .inr ⟨u, hu, hw⟩

theorem Exact.neighbour_lt (hs : s.Exact g) (hg : g.WellFormed) :
    ∀ w ∈ s.graph.successors v ++ s.graph.predecessors v, w < g.size := by
  rw [hs.graph]
  intro w hw
  rcases List.mem_append.mp hw with hw | hw
  · exact (hg.successors_lt v w hw).2
  · exact (hg.successors_lt w v ((hg.mem_predecessors w v).mp hw)).1

theorem Exact.extended (hs : s.Exact g) (hg : g.WellFormed) (hv : v < g.size) (hm : s.isMatched v = false) :
    (s.extended v t).Exact g ∧ ∀ w, (s.extended v t).partner? w = if w = v then some t else s.partner? w := by
  obtain ⟨htallied, hgraph, hpartner, hout, hin⟩ := hs.toTallied.extended (t := t) (hs.neighbour_lt hg) hv hm
  have hmatched (w : Nat) : (s.extended v t).isMatched w = true ↔ w = v ∨ s.isMatched w = true := by
    rw [isMatched, hpartner, isMatched]
    by_cases hw : w = v <;> simp [hw]
  refine ⟨⟨htallied, hgraph.trans hs.graph, fun w => ?_, fun w => ?_⟩, hpartner⟩
  · simp only [hout, hs.graph, hmatched, hs.flaggedOut]
    exact exists_insert_iff
  · simp only [hin, hs.graph, hmatched, hs.flaggedIn]
    exact exists_insert_iff

theorem Tallied.numUnmatched (hs : s.Tallied n) : s.numUnmatched = tally n (fun v => !s.isMatched v) := by
  have := tally_not (n := n) (f := s.isMatched)
  rw [Side.numUnmatched, hs.partner_length, hs.numMatched]
  omega

theorem lt_of_isMatched (hm : s.isMatched v = true) : v < s.partner.length := by
  by_contra hlt
  simp [isMatched, partner?, List.getElem?_eq_none (Nat.not_lt.mp hlt)] at hm

end Side

structure Graph.IsMonomorphism (P T : Graph) (f : Nat → Nat) : Prop where
  lt : ∀ p < P.size, f p < T.size
  inj : ∀ p < P.size, ∀ q < P.size, f p = f q → p = q
  arc : ∀ p q, q ∈ P.successors p → f q ∈ T.successors (f p)

namespace SearchState

structure Exact (P T : Graph) (s : SearchState) : Prop where
  pattern : s.pattern.Exact P
  target : s.target.Exact T
  inverse : ∀ p t, s.pattern.partner? p = some t ↔ s.target.partner? t = some p

def Agrees (s : SearchState) (f : Nat → Nat) : Prop := ∀ p t, s.pattern.partner? p = some t → f p = t

variable {P T : Graph} {s : SearchState} {f : Nat → Nat} {c : Pair} {p t : Nat}

theorem side_note (s : SearchState) (e : JournalEntry) (b : Bool) :
    (s.note e).side b = if b = e.onPattern then Side.flagNew e.frontier (s.side b) e.vertex else s.side b := by
  obtain ⟨v, onPattern, k⟩ := e
  simp only [note, Side.flagNew]
  by_cases hf : (s.side onPattern).flagged k v = true
  · cases b <;> cases onPattern <;> simp [hf]
  · cases b <;> cases onPattern <;> simp_all [side, setSide]

theorem side_foldl_note (vs : List Nat) (s : SearchState) (b b' : Bool) (k : Frontier) :
    (vs.foldl (fun s u => s.note ⟨u, b, k⟩) s).side b' =
      if b' = b then vs.foldl (Side.flagNew k) (s.side b') else s.side b' := by
  induction vs generalizing s with
  | nil => simp
  | cons v vs ih =>
    rw [List.foldl_cons, ih, side_note]
    by_cases hb : b' = b <;> simp [hb]

theorem side_flagNeighbours (s : SearchState) (b b' : Bool) (v : Nat) : (s.flagNeighbours b v).side b' =
    if b' = b then ((s.side b).graph.predecessors v).foldl (Side.flagNew .into)
      (((s.side b).graph.successors v).foldl (Side.flagNew .out) (s.side b)) else s.side b' := by
  rw [flagNeighbours, side_foldl_note, side_foldl_note]
  by_cases hb : b' = b
  · subst hb
    simp
  · simp [hb]

theorem pattern_extend (s : SearchState) (c : Pair) : (s.extend c).pattern = s.pattern.extended c.p c.t := by
  change (s.extend c).side true = _
  rw [extend, side_flagNeighbours, if_neg (by decide), side_flagNeighbours, if_pos rfl]
  rfl

theorem target_extend (s : SearchState) (c : Pair) : (s.extend c).target = s.target.extended c.t c.p := by
  change (s.extend c).side false = _
  rw [extend, side_flagNeighbours, if_pos rfl, side_flagNeighbours, if_neg (by decide)]
  rfl

theorem exact_start (P T : Graph) : (start P T).Exact P T := by
  refine ⟨Side.exact_start P, Side.exact_start T, fun p t => ?_⟩
  have hnone (g : Graph) (v w : Nat) : (Side.start g).partner? v ≠ some w := by
    simp only [Side.partner?, Side.start, List.getElem?_replicate]
    split <;> simp
  simp [start, hnone]

theorem tally_start (P T : Graph) : tally P.size (fun v => !(start P T).pattern.isMatched v) ≤ P.size := by
  have := tally_not (n := P.size) (f := (start P T).pattern.isMatched)
  omega

theorem agrees_start (P T : Graph) (f : Nat → Nat) : (start P T).Agrees f := by
  intro p t hp
  simp only [start, Side.partner?, Side.start, List.getElem?_replicate] at hp
  split at hp <;> simp at hp

namespace Exact

theorem lt_pattern (hs : s.Exact P T) (hp : s.pattern.isMatched p = true) : p < P.size :=
  hs.pattern.partner_length ▸ Side.lt_of_isMatched hp

theorem lt_target (hs : s.Exact P T) (ht : s.target.isMatched t = true) : t < T.size :=
  hs.target.partner_length ▸ Side.lt_of_isMatched ht

theorem partner?_extend (hs : s.Exact P T) (hP : P.WellFormed) (hp : c.p < P.size)
    (hmp : s.pattern.isMatched c.p = false) (q : Nat) :
    (s.extend c).pattern.partner? q = if q = c.p then some c.t else s.pattern.partner? q := by
  rw [pattern_extend]
  exact (hs.pattern.extended hP hp hmp).2 q

theorem partner?_extend_target (hs : s.Exact P T) (hT : T.WellFormed) (ht : c.t < T.size)
    (hmt : s.target.isMatched c.t = false) (u : Nat) :
    (s.extend c).target.partner? u = if u = c.t then some c.p else s.target.partner? u := by
  rw [target_extend]
  exact (hs.target.extended hT ht hmt).2 u

theorem extend (hs : s.Exact P T) (hP : P.WellFormed) (hT : T.WellFormed) (hp : c.p < P.size) (ht : c.t < T.size)
    (hmp : s.pattern.isMatched c.p = false) (hmt : s.target.isMatched c.t = false) : (s.extend c).Exact P T := by
  refine ⟨pattern_extend s c ▸ (hs.pattern.extended hP hp hmp).1,
    target_extend s c ▸ (hs.target.extended hT ht hmt).1, fun q u => ?_⟩
  rw [hs.partner?_extend hP hp hmp, hs.partner?_extend_target hT ht hmt]
  have hnp : s.pattern.partner? c.p = none := by simpa [Side.isMatched] using hmp
  have hnt : s.target.partner? c.t = none := by simpa [Side.isMatched] using hmt
  by_cases hq : q = c.p <;> by_cases hu : u = c.t
  · simp [hq, hu]
  · have hne : s.target.partner? u ≠ some c.p := fun hx => by
      rw [← hs.inverse, hnp] at hx
      simp at hx
    have hu' : c.t ≠ u := fun hx => hu hx.symm
    simp [hq, hu, hu', hne]
  · have hne : s.pattern.partner? q ≠ some c.t := fun hx => by
      rw [hs.inverse, hnt] at hx
      simp at hx
    have hq' : c.p ≠ q := fun hx => hq hx.symm
    simp [hq, hu, hq', hne]
  · simp [hq, hu, hs.inverse]

theorem agrees_extend (hs : s.Exact P T) (hP : P.WellFormed) (hp : c.p < P.size) (hmp : s.pattern.isMatched c.p = false) :
    (s.extend c).Agrees f ↔ s.Agrees f ∧ f c.p = c.t := by
  have hnp : s.pattern.partner? c.p = none := by simpa [Side.isMatched] using hmp
  constructor
  · intro h
    refine ⟨fun q t hq => h q t ?_, h c.p c.t ?_⟩
    · rw [hs.partner?_extend hP hp hmp, if_neg, hq]
      rintro rfl
      simp [hnp] at hq
    · rw [hs.partner?_extend hP hp hmp, if_pos rfl]
  · rintro ⟨h, hc⟩ q t hq
    rw [hs.partner?_extend hP hp hmp] at hq
    split at hq
    · rename_i hqc
      rw [hqc, hc]
      exact Option.some.inj hq
    · exact h q t hq

theorem isComplete_iff (hs : s.Exact P T) : s.isComplete = true ↔ ∀ p < P.size, s.pattern.isMatched p = true := by
  rw [isComplete, beq_iff_eq, hs.pattern.toTallied.numUnmatched]
  constructor
  · intro h p hp
    by_contra hm
    have := (tally_pos (f := fun v => !s.pattern.isMatched v)).mpr ⟨p, hp, by simpa using hm⟩
    omega
  · intro h
    by_contra hne
    obtain ⟨p, hp, hm⟩ := (tally_pos (f := fun v => !s.pattern.isMatched v)).mp (by omega : 0 < tally P.size _)
    simp [h p hp] at hm

theorem morphism_eq (hs : s.Exact P T) (hc : s.isComplete = true) (hf : s.Agrees f) :
    s.morphism = (List.range P.size).map f := by
  refine List.ext_getElem? fun p => ?_
  simp only [morphism, List.getElem?_map]
  by_cases hp : p < P.size
  · obtain ⟨t, ht⟩ := Option.isSome_iff_exists.mp (hs.isComplete_iff.mp hc p hp)
    have hft := hf p t ht
    obtain ⟨o, ho, rfl⟩ : ∃ o, s.pattern.partner[p]? = some o ∧ o = some t := by
      simpa [Side.partner?, Option.join_eq_some_iff] using ht
    simp [ho, hp, hft]
  · have hlen : s.pattern.partner.length ≤ p := hs.pattern.partner_length ▸ Nat.not_lt.mp hp
    simp [List.getElem?_eq_none hlen, Nat.not_lt.mp hp]

section

variable (hs : s.Exact P T) (hf : P.IsMonomorphism T f) (ha : s.Agrees f)

include hs hf ha

theorem isMatched_image (hp : p < P.size) : s.target.isMatched (f p) = s.pattern.isMatched p := by
  rw [Bool.eq_iff_iff]
  constructor
  · intro hm
    obtain ⟨q, hq⟩ := Option.isSome_iff_exists.mp hm
    have hq' := (hs.inverse q (f p)).mpr hq
    have hqm : s.pattern.isMatched q = true := by simp [Side.isMatched, hq']
    rwa [← hf.inj q (hs.lt_pattern hqm) p hp (ha q _ hq')]
  · intro hm
    obtain ⟨t, ht⟩ := Option.isSome_iff_exists.mp hm
    rw [ha p t ht, Side.isMatched, (hs.inverse p t).mp ht]
    rfl

theorem flaggedOut_image (hp : s.pattern.flaggedOut p = true) : s.target.flaggedOut (f p) = true := by
  obtain ⟨u, hu, hpu⟩ := (hs.pattern.flaggedOut p).mp hp
  refine (hs.target.flaggedOut (f p)).mpr ⟨f u, ?_, hf.arc u p hpu⟩
  rw [hs.isMatched_image hf ha (hs.lt_pattern hu), hu]

theorem flaggedIn_image (hP : P.WellFormed) (hT : T.WellFormed) (hp : s.pattern.flaggedIn p = true) :
    s.target.flaggedIn (f p) = true := by
  obtain ⟨u, hu, hpu⟩ := (hs.pattern.flaggedIn p).mp hp
  rw [hP.mem_predecessors] at hpu
  refine (hs.target.flaggedIn (f p)).mpr ⟨f u, ?_, (hT.mem_predecessors _ _).mpr (hf.arc p u hpu)⟩
  rw [hs.isMatched_image hf ha (hs.lt_pattern hu), hu]

theorem inOutFrontier_image (hp : p < P.size) (hfr : s.pattern.inOutFrontier p = true) :
    s.target.inOutFrontier (f p) = true := by
  rw [Side.inOutFrontier, Bool.and_eq_true] at hfr ⊢
  exact ⟨hs.flaggedOut_image hf ha hfr.1, by rw [hs.isMatched_image hf ha hp]; exact hfr.2⟩

theorem inInFrontier_image (hP : P.WellFormed) (hT : T.WellFormed) (hp : p < P.size)
    (hfr : s.pattern.inInFrontier p = true) : s.target.inInFrontier (f p) = true := by
  rw [Side.inInFrontier, Bool.and_eq_true] at hfr ⊢
  exact ⟨hs.flaggedIn_image hf ha hP hT hfr.1, by rw [hs.isMatched_image hf ha hp]; exact hfr.2⟩

theorem numOut_le : s.pattern.numOut ≤ s.target.numOut := by
  rw [hs.pattern.numOut, hs.target.numOut]
  exact_mod_cast tally_le f (fun p hp hfr => ⟨hf.lt p hp, hs.inOutFrontier_image hf ha hp hfr⟩) hf.inj

theorem numIn_le (hP : P.WellFormed) (hT : T.WellFormed) : s.pattern.numIn ≤ s.target.numIn := by
  rw [hs.pattern.numIn, hs.target.numIn]
  exact_mod_cast tally_le f (fun p hp hfr => ⟨hf.lt p hp, hs.inInFrontier_image hf ha hP hT hp hfr⟩) hf.inj

theorem not_isHopeless (hP : P.WellFormed) (hT : T.WellFormed) : s.isHopeless = false := by
  have hun : s.pattern.numUnmatched ≤ s.target.numUnmatched := by
    rw [hs.pattern.toTallied.numUnmatched, hs.target.toTallied.numUnmatched]
    exact_mod_cast tally_le f (fun p hp hm => ⟨hf.lt p hp, by rwa [hs.isMatched_image hf ha hp]⟩) hf.inj
  have hout := hs.numOut_le hf ha
  have hin := hs.numIn_le hf ha hP hT
  simp only [isHopeless, Bool.or_eq_false_iff, decide_eq_false_iff_not]
  omega

end

theorem exists_find {σ : Side} {n : Nat} (hσ : σ.Tallied n) (front : Nat → Bool) (h : 0 < tally n front) :
    ∃ p, σ.vertices.find? front = some p ∧ p < n ∧ front p = true := by
  obtain ⟨v, hv, hfv⟩ := tally_pos.mp h
  have hsome : (σ.vertices.find? front).isSome = true :=
    List.find?_isSome.mpr ⟨v, by simpa [Side.vertices, hσ.partner_length] using hv, hfv⟩
  obtain ⟨p, hp⟩ := Option.isSome_iff_exists.mp hsome
  refine ⟨p, hp, ?_, List.find?_some hp⟩
  simpa [Side.vertices, hσ.partner_length] using List.mem_of_find?_eq_some hp

structure Offers (P T : Graph) (s : SearchState) (p : Nat) (ts : List Nat) : Prop where
  candidates : s.candidates = ts.map (fun t => ⟨p, t⟩)
  nodup : ts.Nodup
  lt : ∀ t ∈ ts, p < P.size ∧ t < T.size
  unmatched : ∀ t ∈ ts, s.pattern.isMatched p = false ∧ s.target.isMatched t = false

theorem offers_filter (hs : s.Exact P T) {inT : Nat → Bool} (hp : p < P.size) (hmp : s.pattern.isMatched p = false)
    (hT : ∀ t, inT t = true → s.target.isMatched t = false)
    (hc : s.candidates = (s.target.vertices.filter inT).map (fun t => ⟨p, t⟩)) :
    Offers P T s p (s.target.vertices.filter inT) where
  candidates := hc
  nodup := List.nodup_range.filter _
  lt t ht := ⟨hp, by simpa [Side.vertices, hs.target.partner_length] using (List.mem_filter.mp ht).1⟩
  unmatched t ht := ⟨hmp, hT t (List.mem_filter.mp ht).2⟩

theorem candidates_cases (hs : s.Exact P T) :
    (∃ p, Offers P T s p (s.target.vertices.filter s.target.inOutFrontier) ∧ s.pattern.inOutFrontier p = true ∧
      p < P.size) ∨
    (∃ p, Offers P T s p (s.target.vertices.filter s.target.inInFrontier) ∧ s.pattern.inInFrontier p = true ∧
      p < P.size) ∨
    (∃ p, Offers P T s p (s.target.vertices.filter (fun t => !s.target.isMatched t)) ∧ s.pattern.isMatched p = false ∧
      p < P.size) ∨
    (s.candidates = [] ∧ (s.isComplete = true ∨ ¬ (s.pattern.numOut ≤ s.target.numOut ∧
      s.pattern.numIn ≤ s.target.numIn))) := by
  have hout (σ : Side) (v : Nat) (h : σ.inOutFrontier v = true) : σ.isMatched v = false := by
    rw [Side.inOutFrontier, Bool.and_eq_true, Bool.not_eq_true'] at h
    exact h.2
  have hin (σ : Side) (v : Nat) (h : σ.inInFrontier v = true) : σ.isMatched v = false := by
    rw [Side.inInFrontier, Bool.and_eq_true, Bool.not_eq_true'] at h
    exact h.2
  have hno := hs.pattern.numOut
  have hni := hs.pattern.numIn
  by_cases h1 : 0 < s.pattern.numOut ∧ 0 < s.target.numOut
  · obtain ⟨p, hp, hlt, hfr⟩ := exists_find hs.pattern.toTallied s.pattern.inOutFrontier (by omega)
    refine .inl ⟨p, hs.offers_filter hlt (hout _ _ hfr) (hout _) ?_, hfr, hlt⟩
    simp only [SearchState.candidates, if_pos h1, hp, Option.getD_some]
  · by_cases h2 : 0 < s.pattern.numIn ∧ 0 < s.target.numIn
    · obtain ⟨p, hp, hlt, hfr⟩ := exists_find hs.pattern.toTallied s.pattern.inInFrontier (by omega)
      refine .inr (.inl ⟨p, hs.offers_filter hlt (hin _ _ hfr) (hin _) ?_, hfr, hlt⟩)
      simp only [SearchState.candidates, if_neg h1, if_pos h2, hp, Option.getD_some]
    · by_cases h3 : s.pattern.numOut = 0 ∧ s.pattern.numIn = 0
      · by_cases hc : s.isComplete = true
        · refine .inr (.inr (.inr ⟨?_, .inl hc⟩))
          rw [SearchState.candidates, if_neg h1, if_neg h2, if_pos h3]
          have : s.pattern.vertices.find? (fun v => !s.pattern.isMatched v) = none := by
            rw [List.find?_eq_none]
            intro v hv
            have hv' : v < P.size := by simpa [Side.vertices, hs.pattern.partner_length] using hv
            simp [hs.isComplete_iff.mp hc v hv']
          rw [this]
        · have hun : 0 < tally P.size (fun v => !s.pattern.isMatched v) := by
            rw [isComplete, beq_iff_eq, hs.pattern.toTallied.numUnmatched] at hc
            omega
          obtain ⟨p, hp, hlt, hm⟩ := exists_find hs.pattern.toTallied _ hun
          rw [Bool.not_eq_true'] at hm
          refine .inr (.inr (.inl ⟨p, hs.offers_filter hlt hm (by simp) ?_, hm, hlt⟩))
          rw [SearchState.candidates, if_neg h1, if_neg h2, if_pos h3, hp]
      · refine .inr (.inr (.inr ⟨?_, .inr ?_⟩))
        · rw [SearchState.candidates, if_neg h1, if_neg h2, if_neg h3]
        · rintro ⟨h4, h5⟩
          omega

theorem exists_offers (hs : s.Exact P T) : ∃ p ts, Offers P T s p ts := by
  rcases hs.candidates_cases with ⟨p, h, -, -⟩ | ⟨p, h, -, -⟩ | ⟨p, h, -, -⟩ | ⟨h, -⟩
  · exact ⟨p, _, h⟩
  · exact ⟨p, _, h⟩
  · exact ⟨p, _, h⟩
  · exact ⟨0, [], ⟨by simpa using h, List.nodup_nil, by simp, by simp⟩⟩

theorem candidate (hs : s.Exact P T) (hc : c ∈ s.candidates) :
    c.p < P.size ∧ c.t < T.size ∧ s.pattern.isMatched c.p = false ∧ s.target.isMatched c.t = false := by
  obtain ⟨p, ts, ho⟩ := hs.exists_offers
  rw [ho.candidates] at hc
  obtain ⟨t, ht, rfl⟩ := List.mem_map.mp hc
  exact ⟨(ho.lt t ht).1, (ho.lt t ht).2, (ho.unmatched t ht).1, (ho.unmatched t ht).2⟩

theorem exists_candidate (hs : s.Exact P T) (hP : P.WellFormed) (hT : T.WellFormed) (hf : P.IsMonomorphism T f)
    (ha : s.Agrees f) (hc : s.isComplete = false) : ∃ c ∈ s.candidates, f c.p = c.t := by
  have hmem (p : Nat) (hp : p < P.size) (inT : Nat → Bool) (ht : inT (f p) = true)
      (ho : Offers P T s p (s.target.vertices.filter inT)) : ∃ c ∈ s.candidates, f c.p = c.t := by
    refine ⟨⟨p, f p⟩, ?_, rfl⟩
    rw [ho.candidates]
    refine List.mem_map.mpr ⟨f p, List.mem_filter.mpr ⟨?_, ht⟩, rfl⟩
    simpa [Side.vertices, hs.target.partner_length] using hf.lt p hp
  rcases hs.candidates_cases with ⟨p, ho, hfr, hp⟩ | ⟨p, ho, hfr, hp⟩ | ⟨p, ho, hm, hp⟩ | ⟨-, h | h⟩
  · exact hmem p hp _ (hs.inOutFrontier_image hf ha hp hfr) ho
  · exact hmem p hp _ (hs.inInFrontier_image hf ha hP hT hp hfr) ho
  · exact hmem p hp _ (by simp [hs.isMatched_image hf ha hp, hm]) ho
  · simp [hc] at h
  · exact absurd ⟨hs.numOut_le hf ha, hs.numIn_le hf ha hP hT⟩ h

end Exact

end SearchState

end HeapAbstraction
