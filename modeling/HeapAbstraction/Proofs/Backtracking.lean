import HeapAbstraction.Proofs.SearchState
import HeapAbstraction.Proofs.Fingerprint

namespace HeapAbstraction

namespace Side

variable {s : Side} {g : Graph} {v t : Nat} {vs : List Nat}

def IsFree (s : Side) (v : Nat) : Prop := s.partner[v]? = some none

instance (s : Side) (v : Nat) : Decidable (s.IsFree v) := inferInstanceAs (Decidable (_ = _))

theorem IsFree.lt (hv : s.IsFree v) : v < s.partner.length := (List.getElem?_eq_some_iff.mp hv).1

theorem IsFree.isMatched (hv : s.IsFree v) : s.isMatched v = false := by
  rw [Side.isMatched, partner?, show s.partner[v]? = some none from hv]
  rfl

theorem set_set_of_not {l : List Bool} (h : (l[v]?).getD false = false) : (l.set v true).set v false = l := by
  rw [List.set_set]
  by_cases hlt : v < l.length
  · rw [List.getElem?_eq_getElem hlt, Option.getD_some] at h
    rw [← h, List.set_getElem_self hlt]
  · exact List.set_eq_of_length_le (Nat.not_lt.mp hlt)

theorem unpair_pair (hv : s.isMatched v = false) : (s.pair v t).unpair v = s := by
  have hpartner : (s.partner.set v (some t)).set v none = s.partner := by
    rw [List.set_set]
    by_cases hlt : v < s.partner.length
    · have hnone : s.partner[v] = none := by
        simpa [Side.isMatched, partner?, List.getElem?_eq_getElem hlt] using hv
      rw [← hnone, List.set_getElem_self hlt]
    · exact List.set_eq_of_length_le (Nat.not_lt.mp hlt)
  have hout : (s.pair v t).flaggedOut v = s.flaggedOut v := rfl
  have hin : (s.pair v t).flaggedIn v = s.flaggedIn v := rfl
  cases s with
  | mk graph partner inOut inIn numOut numIn numMatched =>
    rw [unpair, hout, hin]
    simp only [pair, mk.injEq, true_and]
    refine ⟨hpartner, ?_, ?_, ?_⟩
    · split <;> omega
    · split <;> omega
    · omega

theorem unflagOut_flagOut (hv : s.flaggedOut v = false) : (s.flagOut v).unflagOut v = s := by
  have hflags : (s.inOut.set v true).set v false = s.inOut := set_set_of_not hv
  have hmatched : (s.flagOut v).isMatched v = s.isMatched v := rfl
  cases s with
  | mk graph partner inOut inIn numOut numIn numMatched =>
    rw [unflagOut, hmatched]
    simp only [flagOut, mk.injEq, true_and, and_true]
    refine ⟨hflags, ?_⟩
    split <;> omega

theorem unflag_flag {k : Frontier} (hv : s.flagged k v = false) : (s.flag k v).unflag k v = s := by
  cases k with
  | out => exact unflagOut_flagOut hv
  | into => exact congrArg mirror (unflagOut_flagOut (s := s.mirror) hv)

def flags (s : Side) : Frontier → List Bool
  | .out => s.inOut
  | .into => s.inIn

theorem flags_flag (k k' : Frontier) : (s.flag k v).flags k' = if k' = k then (s.flags k).set v true else s.flags k' := by
  cases k <;> cases k' <;> rfl

theorem flagged_eq (k : Frontier) : s.flagged k v = ((s.flags k)[v]?).getD false := by cases k <;> rfl

end Side

inductive SearchMove where
  | extend (c : Pair)
  | backtrack
deriving DecidableEq, Repr

def SearchMove.revise (pairs : List Pair) : SearchMove → List Pair
  | .extend c => c :: pairs
  | .backtrack => pairs.tail

def SearchMove.pending (moves : List SearchMove) : List Pair := moves.foldl SearchMove.revise []

namespace SearchState

def move? (s : SearchState) : SearchMove → Option SearchState
  | .extend c => if s.pattern.IsFree c.p ∧ s.target.IsFree c.t then some (s.extend c) else none
  | .backtrack => s.backtrack?

def play? (s : SearchState) (moves : List SearchMove) : Option SearchState := moves.foldlM move? s

variable {P T : Graph} {s s' : SearchState} {c : Pair} {pairs : List Pair} {moves : List SearchMove}

theorem flagNeighbours_induction {motive : SearchState → Prop} {b : Bool} {v : Nat} (base : motive s)
    (hout : ∀ s', ∀ u ∈ (s.side b).graph.successors v, motive s' → motive (s'.note ⟨u, b, .out⟩))
    (hin : ∀ s', ∀ u ∈ (s.side b).graph.predecessors v, motive s' → motive (s'.note ⟨u, b, .into⟩)) :
    motive (s.flagNeighbours b v) := by
  have hfold {k : Frontier} (us : List Nat) (s' : SearchState) (hs' : motive s')
      (hstep : ∀ s', ∀ u ∈ us, motive s' → motive (s'.note ⟨u, b, k⟩)) :
      motive (us.foldl (fun s u => s.note ⟨u, b, k⟩) s') :=
    List.foldlRecOn us _ hs' fun s' hs' u hu => hstep s' u hu hs'
  exact hfold _ _ (hfold _ _ base hout) hin

-- `es` is what was written since `b`, last entry first, and undoing it leads back there
structure Writes (b s : SearchState) (es : List JournalEntry) : Prop where
  deltas : s.deltas = b.deltas
  journal : s.journal = es ++ b.journal
  undo : es.foldl unnote { s with journal := b.journal } = b

theorem unnote_setSide_flag {σ : Side} (e : JournalEntry) (hσ : s.side e.onPattern = σ)
    (he : σ.flagged e.frontier e.vertex = false) :
    (s.setSide e.onPattern (σ.flag e.frontier e.vertex)).unnote e = s := by
  subst hσ
  obtain ⟨v, b, k⟩ := e
  have hside : (s.setSide b ((s.side b).flag k v)).side b = (s.side b).flag k v := by cases b <;> rfl
  rw [unnote, hside, Side.unflag_flag he]
  cases b <;> rfl

theorem Writes.note {b : SearchState} {es : List JournalEntry} (h : Writes b s es) (e : JournalEntry) :
    ∃ es', Writes b (s.note e) es' := by
  cases he : (s.side e.onPattern).flagged e.frontier e.vertex with
  | true =>
    have hsame : s.note e = s := if_pos he
    rw [hsame]
    exact ⟨es, h⟩
  | false =>
    have hnew : s.note e = { s.setSide e.onPattern ((s.side e.onPattern).flag e.frontier e.vertex) with
        journal := e :: s.journal } := if_neg (Bool.eq_false_iff.mp he)
    refine ⟨e :: es, ?_, ?_, ?_⟩
    · rw [hnew, ← h.deltas]
      cases e.onPattern <;> rfl
    · rw [hnew, h.journal]
      rfl
    · -- the entry comes off first, which leads back to the state before
      have hundo := unnote_setSide_flag (s := { s with journal := b.journal }) e rfl he
      rw [hnew, List.foldl_cons]
      refine (congrArg (es.foldl unnote) (Eq.trans ?_ hundo)).trans h.undo
      obtain ⟨v, onPattern, k⟩ := e
      cases onPattern <;> rfl

theorem exists_writes_extend (s : SearchState) (c : Pair) : ∃ es, Writes
    { s with
      pattern := s.pattern.pair c.p c.t
      target := s.target.pair c.t c.p
      deltas := ⟨c, s.journal.length⟩ :: s.deltas } (s.extend c) es := by
  have hflag (b s' : SearchState) (hs' : ∃ es, Writes b s' es) (onPattern : Bool) (v : Nat) :
      ∃ es, Writes b (s'.flagNeighbours onPattern v) es :=
    flagNeighbours_induction (motive := fun s' => ∃ es, Writes b s' es) hs' (fun _ _ _ ⟨_, h⟩ => h.note _)
      fun _ _ _ ⟨_, h⟩ => h.note _
  exact hflag _ _ (hflag _ _ ⟨[], rfl, rfl, rfl⟩ true c.p) false c.t

theorem foldl_unnote_deltas (es : List JournalEntry) (s : SearchState) (ds : List Delta) :
    es.foldl unnote { s with deltas := ds } = { es.foldl unnote s with deltas := ds } := by
  have hstep (s : SearchState) (e : JournalEntry) : unnote { s with deltas := ds } e = { s.unnote e with deltas := ds } := by
    obtain ⟨v, b, k⟩ := e
    cases b <;> rfl
  exact List.foldl_hom (fun s : SearchState => { s with deltas := ds }) hstep

theorem backtrack?_extend (hp : s.pattern.isMatched c.p = false) (ht : s.target.isMatched c.t = false) :
    (s.extend c).backtrack? = some s := by
  obtain ⟨es, h⟩ := exists_writes_extend s c
  have hwritten : (es ++ s.journal).length - s.journal.length = es.length := by
    rw [List.length_append, Nat.add_sub_cancel]
  have hundo := foldl_unnote_deltas es { s.extend c with journal := s.journal } s.deltas
  rw [h.undo] at hundo
  rw [backtrack?, h.deltas]
  simp only [h.journal, hwritten, List.take_left, List.drop_left]
  refine congrArg some ((congrArg (fun s' : SearchState =>
    { s' with pattern := s'.pattern.unpair c.p, target := s'.target.unpair c.t }) hundo).trans ?_)
  simp only [Side.unpair_pair hp, Side.unpair_pair ht]

structure Journaled (s : SearchState) : Prop where
  nodup : s.journal.Nodup
  mem : ∀ e, e ∈ s.journal ↔ (s.side e.onPattern).flagged e.frontier e.vertex = true

theorem flagged_side_note {e : JournalEntry} (he : (s.side e.onPattern).flagged e.frontier e.vertex = false)
    (hlt : e.vertex < ((s.side e.onPattern).flags e.frontier).length) (e' : JournalEntry) :
    ((s.note e).side e'.onPattern).flagged e'.frontier e'.vertex = true ↔
      e' = e ∨ (s.side e'.onPattern).flagged e'.frontier e'.vertex = true := by
  obtain ⟨v, b, k⟩ := e
  obtain ⟨v', b', k'⟩ := e'
  rw [side_note]
  by_cases hb : b' = b
  · subst hb
    simp only [if_true, Side.flagNew, he, Bool.false_eq_true, if_false, Side.flagged_eq, Side.flags_flag,
      JournalEntry.mk.injEq, true_and]
    by_cases hk : k' = k
    · subst hk
      simp only [if_true, and_true, List.getElem?_set]
      by_cases hv : v = v'
      · subst hv
        simp [hlt]
      · simp [hv, Ne.symm hv]
    · simp [hk]
  · simp [hb]

theorem Journaled.note (h : s.Journaled) {e : JournalEntry}
    (hlt : e.vertex < ((s.side e.onPattern).flags e.frontier).length) : (s.note e).Journaled := by
  cases he : (s.side e.onPattern).flagged e.frontier e.vertex with
  | true =>
    have hsame : s.note e = s := if_pos he
    rw [hsame]
    exact h
  | false =>
    have hjournal : (s.note e).journal = e :: s.journal := by
      rw [SearchState.note, if_neg (Bool.eq_false_iff.mp he)]
    constructor
    · rw [hjournal, List.nodup_cons, h.mem]
      exact ⟨by simp [he], h.nodup⟩
    · intro e'
      rw [hjournal, List.mem_cons, h.mem, flagged_side_note he hlt]

theorem length_flags_note (s : SearchState) (e : JournalEntry) (b : Bool) (k : Frontier) :
    (((s.note e).side b).flags k).length = ((s.side b).flags k).length := by
  rw [side_note]
  split
  · rw [Side.flagNew]
    split
    · rfl
    · rw [Side.flags_flag]
      split
      · rename_i hk
        rw [List.length_set, hk]
      · rfl
  · rfl

theorem Exact.length_flags (hs : s.Exact P T) (b : Bool) (k : Frontier) :
    ((s.side b).flags k).length = if b then P.size else T.size := by
  cases b <;> cases k
  · exact hs.target.inOut_length
  · exact hs.target.inIn_length
  · exact hs.pattern.inOut_length
  · exact hs.pattern.inIn_length

theorem Journaled.extend (h : s.Journaled) (hs : s.Exact P T) (hP : P.WellFormed) (hT : T.WellFormed) :
    (s.extend c).Journaled := by
  let room (s' : SearchState) : Prop := s'.Journaled ∧
    (∀ b k, ((s'.side b).flags k).length = if b then P.size else T.size) ∧
      ∀ b, (s'.side b).graph = if b then P else T
  have hbase : room { s with
      pattern := s.pattern.pair c.p c.t
      target := s.target.pair c.t c.p
      deltas := ⟨c, s.journal.length⟩ :: s.deltas } := by
    refine ⟨⟨h.nodup, fun e => (h.mem e).trans ?_⟩, fun b k => (hs.length_flags b k).symm ▸ ?_, fun b => ?_⟩
    · obtain ⟨v, b, k⟩ := e
      cases b <;> cases k <;> rfl
    · cases b <;> cases k <;> rfl
    · cases b
      · exact hs.target.graph
      · exact hs.pattern.graph
  have hnote (s' : SearchState) (hs' : room s') (e : JournalEntry)
      (hlt : e.vertex < if e.onPattern then P.size else T.size) : room (s'.note e) := by
    refine ⟨hs'.1.note (hs'.2.1 _ _ ▸ hlt), fun b k => (length_flags_note s' e b k).trans (hs'.2.1 b k), fun b => ?_⟩
    rw [side_note, ← hs'.2.2 b]
    split
    · rw [Side.flagNew]
      split
      · rfl
      · cases e.frontier <;> rfl
    · rfl
  have hflag (s' : SearchState) (hs' : room s') (b : Bool) (v : Nat) : room (s'.flagNeighbours b v) := by
    refine flagNeighbours_induction hs' (fun s'' u hu hs'' => hnote s'' hs'' _ ?_) fun s'' u hu hs'' => hnote s'' hs'' _ ?_
    · rw [hs'.2.2 b] at hu
      cases b
      · exact (hT.successors_lt v u hu).2
      · exact (hP.successors_lt v u hu).2
    · rw [hs'.2.2 b] at hu
      cases b
      · exact hT.predecessors_lt hu
      · exact hP.predecessors_lt hu
  exact (hflag _ (hflag _ hbase true c.p) false c.t).1

inductive Reached (P T : Graph) : List Pair → SearchState → Prop
  | start : Reached P T [] (SearchState.start P T)
  | extend {pairs : List Pair} {s : SearchState} {c : Pair} (hs : Reached P T pairs s) (hp : s.pattern.IsFree c.p)
      (ht : s.target.IsFree c.t) : Reached P T (c :: pairs) (s.extend c)

namespace Reached

theorem eq_foldr (hs : Reached P T pairs s) : s = pairs.foldr (fun c s => s.extend c) (SearchState.start P T) := by
  induction hs with
  | start => rfl
  | extend _ _ _ ih => rw [List.foldr_cons, ← ih]

theorem deltas_eq (hs : Reached P T pairs s) : s.deltas.map Delta.pair = pairs := by
  induction hs with
  | start => rfl
  | @extend pairs s c _ _ _ ih =>
    obtain ⟨es, h⟩ := exists_writes_extend s c
    rw [h.deltas, List.map_cons, ih]

theorem move? {move : SearchMove} (hs : Reached P T pairs s) (hm : s.move? move = some s') :
    Reached P T (move.revise pairs) s' := by
  cases move with
  | extend c =>
    rw [SearchState.move?] at hm
    split at hm
    · rename_i hfree
      cases hm
      exact hs.extend hfree.1 hfree.2
    · cases hm
  | backtrack =>
    rw [SearchState.move?] at hm
    cases hs with
    | start => cases hm
    | extend hs hp ht =>
      rw [backtrack?_extend hp.isMatched ht.isMatched] at hm
      cases hm
      exact hs

theorem play? (hs : (SearchState.start P T).play? moves = some s) : Reached P T (SearchMove.pending moves) s := by
  have hrun (moves : List SearchMove) (pairs : List Pair) (s₀ : SearchState) (h₀ : Reached P T pairs s₀)
      (hs : moves.foldlM SearchState.move? s₀ = some s) :
      Reached P T (moves.foldl SearchMove.revise pairs) s := by
    induction moves generalizing pairs s₀ with
    | nil =>
      cases hs
      exact h₀
    | cons move moves ih =>
      rw [List.foldlM_cons] at hs
      obtain ⟨s₁, hmove, hs⟩ := Option.bind_eq_some_iff.mp hs
      exact ih _ s₁ (h₀.move? hmove) hs
  exact hrun moves [] _ .start hs

section

variable (hP : P.WellFormed) (hT : T.WellFormed)

include hP hT

theorem exact (hs : Reached P T pairs s) : s.Exact P T := by
  induction hs with
  | start => exact exact_start P T
  | extend _ hp ht ih =>
    exact ih.extend hP hT (ih.pattern.partner_length ▸ hp.lt) (ih.target.partner_length ▸ ht.lt) hp.isMatched
      ht.isMatched

theorem journaled (hs : Reached P T pairs s) : s.Journaled := by
  induction hs with
  | start =>
    refine ⟨List.nodup_nil, fun e => iff_of_false List.not_mem_nil ?_⟩
    obtain ⟨v, b, k⟩ := e
    have hnone (n : Nat) : ((List.replicate n false)[v]?).getD false ≠ true := by
      rw [List.getElem?_replicate]
      split <;> simp
    cases b <;> cases k <;> exact hnone _
  | extend hs _ _ ih => exact ih.extend (hs.exact hP hT) hP hT

theorem partner?_iff (hs : Reached P T pairs s) (p t : Nat) : s.pattern.partner? p = some t ↔ ⟨p, t⟩ ∈ pairs := by
  induction hs with
  | start =>
    have hnone : (SearchState.start P T).pattern.partner? p = none := by
      simp only [SearchState.start, Side.partner?, Side.start, List.getElem?_replicate]
      split <;> rfl
    simp [hnone]
  | @extend pairs s c hs hp _ ih =>
    have hexact := hs.exact hP hT
    have hnone : s.pattern.partner? c.p = none := by simpa [Side.isMatched] using hp.isMatched
    rw [hexact.partner?_extend hP (hexact.pattern.partner_length ▸ hp.lt) hp.isMatched, List.mem_cons]
    obtain ⟨cp, ct⟩ := c
    by_cases hpc : p = cp
    · subst hpc
      simp [← ih, hnone, eq_comm]
    · simp [hpc, ih]

end

end Reached

theorem play?_exact (hP : P.WellFormed) (hT : T.WellFormed) (hs : (start P T).play? moves = some s) :
    s.Exact P T ∧ s.deltas.map Delta.pair = SearchMove.pending moves ∧
    (∀ p t, s.pattern.partner? p = some t ↔ ⟨p, t⟩ ∈ SearchMove.pending moves) ∧
    (∀ p t, s.target.partner? t = some p ↔ ⟨p, t⟩ ∈ SearchMove.pending moves) ∧
    (s.journal.Nodup ∧ ∀ e, e ∈ s.journal ↔ (s.side e.onPattern).flagged e.frontier e.vertex = true) ∧
    s = (SearchMove.pending moves).foldr (fun c s => s.extend c) (start P T) ∧
    ∀ c, s.pattern.IsFree c.p → s.target.IsFree c.t →
      ((s.extend c).deltas = ⟨c, s.journal.length⟩ :: s.deltas ∧ ∃ es, (s.extend c).journal = es ++ s.journal) ∧
        s.play? [.extend c, .backtrack] = some s := by
  have hreached := Reached.play? hs
  have hexact := hreached.exact hP hT
  have hpartner := hreached.partner?_iff hP hT
  have hjournal := hreached.journaled hP hT
  refine ⟨hexact, hreached.deltas_eq, hpartner, fun p t => ?_, ⟨hjournal.nodup, hjournal.mem⟩, hreached.eq_foldr,
    fun c hp ht => ⟨?_, ?_⟩⟩
  · rw [← hexact.inverse, hpartner]
  · obtain ⟨es, h⟩ := exists_writes_extend s c
    exact ⟨h.deltas, es, h.journal⟩
  · rw [play?, List.foldlM_cons, move?, if_pos ⟨hp, ht⟩]
    change (s.extend c).backtrack? >>= _ = _
    rw [backtrack?_extend hp.isMatched ht.isMatched]
    rfl

-- the first pair matches a vertex with a loop, which flags itself and which the other pairs meet again
theorem play?_exact_loops : Heap.loops.graph.WellFormed ∧
    ∃ s, (start Heap.loops.graph Heap.loops.graph).play?
        [.extend ⟨0, 1⟩, .extend ⟨1, 0⟩, .extend ⟨2, 2⟩, .backtrack, .backtrack, .extend ⟨2, 0⟩] = some s ∧
      s.Exact Heap.loops.graph Heap.loops.graph ∧ s.deltas.map Delta.pair = [⟨2, 0⟩, ⟨0, 1⟩] ∧
      s.pattern.partner? 2 = some 0 ∧ s.target.partner? 2 = none ∧ s.pattern.flaggedOut 0 = true ∧
      ⟨0, true, .out⟩ ∈ s.journal ∧ s.pattern.numOut = 1 ∧ s.target.numIn = 1 ∧
      s.play? [.extend ⟨1, 2⟩, .backtrack] = some s := by
  have hw := Heap.wellFormed_loops.toSound.graph
  have hplay : (start Heap.loops.graph Heap.loops.graph).play?
      [.extend ⟨0, 1⟩, .extend ⟨1, 0⟩, .extend ⟨2, 2⟩, .backtrack, .backtrack, .extend ⟨2, 0⟩] = some _ := rfl
  obtain ⟨hexact, hpairs, hpartner, -, hjournal, -, hundo⟩ := play?_exact hw hw hplay
  exact ⟨hw, _, hplay, hexact, hpairs, (hpartner 2 0).mpr (by decide), rfl, rfl, (hjournal.2 ⟨0, true, .out⟩).mpr rfl, rfl,
    rfl, (hundo ⟨1, 2⟩ rfl rfl).2⟩

end SearchState

end HeapAbstraction
