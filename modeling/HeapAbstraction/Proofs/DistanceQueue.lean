import HeapAbstraction.Proofs.Distance

namespace HeapAbstraction

-- distances as far as they are known, and the vertices whose arcs are still to be followed, first come first
structure Relaxation where
  dist : List (Option Nat)
  queue : List Nat

namespace Graph

def relaxArc (g : Graph) (u : Nat) (x : Relaxation) (w : Nat) : Relaxation :=
  match (x.dist[u]?).join with
  | none => x
  | some d =>
    if g.isNode w && ((x.dist[w]?).join).all (fun e => d + 1 < e) then
      { dist := x.dist.set w (some (d + 1)), queue := x.queue ++ [w] }
    else x

def relax (g : Graph) (x : Relaxation) : Relaxation :=
  match x.queue with
  | [] => x
  | u :: rest => (g.successors u).foldl (g.relaxArc u) { x with queue := rest }

def enqueueSource (x : Relaxation) (w : Nat) : Relaxation :=
  if x.dist[w]? = some (some 0) then x else { dist := x.dist.set w (some 0), queue := x.queue ++ [w] }

def relaxStart (g : Graph) (exempt : Bytes → Bool) : Relaxation :=
  let counts (v : Nat) : Bool := match g.label v with
    | .variable x => !exempt x
    | _ => false
  (((List.range g.size).filter counts).flatMap g.successors).foldl enqueueSource
    { dist := List.replicate g.size none, queue := [] }

def marked (dist : List (Option Nat)) (k : Nat) (ws : List Nat) : List (Option Nat) :=
  ws.foldl (fun t w => t.set w (some k)) dist

-- what passes a test, once each, in the order in which it comes
def enlist (p : Nat → Bool) (found : List Nat) (w : Nat) : List Nat :=
  if p w = true ∧ w ∉ found then found ++ [w] else found

structure Enlisted (p : Nat → Bool) (found : List Nat) : Prop where
  nodup : found.Nodup
  passed : ∀ w ∈ found, p w = true

section

variable {p : Nat → Bool} {k n v w : Nat} {found ws ws' : List Nat} {dist : List (Option Nat)}

theorem marked_append : marked dist k (ws ++ [w]) = (marked dist k ws).set w (some k) := by
  rw [marked, List.foldl_append]
  rfl

theorem getElem?_marked (hws : ∀ w ∈ ws, w < dist.length) :
    (marked dist k ws)[v]? = if v ∈ ws then some (some k) else dist[v]? := by
  by_cases hv : v < dist.length
  · exact getElem?_foldl_set _ _ _ _ hv
  · rw [if_neg fun hm => hv (hws v hm), List.getElem?_eq_none (Nat.not_lt.mp hv), List.getElem?_eq_none]
    rw [marked, length_foldl_set]
    exact Nat.not_lt.mp hv

theorem marked_congr (hws : ∀ w ∈ ws, w < dist.length) (h : ∀ w, w ∈ ws ↔ w ∈ ws') :
    marked dist k ws = marked dist k ws' := by
  refine List.ext_getElem? fun v => ?_
  rw [getElem?_marked hws, getElem?_marked fun w hw => hws w ((h w).mpr hw), if_congr (h v) rfl rfl]

theorem count_none_marked (hn : ws.Nodup) (ho : ∀ w ∈ ws, dist[w]? = some none) :
    (marked dist k ws).count none + ws.length = dist.count none := by
  induction ws generalizing dist with
  | nil => rfl
  | cons w ws ih =>
    obtain ⟨hw, hn⟩ := List.nodup_cons.mp hn
    obtain ⟨hopen, ho⟩ := List.forall_mem_cons.mp ho
    obtain ⟨hlt, hget⟩ := List.getElem?_eq_some_iff.mp hopen
    have hopen' : ∀ v ∈ ws, (dist.set w (some k))[v]? = some none := by
      intro v hv
      have hne : w ≠ v := fun h => hw (h.symm ▸ hv)
      rw [List.getElem?_set_ne hne]
      exact ho v hv
    have hlater := ih hn hopen'
    have hpos : 0 < dist.count none := List.count_pos_iff.mpr (hget ▸ List.getElem_mem hlt)
    rw [List.count_set hlt, hget] at hlater
    simp only [beq_self_eq_true, if_true, reduceCtorEq, beq_iff_eq, if_false, Nat.add_zero] at hlater
    rw [marked, List.foldl_cons, List.length_cons]
    rw [marked] at hlater
    omega

theorem mem_enlist : v ∈ enlist p found w ↔ v ∈ found ∨ (v = w ∧ p w = true) := by
  rw [enlist]
  split
  · rename_i h
    simp [h.1]
  · rename_i h
    refine ⟨.inl, fun hv => hv.elim id ?_⟩
    rintro ⟨rfl, hp⟩
    by_contra hv
    exact h ⟨hp, hv⟩

theorem Enlisted.enlist (hf : Enlisted p found) : Enlisted p (enlist p found w) := by
  refine ⟨?_, fun v hv => ?_⟩
  · rw [Graph.enlist]
    split
    · rename_i h
      exact hf.nodup.append (List.nodup_singleton w) (by simpa using h.2)
    · exact hf.nodup
  · rcases mem_enlist.mp hv with hv | ⟨rfl, hp⟩
    · exact hf.passed v hv
    · exact hp

theorem Enlisted.foldl (hf : Enlisted p found) (ws : List Nat) : Enlisted p (ws.foldl (Graph.enlist p) found) ∧
    ∀ v, v ∈ ws.foldl (Graph.enlist p) found ↔ v ∈ found ∨ (v ∈ ws ∧ p v = true) := by
  induction ws generalizing found with
  | nil => simp [hf]
  | cons w ws ih =>
    obtain ⟨hfound, hmem⟩ := ih (hf.enlist (w := w))
    refine ⟨hfound, fun v => (hmem v).trans ?_⟩
    rw [mem_enlist, List.mem_cons]
    constructor
    · rintro ((hv | ⟨rfl, h⟩) | ⟨hv, h⟩)
      · exact .inl hv
      · exact .inr ⟨.inl rfl, h⟩
      · exact .inr ⟨.inr hv, h⟩
    · rintro (hv | ⟨rfl | hv, h⟩)
      · exact .inl (.inl hv)
      · exact .inl (.inr ⟨rfl, h⟩)
      · exact .inr ⟨hv, h⟩

theorem foldl_enqueueSource (found : List Nat) (hf : ∀ w ∈ found, w < n) (hws : ∀ w ∈ ws, w < n) :
    ws.foldl enqueueSource ⟨marked (List.replicate n none) 0 found, found⟩ =
      ⟨marked (List.replicate n none) 0 (ws.foldl (enlist fun _ => true) found),
        ws.foldl (enlist fun _ => true) found⟩ := by
  induction ws generalizing found with
  | nil => rfl
  | cons w ws ih =>
    obtain ⟨hw, hws⟩ := List.forall_mem_cons.mp hws
    have hstep : enqueueSource ⟨marked (List.replicate n none) 0 found, found⟩ w =
        ⟨marked (List.replicate n none) 0 (enlist (fun _ => true) found w), enlist (fun _ => true) found w⟩ := by
      have hlt : ∀ v ∈ found, v < (List.replicate n (none : Option Nat)).length := by simpa using hf
      rw [enqueueSource, enlist, getElem?_marked hlt]
      by_cases hm : w ∈ found
      · simp [hm]
      · simp [hm, hw, marked_append]
    rw [List.foldl_cons, hstep, ih _ _ hws, List.foldl_cons]
    intro v hv
    rcases mem_enlist.mp hv with hv | ⟨rfl, -⟩
    · exact hf v hv
    · exact hw

end

variable {g : Graph} {exempt : Bytes → Bool} {d n : Nat} {frontier found : List Nat} {dist : List (Option Nat)}

-- the ends that a level can find
def fresh (g : Graph) (dist : List (Option Nat)) (w : Nat) : Bool := g.isNode w && dist[w]? == some none

theorem Enlisted.opened (hf : Enlisted (g.fresh dist) found) {w : Nat} (hw : w ∈ found) : dist[w]? = some none := by
  have := hf.passed w hw
  rw [fresh, Bool.and_eq_true, beq_iff_eq] at this
  exact this.2

theorem Enlisted.lt (hf : Enlisted (g.fresh dist) found) {w : Nat} (hw : w ∈ found) : w < dist.length :=
  (List.getElem?_eq_some_iff.mp (hf.opened hw)).1

namespace Levels

variable (hl : g.Levels exempt d frontier dist) (hg : g.WellFormed)

include hl hg

-- an arc of the frontier finds its end if that is open and not found yet: nothing known is further than `d`
theorem relaxArc_eq (hf : Enlisted (g.fresh dist) found) {u w : Nat} (hu : u ∈ frontier) (hw : w ∈ g.successors u)
    (rest : List Nat) : g.relaxArc u ⟨marked dist (d + 1) found, rest ++ found⟩ w =
      ⟨marked dist (d + 1) (enlist (g.fresh dist) found w), rest ++ enlist (g.fresh dist) found w⟩ := by
  have hdu : dist[u]? = some (some d) := (hl.frontier u).mp hu
  have hunew : u ∉ found := fun hm => by simp [hf.opened hm] at hdu
  simp only [relaxArc, getElem?_marked fun w hw => hf.lt hw, if_neg hunew, hdu, Option.join_some]
  rw [enlist, fresh]
  by_cases hm : w ∈ found
  · simp [hm]
  · rcases hl.known_or_open hg hw with ⟨j, hj⟩ | hopen
    · have hle := hl.le w j hj
      have hnot : ¬ d + 1 < j := by omega
      simp [hm, hj, hnot]
    · cases hn : g.isNode w with
      | true => simp [hm, hopen, marked_append]
      | false => simp

theorem foldl_relaxArc (hf : Enlisted (g.fresh dist) found) {u : Nat} (hu : u ∈ frontier) {ws : List Nat}
    (hws : ∀ w ∈ ws, w ∈ g.successors u) (rest : List Nat) :
    ws.foldl (g.relaxArc u) ⟨marked dist (d + 1) found, rest ++ found⟩ =
      ⟨marked dist (d + 1) (ws.foldl (enlist (g.fresh dist)) found), rest ++ ws.foldl (enlist (g.fresh dist)) found⟩ := by
  induction ws generalizing found with
  | nil => rfl
  | cons w ws ih =>
    obtain ⟨hw, hws⟩ := List.forall_mem_cons.mp hws
    rw [List.foldl_cons, hl.relaxArc_eq hg hf hu hw, ih hf.enlist hws, List.foldl_cons]

theorem iterate_relax (hf : Enlisted (g.fresh dist) found) (rest : List Nat) (hrest : ∀ u ∈ rest, u ∈ frontier) :
    g.relax^[rest.length] ⟨marked dist (d + 1) found, rest ++ found⟩ =
      ⟨marked dist (d + 1) ((rest.flatMap g.successors).foldl (enlist (g.fresh dist)) found),
        (rest.flatMap g.successors).foldl (enlist (g.fresh dist)) found⟩ := by
  induction rest generalizing found with
  | nil => rfl
  | cons u rest ih =>
    obtain ⟨hu, hrest⟩ := List.forall_mem_cons.mp hrest
    have hstep : g.relax ⟨marked dist (d + 1) found, u :: rest ++ found⟩ =
        ⟨marked dist (d + 1) ((g.successors u).foldl (enlist (g.fresh dist)) found),
          rest ++ (g.successors u).foldl (enlist (g.fresh dist)) found⟩ :=
      hl.foldl_relaxArc hg hf hu (fun _ hw => hw) rest
    rw [List.length_cons, Function.iterate_succ_apply, hstep, ih (hf.foldl _).1 hrest, List.flatMap_cons, List.foldl_append]

-- when a level has come off the queue, the next one is on it
theorem exists_level : ∃ found, g.relax^[frontier.length] ⟨dist, frontier⟩ = ⟨marked dist (d + 1) found, found⟩ ∧
    Enlisted (g.fresh dist) found ∧ (∀ w, w ∈ found ↔ w ∈ g.nextLevel frontier dist) ∧
      g.Levels exempt (d + 1) found (marked dist (d + 1) found) := by
  have hnone : Enlisted (g.fresh dist) [] := ⟨List.nodup_nil, by simp⟩
  have hrun := hl.iterate_relax hg hnone frontier fun _ hu => hu
  rw [List.append_nil] at hrun
  obtain ⟨hf, hmem⟩ := hnone.foldl (frontier.flatMap g.successors)
  have hlevel (w : Nat) : w ∈ (frontier.flatMap g.successors).foldl (enlist (g.fresh dist)) [] ↔
      w ∈ g.nextLevel frontier dist := by
    rw [hmem, mem_nextLevel, List.mem_flatMap]
    simp [fresh]
  have hnext := hl.next hg
  refine ⟨_, hrun, hf, hlevel, ?_⟩
  rw [marked_congr (fun w hw => hf.lt hw) hlevel]
  exact ⟨hnext.length, hnext.le, fun v => (hlevel v).trans (hnext.frontier v), hnext.near⟩

theorem relaxed (hn : frontier.length + dist.count none ≤ n) : (g.relax^[n] ⟨dist, frontier⟩).queue = [] ∧
    (g.relax^[n] ⟨dist, frontier⟩).dist.length = g.size ∧ g.Measures exempt (g.relax^[n] ⟨dist, frontier⟩).dist := by
  induction hc : dist.count none using Nat.strong_induction_on generalizing d frontier dist n with
  | _ c ih =>
    obtain ⟨found, hrun, hf, hlevel, hnext⟩ := hl.exists_level hg
    have hcount := count_none_marked (k := d + 1) hf.nodup fun w hw => hf.opened hw
    obtain ⟨rest, rfl⟩ : ∃ rest, n = rest + frontier.length := ⟨n - frontier.length, by omega⟩
    rw [Function.iterate_add_apply, hrun]
    cases hempty : found with
    | nil =>
      have hstays : g.relax^[rest] ⟨dist, []⟩ = ⟨dist, []⟩ := Function.iterate_fixed rfl rest
      rw [marked, List.foldl_nil, hstays]
      refine ⟨rfl, hl.length, hl.measures fun v hv w hw hnode => ?_⟩
      refine (hl.known_or_open hg hw).resolve_right fun hopen => ?_
      have hm := (hlevel w).mpr (mem_nextLevel.mpr ⟨⟨v, hv, hw⟩, hnode, hopen⟩)
      simp [hempty] at hm
    | cons w ws =>
      rw [← hempty]
      have hpos : 0 < found.length := by simp [hempty]
      exact ih _ (by omega) hnext (by omega) rfl

end Levels

theorem Measures.eq {dist' : List (Option Nat)} (h : g.Measures exempt dist) (h' : g.Measures exempt dist')
    (hlen : dist.length = dist'.length) : dist = dist' := by
  have hle {a b : List (Option Nat)} (ha : g.Measures exempt a) (hb : g.Measures exempt b) {v k : Nat}
      (hk : a[v]? = some (some k)) : ∃ j ≤ k, b[v]? = some (some j) :=
    (hb v k).mpr ((ha v k).mp ⟨k, Nat.le_refl k, hk⟩)
  have heq {a b : List (Option Nat)} (ha : g.Measures exempt a) (hb : g.Measures exempt b) {v k : Nat}
      (hk : a[v]? = some (some k)) : b[v]? = some (some k) := by
    obtain ⟨j, hj, hbj⟩ := hle ha hb hk
    obtain ⟨i, hi, hai⟩ := hle hb ha hbj
    rw [hk, Option.some.injEq, Option.some.injEq] at hai
    obtain rfl : j = k := by omega
    exact hbj
  refine List.ext_getElem hlen fun v hv hv' => ?_
  cases hd : dist[v] with
  | some k =>
    have := heq h h' (List.getElem?_eq_some_iff.mpr ⟨hv, hd⟩)
    rw [List.getElem?_eq_getElem hv'] at this
    exact (Option.some.inj this).symm
  | none =>
    cases hd' : dist'[v] with
    | none => rfl
    | some k =>
      have := heq h' h (List.getElem?_eq_some_iff.mpr ⟨hv', hd'⟩)
      rw [List.getElem?_eq_getElem hv, hd] at this
      cases this

theorem levels_relaxStart (hg : g.WellFormed) (exempt : Bytes → Bool) :
    g.Levels exempt 0 (g.relaxStart exempt).queue (g.relaxStart exempt).dist ∧
      (g.relaxStart exempt).queue.length + (g.relaxStart exempt).dist.count none = g.size := by
  let ends : List Nat := ((List.range g.size).filter (fun v => match g.label v with
    | .variable x => !exempt x
    | _ => false)).flatMap g.successors
  have hmem (v : Nat) : v ∈ g.sources exempt ↔ v ∈ ends := List.mem_eraseDups
  have hstart : g.Levels exempt 0 (g.sources exempt) _ := levels_start hg
  have hlt (v : Nat) (hv : v ∈ ends) : v < g.size := by
    rw [← hmem, hstart.frontier] at hv
    exact hstart.length ▸ (List.getElem?_eq_some_iff.mp hv).1
  have hrun : g.relaxStart exempt = ⟨marked (List.replicate g.size none) 0 (ends.foldl (enlist fun _ => true) []),
      ends.foldl (enlist fun _ => true) []⟩ :=
    foldl_enqueueSource [] (by simp) hlt
  have hnone : Enlisted (fun _ => true) [] := ⟨List.nodup_nil, by simp⟩
  obtain ⟨hf, hfound⟩ := hnone.foldl ends
  simp only [List.not_mem_nil, false_or, and_true] at hfound
  have hsame (v : Nat) : v ∈ ends.foldl (enlist fun _ => true) [] ↔ v ∈ g.sources exempt :=
    (hfound v).trans (hmem v).symm
  have hlt' (v : Nat) (hv : v ∈ ends.foldl (enlist fun _ => true) []) : v < g.size := hlt v ((hfound v).mp hv)
  have hopen : ∀ v ∈ ends.foldl (enlist fun _ => true) [], (List.replicate g.size (none : Option Nat))[v]? = some none :=
    fun v hv => by simp [hlt' v hv]
  have hcount := count_none_marked (k := 0) hf.nodup hopen
  rw [List.count_replicate_self] at hcount
  rw [hrun]
  refine ⟨?_, (Nat.add_comm _ _).trans hcount⟩
  rw [marked_congr (by simpa using hlt') hsame]
  exact ⟨hstart.length, hstart.le, fun v => (hsame v).trans (hstart.frontier v), hstart.near⟩

theorem length_distancesFrom : (g.distancesFrom n d frontier dist).length = dist.length := by
  induction n generalizing d frontier dist with
  | zero => rfl
  | succ n ih =>
    rw [distancesFrom]
    split
    · rfl
    · rw [ih, length_foldl_set]

theorem length_variableDistances : (g.variableDistances exempt).length = g.size := by
  rw [variableDistances, length_distancesFrom, length_foldl_set, List.length_replicate]

-- a queue that takes each vertex once comes to the same distances as going level by level, and ends empty
theorem iterate_relax_relaxStart (hg : g.WellFormed) (exempt : Bytes → Bool) :
    g.relax^[g.size] (g.relaxStart exempt) = ⟨g.variableDistances exempt, []⟩ := by
  obtain ⟨hl, hn⟩ := levels_relaxStart hg exempt
  obtain ⟨hqueue, hlen, hmeasures⟩ := hl.relaxed hg hn.le
  have hdist := hmeasures.eq (measures_variableDistances hg) (hlen.trans length_variableDistances.symm)
  rw [← hdist, ← hqueue]

end Graph

end HeapAbstraction
