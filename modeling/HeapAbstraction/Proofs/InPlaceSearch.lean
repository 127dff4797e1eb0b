import HeapAbstraction.Proofs.Backtracking

namespace HeapAbstraction

-- the one state of a search, and the candidates of all levels that are not done, on one stack
structure Searcher where
  state : SearchState
  cands : List Pair := []

namespace SearchPlan

def tryCands (plan : SearchPlan) (descend : Searcher → Option (Outcome × Searcher)) :
    Nat → Nat → Searcher → Option (Outcome × Searcher)
  | 0, _, x => some ({}, x)
  | k + 1, i, x => do
    let c ← x.cands[i]?
    match plan.test x.state c with
    | .reject => tryCands plan descend k (i + 1) x
    | .fault => some ({ signal := .fault }, x)
    | .accept =>
      let here ← descend { x with state := x.state.extend c }
      -- a fault leaves the state as it is
      if here.1.signal = .fault then some here
      else
        let s ← here.2.state.backtrack?
        let x := { here.2 with state := s }
        if here.1.signal = .enough then some (here.1, x)
        else
          let later ← tryCands plan descend k (i + 1) x
          some ({ later.1 with hits := here.1.hits ++ later.1.hits }, later.2)

def descend (plan : SearchPlan) (first : Bool) : Nat → Searcher → Option (Outcome × Searcher)
  | n, x =>
    if plan.impossible x.state then some ({}, x)
    else if plan.found x.state then some (⟨[x.state.morphism], if first then .enough else .proceed⟩, x)
    else match n with
      | 0 => some ({}, x)
      | n + 1 => do
        let base := x.cands.length
        let x := { x with cands := x.cands ++ x.state.candidates }
        let r ← tryCands plan (descend plan first n) (x.cands.length - base) base x
        if r.1.signal = .fault then some r
        else some (r.1, { r.2 with cands := r.2.cands.take base })

variable {plan : SearchPlan} {first : Bool} {x : Searcher} {n : Nat}

-- a computation on one searcher gives an outcome and, unless that is a fault, leaves the searcher as it was
def Restores (r : Option (Outcome × Searcher)) (o : Outcome) (x : Searcher) : Prop :=
  ∃ x', r = some (o, x') ∧ (o.signal ≠ .fault → x' = x)

theorem restores_tryCands {descend : Searcher → Option (Outcome × Searcher)} {visit : SearchState → Outcome}
    (pre cs : List Pair) (hx : x.cands = pre ++ cs)
    (hfree : ∀ c ∈ cs, x.state.pattern.isMatched c.p = false ∧ x.state.target.isMatched c.t = false)
    (hd : ∀ c ∈ cs, plan.test x.state c = .accept →
      Restores (descend { x with state := x.state.extend c }) (visit (x.state.extend c))
        { x with state := x.state.extend c }) :
    Restores (plan.tryCands descend cs.length pre.length x) (plan.explore visit x.state cs) x := by
  induction cs generalizing pre with
  | nil => exact ⟨x, rfl, fun _ => rfl⟩
  | cons c cs ih =>
    have hc : x.cands[pre.length]? = some c := by simp [hx]
    have hlater := ih (pre ++ [c]) (by simp [hx]) (fun c hc => hfree c (List.mem_cons_of_mem _ hc))
      fun c hc => hd c (List.mem_cons_of_mem _ hc)
    rw [List.length_append, List.length_singleton] at hlater
    rw [List.length_cons, tryCands, hc, explore, Option.bind_eq_bind, Option.bind_some]
    cases ht : plan.test x.state c with
    | reject => exact hlater
    | fault => exact ⟨x, rfl, fun h => absurd rfl h⟩
    | accept =>
      obtain ⟨x', hdescend, hsame⟩ := hd c List.mem_cons_self ht
      obtain ⟨hp, htt⟩ := hfree c List.mem_cons_self
      have hback := SearchState.backtrack?_extend hp htt
      simp only [hdescend, Option.bind_eq_bind, Option.bind_some]
      cases hg : (visit (x.state.extend c)).signal with
      | fault => exact ⟨x', by simp, fun h => absurd hg h⟩
      | enough =>
        obtain rfl := hsame (by simp [hg])
        exact ⟨x, by simp [hback], fun _ => rfl⟩
      | proceed =>
        obtain rfl := hsame (by simp [hg])
        obtain ⟨x', htry, hkept⟩ := hlater
        exact ⟨x', by simp [hback, htry], hkept⟩

section

variable {P T : Graph} (hP : P.WellFormed) (hT : T.WellFormed)

include hP hT

-- what is tried and undone in place comes to the same as trying every pair on a state of its own
theorem restores_descend (hs : x.state.Exact P T) :
    Restores (plan.descend first n x) (plan.visit first n x.state) x := by
  induction n generalizing x with
  | zero =>
    rw [descend, visit]
    split
    · exact ⟨x, rfl, fun _ => rfl⟩
    · split
      · exact ⟨x, rfl, fun _ => rfl⟩
      · exact ⟨x, rfl, fun _ => rfl⟩
  | succ n ih =>
    rw [descend, visit]
    split
    · exact ⟨x, rfl, fun _ => rfl⟩
    · split
      · exact ⟨x, rfl, fun _ => rfl⟩
      · have hfree (c : Pair) (hc : c ∈ x.state.candidates) := (hs.candidate hc).2.2
        have hlen : (x.cands ++ x.state.candidates).length - x.cands.length = x.state.candidates.length := by
          rw [List.length_append, Nat.add_sub_cancel_left]
        have hbelow : ∀ c ∈ x.state.candidates, plan.test x.state c = .accept →
            Restores (plan.descend first n ⟨x.state.extend c, x.cands ++ x.state.candidates⟩)
              (plan.visit first n (x.state.extend c)) ⟨x.state.extend c, x.cands ++ x.state.candidates⟩ := by
          intro c hc _
          obtain ⟨hp, ht, hmp, hmt⟩ := hs.candidate hc
          exact ih (hs.extend hP hT hp ht hmp hmt)
        obtain ⟨x', htry, hkept⟩ :=
          restores_tryCands (x := ⟨x.state, x.cands ++ x.state.candidates⟩) x.cands _ rfl hfree hbelow
        simp only [hlen, htry, Option.bind_eq_bind, Option.bind_some]
        split
        · rename_i hfault
          exact ⟨x', rfl, fun h => absurd hfault h⟩
        · rename_i hfault
          obtain rfl := hkept hfault
          exact ⟨x, by simp, fun _ => rfl⟩

theorem restores_run : Restores (plan.descend first P.size { state := SearchState.start P T }) (plan.run first P T)
    { state := SearchState.start P T } :=
  restores_descend hP hT (SearchState.exact_start P T)

end

end SearchPlan

end HeapAbstraction
