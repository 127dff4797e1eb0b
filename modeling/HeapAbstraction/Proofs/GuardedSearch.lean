import HeapAbstraction.Proofs.Matching

namespace HeapAbstraction

theorem Verdict.andThen_ofBool (a b : Bool) : (ofBool a).andThen (ofBool b) = ofBool (a && b) := by
  cases a <;> rfl

theorem Side.graph_extended (s : Side) (v t : Nat) : (s.extended v t).graph = s.graph := by
  have hflag (k : Frontier) (s : Side) (u : Nat) : (flagNew k s u).graph = s.graph := by
    rw [flagNew]
    split
    · rfl
    · cases k <;> rfl
  have hfold (k : Frontier) (us : List Nat) (s : Side) : (us.foldl (flagNew k) s).graph = s.graph := by
    induction us generalizing s with
    | nil => rfl
    | cons u us ih => rw [List.foldl_cons, ih, hflag]
  rw [extended, hfold, hfold]
  rfl

namespace SearchPlan

variable {plan other : SearchPlan} {Valid : SearchState → Prop} {visit visit' : SearchState → Outcome}

theorem explore_congr {s : SearchState} (htest : ∀ c, plan.test s c = other.test s c)
    (hvisit : ∀ c, visit (s.extend c) = visit' (s.extend c)) (cs : List Pair) :
    plan.explore visit s cs = other.explore visit' s cs := by
  induction cs with
  | nil => rfl
  | cons c cs ih => rw [explore, explore, htest, hvisit, ih]

theorem visit_congr {first : Bool} {n : Nat} {s : SearchState} (hfound : plan.found = other.found)
    (himp : plan.impossible = other.impossible) (hstep : ∀ s c, Valid s → Valid (s.extend c))
    (htest : ∀ s c, Valid s → plan.test s c = other.test s c) (hs : Valid s) :
    plan.visit first n s = other.visit first n s := by
  induction n generalizing s with
  | zero => rw [SearchPlan.visit, SearchPlan.visit, hfound, himp]
  | succ n ih =>
    rw [SearchPlan.visit, SearchPlan.visit, hfound, himp,
      explore_congr (fun c => htest s c hs) fun c => ih (hstep s c hs)]

theorem signal_ne_fault {first : Bool} {n : Nat} {s : SearchState} (hfault : ∀ s c, plan.test s c ≠ .fault) :
    (plan.visit first n s).signal ≠ .fault := by
  have hfull : (plan.visit false n s).signal = .proceed := signal_visit hfault
  cases first with
  | false => simp [hfull]
  | true =>
    obtain ⟨-, h⟩ : IsFirst (plan.visit true n s) (plan.visit false n s) := isFirst_visit
    split at h
    · simp [h, hfull]
    · simp [h]

end SearchPlan

namespace Graph

def Whole (g : Graph) : Prop := ∀ v, danglingSlot ∉ g.successors v ∧ danglingSlot ∉ g.predecessors v

variable {g : Graph}

theorem WellFormed.whole (hg : g.WellFormed) (hs : g.size ≤ danglingSlot) : g.Whole := by
  intro v
  refine ⟨fun h => ?_, fun h => ?_⟩
  · exact absurd (hg.successors_lt v _ h).2 (Nat.not_lt.mpr hs)
  · exact absurd (hg.successors_lt _ v ((hg.mem_predecessors _ v).mp h)).1 (Nat.not_lt.mpr hs)

theorem Whole.guardedDistances? (hg : g.Whole) (exempt : Bytes → Bool) :
    g.guardedDistances? exempt = some (g.variableDistances exempt) := by
  simp [Graph.guardedDistances?, (hg _).1]

end Graph

section

variable {s : SearchState} {c : Pair} {found : List (Option Nat)}

theorem Feasibility.scan_eq {ok : Nat → Bool} {vs : List Nat} (hv : danglingSlot ∉ vs) :
    scan ok vs = .ofBool (vs.all ok) := by
  induction vs with
  | nil => rfl
  | cons v vs ih =>
    rw [List.mem_cons, not_or] at hv
    rw [scan, if_neg (Ne.symm hv.1), ih hv.2, List.all_cons]
    cases ok v <;> rfl

theorem Feasibility.guardedNeighbours_eq {exact : Bool} {ps ts : List Nat} (hp : danglingSlot ∉ ps)
    (ht : danglingSlot ∉ ts) : guardedNeighbours exact ps ts s c = .ofBool (neighboursAgree exact ps ts s c) := by
  rw [guardedNeighbours, scan_eq hp, scan_eq ht, Verdict.andThen_ofBool]
  rfl

theorem Feasibility.guardedFarEnough_eq {depth : Int} :
    guardedFarEnough (some found) depth s c = .ofBool (farEnough found depth s c) := by
  rw [guardedFarEnough, farEnough]
  cases depth ≤ 0 || !hides s c <;> rfl

variable (hP : s.pattern.graph.Whole) (hT : s.target.graph.Whole)

include hP hT

theorem Predicate.guardedTest_eq (predicate : Predicate) :
    predicate.guardedTest (some found) s c = .ofBool (predicate.test found s c) := by
  cases predicate with
  | successors exact => exact Feasibility.guardedNeighbours_eq (hP c.p).1 (hT c.t).1
  | predecessors exact => exact Feasibility.guardedNeighbours_eq (hP c.p).2 (hT c.t).2
  | farEnough depth exempt => exact Feasibility.guardedFarEnough_eq
  | _ => rfl

theorem Predicate.guardedTests_eq (predicates : List Predicate) : guardedTests (some found) predicates s c =
    .ofBool ((predicates.map (test found)).all (fun t => t s c)) := by
  induction predicates with
  | nil =>
    have hs : Feasibility.surrounded s c = true := by
      simp [Feasibility.surrounded, (hP c.p).1, (hP c.p).2, (hT c.t).1, (hT c.t).2]
    rw [guardedTests, if_pos hs]
    rfl
  | cons predicate predicates ih =>
    rw [guardedTests, guardedTest_eq hP hT, List.map_cons, List.all_cons, ih]
    cases predicate.test found s c <;> rfl

end

namespace Graph.Whole

variable {P T : Graph} (hP : P.Whole) (hT : T.Whole) (predicates : List Predicate) (first : Bool)

include hP hT

theorem run_guardedTests (found : List (Option Nat)) :
    SearchPlan.run { test := Predicate.guardedTests (some found) predicates } first P T =
      (SearchPlan.ofTests (predicates.map (Predicate.test found))).run first P T := by
  -- every state of the search is about its two graphs
  have hstep (s : SearchState) (c : Pair) (hs : s.pattern.graph = P ∧ s.target.graph = T) :
      (s.extend c).pattern.graph = P ∧ (s.extend c).target.graph = T :=
    ⟨by rw [SearchState.pattern_extend, Side.graph_extended, hs.1],
      by rw [SearchState.target_extend, Side.graph_extended, hs.2]⟩
  refine SearchPlan.visit_congr rfl rfl hstep (fun s c hs => ?_) ⟨rfl, rfl⟩
  exact Predicate.guardedTests_eq (hs.1 ▸ hP) (hs.2 ▸ hT) predicates

theorem guardedMorphisms? :
    Graph.guardedMorphisms? predicates first P T = some (Graph.morphisms predicates first P T) := by
  have hrun := run_guardedTests hP hT predicates first
  have hsignal (found : List (Option Nat)) :
      ((SearchPlan.ofTests (predicates.map (Predicate.test found))).run first P T).signal ≠ .fault :=
    SearchPlan.signal_ne_fault fun _ _ => Verdict.ofBool_ne_fault
  rw [Graph.guardedMorphisms?, Graph.morphisms, Predicate.tests]
  cases Predicate.exemption predicates with
  | none => simp [hrun, hsignal]
  | some exempt => simp [hT.guardedDistances?, hrun, hsignal]

end Graph.Whole

end HeapAbstraction
