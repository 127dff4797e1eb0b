namespace HeapAbstraction

abbrev Visitor (σ α : Type) := σ → α → Bool × σ

namespace Visitor

variable {σ α : Type}

def visit (v : Visitor σ α) : σ → List α → List α × σ
  | m, [] => ([], m)
  | m, a :: rest =>
      let (more, m) := v m a
      if more then
        let (seen, m) := v.visit m rest
        (a :: seen, m)
      else ([a], m)

def answers (v : Visitor σ α) : σ → List α → List Bool
  | _, [] => []
  | m, a :: rest => (v m a).1 :: v.answers (v m a).2 rest

theorem fst_visit (v : Visitor σ α) (m : σ) (items : List α) :
    (v.visit m items).1 = items.take (((v.answers m items).takeWhile id).length + 1) := by
  induction items generalizing m with
  | nil => rfl
  | cons a rest ih =>
    rw [visit, answers, List.takeWhile_cons]
    cases hmore : (v m a).1 <;> simp [hmore, ih]

theorem fst_visit_of_forall {v : Visitor σ α} (hv : ∀ m a, (v m a).1 = true) (m : σ) (items : List α) :
    (v.visit m items).1 = items := by
  induction items generalizing m with
  | nil => rfl
  | cons a rest ih => simp [visit, hv, ih]

end Visitor

end HeapAbstraction
