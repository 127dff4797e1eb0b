import Mathlib.Data.List.Nodup

namespace HeapAbstraction

variable {α β γ : Type}

theorem mapM_eq_map {ε : Type} {f : α → Except ε β} {g : α → β} {as : List α} (h : ∀ a ∈ as, f a = .ok (g a)) :
    as.mapM f = .ok (as.map g) := by
  induction as with
  | nil => rfl
  | cons a as ih =>
    rw [List.mapM_cons, h a (by simp), ih fun b hb => h b (by simp [hb])]
    rfl

theorem filterM_eq_filter {ε : Type} {f : α → Except ε Bool} {p : α → Bool} {as : List α}
    (h : ∀ a ∈ as, f a = .ok (p a)) : as.filterM f = .ok (as.filter p) := by
  have haux (acc : List α) : as.filterAuxM f acc = .ok ((as.filter p).reverse ++ acc) := by
    induction as generalizing acc with
    | nil => rfl
    | cons a as ih =>
      rw [List.filterAuxM, h a List.mem_cons_self]
      refine (ih (fun b hb => h b (List.mem_cons_of_mem _ hb)) _).trans ?_
      cases hp : p a <;> simp [hp]
  rw [List.filterM, haux, List.append_nil]
  change Except.ok _ = _
  rw [List.reverse_reverse]

theorem length_foldl_set (a : α) (ws : List Nat) (dist : List α) :
    (ws.foldl (fun t w => t.set w a) dist).length = dist.length := by
  induction ws generalizing dist with
  | nil => rfl
  | cons w ws ih => rw [List.foldl_cons, ih, List.length_set]

theorem getElem?_foldl_set (a : α) (ws : List Nat) (dist : List α) (v : Nat) (hv : v < dist.length) :
    (ws.foldl (fun t w => t.set w a) dist)[v]? = if v ∈ ws then some a else dist[v]? := by
  induction ws generalizing dist with
  | nil => simp
  | cons w ws ih =>
    rw [List.foldl_cons, ih (dist.set w a) (by rwa [List.length_set]), List.getElem?_set]
    by_cases hw : w = v
    · subst hw
      simp [hv]
    · have hw' : v ≠ w := fun hx => hw hx.symm
      simp [hw, hw']

theorem exists_of_mem_forall₂ {R : α → β → Prop} {as : List α} {bs : List β} {b : β} (h : List.Forall₂ R as bs)
    (hb : b ∈ bs) : ∃ a ∈ as, R a b := by
  induction h with
  | nil => simp at hb
  | cons hr _ ih =>
    rcases List.mem_cons.mp hb with rfl | hb
    · exact ⟨_, List.mem_cons_self, hr⟩
    · obtain ⟨a, ha, hr⟩ := ih hb
      exact ⟨a, List.mem_cons_of_mem _ ha, hr⟩

theorem flatMap_map_singleton {f : α → β} {g : β → List γ} {k : α → γ} {as : List α} (h : ∀ a ∈ as, g (f a) = [k a]) :
    (as.map f).flatMap g = as.map k := by
  induction as with
  | nil => rfl
  | cons a as ih =>
    obtain ⟨ha, has⟩ := List.forall_mem_cons.mp h
    rw [List.map_cons, List.flatMap_cons, ha, ih has]
    rfl

theorem mem_map_getD {f : α → Option β} {d : β} {as : List α} (hf : ∀ a, a ∈ as ↔ ∃ b, f a = some b) (a : α) (b : β) :
    (a, b) ∈ as.map (fun a => (a, (f a).getD d)) ↔ f a = some b := by
  simp only [List.mem_map, Prod.mk.injEq]
  constructor
  · rintro ⟨a', ha', rfl, rfl⟩
    obtain ⟨b, hb⟩ := (hf a').mp ha'
    rw [hb, Option.getD_some]
  · intro hb
    exact ⟨a, (hf a).mpr ⟨b, hb⟩, rfl, by rw [hb, Option.getD_some]⟩

section Keys

variable [BEq α] [LawfulBEq α]

theorem nodup_eraseDups (as : List α) : as.eraseDups.Nodup := by
  match as with
  | [] => simp
  | a :: as =>
    rw [List.eraseDups_cons, List.nodup_cons, List.mem_eraseDups, List.mem_filter]
    refine ⟨by simp, ?_⟩
    exact nodup_eraseDups (as.filter (fun b => !b == a))
termination_by as.length
decreasing_by
  exact Nat.lt_succ_of_le (List.length_filter_le _ _)

theorem lookup_cons_ite [DecidableEq α] (k a : α) (b : β) (rest : List (α × β)) :
    ((a, b) :: rest).lookup k = if k = a then some b else rest.lookup k := by
  rw [List.lookup_cons]
  by_cases hk : k = a
  · simp [hk]
  · simp [beq_eq_false_iff_ne.mpr hk, hk]

theorem lookup_zipIdx [DecidableEq α] {as : List α} {a : α} (k : Nat) :
    (as.zipIdx k).lookup a = if a ∈ as then some (as.idxOf a + k) else none := by
  induction as generalizing k with
  | nil => rfl
  | cons b as ih =>
    rw [List.zipIdx_cons, lookup_cons_ite, ih]
    by_cases hab : a = b
    · subst hab
      simp
    · rw [if_neg hab, List.idxOf_cons_ne _ (Ne.symm hab)]
      simp [hab, Nat.add_assoc, Nat.add_comm 1 k]

theorem idxOf_map [BEq β] [LawfulBEq β] {f : α → β} (hf : ∀ a b, f a = f b → a = b) (as : List α) (a : α) :
    (as.map f).idxOf (f a) = as.idxOf a := by
  induction as with
  | nil => rfl
  | cons b as ih =>
    have hbeq : (f b == f a) = (b == a) := by
      rw [Bool.eq_iff_iff, beq_iff_eq, beq_iff_eq]
      exact ⟨hf b a, congrArg f⟩
    rw [List.map_cons, List.idxOf_cons, List.idxOf_cons, ih, hbeq]

theorem getElem?_map_snd {ps : List (α × β)} (hn : (ps.map Prod.fst).Nodup) {i : Nat} {b : β} :
    (ps.map Prod.snd)[i]? = some b ↔ ∃ a, (a, b) ∈ ps ∧ (ps.map Prod.fst).idxOf a = i := by
  have hplace {a : α} {j : Nat} (hj : ps[j]? = some (a, b)) : (ps.map Prod.fst).idxOf a = j := by
    have ha : (ps.map Prod.fst)[j]? = some a := by
      rw [List.getElem?_map, hj]
      rfl
    obtain ⟨hlt, rfl⟩ := List.getElem?_eq_some_iff.mp ha
    exact hn.idxOf_getElem j hlt
  rw [List.getElem?_map, Option.map_eq_some_iff]
  constructor
  · rintro ⟨⟨a, _⟩, hi, rfl⟩
    exact ⟨a, List.mem_of_getElem? hi, hplace hi⟩
  · rintro ⟨a, ha, rfl⟩
    obtain ⟨j, hj⟩ := List.mem_iff_getElem?.mp ha
    exact ⟨(a, b), hplace hj ▸ hj, rfl⟩

end Keys

theorem takeWhile_eq_filter {p : α → Bool} {as : List α}
    (hp : as.Pairwise (fun a b => p b = true → p a = true)) : as.takeWhile p = as.filter p := by
  induction as with
  | nil => rfl
  | cons a as ih =>
    obtain ⟨ha, has⟩ := List.pairwise_cons.mp hp
    rw [List.takeWhile_cons, List.filter_cons, ih has]
    split
    · rfl
    · rename_i hno
      exact (List.filter_eq_nil_iff.mpr fun b hb hpb => hno (ha b hb hpb)).symm

theorem dropWhile_eq_filter {p : α → Bool} {as : List α}
    (hp : as.Pairwise (fun a b => p b = true → p a = true)) :
    as.dropWhile p = as.filter (fun a => !p a) := by
  induction as with
  | nil => rfl
  | cons a as ih =>
    obtain ⟨ha, has⟩ := List.pairwise_cons.mp hp
    rw [List.dropWhile_cons, List.filter_cons]
    cases hpa : p a with
    | true => simp [ih has]
    | false =>
      have hrest : as.filter (fun b => !p b) = as :=
        List.filter_eq_self.mpr fun b hb => by simpa [hpa] using mt (ha b hb)
      simp [hrest]

end HeapAbstraction
