import HeapAbstraction.Proofs.HeapSet
import HeapAbstraction.Proofs.Catalog

namespace HeapAbstraction.HeapSet

variable {s : HeapSet} {h : Heap} {offered : List Heap} {answers : List Bool}

def offerAll (offered : List Heap) : List Bool × HeapSet :=
  offered.foldl (fun r h => (r.1 ++ [(r.2.insert h).value.1], (r.2.insert h).value.2)) ([], {})

def scanAll (offered : List Heap) : List Bool × List Heap :=
  offered.foldl (fun r h =>
    if r.2.any (fun k => k.equals h) then (r.1 ++ [false], r.2) else (r.1 ++ [true], r.2 ++ [h])) ([], [])

theorem offerAll_concat (offered : List Heap) (h : Heap) : offerAll (offered ++ [h]) =
    ((offerAll offered).1 ++ [((offerAll offered).2.insert h).value.1], ((offerAll offered).2.insert h).value.2) :=
  List.foldl_concat ..

theorem scanAll_concat (offered : List Heap) (h : Heap) : scanAll (offered ++ [h]) =
    if (scanAll offered).2.any (fun k => k.equals h) then ((scanAll offered).1 ++ [false], (scanAll offered).2)
    else ((scanAll offered).1 ++ [true], (scanAll offered).2 ++ [h]) :=
  List.foldl_concat ..

def IsNew (offered : List Heap) (h : Heap) (i : Nat) : Prop := ∀ g ∈ offered.take i, ¬ g.Isomorphic h

theorem isNew_append {i : Nat} (hi : i ≤ offered.length) (more : List Heap) :
    IsNew (offered ++ more) h i ↔ IsNew offered h i := by
  rw [IsNew, List.take_append_of_le_length hi, IsNew]

open Classical in
noncomputable def firsts (offered : List Heap) : List Heap :=
  (offered.zipIdx.filter (fun p => IsNew offered p.1 p.2)).map Prod.fst

open Classical in
theorem firsts_concat (offered : List Heap) (h : Heap) : firsts (offered ++ [h]) =
    firsts offered ++ if IsNew offered h offered.length then [h] else [] := by
  have hold : offered.zipIdx.filter (fun p => IsNew (offered ++ [h]) p.1 p.2) =
      offered.zipIdx.filter (fun p => IsNew offered p.1 p.2) := by
    refine List.filter_congr fun p hp => ?_
    have hlt : p.2 < offered.length := by simpa using (List.mem_zipIdx hp).2.1
    rw [isNew_append hlt.le]
  have hlast := isNew_append (h := h) (le_refl offered.length) [h]
  rw [firsts, List.zipIdx_append, List.filter_append, hold, List.map_append, ← firsts, List.zipIdx_singleton]
  by_cases hnew : IsNew offered h offered.length
  · simp [hlast, hnew]
  · simp [hlast, hnew]

structure Collects (answers : List Bool) (s : HeapSet) (offered : List Heap) : Prop where
  valid : s.Valid
  represent : Heap.Represent s.items offered
  wellFormed : ∀ g ∈ offered, g.WellFormed
  length : answers.length = offered.length
  tells : ∀ i g, offered[i]? = some g → (answers[i]? = some true ↔ IsNew offered g i)
  items : s.items = firsts offered
  scan : scanAll offered = (answers, s.items)

theorem collects_nil : Collects [] {} [] where
  valid := valid_empty
  represent := .nil
  wellFormed := by simp
  length := rfl
  tells i g hg := by simp at hg
  items := rfl
  scan := rfl

theorem Collects.isNew_iff (hc : Collects answers s offered) :
    IsNew offered h offered.length ↔ ∀ k ∈ s.items, ¬ k.Isomorphic h := by
  have hiff := not_congr (hc.represent.exists_iff (h := h) hc.wellFormed)
  simp only [not_exists, not_and] at hiff
  rw [IsNew, List.take_length, hiff]

theorem Collects.any_equals (hc : Collects answers s offered) (hw : h.WellFormed) :
    s.items.any (fun k => k.equals h) = true ↔ ∃ k ∈ s.items, k.Isomorphic h := by
  rw [List.any_eq_true]
  refine exists_congr fun k => and_congr_right fun hk => ?_
  exact Heap.equals_iff (hc.valid.sound k hk) hw.toSound

theorem Collects.tells_concat (hc : Collects answers s offered) {added : Bool}
    (hadded : added = true ↔ IsNew offered h offered.length) (i : Nat) (g : Heap) (hg : (offered ++ [h])[i]? = some g) :
    (answers ++ [added])[i]? = some true ↔ IsNew (offered ++ [h]) g i := by
  rcases Nat.lt_trichotomy i offered.length with hi | rfl | hi
  · rw [List.getElem?_append_left hi] at hg
    rw [List.getElem?_append_left (hc.length ▸ hi), isNew_append hi.le]
    exact hc.tells i g hg
  · rw [List.getElem?_concat_length] at hg
    cases hg
    rw [← hc.length, List.getElem?_concat_length, hc.length, isNew_append (le_refl _), ← hadded, Option.some.injEq]
  · rw [List.getElem?_eq_none (by simpa using hi)] at hg
    cases hg

theorem Collects.insert (hc : Collects answers s offered) (hw : h.WellFormed) :
    Collects (answers ++ [(s.insert h).value.1]) (s.insert h).value.2 (offered ++ [h]) := by
  have hall : ∀ g ∈ offered ++ [h], g.WellFormed := by
    rw [List.forall_mem_append]
    exact ⟨hc.wellFormed, by simpa using hw⟩
  have hlength (b : Bool) : (answers ++ [b]).length = (offered ++ [h]).length := by simp [hc.length]
  have hscan := scanAll_concat offered h
  rw [hc.scan] at hscan
  rcases hc.valid.insert_cases hw.toSound with ⟨hknown, heq⟩ | ⟨hnew, t, heq, ht, hitems⟩
  · have hold : ¬ IsNew offered h offered.length := by
      rw [hc.isNew_iff]
      rintro hnone
      obtain ⟨k, hk, hiso⟩ := hknown
      exact hnone k hk hiso
    rw [heq]
    refine ⟨hc.valid, hc.represent.known hknown, hall, hlength false, hc.tells_concat (by simpa using hold), ?_, ?_⟩
    · rw [firsts_concat, if_neg hold, List.append_nil, hc.items]
    · rw [hscan, if_pos ((hc.any_equals hw).mpr hknown)]
  · have hfresh : IsNew offered h offered.length := hc.isNew_iff.mpr hnew
    rw [heq]
    refine ⟨ht, hitems ▸ hc.represent.push hnew, hall, hlength true, hc.tells_concat (by simpa using hfresh), ?_, ?_⟩
    · rw [firsts_concat, if_pos hfresh, hitems, hc.items]
    · have hnone : ¬ s.items.any (fun k => k.equals h) = true := by
        rw [hc.any_equals hw]
        rintro ⟨k, hk, hiso⟩
        exact hnew k hk hiso
      rw [hscan, if_neg hnone, hitems]

theorem collects_offerAll (hw : ∀ g ∈ offered, g.WellFormed) :
    Collects (offerAll offered).1 (offerAll offered).2 offered := by
  induction offered using List.reverseRecOn with
  | nil => exact collects_nil
  | append_singleton offered h ih =>
    rw [List.forall_mem_append] at hw
    rw [offerAll_concat]
    exact (ih hw.1).insert (hw.2 h (by simp))

theorem Valid.existsUnique_get (hs : s.Valid) {k : Heap} (hk : k ∈ s.items) (hkh : k.Isomorphic h) (hh : h.Sound) :
    ∃! i : Fin s.items.length, (s.items.get i).Isomorphic h := by
  obtain ⟨i, rfl⟩ := List.get_of_mem hk
  refine ⟨i, hkh, fun j hj => hs.get_inj ?_⟩
  exact hj.trans (hs.sound _ (List.get_mem _ j)) (hkh.symm hh)

theorem collects_firsts (hw : ∀ h ∈ offered, h.WellFormed ∧ h.Idle) :
    (offerAll offered).1.length = offered.length ∧
    (∀ i h, offered[i]? = some h →
      ((offerAll offered).1[i]? = some true ↔ ∀ g ∈ offered.take i, ¬ g.Isomorphic h)) ∧
    (offerAll offered).2.items = firsts offered ∧
    (offerAll offered).2.items.Pairwise (fun a b => ¬ a.Isomorphic b) ∧
    (∀ h ∈ offered, ∃! i : Fin (offerAll offered).2.items.length, ((offerAll offered).2.items.get i).Isomorphic h) ∧
    ((offerAll offered).1, (offerAll offered).2.items) = scanAll offered := by
  have hc := collects_offerAll fun g hg => (hw g hg).1
  refine ⟨hc.length, hc.tells, hc.items, hc.represent.distinct, fun h hh => ?_, hc.scan.symm⟩
  obtain ⟨k, hk, hkh⟩ := hc.represent.covers h hh
  exact hc.valid.existsUnique_get hk hkh (hc.wellFormed h hh).toSound

theorem collects_firsts_loops :
    (∀ h ∈ [Heap.loops, Heap.path, Heap.turnedLoops, Heap.turnedPath, Heap.knot], h.WellFormed ∧ h.Idle) ∧
    (offerAll [.loops, .path, .turnedLoops, .turnedPath, .knot]).1 = [true, true, false, false, true] ∧
    (offerAll [.loops, .path, .turnedLoops, .turnedPath, .knot]).2.items = [.loops, .path, .knot] ∧
    firsts [.loops, .path, .turnedLoops, .turnedPath, .knot] = [.loops, .path, .knot] := by
  have hw : ∀ h ∈ [Heap.loops, Heap.path, Heap.turnedLoops, Heap.turnedPath, Heap.knot], h.WellFormed ∧ h.Idle := by
    simp only [List.forall_mem_cons, List.not_mem_nil, false_imp_iff, implies_true, and_true]
    exact ⟨⟨Heap.wellFormed_loops, by decide⟩, ⟨Heap.wellFormed_path, by decide⟩,
      ⟨Heap.wellFormed_turnedLoops, by decide⟩, ⟨Heap.wellFormed_turnedPath, by decide⟩,
      ⟨Heap.wellFormed_knot, by decide⟩⟩
  have hscan : scanAll [.loops, .path, .turnedLoops, .turnedPath, .knot] =
      ([true, true, false, false, true], [.loops, .path, .knot]) := by decide
  obtain ⟨-, -, hfirsts, -, -, hsame⟩ := collects_firsts hw
  rw [hscan, Prod.mk.injEq] at hsame
  exact ⟨hw, hsame.1, hsame.2, hfirsts ▸ hsame.2⟩

end HeapAbstraction.HeapSet
