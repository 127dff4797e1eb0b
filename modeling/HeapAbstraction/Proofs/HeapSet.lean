import HeapAbstraction.Proofs.Fingerprint
import HeapAbstraction.Proofs.Lists
import HeapAbstraction.HeapSet

namespace HeapAbstraction.HeapSet

variable {s : HeapSet} {h : Heap}

theorem value_anyEqual (h : Heap) (ks : List Heap) : (anyEqual h ks).value = ks.any (fun k => k.equals h) := by
  induction ks with
  | nil => rfl
  | cons k ks ih =>
    rw [anyEqual, Counted.value_bind, List.any_cons, ← ih]
    change (if k.equals h then _ else _ : Counted Bool).value = _
    cases k.equals h <;> rfl

theorem lookup_putBucket (key k : UInt64) (b : List Heap) (bs : List (UInt64 × List Heap)) :
    (putBucket key b bs).lookup k = if k = key then some b else bs.lookup k := by
  induction bs with
  | nil => exact lookup_cons_ite k key b []
  | cons entry bs ih =>
    obtain ⟨j, c⟩ := entry
    rw [putBucket]
    by_cases hj : j = key
    · subst hj
      rw [if_pos rfl, lookup_cons_ite, lookup_cons_ite]
      by_cases hk : k = j <;> simp [hk]
    · rw [if_neg hj, lookup_cons_ite, lookup_cons_ite, ih]
      by_cases hk : k = j
      · simp [hk, hj]
      · simp [hk]

structure Valid (s : HeapSet) : Prop where
  sound : ∀ k ∈ s.items, k.Sound
  bucket : ∀ key, s.bucket key = s.items.filter (fun k => k.fingerprint == key)
  distinct : s.items.Pairwise (fun a b => ¬ a.Isomorphic b)

theorem valid_empty : Valid {} := ⟨by simp, fun _ => rfl, .nil⟩

theorem Valid.eq_of_isomorphic (hs : s.Valid) {a b : Heap} (ha : a ∈ s.items) (hb : b ∈ s.items)
    (hab : a.Isomorphic b) : a = b := by
  by_contra hne
  have hsymm : Std.Symm (fun a b : Heap => b.Sound → a.Sound → ¬ a.Isomorphic b) :=
    ⟨fun a b h hsa hsb hba => h hsb hsa (hba.symm hsa)⟩
  have hdistinct : s.items.Pairwise (fun a b => b.Sound → a.Sound → ¬ a.Isomorphic b) :=
    hs.distinct.imp fun h _ _ => h
  exact hdistinct.forall ha hb hne (hs.sound b hb) (hs.sound a ha) hab

theorem Valid.get_inj (hs : s.Valid) {i j : Fin s.items.length} (hij : (s.items.get i).Isomorphic (s.items.get j)) :
    i = j := by
  have hnodup : s.items.Nodup := by
    apply hs.distinct.imp
    rintro a _ hab rfl
    exact hab (.refl a)
  exact List.nodup_iff_injective_get.mp hnodup (hs.eq_of_isomorphic (List.get_mem _ i) (List.get_mem _ j) hij)

theorem Valid.exists_equiv {t : HeapSet} (hs : s.Valid) (ht : t.Valid)
    (hst : ∀ a ∈ s.items, ∃ b ∈ t.items, a.Isomorphic b) (hts : ∀ b ∈ t.items, ∃ a ∈ s.items, b.Isomorphic a) :
    ∃ σ : Fin s.items.length ≃ Fin t.items.length, ∀ i, (s.items.get i).Isomorphic (t.items.get (σ i)) := by
  have hpartner : ∀ i, ∃ j, (s.items.get i).Isomorphic (t.items.get j) := by
    intro i
    obtain ⟨b, hb, hib⟩ := hst _ (List.get_mem _ i)
    obtain ⟨j, rfl⟩ := List.get_of_mem hb
    exact ⟨j, hib⟩
  have hsound (i : Fin s.items.length) := hs.sound _ (List.get_mem _ i)
  have htsound (j : Fin t.items.length) := ht.sound _ (List.get_mem _ j)
  choose σ hσ using hpartner
  have hinj : Function.Injective σ := by
    intro i i' hii
    apply hs.get_inj
    apply (hσ i).trans (hsound i)
    rw [hii]
    exact (hσ i').symm (htsound _)
  have hsurj : Function.Surjective σ := by
    intro j
    obtain ⟨a, ha, hja⟩ := hts _ (List.get_mem _ j)
    obtain ⟨i, rfl⟩ := List.get_of_mem ha
    exact ⟨i, (ht.get_inj (hja.trans (htsound j) (hσ i))).symm⟩
  exact ⟨Equiv.ofBijective σ ⟨hinj, hsurj⟩, hσ⟩

theorem Valid.anyEqual_bucket (hs : s.Valid) (hh : h.Sound) :
    (anyEqual h (s.bucket h.fingerprint)).value = true ↔ ∃ k ∈ s.items, k.Isomorphic h := by
  rw [value_anyEqual, hs.bucket, List.any_eq_true]
  simp only [List.mem_filter, beq_iff_eq]
  constructor
  · rintro ⟨k, ⟨hk, -⟩, heq⟩
    exact ⟨k, hk, (Heap.equals_iff (hs.sound k hk) hh).mp heq⟩
  · rintro ⟨k, hk, hiso⟩
    have hkey := hiso.fingerprintWith_eq Hash.xxh64 (hs.sound k hk) hh
    exact ⟨k, ⟨hk, hkey⟩, (Heap.equals_iff (hs.sound k hk) hh).mpr hiso⟩

theorem Valid.push (hs : s.Valid) (hh : h.Sound) (hnew : ∀ k ∈ s.items, ¬ k.Isomorphic h) :
    Valid { buckets := putBucket h.fingerprint (s.bucket h.fingerprint ++ [h]) s.buckets, items := s.items ++ [h] } where
  sound k hk := by
    rcases List.mem_append.mp hk with hk | hk
    · exact hs.sound k hk
    · exact List.mem_singleton.mp hk ▸ hh
  bucket key := by
    rw [HeapSet.bucket, lookup_putBucket, List.filter_append, ← hs.bucket]
    by_cases hkey : key = h.fingerprint
    · simp [hkey]
    · simp [hkey, Ne.symm hkey, HeapSet.bucket]
  distinct := by
    refine List.pairwise_append.mpr ⟨hs.distinct, List.pairwise_singleton _ _, fun k hk x hx => ?_⟩
    rw [List.mem_singleton.mp hx]
    exact hnew k hk

theorem Valid.insert_cases (hs : s.Valid) (hh : h.Sound) :
    ((∃ k ∈ s.items, k.Isomorphic h) ∧ (s.insert h).value = (false, s)) ∨
      ((∀ k ∈ s.items, ¬ k.Isomorphic h) ∧
        ∃ t, (s.insert h).value = (true, t) ∧ t.Valid ∧ t.items = s.items ++ [h]) := by
  have hfound := hs.anyEqual_bucket hh
  by_cases hex : ∃ k ∈ s.items, k.Isomorphic h
  · refine .inl ⟨hex, ?_⟩
    rw [insert, Counted.value_bind, hfound.mpr hex]
    rfl
  · have hnew : ∀ k ∈ s.items, ¬ k.Isomorphic h := fun k hk hiso => hex ⟨k, hk, hiso⟩
    refine .inr ⟨hnew, _, ?_, hs.push hh hnew, rfl⟩
    rw [insert, Counted.value_bind, Bool.eq_false_iff.mpr (mt hfound.mp hex)]
    rfl

end HeapAbstraction.HeapSet
