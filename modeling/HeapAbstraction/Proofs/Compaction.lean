import HeapAbstraction.Proofs.Edit
import HeapAbstraction.Heap.Compaction

namespace HeapAbstraction

theorem lookup_eq_some {α β : Type} [BEq α] [LawfulBEq α] {ps : List (α × β)} (hn : (ps.map Prod.fst).Nodup)
    {a : α} {b : β} : ps.lookup a = some b ↔ (a, b) ∈ ps := by
  induction ps with
  | nil => simp
  | cons p ps ih =>
    obtain ⟨c, d⟩ := p
    rw [List.map_cons, List.nodup_cons] at hn
    rw [List.lookup_cons]
    by_cases hac : a = c
    · subst hac
      have hna : ∀ b, (a, b) ∉ ps := fun b hb => hn.1 (List.mem_map.mpr ⟨_, hb, rfl⟩)
      simp [hna, eq_comm]
    · have hbeq : (a == c) = false := by simpa using hac
      simp [hbeq, ih hn.2, hac]

theorem lookup_zip {as bs : List Nat} (hn : as.Nodup) (hl : as.length ≤ bs.length) {i a b : Nat}
    (ha : as[i]? = some a) (hb : bs[i]? = some b) : (as.zip bs).lookup a = some b := by
  have hfst : ((as.zip bs).map Prod.fst).Nodup := by
    rwa [List.map_fst_zip hl]
  refine (lookup_eq_some hfst).mpr (List.mem_iff_getElem?.mpr ⟨i, ?_⟩)
  rw [List.getElem?_zip_eq_some]
  exact ⟨ha, hb⟩

theorem lookup_zip_of_not_mem {as bs : List Nat} {a : Nat} (ha : a ∉ as) : (as.zip bs).lookup a = none := by
  rw [List.lookup_eq_none_iff]
  rintro ⟨c, d⟩ hm
  have : a ≠ c := by
    rintro rfl
    exact ha (List.of_mem_zip hm).1
  simpa using this

namespace Store

def Live (s : Store) (v : Nat) : Prop := ∃ e, s[v]? = some e ∧ e.removed = false

def move (s : Store) (v : Nat) : Nat := s.relocation[v]?.getD danglingSlot

variable {s : Store} {n v w : Nat}

theorem any_live : (s[v]?).any (fun e => !e.removed) = true ↔ s.Live v := by
  cases hv : s[v]? <;> simp [Live, hv]

theorem any_removed (hv : v < s.length) : (s[v]?).any (fun e => e.removed) = true ↔ ¬ s.Live v := by
  simp [Live, List.getElem?_eq_getElem hv]

theorem Live.lt (h : s.Live v) : v < s.length := by
  obtain ⟨e, he, -⟩ := h
  exact (List.getElem?_eq_some_iff.mp he).1

theorem mem_movers : v ∈ s.movers n ↔ n ≤ v ∧ s.Live v := by
  simp only [movers, List.mem_reverse, List.mem_filter, List.mem_range, Bool.and_eq_true, decide_eq_true_eq, any_live]
  exact ⟨fun ⟨_, h⟩ => h, fun h => ⟨h.2.lt, h⟩⟩

theorem mem_holes (hn : n ≤ s.length) : v ∈ s.holes n ↔ v < n ∧ ¬ s.Live v := by
  simp only [holes, List.mem_filter, List.mem_range]
  exact and_congr_right fun hv => any_removed (hv.trans_le hn)

theorem movers_nodup : (s.movers n).Nodup := List.nodup_reverse.mpr (List.nodup_range.filter _)

theorem holes_nodup : (s.holes n).Nodup := List.nodup_range.filter _

theorem countP_eq_countP_range {α : Type} (p : α → Bool) (s : List α) :
    s.countP p = (List.range s.length).countP (fun v => (s[v]?).any p) := by
  have hm : (List.range s.length).map (fun v => s[v]?) = s.map some := by
    refine List.ext_getElem? fun i => ?_
    by_cases hi : i < s.length
    · simp [hi]
    · simp [Nat.not_lt.mp hi]
  calc s.countP p = (s.map some).countP (fun o => o.any p) := by simp [List.countP_map, Function.comp_def]
    _ = _ := by rw [← hm, List.countP_map]; rfl

theorem liveCount_le : s.liveCount ≤ s.length := List.countP_le_length

theorem length_movers : (s.movers s.liveCount).length = (s.holes s.liveCount).length := by
  obtain ⟨k, hk⟩ := Nat.exists_eq_add_of_le (liveCount_le (s := s))
  have hlive : s.liveCount = (List.range s.length).countP (fun v => (s[v]?).any (fun e => !e.removed)) :=
    countP_eq_countP_range _ s
  generalize hn : s.liveCount = n at hk hlive ⊢
  have hm : (s.movers n).length = ((List.range k).map (n + ·)).countP (fun v => (s[v]?).any (fun e => !e.removed)) := by
    rw [movers, List.length_reverse, ← List.countP_eq_length_filter, hk, List.range_add, List.countP_append,
      List.countP_eq_zero.mpr (by simp; omega), Nat.zero_add]
    refine List.countP_congr fun v hv => ?_
    have : n ≤ v := by
      simp only [List.mem_map, List.mem_range] at hv
      omega
    simp [this]
  have hh : (s.holes n).length =
      (List.range n).countP (fun v => decide ¬ (s[v]?).any (fun e => !e.removed) = true) := by
    rw [holes, ← List.countP_eq_length_filter]
    refine List.countP_congr fun v hv => ?_
    have hv' : v < s.length := by
      rw [List.mem_range] at hv
      omega
    rw [any_removed hv', decide_eq_true_eq, any_live]
  have hsum := List.length_eq_countP_add_countP (fun v => (s[v]?).any (fun e => !e.removed)) (l := List.range n)
  rw [List.length_range, ← hh] at hsum
  rw [hk, List.range_add, List.countP_append, ← hm] at hlive
  omega

theorem move_eq (hv : s.Live v) :
    s.move v = (((s.movers s.liveCount).zip (s.holes s.liveCount)).lookup v).getD v := by
  obtain ⟨e, he, hr⟩ := hv
  simp [move, relocation, List.getElem?_zipIdx, he, hr]

theorem getElem?_origins (hw : w < s.liveCount) :
    s.origins[w]? = some ((((s.holes s.liveCount).zip (s.movers s.liveCount)).lookup w).getD w) := by
  simp [origins, hw]

theorem exists_getElem?_of_length_eq {as bs : List Nat} (h : as.length = bs.length) {a : Nat} (ha : a ∈ as) :
    ∃ i b : Nat, as[i]? = some a ∧ bs[i]? = some b := by
  obtain ⟨i, hi⟩ := List.mem_iff_getElem?.mp ha
  obtain ⟨hlt, -⟩ := List.getElem?_eq_some_iff.mp hi
  exact ⟨i, bs[i], hi, List.getElem?_eq_getElem (h ▸ hlt)⟩

theorem move_mover {i : Nat} (hv : (s.movers s.liveCount)[i]? = some v) (hw : (s.holes s.liveCount)[i]? = some w) :
    s.move v = w ∧ s.origins[w]? = some v := by
  have hl := (mem_movers.mp (List.mem_of_getElem? hv)).2
  have hlt := ((mem_holes liveCount_le).mp (List.mem_of_getElem? hw)).1
  rw [move_eq hl, getElem?_origins hlt, lookup_zip movers_nodup length_movers.le hv hw,
    lookup_zip holes_nodup length_movers.ge hw hv]
  exact ⟨rfl, rfl⟩

theorem move_stayer (hv : s.Live v) (hlt : v < s.liveCount) : s.move v = v ∧ s.origins[v]? = some v := by
  have hm : v ∉ s.movers s.liveCount := fun h => absurd (mem_movers.mp h).1 (Nat.not_le.mpr hlt)
  have hh : v ∉ s.holes s.liveCount := fun h => ((mem_holes liveCount_le).mp h).2 hv
  rw [move_eq hv, getElem?_origins hlt, lookup_zip_of_not_mem hm, lookup_zip_of_not_mem hh]
  exact ⟨rfl, rfl⟩

theorem origins_move (hv : s.Live v) : s.origins[s.move v]? = some v := by
  by_cases hlt : v < s.liveCount
  · obtain ⟨h1, h2⟩ := move_stayer hv hlt
    rwa [h1]
  · obtain ⟨i, w, hi, hw⟩ :=
      exists_getElem?_of_length_eq length_movers (mem_movers.mpr ⟨Nat.not_lt.mp hlt, hv⟩)
    obtain ⟨h1, h2⟩ := move_mover hi hw
    rwa [h1]

theorem length_origins : s.origins.length = s.liveCount := by simp [origins]

theorem exists_move (hw : w < s.liveCount) : ∃ v, s.Live v ∧ s.move v = w := by
  by_cases hl : s.Live w
  · exact ⟨w, hl, (move_stayer hl hw).1⟩
  · obtain ⟨i, v, hi, hv⟩ :=
      exists_getElem?_of_length_eq length_movers.symm ((mem_holes liveCount_le).mpr ⟨hw, hl⟩)
    exact ⟨v, (mem_movers.mp (List.mem_of_getElem? hv)).2, (move_mover hv hi).1⟩

theorem move_inj {u : Nat} (hu : s.Live u) (hv : s.Live v) (h : s.move u = s.move v) : u = v := by
  have h1 := origins_move hu
  rw [h, origins_move hv] at h1
  exact (Option.some.inj h1).symm

end Store

namespace Heap

structure Moved (h : Heap) (f : Nat → Nat) (h' : Heap) : Prop where
  nextId : h'.nextId = h.nextId
  inj : ∀ u v, h.elements.Live u → h.elements.Live v → f u = f v → u = v
  at_move : ∀ v e, h.elements[v]? = some e → e.removed = false →
    ∃ preds, h'.elements[f v]? = some { e.relocate f with preds := preds } ∧ preds.Perm (e.preds.map f)
  cover : ∀ w, w < h'.elements.length → ∃ v, h.elements.Live v ∧ f v = w

variable {h h' : Heap} {f : Nat → Nat} {u v w : Nat} {l : EdgeLabel} {lab : Label}

theorem live_iff : h.elements.Live v ↔ ∃ lab, h.labelAt v = some lab := by
  simp only [labelAt_eq_some]
  exact ⟨fun ⟨e, he, hr⟩ => ⟨_, e, he, hr, rfl⟩, fun ⟨_, e, he, hr, _⟩ => ⟨e, he, hr⟩⟩

theorem moved_compact (h : Heap) : Moved h h.elements.move h.compact where
  nextId := rfl
  inj _ _ hu hv huv := Store.move_inj hu hv huv
  at_move v e he hr := by
    have := Store.origins_move (s := h.elements) ⟨e, he, hr⟩
    refine ⟨e.preds.map _, ?_, .refl _⟩
    simp only [compact, List.getElem?_map, this, Option.map_some, he, Option.getD_some]
    rfl
  cover w hw := Store.exists_move (by simpa [compact, Store.length_origins] using hw)

namespace Moved

theorem labelAt (hm : Moved h f h') (hv : h.elements.Live v) : h'.labelAt (f v) = h.labelAt v := by
  obtain ⟨e, he, hr⟩ := hv
  obtain ⟨preds, hp, -⟩ := hm.at_move v e he hr
  simp [Heap.labelAt, hp, he, Element.relocate]

theorem idOf (hm : Moved h f h') (hv : h.elements.Live v) : h'.idOf (f v) = h.idOf v := by
  obtain ⟨e, he, hr⟩ := hv
  obtain ⟨preds, hp, -⟩ := hm.at_move v e he hr
  simp [Heap.idOf, hp, he, Element.relocate]

theorem ordinalAt (hm : Moved h f h') (hv : h.elements.Live v) : h'.ordinalAt (f v) = h.ordinalAt v := by
  obtain ⟨e, he, hr⟩ := hv
  obtain ⟨preds, hp, -⟩ := hm.at_move v e he hr
  simp [Heap.ordinalAt, hp, he, Element.relocate]

theorem out (hm : Moved h f h') (hv : h.elements.Live v) : h'.out (f v) = Arc.moved f (h.out v) := by
  obtain ⟨e, he, hr⟩ := hv
  obtain ⟨preds, hp, -⟩ := hm.at_move v e he hr
  simp [Heap.out, hp, he, Element.relocate, Arc.moved]

theorem into (hm : Moved h f h') (hv : h.elements.Live v) : (h'.into (f v)).Perm ((h.into v).map f) := by
  obtain ⟨e, he, hr⟩ := hv
  obtain ⟨preds, hp, hperm⟩ := hm.at_move v e he hr
  simpa [Heap.into, hp, he] using hperm

theorem slot_cases (hm : Moved h f h') (w : Nat) :
    (∃ v, h.elements.Live v ∧ f v = w) ∨ h'.elements[w]? = none := by
  by_cases hw : w < h'.elements.length
  · exact .inl (hm.cover w hw)
  · exact .inr (List.getElem?_eq_none (Nat.not_lt.mp hw))

theorem idle (hm : Moved h f h') : h'.Idle := by
  intro e he
  obtain ⟨w, hw⟩ := List.mem_iff_getElem?.mp he
  rcases hm.slot_cases w with ⟨v, ⟨e', he', hr⟩, rfl⟩ | hn
  · obtain ⟨preds, hp, -⟩ := hm.at_move v e' he' hr
    rw [hp] at hw
    obtain rfl := Option.some.inj hw
    exact hr
  · simp [hn] at hw

theorem idOf_eq_some (hm : Moved h f h') {x : Nat} :
    h'.idOf w = some x ↔ ∃ v, h.elements.Live v ∧ f v = w ∧ h.idOf v = some x := by
  constructor
  · intro hw
    rcases hm.slot_cases w with ⟨v, hv, rfl⟩ | hn
    · exact ⟨v, hv, rfl, by rwa [← hm.idOf hv]⟩
    · simp [Heap.idOf, hn] at hw
  · rintro ⟨v, hv, rfl, hx⟩
    rwa [hm.idOf hv]

theorem labelAt_eq_some (hm : Moved h f h') : h'.labelAt w = some lab ↔ ∃ v, f v = w ∧ h.labelAt v = some lab := by
  constructor
  · intro hw
    rcases hm.slot_cases w with ⟨v, hv, rfl⟩ | hn
    · exact ⟨v, rfl, by rwa [← hm.labelAt hv]⟩
    · simp [Heap.labelAt, hn] at hw
  · rintro ⟨v, rfl, hl⟩
    rwa [hm.labelAt (live_iff.mpr ⟨lab, hl⟩)]

theorem ordinalAt_eq_some (hm : Moved h f h') (hs : h.Sound) {i : Nat} :
    h'.ordinalAt w = some i ↔ ∃ v, f v = w ∧ h.ordinalAt v = some i := by
  constructor
  · intro hw
    rcases hm.slot_cases w with ⟨v, hv, rfl⟩ | hn
    · exact ⟨v, rfl, by rwa [← hm.ordinalAt hv]⟩
    · simp [Heap.ordinalAt, hn] at hw
  · rintro ⟨v, rfl, hi⟩
    obtain ⟨type, ht⟩ := hs.ordinal_node v i hi
    rwa [hm.ordinalAt (live_iff.mpr ⟨_, ht⟩)]

theorem joined_iff (hm : Moved h f h') (hs : h.Sound) :
    h'.Joined u w ↔ ∃ a b, h.Joined a b ∧ f a = u ∧ f b = w := by
  constructor
  · intro hj
    rcases hm.slot_cases u with ⟨a, ha, rfl⟩ | hn
    · rw [Joined, hm.out ha, Arc.reaches_moved] at hj
      obtain ⟨b, hb, rfl⟩ := hj
      exact ⟨a, b, hb, rfl, rfl⟩
    · simp [Joined, Heap.out, hn] at hj
  · rintro ⟨a, b, hj, rfl, rfl⟩
    rw [Joined, hm.out (live_iff.mpr (hs.labelAt_of_joined hj)), Arc.reaches_moved]
    exact ⟨b, hj, rfl⟩

theorem linked_iff (hm : Moved h f h') (hs : h.Sound) :
    h'.Linked u l w ↔ ∃ a b, h.Linked a l b ∧ f a = u ∧ f b = w := by
  constructor
  · intro hj
    rcases hm.slot_cases u with ⟨a, ha, rfl⟩ | hn
    · rw [Linked, hm.out ha, Arc.carries_moved] at hj
      obtain ⟨b, hb, rfl⟩ := hj
      exact ⟨a, b, hb, rfl, rfl⟩
    · simp [Linked, Heap.out, hn] at hj
  · rintro ⟨a, b, hl, rfl, rfl⟩
    rw [Linked, hm.out (live_iff.mpr (hs.labelAt_of_joined hl.joined)), Arc.carries_moved]
    exact ⟨b, hl, rfl⟩

theorem live_ends (hs : h.Sound) (hj : h.Joined u v) : h.elements.Live u ∧ h.elements.Live v := by
  obtain ⟨type, ht⟩ := hs.ends u v hj
  exact ⟨live_iff.mpr (hs.labelAt_of_joined hj), live_iff.mpr ⟨_, ht⟩⟩

theorem live_of_ordinalAt (hs : h.Sound) {i : Nat} (hi : h.ordinalAt v = some i) : h.elements.Live v := by
  obtain ⟨type, ht⟩ := hs.ordinal_node v i hi
  exact live_iff.mpr ⟨_, ht⟩

theorem sound (hm : Moved h f h') (hs : h.Sound) : h'.Sound where
  id_lt w x hw := by
    obtain ⟨v, -, -, hx⟩ := hm.idOf_eq_some.mp hw
    rw [hm.nextId]
    exact hs.id_lt v x hx
  id_inj v w x hv hw := by
    obtain ⟨a, -, rfl, ha⟩ := hm.idOf_eq_some.mp hv
    obtain ⟨b, -, rfl, hb⟩ := hm.idOf_eq_some.mp hw
    rw [hs.id_inj a b x ha hb]
  tidy w := by
    rcases hm.slot_cases w with ⟨v, hv, rfl⟩ | hn
    · rw [hm.out hv]
      exact (hs.tidy v).moved fun a b ha hb hab => hm.inj a b (live_ends hs ha).2 (live_ends hs hb).2 hab
    · simpa [Heap.out, hn] using Arc.Tidy.nil
  into_nodup w := by
    rcases hm.slot_cases w with ⟨v, hv, rfl⟩ | hn
    · rw [(hm.into hv).nodup_iff]
      refine List.Nodup.map_on (fun a ha b hb hab => ?_) (hs.into_nodup v)
      have ha' := (hs.mem_into a v).mp ha
      have hb' := (hs.mem_into b v).mp hb
      exact hm.inj a b (live_ends hs ha').1 (live_ends hs hb').1 hab
    · simp [Heap.into, hn]
  mem_into u w := by
    rw [hm.joined_iff hs]
    rcases hm.slot_cases w with ⟨v, hv, rfl⟩ | hn
    · rw [(hm.into hv).mem_iff, List.mem_map]
      constructor
      · rintro ⟨a, ha, rfl⟩
        exact ⟨a, v, (hs.mem_into a v).mp ha, rfl, rfl⟩
      · rintro ⟨a, b, hj, rfl, hb⟩
        obtain rfl := hm.inj b v (live_ends hs hj).2 hv hb
        exact ⟨a, (hs.mem_into a b).mpr hj, rfl⟩
    · simp only [Heap.into, hn, Option.map_none, Option.getD_none, List.not_mem_nil, false_iff]
      rintro ⟨a, b, hj, -, rfl⟩
      obtain ⟨e, he, hr⟩ := (live_ends hs hj).2
      obtain ⟨preds, hp, -⟩ := hm.at_move b e he hr
      simp [hp] at hn
  ends u w hj := by
    obtain ⟨a, b, hab, rfl, rfl⟩ := (hm.joined_iff hs).mp hj
    obtain ⟨type, ht⟩ := hs.ends a b hab
    exact ⟨type, hm.labelAt_eq_some.mpr ⟨b, rfl, ht⟩⟩
  bare w hw := by
    rcases hm.slot_cases w with ⟨v, hv, rfl⟩ | hn
    · rw [hm.labelAt hv] at hw
      obtain ⟨lab, hl⟩ := live_iff.mp hv
      simp [hw] at hl
    · simp [Heap.out, hn]
  ordinal_node w i hw := by
    obtain ⟨v, rfl, hi⟩ := (hm.ordinalAt_eq_some hs).mp hw
    obtain ⟨type, ht⟩ := hs.ordinal_node v i hi
    exact ⟨type, hm.labelAt_eq_some.mpr ⟨v, rfl, ht⟩⟩
  ordinal_inj v w i hv hw := by
    obtain ⟨a, rfl, ha⟩ := (hm.ordinalAt_eq_some hs).mp hv
    obtain ⟨b, rfl, hb⟩ := (hm.ordinalAt_eq_some hs).mp hw
    rw [hs.ordinal_inj a b i ha hb]
  ordinal_below w i j hw hj := by
    obtain ⟨v, rfl, hi⟩ := (hm.ordinalAt_eq_some hs).mp hw
    obtain ⟨z, hz⟩ := hs.ordinal_below v i j hi hj
    exact ⟨f z, (hm.ordinalAt_eq_some hs).mpr ⟨z, rfl, hz⟩⟩

theorem view (hm : Moved h f h') (hs : h.Sound) : h'.view = h.view := by
  have hs' := hm.sound hs
  ext1
  · exact hm.nextId
  · funext x
    refine Option.ext fun lab => ?_
    rw [hs'.view_label, hs.view_label]
    constructor
    · rintro ⟨w, hw, hl⟩
      obtain ⟨v, hv, rfl, hx⟩ := hm.idOf_eq_some.mp hw
      exact ⟨v, hx, by rwa [← hm.labelAt hv]⟩
    · rintro ⟨v, hx, hl⟩
      have hv := live_iff.mpr ⟨lab, hl⟩
      exact ⟨f v, hm.idOf_eq_some.mpr ⟨v, hv, rfl, hx⟩, by rwa [hm.labelAt hv]⟩
  · funext x
    refine Option.ext fun i => ?_
    rw [hs'.view_ordinal, hs.view_ordinal]
    constructor
    · rintro ⟨w, hw, hi⟩
      obtain ⟨v, hv, rfl, hx⟩ := hm.idOf_eq_some.mp hw
      exact ⟨v, hx, by rwa [← hm.ordinalAt hv]⟩
    · rintro ⟨v, hx, hi⟩
      have hv := live_of_ordinalAt hs hi
      exact ⟨f v, hm.idOf_eq_some.mpr ⟨v, hv, rfl, hx⟩, by rwa [hm.ordinalAt hv]⟩
  · funext x l y
    simp only [Heap.view, eq_iff_iff]
    constructor
    · rintro ⟨u, w, hu, hw, hl⟩
      obtain ⟨a, b, hab, rfl, rfl⟩ := (hm.linked_iff hs).mp hl
      obtain ⟨ha, hb⟩ := live_ends hs hab.joined
      rw [hm.idOf ha] at hu
      rw [hm.idOf hb] at hw
      exact ⟨a, b, hu, hw, hab⟩
    · rintro ⟨a, b, hu, hw, hab⟩
      obtain ⟨ha, hb⟩ := live_ends hs hab.joined
      exact ⟨f a, f b, by rwa [hm.idOf ha], by rwa [hm.idOf hb], (hm.linked_iff hs).mpr ⟨a, b, hab, rfl, rfl⟩⟩

end Moved

theorem Sound.closed (hs : h.Sound) : h.closed = true := by
  simp only [Heap.closed, List.all_eq_true, Bool.or_eq_true, Bool.and_eq_true, decide_eq_true_eq]
  intro e he
  obtain ⟨v, hv⟩ := List.mem_iff_getElem?.mp he
  refine .inr ⟨fun a ha => ?_, fun u hu => ?_⟩
  · refine hs.lt_of_joined (u := v) (v := a.target) ?_
    rw [Joined, out_eq hv]
    exact ⟨a, ha, rfl⟩
  · have hj := (hs.mem_into u v).mp (by rwa [into_eq hv])
    obtain ⟨lab, hl⟩ := hs.labelAt_of_joined hj
    exact lt_of_labelAt hl

theorem idle_iff : h.Idle ↔ h.elements.any (fun e => e.removed) = false := by
  simp [Idle, List.any_eq_false]

theorem Sound.build (hs : h.Sound) : ∃ h', h.build = .ok h' ∧ h'.Sound ∧ h'.Idle ∧ h'.view = h.view := by
  by_cases hi : h.Idle
  · exact ⟨h, by simp [Heap.build, idle_iff.mp hi], hs, hi, rfl⟩
  · have hm := moved_compact h
    have hany : h.elements.any (fun e => e.removed) = true := by
      rwa [idle_iff, Bool.not_eq_false] at hi
    exact ⟨h.compact, by simp [Heap.build, hany, hs.closed], hm.sound hs, hm.idle, hm.view hs⟩

theorem WellFormed.build (hw : h.WellFormed) (hb : h.build = .ok h') : h'.WellFormed ∧ h'.Idle ∧ h'.view = h.view := by
  obtain ⟨k, hk, hs, hi, hv⟩ := hw.toSound.build
  obtain rfl := Except.ok.inj (hk.symm.trans hb)
  exact ⟨hs.wellFormed_iff.mpr (hv ▸ hw.toSound.wellFormed_iff.mp hw), hi, hv⟩

end Heap

end HeapAbstraction
