import HeapAbstraction.Proofs.ArenaHeap

namespace HeapAbstraction

namespace Arena

section Window

variable (live : Nat → Bool)

def livingIn (lo n : Nat) : Nat := (List.range' lo n).countP live

-- the `a` lowest places of a window belong to what lives there, and the `b` places above them are given up
def pairs (lo a b : Nat) : List (Nat × Nat) :=
  ((List.range' lo a).filter (fun v => !live v)).zip ((List.range' (lo + a) b).filter live).reverse

variable {live} {lo n a b : Nat}

theorem livingIn_le : livingIn live lo n ≤ n := by
  simpa [livingIn] using List.countP_le_length (p := live) (l := List.range' lo n)

theorem livingIn_cons : livingIn live lo (n + 1) = livingIn live (lo + 1) n + if live lo then 1 else 0 := by
  rw [livingIn, List.range'_succ, List.countP_cons]
  rfl

theorem livingIn_concat : livingIn live lo (n + 1) = livingIn live lo n + if live (lo + n) then 1 else 0 := by
  rw [livingIn, List.range'_1_concat, List.countP_append, List.countP_singleton]
  rfl

theorem pairs_live (hlo : live lo = true) : pairs live lo (a + 1) b = pairs live (lo + 1) a b := by
  rw [pairs, pairs, List.range'_succ, List.filter_cons_of_neg (by simp [hlo]), Nat.add_right_comm lo 1 a, Nat.add_assoc]

theorem pairs_dead (hhi : live (lo + (a + b)) = false) : pairs live lo a (b + 1) = pairs live lo a b := by
  have hlast : [lo + a + b].filter live = [] := by simp [Nat.add_assoc, hhi]
  rw [pairs, pairs, List.range'_1_concat, List.filter_append, hlast, List.append_nil]

theorem pairs_exchange (hlo : live lo = false) (hhi : live (lo + (a + b + 1)) = true) :
    pairs live lo (a + 1) (b + 1) = (lo, lo + (a + b + 1)) :: pairs live (lo + 1) a b := by
  have hplace : lo + (a + 1) + b = lo + (a + b + 1) := by omega
  have hlast : [lo + (a + 1) + b].filter live = [lo + (a + b + 1)] := by simp [hplace, hhi]
  rw [pairs, pairs, List.range'_succ, List.filter_cons_of_pos (by simp [hlo]), List.range'_1_concat, List.filter_append,
    hlast, List.reverse_append, List.reverse_singleton, List.singleton_append, List.zip_cons_cons,
    show lo + (a + 1) = lo + 1 + a by omega]

theorem pairs_zero : pairs live lo 0 b = [] := rfl

theorem pairs_full : pairs live lo a 0 = [] := List.zip_nil_right

end Window

def exchange (slots : List Slot) (p : Nat × Nat) : List Slot :=
  match slots[p.1]?, slots[p.2]? with
  | some s, some r => (slots.set p.1 r).set p.2 s
  | _, _ => slots

def redirect (remap : List (Option Nat)) (p : Nat × Nat) : List (Option Nat) := remap.set p.2 (some p.1)

-- inside the window no slot has moved yet, so which pairs are exchanged can be read off the window at the start
theorem converge_eq (live : Nat → Bool) {slots : List Slot} (remap : List (Option Nat)) {lo n : Nat}
    (hw : ∀ w, lo ≤ w → w < lo + n → ∃ s, slots[w]? = some s ∧ s.removed = !live w) :
    converge slots remap lo n =
      ((pairs live lo (livingIn live lo n) (n - livingIn live lo n)).foldl exchange slots,
        (pairs live lo (livingIn live lo n) (n - livingIn live lo n)).foldl redirect remap) := by
  fun_induction converge slots remap lo n with
  | case1 slots remap lo n s r hr hs hlive ih =>
    obtain ⟨s', hs', hrem⟩ := hw lo le_rfl (by omega)
    obtain rfl := Option.some.inj (hs.symm.trans hs')
    have hlo : live lo = true := by simpa [hrem] using hlive
    have hliving : livingIn live lo (n + 2) = livingIn live (lo + 1) (n + 1) + 1 := by simp [livingIn_cons, hlo]
    rw [ih fun w h1 h2 => hw w (by omega) (by omega), hliving, pairs_live hlo,
      show n + 2 - (livingIn live (lo + 1) (n + 1) + 1) = n + 1 - livingIn live (lo + 1) (n + 1) by omega]
  | case2 slots remap lo n s r hr hs hlive hdead ih =>
    obtain ⟨r', hr', hrem⟩ := hw (lo + (n + 1)) (by omega) (by omega)
    obtain rfl := Option.some.inj (hr.symm.trans hr')
    have hhi : live (lo + (n + 1)) = false := by simpa [hdead] using hrem
    have hliving : livingIn live lo (n + 2) = livingIn live lo (n + 1) := by simp [livingIn_concat (n := n + 1), hhi]
    have hle : livingIn live lo (n + 1) ≤ n + 1 := livingIn_le
    rw [ih fun w h1 h2 => hw w h1 (by omega), hliving,
      show n + 2 - livingIn live lo (n + 1) = n + 1 - livingIn live lo (n + 1) + 1 by omega, pairs_dead]
    rwa [show livingIn live lo (n + 1) + (n + 1 - livingIn live lo (n + 1)) = n + 1 by omega]
  | case3 slots remap lo n s r hr hs hlive hdead ih =>
    obtain ⟨s', hs', hrem⟩ := hw lo le_rfl (by omega)
    obtain rfl := Option.some.inj (hs.symm.trans hs')
    obtain ⟨r', hr', hrem'⟩ := hw (lo + (n + 1)) (by omega) (by omega)
    obtain rfl := Option.some.inj (hr.symm.trans hr')
    have hlo : live lo = false := by simpa [hrem] using hlive
    have hhi : live (lo + (n + 1)) = true := by simpa [hrem'] using hdead
    have hliving : livingIn live lo (n + 2) = livingIn live (lo + 1) n + 1 := by
      have hplace : lo + 1 + n = lo + (n + 1) := by omega
      rw [livingIn_cons, livingIn_concat, hplace, hlo, hhi]
      rfl
    have hle : livingIn live (lo + 1) n ≤ n := livingIn_le
    have hsum : livingIn live (lo + 1) n + (n - livingIn live (lo + 1) n) + 1 = n + 1 := by omega
    rw [ih fun w h1 h2 => by
        rw [List.getElem?_set_ne (by omega), List.getElem?_set_ne (by omega)]
        exact hw w (by omega) (by omega),
      hliving, show n + 2 - (livingIn live (lo + 1) n + 1) = n - livingIn live (lo + 1) n + 1 by omega,
      pairs_exchange hlo (by rwa [hsum]), hsum]
    simp only [List.foldl_cons, exchange, redirect, hs, hr]
  | case4 slots remap lo n hno =>
    obtain ⟨s, hs, -⟩ := hw lo le_rfl (by omega)
    obtain ⟨r, hr, -⟩ := hw (lo + (n + 1)) (by omega) (by omega)
    exact (hno s r hs hr).elim
  | case5 n slots remap lo hn =>
    have hsmall : n = 0 ∨ n = 1 := by
      by_contra hlarge
      exact hn (n - 2) (by omega)
    obtain rfl | rfl := hsmall
    · rfl
    · cases hlo : live lo <;> simp [livingIn, hlo, pairs_zero, pairs_full]

section Pairs

variable {ps : List (Nat × Nat)} {n v w : Nat}

theorem getElem?_foldl_redirect {remap : List (Option Nat)} (hn : (ps.map Prod.snd).Nodup)
    (hlt : ∀ p ∈ ps, p.2 < remap.length) : (ps.foldl redirect remap)[v]? =
      (((ps.map Prod.swap).lookup v).map some).or remap[v]? := by
  induction ps generalizing remap with
  | nil => rfl
  | cons p ps ih =>
    obtain ⟨u, m⟩ := p
    rw [List.map_cons, List.nodup_cons] at hn
    have hm : m < remap.length := hlt (u, m) List.mem_cons_self
    rw [List.foldl_cons, ih hn.2 fun p hp => by
      rw [redirect, List.length_set]
      exact hlt p (List.mem_cons_of_mem _ hp)]
    by_cases hv : v = m
    · subst hv
      have hnone : (ps.map Prod.swap).lookup v = none := by
        rw [List.lookup_eq_none_iff]
        rintro ⟨m, u⟩ hmem
        obtain ⟨p, hp, hswap⟩ := List.mem_map.mp hmem
        have hne : v ≠ m := by
          rintro rfl
          exact hn.1 (List.mem_map.mpr ⟨p, hp, congrArg Prod.fst hswap⟩)
        simpa using hne
      simp [hnone, redirect, hm]
    · have hbeq : (v == m) = false := by simpa using hv
      simp [redirect, List.lookup_cons, hbeq, List.getElem?_set_ne (Ne.symm hv)]

theorem exchange_eq {slots : List Slot} {u m : Nat} (hu : u < slots.length) (hm : m < slots.length) :
    exchange slots (u, m) = (slots.set u slots[m]).set m slots[u] := by
  rw [exchange, List.getElem?_eq_getElem hu, List.getElem?_eq_getElem hm]

theorem getElem?_foldl_exchange {slots : List Slot} (hfst : (ps.map Prod.fst).Nodup) (hsnd : (ps.map Prod.snd).Nodup)
    (hsplit : ∀ p ∈ ps, p.1 < n ∧ n ≤ p.2 ∧ p.2 < slots.length) (hw : w < n) :
    (ps.foldl exchange slots)[w]? = slots[(ps.lookup w).getD w]? := by
  induction ps generalizing slots with
  | nil => rfl
  | cons p ps ih =>
    obtain ⟨u, m⟩ := p
    rw [List.map_cons, List.nodup_cons] at hfst hsnd
    obtain ⟨⟨hu, hm, hlt⟩, hrest⟩ := List.forall_mem_cons.mp hsplit
    have hswap := exchange_eq (hu.trans_le (hm.trans hlt.le)) hlt
    rw [List.foldl_cons, ih hfst.2 hsnd.2 fun p hp => by
      rw [hswap, List.length_set, List.length_set]
      exact hrest p hp, hswap, List.lookup_cons]
    by_cases hwu : w = u
    · subst hwu
      have hnone : ps.lookup w = none := by
        rw [List.lookup_eq_none_iff]
        rintro ⟨u, m⟩ hmem
        have hne : w ≠ u := by
          rintro rfl
          exact hfst.1 (List.mem_map.mpr ⟨_, hmem, rfl⟩)
        simpa using hne
      simp [hnone, show m ≠ w by omega, show w < slots.length by omega, List.getElem?_eq_getElem hlt]
    · have hbeq : (w == u) = false := by simpa using hwu
      rw [hbeq]
      dsimp only
      -- what a lower place gets comes from a place that this exchange leaves alone
      have hother : (ps.lookup w).getD w ≠ u ∧ (ps.lookup w).getD w ≠ m := by
        cases hl : ps.lookup w with
        | none => exact ⟨hwu, by simp only [Option.getD_none]; omega⟩
        | some k =>
          have hmem := (lookup_eq_some hfst.2).mp hl
          obtain ⟨-, hk, -⟩ := hrest _ hmem
          refine ⟨by simp only [Option.getD_some]; omega, ?_⟩
          rintro rfl
          exact hsnd.1 (List.mem_map.mpr ⟨_, hmem, rfl⟩)
      rw [List.getElem?_set_ne hother.2.symm, List.getElem?_set_ne hother.1.symm]

end Pairs

section Closed

variable {s : Store} {v w : Nat}

def lives (s : Store) (v : Nat) : Bool := (s[v]?).any (fun e => !e.removed)

theorem lives_iff : lives s v = true ↔ s.Live v := Store.any_live

theorem livingIn_lives (s : Store) : livingIn (lives s) 0 s.length = s.liveCount := by
  rw [livingIn, ← List.range_eq_range', Store.liveCount]
  exact (Store.countP_eq_countP_range _ s).symm

theorem pairs_lives (s : Store) : pairs (lives s) 0 s.liveCount (s.length - s.liveCount) =
    (s.holes s.liveCount).zip (s.movers s.liveCount) := by
  have hle : s.liveCount ≤ s.length := Store.liveCount_le
  have hholes : (List.range' 0 s.liveCount).filter (fun v => !lives s v) = s.holes s.liveCount := by
    rw [Store.holes, List.range_eq_range']
    refine List.filter_congr fun v hv => ?_
    have hlt : v < s.length := by
      rw [List.mem_range'_1] at hv
      omega
    simp [lives, List.getElem?_eq_getElem hlt]
  have hmovers : ((List.range' s.liveCount (s.length - s.liveCount)).filter (lives s)).reverse =
      s.movers s.liveCount := by
    have hsplit : List.range s.length =
        List.range' 0 s.liveCount ++ List.range' s.liveCount (s.length - s.liveCount) := by
      have happend := List.range'_append_1 (s := 0) (m := s.liveCount) (n := s.length - s.liveCount)
      rw [Nat.zero_add, Nat.add_sub_cancel' hle] at happend
      rw [happend, List.range_eq_range']
    have hlow : (List.range' 0 s.liveCount).filter (fun v => s.liveCount ≤ v && lives s v) = [] := by
      rw [List.filter_eq_nil_iff]
      intro v hv
      rw [List.mem_range'_1] at hv
      simp
      omega
    have hhigh : (List.range' s.liveCount (s.length - s.liveCount)).filter (fun v => s.liveCount ≤ v && lives s v) =
        (List.range' s.liveCount (s.length - s.liveCount)).filter (lives s) := by
      refine List.filter_congr fun v hv => ?_
      rw [List.mem_range'_1] at hv
      simp [hv.1]
    have hrange : s.movers s.liveCount =
        ((List.range s.length).filter (fun v => s.liveCount ≤ v && lives s v)).reverse := rfl
    rw [hrange, hsplit, List.filter_append, hlow, hhigh, List.nil_append]
  rw [pairs, hholes, Nat.zero_add, hmovers]

variable (s) in
def converged : List Slot × List (Option Nat) :=
  converge (s.map Slot.ofElement) (identity { slots := s.map Slot.ofElement }) 0 s.length

variable (s) in
theorem converged_eq : converged s =
    (((s.holes s.liveCount).zip (s.movers s.liveCount)).foldl exchange (s.map Slot.ofElement),
      ((s.holes s.liveCount).zip (s.movers s.liveCount)).foldl redirect (identity { slots := s.map Slot.ofElement })) := by
  rw [converged, converge_eq (lives s), livingIn_lives, pairs_lives]
  intro w _ hw
  rw [Nat.zero_add] at hw
  exact ⟨Slot.ofElement s[w], by simp [hw], by simp [lives, List.getElem?_eq_getElem hw, Slot.ofElement]⟩

theorem getElem?_identity : (identity { slots := s.map Slot.ofElement })[v]? =
    (s[v]?).map (fun e => if e.removed then none else some v) := by
  simp only [identity, List.getElem?_map, List.getElem?_zipIdx]
  cases s[v]? <;> simp [Slot.ofElement]

-- the remap table of the loop is the relocation in closed form
theorem join_converged : ((converged s).2[v]?).join = if lives s v then some (s.move v) else none := by
  have hsnd : ((s.holes s.liveCount).zip (s.movers s.liveCount)).map Prod.snd = s.movers s.liveCount :=
    List.map_snd_zip Store.length_movers.le
  have hlt : ∀ p ∈ (s.holes s.liveCount).zip (s.movers s.liveCount),
      p.2 < (identity { slots := s.map Slot.ofElement }).length := by
    intro p hp
    have hmem : p.2 ∈ s.movers s.liveCount := (List.of_mem_zip hp).2
    simpa [identity] using (Store.mem_movers.mp hmem).2.lt
  rw [converged_eq]
  dsimp only
  rw [getElem?_foldl_redirect (by rw [hsnd]; exact Store.movers_nodup) hlt, List.zip_swap, getElem?_identity]
  by_cases hl : s.Live v
  · have hv : lives s v = true := lives_iff.mpr hl
    rw [if_pos hv, Store.move_eq hl]
    cases ((s.movers s.liveCount).zip (s.holes s.liveCount)).lookup v with
    | some u => rfl
    | none =>
      obtain ⟨e, he, hr⟩ := hl
      simp [he, hr]
  · have hv : lives s v = false := by
      rw [← Bool.not_eq_true]
      exact fun h => hl (lives_iff.mp h)
    have hmover : v ∉ s.movers s.liveCount := fun h => hl (Store.mem_movers.mp h).2
    rw [lookup_zip_of_not_mem hmover, hv]
    cases he : s[v]? with
    | none => rfl
    | some e =>
      have hr : e.removed = true := by simpa [lives, he] using hv
      simp [hr]

theorem moved_converged : moved (converged s).2 v = s.move v := by
  rw [moved, join_converged]
  split
  · rfl
  · rename_i hv
    rw [Store.move, Store.relocation, List.getElem?_map, List.getElem?_zipIdx]
    cases he : s[v]? with
    | none => rfl
    | some e =>
      have hr : e.removed = true := by simpa [lives, he] using hv
      simp [hr]

variable (s) in
theorem take_converged : (converged s).1.take s.liveCount =
    s.origins.map (fun v => Slot.ofElement (s[v]?.getD default)) := by
  have hfst : ((s.holes s.liveCount).zip (s.movers s.liveCount)).map Prod.fst = s.holes s.liveCount :=
    List.map_fst_zip Store.length_movers.ge
  have hsnd : ((s.holes s.liveCount).zip (s.movers s.liveCount)).map Prod.snd = s.movers s.liveCount :=
    List.map_snd_zip Store.length_movers.le
  have hsplit : ∀ p ∈ (s.holes s.liveCount).zip (s.movers s.liveCount),
      p.1 < s.liveCount ∧ s.liveCount ≤ p.2 ∧ p.2 < (s.map Slot.ofElement).length := by
    rintro ⟨u, m⟩ hp
    obtain ⟨hu, hm⟩ := List.of_mem_zip hp
    obtain ⟨hle, hlive⟩ := Store.mem_movers.mp hm
    exact ⟨((Store.mem_holes Store.liveCount_le).mp hu).1, hle, by simpa using hlive.lt⟩
  refine List.ext_getElem? fun w => ?_
  rw [List.getElem?_take, List.getElem?_map]
  split
  · rename_i hw
    obtain ⟨v, ⟨e, he, hr⟩, hmove⟩ := Store.exists_move hw
    have horigin := hmove ▸ Store.origins_move (s := s) ⟨e, he, hr⟩
    have hplace := Option.some.inj ((Store.getElem?_origins hw).symm.trans horigin)
    have hswapped := getElem?_foldl_exchange (hfst.symm ▸ Store.holes_nodup) (hsnd.symm ▸ Store.movers_nodup) hsplit hw
    rw [converged_eq, hswapped, hplace, horigin]
    simp [he]
  · rename_i hw
    rw [List.getElem?_eq_none (by simpa [Store.length_origins] using hw)]
    rfl

end Closed

section Pack

variable {h h' : Heap}

theorem ofElement_relocate (s : Store) (e : Element) :
    Slot.ofElement (e.relocate s.move) = (Slot.ofElement e).relocate (converged s).2 := by
  simp [Slot.ofElement, Slot.relocate, Element.relocate, Element.successors, moved_converged, Function.comp_def]

theorem slot?_compact (hs : h.Sound) (x : Nat) :
    h.compact.slot? x = (h.slot? x).bind (fun v => ((converged h.elements).2[v]?).join) := by
  have hm := h.moved_compact
  refine Option.ext fun w => ?_
  rw [(hm.sound hs).slot?_eq_some, Option.bind_eq_some_iff]
  constructor
  · rintro ⟨hid, lab, hlab⟩
    obtain ⟨v, hv, rfl, hx⟩ := hm.idOf_eq_some.mp hid
    refine ⟨v, hs.slot?_eq_some.mpr ⟨hx, Heap.live_iff.mp hv⟩, ?_⟩
    rw [join_converged, if_pos (lives_iff.mpr hv)]
  · rintro ⟨v, hx, hw⟩
    obtain ⟨hid, lab, hlab⟩ := hs.slot?_eq_some.mp hx
    have hv := Heap.live_iff.mpr ⟨lab, hlab⟩
    rw [join_converged, if_pos (lives_iff.mpr hv)] at hw
    cases hw
    exact ⟨hm.idOf_eq_some.mpr ⟨v, hv, rfl, hid⟩, lab, by rwa [hm.labelAt hv]⟩

theorem externals_compact (hs : h.Sound) : h.compact.externals = h.externals.map (moved (converged h.elements).2) := by
  have hm := h.moved_compact
  refine List.ext_getElem? fun i => Option.ext fun w => ?_
  rw [(hm.sound hs).getElem?_externals, hm.ordinalAt_eq_some hs, List.getElem?_map, Option.map_eq_some_iff]
  refine exists_congr fun v => ?_
  rw [moved_converged, hs.getElem?_externals]
  exact and_comm

theorem within_of_sound (hs : h.Sound) {v : Nat} {e : Element} (he : h.elements[v]? = some e) :
    (Slot.ofElement e).within h.elements.length = true := by
  simp only [Slot.within, Slot.ofElement, Bool.and_eq_true, List.all_eq_true, decide_eq_true_eq]
  refine ⟨fun a ha => ?_, fun u hu => ?_⟩
  · refine hs.lt_of_joined (u := v) (v := a.target) ?_
    rw [Heap.Joined, Heap.out_eq he]
    exact ⟨a, ha, rfl⟩
  · obtain ⟨lab, hl⟩ := hs.labelAt_of_joined ((hs.mem_into u v).mp (by rwa [Heap.into_eq he]))
    exact Heap.lt_of_labelAt hl

def kept (s : Store) : List Slot := s.origins.map (fun v => Slot.ofElement (s[v]?.getD default))

theorem length_sub_removed (s : Store) : s.length - s.countP Element.removed = s.liveCount := by
  have hsum := List.length_eq_countP_add_countP Element.removed (l := s)
  have hflip : s.countP (fun e => decide ¬ e.removed = true) = s.liveCount := List.countP_congr fun e _ => by simp
  omega

theorem within_kept (hs : h.Sound) : (kept h.elements).all (Slot.within h.elements.length) = true := by
  simp only [kept, List.all_eq_true, List.mem_map]
  rintro s ⟨v, hv, rfl⟩
  obtain ⟨w, hw⟩ := List.mem_iff_getElem?.mp hv
  have hlt : w < h.elements.liveCount := by
    rw [← Store.length_origins]
    exact (List.getElem?_eq_some_iff.mp hw).1
  obtain ⟨u, ⟨e, he, hr⟩, hmove⟩ := Store.exists_move hlt
  obtain rfl : u = v := Option.some.inj ((hmove ▸ Store.origins_move ⟨e, he, hr⟩ : _ = _).symm.trans hw)
  simpa [he] using within_of_sound hs he

theorem ofHeap_compact (hs : h.Sound) : ofHeap h.compact = {
    slots := (kept h.elements).map (Slot.relocate (converged h.elements).2)
    removedCount := 0
    privOf := (ofHeap h).privOf.map (fun o => o.bind (fun v => ((converged h.elements).2[v]?).join))
    externals := (ofHeap h).externals.map (moved (converged h.elements).2) } := by
  have hidle : h.compact.elements.countP Element.removed = 0 :=
    List.countP_eq_zero.mpr fun e he => by simp [h.moved_compact.idle e he]
  have hslots : h.compact.elements.map Slot.ofElement =
      (kept h.elements).map (Slot.relocate (converged h.elements).2) := by
    rw [Heap.compact, kept, List.map_map, List.map_map]
    exact List.map_congr_left fun v _ => ofElement_relocate h.elements _
  have hpriv : (List.range h.nextId).map (fun x : Nat => h.compact.slot? x) =
      ((List.range h.nextId).map (fun x : Nat => h.slot? x)).map
        (fun o => o.bind (fun v => ((converged h.elements).2[v]?).join)) := by
    rw [List.map_map]
    exact List.map_congr_left fun x _ => slot?_compact hs x
  simp only [ofHeap, hidle, hslots, externals_compact hs]
  exact congrArg₂ _ hpriv rfl

theorem pack_of_idle (hi : h.Idle) : pack (ofHeap h) = .ok () (ofHeap h) := by
  have hzero : (ofHeap h).removedCount = 0 := List.countP_eq_zero.mpr fun e he => by simp [hi e he]
  rw [pack, run_get, if_neg (not_not.mpr hzero)]
  rfl

theorem pack_of_removed (hs : h.Sound) (hr : (ofHeap h).removedCount ≠ 0) :
    pack (ofHeap h) = .ok () (ofHeap h.compact) := by
  have hrun : converge (ofHeap h).slots (ofHeap h).identity 0 (ofHeap h).slots.length = converged h.elements := by
    rw [converged, ofHeap]
    simp [identity]
  have htake : (converged h.elements).1.take ((ofHeap h).slots.length - (ofHeap h).removedCount) = kept h.elements := by
    rw [kept, ← take_converged, ← length_sub_removed]
    simp [ofHeap]
  have hwithin : (kept h.elements).all (Slot.within (ofHeap h).slots.length) = true := by
    rw [show (ofHeap h).slots.length = h.elements.length from List.length_map ..]
    exact within_kept hs
  rw [pack, run_get, if_pos hr]
  dsimp only
  rw [hrun, htake, hwithin, ofHeap_compact hs]
  rfl

theorem pack_ofHeap (hs : h.Sound) (hb : h.build = .ok h') : pack (ofHeap h) = .ok () (ofHeap h') := by
  by_cases hi : h.Idle
  · have hsame : h.build = .ok h := by simp [Heap.build, Heap.idle_iff.mp hi]
    obtain rfl := Except.ok.inj (hsame.symm.trans hb)
    exact pack_of_idle hi
  · have hany : h.elements.any (fun e => e.removed) = true := by rwa [Heap.idle_iff, Bool.not_eq_false] at hi
    have hcompact : h.build = .ok h.compact := by simp [Heap.build, hany, hs.closed]
    obtain rfl := Except.ok.inj (hcompact.symm.trans hb)
    obtain ⟨e, he, hr⟩ := List.any_eq_true.mp hany
    exact pack_of_removed hs (List.countP_pos_iff.mpr ⟨e, he, hr⟩).ne'

end Pack

end Arena

end HeapAbstraction
