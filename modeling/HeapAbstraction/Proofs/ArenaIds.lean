import HeapAbstraction.Proofs.ArenaCompaction

namespace HeapAbstraction

structure Slot.Continues (s s' : Slot) : Prop where
  pub : s'.pub = s.pub
  kind : s'.kind = s.kind
  removed : s.removed = true → s'.removed = true

def Slot.tag (s : Slot) : Int32 × Kind × Bool := (s.pub, s.kind, s.removed)

namespace Slot.Continues

theorem refl (s : Slot) : s.Continues s := ⟨rfl, rfl, fun h => h⟩

theorem trans {r s t : Slot} (h : r.Continues s) (h' : s.Continues t) : r.Continues t :=
  ⟨h'.pub.trans h.pub, h'.kind.trans h.kind, fun hr => h'.removed (h.removed hr)⟩

end Slot.Continues

namespace Arena

-- no ID is issued, and every slot stays where it is
structure Still (a b : Arena) : Prop where
  length : b.privOf.length = a.privOf.length
  refused : ∀ x : Nat, (a.privOf[x]?).join = none → (b.privOf[x]?).join = none
  pubs : b.slots.map Slot.pub = a.slots.map Slot.pub
  kept : ∀ (v : Nat) (s' : Slot), b.slots[v]? = some s' → ∃ s : Slot, a.slots[v]? = some s ∧ s.Continues s'

structure Numbered (a : Arena) : Prop where
  fits : ∀ s ∈ a.slots, 0 ≤ s.pub.toInt ∧ s.pub.toInt < a.privOf.length
  nodup : (a.slots.map Slot.pub).Nodup

-- slots may move or go, and new ones have IDs that were not issued before
structure Evolves (a b : Arena) : Prop where
  length : a.privOf.length ≤ b.privOf.length
  refused : ∀ x < a.privOf.length, (a.privOf[x]?).join = none → (b.privOf[x]?).join = none
  kept : ∀ s' ∈ b.slots, (∃ s ∈ a.slots, s.Continues s') ∨
    ∃ x, a.privOf.length ≤ x ∧ x < b.privOf.length ∧ s'.pub = Int32.ofNat x
  numbered : b.privOf.length ≤ 2 ^ 31 → a.Numbered → b.Numbered

variable {a b c : Arena}

theorem Still.refl (a : Arena) : Still a a := ⟨rfl, fun _ h => h, rfl, fun _ s hs => ⟨s, hs, .refl s⟩⟩

theorem Still.trans (h : Still a b) (h' : Still b c) : Still a c where
  length := h'.length.trans h.length
  refused x hx := h'.refused x (h.refused x hx)
  pubs := h'.pubs.trans h.pubs
  kept v t ht := by
    obtain ⟨s, hs, hst⟩ := h'.kept v t ht
    obtain ⟨r, hr, hrs⟩ := h.kept v s hs
    exact ⟨r, hr, hrs.trans hst⟩

theorem Still.evolves (h : Still a b) : Evolves a b where
  length := h.length.ge
  refused x _ := h.refused x
  kept s' hs' := by
    obtain ⟨v, hv⟩ := List.mem_iff_getElem?.mp hs'
    obtain ⟨s, hs, hc⟩ := h.kept v s' hv
    exact .inl ⟨s, List.mem_of_getElem? hs, hc⟩
  numbered _ hn := by
    refine ⟨fun s' hs' => ?_, h.pubs ▸ hn.nodup⟩
    obtain ⟨v, hv⟩ := List.mem_iff_getElem?.mp hs'
    obtain ⟨s, hs, hc⟩ := h.kept v s' hv
    rw [hc.pub, h.length]
    exact hn.fits s (List.mem_of_getElem? hs)

theorem Evolves.refl (a : Arena) : Evolves a a := (Still.refl a).evolves

theorem Evolves.trans (h : Evolves a b) (h' : Evolves b c) : Evolves a c where
  length := h.length.trans h'.length
  refused x hx hnone := h'.refused x (hx.trans_le h.length) (h.refused x hx hnone)
  kept t ht := by
    rcases h'.kept t ht with ⟨s, hs, hst⟩ | ⟨x, hle, hlt, hx⟩
    · rcases h.kept s hs with ⟨r, hr, hrs⟩ | ⟨x, hle, hlt, hx⟩
      · exact .inl ⟨r, hr, hrs.trans hst⟩
      · exact .inr ⟨x, hle, hlt.trans_le h'.length, hst.pub.trans hx⟩
    · exact .inr ⟨x, h.length.trans hle, hlt, hx⟩
  numbered hb hn := h'.numbered hb (h.numbered (h'.length.trans hb) hn)

def final {α : Type} : EStateM.Result HeapError Arena α → Arena
  | .ok _ b => b
  | .error _ b => b

def Keeps {α : Type} (R : Arena → Arena → Prop) (x : Action α) (a : Arena) : Prop := R a (final (x a))

section Keeps

variable {α β : Type} {R : Arena → Arena → Prop} {x : Action α} {f : α → Action β} {q : Arena → Except HeapError α}

theorem Keeps.mono {Q : Arena → Arena → Prop} (hx : Keeps R x a) (hRQ : ∀ {a b}, R a b → Q a b) : Keeps Q x a := hRQ hx

theorem Keeps.of_ok {r : α} (hx : Keeps R x a) (hr : x a = .ok r b) : R a b := by
  rw [Keeps, hr] at hx
  exact hx

theorem ask_run_ok {r : β} (hx : (ask q >>= f) a = .ok r b) : ∃ s, q a = .ok s ∧ f s a = .ok r b := by
  cases hq : q a with
  | ok s =>
    rw [run_ask hq] at hx
    exact ⟨s, rfl, hx⟩
  | error err => simp [run_bind_error (ask_error hq)] at hx

variable (htrans : ∀ {a b c}, R a b → R b c → R a c)

include htrans in
theorem Keeps.bind (hx : Keeps R x a) (hf : ∀ r b, x a = .ok r b → Keeps R (f r) b) : Keeps R (x >>= f) a := by
  cases hr : x a with
  | ok r b =>
    rw [Keeps, run_bind hr]
    exact htrans (hx.of_ok hr) (hf r b hr)
  | error err b =>
    rw [Keeps, run_bind_error hr]
    rwa [Keeps, hr] at hx

end Keeps

section Still

variable {α : Type} {u v t i n : Nat} {l : EdgeLabel} {x : Action α}

section Fold

variable {P : Arena} {image : List Int} {chosen : Kind → Bool}

end Fold

end Still

section Evolves

variable {α : Type} {v : Nat} {x : Action α}

theorem Keeps.evolves (hx : Keeps Still x a) : Keeps Evolves x a := hx.mono Still.evolves

theorem evolves_addVertex (label : Label) : Keeps Evolves (addVertex label) a where
  length := by simp [addVertex, final]
  refused y hy hnone := by
    simp only [addVertex, final]
    rwa [List.getElem?_append_left hy]
  kept s' hs' := by
    rcases List.mem_append.mp hs' with hs' | hs'
    · exact .inl ⟨s', hs', .refl s'⟩
    · exact .inr ⟨a.privOf.length, le_refl _, by simp [addVertex, final], by rw [List.mem_singleton.mp hs']⟩
  numbered hb hn := by
    have hlen : (final (addVertex label a)).privOf.length = a.privOf.length + 1 := by simp [addVertex, final]
    rw [hlen] at hb
    have hnew : (Int32.ofNat a.privOf.length).toInt = a.privOf.length := Int32.toInt_ofNat_of_lt hb
    constructor
    · intro s hs
      rw [hlen]
      rcases List.mem_append.mp hs with hs | hs
      · have hfit := hn.fits s hs
        omega
      · rw [List.mem_singleton.mp hs, hnew]
        omega
    · change ((a.slots ++ [_]).map Slot.pub).Nodup
      rw [List.map_append, List.nodup_append]
      refine ⟨hn.nodup, List.nodup_singleton _, ?_⟩
      intro id hid id' hid' heq
      obtain ⟨s, hs, rfl⟩ := List.mem_map.mp hid
      have hfit := (hn.fits s hs).2
      rw [heq, List.mem_singleton.mp hid'] at hfit
      change (Int32.ofNat a.privOf.length).toInt < _ at hfit
      omega

-- what a call gives back are the IDs that it issued, in order
structure Issues (a b : Arena) (ids : List Int32) : Prop where
  length : b.privOf.length = a.privOf.length + ids.length
  ids_eq : ids = (List.range' a.privOf.length ids.length).map Int32.ofNat

theorem Still.issues (h : Still a b) : Issues a b [] := ⟨h.length, rfl⟩

theorem Still.pub (h : Still a b) (v : Nat) : b.pub v = a.pub v := by
  have hv := congrArg (fun ids => ids[v]?) h.pubs
  simp only [List.getElem?_map] at hv
  rw [Arena.pub, Arena.pub, slot, slot]
  cases ha : a.slots[v]? with
  | none =>
    cases hb : b.slots[v]? with
    | none => rfl
    | some s => simp [ha, hb] at hv
  | some r =>
    cases hb : b.slots[v]? with
    | none => simp [ha, hb] at hv
    | some s =>
      obtain hrs : s.pub = r.pub := by simpa [ha, hb] using hv
      exact congrArg Except.ok hrs

def extended (a : Arena) (label : Label) : Arena := final (addVertex label a)

theorem addVertex_run (label : Label) : addVertex label a = .ok a.slots.length (a.extended label) := rfl

theorem extended_length (label : Label) : (a.extended label).privOf.length = a.privOf.length + 1 := by
  simp [extended, addVertex, final]

theorem extended_pub (label : Label) : (a.extended label).pub a.slots.length = .ok (Int32.ofNat a.privOf.length) := by
  simp [extended, addVertex, final, pub, slot]

theorem addVertices_run (label : Label) (n : Nat) :
    ∃ ids b, addVertices label n a = .ok ids b ∧ ids.length = n ∧ Issues a b ids ∧ Evolves a b := by
  induction n generalizing a with
  | zero => exact ⟨[], a, rfl, rfl, (Still.refl a).issues, .refl a⟩
  | succ n ih =>
    obtain ⟨ids, b, hrun, hn, hi, he⟩ := ih (a := a.extended label)
    refine ⟨Int32.ofNat a.privOf.length :: ids, b, ?_, by rw [List.length_cons, hn], ⟨?_, ?_⟩,
      (evolves_addVertex label).trans he⟩
    · rw [addVertices, run_bind (addVertex_run label), run_ask (extended_pub label), run_bind hrun]
      rfl
    · rw [hi.length, extended_length, List.length_cons]
      omega
    · have hids := hi.ids_eq
      rw [extended_length] at hids
      rw [List.length_cons, List.range'_succ, List.map_cons, ← hids]

section Replace

variable {edge : Int} {R : Arena}

end Replace

section Fold

variable {P : Arena} {image : List Int} {nt : Nonterminal}

end Fold

end Evolves

section Perform

variable {α : Type} {x : Action α} {y : Action (List Int32)} {f : α → Action (List Int32)}
  {q : Arena → Except HeapError α}

end Perform

end Arena

namespace ArenaDraft

open Arena

variable (d : ArenaDraft)

end ArenaDraft

end HeapAbstraction
