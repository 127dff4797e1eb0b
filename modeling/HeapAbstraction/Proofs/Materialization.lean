import HeapAbstraction.Proofs.Provision
import HeapAbstraction.Proofs.Replacement

namespace HeapAbstraction

namespace Task

variable {ε α β : Type}

theorem exists_of_bind {x : Task ε α} {f : α → Task ε β} {b : β} (h : (x >>= f).result = .ok b) :
    ∃ a, x.result = .ok a ∧ (f a).result = .ok b := by
  have hrun : (x >>= f).result = (ExceptT.bindCont f x.result).value := rfl
  rw [hrun] at h
  cases hx : x.result with
  | error e =>
    rw [hx] at h
    cases h
  | ok a =>
    rw [hx] at h
    exact ⟨a, rfl, h⟩

theorem result_of_edited {x : Task HeapError α} {a : α} (h : (Grammar.edited x).result = .ok a) : x.result = .ok a := by
  have hrun : (Grammar.edited x).result = x.result.mapError .edit := rfl
  rw [hrun] at h
  cases hx : x.result with
  | error e =>
    rw [hx] at h
    cases h
  | ok b =>
    rw [hx] at h
    cases h
    rfl

end Task

namespace HeapState

variable {A B C : HeapState} {gone gone' : List Nat}

structure KeepsBut (A : HeapState) (gone : List Nat) (B : HeapState) : Prop where
  partOf : A.PartOf B
  nextId : A.nextId ≤ B.nextId
  hyperedge : ∀ x < A.nextId, x ∉ gone → B.hyperedge x = A.hyperedge x
  gone : ∀ x ∈ gone, x < B.nextId ∧ B.hyperedge x = none

theorem KeepsBut.refl (A : HeapState) : A.KeepsBut [] A := ⟨.refl A, le_rfl, fun _ _ _ => rfl, by simp⟩

theorem KeepsBut.trans (hab : A.KeepsBut gone B) (hbc : B.KeepsBut gone' C) : A.KeepsBut (gone ++ gone') C where
  partOf := hab.partOf.trans hbc.partOf
  nextId := hab.nextId.trans hbc.nextId
  hyperedge x hx hout := by
    rw [List.mem_append, not_or] at hout
    rw [hbc.hyperedge x (hx.trans_le hab.nextId) hout.2, hab.hyperedge x hx hout.1]
  gone x hx := by
    by_cases hx' : x ∈ gone'
    · exact hbc.gone x hx'
    · obtain ⟨hlt, hnone⟩ := hab.gone x ((List.mem_append.mp hx).resolve_right hx')
      exact ⟨hlt.trans_le hbc.nextId, (hbc.hyperedge x hlt hx').trans hnone⟩

end HeapState

namespace Heap

variable {h k rule : Heap} {e i y : Nat} {ys : List Nat} {nt : Nonterminal} {s : Bytes} {counter : LabelCounter}

structure Unfolds (h : Heap) (e : Nat) (ys : List Nat) (rule k : Heap) : Prop where
  wellFormed : k.WellFormed
  idle : k.Idle
  nextId : k.nextId = h.nextId + rule.innerIds.length
  glued : ∃ g, rule.Sends ys h.nextId g ∧ h.state.Glued e rule.state g k.state

theorem WellFormed.unfolds {glued : Heap} (hw : h.WellFormed) (hr : IsRule nt rule)
    (he : h.state.hyperedge e = some (nt, ys)) (hg : h.glue e rule = .ok glued) (hb : glued.build = .ok k) :
    h.Unfolds e ys rule k := by
  have hs := hw.toSound
  obtain ⟨v, targets, bare, hid, hl, hk, hgluing⟩ := hw.exists_gluing_of_state hr.wellFormed hr.idle he hg
  have hgw := hgluing.wellFormed hw hid hl
  have hglued := (hgluing.glues hs hid hl).2.glued hs.proper hr.wellFormed hw.denotes hgw.denotes
    (hs.wellFormed_iff.mp hw) ((hw.denotes.hyperedge e nt ys).mp he).1
  obtain ⟨hkw, hki, hview⟩ := hgw.build hb
  have hstate : k.state = glued.state := hkw.denotes.unique (hview ▸ hgw.denotes)
  exact ⟨hkw, hki, (congrArg HeapView.nextId hview).trans hgluing.nextId, _, hgluing.sends hw hid hl hk he,
    hstate ▸ hglued⟩

namespace Unfolds

theorem keepsBut (hu : h.Unfolds e ys rule k) (hr : IsRule nt rule) (hlt : e < h.nextId) :
    h.state.KeepsBut [e] k.state := by
  obtain ⟨g, hsends, hglued⟩ := hu.glued
  have hle : h.nextId ≤ k.nextId := hu.nextId ▸ Nat.le_add_right _ _
  refine ⟨⟨fun x type hx => ?_, fun x s y hx => ?_, fun x name y hx => ?_, hglued.externals.symm⟩, hle,
    fun x hx hne => ?_, fun x hx => ?_⟩
  · exact (hglued.nodeType x type).mpr (.inl hx)
  · exact (hglued.selector x s y).mpr (.inl hx)
  · exact (hglued.pointer x name y).mpr (.inl hx)
  · exact (hr.wellFormed.glued_old hr.idle hsends hglued hx (by simpa using hne)).2.1
  · obtain rfl := List.mem_singleton.mp hx
    refine ⟨hlt.trans_le hle, Option.eq_none_iff_forall_ne_some.mpr fun edge hedge => ?_⟩
    rcases (hglued.hyperedge x edge.1 edge.2).mp hedge with ⟨hne, -⟩ | ⟨a, bs, ha, hax, -⟩
    · exact hne rfl
    · -- a hyperedge of the rule gets a new public ID
      have hlab := ((hr.wellFormed.denotes.hyperedge a _ bs).mp ha).1
      have ho : rule.view.ordinal a = none := Option.eq_none_iff_forall_ne_some.mpr fun j hj => by
        obtain ⟨type, htype⟩ := hr.wellFormed.toSound.proper.ordinal_node a j hj
        rw [hlab] at htype
        cases htype
      have := hsends.le ((hr.wellFormed.toSound.mem_innerIds hr.idle).mpr ⟨⟨_, hlab⟩, ho⟩)
      omega

theorem exists_selector (hu : h.Unfolds e ys rule k) (hy : ys[i]? = some y) (hp : rule.provides i s = true) :
    ∃ z, k.state.selector y s = some z := by
  obtain ⟨g, hsends, hglued⟩ := hu.glued
  obtain ⟨a, b, ha, hb⟩ := provides_iff.mp hp
  have hga : g a = y := by
    rw [← hsends.outer, List.getElem?_map, ha] at hy
    exact Option.some.inj hy
  exact ⟨g b, (hglued.selector y s (g b)).mpr (.inr ⟨a, b, hb, hga, rfl⟩)⟩

end Unfolds

theorem WellFormed.applyRules_ok (hw : h.WellFormed) (he : h.state.hyperedge e = some (nt, ys)) {label : Bytes}
    {rules ks : List Heap} (hrules : ∀ rule ∈ rules, IsRule nt rule)
    (hr : (applyRules counter h e label rules).result = .ok ks) : List.Forall₂ (h.Unfolds e ys) rules ks := by
  induction rules generalizing ks with
  | nil =>
    cases hr
    exact .nil
  | cons rule rules ih =>
    rw [applyRules] at hr
    obtain ⟨k, hk, hr⟩ := Task.exists_of_bind hr
    obtain ⟨done, -, hr⟩ := Task.exists_of_bind hr
    obtain ⟨rest, hrest, hr⟩ := Task.exists_of_bind hr
    cases hr
    refine .cons ?_ (ih (fun rule hrule => hrules rule (List.mem_cons_of_mem _ hrule)) hrest)
    cases hg : h.glue e rule with
    | error err =>
      rw [hg] at hk
      cases hk
    | ok glued =>
      rw [hg] at hk
      exact hw.unfolds (hrules rule List.mem_cons_self) he hg hk

def arrow : Heap where
  elements := [
    { label := .node "N", id := 0, ordinal := some 0, arcs := [⟨1, [.selector "next"]⟩] },
    { label := .node "N", id := 1, ordinal := some 1, preds := [0] }]
  nextId := 2

theorem wellFormed_arrow : arrow.WellFormed := by
  have h1 := wellFormed_empty.addNodes (show Heap.empty.addNodes "N" 2 = .ok (_, _) from rfl)
  have h2 := h1.addSelector (show Heap.addSelector _ 0 "next" 1 = .ok _ from rfl)
  have h3 := h2.setExternal (show Heap.setExternal _ 0 = .ok _ from rfl)
  exact h3.setExternal (show Heap.setExternal _ 1 = .ok arrow from rfl)

end Heap

namespace Grammar

variable {g : Grammar} {h : Heap} {e i x y : Nat} {ys : List Nat} {nt : Nonterminal} {s : Bytes} {ks : List Heap}
  {counter : LabelCounter}

def Offers (g : Grammar) (h : Heap) (y : Nat) (s : Bytes) (e i : Nat) : Prop :=
  ∃ nt ys, h.state.hyperedge e = some (nt, ys) ∧ ys[i]? = some y ∧ ∃ rule ∈ g.rulesFor nt, rule.provides i s = true

theorem offers_iff (he : h.state.hyperedge e = some (nt, ys)) (hi : ys[i]? = some y) :
    g.Offers h y s e i ↔ (g.rulesFor nt).filter (fun rule => rule.provides i s) ≠ [] := by
  rw [ne_eq, List.filter_eq_nil_iff]
  push Not
  constructor
  · rintro ⟨nt', ys', he', -, hrule⟩
    rw [he] at he'
    cases he'
    exact hrule
  · intro hrule
    exact ⟨nt, ys, he, hi, hrule⟩

theorem Sound.materializeEdge_ok (hg : g.Sound) (hw : h.WellFormed) (he : h.state.hyperedge e = some (nt, ys))
    (hr : (g.materializeEdge h e i s counter).result = .ok ks) :
    List.Forall₂ (h.Unfolds e ys) ((g.rulesFor nt).filter (fun rule => rule.provides i s)) ks := by
  rw [materializeEdge] at hr
  obtain ⟨nt', hnt, hr⟩ := Task.exists_of_bind hr
  cases (Heap.answers_of_hyperedge he).1.symm.trans hnt
  obtain ⟨rules, hrules, hr⟩ := Task.exists_of_bind hr
  cases (hg.resolve_eq nt i s).symm.trans hrules
  split at hr
  · rename_i hempty
    cases hr
    rw [List.isEmpty_iff.mp hempty]
    exact .nil
  · rw [Heap.applyResponse] at hr
    obtain ⟨label, -, hr⟩ := Task.exists_of_bind hr
    exact hw.applyRules_ok he (fun rule hrule => hg.isRule (List.mem_filter.mp hrule).1) hr

theorem Sound.materializeFirst_ok (hg : g.Sound) (hw : h.WellFormed) {holds : List (Nat × Nat)}
    (hholds : ∀ p ∈ holds, ∃ nt ys, h.state.hyperedge p.1 = some (nt, ys) ∧ ys[p.2]? = some y)
    (hr : (materializeFirst counter g h s holds).result = .ok ks) :
    ((∀ p ∈ holds, ¬ g.Offers h y s p.1 p.2) ∧ ks = [h]) ∨
      ∃ before e i after nt ys, holds = before ++ (e, i) :: after ∧ (∀ p ∈ before, ¬ g.Offers h y s p.1 p.2) ∧
        g.Offers h y s e i ∧ h.state.hyperedge e = some (nt, ys) ∧
        List.Forall₂ (h.Unfolds e ys) ((g.rulesFor nt).filter (fun rule => rule.provides i s)) ks := by
  induction holds with
  | nil =>
    cases hr
    exact .inl ⟨by simp, rfl⟩
  | cons p holds ih =>
    obtain ⟨e, i⟩ := p
    obtain ⟨⟨nt, ys, he, hi⟩, hrest⟩ := List.forall_mem_cons.mp hholds
    rw [materializeFirst] at hr
    obtain ⟨unfolded, hu, hr⟩ := Task.exists_of_bind hr
    have hall := hg.materializeEdge_ok hw he hu
    split at hr
    · rename_i hempty
      rw [List.isEmpty_iff.mp hempty, List.forall₂_nil_right_iff] at hall
      have hno : ¬ g.Offers h y s e i := fun ho => (offers_iff he hi).mp ho hall
      rcases ih hrest hr with ⟨hnone, rfl⟩ | ⟨before, e', i', after, nt', ys', rfl, hnone, hfound⟩
      · exact .inl ⟨List.forall_mem_cons.mpr ⟨hno, hnone⟩, rfl⟩
      · exact .inr ⟨(e, i) :: before, e', i', after, nt', ys', rfl, List.forall_mem_cons.mpr ⟨hno, hnone⟩, hfound⟩
    · rename_i hne
      cases hr
      refine .inr ⟨[], e, i, holds, nt, ys, rfl, by simp, (offers_iff he hi).mpr fun hnil => hne ?_, he, hall⟩
      rw [hnil, List.forall₂_nil_left_iff] at hall
      rw [hall]
      rfl

-- how a heap answers a requirement: with itself if the node of the variable has the selector already or can get it
-- from no hyperedge, else with what each rule that has the selector makes of the first tentacle that offers it
inductive Answers (g : Grammar) (h : Heap) (r : Requirement) : Option (Nat × Nat) → List Heap → Prop
  | met {x y z : Nat} (hx : h.state.pointer x = some (r.name, y)) (hs : h.state.selector y r.selector = some z) :
      Answers g h r none [h]
  | stuck {x y : Nat} (hx : h.state.pointer x = some (r.name, y)) (hs : h.state.selector y r.selector = none)
      (hno : ∀ e i, ¬ g.Offers h y r.selector e i) : Answers g h r none [h]
  | unfolded {x y e i : Nat} {nt : Nonterminal} {ys : List Nat} {ks : List Heap}
      (hx : h.state.pointer x = some (r.name, y)) (hs : h.state.selector y r.selector = none)
      (ho : g.Offers h y r.selector e i)
      (hfirst : ∀ e' i', g.Offers h y r.selector e' i' → e < e' ∨ (e = e' ∧ i ≤ i'))
      (he : h.state.hyperedge e = some (nt, ys))
      (hks : List.Forall₂ (h.Unfolds e ys) ((g.rulesFor nt).filter (fun rule => rule.provides i r.selector)) ks) :
      Answers g h r (some (e, i)) ks

theorem Sound.materializeNode_ok (hg : g.Sound) (hw : h.WellFormed) {r : Requirement}
    (hx : h.state.pointer x = some (r.name, y)) (hr : (materializeNode counter g h y r.selector).result = .ok ks) :
    ∃ hold, g.Answers h r hold ks := by
  obtain ⟨type, hy⟩ := hw.nodeType_of_pointer hx
  rw [materializeNode] at hr
  obtain ⟨o, ho, hr⟩ := Task.exists_of_bind hr
  obtain rfl : h.state.selector y r.selector = o := Except.ok.inj ((hw.selectorTargetOf_eq hy _).symm.trans ho)
  split at hr
  · rename_i hsome
    cases hr
    obtain ⟨z, hz⟩ := Option.isSome_iff_exists.mp hsome
    exact ⟨none, .met hx hz⟩
  · rename_i hnone
    have hs : h.state.selector y r.selector = none := by simpa using hnone
    obtain ⟨holds, hholds, hsorted, hmem⟩ := hw.holds hy
    obtain ⟨holds', hholds', hr⟩ := Task.exists_of_bind hr
    obtain rfl : holds = holds' := Except.ok.inj (hholds.symm.trans hholds')
    have hoffer (e i : Nat) (hei : g.Offers h y r.selector e i) : (e, i) ∈ holds := by
      obtain ⟨nt, ys, he, hi, -⟩ := hei
      exact (hmem e i).mpr ⟨nt, ys, he, hi⟩
    rcases hg.materializeFirst_ok hw (fun p hp => (hmem p.1 p.2).mp hp) hr with
      ⟨hno, rfl⟩ | ⟨before, e, i, after, nt, ys, rfl, hno, hei, he, hks⟩
    · exact ⟨none, .stuck hx hs fun e i hei => hno (e, i) (hoffer e i hei) hei⟩
    · refine ⟨some (e, i), .unfolded hx hs hei (fun e' i' hei' => ?_) he hks⟩
      rcases List.mem_append.mp (hoffer e' i' hei') with hbefore | hrest
      · exact absurd hei' (hno (e', i') hbefore)
      · rcases List.mem_cons.mp hrest with heq | hafter
        · cases heq
          exact .inr ⟨rfl, le_rfl⟩
        · have hlt := (List.pairwise_cons.mp (List.pairwise_append.mp hsorted).2.1).1 (e', i') hafter
          exact hlt.imp_right fun hlt => ⟨hlt.1, hlt.2.le⟩

theorem Sound.materializeOne_ok (hg : g.Sound) (hw : h.WellFormed) {r : Requirement}
    (hr : (materializeOne counter g h r).result = .ok ks) : ∃ hold, g.Answers h r hold ks := by
  rw [materializeOne] at hr
  obtain ⟨o, hvar, hr⟩ := Task.exists_of_bind hr
  replace hvar : h.variableWith r.name = .ok o := Task.result_of_edited hvar
  split at hr
  · cases hr
  · rename_i x
    obtain ⟨y', hy', hr⟩ := Task.exists_of_bind hr
    replace hy' : h.variableTargetOf x = .ok y' := Task.result_of_edited hy'
    obtain ⟨y, hx⟩ := hw.pointer_of_variableWith hvar
    obtain rfl : y = y' := Except.ok.inj ((Heap.answers_of_pointer hx).2.symm.trans hy')
    exact hg.materializeNode_ok hw hx (Task.result_of_edited hr)

structure Step where
  requirement : Requirement
  before : Heap
  hold : Option (Nat × Nat)
  after : Heap

inductive Path (g : Grammar) : Heap → List Step → Heap → Prop
  | done (h : Heap) : Path g h [] h
  | step {h k H : Heap} {r : Requirement} {hold : Option (Nat × Nat)} {ks : List Heap} {steps : List Step}
      (ha : g.Answers h r hold ks) (hk : k ∈ ks) (hp : Path g k steps H) : Path g h (⟨r, h, hold, k⟩ :: steps) H

def Delivers (g : Grammar) : List Heap → List Requirement → List Heap → Prop
  | current, [], outs => outs = current
  | current, r :: reqs, outs => ∃ answers : List (List Heap),
      List.Forall₂ (fun h ks => ∃ hold, g.Answers h r hold ks) current answers ∧ g.Delivers answers.flatten reqs outs

variable {r : Requirement} {hold : Option (Nat × Nat)} {k H : Heap} {reqs : List Requirement} {outs hs : List Heap}
  {steps : List Step}

theorem Delivers.exists_path (hd : g.Delivers hs reqs outs) (hH : H ∈ outs) :
    ∃ h ∈ hs, ∃ steps, g.Path h steps H ∧ steps.map Step.requirement = reqs := by
  induction reqs generalizing hs with
  | nil =>
    cases hd
    exact ⟨H, hH, [], .done H, rfl⟩
  | cons r reqs ih =>
    obtain ⟨answers, hanswers, hd⟩ := hd
    obtain ⟨k, hk, steps, hp, hreqs⟩ := ih hd
    obtain ⟨ks, hks, hk⟩ := List.mem_flatten.mp hk
    obtain ⟨h, hh, hold, ha⟩ := exists_of_mem_forall₂ hanswers hks
    exact ⟨h, hh, _, .step ha hk hp, by rw [List.map_cons, hreqs]⟩

theorem Answers.keepsBut (ha : g.Answers h r hold ks) (hg : g.Sound) (hw : h.WellFormed) (hi : h.Idle) (hk : k ∈ ks) :
    k.WellFormed ∧ k.Idle ∧ h.state.KeepsBut (hold.map Prod.fst).toList k.state := by
  cases ha with
  | met hx hs =>
    obtain rfl := List.mem_singleton.mp hk
    exact ⟨hw, hi, .refl _⟩
  | stuck hx hs hno =>
    obtain rfl := List.mem_singleton.mp hk
    exact ⟨hw, hi, .refl _⟩
  | @unfolded x y e i nt ys _ hx hs ho hfirst he hks =>
    obtain ⟨rule, hrule, hu⟩ := exists_of_mem_forall₂ hks hk
    exact ⟨hu.wellFormed, hu.idle, hu.keepsBut (hg.isRule (List.mem_filter.mp hrule).1) (hw.hyperedge_lt he)⟩

theorem Answers.meets (ha : g.Answers h r hold ks) (hw : h.WellFormed) (hk : k ∈ ks) :
    (∃ x y z, k.state.pointer x = some (r.name, y) ∧ k.state.selector y r.selector = some z) ∨
      ((∀ x y e i, h.state.pointer x = some (r.name, y) → ¬ g.Offers h y r.selector e i) ∧ k = h) := by
  cases ha with
  | met hx hs =>
    obtain rfl := List.mem_singleton.mp hk
    exact .inl ⟨_, _, _, hx, hs⟩
  | stuck hx hs hno =>
    obtain rfl := List.mem_singleton.mp hk
    refine .inr ⟨fun x' y' e i hx' => ?_, rfl⟩
    obtain ⟨-, rfl⟩ := hw.pointer_inj hx hx'
    exact hno e i
  | @unfolded x y e i nt ys _ hx hs ho hfirst he hks =>
    obtain ⟨rule, hrule, hu⟩ := exists_of_mem_forall₂ hks hk
    obtain ⟨nt', ys', he', hi, -⟩ := ho
    rw [he] at he'
    cases he'
    obtain ⟨z, hz⟩ := hu.exists_selector hi (List.mem_filter.mp hrule).2
    obtain ⟨g', -, hglued⟩ := hu.glued
    exact .inl ⟨x, y, z, (hglued.pointer x r.name y).mpr (.inl hx), hz⟩

namespace Path

theorem keepsBut (hp : g.Path h steps H) (hg : g.Sound) (hw : h.WellFormed) (hi : h.Idle) : H.WellFormed ∧ H.Idle ∧
    h.state.KeepsBut (steps.flatMap (fun st => (st.hold.map Prod.fst).toList)) H.state := by
  induction hp with
  | done h => exact ⟨hw, hi, .refl _⟩
  | step ha hk _ ih =>
    obtain ⟨hkw, hki, hkeeps⟩ := ha.keepsBut hg hw hi hk
    obtain ⟨hHw, hHi, hrest⟩ := ih hkw hki
    exact ⟨hHw, hHi, hkeeps.trans hrest⟩

theorem meets (hp : g.Path h steps H) (hg : g.Sound) (hw : h.WellFormed) (hi : h.Idle) {st : Step} (hst : st ∈ steps) :
    (∃ x y z, H.state.pointer x = some (st.requirement.name, y) ∧
        H.state.selector y st.requirement.selector = some z) ∨
      ((∀ x y e i, st.before.state.pointer x = some (st.requirement.name, y) →
        ¬ g.Offers st.before y st.requirement.selector e i) ∧ st.after = st.before) := by
  induction hp with
  | done h => simp at hst
  | step ha hk hp ih =>
    obtain ⟨hkw, hki, -⟩ := ha.keepsBut hg hw hi hk
    rcases List.mem_cons.mp hst with rfl | hst
    · refine (ha.meets hw hk).imp_left ?_
      rintro ⟨x, y, z, hx, hz⟩
      have hpart := (hp.keepsBut hg hkw hki).2.2.partOf
      exact ⟨x, y, z, hpart.pointer x _ y hx, hpart.selector y _ z hz⟩
    · exact ih hkw hki hst

end Path

theorem Sound.materializeEach_ok (hg : g.Sound) (hw : ∀ h ∈ hs, h.WellFormed)
    (hr : (materializeEach counter g r hs).result = .ok outs) : ∃ answers : List (List Heap),
      List.Forall₂ (fun h ks => ∃ hold, g.Answers h r hold ks) hs answers ∧ outs = answers.flatten := by
  induction hs generalizing outs with
  | nil =>
    cases hr
    exact ⟨[], .nil, rfl⟩
  | cons h hs ih =>
    obtain ⟨hwh, hws⟩ := List.forall_mem_cons.mp hw
    rw [materializeEach] at hr
    obtain ⟨here, hhere, hr⟩ := Task.exists_of_bind hr
    obtain ⟨rest, hrest, hr⟩ := Task.exists_of_bind hr
    cases hr
    obtain ⟨answers, hanswers, rfl⟩ := ih hws hrest
    exact ⟨here :: answers, .cons (hg.materializeOne_ok hwh hhere) hanswers, rfl⟩

theorem Sound.materializeAll_ok (hg : g.Sound) (hw : ∀ h ∈ hs, h.WellFormed ∧ h.Idle)
    (hr : (materializeAll counter g hs reqs).result = .ok outs) : g.Delivers hs reqs outs := by
  induction reqs generalizing hs with
  | nil =>
    cases hr
    rfl
  | cons r reqs ih =>
    rw [materializeAll] at hr
    obtain ⟨next, hnext, hr⟩ := Task.exists_of_bind hr
    obtain ⟨answers, hanswers, rfl⟩ := hg.materializeEach_ok (fun h hh => (hw h hh).1) hnext
    refine ⟨answers, hanswers, ih (fun k hk => ?_) hr⟩
    obtain ⟨ks, hks, hk⟩ := List.mem_flatten.mp hk
    obtain ⟨h, hh, hold, ha⟩ := exists_of_mem_forall₂ hanswers hks
    obtain ⟨hkw, hki, -⟩ := ha.keepsBut hg (hw h hh).1 (hw h hh).2 hk
    exact ⟨hkw, hki⟩

theorem materialize_delivers (hg : g.Sound) (hw : h.WellFormed) (hi : h.Idle)
    (hr : (g.materialize h reqs counter).result = .ok outs) :
    g.Delivers [h] reqs outs ∧
      ∀ H ∈ outs, H.WellFormed ∧ H.Idle ∧ h.state.PartOf H.state ∧
        ∃ steps, g.Path h steps H ∧ steps.map Step.requirement = reqs ∧
          (∀ x edge, h.state.hyperedge x = some edge →
            (H.state.hyperedge x = some edge ↔ ∀ st ∈ steps, st.hold.map Prod.fst ≠ some x)) ∧
          ∀ st ∈ steps,
            (∃ x y z, H.state.pointer x = some (st.requirement.name, y) ∧
              H.state.selector y st.requirement.selector = some z) ∨
            ((∀ x y e i, st.before.state.pointer x = some (st.requirement.name, y) →
              ¬ g.Offers st.before y st.requirement.selector e i) ∧ st.after = st.before) := by
  have hd : g.Delivers [h] reqs outs := hg.materializeAll_ok (by simp [hw, hi]) hr
  refine ⟨hd, fun H hH => ?_⟩
  obtain ⟨h', hh', steps, hp, hreqs⟩ := hd.exists_path hH
  obtain rfl := List.mem_singleton.mp hh'
  obtain ⟨hHw, hHi, hkeeps⟩ := hp.keepsBut hg hw hi
  refine ⟨hHw, hHi, hkeeps.partOf, steps, hp, hreqs, fun x edge hx => ?_, fun st hst => hp.meets hg hw hi hst⟩
  have hlt : x < h'.nextId := hw.hyperedge_lt hx
  have hgone : x ∈ steps.flatMap (fun st => (st.hold.map Prod.fst).toList) ↔
      ∃ st ∈ steps, st.hold.map Prod.fst = some x := by simp only [List.mem_flatMap, Option.mem_toList]
  constructor
  · intro hHx st hst heq
    have hnone := (hkeeps.gone x (hgone.mpr ⟨st, hst, heq⟩)).2
    rw [hnone] at hHx
    cases hHx
  · intro hnot
    rw [hkeeps.hyperedge x hlt fun hmem => ?_, hx]
    obtain ⟨st, hst, heq⟩ := hgone.mp hmem
    exact hnot st hst heq

def lists : Grammar := ⟨[(⟨"L", 2⟩, [Heap.path, Heap.arrow])]⟩

theorem sound_lists : lists.Sound := by
  intro nt rule hr
  simp only [allRules, lists, List.flatMap_cons, List.map_cons, List.map_nil, List.flatMap_nil, List.append_nil,
    List.mem_cons, List.not_mem_nil, or_false, Prod.mk.injEq] at hr
  rcases hr with ⟨rfl, rfl⟩ | ⟨rfl, rfl⟩
  · exact ⟨Heap.wellFormed_path, by decide, rfl⟩
  · exact ⟨Heap.wellFormed_arrow, by decide, rfl⟩

def twoLists : Heap where
  elements := [
    { label := .node "N", id := 0, preds := [2, 3, 4] },
    { label := .node "N", id := 1, preds := [2, 3] },
    { label := .nonterminal ⟨"L", 2⟩, id := 2, arcs := [⟨1, [.tentacle 0]⟩, ⟨0, [.tentacle 1]⟩] },
    { label := .nonterminal ⟨"L", 2⟩, id := 3, arcs := [⟨0, [.tentacle 0]⟩, ⟨1, [.tentacle 1]⟩] },
    { label := .variable "x", id := 4, arcs := [⟨0, [.tentacle 0]⟩] }]
  nextId := 5

theorem wellFormed_twoLists : twoLists.WellFormed := by
  have h1 := Heap.wellFormed_empty.addNodes (show Heap.empty.addNodes "N" 2 = .ok (_, _) from rfl)
  have h2 := h1.addNonterminal (show Heap.addNonterminal _ ⟨"L", 2⟩ [1, 0] = .ok (_, _) from rfl)
  have h3 := h2.addNonterminal (show Heap.addNonterminal _ ⟨"L", 2⟩ [0, 1] = .ok (_, _) from rfl)
  exact h3.addVariable (show Heap.addVariable _ "x" 0 = .ok (twoLists, _) from rfl)

theorem materialize_delivers_twoLists :
    ∃ outs, (lists.materialize twoLists [⟨"x", "next"⟩, ⟨"x", "prev"⟩]).result = .ok outs ∧
      outs.map (fun H => (H.state.selector 0 "next", H.state.selector 0 "prev")) = [(some 5, none), (some 1, none)] ∧
      outs.map (fun H => (H.state.hyperedge 2, H.state.hyperedge 3)) =
        [(some (⟨"L", 2⟩, [1, 0]), none), (some (⟨"L", 2⟩, [1, 0]), none)] ∧
      lists.Delivers [twoLists] [⟨"x", "next"⟩, ⟨"x", "prev"⟩] outs ∧
      ∀ H ∈ outs, twoLists.state.PartOf H.state := by
  refine ⟨_, rfl, rfl, rfl, ?_⟩
  obtain ⟨hdelivers, hall⟩ := materialize_delivers sound_lists wellFormed_twoLists (by decide)
    (show (lists.materialize twoLists [⟨"x", "next"⟩, ⟨"x", "prev"⟩]).result = .ok _ from rfl)
  exact ⟨hdelivers, fun H hH => (hall H hH).2.2.1⟩

end Grammar

end HeapAbstraction
