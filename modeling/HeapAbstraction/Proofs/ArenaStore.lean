import HeapAbstraction.Proofs.Arena
import HeapAbstraction.Proofs.Lists

namespace HeapAbstraction

theorem map_modify {α β : Type} {F : α → β} {f : α → α} {g : β → β} {s : List α} {v : Nat}
    (hv : ∀ a, s[v]? = some a → F (f a) = g (F a)) : (s.modify v f).map F = (s.map F).modify v g := by
  refine List.ext_getElem? fun w => ?_
  rw [List.getElem?_map, List.getElem?_modify, List.getElem?_modify, List.getElem?_map]
  cases hw : s[w]? with
  | none => rfl
  | some a =>
    by_cases hvw : v = w
    · subst hvw
      simpa using hv a hw
    · simp [hvw]

theorem map_modify_of_eq {α β : Type} {F : α → β} {f : α → α} {s : List α} {v : Nat}
    (hv : ∀ a, s[v]? = some a → F (f a) = F a) : (s.modify v f).map F = s.map F := by
  rw [map_modify (g := id) hv, List.modify_id]

theorem modify_congr {α : Type} {f g : α → α} {s : List α} {v : Nat} (hv : ∀ a, s[v]? = some a → f a = g a) :
    s.modify v f = s.modify v g := by
  have h := map_modify (F := id) (f := f) (g := g) (s := s) (v := v) hv
  rwa [List.map_id, List.map_id] at h

theorem modify_comm {α : Type} {f g : α → α} (hfg : ∀ a, f (g a) = g (f a)) (s : List α) (v w : Nat) :
    (s.modify v f).modify w g = (s.modify w g).modify v f := by
  refine List.ext_getElem? fun u => ?_
  simp only [List.getElem?_modify]
  cases s[u]? with
  | none => rfl
  | some a => by_cases hv : v = u <;> by_cases hw : w = u <;> simp [hv, hw, hfg]

theorem modify_modify_self {α : Type} (f g : α → α) (s : List α) (v : Nat) :
    (s.modify v f).modify v g = s.modify v (g ∘ f) := by
  refine List.ext_getElem? fun u => ?_
  simp only [List.getElem?_modify]
  cases s[u]? with
  | none => rfl
  | some a => by_cases hv : v = u <;> simp [hv]

theorem foldl_modify_comm {α : Type} {f g : α → α} (hfg : ∀ a, f (g a) = g (f a)) (ts : List Nat) (s : List α) (v : Nat) :
    ts.foldl (fun s t => s.modify t f) (s.modify v g) = (ts.foldl (fun s t => s.modify t f) s).modify v g := by
  induction ts generalizing s with
  | nil => rfl
  | cons t ts ih => rw [List.foldl_cons, List.foldl_cons, modify_comm fun a => (hfg a).symm, ih]

namespace Arc

variable {arcs : List Arc} {t i : Nat}

def indexTo (arcs : List Arc) (t : Nat) : Option Nat := (arcs.map target).findIdx? (· == t)

theorem indexTo_cons (a : Arc) (arcs : List Arc) (t : Nat) :
    indexTo (a :: arcs) t = if a.target = t then some 0 else (indexTo arcs t).map (· + 1) := by
  simp [indexTo, List.findIdx?_cons]

theorem indexTo_eq_none : indexTo arcs t = none ↔ ¬ Reaches arcs t := by
  simp only [indexTo, List.findIdx?_eq_none_iff, List.mem_map, Reaches]
  constructor
  · rintro h ⟨a, ha, rfl⟩
    simpa using h a.target ⟨a, ha, rfl⟩
  · rintro h x ⟨a, ha, rfl⟩
    exact beq_eq_false_iff_ne.mpr fun hx => h ⟨a, ha, hx⟩

theorem insertLabel_of_none (l : EdgeLabel) (h : indexTo arcs t = none) : insertLabel t l arcs = arcs ++ [⟨t, [l]⟩] := by
  induction arcs with
  | nil => rfl
  | cons a arcs ih =>
    rw [indexTo_cons] at h
    split at h
    · cases h
    · rename_i ha
      rw [insertLabel, if_neg ha, ih (Option.map_eq_none_iff.mp h)]
      rfl

theorem insertLabel_of_some (l : EdgeLabel) (h : indexTo arcs t = some i) :
    insertLabel t l arcs = arcs.modify i (fun a => { a with labels := a.labels ++ [l] }) := by
  induction arcs generalizing i with
  | nil => cases h
  | cons a arcs ih =>
    rw [indexTo_cons] at h
    split at h
    · rename_i ha
      cases h
      rw [insertLabel, if_pos ha]
      rfl
    · rename_i ha
      obtain ⟨j, hj, rfl⟩ := Option.map_eq_some_iff.mp h
      rw [insertLabel, if_neg ha, ih hj]
      rfl

theorem find?_of_indexTo (h : indexTo arcs t = some i) : ∃ a, arcs[i]? = some a ∧ a.target = t ∧
    arcs.find? (fun a => a.target == t) = some a := by
  induction arcs generalizing i with
  | nil => cases h
  | cons a arcs ih =>
    rw [indexTo_cons] at h
    split at h
    · rename_i ha
      cases h
      exact ⟨a, rfl, ha, by simp [ha]⟩
    · rename_i ha
      obtain ⟨j, hj, rfl⟩ := Option.map_eq_some_iff.mp h
      obtain ⟨b, hb, hbt, hfind⟩ := ih hj
      exact ⟨b, hb, hbt, by simp [ha, hfind]⟩

theorem replace_of_indexTo (h : indexTo arcs t = some i) {a : Arc} (ha : arcs[i]? = some a) (b : Arc) :
    arcs.replace a b = arcs.set i b := by
  induction arcs generalizing i with
  | nil => cases h
  | cons c arcs ih =>
    rw [indexTo_cons] at h
    split at h
    · cases h
      cases ha
      simp
    · rename_i hc
      obtain ⟨j, hj, rfl⟩ := Option.map_eq_some_iff.mp h
      obtain ⟨d, hd, hdt, -⟩ := find?_of_indexTo hj
      have hne : c ≠ a := by
        rintro rfl
        exact hc (Option.some.inj (hd.symm.trans ha) ▸ hdt)
      rw [List.replace_cons, beq_eq_false_iff_ne.mpr hne.symm, List.set_cons_succ, ← ih hj ha]

theorem eraseP_of_indexTo (h : indexTo arcs t = some i) : arcs.eraseP (fun a => a.target == t) = arcs.eraseIdx i := by
  have hidx : arcs.findIdx? (fun a => a.target == t) = some i := by
    rw [indexTo, List.findIdx?_map] at h
    exact h
  rw [List.eraseP_eq_eraseIdx, hidx]

end Arc

def Element.eraseArc (i : Nat) (e : Element) : Element := { e with arcs := e.arcs.eraseIdx i }

def Slot.ofElement (e : Element) : Slot where
  label := e.label
  pub := Int32.ofNat e.id
  ordinal := e.ordinal
  removed := e.removed
  out := e.arcs
  succ := e.successors
  pred := e.preds

theorem Slot.arcIndex_ofElement (e : Element) (t : Nat) : (ofElement e).arcIndex t = Arc.indexTo e.arcs t := rfl

namespace Arena

variable {α β : Type} {a b : Arena}

section Run

variable {x : Action α} {f : α → Action β} {r : α} {err : HeapError}

theorem run_bind (hx : x a = .ok r b) : (x >>= f) a = f r b := by
  change EStateM.bind x f a = _
  rw [EStateM.bind, hx]

theorem run_bind_error (hx : x a = .error err b) : (x >>= f) a = .error err b := by
  change EStateM.bind x f a = _
  rw [EStateM.bind, hx]

theorem ask_ok {q : Arena → Except HeapError α} (hq : q a = .ok r) : ask q a = .ok r a := by rw [ask, hq]

theorem ask_error {q : Arena → Except HeapError α} (hq : q a = .error err) : ask q a = .error err a := by rw [ask, hq]

theorem run_ask {q : Arena → Except HeapError α} (hq : q a = .ok r) : (ask q >>= f) a = f r a := run_bind (ask_ok hq)

theorem run_get {f : Arena → Action β} : (get >>= f) a = f a a := rfl

end Run

-- the slots of a store, beside tables that a step does not touch
def withElements (a : Arena) (es : Store) : Arena := { a with slots := es.map Slot.ofElement }

section WithElements

variable {es : Store} {e : Element} {u v t i : Nat} {l : EdgeLabel}

theorem getElem?_withElements : (a.withElements es).slots[v]? = (es[v]?).map Slot.ofElement := List.getElem?_map

theorem slot_withElements (he : es[v]? = some e) : (a.withElements es).slot v = .ok (Slot.ofElement e) := by
  rw [slot, getElem?_withElements, he]
  rfl

theorem write_withElements {f : Slot → Slot} {g : Element → Element} (hv : v < es.length)
    (hg : ∀ e, es[v]? = some e → Slot.ofElement (g e) = f (Slot.ofElement e)) :
    write v f (a.withElements es) = .ok () (a.withElements (es.modify v g)) := by
  have hlen : v < (a.withElements es).slots.length := by simpa [withElements] using hv
  have hmap : (es.modify v g).map Slot.ofElement = (es.map Slot.ofElement).modify v f := map_modify hg
  rw [write, if_pos hlen, withElements, withElements, hmap]

theorem addArcLabel_withElements (hu : es[u]? = some e) (ht : t < es.length) :
    addArcLabel u t l (a.withElements es) = .ok () (a.withElements (es.link u t l)) := by
  have hlt : u < es.length := (List.getElem?_eq_some_iff.mp hu).1
  rw [addArcLabel, run_ask (slot_withElements hu)]
  cases hi : Arc.indexTo e.arcs t with
  | some i =>
    obtain ⟨b, hb, -, hfind⟩ := Arc.find?_of_indexTo hi
    have hjoined : ((es[u]?).bind (fun e => e.arcTo? t)).isSome = true := by simp [hu, Element.arcTo?, hfind]
    have hlen : i < (Slot.ofElement e).out.length := (List.getElem?_eq_some_iff.mp hb).1
    simp only [Slot.arcIndex_ofElement, hi, if_pos hlen, Store.link, hjoined, if_true]
    refine write_withElements hlt fun e' he' => ?_
    obtain rfl := Option.some.inj (hu.symm.trans he')
    have hsucc : (e.arcs.modify i (fun a => { a with labels := a.labels ++ [l] })).map Arc.target =
        e.arcs.map Arc.target := map_modify_of_eq fun _ _ => rfl
    simp only [Slot.ofElement, Element.successors, Arc.insertLabel_of_some l hi, hsucc]
  | none =>
    have hjoined : ((es[u]?).bind (fun e => e.arcTo? t)).isSome = false := by
      have hno := Arc.indexTo_eq_none.mp hi
      simp only [hu, Option.bind_some, Element.arcTo?, Option.isSome_eq_false_iff, Option.isNone_iff_eq_none]
      rw [List.find?_eq_none]
      exact fun b hb hbt => hno ⟨b, hb, by simpa using hbt⟩
    simp only [Slot.arcIndex_ofElement, hi, Store.link, hjoined, Bool.false_eq_true, if_false]
    have hsource : write u (fun s => { s with out := s.out ++ [⟨t, [l]⟩], succ := s.succ ++ [t] }) (a.withElements es) =
        .ok () (a.withElements (es.modify u (fun e => { e with arcs := Arc.insertLabel t l e.arcs }))) := by
      refine write_withElements hlt fun e' he' => ?_
      obtain rfl := Option.some.inj (hu.symm.trans he')
      simp [Slot.ofElement, Element.successors, Arc.insertLabel_of_none l hi]
    rw [run_bind hsource]
    exact write_withElements (by rwa [List.length_modify]) fun _ _ => rfl

theorem removeArc_withElements {b : Arc} (hu : es[u]? = some e) (hi : e.arcs[i]? = some b) (ht : b.target < es.length) :
    removeArc u i (a.withElements es) = .ok () (a.withElements
      ((es.modify u (Element.eraseArc i)).modify b.target (Element.dropPred u))) := by
  have hout : (Slot.ofElement e).out[i]? = some b := hi
  have hsucc : (Slot.ofElement e).succ[i]? = some b.target := by simp [Slot.ofElement, Element.successors, hi]
  have hsource : write u (fun s => { s with out := s.out.eraseIdx i, succ := s.succ.eraseIdx i }) (a.withElements es) =
      .ok () (a.withElements (es.modify u (Element.eraseArc i))) := by
    refine write_withElements (List.getElem?_eq_some_iff.mp hu).1 fun e' _ => ?_
    simp only [Slot.ofElement, Element.eraseArc, Element.successors, List.eraseIdx_map]
  rw [removeArc, run_ask (slot_withElements hu)]
  simp only [hout, hsucc]
  rw [run_bind hsource]
  exact write_withElements (by rwa [List.length_modify]) fun _ _ => rfl

theorem removeArcLabel_withElements {b : Arc} (hu : es[u]? = some e) (hb : e.arcTo? t = some b) (hl : l ∈ b.labels)
    (ht : t < es.length) : removeArcLabel u t l (a.withElements es) = .ok () (a.withElements (es.unlink u t l)) := by
  have hlt : u < es.length := (List.getElem?_eq_some_iff.mp hu).1
  obtain ⟨i, hi⟩ : ∃ i, Arc.indexTo e.arcs t = some i := by
    refine Option.ne_none_iff_exists'.mp fun hno => Arc.indexTo_eq_none.mp hno ?_
    exact Element.arcTo?_isSome.mp (by rw [hb]; rfl)
  obtain ⟨c, hc, hct, hfind⟩ := Arc.find?_of_indexTo hi
  obtain rfl : c = b := Option.some.inj (hfind.symm.trans hb)
  have hout : (Slot.ofElement e).out[i]? = some c := hc
  have hset : write u (fun s => { s with out := s.out.set i { c with labels := c.labels.erase l } })
      (a.withElements es) = .ok () (a.withElements
        (es.modify u (fun e => { e with arcs := e.arcs.set i { c with labels := c.labels.erase l } }))) := by
    refine write_withElements hlt fun e' he' => ?_
    obtain rfl := Option.some.inj (hu.symm.trans he')
    have hsame : (e.arcs.set i { c with labels := c.labels.erase l }).map Arc.target = e.arcs.map Arc.target := by
      rw [List.set_eq_modify]
      refine map_modify_of_eq fun b hb => ?_
      rw [Option.some.inj (hb.symm.trans hc)]
    simp only [Slot.ofElement, Element.successors, hsame]
  rw [removeArcLabel, run_ask (slot_withElements hu)]
  simp only [Slot.arcIndex_ofElement, hi, hout, if_pos hl, Store.unlink, hu, Option.bind_some, hb]
  rw [run_bind hset]
  by_cases hlast : (c.labels.erase l).isEmpty = true
  · rw [if_pos hlast, if_pos hlast]
    have he : (es.modify u (fun e => { e with arcs := e.arcs.set i { c with labels := c.labels.erase l } }))[u]? =
        some { e with arcs := e.arcs.set i { c with labels := c.labels.erase l } } := by simp [hu]
    rw [removeArc_withElements (b := { c with labels := c.labels.erase l }) he
      (by simp [(List.getElem?_eq_some_iff.mp hc).1]) (by simpa [hct] using ht), modify_modify_self]
    have hdrop : es.modify u (Element.eraseArc i ∘ fun e =>
        { e with arcs := e.arcs.set i { c with labels := c.labels.erase l } }) = es.modify u (Element.dropArcTo t) := by
      refine modify_congr fun e' he' => ?_
      obtain rfl := Option.some.inj (hu.symm.trans he')
      simp only [Function.comp_apply, Element.eraseArc, Element.dropArcTo, List.eraseIdx_set_eq,
        Arc.eraseP_of_indexTo hi]
    rw [hdrop, hct]
  · rw [if_neg hlast, if_neg hlast]
    have hreplace : es.modify u (fun e => { e with arcs := e.arcs.replace c { c with labels := c.labels.erase l } }) =
        es.modify u (fun e => { e with arcs := e.arcs.set i { c with labels := c.labels.erase l } }) := by
      refine modify_congr fun e' he' => ?_
      obtain rfl := Option.some.inj (hu.symm.trans he')
      rw [Arc.replace_of_indexTo hi hc]
    rw [hreplace]
    rfl

theorem detachOut_withElements (hv : es[v]? = some e) (ht : ∀ t ∈ e.successors, t < es.length) :
    detachOut v e.arcs.length (a.withElements es) = .ok () (a.withElements (es.detachOut v)) := by
  generalize hn : e.arcs.length = n
  induction n generalizing es e with
  | zero =>
    have harcs : e.arcs = [] := List.length_eq_zero_iff.mp hn
    have hsame : es.detachOut v = es := by
      refine List.ext_getElem? fun w => ?_
      simp only [Store.detachOut, hv, Option.map_some, Option.getD_some, Element.successors, harcs, List.map_nil,
        List.foldl_nil, List.getElem?_modify]
      by_cases hw : v = w
      · subst hw
        simp [hv, ← harcs]
      · simp [hw]
    rw [hsame]
    rfl
  | succ n ih =>
    obtain ⟨init, b, harcs⟩ : ∃ init b, e.arcs = init ++ [b] :=
      (List.eq_nil_or_concat' e.arcs).resolve_left fun h => by simp [h] at hn
    obtain rfl : init.length = n := by simpa [harcs] using hn
    have hbt : b.target < es.length := ht b.target (by simp [Element.successors, harcs])
    -- the last arc goes, and with it one predecessor of its end; what is left is a shorter walk
    have hstep := removeArc_withElements (a := a) hv (i := init.length) (b := b) (by simp [harcs]) hbt
    have herase : (init ++ [b]).eraseIdx init.length = init := by simp [List.eraseIdx_append_of_length_le]
    have hv' : ((es.modify v (Element.eraseArc init.length)).modify b.target (Element.dropPred v))[v]? = some { e with
        arcs := init
        preds := if b.target = v then e.preds.erase v else e.preds } := by
      by_cases hself : b.target = v <;> simp [hself, hv, harcs, herase, Element.eraseArc, Element.dropPred]
    have hrest := ih (e := { e with
      arcs := init
      preds := if b.target = v then e.preds.erase v else e.preds }) hv' (fun t hmem => by
        rw [List.length_modify, List.length_modify]
        refine ht t ?_
        simp only [Element.successors, harcs, List.map_append, List.mem_append]
        exact .inl hmem) rfl
    rw [detachOut, run_bind hstep, hrest]
    congr 2
    simp only [Store.detachOut, hv, hv', Option.map_some, Option.getD_some, Element.successors, harcs, List.map_append,
      List.map_cons, List.map_nil, List.foldl_append, List.foldl_cons, List.foldl_nil]
    rw [foldl_modify_comm (g := Element.dropPred v) (fun _ => rfl),
      foldl_modify_comm (f := Element.dropPred v) (g := Element.eraseArc init.length) (fun _ => rfl),
      modify_comm (f := Element.eraseArc init.length) (g := Element.dropPred v) (fun _ => rfl), modify_modify_self]
    rfl

theorem lastArcInto_withElements {d : Element} {n : Nat} (hv : es[v]? = some e) (hu : e.preds[n]? = some u)
    (hd : es[u]? = some d) (hi : Arc.indexTo d.arcs v = some i) : lastArcInto v n (a.withElements es) = .ok (u, i) := by
  have hpred : (Slot.ofElement e).pred[n]? = some u := hu
  simp only [lastArcInto, slot_withElements hv, slot_withElements hd, hpred, Slot.arcIndex_ofElement, hi, bind,
    Except.bind]
  rfl

theorem removeArcInto_withElements {d : Element} (hv : v < es.length) (hd : es[u]? = some d)
    (hi : Arc.indexTo d.arcs v = some i) : removeArc u i (a.withElements es) =
      .ok () (a.withElements ((es.modify u (Element.dropArcTo v)).modify v (Element.dropPred u))) := by
  obtain ⟨b, hb, rfl, -⟩ := Arc.find?_of_indexTo hi
  have hdrop : es.modify u (Element.eraseArc i) = es.modify u (Element.dropArcTo b.target) := by
    refine modify_congr fun d' hd' => ?_
    obtain rfl := Option.some.inj (hd.symm.trans hd')
    simp only [Element.eraseArc, Element.dropArcTo, Arc.eraseP_of_indexTo hi]
  rw [removeArc_withElements hd hb hv, hdrop]

theorem detachIn_of_nil (hv : es[v]? = some e) (hpreds : e.preds = []) : es.detachIn v = es := by
  refine List.ext_getElem? fun w => ?_
  simp only [Store.detachIn, hv, Option.map_some, Option.getD_some, hpreds, List.foldl_nil, List.getElem?_modify]
  by_cases hw : v = w
  · subst hw
    simp [hv, ← hpreds]
  · simp [hw]

theorem detachIn_of_concat {e' : Element} {init : List Nat} (hv : es[v]? = some e) (hpreds : e.preds = init ++ [u])
    (hv' : ((es.modify u (Element.dropArcTo v)).modify v (Element.dropPred u))[v]? = some e') (hinit : e'.preds = init) :
    Store.detachIn ((es.modify u (Element.dropArcTo v)).modify v (Element.dropPred u)) v = es.detachIn v := by
  simp only [Store.detachIn, hv, hv', Option.map_some, Option.getD_some, hpreds, hinit, List.foldl_append, List.foldl_cons,
    List.foldl_nil]
  rw [foldl_modify_comm (f := Element.dropArcTo v) (g := Element.dropPred u) (fun _ => rfl),
    foldl_modify_comm (g := Element.dropArcTo v) (fun _ => rfl), modify_modify_self]
  rfl

theorem detachIn_withElements (hv : es[v]? = some e) (hn : e.preds.Nodup) (hself : v ∉ e.preds)
    (hin : ∀ u ∈ e.preds, ∃ d, es[u]? = some d ∧ Arc.Reaches d.arcs v) :
    detachIn v e.preds.length (a.withElements es) = .ok () (a.withElements (es.detachIn v)) := by
  generalize hlen : e.preds.length = n
  induction n generalizing es e with
  | zero =>
    rw [detachIn_of_nil hv (List.length_eq_zero_iff.mp hlen)]
    rfl
  | succ n ih =>
    obtain ⟨init, u, hpreds⟩ : ∃ init u, e.preds = init ++ [u] :=
      (List.eq_nil_or_concat' e.preds).resolve_left fun h => by simp [h] at hlen
    obtain rfl : init.length = n := by simpa [hpreds] using hlen
    rw [hpreds] at hn hself hin
    have hu : u ∉ init := by
      rw [List.nodup_append] at hn
      exact fun hmem => hn.2.2 u hmem u (by simp) rfl
    have huv : u ≠ v := fun h => hself (by simp [h])
    obtain ⟨d, hd, hreach⟩ := hin u (by simp)
    obtain ⟨i, hi⟩ := Option.ne_none_iff_exists'.mp fun hno => Arc.indexTo_eq_none.mp hno hreach
    have hlast := lastArcInto_withElements (a := a) (n := init.length) hv (by simp [hpreds]) hd hi
    have hstep := removeArcInto_withElements (a := a) (List.getElem?_eq_some_iff.mp hv).1 hd hi
    have hv' : ((es.modify u (Element.dropArcTo v)).modify v (Element.dropPred u))[v]? =
        some { e with preds := init } := by
      simp [hv, huv, hpreds, Element.dropPred, List.erase_append_right _ hu]
    -- a source listed earlier is neither the one that just lost its arc nor the vertex itself
    have hin' : ∀ w ∈ init, ∃ d, ((es.modify u (Element.dropArcTo v)).modify v (Element.dropPred u))[w]? = some d ∧
        Arc.Reaches d.arcs v := by
      intro w hw
      obtain ⟨d', hd', hr'⟩ := hin w (by simp [hw])
      have hwu : u ≠ w := fun h => hu (h ▸ hw)
      have hwv : v ≠ w := fun h => hself (by simp [h, hw])
      exact ⟨d', by simp [hwu, hwv, hd'], hr'⟩
    have hrest := ih hv' (List.nodup_append.mp hn).1 (fun hmem => hself (List.mem_append_left _ hmem)) hin' rfl
    rw [detachIn, run_ask hlast]
    dsimp only
    rw [run_bind hstep, hrest, detachIn_of_concat hv hpreds hv' rfl]

end WithElements

end Arena

end HeapAbstraction
