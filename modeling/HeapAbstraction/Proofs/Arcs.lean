import Mathlib
import HeapAbstraction.Heap.Store

namespace HeapAbstraction

namespace Arc

def Carries (as : List Arc) (l : EdgeLabel) (t : Nat) : Prop := ∃ a ∈ as, a.target = t ∧ l ∈ a.labels

def Reaches (as : List Arc) (t : Nat) : Prop := ∃ a ∈ as, a.target = t

instance (as : List Arc) (l : EdgeLabel) (t : Nat) : Decidable (Carries as l t) :=
  inferInstanceAs (Decidable (∃ a ∈ as, a.target = t ∧ l ∈ a.labels))

instance (as : List Arc) (t : Nat) : Decidable (Reaches as t) :=
  inferInstanceAs (Decidable (∃ a ∈ as, a.target = t))

structure Tidy (as : List Arc) : Prop where
  targets : (as.map Arc.target).Nodup
  labels : (as.flatMap Arc.labels).Nodup
  labelled : ∀ a ∈ as, a.labels ≠ []

variable {as : List Arc} {l m : EdgeLabel} {t w : Nat}

@[simp]
theorem carries_nil : ¬ Carries [] l t := by simp [Carries]

@[simp]
theorem carries_cons (a : Arc) : Carries (a :: as) l t ↔ (a.target = t ∧ l ∈ a.labels) ∨ Carries as l t := by
  simp [Carries]

@[simp]
theorem reaches_nil : ¬ Reaches [] t := by simp [Reaches]

@[simp]
theorem reaches_cons (a : Arc) : Reaches (a :: as) t ↔ a.target = t ∨ Reaches as t := by simp [Reaches]

theorem mem_map_target : t ∈ as.map Arc.target ↔ Reaches as t := by simp [Reaches]

theorem mem_flatMap_labels : l ∈ as.flatMap Arc.labels ↔ ∃ t, Carries as l t := by
  simp only [List.mem_flatMap, Carries]
  exact ⟨fun ⟨a, ha, hl⟩ => ⟨a.target, a, ha, rfl, hl⟩, fun ⟨_, a, ha, _, hl⟩ => ⟨a, ha, hl⟩⟩

theorem Carries.reaches (h : Carries as l t) : Reaches as t := by
  obtain ⟨a, ha, ht, _⟩ := h
  exact ⟨a, ha, ht⟩

theorem Tidy.nil : Tidy [] := ⟨by simp, by simp, by simp⟩

theorem tidy_cons {a : Arc} : Tidy (a :: as) ↔
    ¬ Reaches as a.target ∧ a.labels.Nodup ∧ a.labels ≠ [] ∧ (∀ l ∈ a.labels, ∀ t, ¬ Carries as l t) ∧ Tidy as := by
  constructor
  · rintro ⟨ht, hl, hb⟩
    simp only [List.map_cons, List.nodup_cons, mem_map_target] at ht
    simp only [List.flatMap_cons, List.nodup_append, mem_flatMap_labels] at hl
    refine ⟨ht.1, hl.1, hb a (by simp), ?_, ht.2, hl.2.1, fun b hbm => hb b (by simp [hbm])⟩
    intro l hla t hc
    exact hl.2.2 l hla l ⟨t, hc⟩ rfl
  · rintro ⟨ht, hn, hne, hd, hr⟩
    refine ⟨?_, ?_, ?_⟩
    · simpa only [List.map_cons, List.nodup_cons, mem_map_target] using ⟨ht, hr.targets⟩
    · simp only [List.flatMap_cons, List.nodup_append, mem_flatMap_labels]
      refine ⟨hn, hr.labels, ?_⟩
      rintro l hla m ⟨t, hc⟩ rfl
      exact hd l hla t hc
    · simpa using ⟨hne, hr.labelled⟩

theorem Tidy.sublist {bs : List Arc} (h : Tidy as) (hs : bs.Sublist as) : Tidy bs :=
  ⟨h.targets.sublist (hs.map _), h.labels.sublist (hs.flatMap Arc.labels), fun a ha => h.labelled a (hs.subset ha)⟩

theorem Tidy.unique {a b : Arc} (h : Tidy as) (ha : a ∈ as) (hb : b ∈ as) (ht : a.target = b.target) : a = b :=
  List.inj_on_of_nodup_map h.targets ha hb ht

theorem Tidy.functional (h : Tidy as) (ht : Carries as l t) (hw : Carries as l w) : t = w := by
  induction as with
  | nil => simp at ht
  | cons a as ih =>
    obtain ⟨_, _, _, hd, hr⟩ := tidy_cons.mp h
    rw [carries_cons] at ht hw
    rcases ht with ⟨rfl, hl⟩ | ht
    · rcases hw with ⟨rfl, _⟩ | hw
      · rfl
      · exact absurd hw (hd l hl w)
    · rcases hw with ⟨rfl, hl⟩ | hw
      · exact absurd ht (hd l hl t)
      · exact ih hr ht hw

theorem Tidy.reaches_iff (h : Tidy as) : Reaches as t ↔ ∃ l, Carries as l t := by
  constructor
  · rintro ⟨a, ha, rfl⟩
    obtain ⟨l, hl⟩ := List.exists_mem_of_ne_nil _ (h.labelled a ha)
    exact ⟨l, a, ha, rfl, hl⟩
  · exact fun ⟨_, hc⟩ => hc.reaches

theorem carries_insertLabel : Carries (insertLabel t l as) m w ↔ Carries as m w ∨ (m = l ∧ w = t) := by
  induction as with
  | nil => simp [insertLabel]; tauto
  | cons a as ih =>
    by_cases ha : a.target = t
    · simp only [insertLabel, ha, if_true, carries_cons, List.mem_append, List.mem_singleton]
      tauto
    · simp only [insertLabel, ha, if_false, carries_cons, ih]
      tauto

theorem reaches_insertLabel : Reaches (insertLabel t l as) w ↔ Reaches as w ∨ w = t := by
  induction as with
  | nil => simp [insertLabel, eq_comm]
  | cons a as ih =>
    by_cases ha : a.target = t
    · simp only [insertLabel, ha, if_true, reaches_cons]
      constructor
      · rintro (rfl | h) <;> simp_all
      · rintro ((rfl | h) | rfl) <;> simp_all
    · simp only [insertLabel, ha, if_false, reaches_cons, ih]
      tauto

theorem Tidy.insertLabel (h : Tidy as) (hl : ∀ w, ¬ Carries as l w) : Tidy (insertLabel t l as) := by
  induction as with
  | nil => simp [Arc.insertLabel, tidy_cons, Tidy.nil]
  | cons a as ih =>
    obtain ⟨ht, hn, hne, hd, hr⟩ := tidy_cons.mp h
    have hla : l ∉ a.labels := fun hm => hl a.target (by simp [hm])
    have hlr : ∀ w, ¬ Carries as l w := fun w hc => hl w (by simp [hc])
    by_cases ha : a.target = t
    · simp only [Arc.insertLabel, ha, if_true, tidy_cons]
      refine ⟨ha ▸ ht, ?_, by simp, ?_, hr⟩
      · exact List.nodup_append.mpr ⟨hn, by simp, by rintro x hx y hy rfl; simp_all⟩
      · intro x hx w hc
        rcases List.mem_append.mp hx with hx | hx
        · exact hd x hx w hc
        · exact hlr w (List.mem_singleton.mp hx ▸ hc)
    · simp only [Arc.insertLabel, ha, if_false, tidy_cons, reaches_insertLabel, carries_insertLabel]
      refine ⟨by simp [ht], hn, hne, ?_, ih hr hlr⟩
      rintro x hx w (hc | ⟨rfl, -⟩)
      · exact hd x hx w hc
      · exact hla hx

def dropLabel (t : Nat) (l : EdgeLabel) : List Arc → List Arc
  | [] => []
  | a :: rest =>
      if a.target = t then
        if (a.labels.erase l).isEmpty then rest else { a with labels := a.labels.erase l } :: rest
      else a :: dropLabel t l rest

theorem dropLabel_eq {a : Arc} (hf : as.find? (fun a => a.target == t) = some a) :
    dropLabel t l as = if (a.labels.erase l).isEmpty then as.eraseP (fun a => a.target == t)
      else as.replace a { a with labels := a.labels.erase l } := by
  induction as with
  | nil => simp at hf
  | cons b as ih =>
    by_cases hb : b.target = t
    · have hab : b = a := by simpa [hb] using hf
      subst hab
      simp [dropLabel, hb]
    · have hn : b ≠ a := by
        rintro rfl
        exact hb (by simpa using List.find?_some hf)
      rw [List.find?_cons_of_neg (by simpa using hb)] at hf
      rw [dropLabel, if_neg hb, ih hf]
      have hr : (a == b) = false := by simpa using hn.symm
      split <;> simp [hb, List.replace_cons, hr]

theorem carries_dropLabel (h : Tidy as) (hl : Carries as l t) :
    Carries (dropLabel t l as) m w ↔ Carries as m w ∧ m ≠ l := by
  induction as with
  | nil => simp at hl
  | cons a as ih =>
    obtain ⟨ht, hn, hne, hd, hr⟩ := tidy_cons.mp h
    by_cases ha : a.target = t
    · have hla : l ∈ a.labels := by
        rcases (carries_cons a).mp hl with h1 | h1
        · exact h1.2
        · exact absurd h1.reaches (ha ▸ ht)
      have hm : ∀ w, Carries as m w → m ≠ l := by
        rintro w hc rfl
        exact hd m hla w hc
      have he : m ∈ a.labels.erase l ↔ m ∈ a.labels ∧ m ≠ l := by rw [hn.mem_erase_iff]; tauto
      rw [dropLabel, if_pos ha, carries_cons]
      split
      · rename_i hempty
        have hnone : ¬ (m ∈ a.labels ∧ m ≠ l) := by
          rw [← he, List.isEmpty_iff.mp hempty]
          simp
        have := hm w
        tauto
      · rw [carries_cons]
        have := hm w
        simp only [he]
        tauto
    · have hlr : Carries as l t := by
        rcases (carries_cons a).mp hl with h1 | h1
        · exact absurd h1.1 ha
        · exact h1
      have hla : m ∈ a.labels → m ≠ l := by
        rintro hma rfl
        exact hd m hma t hlr
      rw [dropLabel, if_neg ha, carries_cons, carries_cons, ih hr hlr]
      tauto

theorem Carries.of_dropLabel (hc : Carries (dropLabel t l as) m w) : Carries as m w := by
  induction as with
  | nil => simp [dropLabel] at hc
  | cons a as ih =>
    rw [carries_cons]
    by_cases ha : a.target = t
    · rw [dropLabel, if_pos ha] at hc
      split at hc
      · exact .inr hc
      · rw [carries_cons] at hc
        exact hc.imp (fun h1 => ⟨h1.1, List.mem_of_mem_erase h1.2⟩) id
    · rw [dropLabel, if_neg ha, carries_cons] at hc
      exact hc.imp id ih

theorem Reaches.of_dropLabel (hw : Reaches (dropLabel t l as) w) : Reaches as w := by
  induction as with
  | nil => simp [dropLabel] at hw
  | cons a as ih =>
    rw [reaches_cons]
    by_cases ha : a.target = t
    · rw [dropLabel, if_pos ha] at hw
      split at hw
      · exact .inr hw
      · rwa [reaches_cons] at hw
    · rw [dropLabel, if_neg ha, reaches_cons] at hw
      exact hw.imp id ih

theorem Tidy.dropLabel (h : Tidy as) : Tidy (dropLabel t l as) := by
  induction as with
  | nil => exact h
  | cons a as ih =>
    obtain ⟨ht, hn, hne, hd, hr⟩ := tidy_cons.mp h
    by_cases ha : a.target = t
    · rw [Arc.dropLabel, if_pos ha]
      split
      · exact hr
      · rename_i hempty
        refine tidy_cons.mpr ⟨ht, hn.erase l, by simpa using hempty, ?_, hr⟩
        exact fun x hx w hc => hd x (List.mem_of_mem_erase hx) w hc
    · rw [Arc.dropLabel, if_neg ha]
      exact tidy_cons.mpr ⟨fun hx => ht hx.of_dropLabel, hn, hne, fun x hx w hc => hd x hx w hc.of_dropLabel, ih hr⟩

theorem reaches_dropLabel (h : Tidy as) (hl : Carries as l t) :
    Reaches (dropLabel t l as) w ↔ ∃ m, m ≠ l ∧ Carries as m w := by
  rw [h.dropLabel.reaches_iff]
  simp only [carries_dropLabel h hl, and_comm]

theorem reaches_dropLabel_of_ne (h : Tidy as) (hl : Carries as l t) (hw : w ≠ t) :
    Reaches (dropLabel t l as) w ↔ Reaches as w := by
  refine ⟨Reaches.of_dropLabel, fun hr => (reaches_dropLabel h hl).mpr ?_⟩
  obtain ⟨m, hm⟩ := h.reaches_iff.mp hr
  refine ⟨m, ?_, hm⟩
  rintro rfl
  exact hw (h.functional hm hl)

theorem reaches_dropLabel_self {a : Arc} (h : Tidy as) (hl : Carries as l t)
    (hf : as.find? (fun a => a.target == t) = some a) :
    Reaches (dropLabel t l as) t ↔ (a.labels.erase l).isEmpty = false := by
  have ha : a ∈ as := List.mem_of_find?_eq_some hf
  have hat : a.target = t := by simpa using List.find?_some hf
  have hn : a.labels.Nodup := (List.nodup_flatMap.mp h.labels).1 a ha
  rw [reaches_dropLabel h hl, List.isEmpty_eq_false_iff_exists_mem]
  constructor
  · rintro ⟨m, hm, b, hb, hbt, hmb⟩
    have hba : b = a := h.unique hb ha (hbt.trans hat.symm)
    exact ⟨m, hn.mem_erase_iff.mpr ⟨hm, hba ▸ hmb⟩⟩
  · rintro ⟨m, hm⟩
    exact ⟨m, (hn.mem_erase_iff.mp hm).1, a, ha, hat, (hn.mem_erase_iff.mp hm).2⟩

def awayFrom (v : Nat) (as : List Arc) : List Arc := as.filter (fun a => a.target != v)

theorem carries_awayFrom {v : Nat} : Carries (awayFrom v as) l t ↔ Carries as l t ∧ t ≠ v := by
  simp only [Carries, awayFrom, List.mem_filter, bne_iff_ne]
  constructor
  · rintro ⟨a, ⟨ha, hv⟩, rfl, hl⟩
    exact ⟨⟨a, ha, rfl, hl⟩, hv⟩
  · rintro ⟨⟨a, ha, rfl, hl⟩, hv⟩
    exact ⟨a, ⟨ha, hv⟩, rfl, hl⟩

theorem reaches_awayFrom {v : Nat} : Reaches (awayFrom v as) t ↔ Reaches as t ∧ t ≠ v := by
  simp only [Reaches, awayFrom, List.mem_filter, bne_iff_ne]
  constructor
  · rintro ⟨a, ⟨ha, hv⟩, rfl⟩
    exact ⟨⟨a, ha, rfl⟩, hv⟩
  · rintro ⟨⟨a, ha, rfl⟩, hv⟩
    exact ⟨a, ⟨ha, hv⟩, rfl⟩

theorem Tidy.awayFrom {v : Nat} (h : Tidy as) : Tidy (awayFrom v as) := h.sublist List.filter_sublist

theorem awayFrom_of_not_reaches {v : Nat} (h : ¬ Reaches as v) : awayFrom v as = as := by
  refine List.filter_eq_self.mpr fun a ha => ?_
  simpa using fun ht => h ⟨a, ha, ht⟩

theorem Tidy.eraseP_eq {v : Nat} (h : Tidy as) : as.eraseP (fun a => a.target == v) = Arc.awayFrom v as := by
  induction as with
  | nil => rfl
  | cons a as ih =>
    obtain ⟨ht, -, -, -, hr⟩ := tidy_cons.mp h
    by_cases ha : a.target = v
    · have hs := awayFrom_of_not_reaches (ha ▸ ht)
      simp only [Arc.awayFrom] at hs
      simp [Arc.awayFrom, ha, hs]
    · have hi := ih hr
      simp only [Arc.awayFrom] at hi
      simp [Arc.awayFrom, ha, hi]

def moved (f : Nat → Nat) (as : List Arc) : List Arc := as.map (fun a => { a with target := f a.target })

theorem carries_moved {f : Nat → Nat} : Carries (moved f as) l t ↔ ∃ w, Carries as l w ∧ f w = t := by
  simp only [Carries, moved, List.mem_map]
  constructor
  · rintro ⟨_, ⟨a, ha, rfl⟩, rfl, hl⟩
    exact ⟨a.target, ⟨a, ha, rfl, hl⟩, rfl⟩
  · rintro ⟨w, ⟨a, ha, rfl, hl⟩, rfl⟩
    exact ⟨_, ⟨a, ha, rfl⟩, rfl, hl⟩

theorem reaches_moved {f : Nat → Nat} : Reaches (moved f as) t ↔ ∃ w, Reaches as w ∧ f w = t := by
  simp [Reaches, moved]

theorem Tidy.moved {f : Nat → Nat} (h : Tidy as) (hf : ∀ t w, Reaches as t → Reaches as w → f t = f w → t = w) :
    Tidy (moved f as) := by
  refine ⟨?_, ?_, ?_⟩
  · have ht : (Arc.moved f as).map Arc.target = (as.map Arc.target).map f := by simp [Arc.moved]
    rw [ht]
    refine h.targets.map_on fun t hm w hn => hf t w (mem_map_target.mp hm) (mem_map_target.mp hn)
  · simpa [Arc.moved, List.flatMap_map] using h.labels
  · simpa [Arc.moved] using h.labelled

end Arc

namespace Element

variable {e : Element} {l : EdgeLabel} {t : Nat}

theorem targetOf?_eq_none : e.targetOf? l = none ↔ ∀ t, ¬ Arc.Carries e.arcs l t := by
  simp only [targetOf?, Option.map_eq_none_iff, List.find?_eq_none, List.contains_iff_mem, Arc.Carries]
  exact ⟨fun h t ⟨a, ha, _, hl⟩ => h a ha hl, fun h a ha hl => h a.target ⟨a, ha, rfl, hl⟩⟩

theorem carries_of_targetOf? (h : e.targetOf? l = some t) : Arc.Carries e.arcs l t := by
  obtain ⟨a, ha, rfl⟩ := Option.map_eq_some_iff.mp h
  exact ⟨a, List.mem_of_find?_eq_some ha, rfl, by simpa using List.find?_some ha⟩

theorem targetOf?_eq_some (h : Arc.Tidy e.arcs) : e.targetOf? l = some t ↔ Arc.Carries e.arcs l t := by
  refine ⟨carries_of_targetOf?, fun hc => ?_⟩
  cases ht : e.targetOf? l with
  | none => exact absurd hc (targetOf?_eq_none.mp ht t)
  | some w => rw [h.functional (carries_of_targetOf? ht) hc]

theorem arcTo?_isSome : (e.arcTo? t).isSome ↔ Arc.Reaches e.arcs t := by
  simp [arcTo?, Arc.Reaches]

theorem mem_successors : t ∈ e.successors ↔ Arc.Reaches e.arcs t := Arc.mem_map_target

theorem mem_labelsTo (h : Arc.Tidy e.arcs) : l ∈ e.labelsTo t ↔ Arc.Carries e.arcs l t := by
  simp only [labelsTo]
  cases ha : e.arcTo? t with
  | none =>
    have hn : ¬ Arc.Reaches e.arcs t := by simp [← arcTo?_isSome, ha]
    simpa using fun hc : Arc.Carries e.arcs l t => hn hc.reaches
  | some a =>
    have hm : a ∈ e.arcs := List.mem_of_find?_eq_some ha
    have ht : a.target = t := by simpa using List.find?_some ha
    simp only [Option.map_some, Option.getD_some]
    constructor
    · exact fun hl => ⟨a, hm, ht, hl⟩
    · rintro ⟨b, hb, hbt, hl⟩
      exact h.unique hb hm (hbt.trans ht.symm) ▸ hl

theorem labelsTo_nodup (h : Arc.Tidy e.arcs) : (e.labelsTo t).Nodup := by
  simp only [labelsTo]
  cases ha : e.arcTo? t with
  | none => simp
  | some a => exact (List.nodup_flatMap.mp h.labels).1 a (List.mem_of_find?_eq_some ha)

end Element

end HeapAbstraction
