import HeapAbstraction.Proofs.ArenaInvariant
import HeapAbstraction.Proofs.PublicIds

namespace HeapAbstraction

namespace Arena

variable {a b : Arena} {id : Int32} {kind : Kind}

theorem mem_idsOf : id ∈ a.answers.idsOf kind ↔ ∃ s ∈ a.slots, s.removed = false ∧ s.kind = kind ∧ s.pub = id := by
  change id ∈ sorted ((a.slots.filter (isLiveOf kind)).map Slot.pub) ↔ _
  rw [sorted, (List.perm_insertionSort _ _).mem_iff]
  simp only [List.mem_map, List.mem_filter, isLiveOf, Bool.and_eq_true, Bool.not_eq_true', beq_iff_eq, and_assoc]

theorem Consistent.numbered (hc : a.Consistent) : a.Numbered := by
  refine ⟨hc.pub_fits, List.nodup_iff_getElem?_ne_getElem?.mpr fun v w hvw hw heq => ?_⟩
  have hlt : w < a.slots.length := by rwa [List.length_map] at hw
  rw [List.getElem?_map, List.getElem?_map, List.getElem?_eq_getElem hlt, List.getElem?_eq_getElem (hvw.trans hlt)] at heq
  exact hvw.ne (hc.pub_inj v w _ _ (List.getElem?_eq_getElem _) (List.getElem?_eq_getElem _) (Option.some.inj heq))

theorem Evolves.mem_idsOf (he : Evolves a b) (hb : b.privOf.length ≤ 2 ^ 31) (hlt : id.toInt < a.privOf.length)
    (hid : id ∈ b.answers.idsOf kind) : id ∈ a.answers.idsOf kind := by
  obtain ⟨s', hs', hr, rfl, rfl⟩ := Arena.mem_idsOf.mp hid
  rcases he.kept s' hs' with ⟨s, hs, hc⟩ | ⟨x, hle, hx, hpub⟩
  · refine Arena.mem_idsOf.mpr ⟨s, hs, ?_, hc.kind.symm, hc.pub.symm⟩
    exact Bool.eq_false_iff.mpr fun h => by simp [hc.removed h] at hr
  · rw [hpub, Int32.toInt_ofNat_of_lt (by omega)] at hlt
    omega

section Issues

variable {ids : List Int32}

end Issues

end Arena

namespace ArenaDraft

open Arena

variable {d : ArenaDraft}

def call (d : ArenaDraft) : BuilderCall ArenaDraft Arena → ArenaDraft
  | .begin => d.begin
  | .build => d.build.1
  | .edit e => (d.perform e).1
  | .startEdge nt => (d.startEdge nt).1
  | .finishEdge e => (d.finishEdge e).1
  | .replaceEdge edge replacement => (d.replaceEdge edge replacement).1
  | .fold pattern image nt => (d.fold pattern image nt).1
  | .foldItself image nt => (d.foldItself image nt).1

section Run

variable (calls : List (BuilderCall ArenaDraft Arena))

variable (hb : (after call d calls calls.length).arena.privOf.length ≤ 2 ^ 31)

include hb

end Run

end ArenaDraft

end HeapAbstraction
