import HeapAbstraction.Proofs.ArenaInvariant

namespace HeapAbstraction

namespace Arena

variable {a : Arena}

-- why the number of IDs is bounded: the one after the last is negative, and no look-up takes it
theorem priv_exhausted (hn : a.privOf.length = 2 ^ 31) (type : Bytes) :
    ∃ b, perform (.addNodes type 1) a = .ok [Int32.minValue] b ∧
      ∀ kind, b.priv Int32.minValue.toInt kind = .error (.unknownId Int32.minValue.toInt) := by
  obtain ⟨ids, b, hrun, hlength, hi, -⟩ := addVertices_run (.node type) 1 (a := a)
  obtain rfl : ids = [Int32.minValue] := by
    rw [hi.ids_eq, hlength, hn]
    decide
  exact ⟨b, hrun, fun kind => rfl⟩

end Arena

namespace ArenaDraft

open Arena

variable {d : ArenaDraft}

end ArenaDraft

end HeapAbstraction
