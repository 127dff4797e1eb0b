import HeapAbstraction.Catalog.Database
import HeapAbstraction.Catalog.Header
import HeapAbstraction.Proofs.Lists
import HeapAbstraction.Proofs.Varint

namespace HeapAbstraction

namespace Bytes

theorem order_eq_iff {a b : Bytes} : order a b = .eq ↔ a = b := by
  induction a generalizing b with
  | nil => cases b <;> simp [order]
  | cons x a ih =>
    cases b with
    | nil => simp [order]
    | cons y b =>
      rw [order, List.cons.injEq]
      by_cases hlt : x < y
      · simp [hlt, UInt8.ne_of_lt hlt]
      · by_cases hgt : y < x
        · simp [hlt, hgt, (UInt8.ne_of_lt hgt).symm]
        · have hxy : x = y := UInt8.le_antisymm (UInt8.not_lt.mp hgt) (UInt8.not_lt.mp hlt)
          simp [hxy, ih]

theorem order_lt_iff {a b : Bytes} : order a b = .lt ↔ a < b := by
  induction a generalizing b with
  | nil => cases b <;> simp [order]
  | cons x a ih =>
    cases b with
    | nil => simp [order]
    | cons y b =>
      rw [order, List.cons_lt_cons_iff]
      by_cases hlt : x < y
      · simp [hlt]
      · by_cases hgt : y < x
        · simp [hlt, hgt, (UInt8.ne_of_lt hgt).symm]
        · have hxy : x = y := UInt8.le_antisymm (UInt8.not_lt.mp hgt) (UInt8.not_lt.mp hlt)
          simp [hxy, ih]

theorem order_swap (a b : Bytes) : (order a b).swap = order b a := by
  induction a generalizing b with
  | nil => cases b <;> rfl
  | cons x a ih =>
    cases b with
    | nil => rfl
    | cons y b =>
      rw [order, order]
      by_cases hlt : x < y
      · simp [hlt, UInt8.not_lt.mpr (UInt8.le_of_lt hlt)]
      · by_cases hgt : y < x <;> simp [hlt, hgt, ih]

theorem order_gt_iff {a b : Bytes} : order a b = .gt ↔ b < a := by
  rw [← order_lt_iff, ← order_swap a b, Ordering.swap_eq_lt]

theorem length_bigEndian (width n : Nat) : (bigEndian width n).length = width := by
  rw [bigEndian, List.length_reverse]
  induction width generalizing n with
  | zero => rfl
  | succ width ih => rw [littleEndian, List.length_cons, ih]

theorem toNatBE_bigEndian {width n : Nat} (hn : n < 256 ^ width) : toNatBE (bigEndian width n) = n := by
  induction width generalizing n with
  | zero => simp [bigEndian, littleEndian, toNatBE, Nat.lt_one_iff.mp hn]
  | succ width ih =>
    have hdiv : n / 256 < 256 ^ width := Nat.div_lt_of_lt_mul (by rwa [Nat.pow_succ'] at hn)
    have hrest := ih hdiv
    rw [bigEndian, toNatBE] at hrest
    rw [bigEndian, littleEndian, List.reverse_cons, toNatBE, List.foldl_append, hrest]
    simp only [List.foldl_cons, List.foldl_nil, UInt8.toNat_ofNat']
    omega

end Bytes

namespace Database

variable {db : Database} {es : List (Bytes × Bytes)} {key value k start : Bytes}

theorem lookup_putEntry (key value k : Bytes) (es : List (Bytes × Bytes)) :
    (putEntry key value es).lookup k = if k = key then some value else es.lookup k := by
  induction es with
  | nil => exact lookup_cons_ite k key value []
  | cons e es ih =>
    obtain ⟨a, b⟩ := e
    rw [putEntry]
    cases ho : Bytes.order key a with
    | lt => exact lookup_cons_ite k key value _
    | eq =>
      obtain rfl := Bytes.order_eq_iff.mp ho
      simp only [lookup_cons_ite]
      by_cases hk : k = key <;> simp [hk]
    | gt =>
      have hne : key ≠ a := fun h => by simp [Bytes.order_eq_iff.mpr h] at ho
      simp only [lookup_cons_ite, ih]
      by_cases hk : k = a
      · simp [hk, hne.symm]
      · simp [hk]

theorem get?_put (db : Database) (key value k : Bytes) :
    (db.put key value).get? k = if k = key then some value else db.get? k := lookup_putEntry key value k db.entries

theorem putEntry_perm (hnew : es.lookup key = none) : (putEntry key value es).Perm ((key, value) :: es) := by
  induction es with
  | nil => exact .refl _
  | cons e es ih =>
    obtain ⟨a, b⟩ := e
    rw [List.lookup_eq_none_iff, List.forall_mem_cons] at hnew
    rw [putEntry]
    cases ho : Bytes.order key a with
    | lt => exact .refl _
    | eq => simp [Bytes.order_eq_iff.mp ho] at hnew
    | gt => exact ((ih (List.lookup_eq_none_iff.mpr hnew.2)).cons _).trans (.swap _ _ _)

def Sorted (db : Database) : Prop := (db.entries.map Prod.fst).Pairwise (· < ·)

theorem mem_keys_putEntry : k ∈ (putEntry key value es).map Prod.fst ↔ k = key ∨ k ∈ es.map Prod.fst := by
  induction es with
  | nil => simp [putEntry]
  | cons e es ih =>
    obtain ⟨a, b⟩ := e
    rw [putEntry]
    cases ho : Bytes.order key a with
    | lt => simp
    | eq => simp [Bytes.order_eq_iff.mp ho]
    | gt => rw [List.map_cons, List.mem_cons, ih, List.map_cons, List.mem_cons, or_left_comm]

theorem Sorted.put (hs : db.Sorted) (key value : Bytes) : (db.put key value).Sorted := by
  have hentries (es : List (Bytes × Bytes)) (hs : (es.map Prod.fst).Pairwise (· < ·)) :
      ((putEntry key value es).map Prod.fst).Pairwise (· < ·) := by
    induction es with
    | nil => exact List.pairwise_singleton _ _
    | cons e es ih =>
      obtain ⟨a, b⟩ := e
      obtain ⟨hfirst, hrest⟩ := List.pairwise_cons.mp hs
      rw [putEntry]
      cases ho : Bytes.order key a with
      | lt =>
        have hlt := Bytes.order_lt_iff.mp ho
        refine List.pairwise_cons.mpr ⟨fun k hk => ?_, hs⟩
        rcases List.mem_cons.mp hk with rfl | hk
        · exact hlt
        · exact List.lt_trans hlt (hfirst k hk)
      | eq =>
        obtain rfl := Bytes.order_eq_iff.mp ho
        exact hs
      | gt =>
        refine List.pairwise_cons.mpr ⟨fun k hk => ?_, ih hrest⟩
        rcases mem_keys_putEntry.mp hk with rfl | hk
        · exact Bytes.order_gt_iff.mp ho
        · exact hfirst k hk
  exact hentries db.entries hs

theorem fromKey_eq (hs : db.Sorted) (start : Bytes) :
    db.fromKey start = db.entries.filter (fun e => !(Bytes.order e.1 start == .lt)) := by
  refine dropWhile_eq_filter ((List.pairwise_map.mp hs).imp fun {a b} hab hb => ?_)
  rw [beq_iff_eq, Bytes.order_lt_iff] at hb ⊢
  exact List.lt_trans hab hb

theorem startingWith_put (hstart : start.isPrefixOf key = false) :
    (db.put key value).startingWith start = db.startingWith start := by
  have hentries (es : List (Bytes × Bytes)) : (putEntry key value es).filter (fun e => start.isPrefixOf e.1) =
      es.filter (fun e => start.isPrefixOf e.1) := by
    induction es with
    | nil => simp [putEntry, hstart]
    | cons e es ih =>
      obtain ⟨a, b⟩ := e
      rw [putEntry]
      cases ho : Bytes.order key a with
      | lt => simp [hstart]
      | eq =>
        obtain rfl := Bytes.order_eq_iff.mp ho
        simp [hstart]
      | gt => simp only [List.filter_cons, ih]
  exact hentries db.entries

theorem startingWith_put_perm (hstart : start.isPrefixOf key = true) (hnew : db.get? key = none) :
    ((db.put key value).startingWith start).Perm ((key, value) :: db.startingWith start) := by
  have hperm : (putEntry key value db.entries).Perm ((key, value) :: db.entries) := putEntry_perm hnew
  exact (hperm.filter _).trans (.of_eq (List.filter_cons_of_pos hstart))

end Database

theorem Header.read_write {h : Header} (hmajor : h.major < 0x10000000000000000) (hminor : h.minor < 0x10000000000000000)
    (hcount : h.count < 0x10000000000000000) : Header.read h.write = (h, true) := by
  have hlast : Varint.read (Varint.write h.count ++ []) = .ok (h.count, []) := Varint.read_write hcount
  rw [List.append_nil] at hlast
  rw [Header.read, Header.write, List.append_assoc]
  simp [readNumbers, Varint.read_write hmajor, Varint.read_write hminor, hlast]

end HeapAbstraction
