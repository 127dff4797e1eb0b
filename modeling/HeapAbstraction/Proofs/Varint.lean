import HeapAbstraction.Encoding.Varint
import Mathlib.Tactic.Ring

namespace HeapAbstraction.Varint

variable {k n shift acc : Nat} {rest : Bytes}

theorem length_writeBytes_pos (k n : Nat) : 0 < (writeBytes (k + 1) n).length := by
  rw [writeBytes]
  split <;> simp

theorem length_write_pos (n : Nat) : 0 < (write n).length := length_writeBytes_pos 9 _

theorem readBytes_last (hn : n < 128) (hacc : acc + n * 2 ^ shift < 0x10000000000000000) :
    readBytes (k + 1) shift acc (writeBytes (k + 1) n ++ rest) = .ok (acc + n * 2 ^ shift, rest) := by
  have hbyte : (UInt8.ofNat n).toNat = n := UInt8.toNat_ofNat_of_lt' (show n < 256 by omega)
  have hlow : UInt8.ofNat n < 128 := by
    rw [UInt8.lt_iff_toNat_lt, hbyte]
    exact hn
  rw [writeBytes, if_pos hn, List.singleton_append, readBytes, if_pos hlow, hbyte, Nat.mod_eq_of_lt hn, Nat.shiftLeft_eq,
    Nat.mod_eq_of_lt hacc]

theorem readBytes_more (hn : n < 128) (hacc : acc + n * 2 ^ shift < 0x10000000000000000) :
    readBytes (k + 1) shift acc (UInt8.ofNat (n + 128) :: rest) = readBytes k (shift + 7) (acc + n * 2 ^ shift) rest := by
  have hbyte : (UInt8.ofNat (n + 128)).toNat = n + 128 := UInt8.toNat_ofNat_of_lt' (show n + 128 < 256 by omega)
  have hhigh : ¬ UInt8.ofNat (n + 128) < 128 := by
    rw [UInt8.lt_iff_toNat_lt, hbyte]
    exact Nat.not_lt.mpr (Nat.le_add_left 128 n)
  rw [readBytes, if_neg hhigh, hbyte, Nat.add_mod_right, Nat.mod_eq_of_lt hn, Nat.shiftLeft_eq, Nat.mod_eq_of_lt hacc]

theorem readBytes_writeBytes (hn : n < 128 ^ (k + 1)) (hacc : acc + n * 2 ^ shift < 0x10000000000000000) :
    readBytes (k + 1) shift acc (writeBytes (k + 1) n ++ rest) = .ok (acc + n * 2 ^ shift, rest) := by
  induction k generalizing n shift acc with
  | zero => exact readBytes_last (by simpa using hn) hacc
  | succ k ih =>
    by_cases hsmall : n < 128
    · exact readBytes_last hsmall hacc
    · have hsplit : n % 128 * 2 ^ shift + n / 128 * 2 ^ (shift + 7) = n * 2 ^ shift := by
        conv_rhs => rw [← Nat.div_add_mod n 128]
        ring
      have hhigh : n / 128 < 128 ^ (k + 1) := by
        rw [Nat.div_lt_iff_lt_mul (by omega)]
        exact hn
      have hlow : acc + n % 128 * 2 ^ shift < 0x10000000000000000 := by omega
      have hnext : acc + n % 128 * 2 ^ shift + n / 128 * 2 ^ (shift + 7) = acc + n * 2 ^ shift := by omega
      rw [writeBytes, if_neg hsmall, List.cons_append, readBytes_more (Nat.mod_lt n (by omega)) hlow,
        ih hhigh (hnext ▸ hacc), hnext]

theorem read_write (hn : n < 0x10000000000000000) : read (write n ++ rest) = .ok (n, rest) := by
  have hread : readBytes 10 0 0 (writeBytes 10 n ++ rest) = .ok (0 + n * 2 ^ 0, rest) :=
    readBytes_writeBytes (by omega) (by omega)
  rw [read, write, Nat.mod_eq_of_lt hn, hread]
  simp

theorem readString_writeString {s : Bytes} (hs : s.length < 0x8000000000000000) :
    readString (writeString s ++ rest) = .ok (s, rest) := by
  have hlen : s.length < 0x10000000000000000 := by omega
  have hshort : ¬ 0x8000000000000000 ≤ s.length := by omega
  have hrest : ¬ (s ++ rest).length < s.length := by simp
  rw [readString, writeString, List.append_assoc, read_write hlen]
  simp only [bind, Except.bind, if_neg hshort, if_neg hrest, List.take_left, List.drop_left]
  rfl

theorem readString_length {s bs : Bytes} (h : readString bs = .ok (s, rest)) : s.length < 0x8000000000000000 := by
  rw [readString] at h
  cases hr : read bs with
  | error e => simp [hr, bind, Except.bind] at h
  | ok r =>
    simp only [hr, bind, Except.bind] at h
    split at h
    · simp at h
    · split at h
      · simp at h
      · cases h
        rw [List.length_take]
        omega

end HeapAbstraction.Varint
