import Mathlib.Data.List.Basic
import Mathlib.Tactic.Ring
import Rcom.Lib.Bytes

/-!
# Byte orders

The bytes of a number in memory, least significant first, and the number that
bytes in memory stand for. `swap` exchanges the two byte orders.
-/

namespace Rcom.Lib.ByteOrder

/-- The `k` low bytes of a number, least significant first. -/
def toLe : ℕ → ℕ → Bytes
  | 0, _ => []
  | k + 1, n => UInt8.ofNat n :: toLe k (n / 256)

def ofLe : Bytes → ℕ
  | [] => 0
  | b :: bs => b.toNat + 256 * ofLe bs

def swap (k n : ℕ) : ℕ := ofLe (toLe k n).reverse

@[simp] theorem length_toLe (k n : ℕ) : (toLe k n).length = k := by
  induction k generalizing n with
  | zero => rfl
  | succ k ih => simp only [toLe, List.length_cons, ih]

theorem ofLe_lt (bs : Bytes) : ofLe bs < 256 ^ bs.length := by
  induction bs with
  | nil => simp [ofLe]
  | cons b bs ih =>
    have hb : b.toNat < 256 := b.toNat_lt
    rw [ofLe, List.length_cons, Nat.pow_succ]
    omega

theorem ofLe_append (bs cs : Bytes) : ofLe (bs ++ cs) = ofLe bs + 256 ^ bs.length * ofLe cs := by
  induction bs with
  | nil => simp [ofLe]
  | cons b bs ih =>
    rw [List.cons_append, ofLe, ih, ofLe, List.length_cons, Nat.pow_succ]
    ring

theorem toLe_add (j k n : ℕ) : toLe (j + k) n = toLe j n ++ toLe k (n / 256 ^ j) := by
  induction j generalizing n with
  | zero => simp [toLe]
  | succ j ih =>
    rw [Nat.succ_add, toLe, ih, toLe, List.cons_append, Nat.div_div_eq_div_mul, Nat.pow_succ,
      Nat.mul_comm 256]

theorem toLe_mod (k n : ℕ) : toLe k (n % 256 ^ k) = toLe k n := by
  induction k generalizing n with
  | zero => rfl
  | succ k ih =>
    have hlow : n % 256 ^ (k + 1) % 256 = n % 256 := by
      rw [Nat.pow_succ, Nat.mod_mul_left_mod]
    have hhigh : n % 256 ^ (k + 1) / 256 = n / 256 % 256 ^ k := by
      rw [Nat.pow_succ, Nat.mod_mul_left_div_self]
    have hbyte : UInt8.ofNat (n % 256 ^ (k + 1)) = UInt8.ofNat n := by
      apply UInt8.toNat_inj.1
      rw [UInt8.toNat_ofNat', UInt8.toNat_ofNat']
      exact hlow
    rw [toLe, toLe, hbyte, hhigh, ih]

theorem ofLe_toLe (k n : ℕ) : ofLe (toLe k n) = n % 256 ^ k := by
  induction k generalizing n with
  | zero => simp [toLe, ofLe, Nat.mod_one]
  | succ k ih =>
    rw [toLe, ofLe, ih, UInt8.toNat_ofNat', pow_succ' 256 k, Nat.mod_mul]

theorem toLe_ofLe (bs : Bytes) : toLe bs.length (ofLe bs) = bs := by
  induction bs with
  | nil => rfl
  | cons b bs ih =>
    have hb : b.toNat < 256 := b.toNat_lt
    have hlow : UInt8.ofNat (b.toNat + 256 * ofLe bs) = b := by
      apply UInt8.toNat_inj.1
      rw [UInt8.toNat_ofNat']
      omega
    have hhigh : (b.toNat + 256 * ofLe bs) / 256 = ofLe bs := by omega
    rw [List.length_cons, ofLe, toLe, hlow, hhigh, ih]

theorem toLe_swap (k n : ℕ) : toLe k (swap k n) = (toLe k n).reverse := by
  have h := toLe_ofLe (toLe k n).reverse
  rwa [List.length_reverse, length_toLe] at h

theorem swap_swap (k n : ℕ) : swap k (swap k n) = n % 256 ^ k := by
  rw [swap, toLe_swap, List.reverse_reverse, ofLe_toLe]

theorem swap_lt (k n : ℕ) : swap k n < 256 ^ k := by
  have h := ofLe_lt (toLe k n).reverse
  rwa [List.length_reverse, length_toLe] at h

theorem swap_add (j k n : ℕ) : swap (j + k) n = 256 ^ k * swap j n + swap k (n / 256 ^ j) := by
  rw [swap, toLe_add, List.reverse_append, ofLe_append, List.length_reverse, length_toLe,
    Nat.add_comm, swap, swap]

theorem testBit_ofLe (bs : Bytes) (i : ℕ) :
    (ofLe bs).testBit i = (bs.getD (i / 8) 0).toNat.testBit (i % 8) := by
  induction bs generalizing i with
  | nil => simp [ofLe]
  | cons b bs ih =>
    have hcons : ofLe (b :: bs) = 2 ^ 8 * ofLe bs + b.toNat := Nat.add_comm _ _
    rw [hcons, Nat.testBit_two_pow_mul_add _ b.toNat_lt]
    by_cases hi : i < 8
    · rw [if_pos hi, Nat.div_eq_of_lt hi, Nat.mod_eq_of_lt hi]
      rfl
    · obtain ⟨k, rfl⟩ := Nat.exists_eq_add_of_le (Nat.le_of_not_lt hi)
      rw [if_neg hi, ih, Nat.add_sub_cancel_left, Nat.add_mod_left, Nat.add_div_left _ (by decide)]
      rfl

/-- One byte of a number, as C programs take it out with a mask and a shift. -/
theorem and_shiftRight (n k : ℕ) : (n &&& 255 <<< k) >>> k = n / 2 ^ k % 256 := by
  rw [Nat.shiftRight_and_distrib, Nat.shiftLeft_shiftRight, Nat.shiftRight_eq_div_pow]
  exact Nat.and_two_pow_sub_one_eq_mod _ 8

end Rcom.Lib.ByteOrder
