import Rcom.Lib.Bytes
import Mathlib.Data.List.Basic

/-! # `encode_base64` (util.c) -/

namespace Rcom
open Rcom.Lib

def base64Table : List UInt8 :=
  ascii "ABCDEFGHIJKLMNOPQRSTUVWXYZabcdefghijklmnopqrstuvwxyz0123456789+/"

/-- The character for the six bits of `p` from bit `k` on. -/
def base64Char (p k : ℕ) : UInt8 := base64Table.getD ((p >>> k) &&& 0x3F) 0

def encodeBase64 : Bytes → Bytes
  | a :: b :: c :: s =>
    let p := (a.toNat <<< 0x10) + (b.toNat <<< 0x08) + c.toNat
    base64Char p 18 :: base64Char p 12 :: base64Char p 6 :: base64Char p 0 :: encodeBase64 s
  | [a, b] =>
    let p := (a.toNat <<< 0x10) + (b.toNat <<< 0x08)
    [base64Char p 18, base64Char p 12, base64Char p 6, 61]
  | [a] =>
    let p := a.toNat <<< 0x10
    [base64Char p 18, base64Char p 12, 61, 61]
  | [] => []

theorem base64Char_mem (p k : ℕ) : base64Char p k ∈ base64Table := by
  have hlt : (p >>> k) &&& 0x3F < 64 := Nat.lt_of_le_of_lt Nat.and_le_right (by omega)
  have hlen : base64Table.length = 64 := by decide
  rw [base64Char, List.getD_eq_getElem?_getD, List.getElem?_eq_getElem (by omega), Option.getD_some]
  exact List.getElem_mem _

theorem length_encodeBase64 (s : Bytes) : (encodeBase64 s).length = 4 * ((s.length + 2) / 3) := by
  fun_induction encodeBase64 s with
  | case1 a b c s p ih =>
    simp only [List.length_cons, ih]
    omega
  | case2 a b p => simp
  | case3 a p => simp
  | case4 => rfl

theorem mem_encodeBase64 {s : Bytes} {x : UInt8} (h : x ∈ encodeBase64 s) :
    x ∈ base64Table ∨ x = 61 := by
  fun_induction encodeBase64 s with
  | case1 a b c s p ih =>
    simp only [List.mem_cons] at h
    rcases h with rfl | rfl | rfl | rfl | h
    · exact .inl (base64Char_mem p 18)
    · exact .inl (base64Char_mem p 12)
    · exact .inl (base64Char_mem p 6)
    · exact .inl (base64Char_mem p 0)
    · exact ih h
  | case2 a b p =>
    simp only [List.mem_cons, List.not_mem_nil, or_false] at h
    rcases h with rfl | rfl | rfl | rfl
    · exact .inl (base64Char_mem p 18)
    · exact .inl (base64Char_mem p 12)
    · exact .inl (base64Char_mem p 6)
    · exact .inr rfl
  | case3 a p =>
    simp only [List.mem_cons, List.not_mem_nil, or_false] at h
    rcases h with rfl | rfl | rfl | rfl
    · exact .inl (base64Char_mem p 18)
    · exact .inl (base64Char_mem p 12)
    · exact .inr rfl
    · exact .inr rfl
  | case4 => simp at h

theorem base64Table_plain : ∀ c ∈ base64Table, c ≠ 0 ∧ c ≠ 10 ∧ c ≠ 13 ∧ c ≠ 32 := by
  have hall : (base64Table.all fun c => c ≠ 0 ∧ c ≠ 10 ∧ c ≠ 13 ∧ c ≠ 32) = true := by decide
  simpa using hall

theorem encodeBase64_plain {s : Bytes} {c : UInt8} (hc : c ∈ encodeBase64 s) :
    c ≠ 0 ∧ c ≠ 10 ∧ c ≠ 13 ∧ c ≠ 32 := by
  rcases mem_encodeBase64 hc with h | rfl
  · exact base64Table_plain c h
  · decide

theorem zero_notMem_encodeBase64 (s : Bytes) : 0 ∉ encodeBase64 s :=
  fun h => (encodeBase64_plain h).1 rfl

/-- One byte more than whole groups of three: two characters of padding, and none before them. -/
theorem encodeBase64_padding {s : Bytes} {n : ℕ} (h : s.length = 3 * n + 1) :
    ∃ front, encodeBase64 s = front ++ [61, 61] ∧ front.length = 4 * n + 2 ∧
      ∀ x ∈ front, x ∈ base64Table := by
  induction n generalizing s with
  | zero =>
    obtain ⟨a, rfl⟩ := List.length_eq_one_iff.1 h
    refine ⟨[base64Char _ 18, base64Char _ 12], rfl, rfl, ?_⟩
    simp only [List.mem_cons, List.not_mem_nil, or_false, forall_eq_or_imp, forall_eq]
    exact ⟨base64Char_mem _ 18, base64Char_mem _ 12⟩
  | succ n ih =>
    match s, h with
    | a :: b :: c :: s, h =>
      have hs : s.length = 3 * n + 1 := by
        simp only [List.length_cons] at h
        omega
      obtain ⟨front, hfront, hlen, hmem⟩ := ih hs
      refine ⟨base64Char _ 18 :: base64Char _ 12 :: base64Char _ 6 :: base64Char _ 0 :: front,
        by rw [encodeBase64, hfront]; rfl, by simp only [List.length_cons, hlen]; omega, ?_⟩
      simp only [List.mem_cons, forall_eq_or_imp]
      exact ⟨base64Char_mem _ 18, base64Char_mem _ 12, base64Char_mem _ 6, base64Char_mem _ 0, hmem⟩

end Rcom
