import Mathlib.Data.Nat.Digits.Lemmas

/-!
# Decimal numbers in byte strings

`decimal` is what `%d` writes for a natural number, `readDigits` the digit loop of
`strtol` and `strtoul` without the overflow check of their callers. Reading what was
written gives the number back, up to the first byte that is no digit.
-/

namespace Rcom.Lib.Decimal

/-- The value of an ASCII character as a digit, if it is one in the given base. -/
def digitOf (base : ℕ) (c : UInt8) : Option ℕ :=
  let n := c.toNat
  let d :=
    if 48 ≤ n ∧ n ≤ 57 then some (n - 48)
    else if 97 ≤ n ∧ n ≤ 122 then some (n - 87)
    else if 65 ≤ n ∧ n ≤ 90 then some (n - 55)
    else none
  d.filter (· < base)

def readDigits (base acc : ℕ) : List UInt8 → ℕ × List UInt8
  | [] => (acc, [])
  | c :: cs =>
    match digitOf base c with
    | some d => readDigits base (acc * base + d) cs
    | none => (acc, c :: cs)

def digitChar (d : ℕ) : UInt8 := UInt8.ofNat (48 + d)

def decimal (n : ℕ) : List UInt8 :=
  if n = 0 then [48] else (Nat.digits 10 n).reverse.map digitChar

def Stops (base : ℕ) (cs : List UInt8) : Prop := ∀ c ∈ cs.head?, digitOf base c = none

theorem digitOf_digitChar {d : ℕ} (h : d < 10) : digitOf 10 (digitChar d) = some d := by
  interval_cases d <;> decide

theorem readDigits_stop {base : ℕ} {cs : List UInt8} (h : Stops base cs) (acc : ℕ) :
    readDigits base acc cs = (acc, cs) := by
  cases cs with
  | nil => rfl
  | cons c cs =>
    have hc : digitOf base c = none := h c rfl
    simp [readDigits, hc]

/-- Digits are read back in every base in which `f` writes them. -/
theorem readDigits_digits {base : ℕ} {f : ℕ → UInt8}
    (hf : ∀ d, d < base → digitOf base (f d) = some d) {ds : List ℕ} (hds : ∀ d ∈ ds, d < base)
    {rest : List UInt8} (hrest : Stops base rest) (acc : ℕ) :
    readDigits base acc (ds.map f ++ rest) =
      (acc * base ^ ds.length + Nat.ofDigits base ds.reverse, rest) := by
  induction ds generalizing acc with
  | nil => simpa using readDigits_stop hrest acc
  | cons d ds ih =>
    have hd := hf d (hds d (by simp))
    simp only [List.map_cons, List.cons_append, readDigits, hd,
      ih (fun e he => hds e (by simp [he])), List.reverse_cons, Nat.ofDigits_append,
      List.length_reverse, List.length_cons, Nat.ofDigits_singleton, Prod.mk.injEq, and_true]
    ring

theorem readDigits_map {ds : List ℕ} (hds : ∀ d ∈ ds, d < 10) {rest : List UInt8}
    (hrest : Stops 10 rest) (acc : ℕ) :
    readDigits 10 acc (ds.map digitChar ++ rest) =
      (acc * 10 ^ ds.length + Nat.ofDigits 10 ds.reverse, rest) :=
  readDigits_digits (fun _ hd => digitOf_digitChar hd) hds hrest acc

/-- The digits of a nonzero number, most significant first, start with a nonzero digit. -/
theorem decimal_pos {n : ℕ} (hn : n ≠ 0) :
    ∃ d ds, d ≠ 0 ∧ (∀ e ∈ d :: ds, e < 10) ∧ decimal n = (d :: ds).map digitChar ∧
      Nat.ofDigits 10 (d :: ds).reverse = n := by
  have hne : Nat.digits 10 n ≠ [] := Nat.digits_ne_nil_iff_ne_zero.2 hn
  obtain ⟨d, ds, hds⟩ := List.exists_cons_of_ne_nil (List.reverse_ne_nil_iff.2 hne)
  refine ⟨d, ds, ?_, ?_, by simp [decimal, hn, hds], ?_⟩
  · have hl := Nat.getLast_digit_ne_zero 10 hn
    have hh : (Nat.digits 10 n).getLast hne = d := by
      have := List.head_reverse (List.reverse_ne_nil_iff.2 hne)
      simpa [hds] using this.symm
    rwa [hh] at hl
  · intro e he
    rw [← hds, List.mem_reverse] at he
    exact Nat.digits_lt_base (by omega) he
  · rw [← hds, List.reverse_reverse, Nat.ofDigits_digits]

theorem readDigits_decimal (n : ℕ) {rest : List UInt8} (hrest : Stops 10 rest) :
    readDigits 10 0 (decimal n ++ rest) = (n, rest) := by
  by_cases hn : n = 0
  · subst hn
    have h := @readDigits_map [0] (by simp) rest hrest 0
    simpa [decimal, digitChar] using h
  · obtain ⟨d, ds, -, hlt, hdec, hval⟩ := decimal_pos hn
    rw [hdec, readDigits_map hlt hrest, hval]
    simp

theorem decimal_ne_nil (n : ℕ) : decimal n ≠ [] := by
  by_cases hn : n = 0
  · simp [decimal, hn]
  · obtain ⟨d, ds, -, -, hdec, -⟩ := decimal_pos hn
    simp [hdec]

theorem mem_decimal {n : ℕ} {c : UInt8} (hc : c ∈ decimal n) : 48 ≤ c.toNat ∧ c.toNat ≤ 57 := by
  by_cases hn : n = 0
  · simp only [decimal, hn, if_true, List.mem_singleton] at hc
    subst hc
    decide
  · obtain ⟨d, ds, -, hlt, hdec, -⟩ := decimal_pos hn
    rw [hdec, List.mem_map] at hc
    obtain ⟨e, he, rfl⟩ := hc
    have := hlt e he
    interval_cases e <;> decide

theorem decimal_length {n k : ℕ} (hk : 0 < k) (h : n < 10 ^ k) : (decimal n).length ≤ k := by
  by_cases hn : n = 0
  · simp [decimal, hn]
    omega
  · simp only [decimal, hn, if_false, List.length_map, List.length_reverse]
    exact (Nat.digits_length_le_iff (by omega) n).2 h

end Rcom.Lib.Decimal
