import Rcom.Lib.Bytes
import Rcom.Lib.Decimal

/-!
# Percent coding

A coded text is cut into pieces from the left: a byte that stands for itself, or a percent sign
with two hexadecimal digits in upper or lower case.
-/

namespace Rcom.Lib.Percent
open Decimal

def IsHex (c : UInt8) : Prop := (digitOf 16 c).isSome

instance (c : UInt8) : Decidable (IsHex c) := inferInstanceAs (Decidable (_ = true))

def hexValue (c : UInt8) : ℕ := (digitOf 16 c).getD 0

inductive Piece where
  | plain (c : UInt8) (hc : c ≠ 37)
  | triple (a b : UInt8) (ha : IsHex a) (hb : IsHex b)

def Piece.text : Piece → Bytes
  | plain c _ => [c]
  | triple a b _ _ => [37, a, b]

def Piece.byte : Piece → UInt8
  | plain c _ => c
  | triple a b _ _ => UInt8.ofNat (16 * hexValue a + hexValue b)

def text (ps : List Piece) : Bytes := ps.flatMap Piece.text

def bytes (ps : List Piece) : Bytes := ps.map Piece.byte

inductive Met (t : Bytes) : ℕ → Prop
  | start : Met t 0
  | plain {i : ℕ} {c : UInt8} (h : Met t i) (hi : t[i]? = some c) (hc : c ≠ 37) : Met t (i + 1)
  | triple {i : ℕ} (h : Met t i) (hi : t[i]? = some 37) : Met t (i + 3)

def IsTriple (t : Bytes) (i : ℕ) : Prop :=
  ∃ a b, t[i + 1]? = some a ∧ t[i + 2]? = some b ∧ IsHex a ∧ IsHex b

/-- Every percent sign that the scanner comes to has its two digits. -/
def WellFormed (t : Bytes) : Prop := ∀ i, Met t i → t[i]? = some 37 → IsTriple t i

/-- What stands after a percent sign does not start with two digits. -/
def Broken (rest : Bytes) : Prop := ∀ a b cs, rest = a :: b :: cs → ¬ (IsHex a ∧ IsHex b)

section
variable {t rest : Bytes} {p : Piece} {ps : List Piece} {i : ℕ}

@[simp] theorem text_nil : text [] = [] := rfl

@[simp] theorem text_cons : text (p :: ps) = p.text ++ text ps := List.flatMap_cons

@[simp] theorem bytes_cons : bytes (p :: ps) = p.byte :: bytes ps := rfl

theorem getElem?_after (t : Bytes) (p : Piece) (i : ℕ) : (p.text ++ t)[p.text.length + i]? = t[i]? := by
  rw [List.getElem?_append_right (Nat.le_add_right _ _), Nat.add_sub_cancel_left]

theorem Met.after (h : Met t i) : Met (p.text ++ t) (p.text.length + i) := by
  induction h with
  | start =>
    cases p with
    | plain c hc => exact .plain .start rfl hc
    | triple a b ha hb => exact .triple .start rfl
  | plain h hi hc ih => exact .plain ih ((getElem?_after t p _).trans hi) hc
  | triple h hi ih => exact .triple ih ((getElem?_after t p _).trans hi)

theorem Met.cases_after (h : Met (p.text ++ t) i) : i = 0 ∨ ∃ j, i = p.text.length + j ∧ Met t j := by
  induction h with
  | start => exact .inl rfl
  | @plain i c h hi hc ih =>
    right
    obtain rfl | ⟨j, rfl, hj⟩ := ih
    · cases p with
      | plain c' hc' => exact ⟨0, rfl, .start⟩
      | triple a b ha hb => exact absurd (Option.some.inj hi).symm hc
    · rw [getElem?_after] at hi
      exact ⟨j + 1, rfl, .plain hj hi hc⟩
  | @triple i h hi ih =>
    right
    obtain rfl | ⟨j, rfl, hj⟩ := ih
    · cases p with
      | plain c' hc' => exact absurd (Option.some.inj hi) hc'
      | triple a b ha hb => exact ⟨0, rfl, .start⟩
    · rw [getElem?_after] at hi
      exact ⟨j + 3, rfl, .triple hj hi⟩

theorem isTriple_after : IsTriple (p.text ++ t) (p.text.length + i) ↔ IsTriple t i := by
  rw [IsTriple, IsTriple, Nat.add_assoc, Nat.add_assoc, getElem?_after, getElem?_after]

theorem wellFormed_after : WellFormed (p.text ++ t) ↔ WellFormed t := by
  constructor
  · intro h i hi hpercent
    exact isTriple_after.1 (h _ hi.after ((getElem?_after t p i).trans hpercent))
  · intro h i hi hpercent
    obtain rfl | ⟨j, rfl, hj⟩ := hi.cases_after
    · cases p with
      | plain c hc => exact absurd (Option.some.inj hpercent) hc
      | triple a b ha hb => exact ⟨a, b, rfl, rfl, ha, hb⟩
    · rw [getElem?_after] at hpercent
      exact isTriple_after.2 (h j hj hpercent)

theorem wellFormed_text_append (ps : List Piece) (t : Bytes) : WellFormed (text ps ++ t) ↔ WellFormed t := by
  induction ps with
  | nil => rfl
  | cons p ps ih => rw [text_cons, List.append_assoc, wellFormed_after, ih]

theorem wellFormed_text (ps : List Piece) : WellFormed (text ps) := by
  rw [← List.append_nil (text ps), wellFormed_text_append]
  intro i _ hpercent
  cases hpercent

theorem not_wellFormed_of_broken (h : Broken rest) : ¬ WellFormed (37 :: rest) := by
  intro hall
  obtain ⟨a, b, ha, hb, hhex⟩ := hall 0 .start rfl
  obtain ⟨c, rest, rfl⟩ := List.exists_cons_of_ne_nil (l := rest) (by rintro rfl; cases ha)
  obtain ⟨d, rest, rfl⟩ := List.exists_cons_of_ne_nil (l := rest) (by rintro rfl; cases hb)
  cases ha
  cases hb
  exact h _ _ rest rfl hhex

/-- Pieces up to the end, or up to a percent sign without its digits. -/
theorem pieces_or_broken (t : Bytes) :
    (∃ ps, t = text ps) ∨ ∃ ps rest, t = text ps ++ 37 :: rest ∧ Broken rest := by
  have hnext : ∀ (p : Piece) (t : Bytes), ((∃ ps, t = text ps) ∨ ∃ ps rest, t = text ps ++ 37 :: rest ∧ Broken rest) →
      (∃ ps, p.text ++ t = text ps) ∨ ∃ ps rest, p.text ++ t = text ps ++ 37 :: rest ∧ Broken rest := by
    rintro p t (⟨ps, rfl⟩ | ⟨ps, rest, rfl, hrest⟩)
    · exact .inl ⟨p :: ps, rfl⟩
    · exact .inr ⟨p :: ps, rest, by rw [text_cons, List.append_assoc], hrest⟩
  induction hn : t.length using Nat.strong_induction_on generalizing t with
  | _ n ih =>
    subst hn
    match t, ih with
    | [], _ => exact .inl ⟨[], rfl⟩
    | c :: t, ih =>
      by_cases hc : c = 37
      · subst hc
        by_cases hbroken : Broken t
        · exact .inr ⟨[], t, rfl, hbroken⟩
        · simp only [Broken, not_forall, not_not] at hbroken
          obtain ⟨a, b, t, rfl, ha, hb⟩ := hbroken
          exact hnext (.triple a b ha hb) t (ih _ (by simp only [List.length_cons]; omega) t rfl)
      · exact hnext (.plain c hc) t (ih _ (Nat.lt_succ_self _) t rfl)

end

end Rcom.Lib.Percent
