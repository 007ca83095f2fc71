import Mathlib.Data.List.Basic

/-!
# Stream ciphers

Each element of a list is changed by a step that depends on a position, and the
position moves on by one. The result does not depend on how the list is cut into
blocks (`crypt_append`), and two passes undo each other when each step is its own
inverse (`crypt_crypt`).
-/

namespace Rcom.Lib.Keystream

variable {σ α : Type*} (next : σ → σ) (op : σ → α → α)

def crypt : σ → List α → List α
  | _, [] => []
  | j, a :: as => op j a :: crypt (next j) as

/-- The position after `n` elements. -/
def advance : σ → ℕ → σ
  | j, 0 => j
  | j, n + 1 => advance (next j) n

@[simp] theorem crypt_nil (j : σ) : crypt next op j [] = [] := rfl

@[simp] theorem length_crypt (j : σ) (l : List α) : (crypt next op j l).length = l.length := by
  induction l generalizing j with
  | nil => rfl
  | cons a l ih => simp only [crypt, List.length_cons, ih]

theorem crypt_append (j : σ) (l l' : List α) :
    crypt next op j (l ++ l') =
      crypt next op j l ++ crypt next op (advance next j l.length) l' := by
  induction l generalizing j with
  | nil => rfl
  | cons a l ih => simp only [List.cons_append, crypt, List.length_cons, advance, ih]

theorem crypt_crypt (hop : ∀ j a, op j (op j a) = a) (j : σ) (l : List α) :
    crypt next op j (crypt next op j l) = l := by
  induction l generalizing j with
  | nil => rfl
  | cons a l ih => simp only [crypt, hop, ih]

end Rcom.Lib.Keystream
