import Mathlib.Data.List.Forall2

/-!
# One order of what several threads do

A list of things, each with the number of the thread it belongs to. If the things of every thread
are related one by one to those of another family of lists, these have a common order too.
-/

namespace Rcom.Lib.Merge

variable {α β : Type*}

def byThread (i : ℕ) (xs : List (ℕ × α)) : List α := (xs.filter fun x => x.1 = i).map Prod.snd

@[simp] theorem byThread_nil (i : ℕ) : byThread i ([] : List (ℕ × α)) = [] := rfl

theorem byThread_self (i : ℕ) (x : α) (xs : List (ℕ × α)) : byThread i ((i, x) :: xs) = x :: byThread i xs := by
  simp [byThread]

theorem byThread_ne {i j : ℕ} (h : j ≠ i) (x : α) (xs : List (ℕ × α)) :
    byThread i ((j, x) :: xs) = byThread i xs := by
  simp [byThread, h]

theorem mem_byThread {x : ℕ × α} {xs : List (ℕ × α)} (h : x ∈ xs) : x.2 ∈ byThread x.1 xs :=
  List.mem_map_of_mem (List.mem_filter.2 ⟨h, decide_eq_true rfl⟩)

/-- The lists of the threads, as one list in the order of the other one. -/
theorem exists_order {R : α → β → Prop} (ys : List (ℕ × β)) (xs : ℕ → List α)
    (h : ∀ i, List.Forall₂ R (xs i) (byThread i ys)) :
    ∃ order : List (ℕ × α), (∀ i, byThread i order = xs i) ∧
      List.Forall₂ (fun x y => x.1 = y.1 ∧ R x.2 y.2) order ys := by
  induction ys generalizing xs with
  | nil =>
    refine ⟨[], fun i => ?_, .nil⟩
    exact (List.forall₂_nil_right_iff.1 (h i)).symm
  | cons y ys ih =>
    obtain ⟨i, y⟩ := y
    have hi := h i
    rw [byThread_self, List.forall₂_cons_right_iff] at hi
    obtain ⟨x, rest, hxy, hrest, hxs⟩ := hi
    obtain ⟨order, horder, hrel⟩ := ih (Function.update xs i rest) fun j => by
      by_cases hj : j = i
      · rw [hj, Function.update_self]
        exact hrest
      · rw [Function.update_of_ne hj, ← byThread_ne (Ne.symm hj) y ys]
        exact h j
    refine ⟨(i, x) :: order, fun j => ?_, .cons ⟨rfl, hxy⟩ hrel⟩
    by_cases hj : j = i
    · rw [hj, byThread_self, horder, Function.update_self, hxs]
    · rw [byThread_ne (Ne.symm hj), horder, Function.update_of_ne hj]

end Rcom.Lib.Merge
