import Mathlib.Data.List.Basic

/-!
# Queues in a ring of cells

A queue of at most `n` elements lies in `n` cells from some position on, and goes on in the
first cell after the last one. Positions go from `0` to `n`: the position behind the last cell
is the first cell once more.
-/

namespace Rcom.Lib.Ring

variable {α : Type*} {cells q b : List α} {n p w i k : ℕ}

/-- The position `i` cells behind `p`. It stays behind the last cell as long as it can. -/
def pos (n p i : ℕ) : ℕ := if p + i ≤ n then p + i else p + i - n

/-- The number of the `i`-th cell from `p` on. -/
def cell (n p i : ℕ) : ℕ := if p + i < n then p + i else p + i - n

theorem pos_le (hp : p ≤ n) (hi : i ≤ n) : pos n p i ≤ n := by
  unfold pos
  split <;> omega

theorem pos_pos (hp : p ≤ n) (hik : i + k ≤ n) : pos n (pos n p i) k = pos n p (i + k) := by
  unfold pos
  split_ifs <;> omega

theorem cell_pos (hp : p ≤ n) (hik : i + k < n) : cell n (pos n p i) k = cell n p (i + k) := by
  unfold cell pos
  split_ifs <;> omega

/-- From position `p` on, the cells hold `q`. -/
def Holds (cells : List α) (p : ℕ) (q : List α) : Prop :=
  q.length ≤ cells.length ∧ ∀ i < q.length, cells[cell cells.length p i]? = q[i]?

theorem holds_nil (cells : List α) (p : ℕ) : Holds cells p [] :=
  ⟨Nat.zero_le _, fun _ hi => absurd hi (Nat.not_lt_zero _)⟩

theorem Holds.drop (h : Holds cells p q) (hp : p ≤ cells.length) (hk : k ≤ q.length) :
    Holds cells (pos cells.length p k) (q.drop k) := by
  obtain ⟨hlen, hcell⟩ := h
  refine ⟨by rw [List.length_drop]; omega, fun i hi => ?_⟩
  rw [List.length_drop] at hi
  rw [cell_pos hp (by omega), hcell _ (by omega), List.getElem?_drop]

/-! ## Reading -/

theorem Holds.take_drop (h : Holds cells p q) (hk : k ≤ q.length)
    (hin : p + k ≤ cells.length) : (cells.drop p).take k = q.take k := by
  apply List.ext_getElem?
  intro i
  by_cases hi : i < k
  · have hcell := h.2 i (by omega)
    rw [cell, if_pos (by omega)] at hcell
    rw [List.getElem?_take_of_lt hi, List.getElem?_take_of_lt hi, List.getElem?_drop, hcell]
  · rw [List.getElem?_take_eq_none (by omega), List.getElem?_take_eq_none (by omega)]

/-- A read of `k` elements copies up to the end of the cells and then from their beginning. -/
theorem Holds.drop_append_take (h : Holds cells p q) (hp : p ≤ cells.length) (hk : k ≤ q.length)
    (hend : cells.length < p + k) :
    cells.drop p ++ cells.take (p + k - cells.length) = q.take k := by
  have hlen := h.1
  have hsplit : q.take k = q.take (cells.length - p) ++
      (q.drop (cells.length - p)).take (p + k - cells.length) := by
    rw [← List.take_add]
    congr 1
    omega
  have hfront := h.take_drop (k := cells.length - p) (by omega) (by omega)
  rw [List.take_of_length_le (Nat.le_of_eq List.length_drop)] at hfront
  rw [hsplit, ← hfront]
  congr 1
  apply List.ext_getElem?
  intro i
  by_cases hi : i < p + k - cells.length
  · have hcell := h.2 (cells.length - p + i) (by omega)
    rw [cell, if_neg (by omega)] at hcell
    rw [List.getElem?_take_of_lt hi, List.getElem?_take_of_lt hi, List.getElem?_drop, ← hcell]
    congr 1
    omega
  · rw [List.getElem?_take_eq_none (by omega), List.getElem?_take_eq_none (by omega)]

/-! ## Writing -/

/-- The cells from `p` on replaced by `b`. -/
def overwrite (cells : List α) (p : ℕ) (b : List α) : List α :=
  cells.take p ++ b ++ cells.drop (p + b.length)

@[simp] theorem length_overwrite (h : p + b.length ≤ cells.length) :
    (overwrite cells p b).length = cells.length := by
  simp only [overwrite, List.length_append, List.length_take, List.length_drop]
  omega

@[simp] theorem overwrite_nil (cells : List α) (p : ℕ) : overwrite cells p [] = cells := by
  simp [overwrite]

theorem getElem?_overwrite (h : p + b.length ≤ cells.length) (i : ℕ) :
    (overwrite cells p b)[i]? = if p ≤ i ∧ i < p + b.length then b[i - p]? else cells[i]? := by
  have htake : (cells.take p).length = p := by rw [List.length_take]; omega
  rw [overwrite, List.append_assoc]
  by_cases hlow : i < p
  · rw [List.getElem?_append_left (by omega), List.getElem?_take_of_lt hlow, if_neg (by omega)]
  · rw [List.getElem?_append_right (by omega), htake]
    by_cases hmid : i < p + b.length
    · rw [List.getElem?_append_left (by omega), if_pos ⟨by omega, hmid⟩]
    · rw [List.getElem?_append_right (by omega), List.getElem?_drop, if_neg (by omega)]
      congr 1
      omega

/-- A write copies up to the end of the cells and then from their beginning. -/
def put (cells : List α) (w : ℕ) (b : List α) : List α :=
  overwrite (overwrite cells w (b.take (cells.length - w))) 0 (b.drop (cells.length - w))

theorem put_of_le (h : w + b.length ≤ cells.length) : put cells w b = overwrite cells w b := by
  rw [put, List.take_of_length_le (by omega), List.drop_of_length_le (by omega), overwrite_nil]

theorem length_put (hw : w ≤ cells.length) (hb : b.length ≤ cells.length) :
    (put cells w b).length = cells.length := by
  have hfirst : (overwrite cells w (b.take (cells.length - w))).length = cells.length :=
    length_overwrite (by rw [List.length_take]; omega)
  rw [put, length_overwrite (by rw [hfirst, List.length_drop]; omega), hfirst]

theorem getElem?_put (hw : w ≤ cells.length) (hb : b.length ≤ cells.length)
    (hi : i < cells.length) :
    (put cells w b)[cell cells.length w i]? =
      if i < b.length then b[i]? else cells[cell cells.length w i]? := by
  have hfirst : (overwrite cells w (b.take (cells.length - w))).length = cells.length :=
    length_overwrite (by rw [List.length_take]; omega)
  rw [put, getElem?_overwrite (by rw [hfirst, List.length_drop]; omega),
    getElem?_overwrite (by rw [List.length_take]; omega), List.length_drop, List.length_take]
  unfold cell
  split_ifs with hend hback hfront hfront' hin hin <;> try omega
  · rw [List.getElem?_take_of_lt (by omega)]
    congr 1
    omega
  · rfl
  · rw [List.getElem?_drop]
    congr 1
    omega
  · rfl

theorem Holds.put (h : Holds cells p q) (hp : p ≤ cells.length)
    (hb : q.length + b.length ≤ cells.length) :
    Holds (put cells (pos cells.length p q.length) b) p (q ++ b) := by
  have hw : pos cells.length p q.length ≤ cells.length := pos_le hp (by omega)
  have hlen := length_put hw (b := b) (by omega)
  refine ⟨by rw [hlen, List.length_append]; exact hb, fun i hi => ?_⟩
  rw [List.length_append] at hi
  rw [hlen]
  by_cases hin : i < q.length
  · -- the cell is behind those written, counted from there
    obtain ⟨j, hj, hjb, hcell⟩ : ∃ j < cells.length, b.length ≤ j ∧
        cell cells.length (pos cells.length p q.length) j = cell cells.length p i := by
      refine ⟨cells.length - q.length + i, by omega, by omega, ?_⟩
      unfold cell pos
      split_ifs <;> omega
    rw [← hcell, getElem?_put hw (by omega) hj, if_neg (by omega), hcell, h.2 i hin,
      List.getElem?_append_left hin]
  · obtain ⟨j, rfl⟩ : ∃ j, i = q.length + j := ⟨i - q.length, by omega⟩
    rw [← cell_pos hp (by omega), getElem?_put hw (by omega) (by omega), if_pos (by omega),
      List.getElem?_append_right (by omega), Nat.add_sub_cancel_left]

end Rcom.Lib.Ring
