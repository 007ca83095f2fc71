import Mathlib.Data.List.Basic

/-!
# Lists with a window replaced

`splice l pos new` is a list after `new` has been stored in it from position `pos` on. What lies
before and after the window stays.
-/

namespace Rcom.Lib

variable {α : Type*} {l new : List α} {pos n : ℕ}

def splice (l : List α) (pos : ℕ) (new : List α) : List α :=
  l.take pos ++ new ++ l.drop (pos + new.length)

theorem splice_length (h : pos + new.length ≤ l.length) : (splice l pos new).length = l.length := by
  simp only [splice, List.length_append, List.length_take, List.length_drop]
  omega

theorem splice_zero (l new : List α) : splice l 0 new = new ++ l.drop new.length := by
  simp [splice]

theorem take_splice (hpos : pos ≤ l.length) (hn : n ≤ pos) : (splice l pos new).take n = l.take n := by
  have hlen : n ≤ (l.take pos).length := by
    rw [List.length_take]
    omega
  rw [splice, List.append_assoc, List.take_append_of_le_length hlen, List.take_take, Nat.min_eq_left hn]

theorem take_splice_end (new : List α) (hpos : pos ≤ l.length) :
    (splice l pos new).take (pos + new.length) = l.take pos ++ new := by
  have hlen : (l.take pos ++ new).length = pos + new.length := by
    rw [List.length_append, List.length_take]
    omega
  rw [splice, ← hlen, List.take_left]

theorem drop_splice_start (new : List α) (hpos : pos ≤ l.length) :
    (splice l pos new).drop pos = new ++ l.drop (pos + new.length) := by
  have hlen : (l.take pos).length = pos := by
    rw [List.length_take]
    omega
  have hleft : (l.take pos ++ (new ++ l.drop (pos + new.length))).drop (l.take pos).length =
      new ++ l.drop (pos + new.length) := List.drop_left
  rw [hlen] at hleft
  rw [splice, List.append_assoc, hleft]

theorem drop_splice (hpos : pos ≤ l.length) (hn : pos + new.length ≤ n) :
    (splice l pos new).drop n = l.drop n := by
  obtain ⟨k, rfl⟩ := Nat.exists_eq_add_of_le hn
  rw [Nat.add_assoc, ← List.drop_drop, drop_splice_start new hpos, ← List.drop_drop, List.drop_left,
    List.drop_drop, Nat.add_assoc]

theorem window_splice {m : ℕ} (hpos : pos ≤ l.length) (hn : n + m ≤ pos ∨ pos + new.length ≤ n) :
    ((splice l pos new).drop n).take m = (l.drop n).take m := by
  rcases hn with hn | hn
  · rw [List.take_drop, List.take_drop, take_splice hpos (by omega)]
  · rw [drop_splice hpos hn]

end Rcom.Lib
