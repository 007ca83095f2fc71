import Mathlib.Data.List.Basic
import Mathlib.Data.Nat.Basic

/-!
# Absorbing a stream in blocks

A function on states and blocks of `n` elements is run over a stream. An absorber keeps the
elements that do not fill a block yet; what it makes of a stream does not depend on how the
stream is cut.
-/

namespace Rcom.Lib

def blocks {α : Type*} (n : ℕ) (xs : List α) : List (List α) :=
  (List.range (xs.length / n)).map fun i => (xs.drop (n * i)).take n

theorem blocks_short {α : Type*} {n : ℕ} {xs : List α} (h : xs.length < n) : blocks n xs = [] := by
  rw [blocks, Nat.div_eq_of_lt h, List.range_zero, List.map_nil]

theorem blocks_cons {α : Type*} {n : ℕ} {b : List α} (hn : 0 < n) (hb : b.length = n) (xs : List α) :
    blocks n (b ++ xs) = b :: blocks n xs := by
  have hlen : (b ++ xs).length / n = xs.length / n + 1 := by
    rw [List.length_append, hb, Nat.add_comm, Nat.add_div_right _ hn]
  rw [blocks, hlen, List.range_succ_eq_map, List.map_cons, List.map_map]
  congr 1
  · rw [Nat.mul_zero, List.drop_zero, List.take_append_of_le_length (le_of_eq hb.symm),
      List.take_of_length_le (le_of_eq hb)]
  · apply List.map_congr_left
    intro i _
    have hdrop : (b ++ xs).drop (n * (i + 1)) = xs.drop (n * i) := by
      rw [Nat.mul_succ, Nat.add_comm (n * i), ← hb, ← List.drop_drop, List.drop_left]
    rw [Function.comp_apply, Nat.succ_eq_add_one, hdrop]

/-- A state, and the elements that wait for their block to be full. -/
structure Absorber (σ α : Type*) (n : ℕ) where
  state : σ
  rest : List α
  short : rest.length < n

namespace Absorber

variable {σ α : Type*} {n : ℕ} (f : σ → List α → σ)

def put (a : Absorber σ α n) (x : α) : Absorber σ α n :=
  if h : a.rest.length + 1 < n then ⟨a.state, a.rest ++ [x], by simpa using h⟩
  else ⟨f a.state (a.rest ++ [x]), [], Nat.lt_of_le_of_lt (Nat.zero_le _) a.short⟩

def absorb (a : Absorber σ α n) (xs : List α) : Absorber σ α n := xs.foldl (put f) a

@[simp] theorem absorb_nil (a : Absorber σ α n) : a.absorb f [] = a := rfl

theorem absorb_append (a : Absorber σ α n) (xs ys : List α) :
    a.absorb f (xs ++ ys) = (a.absorb f xs).absorb f ys :=
  List.foldl_append

theorem absorb_short (a : Absorber σ α n) (xs : List α) (h : (a.rest ++ xs).length < n) :
    a.absorb f xs = ⟨a.state, a.rest ++ xs, h⟩ := by
  induction xs generalizing a with
  | nil => simp [absorb_nil]
  | cons x xs ih =>
    have hx : a.rest.length + 1 < n := by
      rw [List.length_append, List.length_cons] at h
      omega
    have hput : a.put f x = ⟨a.state, a.rest ++ [x], by simpa using hx⟩ := dif_pos hx
    rw [absorb, List.foldl_cons, hput, ← absorb, ih _ (by simpa using h)]
    simp only [List.append_assoc, List.singleton_append]

theorem absorb_block (a : Absorber σ α n) (xs : List α) (h : (a.rest ++ xs).length = n) :
    a.absorb f xs = ⟨f a.state (a.rest ++ xs), [], Nat.lt_of_le_of_lt (Nat.zero_le _) a.short⟩ := by
  induction xs generalizing a with
  | nil =>
    rw [List.append_nil] at h
    exact absurd a.short (by omega)
  | cons x xs ih =>
    rw [List.length_append, List.length_cons] at h
    rw [absorb, List.foldl_cons, ← absorb]
    cases xs with
    | nil =>
      rw [absorb_nil, put, dif_neg (by simp at h; omega)]
    | cons y ys =>
      have hx : a.rest.length + 1 < n := by
        rw [List.length_cons] at h
        omega
      have hput : a.put f x = ⟨a.state, a.rest ++ [x], by simpa using hx⟩ := dif_pos hx
      have hlen : (a.rest ++ [x] ++ y :: ys).length = n := by
        rw [List.length_append, List.length_append, List.length_singleton]
        omega
      rw [hput, ih _ hlen]
      simp only [List.append_assoc, List.singleton_append]

theorem absorb_eq_foldl (a : Absorber σ α n) (ha : a.rest = []) (bs : List (List α))
    (hbs : ∀ b ∈ bs, b.length = n) :
    a.absorb f bs.flatten = ⟨bs.foldl f a.state, [], Nat.lt_of_le_of_lt (Nat.zero_le _) a.short⟩ := by
  induction bs generalizing a with
  | nil =>
    obtain ⟨s, rest, short⟩ := a
    obtain rfl : rest = [] := ha
    rfl
  | cons b bs ih =>
    have hb : (a.rest ++ b).length = n := by simpa [ha] using hbs b (by simp)
    have hstate : f a.state (a.rest ++ b) = f a.state b := by rw [ha, List.nil_append]
    rw [List.flatten_cons, absorb_append, absorb_block f a b hb,
      ih _ rfl fun c hc => hbs c (List.mem_cons_of_mem _ hc), hstate]
    rfl

end Absorber

theorem flatten_blocks {α : Type*} {n : ℕ} (hn : 0 < n) (xs : List α) :
    (blocks n xs).flatten ++ xs.drop (n * (xs.length / n)) = xs := by
  induction hk : xs.length / n generalizing xs with
  | zero =>
    have hlt : xs.length < n := (Nat.div_eq_zero_iff.1 hk).resolve_left (by omega)
    rw [blocks_short hlt, Nat.mul_zero, List.drop_zero]
    rfl
  | succ k ih =>
    have hle : n ≤ xs.length := by
      by_contra hlt
      rw [Nat.div_eq_of_lt (by omega)] at hk
      omega
    have htake : (xs.take n).length = n := List.length_take_of_le hle
    have hdrop : (xs.drop n).length / n = k := by
      have h := Nat.add_div_right (xs.length - n) hn
      rw [Nat.sub_add_cancel hle, hk] at h
      rw [List.length_drop]
      omega
    have hrest : xs.drop (n * (k + 1)) = (xs.drop n).drop (n * k) := by
      rw [List.drop_drop, Nat.mul_succ, Nat.add_comm]
    have hxs : blocks n xs = xs.take n :: blocks n (xs.drop n) := by
      rw [← blocks_cons hn htake, List.take_append_drop]
    rw [hxs, List.flatten_cons, List.append_assoc, hrest, ih _ hdrop, List.take_append_drop]

theorem length_of_mem_blocks {α : Type*} {n : ℕ} (hn : 0 < n) {xs b : List α} (hb : b ∈ blocks n xs) :
    b.length = n := by
  obtain ⟨i, hi, rfl⟩ := List.mem_map.1 hb
  rw [List.mem_range] at hi
  have hle : n * (i + 1) ≤ xs.length :=
    Nat.le_trans (Nat.mul_le_mul_left n hi) (Nat.mul_div_le xs.length n)
  rw [Nat.mul_succ] at hle
  rw [List.length_take, List.length_drop]
  omega

theorem Absorber.absorb_whole {σ α : Type*} {n : ℕ} (f : σ → List α → σ) (a : Absorber σ α n)
    (ha : a.rest = []) (xs : List α) (h : n ∣ xs.length) :
    (a.absorb f xs).state = (blocks n xs).foldl f a.state := by
  have hn : 0 < n := Nat.lt_of_le_of_lt (Nat.zero_le _) a.short
  have hxs := flatten_blocks hn xs
  rw [Nat.mul_div_cancel' h, List.drop_length, List.append_nil] at hxs
  conv_lhs => rw [← hxs]
  rw [absorb_eq_foldl f a ha _ fun b hb => length_of_mem_blocks hn hb]

end Rcom.Lib
