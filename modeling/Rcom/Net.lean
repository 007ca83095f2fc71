import Rcom.Lib.Bytes
import Mathlib.Data.List.TakeWhile

/-!
# Reading from a socket (net.c)

A socket is the list of what `recv` will find: bytes that arrive together, a
timeout (EAGAIN) or an error; the end of the list is the orderly shutdown by the
peer. One `recv` returns no more than what arrived together, so every cutting of
a byte stream into positive parts is one such list.
-/

namespace Rcom

open Lib

inductive Arrival where
  | bytes (b : UInt8) (bs : Bytes)
  | timeout
  | error
deriving DecidableEq, Repr

abbrev Socket := List Arrival

namespace Socket

def push : Bytes → Socket → Socket
  | [], s => s
  | b :: bs, s => .bytes b bs :: s

/-- The bytes that can be read before the first timeout, error or shutdown. -/
def arrived : Socket → Bytes
  | .bytes b bs :: s => b :: bs ++ arrived s
  | _ => []

/-- The socket after `n` of the arrived bytes have been read. -/
def skip (n : ℕ) : Socket → Socket
  | .bytes b bs :: s =>
    if n < bs.length + 1 then push ((b :: bs).drop n) s else skip (n - (bs.length + 1)) s
  | s => s

def weight : Socket → ℕ
  | [] => 0
  | .bytes _ bs :: s => bs.length + 2 + weight s
  | .timeout :: s => weight s + 1
  | .error :: s => weight s + 1

theorem arrived_push (bs : Bytes) (s : Socket) : (push bs s).arrived = bs ++ s.arrived := by
  cases bs with
  | nil => rfl
  | cons b bs => rfl

theorem weight_push_le (bs : Bytes) (s : Socket) : (push bs s).weight ≤ bs.length + 1 + s.weight := by
  cases bs with
  | nil => simp [push]
  | cons b bs => simp only [push, weight, List.length_cons]; omega

@[simp] theorem skip_zero (s : Socket) : s.skip 0 = s := by
  cases s with
  | nil => rfl
  | cons a s => cases a <;> rfl

theorem skip_push {n : ℕ} {bs : Bytes} (hn : n ≤ bs.length) (s : Socket) :
    (push bs s).skip n = push (bs.drop n) s := by
  cases bs with
  | nil =>
    rw [Nat.le_zero.1 hn]
    exact skip_zero _
  | cons b bs =>
    simp only [push, skip, List.length_cons] at hn ⊢
    split
    · rfl
    · have hend : n = bs.length + 1 := by omega
      rw [hend, Nat.sub_self, skip_zero, List.drop_of_length_le (by simp)]

theorem arrived_skip {n : ℕ} {s : Socket} (hn : n ≤ s.arrived.length) :
    (s.skip n).arrived = s.arrived.drop n := by
  induction s generalizing n with
  | nil => simp [skip, arrived]
  | cons a s ih =>
    cases a with
    | timeout => simp [skip, arrived]
    | error => simp [skip, arrived]
    | bytes b bs =>
      simp only [skip, arrived, List.length_append, List.length_cons] at hn ⊢
      split
      · rw [arrived_push, List.drop_append_of_le_length (by rw [List.length_cons]; omega)]
      · rw [ih (by omega), List.drop_append,
          List.drop_of_length_le (l := b :: bs) (by rw [List.length_cons]; omega),
          List.nil_append, List.length_cons]

theorem skip_add {m n : ℕ} {s : Socket} (h : m + n ≤ s.arrived.length) :
    s.skip (m + n) = (s.skip m).skip n := by
  induction s generalizing m with
  | nil => rfl
  | cons a s ih =>
    cases a with
    | timeout => rfl
    | error => rfl
    | bytes b bs =>
      simp only [arrived, List.length_append, List.length_cons] at h
      by_cases hm : m < bs.length + 1
      · have hskip : Socket.skip m (.bytes b bs :: s) = push ((b :: bs).drop m) s := if_pos hm
        rw [hskip]
        by_cases hmn : m + n < bs.length + 1
        · rw [skip_push (by simp; omega), List.drop_drop]
          exact if_pos hmn
        · obtain ⟨c, cs, hc⟩ := List.exists_cons_of_ne_nil
            (l := (b :: bs).drop m) (by simp; omega)
          have hlen : cs.length + 1 = bs.length + 1 - m := by
            rw [← List.length_cons (a := c), ← hc, List.length_drop, List.length_cons]
          have hleft : Socket.skip (m + n) (.bytes b bs :: s) = skip (m + n - (bs.length + 1)) s :=
            if_neg hmn
          have hright : Socket.skip n (.bytes c cs :: s) = skip (n - (cs.length + 1)) s :=
            if_neg (by omega)
          rw [hleft, hc, push, hright]
          congr 1
          omega
      · have hleft : Socket.skip (m + n) (.bytes b bs :: s) = skip (m + n - (bs.length + 1)) s :=
          if_neg (by omega)
        have hright : Socket.skip m (.bytes b bs :: s) = skip (m - (bs.length + 1)) s := if_neg hm
        have hsub : m + n - (bs.length + 1) = m - (bs.length + 1) + n := by omega
        rw [hleft, hright, hsub]
        exact ih (by omega)

end Socket

/-- The number received, 0 at a shutdown, -1 at an error and -2 at a timeout; what was
received; and the socket afterwards. -/
def tcpSocketRecv (socket : Socket) (len : ℕ) : ℤ × Bytes × Socket :=
  match socket with
  | [] => (0, [], [])
  | .timeout :: s => (-2, [], s)
  | .error :: s => (-1, [], s)
  | .bytes b bs :: s =>
    let data := (b :: bs).take len
    (data.length, data, Socket.push ((b :: bs).drop len) s)

theorem tcpSocketRecv_zero {socket : Socket} {len : ℕ} (hlen : 0 < len) :
    (tcpSocketRecv socket len).1 = 0 ↔ socket = [] := by
  cases socket with
  | nil => simp [tcpSocketRecv]
  | cons a s =>
    cases a with
    | timeout | error => simp [tcpSocketRecv]
    | bytes b bs =>
      simp only [tcpSocketRecv, List.length_take, List.length_cons, reduceCtorEq, iff_false]
      omega

theorem tcpSocketRecv_weight {socket : Socket} {len : ℕ} (hlen : 0 < len)
    (h : (tcpSocketRecv socket len).1 ≠ 0) :
    (tcpSocketRecv socket len).2.2.weight < socket.weight := by
  cases socket with
  | nil => exact absurd rfl h
  | cons a s =>
    cases a with
    | timeout => simp [tcpSocketRecv, Socket.weight]
    | error => simp [tcpSocketRecv, Socket.weight]
    | bytes b bs =>
      simp only [tcpSocketRecv, Socket.weight]
      have hpush := Socket.weight_push_le ((b :: bs).drop len) s
      rw [List.length_drop, List.length_cons] at hpush
      omega

/-- As long as bytes have arrived, `recv` returns a positive part of what was asked for. -/
theorem tcpSocketRecv_arrived {socket : Socket} {len : ℕ} (hlen : 0 < len)
    (h : socket.arrived ≠ []) :
    ∃ n, 0 < n ∧ n ≤ len ∧ n ≤ socket.arrived.length ∧
      tcpSocketRecv socket len = ((n : ℤ), socket.arrived.take n, socket.skip n) := by
  cases socket with
  | nil => exact absurd rfl h
  | cons a s =>
    cases a with
    | timeout => exact absurd rfl h
    | error => exact absurd rfl h
    | bytes b bs =>
      have harrived : min len (bs.length + 1) ≤ (Socket.arrived (.bytes b bs :: s)).length := by
        rw [Socket.arrived, List.length_append, List.length_cons]
        omega
      refine ⟨min len (bs.length + 1), by omega, by omega, harrived, ?_⟩
      have htake : (b :: bs ++ Socket.arrived s).take (min len (bs.length + 1)) = (b :: bs).take len := by
        rw [List.take_append_of_le_length (by rw [List.length_cons]; omega),
          ← List.length_cons (a := b), ← List.take_take, List.take_length]
      have hskip : Socket.skip (min len (bs.length + 1)) (.bytes b bs :: s) =
          Socket.push ((b :: bs).drop len) s := by
        have hle : min len (bs.length + 1) ≤ (b :: bs).length := by
          rw [List.length_cons]
          omega
        have hpush := Socket.skip_push hle s
        rw [Socket.push] at hpush
        rw [hpush]
        congr 1
        by_cases hlen' : len ≤ bs.length + 1
        · rw [Nat.min_eq_left hlen']
        · rw [List.drop_of_length_le (by simp; omega), List.drop_of_length_le (by simp; omega)]
      rw [Socket.arrived, htake, hskip]
      simp [tcpSocketRecv]

/-- Reads on until `len` bytes are there, past timeouts. -/
def tcpSocketRead (socket : Socket) (len : ℕ) (received : Bytes := []) : ℤ × Bytes × Socket :=
  if received.length < len then
    let r := tcpSocketRecv socket (len - received.length)
    if r.1 = -2 then tcpSocketRead r.2.2 len received
    else if r.1 < 0 then (-1, received, r.2.2)
    else if r.1 = 0 then (received.length, received, r.2.2)
    else tcpSocketRead r.2.2 len (received ++ r.2.1)
  else (received.length, received, socket)
termination_by socket.weight
decreasing_by
  all_goals
    have hr : r.1 ≠ 0 := by omega
    exact tcpSocketRecv_weight (by omega) hr

theorem tcpSocketRead_loop {socket : Socket} {len : ℕ} {received : Bytes}
    (hlen : received.length ≤ len) (h : len - received.length ≤ socket.arrived.length) :
    tcpSocketRead socket len received =
      ((len : ℤ), received ++ socket.arrived.take (len - received.length),
        socket.skip (len - received.length)) := by
  induction hk : len - received.length using Nat.strong_induction_on generalizing socket received with
  | _ k ih =>
    rw [tcpSocketRead]
    by_cases hlt : received.length < len
    · have hsome : socket.arrived ≠ [] := by
        intro hnil
        rw [hnil, List.length_nil] at h
        omega
      obtain ⟨n, hpos, hn, hle, hrecv⟩ := tcpSocketRecv_arrived (by omega : 0 < len - received.length) hsome
      have hreceived : (received ++ socket.arrived.take n).length = received.length + n := by
        rw [List.length_append, List.length_take]
        omega
      have hleft : len - (received ++ socket.arrived.take n).length ≤ (socket.skip n).arrived.length := by
        rw [hreceived, Socket.arrived_skip hle, List.length_drop]
        omega
      have hread := ih _ (by omega) (by omega) hleft rfl
      have hrest : len - (received ++ socket.arrived.take n).length = k - n := by omega
      have hk' : k = n + (k - n) := by omega
      rw [hrest, Socket.arrived_skip hle, ← Socket.skip_add (by omega), ← hk', List.append_assoc,
        ← List.take_add, ← hk'] at hread
      rw [if_pos hlt, hrecv]
      dsimp only
      rw [if_neg (by omega), if_neg (by omega), if_neg (by omega)]
      exact hread
    · have hzero : k = 0 := by omega
      have hall : received.length = len := by omega
      rw [if_neg hlt, hzero, hall]
      simp

theorem tcpSocketRead_arrived {socket : Socket} {len : ℕ} (h : len ≤ socket.arrived.length) :
    tcpSocketRead socket len = ((len : ℤ), socket.arrived.take len, socket.skip len) :=
  tcpSocketRead_loop (Nat.zero_le _) h

end Rcom
