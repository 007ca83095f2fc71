import Rcom.Lib.Bytes
import Rcom.Lib.Decimal
import Mathlib.Data.Int.Basic

/-!
# The C library, as far as rcom uses it

Strings are the bytes before the terminating zero. `inetAton` follows the
numbers-and-dots notation with its one to four parts in octal, decimal or
hexadecimal, and like the C function it stops at white space and ignores the rest.
-/

namespace Rcom
open Rcom.Lib Rcom.Lib.Decimal

abbrev CStr := Bytes

/-- What executing some C code gives; `none` is undefined behaviour (a write outside an
array, a NULL dereference), after which nothing is said about the program. -/
abbrev Exec (α : Type*) := Option α

def intMax : ℤ := 2147483647

/-- The value of an `int` expression. -/
def int (x : ℤ) : Option ℤ := if -intMax - 1 ≤ x ∧ x ≤ intMax then some x else none

theorem int_eq_some {x : ℤ} (h0 : -intMax - 1 ≤ x) (h : x ≤ intMax) : int x = some x :=
  if_pos ⟨h0, h⟩

theorem int_eq_none {x : ℤ} (h : intMax < x) : int x = none :=
  if_neg fun hx => absurd hx.2 (not_le.2 h)

namespace Libc

def isspace (c : UInt8) : Bool := (9 ≤ c && c ≤ 13) || c = 32

def isdigit (c : UInt8) : Bool := 48 ≤ c && c ≤ 57

/-- `strtoul(s, &end, 0)` on a string that starts with a digit. -/
def strtoul (s : CStr) : ℕ × CStr :=
  match s with
  | 48 :: x :: cs =>
    if (x = 120 ∨ x = 88) ∧ (cs.head?.bind (digitOf 16)).isSome then readDigits 16 0 cs
    else readDigits 8 0 (48 :: x :: cs)
  | cs => readDigits 10 0 cs

def longMax : ℤ := 2 ^ 63 - 1

/-- `strtol(s, &end, 10)` with 64-bit `long`; `none` when there is nothing to convert. -/
def strtol (s : CStr) : Option (ℤ × CStr) :=
  let s := s.dropWhile isspace
  let neg := s.head? = some 45
  let s := if neg ∨ s.head? = some 43 then s.tail else s
  if (s.head?.bind (digitOf 10)).isSome then
    let (n, rest) := readDigits 10 0 s
    some (if neg then max (-n) (-longMax - 1) else min n longMax, rest)
  else none

/-- What `strtol` reads before it is brought into the range of a `long`. -/
def readNumber (s : CStr) : Option (ℤ × CStr) :=
  let s := s.dropWhile isspace
  let neg := s.head? = some 45
  let s := if neg ∨ s.head? = some 43 then s.tail else s
  if (s.head?.bind (digitOf 10)).isSome then
    let (n, rest) := readDigits 10 0 s
    some (if neg then -n else n, rest)
  else none

def longOf (n : ℤ) : ℤ := max (-longMax - 1) (min n longMax)

theorem strtol_eq (s : CStr) : strtol s = (readNumber s).map fun (n, rest) => (longOf n, rest) := by
  have hpos (n : ℕ) : longOf n = min (n : ℤ) longMax := by
    unfold longOf longMax
    omega
  have hneg (n : ℕ) : longOf (-n) = max (-(n : ℤ)) (-longMax - 1) := by
    unfold longOf longMax
    omega
  simp only [strtol, readNumber]
  split_ifs <;> simp [hpos, hneg]

theorem strtol_eq_some {p : CStr} {port : ℤ} :
    strtol p = some (port, []) ↔ ∃ n, readNumber p = some (n, []) ∧ port = longOf n := by
  rw [strtol_eq, Option.map_eq_some_iff]
  constructor
  · rintro ⟨⟨n, rest⟩, hn, heq⟩
    cases heq
    exact ⟨n, hn, rfl⟩
  · rintro ⟨n, hn, rfl⟩
    exact ⟨(n, []), hn, rfl⟩

structure Ip where
  a : UInt8
  b : UInt8
  c : UInt8
  d : UInt8
  deriving DecidableEq

/-- The last number of the notation fills the bytes that are left. -/
def fillIp : List UInt8 → ℕ → Option Ip
  | [], n =>
    if n ≤ 0xffffffff then
      some ⟨.ofNat (n / 2 ^ 24), .ofNat (n / 2 ^ 16), .ofNat (n / 2 ^ 8), .ofNat n⟩
    else none
  | [a], n =>
    if n ≤ 0xffffff then some ⟨a, .ofNat (n / 2 ^ 16), .ofNat (n / 2 ^ 8), .ofNat n⟩ else none
  | [a, b], n => if n ≤ 0xffff then some ⟨a, b, .ofNat (n / 2 ^ 8), .ofNat n⟩ else none
  | [a, b, c], n => if n ≤ 0xff then some ⟨a, b, c, .ofNat n⟩ else none
  | _, _ => none

def inetAtonFrom (parts : List UInt8) (dots : ℕ) (s : CStr) : Option Ip :=
  if (s.head?.map isdigit).getD false then
    match strtoul s with
    | (n, []) => fillIp parts n
    | (n, c :: rest) =>
      if c = 46 then
        match dots with
        | 0 => none
        | dots + 1 => if n ≤ 255 then inetAtonFrom (parts ++ [.ofNat n]) dots rest else none
      else if isspace c then fillIp parts n
      else none
  else none

def inetAton (s : CStr) : Option Ip := inetAtonFrom [] 3 s

def inetNtoa (ip : Ip) : CStr :=
  decimal ip.a.toNat ++ 46 :: (decimal ip.b.toNat ++ 46 :: (decimal ip.c.toNat ++
    46 :: decimal ip.d.toNat))

def EndsNumber (s : CStr) : Prop := ∀ c ∈ s.head?, digitOf 16 c = none ∧ c ≠ 120 ∧ c ≠ 88

theorem stops_of_endsNumber (base : ℕ) (hb : base ≤ 16) {s : CStr} (h : EndsNumber s) :
    Stops base s := by
  intro c hc
  have h16 := (h c hc).1
  unfold digitOf at h16 ⊢
  rw [Option.filter_eq_none_iff] at h16 ⊢
  intro d hd
  have := h16 d hd
  simp only [decide_eq_true_eq] at this ⊢
  omega

theorem strtoul_decimal (n : ℕ) {rest : CStr} (hrest : EndsNumber rest) :
    strtoul (decimal n ++ rest) = (n, rest) := by
  by_cases hn : n = 0
  · subst hn
    have h8 : readDigits 8 0 (48 :: rest) = (0, rest) := by
      have h0 : digitOf 8 48 = some 0 := by decide
      simp [readDigits, h0, readDigits_stop (stops_of_endsNumber 8 (by omega) hrest)]
    cases rest with
    | nil => decide
    | cons c rest =>
      obtain ⟨-, hx, hX⟩ := hrest c rfl
      simpa [decimal, strtoul, hx, hX] using h8
  · obtain ⟨d, ds, hd, hlt, hdec, -⟩ := decimal_pos hn
    have hne : digitChar d ≠ 48 := by
      have := hlt d (by simp)
      interval_cases d <;> first | omega | decide
    have hr := readDigits_decimal n (stops_of_endsNumber 10 (by omega) hrest)
    rw [hdec] at hr ⊢
    rw [strtoul.eq_def]
    split
    · next h => simp at h; exact absurd h.1 hne
    · exact hr

theorem head_decimal_isdigit (n : ℕ) (s : CStr) :
    ((decimal n ++ s).head?.map isdigit).getD false = true := by
  obtain ⟨c, cs, hc⟩ := List.exists_cons_of_ne_nil (decimal_ne_nil n)
  have h : 48 ≤ c.toNat ∧ c.toNat ≤ 57 := mem_decimal (n := n) (by simp [hc])
  simp only [hc, List.cons_append, List.head?_cons, Option.map_some, Option.getD_some, isdigit,
    Bool.and_eq_true, decide_eq_true_eq, UInt8.le_iff_toNat_le]
  exact h

theorem endsNumber_dot (s : CStr) : EndsNumber (46 :: s) := by
  intro c hc
  obtain rfl : 46 = c := by simpa using hc
  decide

theorem inetAtonFrom_dot (parts : List UInt8) (dots : ℕ) (n : UInt8) (s : CStr) :
    inetAtonFrom parts (dots + 1) (decimal n.toNat ++ 46 :: s) =
      inetAtonFrom (parts ++ [n]) dots s := by
  rw [inetAtonFrom.eq_def, if_pos (head_decimal_isdigit _ _),
    strtoul_decimal _ (endsNumber_dot s)]
  have := n.toNat_lt
  simp [show n.toNat ≤ 255 by omega]

theorem inetAtonFrom_end (parts : List UInt8) (dots n : ℕ) :
    inetAtonFrom parts dots (decimal n) = fillIp parts n := by
  have hd := head_decimal_isdigit n []
  have hs := @strtoul_decimal n [] (by simp [EndsNumber])
  rw [List.append_nil] at hd hs
  rw [inetAtonFrom.eq_def, if_pos hd, hs]

theorem inetAton_inetNtoa (ip : Ip) : inetAton (inetNtoa ip) = some ip := by
  have := ip.d.toNat_lt
  simp only [inetAton, inetNtoa, inetAtonFrom_dot, inetAtonFrom_end, List.nil_append,
    List.cons_append, fillIp, UInt8.ofNat_toNat]
  rw [if_pos (by omega)]

theorem inetNtoa_inj {ip ip' : Ip} : inetNtoa ip = inetNtoa ip' ↔ ip = ip' := by
  refine ⟨fun h => ?_, congrArg _⟩
  have h' := congrArg inetAton h
  simpa [inetAton_inetNtoa] using h'

theorem mem_inetNtoa {ip : Ip} {c : UInt8} (h : c ∈ inetNtoa ip) :
    c = 46 ∨ (48 ≤ c.toNat ∧ c.toNat ≤ 57) := by
  simp only [inetNtoa, List.mem_append, List.mem_cons] at h
  rcases h with h | h | h | h | h | h | h <;>
    first | exact .inl h | exact .inr (mem_decimal h)

theorem inetNtoa_length (ip : Ip) : (inetNtoa ip).length ≤ 15 := by
  have hlen (n : UInt8) : (decimal n.toNat).length ≤ 3 :=
    decimal_length (by omega) (by have := n.toNat_lt; omega)
  have ha := hlen ip.a
  have hb := hlen ip.b
  have hc := hlen ip.c
  have hd := hlen ip.d
  simp only [inetNtoa, List.length_append, List.length_cons]
  omega

theorem strtol_decimal {n : ℕ} (hn : (n : ℤ) ≤ longMax) : strtol (decimal n) = some ((n : ℤ), []) := by
  obtain ⟨c, cs, hc⟩ := List.exists_cons_of_ne_nil (decimal_ne_nil n)
  have hcs : 48 ≤ c.toNat ∧ c.toNat ≤ 57 := mem_decimal (n := n) (by simp [hc])
  have hne (k : UInt8) (hk : ¬ (48 ≤ k.toNat ∧ k.toNat ≤ 57)) : c ≠ k := fun h => hk (h ▸ hcs)
  have hsp : isspace c = false := by
    have h32 := hne 32 (by decide)
    have h13 : ¬ c ≤ 13 := by
      rw [UInt8.le_iff_toNat_le]
      have : (13 : UInt8).toNat = 13 := rfl
      omega
    simp [isspace, h32, h13]
  have hdig : ((decimal n).head?.bind (digitOf 10)).isSome := by
    have h1 : digitOf 10 c = some (c.toNat - 48) := by
      simp only [digitOf, hcs, and_self, if_true, Option.filter_some]
      rw [if_pos (by simp; omega)]
    simp [hc, h1]
  have hr := @readDigits_decimal n [] (by simp [Stops])
  rw [List.append_nil] at hr
  have hdrop : (decimal n).dropWhile isspace = decimal n := by simp [hc, hsp]
  have h45 : ¬ (decimal n).head? = some 45 := by simpa [hc] using hne 45 (by decide)
  have h43 : ¬ (decimal n).head? = some 43 := by simpa [hc] using hne 43 (by decide)
  simp only [strtol, hdrop, h45, h43, or_self, if_false, hdig, if_true, hr]
  rw [min_eq_left hn]

end Libc
end Rcom
