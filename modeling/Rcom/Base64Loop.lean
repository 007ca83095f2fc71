import Mathlib
import Rcom.Base64
import Rcom.Lib.Rfc4648
import Rcom.Libc

/-!
# The loop of `encode_base64` (util.c)

The positions in the bytes and in the text, and the memory that the text is written to. The sums
and products of lengths are those of `int`.
-/

namespace Rcom
open Rcom.Lib

/-- `written` has the indices of the characters, in the order of their writes. -/
structure Encoder where
  i : ℕ
  j : ℕ
  t : Bytes
  written : List ℕ

namespace Encoder

/-- The expression `(i < ilen)? s[i++] : 0`. -/
def next (s : Bytes) (ilen : ℤ) (e : Encoder) : Exec (UInt8 × Encoder) :=
  if e.i < ilen then (s[e.i]?).map fun c => (c, { e with i := e.i + 1 }) else some (0, e)

/-- The statement `t[j++] = c`. -/
def put (e : Encoder) (c : UInt8) : Exec Encoder :=
  if e.j < e.t.length then
    some { e with j := e.j + 1, t := e.t.set e.j c, written := e.written ++ [e.j] }
  else none

/-- The `switch` over the number of bytes that are left, at most three. -/
def round (s : Bytes) (ilen : ℤ) (e : Encoder) : Exec Encoder := do
  let n := if ilen - e.i > 3 then 3 else ilen - e.i
  if n = 3 then
    let a ← e.next s ilen
    let b ← a.2.next s ilen
    let c ← b.2.next s ilen
    let p := (a.1.toNat <<< 0x10) + (b.1.toNat <<< 0x08) + c.1.toNat
    let e ← c.2.put (base64Char p 18)
    let e ← e.put (base64Char p 12)
    let e ← e.put (base64Char p 6)
    e.put (base64Char p 0)
  else if n = 2 then
    let a ← e.next s ilen
    let b ← a.2.next s ilen
    let p := (a.1.toNat <<< 0x10) + (b.1.toNat <<< 0x08)
    let e ← b.2.put (base64Char p 18)
    let e ← e.put (base64Char p 12)
    let e ← e.put (base64Char p 6)
    e.put 61
  else if n = 1 then
    let a ← e.next s ilen
    let p := a.1.toNat <<< 0x10
    let e ← a.2.put (base64Char p 18)
    let e ← e.put (base64Char p 12)
    let e ← e.put 61
    e.put 61
  else some e

/-- The loop, for at most `k` rounds. -/
def run (s : Bytes) (ilen : ℤ) : ℕ → Encoder → Exec Encoder
  | 0, _ => none
  | k + 1, e =>
    if e.i < ilen then do
      let e ← e.round s ilen
      run s ilen k e
    else some e

/-- The C string in `t`. -/
def text (e : Encoder) : CStr := e.t.takeWhile (· ≠ 0)

end Encoder

/-- What `r_alloc` returns for `encode_base64`, with the zero at the end. -/
def allocText (memory : ℕ → UInt8) (olen : ℤ) : Exec Bytes := do
  let size ← int (olen + 1)
  if 0 ≤ olen then some (((List.range size.toNat).map memory).set olen.toNat 0) else none

def encodeBase64Into (memory : ℕ → UInt8) (s : Bytes) (ilen : ℤ) : Exec Encoder := do
  let sum ← int (ilen + 2)
  let olen ← int (4 * sum.tdiv 3)
  let t ← allocText memory olen
  Encoder.run s ilen (ilen.toNat + 1) ⟨0, 0, t, []⟩

/-! ## The alphabet -/

theorem base64Table_length : base64Table.length = 64 := by decide

theorem base64Table_nodup : base64Table.Nodup := by decide

theorem pad_notMem_base64Table : 61 ∉ base64Table := by decide

def base64 : Rfc4648.Alphabet where
  chars := base64Table
  pad := 61
  size := base64Table_length
  nodup := base64Table_nodup
  pad_not_mem := pad_notMem_base64Table

theorem base64Char_eq (p k : ℕ) : base64Char p k = base64.char (Rfc4648.toBits 6 (p / 2 ^ k)) := by
  rw [Rfc4648.Alphabet.char, Rfc4648.ofBits_toBits, base64Char, Nat.shiftRight_eq_div_pow]
  exact congrArg (base64Table.getD · 0) (Nat.and_two_pow_sub_one_eq_mod _ 6)

section Group
open Rfc4648
variable (a b c : UInt8)

theorem sextets_three (s : Bytes) :
    let p := (a.toNat <<< 0x10) + (b.toNat <<< 0x08) + c.toNat
    sextets (bits (a :: b :: c :: s)) =
      [toBits 6 (p / 2 ^ 18), toBits 6 (p / 2 ^ 12), toBits 6 (p / 2 ^ 6), toBits 6 (p / 2 ^ 0)] ++
        sextets (bits s) := by
  intro p
  have hb := b.toNat_lt
  have hc := c.toNat_lt
  have hp : p = (a.toNat * 2 ^ 8 + b.toNat) * 2 ^ 8 + c.toNat := by
    simp only [p, Nat.shiftLeft_eq]
    omega
  have hbits : toBits 8 a.toNat ++ (toBits 8 b.toNat ++ toBits 8 c.toNat) = toBits 24 p := by
    rw [hp, ← List.append_assoc, toBits_append 8 8 _ _ hb, toBits_append 16 8 _ _ hc]
  have hsplit : toBits 24 p = toBits 6 (p / 2 ^ 18) ++ (toBits 6 (p / 2 ^ 12) ++
      (toBits 6 (p / 2 ^ 6) ++ toBits 6 (p / 2 ^ 0))) := by
    rw [Nat.pow_zero, Nat.div_one, toBits_add 6 18, toBits_add 6 12, toBits_add 6 6]
  have hall : bits (a :: b :: c :: s) = toBits 6 (p / 2 ^ 18) ++ (toBits 6 (p / 2 ^ 12) ++
      (toBits 6 (p / 2 ^ 6) ++ (toBits 6 (p / 2 ^ 0) ++ bits s))) := by
    rw [bits_cons, bits_cons, bits_cons, ← List.append_assoc, ← List.append_assoc, List.append_assoc (toBits 8 a.toNat),
      hbits, hsplit]
    simp only [List.append_assoc]
  rw [hall, sextets_append, sextets_append, sextets_append, sextets_append]
  rfl

theorem sextets_two :
    let p := (a.toNat <<< 0x10) + (b.toNat <<< 0x08)
    sextets (bits [a, b]) = [toBits 6 (p / 2 ^ 18), toBits 6 (p / 2 ^ 12), toBits 6 (p / 2 ^ 6)] := by
  intro p
  have hb := b.toNat_lt
  have hp : p = (a.toNat * 2 ^ 8 + b.toNat) * 2 ^ 8 := by
    simp only [p, Nat.shiftLeft_eq]
    omega
  have hbits : bits [a, b] = toBits 6 (p / 2 ^ 18) ++ (toBits 6 (p / 2 ^ 12) ++ toBits 4 (p / 2 ^ 8)) := by
    have h18 : p / 2 ^ 18 = (a.toNat * 2 ^ 8 + b.toNat) / 2 ^ 10 := by omega
    have h12 : p / 2 ^ 12 = (a.toNat * 2 ^ 8 + b.toNat) / 2 ^ 4 := by omega
    have h8 : p / 2 ^ 8 = a.toNat * 2 ^ 8 + b.toNat := by omega
    rw [bits_cons, bits_cons, bits, List.flatMap_nil, List.append_nil, toBits_append 8 8 _ _ hb, h18, h12, h8,
      toBits_add 6 10, toBits_add 6 4]
  have hlast : toBits 4 (p / 2 ^ 8) ++ [false, false] = toBits 6 (p / 2 ^ 6) := by
    have hfill := toBits_append 4 2 (p / 2 ^ 8) 0 (by decide)
    have h6 : p / 2 ^ 6 = p / 2 ^ 8 * 2 ^ 2 + 0 := by omega
    rw [h6, ← hfill]
    rfl
  rw [hbits, sextets_append, sextets_append, ← hlast]
  rfl

theorem sextets_one :
    let p := a.toNat <<< 0x10
    sextets (bits [a]) = [toBits 6 (p / 2 ^ 18), toBits 6 (p / 2 ^ 12)] := by
  intro p
  have hp : p = a.toNat * 2 ^ 16 := Nat.shiftLeft_eq _ _
  have hbits : bits [a] = toBits 6 (p / 2 ^ 18) ++ toBits 2 (p / 2 ^ 16) := by
    have h18 : p / 2 ^ 18 = a.toNat / 2 ^ 2 := by omega
    have h16 : p / 2 ^ 16 = a.toNat := by omega
    rw [bits_cons, bits, List.flatMap_nil, List.append_nil, h18, h16, toBits_add 6 2]
  have hlast : toBits 2 (p / 2 ^ 16) ++ [false, false, false, false] = toBits 6 (p / 2 ^ 12) := by
    have hfill := toBits_append 2 4 (p / 2 ^ 16) 0 (by decide)
    have h12 : p / 2 ^ 12 = p / 2 ^ 16 * 2 ^ 4 + 0 := by omega
    rw [h12, ← hfill]
    rfl
  rw [hbits, sextets_append, ← hlast]
  rfl

end Group

theorem encodeBase64_eq (s : Bytes) : encodeBase64 s = base64.encode s := by
  rw [Rfc4648.Alphabet.encode]
  fun_induction encodeBase64 s with
  | case1 a b c s p ih =>
    have hpad : ∀ w x y z (chars : Bytes), base64.padding (w :: x :: y :: z :: chars) = base64.padding chars := by
      intro w x y z chars
      have hlen : (w :: x :: y :: z :: chars).length % 4 = chars.length % 4 := by
        simp only [List.length_cons]
        omega
      rw [Rfc4648.Alphabet.padding, hlen, Rfc4648.Alphabet.padding]
    rw [sextets_three, ih]
    simp only [base64Char_eq, List.map_cons, List.cons_append, List.nil_append, hpad]
    rfl
  | case2 a b p =>
    rw [sextets_two]
    simp only [base64Char_eq, List.map_cons, List.map_nil]
    rfl
  | case3 a p =>
    rw [sextets_one]
    simp only [base64Char_eq, List.map_cons, List.map_nil]
    rfl
  | case4 => rfl

/-! ## The loop -/

namespace Encoder
variable {s front text tail rest : Bytes} {e : Encoder} {a b c x : UInt8} {k : ℕ}

/-- The loop has read `front` and written `text`; the memory `tail` is still to be written, and the last
byte of it is the zero at the end. -/
structure Stands (front text tail : Bytes) (e : Encoder) : Prop where
  i : e.i = front.length
  j : e.j = text.length
  t : e.t = text ++ (tail ++ [0])
  written : e.written = List.range text.length

theorem Stands.next (h : Stands front text tail e) (hs : s = front ++ a :: rest) :
    ∃ e', e.next s s.length = some (a, e') ∧ Stands (front ++ [a]) text tail e' := by
  have hlt : (e.i : ℤ) < s.length := by
    rw [h.i, hs, List.length_append, List.length_cons]
    omega
  rw [Encoder.next, if_pos hlt, h.i, hs, List.getElem?_append_right le_rfl, Nat.sub_self]
  refine ⟨_, rfl, ?_, h.j, h.t, h.written⟩
  rw [List.length_append]
  rfl

theorem Stands.put (h : Stands front text (x :: tail) e) (c : UInt8) :
    ∃ e', e.put c = some e' ∧ Stands front (text ++ [c]) tail e' := by
  have hlt : e.j < e.t.length := by
    rw [h.j, h.t, List.length_append, List.cons_append, List.length_cons]
    omega
  rw [Encoder.put, if_pos hlt]
  refine ⟨_, rfl, h.i, ?_, ?_, ?_⟩
  · rw [List.length_append, h.j]
    rfl
  · dsimp only
    rw [h.j, h.t, List.set_append_right _ _ le_rfl, Nat.sub_self, List.append_assoc]
    rfl
  · dsimp only
    rw [h.written, h.j, List.length_append, List.length_singleton, List.range_succ]

theorem Stands.put_four {old : Bytes} (h : Stands front text (old ++ tail) e) (hold : old.length = 4)
    (w x y z : UInt8) :
    ∃ e', (do
      let e ← e.put w
      let e ← e.put x
      let e ← e.put y
      e.put z) = some e' ∧ Stands front (text ++ [w, x, y, z]) tail e' := by
  obtain ⟨w', old, rfl⟩ := List.exists_cons_of_length_eq_add_one hold
  obtain ⟨x', old, rfl⟩ := List.exists_cons_of_length_eq_add_one (Nat.succ_inj.1 hold)
  obtain ⟨y', old, rfl⟩ := List.exists_cons_of_length_eq_add_one (Nat.succ_inj.1 (Nat.succ_inj.1 hold))
  obtain ⟨z', rfl⟩ := List.length_eq_one_iff.1 (Nat.succ_inj.1 (Nat.succ_inj.1 (Nat.succ_inj.1 hold)))
  obtain ⟨e₁, h₁, hs₁⟩ := h.put w
  obtain ⟨e₂, h₂, hs₂⟩ := hs₁.put x
  obtain ⟨e₃, h₃, hs₃⟩ := hs₂.put y
  obtain ⟨e₄, h₄, hs₄⟩ := hs₃.put z
  refine ⟨e₄, ?_, by simpa using hs₄⟩
  simp only [h₁, h₂, h₃, h₄, Option.bind_eq_bind, Option.bind_some]

theorem Stands.left (h : Stands front text tail e) (hs : s = front ++ rest) :
    (s.length : ℤ) - e.i = rest.length := by
  rw [h.i, hs, List.length_append]
  omega

theorem round_three {old : Bytes} (h : Stands front text (old ++ tail) e) (hold : old.length = 4)
    (hs : s = front ++ a :: b :: c :: rest) :
    let p := (a.toNat <<< 0x10) + (b.toNat <<< 0x08) + c.toNat
    ∃ e', e.round s s.length = some e' ∧ Stands (front ++ [a, b, c])
      (text ++ [base64Char p 18, base64Char p 12, base64Char p 6, base64Char p 0]) tail e' := by
  intro p
  have hleft : ¬ (s.length : ℤ) - e.i < 3 := by
    rw [h.left hs]
    simp only [List.length_cons]
    omega
  have hn : (if (s.length : ℤ) - e.i > 3 then 3 else (s.length : ℤ) - e.i) = 3 := by omega
  obtain ⟨ea, ha, hsa⟩ := h.next hs
  have hsb : s = front ++ [a] ++ b :: c :: rest := by rw [hs, List.append_assoc]; rfl
  obtain ⟨eb, hb, hsb⟩ := hsa.next hsb
  have hsc : s = front ++ [a] ++ [b] ++ c :: rest := by rw [hs, List.append_assoc, List.append_assoc]; rfl
  obtain ⟨ec, hc, hsc⟩ := hsb.next hsc
  obtain ⟨e', he', hs'⟩ := hsc.put_four hold (base64Char p 18) (base64Char p 12) (base64Char p 6) (base64Char p 0)
  refine ⟨e', ?_, by simpa using hs'⟩
  rw [round]
  simp only [hn, ha, hb, hc, reduceIte, Option.bind_eq_bind, Option.bind_some]
  exact he'

theorem round_two {old : Bytes} (h : Stands front text (old ++ tail) e) (hold : old.length = 4)
    (hs : s = front ++ [a, b]) :
    let p := (a.toNat <<< 0x10) + (b.toNat <<< 0x08)
    ∃ e', e.round s s.length = some e' ∧ Stands (front ++ [a, b])
      (text ++ [base64Char p 18, base64Char p 12, base64Char p 6, 61]) tail e' := by
  intro p
  have hleft : (s.length : ℤ) - e.i = 2 := h.left hs
  have hn : (if (s.length : ℤ) - e.i > 3 then 3 else (s.length : ℤ) - e.i) = 2 := by omega
  obtain ⟨ea, ha, hsa⟩ := h.next hs
  have hsb : s = front ++ [a] ++ [b] := by rw [hs, List.append_assoc]; rfl
  obtain ⟨eb, hb, hsb⟩ := hsa.next hsb
  obtain ⟨e', he', hs'⟩ := hsb.put_four hold (base64Char p 18) (base64Char p 12) (base64Char p 6) 61
  refine ⟨e', ?_, by simpa using hs'⟩
  rw [round]
  simp only [hn, ha, hb, if_neg (by decide : ¬ (2 : ℤ) = 3), reduceIte, Option.bind_eq_bind, Option.bind_some]
  exact he'

theorem round_one {old : Bytes} (h : Stands front text (old ++ tail) e) (hold : old.length = 4)
    (hs : s = front ++ [a]) :
    let p := a.toNat <<< 0x10
    ∃ e', e.round s s.length = some e' ∧ Stands (front ++ [a])
      (text ++ [base64Char p 18, base64Char p 12, 61, 61]) tail e' := by
  intro p
  have hleft : (s.length : ℤ) - e.i = 1 := h.left hs
  have hn : (if (s.length : ℤ) - e.i > 3 then 3 else (s.length : ℤ) - e.i) = 1 := by omega
  obtain ⟨ea, ha, hsa⟩ := h.next hs
  obtain ⟨e', he', hs'⟩ := hsa.put_four hold (base64Char p 18) (base64Char p 12) 61 61
  refine ⟨e', ?_, hs'⟩
  rw [round]
  simp only [hn, ha, if_neg (by decide : ¬ (1 : ℤ) = 3), if_neg (by decide : ¬ (1 : ℤ) = 2), reduceIte,
    Option.bind_eq_bind, Option.bind_some]
  exact he'

theorem run_end (h : Stands s text tail e) (hk : 0 < k) : run s s.length k e = some e := by
  obtain ⟨k, rfl⟩ := Nat.exists_eq_succ_of_ne_zero hk.ne'
  rw [run, if_neg (by rw [h.i]; exact lt_irrefl _)]

theorem run_round {e' : Encoder} (h : Stands front text tail e) (hs : s = front ++ x :: rest)
    (he : e.round s s.length = some e') : run s s.length (k + 1) e = run s s.length k e' := by
  have hlt : (e.i : ℤ) < s.length := by
    have hleft := h.left hs
    rw [List.length_cons] at hleft
    omega
  rw [run, if_pos hlt, he]
  rfl

theorem run_eq (h : Stands front text tail e) (hs : s = front ++ rest)
    (htail : tail.length = (encodeBase64 rest).length) (hk : rest.length < k) :
    ∃ e', run s s.length k e = some e' ∧ Stands s (text ++ encodeBase64 rest) [] e' := by
  fun_induction encodeBase64 rest generalizing front text tail e k with
  | case1 a b c rest p =>
    rename_i ih
    simp only [List.length_cons] at htail hk
    obtain ⟨k, rfl⟩ := Nat.exists_eq_succ_of_ne_zero (Nat.ne_zero_of_lt hk)
    have hold : (tail.take 4).length = 4 := by
      rw [List.length_take]
      omega
    rw [← List.take_append_drop 4 tail] at h
    obtain ⟨e₁, hround, hs₁⟩ := round_three h hold hs
    have hs' : s = front ++ [a, b, c] ++ rest := by
      rw [hs, List.append_assoc]
      rfl
    have htail' : (tail.drop 4).length = (encodeBase64 rest).length := by
      rw [List.length_drop]
      omega
    have hk' : rest.length < k := by omega
    obtain ⟨e', hrun, he'⟩ := ih hs₁ hs' htail' hk'
    refine ⟨e', ?_, by simpa using he'⟩
    rw [run_round h hs hround, hrun]
  | case2 a b =>
    obtain ⟨k, rfl⟩ := Nat.exists_eq_succ_of_ne_zero (Nat.ne_zero_of_lt hk)
    rw [← List.append_nil tail] at h
    obtain ⟨e₁, hround, hs₁⟩ := round_two h htail hs
    rw [← hs] at hs₁
    refine ⟨e₁, ?_, hs₁⟩
    rw [run_round h hs hround]
    exact run_end hs₁ (by simp only [List.length_cons] at hk; omega)
  | case3 a =>
    obtain ⟨k, rfl⟩ := Nat.exists_eq_succ_of_ne_zero (Nat.ne_zero_of_lt hk)
    rw [← List.append_nil tail] at h
    obtain ⟨e₁, hround, hs₁⟩ := round_one h htail hs
    rw [← hs] at hs₁
    refine ⟨e₁, ?_, hs₁⟩
    rw [run_round h hs hround]
    exact run_end hs₁ (by simp only [List.length_cons] at hk; omega)
  | case4 =>
    rw [List.append_nil] at hs
    obtain rfl := List.length_eq_zero_iff.1 htail
    rw [← hs] at h
    exact ⟨e, run_end h (by omega), by rw [List.append_nil]; exact h⟩

end Encoder

theorem allocText_eq (memory : ℕ → UInt8) {olen : ℕ} (h : (olen : ℤ) < intMax) :
    allocText memory olen = some ((List.range olen).map memory ++ [0]) := by
  have hsize : int ((olen : ℤ) + 1) = some ((olen : ℤ) + 1) :=
    int_eq_some (by unfold intMax; omega) (by omega)
  have hlast : ((List.range olen).map memory).length = olen := by
    rw [List.length_map, List.length_range]
  have hset : ((List.range (olen + 1)).map memory).set olen 0 = (List.range olen).map memory ++ [0] := by
    rw [List.range_succ, List.map_append, List.set_append_right _ _ (by rw [hlast]), hlast, Nat.sub_self]
    rfl
  rw [allocText, hsize]
  simp only [Option.bind_eq_bind, Option.bind_some]
  rw [if_pos (Int.natCast_nonneg _)]
  exact congrArg some hset

theorem encodeBase64Into_eq (memory : ℕ → UInt8) {s : Bytes} (h : s.length ≤ 1610612733) :
    ∃ e, encodeBase64Into memory s s.length = some e ∧ Encoder.Stands s (encodeBase64 s) [] e := by
  have hsum : int ((s.length : ℤ) + 2) = some ((s.length : ℤ) + 2) :=
    int_eq_some (by unfold intMax; omega) (by unfold intMax; omega)
  have hthird : 4 * ((s.length : ℤ) + 2).tdiv 3 = ((encodeBase64 s).length : ℤ) := by
    rw [length_encodeBase64, Int.tdiv_eq_ediv_of_nonneg (by omega)]
    omega
  have holen : int ((encodeBase64 s).length : ℤ) = some ((encodeBase64 s).length : ℤ) := by
    rw [length_encodeBase64]
    exact int_eq_some (by unfold intMax; omega) (by unfold intMax; omega)
  have hsmall : ((encodeBase64 s).length : ℤ) < intMax := by
    rw [length_encodeBase64]
    unfold intMax
    omega
  have hstart : Encoder.Stands [] [] ((List.range (encodeBase64 s).length).map memory)
      ⟨0, 0, (List.range (encodeBase64 s).length).map memory ++ [0], []⟩ := ⟨rfl, rfl, rfl, rfl⟩
  have hrounds : s.length < (s.length : ℤ).toNat + 1 := by omega
  obtain ⟨e, hrun, he⟩ := Encoder.run_eq hstart rfl (by rw [List.length_map, List.length_range]) hrounds
  rw [← hthird] at holen
  refine ⟨e, ?_, he⟩
  rw [encodeBase64Into, Option.bind_eq_bind, Option.bind_eq_some_iff]
  refine ⟨_, hsum, ?_⟩
  rw [Option.bind_eq_bind, Option.bind_eq_some_iff]
  refine ⟨_, holen, ?_⟩
  rw [hthird, Option.bind_eq_some_iff]
  exact ⟨_, allocText_eq memory hsmall, hrun⟩

/-- One of the two sums that give the length of the text is out of range. -/
theorem encodeBase64Into_overflow (memory : ℕ → UInt8) {s : Bytes} (h : 1610612733 < s.length) :
    encodeBase64Into memory s s.length = none := by
  rw [encodeBase64Into, Option.bind_eq_bind, Option.bind_eq_none_iff]
  intro sum hsum
  have hle : (s.length : ℤ) + 2 ≤ intMax := by
    by_contra hlong
    rw [int_eq_none (not_le.1 hlong)] at hsum
    cases hsum
  have hval : sum = (s.length : ℤ) + 2 := by
    rw [int_eq_some (by unfold intMax; omega) hle] at hsum
    exact (Option.some.inj hsum).symm
  have hlong : intMax < 4 * sum.tdiv 3 := by
    rw [hval, Int.tdiv_eq_ediv_of_nonneg (by omega)]
    unfold intMax
    omega
  rw [int_eq_none hlong]
  rfl

/-! ## The text -/

example : (encodeBase64Into (fun _ => 255) (ascii "fooba") 5).map Encoder.text = some (ascii "Zm9vYmE=") := by
  decide

/-- What `encode_base64` leaves is the encoding of `s` with a zero behind it. -/
structure IsBase64 (s : Bytes) (e : Encoder) : Prop where
  text : e.text = base64.encode s
  length : e.text.length = 4 * (s.length ⌈/⌉ 3)
  memory : e.t.length = e.text.length + 1
  written : ∀ j ∈ e.written, j < 4 * (s.length ⌈/⌉ 3)
  decoded : base64.decode e.text = some s

theorem isBase64_of_stands {s : Bytes} {e : Encoder} (h : e.Stands s (encodeBase64 s) []) : IsBase64 s e := by
  have htext : e.text = encodeBase64 s := by
    rw [Encoder.text, h.t, List.nil_append, List.takeWhile_append_of_pos]
    · exact List.append_nil _
    · intro c hc
      exact decide_eq_true (encodeBase64_plain hc).1
  have hlength : (encodeBase64 s).length = 4 * (s.length ⌈/⌉ 3) := by
    rw [encodeBase64_eq]
    exact base64.length_encode s
  constructor
  · rw [htext, encodeBase64_eq]
  · rw [htext, hlength]
  · rw [htext, h.t, List.nil_append, List.length_append, List.length_singleton]
  · intro j hj
    rw [h.written, List.mem_range, hlength] at hj
    exact hj
  · rw [htext, encodeBase64_eq, Rfc4648.Alphabet.decode_encode]

theorem encodeBase64_isBase64_iff (s : Bytes) :
    (∀ memory, ∃ e, encodeBase64Into memory s s.length = some e ∧ IsBase64 s e) ↔
      s.length ≤ 1610612733 := by
  constructor
  · intro h
    by_contra hlong
    obtain ⟨e, he, -⟩ := h fun _ => 0
    rw [encodeBase64Into_overflow _ (not_le.1 hlong)] at he
    cases he
  · intro h memory
    obtain ⟨e, he, hstands⟩ := encodeBase64Into_eq memory h
    exact ⟨e, he, isBase64_of_stands hstands⟩

def tooManyBytes : Bytes := List.replicate 1610612734 0

/-- The length of the text is 2147483648, which is no `int`. -/
theorem encodeBase64_of_tooManyBytes : ¬ ∀ memory, ∃ e,
    encodeBase64Into memory tooManyBytes tooManyBytes.length = some e ∧ IsBase64 tooManyBytes e := by
  intro h
  have hlength : tooManyBytes.length = 1610612734 := List.length_replicate
  obtain ⟨e, he, -⟩ := h fun _ => 0
  rw [encodeBase64Into_overflow _ (by omega)] at he
  cases he

end Rcom
