import Rcom.Lib.PercentCoding
import Rcom.Libc

/-!
# `urlencode` and `urldecode` (util.c)

A `membuf` is its bytes. The positions in the text are `int`, and so is its length; a `char` is
signed.
-/

namespace Rcom
open Rcom.Lib Rcom.Lib.Decimal Rcom.Lib.Percent

/-! ## Encoding -/

def unreserved (c : UInt8) : Prop :=
  (48 ≤ c ∧ c ≤ 57) ∨ (97 ≤ c ∧ c ≤ 122) ∨ (65 ≤ c ∧ c ≤ 90) ∨ c = 45 ∨ c = 95 ∨ c = 46 ∨ c = 126

instance (c : UInt8) : Decidable (unreserved c) := inferInstanceAs (Decidable (_ ∨ _))

def upperDigit (d : ℕ) : UInt8 := UInt8.ofNat (if d < 10 then 48 + d else 55 + d)

/-- What `rprintf` writes for `%%%02X`. -/
def hexTriple (c : UInt8) : Bytes := [37, upperDigit (c.toNat / 16), upperDigit (c.toNat % 16)]

/-- The loop of `urlencode`; the string ends with it. -/
def urlencodeLoop : CStr → Bytes → ℤ × Bytes
  | [], buf => (0, buf ++ [0])
  | c :: s, buf =>
    if c < 32 ∨ c ≥ 127 then (-1, buf ++ [0])
    else if unreserved c then urlencodeLoop s (buf ++ [c])
    else urlencodeLoop s (buf ++ hexTriple c)

def urlencode (s : CStr) : ℤ × Bytes := urlencodeLoop s []

/-! ## Decoding -/

/-- The value of a `char`. -/
def charValue (c : UInt8) : ℤ := c.toInt8.toInt

def hex2c (c : ℤ) : ℤ :=
  if 48 ≤ c ∧ c ≤ 57 then c - 48
  else if 97 ≤ c ∧ c ≤ 102 then 10 + c - 97
  else if 65 ≤ c ∧ c ≤ 70 then 10 + c - 65
  else -1

def urldecodeLoop (s : Bytes) (len : ℤ) (i : ℕ) (buf : Bytes) : Exec (ℤ × Bytes) :=
  if i < len then do
    let c ← s[i]?
    if c = 37 then
      let last ← int (i + 2)
      if len ≤ last then some (-1, buf)
      else
        let x ← s[i + 1]?
        let a := hex2c (charValue x)
        if a = -1 then some (-1, buf)
        else
          let y ← s[i + 2]?
          let b := hex2c (charValue y)
          if b = -1 then some (-1, buf)
          else
            let d := 16 * a + b
            urldecodeLoop s len (i + 3) (buf ++ [UInt8.ofNat (d.toNat &&& 0xff)])
    else urldecodeLoop s len (i + 1) (buf ++ [c])
  else some (0, buf ++ [0])
termination_by (len - i).toNat

/-- The length has to be an `int`. -/
def urldecode (s : Bytes) (n : ℤ) : Exec (ℤ × Bytes) := do
  let len ← int n
  urldecodeLoop s len 0 []

/-! ## The digits -/

theorem digitOf_upperDigit {d : ℕ} (h : d < 16) : digitOf 16 (upperDigit d) = some d := by
  interval_cases d <;> decide

theorem charValue_eq (c : UInt8) :
    charValue c = if c.toNat < 128 then (c.toNat : ℤ) else (c.toNat : ℤ) - 256 := by
  have h : charValue c = if 2 * c.toNat < 256 then (c.toNat : ℤ) else (c.toNat : ℤ) - 256 :=
    BitVec.toInt_eq_toNat_cond c.toBitVec
  rw [h]
  split_ifs <;> omega

theorem digitOf_hex (c : UInt8) : digitOf 16 c =
    if 48 ≤ c.toNat ∧ c.toNat ≤ 57 then some (c.toNat - 48)
    else if 97 ≤ c.toNat ∧ c.toNat ≤ 102 then some (c.toNat - 87)
    else if 65 ≤ c.toNat ∧ c.toNat ≤ 70 then some (c.toNat - 55)
    else none := by
  rw [digitOf]
  split_ifs <;> first
    | rfl
    | omega
    | exact if_pos (decide_eq_true (by omega))
    | exact if_neg (of_decide_eq_false (decide_eq_false (by rw [decide_eq_true_eq]; omega)))

theorem hex2c_of_isHex {c : UInt8} (h : IsHex c) : hex2c (charValue c) = hexValue c := by
  rw [IsHex, digitOf_hex] at h
  rw [charValue_eq, hex2c, hexValue, digitOf_hex]
  split_ifs at h ⊢ <;> first | omega | simp only [Option.getD_some] | cases h
  all_goals omega

theorem hex2c_of_not_isHex {c : UInt8} (h : ¬ IsHex c) : hex2c (charValue c) = -1 := by
  have hc := c.toNat_lt
  rw [IsHex, digitOf_hex] at h
  rw [charValue_eq, hex2c]
  split_ifs at h ⊢ <;> first | rfl | omega | exact absurd rfl h

theorem hexValue_lt (c : UInt8) : hexValue c < 16 := by
  rw [hexValue, digitOf_hex]
  split_ifs <;> simp only [Option.getD_some, Option.getD_none] <;> omega

/-! ## What `urlencode` makes of a string -/

def Printable (s : CStr) : Prop := ∀ c ∈ s, 32 ≤ c ∧ c ≤ 126

def escape (c : UInt8) : Bytes := if unreserved c then [c] else hexTriple c

theorem urlencodeLoop_printable {s : CStr} (h : Printable s) (buf : Bytes) :
    urlencodeLoop s buf = (0, buf ++ s.flatMap escape ++ [0]) := by
  induction s generalizing buf with
  | nil => rw [urlencodeLoop, List.flatMap_nil, List.append_nil]
  | cons c s ih =>
    have hc : ¬ (c < 32 ∨ c ≥ 127) := by
      have hrange := h c (by simp)
      simp only [UInt8.le_iff_toNat_le, UInt8.lt_iff_toNat_lt, ge_iff_le, UInt8.toNat_ofNat] at hrange ⊢
      omega
    have hs : Printable s := fun d hd => h d (List.mem_cons_of_mem _ hd)
    rw [urlencodeLoop, if_neg hc, List.flatMap_cons, escape]
    split_ifs
    · rw [ih hs, List.append_assoc buf]
    · rw [ih hs, List.append_assoc buf]

theorem urlencodeLoop_not_printable {s : CStr} (h : ¬ Printable s) (buf : Bytes) :
    (urlencodeLoop s buf).1 = -1 := by
  induction s generalizing buf with
  | nil => exact absurd (fun c hc => absurd hc List.not_mem_nil) h
  | cons c s ih =>
    rw [urlencodeLoop]
    by_cases hc : c < 32 ∨ c ≥ 127
    · rw [if_pos hc]
    · rw [if_neg hc]
      have hrange : 32 ≤ c ∧ c ≤ 126 := by
        simp only [UInt8.le_iff_toNat_le, UInt8.lt_iff_toNat_lt, ge_iff_le, UInt8.toNat_ofNat] at hc ⊢
        omega
      have hs : ¬ Printable s := by
        intro hs
        refine h fun d hd => ?_
        rcases List.mem_cons.1 hd with rfl | hd
        · exact hrange
        · exact hs d hd
      split_ifs
      · exact ih hs _
      · exact ih hs _

theorem urlencode_zero_iff (s : CStr) : (urlencode s).1 = 0 ↔ Printable s := by
  constructor
  · intro h
    by_contra hs
    rw [urlencode, urlencodeLoop_not_printable hs] at h
    cases h
  · intro h
    rw [urlencode, urlencodeLoop_printable h]

theorem exists_piece (c : UInt8) : ∃ p : Piece, p.text = escape c ∧ p.byte = c := by
  rw [escape]
  by_cases hc : unreserved c
  · rw [if_pos hc]
    have hne : c ≠ 37 := by
      rintro rfl
      exact absurd hc (by decide)
    exact ⟨.plain c hne, rfl, rfl⟩
  · rw [if_neg hc]
    have hbyte := c.toNat_lt
    have hhigh := digitOf_upperDigit (d := c.toNat / 16) (by omega)
    have hlow := digitOf_upperDigit (d := c.toNat % 16) (by omega)
    have hhex {x : UInt8} {d : ℕ} (hd : digitOf 16 x = some d) : IsHex x ∧ hexValue x = d := by
      rw [IsHex, hexValue, hd]
      exact ⟨rfl, rfl⟩
    refine ⟨.triple _ _ (hhex hhigh).1 (hhex hlow).1, rfl, ?_⟩
    rw [Piece.byte, (hhex hhigh).2, (hhex hlow).2, Nat.div_add_mod, UInt8.ofNat_toNat]

theorem exists_pieces (s : CStr) : ∃ ps, text ps = s.flatMap escape ∧ bytes ps = s := by
  induction s with
  | nil => exact ⟨[], rfl, rfl⟩
  | cons c s ih =>
    obtain ⟨p, hp, hc⟩ := exists_piece c
    obtain ⟨ps, hps, hs⟩ := ih
    exact ⟨p :: ps, by rw [text_cons, hp, hps, List.flatMap_cons], by rw [bytes_cons, hc, hs]⟩

/-! ## What `urldecode` makes of a text -/

section Decode
variable {t front rest buf : Bytes}

theorem getElem?_front (ht : t = front ++ rest) (k : ℕ) : t[front.length + k]? = rest[k]? := by
  rw [ht, List.getElem?_append_right (Nat.le_add_right _ _), Nat.add_sub_cancel_left]

theorem urldecodeLoop_piece {p : Piece} (ht : t = front ++ (p.text ++ rest)) (hmax : (t.length : ℤ) ≤ intMax) :
    urldecodeLoop t t.length front.length buf =
      urldecodeLoop t t.length (front ++ p.text).length (buf ++ [p.byte]) := by
  have hlen : t.length = front.length + (p.text.length + rest.length) := by
    rw [ht, List.length_append, List.length_append]
  have hget : t[front.length]? = (p.text ++ rest)[0]? := getElem?_front ht 0
  rw [urldecodeLoop, List.length_append]
  cases p with
  | plain c hc =>
    have hlt : (front.length : ℤ) < t.length := by
      simp only [Piece.text, List.length_singleton] at hlen
      omega
    rw [if_pos hlt, hget]
    change (if c = 37 then _ else urldecodeLoop t t.length (front.length + 1) (buf ++ [c])) = _
    rw [if_neg hc]
    rfl
  | triple a b ha hb =>
    simp only [Piece.text, List.length_cons, List.length_nil] at hlen
    have hlt : (front.length : ℤ) < t.length := by omega
    have hlast : int ((front.length : ℤ) + 2) = some ((front.length : ℤ) + 2) :=
      int_eq_some (by unfold intMax; omega) (by omega)
    have hfirst : t[front.length + 1]? = some a := getElem?_front ht 1
    have hsecond : t[front.length + 2]? = some b := getElem?_front ht 2
    have hbyte : (16 * (hexValue a : ℤ) + hexValue b).toNat &&& 0xff = 16 * hexValue a + hexValue b := by
      have hvalue : (16 * (hexValue a : ℤ) + hexValue b).toNat = 16 * hexValue a + hexValue b := by omega
      have hsmall : 16 * hexValue a + hexValue b < 2 ^ 8 := by
        have := hexValue_lt a
        have := hexValue_lt b
        omega
      rw [hvalue]
      exact (Nat.and_two_pow_sub_one_eq_mod _ 8).trans (Nat.mod_eq_of_lt hsmall)
    have hpercent : t[front.length]? = some 37 := hget
    simp only [if_pos hlt, hpercent, hlast, hfirst, hsecond, hex2c_of_isHex ha, hex2c_of_isHex hb,
      Option.bind_eq_bind, Option.bind_some, reduceIte, if_neg (show ¬ (t.length : ℤ) ≤ front.length + 2 by omega),
      if_neg (show ¬ (hexValue a : ℤ) = -1 by omega), if_neg (show ¬ (hexValue b : ℤ) = -1 by omega), hbyte]
    rfl

theorem urldecodeLoop_pieces {ps : List Piece} (ht : t = front ++ (text ps ++ rest))
    (hmax : (t.length : ℤ) ≤ intMax) :
    urldecodeLoop t t.length front.length buf =
      urldecodeLoop t t.length (front ++ text ps).length (buf ++ bytes ps) := by
  induction ps generalizing front buf with
  | nil => rw [text_nil, bytes, List.map_nil, List.append_nil, List.append_nil]
  | cons p ps ih =>
    rw [text_cons, List.append_assoc] at ht
    have hnext : t = front ++ p.text ++ (text ps ++ rest) := by rw [ht, List.append_assoc]
    rw [urldecodeLoop_piece ht hmax, ih hnext, text_cons, bytes_cons, List.append_assoc, List.append_assoc]
    rfl

theorem urldecodeLoop_end : urldecodeLoop t t.length t.length buf = some (0, buf ++ [0]) := by
  rw [urldecodeLoop, if_neg (lt_irrefl _)]

/-- A percent sign without its digits: an error, or the sum is out of range. -/
theorem urldecodeLoop_broken (ht : t = front ++ 37 :: rest) (hrest : Broken rest) :
    urldecodeLoop t t.length front.length buf =
      if (front.length : ℤ) + 2 ≤ intMax then some (-1, buf) else none := by
  have hlen : t.length = front.length + (rest.length + 1) := by
    rw [ht, List.length_append, List.length_cons]
  have hlt : (front.length : ℤ) < t.length := by omega
  have hpercent : t[front.length]? = some 37 := getElem?_front ht 0
  rw [urldecodeLoop, if_pos hlt, hpercent]
  by_cases hmax : (front.length : ℤ) + 2 ≤ intMax
  · have hlast : int ((front.length : ℤ) + 2) = some ((front.length : ℤ) + 2) :=
      int_eq_some (by unfold intMax; omega) hmax
    rw [if_pos hmax]
    simp only [hlast, Option.bind_eq_bind, Option.bind_some, reduceIte]
    by_cases hend : (t.length : ℤ) ≤ front.length + 2
    · rw [if_pos hend]
    · rw [if_neg hend]
      match rest, ht, hlen, hrest with
      | [], _, hlen, _ => simp at hlen; omega
      | [_], _, hlen, _ => simp at hlen; omega
      | a :: b :: rest, ht, _, hrest =>
        have hfirst : t[front.length + 1]? = some a := getElem?_front ht 1
        have hsecond : t[front.length + 2]? = some b := getElem?_front ht 2
        rw [hfirst, hsecond]
        simp only [Option.bind_some]
        by_cases ha : IsHex a
        · have hb : ¬ IsHex b := fun hb => hrest a b rest rfl ⟨ha, hb⟩
          rw [hex2c_of_not_isHex hb, if_pos rfl, ite_self]
        · rw [hex2c_of_not_isHex ha, if_pos rfl]
  · rw [if_neg hmax]
    simp only [int_eq_none (not_le.1 hmax), Option.bind_eq_bind, Option.bind_some, Option.bind_none, reduceIte]

end Decode

theorem urldecode_eq {t : Bytes} (hmax : (t.length : ℤ) ≤ intMax) :
    urldecode t t.length = urldecodeLoop t t.length 0 [] := by
  rw [urldecode, int_eq_some (by unfold intMax; omega) hmax]
  rfl

theorem urldecode_too_long {t : Bytes} (h : intMax < (t.length : ℤ)) : urldecode t t.length = none := by
  rw [urldecode, int_eq_none h]
  rfl

theorem urldecode_text {ps : List Piece} (hmax : ((text ps).length : ℤ) ≤ intMax) :
    urldecode (text ps) (text ps).length = some (0, bytes ps ++ [0]) := by
  have hall := @urldecodeLoop_pieces (text ps) [] [] [] ps (List.append_nil _).symm hmax
  rw [urldecode_eq hmax]
  exact hall.trans urldecodeLoop_end

theorem urldecode_broken {t rest : Bytes} {ps : List Piece} (ht : t = text ps ++ 37 :: rest)
    (hrest : Broken rest) (hmax : (t.length : ℤ) ≤ intMax) :
    urldecode t t.length = if ((text ps).length : ℤ) + 2 ≤ intMax then some (-1, bytes ps) else none := by
  have hfront := @urldecodeLoop_pieces t [] (37 :: rest) [] ps ht hmax
  rw [urldecode_eq hmax]
  exact hfront.trans (urldecodeLoop_broken ht hrest)

/-! ## The coding of URLs -/

/-- What `urlencode` makes of the string is decoded to the string again, and there is an error for a
byte that is not printable. -/
def EncodesUrl (s : CStr) : Prop :=
  ((urlencode s).1 = 0 ↔ Printable s) ∧
    ((urlencode s).1 = 0 → ∃ text, (urlencode s).2 = text ++ [0] ∧
      urldecode text text.length = some (0, s ++ [0]))

/-- A well-formed text is decoded piece by piece, and there is an error for any other text. -/
def DecodesUrl (t : Bytes) : Prop :=
  ∃ err buf, urldecode t t.length = some (err, buf) ∧ (err = 0 ↔ WellFormed t) ∧
    (err = 0 → ∃ ps, t = text ps ∧ buf = bytes ps ++ [0])

def width (c : UInt8) : ℕ := if unreserved c then 1 else 3

theorem length_escape (s : CStr) : (s.flatMap escape).length = (s.map width).sum := by
  have hchar : ∀ c, (escape c).length = width c := by
    intro c
    rw [escape, width]
    split_ifs <;> rfl
  rw [List.length_flatMap]
  simp only [hchar]

theorem encodesUrl_iff (s : CStr) :
    EncodesUrl s ↔ (Printable s → ((s.map width).sum : ℤ) ≤ intMax) := by
  rw [EncodesUrl, urlencode_zero_iff, ← length_escape]
  constructor
  · rintro ⟨-, h⟩ hs
    obtain ⟨text, htext, hdecode⟩ := h hs
    rw [urlencode, urlencodeLoop_printable hs, List.nil_append] at htext
    obtain rfl := List.append_cancel_right htext
    by_contra hlong
    rw [urldecode_too_long (not_le.1 hlong)] at hdecode
    cases hdecode
  · intro h
    refine ⟨Iff.rfl, fun hs => ?_⟩
    obtain ⟨ps, htext, hbytes⟩ := exists_pieces s
    have hmax := h hs
    rw [← htext] at hmax
    refine ⟨text ps, ?_, ?_⟩
    · rw [urlencode, urlencodeLoop_printable hs, htext]
      rfl
    · rw [urldecode_text hmax, hbytes]

theorem broken_nil : Broken [] := by
  rintro a b cs ⟨⟩

theorem decodesUrl_iff (t : Bytes) :
    DecodesUrl t ↔ (t.length : ℤ) ≤ intMax ∧ ¬ ((t.length : ℤ) = intMax ∧ ∃ ps, t = text ps ++ [37]) := by
  constructor
  · rintro ⟨err, buf, hdecode, -⟩
    by_cases hmax : (t.length : ℤ) ≤ intMax
    · refine ⟨hmax, ?_⟩
      rintro ⟨hlast, ps, ht⟩
      have hlen : t.length = (text ps).length + 1 := by rw [ht, List.length_append, List.length_singleton]
      rw [urldecode_broken ht broken_nil hmax, if_neg (by omega)] at hdecode
      cases hdecode
    · rw [urldecode_too_long (not_le.1 hmax)] at hdecode
      cases hdecode
  · rintro ⟨hmax, hfits⟩
    obtain ⟨ps, rfl⟩ | ⟨ps, rest, ht, hrest⟩ := pieces_or_broken t
    · exact ⟨0, _, urldecode_text hmax, iff_of_true rfl (wellFormed_text ps), fun _ => ⟨ps, rfl, rfl⟩⟩
    · have hlen : t.length = (text ps).length + (rest.length + 1) := by
        rw [ht, List.length_append, List.length_cons]
      have hsum : ((text ps).length : ℤ) + 2 ≤ intMax := by
        by_contra hover
        have hempty : rest = [] := List.length_eq_zero_iff.1 (by omega)
        rw [hempty] at ht
        exact hfits ⟨by omega, ps, ht⟩
      have hill : ¬ WellFormed t := by
        rw [ht, wellFormed_text_append]
        exact not_wellFormed_of_broken hrest
      refine ⟨-1, bytes ps, ?_, iff_of_false (by decide) hill, fun h => by cases h⟩
      rw [urldecode_broken ht hrest hmax, if_pos hsum]

/-- For every string and every text. -/
theorem url_coding_iff (s : CStr) (t : Bytes) :
    EncodesUrl s ∧ DecodesUrl t ↔
      (Printable s → ((s.map width).sum : ℤ) ≤ intMax) ∧
        (t.length : ℤ) ≤ intMax ∧ ¬ ((t.length : ℤ) = intMax ∧ ∃ ps, t = text ps ++ [37]) :=
  and_congr (encodesUrl_iff s) (decodesUrl_iff t)

def percentAtEnd : Bytes := List.replicate 2147483646 97 ++ [37]

theorem replicate_plain (n : ℕ) : ∃ ps, List.replicate n 97 = text ps := by
  induction n with
  | zero => exact ⟨[], rfl⟩
  | succ n ih =>
    obtain ⟨ps, hps⟩ := ih
    exact ⟨.plain 97 (by decide) :: ps, by rw [List.replicate_succ, hps]; rfl⟩

/-- The sum `i + 2` is no `int` at the percent sign. -/
theorem not_decodesUrl_percentAtEnd : ¬ DecodesUrl percentAtEnd := by
  obtain ⟨ps, hps⟩ := replicate_plain 2147483646
  have hlength : percentAtEnd.length = 2147483647 := by
    rw [percentAtEnd, List.length_append, List.length_replicate, List.length_singleton]
  rw [decodesUrl_iff]
  rintro ⟨-, h⟩
  refine h ⟨by rw [hlength]; rfl, ps, ?_⟩
  rw [percentAtEnd, hps]

end Rcom
