import Mathlib.Data.Nat.Bitwise
import Mathlib.Data.List.Basic
import Mathlib.Tactic.Ring
import Rcom.Lib.Bytes

/-!
# Base 64 encoding

The text of bytes, through their bits: six of them to a character, zeros to fill up the last
character, and padding up to a multiple of four characters.
-/

namespace Rcom.Lib.Rfc4648

/-! ## Bits -/

/-- The `w` low bits of a number, most significant first. -/
def toBits : ℕ → ℕ → List Bool
  | 0, _ => []
  | w + 1, n => n.testBit w :: toBits w n

def ofBits (bs : List Bool) : ℕ := bs.foldl (fun n b => 2 * n + b.toNat) 0

@[simp] theorem length_toBits (w n : ℕ) : (toBits w n).length = w := by
  induction w with
  | zero => rfl
  | succ w ih => rw [toBits, List.length_cons, ih]

theorem toBits_add (v w n : ℕ) : toBits (v + w) n = toBits v (n / 2 ^ w) ++ toBits w n := by
  induction v with
  | zero => simp [toBits]
  | succ v ih => rw [Nat.succ_add, toBits, toBits, ih, List.cons_append, Nat.testBit_div_two_pow]

theorem toBits_mod (w n : ℕ) : toBits w (n % 2 ^ w) = toBits w n := by
  have hbits : ∀ v ≤ w, toBits v (n % 2 ^ w) = toBits v n := by
    intro v hv
    induction v with
    | zero => rfl
    | succ v ih =>
      rw [toBits, toBits, Nat.testBit_mod_two_pow, ih (by omega), decide_eq_true (by omega : v < w),
        Bool.true_and]
  exact hbits w le_rfl

theorem toBits_append (v w m n : ℕ) (hn : n < 2 ^ w) :
    toBits v m ++ toBits w n = toBits (v + w) (m * 2 ^ w + n) := by
  have hhigh : (m * 2 ^ w + n) / 2 ^ w = m := by
    rw [Nat.mul_comm, Nat.mul_add_div (Nat.two_pow_pos w), Nat.div_eq_of_lt hn, Nat.add_zero]
  have hlow : toBits w (m * 2 ^ w + n) = toBits w n := by
    rw [← toBits_mod, Nat.mul_add_mod_self_right, toBits_mod]
  rw [toBits_add, hhigh, hlow]

theorem foldl_bits (bs : List Bool) (n : ℕ) :
    bs.foldl (fun n b => 2 * n + b.toNat) n = n * 2 ^ bs.length + ofBits bs := by
  induction bs generalizing n with
  | nil => simp [ofBits]
  | cons b bs ih =>
    rw [ofBits, List.foldl_cons, List.foldl_cons, ih, ih (2 * 0 + b.toNat), List.length_cons, Nat.pow_succ]
    ring

theorem ofBits_cons (b : Bool) (bs : List Bool) :
    ofBits (b :: bs) = b.toNat * 2 ^ bs.length + ofBits bs := by
  rw [ofBits, List.foldl_cons, foldl_bits, Nat.mul_zero, Nat.zero_add]

theorem ofBits_lt (bs : List Bool) : ofBits bs < 2 ^ bs.length := by
  induction bs with
  | nil => decide
  | cons b bs ih =>
    have hb : b.toNat * 2 ^ bs.length ≤ 2 ^ bs.length :=
      (Nat.mul_le_mul_right _ b.toNat_le).trans_eq (Nat.one_mul _)
    rw [ofBits_cons, List.length_cons, Nat.pow_succ]
    omega

theorem ofBits_toBits (w n : ℕ) : ofBits (toBits w n) = n % 2 ^ w := by
  induction w with
  | zero => rw [Nat.pow_zero, Nat.mod_one]; rfl
  | succ w ih =>
    rw [toBits, ofBits_cons, length_toBits, ih, Nat.pow_succ, Nat.mod_mul, Nat.toNat_testBit]
    ring

theorem toBits_ofBits (bs : List Bool) : toBits bs.length (ofBits bs) = bs := by
  induction bs with
  | nil => rfl
  | cons b bs ih =>
    have hlt := ofBits_lt bs
    have hhigh : (b.toNat * 2 ^ bs.length + ofBits bs).testBit bs.length = b := by
      rw [Nat.mul_comm, Nat.testBit_two_pow_mul_add _ hlt, if_neg (lt_irrefl _), Nat.sub_self]
      cases b <;> rfl
    have hlow : toBits bs.length (b.toNat * 2 ^ bs.length + ofBits bs) = bs := by
      rw [← toBits_mod, Nat.mul_add_mod_self_right, toBits_mod, ih]
    rw [ofBits_cons, List.length_cons, toBits, hhigh, hlow]

/-! ## Groups of bits -/

/-- Groups of six bits, the last one filled up with zeros. -/
def sextets : List Bool → List (List Bool)
  | [] => []
  | a :: b :: c :: d :: e :: f :: bs => [a, b, c, d, e, f] :: sextets bs
  | bs => [bs ++ List.replicate (6 - bs.length) false]

/-- Groups of eight bits; what is left over stands for nothing. -/
def octets : List Bool → List (List Bool)
  | a :: b :: c :: d :: e :: f :: g :: h :: bs => [a, b, c, d, e, f, g, h] :: octets bs
  | _ => []

theorem sextets_append (n : ℕ) (bs : List Bool) :
    sextets (toBits 6 n ++ bs) = toBits 6 n :: sextets bs := rfl

theorem octets_append (n : ℕ) (bs : List Bool) :
    octets (toBits 8 n ++ bs) = toBits 8 n :: octets bs := rfl

theorem octets_short {bs : List Bool} (h : bs.length < 8) : octets bs = [] := by
  rw [octets.eq_def]
  split
  · simp only [List.length_cons] at h
    omega
  · rfl

theorem sextets_flatten (bs : List Bool) :
    ∃ k < 6, (sextets bs).flatten = bs ++ List.replicate k false := by
  fun_induction sextets bs with
  | case1 => exact ⟨0, by decide, rfl⟩
  | case2 a b c d e f bs ih =>
    obtain ⟨k, hk, heq⟩ := ih
    exact ⟨k, hk, by rw [List.flatten_cons, heq]; rfl⟩
  | case3 bs hne =>
    have hpos : 0 < bs.length := List.length_pos_iff.2 hne
    exact ⟨6 - bs.length, by omega, by rw [List.flatten_singleton]⟩

theorem length_lt_six {bs : List Bool}
    (h : ∀ a b c d e f (cs : List Bool), bs = a :: b :: c :: d :: e :: f :: cs → False) :
    bs.length < 6 := by
  by_contra hlong
  obtain ⟨a, cs, rfl⟩ := List.exists_cons_of_length_pos (l := bs) (by omega)
  obtain ⟨b, cs, rfl⟩ := List.exists_cons_of_length_pos (l := cs) (by simp at hlong; omega)
  obtain ⟨c, cs, rfl⟩ := List.exists_cons_of_length_pos (l := cs) (by simp at hlong; omega)
  obtain ⟨d, cs, rfl⟩ := List.exists_cons_of_length_pos (l := cs) (by simp at hlong; omega)
  obtain ⟨e, cs, rfl⟩ := List.exists_cons_of_length_pos (l := cs) (by simp at hlong; omega)
  obtain ⟨f, cs, rfl⟩ := List.exists_cons_of_length_pos (l := cs) (by simp at hlong; omega)
  exact h a b c d e f cs rfl

theorem length_of_mem_sextets {bs g : List Bool} (hg : g ∈ sextets bs) : g.length = 6 := by
  fun_induction sextets bs with
  | case1 => cases hg
  | case2 a b c d e f bs ih =>
    rcases List.mem_cons.1 hg with rfl | hg
    · rfl
    · exact ih hg
  | case3 bs hne hshort =>
    have hlt := length_lt_six hshort
    rw [List.mem_singleton.1 hg, List.length_append, List.length_replicate]
    omega

theorem length_sextets (bs : List Bool) : (sextets bs).length = (bs.length + 5) / 6 := by
  fun_induction sextets bs with
  | case1 => rfl
  | case2 a b c d e f bs ih =>
    simp only [List.length_cons, ih]
    omega
  | case3 bs hne hshort =>
    have hpos : 0 < bs.length := List.length_pos_iff.2 hne
    have hlt := length_lt_six hshort
    rw [List.length_singleton]
    omega

/-! ## Bytes and their text -/

structure Alphabet where
  chars : List UInt8
  pad : UInt8
  size : chars.length = 64
  nodup : chars.Nodup
  pad_not_mem : pad ∉ chars

def bits (s : Bytes) : List Bool := s.flatMap fun b => toBits 8 b.toNat

def byteOf (g : List Bool) : UInt8 := UInt8.ofNat (ofBits g)

theorem length_bits (s : Bytes) : (bits s).length = 8 * s.length := by
  induction s with
  | nil => rfl
  | cons b s ih =>
    rw [bits, List.flatMap_cons, List.length_append, length_toBits, ← bits, ih, List.length_cons]
    omega

theorem bits_cons (b : UInt8) (s : Bytes) : bits (b :: s) = toBits 8 b.toNat ++ bits s :=
  List.flatMap_cons

theorem byteOf_toBits (b : UInt8) : byteOf (toBits 8 b.toNat) = b := by
  have hb : b.toNat % 2 ^ 8 = b.toNat := Nat.mod_eq_of_lt b.toNat_lt
  rw [byteOf, ofBits_toBits, hb, UInt8.ofNat_toNat]

theorem octets_bits (s : Bytes) {rest : List Bool} (hrest : rest.length < 8) :
    (octets (bits s ++ rest)).map byteOf = s := by
  induction s with
  | nil =>
    rw [bits, List.flatMap_nil, List.nil_append, octets_short hrest]
    rfl
  | cons b s ih =>
    rw [bits_cons, List.append_assoc, octets_append, List.map_cons, ih, byteOf_toBits]

namespace Alphabet
variable (α : Alphabet)

def char (g : List Bool) : UInt8 := α.chars.getD (ofBits g) 0

def padding (chars : Bytes) : Bytes := List.replicate ((4 - chars.length % 4) % 4) α.pad

def encode (s : Bytes) : Bytes :=
  let chars := (sextets (bits s)).map α.char
  chars ++ α.padding chars

/-- What stands before the padding, if only characters of the alphabet do and the padding is the
right one. -/
def unpadded (text : Bytes) : Option Bytes :=
  let chars := text.takeWhile fun c => c ≠ α.pad
  if text = chars ++ α.padding chars ∧ chars.length % 4 ≠ 1 ∧ chars.all (· ∈ α.chars) then some chars
  else none

def decode (text : Bytes) : Option Bytes :=
  (α.unpadded text).map fun chars =>
    (octets (chars.flatMap fun c => toBits 6 (α.chars.idxOf c))).map byteOf

variable {α}

theorem ofBits_lt_size {g : List Bool} (hg : g.length = 6) : ofBits g < α.chars.length := by
  have hlt := ofBits_lt g
  rw [hg] at hlt
  rw [α.size]
  exact hlt

theorem char_eq {g : List Bool} (hg : g.length = 6) :
    α.char g = α.chars.get ⟨ofBits g, ofBits_lt_size hg⟩ := by
  rw [char, List.getD_eq_getElem?_getD, List.getElem?_eq_getElem (ofBits_lt_size hg)]
  rfl

theorem char_mem {g : List Bool} (hg : g.length = 6) : α.char g ∈ α.chars := by
  rw [char_eq hg]
  exact List.get_mem _ _

theorem toBits_char {g : List Bool} (hg : g.length = 6) : toBits 6 (α.chars.idxOf (α.char g)) = g := by
  have hindex : α.chars.idxOf (α.char g) = ofBits g := by
    rw [char_eq hg]
    exact α.nodup.idxOf_getElem _ (ofBits_lt_size hg)
  rw [hindex, ← hg, toBits_ofBits]

theorem mem_chars_of_mem {s : Bytes} {c : UInt8} (hc : c ∈ (sextets (bits s)).map α.char) :
    c ∈ α.chars := by
  obtain ⟨g, hg, rfl⟩ := List.mem_map.1 hc
  exact char_mem (length_of_mem_sextets hg)

theorem takeWhile_padding {chars : Bytes} (h : ∀ c ∈ chars, c ∈ α.chars) :
    (chars ++ α.padding chars).takeWhile (fun c => c ≠ α.pad) = chars := by
  have hne : ∀ c ∈ chars, (decide (c ≠ α.pad)) = true := by
    intro c hc
    refine decide_eq_true ?_
    rintro rfl
    exact α.pad_not_mem (h _ hc)
  rw [List.takeWhile_append_of_pos hne, padding]
  cases (4 - chars.length % 4) % 4 with
  | zero => simp
  | succ k => simp [List.replicate_succ]

theorem length_padding (chars : Bytes) :
    (chars ++ α.padding chars).length = 4 * ((chars.length + 3) / 4) := by
  rw [List.length_append, padding, List.length_replicate]
  omega

theorem length_encode (s : Bytes) : (α.encode s).length = 4 * ((s.length + 2) / 3) := by
  rw [encode, length_padding, List.length_map, length_sextets, length_bits]
  omega

theorem unpadded_encode (s : Bytes) : α.unpadded (α.encode s) = some ((sextets (bits s)).map α.char) := by
  have hmem := fun c => @mem_chars_of_mem α s c
  have hlength : ((sextets (bits s)).map α.char).length % 4 ≠ 1 := by
    rw [List.length_map, length_sextets, length_bits]
    omega
  have hall : ((sextets (bits s)).map α.char).all (· ∈ α.chars) = true :=
    List.all_eq_true.2 fun c hc => decide_eq_true (hmem c hc)
  rw [unpadded, encode]
  rw [takeWhile_padding hmem, if_pos ⟨rfl, hlength, hall⟩]

theorem flatMap_char {gs : List (List Bool)} (hgs : ∀ g ∈ gs, g.length = 6) :
    (gs.map α.char).flatMap (fun c => toBits 6 (α.chars.idxOf c)) = gs.flatten := by
  induction gs with
  | nil => rfl
  | cons g gs ih =>
    rw [List.map_cons, List.flatMap_cons, List.flatten_cons, toBits_char (hgs g (by simp)),
      ih fun g hg => hgs g (List.mem_cons_of_mem _ hg)]

theorem decode_encode (s : Bytes) : α.decode (α.encode s) = some s := by
  obtain ⟨k, hk, hflat⟩ := sextets_flatten (bits s)
  have hzeros : (List.replicate k false).length < 8 := by
    rw [List.length_replicate]
    omega
  rw [decode, unpadded_encode, Option.map_some, flatMap_char fun g => length_of_mem_sextets, hflat,
    octets_bits s hzeros]

end Alphabet

end Rcom.Lib.Rfc4648
