import Rcom.Lib.Absorb
import Rcom.Lib.ByteOrder

/-!
# The secure hash algorithm SHA-1

The digest of a message, in the words of the standard: 32-bit words, the functions and constants
of the eighty rounds, the message schedule, and the padding of the message to blocks of 64 bytes.
-/

namespace Rcom.Lib.Fips180

/-- `ROTL` of the standard. -/
def rotl (n x : UInt32) : UInt32 := x <<< n ||| x >>> (32 - n)

def ch (x y z : UInt32) : UInt32 := (x &&& y) ^^^ (~~~x &&& z)

def parity (x y z : UInt32) : UInt32 := x ^^^ y ^^^ z

def maj (x y z : UInt32) : UInt32 := (x &&& y) ^^^ (x &&& z) ^^^ (y &&& z)

/-- The function of round `t`. -/
def func (t : ℕ) (x y z : UInt32) : UInt32 :=
  if t < 20 then ch x y z else if t < 40 then parity x y z
  else if t < 60 then maj x y z else parity x y z

/-- The constant of round `t`. -/
def const (t : ℕ) : UInt32 :=
  if t < 20 then 0x5A827999 else if t < 40 then 0x6ED9EBA1
  else if t < 60 then 0x8F1BBCDC else 0xCA62C1D6

def schedule (m : Fin 16 → UInt32) (t : ℕ) : UInt32 :=
  if h : t < 16 then m ⟨t, h⟩
  else rotl 1 (schedule m (t - 3) ^^^ schedule m (t - 8) ^^^ schedule m (t - 14) ^^^
    schedule m (t - 16))
termination_by t

theorem schedule_low (m : Fin 16 → UInt32) {t : ℕ} (h : t < 16) : schedule m t = m ⟨t, h⟩ := by
  rw [schedule, dif_pos h]

theorem schedule_high (m : Fin 16 → UInt32) (t : ℕ) :
    schedule m (t + 16) = rotl 1 (schedule m (t + 13) ^^^ schedule m (t + 8) ^^^ schedule m (t + 2) ^^^
      schedule m t) := by
  rw [schedule, dif_neg (by omega)]
  rfl

structure Hash where
  a : UInt32
  b : UInt32
  c : UInt32
  d : UInt32
  e : UInt32
deriving DecidableEq

instance : Add Hash := ⟨fun g h => ⟨g.a + h.a, g.b + h.b, g.c + h.c, g.d + h.d, g.e + h.e⟩⟩

def round (t : ℕ) (w : UInt32) (h : Hash) : Hash :=
  ⟨rotl 5 h.a + func t h.b h.c h.d + h.e + const t + w, h.a, rotl 30 h.b, h.c, h.d⟩

def rounds (m : Fin 16 → UInt32) (h : Hash) : ℕ → Hash
  | 0 => h
  | t + 1 => round t (schedule m t) (rounds m h t)

def words (block : Bytes) (i : Fin 16) : UInt32 :=
  UInt32.ofNat (ByteOrder.ofLe ((block.drop (4 * i)).take 4).reverse)

def compress (h : Hash) (block : Bytes) : Hash := h + rounds (words block) h 80

def initial : Hash := ⟨0x67452301, 0xEFCDAB89, 0x98BADCFE, 0x10325476, 0xC3D2E1F0⟩

/-- A one, zeros up to 56 bytes modulo 64, and the length of the message in 64 bits. -/
def padding (length : ℕ) : Bytes :=
  0x80 :: List.replicate ((119 - length % 64) % 64) 0 ++ (ByteOrder.toLe 8 (8 * length)).reverse

def pad (message : Bytes) : Bytes := message ++ padding message.length

def wordBytes (w : UInt32) : Bytes := (ByteOrder.toLe 4 w.toNat).reverse

def Hash.bytes (h : Hash) : Bytes :=
  wordBytes h.a ++ wordBytes h.b ++ wordBytes h.c ++ wordBytes h.d ++ wordBytes h.e

def sha1 (message : Bytes) : Bytes := ((blocks 64 (pad message)).foldl compress initial).bytes

theorem length_padding (length : ℕ) : (length + (padding length).length) % 64 = 0 := by
  rw [padding, List.length_append, List.length_cons, List.length_replicate, List.length_reverse,
    ByteOrder.length_toLe]
  omega

theorem length_bytes (h : Hash) : h.bytes.length = 20 := by
  simp [Hash.bytes, wordBytes]

/-- The digest, by an absorber that is given the message and then the padding. -/
theorem sha1_eq_absorb (message : Bytes) (a : Absorber Hash UInt8 64) (hstate : a.state = initial)
    (hrest : a.rest = []) :
    sha1 message = ((a.absorb compress message).absorb compress (padding message.length)).state.bytes := by
  have hdvd : 64 ∣ (message ++ padding message.length).length := by
    rw [List.length_append]
    exact Nat.dvd_of_mod_eq_zero (length_padding message.length)
  rw [← Absorber.absorb_append, Absorber.absorb_whole compress a hrest _ hdvd, hstate]
  rfl

end Rcom.Lib.Fips180
