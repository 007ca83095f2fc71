import Rcom.Lib.Rfc6455

/-!
# Headers of web socket frames

A header as a reader may find it, with the length in as many bytes as the sender chose. The bytes
say where it ends, so at most one header stands in front of a stream.
-/

namespace Rcom.Lib.Rfc6455
open ByteOrder

def sizeLength (code : ℕ) : ℕ := if code < 126 then 0 else if code = 126 then 2 else 8

structure Header where
  first : UInt8
  key : Option Key
  code : Fin 128
  size : Bytes
  length_size : size.length = sizeLength code

def secondByte (masked : Bool) (code : ℕ) : UInt8 := UInt8.ofNat ((if masked then 0x80 else 0) ||| code)

def lengthOf (code : ℕ) (size : Bytes) : ℕ := if code < 126 then code else ofLe size.reverse

namespace Header
def keyBytes (h : Header) : Bytes := h.key.elim [] fun key => [key 0, key 1, key 2, key 3]

def bytes (h : Header) : Bytes := h.first :: secondByte h.key.isSome h.code :: (h.size ++ h.keyBytes)

def payloadLength (h : Header) : ℕ := lengthOf h.code h.size

theorem length_keyBytes (h : Header) : h.keyBytes.length = if h.key.isSome then 4 else 0 := by
  rw [keyBytes]
  cases h.key <;> rfl

end Header

theorem toNat_secondByte (masked : Bool) {code : ℕ} (hcode : code < 128) :
    (secondByte masked code).toNat = (if masked then 128 else 0) + code := by
  rw [secondByte, UInt8.toNat_ofNat']
  cases masked with
  | false =>
    simp only [Bool.false_eq_true, if_false, Nat.zero_or]
    omega
  | true =>
    have hor : 0x80 ||| code = 128 + code := (Nat.two_pow_add_eq_or_of_lt (i := 7) hcode 1).symm
    simp only [if_true, hor]
    omega

theorem secondByte_inj {m m' : Bool} {c c' : Fin 128} (h : secondByte m c = secondByte m' c') :
    m = m' ∧ c = c' := by
  have hnat := congrArg UInt8.toNat h
  rw [toNat_secondByte m c.isLt, toNat_secondByte m' c'.isLt] at hnat
  have hc := c.isLt
  have hc' := c'.isLt
  cases m <;> cases m' <;> simp only [if_true, if_false, Bool.false_eq_true] at hnat
  · exact ⟨rfl, Fin.ext (by omega)⟩
  · omega
  · omega
  · exact ⟨rfl, Fin.ext (by omega)⟩

theorem exists_secondByte (b : UInt8) : ∃ (m : Bool) (c : Fin 128), b = secondByte m c := by
  have hb := b.toNat_lt
  refine ⟨decide (128 ≤ b.toNat), ⟨b.toNat % 128, Nat.mod_lt _ (by decide)⟩, UInt8.toNat_inj.1 ?_⟩
  rw [toNat_secondByte _ (Nat.mod_lt _ (by decide))]
  split_ifs with h
  · have hle := of_decide_eq_true h
    omega
  · have hlt := of_decide_eq_false (Bool.eq_false_iff.2 h)
    omega

namespace Header
variable {h k : Header} {d : Bytes}

theorem eq_of_prefix (hh : h.bytes <+: d) (hk : k.bytes <+: d) :
    h.bytes = k.bytes ∧ h.payloadLength = k.payloadLength := by
  obtain ⟨x, rfl⟩ := hh
  obtain ⟨y, hy⟩ := hk
  simp only [bytes, List.cons_append, List.append_assoc, List.cons.injEq] at hy
  obtain ⟨hfirst, hsecond, hrest⟩ := hy
  obtain ⟨hmasked, hcode⟩ := secondByte_inj hsecond
  have hsize : k.size.length = h.size.length := by rw [k.length_size, h.length_size, hcode]
  obtain ⟨hsize, hrest⟩ := List.append_inj hrest hsize
  have hkey : k.keyBytes.length = h.keyBytes.length := by rw [length_keyBytes, length_keyBytes, hmasked]
  obtain ⟨hkey, -⟩ := List.append_inj hrest hkey
  refine ⟨?_, ?_⟩
  · rw [bytes, bytes, hfirst, hsecond, hsize, hkey]
  · rw [payloadLength, payloadLength, hcode, hsize]

/-- A header is complete when the bytes that its second byte asks for are there. -/
theorem exists_of_length {first : UInt8} {m : Bool} {c : Fin 128} {rest : Bytes}
    (hlen : sizeLength c + (if m then 4 else 0) ≤ rest.length) :
    ∃ h : Header, h.bytes <+: first :: secondByte m c :: rest ∧ h.first = first ∧ h.key.isSome = m ∧
      h.code = c ∧ h.size = rest.take (sizeLength c) := by
  have hsize : (rest.take (sizeLength c)).length = sizeLength c := by
    rw [List.length_take]
    omega
  cases m with
  | false =>
    refine ⟨⟨first, none, c, _, hsize⟩, ?_, rfl, rfl, rfl, rfl⟩
    simp only [bytes, keyBytes, Option.elim_none, List.append_nil]
    exact (List.prefix_cons_inj _).2 ((List.prefix_cons_inj _).2 (List.take_prefix _ _))
  | true =>
    rw [if_pos rfl] at hlen
    obtain ⟨w, x, y, z, tail, htail⟩ : ∃ w x y z tail, rest.drop (sizeLength c) = w :: x :: y :: z :: tail := by
      have hdrop : 4 ≤ (rest.drop (sizeLength c)).length := by
        rw [List.length_drop]
        omega
      match rest.drop (sizeLength c), hdrop with
      | w :: x :: y :: z :: tail, _ => exact ⟨w, x, y, z, tail, rfl⟩
    refine ⟨⟨first, some fun j => [w, x, y, z].getD j 0, c, _, hsize⟩, ?_, rfl, rfl, rfl, rfl⟩
    have hrest : rest = rest.take (sizeLength c) ++ ([w, x, y, z] ++ tail) := by
      rw [List.cons_append, List.cons_append, List.cons_append, List.cons_append, List.nil_append, ← htail,
        List.take_append_drop]
    refine (List.prefix_cons_inj _).2 ((List.prefix_cons_inj _).2 ⟨tail, ?_⟩)
    rw [List.append_assoc]
    exact hrest.symm

end Header

end Rcom.Lib.Rfc6455
