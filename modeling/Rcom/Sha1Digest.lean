import Rcom.Sha1

/-!
# The digest of a message (sha1.c, util.c)

A message is given to the context in any number of pieces. The counter of bits and the positions
in the buffer are unsigned 32-bit numbers, and so is the length of a piece.
-/

namespace Rcom.Sha1
open Rcom.Lib

abbrev Buffer := { bytes : Bytes // bytes.length = 64 }

/-- `SHA1_CTX` -/
structure Context where
  state : Vector UInt32 5
  count : Vector UInt32 2
  buffer : Buffer

/-- The bytes of a piece; their number is the argument `len`. -/
abbrev Piece := { data : Bytes // data.length < 2 ^ 32 }

/-- The bytes from `i` on; none of them is past the end. -/
def read (data : Bytes) (i n : ℕ) : Exec Bytes :=
  if i + n ≤ data.length then some ((data.drop i).take n) else none

/-- `memcpy(&buffer[j], src, n)` -/
def copyInto (buffer : Buffer) (j : ℕ) (src : Bytes) : Exec Buffer :=
  if h : j + src.length ≤ 64 then
    some ⟨splice buffer.1 j src, by rw [splice_length (by rwa [buffer.2]), buffer.2]⟩
  else none

/-- The context that is initialized keeps what is in its buffer. -/
def sha1Init (buffer : Buffer) : Context where
  state := #v[0x67452301, 0xEFCDAB89, 0x98BADCFE, 0x10325476, 0xC3D2E1F0]
  count := #v[0, 0]
  buffer := buffer

/-- `for ( ; i + 63 < len; i += 64) SHA1Transform(state, &data[i])`; the first argument bounds
the number of rounds. -/
def updateLoop (order : Order) (data : Bytes) (len : UInt32) :
    ℕ → Vector UInt32 5 → UInt32 → Exec (Vector UInt32 5 × UInt32)
  | 0, _, _ => none
  | fuel + 1, state, i =>
    if i + 63 < len then do
      let block ← read data i.toNat 64
      updateLoop order data len fuel (sha1Transform order state block) (i + 64)
    else some (state, i)

/-- `if ((count[0] += len << 3) < j) count[1]++; count[1] += (len >> 29);` -/
def addBits (count : Vector UInt32 2) (len : UInt32) : Vector UInt32 2 :=
  let j := count[0]
  let count0 := j + (len <<< 3)
  let count1 := if count0 < j then count[1] + 1 else count[1]
  #v[count0, count1 + (len >>> 29)]

def sha1Update (order : Order) (context : Context) (piece : Piece) : Exec Context := do
  let data := piece.1
  let len := UInt32.ofNat data.length
  let count := addBits context.count len
  let j := (context.count[0] >>> 3) &&& 63
  if 63 < j + len then
    let i := 64 - j
    let front ← read data 0 i.toNat
    let buffer ← copyInto context.buffer j.toNat front
    let (state, i) ← updateLoop order data len data.length (sha1Transform order context.state buffer.1) i
    let rest ← read data i.toNat (len - i).toNat
    let buffer ← copyInto buffer 0 rest
    return ⟨state, count, buffer⟩
  else
    let rest ← read data 0 len.toNat
    let buffer ← copyInto context.buffer j.toNat rest
    return ⟨context.state, count, buffer⟩

/-- `finalcount`, the eight bytes of the counter. -/
def finalcount (context : Context) : Bytes :=
  (List.range 8).map fun i =>
    ((if i ≥ 4 then context.count[0] else context.count[1]) >>>
      UInt32.ofNat ((3 - (i &&& 3)) * 8) &&& 255).toUInt8

/-- `while ((context->count[0] & 504) != 448)`, with a bound on the number of rounds. -/
def padLoop (order : Order) : ℕ → Context → Exec Context
  | 0, _ => none
  | fuel + 1, context =>
    if context.count[0] &&& 504 ≠ 448 then do
      let context ← sha1Update order context ⟨[0], by decide⟩
      padLoop order fuel context
    else some context

theorem length_finalcount (context : Context) : (finalcount context).length = 8 := by
  rw [finalcount, List.length_map, List.length_range]

/-- The digest; the context is wiped. -/
def sha1Final (order : Order) (context : Context) : Exec Bytes := do
  let counter := finalcount context
  let context ← sha1Update order context ⟨[0o200], by decide⟩
  let context ← padLoop order 64 context
  let context ← sha1Update order context ⟨counter, by rw [length_finalcount]; decide⟩
  return (List.range 20).map fun i =>
    (context.state.toList.getD (i >>> 2) 0 >>> UInt32.ofNat ((3 - (i &&& 3)) * 8) &&& 255).toUInt8

/-- `SHA1`: the number of the bytes is cut down to 32 bits. -/
def sha1 (order : Order) (buffer : Buffer) (s : CStr) : Exec Bytes := do
  let context ← sha1Update order (sha1Init buffer)
    ⟨s.take (s.length % 2 ^ 32), (List.length_take_le _ _).trans_lt (Nat.mod_lt _ (by decide))⟩
  sha1Final order context

/-! ## A context and the stream it has been given -/

abbrev Absorbed := Absorber Fips180.Hash UInt8 64

/-- The context after `n` bytes, of which this absorber is the outcome. -/
structure Holds (context : Context) (n : ℕ) (a : Absorbed) : Prop where
  state : hashOf context.state = a.state
  front : context.buffer.1.take a.rest.length = a.rest
  pos : a.rest.length = n % 64
  count : context.count[1].toNat * 2 ^ 32 + context.count[0].toNat = 8 * n % 2 ^ 64

theorem Holds.position {context : Context} {n : ℕ} {a : Absorbed} (h : Holds context n a) :
    ((context.count[0] >>> 3) &&& 63).toNat = n % 64 := by
  have hcount := h.count
  have hlt := context.count[0].toNat_lt
  have hmask : ((context.count[0] >>> 3) &&& 63).toNat = context.count[0].toNat / 2 ^ 3 % 64 := by
    rw [UInt32.toNat_and, UInt32.toNat_shiftRight]
    exact (Nat.and_two_pow_sub_one_eq_mod _ 6).trans (by rw [Nat.shiftRight_eq_div_pow]; rfl)
  rw [hmask]
  omega

/-- Addition of a two-word number, with the carry that the source looks for. -/
theorem carry_add {c0 c1 lo hi : ℕ} (hc0 : c0 < 2 ^ 32) (hlo : lo < 2 ^ 32) :
    ((if (c0 + lo) % 2 ^ 32 < c0 then (c1 + 1) % 2 ^ 32 else c1) + hi) % 2 ^ 32 * 2 ^ 32 +
      (c0 + lo) % 2 ^ 32 = (c1 * 2 ^ 32 + c0 + (hi * 2 ^ 32 + lo)) % 2 ^ 64 := by
  by_cases hlt : c0 + lo < 2 ^ 32
  · rw [Nat.mod_eq_of_lt hlt, if_neg (by omega)]
    omega
  · have hmod : (c0 + lo) % 2 ^ 32 = c0 + lo - 2 ^ 32 := by omega
    rw [hmod, if_pos (by omega)]
    omega

theorem count_addBits (count : Vector UInt32 2) {n m : ℕ}
    (h : count[1].toNat * 2 ^ 32 + count[0].toNat = 8 * n % 2 ^ 64) (hm : m < 2 ^ 32) :
    (addBits count (UInt32.ofNat m))[1].toNat * 2 ^ 32 + (addBits count (UInt32.ofNat m))[0].toNat =
      8 * (n + m) % 2 ^ 64 := by
  have hlen : (UInt32.ofNat m).toNat = m := UInt32.toNat_ofNat_of_lt' hm
  have hlow : (UInt32.ofNat m <<< 3).toNat = m * 8 % 2 ^ 32 := by
    rw [UInt32.toNat_shiftLeft, hlen, Nat.shiftLeft_eq]
    rfl
  have hhigh : (UInt32.ofNat m >>> 29).toNat = m / 2 ^ 29 := by
    rw [UInt32.toNat_shiftRight, hlen, Nat.shiftRight_eq_div_pow]
    rfl
  have hparts : m / 2 ^ 29 * 2 ^ 32 + m * 8 % 2 ^ 32 = 8 * m := by
    have hdiv : m * 8 / (2 ^ 29 * 8) = m / 2 ^ 29 := Nat.mul_div_mul_right _ _ (by decide)
    rw [← hdiv, Nat.mul_comm 8 m]
    exact Nat.div_add_mod' (m * 8) (2 ^ 32)
  have hcarry : (if count[0] + (UInt32.ofNat m <<< 3) < count[0] then count[1] + 1 else count[1]).toNat =
      if (count[0].toNat + m * 8 % 2 ^ 32) % 2 ^ 32 < count[0].toNat then (count[1].toNat + 1) % 2 ^ 32
      else count[1].toNat := by
    simp only [apply_ite UInt32.toNat, UInt32.lt_iff_toNat_lt, UInt32.toNat_add, hlow]
    rfl
  have h0 : (addBits count (UInt32.ofNat m))[0].toNat = (count[0].toNat + m * 8 % 2 ^ 32) % 2 ^ 32 := by
    rw [← hlow]
    exact UInt32.toNat_add _ _
  have h1 : (addBits count (UInt32.ofNat m))[1].toNat =
      ((if (count[0].toNat + m * 8 % 2 ^ 32) % 2 ^ 32 < count[0].toNat then (count[1].toNat + 1) % 2 ^ 32
        else count[1].toNat) + m / 2 ^ 29) % 2 ^ 32 := by
    rw [← hcarry, ← hhigh]
    exact UInt32.toNat_add _ _
  rw [h0, h1, carry_add count[0].toNat_lt (Nat.mod_lt _ (by decide)), h, hparts, Nat.mod_add_mod,
    ← Nat.mul_add]

/-! ## One piece -/

theorem read_eq (data : Bytes) {i n : ℕ} (h : i + n ≤ data.length) : read data i n = some ((data.drop i).take n) :=
  if_pos h

theorem copyInto_eq (buffer : Buffer) {j : ℕ} {src : Bytes} (h : j + src.length ≤ 64) :
    ∃ b, copyInto buffer j src = some b ∧ b.1 = splice buffer.1 j src :=
  ⟨_, dif_pos h, rfl⟩

theorem copyInto_none {buffer : Buffer} {j : ℕ} {src : Bytes} (h : 64 < j + src.length) :
    copyInto buffer j src = none :=
  dif_neg (Nat.not_le.2 h)

/-- The loop takes the whole blocks that are left, whatever the position it starts from. -/
theorem updateLoop_eq (order : Order) {data : Bytes} {j : ℕ} (hj : j + data.length < 2 ^ 32) (fuel : ℕ)
    (state : Vector UInt32 5) {i : UInt32} (hi : i.toNat ≤ data.length) (hblock : (i.toNat + j) % 64 = 0)
    (hfuel : data.length < i.toNat + 64 * fuel) :
    ∃ state' i', updateLoop order data (UInt32.ofNat data.length) fuel state i = some (state', i') ∧
      i'.toNat ≤ data.length ∧ data.length < i'.toNat + 64 ∧ (i'.toNat + j) % 64 = 0 ∧
      ∀ a : Absorbed, a.state = hashOf state → a.rest = [] → ∃ a' : Absorbed,
        a'.state = hashOf state' ∧ a'.rest = [] ∧
          a.absorb Fips180.compress (data.drop i.toNat) = a'.absorb Fips180.compress (data.drop i'.toNat) := by
  induction fuel generalizing state i with
  | zero => omega
  | succ fuel ih =>
    have hlen : (UInt32.ofNat data.length).toNat = data.length :=
      UInt32.toNat_ofNat_of_lt' (by show data.length < 2 ^ 32; omega)
    have h63 : (i + 63).toNat = i.toNat + 63 := by
      rw [UInt32.toNat_add]
      exact Nat.mod_eq_of_lt (by show i.toNat + 63 < 2 ^ 32; omega)
    rw [updateLoop]
    by_cases hlt : i + 63 < UInt32.ofNat data.length
    · rw [if_pos hlt]
      rw [UInt32.lt_iff_toNat_lt, h63, hlen] at hlt
      have h64 : (i + 64).toNat = i.toNat + 64 := by
        rw [UInt32.toNat_add]
        exact Nat.mod_eq_of_lt (by show i.toNat + 64 < 2 ^ 32; omega)
      have hread : read data i.toNat 64 = some ((data.drop i.toNat).take 64) := read_eq data (by omega)
      have hblen : ((data.drop i.toNat).take 64).length = 64 := by
        rw [List.length_take, List.length_drop]
        omega
      obtain ⟨state', i', hloop, hle, hrest, hend, habsorb⟩ :=
        ih (sha1Transform order state ((data.drop i.toNat).take 64)) (i := i + 64)
          (by omega) (by omega) (by omega)
      refine ⟨state', i', by rw [hread]; exact hloop, hle, hrest, hend, fun a hstate ha => ?_⟩
      have hsplit : data.drop i.toNat = (data.drop i.toNat).take 64 ++ data.drop (i + 64).toNat := by
        rw [h64, ← List.drop_drop, List.take_append_drop]
      have hfull : (a.rest ++ (data.drop i.toNat).take 64).length = 64 := by
        rw [ha, List.nil_append, hblen]
      have hnext : Fips180.compress a.state (a.rest ++ (data.drop i.toNat).take 64) =
          hashOf (sha1Transform order state ((data.drop i.toNat).take 64)) := by
        rw [ha, List.nil_append, hstate, sha1Transform_eq order state hblen]
      rw [hsplit, Absorber.absorb_append, Absorber.absorb_block _ a _ hfull]
      exact habsorb _ hnext rfl
    · rw [if_neg hlt]
      rw [UInt32.lt_iff_toNat_lt, h63, hlen] at hlt
      exact ⟨state, i, rfl, hi, by omega, hblock, fun a hstate ha => ⟨a, hstate, ha, rfl⟩⟩

/-- The sum `j + len` of the source does not wrap around. -/
def Fits (n : ℕ) (piece : Piece) : Prop := n % 64 + piece.1.length < 2 ^ 32

instance (n : ℕ) (piece : Piece) : Decidable (Fits n piece) :=
  inferInstanceAs (Decidable (_ < _))

theorem Holds.sum {context : Context} {n : ℕ} {a : Absorbed} (h : Holds context n a) {data : Bytes}
    (hfits : n % 64 + data.length < 2 ^ 32) :
    (((context.count[0] >>> 3) &&& 63) + UInt32.ofNat data.length).toNat = n % 64 + data.length := by
  have hlen : (UInt32.ofNat data.length).toNat = data.length :=
    UInt32.toNat_ofNat_of_lt' (by show data.length < 2 ^ 32; omega)
  rw [UInt32.toNat_add, h.position, hlen]
  exact Nat.mod_eq_of_lt hfits

/-- The first bytes of a long piece complete the block in the buffer. -/
theorem Holds.fill {context : Context} {n : ℕ} {a : Absorbed} (h : Holds context n a) {data : Bytes}
    (hlong : 64 ≤ n % 64 + data.length) :
    ∃ b : Buffer, copyInto context.buffer (n % 64) (data.take (64 - n % 64)) = some b ∧
      b.1 = a.rest ++ data.take (64 - n % 64) := by
  have hn : n % 64 < 64 := Nat.mod_lt n (by decide)
  have hbuflen := context.buffer.2
  have hfront : (data.take (64 - n % 64)).length = 64 - n % 64 := List.length_take_of_le (by omega)
  obtain ⟨b, hcopy, hb⟩ := copyInto_eq context.buffer (show n % 64 + (data.take (64 - n % 64)).length ≤ 64 by omega)
  have htake := take_splice_end (data.take (64 - n % 64)) (show n % 64 ≤ context.buffer.1.length by omega)
  rw [← hb, hfront, List.take_of_length_le (by rw [b.2]; omega), ← h.pos, h.front] at htake
  exact ⟨b, hcopy, by rw [htake, h.pos]⟩

/-- A piece that leaves the block incomplete is copied behind the bytes before it. -/
theorem Holds.update_short {context : Context} {n : ℕ} {a : Absorbed} (h : Holds context n a)
    (order : Order) {data : Bytes} (hdata : data.length < 2 ^ 32) (hshort : n % 64 + data.length < 64) :
    ∃ context', sha1Update order context ⟨data, hdata⟩ = some context' ∧
      Holds context' (n + data.length) (a.absorb Fips180.compress data) := by
  have hlen : (UInt32.ofNat data.length).toNat = data.length := UInt32.toNat_ofNat_of_lt' hdata
  have hbuflen := context.buffer.2
  have hpos := h.pos
  have hfull : ¬ (63 : UInt32) < ((context.count[0] >>> 3) &&& 63) + UInt32.ofNat data.length := by
    rw [UInt32.lt_iff_toNat_lt, h.sum (by omega)]
    exact Nat.not_lt.2 (Nat.le_of_lt_succ hshort)
  obtain ⟨b, hcopy, hb⟩ := copyInto_eq context.buffer (show n % 64 + data.length ≤ 64 by omega)
  have hread : read data 0 data.length = some data := by
    rw [read_eq data (by omega), List.drop_zero, List.take_length]
  have hrest : (a.rest ++ data).length < 64 := by rw [List.length_append]; omega
  refine ⟨⟨context.state, addBits context.count (UInt32.ofNat data.length), b⟩, ?_, ?_⟩
  · simp only [sha1Update, if_neg hfull, hlen, h.position, hread, hcopy, Option.bind_eq_bind,
      Option.bind_some]
    rfl
  · rw [Absorber.absorb_short _ a data hrest]
    refine ⟨h.state, ?_, ?_, count_addBits context.count h.count hdata⟩
    · show b.1.take (a.rest ++ data).length = a.rest ++ data
      rw [hb, List.length_append, hpos, take_splice_end data (by omega), ← hpos, h.front]
    · show (a.rest ++ data).length = (n + data.length) % 64
      rw [List.length_append, hpos]
      omega

/-- A piece that completes the block goes through the loop, and its last bytes to the front of the
buffer. -/
theorem Holds.update_long {context : Context} {n : ℕ} {a : Absorbed} (h : Holds context n a)
    (order : Order) {data : Bytes} (hdata : data.length < 2 ^ 32)
    (hfits : n % 64 + data.length < 2 ^ 32) (hlong : 64 ≤ n % 64 + data.length) :
    ∃ context', sha1Update order context ⟨data, hdata⟩ = some context' ∧
      Holds context' (n + data.length) (a.absorb Fips180.compress data) := by
  have hj := h.position
  have hn : n % 64 < 64 := Nat.mod_lt n (by decide)
  have hlen : (UInt32.ofNat data.length).toNat = data.length := UInt32.toNat_ofNat_of_lt' hdata
  have hfull : (63 : UInt32) < ((context.count[0] >>> 3) &&& 63) + UInt32.ofNat data.length := by
    rw [UInt32.lt_iff_toNat_lt, h.sum hfits]
    exact hlong
  have hi : ((64 : UInt32) - ((context.count[0] >>> 3) &&& 63)).toNat = 64 - n % 64 := by
    have hle : ((context.count[0] >>> 3) &&& 63) ≤ (64 : UInt32) := by
      rw [UInt32.le_iff_toNat_le, hj]
      exact hn.le
    rw [UInt32.toNat_sub_of_le _ _ hle, hj]
    rfl
  have hread : read data 0 (64 - n % 64) = some (data.take (64 - n % 64)) := by
    rw [read_eq data (by omega), List.drop_zero]
  obtain ⟨b, hcopy, hblock⟩ := h.fill hlong
  have hblen : (a.rest ++ data.take (64 - n % 64)).length = 64 := by rw [← hblock, b.2]
  -- whole blocks of the piece follow
  obtain ⟨state', i', hloop, hle, hrest, hend, habsorb⟩ := updateLoop_eq order hfits data.length
    (sha1Transform order context.state b.1)
    (i := (64 : UInt32) - ((context.count[0] >>> 3) &&& 63)) (by omega) (by omega) (by omega)
  obtain ⟨a', hstate', ha', heq⟩ := habsorb
    ⟨hashOf (sha1Transform order context.state b.1), [], by decide⟩ rfl rfl
  have hi' : (UInt32.ofNat data.length - i').toNat = data.length - i'.toNat := by
    rw [UInt32.toNat_sub_of_le _ _ (UInt32.le_iff_toNat_le.2 (by rw [hlen]; exact hle)), hlen]
  have hlast : read data i'.toNat (data.length - i'.toNat) = some (data.drop i'.toNat) := by
    rw [read_eq data (by omega), List.take_of_length_le (by rw [List.length_drop])]
  obtain ⟨b', hcopy', hb'⟩ := copyInto_eq b
    (show 0 + (data.drop i'.toNat).length ≤ 64 by rw [List.length_drop]; omega)
  have hshort : (a'.rest ++ data.drop i'.toNat).length < 64 := by
    rw [ha', List.nil_append, List.length_drop]
    omega
  have hall : a.absorb Fips180.compress data = ⟨a'.state, a'.rest ++ data.drop i'.toNat, hshort⟩ := by
    have hcompress : Fips180.compress a.state (a.rest ++ data.take (64 - n % 64)) =
        hashOf (sha1Transform order context.state b.1) := by
      rw [sha1Transform_eq order context.state b.2, ← hblock, h.state]
    rw [← Absorber.absorb_short _ a' _ hshort, ← heq, hi]
    conv_lhs => rw [← List.take_append_drop (64 - n % 64) data]
    rw [Absorber.absorb_append, Absorber.absorb_block _ a _ hblen, hcompress]
  refine ⟨⟨state', addBits context.count (UInt32.ofNat data.length), b'⟩, ?_, ?_⟩
  · simp only [sha1Update, if_pos hfull, hi, hj, hread, hcopy, hloop, hi', hlast, hcopy',
      Option.bind_eq_bind, Option.bind_some]
    rfl
  · rw [hall]
    refine ⟨hstate'.symm, ?_, ?_, count_addBits context.count h.count hdata⟩
    · show b'.1.take (a'.rest ++ data.drop i'.toNat).length = a'.rest ++ data.drop i'.toNat
      rw [ha', List.nil_append, hb', splice_zero, List.take_left]
    · show (a'.rest ++ data.drop i'.toNat).length = (n + data.length) % 64
      rw [ha', List.nil_append, List.length_drop]
      omega

theorem Holds.update {context : Context} {n : ℕ} {a : Absorbed} (h : Holds context n a) (order : Order)
    (piece : Piece) (hfits : Fits n piece) :
    ∃ context', sha1Update order context piece = some context' ∧
      Holds context' (n + piece.1.length) (a.absorb Fips180.compress piece.1) := by
  obtain ⟨data, hdata⟩ := piece
  by_cases hshort : n % 64 + data.length < 64
  · exact h.update_short order hdata hshort
  · exact h.update_long order hdata hfits (Nat.le_of_not_lt hshort)

/-- A sum that wraps around sends the whole piece past the end of the buffer. -/
theorem Holds.update_none {context : Context} {n : ℕ} {a : Absorbed} (h : Holds context n a)
    (order : Order) {piece : Piece} (hfits : ¬ Fits n piece) : sha1Update order context piece = none := by
  obtain ⟨data, hdata⟩ := piece
  have hj := h.position
  have hlen : (UInt32.ofNat data.length).toNat = data.length := UInt32.toNat_ofNat_of_lt' hdata
  have hwrap : 2 ^ 32 ≤ n % 64 + data.length := Nat.le_of_not_lt hfits
  have hsum : (((context.count[0] >>> 3) &&& 63) + UInt32.ofNat data.length).toNat =
      n % 64 + data.length - 2 ^ 32 := by
    rw [UInt32.toNat_add, hj, hlen]
    have hn : n % 64 < 64 := Nat.mod_lt n (by decide)
    omega
  have hfull : ¬ (63 : UInt32) < ((context.count[0] >>> 3) &&& 63) + UInt32.ofNat data.length := by
    have hn : n % 64 < 64 := Nat.mod_lt n (by decide)
    rw [UInt32.lt_iff_toNat_lt, hsum]
    show ¬ 63 < _
    omega
  have hread : read data 0 data.length = some data := by
    rw [read_eq data (by omega), List.drop_zero, List.take_length]
  have hcopy : copyInto context.buffer (n % 64) data = none := copyInto_none (by omega)
  simp only [sha1Update, if_neg hfull, hlen, hj, hread, hcopy, Option.bind_eq_bind, Option.bind_some,
    Option.bind_none]

/-! ## The pieces of a message -/

def start : Absorbed := ⟨Fips180.initial, [], by decide⟩

theorem holds_init (buffer : Buffer) : Holds (sha1Init buffer) 0 start where
  state := rfl
  front := rfl
  pos := rfl
  count := by simp [sha1Init]

def AllFit (n : ℕ) : List Piece → Prop
  | [] => True
  | piece :: pieces => Fits n piece ∧ AllFit (n + piece.1.length) pieces

instance decidableAllFit : (n : ℕ) → (pieces : List Piece) → Decidable (AllFit n pieces)
  | _, [] => isTrue trivial
  | n, piece :: pieces =>
    @instDecidableAnd _ _ inferInstance (decidableAllFit (n + piece.1.length) pieces)

def message (pieces : List Piece) : Bytes := (pieces.map (·.1)).flatten

theorem Holds.updates {context : Context} {n : ℕ} {a : Absorbed} (h : Holds context n a) (order : Order)
    {pieces : List Piece} (hfit : AllFit n pieces) :
    ∃ context', pieces.foldlM (sha1Update order) context = some context' ∧
      Holds context' (n + (message pieces).length) (a.absorb Fips180.compress (message pieces)) := by
  induction pieces generalizing context n a with
  | nil => exact ⟨context, rfl, h⟩
  | cons piece pieces ih =>
    obtain ⟨hpiece, hpieces⟩ := hfit
    obtain ⟨mid, hmid, hholds⟩ := h.update order piece hpiece
    obtain ⟨context', hrun, hend⟩ := ih hholds hpieces
    refine ⟨context', by rw [List.foldlM_cons, hmid]; exact hrun, ?_⟩
    have hmessage : message (piece :: pieces) = piece.1 ++ message pieces := rfl
    rw [hmessage, List.length_append, ← Nat.add_assoc, Absorber.absorb_append]
    exact hend

theorem Holds.updates_none {context : Context} {n : ℕ} {a : Absorbed} (h : Holds context n a)
    (order : Order) {pieces : List Piece} (hfit : ¬ AllFit n pieces) :
    pieces.foldlM (sha1Update order) context = none := by
  induction pieces generalizing context n a with
  | nil => exact absurd trivial hfit
  | cons piece pieces ih =>
    rw [List.foldlM_cons]
    by_cases hpiece : Fits n piece
    · obtain ⟨mid, hmid, hholds⟩ := h.update order piece hpiece
      rw [hmid]
      exact ih hholds fun hrest => hfit ⟨hpiece, hrest⟩
    · rw [h.update_none order hpiece]
      rfl

/-! ## The padding and the digest -/

theorem Holds.and_504 {context : Context} {n : ℕ} {a : Absorbed} (h : Holds context n a) :
    context.count[0] &&& 504 = 448 ↔ n % 64 = 56 := by
  have hpos := h.position
  have hbits : (context.count[0] &&& 504).toNat = 8 * (n % 64) := by
    have hhigh : (context.count[0].toNat &&& 504) / 2 ^ 3 = n % 64 := by
      rw [Nat.and_div_two_pow, ← Nat.shiftRight_eq_div_pow, ← hpos, UInt32.toNat_and,
        UInt32.toNat_shiftRight]
      rfl
    have hlow : (context.count[0].toNat &&& 504) % 2 ^ 3 = 0 := by
      rw [Nat.and_mod_two_pow]
      exact Nat.and_zero _
    rw [UInt32.toNat_and]
    show context.count[0].toNat &&& 504 = _
    omega
  rw [← UInt32.toNat_inj, hbits]
  show 8 * (n % 64) = 448 ↔ _
  omega

theorem Holds.pads {context : Context} {n : ℕ} {a : Absorbed} (h : Holds context n a) (order : Order)
    (fuel : ℕ) {k : ℕ} (hk : k = (120 - n % 64) % 64) (hfuel : k < fuel) :
    ∃ context', padLoop order fuel context = some context' ∧
      Holds context' (n + k) (a.absorb Fips180.compress (List.replicate k 0)) := by
  induction fuel generalizing context n a k with
  | zero => omega
  | succ fuel ih =>
    rw [padLoop]
    by_cases hend : n % 64 = 56
    · obtain rfl : k = 0 := by omega
      rw [if_neg (not_not_intro (h.and_504.2 hend))]
      exact ⟨context, rfl, h⟩
    · obtain ⟨k, rfl⟩ : ∃ j, k = j + 1 := ⟨k - 1, by omega⟩
      have hfits : Fits n ⟨[0], by decide⟩ := by
        have hn : n % 64 < 64 := Nat.mod_lt n (by decide)
        show n % 64 + 1 < 2 ^ 32
        omega
      obtain ⟨mid, hmid, hholds⟩ := h.update order _ hfits
      obtain ⟨context', hloop, hpad⟩ := ih hholds (k := k) (by show k = (120 - (n + 1) % 64) % 64; omega)
        (by omega)
      refine ⟨context', ?_, ?_⟩
      · rw [if_pos fun heq => hend (h.and_504.1 heq), hmid]
        exact hloop
      · rw [← Absorber.absorb_append] at hpad
        have hn : n + (k + 1) = n + 1 + k := by omega
        rw [hn]
        exact hpad

theorem byte_of_word (w : UInt32) {k : UInt32} (hk : k.toNat < 32) :
    (w >>> k &&& 255).toUInt8 = UInt8.ofNat (w.toNat / 2 ^ k.toNat) := by
  apply UInt8.toNat_inj.1
  rw [UInt32.toNat_toUInt8, UInt32.toNat_and, UInt32.toNat_shiftRight, UInt8.toNat_ofNat',
    Nat.mod_eq_of_lt hk, Nat.shiftRight_eq_div_pow]
  have hmask : (w.toNat / 2 ^ k.toNat) &&& 255 = w.toNat / 2 ^ k.toNat % 256 :=
    Nat.and_two_pow_sub_one_eq_mod _ 8
  show ((w.toNat / 2 ^ k.toNat) &&& 255) % 256 = _
  rw [hmask, Nat.mod_mod]

theorem wordBytes_eq (w : UInt32) :
    Fips180.wordBytes w = [(w >>> 24 &&& 255).toUInt8, (w >>> 16 &&& 255).toUInt8,
      (w >>> 8 &&& 255).toUInt8, (w >>> 0 &&& 255).toUInt8] := by
  rw [byte_of_word w (k := 24) (by decide), byte_of_word w (k := 16) (by decide),
    byte_of_word w (k := 8) (by decide), byte_of_word w (k := 0) (by decide)]
  have h2 : w.toNat / 256 / 256 = w.toNat / 2 ^ 16 := Nat.div_div_eq_div_mul _ _ _
  have h3 : w.toNat / 256 / 256 / 256 = w.toNat / 2 ^ 24 := by
    rw [h2]
    exact Nat.div_div_eq_div_mul _ _ _
  have h0 : w.toNat / 2 ^ (0 : UInt32).toNat = w.toNat := Nat.div_one _
  have hbytes : ByteOrder.toLe 4 w.toNat = [UInt8.ofNat w.toNat, UInt8.ofNat (w.toNat / 256),
      UInt8.ofNat (w.toNat / 256 / 256), UInt8.ofNat (w.toNat / 256 / 256 / 256)] := rfl
  rw [Fips180.wordBytes, hbytes, h3, h2, h0]
  rfl

theorem Holds.counter {context : Context} {n : ℕ} {a : Absorbed} (h : Holds context n a) :
    finalcount context = (ByteOrder.toLe 8 (8 * n)).reverse := by
  have hwords : finalcount context =
      Fips180.wordBytes context.count[1] ++ Fips180.wordBytes context.count[0] := by
    rw [wordBytes_eq, wordBytes_eq]
    rfl
  have hle : ByteOrder.toLe 8 (8 * n) =
      ByteOrder.toLe 4 context.count[0].toNat ++ ByteOrder.toLe 4 context.count[1].toNat := by
    have hlt : context.count[0].toNat < 256 ^ 4 := context.count[0].toNat_lt
    have hcount : 8 * n % 256 ^ 8 = context.count[1].toNat * 256 ^ 4 + context.count[0].toNat :=
      h.count.symm
    have hlow : (context.count[1].toNat * 256 ^ 4 + context.count[0].toNat) % 256 ^ 4 =
        context.count[0].toNat := by
      rw [Nat.mul_add_mod_self_right, Nat.mod_eq_of_lt hlt]
    have hhigh : (context.count[1].toNat * 256 ^ 4 + context.count[0].toNat) / 256 ^ 4 =
        context.count[1].toNat := by
      rw [Nat.add_comm, Nat.add_mul_div_right _ _ (by decide), Nat.div_eq_of_lt hlt, Nat.zero_add]
    rw [← ByteOrder.toLe_mod 8, hcount, ByteOrder.toLe_add 4 4, hhigh, ← ByteOrder.toLe_mod 4 (_ + _), hlow]
  rw [hwords, hle, List.reverse_append, Fips180.wordBytes, Fips180.wordBytes]

theorem digest_eq (state : Vector UInt32 5) :
    ((List.range 20).map fun i =>
      (state.toList.getD (i >>> 2) 0 >>> UInt32.ofNat ((3 - (i &&& 3)) * 8) &&& 255).toUInt8) =
      (hashOf state).bytes := by
  have hlist : state.toList = [state[0], state[1], state[2], state[3], state[4]] := by
    apply List.ext_getElem
    · exact state.length_toList
    · intro i h₁ h₂
      have hi : i < 5 := h₂
      rw [Vector.getElem_toList]
      interval_cases i <;> rfl
  rw [Fips180.Hash.bytes, hlist]
  simp only [wordBytes_eq]
  rfl

theorem Holds.final {context : Context} {n : ℕ} {a : Absorbed} (h : Holds context n a) (order : Order) :
    sha1Final order context = some (a.absorb Fips180.compress (Fips180.padding n)).state.bytes := by
  have hcounter := h.counter
  have hn : n % 64 < 64 := Nat.mod_lt n (by decide)
  obtain ⟨c₁, h₁, hold₁⟩ := h.update order ⟨[0o200], by decide⟩
    (by show n % 64 + 1 < 2 ^ 32; omega)
  obtain ⟨c₂, h₂, hold₂⟩ := hold₁.pads order 64 (k := (119 - n % 64) % 64)
    (by show _ = (120 - (n + 1) % 64) % 64; omega) (Nat.mod_lt _ (by decide))
  obtain ⟨c₃, h₃, hold₃⟩ := hold₂.update order
    ⟨finalcount context, by rw [length_finalcount]; decide⟩
    (by
      have hlt : (n + 1 + (119 - n % 64) % 64) % 64 < 64 := Nat.mod_lt _ (by decide)
      show (n + 1 + (119 - n % 64) % 64) % 64 + (finalcount context).length < 2 ^ 32
      rw [length_finalcount]
      omega)
  have hstate : hashOf c₃.state = (a.absorb Fips180.compress (Fips180.padding n)).state := by
    have hpadding : Fips180.padding n =
        [0o200] ++ (List.replicate ((119 - n % 64) % 64) 0 ++ finalcount context) := by
      rw [hcounter]
      rfl
    rw [hold₃.state, ← Absorber.absorb_append, ← Absorber.absorb_append, hpadding]
  simp only [sha1Final, h₁, h₂, h₃, Option.bind_eq_bind, Option.bind_some, digest_eq, hstate]
  rfl

/-- A message in pieces: the digest of the standard, unless a piece is too long for its place. -/
theorem sha1Final_updates (order : Order) (buffer : Buffer) (pieces : List Piece) :
    (pieces.foldlM (sha1Update order) (sha1Init buffer) >>= sha1Final order) =
      if AllFit 0 pieces then some (Fips180.sha1 (message pieces)) else none := by
  by_cases hfit : AllFit 0 pieces
  · obtain ⟨context, hrun, hholds⟩ := (holds_init buffer).updates order hfit
    rw [if_pos hfit, hrun, Option.bind_eq_bind, Option.bind_some, hholds.final order, Nat.zero_add,
      Fips180.sha1_eq_absorb (message pieces) start rfl rfl]
  · rw [if_neg hfit, (holds_init buffer).updates_none order hfit]
    rfl

/-- The digest of a string, up to the bytes that its length loses in 32 bits. -/
theorem sha1_eq (order : Order) (buffer : Buffer) (s : CStr) :
    sha1 order buffer s = some (Fips180.sha1 (s.take (s.length % 2 ^ 32))) := by
  have hlt : (s.take (s.length % 2 ^ 32)).length < 2 ^ 32 :=
    (List.length_take_le _ _).trans_lt (Nat.mod_lt _ (by decide))
  have hfits : Fits 0 ⟨s.take (s.length % 2 ^ 32), hlt⟩ := (Nat.zero_add _).trans_lt hlt
  obtain ⟨context, hupdate, hholds⟩ := (holds_init buffer).update order _ hfits
  have hfinal := hholds.final order
  rw [Nat.zero_add, ← Fips180.sha1_eq_absorb _ start rfl rfl] at hfinal
  rw [sha1, hupdate, Option.bind_eq_bind, Option.bind_some, hfinal]

example : sha1 .little ⟨List.replicate 64 0, by decide⟩ (ascii "abc") =
    some [0xA9, 0x99, 0x3E, 0x36, 0x47, 0x06, 0x81, 0x6A, 0xBA, 0x3E, 0x25, 0x71, 0x78, 0x50, 0xC2, 0x6C,
      0x9C, 0xD0, 0xD8, 0x9D] := by
  decide +kernel

end Rcom.Sha1
