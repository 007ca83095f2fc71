import Rcom.Lib.Fips180
import Rcom.Lib.Splice
import Rcom.Libc

/-!
# SHA-1 (sha1.c)

The transformation of a block is the unrolled code of the source: a list of macro calls, each with
the names of the variables it works on. A block is kept in sixteen words that are overwritten on
the way, and the byte order is that of the machine.
-/

namespace Rcom.Sha1
open Rcom.Lib

inductive Order
  | little | big
deriving DecidableEq

def rol (value bits : UInt32) : UInt32 := value <<< bits ||| value >>> (32 - bits)

inductive Var
  | a | b | c | d | e
deriving DecidableEq

/-- The local variables of `SHA1Transform`. -/
structure Locals where
  a : UInt32
  b : UInt32
  c : UInt32
  d : UInt32
  e : UInt32
  block : Vector UInt32 16

namespace Locals

def get (s : Locals) : Var → UInt32
  | .a => s.a
  | .b => s.b
  | .c => s.c
  | .d => s.d
  | .e => s.e

def set (s : Locals) (z : Var) (x : UInt32) : Locals :=
  match z with
  | .a => { s with a := x }
  | .b => { s with b := x }
  | .c => { s with c := x }
  | .d => { s with d := x }
  | .e => { s with e := x }

@[simp] theorem get_set_self (s : Locals) (z : Var) (x : UInt32) : (s.set z x).get z = x := by
  cases z <;> rfl

theorem get_set_ne (s : Locals) {y z : Var} (h : y ≠ z) (x : UInt32) :
    (s.set z x).get y = s.get y := by
  cases y <;> cases z <;> first | rfl | exact absurd rfl h

@[simp] theorem block_set (s : Locals) (z : Var) (x : UInt32) : (s.set z x).block = s.block := by
  cases z <;> rfl

end Locals

/-- `i & 15`. -/
def slot (i : ℕ) : Fin 16 := ⟨i &&& 15, Nat.lt_succ_of_le Nat.and_le_right⟩

/-- `block->l[i] = x`; the value of the assignment and what it leaves. -/
def assign (s : Locals) (i : ℕ) (x : UInt32) : UInt32 × Locals :=
  (x, { s with block := s.block.set (slot i) x })

def blk0 (order : Order) (s : Locals) (i : ℕ) : UInt32 × Locals :=
  match order with
  | .little =>
    assign s i ((rol s.block[slot i] 24 &&& 0xFF00FF00) ||| (rol s.block[slot i] 8 &&& 0x00FF00FF))
  | .big => (s.block[slot i], s)

def blk (s : Locals) (i : ℕ) : UInt32 × Locals :=
  assign s i (rol (s.block[slot (i + 13)] ^^^ s.block[slot (i + 8)] ^^^ s.block[slot (i + 2)] ^^^
    s.block[slot i]) 1)

/-- `z += f(w,x,y) + blk(i) + k + rol(v,5); w = rol(w,30);` -/
def rx (f : UInt32 → UInt32 → UInt32 → UInt32) (blk : Locals → ℕ → UInt32 × Locals) (k : UInt32)
    (v w x y z : Var) (i : ℕ) (s : Locals) : Locals :=
  let word := blk s i
  let t := word.2
  let t := t.set z (t.get z + (f (t.get w) (t.get x) (t.get y) + word.1 + k + rol (t.get v) 5))
  t.set w (rol (t.get w) 30)

def r0 (order : Order) : Var → Var → Var → Var → Var → ℕ → Locals → Locals :=
  rx (fun w x y => (w &&& (x ^^^ y)) ^^^ y) (blk0 order) 0x5A827999

def r1 : Var → Var → Var → Var → Var → ℕ → Locals → Locals :=
  rx (fun w x y => (w &&& (x ^^^ y)) ^^^ y) blk 0x5A827999

def r2 : Var → Var → Var → Var → Var → ℕ → Locals → Locals :=
  rx (fun w x y => w ^^^ x ^^^ y) blk 0x6ED9EBA1

def r3 : Var → Var → Var → Var → Var → ℕ → Locals → Locals :=
  rx (fun w x y => ((w ||| x) &&& y) ||| (w &&& x)) blk 0x8F1BBCDC

def r4 : Var → Var → Var → Var → Var → ℕ → Locals → Locals :=
  rx (fun w x y => w ^^^ x ^^^ y) blk 0xCA62C1D6

inductive Macro
  | r0 | r1 | r2 | r3 | r4
deriving DecidableEq

structure Call where
  name : Macro
  v : Var
  w : Var
  x : Var
  y : Var
  z : Var
  i : ℕ
deriving DecidableEq

def Call.run (order : Order) (call : Call) : Locals → Locals :=
  match call.name with
  | .r0 => r0 order call.v call.w call.x call.y call.z call.i
  | .r1 => r1 call.v call.w call.x call.y call.z call.i
  | .r2 => r2 call.v call.w call.x call.y call.z call.i
  | .r3 => r3 call.v call.w call.x call.y call.z call.i
  | .r4 => r4 call.v call.w call.x call.y call.z call.i

/-- The calls of `SHA1Transform`, in their order. -/
def calls : List Call :=
  [⟨.r0, .a, .b, .c, .d, .e, 0⟩, ⟨.r0, .e, .a, .b, .c, .d, 1⟩, ⟨.r0, .d, .e, .a, .b, .c, 2⟩, ⟨.r0, .c, .d, .e, .a, .b, 3⟩,
   ⟨.r0, .b, .c, .d, .e, .a, 4⟩, ⟨.r0, .a, .b, .c, .d, .e, 5⟩, ⟨.r0, .e, .a, .b, .c, .d, 6⟩, ⟨.r0, .d, .e, .a, .b, .c, 7⟩,
   ⟨.r0, .c, .d, .e, .a, .b, 8⟩, ⟨.r0, .b, .c, .d, .e, .a, 9⟩, ⟨.r0, .a, .b, .c, .d, .e, 10⟩, ⟨.r0, .e, .a, .b, .c, .d, 11⟩,
   ⟨.r0, .d, .e, .a, .b, .c, 12⟩, ⟨.r0, .c, .d, .e, .a, .b, 13⟩, ⟨.r0, .b, .c, .d, .e, .a, 14⟩, ⟨.r0, .a, .b, .c, .d, .e, 15⟩,
   ⟨.r1, .e, .a, .b, .c, .d, 16⟩, ⟨.r1, .d, .e, .a, .b, .c, 17⟩, ⟨.r1, .c, .d, .e, .a, .b, 18⟩, ⟨.r1, .b, .c, .d, .e, .a, 19⟩,
   ⟨.r2, .a, .b, .c, .d, .e, 20⟩, ⟨.r2, .e, .a, .b, .c, .d, 21⟩, ⟨.r2, .d, .e, .a, .b, .c, 22⟩, ⟨.r2, .c, .d, .e, .a, .b, 23⟩,
   ⟨.r2, .b, .c, .d, .e, .a, 24⟩, ⟨.r2, .a, .b, .c, .d, .e, 25⟩, ⟨.r2, .e, .a, .b, .c, .d, 26⟩, ⟨.r2, .d, .e, .a, .b, .c, 27⟩,
   ⟨.r2, .c, .d, .e, .a, .b, 28⟩, ⟨.r2, .b, .c, .d, .e, .a, 29⟩, ⟨.r2, .a, .b, .c, .d, .e, 30⟩, ⟨.r2, .e, .a, .b, .c, .d, 31⟩,
   ⟨.r2, .d, .e, .a, .b, .c, 32⟩, ⟨.r2, .c, .d, .e, .a, .b, 33⟩, ⟨.r2, .b, .c, .d, .e, .a, 34⟩, ⟨.r2, .a, .b, .c, .d, .e, 35⟩,
   ⟨.r2, .e, .a, .b, .c, .d, 36⟩, ⟨.r2, .d, .e, .a, .b, .c, 37⟩, ⟨.r2, .c, .d, .e, .a, .b, 38⟩, ⟨.r2, .b, .c, .d, .e, .a, 39⟩,
   ⟨.r3, .a, .b, .c, .d, .e, 40⟩, ⟨.r3, .e, .a, .b, .c, .d, 41⟩, ⟨.r3, .d, .e, .a, .b, .c, 42⟩, ⟨.r3, .c, .d, .e, .a, .b, 43⟩,
   ⟨.r3, .b, .c, .d, .e, .a, 44⟩, ⟨.r3, .a, .b, .c, .d, .e, 45⟩, ⟨.r3, .e, .a, .b, .c, .d, 46⟩, ⟨.r3, .d, .e, .a, .b, .c, 47⟩,
   ⟨.r3, .c, .d, .e, .a, .b, 48⟩, ⟨.r3, .b, .c, .d, .e, .a, 49⟩, ⟨.r3, .a, .b, .c, .d, .e, 50⟩, ⟨.r3, .e, .a, .b, .c, .d, 51⟩,
   ⟨.r3, .d, .e, .a, .b, .c, 52⟩, ⟨.r3, .c, .d, .e, .a, .b, 53⟩, ⟨.r3, .b, .c, .d, .e, .a, 54⟩, ⟨.r3, .a, .b, .c, .d, .e, 55⟩,
   ⟨.r3, .e, .a, .b, .c, .d, 56⟩, ⟨.r3, .d, .e, .a, .b, .c, 57⟩, ⟨.r3, .c, .d, .e, .a, .b, 58⟩, ⟨.r3, .b, .c, .d, .e, .a, 59⟩,
   ⟨.r4, .a, .b, .c, .d, .e, 60⟩, ⟨.r4, .e, .a, .b, .c, .d, 61⟩, ⟨.r4, .d, .e, .a, .b, .c, 62⟩, ⟨.r4, .c, .d, .e, .a, .b, 63⟩,
   ⟨.r4, .b, .c, .d, .e, .a, 64⟩, ⟨.r4, .a, .b, .c, .d, .e, 65⟩, ⟨.r4, .e, .a, .b, .c, .d, 66⟩, ⟨.r4, .d, .e, .a, .b, .c, 67⟩,
   ⟨.r4, .c, .d, .e, .a, .b, 68⟩, ⟨.r4, .b, .c, .d, .e, .a, 69⟩, ⟨.r4, .a, .b, .c, .d, .e, 70⟩, ⟨.r4, .e, .a, .b, .c, .d, 71⟩,
   ⟨.r4, .d, .e, .a, .b, .c, 72⟩, ⟨.r4, .c, .d, .e, .a, .b, 73⟩, ⟨.r4, .b, .c, .d, .e, .a, 74⟩, ⟨.r4, .a, .b, .c, .d, .e, 75⟩,
   ⟨.r4, .e, .a, .b, .c, .d, 76⟩, ⟨.r4, .d, .e, .a, .b, .c, 77⟩, ⟨.r4, .c, .d, .e, .a, .b, 78⟩, ⟨.r4, .b, .c, .d, .e, .a, 79⟩]

def Order.word : Order → Bytes → UInt32
  | .little, bytes => UInt32.ofNat (ByteOrder.ofLe bytes)
  | .big, bytes => UInt32.ofNat (ByteOrder.ofLe bytes.reverse)

/-- `memcpy(block, buffer, 64)`. -/
def load (order : Order) (buffer : Bytes) : Vector UInt32 16 :=
  .ofFn fun i => order.word ((buffer.drop (4 * i)).take 4)

def sha1Transform (order : Order) (state : Vector UInt32 5) (buffer : Bytes) : Vector UInt32 5 :=
  let s : Locals := ⟨state[0], state[1], state[2], state[3], state[4], load order buffer⟩
  let s := calls.foldl (fun s call => call.run order s) s
  #v[state[0] + s.a, state[1] + s.b, state[2] + s.c, state[3] + s.d, state[4] + s.e]

/-! ## The functions and the words of a round -/

theorem rol_eq (value bits : UInt32) : rol value bits = Fips180.rotl bits value := rfl

theorem ch_eq (w x y : UInt32) : (w &&& (x ^^^ y)) ^^^ y = Fips180.ch w x y := by
  apply UInt32.toBitVec_inj.1
  apply BitVec.eq_of_getLsbD_eq
  intro i hi
  simp only [Fips180.ch, UInt32.toBitVec_xor, UInt32.toBitVec_and, UInt32.toBitVec_not,
    BitVec.getLsbD_xor, BitVec.getLsbD_and, BitVec.getLsbD_not, decide_eq_true hi, Bool.true_and]
  cases w.toBitVec.getLsbD i <;> cases x.toBitVec.getLsbD i <;> cases y.toBitVec.getLsbD i <;> rfl

theorem maj_eq (w x y : UInt32) : ((w ||| x) &&& y) ||| (w &&& x) = Fips180.maj w x y := by
  apply UInt32.toBitVec_inj.1
  apply BitVec.eq_of_getLsbD_eq
  intro i _
  simp only [Fips180.maj, UInt32.toBitVec_xor, UInt32.toBitVec_and, UInt32.toBitVec_or,
    BitVec.getLsbD_xor, BitVec.getLsbD_and, BitVec.getLsbD_or]
  cases w.toBitVec.getLsbD i <;> cases x.toBitVec.getLsbD i <;> cases y.toBitVec.getLsbD i <;> rfl

theorem testBit_rol {bits : UInt32} (h0 : 0 < bits.toNat) (h : bits.toNat < 32) (x : UInt32) {i : ℕ}
    (hi : i < 32) :
    (rol x bits).toNat.testBit i =
      x.toNat.testBit (if i < bits.toNat then i + 32 - bits.toNat else i - bits.toNat) := by
  have hrest : (32 - bits).toNat = 32 - bits.toNat :=
    UInt32.toNat_sub_of_le _ _ (UInt32.le_iff_toNat_le.2 h.le)
  have hhigh : ∀ k, 32 ≤ k → x.toNat.testBit k = false := fun k hk =>
    Nat.testBit_lt_two_pow (x.toNat_lt.trans_le (Nat.pow_le_pow_right (by decide) hk))
  rw [rol, UInt32.toNat_or, UInt32.toNat_shiftLeft, UInt32.toNat_shiftRight, hrest,
    Nat.mod_eq_of_lt h, Nat.mod_eq_of_lt (by omega : 32 - bits.toNat < 32), Nat.testBit_or,
    Nat.testBit_mod_two_pow, decide_eq_true hi, Bool.true_and, Nat.testBit_shiftLeft,
    Nat.testBit_shiftRight]
  by_cases hlt : i < bits.toNat
  · rw [if_pos hlt, decide_eq_false (by omega), Bool.false_and, Bool.false_or]
    congr 1
    omega
  · rw [if_neg hlt, decide_eq_true (by omega), Bool.true_and, hhigh (32 - bits.toNat + i) (by omega),
      Bool.or_false]

theorem testBit_masks (i : Fin 32) :
    Nat.testBit 0xFF00FF00 i = decide (i.1 / 8 % 2 = 1) ∧
      Nat.testBit 0x00FF00FF i = decide (i.1 / 8 % 2 = 0) := by
  revert i
  decide

/-- The two rotations and masks move each byte to its place in the other byte order. -/
theorem swap_eq (b₀ b₁ b₂ b₃ : UInt8) :
    (rol (UInt32.ofNat (ByteOrder.ofLe [b₀, b₁, b₂, b₃])) 24 &&& 0xFF00FF00) |||
      (rol (UInt32.ofNat (ByteOrder.ofLe [b₀, b₁, b₂, b₃])) 8 &&& 0x00FF00FF) =
      UInt32.ofNat (ByteOrder.ofLe [b₃, b₂, b₁, b₀]) := by
  have hword : ∀ (bs : Bytes) (k : ℕ), k < 32 →
      (UInt32.ofNat (ByteOrder.ofLe bs)).toNat.testBit k = (bs.getD (k / 8) 0).toNat.testBit (k % 8) := by
    intro bs k hk
    rw [UInt32.toNat_ofNat', Nat.testBit_mod_two_pow, decide_eq_true hk, Bool.true_and, ByteOrder.testBit_ofLe]
  apply UInt32.toBitVec_inj.1
  apply BitVec.eq_of_getLsbD_eq
  intro i hi
  obtain ⟨hodd, heven⟩ := testBit_masks ⟨i, hi⟩
  generalize hx : UInt32.ofNat (ByteOrder.ofLe [b₀, b₁, b₂, b₃]) = x
  have h24 : (rol x 24).toNat.testBit i = _ := testBit_rol (by decide) (by decide) x hi
  have h8 : (rol x 8).toNat.testBit i = _ := testBit_rol (by decide) (by decide) x hi
  rw [show (24 : UInt32).toNat = 24 from rfl, ← hx, hword _ _ (by split <;> omega)] at h24
  rw [show (8 : UInt32).toNat = 8 from rfl, ← hx, hword _ _ (by split <;> omega)] at h8
  rw [hx] at h24 h8
  rw [UInt32.toBitVec_or, UInt32.toBitVec_and, UInt32.toBitVec_and, BitVec.getLsbD_or,
    BitVec.getLsbD_and, BitVec.getLsbD_and]
  change ((rol x 24).toNat.testBit i && Nat.testBit 0xFF00FF00 i ||
    (rol x 8).toNat.testBit i && Nat.testBit 0x00FF00FF i) = (UInt32.ofNat _).toNat.testBit i
  rw [h24, h8, hodd, heven, hword _ _ hi]
  have hq : i / 8 = 0 ∨ i / 8 = 1 ∨ i / 8 = 2 ∨ i / 8 = 3 := by omega
  have h24d : (if i < 24 then i + 32 - 24 else i - 24) / 8 = (i / 8 + 1) % 4 := by split <;> omega
  have h24m : (if i < 24 then i + 32 - 24 else i - 24) % 8 = i % 8 := by split <;> omega
  have h8d : (if i < 8 then i + 32 - 8 else i - 8) / 8 = (i / 8 + 3) % 4 := by split <;> omega
  have h8m : (if i < 8 then i + 32 - 8 else i - 8) % 8 = i % 8 := by split <;> omega
  rw [h24d, h24m, h8d, h8m]
  rcases hq with hq | hq | hq | hq <;> simp [hq]

/-! ## The unrolled rounds -/

def var (k : ℕ) : Var :=
  match k % 5 with
  | 0 => .a
  | 1 => .b
  | 2 => .c
  | 3 => .d
  | _ => .e

def macroAt (t : ℕ) : Macro :=
  if t < 16 then .r0 else if t < 20 then .r1 else if t < 40 then .r2 else if t < 60 then .r3 else .r4

/-- In each round the names of the variables move by one. -/
def callAt (t : ℕ) : Call :=
  ⟨macroAt t, var (4 * t), var (4 * t + 1), var (4 * t + 2), var (4 * t + 3), var (4 * t + 4), t⟩

theorem calls_eq : calls = (List.range 80).map callAt := by decide

theorem var_congr {j k : ℕ} (h : j % 5 = k % 5) : var j = var k := by
  rw [var, var, h]

theorem var_ne {k i j : ℕ} (h : i % 5 ≠ j % 5) : var (k + i) ≠ var (k + j) := by
  have hinj : ∀ i j : Fin 5, i ≠ j → var i ≠ var j := by decide
  rw [var_congr (Nat.mod_mod (k + i) 5).symm, var_congr (Nat.mod_mod (k + j) 5).symm]
  exact hinj ⟨(k + i) % 5, Nat.mod_lt _ (by decide)⟩ ⟨(k + j) % 5, Nat.mod_lt _ (by decide)⟩
    fun hij => h (by have := Fin.val_eq_of_eq hij; dsimp at this; omega)

/-- What the variables stand for before round `t`. -/
def view (t : ℕ) (s : Locals) : Fips180.Hash :=
  ⟨s.get (var (4 * t)), s.get (var (4 * t + 1)), s.get (var (4 * t + 2)), s.get (var (4 * t + 3)),
    s.get (var (4 * t + 4))⟩

theorem get_rx {f : UInt32 → UInt32 → UInt32 → UInt32} {blk : Locals → ℕ → UInt32 × Locals}
    {k : UInt32} {v w x y z : Var} {i : ℕ} {s : Locals} (hblk : ∀ r, (blk s i).2.get r = s.get r)
    (hwz : w ≠ z) (r : Var) :
    (rx f blk k v w x y z i s).get r =
      if r = w then rol (s.get w) 30
      else if r = z then
        s.get z + (f (s.get w) (s.get x) (s.get y) + (blk s i).1 + k + rol (s.get v) 5)
      else s.get r := by
  rw [rx]
  by_cases hw : r = w
  · rw [if_pos hw, hw, Locals.get_set_self, Locals.get_set_ne _ hwz, hblk]
  · rw [if_neg hw, Locals.get_set_ne _ hw]
    by_cases hz : r = z
    · rw [if_pos hz, hz, Locals.get_set_self]
      simp only [hblk]
    · rw [if_neg hz, Locals.get_set_ne _ hz, hblk]

/-- The round of the standard, with the word that the macro has found. -/
theorem view_rx {f : UInt32 → UInt32 → UInt32 → UInt32} {blk : Locals → ℕ → UInt32 × Locals}
    {k : UInt32} {t : ℕ} {s : Locals} (hf : ∀ w x y, f w x y = Fips180.func t w x y)
    (hk : k = Fips180.const t) (hblk : ∀ r, (blk s t).2.get r = s.get r) :
    view (t + 1) (rx f blk k (var (4 * t)) (var (4 * t + 1)) (var (4 * t + 2)) (var (4 * t + 3))
      (var (4 * t + 4)) t s) = Fips180.round t (blk s t).1 (view t s) := by
  have hne : ∀ i j, i % 5 ≠ j % 5 → var (4 * t + i) ≠ var (4 * t + j) := fun i j h => var_ne h
  have hget := get_rx (f := f) (k := k) (v := var (4 * t)) (x := var (4 * t + 2))
    (y := var (4 * t + 3)) hblk (hne 1 4 (by decide))
  have h0 : var (4 * (t + 1)) = var (4 * t + 4) := var_congr (by omega)
  have h1 : var (4 * (t + 1) + 1) = var (4 * t) := var_congr (by omega)
  have h2 : var (4 * (t + 1) + 2) = var (4 * t + 1) := var_congr (by omega)
  have h3 : var (4 * (t + 1) + 3) = var (4 * t + 2) := var_congr (by omega)
  have h4 : var (4 * (t + 1) + 4) = var (4 * t + 3) := var_congr (by omega)
  rw [view, h0, h1, h2, h3, h4, hget, hget, hget, hget, hget]
  have h01 : var (4 * t) ≠ var (4 * t + 1) := hne 0 1 (by decide)
  have h04 : var (4 * t) ≠ var (4 * t + 4) := hne 0 4 (by decide)
  rw [if_neg (hne 4 1 (by decide)), if_pos rfl, if_neg h01, if_neg h04, if_pos rfl, if_neg (hne 2 1 (by decide)), if_neg (hne 2 4 (by decide)), if_neg (hne 3 1 (by decide)),
    if_neg (hne 3 4 (by decide)), hf, hk, rol_eq, rol_eq]
  simp only [Fips180.round, view, Fips180.Hash.mk.injEq, and_true]
  ac_rfl

theorem slot_val (i : ℕ) : (slot i).1 = i % 16 := Nat.and_two_pow_sub_one_eq_mod i 4

theorem slot_congr {i j : ℕ} (h : i % 16 = j % 16) : slot i = slot j :=
  Fin.ext (by rw [slot_val, slot_val, h])

theorem get_assign (s : Locals) (i : ℕ) (x : UInt32) (r : Var) : (assign s i x).2.get r = s.get r := by
  cases r <;> rfl

theorem block_assign (s : Locals) (i j : ℕ) (x : UInt32) :
    (assign s i x).2.block[slot j] = if i % 16 = j % 16 then x else s.block[slot j] := by
  have hslot : (slot i).1 = (slot j).1 ↔ i % 16 = j % 16 := by rw [slot_val, slot_val]
  show (s.block.set (slot i) x)[(slot j).1] = _
  rw [Vector.getElem_set]
  simp only [hslot]
  rfl

theorem get_blk0 (order : Order) (s : Locals) (i : ℕ) (r : Var) : (blk0 order s i).2.get r = s.get r := by
  cases order with
  | little => exact get_assign s i _ r
  | big => rfl

theorem block_rx {f : UInt32 → UInt32 → UInt32 → UInt32} {blk : Locals → ℕ → UInt32 × Locals}
    {k : UInt32} {v w x y z : Var} {i : ℕ} {s : Locals} :
    (rx f blk k v w x y z i s).block = (blk s i).2.block := by
  rw [rx, Locals.block_set, Locals.block_set]

/-- The words that the block holds before round `t`: the last sixteen of the schedule, and those of
the message that are still to come. -/
structure Scheduled (order : Order) (buffer : Bytes) (t : ℕ) (s : Locals) : Prop where
  past : ∀ i < t, t ≤ i + 16 → s.block[slot i] = Fips180.schedule (Fips180.words buffer) i
  future : ∀ i, t ≤ i → i < 16 → s.block[slot i] = (load order buffer)[slot i]

theorem Scheduled.load {order : Order} {buffer : Bytes} {s : Locals} (h : s.block = load order buffer) :
    Scheduled order buffer 0 s where
  past i hi := absurd hi (Nat.not_lt_zero i)
  future i _ _ := by rw [h]

theorem Scheduled.assign {order : Order} {buffer : Bytes} {t : ℕ} {s s' : Locals} {x : UInt32}
    (h : Scheduled order buffer t s) (hx : x = Fips180.schedule (Fips180.words buffer) t)
    (hs : ∀ j, s'.block[slot j] = if t % 16 = j % 16 then x else s.block[slot j]) :
    Scheduled order buffer (t + 1) s' where
  past i hi hle := by
    rw [hs]
    by_cases hit : i = t
    · rw [if_pos (by rw [hit]), hx, hit]
    · rw [if_neg (by omega)]
      exact h.past i (by omega) (by omega)
  future i hle hi := by
    rw [hs, if_neg (by omega)]
    exact h.future i (by omega) hi

theorem eq_four_of_length {bs : Bytes} (h : bs.length = 4) : ∃ b₀ b₁ b₂ b₃, bs = [b₀, b₁, b₂, b₃] := by
  obtain ⟨b₀, bs, rfl⟩ := List.exists_of_length_succ bs h
  obtain ⟨b₁, b₂, b₃, rfl⟩ := List.length_eq_three.1 (Nat.succ_inj.1 h)
  exact ⟨b₀, b₁, b₂, b₃, rfl⟩

theorem blk0_word {order : Order} {buffer : Bytes} (hbuffer : buffer.length = 64) {t : ℕ} {s : Locals}
    (ht : t < 16) (h : Scheduled order buffer t s) :
    (blk0 order s t).1 = Fips180.schedule (Fips180.words buffer) t ∧
      Scheduled order buffer (t + 1) (blk0 order s t).2 := by
  have hslot : (slot t).1 = t := by rw [slot_val, Nat.mod_eq_of_lt ht]
  have hraw := h.future t le_rfl ht
  have hload : (load order buffer)[slot t] = order.word ((buffer.drop (4 * t)).take 4) := by
    show (load order buffer)[(slot t).1] = _
    simp only [load, Vector.getElem_ofFn, hslot]
  have hword : Fips180.schedule (Fips180.words buffer) t =
      UInt32.ofNat (ByteOrder.ofLe ((buffer.drop (4 * t)).take 4).reverse) := by
    rw [Fips180.schedule_low _ ht]
    rfl
  have hlen : ((buffer.drop (4 * t)).take 4).length = 4 := by
    rw [List.length_take, List.length_drop, hbuffer]
    omega
  cases order with
  | little =>
    obtain ⟨b₀, b₁, b₂, b₃, hb⟩ := eq_four_of_length hlen
    have hx : (blk0 .little s t).1 = Fips180.schedule (Fips180.words buffer) t := by
      rw [blk0, assign, hraw, hload, hword, hb, Order.word, swap_eq]
      rfl
    refine ⟨hx, h.assign hx fun j => ?_⟩
    rw [blk0, block_assign]
    rfl
  | big =>
    have hx : (blk0 .big s t).1 = Fips180.schedule (Fips180.words buffer) t := by
      rw [blk0, hraw, hload, hword, Order.word]
    refine ⟨hx, h.assign hx fun j => ?_⟩
    by_cases hj : t % 16 = j % 16
    · rw [if_pos hj]
      have hjt : slot j = slot t := slot_congr hj.symm
      simp only [hjt]
      rfl
    · rw [if_neg hj]
      rfl

theorem blk_word {order : Order} {buffer : Bytes} {t : ℕ} {s : Locals}
    (ht : 16 ≤ t) (h : Scheduled order buffer t s) :
    (blk s t).1 = Fips180.schedule (Fips180.words buffer) t ∧
      Scheduled order buffer (t + 1) (blk s t).2 := by
  obtain ⟨k, rfl⟩ := Nat.exists_eq_add_of_le ht
  have hback : ∀ j, j < 16 → s.block[slot (16 + k + j)] = Fips180.schedule (Fips180.words buffer) (k + j) := by
    intro j hj
    have hslot : slot (16 + k + j) = slot (k + j) := slot_congr (by omega)
    simp only [hslot]
    exact h.past (k + j) (by omega) (by omega)
  have hword : (blk s (16 + k)).1 = Fips180.schedule (Fips180.words buffer) (16 + k) := by
    have h0 : s.block[slot (16 + k)] = Fips180.schedule (Fips180.words buffer) k := hback 0 (by decide)
    rw [blk, assign, hback 13 (by decide), hback 8 (by decide), hback 2 (by decide), h0,
      Nat.add_comm 16 k, Fips180.schedule_high]
    rfl
  refine ⟨hword, h.assign hword fun j => ?_⟩
  rw [blk, block_assign]
  rfl

/-- What the five kinds of rounds have in common: they differ in the function, the constant and the
word. -/
theorem rx_round {order : Order} {buffer : Bytes} {f : UInt32 → UInt32 → UInt32 → UInt32}
    {blk : Locals → ℕ → UInt32 × Locals} {k : UInt32} {t : ℕ} {s : Locals}
    (hf : ∀ w x y, f w x y = Fips180.func t w x y) (hk : k = Fips180.const t)
    (hget : ∀ r, (blk s t).2.get r = s.get r)
    (hword : (blk s t).1 = Fips180.schedule (Fips180.words buffer) t ∧
      Scheduled order buffer (t + 1) (blk s t).2) :
    let s' := rx f blk k (var (4 * t)) (var (4 * t + 1)) (var (4 * t + 2)) (var (4 * t + 3))
      (var (4 * t + 4)) t s
    view (t + 1) s' = Fips180.round t (Fips180.schedule (Fips180.words buffer) t) (view t s) ∧
      Scheduled order buffer (t + 1) s' := by
  intro s'
  refine ⟨by rw [view_rx hf hk hget, hword.1], ⟨fun i hi hle => ?_, fun i hle hi => ?_⟩⟩
  · simp only [s', block_rx]
    exact hword.2.past i hi hle
  · simp only [s', block_rx]
    exact hword.2.future i hle hi

theorem run_callAt {order : Order} {buffer : Bytes} (hbuffer : buffer.length = 64) {t : ℕ} {s : Locals}
    (ht : t < 80) (h : Scheduled order buffer t s) :
    view (t + 1) ((callAt t).run order s) =
        Fips180.round t (Fips180.schedule (Fips180.words buffer) t) (view t s) ∧
      Scheduled order buffer (t + 1) ((callAt t).run order s) := by
  by_cases h16 : t < 16
  · have hcall : (callAt t).run order s = r0 order (var (4 * t)) (var (4 * t + 1)) (var (4 * t + 2))
        (var (4 * t + 3)) (var (4 * t + 4)) t s := by
      simp only [Call.run, callAt, macroAt, if_pos h16]
    rw [hcall]
    exact rx_round (fun w x y => by rw [ch_eq, Fips180.func, if_pos (by omega)])
      (by rw [Fips180.const, if_pos (by omega)]) (get_blk0 order s t) (blk0_word hbuffer h16 h)
  have hword := blk_word (Nat.le_of_not_lt h16) h
  have hget : ∀ r, (blk s t).2.get r = s.get r := get_assign s t _
  by_cases h20 : t < 20
  · have hcall : (callAt t).run order s = r1 (var (4 * t)) (var (4 * t + 1)) (var (4 * t + 2))
        (var (4 * t + 3)) (var (4 * t + 4)) t s := by
      simp only [Call.run, callAt, macroAt, if_neg h16, if_pos h20]
    rw [hcall]
    exact rx_round (fun w x y => by rw [ch_eq, Fips180.func, if_pos h20])
      (by rw [Fips180.const, if_pos h20]) hget hword
  by_cases h40 : t < 40
  · have hcall : (callAt t).run order s = r2 (var (4 * t)) (var (4 * t + 1)) (var (4 * t + 2))
        (var (4 * t + 3)) (var (4 * t + 4)) t s := by
      simp only [Call.run, callAt, macroAt, if_neg h16, if_neg h20, if_pos h40]
    rw [hcall]
    exact rx_round (fun w x y => by rw [Fips180.func, if_neg h20, if_pos h40]; rfl)
      (by rw [Fips180.const, if_neg h20, if_pos h40]) hget hword
  by_cases h60 : t < 60
  · have hcall : (callAt t).run order s = r3 (var (4 * t)) (var (4 * t + 1)) (var (4 * t + 2))
        (var (4 * t + 3)) (var (4 * t + 4)) t s := by
      simp only [Call.run, callAt, macroAt, if_neg h16, if_neg h20, if_neg h40, if_pos h60]
    rw [hcall]
    exact rx_round (fun w x y => by rw [maj_eq, Fips180.func, if_neg h20, if_neg h40, if_pos h60])
      (by rw [Fips180.const, if_neg h20, if_neg h40, if_pos h60]) hget hword
  · have hcall : (callAt t).run order s = r4 (var (4 * t)) (var (4 * t + 1)) (var (4 * t + 2))
        (var (4 * t + 3)) (var (4 * t + 4)) t s := by
      simp only [Call.run, callAt, macroAt, if_neg h16, if_neg h20, if_neg h40, if_neg h60]
    rw [hcall]
    exact rx_round (fun w x y => by rw [Fips180.func, if_neg h20, if_neg h40, if_neg h60]; rfl)
      (by rw [Fips180.const, if_neg h20, if_neg h40, if_neg h60]) hget hword

theorem run_calls (order : Order) {buffer : Bytes} (hbuffer : buffer.length = 64) {s : Locals}
    (hs : s.block = load order buffer) {n : ℕ} (hn : n ≤ 80) :
    let s' := ((List.range n).map callAt).foldl (fun s call => call.run order s) s
    view n s' = Fips180.rounds (Fips180.words buffer) (view 0 s) n ∧ Scheduled order buffer n s' := by
  induction n with
  | zero => exact ⟨rfl, .load hs⟩
  | succ n ih =>
    obtain ⟨hview, hsched⟩ := ih (by omega)
    have hstep := run_callAt hbuffer (by omega) hsched
    rw [List.range_succ, List.map_append, List.foldl_append]
    exact ⟨hstep.1.trans (by rw [hview]; rfl), hstep.2⟩

theorem view_eighty (s : Locals) : view 80 s = ⟨s.a, s.b, s.c, s.d, s.e⟩ := by
  have hvar : ∀ k, var (4 * 80 + k) = var k := fun k => var_congr (by omega)
  rw [view, hvar 1, hvar 2, hvar 3, hvar 4, var_congr (show 4 * 80 % 5 = 0 % 5 from rfl)]
  rfl

def hashOf (state : Vector UInt32 5) : Fips180.Hash := ⟨state[0], state[1], state[2], state[3], state[4]⟩

/-- The unrolled code compresses a block as the standard says, on a machine of either byte order. -/
theorem sha1Transform_eq (order : Order) (state : Vector UInt32 5) {buffer : Bytes}
    (hbuffer : buffer.length = 64) :
    hashOf (sha1Transform order state buffer) = Fips180.compress (hashOf state) buffer := by
  obtain ⟨hview, -⟩ := run_calls order hbuffer
    (s := ⟨state[0], state[1], state[2], state[3], state[4], load order buffer⟩) rfl le_rfl
  rw [← calls_eq] at hview
  generalize hs : calls.foldl (fun s call => call.run order s)
    (⟨state[0], state[1], state[2], state[3], state[4], load order buffer⟩ : Locals) = s at hview
  have hstart : view 0 ⟨state[0], state[1], state[2], state[3], state[4], load order buffer⟩ =
      hashOf state := rfl
  rw [view_eighty, hstart] at hview
  rw [Fips180.compress, ← hview]
  simp only [sha1Transform, hs]
  rfl

end Rcom.Sha1
