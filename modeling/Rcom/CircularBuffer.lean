import Rcom.Lib.Bytes
import Rcom.Lib.Ring
import Rcom.Lib.Trace
import Rcom.Libc
import Mathlib.Tactic

/-!
# The circular buffer (circular.c)

What C leaves undefined is `none`: an `int` sum out of range and a copy that leaves its
buffer. The buffer's memory holds anything at first.
-/

namespace Rcom
open Lib Lib.Trace

def slice (src : Bytes) (start len : ℤ) : Option Bytes :=
  if 0 ≤ start ∧ 0 ≤ len ∧ start + len ≤ src.length then
    some ((src.drop start.toNat).take len.toNat)
  else none

def store (dst : Bytes) (start : ℤ) (data : Bytes) : Option Bytes :=
  if 0 ≤ start ∧ start + data.length ≤ dst.length then
    some (Ring.overwrite dst start.toNat data)
  else none

structure CircularBuffer where
  buffer : Bytes
  length : ℤ
  readpos : ℤ
  writepos : ℤ
deriving DecidableEq, Repr

def newCircularBuffer (memory : ℕ → UInt8) (size : ℕ) : CircularBuffer where
  buffer := (List.range size).map memory
  length := size
  readpos := 0
  writepos := 0

def circularBufferDataAvailable (r : CircularBuffer) : Option ℤ :=
  if r.readpos ≤ r.writepos then int (r.writepos - r.readpos)
  else do
    let sum ← int (r.length + r.writepos)
    int (sum - r.readpos)

def circularBufferSpaceAvailable (r : CircularBuffer) : Option ℤ :=
  if r.readpos ≤ r.writepos then do
    let sum ← int (r.length + r.readpos)
    int (sum - r.writepos)
  else int (r.readpos - r.writepos)

def circularBufferWrite (r : CircularBuffer) (buffer : Bytes) : Option CircularBuffer :=
  let requestedLength : ℤ := buffer.length
  if r.length < requestedLength then some r
  else do
    let stop ← int (r.writepos + requestedLength)
    let len1 := if r.length < stop then r.length - r.writepos else requestedLength
    let len2 := if r.length < stop then requestedLength - len1 else 0
    let r ← if len1 = 0 then some r else do
      let data ← slice buffer 0 len1
      let cells ← store r.buffer r.writepos data
      some { r with buffer := cells, writepos := r.writepos + len1 }
    if len2 = 0 then some r else do
      let data ← slice buffer len1 len2
      let cells ← store r.buffer 0 data
      some { r with buffer := cells, writepos := len2 }

def circularBufferRead (r : CircularBuffer) (len : ℤ) : Option (Bytes × CircularBuffer) :=
  let requestedLength := if r.length < len then r.length else len
  do
    let stop ← int (r.readpos + requestedLength)
    let len1 := if r.length < stop then r.length - r.readpos else requestedLength
    let len2 := if r.length < stop then requestedLength - len1 else 0
    let (first, r) ← if len1 = 0 then some ([], r) else do
      let data ← slice r.buffer r.readpos len1
      some (data, { r with readpos := r.readpos + len1 })
    if len2 = 0 then some (first, r) else do
      let data ← slice r.buffer 0 len2
      some (first ++ data, { r with readpos := len2 })

/-! ## The queue in the buffer -/

/-- The buffer of `n` cells has `q` in it, from cell `p` on. -/
structure Lies (n : ℕ) (r : CircularBuffer) (p : ℕ) (q : Bytes) : Prop where
  length : r.length = n
  cells : r.buffer.length = n
  readpos : r.readpos = p
  le : p ≤ n
  holds : Ring.Holds r.buffer p q
  writepos : r.writepos = Ring.pos n p q.length

def Small (r : CircularBuffer) : Prop := r.length + min r.readpos r.writepos ≤ intMax

/-- What the buffer says of itself is true of a queue `q` of at most `n` bytes. -/
structure Lawful (n : ℕ) (r : CircularBuffer) (q : Bytes) : Prop where
  data : circularBufferDataAvailable r = some (q.length : ℤ)
  space : circularBufferSpaceAvailable r = some (n - q.length : ℤ)
  readpos : 0 ≤ r.readpos ∧ r.readpos ≤ n
  writepos : 0 ≤ r.writepos ∧ r.writepos ≤ n

section
variable {n p k : ℕ} {r : CircularBuffer} {q b : Bytes}

theorem lies_new (memory : ℕ → UInt8) (n : ℕ) : Lies n (newCircularBuffer memory n) 0 [] where
  length := rfl
  cells := by simp [newCircularBuffer]
  readpos := rfl
  le := Nat.zero_le n
  holds := Ring.holds_nil _ _
  writepos := by simp [newCircularBuffer, Ring.pos]

theorem Lies.writepos_eq (h : Lies n r p q) :
    r.writepos = if p + q.length ≤ n then (p : ℤ) + q.length else p + q.length - n := by
  rw [h.writepos, Ring.pos]
  split_ifs <;> omega

theorem Lies.length_le (h : Lies n r p q) : q.length ≤ n := h.cells ▸ h.holds.1

/-- In a buffer of less than half the range of `int` no sum is out of range. -/
theorem Lies.small_of_le (h : Lies n r p q) (hn : 2 * (n : ℤ) ≤ intMax) : Small r := by
  have hp := h.le
  rw [Small, h.length, h.readpos]
  omega

theorem Lies.data (h : Lies n r p q) (hmax : n ≤ intMax) (hsmall : Small r) :
    circularBufferDataAvailable r =
      some (if q.length < n ∨ p = 0 then (q.length : ℤ) else 0) := by
  have hq := h.length_le
  have hp := h.le
  have hw := h.writepos_eq
  rw [Small, h.length, h.readpos] at hsmall
  rw [circularBufferDataAvailable, h.length, h.readpos]
  unfold intMax at hmax hsmall
  by_cases horder : (p : ℤ) ≤ r.writepos
  · rw [if_pos horder, int_eq_some (by unfold intMax; omega) (by unfold intMax; omega)]
    congr 1
    split_ifs at hw ⊢ <;> omega
  · rw [if_neg horder, int_eq_some (by unfold intMax; omega) (by unfold intMax; omega),
      Option.bind_eq_bind, Option.bind_some,
      int_eq_some (by unfold intMax; omega) (by unfold intMax; omega)]
    congr 1
    split_ifs at hw ⊢ <;> omega

theorem Lies.space (h : Lies n r p q) (hmax : n ≤ intMax) (hsmall : Small r) :
    circularBufferSpaceAvailable r =
      some (n - if q.length < n ∨ p = 0 then (q.length : ℤ) else 0) := by
  have hq := h.length_le
  have hp := h.le
  have hw := h.writepos_eq
  rw [Small, h.length, h.readpos] at hsmall
  rw [circularBufferSpaceAvailable, h.length, h.readpos]
  unfold intMax at hmax hsmall
  by_cases horder : (p : ℤ) ≤ r.writepos
  · rw [if_pos horder, int_eq_some (by unfold intMax; omega) (by unfold intMax; omega),
      Option.bind_eq_bind, Option.bind_some,
      int_eq_some (by unfold intMax; omega) (by unfold intMax; omega)]
    congr 1
    split_ifs at hw ⊢ <;> omega
  · rw [if_neg horder, int_eq_some (by unfold intMax; omega) (by unfold intMax; omega)]
    congr 1
    split_ifs at hw ⊢ <;> omega

theorem Lies.small (h : Lies n r p q) {d s : ℤ} (hd : circularBufferDataAvailable r = some d)
    (hs : circularBufferSpaceAvailable r = some s) : Small r := by
  by_contra hsmall
  rw [Small, h.length, h.readpos] at hsmall
  rw [circularBufferDataAvailable, h.length, h.readpos] at hd
  rw [circularBufferSpaceAvailable, h.length, h.readpos] at hs
  by_cases horder : (p : ℤ) ≤ r.writepos
  · rw [if_pos horder, int_eq_none (by omega)] at hs
    exact absurd hs (by simp)
  · rw [if_neg horder, int_eq_none (by omega)] at hd
    exact absurd hd (by simp)

theorem Lies.lawful_iff (h : Lies n r p q) (hn : 1 ≤ n) (hmax : n ≤ intMax) :
    Lawful n r q ↔ (q.length < n ∨ p = 0) ∧ Small r := by
  have hq := h.length_le
  have hp := h.le
  constructor
  · intro hl
    have hsmall := h.small hl.data hl.space
    have hd := hl.data
    rw [h.data hmax hsmall, Option.some_inj] at hd
    refine ⟨?_, hsmall⟩
    by_contra hfull
    rw [if_neg hfull] at hd
    omega
  · intro ⟨hspare, hsmall⟩
    have hw := h.writepos_eq
    refine ⟨?_, ?_, ?_, ?_⟩
    · rw [h.data hmax hsmall, if_pos hspare]
    · rw [h.space hmax hsmall, if_pos hspare]
    · rw [h.readpos]
      omega
    · rw [hw]
      split_ifs <;> omega

/-! ## Writing and reading -/

theorem slice_eq_some {b : Bytes} {i j : ℕ} (h : i + j ≤ b.length) :
    slice b i j = some ((b.drop i).take j) := by
  rw [slice, if_pos ⟨by omega, by omega, by omega⟩]
  rfl

theorem store_eq_some {dst data : Bytes} {i : ℕ} (h : i + data.length ≤ dst.length) :
    store dst i data = some (Ring.overwrite dst i data) := by
  rw [store, if_pos ⟨by omega, by omega⟩]
  rfl

theorem Lies.write_undefined (h : Lies n r p q) (hb : q.length + b.length ≤ n)
    (hsum : intMax < r.writepos + b.length) : circularBufferWrite r b = none := by
  rw [circularBufferWrite]
  dsimp only
  rw [if_neg (by rw [h.length]; omega), int_eq_none hsum]
  rfl

theorem circularBufferWrite_eq {w : ℕ} (hlen : r.length = r.buffer.length)
    (hw : r.writepos = w) (hwle : w ≤ r.buffer.length) (hb : b.length ≤ r.buffer.length)
    (hsum : r.writepos + b.length ≤ intMax) :
    circularBufferWrite r b = some { r with
      buffer := Ring.put r.buffer w b
      writepos := Ring.pos r.buffer.length w b.length } := by
  rw [circularBufferWrite]
  dsimp only
  rw [if_neg (by omega), int_eq_some (by unfold intMax; omega) hsum, Option.bind_eq_bind,
    Option.bind_some, hlen, hw]
  by_cases hend : w + b.length ≤ r.buffer.length
  · have hfit : ¬(r.buffer.length : ℤ) < w + b.length := by omega
    rw [Ring.put_of_le hend, Ring.pos, if_pos hend]
    simp only [if_neg hfit]
    by_cases hzero : b = []
    · subst hzero
      simp [← hw, ← hlen]
    · have hdata := slice_eq_some (b := b) (i := 0) (j := b.length) (by omega)
      have hpos : (b.length : ℤ) ≠ 0 := by simpa using hzero
      rw [Nat.cast_zero, List.drop_zero, List.take_length] at hdata
      rw [if_neg hpos, hdata, Option.bind_eq_bind, Option.bind_some, store_eq_some hend]
      simp
  · have hfit : (r.buffer.length : ℤ) < w + b.length := by omega
    obtain ⟨m, hm⟩ : ∃ m, m = r.buffer.length - w := ⟨_, rfl⟩
    have hlen1 : (r.buffer.length : ℤ) - w = m := by omega
    have hlen2 : (b.length : ℤ) - m = (b.length - m : ℕ) := by omega
    have hpos : ((b.length - m : ℕ) : ℤ) ≠ 0 := by omega
    have hback : ∀ cells : Bytes, cells.length = r.buffer.length →
        store cells 0 (b.drop m) = some (Ring.overwrite cells 0 (b.drop m)) := by
      intro cells hcells
      exact store_eq_some (i := 0) (by rw [List.length_drop]; omega)
    have hrest := slice_eq_some (b := b) (i := m) (j := b.length - m) (by omega)
    rw [List.take_of_length_le (Nat.le_of_eq List.length_drop)] at hrest
    rw [Ring.pos, if_neg hend, Ring.put, ← hm]
    simp only [if_pos hfit, hlen1, hlen2, if_neg hpos, hrest, Option.bind_eq_bind,
      Option.bind_some]
    by_cases hzero : m = 0
    · subst hzero
      rw [Nat.cast_zero, if_pos rfl, hback _ rfl]
      simp [hlen]
      omega
    · have hdata := slice_eq_some (b := b) (i := 0) (j := m) (by omega)
      have hfirst : w + (b.take m).length ≤ r.buffer.length := by
        rw [List.length_take]
        omega
      rw [Nat.cast_zero, List.drop_zero] at hdata
      rw [if_neg (by omega), hdata, Option.bind_some, store_eq_some hfirst,
        Option.bind_some, hback _ (Ring.length_overwrite hfirst)]
      simp
      omega

theorem Lies.write (h : Lies n r p q) (hb : q.length + b.length ≤ n)
    (hsum : r.writepos + b.length ≤ intMax) :
    ∃ r', circularBufferWrite r b = some r' ∧ Lies n r' p (q ++ b) := by
  obtain ⟨hlen, hcells, hpos, hp, hq, hw⟩ := h
  subst hcells
  have hwle : Ring.pos r.buffer.length p q.length ≤ r.buffer.length := Ring.pos_le hp (by omega)
  refine ⟨_, circularBufferWrite_eq hlen hw hwle (by omega) hsum, ?_⟩
  constructor
  · exact hlen
  · exact Ring.length_put hwle (by omega)
  · exact hpos
  · exact hp
  · exact hq.put hp hb
  · rw [Ring.pos_pos hp hb, List.length_append]

theorem Lies.read_undefined (h : Lies n r p q) (hk : k ≤ q.length)
    (hsum : intMax < r.readpos + k) : circularBufferRead r k = none := by
  have hq := h.length_le
  rw [circularBufferRead]
  dsimp only
  rw [if_neg (by rw [h.length]; omega), int_eq_none hsum]
  rfl

theorem circularBufferRead_eq (hlen : r.length = r.buffer.length) (hp : r.readpos = p)
    (hple : p ≤ r.buffer.length) (hk : k ≤ r.buffer.length) (hsum : r.readpos + k ≤ intMax) :
    circularBufferRead r k = some
      (if p + k ≤ r.buffer.length then (r.buffer.drop p).take k
        else r.buffer.drop p ++ r.buffer.take (p + k - r.buffer.length),
      { r with readpos := Ring.pos r.buffer.length p k }) := by
  rw [circularBufferRead]
  dsimp only
  rw [if_neg (by omega), int_eq_some (by unfold intMax; omega) hsum, Option.bind_eq_bind,
    Option.bind_some, hlen, hp]
  by_cases hend : p + k ≤ r.buffer.length
  · have hfit : ¬(r.buffer.length : ℤ) < p + k := by omega
    rw [Ring.pos, if_pos hend, if_pos hend]
    simp only [if_neg hfit]
    by_cases hzero : k = 0
    · subst hzero
      simp [← hp, ← hlen]
    · rw [if_neg (by omega), slice_eq_some hend]
      simp
  · have hfit : (r.buffer.length : ℤ) < p + k := by omega
    obtain ⟨m, hm⟩ : ∃ m, m = r.buffer.length - p := ⟨_, rfl⟩
    have hlen1 : (r.buffer.length : ℤ) - p = m := by omega
    have hlen2 : (k : ℤ) - m = (k - m : ℕ) := by omega
    have hpos : ((k - m : ℕ) : ℤ) ≠ 0 := by omega
    have hrest := slice_eq_some (b := r.buffer) (i := 0) (j := k - m) (by omega)
    rw [Nat.cast_zero, List.drop_zero] at hrest
    have hcount : p + k - r.buffer.length = k - m := by omega
    have hfront : (r.buffer.drop p).take m = r.buffer.drop p := by
      rw [List.take_of_length_le (by rw [List.length_drop]; omega)]
    rw [Ring.pos, if_neg hend, if_neg hend, hcount]
    simp only [if_pos hfit, hlen1, hlen2, if_neg hpos, Option.bind_eq_bind]
    by_cases hzero : m = 0
    · subst hzero
      rw [Nat.cast_zero, if_pos rfl, Option.bind_some, hrest]
      rw [List.take_zero] at hfront
      simp [hlen, ← hfront]
    · have hdata := slice_eq_some (b := r.buffer) (i := p) (j := m) (by omega)
      rw [if_neg (by omega), hdata, Option.bind_some, Option.bind_some, hrest]
      simp [hfront]

/-- A read returns the first bytes and takes them from the queue. -/
theorem Lies.read (h : Lies n r p q) (hk : k ≤ q.length) (hsum : r.readpos + k ≤ intMax) :
    ∃ r', circularBufferRead r k = some (q.take k, r') ∧ Lies n r' (Ring.pos n p k) (q.drop k) := by
  have hq := h.length_le
  obtain ⟨hlen, hcells, hpos, hp, hholds, hw⟩ := h
  subst hcells
  refine ⟨{ r with readpos := Ring.pos r.buffer.length p k }, ?_, ?_⟩
  · rw [circularBufferRead_eq hlen hpos hp (by omega) hsum]
    split_ifs with hend
    · rw [hholds.take_drop hk hend]
    · rw [hholds.drop_append_take hp hk (by omega)]
  · constructor
    · exact hlen
    · rfl
    · rfl
    · exact Ring.pos_le hp (by omega)
    · exact hholds.drop hp hk
    · rw [hw, List.length_drop, Ring.pos_pos hp (by omega)]
      congr 2
      omega

end

/-! ## Calls in a row -/

inductive BufferCall where
  | write (data : Bytes)
  | read (len : ℕ)

/-- `ring` is `none` after a call whose behaviour is undefined. `queue` has the bytes written and
not yet read, `got` what the last read copied. -/
structure BufferUse where
  ring : Option CircularBuffer
  queue : Bytes
  got : Bytes

namespace BufferCall

def Allowed (r : CircularBuffer) : BufferCall → Prop
  | write data => ∃ space, circularBufferSpaceAvailable r = some space ∧ data.length ≤ space
  | read len => ∃ available, circularBufferDataAvailable r = some available ∧ len ≤ available

def run (r : CircularBuffer) : BufferCall → Option (Bytes × CircularBuffer)
  | write data => (circularBufferWrite r data).map ([], ·)
  | read len => circularBufferRead r len

def queue (q : Bytes) : BufferCall → Bytes
  | write data => q ++ data
  | read len => q.drop len

def expected (q : Bytes) : BufferCall → Bytes
  | write _ => []
  | read len => q.take len

def stop (r : CircularBuffer) : BufferCall → ℤ
  | write data => r.writepos + data.length
  | read len => r.readpos + len

def moved (r : CircularBuffer) (pos len : ℤ) : ℤ :=
  if pos + len ≤ r.length then pos + len else pos + len - r.length

/-- The length and the lower position, as they will be after the call. -/
def top (r : CircularBuffer) : BufferCall → ℤ
  | write data => r.length + min r.readpos (moved r r.writepos data.length)
  | read len => r.length + min (moved r r.readpos len) r.writepos

/-- Bytes that make the buffer full are written before any is read. -/
def Early (n : ℕ) (r : CircularBuffer) (q : Bytes) : BufferCall → Prop
  | write data => data ≠ [] → q.length + data.length = n → r.readpos = 0
  | read _ => True

end BufferCall

def openBuffer (memory : ℕ → UInt8) (n : ℕ) : BufferUse :=
  ⟨some (newCircularBuffer memory n), [], []⟩

inductive BufferUse.Step : BufferUse → BufferCall → BufferUse → Prop where
  | call {r : CircularBuffer} {q got : Bytes} {c : BufferCall} : c.Allowed r →
      Step ⟨some r, q, got⟩ c ⟨(c.run r).map Prod.snd, c.queue q, ((c.run r).map Prod.fst).getD []⟩

/-- The call did what a queue of at most `n` bytes does, and the buffer says so. -/
def Fifo (n : ℕ) (m : Move BufferUse BufferCall) : Prop :=
  m.dst.got = m.act.expected m.src.queue ∧ ∃ r ∈ m.dst.ring, Lawful n r m.dst.queue

/-- The call does not fill a buffer that has been read from, and the sums that the code makes of
positions are in the range of `int`. -/
structure Spared (n : ℕ) (m : Move BufferUse BufferCall) : Prop where
  early : ∀ r ∈ m.src.ring, m.act.Early n r m.src.queue
  stop : ∀ r ∈ m.src.ring, m.act.stop r ≤ intMax
  top : ∀ r ∈ m.src.ring, m.act.top r ≤ intMax

def Sound (n : ℕ) (s : BufferUse) : Prop :=
  ∃ r p, s.ring = some r ∧ Lies n r p s.queue ∧ (s.queue.length < n ∨ p = 0) ∧ Small r

theorem sound_open (memory : ℕ → UInt8) {n : ℕ} (hmax : n ≤ intMax) :
    Sound n (openBuffer memory n) := by
  refine ⟨_, 0, rfl, lies_new memory n, Or.inr rfl, ?_⟩
  simpa [Small, newCircularBuffer] using hmax

section
variable {n p : ℕ} {r : CircularBuffer} {q : Bytes} {c : BufferCall}

theorem run_undefined (hmax : n ≤ intMax) (h : Lies n r p q) (hspare : q.length < n ∨ p = 0)
    (hsmall : Small r) (hallowed : c.Allowed r) (hstop : intMax < c.stop r) : c.run r = none := by
  cases c with
  | write data =>
    obtain ⟨space, hspace, hle⟩ := hallowed
    rw [h.space hmax hsmall, if_pos hspare, Option.some_inj] at hspace
    rw [BufferCall.run, h.write_undefined (by omega) hstop]
    rfl
  | read len =>
    obtain ⟨available, hdata, hle⟩ := hallowed
    rw [h.data hmax hsmall, if_pos hspare, Option.some_inj] at hdata
    exact h.read_undefined (by omega) hstop

/-- A call that is defined does what a queue does. Whether the buffer can tell afterwards is a
matter of where the bytes lie. -/
theorem run_defined (hmax : n ≤ intMax) (h : Lies n r p q) (hspare : q.length < n ∨ p = 0)
    (hsmall : Small r) (hallowed : c.Allowed r) (hstop : c.stop r ≤ intMax) :
    ∃ r' p', c.run r = some (c.expected q, r') ∧ Lies n r' p' (c.queue q) ∧
      ((c.queue q).length < n ∨ p' = 0 ↔ c.Early n r q) ∧ (Small r' ↔ c.top r ≤ intMax) := by
  cases c with
  | write data =>
    obtain ⟨space, hspace, hle⟩ := hallowed
    rw [h.space hmax hsmall, if_pos hspare, Option.some_inj] at hspace
    obtain ⟨r', hwrite, h'⟩ := h.write (b := data) (by omega) hstop
    refine ⟨r', p, by rw [BufferCall.run, hwrite]; rfl, h', ?_, ?_⟩
    · rw [BufferCall.Early, h.readpos, BufferCall.queue, List.length_append]
      have hzero : data = [] ↔ data.length = 0 := List.length_eq_zero_iff.symm
      rw [Ne, hzero]
      omega
    · have hp := h.le
      have hw := h.writepos_eq
      have hw' := h'.writepos_eq
      rw [List.length_append] at hw'
      rw [Small, BufferCall.top, BufferCall.moved, h'.length, h'.readpos, h.length, h.readpos]
      have hmoved : (if r.writepos + data.length ≤ n then r.writepos + data.length
          else r.writepos + data.length - n) = r'.writepos := by
        split_ifs at hw hw' ⊢ <;> omega
      rw [hmoved]
  | read len =>
    obtain ⟨available, hdata, hle⟩ := hallowed
    rw [h.data hmax hsmall, if_pos hspare, Option.some_inj] at hdata
    obtain ⟨r', hread, h'⟩ := h.read (k := len) (by omega) hstop
    have hp := h.le
    have hq := h.length_le
    refine ⟨r', _, hread, h', iff_of_true ?_ trivial, ?_⟩
    · rw [BufferCall.queue, List.length_drop, Ring.pos]
      split_ifs <;> omega
    · have hw : r'.writepos = r.writepos := by
        rw [h'.writepos, h.writepos, List.length_drop, Ring.pos_pos hp (by omega)]
        congr 2
        omega
      rw [Small, BufferCall.top, BufferCall.moved, h'.length, h'.readpos, h.length, h.readpos, hw, Ring.pos]
      have hmoved : (if (p : ℤ) + len ≤ n then (p : ℤ) + len else p + len - n) =
          (if p + len ≤ n then p + len else p + len - n : ℕ) := by
        split_ifs <;> omega
      rw [hmoved]

variable {s t : BufferUse}

theorem fifo_iff_spared (hn : 1 ≤ n) (hmax : n ≤ intMax) (hs : Sound n s)
    (hstep : BufferUse.Step s c t) : Fifo n ⟨s, c, t⟩ ↔ Spared n ⟨s, c, t⟩ := by
  cases hstep with
  | @call r q got _ hallowed =>
    obtain ⟨_, p, hring, h, hspare, hsmall⟩ := hs
    obtain rfl : r = _ := Option.some_inj.1 hring
    by_cases hstop : c.stop r ≤ intMax
    · obtain ⟨r', p', hrun, h', hearly, htop⟩ := run_defined hmax h hspare hsmall hallowed hstop
      have hlawful := h'.lawful_iff hn hmax
      rw [Fifo, hrun]
      constructor
      · intro ⟨_, r₁, hring₁, hlaw⟩
        obtain rfl : r' = r₁ := Option.some_inj.1 hring₁
        obtain ⟨hspare', hsmall'⟩ := hlawful.1 hlaw
        refine ⟨fun r₁ hr₁ => ?_, fun r₁ hr₁ => ?_, fun r₁ hr₁ => ?_⟩
        · exact Option.some_inj.1 hr₁ ▸ hearly.1 hspare'
        · exact Option.some_inj.1 hr₁ ▸ hstop
        · exact Option.some_inj.1 hr₁ ▸ htop.1 hsmall'
      · intro hspared
        have hearly' := hspared.early r rfl
        exact ⟨rfl, r', rfl, hlawful.2 ⟨hearly.2 hearly', htop.2 (hspared.top r rfl)⟩⟩
    · have hrun := run_undefined hmax h hspare hsmall hallowed (not_le.1 hstop)
      rw [Fifo, hrun]
      constructor
      · intro ⟨_, r₁, hring₁, _⟩
        cases hring₁
      · intro hspared
        exact absurd (hspared.stop r rfl) hstop

theorem sound_step (hmax : n ≤ intMax) (hs : Sound n s) (hstep : BufferUse.Step s c t)
    (hspared : Spared n ⟨s, c, t⟩) : Sound n t := by
  cases hstep with
  | @call r q got _ hallowed =>
    obtain ⟨_, p, hring, h, hspare, hsmall⟩ := hs
    obtain rfl : r = _ := Option.some_inj.1 hring
    have hstop := hspared.stop r rfl
    obtain ⟨r', p', hrun, h', hearly, htop⟩ := run_defined hmax h hspare hsmall hallowed hstop
    rw [hrun]
    exact ⟨r', p', rfl, h', hearly.2 (hspared.early r rfl), htop.2 (hspared.top r rfl)⟩

end

/-- Starting from an empty buffer, every call does what a bounded queue does and the buffer says
so, exactly when no call makes the buffer full after a byte was read and no sum overflows. -/
theorem circular_buffer_fifo (memory : ℕ → UInt8) {n : ℕ} (hn : 1 ≤ n) (hmax : n ≤ intMax)
    {moves : List (Move BufferUse BufferCall)} {t : BufferUse}
    (hrun : Run BufferUse.Step (openBuffer memory n) moves t) :
    (∃ r ∈ (openBuffer memory n).ring, Lawful n r []) ∧
      ((∀ m ∈ moves, Fifo n m) ↔ ∀ m ∈ moves, Spared n m) := by
  have hopen := sound_open memory hmax
  refine ⟨?_, ?_⟩
  · obtain ⟨r, p, hring, h, hspare, hsmall⟩ := hopen
    exact ⟨r, hring, (h.lawful_iff hn hmax).2 ⟨hspare, hsmall⟩⟩
  · exact hrun.forall_iff (fun _ _ _ hs hstep => fifo_iff_spared hn hmax hs hstep)
      (fun _ _ _ hs hstep => sound_step hmax hs hstep) hopen

def filled : BufferUse := ⟨some ⟨[1, 2], 2, 0, 2⟩, [1, 2], []⟩

def halfRead : BufferUse := ⟨some ⟨[1, 2], 2, 1, 2⟩, [2], [1]⟩

theorem write_then_read_fifo :
    Fifo 2 ⟨openBuffer (fun _ => 0) 2, .write [1, 2], filled⟩ ∧ Fifo 2 ⟨filled, .read 1, halfRead⟩ := by
  have hwrite : BufferUse.Step (openBuffer (fun _ => 0) 2) (.write [1, 2]) filled :=
    .call ⟨2, by decide, by decide⟩
  have hread : BufferUse.Step filled (.read 1) halfRead := .call ⟨2, by decide, by decide⟩
  have hmoves := circular_buffer_fifo (fun _ => 0) (by decide) (by decide)
    (.cons hwrite (.single hread))
  have hspared : Spared 2 ⟨openBuffer (fun _ => 0) 2, .write [1, 2], filled⟩ ∧
      Spared 2 ⟨filled, .read 1, halfRead⟩ := by
    refine ⟨⟨?_, ?_, ?_⟩, ⟨?_, ?_, ?_⟩⟩ <;> intro r hr <;> obtain rfl := Option.some_inj.1 hr
    · exact fun _ _ => rfl
    · decide
    · decide
    · trivial
    · decide
    · decide
  have hall := hmoves.2.2 (by simpa using hspared)
  exact ⟨hall _ (by simp), hall _ (by simp)⟩

/-- One byte is written and read. The eight bytes written then end where they begin. -/
theorem full_buffer_looks_empty : ∃ moves t,
    Run BufferUse.Step (openBuffer (fun _ => 0) 8) moves t ∧ t.queue = [1, 2, 3, 4, 5, 6, 7, 8] ∧
      t.ring.bind circularBufferDataAvailable = some 0 ∧
      t.ring.bind circularBufferSpaceAvailable = some 8 ∧ ¬∀ m ∈ moves, Fifo 8 m := by
  have hfirst : BufferUse.Step (openBuffer (fun _ => 0) 8) (.write [0])
      ⟨some ⟨[0, 0, 0, 0, 0, 0, 0, 0], 8, 0, 1⟩, [0], []⟩ :=
    .call ⟨8, by decide, by decide⟩
  have hread : BufferUse.Step ⟨some ⟨[0, 0, 0, 0, 0, 0, 0, 0], 8, 0, 1⟩, [0], []⟩ (.read 1)
      ⟨some ⟨[0, 0, 0, 0, 0, 0, 0, 0], 8, 1, 1⟩, [], [0]⟩ :=
    .call ⟨1, by decide, by decide⟩
  have hfull : BufferUse.Step ⟨some ⟨[0, 0, 0, 0, 0, 0, 0, 0], 8, 1, 1⟩, [], [0]⟩
      (.write [1, 2, 3, 4, 5, 6, 7, 8])
      ⟨some ⟨[8, 1, 2, 3, 4, 5, 6, 7], 8, 1, 1⟩, [1, 2, 3, 4, 5, 6, 7, 8], []⟩ :=
    .call ⟨8, by decide, by decide⟩
  refine ⟨_, _, .cons hfirst (.cons hread (.cons hfull (.nil _))), rfl, by decide, by decide, ?_⟩
  intro hfifo
  obtain ⟨-, r, hring, hlaw⟩ := hfifo _ (List.mem_cons_of_mem _ (List.mem_cons_of_mem _
    (List.mem_singleton.2 rfl)))
  obtain rfl := Option.some_inj.1 hring
  exact absurd hlaw.data (by decide)

end Rcom
