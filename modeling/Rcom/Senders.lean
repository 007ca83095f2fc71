import Rcom.Channel
import Rcom.FrameReading
import Mathlib.Data.List.Forall2

/-!
# Threads that send on one link (messagelink.c)

A frame takes many calls of `send`. While a thread sends one it holds `send_mutex`, and a
control frame waits in `link->out`, which is locked as long. A frame that could not be sent
to its end leaves its first bytes on the wire.
-/

namespace Rcom.Messagelink
open Rcom.Lib Rcom.Lib.Program Rcom.Lib.Trace
open Rcom.ClientLink (LinkState)

variable {J : Type} {isClient : Bool}

inductive SendCall where
  | text (data : Bytes)
  | ping (data : Bytes)
  | pong (payload : Bytes)
  | close (code : ℤ)

namespace SendCall

def opcode : SendCall → Fin 16
  | text _ => 1
  | ping _ => 9
  | pong _ => 10
  | close _ => 8

def payload : SendCall → Bytes
  | text data | ping data | pong data => data
  | close code => closeData code

def send (isClient : Bool) : SendCall → Program J ℤ
  | text data => messagelinkSendText isClient data
  | ping data => messagelinkSendPing isClient data
  | pong payload => messagelinkSendPong isClient payload
  | close code => messagelinkSendClose isClient code

end SendCall

/-- A thread makes these calls. It may have chosen them by the results of those before. -/
def sendAll (isClient : Bool) : List SendCall → Program J Unit
  | [] => .ret ()
  | c :: cs => do
    let _ ← c.send isClient
    sendAll isClient cs

/-! ## What may be on the wire -/

def FramesOf (isClient : Bool) (calls : List SendCall) (bs : List Bytes) : Prop :=
  ∃ made, made.Sublist calls ∧
    List.Forall₂ (fun c b => IsFrame c.opcode isClient c.payload b) made bs

def framesBy (i : ℕ) (frames : List (ℕ × Bytes)) : List Bytes :=
  (frames.filter fun f => f.1 = i).map Prod.snd

/-- After these frames thread `i` has sent a part of one more. -/
def Begins (isClient : Bool) (calls : ℕ → List SendCall) (frames : List (ℕ × Bytes)) (i : ℕ)
    (part : Bytes) : Prop :=
  ∃ frame, FramesOf isClient (calls i) (framesBy i frames ++ [frame]) ∧ part <+: frame

/-- Whole frames, each of one call, and then a part of one at most. -/
def Untorn (isClient : Bool) (calls : ℕ → List SendCall) (wire : List Piece) : Prop :=
  ∃ frames i part, bytesOf wire = frames.flatMap tagged ++ tagged (i, part) ∧
    (∀ j, FramesOf isClient (calls j) (framesBy j frames)) ∧
    (part = [] ∨ Begins isClient calls frames i part)

theorem framesBy_append (i : ℕ) (fs gs : List (ℕ × Bytes)) :
    framesBy i (fs ++ gs) = framesBy i fs ++ framesBy i gs := by
  rw [framesBy, List.filter_append, List.map_append]
  rfl

@[simp] theorem framesBy_self (i : ℕ) (bs : Bytes) : framesBy i [(i, bs)] = [bs] := by
  simp [framesBy]

theorem framesBy_ne {i j : ℕ} (h : j ≠ i) (bs : Bytes) : framesBy j [(i, bs)] = [] := by
  simp [framesBy, h.symm]

structure Orderly (isClient : Bool) (calls : ℕ → List SendCall) (s : Channel) : Prop where
  free : s.holder .sendMutex = none → s.current = []
  last : s.cut ≠ none → s.current = []
  wire : bytesOf s.wire = (s.frames ++ s.cut.toList).flatMap tagged ++
    (s.holder .sendMutex).toList.flatMap fun i => tagged (i, s.current)
  whole : ∀ i, FramesOf isClient (calls i) (framesBy i s.frames)
  cut : ∀ f, s.cut = some f → Begins isClient calls s.frames f.1 f.2
  current : ∀ i, s.holder .sendMutex = some i → s.current ≠ [] →
    Begins isClient calls s.frames i s.current

theorem Orderly.untorn {calls : ℕ → List SendCall} {s : Channel} (h : Orderly isClient calls s) :
    Untorn isClient calls s.wire := by
  have hwire := h.wire
  cases hcut : s.cut with
  | some f =>
    have hnone : s.current = [] := h.last (by simp [hcut])
    have hend : (s.holder .sendMutex).toList.flatMap (fun i => tagged (i, s.current)) = [] := by
      rw [hnone]
      cases s.holder .sendMutex <;> rfl
    refine ⟨s.frames, f.1, f.2, ?_, h.whole, .inr (h.cut f hcut)⟩
    rw [hwire, hend, hcut]
    simp
  | none =>
    cases hholder : s.holder .sendMutex with
    | none =>
      refine ⟨s.frames, 0, [], ?_, h.whole, .inl rfl⟩
      simpa [hcut, hholder] using hwire
    | some i =>
      refine ⟨s.frames, i, s.current, ?_, h.whole, ?_⟩
      · simpa [hcut, hholder] using hwire
      · by_cases hnone : s.current = []
        · exact .inl hnone
        · exact .inr (h.current i hholder hnone)

/-! ## What one thread sees -/

/-- `out` and `part` are what the thread put into `link->out` and on the wire, while it holds the
lock. -/
structure Sender where
  id : ℕ
  socket : Option ℕ
  out : Option Bytes
  part : Option Bytes
  frames : List Bytes

def Channel.sender (s : Channel) (i : ℕ) : Sender where
  id := i
  socket := s.socket
  out := if s.holder .out = some i then some s.out else none
  part := if s.holder .sendMutex = some i then some s.current else none
  frames := framesBy i s.frames

def Sender.settle (v : Sender) : Sender :=
  { v with part := none, frames := v.frames ++ v.part.toList.filter (· ≠ []) }

def Sees (v : Sender) : (a : Act J) → a.Answer → Sender → Prop
  | .lock .out, _, w => ∃ out, w = { v with out := some out }
  | .unlock .out, _, w => w = { v with out := none }
  | .lock .sendMutex, _, w => w = { v with part := some [] }
  | .unlock .sendMutex, _, w => w = v.settle
  | .socket, socket, w => socket = v.socket ∧ w = v
  | .clearOut, _, w => w = { v with out := some [] }
  | .appendOut data, _, w => w = { v with out := v.out.map (· ++ data) }
  | .out, out, w => v.out = some out ∧ w = v
  | .send _ _ data, (ret : ℤ), w =>
    0 < ret ∧ ret ≤ data.length ∧
        w = { v with part := v.part.map (· ++ data.take ret.toNat) } ∨
      ret ≤ 0 ∧ w = { v with part := some [] }
  | _, _, w => w = v

/-- What a thread may do: it uses `link->out` while it holds its lock, and under `send_mutex` it
sends the frame of a call that is to come. -/
def Owns (isClient : Bool) (calls : ℕ → List SendCall) (v : Sender) : Act J → Prop
  | .unlock .out | .clearOut | .appendOut _ | .out => v.out ≠ none
  | .unlock .sendMutex => ∃ part, v.part = some part ∧
    (part ≠ [] → FramesOf isClient (calls v.id) (v.frames ++ [part]))
  | .send _ _ data => ∃ part frame, v.part = some part ∧
    FramesOf isClient (calls v.id) (v.frames ++ [frame]) ∧ part ++ data <+: frame
  | .setSocket _ | .closeTcpSocket _ => False
  | _ => True

/-- A `send` that failed in the middle of a frame is the last one that was answered with bytes. -/
def StaysCut (s : Channel) : (a : Act J) → a.Answer → Prop
  | .send _ _ _, (ret : ℤ) => 0 < ret → s.cut = none
  | _, _ => True

section Step
variable {calls : ℕ → List SendCall} {s t : Channel} {i : ℕ}

theorem Orderly.of_same (h : Orderly isClient calls s) (hholder : t.holder .sendMutex = s.holder .sendMutex)
    (hwire : t.wire = s.wire) (hframes : t.frames = s.frames) (hcurrent : t.current = s.current)
    (hcut : t.cut = s.cut) : Orderly isClient calls t := by
  obtain ⟨hfree, hlast, hw, hwhole, hbegun, hpart⟩ := h
  constructor
  · rwa [hholder, hcurrent]
  · rwa [hcut, hcurrent]
  · rwa [hwire, hframes, hcut, hholder, hcurrent]
  · rwa [hframes]
  · rwa [hcut, hframes]
  · rwa [hholder, hcurrent, hframes]

theorem Orderly.take (h : Orderly isClient calls s) (hfree : s.holder .sendMutex = none) (i : ℕ) :
    Orderly isClient calls (s.hold .sendMutex (some i)) := by
  have hnone := h.free hfree
  refine ⟨fun _ => hnone, h.last, ?_, h.whole, h.cut, ?_⟩
  · have hwire := h.wire
    simpa [Channel.hold, hfree, hnone] using hwire
  · intro j hj hne
    exact absurd hnone hne

theorem Orderly.release (h : Orderly isClient calls s) (hholder : s.holder .sendMutex = some i)
    (hframe : s.current ≠ [] → FramesOf isClient (calls i) (framesBy i s.frames ++ [s.current])) :
    Orderly isClient calls (s.release i .sendMutex) := by
  have hwire := h.wire
  by_cases hnone : s.current = []
  · have hframes : (s.release i .sendMutex).frames = s.frames := if_pos hnone
    constructor
    · exact fun _ => rfl
    · exact fun _ => rfl
    · change bytesOf s.wire = _
      rw [hframes]
      simpa [Channel.release, Channel.settle, Channel.hold, hholder, hnone] using hwire
    · rw [hframes]
      exact h.whole
    · rw [hframes]
      exact h.cut
    · exact fun j hj hne => absurd rfl hne
  · have hframes : (s.release i .sendMutex).frames = s.frames ++ [(i, s.current)] := if_neg hnone
    have hcut : s.cut = none := by
      by_contra hcut
      exact hnone (h.last hcut)
    constructor
    · exact fun _ => rfl
    · exact fun _ => rfl
    · change bytesOf s.wire = _
      rw [hframes]
      simpa [Channel.release, Channel.settle, Channel.hold, hholder, hcut] using hwire
    · intro j
      rw [hframes, framesBy_append]
      by_cases hj : j = i
      · rw [hj, framesBy_self]
        exact hframe hnone
      · rw [framesBy_ne hj, List.append_nil]
        exact h.whole j
    · intro f hf
      cases hcut.symm.trans hf
    · exact fun j hj hne => absurd rfl hne

theorem Orderly.put (h : Orderly isClient calls s) (hholder : s.holder .sendMutex = some i)
    (hcut : s.cut = none) {opcode : ℕ} {data : Bytes}
    (hbegins : Begins isClient calls s.frames i (s.current ++ data)) :
    Orderly isClient calls (s.put i opcode data) := by
  have hwire := h.wire
  constructor
  · intro hfree
    cases hholder.symm.trans hfree
  · exact fun hne => absurd hcut hne
  · change bytesOf (s.wire ++ _) = _
    rw [bytesOf_append, hwire]
    simp [Channel.put, hholder, hcut, bytesOf, tagged_append]
  · exact h.whole
  · exact h.cut
  · intro j hj _
    obtain rfl : i = j := Option.some.inj (hholder.symm.trans hj)
    exact hbegins

theorem Orderly.fail (h : Orderly isClient calls s) (hholder : s.holder .sendMutex = some i) :
    Orderly isClient calls (s.fail i) := by
  have hwire := h.wire
  by_cases hnone : s.current = []
  · have hsame : s.fail i = s := by
      rw [Channel.fail, if_pos hnone]
      cases s
      simp_all
    rwa [hsame]
  · have hcut : s.cut = none := by
      by_contra hcut
      exact hnone (h.last hcut)
    have hnow : (s.fail i).cut = some (i, s.current) := if_neg hnone
    constructor
    · exact fun _ => rfl
    · exact fun _ => rfl
    · change bytesOf s.wire = _
      rw [hnow]
      simpa [Channel.fail, hholder, hcut] using hwire
    · exact h.whole
    · intro f hf
      obtain rfl := Option.some.inj (hnow.symm.trans hf)
      exact h.current i hholder hnone
    · exact fun j hj hne => absurd rfl hne

theorem sender_hold {l : Lock} {thread : Option ℕ} {j : ℕ} (h : s.holder l = none ∨ s.holder l = some i)
    (hthread : thread = none ∨ thread = some i) (hj : j ≠ i) :
    (s.hold l thread).sender j = s.sender j := by
  have hbefore : s.holder l ≠ some j := by
    rcases h with h | h
    · simp [h]
    · simp [h, hj.symm]
  have hafter : thread ≠ some j := by
    rcases hthread with h | h
    · simp [h]
    · simp [h, hj.symm]
  cases l <;> simp [Channel.sender, Channel.hold, hbefore, hafter]

theorem sender_part {part : Bytes} : (s.sender i).part = some part ↔
    s.holder .sendMutex = some i ∧ s.current = part := by
  simp [Channel.sender]

theorem sender_out {out : Bytes} : (s.sender i).out = some out ↔
    s.holder .out = some i ∧ s.out = out := by
  simp [Channel.sender]

/-- The lock of a buffer is not needed for another thread to see it. -/
theorem sender_of_out {out : Bytes} {j : ℕ} (hholder : s.holder .out = some i) (hj : j ≠ i) :
    Channel.sender { s with out } j = s.sender j := by
  simp [Channel.sender, hholder, hj.symm]

theorem sender_of_send {j : ℕ} (hholder : s.holder .sendMutex = some i) (hj : j ≠ i)
    (hsame : t.holder = s.holder ∧ t.socket = s.socket ∧ t.out = s.out ∧ t.frames = s.frames) :
    t.sender j = s.sender j := by
  simp [Channel.sender, hsame, hholder, hj.symm]

theorem sender_release_self (hholder : s.holder .sendMutex = some i) :
    (s.release i .sendMutex).sender i = (s.sender i).settle := by
  by_cases hnone : s.current = []
  · simp [Channel.sender, Sender.settle, Channel.release, Channel.settle, Channel.hold, hholder, hnone]
  · simp [Channel.sender, Sender.settle, Channel.release, Channel.settle, Channel.hold, hholder, hnone,
      framesBy_append]

theorem sender_release_ne {j : ℕ} (hholder : s.holder .sendMutex = some i) (hj : j ≠ i) :
    (s.release i .sendMutex).sender j = s.sender j := by
  by_cases hnone : s.current = []
  · simp [Channel.sender, Channel.release, Channel.settle, Channel.hold, hholder, hnone, hj.symm]
  · simp [Channel.sender, Channel.release, Channel.settle, Channel.hold, hholder, hnone, hj.symm,
      framesBy_append, framesBy_ne hj]

/-- What a thread does keeps the history in order, and the others do not see it. -/
theorem sender_step {a : Act J} {r : a.Answer} (hs : Orderly isClient calls s)
    (howns : Owns isClient calls (s.sender i) a) (hdoes : s.Does i a r t) (hcut : StaysCut s a r) :
    Orderly isClient calls t ∧ Sees (s.sender i) a r (t.sender i) ∧
      ∀ j, j ≠ i → t.sender j = s.sender j := by
  cases a with
  | lock l =>
    obtain ⟨hfree, rfl⟩ := hdoes
    have hothers : ∀ j, j ≠ i → (s.hold l (some i)).sender j = s.sender j :=
      fun j hj => sender_hold (.inl hfree) (.inr rfl) hj
    cases l with
    | out => exact ⟨hs.of_same rfl rfl rfl rfl rfl, ⟨s.out, by simp [Channel.sender, Channel.hold]⟩, hothers⟩
    | stateMutex => exact ⟨hs.of_same rfl rfl rfl rfl rfl, rfl, hothers⟩
    | sendMutex =>
      refine ⟨hs.take hfree i, ?_, hothers⟩
      simp [Sees, Channel.sender, Channel.hold, hs.free hfree]
  | unlock l =>
    obtain rfl := hdoes
    cases l with
    | out =>
      obtain ⟨out, hout⟩ := Option.ne_none_iff_exists'.1 howns
      have hholder := (sender_out.1 hout).1
      refine ⟨hs.of_same rfl rfl rfl rfl rfl, ?_, fun j hj => sender_hold (.inr hholder) (.inl rfl) hj⟩
      simp [Sees, Channel.sender, Channel.release, Channel.hold]
    | stateMutex => exact ⟨hs.of_same rfl rfl rfl rfl rfl, rfl, fun _ _ => rfl⟩
    | sendMutex =>
      obtain ⟨part, hpart, hframe⟩ := howns
      obtain ⟨hholder, rfl⟩ := sender_part.1 hpart
      exact ⟨hs.release hholder hframe, sender_release_self hholder,
        fun j hj => sender_release_ne hholder hj⟩
  | clearOut =>
    obtain rfl := hdoes
    obtain ⟨out, hout⟩ := Option.ne_none_iff_exists'.1 howns
    have hholder := (sender_out.1 hout).1
    refine ⟨hs.of_same rfl rfl rfl rfl rfl, ?_, fun j hj => sender_of_out hholder hj⟩
    simp [Sees, Channel.sender, hholder]
  | appendOut data =>
    obtain rfl := hdoes
    obtain ⟨out, hout⟩ := Option.ne_none_iff_exists'.1 howns
    have hholder := (sender_out.1 hout).1
    refine ⟨hs.of_same rfl rfl rfl rfl rfl, ?_, fun j hj => sender_of_out hholder hj⟩
    simp [Sees, Channel.sender, hholder]
  | out =>
    obtain ⟨rfl, rfl⟩ := hdoes
    obtain ⟨out, hout⟩ := Option.ne_none_iff_exists'.1 howns
    obtain ⟨hholder, rfl⟩ := sender_out.1 hout
    exact ⟨hs, ⟨hout, rfl⟩, fun _ _ => rfl⟩
  | send fd opcode data =>
    obtain ⟨part, frame, hpart, hframe, hstart⟩ := howns
    obtain ⟨hholder, rfl⟩ := sender_part.1 hpart
    change 0 < r ∧ r ≤ data.length ∧ _ ∧ _ ∨ r ≤ 0 ∧ _ at hdoes
    rcases hdoes with ⟨hpos, hle, -, rfl⟩ | ⟨hle, rfl⟩
    · have hshort : s.current ++ data.take r.toNat <+: frame :=
        ((List.prefix_append_right_inj _).2 (List.take_prefix _ _)).trans hstart
      refine ⟨hs.put hholder (hcut hpos) ⟨frame, hframe, hshort⟩, .inl ⟨hpos, hle, ?_⟩,
        fun j hj => sender_of_send hholder hj ⟨rfl, rfl, rfl, rfl⟩⟩
      simp [Channel.sender, Channel.put, hholder]
      rfl
    · refine ⟨hs.fail hholder, .inr ⟨hle, ?_⟩,
        fun j hj => sender_of_send hholder hj ⟨rfl, rfl, rfl, rfl⟩⟩
      simp [Channel.sender, Channel.fail, hholder]
      rfl
  | socket =>
    obtain ⟨rfl, rfl⟩ := hdoes
    have hsame : ∀ j, (s.learn i s.socket).sender j = s.sender j := by
      intro j
      rw [Channel.learn]
      split_ifs <;> rfl
    refine ⟨?_, ⟨rfl, hsame i⟩, fun j _ => hsame j⟩
    rw [Channel.learn]
    split_ifs
    · exact hs.of_same rfl rfl rfl rfl rfl
    · exact hs
  | state | closeCode =>
    obtain ⟨-, rfl⟩ := hdoes
    exact ⟨hs, rfl, fun _ _ => rfl⟩
  | setState state =>
    obtain rfl := hdoes
    exact ⟨hs.of_same rfl rfl rfl rfl rfl, rfl, fun _ _ => rfl⟩
  | setCloseCode code =>
    obtain rfl := hdoes
    exact ⟨hs.of_same rfl rfl rfl rfl rfl, rfl, fun _ _ => rfl⟩
  | setSocket | closeTcpSocket => exact absurd howns id
  | _ =>
    obtain rfl := hdoes
    exact ⟨hs, rfl, fun _ _ => rfl⟩

end Step

/-! ## What a call does -/

abbrev Sending (isClient : Bool) (calls : ℕ → List SendCall) {α : Type} (Q : α → Sender → Prop)
    (p : Program J α) (v : Sender) : Prop :=
  wp Sees (Owns isClient calls) True Q p v

section Calls
variable {calls : ℕ → List SendCall} {v : Sender} {part frame : Bytes}

theorem sending_sendLoop {Q : ℤ → Sender → Prop} {data : Bytes} (hpart : v.part = some part)
    (hframe : FramesOf isClient (calls v.id) (v.frames ++ [frame]))
    (hstart : part ++ data <+: frame) (hdone : Q 0 { v with part := some (part ++ data) })
    (hfail : Q (-1) { v with part := some [] }) (fd opcode : ℕ) :
    Sending (J := J) isClient calls Q (sendLoop fd opcode data) v := by
  fun_induction sendLoop fd opcode data generalizing v part with
  | case1 =>
    rw [List.append_nil, ← hpart] at hdone
    exact hdone
  | case2 data hdata ih =>
    refine ⟨⟨part, frame, hpart, hframe, hstart⟩, fun (ret : ℤ) w hw => ?_⟩
    change 0 < ret ∧ ret ≤ data.length ∧ _ ∨ ret ≤ 0 ∧ _ at hw
    have hsplit : part ++ data.take ret.toNat ++ data.drop ret.toNat = part ++ data := by
      rw [List.append_assoc, List.take_append_drop]
    dsimp only
    rcases hw with ⟨hpos, hle, rfl⟩ | ⟨hle, rfl⟩
    · rw [if_neg (by omega), if_neg (by omega)]
      apply ih ret (by omega) (by omega)
      · rw [hpart]
        rfl
      · exact hframe
      · rwa [hsplit]
      · rwa [hsplit]
      · exact hfail
    · split_ifs
      · exact hfail
      · exact hfail
      · omega

theorem sending_makeMask {Q : Mask → Sender → Prop} (h : ∀ mask, Q mask v) (masked : Bool) :
    Sending (J := J) isClient calls Q (makeMask masked) v := by
  cases masked with
  | false => exact h _
  | true =>
    refine ⟨trivial, fun mask w hw => ?_⟩
    obtain rfl := hw
    exact h mask

inductive SendsWhole (isClient : Bool) (opcode : ℕ) (data : Bytes) (v : Sender) : Sender → Prop
  | none : SendsWhole isClient opcode data v v
  | frame (mask : Mask) : SendsWhole isClient opcode data v
      { v with frames := v.frames ++ [frameMake opcode isClient mask data] }

theorem sending_unlock {Q : ℤ → Sender → Prop} {opcode : ℕ} {data : Bytes} {mask : Mask} {err : ℤ}
    {k : ℤ → Program J ℤ} (hfree : v.part = none)
    (hframe : FramesOf isClient (calls v.id) (v.frames ++ [frameMake opcode isClient mask data]))
    (hpart : part = [] ∨ part = frameMake opcode isClient mask data)
    (h : ∀ w, SendsWhole isClient opcode data v w → Sending isClient calls Q (k err) w) :
    Sending isClient calls Q (.act (.unlock .sendMutex) fun _ => k err)
      { v with part := some part } := by
  refine ⟨⟨part, rfl, ?_⟩, fun _ w hw => ?_⟩
  · intro hne
    rw [hpart.resolve_left hne]
    exact hframe
  · obtain rfl := hw
    apply h
    rcases hpart with rfl | rfl
    · have hsame : Sender.settle { v with part := some [] } = v := by
        simp [Sender.settle, ← hfree]
      rw [hsame]
      exact .none
    · have hsame : Sender.settle { v with part := some (frameMake opcode isClient mask data) } =
          { v with frames := v.frames ++ [frameMake opcode isClient mask data] } := by
        simp [Sender.settle, hfree, frameMake, frameMakeHeader]
      rw [hsame]
      exact .frame mask

theorem sending_sendFrame {Q : ℤ → Sender → Prop} {opcode : ℕ} {data : Bytes}
    (hout : v.out = none) (hfree : v.part = none)
    (hframe : ∀ mask,
      FramesOf isClient (calls v.id) (v.frames ++ [frameMake opcode isClient mask data]))
    (h : ∀ err w, SendsWhole isClient opcode data v w → Q err w) :
    Sending (J := J) isClient calls Q (sendFrame isClient opcode data) v := by
  have hunlock : ∀ mask part err, part = [] ∨ part = frameMake opcode isClient mask data →
      Sending isClient calls Q
        (.act (.unlock (J := J) .sendMutex) fun _ => .act (.unlock .out) fun _ => .ret err)
        { v with out := some (frameMake opcode isClient mask data), part := some part } := by
    intro mask part err hpart
    have hsent := @sending_unlock J isClient calls
      { v with out := some (frameMake opcode isClient mask data) } part Q opcode data mask err
      (fun err => .act (.unlock .out) fun _ => .ret err) hfree (hframe mask) hpart
    apply hsent
    intro w hw
    have hheld : w.out ≠ none := by cases hw <;> simp
    refine ⟨hheld, fun _ w' hw' => ?_⟩
    obtain rfl := hw'
    apply h
    have hsame : { v with out := none } = v := by rw [← hout]
    cases hw with
    | none => exact hsame ▸ .none
    | frame mask' => exact hsame ▸ .frame mask'
  simp only [Sending, sendFrame, doing, perform_bind]
  refine ⟨trivial, fun _ w hw => ?_⟩
  obtain ⟨out, rfl⟩ := hw
  refine ⟨Option.some_ne_none out, fun _ w hw => ?_⟩
  obtain rfl : w = { v with out := some [] } := hw
  apply wp_bind.2
  apply sending_makeMask
  intro mask
  refine ⟨Option.some_ne_none [], fun _ w hw => ?_⟩
  obtain rfl : w = { v with out := some (frameMake opcode isClient mask data) } := hw
  refine ⟨trivial, fun _ w hw => ?_⟩
  obtain rfl : w = { v with
    out := some (frameMake opcode isClient mask data), part := some [] } := hw
  refine ⟨trivial, fun socket w hw => ?_⟩
  obtain ⟨-, rfl⟩ := hw
  refine ⟨Option.some_ne_none _, fun out w hw => ?_⟩
  obtain ⟨hown, rfl⟩ := hw
  obtain rfl : frameMake opcode isClient mask data = out := Option.some.inj hown
  apply wp_bind.2
  cases socket with
  | none => exact hunlock mask _ _ (.inl rfl)
  | some fd =>
    have hall : [] ++ frameMake opcode isClient mask data <+: frameMake opcode isClient mask data :=
      List.prefix_rfl
    rw [tcpSocketSend]
    refine sending_sendLoop rfl ?_ hall ?_ ?_ fd opcode
    · exact hframe mask
    · exact hunlock mask _ _ (.inr rfl)
    · exact hunlock mask _ _ (.inl rfl)

def bodyFrom (masked : Bool) (mask : Mask) (j : Fin 4) (data : Bytes) : Bytes :=
  if masked then crypted mask j data else data

theorem bodyFrom_nil (masked : Bool) (mask : Mask) (j : Fin 4) : bodyFrom masked mask j [] = [] := by
  cases masked <;> rfl

theorem bodyFrom_block (masked : Bool) (mask : Mask) (j : Fin 4) (data : Bytes) :
    bodyFrom masked mask j data =
      (if masked then (maskBlock mask j (data.take 1024)).1 else data.take 1024) ++
        bodyFrom masked mask (if masked then (maskBlock mask j (data.take 1024)).2 else j)
          (data.drop 1024) := by
  cases masked with
  | false => simp [bodyFrom]
  | true =>
    simp only [bodyFrom, if_true, maskBlock_eq]
    rw [← crypted_append, List.take_append_drop]

theorem frameMake_eq_body (opcode : ℕ) (masked : Bool) (mask : Mask) (data : Bytes) :
    frameMake opcode masked mask data =
      frameMakeHeader opcode masked mask data.length ++ bodyFrom masked mask maskStart data := by
  cases masked with
  | false => rfl
  | true => rw [frameMake, frameAppendPayload_masked, bodyFrom, if_pos rfl]

theorem sending_sendBlocks {Q : ℤ → Sender → Prop} {masked : Bool} {mask : Mask} {j : Fin 4}
    {data : Bytes} {fd : ℕ} (hsocket : v.socket = some fd) (hpart : v.part = some part)
    (hframe : FramesOf isClient (calls v.id) (v.frames ++ [frame]))
    (hstart : part ++ bodyFrom masked mask j data <+: frame)
    (hdone : Q 0 { v with part := some (part ++ bodyFrom masked mask j data) })
    (hfail : Q (-1) { v with part := some [] }) :
    Sending (J := J) isClient calls Q (sendBlocks masked mask j data) v := by
  fun_induction sendBlocks masked mask j data generalizing v part with
  | case1 =>
    rw [bodyFrom_nil, List.append_nil, ← hpart] at hdone
    exact hdone
  | case2 j data hdata block =>
    rename_i next ih
    simp only [dite_eq_ite] at ih
    rw [bodyFrom_block, ← List.append_assoc] at hstart hdone
    refine ⟨trivial, fun socket w hw => ?_⟩
    obtain ⟨hw, rfl⟩ := hw
    obtain rfl := hw.trans hsocket
    apply wp_bind.2
    rw [tcpSocketSend]
    refine sending_sendLoop hpart hframe ((List.prefix_append _ _).trans hstart) ?_ ?_ fd 1
    · rw [if_neg (not_not.2 rfl)]
      exact ih hsocket rfl hframe hstart hdone hfail
    · rw [if_pos (by decide)]
      exact hfail

theorem sending_sendText {Q : ℤ → Sender → Prop} {data : Bytes} (hfree : v.part = none)
    (hframe : ∀ mask, FramesOf isClient (calls v.id) (v.frames ++ [frameMake 1 isClient mask data]))
    (h : ∀ err w, SendsWhole isClient 1 data v w → Q err w) :
    Sending (J := J) isClient calls Q (messagelinkSendText isClient data) v := by
  simp only [Sending, messagelinkSendText, doing, perform_bind]
  refine ⟨trivial, fun socket w hw => ?_⟩
  obtain ⟨hsocket, rfl⟩ := hw
  dsimp only
  split_ifs with hinvalid
  · exact h _ _ .none
  obtain ⟨fd, rfl⟩ := Option.ne_none_iff_exists'.1 hinvalid
  refine ⟨trivial, fun state w hw => ?_⟩
  obtain rfl := hw
  dsimp only
  split_ifs with hclosed
  · exact h _ _ .none
  apply wp_bind.2
  apply sending_makeMask
  intro mask
  refine ⟨trivial, fun _ w' hw => ?_⟩
  obtain rfl : w' = { w with part := some [] } := hw
  refine ⟨trivial, fun socket' w' hw => ?_⟩
  obtain ⟨hw, rfl⟩ := hw
  obtain rfl : socket' = some fd := hw.trans hsocket.symm
  have hunlock : ∀ part err, part = [] ∨ part = frameMake 1 isClient mask data →
      Sending isClient calls Q (.act (.unlock (J := J) .sendMutex) fun _ => .ret err)
        { w with part := some part } := fun part err hpart =>
    sending_unlock hfree (hframe mask) hpart (h err)
  have hall : [] ++ frameMakeHeader 1 isClient mask data.length <+: frameMake 1 isClient mask data := by
    rw [frameMake_eq_body]
    exact List.prefix_append _ _
  apply wp_bind.2
  rw [tcpSocketSend]
  refine sending_sendLoop rfl ?_ hall ?_ ?_ fd 1
  · exact hframe mask
  · rw [if_neg (not_not.2 rfl)]
    apply wp_bind.2
    have hsocket' : w.socket = some fd := hsocket.symm
    have hbody : [] ++ frameMakeHeader 1 isClient mask data.length ++
        bodyFrom isClient mask maskStart data <+: frameMake 1 isClient mask data := by
      rw [List.nil_append, ← frameMake_eq_body]
    refine sending_sendBlocks (show _ = some fd from hsocket') rfl ?_ hbody ?_ ?_
    · exact hframe mask
    · rw [List.nil_append, ← frameMake_eq_body]
      exact hunlock _ _ (.inr rfl)
    · exact hunlock _ _ (.inl rfl)
  · rw [if_pos (by decide)]
    exact hunlock _ _ (.inl rfl)

theorem FramesOf.mono {made all : List SendCall} {bs : List Bytes} (h : FramesOf isClient made bs)
    (hall : made.Sublist all) : FramesOf isClient all bs := by
  obtain ⟨cs, hcs, hbs⟩ := h
  exact ⟨cs, hcs.trans hall, hbs⟩

theorem FramesOf.append {made : List SendCall} {c : SendCall} {bs : List Bytes} {b : Bytes}
    (h : FramesOf isClient made bs) (hb : IsFrame c.opcode isClient c.payload b) :
    FramesOf isClient (made ++ [c]) (bs ++ [b]) := by
  obtain ⟨cs, hcs, hbs⟩ := h
  exact ⟨cs ++ [c], hcs.append (List.Sublist.refl [c]), List.rel_append hbs (.cons hb .nil)⟩

/-- A payload whose frame is what it says; the length of one more byte is cut. -/
def SendCall.Sized (c : SendCall) : Prop := c.payload.length ≠ 65536 ∧ c.payload.length < 2 ^ 63

theorem SendCall.Sized.isFrame {c : SendCall} (h : c.Sized) (mask : Mask) :
    IsFrame c.opcode isClient c.payload (frameMake c.opcode isClient mask c.payload) :=
  (isFrame_iff h.1 h.2).2 ⟨mask, rfl⟩

theorem sending_call {Q : ℤ → Sender → Prop} {c : SendCall} (hout : v.out = none) (hfree : v.part = none)
    (hframe : ∀ mask, FramesOf isClient (calls v.id)
      (v.frames ++ [frameMake c.opcode isClient mask c.payload]))
    (h : ∀ err w, SendsWhole isClient c.opcode c.payload v w → Q err w) :
    Sending (J := J) isClient calls Q (c.send isClient) v := by
  cases c with
  | text data => exact sending_sendText hfree hframe h
  | ping data => exact sending_sendFrame hout hfree hframe h
  | pong payload => exact sending_sendFrame hout hfree hframe h
  | close code => exact sending_sendFrame hout hfree hframe h

theorem sending_all {made cs : List SendCall} (hcalls : calls v.id = made ++ cs)
    (hsized : ∀ c ∈ cs, c.Sized) (hout : v.out = none) (hfree : v.part = none)
    (hmade : FramesOf isClient made v.frames) :
    Sending (J := J) isClient calls (fun _ _ => True) (sendAll isClient cs) v := by
  induction cs generalizing made v with
  | nil => trivial
  | cons c cs ih =>
    simp only [List.mem_cons, forall_eq_or_imp] at hsized
    have hnext : ∀ mask, FramesOf isClient (made ++ [c])
        (v.frames ++ [frameMake c.opcode isClient mask c.payload]) :=
      fun mask => hmade.append (hsized.1.isFrame mask)
    have hcalls' : calls v.id = (made ++ [c]) ++ cs := by
      rw [hcalls, List.append_assoc]
      rfl
    apply wp_bind.2
    apply sending_call hout hfree
    · intro mask
      rw [hcalls']
      exact (hnext mask).mono (List.sublist_append_left _ _)
    · intro err w hw
      cases hw with
      | none => exact ih hcalls' hsized.2 hout hfree (hmade.mono (List.sublist_append_left _ _))
      | frame mask => exact ih hcalls' hsized.2 hout hfree (hnext mask)

end Calls

/-! ## Every run -/

theorem orderly_openChannel (fd : ℕ) (calls : ℕ → List SendCall) :
    Orderly isClient calls (openChannel fd) := by
  constructor
  · exact fun _ => rfl
  · exact fun _ => rfl
  · rfl
  · exact fun i => ⟨[], List.nil_sublist _, .nil⟩
  · intro f hf
    cases hf
  · intro i hi
    cases hi

/-- As long as no `send` takes bytes after one that failed in the middle of a frame, the frames of
any number of threads come whole and one after the other. -/
theorem senders_untorn {isClient : Bool} {threads : List (List SendCall)} {fd : ℕ}
    (hsized : ∀ cs ∈ threads, ∀ c ∈ cs, c.Sized) {ms : List (Move _ _)}
    {d : Threads Channel (Act.Answer (J := J)) Unit}
    (hrun : Run (ThreadStep Channel.Does) (openChannel fd, threads.map (sendAll isClient)) ms d)
    (hcut : ∀ m ∈ ms, StaysCut m.src.1 m.act.2.1 m.act.2.2) :
    Untorn isClient (fun i => threads.getD i []) d.1.wire := by
  have hconform : Conform Channel.sender Sees (Owns isClient fun i => threads.getD i [])
      (openChannel fd, threads.map (sendAll (J := J) isClient)) := by
    intro i p hp
    rw [List.getElem?_map] at hp
    obtain ⟨cs, hcs, rfl⟩ := Option.map_eq_some_iff.1 hp
    have hi : threads.getD i [] = [] ++ cs := by
      rw [List.getD_eq_getElem?_getD, hcs]
      rfl
    have hnone : FramesOf isClient [] ((openChannel fd).sender i).frames :=
      ⟨[], List.nil_sublist _, .nil⟩
    exact sending_all hi (hsized cs (List.mem_of_getElem? hcs)) rfl rfl hnone
  exact (threads_run (G := fun _ s a r _ => StaysCut s a r)
    (fun i s a r t hs howns hdoes hcut => sender_step hs howns hdoes hcut) hrun hcut
    (orderly_openChannel fd _) hconform).1.untorn

/-! ### Two texts of one thread -/

abbrev twoTexts : List (List SendCall) := [[.text [49], .text [50]]]

theorem twoTexts_sized : ∀ cs ∈ twoTexts, ∀ c ∈ cs, c.Sized := by
  simp [SendCall.Sized, SendCall.payload]

theorem staysCut_answer (s : Channel) (a : Act J) :
    StaysCut s a (s.answer (fun s => s.cut.isSome) a) := by
  cases a with
  | send fd opcode data =>
    intro hpos
    by_contra hcut
    have hrefused : s.takes (fun s => s.cut.isSome) data = false := by
      simp [Channel.takes, Option.isSome_iff_ne_none.2 hcut]
    simp [Channel.answer, hrefused] at hpos
  | _ => trivial

theorem twoTexts_untorn :
    ∃ (ms : List (Move _ _)) (d : Threads Channel (Act.Answer (J := Unit)) Unit),
      Run (ThreadStep Channel.Does) (openChannel 3, twoTexts.map (sendAll false)) ms d ∧
      d.1.wire.length = 4 ∧ Untorn false (fun i => twoTexts.getD i []) d.1.wire := by
  let stays (s : Channel) (e : Event (Act.Answer (J := Unit))) : Prop := StaysCut s e.1 e.2
  obtain ⟨ms, hrun, hms⟩ := @run_answered Unit (fun s => s.cut.isSome) 0 Unit stays staysCut_answer
    (twoTexts.map (sendAll false)) _ rfl (openChannel 3)
  refine ⟨ms, _, hrun, ?_, senders_untorn twoTexts_sized hrun fun m hm => (hms m hm).2⟩
  simp [sendAll, SendCall.send, messagelinkSendText, doing, follow, Channel.answer, Channel.next,
    openChannel, makeMask, tcpSocketSend, sendLoop_cons, sendBlocks_cons, frameMakeHeader,
    Channel.takes, Channel.put, Channel.hold, Channel.release, Channel.settle, Channel.learn]

theorem FramesOf.mem {calls : List SendCall} {bs : List Bytes} {b : Bytes}
    (h : FramesOf isClient calls bs) (hb : b ∈ bs) :
    ∃ c ∈ calls, IsFrame c.opcode isClient c.payload b := by
  obtain ⟨cs, hcs, hbs⟩ := h
  have hlen := hbs.length_eq
  obtain ⟨n, hn, rfl⟩ := List.mem_iff_getElem.1 hb
  have hn' : n < cs.length := by omega
  exact ⟨cs[n], hcs.subset (List.getElem_mem hn'), hbs.get hn' hn⟩

theorem frame_of_twoTexts {i : ℕ} {b : Bytes} {bs : List Bytes}
    (h : FramesOf false (twoTexts.getD i []) bs) (hb : b ∈ bs) :
    b = [129, 1, 49] ∨ b = [129, 1, 50] := by
  obtain ⟨c, hc, hframe⟩ := h.mem hb
  have hframes : ∀ n : UInt8, IsFrame 1 false [n] b → b = [129, 1, n] := by
    intro n hn
    obtain ⟨mask, rfl⟩ := (isFrame_iff (by simp) (by simp)).1 hn
    simp [frameMake, frameMakeHeader, frameAppendPayload]
  cases i with
  | zero =>
    simp only [List.getD_cons_zero, List.mem_cons, List.not_mem_nil, or_false] at hc
    rcases hc with rfl | rfl
    · exact .inl (hframes 49 hframe)
    · exact .inr (hframes 50 hframe)
  | succ i => simp at hc

/-- The wire after a `send` that failed once, in the middle of the first text. -/
theorem cut_text_is_torn (i j k : ℕ) :
    ¬ Untorn false (fun i => twoTexts.getD i [])
      [⟨i, 1, [129, 1]⟩, ⟨j, 1, [129, 1]⟩, ⟨k, 1, [50]⟩] := by
  rintro ⟨frames, n, part, hwire, hwhole, hpart⟩
  have hbytes := congrArg (List.map Prod.snd) hwire
  simp only [bytesOf, tagged, List.flatMap_cons, List.flatMap_nil, List.map_append, List.map_cons,
    List.map_nil, List.map_map, List.append_nil, List.cons_append, List.nil_append] at hbytes
  cases frames with
  | nil =>
    have hall : part = [129, 1, 129, 1, 50] := by
      simpa [Function.comp_def] using hbytes.symm
    obtain ⟨frame, hframe, hstart⟩ := hpart.resolve_left (by simp [hall])
    have hlen := hstart.length_le
    rw [hall] at hlen
    rcases frame_of_twoTexts hframe (List.mem_append_right _ List.mem_cons_self) with rfl | rfl
    · simp at hlen
    · simp at hlen
  | cons f fs =>
    have hmem : f.2 ∈ framesBy f.1 (f :: fs) := by
      simp [framesBy]
    rcases frame_of_twoTexts (hwhole f.1) hmem with hf | hf
    · simp [hf, tagged] at hbytes
    · simp [hf, tagged] at hbytes

theorem cut_text_is_followed :
    ∃ (ms : List (Move _ _)) (d : Threads Channel (Act.Answer (J := Unit)) Unit),
      Run (ThreadStep Channel.Does) (openChannel 3, twoTexts.map (sendAll false)) ms d ∧
      ¬ Untorn false (fun i => twoTexts.getD i []) d.1.wire := by
  let once (s : Channel) : Bool := s.wire.length = 1 ∧ s.cut = none
  let any (_ : Channel) (_ : Event (Act.Answer (J := Unit))) : Prop := True
  obtain ⟨ms, hrun, -⟩ := @run_answered Unit once 0 Unit any (fun _ _ => trivial)
    (twoTexts.map (sendAll false)) _ rfl (openChannel 3)
  refine ⟨ms, _, hrun, ?_⟩
  convert cut_text_is_torn 0 0 0 using 1
  simp [sendAll, SendCall.send, messagelinkSendText, doing, follow, Channel.answer, Channel.next,
    openChannel, makeMask, tcpSocketSend, sendLoop_cons, sendBlocks_cons, frameMakeHeader,
    Channel.takes, Channel.put, Channel.hold, Channel.release, Channel.settle, Channel.learn, once,
    Channel.fail]

end Rcom.Messagelink
