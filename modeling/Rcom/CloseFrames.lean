import Rcom.Channel
import Rcom.TextExchange

/-!
# Frames after a Close frame (messagelink.c)

Threads close a link, read from it and send on it. The code that closes leaves `link->state` as it is
until the socket is closed, so what the other threads test in between does not stop them.
-/

namespace Rcom.CloseFrames
open Lib Lib.Program Lib.Trace Messagelink
open ClientLink (LinkState)

variable {J α β : Type}

/-! ## The threads -/

/-- What `delete_messagelink` does once the thread that it waits for has ended. -/
def deleteMessagelink (isClient : Bool) (n : ℕ) : Program J Unit := do
  doing (.lock .stateMutex)
  let state : LinkState ← doing .state
  if state = .open then ownerMessagelinkClose isClient n 1001 else .ret ()
  doing (.unlock .stateMutex)

/-- `print` is for the senders that put a text together in `link->out`, and `command` for the two that
wait for a reply. -/
inductive Job where
  | disconnect (n : ℕ)
  | delete (n : ℕ)
  | loop (n : ℕ)
  | text (data : Bytes)
  | ping (data : Bytes)
  | pong (payload : Bytes)
  | print (printed : Option Bytes)
  | command (background : Bool) (n : ℕ) (printed : Option Bytes)

section Code
variable (L : JsonLib J) (isClient : Bool)

def Job.program : Job → Program J Unit
  | .disconnect n => do
    let _ ← clientMessagelinkDisconnect isClient n
    return ()
  | .delete n => deleteMessagelink isClient n
  | .loop n => messagelinkLoop L isClient n
  | .text data => do
    let _ ← messagelinkSendText isClient data
    return ()
  | .ping data => do
    let _ ← messagelinkSendPing isClient data
    return ()
  | .pong payload => do
    let _ ← messagelinkSendPong isClient payload
    return ()
  | .print printed => do
    let _ ← sendPrinted isClient printed
    return ()
  | .command background n printed => do
    let _ ← sendCommand L isClient background n printed
    return ()

def runAll : List Job → Program J Unit
  | [] => .ret ()
  | job :: jobs => do
    job.program L isClient
    runAll jobs

end Code

/-! ## The connection -/

structure Sent where
  thread : ℕ
  opcode : ℕ
deriving DecidableEq

/-- A frame is there from its first byte on: `fresh` says that nothing was sent since `send_mutex` was
taken. `gone` has the threads that closed the socket or found it invalid. -/
structure Line where
  channel : Channel
  frames : List Sent
  fresh : Bool
  gone : List ℕ

def Line.after (s : Line) (i : ℕ) (channel : Channel) : (a : Act J) → a.Answer → Line
  | .lock .sendMutex, _ => { s with channel, fresh := true }
  | .send _ opcode _, (ret : ℤ) =>
    if 0 < ret then
      { s with channel, frames := s.frames ++ if s.fresh then [⟨i, opcode⟩] else [], fresh := false }
    else { s with channel }
  | .socket, socket => { s with channel, gone := if socket = none then i :: s.gone else s.gone }
  | .closeTcpSocket _, _ => { s with channel, gone := i :: s.gone }
  | _, _ => { s with channel }

def Line.Does (i : ℕ) (s : Line) (a : Act J) (r : a.Answer) (t : Line) : Prop :=
  ∃ channel, s.channel.Does i a r channel ∧ t = s.after i channel a r

def openLine (fd : ℕ) : Line := ⟨openChannel fd, [], false, []⟩

/-- Nothing comes after a Close frame. -/
def Final (frames : List Sent) : Prop := frames.Pairwise fun f _ => f.opcode ≠ 8

/-- The thread has `send_mutex`, and has sent nothing since; it has sent a Close frame; and it knows
that the socket is closed. -/
structure Part where
  holds : Prop
  fresh : Prop
  ended : Prop
  gone : Prop

def Line.part (s : Line) (i : ℕ) : Part where
  holds := s.channel.holder .sendMutex = some i
  fresh := s.channel.holder .sendMutex = some i ∧ s.fresh
  ended := ⟨i, 8⟩ ∈ s.frames
  gone := i ∈ s.gone

def Feels (v : Part) : (a : Act J) → a.Answer → Part → Prop
  | .lock .sendMutex, _, w => w = { v with holds := True, fresh := True }
  | .unlock .sendMutex, _, w => w = { v with holds := False, fresh := False }
  | .send _ opcode _, (ret : ℤ), w =>
    0 < ret ∧ w = { v with fresh := False, ended := v.ended ∨ v.fresh ∧ opcode = 8 } ∨ w = v
  | .socket, socket, w => w = { v with gone := v.gone ∨ socket = none }
  | .closeTcpSocket _, _, w => w = { v with gone := True }
  | _, _, w => w = v

/-- A thread that has sent a Close frame begins no other, unless the socket is closed. -/
def May (v : Part) : Act J → Prop
  | .send _ _ _ => v.holds ∧ (v.gone ∨ ¬v.ended ∨ ¬v.fresh)
  | .unlock .sendMutex => v.holds
  | .setSocket socket => socket = none ∧ v.gone
  | _ => True

structure Inv (s : Line) : Prop where
  final : Final s.frames
  alone : s.channel.connected = true → ∀ f ∈ s.frames, f.opcode = 8 →
    ∀ i, s.channel.holder .sendMutex = some i → f.thread = i
  gone : ∀ i ∈ s.gone, s.channel.connected = false
  invalid : s.channel.socket = none → s.channel.connected = false

section Step
variable {s t : Line} {c : Channel} {i : ℕ}

theorem Inv.of_same (h : Inv s) (hholder : c.holder .sendMutex = s.channel.holder .sendMutex)
    (hsocket : c.socket = s.channel.socket) (hconnected : c.connected = s.channel.connected) :
    Inv { s with channel := c } where
  final := h.final
  alone := by
    rw [hconnected, hholder]
    exact h.alone
  gone := by
    rw [hconnected]
    exact h.gone
  invalid := by
    rw [hsocket, hconnected]
    exact h.invalid

theorem Inv.send (h : Inv s) {fd : ℕ} (opcode : ℕ) {all : Bytes}
    (hmay : May (J := J) (s.part i) (.send fd opcode all))
    (hconnected : s.channel.connected = true) (data : Bytes) :
    Inv { s with
      channel := s.channel.put i opcode data
      frames := s.frames ++ if s.fresh then [⟨i, opcode⟩] else []
      fresh := false } := by
  obtain ⟨hholds, hmay⟩ := hmay
  have hholder : s.channel.holder .sendMutex = some i := hholds
  have hgone : i ∉ s.gone := fun hgone => by
    rw [h.gone i hgone] at hconnected
    cases hconnected
  have hown : ∀ f ∈ s.frames, f.opcode = 8 → f = ⟨i, 8⟩ := by
    rintro ⟨thread, code⟩ hf rfl
    rw [show thread = i from h.alone hconnected _ hf rfl i hholder]
  refine ⟨?_, fun _ f hf hcode j hj => ?_, h.gone, h.invalid⟩
  · refine List.pairwise_append.2 ⟨h.final, by split_ifs <;> simp, fun f hf g hg hcode => ?_⟩
    have hfresh : s.fresh = true := by
      by_contra hfresh
      simp [hfresh] at hg
    have hended : ⟨i, 8⟩ ∈ s.frames := hown f hf hcode ▸ hf
    rcases hmay with hmay | hmay | hmay
    · exact absurd hmay hgone
    · exact absurd hended hmay
    · exact absurd ⟨hholder, hfresh⟩ hmay
  · obtain rfl : i = j := Option.some.inj (hholder.symm.trans hj)
    rcases List.mem_append.1 hf with hf | hf
    · rw [hown f hf hcode]
    · split_ifs at hf with hfresh
      · rw [List.mem_singleton.1 hf]
      · cases hf

end Step


/-! ## The code of the threads -/

/-- From a state with `I` the program keeps to the protocol, and returns with `K`. -/
def Ordered (I : Part → Prop) (p : Program J α) (K : Part → Prop) : Prop :=
  ∀ v, I v → wp Feels May True (fun _ w => K w) p v

/-- With `send_mutex`, and with no Close frame before. -/
def Sending (v : Part) : Prop := v.holds ∧ (v.ended → v.gone)

/-- The actions that send a frame with this opcode. -/
def Puts (opcode : ℕ) : Act J → Prop
  | .send _ op _ => op = opcode
  | .socket => True
  | _ => False

section Rules
variable {I K M : Part → Prop} {v : Part}

theorem Ordered.mono {p : Program J α} (h : Ordered I p K) (hK : ∀ v, K v → M v) : Ordered I p M :=
  fun v hv => wp_mono (h v hv) fun _ w hw => hK w hw

end Rules

/-! ### Sending -/

section Send
variable {isClient : Bool} {H K : Part → Prop}

end Send

/-! ### Closing -/

section Close
variable {isClient : Bool}

end Close

/-! ### Reading -/

section Read
variable (L : JsonLib J) {isClient : Bool}

end Read

/-! ## A client that closes and reads -/

/-- The peer's Close frame with the code 1001. -/
def goingAway : Message := ⟨0, ⟨1, 8, 0, 2⟩, [3, 233]⟩

section Script
variable (stop : Line → Act Json.Value → Bool) (i : ℕ) (s : Line)

/-- `send` takes all, and all that comes is the peer's Close frame. -/
def answer : (a : Act Json.Value) → a.Answer
  | .waitData => (1 : ℤ)
  | .readMessage => goingAway
  | a => s.channel.answer (fun _ => false) a

def next (a : Act Json.Value) : Option Line :=
  if stop s a then none
  else (s.channel.next (fun _ => false) i a).map fun c => s.after i c a (answer s a)

/-- Thread `i` goes on until it is done or comes to an action before which it stops. -/
def turn (jobs : List Job) : Config Line (Act.Answer (J := Json.Value)) Unit :=
  follow answer (next stop i) (runAll valueLib true jobs) s

variable {stop i s}

theorem does_next {a : Act Json.Value} {t : Line} (h : next stop i s a = some t) :
    s.Does i a (answer s a) t ∧ stop s a = false := by
  rw [next] at h
  split_ifs at h with hstop
  obtain ⟨c, hc, rfl⟩ := Option.map_eq_some_iff.1 h
  refine ⟨⟨c, ?_, rfl⟩, by simpa using hstop⟩
  cases a with
  | waitData | readMessage => exact (Option.some.inj hc).symm
  | _ => exact Messagelink.does_next hc

end Script

abbrev texts (stop : Line → Act Json.Value → Bool) := turn stop 2 (openLine 3) [.text [49]]

abbrev closes (stop : Line → Act Json.Value → Bool) := turn stop 0 (texts stop).1 [.disconnect 1]

abbrev reads (stop stop' : Line → Act Json.Value → Bool) := turn stop' 1 (closes stop).1 [.loop 3]

end Rcom.CloseFrames
