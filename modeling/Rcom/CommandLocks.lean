import Rcom.Messagelink

/-!
# The locks of a command that waits for its reply (messagelink.c)

`messagelink_send_command` keeps `link->out` locked while it reads. What it reads may make
it send, and a frame is put together in `link->out`. The locks are not re-entrant: a thread
that locks what it holds already waits for itself.
-/

namespace Rcom.Messagelink
open Rcom.Lib Rcom.Lib.Program Rcom.Lib.Trace
open Rcom.ClientLink (LinkState)
variable {J : Type}

/-- The locks that the thread holds, and the message that it read last while the state of the link
has not been looked at since. -/
structure Waiting where
  held : List Lock
  pending : Option Message

/-- Every answer is possible: what the others do and what arrives is left open. -/
def Locking (s : Waiting) : (a : Act J) → a.Answer → Waiting → Prop
  | .lock l, _, t => l ∉ s.held ∧ t = { s with held := l :: s.held }
  | .unlock l, _, t => t = { s with held := s.held.erase l }
  | .readMessage, message, t => t = { s with pending := some message }
  | .state, _, t => t = { s with pending := none }
  | _, _, t => t = s

def SelfDeadlock {α : Type} (c : Config Waiting (Act.Answer (J := J)) α) : Prop :=
  ∃ l k, c.2 = .act (.lock l) k ∧ l ∈ c.1.held

def Unmasked (isClient : Bool) (message : Message) : Prop :=
  isClient = false ∧ message.input.length > 0 ∧ message.frame.mask = 0

def Refused (isClient : Bool) (message : Message) : Prop :=
  Unmasked isClient message ∨ message.frame.opcode ∈ [0, 2]

/-- Nothing is sent for what is read: it is read without error and is not a ping, and where it calls
for a close message the link is found closed. -/
def Unanswered (isClient : Bool) (pending : Option Message) : (a : Act J) → a.Answer → Prop
  | .readMessage, message =>
    message.err ≠ -1 ∧ message.err ≠ -2 ∧
      (Unmasked isClient message ∨ message.frame.opcode ≠ 9)
  | .state, state =>
    ∀ message, pending = some message →
      (Refused isClient message → state = .closed ∨ state = .closing) ∧
      (message.frame.opcode = 8 → ¬ Unmasked isClient message → state ≠ .open)
  | _, _ => True

def LocksFree (s : Waiting) : Act J → Prop
  | .lock l => l ∉ s.held
  | _ => True

/-- The locks, as long as nothing has to be sent. -/
abbrev Quiet (isClient : Bool) (s : Waiting) (a : Act J) (r : a.Answer) (t : Waiting) : Prop :=
  Locking s a r t ∧ Unanswered isClient s.pending a r

abbrev SafeLocks (isClient : Bool) {α : Type} (Q : α → Waiting → Prop) (p : Program J α)
    (s : Waiting) : Prop :=
  wp (Quiet isClient) LocksFree True Q p s

section Send
variable {isClient : Bool} {s : Waiting}

theorem safe_keep {α : Type} {Q : α → Waiting → Prop} {a : Act J} {k : a.Answer → Program J α}
    (hfree : LocksFree s a) (hkeep : ∀ r t, Locking s a r t → t = s)
    (h : ∀ r, SafeLocks isClient Q (k r) s) : SafeLocks isClient Q (.act a k) s := by
  refine ⟨hfree, fun r t ht => ?_⟩
  rw [hkeep r t ht.1]
  exact h r

theorem safe_sendLoop {Q : ℤ → Waiting → Prop} (h : ∀ r, Q r s) (fd opcode : ℕ) (data : Bytes) :
    SafeLocks (J := J) isClient Q (sendLoop fd opcode data) s := by
  fun_induction sendLoop fd opcode data with
  | case1 => exact h 0
  | case2 data hdata ih =>
    refine safe_keep trivial (fun _ _ h => h) fun r => ?_
    split_ifs with hneg hzero
    · exact h _
    · exact h _
    · exact ih _ hneg hzero

theorem safe_tcpSocketSend {Q : ℤ → Waiting → Prop} (h : ∀ r, Q r s) (opcode : ℕ)
    (socket : Option ℕ) (data : Bytes) :
    SafeLocks (J := J) isClient Q (tcpSocketSend opcode socket data) s := by
  cases socket with
  | none => exact h _
  | some fd => exact safe_sendLoop h fd opcode data

theorem safe_makeMask {Q : Mask → Waiting → Prop} (h : ∀ r, Q r s) (masked : Bool) :
    SafeLocks (J := J) isClient Q (makeMask masked) s := by
  cases masked with
  | false => exact h _
  | true => simpa [SafeLocks, makeMask, doing, perform, wp_act, LocksFree, Locking, Unanswered]

/-- The result of `Q` does not depend on the message read last. -/
def Forgets {α : Type} (Q : α → Waiting → Prop) (held : List Lock) : Prop :=
  ∀ r pending, Q r ⟨held, pending⟩

theorem safe_sendBlocks {Q : ℤ → Waiting → Prop} (h : ∀ r, Q r s) (masked : Bool) (mask : Mask)
    (j : Fin 4) (data : Bytes) :
    SafeLocks (J := J) isClient Q (sendBlocks masked mask j data) s := by
  fun_induction sendBlocks masked mask j data with
  | case1 => exact h 0
  | case2 j data hdata block turned ih =>
    refine safe_keep trivial (fun _ _ h => h) fun socket => ?_
    apply wp_bind.2
    apply safe_tcpSocketSend
    intro err
    by_cases herr : err = 0
    · rw [if_neg (not_not.2 herr)]
      exact ih
    · rw [if_pos herr]
      exact h _

theorem safe_sendText {Q : ℤ → Waiting → Prop} {held : List Lock} (h : Forgets Q held)
    (hsend : .sendMutex ∉ held) (data : Bytes) :
    SafeLocks (J := J) isClient Q (messagelinkSendText isClient data) ⟨held, none⟩ := by
  simp only [SafeLocks, messagelinkSendText, doing, perform_bind, wp_act]
  refine safe_keep trivial (fun _ _ h => h) fun socket => ?_
  split_ifs with hsocket
  · exact h _ _
  refine ⟨trivial, fun state t ht => ?_⟩
  obtain rfl := ht.1
  dsimp only
  split_ifs with hstate
  · exact h _ _
  apply wp_bind.2
  apply safe_makeMask
  intro mask
  refine ⟨hsend, fun _ t ht => ?_⟩
  obtain rfl := ht.1.2
  refine safe_keep trivial (fun _ _ h => h) fun socket => ?_
  have hunlock : ∀ err : ℤ, SafeLocks isClient Q
      (.act (.unlock (J := J) .sendMutex) fun _ => .ret err) ⟨.sendMutex :: held, none⟩ := by
    intro err
    refine ⟨trivial, fun _ t ht => ?_⟩
    obtain rfl := ht.1
    simpa using h err none
  apply wp_bind.2
  apply safe_tcpSocketSend
  intro err
  split_ifs with herr
  · exact hunlock _
  · apply wp_bind.2
    exact safe_sendBlocks hunlock _ _ _ _

end Send

section Close
variable {isClient : Bool} {s : Waiting}

theorem safe_closeSocket {Q : Unit → Waiting → Prop} (h : Q () s) :
    SafeLocks (J := J) isClient Q messagelinkCloseSocket s := by
  simp only [SafeLocks, messagelinkCloseSocket, doing, perform_bind, wp_act]
  refine safe_keep trivial (fun _ _ h => h) fun socket => ?_
  cases socket with
  | none => exact h
  | some fd =>
    refine safe_keep trivial (fun _ _ h => h) fun _ => ?_
    refine safe_keep trivial (fun _ _ h => h) fun _ => ?_
    refine safe_keep trivial (fun _ _ h => h) fun _ => ?_
    exact h

theorem safe_ownerClose {Q : Unit → Waiting → Prop} {message : Message} {held : List Lock}
    (h : Forgets Q held) (hrefused : Refused isClient message) (n : ℕ) (code : ℤ) :
    SafeLocks (J := J) isClient Q (ownerMessagelinkClose isClient n code)
      ⟨held, some message⟩ := by
  simp only [SafeLocks, ownerMessagelinkClose, doing, perform_bind, wp_act]
  refine ⟨trivial, fun state t ht => ?_⟩
  obtain ⟨rfl, hquiet⟩ := ht
  have hclosed := (hquiet message rfl).1 hrefused
  dsimp only
  rw [if_pos hclosed]
  exact h _ _

theorem safe_remoteClose {Q : ℤ → Waiting → Prop} {message : Message} {held : List Lock}
    (h : Forgets Q held) (hopcode : message.frame.opcode = 8)
    (hmasked : ¬ Unmasked isClient message) (input : Bytes) :
    SafeLocks (J := J) isClient Q (remoteMessagelinkClose isClient input)
      ⟨held, some message⟩ := by
  simp only [SafeLocks, remoteMessagelinkClose, doing, perform_bind, wp_act]
  refine ⟨trivial, fun state t ht => ?_⟩
  obtain ⟨rfl, hquiet⟩ := ht
  have hclosed := (hquiet message rfl).2 hopcode hmasked
  dsimp only
  rw [if_neg hclosed]
  refine safe_keep trivial (fun _ _ h => h) fun _ => ?_
  apply wp_bind.2
  apply safe_closeSocket
  refine safe_keep trivial (fun _ _ h => h) fun _ => ?_
  exact h _ _

end Close

section Read
variable {isClient : Bool} {s : Waiting} {held : List Lock} (L : JsonLib J)

theorem safe_tryRead {Q : Message → Waiting → Prop}
    (hnone : ∀ err pending, err = -3 ∨ err = -4 → Q (noMessage err) ⟨held, pending⟩)
    (hread : ∀ message, Unanswered (J := J) isClient none .readMessage message →
      Q message ⟨held, some message⟩) (n : ℕ) (pending : Option Message) :
    SafeLocks (J := J) isClient Q (messagelinkTryReadMessage n) ⟨held, pending⟩ := by
  induction n generalizing pending with
  | zero => trivial
  | succ n ih =>
    simp only [SafeLocks, messagelinkTryReadMessage, doing, perform_bind, wp_act]
    refine ⟨trivial, fun state t ht => ?_⟩
    obtain rfl := ht.1
    dsimp only
    split_ifs with hstate
    · exact hnone _ _ (.inl rfl)
    refine safe_keep trivial (fun _ _ h => h) fun quit => ?_
    split_ifs with hquit
    · exact hnone _ _ (.inr rfl)
    refine safe_keep trivial (fun _ _ h => h) fun quit => ?_
    split_ifs with hquit
    · exact hnone _ _ (.inr rfl)
    refine safe_keep trivial (fun _ _ h => h) fun wait => ?_
    split_ifs with hwait
    · refine ⟨trivial, fun message t ht => ?_⟩
      obtain ⟨rfl, hquiet⟩ := ht
      exact hread message hquiet
    · exact ih none

theorem safe_readRound {Q : Option (Option J) → Waiting → Prop} (h : Forgets Q held) (n : ℕ)
    {message : Message} (hread : Unanswered (J := J) isClient none .readMessage message) :
    SafeLocks isClient Q (readRound L isClient n message) ⟨held, some message⟩ := by
  obtain ⟨herror, hbig, hping⟩ := hread
  simp only [readRound, SafeLocks]
  rw [if_neg herror, if_neg hbig]
  split_ifs with hgone hmask
  · exact h _ _
  · apply wp_bind.2
    exact safe_ownerClose (fun _ pending => h _ pending) (.inl hmask) n _
  simp only [handleMessage]
  split_ifs with htext hbinary hclose hcontinuation hisping hpong
  · exact h _ _
  · apply wp_bind.2
    exact safe_ownerClose (fun _ pending => h _ pending) (.inr (by simp [hbinary])) n _
  · apply wp_bind.2
    exact safe_remoteClose (fun _ pending => h _ pending) hclose hmask _
  · apply wp_bind.2
    exact safe_ownerClose (fun _ pending => h _ pending) (.inr (by simp [hcontinuation])) n _
  · exact absurd hisping (hping.resolve_left hmask)
  · refine safe_keep trivial (fun _ _ h => h) fun _ => ?_
    exact h _ _
  · exact h _ _

theorem readRound_noMessage (isClient : Bool) (n : ℕ) {err : ℤ} (herr : err = -3 ∨ err = -4) :
    readRound L isClient n (noMessage err) = .ret (some none) := by
  rcases herr with rfl | rfl <;> rfl

theorem safe_readLoop {Q : Option J → Waiting → Prop} (h : Forgets Q held) (n : ℕ)
    (pending : Option Message) :
    SafeLocks isClient Q (readLoop L isClient n) ⟨held, pending⟩ := by
  induction n generalizing pending with
  | zero => trivial
  | succ n ih =>
    simp only [SafeLocks, readLoop, doing, perform_bind, wp_act]
    refine ⟨trivial, fun state t ht => ?_⟩
    obtain rfl := ht.1
    dsimp only
    split_ifs with hstate
    · exact h _ _
    refine safe_keep trivial (fun _ _ h => h) fun quit => ?_
    split_ifs with hquit
    · exact h _ _
    apply wp_bind.2
    apply safe_tryRead
    · intro err pending herr
      rw [readRound_noMessage L isClient n herr]
      exact h _ _
    · intro message hread
      apply wp_bind.2
      apply safe_readRound L _ n hread
      intro result pending
      cases result with
      | some reply => exact h _ _
      | none => exact ih pending

theorem safe_read {Q : Option J → Waiting → Prop} (h : Forgets Q held) (background : Bool) (n : ℕ)
    (pending : Option Message) :
    SafeLocks isClient Q (messagelinkRead L isClient background n) ⟨held, pending⟩ := by
  cases background with
  | true => exact h _ _
  | false =>
    simp only [SafeLocks, messagelinkRead, messagelinkReadOpen, doing, perform_bind, wp_act,
      Bool.false_eq_true, if_false]
    refine ⟨trivial, fun state t ht => ?_⟩
    obtain rfl := ht.1
    dsimp only
    split_ifs with hstate
    · exact h _ _
    · exact safe_readLoop L h n none

theorem safe_reply (background : Bool) (n : ℕ) (err : ℤ) (pending : Option Message) :
    SafeLocks isClient (fun _ _ => True) (do
      let reply ← if err = 0 then messagelinkRead L isClient background n else .ret none
      doing (.unlock .out)
      return reply) ⟨[.out], pending⟩ := by
  have hunlock : ∀ (reply : Option J) (s : Waiting), SafeLocks isClient (fun _ _ => True)
      (.act (.unlock (J := J) .out) fun _ => .ret reply) s :=
    fun _ _ => ⟨trivial, fun _ _ _ => trivial⟩
  split_ifs with herr
  · apply wp_bind.2
    exact safe_read L (fun reply pending => hunlock reply _) background n pending
  · exact hunlock _ _

theorem safe_sendCommand (background : Bool) (n : ℕ) (text : Option Bytes) :
    SafeLocks isClient (fun _ _ => True) (sendCommand L isClient background n text)
      ⟨[], none⟩ := by
  simp only [SafeLocks, sendCommand, doing, perform_bind, wp_act]
  refine ⟨List.not_mem_nil, fun _ t ht => ?_⟩
  obtain rfl := ht.1.2
  refine safe_keep trivial (fun _ _ h => h) fun _ => ?_
  cases text with
  | none => exact safe_reply L background n (-1) none
  | some text =>
    refine safe_keep trivial (fun _ _ h => h) fun _ => ?_
    refine safe_keep trivial (fun _ _ h => h) fun out => ?_
    apply wp_bind.2
    apply safe_sendText
    · intro err pending
      exact safe_reply L background n err pending
    · decide

end Read

/-- As long as nothing has to be sent, a command that waits for its reply never wants a lock that
it holds. -/
theorem command_never_selfDeadlocks (L : JsonLib J) {isClient background : Bool} {n : ℕ}
    {p : Program J (Option J)}
    (hp : (∃ command, p = messagelinkSendCommand L isClient background n command) ∨
      ∃ text, p = messagelinkSendCommandF L isClient background n text)
    {d : Config Waiting (Act.Answer (J := J)) (Option J)} {ms : List (Move _ _)}
    (h : Run (Steps Locking) (⟨[], none⟩, p) ms d)
    (hquiet : ∀ m ∈ ms, Unanswered isClient m.src.1.pending m.act.1 m.act.2) :
    ¬ SelfDeadlock d := by
  have hsafe : SafeLocks isClient (fun _ _ => True) p ⟨[], none⟩ := by
    rcases hp with ⟨command, rfl⟩ | ⟨text, rfl⟩
    · exact safe_sendCommand L background n _
    · exact safe_sendCommand L background n _
  have hd : wp (Quiet isClient) LocksFree True (fun _ _ => True) d.2 d.1 :=
    wp_run (G := fun s e => Unanswered isClient s.pending e.1 e.2)
      (fun _ _ _ _ hs hq => ⟨hs, hq⟩) h hquiet hsafe
  intro ⟨l, k, hk, hl⟩
  rw [hk] at hd
  exact hd.1 hl

/-! ## A command and what is sent for it -/

/-- The other side takes the command and sends `message`; then the link is closed. -/
def answered (message : Message) (s : Waiting) : (a : Act J) → a.Answer
  | .state => if s.pending.isNone then .open else .closed
  | .socket => some 3
  | .waitData => (1 : ℤ)
  | .readMessage => message
  | .out => [123, 125]
  | .send _ _ data => (data.length : ℤ)
  | a => a.idle

def granted (message : Message) (s : Waiting) : Act J → Option Waiting
  | .lock l => if l ∈ s.held then none else some { s with held := l :: s.held }
  | .unlock l => some { s with held := s.held.erase l }
  | .readMessage => some { s with pending := some message }
  | .state => some { s with pending := none }
  | _ => some s

theorem locking_answered (message : Message) {s t : Waiting} {a : Act J}
    (h : granted message s a = some t) : Locking s a (answered message s a) t := by
  cases a <;> simp_all [granted, Locking, answered]

theorem unanswered_answered {isClient : Bool} {message : Message}
    (h : Unanswered (J := J) isClient none .readMessage message) (s : Waiting) (a : Act J) :
    Unanswered isClient s.pending a (answered message s a) := by
  cases a with
  | readMessage => exact h
  | state =>
    intro message' hpending
    simp [answered, hpending]
  | _ => trivial

def emptyMessage (opcode : UInt8) : Message := ⟨0, ⟨1, opcode, 0, 0⟩, []⟩

theorem text_never_selfDeadlocks :
    ∃ (ms : List (Move _ _)) (d : Config Waiting (Act.Answer (J := Json.Value)) (Option Json.Value)),
      Run (Steps Locking)
        (⟨[], none⟩, messagelinkSendCommandF valueLib true false 3 (some [123, 125])) ms d ∧
      (∃ reply, d.2 = .ret reply) ∧ ¬ SelfDeadlock d := by
  let quiet (s : Waiting) (e : Event (Act.Answer (J := Json.Value))) : Prop :=
    Unanswered true s.pending e.1 e.2
  have hread : Unanswered (J := Json.Value) true none .readMessage (emptyMessage 1) := by
    simp [Unanswered, emptyMessage]
  obtain ⟨ms, hrun, hquiet⟩ := run_follow (G := quiet)
    (fun s a t h => ⟨locking_answered (emptyMessage 1) h, unanswered_answered hread s a⟩)
    (messagelinkSendCommandF valueLib true false 3 (some [123, 125])) ⟨[], none⟩
  refine ⟨ms, _, hrun, ?_, command_never_selfDeadlocks valueLib (.inr ⟨_, rfl⟩) hrun hquiet⟩
  simp [messagelinkSendCommandF, sendCommand, doing, follow, answered, granted, messagelinkSendText,
    makeMask, tcpSocketSend, frameMakeHeader, sendLoop_cons, sendBlocks_cons, maskBlock,
    messagelinkRead, messagelinkReadOpen, readLoop, messagelinkTryReadMessage, Act.idle, readRound, handleMessage, emptyMessage]

theorem ping_selfDeadlocks :
    ∃ (ms : List (Move _ _)) (d : Config Waiting (Act.Answer (J := Json.Value)) (Option Json.Value)),
      Run (Steps Locking)
        (⟨[], none⟩, messagelinkSendCommandF valueLib true false 3 (some [123, 125])) ms d ∧
      SelfDeadlock d := by
  let any (_ : Waiting) (_ : Event (Act.Answer (J := Json.Value))) : Prop := True
  obtain ⟨ms, hrun, -⟩ := run_follow (G := any)
    (fun s a t h => ⟨locking_answered (emptyMessage 9) h, trivial⟩)
    (messagelinkSendCommandF valueLib true false 3 (some [123, 125])) ⟨[], none⟩
  refine ⟨ms, _, hrun, .out, ?_⟩
  simp [messagelinkSendCommandF, sendCommand, doing, follow, answered, granted, messagelinkSendText,
    makeMask, tcpSocketSend, frameMakeHeader, sendLoop_cons, sendBlocks_cons, maskBlock,
    messagelinkRead, messagelinkReadOpen, readLoop, messagelinkTryReadMessage, Act.idle, readRound, handleMessage, messagelinkSendPong,
    sendFrame, emptyMessage]

end Rcom.Messagelink
