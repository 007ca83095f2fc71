import Rcom.Messagelink

/-!
# What a command returns (messagelink.c)

Whatever the accesses to the link, the system calls and the other side answer, a command returns a
message exactly if the last thing it did, before it unlocked `link->out`, was to read a text that
is JSON.
-/

namespace Rcom.Messagelink
open Rcom.Lib Rcom.Lib.Program
open Rcom.ClientLink (LinkState)

variable {J : Type} {α : Type}

abbrev Log (J : Type) := List (Event (Act.Answer (J := J)))

/-- A message that `_messagelink_read` takes, with a text that is JSON. -/
def TextOf (L : JsonLib J) (isClient : Bool) (message : Message) (reply : J) : Prop :=
  message.err ∉ ({-1, -2, -3, -4} : Set ℤ) ∧
    ¬(isClient = false ∧ message.input.length > 0 ∧ message.frame.mask = 0) ∧
    message.frame.opcode = 1 ∧ parseText L message.input = some reply

def JustRead (L : JsonLib J) (isClient : Bool) (log : Log J) (reply : J) : Prop :=
  ∃ message, log.getLast? = some ⟨.readMessage, message⟩ ∧ TextOf L isClient message reply

def NotReading (log : Log J) : Prop := ∀ message, log.getLast? ≠ some ⟨.readMessage, message⟩

/-- For every answer the program ends with `Q`, or does not end. -/
abbrev Ending (Q : α → Log J → Prop) (p : Program J α) (log : Log J) : Prop :=
  wp Logs (fun _ _ => True) True Q p log

section Ending
variable {L : JsonLib J} {isClient : Bool} {log : Log J}

theorem NotReading.not_read (h : NotReading log) (reply : J) : ¬JustRead L isClient log reply := by
  intro hread
  obtain ⟨message, hlast, _⟩ := hread
  exact h message hlast

theorem notReading_of_ne {a : Act J} (h : a ≠ .readMessage) (r : a.Answer) : NotReading (log ++ [⟨a, r⟩]) := by
  intro message hlast
  rw [List.getLast?_concat, Option.some.injEq] at hlast
  exact h (congrArg Sigma.fst hlast)

theorem ending_act {Q : α → Log J → Prop} {a : Act J} {k : a.Answer → Program J α} :
    Ending Q (.act a k) log ↔ ∀ r, Ending Q (k r) (log ++ [⟨a, r⟩]) := by
  rw [Ending, wp_act]
  constructor
  · intro h r
    exact h.2 r _ rfl
  · intro h
    refine ⟨trivial, fun r t ht => ?_⟩
    rw [ht]
    exact h r

theorem ending_any {p : Program J α} : Ending (fun _ _ => True) p log := by
  induction p generalizing log with
  | ret x => trivial
  | stop => trivial
  | act a k ih => exact ending_act.2 fun r => ih r

theorem ending_bind {Q : α → Log J → Prop} {β : Type} {p : Program J β} {f : β → Program J α}
    (h : ∀ x log, Ending Q (f x) log) : Ending Q (p >>= f) log := by
  apply wp_bind.2
  exact wp_mono ending_any fun x log _ => h x log

theorem notReading_closeSocket : Ending (fun _ => NotReading) (messagelinkCloseSocket (J := J)) log := by
  simp only [messagelinkCloseSocket, doing, perform_bind, ending_act]
  intro socket
  cases socket with
  | none => exact notReading_of_ne (by simp) _
  | some fd =>
    simp only [perform, ending_act]
    intro _ _ _
    exact notReading_of_ne (by simp) _

theorem notReading_ownerClose (n : ℕ) (code : ℤ) :
    Ending (fun _ => NotReading) (ownerMessagelinkClose (J := J) isClient n code) log := by
  simp only [ownerMessagelinkClose, doing, perform_bind, ending_act]
  intro state
  split
  · exact notReading_of_ne (by simp) _
  · apply ending_bind
    intro err log
    split
    · exact notReading_closeSocket
    · exact ending_bind fun _ _ => notReading_closeSocket

theorem notReading_closeOneway (code : ℤ) :
    Ending (fun _ => NotReading) (ownerMessagelinkCloseOneway (J := J) isClient code) log :=
  ending_bind fun _ _ => ending_bind fun _ _ => notReading_closeSocket

theorem notReading_remoteClose (input : Bytes) :
    Ending (fun _ => NotReading) (remoteMessagelinkClose (J := J) isClient input) log := by
  have honclose : ∀ log, Ending (fun _ => NotReading)
      (doing (J := J) .onclose >>= fun _ => pure (0 : ℤ)) log := by
    intro log
    simp only [doing, perform_bind, ending_act]
    intro _
    exact notReading_of_ne (by simp) _
  refine ending_bind fun state log => ?_
  dsimp only
  split <;>
    exact ending_bind fun _ _ => ending_bind fun _ _ => ending_bind fun _ log => honclose log

def Agrees (L : JsonLib J) (isClient : Bool) (result : Option J) (log : Log J) : Prop :=
  ∀ reply, result = some reply ↔ JustRead L isClient log reply

theorem agrees_none (h : NotReading log) : Agrees L isClient none log := by
  intro reply
  simp [h.not_read reply]

/-! ## Reading -/

theorem ending_tryRead (n : ℕ) : Ending (fun message log =>
    log.getLast? = some ⟨.readMessage, message⟩ ∨
      NotReading log ∧ (message.err = -3 ∨ message.err = -4)) (messagelinkTryReadMessage (J := J) n) log := by
  induction n generalizing log with
  | zero => trivial
  | succ n ih =>
    simp only [messagelinkTryReadMessage, doing, perform_bind, ending_act]
    intro state
    split
    · exact .inr ⟨notReading_of_ne (by simp) _, .inl rfl⟩
    · simp only [ending_act]
      intro quit
      split
      · exact .inr ⟨notReading_of_ne (by simp) _, .inr rfl⟩
      · simp only [ending_act]
        intro quit
        split
        · exact .inr ⟨notReading_of_ne (by simp) _, .inr rfl⟩
        · simp only [ending_act]
          intro wait
          split
          · simp only [perform, ending_act]
            intro message
            exact .inl List.getLast?_concat
          · exact ih

def RoundAgrees (L : JsonLib J) (isClient : Bool) (result : Option (Option J)) (log : Log J) : Prop :=
  ∀ r, result = some r → Agrees L isClient r log

theorem roundAgrees_none {β : Type} {p : Program J β} (h : Ending (fun _ => NotReading) p log) :
    Ending (RoundAgrees L isClient) (p >>= fun _ => pure (some none)) log := by
  apply wp_bind.2
  refine wp_mono h fun _ log hlog r hr => ?_
  cases hr
  exact agrees_none hlog

theorem roundAgrees_next {β : Type} {p : Program J β} :
    Ending (RoundAgrees L isClient) (p >>= fun _ => pure none) log :=
  ending_bind fun _ _ _ hr => by cases hr

theorem justRead_iff {message : Message} (hlast : log.getLast? = some ⟨.readMessage, message⟩)
    (reply : J) : JustRead L isClient log reply ↔ TextOf L isClient message reply := by
  constructor
  · intro h
    obtain ⟨message', hlast', htext⟩ := h
    rw [hlast] at hlast'
    cases hlast'
    exact htext
  · intro htext
    exact ⟨message, hlast, htext⟩

theorem ending_handleMessage (n : ℕ) {message : Message}
    (hlast : log.getLast? = some ⟨.readMessage, message⟩)
    (herr : message.err ∉ ({-1, -2, -3, -4} : Set ℤ))
    (hmask : ¬(isClient = false ∧ message.input.length > 0 ∧ message.frame.mask = 0)) :
    Ending (RoundAgrees L isClient) (handleMessage L isClient n message) log := by
  unfold handleMessage
  split
  · next hop =>
    intro r hr reply
    cases hr
    rw [justRead_iff hlast]
    exact ⟨fun hparse => ⟨herr, hmask, hop, hparse⟩, fun htext => htext.2.2.2⟩
  · split
    · exact roundAgrees_none (notReading_ownerClose _ _)
    · split
      · exact roundAgrees_none (notReading_remoteClose _)
      · split
        · exact roundAgrees_next
        · split
          · exact roundAgrees_next
          · split
            · exact roundAgrees_next
            · intro r hr
              cases hr

theorem ending_readRound (n : ℕ) {message : Message}
    (hlast : log.getLast? = some ⟨.readMessage, message⟩ ∨
      NotReading log ∧ (message.err = -3 ∨ message.err = -4)) :
    Ending (RoundAgrees L isClient) (readRound L isClient n message) log := by
  unfold readRound
  split
  · exact roundAgrees_none (notReading_closeOneway _)
  · split
    · exact roundAgrees_none (notReading_closeOneway _)
    · split
      · next herr =>
        intro r hr
        cases hr
        rcases hlast with hlast | ⟨hother, _⟩
        · intro reply
          rw [justRead_iff hlast]
          refine iff_of_false (by simp) fun htext => htext.1 ?_
          rcases herr with herr | herr <;> simp [herr]
        · exact agrees_none hother
      · next herr1 herr2 herr =>
        have hlast := hlast.resolve_right fun h => herr h.2
        split
        · exact roundAgrees_none (notReading_ownerClose _ _)
        · next hmask =>
          refine ending_handleMessage n hlast ?_ hmask
          simp only [Set.mem_insert_iff, Set.mem_singleton_iff, not_or]
          exact ⟨herr1, herr2, not_or.1 herr⟩

theorem ending_readLoop (n : ℕ) : Ending (Agrees L isClient) (readLoop L isClient n) log := by
  induction n generalizing log with
  | zero => trivial
  | succ n ih =>
    simp only [readLoop, doing, perform_bind, ending_act]
    intro state
    split
    · exact agrees_none (notReading_of_ne (by simp) _)
    · simp only [ending_act]
      intro quit
      split
      · exact agrees_none (notReading_of_ne (by simp) _)
      · apply wp_bind.2
        refine wp_mono (ending_tryRead n) fun message log hmessage => ?_
        apply wp_bind.2
        refine wp_mono (ending_readRound n hmessage) fun result log hresult => ?_
        cases result with
        | none => exact ih
        | some r => exact hresult r rfl

theorem ending_read (background : Bool) (n : ℕ) (hlog : NotReading log) :
    Ending (Agrees L isClient) (messagelinkRead L isClient background n) log := by
  unfold messagelinkRead
  split
  · exact agrees_none hlog
  · simp only [messagelinkReadOpen, doing, perform_bind, ending_act]
    intro state
    split
    · exact agrees_none (notReading_of_ne (by simp) _)
    · exact ending_readLoop n

end Ending

/-! ## Commands -/

/-- The last thing, before `link->out` was unlocked, was to read the text of this reply. -/
def Received (L : JsonLib J) (isClient : Bool) (log : Log J) (reply : J) : Prop :=
  ∃ front, log = front ++ [⟨.unlock .out, ()⟩] ∧ JustRead L isClient front reply

theorem received_iff {L : JsonLib J} {isClient : Bool} {front : Log J} {reply : J} :
    Received L isClient (front ++ [⟨.unlock .out, ()⟩]) reply ↔ JustRead L isClient front reply := by
  constructor
  · intro h
    obtain ⟨front', heq, hread⟩ := h
    rwa [List.append_cancel_right heq]
  · intro h
    exact ⟨front, rfl, h⟩

theorem notReading_sendText {isClient : Bool} {log : Log J} (data : Bytes) :
    Ending (fun _ => NotReading) (messagelinkSendText isClient data) log := by
  have hunlock : ∀ (err : ℤ) (log : Log J), Ending (fun _ => NotReading)
      (doing (.unlock .sendMutex) >>= fun _ => pure err) log := by
    intro err log
    simp only [doing, perform_bind, ending_act]
    intro _
    exact notReading_of_ne (by simp) _
  simp only [messagelinkSendText, doing, perform_bind, ending_act]
  intro socket
  split
  · exact notReading_of_ne (by simp) _
  · simp only [ending_act]
    intro state
    split
    · exact notReading_of_ne (by simp) _
    · refine ending_bind fun mask log => ?_
      simp only [ending_act]
      intro _ socket
      refine ending_bind fun err log => ?_
      split <;> exact ending_bind fun err log => hunlock err log

/-- The command ends by unlocking `link->out`, and what it returns agrees with what was read before. -/
theorem ending_sendCommand {L : JsonLib J} {isClient background : Bool} {n : ℕ}
    {text : Option Bytes} (log : Log J) :
    Ending (fun result log => ∃ front, log = front ++ [⟨.unlock .out, ()⟩] ∧
      Agrees L isClient result front) (sendCommand L isClient background n text) log := by
  have hunlock : ∀ (result : Option J) (log : Log J), Agrees L isClient result log →
      Ending (fun result log => ∃ front, log = front ++ [⟨.unlock .out, ()⟩] ∧
        Agrees L isClient result front) (doing (.unlock .out) >>= fun _ => pure result) log := by
    intro result log hagrees
    simp only [doing, perform_bind, ending_act]
    intro _
    exact ⟨log, rfl, hagrees⟩
  have hreply : ∀ (err : ℤ) (log : Log J), NotReading log →
      Ending (fun result log => ∃ front, log = front ++ [⟨.unlock .out, ()⟩] ∧
          Agrees L isClient result front)
        (if err = 0 then messagelinkRead L isClient background n >>= fun reply =>
            doing (.unlock .out) >>= fun _ => pure reply
          else doing (.unlock .out) >>= fun _ => pure none) log := by
    intro err log hother
    split
    · apply wp_bind.2
      exact wp_mono (ending_read background n hother) fun reply log => hunlock reply log
    · exact hunlock none log (agrees_none hother)
  simp only [sendCommand, doing, perform_bind, ending_act]
  intro _ _
  cases text with
  | none =>
    refine hreply (-1) _ ?_
    exact notReading_of_ne (by simp) _
  | some text =>
    simp only [ending_act]
    intro _ out
    apply wp_bind.2
    exact wp_mono (notReading_sendText out) fun err log hother => hreply err log hother

theorem received_of_sendCommand {L : JsonLib J} {isClient background : Bool} {n : ℕ}
    {text : Option Bytes} {log : Log J} {result : Option J}
    (h : Does (sendCommand L isClient background n text) log result) (reply : J) :
    result = some reply ↔ Received L isClient log reply := by
  obtain ⟨front, hlog, hagrees⟩ := does_of_wp (ending_sendCommand []) h
  rw [List.nil_append] at hlog
  rw [hlog, received_iff]
  exact hagrees reply

end Rcom.Messagelink
