import Rcom.Reading
import Rcom.Senders

/-!
# Texts between two ends of a connection (messagelink.c)

A thread that sends a text on an open link, and one that reads a text, whatever comes after it.
-/

namespace Rcom.Messagelink
open Rcom.Lib Rcom.Lib.Program Rcom.Lib.Trace Rcom.Lib.Rfc6455
open Rcom.ClientLink (LinkState)

variable {J : Type} {isClient : Bool} {s t : Session J} {fd : ℕ}

/-! ## Sending -/

theorem Pieces.append {opcode : ℕ} {w v : List (ℕ × Bytes)} {bytes rest : Bytes}
    (hw : Pieces opcode w bytes) (hv : Pieces opcode v rest) : Pieces opcode (w ++ v) (bytes ++ rest) where
  tag := List.forall_mem_append.2 ⟨hw.tag, hv.tag⟩
  all := by rw [List.flatMap_append, hw.all, hv.all]

theorem less_append {bytes front : Bytes} (hpart : bytes <+: front) (hless : bytes.length < front.length)
    (rest : Bytes) : bytes <+: front ++ rest ∧ bytes.length < (front ++ rest).length := by
  refine ⟨hpart.trans (List.prefix_append _ _), ?_⟩
  rw [List.length_append]
  exact Nat.lt_add_right _ hless

theorem append_less {bytes rest : Bytes} (front : Bytes) (hpart : bytes <+: rest)
    (hless : bytes.length < rest.length) :
    front ++ bytes <+: front ++ rest ∧ (front ++ bytes).length < (front ++ rest).length := by
  refine ⟨(List.prefix_append_right_inj _).2 hpart, ?_⟩
  rw [List.length_append, List.length_append]
  exact Nat.add_lt_add_left hless _

theorem returns_sendBlocks {Q : ℤ → Session J → Prop} {masked : Bool} {mask : Mask} {j : Fin 4}
    {data : Bytes} (hsocket : s.socket = some fd)
    (hdone : ∀ w, Pieces 1 w (bodyFrom masked mask j data) → Q 0 { s with wire := s.wire ++ w })
    (hfail : ∀ w bytes, Pieces 1 w bytes → bytes <+: bodyFrom masked mask j data →
      bytes.length < (bodyFrom masked mask j data).length →
      Q (-1) { s with wire := s.wire ++ w, failed := s.failed ++ [1] }) :
    Returns Q (sendBlocks masked mask j data) s := by
  fun_induction sendBlocks masked mask j data generalizing s with
  | case1 =>
    rw [bodyFrom_nil] at hdone
    simpa using hdone [] ⟨by simp, rfl⟩
  | case2 j data hdata block =>
    rename_i next ih
    simp only [dite_eq_ite] at ih
    rw [bodyFrom_block] at hdone hfail
    simp only [returns_socket, hsocket, tcpSocketSend]
    apply wp_bind.2
    apply returns_sendLoop
    · intro w hw
      have hsocket' : Session.socket { s with wire := s.wire ++ w } = some fd := hsocket
      rw [if_neg (not_not.2 rfl)]
      refine ih hsocket' (fun v hv => ?_) (fun v bytes hv hpart hless => ?_)
      · simpa using hdone _ (hw.append hv)
      · obtain ⟨hpart, hless⟩ := append_less (if masked then next.1 else block) hpart hless
        simpa using hfail _ _ (hw.append hv) hpart hless
    · intro w bytes hw hpart hless
      rw [if_pos (by decide)]
      obtain ⟨hpart, hless⟩ := less_append hpart hless _
      exact hfail w bytes hw hpart hless

theorem returns_sendText {Q : ℤ → Session J → Prop} {data : Bytes} (hopen : s.state = .open)
    (hsocket : s.socket = some fd) (h : ∀ err t, Sends isClient 1 data s err t → Q err t) :
    Returns Q (messagelinkSendText isClient data) s := by
  simp only [messagelinkSendText, doing, perform_bind, returns_socket, hsocket]
  rw [if_neg (by simp)]
  simp only [returns_state, hopen]
  rw [if_neg (not_not.2 rfl)]
  apply wp_bind.2
  apply returns_makeMask
  intro mask
  simp only [returns_lock, returns_socket, hsocket, tcpSocketSend]
  apply wp_bind.2
  apply returns_sendLoop
  · intro w hw
    have hsocket' : Session.socket { s with wire := s.wire ++ w } = some fd := hsocket
    rw [if_neg (not_not.2 rfl)]
    apply wp_bind.2
    apply returns_sendBlocks hsocket'
    · intro v hv
      have hframe := hw.append hv
      rw [← frameMake_eq_body] at hframe
      have hsent := Sends.sent (s := s) mask s.out (w ++ v) hframe
      simp only [returns_unlock]
      simpa using h _ _ hsent
    · intro v bytes hv hpart hless
      obtain ⟨hpart, hless⟩ := append_less (frameMakeHeader 1 isClient mask data.length) hpart hless
      rw [← frameMake_eq_body] at hpart hless
      have hfailed := Sends.failed (s := s) mask s.out (w ++ v) _ (hw.append hv) hpart hless
      simp only [returns_unlock]
      simpa using h _ _ hfailed
  · intro w bytes hw hpart hless
    rw [if_pos (by decide)]
    obtain ⟨hpart, hless⟩ := less_append hpart hless (bodyFrom isClient mask maskStart data)
    rw [← frameMake_eq_body] at hpart hless
    have hfailed := Sends.failed (s := s) mask s.out w _ hw hpart hless
    simp only [Prog.ret_bind, returns_unlock]
    exact h _ _ hfailed

/-- The text is printed to `link->out`, which stays locked; `none` is one that could not be printed. -/
def sendPrinted (isClient : Bool) (text : Option Bytes) : Program J ℤ := do
  doing (.lock .out)
  doing .clearOut
  let err ← match text with
    | none => .ret (-1)
    | some text => do
      doing (.appendOut text)
      let out : Bytes ← doing .out
      messagelinkSendText isClient out
  doing (.unlock .out)
  return err

def messagelinkSendObj (L : JsonLib J) (isClient : Bool) (value : J) : Program J ℤ :=
  sendPrinted isClient (some (L.jsonSerialise value))

/-- What was in `link->out` before does not matter. -/
theorem Sends.of_out {opcode : ℕ} {payload out : Bytes} {err : ℤ}
    (h : Sends isClient opcode payload { s with out } err t) : Sends isClient opcode payload s err t := by
  cases h with
  | sent mask out w hw => exact .sent mask out w hw
  | failed mask out w bytes hw hpart hless => exact .failed mask out w bytes hw hpart hless

structure Session.Grows (s t : Session J) : Prop where
  wire : s.wire <+: t.wire
  failed : s.failed <+: t.failed
  delivered : s.delivered <+: t.delivered

theorem Session.Grows.refl (s : Session J) : s.Grows s :=
  ⟨List.prefix_rfl, List.prefix_rfl, List.prefix_rfl⟩

theorem Session.Does.grows {a : Act J} {r : a.Answer} (h : s.Does a r t) : s.Grows t := by
  cases a with
  | send fd opcode data =>
    rcases h with ⟨-, -, rfl⟩ | ⟨-, rfl⟩
    · exact { Session.Grows.refl s with wire := List.prefix_append _ _ }
    · exact { Session.Grows.refl s with failed := List.prefix_append _ _ }
  | onmessage message =>
    obtain rfl := h
    exact { Session.Grows.refl s with delivered := List.prefix_append _ _ }
  | waitData =>
    rcases h with ⟨-, rfl⟩ | ⟨-, patience, -, rfl⟩
    · exact .refl _
    · exact ⟨List.prefix_rfl, List.prefix_rfl, List.prefix_rfl⟩
  | appQuit | threadQuit | state | socket | closeCode | out | readMessage =>
    obtain ⟨-, rfl⟩ := h
    exact ⟨List.prefix_rfl, List.prefix_rfl, List.prefix_rfl⟩
  | _ =>
    obtain rfl := h
    exact ⟨List.prefix_rfl, List.prefix_rfl, List.prefix_rfl⟩

theorem grows_of_finishes {α : Type} {p : Program J α} {x : α} (h : Finishes Session.Does p s x t) :
    s.Grows t := by
  refine h.invariant (I := fun u => s.Grows u) ?_ (.refl s)
  intro u a r v hu hdoes
  obtain ⟨hwire, hfailed, hdelivered⟩ := hdoes.grows
  exact ⟨hu.wire.trans hwire, hu.failed.trans hfailed, hu.delivered.trans hdelivered⟩

theorem Sends.all {opcode : ℕ} {payload : Bytes} {err : ℤ} (h : Sends isClient opcode payload s err t)
    (hfailed : t.failed = []) :
    err = 0 ∧ ∃ mask out w, Pieces opcode w (frameMake opcode isClient mask payload) ∧
      t = { s with out, wire := s.wire ++ w } := by
  cases h with
  | sent mask out w hw => exact ⟨rfl, mask, out, w, hw, rfl⟩
  | failed mask out w bytes hw hpart hless => simp at hfailed

/-! ## Reading -/

section Read
variable {L : JsonLib J}

/-- One round of the loop in `_messagelink_read`, on an open link that may not quit. -/
theorem returns_readLoop_round {Q : Option J → Session J → Prop} {n : ℕ} (hopen : s.state = .open)
    (hquit : s.mayQuit = false) (hn : s.patience < n)
    (h : ∀ p ≤ s.patience, Returns (fun result t => match result with
      | some message => Q message t
      | none => Returns Q (readLoop L isClient n) t) (readRound L isClient n s.message) (s.took p)) :
    Returns Q (readLoop L isClient (n + 1)) s := by
  simp only [readLoop, doing, perform_bind, returns_state]
  rw [if_neg (not_not.2 hopen)]
  apply returns_appQuit
  intro quit hmay
  cases quit with
  | true => simp [hquit] at hmay
  | false =>
    apply wp_bind.2
    apply returns_tryRead hopen hn
    · intro hmay
      simp [hquit] at hmay
    intro p hp
    apply wp_bind.2
    apply wp_mono (h p hp)
    intro result t ht
    cases result with
    | none => exact ht
    | some message => exact ht

theorem returns_readOpen_round {Q : Option J → Session J → Prop} {n : ℕ} (hopen : s.state = .open)
    (hquit : s.mayQuit = false) (hn : s.patience + 1 < n)
    (h : ∀ k p, p ≤ s.patience → Returns (fun result t => ∃ message, result = some message ∧ Q message t)
      (readRound L isClient k s.message) (s.took p)) :
    Returns Q (messagelinkReadOpen L isClient n) s := by
  obtain ⟨n, rfl⟩ := Nat.exists_eq_succ_of_ne_zero (Nat.ne_zero_of_lt hn)
  simp only [messagelinkReadOpen, doing, perform_bind, returns_state]
  rw [if_neg (not_not.2 hopen)]
  apply returns_readLoop_round hopen hquit (by omega)
  intro p hp
  apply wp_mono (h n p hp)
  rintro _ t ⟨message, rfl, ht⟩
  exact ht

theorem returns_readOpen_text {Q : Option J → Session J → Prop} {n : ℕ} {w : WsFrame} {input : Bytes}
    (hopen : s.state = .open) (hquit : s.mayQuit = false) (hn : s.patience + 1 < n)
    (hmessage : s.message = ⟨0, w, input⟩) (hop : w.opcode = 1)
    (hmask : isClient = false → input ≠ [] → w.mask ≠ 0)
    (h : ∀ p ≤ s.patience, Q (parseText L input) (s.took p)) :
    Returns Q (messagelinkReadOpen L isClient n) s := by
  refine returns_readOpen_round hopen hquit hn fun k p hp => ?_
  have hmasked : ¬ (isClient = false ∧ input.length > 0 ∧ w.mask = 0) := by
    rintro ⟨hserver, hpos, hzero⟩
    exact hmask hserver (List.length_pos_iff.1 hpos) hzero
  rw [hmessage, readRound, if_neg (by simp), if_neg (by simp), if_neg (by simp), if_neg hmasked,
    handleMessage, if_pos hop]
  exact ⟨_, rfl, h p hp⟩

/-- An open link of this role, which may not quit, and the bytes that are to come to it. -/
structure Session.Linked (s : Session J) (isClient : Bool) (bytes : Bytes) : Prop where
  state : s.state = .open
  socket : ∃ fd, s.socket = some fd
  mayQuit : s.mayQuit = false
  role : s.reader.isClient = isClient
  arrived : s.reader.socket.arrived = bytes

def textFrame (isClient : Bool) (mask : Mask) (text : Bytes) (h : text.length < 2 ^ 63) : Frame :=
  ⟨true, 1, if isClient then some mask else none, text, h⟩

/-- A text that is framed right and not too long for the other end. -/
def Fits (text : Bytes) : Prop := text.length ≠ 65536 ∧ text.length ≤ 16777216

instance (text : Bytes) : Decidable (Fits text) := inferInstanceAs (Decidable (_ ∧ _))

theorem Fits.length_lt {text : Bytes} (h : Fits text) : text.length < 2 ^ 63 := by
  have hle := h.2
  omega

theorem textFrame_bytes {text : Bytes} (h : Fits text) (isClient : Bool) (mask : Mask) :
    frameMake 1 isClient mask text = (textFrame isClient mask text h.length_lt).bytes :=
  @frameMake_eq_bytes (textFrame isClient mask text h.length_lt) rfl h.1 isClient mask rfl

section Linked
variable {text rest : Bytes} {mask : Mask}

theorem Session.Linked.readMessage_eq (hs : s.Linked isClient (frameMake 1 (!isClient) mask text ++ rest))
    (h : Fits text) : messagelinkReadMessage s.reader ⟨0, 0, 0, 0⟩ =
      (0, wsFrame (textFrame (!isClient) mask text h.length_lt), { s.reader with
        input := text, socket := s.reader.socket.skip (frameMake 1 (!isClient) mask text).length }) := by
  have harrived := hs.arrived
  rw [textFrame_bytes h] at harrived ⊢
  refine messagelinkReadMessage_frame _ harrived h.2 ?_ ⟨0, 0, 0, 0⟩
  intro hclient
  rw [hs.role] at hclient
  rw [hclient]
  rfl

/-- The frame of the other end is read, and what comes after it is to come. -/
theorem Session.Linked.reads (hs : s.Linked isClient (frameMake 1 (!isClient) mask text ++ rest))
    (h : Fits text) (p : ℕ) :
    s.message = ⟨0, wsFrame (textFrame (!isClient) mask text h.length_lt), text⟩ ∧
      (s.took p).Linked isClient rest := by
  have hread := hs.readMessage_eq h
  refine ⟨?_, hs.state, hs.socket, hs.mayQuit, ?_, ?_⟩
  · rw [Session.message, hread]
  · show (readOn s.reader).isClient = isClient
    rw [readOn, hread]
    exact hs.role
  · show (readOn s.reader).socket.arrived = rest
    rw [readOn, hread]
    dsimp only
    rw [Socket.arrived_skip (by rw [hs.arrived, List.length_append]; omega), hs.arrived, List.drop_left]

theorem returns_readText {L : JsonLib J} {Q : Option J → Session J → Prop} {n : ℕ}
    (hs : s.Linked isClient (frameMake 1 (!isClient) mask text ++ rest)) (hfits : Fits text)
    (hn : s.patience + 1 < n)
    (h : ∀ p ≤ s.patience, (s.took p).Linked isClient rest → Q (parseText L text) (s.took p)) :
    Returns Q (messagelinkReadOpen L isClient n) s := by
  refine returns_readOpen_text hs.state hs.mayQuit hn (hs.reads hfits 0).1 ?_ ?_ ?_
  · exact (opcode_eq_iff (textFrame (!isClient) mask text hfits.length_lt) 1).2 rfl
  · rintro rfl hne hmask
    have hbare := (@bare_iff false (textFrame (!false) mask text hfits.length_lt)).1
      ⟨rfl, List.length_pos_iff.2 hne, hmask⟩
    exact absurd hbare.2.2 (by simp [textFrame])
  · exact fun p hp => h p hp (hs.reads hfits p).2

/-- The bytes that `send` took. -/
def Session.sent (s : Session J) : Bytes := s.wire.flatMap (·.2)

theorem sent_grows (h : s.wire <+: t.wire) : s.sent <+: t.sent := by
  obtain ⟨w, hw⟩ := h
  rw [Session.sent, Session.sent, ← hw, List.flatMap_append]
  exact List.prefix_append _ _

/-- Where nothing has failed, a text that was sent is on the wire in one frame. -/
theorem Sends.linked {err : ℤ} (h : Sends isClient 1 text s err t) (hfailed : t.failed = [])
    (hs : s.Linked isClient rest) : err = 0 ∧ t.Linked isClient rest ∧ t.patience = s.patience ∧
      t.delivered = s.delivered ∧ ∃ mask, t.sent = s.sent ++ frameMake 1 isClient mask text := by
  obtain ⟨rfl, mask, out, w, hw, rfl⟩ := h.all hfailed
  refine ⟨rfl, ⟨hs.state, hs.socket, hs.mayQuit, hs.role, hs.arrived⟩, rfl, rfl, mask, ?_⟩
  rw [Session.sent, List.flatMap_append, hw.all]
  rfl

end Linked

end Read

end Rcom.Messagelink
