import Rcom.FrameReading
import Rcom.Messagelink

/-!
# One thread on an open link (messagelink.c)

The thread sends and reads alone. The frames of the other side arrive in any pieces,
`send` may take any part of what it gets or fail, and `select` may time out. Every program
below returns, given enough rounds for its loops.
-/

namespace Rcom.Messagelink
open Rcom.Lib Rcom.Lib.Program Rcom.Lib.Rfc6455
open Rcom.ClientLink (LinkState)

variable {J : Type}

def readOn (r : Reader) : Reader := (messagelinkReadMessage r ⟨0, 0, 0, 0⟩).2.2

/-- `wire` is what `send` took, with the opcode of the frame that it belongs to; `failed` has the
opcode for each `send` that failed. `patience` is the number of times that `select` may still come
back without data. -/
structure Session (J : Type) where
  state : LinkState
  socket : Option ℕ
  closeCode : ℤ
  reader : Reader
  mayQuit : Bool
  patience : ℕ
  out : Bytes
  wire : List (ℕ × Bytes)
  failed : List ℕ
  delivered : List J
  closes : ℕ

namespace Session
variable (s : Session J)

def message : Message :=
  let r := messagelinkReadMessage s.reader ⟨0, 0, 0, 0⟩
  ⟨r.1, r.2.1, r.2.2.input⟩

/-- The effect of each action. The time runs out at any moment. -/
def Does : (a : Act J) → a.Answer → Session J → Prop
  | .appQuit, quit, t | .threadQuit, quit, t => (quit = true → s.mayQuit = true) ∧ t = s
  | .state, state, t => state = s.state ∧ t = s
  | .setState state, _, t => t = { s with state }
  | .socket, socket, t => socket = s.socket ∧ t = s
  | .setSocket socket, _, t => t = { s with socket }
  | .closeCode, code, t => code = s.closeCode ∧ t = s
  | .setCloseCode code, _, t => t = { s with closeCode := code }
  | .waitData, wait, t =>
    wait = 1 ∧ t = s ∨ wait ≠ 1 ∧ ∃ patience, s.patience = patience + 1 ∧ t = { s with patience }
  | .readMessage, message, t => message = s.message ∧ t = { s with reader := readOn s.reader }
  | .clearOut, _, t => t = { s with out := [] }
  | .appendOut data, _, t => t = { s with out := s.out ++ data }
  | .out, out, t => out = s.out ∧ t = s
  | .send _ opcode data, ret, t =>
    (0 < ret ∨ data = []) ∧ ret ≤ data.length ∧
        t = { s with wire := s.wire ++ [(opcode, data.take ret.toNat)] } ∨
      ret ≤ 0 ∧ t = { s with failed := s.failed ++ [opcode] }
  | .onmessage message, _, t => t = { s with delivered := s.delivered ++ [message] }
  | .onclose, _, t => t = { s with closes := s.closes + 1 }
  | _, _, t => t = s

/-- `messagelink_close_socket` on a valid socket. -/
def shut : Session J := { s with socket := none, state := .closed }

structure Hears (isClient : Bool) (fs : List Frame) : Prop where
  role : s.reader.isClient = isClient
  arrives : s.reader.socket.Arrives fs
  keys : ∀ f ∈ fs, isClient = true → f.key = none

end Session

/-- The program returns, and then `Q` holds. -/
abbrev Returns {α : Type} (Q : α → Session J → Prop) (p : Program J α) (s : Session J) : Prop :=
  wp Session.Does (fun _ _ => True) False Q p s

section Act
variable {α : Type} {Q : α → Session J → Prop} {s : Session J}

theorem returns_det {a : Act J} {k : a.Answer → Program J α} {x : a.Answer} {u : Session J}
    (h : ∀ r t, s.Does a r t ↔ r = x ∧ t = u) : Returns Q (.act a k) s ↔ Returns Q (k x) u := by
  rw [Returns, wp_act]
  constructor
  · intro hk
    exact hk.2 x u ((h x u).2 ⟨rfl, rfl⟩)
  · intro hk
    refine ⟨trivial, fun r t ht => ?_⟩
    obtain ⟨rfl, rfl⟩ := (h r t).1 ht
    exact hk

@[simp] theorem returns_state {k : LinkState → Program J α} :
    Returns Q (.act .state k) s ↔ Returns Q (k s.state) s := returns_det fun _ _ => Iff.rfl

@[simp] theorem returns_socket {k : Option ℕ → Program J α} :
    Returns Q (.act .socket k) s ↔ Returns Q (k s.socket) s := returns_det fun _ _ => Iff.rfl

@[simp] theorem returns_closeCode {k : ℤ → Program J α} :
    Returns Q (.act .closeCode k) s ↔ Returns Q (k s.closeCode) s := returns_det fun _ _ => Iff.rfl

@[simp] theorem returns_out {k : Bytes → Program J α} :
    Returns Q (.act .out k) s ↔ Returns Q (k s.out) s := returns_det fun _ _ => Iff.rfl

@[simp] theorem returns_readMessage {k : Message → Program J α} :
    Returns Q (.act .readMessage k) s ↔
      Returns Q (k s.message) { s with reader := readOn s.reader } :=
  returns_det fun _ _ => Iff.rfl

theorem returns_do {a : Act J} {k : a.Answer → Program J α} {x : a.Answer} {u : Session J}
    (hx : ∀ r : a.Answer, r = x) (h : ∀ r t, s.Does a r t ↔ t = u) :
    Returns Q (.act a k) s ↔ Returns Q (k x) u :=
  returns_det fun r t => by
    rw [h r t, hx r]
    simp

@[simp] theorem returns_lock {l : Lock} {k : Unit → Program J α} :
    Returns Q (.act (.lock l) k) s ↔ Returns Q (k ()) s := @returns_do _ _ _ _ (.lock l) k () _ (fun _ => rfl) fun _ _ => Iff.rfl

@[simp] theorem returns_unlock {l : Lock} {k : Unit → Program J α} :
    Returns Q (.act (.unlock l) k) s ↔ Returns Q (k ()) s := @returns_do _ _ _ _ (.unlock l) k () _ (fun _ => rfl) fun _ _ => Iff.rfl

@[simp] theorem returns_setState {state : LinkState} {k : Unit → Program J α} :
    Returns Q (.act (.setState state) k) s ↔ Returns Q (k ()) { s with state } :=
  @returns_do _ _ _ _ (.setState state) k () _ (fun _ => rfl) fun _ _ => Iff.rfl

@[simp] theorem returns_setSocket {socket : Option ℕ} {k : Unit → Program J α} :
    Returns Q (.act (.setSocket socket) k) s ↔ Returns Q (k ()) { s with socket } :=
  @returns_do _ _ _ _ (.setSocket socket) k () _ (fun _ => rfl) fun _ _ => Iff.rfl

@[simp] theorem returns_setCloseCode {code : ℤ} {k : Unit → Program J α} :
    Returns Q (.act (.setCloseCode code) k) s ↔ Returns Q (k ()) { s with closeCode := code } :=
  @returns_do _ _ _ _ (.setCloseCode code) k () _ (fun _ => rfl) fun _ _ => Iff.rfl

@[simp] theorem returns_closeTcpSocket {fd : ℕ} {k : Unit → Program J α} :
    Returns Q (.act (.closeTcpSocket fd) k) s ↔ Returns Q (k ()) s :=
  @returns_do _ _ _ _ (.closeTcpSocket fd) k () _ (fun _ => rfl) fun _ _ => Iff.rfl

@[simp] theorem returns_clearOut {k : Unit → Program J α} :
    Returns Q (.act .clearOut k) s ↔ Returns Q (k ()) { s with out := [] } :=
  @returns_do _ _ _ _ (.clearOut) k () _ (fun _ => rfl) fun _ _ => Iff.rfl

@[simp] theorem returns_appendOut {data : Bytes} {k : Unit → Program J α} :
    Returns Q (.act (.appendOut data) k) s ↔ Returns Q (k ()) { s with out := s.out ++ data } :=
  @returns_do _ _ _ _ (.appendOut data) k () _ (fun _ => rfl) fun _ _ => Iff.rfl

@[simp] theorem returns_onmessage {message : J} {k : Unit → Program J α} :
    Returns Q (.act (.onmessage message) k) s ↔
      Returns Q (k ()) { s with delivered := s.delivered ++ [message] } :=
  @returns_do _ _ _ _ (.onmessage message) k () _ (fun _ => rfl) fun _ _ => Iff.rfl

@[simp] theorem returns_onpong {data : Bytes} {k : Unit → Program J α} :
    Returns Q (.act (.onpong data) k) s ↔ Returns Q (k ()) s := @returns_do _ _ _ _ (.onpong data) k () _ (fun _ => rfl) fun _ _ => Iff.rfl

@[simp] theorem returns_onclose {k : Unit → Program J α} :
    Returns Q (.act .onclose k) s ↔ Returns Q (k ()) { s with closes := s.closes + 1 } :=
  @returns_do _ _ _ _ (.onclose) k () _ (fun _ => rfl) fun _ _ => Iff.rfl

theorem returns_appQuit {k : Bool → Program J α}
    (h : ∀ quit : Bool, (quit = true → s.mayQuit = true) → Returns Q (k quit) s) :
    Returns Q (.act .appQuit k) s := by
  refine ⟨trivial, fun quit t ht => ?_⟩
  obtain ⟨hquit, rfl⟩ := ht
  exact h quit hquit

theorem returns_threadQuit {k : Bool → Program J α}
    (h : ∀ quit : Bool, (quit = true → s.mayQuit = true) → Returns Q (k quit) s) :
    Returns Q (.act .threadQuit k) s := by
  refine ⟨trivial, fun quit t ht => ?_⟩
  obtain ⟨hquit, rfl⟩ := ht
  exact h quit hquit

theorem returns_waitData {k : ℤ → Program J α} (hdata : Returns Q (k 1) s)
    (hnone : ∀ wait patience, wait ≠ 1 → s.patience = patience + 1 →
      Returns Q (k wait) { s with patience }) : Returns Q (.act .waitData k) s := by
  refine ⟨trivial, fun wait t ht => ?_⟩
  rcases ht with ⟨rfl, rfl⟩ | ⟨hwait, patience, hpatience, rfl⟩
  · exact hdata
  · exact hnone wait patience hwait hpatience

theorem returns_overdue {k : Bool → Program J α} (h : ∀ overdue, Returns Q (k overdue) s) :
    Returns Q (.act .overdue k) s := by
  refine ⟨trivial, fun overdue t ht => ?_⟩
  obtain rfl := ht
  exact h overdue

end Act

/-! ## Sending -/

/-- What was taken by `send` for frames with this opcode. -/
def wireOf (opcode : ℕ) (wire : List (ℕ × Bytes)) : Bytes :=
  (wire.filter fun c => c.1 = opcode).flatMap (·.2)

theorem wireOf_append (opcode : ℕ) (w v : List (ℕ × Bytes)) :
    wireOf opcode (w ++ v) = wireOf opcode w ++ wireOf opcode v := by
  rw [wireOf, List.filter_append, List.flatMap_append]
  rfl

structure Pieces (opcode : ℕ) (w : List (ℕ × Bytes)) (bytes : Bytes) : Prop where
  tag : ∀ c ∈ w, c.1 = opcode
  all : w.flatMap (·.2) = bytes

theorem Pieces.wireOf_self {opcode : ℕ} {w : List (ℕ × Bytes)} {bytes : Bytes}
    (h : Pieces opcode w bytes) : wireOf opcode w = bytes := by
  rw [wireOf, List.filter_eq_self.2 (by simpa using h.tag), h.all]

theorem Pieces.wireOf_ne {opcode other : ℕ} {w : List (ℕ × Bytes)} {bytes : Bytes}
    (h : Pieces opcode w bytes) (hne : other ≠ opcode) : wireOf other w = [] := by
  rw [wireOf, List.filter_eq_nil_iff.2, List.flatMap_nil]
  intro c hc
  rw [h.tag c hc]
  simpa using hne.symm

theorem Pieces.cons {opcode : ℕ} {w : List (ℕ × Bytes)} {bytes : Bytes} (h : Pieces opcode w bytes)
    (piece : Bytes) : Pieces opcode ((opcode, piece) :: w) (piece ++ bytes) where
  tag := by
    simp only [List.mem_cons, forall_eq_or_imp, true_and]
    exact h.tag
  all := by rw [List.flatMap_cons, h.all]

inductive Sends (isClient : Bool) (opcode : ℕ) (payload : Bytes) (s : Session J) :
    ℤ → Session J → Prop
  | sent (mask : Mask) (out : Bytes) (w : List (ℕ × Bytes))
      (hw : Pieces opcode w (frameMake opcode isClient mask payload)) :
      Sends isClient opcode payload s 0 { s with out, wire := s.wire ++ w }
  | failed (mask : Mask) (out : Bytes) (w : List (ℕ × Bytes)) (bytes : Bytes)
      (hw : Pieces opcode w bytes) (hpart : bytes <+: frameMake opcode isClient mask payload)
      (hless : bytes.length < (frameMake opcode isClient mask payload).length) :
      Sends isClient opcode payload s (-1)
        { s with out, wire := s.wire ++ w, failed := s.failed ++ [opcode] }

section Send
variable {isClient : Bool} {s : Session J}

theorem returns_sendLoop {Q : ℤ → Session J → Prop} {opcode : ℕ} {data : Bytes}
    (hdone : ∀ w, Pieces opcode w data → Q 0 { s with wire := s.wire ++ w })
    (hfail : ∀ w bytes, Pieces opcode w bytes → bytes <+: data → bytes.length < data.length →
      Q (-1) { s with wire := s.wire ++ w, failed := s.failed ++ [opcode] }) (fd : ℕ) :
    Returns Q (sendLoop fd opcode data) s := by
  fun_induction sendLoop fd opcode data generalizing s with
  | case1 => simpa using hdone [] ⟨by simp, rfl⟩
  | case2 data hdata ih =>
    refine ⟨trivial, fun (ret : ℤ) t ht => ?_⟩
    have hpos : 0 < data.length := List.length_pos_iff.2 hdata
    change (0 < ret ∨ data = []) ∧ ret ≤ data.length ∧ _ ∨ ret ≤ 0 ∧ _ at ht
    rcases ht with ⟨hret, hle, rfl⟩ | ⟨hret, rfl⟩
    · have hret := hret.resolve_right hdata
      have hsplit : data.take ret.toNat ++ data.drop ret.toNat = data := List.take_append_drop ..
      dsimp only
      rw [if_neg (by omega), if_neg (by omega)]
      apply ih ret (by omega) (by omega)
      · intro w hw
        have h := hdone _ (hsplit ▸ hw.cons (data.take ret.toNat))
        simpa using h
      · intro w bytes hw hpart hless
        have hlen : (data.take ret.toNat ++ bytes).length < data.length := by
          rw [List.length_drop] at hless
          rw [List.length_append, List.length_take]
          omega
        have hcut := (List.prefix_append_right_inj (data.take ret.toNat)).2 hpart
        rw [hsplit] at hcut
        have h := hfail _ _ (hw.cons (data.take ret.toNat)) hcut hlen
        simpa using h
    · have h := hfail [] [] ⟨by simp, rfl⟩ (List.nil_prefix) hpos
      rw [List.append_nil] at h
      dsimp only
      split_ifs
      · exact h
      · exact h
      · omega

theorem returns_makeMask {Q : Mask → Session J → Prop} (h : ∀ mask, Q mask s) (masked : Bool) :
    Returns Q (makeMask masked) s := by
  cases masked with
  | false => exact h _
  | true =>
    refine ⟨trivial, fun mask t ht => ?_⟩
    obtain rfl := ht
    exact h mask

theorem returns_sendFrame {Q : ℤ → Session J → Prop} {fd opcode : ℕ} {payload : Bytes}
    (hsocket : s.socket = some fd) (h : ∀ err t, Sends isClient opcode payload s err t → Q err t) :
    Returns Q (sendFrame isClient opcode payload) s := by
  simp only [sendFrame, doing, perform_bind, returns_lock, returns_clearOut]
  apply wp_bind.2
  apply returns_makeMask
  intro mask
  simp only [returns_appendOut, returns_lock, returns_socket, returns_out, hsocket,
    List.nil_append, tcpSocketSend]
  apply wp_bind.2
  apply returns_sendLoop
  · intro w hw
    simp only [returns_unlock]
    have hsent := Sends.sent (s := s) mask (frameMake opcode isClient mask payload) w hw
    rw [hsocket] at hsent
    exact h _ _ hsent
  · intro w bytes hw hpart hless
    simp only [returns_unlock]
    have hfailed := Sends.failed (s := s) mask (frameMake opcode isClient mask payload) w bytes hw
      hpart hless
    rw [hsocket] at hfailed
    exact h _ _ hfailed

end Send

/-! ## Hearing the other side -/

namespace Session.Hears
variable {s : Session J} {isClient : Bool} {f : Frame} {fs : List Frame}

theorem of_reader {t : Session J} (h : s.Hears isClient fs) (ht : t.reader = s.reader) :
    t.Hears isClient fs :=
  ⟨by rw [ht, h.role], by rw [ht]; exact h.arrives, h.keys⟩

theorem read (h : s.Hears isClient (f :: fs)) (hsize : f.payload.length ≤ 16777216) :
    messagelinkReadMessage s.reader ⟨0, 0, 0, 0⟩ = (0, wsFrame f, { s.reader with
      input := f.payload, socket := s.reader.socket.skip f.bytes.length }) := by
  have harrived := h.arrives.arrived
  rw [stream_cons] at harrived
  apply messagelinkReadMessage_frame f harrived hsize
  intro hclient
  exact h.keys f (by simp) (h.role ▸ hclient)

theorem message_eq (h : s.Hears isClient (f :: fs)) (hsize : f.payload.length ≤ 16777216) :
    s.message = ⟨0, wsFrame f, f.payload⟩ := by
  rw [Session.message, h.read hsize]

theorem next (h : s.Hears isClient (f :: fs)) (hsize : f.payload.length ≤ 16777216) :
    Session.Hears { s with reader := readOn s.reader } isClient fs := by
  have hread : readOn s.reader = { s.reader with
      input := f.payload, socket := s.reader.socket.skip f.bytes.length } := by
    rw [readOn, h.read hsize]
  have hkeys := h.keys
  simp only [List.mem_cons, forall_eq_or_imp] at hkeys
  exact ⟨by rw [hread]; exact h.role, by rw [hread]; exact h.arrives.next, hkeys.2⟩

theorem err_oversized (h : s.Hears isClient (f :: fs)) (hsize : 16777216 < f.payload.length) :
    s.message.err = -2 := by
  have harrived := h.arrives.arrived
  rw [stream_cons] at harrived
  rw [Session.message, messagelinkReadMessage_oversized f harrived hsize]

theorem err_end (h : s.Hears isClient []) : s.message.err = -1 := by
  rw [Session.message, messagelinkReadMessage_end h.arrives]

end Session.Hears

/-! ## Closing -/

/-- What `owner_messagelink_wait_close` reads until a close message or an error, unless the time
runs out before. It only gives up without data if `select` times out. -/
inductive Waited (patience : ℕ) : Reader → Reader → Prop
  | stop (r : Reader) (hp : 0 < patience) : Waited patience r r
  | last (r : Reader) : Waited patience r (readOn r)
  | more {r r' : Reader} (hclose : (messagelinkReadMessage r ⟨0, 0, 0, 0⟩).2.1.opcode ≠ 8)
      (h : Waited patience (readOn r) r') : Waited patience r r'

/-- The close message of the owner of the link, and what is read after it. -/
inductive OwnerCloses (isClient : Bool) (code : ℤ) (s : Session J) : Session J → Prop
  | unsent {t : Session J}
      (h : Sends isClient 8 (closeData code) { s with closeCode := code } (-1) t) :
      OwnerCloses isClient code s t.shut
  | waited {t : Session J} (reader : Reader) (patience : ℕ)
      (h : Sends isClient 8 (closeData code) { s with closeCode := code } 0 t)
      (hwaited : Waited t.patience t.reader reader) :
      OwnerCloses isClient code s { t.shut with reader, patience }

theorem Waited.mono {p q : ℕ} {r r' : Reader} (h : Waited p r r') (hpq : p ≤ q) :
    Waited q r r' := by
  induction h with
  | stop r hp => exact .stop r (by omega)
  | last r => exact .last r
  | more hclose h ih => exact .more hclose ih

section Close
variable {isClient : Bool} {s : Session J} {fd : ℕ}

theorem returns_closeSocket {Q : Unit → Session J → Prop} (hsocket : s.socket = some fd)
    (h : Q () s.shut) : Returns Q messagelinkCloseSocket s := by
  simp only [messagelinkCloseSocket, doing, perform_bind, returns_socket, hsocket,
    returns_closeTcpSocket, returns_setSocket]
  exact returns_setState.2 h

theorem returns_waitClose {Q : ℤ → Session J → Prop} {n : ℕ} {fs : List Frame}
    (hears : s.Hears isClient fs) (hn : fs.length + s.patience < n)
    (h : ∀ err reader patience, Waited s.patience s.reader reader →
      Q err { s with reader, patience }) :
    Returns Q (ownerMessagelinkWaitClose n) s := by
  induction n generalizing s fs with
  | zero => omega
  | succ n ih =>
    simp only [ownerMessagelinkWaitClose, waitRound, doing, perform_bind, Prog.act_bind]
    apply returns_waitData
    · rw [if_pos rfl]
      simp only [Prog.act_bind, returns_readMessage]
      cases fs with
      | nil =>
        rw [if_pos (by rw [hears.err_end]; decide)]
        exact h _ _ _ (.last _)
      | cons f fs =>
        by_cases hsize : f.payload.length ≤ 16777216
        · have hmessage := hears.message_eq hsize
          rw [hmessage, if_neg (by simp)]
          by_cases hop : (wsFrame f).opcode = 8
          · rw [if_pos hop]
            exact h _ _ _ (.last _)
          · have hclose : (messagelinkReadMessage s.reader ⟨0, 0, 0, 0⟩).2.1.opcode ≠ 8 := by
              rwa [hears.read hsize]
            rw [if_neg hop]
            apply returns_overdue
            intro overdue
            cases overdue with
            | true => exact h _ _ _ (.last _)
            | false =>
              apply ih (hears.next hsize)
              · rw [List.length_cons] at hn
                dsimp only
                omega
              · intro err reader patience hwaited
                exact h err reader patience (.more hclose hwaited)
        · rw [if_pos (by rw [hears.err_oversized (by omega)]; decide)]
          exact h _ _ _ (.last _)
    · intro wait patience hwait hpatience
      rw [if_neg hwait]
      apply returns_overdue
      intro overdue
      cases overdue with
      | true => exact h _ _ _ (.stop _ (by omega))
      | false =>
        have hears' : Session.Hears { s with patience } isClient fs := hears.of_reader rfl
        apply ih hears'
        · dsimp only
          omega
        · intro err reader patience hwaited
          exact h err reader patience (hwaited.mono (by dsimp only; omega))

theorem Sends.same {opcode : ℕ} {payload : Bytes} {err : ℤ} {t : Session J}
    (h : Sends isClient opcode payload s err t) :
    t = { s with out := t.out, wire := t.wire, failed := t.failed } := by
  cases h <;> rfl

theorem Sends.err_eq {opcode : ℕ} {payload : Bytes} {err : ℤ} {t : Session J}
    (h : Sends isClient opcode payload s err t) : err = 0 ∨ err = -1 := by
  cases h with
  | sent => exact .inl rfl
  | failed => exact .inr rfl

def Waits (n : ℕ) (s : Session J) : Prop := ∀ Q : ℤ → Session J → Prop,
  (∀ err reader patience, Waited s.patience s.reader reader → Q err { s with reader, patience }) →
    Returns Q (ownerMessagelinkWaitClose n) s

theorem returns_ownerClose_of_waits {Q : Unit → Session J → Prop} {n : ℕ} {code : ℤ}
    (hopen : s.state = .open) (hsocket : s.socket = some fd)
    (hwaits : ∀ t : Session J, t.reader = s.reader → t.patience = s.patience → Waits n t)
    (h : ∀ t, OwnerCloses isClient code s t → Q () t) :
    Returns Q (ownerMessagelinkClose isClient n code) s := by
  simp only [ownerMessagelinkClose, doing, perform_bind, returns_state, hopen]
  rw [if_neg (by decide)]
  simp only [ownerMessagelinkSendClose, doing, perform_bind, Prog.act_bind, returns_setCloseCode]
  apply wp_bind.2
  refine returns_sendFrame hsocket fun err t hsends => ?_
  have hsocket' : t.socket = some fd := by rw [hsends.same, hsocket]
  rcases hsends.err_eq with rfl | rfl
  · rw [if_neg (by decide)]
    apply wp_bind.2
    apply hwaits t (by rw [hsends.same]) (by rw [hsends.same])
    intro err reader patience hwaited
    have hwaiting : Session.socket { t with reader, patience } = some fd := hsocket'
    exact returns_closeSocket hwaiting (h _ (.waited reader patience hsends hwaited))
  · rw [if_pos (by decide)]
    apply returns_closeSocket hsocket'
    exact h _ (.unsent hsends)

theorem returns_ownerClose {Q : Unit → Session J → Prop} {n : ℕ} {fs : List Frame} {code : ℤ}
    (hopen : s.state = .open) (hsocket : s.socket = some fd) (hears : s.Hears isClient fs)
    (hn : fs.length + s.patience < n) (h : ∀ t, OwnerCloses isClient code s t → Q () t) :
    Returns Q (ownerMessagelinkClose isClient n code) s := by
  refine returns_ownerClose_of_waits hopen hsocket (fun t hreader hpatience Q' hQ => ?_) h
  exact returns_waitClose (hears.of_reader hreader) (by rw [hpatience]; exact hn) hQ

inductive ClosesOneway (isClient : Bool) (code : ℤ) (s : Session J) : Session J → Prop
  | closed {err : ℤ} {t : Session J}
      (h : Sends isClient 8 (closeData code) { s with state := .closed } err t) :
      ClosesOneway isClient code s t.shut

theorem returns_ownerCloseOneway {Q : Unit → Session J → Prop} {code : ℤ}
    (hsocket : s.socket = some fd) (h : ∀ t, ClosesOneway isClient code s t → Q () t) :
    Returns Q (ownerMessagelinkCloseOneway isClient code) s := by
  simp only [ownerMessagelinkCloseOneway, doing, perform_bind, returns_setState]
  apply wp_bind.2
  refine returns_sendFrame hsocket fun err t hsends => ?_
  apply returns_closeSocket
  · rw [hsends.same, hsocket]
  · exact h _ (.closed hsends)

inductive RemoteCloses (isClient : Bool) (input : Bytes) (s : Session J) : Session J → Prop
  | closed {err : ℤ} {t : Session J}
      (h : Sends isClient 8 (closeData (remoteMessagelinkCloseCode input))
        { s with closeCode := remoteMessagelinkCloseCode input } err t) :
      RemoteCloses isClient input s { t.shut with closes := t.closes + 1 }

theorem returns_remoteClose {Q : ℤ → Session J → Prop} {input : Bytes} (hopen : s.state = .open)
    (hsocket : s.socket = some fd) (h : ∀ t, RemoteCloses isClient input s t → Q 0 t) :
    Returns Q (remoteMessagelinkClose isClient input) s := by
  simp only [remoteMessagelinkClose, doing, perform_bind, returns_state]
  rw [if_pos hopen]
  simp only [replyClose, doing, perform_bind, Prog.act_bind, returns_setCloseCode,
    returns_closeCode]
  apply wp_bind.2
  refine returns_sendFrame hsocket fun err t hsends => ?_
  simp only [returns_setState]
  apply wp_bind.2
  apply returns_closeSocket
  · show t.socket = some fd
    rw [hsends.same, hsocket]
  · simp only [returns_onclose]
    have hcloses := RemoteCloses.closed hsends
    exact h _ hcloses

end Close

end Rcom.Messagelink
