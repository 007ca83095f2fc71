import Rcom.ReadErrors
import Rcom.Reading

/-!
# Why a reading thread closes the connection (messagelink.c)

A call of `_messagelink_read` on any bytes, timeouts, errors and shutdowns: the messages that it
takes, and the close code with which it gives the connection up.
-/

namespace Rcom
open Rcom.Lib

/-! ## What is left to be read -/

section Keeps
variable {I : Socket → Prop} (hrecv : ∀ s len, I s → I (tcpSocketRecv s len).2.2)
include hrecv

theorem tcpSocketRead_keeps {socket : Socket} {len : ℕ} {received : Bytes} (h : I socket) :
    I (tcpSocketRead socket len received).2.2 := by
  fun_induction tcpSocketRead socket len received with
  | case1 socket received hlt r htimeout ih => exact ih (hrecv _ _ h)
  | case2 socket received hlt r => exact hrecv _ _ h
  | case3 socket received hlt r => exact hrecv _ _ h
  | case4 socket received hlt r htimeout hneg hzero ih => exact ih (hrecv _ _ h)
  | case5 => exact h

theorem readLength_keeps {length : UInt8} {socket : Socket} (h : I socket) :
    I (readLength length socket).2 := by
  rw [readLength]
  dsimp only
  split_ifs <;> first | exact h | exact tcpSocketRead_keeps hrecv h

theorem readMask_keeps {masked : UInt8} {socket : Socket} (h : I socket) : I (readMask masked socket).2 := by
  rw [readMask]
  dsimp only
  split_ifs <;> first | exact h | exact tcpSocketRead_keeps hrecv h

theorem readPayload_keeps {mask : Mask} {length : ℕ} {j : Fin 4} {numRead : ℕ} {link : Reader}
    (h : I link.socket) : I (readPayload mask length j numRead link).2.socket := by
  fun_induction readPayload mask length j numRead link with
  | case1 => exact hrecv _ _ h
  | case2 => exact hrecv _ _ h
  | case3 j numRead link hlt numToRead r received hneg hzero hclient ih => exact ih (hrecv _ _ h)
  | case4 j numRead link hlt numToRead r received hneg hzero hclient block ih => exact ih (hrecv _ _ h)
  | case5 => exact h

/-- What every receive keeps is kept from the first two bytes of a message on. -/
theorem messagelinkReadMessage_keeps {link : Reader} {frame : WsFrame}
    (h : I (tcpSocketRead link.socket 2).2.2) : I (messagelinkReadMessage link frame).2.2.socket := by
  rw [messagelinkReadMessage, messagelinkReadFrame]
  by_cases hframe : (tcpSocketRead link.socket 2).1 = 2
  · rw [if_neg (not_not.2 hframe)]
    dsimp only
    rw [if_neg (by decide)]
    have hlength := @readLength_keeps I hrecv ((tcpSocketRead link.socket 2).2.1.getD 1 0 &&& 127) _ h
    split
    · rename_i socket heq
      rw [heq] at hlength
      exact hlength
    · rename_i length socket heq
      rw [heq] at hlength
      have hmask := @readMask_keeps I hrecv (((tcpSocketRead link.socket 2).2.1.getD 1 0 &&& 128) >>> 7) _ hlength
      split
      · rename_i socket' heq'
        rw [heq'] at hmask
        exact hmask
      · rename_i mask socket' heq'
        rw [heq'] at hmask
        split_ifs
        · exact hmask
        · exact readPayload_keeps hrecv hmask
  · rw [if_pos hframe]
    dsimp only
    rw [if_pos (by decide)]
    exact h

end Keeps

theorem tcpSocketRecv_weight_le (socket : Socket) (len : ℕ) :
    (tcpSocketRecv socket len).2.2.weight ≤ socket.weight := by
  cases socket with
  | nil => exact le_rfl
  | cons a s =>
    cases a with
    | timeout | error => simp only [tcpSocketRecv, Socket.weight]; omega
    | bytes b bs =>
      have hpush := Socket.weight_push_le ((b :: bs).drop len) s
      rw [List.length_drop, List.length_cons] at hpush
      simp only [tcpSocketRecv, Socket.weight]
      omega

theorem messagelinkReadMessage_weight {link : Reader} {frame : WsFrame}
    (h : (messagelinkReadMessage link frame).1 = 0) :
    (messagelinkReadMessage link frame).2.2.socket.weight < link.socket.weight := by
  have hkeeps (w : ℕ) : ∀ (s : Socket) (len : ℕ), s.weight ≤ w → (tcpSocketRecv s len).2.2.weight ≤ w :=
    fun s len hs => (tcpSocketRecv_weight_le s len).trans hs
  have hframe : (tcpSocketRead link.socket 2).1 = 2 := by
    by_contra hframe
    rw [messagelinkReadMessage, messagelinkReadFrame, if_pos hframe] at h
    dsimp only at h
    rw [if_pos (by decide)] at h
    cases h
  have hfirst : (tcpSocketRead link.socket 2).2.2.weight < link.socket.weight := by
    have hlt : ([] : Bytes).length < 2 := by decide
    rw [tcpSocketRead, if_pos hlt] at hframe ⊢
    rw [List.length_nil, Nat.sub_zero] at hframe ⊢
    dsimp only at hframe ⊢
    by_cases hzero : (tcpSocketRecv link.socket 2).1 = 0
    · rw [hzero, if_neg (by decide), if_neg (by decide), if_pos rfl] at hframe
      cases hframe
    · have hrecv := tcpSocketRecv_weight (by decide) hzero
      split_ifs
      · exact (tcpSocketRead_keeps (hkeeps _) le_rfl).trans_lt hrecv
      · exact hrecv
      · exact (tcpSocketRead_keeps (hkeeps _) le_rfl).trans_lt hrecv
  exact (messagelinkReadMessage_keeps (hkeeps _) le_rfl).trans_lt hfirst

theorem mem_of_blocked {socket : Socket} {a : Arrival} (h : socket.blocked = some a) : a ∈ socket := by
  fun_induction Socket.blocked socket with
  | case1 b bs s ih => exact List.mem_cons_of_mem _ (ih h)
  | case2 a s hbytes =>
    obtain rfl := Option.some.inj h
    exact List.mem_cons_self
  | case3 => cases h

theorem notMem_push {bs : Bytes} {s : Socket} (h : Arrival.timeout ∉ s) : Arrival.timeout ∉ Socket.push bs s := by
  cases bs with
  | nil => exact h
  | cons b bs => simpa [Socket.push] using h

theorem timeout_of_after {socket : Socket} {n : ℕ} (h : Arrival.timeout ∉ socket) :
    Arrival.timeout ∉ socket.after n := by
  fun_induction Socket.after socket n with
  | case1 n => exact h
  | case2 a s => exact h
  | case3 s n ih => exact absurd List.mem_cons_self h
  | case4 s n => exact h
  | case5 b bs s n hn => exact notMem_push (List.not_mem_of_not_mem_cons h)
  | case6 b bs s n hn ih => exact ih (List.not_mem_of_not_mem_cons h)

theorem timeout_of_recv {socket : Socket} {len : ℕ} (h : Arrival.timeout ∉ socket) :
    Arrival.timeout ∉ (tcpSocketRecv socket len).2.2 := by
  cases socket with
  | nil => exact h
  | cons a s =>
    have hs : Arrival.timeout ∉ s := List.not_mem_of_not_mem_cons h
    cases a with
    | timeout | error => exact hs
    | bytes b bs => exact notMem_push hs

theorem messagelinkReadMessage_err_mem (link : Reader) (frame : WsFrame) :
    (messagelinkReadMessage link frame).1 = 0 ∨ (messagelinkReadMessage link frame).1 = -1 ∨
      (messagelinkReadMessage link frame).1 = -2 := by
  by_cases hheader : ∃ h : Rfc6455.Header, h.bytes <+: link.socket.delivered
  · obtain ⟨h, hpre⟩ := hheader
    rw [messagelinkReadMessage_err hpre]
    split_ifs <;> simp
  · exact .inr (.inl (messagelinkReadMessage_incomplete hheader frame))

end Rcom

namespace Rcom.Messagelink
open Rcom.Lib Rcom.Lib.Program
open Rcom.ClientLink (LinkState)

variable {J : Type} {isClient : Bool} {s : Session J} {fd n : ℕ}

theorem weight_readOn {r : Reader} (h : (messagelinkReadMessage r ⟨0, 0, 0, 0⟩).1 = 0) :
    (readOn r).socket.weight < r.socket.weight := messagelinkReadMessage_weight h

theorem waits_of_weight (hn : s.reader.socket.weight + s.patience < n) : Waits n s := by
  intro Q h
  induction n generalizing s with
  | zero => omega
  | succ n ih =>
    simp only [ownerMessagelinkWaitClose, waitRound, doing, perform_bind, Prog.act_bind]
    apply returns_waitData
    · rw [if_pos rfl]
      simp only [Prog.act_bind, returns_readMessage]
      have herr : s.message.err = (messagelinkReadMessage s.reader ⟨0, 0, 0, 0⟩).1 := rfl
      obtain hzero | hneg := messagelinkReadMessage_err_mem s.reader ⟨0, 0, 0, 0⟩
      · have hlt := weight_readOn hzero
        rw [if_neg (by rw [herr, hzero]; decide)]
        by_cases hop : s.message.frame.opcode = 8
        · rw [if_pos hop]
          exact h _ _ _ (.last _)
        · rw [if_neg hop]
          apply returns_overdue
          intro overdue
          cases overdue with
          | true => exact h _ _ _ (.last _)
          | false =>
            have hrest : (readOn s.reader).socket.weight + s.patience < n := by omega
            refine ih hrest fun err reader patience hwaited => ?_
            exact h err reader patience (.more hop hwaited)
      · rw [if_pos (by omega)]
        exact h _ _ _ (.last _)
    · intro wait patience hwait hpatience
      rw [if_neg hwait]
      apply returns_overdue
      intro overdue
      cases overdue with
      | true => exact h _ _ _ (.stop _ (by omega))
      | false =>
        refine ih (by dsimp only; omega) fun err reader patience hwaited => ?_
        exact h err reader patience (hwaited.mono (by dsimp only; omega))

/-! ## The calls -/

/-- No payload that the reader comes to is interrupted by a timeout. -/
def NeverLate (r : Reader) : Prop := ∀ k, ¬ (readOn^[k] r).socket.Late

def Unreadable (socket : Socket) : Prop := ¬ socket.Whole ∧ ¬ socket.Oversized

inductive Goes (isClient : Bool) : Session J → Session J → Prop
  | refl (s : Session J) : Goes isClient s s
  | pong {s t u : Session J} {err : ℤ} (p : ℕ) (hp : p ≤ s.patience) (hwhole : s.reader.socket.Whole)
      (hop : s.message.frame.opcode = 9) (h : Sends isClient 10 s.message.input (s.took p) err u)
      (hrest : Goes isClient u t) : Goes isClient s t
  | other {s t : Session J} (p : ℕ) (hp : p ≤ s.patience) (hwhole : s.reader.socket.Whole)
      (hop : s.message.frame.opcode ≠ 1 ∧ s.message.frame.opcode ≠ 9) (hrest : Goes isClient (s.took p) t) :
      Goes isClient s t

/-- The end of a call with the message that it reads last, and the code with which the connection is
given up for that message. -/
inductive Concludes (L : JsonLib J) (isClient : Bool) (s : Session J) :
    Option ℤ → Option J → Session J → Prop
  | oneway {t : Session J} (code : ℤ) (p : ℕ) (hp : p ≤ s.patience)
      (h : ClosesOneway isClient code (s.took p) t) : Concludes L isClient s (some code) none t
  | refused {t : Session J} (code : ℤ) (p : ℕ) (hp : p ≤ s.patience) (hcode : code = 1002 ∨ code = 1003)
      (h : OwnerCloses isClient code (s.took p) t) : Concludes L isClient s none none t
  | answered {t : Session J} (p : ℕ) (hp : p ≤ s.patience) (hop : s.message.frame.opcode = 8)
      (h : RemoteCloses isClient s.message.input (s.took p) t) : Concludes L isClient s none none t
  | text (p : ℕ) (hp : p ≤ s.patience) (hop : s.message.frame.opcode = 1) :
      Concludes L isClient s none (parseText L s.message.input) (s.took p)

/-- The connection is given up with code 1009 for a message that is too big, with code 1011 for one
that cannot be read, and for no other. -/
inductive CallEnds (L : JsonLib J) (isClient : Bool) (s : Session J) (r : Option J) (t : Session J) : Prop
  | quits (u : Session J) (p : ℕ) (hgoes : Goes isClient s u) (hp : p ≤ u.patience)
      (hquit : u.mayQuit = true) (hr : r = none) (ht : t = { u with patience := p })
  | reads (u : Session J) (code : Option ℤ) (hgoes : Goes isClient s u) (hconcludes : Concludes L isClient u code r t)
      (hbig : code = some 1009 ↔ u.reader.socket.Oversized)
      (hbroken : code = some 1011 ↔ Unreadable u.reader.socket)

section Calls
variable {L : JsonLib J} {t u : Session J} {r : Option J}

theorem NeverLate.next {reader : Reader} (h : NeverLate reader) : NeverLate (readOn reader) := by
  intro k
  rw [← Function.iterate_succ_apply]
  exact h (k + 1)

theorem CallEnds.pong {err : ℤ} {p : ℕ} (hrest : CallEnds L isClient u r t) (hp : p ≤ s.patience)
    (hwhole : s.reader.socket.Whole) (hop : s.message.frame.opcode = 9)
    (h : Sends isClient 10 s.message.input (s.took p) err u) : CallEnds L isClient s r t := by
  cases hrest with
  | quits v q hgoes hq hquit hr ht => exact .quits v q (.pong p hp hwhole hop h hgoes) hq hquit hr ht
  | reads v code hgoes hconcludes hbig hbroken =>
    exact .reads v code (.pong p hp hwhole hop h hgoes) hconcludes hbig hbroken

theorem CallEnds.other {p : ℕ} (hrest : CallEnds L isClient (s.took p) r t) (hp : p ≤ s.patience)
    (hwhole : s.reader.socket.Whole) (hop : s.message.frame.opcode ≠ 1 ∧ s.message.frame.opcode ≠ 9) :
    CallEnds L isClient s r t := by
  cases hrest with
  | quits v q hgoes hq hquit hr ht => exact .quits v q (.other p hp hwhole hop hgoes) hq hquit hr ht
  | reads v code hgoes hconcludes hbig hbroken =>
    exact .reads v code (.other p hp hwhole hop hgoes) hconcludes hbig hbroken

/-- A message that was read whole gives no reason for either code. -/
theorem Concludes.callEnds (h : Concludes L isClient s none r t) (hwhole : s.reader.socket.Whole) :
    CallEnds L isClient s r t := by
  refine .reads s none (.refl s) h (iff_of_false (by simp) ?_) (iff_of_false (by simp) ?_)
  · exact fun hbig => Socket.not_whole_of_oversized hbig hwhole
  · exact fun hbroken => hbroken.1 hwhole

theorem returns_readRound_whole {Q : Option J → Session J → Prop} {p : ℕ} (hopen : s.state = .open)
    (hsocket : s.socket = some fd) (herr : s.message.err = 0)
    (hp : p ≤ s.patience) (hn : (readOn s.reader).socket.weight + p < n) (hnext : 1 ≤ n)
    (hend : ∀ r t, Concludes L isClient s none r t → Q r t)
    (hpong : ∀ err u, s.message.frame.opcode = 9 → Sends isClient 10 s.message.input (s.took p) err u →
      Returns Q (readLoop L isClient n) u)
    (hother : s.message.frame.opcode ≠ 1 ∧ s.message.frame.opcode ≠ 9 →
      Returns Q (readLoop L isClient n) (s.took p)) :
    Returns (fun result t => match result with
      | some message => Q message t
      | none => Returns Q (readLoop L isClient n) t) (readRound L isClient n s.message) (s.took p) := by
  have hopen' : (s.took p).state = .open := hopen
  have hsocket' : (s.took p).socket = some fd := hsocket
  have hwaits : ∀ t : Session J, t.reader = (s.took p).reader → t.patience = (s.took p).patience → Waits n t := by
    intro t hreader hpatience
    apply waits_of_weight
    rw [hreader, hpatience]
    exact hn
  rw [readRound, if_neg (by rw [herr]; decide), if_neg (by rw [herr]; decide), if_neg (by rw [herr]; decide)]
  split_ifs with hbare
  · apply wp_bind.2
    refine returns_ownerClose_of_waits hopen' hsocket' hwaits fun t ht => ?_
    exact hend _ _ (.refused 1002 p hp (.inl rfl) ht)
  rw [handleMessage]
  split_ifs with htext hbinary hclose hcontinuation hping hpongs
  · exact hend _ _ (.text p hp htext)
  · apply wp_bind.2
    refine returns_ownerClose_of_waits hopen' hsocket' hwaits fun t ht => ?_
    exact hend _ _ (.refused 1003 p hp (.inr rfl) ht)
  · apply wp_bind.2
    refine returns_remoteClose hopen' hsocket' fun t ht => ?_
    exact hend _ _ (.answered p hp hclose ht)
  · apply wp_bind.2
    refine returns_ownerClose_of_waits hopen' hsocket' hwaits fun t ht => ?_
    have hclosed : t.state ≠ .open := by
      rw [ht.state]
      decide
    exact returns_readLoop_closed hclosed hnext (hend _ _ (.refused 1003 p hp (.inr rfl) ht))
  · apply wp_bind.2
    exact returns_sendFrame hsocket' fun err u hu => hpong err u hping hu
  · exact returns_onpong.2 (hother ⟨htext, hping⟩)
  · exact hother ⟨htext, hping⟩

theorem returns_readLoop_callEnds {Q : Option J → Session J → Prop} (hopen : s.state = .open)
    (hsocket : s.socket = some fd) (hnever : NeverLate s.reader)
    (hn : s.reader.socket.weight + s.patience + 1 < n) (h : ∀ r t, CallEnds L isClient s r t → Q r t) :
    Returns Q (readLoop L isClient n) s := by
  induction n generalizing s with
  | zero => omega
  | succ n ih =>
    simp only [readLoop, doing, perform_bind, returns_state]
    rw [if_neg (not_not.2 hopen)]
    apply returns_appQuit
    intro quit hmay
    cases quit with
    | true => exact h _ _ (.quits s s.patience (.refl s) le_rfl (hmay rfl) rfl rfl)
    | false =>
      apply wp_bind.2
      apply returns_tryRead hopen (by omega)
      · intro hmay p hp
        exact h _ _ (.quits s p (.refl s) hp hmay rfl rfl)
      intro p hp
      have hsocket' : (s.took p).socket = some fd := hsocket
      apply wp_bind.2
      have herr : s.message.err = (messagelinkReadMessage s.reader ⟨0, 0, 0, 0⟩).1 := rfl
      have hlate : ¬ s.reader.socket.Late := hnever 0
      obtain ⟨hbig, hwhy⟩ | ⟨hzero, hwhole⟩ | ⟨hminus, hwhy⟩ := messagelinkReadMessage_cases hlate ⟨0, 0, 0, 0⟩
      · rw [readRound, if_neg (by rw [herr, hbig]; decide), if_pos (by rw [herr, hbig])]
        apply wp_bind.2
        refine returns_ownerCloseOneway hsocket' fun t ht => ?_
        refine h _ _ (.reads s (some 1009) (.refl s) (.oneway 1009 p hp ht) (iff_of_true rfl hwhy) ?_)
        exact iff_of_false (by decide) fun hbroken => hbroken.2 hwhy
      · have hlt := weight_readOn hzero
        refine wp_mono (returns_readRound_whole hopen hsocket (herr.trans hzero) hp (by omega) (by omega)
          (fun r t hconcludes => h _ _ (hconcludes.callEnds hwhole)) (fun err u hop hu => ?_) (fun hop => ?_)) ?_
        · have hsame := hu.same
          have hreader : u.reader = readOn s.reader := by rw [hsame]; rfl
          have hpatience : u.patience = p := by rw [hsame]; rfl
          refine ih (by rw [hsame]; exact hopen) (by rw [hsame]; exact hsocket) (by rw [hreader]; exact hnever.next)
            (by rw [hreader, hpatience]; omega) fun r t hrest => ?_
          exact h _ _ (hrest.pong hp hwhole hop hu)
        · have hfewer : (readOn s.reader).socket.weight + p + 1 < n := by omega
          refine ih hopen hsocket' hnever.next hfewer fun r t hrest => ?_
          exact h _ _ (hrest.other hp hwhole hop)
        · intro result t ht
          cases result with
          | some message => exact ht
          | none => exact ht
      · rw [readRound, if_pos (by rw [herr, hminus])]
        apply wp_bind.2
        refine returns_ownerCloseOneway hsocket' fun t ht => ?_
        refine h _ _ (.reads s (some 1011) (.refl s) (.oneway 1011 p hp ht) ?_ (iff_of_true rfl ⟨hwhy.2, hwhy.1⟩))
        exact iff_of_false (by decide) hwhy.1

theorem neverLate_of_notMem {reader : Reader} (h : Arrival.timeout ∉ reader.socket) : NeverLate reader := by
  have hrecv : ∀ (s : Socket) (len : ℕ), Arrival.timeout ∉ s → Arrival.timeout ∉ (tcpSocketRecv s len).2.2 :=
    fun _ _ => timeout_of_recv
  intro k
  have hkeeps : Arrival.timeout ∉ (readOn^[k] reader).socket := by
    induction k with
    | zero => exact h
    | succ k ih =>
      rw [Function.iterate_succ_apply']
      exact messagelinkReadMessage_keeps hrecv (tcpSocketRead_keeps hrecv ih)
  rintro ⟨header, -, -, -, hblocked⟩
  exact timeout_of_after hkeeps (mem_of_blocked hblocked)

/-- A timeout in a payload is taken for a message that is too big. -/
theorem returns_readOpen_late {Q : Option J → Session J → Prop} (hopen : s.state = .open)
    (hsocket : s.socket = some fd) (hquit : s.mayQuit = false) (hlate : s.reader.socket.Late)
    (hn : s.patience + 2 < n) (h : ∀ p ≤ s.patience, ∀ t, ClosesOneway isClient 1009 (s.took p) t → Q none t) :
    Returns Q (messagelinkReadOpen L isClient n) s := by
  obtain ⟨n, rfl⟩ := Nat.exists_eq_succ_of_ne_zero (by omega : n ≠ 0)
  obtain ⟨header, hpre, hsize, harrived, hblocked⟩ := hlate
  have herr : s.message.err = -2 := by
    have herr := messagelinkReadMessage_err hpre ⟨0, 0, 0, 0⟩
    rwa [if_neg (by omega), if_neg (by omega), if_pos hblocked] at herr
  have hnever : s.mayQuit ≠ true := by simp [hquit]
  simp only [messagelinkReadOpen, readLoop, doing, perform_bind, returns_state]
  rw [if_neg (not_not.2 hopen), returns_state, if_neg (not_not.2 hopen)]
  apply returns_appQuit
  intro quit hmay
  cases quit with
  | true => exact absurd (hmay rfl) hnever
  | false =>
    apply wp_bind.2
    apply returns_tryRead hopen (by omega)
    · intro hmay
      exact absurd hmay hnever
    intro p hp
    have hsocket' : (s.took p).socket = some fd := hsocket
    apply wp_bind.2
    rw [readRound, if_neg (by rw [herr]; decide), if_pos herr]
    apply wp_bind.2
    exact returns_ownerCloseOneway hsocket' fun t ht => h p hp t ht

theorem returns_readOpen_callEnds (hopen : s.state = .open) (hsocket : s.socket = some fd)
    (hnever : NeverLate s.reader) (hn : s.reader.socket.weight + s.patience + 1 < n) :
    Returns (CallEnds L isClient s) (messagelinkReadOpen L isClient n) s := by
  simp only [messagelinkReadOpen, doing, perform_bind, returns_state]
  rw [if_neg (not_not.2 hopen)]
  exact returns_readLoop_callEnds hopen hsocket hnever hn fun r t h => h

/-- For one message of any bytes and events, and for any call on an open link. -/
theorem read_errors_classified (L : JsonLib J) (isClient : Bool) :
    (∀ link frame, Classified link frame ↔ ¬ link.socket.Late) ∧
      ∀ (s : Session J) (fd n : ℕ), s.state = .open → s.socket = some fd → NeverLate s.reader →
        s.reader.socket.weight + s.patience + 1 < n →
          Returns (CallEnds L isClient s) (messagelinkReadOpen L isClient n) s :=
  ⟨fun _ _ => classified_iff, fun _ _ _ => returns_readOpen_callEnds⟩

end Calls

/-! ### A text, and a payload in two parts -/

abbrev oneText : Session Json.Value := listening true [serverFrame true 1 [49]]

theorem oneText_callEnds :
    Returns (CallEnds valueLib true oneText) (messagelinkReadOpen valueLib true 20) oneText := by
  have hsocket : Arrival.timeout ∉ Socket.push (Rfc6455.stream [serverFrame true 1 [49]]) [] :=
    notMem_push List.not_mem_nil
  have hnever : NeverLate oneText.reader := neverLate_of_notMem hsocket
  exact (read_errors_classified valueLib true).2 oneText 3 20 rfl rfl hnever (by decide)

/-- The header of a text of two bytes and the first of them, and after a timeout the second one. -/
def partedPayload : Reader := ⟨true, [], [.bytes 0x81 [2, 49], .timeout, .bytes 49 []]⟩

theorem partedPayload_late : partedPayload.socket.Late :=
  ⟨⟨0x81, none, 2, [], rfl⟩, by decide, by decide, by decide⟩

/-- The text has two bytes, and the connection is closed with the code for a message that is too
big. -/
theorem partedPayload_misclassified :
    ¬ Classified partedPayload ⟨0, 0, 0, 0⟩ ∧
      Returns (fun _ t => ClosesOneway true 1009 { oneText with reader := readOn partedPayload } t)
        (messagelinkReadOpen valueLib true 3) { oneText with reader := partedPayload } := by
  refine ⟨fun h => classified_iff.1 h partedPayload_late, ?_⟩
  have hreturns := @returns_readOpen_late _ true { oneText with reader := partedPayload } 3 3 valueLib
    (fun _ t => ClosesOneway true 1009 { oneText with reader := readOn partedPayload } t) rfl rfl rfl
    partedPayload_late (by decide)
  refine hreturns fun p hp t ht => ?_
  obtain rfl := Nat.le_zero.1 hp
  exact ht

end Rcom.Messagelink
