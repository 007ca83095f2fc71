import Rcom.FrameReading
import Rcom.Lib.FrameHeader

/-!
# Messages that cannot be read (messagelink.c, net.c)

What `messagelink_read_message` returns for any bytes, timeouts, errors and shutdowns. A timeout
between the bytes of a header is waited out, one between the bytes of a payload is not.
-/

namespace Rcom
open Lib Lib.ByteOrder Lib.Rfc6455

/-! ## Bytes and timeouts -/

namespace Socket

def delivered : Socket → Bytes
  | .bytes b bs :: s => b :: bs ++ delivered s
  | .timeout :: s => delivered s
  | _ => []

/-- The socket after `n` of the delivered bytes have been read, with the timeouts between them. -/
def after : Socket → ℕ → Socket
  | [], _ => []
  | a :: s, 0 => a :: s
  | .timeout :: s, n + 1 => after s (n + 1)
  | .error :: s, _ + 1 => .error :: s
  | .bytes _ bs :: s, n + 1 => if n < bs.length then .push (bs.drop n) s else after s (n - bs.length)

/-- What is in the way after the arrived bytes; `none` is the shutdown. -/
def blocked : Socket → Option Arrival
  | .bytes _ _ :: s => blocked s
  | a :: _ => some a
  | [] => none

@[simp] theorem after_zero (s : Socket) : s.after 0 = s := by
  cases s with
  | nil => rfl
  | cons a s => cases a <;> rfl

theorem delivered_push (bs : Bytes) (s : Socket) : (push bs s).delivered = bs ++ s.delivered := by
  cases bs with
  | nil => rfl
  | cons b bs => rfl

theorem blocked_push (bs : Bytes) (s : Socket) : (push bs s).blocked = s.blocked := by
  cases bs with
  | nil => rfl
  | cons b bs => rfl

theorem delivered_after {s : Socket} {n : ℕ} (h : n ≤ s.delivered.length) :
    (s.after n).delivered = s.delivered.drop n := by
  fun_induction after s n with
  | case1 n => exact List.drop_nil.symm
  | case2 a s => rfl
  | case3 s n ih => exact ih h
  | case4 s n => rfl
  | case5 b bs s n hn =>
    rw [delivered_push, delivered, List.cons_append, List.drop_succ_cons, List.drop_append_of_le_length hn.le]
  | case6 b bs s n hn ih =>
    simp only [delivered, List.length_append, List.length_cons] at h
    rw [ih (by omega), delivered, List.cons_append, List.drop_succ_cons, List.drop_append,
      List.drop_of_length_le (l := bs) (by omega), List.nil_append]

theorem after_push {bs : Bytes} {s : Socket} {n : ℕ} :
    (push bs s).after n = if n < bs.length then push (bs.drop n) s else s.after (n - bs.length) := by
  cases bs with
  | nil => simp [push]
  | cons b bs =>
    cases n with
    | zero => simp [push]
    | succ n =>
      rw [push, after, List.length_cons, List.drop_succ_cons, Nat.add_sub_add_right]
      split_ifs <;> first | rfl | omega

theorem after_add {s : Socket} {m n : ℕ} : s.after (m + n) = (s.after m).after n := by
  fun_induction after s m with
  | case1 m => simp [after]
  | case2 a s => rw [Nat.zero_add]
  | case3 s m ih =>
    rw [← ih, Nat.succ_add]
    rfl
  | case4 s m =>
    rw [Nat.succ_add]
    cases n <;> rfl
  | case5 b bs s m hm =>
    rw [after_push, Nat.succ_add, after, List.length_drop, List.drop_drop]
    by_cases hn : m + n < bs.length
    · rw [if_pos hn, if_pos (by omega)]
    · rw [if_neg hn, if_neg (by omega)]
      congr 1
      omega
  | case6 b bs s m hm ih =>
    rw [← ih, Nat.succ_add, after, if_neg (by omega)]
    congr 1
    omega

theorem arrived_prefix (s : Socket) : s.arrived <+: s.delivered := by
  induction s with
  | nil => exact List.prefix_rfl
  | cons a s ih =>
    cases a with
    | bytes b bs => exact (List.prefix_append_right_inj (b :: bs)).2 ih
    | timeout | error => exact List.nil_prefix

theorem blocked_skip {s : Socket} {n : ℕ} (h : n ≤ s.arrived.length) : (s.skip n).blocked = s.blocked := by
  induction s generalizing n with
  | nil => rfl
  | cons a s ih =>
    cases a with
    | timeout | error => rfl
    | bytes b bs =>
      simp only [arrived, List.length_append, List.length_cons] at h
      rw [skip]
      split_ifs with hn
      · rw [blocked_push]
        rfl
      · exact ih (by omega)

end Socket

theorem tcpSocketRead_bytes {b : UInt8} {bs received : Bytes} {s : Socket} {len : ℕ}
    (hlt : received.length < len) :
    tcpSocketRead (.bytes b bs :: s) len received =
      tcpSocketRead (Socket.push ((b :: bs).drop (len - received.length)) s) len
        (received ++ (b :: bs).take (len - received.length)) := by
  have hpos : (0 : ℤ) < ((b :: bs).take (len - received.length)).length := by
    rw [List.length_take, List.length_cons]
    omega
  have hrecv : tcpSocketRecv (.bytes b bs :: s) (len - received.length) =
      ((((b :: bs).take (len - received.length)).length : ℤ), (b :: bs).take (len - received.length),
        Socket.push ((b :: bs).drop (len - received.length)) s) := rfl
  rw [tcpSocketRead, if_pos hlt, hrecv]
  dsimp only
  rw [if_neg (by omega), if_neg (by omega), if_neg (by omega)]

theorem tcpSocketRead_full {socket : Socket} {len : ℕ} {received : Bytes} (h : received.length = len) :
    tcpSocketRead socket len received = ((len : ℤ), received, socket) := by
  rw [tcpSocketRead, if_neg (by omega), h]

/-- Bytes that are enough are read to the last one, and timeouts between them do not matter. -/
theorem tcpSocketRead_delivered {socket : Socket} {len : ℕ} {received : Bytes} (hlen : received.length ≤ len)
    (h : len - received.length ≤ socket.delivered.length) :
    tcpSocketRead socket len received =
      ((len : ℤ), received ++ socket.delivered.take (len - received.length),
        socket.after (len - received.length)) := by
  by_cases hlt : received.length < len
  swap
  · have hall : received.length = len := by omega
    rw [tcpSocketRead_full hall, hall, Nat.sub_self, List.take_zero, List.append_nil, Socket.after_zero]
  induction socket generalizing received with
  | nil =>
    simp only [Socket.delivered, List.length_nil] at h
    omega
  | cons a s ih =>
    obtain ⟨k, hk⟩ := Nat.exists_eq_succ_of_ne_zero (by omega : len - received.length ≠ 0)
    cases a with
    | timeout =>
      rw [tcpSocketRead, if_pos hlt]
      simp only [tcpSocketRecv, if_true]
      rw [ih hlen h hlt, hk]
      rfl
    | error =>
      simp only [Socket.delivered, List.length_nil] at h
      omega
    | bytes b bs =>
      have hdelivered : Socket.delivered (.bytes b bs :: s) = b :: bs ++ Socket.delivered s := rfl
      rw [hdelivered, List.length_append, List.length_cons] at h
      rw [tcpSocketRead_bytes hlt, hdelivered]
      by_cases hpart : len - received.length ≤ bs.length + 1
      · have hall : (received ++ (b :: bs).take (len - received.length)).length = len := by
          rw [List.length_append, List.length_take, List.length_cons]
          omega
        rw [tcpSocketRead_full hall, List.take_append_of_le_length (by rw [List.length_cons]; omega), hk,
          Socket.after, List.drop_succ_cons]
        by_cases hend : k < bs.length
        · rw [if_pos hend]
        · have hzero : k - bs.length = 0 := by omega
          rw [if_neg hend, hzero, Socket.after_zero, List.drop_of_length_le (by omega)]
          rfl
      · have hcut : (b :: bs).take (len - received.length) = b :: bs :=
          List.take_of_length_le (by rw [List.length_cons]; omega)
        have hdrop : (b :: bs).drop (len - received.length) = [] :=
          List.drop_of_length_le (by rw [List.length_cons]; omega)
        have hlen' : (received ++ b :: bs).length = received.length + (bs.length + 1) := by
          rw [List.length_append, List.length_cons]
        have hrest : len - (received ++ b :: bs).length = k - bs.length := by omega
        have hread := @ih (received ++ b :: bs) (by omega) (by omega) (by omega)
        have htake : (b :: bs ++ Socket.delivered s).take (k + 1) =
            b :: bs ++ (Socket.delivered s).take (k - bs.length) := by
          rw [List.take_append, List.take_of_length_le (l := b :: bs) (by rw [List.length_cons]; omega),
            List.length_cons, Nat.add_sub_add_right]
        rw [hcut, hdrop, Socket.push, hread, hrest, hk, Socket.after, if_neg (by omega), htake,
          List.append_assoc]

/-- With fewer bytes before an error or the shutdown, another number is returned. -/
theorem tcpSocketRead_short {socket : Socket} {len : ℕ} {received : Bytes}
    (h : socket.delivered.length < len - received.length) : (tcpSocketRead socket len received).1 ≠ len := by
  have hlt : received.length < len := by omega
  induction socket generalizing received with
  | nil =>
    rw [tcpSocketRead, if_pos hlt]
    simp only [tcpSocketRecv, reduceCtorEq, if_false, lt_irrefl, if_true]
    omega
  | cons a s ih =>
    cases a with
    | timeout =>
      rw [tcpSocketRead, if_pos hlt]
      simp only [tcpSocketRecv, if_true]
      exact ih h hlt
    | error =>
      have hrecv : tcpSocketRecv (.error :: s) (len - received.length) = (-1, [], s) := rfl
      rw [tcpSocketRead, if_pos hlt, hrecv]
      dsimp only
      rw [if_neg (by decide), if_pos (by decide)]
      omega
    | bytes b bs =>
      have hdelivered : Socket.delivered (.bytes b bs :: s) = b :: bs ++ Socket.delivered s := rfl
      rw [hdelivered, List.length_append, List.length_cons] at h
      have hcut : (b :: bs).take (len - received.length) = b :: bs :=
        List.take_of_length_le (by rw [List.length_cons]; omega)
      have hdrop : (b :: bs).drop (len - received.length) = [] :=
        List.drop_of_length_le (by rw [List.length_cons]; omega)
      have hlen : (received ++ b :: bs).length = received.length + (bs.length + 1) := by
        rw [List.length_append, List.length_cons]
      rw [tcpSocketRead_bytes hlt, hcut, hdrop, Socket.push]
      exact ih (by omega) (by omega)

theorem tcpSocketRead_enough {socket : Socket} {len : ℕ} (h : len ≤ socket.delivered.length) :
    tcpSocketRead socket len = ((len : ℤ), socket.delivered.take len, socket.after len) :=
  @tcpSocketRead_delivered socket len [] (Nat.zero_le _) h

theorem tcpSocketRead_few {socket : Socket} {len : ℕ} (h : socket.delivered.length < len) :
    (tcpSocketRead socket len).1 ≠ len :=
  @tcpSocketRead_short socket len [] h

/-! ## The header -/

section Header
variable {socket : Socket} {d : Bytes}

def frameOf (first : UInt8) (m : Bool) (c : Fin 128) : WsFrame :=
  ⟨(first &&& 0x80) >>> 7, first &&& 0x0f, m.toUInt8, UInt8.ofNat c⟩

theorem messagelinkReadFrame_delivered {first : UInt8} {m : Bool} {c : Fin 128}
    (h : socket.delivered = first :: secondByte m c :: d) (frame : WsFrame) :
    messagelinkReadFrame socket frame = (0, frameOf first m c, socket.after 2) := by
  have hbits := second_bits m c
  have hread : tcpSocketRead socket 2 = _ := tcpSocketRead_enough (by rw [h]; simp)
  rw [h] at hread
  rw [messagelinkReadFrame, hread]
  simp only [List.take_succ_cons, List.take_zero, List.getD_cons_zero, List.getD_cons_succ]
  rw [if_neg (by decide), secondByte, hbits.1, hbits.2]
  rfl

theorem messagelinkReadFrame_short (h : socket.delivered.length < 2) (frame : WsFrame) :
    (messagelinkReadFrame socket frame).1 = -1 := by
  have hread : (tcpSocketRead socket 2).1 ≠ 2 := tcpSocketRead_few h
  rw [messagelinkReadFrame, if_pos hread]

theorem swap_ofLe (bs : Bytes) : swap bs.length (ofLe bs) = ofLe bs.reverse := by
  rw [swap, toLe_ofLe]

theorem readLength_delivered {c : Fin 128} (h : sizeLength c ≤ socket.delivered.length) :
    readLength (UInt8.ofNat c) socket =
      (some (lengthOf c (socket.delivered.take (sizeLength c))), socket.after (sizeLength c)) := by
  rw [sizeLength] at h ⊢
  rw [lengthOf]
  by_cases hsmall : c.val < 126
  · rw [if_pos hsmall, if_pos hsmall, readLength_byte hsmall, Socket.after_zero]
  rw [if_neg hsmall] at h ⊢
  rw [if_neg hsmall]
  by_cases hword : c.val = 126
  · rw [if_pos hword] at h ⊢
    have hread := tcpSocketRead_enough h
    have hbyte : UInt8.ofNat c = 126 := by rw [hword]; rfl
    have hlength : (socket.delivered.take 2).length = 2 := by
      rw [List.length_take]
      omega
    have hvalue : ntohs (ofLe (socket.delivered.take 2)) = ofLe (socket.delivered.take 2).reverse := by
      rw [← swap_ofLe, hlength, ntohs]
    rw [hbyte, readLength, if_neg (by decide), if_pos rfl, hread]
    dsimp only
    rw [if_neg (by decide), hvalue]
  · rw [if_neg hword] at h ⊢
    have hread := tcpSocketRead_enough h
    have hbyte : UInt8.ofNat c = 127 := by
      have hc : c.val = 127 := by omega
      rw [hc]
      rfl
    have hlength : (socket.delivered.take 8).length = 8 := by
      rw [List.length_take]
      omega
    have hvalue : ntohll (ofLe (socket.delivered.take 8)) = ofLe (socket.delivered.take 8).reverse := by
      rw [← swap_ofLe, hlength, ntohll_eq]
    rw [hbyte, readLength, if_neg (by decide), if_neg (by decide), hread]
    dsimp only
    rw [if_neg (by decide), hvalue]

theorem readLength_short {c : Fin 128} (h : socket.delivered.length < sizeLength c) :
    ∃ rest, readLength (UInt8.ofNat c) socket = (none, rest) := by
  rw [sizeLength] at h
  by_cases hsmall : c.val < 126
  · rw [if_pos hsmall] at h
    omega
  rw [if_neg hsmall] at h
  by_cases hword : c.val = 126
  · rw [if_pos hword] at h
    have hread := tcpSocketRead_few h
    have hbyte : UInt8.ofNat c = 126 := by rw [hword]; rfl
    rw [hbyte, readLength, if_neg (by decide), if_pos rfl]
    exact ⟨_, if_pos hread⟩
  · rw [if_neg hword] at h
    have hread := tcpSocketRead_few h
    have hbyte : UInt8.ofNat c = 127 := by
      have hc : c.val = 127 := by omega
      rw [hc]
      rfl
    rw [hbyte, readLength, if_neg (by decide), if_neg (by decide)]
    exact ⟨_, if_pos hread⟩

def maskIn (m : Bool) (d : Bytes) : Mask := if m then fun j => (d.take 4).getD j 0 else fun _ => 0

theorem readMask_delivered {m : Bool} (h : (if m then 4 else 0) ≤ socket.delivered.length) :
    readMask m.toUInt8 socket = (some (maskIn m socket.delivered), socket.after (if m then 4 else 0)) := by
  cases m with
  | false =>
    rw [readMask, if_pos (by decide), maskIn, if_neg (by decide), if_neg (by decide), Socket.after_zero]
  | true =>
    have hread : tcpSocketRead socket 4 = _ := tcpSocketRead_enough h
    rw [readMask, if_neg (by decide), hread]
    dsimp only
    rw [if_neg (by decide), maskIn, if_pos rfl, if_pos rfl]

theorem readMask_short {m : Bool} (h : socket.delivered.length < if m then 4 else 0) :
    ∃ rest, readMask m.toUInt8 socket = (none, rest) := by
  cases m with
  | false => simp at h
  | true =>
    have hread := tcpSocketRead_few h
    rw [readMask, if_neg (by decide)]
    exact ⟨_, if_pos hread⟩

end Header

/-! ## The payload -/

/-- A receive times out before `n` bytes have come. -/
def Socket.TimesOut (s : Socket) (n : ℕ) : Prop := s.arrived.length < n ∧ s.blocked = some .timeout

instance (s : Socket) (n : ℕ) : Decidable (s.TimesOut n) := inferInstanceAs (Decidable (_ ∧ _))

/-- The number that `tcp_socket_recv` returns is passed on. -/
theorem readPayload_err {mask : Mask} {length : ℕ} {j : Fin 4} {numRead : ℕ} {link : Reader} :
    (readPayload mask length j numRead link).1 =
      if length - numRead ≤ link.socket.arrived.length then 0
      else if link.socket.blocked = some .timeout then -2 else -1 := by
  induction hk : length - numRead using Nat.strong_induction_on generalizing j numRead link with
  | _ k ih =>
    rw [readPayload]
    by_cases hlt : numRead < length
    swap
    · rw [if_neg hlt, if_pos (by omega)]
    rw [if_pos hlt]
    dsimp only
    generalize hask : (if length - numRead > 1024 then 1024 else length - numRead) = ask
    have hpos : 0 < ask ∧ ask ≤ length - numRead := by
      rw [← hask]
      split <;> omega
    by_cases hnone : link.socket.arrived = []
    · rw [hnone, List.length_nil, if_neg (show ¬ k ≤ 0 by omega)]
      rcases hsocket : link.socket with _ | ⟨⟨b, bs⟩ | _ | _, s⟩
      · have hrecv : tcpSocketRecv [] ask = (0, [], []) := rfl
        rw [hrecv, if_neg (by decide), if_pos rfl]
        rfl
      · rw [hsocket] at hnone
        cases hnone
      · have hrecv : tcpSocketRecv (.timeout :: s) ask = (-2, [], s) := rfl
        rw [hrecv, if_pos (show (-2 : ℤ) < 0 by decide)]
        rfl
      · have hrecv : tcpSocketRecv (.error :: s) ask = (-1, [], s) := rfl
        rw [hrecv, if_pos (show (-1 : ℤ) < 0 by decide)]
        rfl
    · obtain ⟨n, hn, hnask, hnle, hrecv⟩ := tcpSocketRecv_arrived hpos.1 hnone
      rw [hrecv]
      dsimp only
      rw [if_neg (by omega), if_neg (by omega), Int.toNat_natCast]
      have hrest : length - (numRead + n) = k - n := by omega
      have harrived : (link.socket.skip n).arrived.length = link.socket.arrived.length - n := by
        rw [Socket.arrived_skip hnle, List.length_drop]
      have hblocked := Socket.blocked_skip hnle
      have hwhen : k - n ≤ link.socket.arrived.length - n ↔ k ≤ link.socket.arrived.length := by omega
      cases link.isClient with
      | true =>
        rw [if_pos rfl, ih (k - n) (by omega) hrest]
        simp only [harrived, hblocked, hwhen]
      | false =>
        rw [if_neg (by decide), ih (k - n) (by omega) hrest]
        simp only [harrived, hblocked, hwhen]

/-! ## One message -/

section Message
variable {link : Reader} {h : Header}

def maskOf (h : Header) : Mask := h.key.getD fun _ => 0

theorem maskIn_keyBytes (h : Header) (rest : Bytes) : maskIn h.key.isSome (h.keyBytes ++ rest) = maskOf h := by
  rw [maskIn, maskOf, Header.keyBytes]
  cases h.key with
  | none => rfl
  | some key =>
    funext j
    obtain ⟨_ | _ | _ | _ | j, hj⟩ := j
    iterate 4 rfl
    omega

theorem messagelinkReadMessage_header (hpre : h.bytes <+: link.socket.delivered) (frame : WsFrame) :
    messagelinkReadMessage link frame =
      if 16777216 < h.payloadLength then
        (-2, frameOf h.first h.key.isSome h.code, { link with socket := link.socket.after h.bytes.length })
      else
        let p := readPayload (maskOf h) h.payloadLength 0 0
          { link with input := [], socket := link.socket.after h.bytes.length }
        (p.1, frameOf h.first h.key.isSome h.code, p.2) := by
  obtain ⟨rest, hrest⟩ := hpre
  have hd : link.socket.delivered =
      h.first :: secondByte h.key.isSome h.code :: (h.size ++ (h.keyBytes ++ rest)) := by
    rw [← hrest, Header.bytes, List.cons_append, List.cons_append, List.append_assoc]
  have hafter : (link.socket.after 2).delivered = h.size ++ (h.keyBytes ++ rest) := by
    rw [Socket.delivered_after (by rw [hd]; simp), hd]
    rfl
  have hsize := h.length_size
  have hlength := @readLength_delivered (link.socket.after 2) h.code
    (by rw [hafter, List.length_append]; omega)
  rw [hafter, List.take_left' hsize] at hlength
  have hafterSize : ((link.socket.after 2).after (sizeLength h.code)).delivered = h.keyBytes ++ rest := by
    rw [Socket.delivered_after (by rw [hafter, List.length_append]; omega), hafter, List.drop_left' hsize]
  have hmask := @readMask_delivered ((link.socket.after 2).after (sizeLength h.code)) h.key.isSome
    (by rw [hafterSize, List.length_append, h.length_keyBytes]; omega)
  have hall : ((link.socket.after 2).after (sizeLength h.code)).after (if h.key.isSome then 4 else 0) =
      link.socket.after h.bytes.length := by
    rw [← Socket.after_add, ← Socket.after_add, Header.bytes, List.length_cons, List.length_cons,
      List.length_append, hsize, h.length_keyBytes]
    congr 1
    omega
  rw [hafterSize, maskIn_keyBytes, hall] at hmask
  rw [messagelinkReadMessage, messagelinkReadFrame_delivered hd]
  dsimp only
  rw [if_neg (by decide)]
  simp only [frameOf]
  rw [hlength]
  dsimp only
  rw [hmask]
  rfl

theorem messagelinkReadMessage_incomplete (hnone : ¬ ∃ h : Header, h.bytes <+: link.socket.delivered)
    (frame : WsFrame) : (messagelinkReadMessage link frame).1 = -1 := by
  rw [messagelinkReadMessage]
  by_cases hlen : link.socket.delivered.length < 2
  · rw [@messagelinkReadFrame_short link.socket hlen frame]
    dsimp only
    rw [if_pos (by decide)]
  · obtain ⟨first, rest, hd⟩ := List.exists_cons_of_length_pos (l := link.socket.delivered) (by omega)
    rw [hd, List.length_cons] at hlen
    obtain ⟨second, rest, rfl⟩ := List.exists_cons_of_length_pos (l := rest) (by omega)
    obtain ⟨m, c, rfl⟩ := exists_secondByte second
    have hafter : (link.socket.after 2).delivered = rest := by
      rw [Socket.delivered_after (by rw [hd]; simp), hd]
      rfl
    rw [messagelinkReadFrame_delivered hd]
    dsimp only
    rw [if_neg (by decide)]
    simp only [frameOf]
    by_cases hsize : (link.socket.after 2).delivered.length < sizeLength c
    · obtain ⟨s, hs⟩ := readLength_short hsize
      rw [hs]
    rw [readLength_delivered (not_lt.1 hsize)]
    dsimp only
    have hafterSize : ((link.socket.after 2).after (sizeLength c)).delivered.length =
        rest.length - sizeLength c := by
      rw [Socket.delivered_after (not_lt.1 hsize), List.length_drop, hafter]
    have hkey : ((link.socket.after 2).after (sizeLength c)).delivered.length < if m then 4 else 0 := by
      by_contra hkey
      rw [hafter] at hsize
      obtain ⟨h, hpre, -⟩ := @Header.exists_of_length first m c rest (by omega)
      rw [hd] at hnone
      exact hnone ⟨h, hpre⟩
    obtain ⟨s, hs⟩ := readMask_short hkey
    rw [hs]

theorem messagelinkReadMessage_err (hpre : h.bytes <+: link.socket.delivered) (frame : WsFrame) :
    (messagelinkReadMessage link frame).1 =
      if 16777216 < h.payloadLength then -2
      else if h.payloadLength ≤ (link.socket.after h.bytes.length).arrived.length then 0
      else if (link.socket.after h.bytes.length).blocked = some .timeout then -2 else -1 := by
  rw [messagelinkReadMessage_header hpre]
  split_ifs <;> simp only [readPayload_err, Nat.sub_zero, if_true, if_false, *]

theorem messagelinkReadMessage_whole (hpre : h.bytes <+: link.socket.delivered) (frame : WsFrame)
    (hsize : h.payloadLength ≤ 16777216)
    (harrived : h.payloadLength ≤ (link.socket.after h.bytes.length).arrived.length) :
    ∃ payload, h.bytes ++ payload <+: link.socket.delivered ∧ payload.length = h.payloadLength ∧
      (messagelinkReadMessage link frame).2.2.input =
        if link.isClient then payload else crypted (maskOf h) 0 payload := by
  have hread := @readPayload_arrived (maskOf h) h.payloadLength 0 0
    { link with input := [], socket := link.socket.after h.bytes.length } (Nat.zero_le _) harrived
  refine ⟨(link.socket.after h.bytes.length).arrived.take h.payloadLength, ?_, ?_, ?_⟩
  · obtain ⟨rest, hrest⟩ := hpre
    have hafter : (link.socket.after h.bytes.length).delivered = rest := by
      rw [Socket.delivered_after (by rw [← hrest, List.length_append]; omega), ← hrest, List.drop_left]
    rw [← hrest, List.prefix_append_right_inj, ← hafter]
    exact (List.take_prefix _ _).trans (Socket.arrived_prefix _)
  · rw [List.length_take]
    omega
  · rw [messagelinkReadMessage_header hpre, if_neg (by omega)]
    dsimp only
    rw [hread]
    rfl

end Message

/-! ## What the errors say -/

namespace Socket
variable (s : Socket)

/-- A complete header declares more than 16777216 bytes. -/
def Oversized : Prop := ∃ h : Header, h.bytes <+: s.delivered ∧ 16777216 < h.payloadLength

/-- A header and the whole payload that it declares come before any error or shutdown. -/
def Whole : Prop := ∃ (h : Header) (payload : Bytes),
  h.bytes ++ payload <+: s.delivered ∧ payload.length = h.payloadLength ∧ h.payloadLength ≤ 16777216

/-- After the header a receive times out before the whole payload has come. -/
def Late : Prop := ∃ h : Header, h.bytes <+: s.delivered ∧ h.payloadLength ≤ 16777216 ∧
  (s.after h.bytes.length).TimesOut h.payloadLength

variable {s}

theorem delivered_eq_arrived (hblocked : s.blocked ≠ some .timeout) : s.delivered = s.arrived := by
  induction s with
  | nil => rfl
  | cons a s ih =>
    cases a with
    | bytes b bs => exact congrArg (b :: bs ++ ·) (ih hblocked)
    | timeout => exact absurd rfl hblocked
    | error => rfl

theorem not_whole_of_oversized (h : s.Oversized) : ¬ s.Whole := by
  obtain ⟨k, hpre, hsize⟩ := h
  rintro ⟨k', payload, hpre', hlength, hsize'⟩
  have hsame := Header.eq_of_prefix hpre ((List.prefix_append _ _).trans hpre')
  omega

end Socket

/-- What the comment above `messagelink_read_message` promises of its result. -/
structure Classified (link : Reader) (frame : WsFrame) : Prop where
  oversized : (messagelinkReadMessage link frame).1 = -2 ↔ link.socket.Oversized
  whole : (messagelinkReadMessage link frame).1 = 0 → ∃ (h : Header) (payload : Bytes),
    h.bytes ++ payload <+: link.socket.delivered ∧ payload.length = h.payloadLength ∧
      (messagelinkReadMessage link frame).2.2.input =
        if link.isClient then payload else crypted (maskOf h) 0 payload
  failed : (messagelinkReadMessage link frame).1 ≠ 0 → ¬ link.socket.Oversized →
    (messagelinkReadMessage link frame).1 = -1

section Classified
variable {link : Reader} {frame : WsFrame}

/-- Where no receive times out in the payload, each result has its one cause. -/
theorem messagelinkReadMessage_cases (hlate : ¬ link.socket.Late) (frame : WsFrame) :
    (messagelinkReadMessage link frame).1 = -2 ∧ link.socket.Oversized ∨
      (messagelinkReadMessage link frame).1 = 0 ∧ link.socket.Whole ∨
      (messagelinkReadMessage link frame).1 = -1 ∧ ¬ link.socket.Oversized ∧ ¬ link.socket.Whole := by
  by_cases hheader : ∃ h : Header, h.bytes <+: link.socket.delivered
  · obtain ⟨h, hpre⟩ := hheader
    have herr := messagelinkReadMessage_err hpre frame
    by_cases hbig : 16777216 < h.payloadLength
    · rw [if_pos hbig] at herr
      exact .inl ⟨herr, h, hpre, hbig⟩
    rw [if_neg hbig] at herr
    by_cases harrived : h.payloadLength ≤ (link.socket.after h.bytes.length).arrived.length
    · rw [if_pos harrived] at herr
      obtain ⟨payload, hpre', hlength, -⟩ := messagelinkReadMessage_whole hpre frame (by omega) harrived
      exact .inr (.inl ⟨herr, h, payload, hpre', hlength, by omega⟩)
    · have hblocked : (link.socket.after h.bytes.length).blocked ≠ some .timeout := by
        intro hblocked
        exact hlate ⟨h, hpre, by omega, by omega, hblocked⟩
      rw [if_neg harrived, if_neg hblocked] at herr
      refine .inr (.inr ⟨herr, ?_, ?_⟩)
      · rintro ⟨k, hk, hsize⟩
        have hsame := Header.eq_of_prefix hpre hk
        omega
      · rintro ⟨k, payload, hk, hlength, -⟩
        have hsame := Header.eq_of_prefix hpre ((List.prefix_append _ _).trans hk)
        have hfits := hk.length_le
        have hafter : (link.socket.after h.bytes.length).delivered.length =
            link.socket.delivered.length - h.bytes.length := by
          rw [Socket.delivered_after hpre.length_le, List.length_drop]
        rw [Socket.delivered_eq_arrived hblocked] at hafter
        rw [List.length_append, hsame.1.symm] at hfits
        omega
  · refine .inr (.inr ⟨messagelinkReadMessage_incomplete hheader frame, ?_, ?_⟩)
    · rintro ⟨h, hpre, -⟩
      exact hheader ⟨h, hpre⟩
    · rintro ⟨h, payload, hpre, -⟩
      exact hheader ⟨h, (List.prefix_append _ _).trans hpre⟩

theorem classified_iff : Classified link frame ↔ ¬ link.socket.Late := by
  constructor
  · rintro hall ⟨h, hpre, hsize, harrived, hblocked⟩
    have herr := messagelinkReadMessage_err hpre frame
    rw [if_neg (by omega), if_neg (by omega), if_pos hblocked] at herr
    obtain ⟨k, hk, hbig⟩ := hall.oversized.1 herr
    have hsame := Header.eq_of_prefix hpre hk
    omega
  · intro hlate
    have hcases := messagelinkReadMessage_cases hlate frame
    refine ⟨?_, ?_, ?_⟩
    · constructor
      · intro herr
        obtain ⟨-, hbig⟩ | ⟨hzero, -⟩ | ⟨hminus, -⟩ := hcases
        · exact hbig
        · omega
        · omega
      · intro hbig
        obtain ⟨herr, -⟩ | ⟨-, hwhole⟩ | ⟨-, hnot, -⟩ := hcases
        · exact herr
        · exact absurd hwhole (Socket.not_whole_of_oversized hbig)
        · exact absurd hbig hnot
    · intro hzero
      by_cases hheader : ∃ h : Header, h.bytes <+: link.socket.delivered
      · obtain ⟨h, hpre⟩ := hheader
        have herr := messagelinkReadMessage_err hpre frame
        rw [hzero] at herr
        split_ifs at herr with hbig harrived
        obtain ⟨payload, hpre', hlength, hinput⟩ :=
          messagelinkReadMessage_whole hpre frame (not_lt.1 hbig) harrived
        exact ⟨h, payload, hpre', hlength, hinput⟩
      · rw [messagelinkReadMessage_incomplete hheader frame] at hzero
        cases hzero
    · intro hne hnot
      obtain ⟨-, hbig⟩ | ⟨hzero, -⟩ | ⟨hminus, -⟩ := hcases
      · exact absurd hbig hnot
      · exact absurd hzero hne
      · exact hminus

end Classified

end Rcom
