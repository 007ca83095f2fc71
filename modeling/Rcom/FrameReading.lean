import Rcom.FrameRoundTrip

/-!
# Reading the frames of the other side (messagelink.c)

What `messagelink_read_message` makes of a frame, whoever wrote it, and of a whole
stream of frames in any fragmentation.
-/

namespace Rcom
open Lib Lib.ByteOrder Lib.Rfc6455

theorem head_bits (fin : Bool) (opcode : Fin 16) :
    (UInt8.ofNat ((if fin then 0x80 else 0) ||| opcode) &&& 0x80) >>> 7 = fin.toUInt8 ∧
      UInt8.ofNat ((if fin then 0x80 else 0) ||| opcode) &&& 0x0f = UInt8.ofNat opcode := by
  revert fin opcode
  decide

section Frame
variable (f : Frame)

def wsFrame : WsFrame where
  fin := f.fin.toUInt8
  opcode := UInt8.ofNat f.opcode
  mask := f.key.isSome.toUInt8
  length := UInt8.ofNat f.sizeCode

def keyOf : Mask := f.key.getD fun _ => 0

theorem readLength_frame {socket : Socket} {bs : Bytes} (h : socket.arrived = f.sizeBytes ++ bs) :
    readLength (UInt8.ofNat f.sizeCode) socket =
      (some f.payload.length, socket.skip f.sizeBytes.length) := by
  have hlen := f.length_lt
  rw [Frame.sizeBytes] at h ⊢
  rw [Frame.sizeCode]
  by_cases hsmall : f.payload.length < 126
  · rw [if_pos hsmall, if_pos hsmall, readLength_byte hsmall]
    simp
  · rw [if_neg hsmall] at h ⊢
    rw [if_neg hsmall]
    by_cases hshort : f.payload.length < 65536
    · rw [if_pos hshort] at h ⊢
      have hword : UInt8.ofNat 126 = 126 := rfl
      rw [if_pos hshort, hword, readLength_word h, List.length_reverse, length_toLe,
        Nat.mod_eq_of_lt hshort]
    · rw [if_neg hshort] at h ⊢
      have hlong : UInt8.ofNat 127 = 127 := rfl
      rw [if_neg hshort, hlong, readLength_long h, List.length_reverse, length_toLe,
        Nat.mod_eq_of_lt (by omega)]

theorem readMask_frame {socket : Socket} {bs : Bytes} (h : socket.arrived = f.keyBytes ++ bs) :
    readMask f.key.isSome.toUInt8 socket = (some (keyOf f), socket.skip f.keyBytes.length) := by
  rw [Frame.keyBytes] at h ⊢
  rw [keyOf]
  cases hkey : f.key with
  | none =>
    rw [hkey] at h
    exact @readMask_arrived socket false (fun _ => 0) bs h
  | some key =>
    rw [hkey] at h
    exact @readMask_arrived socket true key bs h

theorem length_header : f.header.length = 2 + f.sizeBytes.length + f.keyBytes.length := by
  rw [Frame.header, List.length_cons, List.length_cons, List.length_append]
  omega

theorem messagelinkReadMessage_frame {link : Reader} {rest : Bytes}
    (h : link.socket.arrived = f.bytes ++ rest) (hsize : f.payload.length ≤ 16777216)
    (hrole : link.isClient = true → f.key = none) (frame : WsFrame) :
    messagelinkReadMessage link frame = (0, wsFrame f,
      { link with input := f.payload, socket := link.socket.skip f.bytes.length }) := by
  have hfirst := head_bits f.fin f.opcode
  have hsecond := second_bits f.key.isSome ⟨f.sizeCode, f.sizeCode_lt⟩
  rw [f.bytes_append] at h
  have hread := messagelinkReadMessage_parts h
    (by rw [hsecond.2]; exact fun socket hs => readLength_frame f hs)
    (by rw [hsecond.1]; exact fun socket hs => readMask_frame f hs)
    (fun _ => by rw [List.length_append, f.length_body]; omega) frame
  rw [hread, if_neg (by omega), hfirst.1, hfirst.2, hsecond.1, hsecond.2]
  have htake : (f.body ++ rest).take f.payload.length = f.body := List.take_left' f.length_body
  have hlen : 2 + f.sizeBytes.length + f.keyBytes.length + f.payload.length = f.bytes.length := by
    rw [Frame.bytes, List.length_append, length_header, f.length_body]
  have hinput : (if link.isClient = true then f.body else crypted (keyOf f) 0 f.body) =
      f.payload := by
    rw [Frame.body, keyOf]
    cases hkey : f.key with
    | none =>
      have hplain : ∀ (j : Fin 4) (bs : Bytes), crypted (fun _ => 0) j bs = bs := by
        intro j bs
        induction bs generalizing j with
        | nil => rfl
        | cons b bs ih =>
          rw [crypted, Keystream.crypt]
          exact congrArg₂ List.cons UInt8.xor_zero (ih _)
      simp [hplain]
    | some key =>
      have hserver : link.isClient = false := by
        by_contra hclient
        simp [hrole (by simpa using hclient)] at hkey
      rw [hserver, if_neg (by simp)]
      exact crypted_crypted key 0 f.payload
  dsimp only
  rw [htake, hlen, hinput]
  rfl

theorem messagelinkReadMessage_oversized {link : Reader} {rest : Bytes}
    (h : link.socket.arrived = f.bytes ++ rest) (hsize : 16777216 < f.payload.length)
    (frame : WsFrame) :
    messagelinkReadMessage link frame = (-2, wsFrame f,
      { link with socket := link.socket.skip f.header.length }) := by
  have hfirst := head_bits f.fin f.opcode
  have hsecond := second_bits f.key.isSome ⟨f.sizeCode, f.sizeCode_lt⟩
  rw [f.bytes_append] at h
  have hread := messagelinkReadMessage_parts h
    (by rw [hsecond.2]; exact fun socket hs => readLength_frame f hs)
    (by rw [hsecond.1]; exact fun socket hs => readMask_frame f hs) (fun _ => by omega) frame
  rw [hread, if_pos hsize, hfirst.1, hfirst.2, hsecond.1, hsecond.2, length_header]
  rfl

end Frame

/-! ## A stream of frames -/

/-- The frames arrive in any pieces, and after them the other side shuts down. -/
structure Socket.Arrives (socket : Socket) (fs : List Frame) : Prop where
  pieces : ∀ a ∈ socket, ∃ b bs, a = Arrival.bytes b bs
  arrived : socket.arrived = stream fs

namespace Socket.Arrives
variable {socket : Socket} {f : Frame} {fs : List Frame}

theorem pieces_skip (h : ∀ a ∈ socket, ∃ b bs, a = Arrival.bytes b bs) (n : ℕ) :
    ∀ a ∈ socket.skip n, ∃ b bs, a = Arrival.bytes b bs := by
  induction socket generalizing n with
  | nil => exact h
  | cons a socket ih =>
    simp only [List.mem_cons, forall_eq_or_imp] at h
    obtain ⟨⟨b, bs, rfl⟩, h⟩ := h
    rw [Socket.skip]
    split
    · cases (b :: bs).drop n with
      | nil => exact h
      | cons c cs =>
        simp only [Socket.push, List.mem_cons, forall_eq_or_imp]
        exact ⟨⟨c, cs, rfl⟩, h⟩
    · exact ih h _

theorem next (h : socket.Arrives (f :: fs)) : (socket.skip f.bytes.length).Arrives fs := by
  refine ⟨pieces_skip h.pieces _, ?_⟩
  rw [arrived_skip (by rw [h.arrived, stream_cons, List.length_append]; omega), h.arrived,
    stream_cons, List.drop_left]

theorem eq_nil (h : socket.Arrives []) : socket = [] := by
  cases socket with
  | nil => rfl
  | cons a socket =>
    obtain ⟨b, bs, rfl⟩ := h.pieces a (by simp)
    have harrived := h.arrived
    simp [Socket.arrived] at harrived

end Socket.Arrives

theorem messagelinkReadMessage_end {link : Reader} (h : link.socket.Arrives [])
    (frame : WsFrame) : messagelinkReadMessage link frame = (-1, frame, link) := by
  have hnil := h.eq_nil
  obtain ⟨isClient, input, socket⟩ := link
  subst hnil
  have hread : tcpSocketRead [] 2 = (0, [], []) := by
    rw [tcpSocketRead, if_pos (by decide)]
    rfl
  rw [messagelinkReadMessage, messagelinkReadFrame, hread]
  rfl

theorem frameMake_eq_bytes {f : Frame} (hfin : f.fin = true) (hlen : f.payload.length ≠ 65536)
    {masked : Bool} {mask : Mask} (hkey : f.key = if masked then some mask else none) :
    frameMake f.opcode masked mask f.payload = f.bytes := by
  have hsize : sizeCode f.payload.length = f.sizeCode ∧
      sizeBytes f.payload.length = f.sizeBytes := by
    rw [sizeCode, sizeBytes, Frame.sizeCode, Frame.sizeBytes]
    split_ifs <;> first | exact ⟨rfl, rfl⟩ | omega
  rw [frameMake, frameMakeHeader_eq, Frame.bytes, Frame.header, hsize.1, hsize.2, hfin, hkey,
    Frame.keyBytes, Frame.body, hkey]
  cases masked with
  | false => rfl
  | true =>
    rw [frameAppendPayload_masked]
    rfl

def IsFrame (opcode : Fin 16) (isClient : Bool) (payload bytes : Bytes) : Prop :=
  ∃ f : Frame, f.fin = true ∧ f.opcode = opcode ∧ f.key.isSome = isClient ∧ f.payload = payload ∧
    f.bytes = bytes

theorem isFrame_iff {opcode : Fin 16} {isClient : Bool} {payload bytes : Bytes}
    (hlen : payload.length ≠ 65536) (hlt : payload.length < 2 ^ 63) :
    IsFrame opcode isClient payload bytes ↔
      ∃ mask, bytes = frameMake opcode isClient mask payload := by
  constructor
  · rintro ⟨f, hfin, rfl, hkey, rfl, rfl⟩
    refine ⟨keyOf f, (frameMake_eq_bytes hfin hlen ?_).symm⟩
    rw [keyOf]
    cases hf : f.key <;> simp_all
  · rintro ⟨mask, rfl⟩
    refine ⟨⟨true, opcode, if isClient then some mask else none, payload, hlt⟩, rfl, rfl, ?_, rfl,
      (frameMake_eq_bytes rfl hlen rfl).symm⟩
    cases isClient <;> rfl

end Rcom
