import Rcom.Frame

/-!
# What the reader makes of a frame

The header says the length of the payload, except at 65536: that length is
written in the two bytes that hold numbers up to 65535.
-/

namespace Rcom

open Lib Lib.ByteOrder Lib.Keystream

/-! ## Masking -/

theorem maskBlock_eq (mask : Mask) (j : Fin 4) (bs : Bytes) :
    maskBlock mask j bs = (crypted mask j bs, turned j bs.length) := by
  induction bs generalizing j with
  | nil => rfl
  | cons b bs ih =>
    rw [maskBlock, ih]
    rfl

theorem crypted_append (mask : Mask) (j : Fin 4) (bs cs : Bytes) :
    crypted mask j (bs ++ cs) = crypted mask j bs ++ crypted mask (turned j bs.length) cs :=
  crypt_append _ _ j bs cs

theorem crypted_crypted (mask : Mask) (j : Fin 4) (bs : Bytes) :
    crypted mask j (crypted mask j bs) = bs := by
  apply crypt_crypt
  intro i b
  rw [UInt8.xor_assoc, UInt8.xor_self, UInt8.xor_zero]

theorem maskBlocks_eq (mask : Mask) (data : Bytes) (j : Fin 4) (sent : ℕ) :
    maskBlocks mask data j sent = crypted mask j (data.drop sent) := by
  induction hk : data.length - sent using Nat.strong_induction_on generalizing j sent with
  | _ k ih =>
    rw [maskBlocks]
    split
    · rename_i hlt
      dsimp only
      generalize hn : (if data.length - sent > 1024 then 1024 else data.length - sent) = n
      have hpos : 0 < n ∧ n ≤ data.length - sent := by
        rw [← hn]
        split <;> omega
      rw [ih (data.length - (sent + n)) (by omega) _ _ rfl, maskBlock_eq]
      have hlen : ((data.drop sent).take n).length = n := by
        rw [List.length_take, List.length_drop]
        omega
      rw [hlen, ← List.drop_drop]
      conv_rhs => rw [← List.take_append_drop n (data.drop sent), crypted_append, hlen]
    · rename_i hge
      rw [List.drop_of_length_le (by omega)]
      rfl

theorem frameAppendPayload_masked (mask : Mask) (data : Bytes) :
    frameAppendPayload true mask data = crypted mask 0 data := by
  rw [frameAppendPayload, if_pos rfl, maskBlocks_eq, List.drop_zero]

theorem length_frameAppendPayload (masked : Bool) (mask : Mask) (data : Bytes) :
    (frameAppendPayload masked mask data).length = data.length := by
  cases masked with
  | false => rfl
  | true => rw [frameAppendPayload_masked, length_crypt]

/-! ## The payload -/

/-- The loop takes the rest of the payload from the socket, however `recv` cuts it. -/
theorem readPayload_arrived {mask : Mask} {length : ℕ} {j : Fin 4} {numRead : ℕ} {link : Reader}
    (hle : numRead ≤ length) (h : length - numRead ≤ link.socket.arrived.length) :
    readPayload mask length j numRead link =
      (0, { link with
        input := link.input ++
          let part := link.socket.arrived.take (length - numRead)
          if link.isClient then part else crypted mask j part
        socket := link.socket.skip (length - numRead) }) := by
  induction hk : length - numRead using Nat.strong_induction_on generalizing j numRead link with
  | _ k ih =>
    rw [readPayload]
    by_cases hlt : numRead < length
    · rw [if_pos hlt]
      dsimp only
      generalize hask : (if length - numRead > 1024 then 1024 else length - numRead) = ask
      have hpos : 0 < ask ∧ ask ≤ length - numRead := by
        rw [← hask]
        split <;> omega
      have hsome : link.socket.arrived ≠ [] := by
        intro hnil
        rw [hnil, List.length_nil] at h
        omega
      obtain ⟨n, hn, hnask, hnle, hrecv⟩ := tcpSocketRecv_arrived hpos.1 hsome
      rw [hrecv]
      dsimp only
      rw [if_neg (by omega), if_neg (by omega), Int.toNat_natCast]
      have hrest : length - (numRead + n) = k - n := by omega
      have hk' : k = n + (k - n) := by omega
      have harrived : (link.socket.skip n).arrived = link.socket.arrived.drop n :=
        Socket.arrived_skip hnle
      have hskip : (link.socket.skip n).skip (k - n) = link.socket.skip k := by
        rw [← Socket.skip_add (by omega), ← hk']
      have hcut : link.socket.arrived.take k =
          link.socket.arrived.take n ++ (link.socket.arrived.drop n).take (k - n) := by
        rw [← List.take_add, ← hk']
      have henough : length - (numRead + n) ≤ (link.socket.skip n).arrived.length := by
        rw [harrived, List.length_drop]
        omega
      cases link.isClient with
      | true =>
        rw [if_pos rfl, ih (k - n) (by omega) (by omega) henough hrest]
        dsimp only
        rw [harrived, hskip, if_pos rfl, if_pos rfl, hcut, List.append_assoc]
      | false =>
        rw [if_neg Bool.false_ne_true, maskBlock_eq,
          ih (k - n) (by omega) (by omega) henough hrest]
        dsimp only
        rw [harrived, hskip, if_neg Bool.false_ne_true, if_neg Bool.false_ne_true, hcut,
          crypted_append, List.append_assoc]
    · have hzero : k = 0 := by omega
      rw [if_neg hlt, hzero, Socket.skip_zero, List.take_zero]
      simp

/-! ## The header -/

theorem htonll_eq (x : ℕ) : htonll x = swap 8 x := by
  have hword : (2 : ℕ) ^ 32 = 256 ^ 4 := by norm_num
  have hlow : htonl (x &&& 0xFFFFFFFF) = swap 4 x := by
    rw [htonl, swap, Nat.and_two_pow_sub_one_eq_mod x 32, hword, toLe_mod, swap]
  have hhigh : htonl (x >>> 32) = swap 4 (x / 256 ^ 4) := by
    rw [Nat.shiftRight_eq_div_pow, hword, htonl]
  have hlt : swap 4 (x / 256 ^ 4) < 2 ^ 32 := by
    rw [hword]
    exact swap_lt 4 _
  rw [htonll, if_neg (by decide), hlow, hhigh, ← Nat.shiftLeft_add_eq_or_of_lt hlt,
    Nat.shiftLeft_eq, hword, Nat.mul_comm]
  exact (swap_add 4 4 x).symm

theorem ntohll_eq (x : ℕ) : ntohll x = swap 8 x := htonll_eq x

theorem ofNat_byte {m k : ℕ} (hm : m = 255 <<< k) (n : ℕ) :
    UInt8.ofNat ((n &&& m) >>> k) = UInt8.ofNat (n / 2 ^ k) := by
  apply UInt8.toNat_inj.1
  rw [hm, and_shiftRight, UInt8.toNat_ofNat', UInt8.toNat_ofNat']
  omega

theorem ofNat_low (n : ℕ) : UInt8.ofNat (n &&& 0xff) = UInt8.ofNat n := by
  have h := ofNat_byte (k := 0) rfl n
  rwa [Nat.shiftRight_zero, Nat.pow_zero, Nat.div_one] at h

def sizeCode (length : ℕ) : ℕ :=
  if length < 126 then length else if length ≤ 65536 then 126 else 127

def sizeBytes (length : ℕ) : Bytes :=
  if length < 126 then []
  else if length ≤ 65536 then (toLe 2 length).reverse
  else (toLe 8 length).reverse

theorem frameMakeHeader_eq (opcode : ℕ) (masked : Bool) (mask : Mask) (length : ℕ) :
    frameMakeHeader opcode masked mask length =
      UInt8.ofNat (0x80 ||| opcode) ::
        UInt8.ofNat ((if masked then 0x80 else 0) ||| sizeCode length) ::
          (sizeBytes length ++ maskBytes masked mask) := by
  rw [frameMakeHeader, sizeCode, sizeBytes]
  dsimp only
  by_cases hsmall : length < 126
  · have hlow : length &&& 0x7f = length := by
      rw [Nat.and_two_pow_sub_one_eq_mod length 7]
      omega
    rw [if_pos hsmall, if_pos hsmall, if_pos hsmall, hlow]
    cases masked with
    | false => simp [maskBytes]
    | true => simp [maskBytes]
  · rw [if_neg hsmall, if_neg hsmall, if_neg hsmall]
    by_cases hshort : length ≤ 65536
    · have hbytes : [UInt8.ofNat (htons (length % 65536) &&& 0x00ff),
          UInt8.ofNat ((htons (length % 65536) &&& 0xff00) >>> 8)] = (toLe 2 length).reverse := by
        rw [ofNat_low, ofNat_byte (m := 0xff00) (k := 8) rfl, ← toLe_mod, ← toLe_swap]
        rfl
      rw [if_pos hshort, if_pos hshort, if_pos hshort, ← hbytes]
      cases masked with
      | false => rfl
      | true => rfl
    · have hbytes : [UInt8.ofNat (htonll length &&& 0x00000000000000ff),
          UInt8.ofNat ((htonll length &&& 0x000000000000ff00) >>> 8),
          UInt8.ofNat ((htonll length &&& 0x0000000000ff0000) >>> 16),
          UInt8.ofNat ((htonll length &&& 0x00000000ff000000) >>> 24),
          UInt8.ofNat ((htonll length &&& 0x000000ff00000000) >>> 32),
          UInt8.ofNat ((htonll length &&& 0x0000ff0000000000) >>> 40),
          UInt8.ofNat ((htonll length &&& 0x00ff000000000000) >>> 48),
          UInt8.ofNat ((htonll length &&& 0xff00000000000000) >>> 56)] =
            (toLe 8 length).reverse := by
        rw [htonll_eq, ofNat_low, ofNat_byte (m := 0xff00) (k := 8) rfl, ofNat_byte (m := 0xff0000) (k := 16) rfl,
          ofNat_byte (m := 0xff000000) (k := 24) rfl, ofNat_byte (m := 0xff00000000) (k := 32) rfl, ofNat_byte (m := 0xff0000000000) (k := 40) rfl,
          ofNat_byte (m := 0xff000000000000) (k := 48) rfl, ofNat_byte (m := 0xff00000000000000) (k := 56) rfl, ← toLe_swap]
        simp only [toLe, Nat.div_div_eq_div_mul]
        norm_num
      rw [if_neg hshort, if_neg hshort, if_neg hshort, ← hbytes]
      cases masked with
      | false => rfl
      | true => rfl

theorem length_sizeBytes_le (length : ℕ) : (sizeBytes length).length ≤ 8 := by
  rw [sizeBytes]
  split
  · exact Nat.zero_le _
  · split <;> simp

theorem length_frameMakeHeader_le (opcode : ℕ) (masked : Bool) (mask : Mask) (length : ℕ) :
    (frameMakeHeader opcode masked mask length).length ≤ 14 := by
  have hsize := length_sizeBytes_le length
  have hmask : (maskBytes masked mask).length ≤ 4 := by
    cases masked with
    | false => exact Nat.zero_le _
    | true => exact Nat.le_refl _
  rw [frameMakeHeader_eq, List.length_cons, List.length_cons, List.length_append]
  omega

theorem first_bits (opcode : Fin 16) :
    (UInt8.ofNat (0x80 ||| opcode) &&& 0x80) >>> 7 = 1 ∧
      UInt8.ofNat (0x80 ||| opcode) &&& 0x0f = UInt8.ofNat opcode := by
  revert opcode
  decide

theorem second_bits (masked : Bool) (code : Fin 128) :
    (UInt8.ofNat ((if masked then 0x80 else 0) ||| code) &&& 0x80) >>> 7 = masked.toUInt8 ∧
      UInt8.ofNat ((if masked then 0x80 else 0) ||| code) &&& 0x7f = UInt8.ofNat code := by
  revert masked code
  decide

/-! ## Reading a header -/

def declaredLength (length : ℕ) : ℕ := if length = 65536 then 0 else length

theorem messagelinkReadFrame_arrived {socket : Socket} {b0 b1 : UInt8} {bs : Bytes}
    (h : socket.arrived = b0 :: b1 :: bs) (frame : WsFrame) :
    messagelinkReadFrame socket frame =
      (0, ⟨(b0 &&& 0x80) >>> 7, b0 &&& 0x0f, (b1 &&& 0x80) >>> 7, b1 &&& 0x7f⟩, socket.skip 2) := by
  have hread := tcpSocketRead_arrived (show 2 ≤ socket.arrived.length by simp [h])
  rw [h] at hread
  rw [messagelinkReadFrame, hread]
  rfl

theorem readLength_byte {n : ℕ} (hn : n < 126) (socket : Socket) :
    readLength (UInt8.ofNat n) socket = (some n, socket) := by
  have hbyte : (UInt8.ofNat n).toNat = n := by
    rw [UInt8.toNat_ofNat']
    omega
  have hlt : UInt8.ofNat n < 126 := by
    rw [UInt8.lt_iff_toNat_lt, hbyte]
    exact hn
  rw [readLength, if_pos hlt, hbyte]

theorem readLength_word {socket : Socket} {n : ℕ} {bs : Bytes}
    (h : socket.arrived = (toLe 2 n).reverse ++ bs) :
    readLength 126 socket = (some (n % 65536), socket.skip 2) := by
  have hread := tcpSocketRead_arrived (show 2 ≤ socket.arrived.length by simp [h])
  rw [h, List.take_left' (by simp)] at hread
  have hsize : ntohs (ofLe (toLe 2 n).reverse) = n % 65536 := swap_swap 2 n
  rw [readLength, if_neg (by decide), if_pos rfl, hread]
  dsimp only
  rw [if_neg (by decide), hsize]

theorem readLength_long {socket : Socket} {n : ℕ} {bs : Bytes}
    (h : socket.arrived = (toLe 8 n).reverse ++ bs) :
    readLength 127 socket = (some (n % 256 ^ 8), socket.skip 8) := by
  have hread := tcpSocketRead_arrived (show 8 ≤ socket.arrived.length by simp [h])
  rw [h, List.take_left' (by simp)] at hread
  have hsize : ntohll (ofLe (toLe 8 n).reverse) = n % 256 ^ 8 := by
    rw [ntohll_eq, ← swap, swap_swap]
  rw [readLength, if_neg (by decide), if_neg (by decide), hread]
  dsimp only
  rw [if_neg (by decide), hsize]

theorem readLength_arrived {socket : Socket} {length : ℕ} {bs : Bytes}
    (hlen : length ≤ 16777216) (h : socket.arrived = sizeBytes length ++ bs) :
    readLength (UInt8.ofNat (sizeCode length)) socket =
      (some (declaredLength length), socket.skip (sizeBytes length).length) := by
  rw [sizeBytes] at h ⊢
  rw [sizeCode, declaredLength]
  by_cases hsmall : length < 126
  · rw [if_pos hsmall, if_pos hsmall, if_neg (by omega), readLength_byte hsmall]
    simp
  · rw [if_neg hsmall] at h ⊢
    rw [if_neg hsmall]
    by_cases hshort : length ≤ 65536
    · rw [if_pos hshort] at h ⊢
      have hword : UInt8.ofNat 126 = 126 := rfl
      rw [if_pos hshort, hword, readLength_word h, List.length_reverse, length_toLe]
      split
      · rename_i hbig
        rw [hbig]
      · rw [Nat.mod_eq_of_lt (by omega)]
    · rw [if_neg hshort] at h ⊢
      have hlong : UInt8.ofNat 127 = 127 := rfl
      rw [if_neg hshort, if_neg (by omega), hlong, readLength_long h, List.length_reverse,
        length_toLe, Nat.mod_eq_of_lt (by omega)]

theorem readMask_arrived {socket : Socket} {masked : Bool} {mask : Mask} {bs : Bytes}
    (h : socket.arrived = maskBytes masked mask ++ bs) :
    readMask masked.toUInt8 socket =
      (some (if masked then mask else fun _ => 0), socket.skip (maskBytes masked mask).length) := by
  cases masked with
  | false =>
    rw [readMask, if_pos (by decide), maskBytes]
    simp
  | true =>
    have hread := tcpSocketRead_arrived (show 4 ≤ socket.arrived.length by simp [h, maskBytes])
    rw [h, List.take_left' (by simp [maskBytes])] at hread
    have hmask : (fun j : Fin 4 => [mask 0, mask 1, mask 2, mask 3].getD j 0) = mask := by
      funext j
      match j with
      | 0 | 1 | 2 | 3 => rfl
    rw [readMask, if_neg (by decide), hread]
    dsimp only
    rw [if_neg (by decide), if_pos rfl]
    exact congrArg (fun m => (some m, socket.skip 4)) hmask

theorem sizeCode_lt (length : ℕ) : sizeCode length < 128 := by
  rw [sizeCode]
  split
  · omega
  · split <;> omega

theorem skip_parts {socket : Socket} {j k n : ℕ} (h : 2 + j + k + n ≤ socket.arrived.length) :
    (((socket.skip 2).skip j).skip k).skip n = socket.skip (2 + j + k + n) := by
  rw [← Socket.skip_add (s := socket) (by omega), ← Socket.skip_add (s := socket) (by omega),
    ← Socket.skip_add (s := socket) (by omega)]

/-- A header that says its length in `size`, with `key` after it, and what follows it. -/
theorem messagelinkReadMessage_parts {link : Reader} {b0 b1 : UInt8} {size key bs : Bytes}
    {length : ℕ} {mask : Mask} (h : link.socket.arrived = b0 :: b1 :: (size ++ (key ++ bs)))
    (hsize : ∀ socket : Socket, socket.arrived = size ++ (key ++ bs) →
      readLength (b1 &&& 0x7f) socket = (some length, socket.skip size.length))
    (hkey : ∀ socket : Socket, socket.arrived = key ++ bs →
      readMask ((b1 &&& 0x80) >>> 7) socket = (some mask, socket.skip key.length))
    (hbs : length ≤ 16777216 → length ≤ bs.length) (frame : WsFrame) :
    messagelinkReadMessage link frame =
      if 16777216 < length then
        (-2, ⟨(b0 &&& 0x80) >>> 7, b0 &&& 0x0f, (b1 &&& 0x80) >>> 7, b1 &&& 0x7f⟩,
          { link with socket := link.socket.skip (2 + size.length + key.length) })
      else
        (0, ⟨(b0 &&& 0x80) >>> 7, b0 &&& 0x0f, (b1 &&& 0x80) >>> 7, b1 &&& 0x7f⟩, { link with
          input :=
            let part := bs.take length
            if link.isClient then part else crypted mask 0 part
          socket := link.socket.skip (2 + size.length + key.length + length) }) := by
  have hframe := messagelinkReadFrame_arrived h frame
  have hafter2 : (link.socket.skip 2).arrived = size ++ (key ++ bs) := by
    rw [Socket.arrived_skip (by simp [h]), h]
    rfl
  have hafterSize : ((link.socket.skip 2).skip size.length).arrived = key ++ bs := by
    rw [Socket.arrived_skip (by simp [hafter2]), hafter2, List.drop_left]
  have hafterKey : (((link.socket.skip 2).skip size.length).skip key.length).arrived = bs := by
    rw [Socket.arrived_skip (by simp [hafterSize]), hafterSize, List.drop_left]
  have harrived : link.socket.arrived.length = 2 + size.length + key.length + bs.length := by
    rw [h, List.length_cons, List.length_cons, List.length_append, List.length_append]
    omega
  rw [messagelinkReadMessage, hframe]
  dsimp only
  rw [if_neg (not_not.2 rfl), hsize _ hafter2]
  dsimp only
  rw [hkey _ hafterSize]
  dsimp only
  by_cases hbig : 16777216 < length
  · have hskip : (((link.socket.skip 2).skip size.length).skip key.length).skip 0 =
        link.socket.skip (2 + size.length + key.length + 0) := skip_parts (by omega)
    rw [Socket.skip_zero] at hskip
    rw [if_pos hbig, if_pos hbig, hskip, Nat.add_zero]
  · have hle := hbs (by omega)
    rw [if_neg hbig, if_neg hbig, readPayload_arrived (Nat.zero_le _) (by
      dsimp only
      rw [hafterKey]
      exact hle)]
    dsimp only
    rw [hafterKey, Nat.sub_zero, List.nil_append, skip_parts (by omega)]

/-- The reader takes as many bytes after the header as the header says. -/
theorem messagelinkReadMessage_arrived {link : Reader} {opcode : Fin 16} {masked : Bool}
    {mask : Mask} {length : ℕ} {bs : Bytes} (hlen : length ≤ 16777216)
    (h : link.socket.arrived = frameMakeHeader opcode masked mask length ++ bs)
    (hbs : declaredLength length ≤ bs.length) (frame : WsFrame) :
    messagelinkReadMessage link frame =
      (0, ⟨1, UInt8.ofNat opcode, masked.toUInt8, UInt8.ofNat (sizeCode length)⟩, { link with
        input :=
          let part := bs.take (declaredLength length)
          if link.isClient then part else crypted (if masked then mask else fun _ => 0) 0 part
        socket := link.socket.skip
          ((frameMakeHeader opcode masked mask length).length + declaredLength length) }) := by
  have hfirst := first_bits opcode
  have hsecond := second_bits masked ⟨sizeCode length, sizeCode_lt length⟩
  have hdeclared : declaredLength length ≤ 16777216 := by
    rw [declaredLength]
    split <;> omega
  rw [frameMakeHeader_eq, List.cons_append, List.cons_append, List.append_assoc] at h
  have hread := messagelinkReadMessage_parts h
    (by rw [hsecond.2]; exact fun socket hs => readLength_arrived hlen hs)
    (by rw [hsecond.1]; exact fun socket hs => readMask_arrived hs) (fun _ => hbs) frame
  rw [hread, if_neg (by omega), hfirst.1, hfirst.2, hsecond.1, hsecond.2, frameMakeHeader_eq,
    List.length_cons, List.length_cons, List.length_append]
  congr 4
  omega

/-! ## Round trip -/

/-- A frame comes back from the other end as it was made: the reader of the opposite role reads
exactly its bytes, in whatever parts they arrive and whatever follows them. -/
def RoundTrips (opcode : Fin 16) (masked : Bool) (mask : Mask) (payload : Bytes) : Prop :=
  (frameMakeHeader opcode masked mask payload.length).length ≤ 14 ∧
    ∀ (link : Reader) (frame : WsFrame) (rest : Bytes), link.isClient = !masked →
      link.socket.arrived = frameMake opcode masked mask payload ++ rest →
      ∃ got : WsFrame,
        messagelinkReadMessage link frame = (0, got, { link with
          input := payload
          socket := link.socket.skip (frameMake opcode masked mask payload).length }) ∧
        got.fin = 1 ∧ got.opcode.toNat = opcode ∧ got.mask = masked.toUInt8

theorem roundTrips_of_ne {opcode : Fin 16} {masked : Bool} {mask : Mask} {payload : Bytes}
    (hlen : payload.length ≤ 16777216) (hne : payload.length ≠ 65536) :
    RoundTrips opcode masked mask payload := by
  refine ⟨length_frameMakeHeader_le _ _ _ _, fun link frame rest hrole h => ?_⟩
  have hdeclared : declaredLength payload.length = payload.length := if_neg hne
  have hbody := length_frameAppendPayload masked mask payload
  rw [frameMake, List.append_assoc] at h
  have hread := messagelinkReadMessage_arrived hlen h
    (by rw [hdeclared, List.length_append, hbody]; omega) frame
  have htake : (frameAppendPayload masked mask payload ++ rest).take payload.length =
      frameAppendPayload masked mask payload := List.take_left' hbody
  refine ⟨⟨1, UInt8.ofNat opcode, masked.toUInt8, UInt8.ofNat (sizeCode payload.length)⟩,
    hread.trans ?_, rfl, ?_, rfl⟩
  · rw [hdeclared, htake, hrole, frameMake, List.length_append, hbody]
    cases masked with
    | false => rfl
    | true =>
      dsimp only
      rw [if_neg (by decide), if_pos rfl, frameAppendPayload_masked, crypted_crypted]
  · have hop := opcode.isLt
    rw [UInt8.toNat_ofNat']
    omega

/-- At 65536 the reader finishes after the header, with an empty message. -/
theorem messagelinkReadMessage_65536 (opcode : Fin 16) (masked : Bool) (mask : Mask)
    {payload : Bytes} (hlen : payload.length = 65536) (frame : WsFrame) :
    ∃ link : Reader, link.isClient = !masked ∧
      link.socket.arrived = frameMake opcode masked mask payload ++ [] ∧
      (messagelinkReadMessage link frame).2.2.input = [] := by
  have harrived : (Socket.push (frameMake opcode masked mask payload) []).arrived =
      frameMake opcode masked mask payload ++ [] := Socket.arrived_push _ _
  refine ⟨⟨!masked, [], Socket.push (frameMake opcode masked mask payload) []⟩, rfl, harrived, ?_⟩
  rw [frameMake, List.append_assoc] at harrived
  have hdeclared : declaredLength payload.length = 0 := if_pos hlen
  rw [messagelinkReadMessage_arrived (by omega) harrived (by rw [hdeclared]; exact Nat.zero_le _),
    hdeclared]
  dsimp only
  rw [List.take_zero]
  split <;> rfl

theorem not_roundTrips {opcode : Fin 16} {masked : Bool} {mask : Mask} {payload : Bytes}
    (hlen : payload.length = 65536) : ¬ RoundTrips opcode masked mask payload := by
  intro h
  obtain ⟨link, hrole, harrived, hempty⟩ :=
    messagelinkReadMessage_65536 opcode masked mask hlen ⟨0, 0, 0, 0⟩
  obtain ⟨got, hread, -⟩ := h.2 link ⟨0, 0, 0, 0⟩ [] hrole harrived
  rw [hread] at hempty
  rw [show payload = [] from hempty, List.length_nil] at hlen
  omega

theorem frame_roundTrips_iff (opcode : Fin 16) (masked : Bool) (mask : Mask) (payload : Bytes)
    (hlen : payload.length ≤ 16777216) :
    RoundTrips opcode masked mask payload ↔ payload.length ≠ 65536 := by
  constructor
  · intro h hbig
    exact not_roundTrips hbig h
  · intro hne
    exact roundTrips_of_ne hlen hne

/-- One byte less comes back. -/
theorem frame_65535_roundTrips :
    RoundTrips 2 true (fun j => UInt8.ofNat j) (List.replicate 65535 0) ↔
      (List.replicate 65535 (0 : UInt8)).length ≠ 65536 :=
  frame_roundTrips_iff 2 true _ _ (by rw [List.length_replicate]; omega)

theorem frame_65536_is_lost :
    (List.replicate 65536 (0 : UInt8)).length ≤ 16777216 ∧
      ¬ RoundTrips 2 true (fun j => UInt8.ofNat j) (List.replicate 65536 0) :=
  ⟨by rw [List.length_replicate]; omega, not_roundTrips List.length_replicate⟩

end Rcom
