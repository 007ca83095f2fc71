import Rcom.Reading

/-!
# The closing handshake (messagelink.c)

The side that is sent a close message answers with the code that it got. For a close
message without a code it answers with 1005.
-/

namespace Rcom.Messagelink
open Rcom.Lib Rcom.Lib.ByteOrder Rcom.Lib.Program Rcom.Lib.Trace Rcom.Lib.Rfc6455
open Rcom.ClientLink (LinkState)

variable {J : Type} {L : JsonLib J} {isClient : Bool}

/-! ## Codes -/

theorem closeData_eq (code : ℤ) : closeData code = (toLe 2 (code % 65536).toNat).reverse := by
  rw [closeData]
  rw [ofNat_low, ofNat_byte (m := 0xff00) (k := 8) rfl, htons, ← toLe_swap]
  rfl

theorem ofLe_pair (a b : UInt8) : ofLe [b, a] = 256 * a.toNat + b.toNat := by
  simp [ofLe, Nat.add_comm]

theorem remoteCloseCode_eq (input : Bytes) :
    remoteMessagelinkCloseCode input = ((statusCode input).getD 1005 : ℕ) := by
  match input with
  | [] | [_] => rfl
  | a :: b :: rest =>
    have hswap : ntohs (ofLe [a, b]) = 256 * a.toNat + b.toNat := by
      have hpair : toLe 2 (ofLe [a, b]) = [a, b] := toLe_ofLe [a, b]
      rw [ntohs, swap, hpair, ← ofLe_pair]
      rfl
    rw [remoteMessagelinkCloseCode, if_pos (by simp), statusCode]
    simp [hswap]

theorem closeData_statusCode {payload : Bytes} {code : ℕ} (h : statusCode payload = some code) :
    closeData code = payload.take 2 := by
  match payload with
  | [] | [_] => cases h
  | a :: b :: rest =>
    obtain rfl := Option.some.inj h
    have hpair : toLe 2 (ofLe [b, a]) = [b, a] := toLe_ofLe [b, a]
    have hlt : 256 * a.toNat + b.toNat < 65536 := by
      have ha := a.toNat_lt
      have hb := b.toNat_lt
      omega
    have hcode : (((256 * a.toNat + b.toNat : ℕ) : ℤ) % 65536).toNat = ofLe [b, a] := by
      rw [ofLe_pair]
      omega
    rw [closeData_eq, hcode, hpair]
    rfl

theorem statusCode_closeData {code : ℤ} (h0 : 0 ≤ code) (h : code < 65536) :
    statusCode (closeData code) = some code.toNat := by
  have hbytes := length_toLe 2 (code % 65536).toNat
  obtain ⟨b, a, hba⟩ : ∃ b a, toLe 2 (code % 65536).toNat = [b, a] := ⟨_, _, rfl⟩
  have hvalue : ofLe [b, a] = (code % 65536).toNat := by
    rw [← hba, ofLe_toLe]
    omega
  rw [closeData_eq, hba]
  show some _ = _
  rw [← ofLe_pair, hvalue]
  congr 1
  omega

/-! ## The answer on the wire -/

theorem length_frameMake (opcode : ℕ) (masked : Bool) (mask mask' : Mask) (data data' : Bytes)
    (h : data.length = data'.length) :
    (frameMake opcode masked mask data).length = (frameMake opcode masked mask' data').length := by
  rw [frameMake, frameMake, List.length_append, List.length_append, length_frameAppendPayload,
    length_frameAppendPayload, frameMakeHeader_eq, frameMakeHeader_eq, h]
  cases masked <;> simp [maskBytes]

theorem length_closeData (code : ℤ) : (closeData code).length = 2 := rfl

theorem two_of_prefix {bytes payload : Bytes} {mask : Mask} {code : ℤ}
    (hbytes : bytes <+: frameMake 8 isClient mask (closeData code)) (hlen : payload.length ≤ 125)
    (h : IsFrame 8 isClient payload bytes) : payload.length = 2 := by
  obtain ⟨mask', rfl⟩ := (isFrame_iff (by omega) (by omega)).1 h
  rw [frameMake, frameMake, frameMakeHeader_eq, frameMakeHeader_eq, List.cons_append,
    List.cons_append, List.cons_append, List.cons_append, List.cons_prefix_cons,
    List.cons_prefix_cons] at hbytes
  have hsmall : sizeCode payload.length = payload.length := if_pos (by omega)
  have hsecond := hbytes.2.1
  rw [hsmall, length_closeData, show sizeCode 2 = 2 from rfl] at hsecond
  have hall : ∀ (masked : Bool) (n : Fin 126),
      UInt8.ofNat ((if masked then 0x80 else 0) ||| n) =
        UInt8.ofNat ((if masked then 0x80 else 0) ||| 2) → (n : ℕ) = 2 := by decide
  exact hall isClient ⟨payload.length, by omega⟩ hsecond

theorem Sends.wireOf {s t : Session J} {opcode : ℕ} {payload : Bytes} {err : ℤ}
    (h : Sends isClient opcode payload s err t) :
    ∃ mask bytes, bytes <+: frameMake opcode isClient mask payload ∧
      Messagelink.wireOf opcode t.wire = Messagelink.wireOf opcode s.wire ++ bytes ∧
      (opcode ∈ t.failed ↔ opcode ∈ s.failed ∨
        bytes.length < (frameMake opcode isClient mask payload).length) := by
  cases h with
  | sent mask out w hw =>
    refine ⟨mask, _, List.prefix_rfl, ?_, ?_⟩
    · rw [wireOf_append, hw.wireOf_self]
    · simp
  | failed mask out w bytes hw hpart hless =>
    refine ⟨mask, bytes, hpart, ?_, ?_⟩
    · rw [wireOf_append, hw.wireOf_self]
    · simp [hless]

/-! ## The side that is sent the close message -/

def ReadsBack (isClient : Bool) (code : ℤ) (bytes : Bytes) : Prop :=
  ∀ (link : Reader) (frame : WsFrame) (rest : Bytes), link.isClient = isClient →
    link.socket.arrived = bytes ++ rest →
    remoteMessagelinkCloseCode (messagelinkReadMessage link frame).2.2.input = code

theorem reads_back_of_isFrame {code : ℤ} {bytes : Bytes} (h0 : 0 ≤ code) (hlt : code < 65536)
    (h : IsFrame 8 isClient (closeData code) bytes) : ReadsBack (!isClient) code bytes := by
  obtain ⟨f, -, -, hkey, hpayload, rfl⟩ := h
  intro link frame rest hrole harrived
  have hsize : f.payload.length ≤ 16777216 := by
    rw [hpayload, length_closeData]
    omega
  have hplain : link.isClient = true → f.key = none := by
    intro hclient
    have hserver : isClient = false := by simpa [hrole] using hclient
    simpa [hserver] using hkey
  rw [messagelinkReadMessage_frame f harrived hsize hplain]
  dsimp only
  rw [hpayload, remoteCloseCode_eq, statusCode_closeData h0 hlt]
  simpa using h0

theorem code_unique {code code' : ℤ} {bytes : Bytes} (h0 : 0 ≤ code) (hlt : code < 65536)
    (h0' : 0 ≤ code') (hlt' : code' < 65536) (h : IsFrame 8 isClient (closeData code) bytes)
    (h' : IsFrame 8 isClient (closeData code') bytes) : code = code' := by
  have harrived : (Socket.push bytes []).arrived = bytes ++ [] := Socket.arrived_push _ _
  have hread := reads_back_of_isFrame h0 hlt h ⟨!isClient, [], .push bytes []⟩ ⟨0, 0, 0, 0⟩ []
    rfl harrived
  have hread' := reads_back_of_isFrame h0' hlt' h' ⟨!isClient, [], .push bytes []⟩ ⟨0, 0, 0, 0⟩ []
    rfl harrived
  exact hread.symm.trans hread'

/-- A close message with this payload leaves the link closed, with the code recorded. It is answered
with one close frame of the same code, or of none; 1005, which stands for no code, is never sent. -/
structure AnswersClose (isClient : Bool) (payload : Bytes) (t : Session J) : Prop where
  code : t.closeCode = ((statusCode payload).getD 1005 : ℕ)
  sent : IsFrame 8 isClient (if (statusCode payload).isSome then payload.take 2 else [])
    (wireOf 8 t.wire)
  unused : ¬ IsFrame 8 isClient (closeData 1005) (wireOf 8 t.wire)
  onclose : t.closes = 1
  state : t.state = .closed
  socket : t.socket = none
  back : ∀ code : ℤ, 0 ≤ code → code < 65536 → payload = closeData code →
    ReadsBack (!isClient) code (wireOf 8 t.wire)

section Answer
variable {s t u : Session J} {payload : Bytes}

theorem RemoteCloses.answers_iff (h : RemoteCloses isClient payload u t) (hlen : payload.length ≠ 1)
    (hwire : wireOf 8 u.wire = []) (hfailed : 8 ∉ u.failed) (hcloses : u.closes = 0) :
    AnswersClose isClient payload t ↔
      payload ≠ [] ∧ statusCode payload ≠ some 1005 ∧ 8 ∉ t.failed := by
  obtain ⟨h⟩ := h
  rename_i err v
  obtain ⟨mask, bytes, hpart, hbytes, hfails⟩ := h.wireOf
  have hbytes' : wireOf 8 v.wire = bytes := by
    rw [hbytes]
    simp [hwire]
  have hfails' : 8 ∈ v.failed ↔
      bytes.length < (frameMake 8 isClient mask
        (closeData (remoteMessagelinkCloseCode payload))).length := by
    rw [hfails]
    simp [hfailed]
  constructor
  · intro hanswers
    have hsent := hanswers.sent
    change IsFrame 8 isClient _ (wireOf 8 v.wire) at hsent
    rw [hbytes'] at hsent
    have hshort : (if (statusCode payload).isSome then payload.take 2 else []).length ≤ 2 := by
      split_ifs
      · exact List.length_take_le 2 payload
      · simp
    have htwo := two_of_prefix hpart (by omega) hsent
    refine ⟨?_, ?_, ?_⟩
    · rintro rfl
      simp [statusCode] at htwo
    · intro hcode
      apply hanswers.unused
      change IsFrame 8 isClient _ (wireOf 8 v.wire)
      rw [hbytes']
      rwa [hcode, Option.isSome_some, if_pos rfl, ← closeData_statusCode hcode] at hsent
    · intro hfail
      have hless := hfails'.1 hfail
      obtain ⟨mask', hmake⟩ := (isFrame_iff (by omega) (by omega)).1 hsent
      have hsame := length_frameMake 8 isClient mask mask' _ _
        ((length_closeData (remoteMessagelinkCloseCode payload)).trans htwo.symm)
      rw [hmake, hsame] at hless
      exact Nat.lt_irrefl _ hless
  · rintro ⟨hne, hno, hok⟩
    obtain ⟨code, hcode, hlt⟩ : ∃ code, statusCode payload = some code ∧ code < 65536 := by
      match payload with
      | [] => exact absurd rfl hne
      | [_] => simp at hlen
      | a :: b :: rest =>
        have ha := a.toNat_lt
        have hb := b.toNat_lt
        exact ⟨_, rfl, by omega⟩
    have hremote : remoteMessagelinkCloseCode payload = code := by
      rw [remoteCloseCode_eq, hcode]
      rfl
    have hall : bytes = frameMake 8 isClient mask (payload.take 2) := by
      rw [← closeData_statusCode hcode, ← hremote]
      exact hpart.eq_of_length_le (Nat.not_lt.1 (mt hfails'.2 hok))
    have hsent : IsFrame 8 isClient (payload.take 2) (wireOf 8 v.wire) := by
      have hshort := List.length_take_le 2 payload
      rw [hbytes']
      exact (isFrame_iff (by omega) (by omega)).2 ⟨mask, hall⟩
    refine ⟨?_, ?_, fun hunused => ?_, ?_, rfl, rfl, ?_⟩
    · change v.closeCode = _
      rw [h.same, ← remoteCloseCode_eq]
    · rw [hcode, Option.isSome_some, if_pos rfl]
      exact hsent
    · rw [← closeData_statusCode hcode] at hsent
      have hsame : (1005 : ℤ) = code :=
        code_unique (by decide) (by decide) (by omega) (by omega) hunused hsent
      apply hno
      rw [hcode]
      congr 1
      omega
    · change v.closes + 1 = 1
      rw [h.same]
      simp [hcloses]
    · rintro code h0 hlt rfl
      exact reads_back_of_isFrame h0 hlt hsent

/-- The answer to the first close message after frames that leave the link open. -/
theorem Stops.answers_iff {close : Frame} {post : List Frame} {r : Option J}
    (h : Stops L isClient (close :: post) u r none t) (hop : close.opcode = 8)
    (hsize : close.payload.length ≤ 16777216) (hbare : ¬ Bare isClient close)
    (hlen : close.payload.length ≠ 1) (hwire : wireOf 8 u.wire = []) (hfailed : 8 ∉ u.failed)
    (hcloses : u.closes = 0) :
    AnswersClose isClient close.payload t ↔
      close.payload ≠ [] ∧ statusCode close.payload ≠ some 1005 ∧ 8 ∉ t.failed := by
  cases h with
  | oversized p hp hbig h => omega
  | bare p hp _ hbare' h => exact absurd hbare' hbare
  | refused p hp _ _ hop' h => rcases hop' with h | h <;> simp [hop] at h
  | close p hp _ _ _ h => exact h.answers_iff hlen hwire hfailed hcloses

theorem Sends.closes {opcode : ℕ} {err : ℤ} (h : Sends isClient opcode payload s err t) :
    t.closes = s.closes := by
  rw [h.same]

theorem OwnerCloses.closes {code : ℤ} (h : OwnerCloses isClient code s t) :
    t.closes = s.closes := by
  cases h with
  | unsent h => exact h.closes
  | waited reader patience h hwaited => exact h.closes

/-- For another frame the owner closes the link, and `onclose` is not called. -/
theorem Stops.closes_eq {f : Frame} {post : List Frame} {r : Option J}
    (h : Stops L isClient (f :: post) u r none t) (hop : f.opcode ≠ 8) : t.closes = u.closes := by
  cases h with
  | oversized p hp hbig h =>
    obtain ⟨h⟩ := h
    exact h.closes
  | bare p hp _ hbare' h => exact h.closes
  | refused p hp _ _ hop' h => exact h.closes
  | close p hp _ _ hop' h => exact absurd hop' hop

end Answer

theorem sendClose_frame {s : Session J} {fd : ℕ} (hsocket : s.socket = some fd) (code : ℤ) :
    Returns (fun err t => err = 0 →
      ∃ bytes, wireOf 8 t.wire = wireOf 8 s.wire ++ bytes ∧ IsFrame 8 isClient (closeData code) bytes)
      (messagelinkSendClose isClient code) s := by
  refine returns_sendFrame hsocket fun err t hsends herr => ?_
  cases hsends with
  | sent mask out w hw =>
    have hlen := length_closeData code
    refine ⟨frameMake 8 isClient mask (closeData code), ?_,
      (isFrame_iff (by omega) (by omega)).2 ⟨mask, rfl⟩⟩
    rw [wireOf_append, hw.wireOf_self]
  | failed => simp at herr

theorem exists_first_ends {fs : List Frame} (h : ¬ ∀ f ∈ fs, ¬ Ends isClient f) :
    ∃ good f later, fs = good ++ f :: later ∧ (∀ g ∈ good, ¬ Ends isClient g) ∧ Ends isClient f := by
  induction fs with
  | nil => simp at h
  | cons f fs ih =>
    by_cases hf : Ends isClient f
    · exact ⟨[], f, fs, rfl, by simp, hf⟩
    · have hlater : ¬ ∀ g ∈ fs, ¬ Ends isClient g := by
        intro hall
        apply h
        simp only [List.mem_cons, forall_eq_or_imp]
        exact ⟨hf, hall⟩
      obtain ⟨good, g, later, rfl, hgood, hg⟩ := ih hlater
      refine ⟨f :: good, g, later, rfl, ?_, hg⟩
      simp only [List.mem_cons, forall_eq_or_imp]
      exact ⟨hf, hgood⟩

/-- The first close message that comes in is answered with its code just when no frame before it
makes the link close, it has a code other than 1005, and its answer can be sent. What
messagelink_send_close puts on the wire is such a message. -/
theorem close_answered_iff (L : JsonLib J) {isClient : Bool} {fs post : List Frame} {close : Frame}
    {s : Session J} (hs : s.Opened isClient (fs ++ close :: post)) (hop : close.opcode = 8)
    (hlen : close.payload.length ≠ 1) (hsize : close.payload.length ≤ 16777216)
    (hmasked : ∀ f ∈ fs ++ [close], ¬ Bare isClient f) (hfirst : ∀ f ∈ fs, f.opcode ≠ 8) {n k : ℕ}
    (hn : (fs ++ close :: post).length + s.patience + 1 < n) (hk : (payloadsOf 1 fs).length < k)
    {ms : List (Move _ _)} {d : Config (Session J) (Act.Answer (J := J)) (List (Option J))}
    (hrun : Run (Steps Session.Does) (s, readTimes L isClient n k) ms d) :
    (∃ ms' rs t, Run (Steps Session.Does) d ms' (t, .ret rs)) ∧
      (∀ rs, d.2 = .ret rs → (AnswersClose isClient close.payload d.1 ↔
        (∀ f ∈ fs, ¬ Ends isClient f) ∧ close.payload ≠ [] ∧
          statusCode close.payload ≠ some 1005 ∧ 8 ∉ d.1.failed)) ∧
      ∀ (code : ℤ) (u : Session J) (fd : ℕ), u.socket = some fd →
        Returns (fun err t => err = 0 → ∃ bytes, wireOf 8 t.wire = wireOf 8 u.wire ++ bytes ∧
          IsFrame 8 (!isClient) (closeData code) bytes) (messagelinkSendClose (!isClient) code) u := by
  have hcalls : Returns (fun rs t => Calls L isClient (some (fs ++ close :: post)) s rs t ∧
      rs.length = k) (readTimes L isClient n k) s := by
    apply returns_readTimes hs.stands
    · intro fs' hfs'
      obtain rfl := Option.some.inj hfs'
      exact hn
    · exact fun rs t ht hlen => ⟨ht, hlen⟩
  have hd := wp_steps hrun hcalls
  refine ⟨?_, ?_, fun code u fd hu => sendClose_frame hu code⟩
  · obtain ⟨ms', rs, t, hrest, -, -⟩ := Returns.exists_run hd
    exact ⟨ms', rs, t, hrest⟩
  · intro rs hrs
    rw [hrs] at hd
    obtain ⟨hcalls, hk'⟩ := hd
    by_cases hgood : ∀ f ∈ fs, ¬ Ends isClient f
    · have hends : Ends isClient close := .inr (.inr (by simp [hop]))
      obtain ⟨u, hu, hstops⟩ := hcalls.ending hgood hends hs.mayQuit (by omega)
      have hfailed : 8 ∉ u.failed := by
        rw [hu.failed 8 (by decide), hs.failed]
        simp
      have hwire : wireOf 8 u.wire = [] := by
        rw [hu.wire 8 (by decide), hs.wire]
        rfl
      rw [hstops.answers_iff hop hsize (hmasked close (by simp)) hlen hwire hfailed
        (hu.closes.trans hs.closes)]
      exact (and_iff_right hgood).symm
    · obtain ⟨good, f, later, rfl, hbefore, hends⟩ := exists_first_ends hgood
      rw [List.append_assoc, List.cons_append] at hcalls
      have hcount : (payloadsOf 1 good).length < rs.length := by
        rw [payloadsOf, List.filter_append, List.map_append, List.length_append] at hk
        rw [hk', payloadsOf]
        omega
      obtain ⟨u, hu, hstops⟩ := hcalls.ending hbefore hends hs.mayQuit hcount
      have hcloses := hstops.closes_eq (hfirst f (by simp))
      refine iff_of_false (fun hanswers => ?_) fun h => hgood h.1
      have hone := hanswers.onclose
      rw [hcloses, hu.closes, hs.closes] at hone
      cases hone

/-! ### Two close messages -/

abbrev emptyClose : Frame := serverFrame true 8 []

abbrev normalClose : Frame := serverFrame true 8 [3, 232]

theorem normal_close_is_answered :
    ∃ (ms : List (Move _ _)) (rs : List (Option Json.Value)) (t : Session Json.Value),
      Run (Steps Session.Does) (listening true [normalClose], readTimes valueLib true 3 1) ms
        (t, .ret rs) ∧
      AnswersClose true normalClose.payload t := by
  have hs : (listening true [normalClose] : Session Json.Value).Opened true ([] ++ [normalClose]) :=
    listening_opened (by simp)
  have hreturns : Returns (fun _ _ => True) (readTimes valueLib true 3 1)
      (listening true [normalClose]) := by
    apply returns_readTimes hs.stands
    · simp [listening]
    · simp
  obtain ⟨ms, rs, t, hrun, -, hfailed⟩ := hreturns.exists_run
  have hiff := (close_answered_iff valueLib hs rfl (by decide) (by decide)
    (by simp [Bare]) (by simp) (by simp [listening]) (by simp [payloadsOf]) hrun).2.1 rs rfl
  refine ⟨ms, rs, t, hrun, hiff.2 ⟨by simp, by simp, by decide, ?_⟩⟩
  simp [hfailed, listening]

theorem empty_close_is_coded :
    ∃ (ms : List (Move _ _)) (rs : List (Option Json.Value)) (t : Session Json.Value),
      Run (Steps Session.Does) (listening true [emptyClose], readTimes valueLib true 3 1) ms
        (t, .ret rs) ∧
      8 ∉ t.failed ∧ ¬ AnswersClose true emptyClose.payload t := by
  have hs : (listening true [emptyClose] : Session Json.Value).Opened true ([] ++ [emptyClose]) :=
    listening_opened (by simp)
  have hreturns : Returns (fun rs t => Calls valueLib true (some [emptyClose])
      (listening true [emptyClose]) rs t ∧ rs.length = 1) (readTimes valueLib true 3 1)
      (listening true [emptyClose]) := by
    apply returns_readTimes hs.stands
    · simp [listening]
    · exact fun rs t ht hlen => ⟨ht, hlen⟩
  obtain ⟨ms, rs, t, hrun, ⟨hcalls, hlen⟩, hfailed⟩ := hreturns.exists_run
  have hends : Ends true emptyClose := .inr (.inr (by simp))
  obtain ⟨u, hu, hstops⟩ := @Calls.ending _ _ _ _ _ [] _ _ _ hcalls (by simp) hends rfl
    (by simp [payloadsOf, hlen])
  refine ⟨ms, rs, t, hrun, by simp [hfailed, listening], ?_⟩
  rw [hstops.answers_iff rfl (by decide) (by simp [Bare]) (by decide)
    (by rw [hu.wire 8 (by decide)]; rfl) (by rw [hu.failed 8 (by decide)]; simp [listening])
    (by rw [hu.closes]; rfl)]
  simp

end Rcom.Messagelink
