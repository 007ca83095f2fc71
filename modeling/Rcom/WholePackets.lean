import Rcom.DatahubSenders

/-!
# Whole packets or an error (datahub.c, datalink.c, data.c)

A sender that formats a text or copies data either sends all of it or tells its caller. The formats
of some senders are cut without anyone being told.
-/

namespace Rcom.DatahubSenders
open Rcom.Lib Rcom.Datahub Rcom.Dump Rcom.Packets

/-- What the packets of a call are to carry. The source of `bin` is as long as it is said to be. -/
inductive Content where
  | num (text : CStr)
  | str (value : CStr)
  | obj (value : Serialisation)
  | f (format : Formatting)
  | v (format : Formatting)
  | bin (data : Option Bytes) (len : ℤ) (source : ∀ bytes ∈ data, len ≤ bytes.length)

inductive Call where
  | send (link : Option Link) (content : Content)
  | broadcast (exclude : Option Link) (content : Content)
  | datalinkF (out : Packet) (remoteAddr : Option Link) (format : Formatting)
  | datalinkObj (out : Packet) (remoteAddr : Option Link) (obj : Serialisation)

section Calls
variable (takes : Link → Bool) (time : UInt64) (hub : Hub)

def Call.run : Call → Exec Outcome
  | send link (.num text) => datahubSendNum takes time hub link text
  | send link (.str value) => datahubSendStr takes time hub link value
  | send link (.obj value) => datahubSendObj takes time hub link value
  | send link (.f format) => datahubSendF takes time hub link format
  | send link (.v format) => datahubSendV takes time hub link format
  | send link (.bin data len _) => datahubSendBin takes time hub link data len
  | broadcast exclude (.num text) => datahubBroadcastNum takes time hub exclude text
  | broadcast exclude (.str value) => datahubBroadcastStr takes time hub exclude value
  | broadcast exclude (.obj value) => datahubBroadcastObj takes time hub exclude value
  | broadcast exclude (.f format) => datahubBroadcastF takes time hub exclude format
  | broadcast exclude (.v format) => datahubBroadcastV takes time hub exclude format
  | broadcast exclude (.bin data len _) => datahubBroadcastBin takes time hub exclude data len
  | datalinkF out remoteAddr format => datalinkSendF takes time out.toData remoteAddr format
  | datalinkObj out remoteAddr obj => datalinkSendObj takes time out.toData remoteAddr obj

def textOf : Formatting → Option Bytes
  | .text t _ => some t
  | .failure _ _ _ _ => none

def objectText : Serialisation → Option Bytes
  | .text t _ _ => some t
  | .failure _ _ _ _ => none

def Content.complete : Content → Option Bytes
  | num text => some text
  | str value => some (quoted value)
  | obj value => objectText value
  | f format | v format => textOf format
  | bin data len _ => if 0 ≤ len then data.map (·.take len.toNat) else none

def Call.complete : Call → Option Bytes
  | send _ content | broadcast _ content => content.complete
  | datalinkF _ _ format => textOf format
  | datalinkObj _ _ obj => objectText obj

/-- The packets that are sent carry this, or none is sent and the call says so. -/
def Reports (complete : Option Bytes) (result : Exec Outcome) : Prop :=
  ∃ r, result = some r ∧ ((r.sent ≠ [] ∧ ∀ bytes ∈ r.sent, some (bytes.drop packetHeader) = complete) ∨
    (r.sent = [] ∧ r.ret ≠ 0))

end Calls

/-! ## What is sent of a filled packet -/

def Matches (bytes complete : Option Bytes) : Prop :=
  ∃ b, bytes = some b ∧ some (b.drop packetHeader) = complete

section Sent
variable {takes : Link → Bool} {time : UInt64} {links : List Link} {data : Data}
variable {bytes complete : Option Bytes}

theorem sent_attempt (ret : ℤ) (links : List Link) (link : Link) :
    (Outcome.mk ret links [attempt takes bytes link]).sent =
      if takes link then bytes.toList else [] := by
  cases bytes with
  | none => cases takes link <;> simp [Outcome.sent, attempt]
  | some b => cases h : takes link <;> simp [Outcome.sent, attempt, h]

theorem matches_some {b : Bytes} :
    Matches (some b) complete ↔ some (b.drop packetHeader) = complete := by
  simp [Matches]

theorem reports_sendLocked (hbytes : sentBytes (dataSetTimestamp data time) = some bytes)
    (links : List Link) (link : Option Link) :
    Reports complete (datahubSendLocked takes time links link data true) ↔
      Matches bytes complete ∨ ∀ a ∈ link, takes a = false ∨ bytes = none := by
  cases link with
  | none => exact iff_of_true ⟨_, rfl, .inr ⟨rfl, neg_ne_zero.2 one_ne_zero⟩⟩ (.inr (by simp))
  | some a =>
    have hsend : udpSocketSend takes (stamped time data true) a = some (attempt takes bytes a) := by
      change (sentBytes (dataSetTimestamp data time)).map _ = _
      rw [hbytes]
      rfl
    simp only [datahubSendLocked, hsend, Option.map_some, Option.mem_def, Option.some.injEq,
      forall_eq']
    by_cases hgoes : takes a = true ∧ bytes ≠ none
    · obtain ⟨b, rfl⟩ := Option.ne_none_iff_exists'.1 hgoes.2
      have hret : (attempt takes (some b) a).ret = 0 := by simp [attempt, hgoes.1]
      rw [if_neg (by simp [hret])]
      simp [Reports, sent_attempt, hgoes.1, Matches]
    · have hret : (attempt takes bytes a).ret = -1 := by
        cases bytes with
        | none => simp [attempt]
        | some b =>
          have htakes : takes a = false := by simpa using hgoes
          simp [attempt, htakes]
      have hnone : (Outcome.mk (-1) (listRemove links a) [attempt takes bytes a]).sent = [] := by
        rw [sent_attempt]
        split_ifs with htakes
        · have hbytes : bytes = none := by simpa [htakes] using hgoes
          rw [hbytes]
          rfl
        · rfl
      rw [if_pos (by rw [hret]; decide)]
      refine iff_of_true ⟨_, rfl, .inr ⟨hnone, neg_ne_zero.2 one_ne_zero⟩⟩ (.inr ?_)
      cases htakes : takes a with
      | false => exact .inl rfl
      | true => exact .inr (by simpa [htakes] using hgoes)

theorem sent_broadcast (ret : ℤ) (links others : List Link) :
    (Outcome.mk ret links (others.map (attempt takes bytes))).sent =
      (others.filter (takes ·)).flatMap fun _ => bytes.toList := by
  induction others with
  | nil => rfl
  | cons l others ih =>
    have hcons : (Outcome.mk ret links ((l :: others).map (attempt takes bytes))).sent =
        (if takes l then bytes.toList else []) ++
          (Outcome.mk ret links (others.map (attempt takes bytes))).sent := by
      rw [← sent_attempt ret links l, Outcome.sent, Outcome.sent, Outcome.sent, ← List.filterMap_append,
        ← List.filter_append]
      rfl
    rw [hcons, ih, List.filter_cons]
    split_ifs <;> simp

theorem reports_broadcastLocked (hbytes : sentBytes (dataSetTimestamp data time) = some bytes)
    (hub : Hub) (exclude : Option Link) :
    Reports complete (datahubBroadcastLocked takes time hub.links exclude data true) ↔
      Matches bytes complete ∧ ∃ l ∈ hub.links, ¬ Excluded exclude l ∧ takes l = true := by
  have hstamped : sentBytes (stamped time data true) = some bytes := hbytes
  rw [datahubBroadcastLocked_eq hstamped hub.distinct]
  simp only [Reports, Option.some.injEq, exists_eq_left', sent_broadcast, ne_eq, not_true,
    and_false, or_false]
  have hreached : (∃ l ∈ hub.links, ¬ Excluded exclude l ∧ takes l = true) ↔
      ((hub.links.filter (¬ Excluded exclude ·)).filter (takes ·)) ≠ [] := by
    constructor
    · intro ⟨l, hl, hothers⟩
      exact List.ne_nil_of_mem (a := l) (by simp [hl, hothers])
    · intro hne
      obtain ⟨l, hl⟩ := List.exists_mem_of_ne_nil _ hne
      exact ⟨l, by simpa [and_assoc, and_comm] using hl⟩
  rw [hreached]
  obtain ⟨others, hothers⟩ : ∃ others,
      others = (hub.links.filter (¬ Excluded exclude ·)).filter (takes ·) := ⟨_, rfl⟩
  rw [← hothers]
  cases bytes with
  | none => simp [Matches]
  | some b =>
    cases others with
    | nil => simp
    | cons l others =>
      simp only [List.flatMap_cons, Option.toList_some, List.mem_append, List.mem_flatMap, Matches,
        List.mem_singleton, Option.some.injEq, exists_eq_left']
      constructor
      · intro ⟨_, hall⟩
        exact ⟨hall b (.inl rfl), by simp⟩
      · intro ⟨hb, _⟩
        refine ⟨by simp, ?_⟩
        rintro a (rfl | ⟨_, _, rfl⟩)
        · exact hb
        · exact hb

theorem reports_datalinkSend (hbytes : sentBytes (dataSetTimestamp data time) = some bytes)
    (remoteAddr : Option Link) :
    Reports complete (datalinkSend takes remoteAddr (dataSetTimestamp data time)) ↔
      ∃ a, remoteAddr = some a ∧ (Matches bytes complete ∨ takes a = false ∨ bytes = none) := by
  cases remoteAddr with
  | none => simp [datalinkSend, Reports, Outcome.sent]
  | some a =>
    have hsend : udpSocketSend takes (dataSetTimestamp data time) a = some (attempt takes bytes a) := by
      rw [udpSocketSend, hbytes]
      rfl
    simp only [datalinkSend, hsend, Option.map_some, Reports, Option.some.injEq, exists_eq_left',
      sent_attempt]
    cases bytes with
    | none => simp [Matches, attempt]
    | some b => cases htakes : takes a <;> simp [Matches, attempt, htakes]

end Sent

/-! ## What is in a filled packet -/

/-- The function that was to fill the packet returned `err`, and these are the bytes of the packet. -/
def Fills (time : UInt64) (filled : Exec (ℤ × Data)) (err : ℤ) (bytes : Option Bytes) : Prop :=
  ∃ data, filled = some (err, data) ∧ sentBytes (dataSetTimestamp data time) = some bytes

section Fill
variable {takes : Link → Bool} {time : UInt64} {data : Data} {hub : Hub}

theorem sentBytes_stamped (h : InBounds data) :
    ∃ b, sentBytes (dataSetTimestamp data time) = some (some b) ∧
      b.drop packetHeader = (array data).take data.len.toNat := by
  refine ⟨_, sentBytes_inBounds h, ?_⟩
  have hsize := data.size
  have hpacket : (dataSetTimestamp data time).packet.drop packetHeader = array data := by
    change (splice data.packet 4 (ByteOrder.toLe 8 time.toNat).reverse).drop packetHeader = _
    rw [drop_splice (by rw [hsize, packetMaxlen]; omega) (by simp [packetHeader])]
    rfl
  rw [List.drop_take, hpacket, Nat.add_sub_cancel_left]
  rfl

theorem sentBytes_negative (h : data.len < 0) :
    ∃ bytes, sentBytes (dataSetTimestamp data time) = some bytes ∧
      (∀ b ∈ bytes, b.drop packetHeader = []) ∧ (bytes = none ↔ data.len < -packetHeader) := by
  have hsame : (dataSetTimestamp data time).len = data.len := rfl
  simp only [sentBytes, hsame]
  by_cases hneg : (packetHeader : ℤ) + data.len < 0
  · exact ⟨none, by rw [if_pos hneg], by simp, iff_of_true rfl (by omega)⟩
  · refine ⟨some _, by rw [if_neg hneg, if_pos (by simp only [packetHeader, packetMaxlen]; omega)], ?_,
      iff_of_false (Option.some_ne_none _) (by omega)⟩
    intro b hb
    rw [← Option.some.inj hb]
    refine List.drop_of_length_le ((List.length_take_le _ _).trans ?_)
    omega

theorem fills_stored {stored : Data} {written : Bytes} {len : ℕ}
    (hpacket : stored.packet = splice data.packet packetHeader written) (hlen : len ≤ written.length)
    (hmax : len ≤ dataMaxlen) :
    ∃ b, sentBytes (dataSetTimestamp { stored with len := len } time) = some (some b) ∧
      b.drop packetHeader = written.take len := by
  obtain ⟨b, hsent, hdrop⟩ := @sentBytes_stamped time { stored with len := len }
    ⟨Int.natCast_nonneg _, Int.ofNat_le.2 hmax⟩
  refine ⟨b, hsent, hdrop.trans ?_⟩
  have harray : array { stored with len := len } = written ++ (array data).drop written.length :=
    array_splice hpacket
  rw [harray, Int.toNat_natCast, List.take_append_of_le_length hlen]

theorem fills_vprintf (t : CStr) (hsmall : t.length < 2 ^ 31) :
    ∃ err bytes, Fills time (dataVprintf data (.text t hsmall)) err bytes ∧
      (err = 0 ↔ t.length < dataMaxlen) ∧ bytes ≠ none ∧
      (Matches bytes (some t) ↔ t.length < dataMaxlen) := by
  obtain ⟨stored, hpacket, heq⟩ := dataVprintf_eq data (.text t hsmall)
  have hwritten : (Formatting.text t hsmall).written = t.take (dataMaxlen - 1) ++ [0] := rfl
  rw [hwritten] at hpacket
  by_cases hfits : t.length < dataMaxlen
  · have hall : t.take (dataMaxlen - 1) = t := List.take_of_length_le (by omega)
    rw [hall] at hpacket
    obtain ⟨b, hsent, hdrop⟩ := @fills_stored time data stored _ t.length hpacket (by simp) hfits.le
    rw [List.take_left] at hdrop
    have hresult : ¬ (Formatting.text t hsmall).result ≥ dataMaxlen :=
      not_le.2 (Int.ofNat_lt.2 hfits)
    rw [if_neg hresult] at heq
    refine ⟨0, some b, ⟨_, heq, hsent⟩, iff_of_true rfl hfits, by simp, ?_⟩
    exact iff_of_true ⟨b, rfl, congrArg some hdrop⟩ hfits
  · have hcut : (t.take (dataMaxlen - 1)).length = dataMaxlen - 1 := by
      rw [List.length_take]
      omega
    obtain ⟨b, hsent, hdrop⟩ := @fills_stored time data stored _ (dataMaxlen - 1) hpacket
      (by rw [List.length_append, hcut]; omega) (by omega)
    rw [List.take_left' hcut] at hdrop
    have hresult : (Formatting.text t hsmall).result ≥ dataMaxlen := Int.ofNat_le.2 (not_lt.1 hfits)
    rw [if_pos hresult] at heq
    refine ⟨-1, some b, ⟨_, heq, hsent⟩, iff_of_false (by decide) hfits, by simp, ?_⟩
    rw [matches_some, hdrop, Option.some.injEq]
    refine iff_of_false (fun hsame => ?_) hfits
    have hlength := congrArg List.length hsame
    rw [hcut] at hlength
    simp only [dataMaxlen] at hlength hfits
    omega

theorem fills_vprintf_failure {result : ℤ} (hneg : result < 0) (left : Bytes)
    (hfits : left.length ≤ dataMaxlen) :
    ∃ bytes, Fills time (dataVprintf data (.failure result hneg left hfits)) 0 bytes ∧
      (∀ b ∈ bytes, b.drop packetHeader = []) ∧ (bytes = none ↔ result < -packetHeader) := by
  obtain ⟨stored, -, heq⟩ := dataVprintf_eq data (.failure result hneg left hfits)
  have hmax : ¬ (Formatting.failure result hneg left hfits).result ≥ dataMaxlen := by
    simp only [Formatting.result, dataMaxlen]
    omega
  rw [if_neg hmax] at heq
  obtain ⟨bytes, hsent, hcut, hnone⟩ := @sentBytes_negative time { stored with len := result } hneg
  exact ⟨bytes, ⟨_, heq, hsent⟩, hcut, hnone⟩

theorem fills_serialise {t : CStr} (hzero : 0 ∉ t) (hfits : t.length < dataMaxlen) :
    ∃ bytes, Fills time (dataSerialise data (.text t hzero hfits)) 0 bytes ∧
      Matches bytes (some t) := by
  obtain ⟨stored, hpacket, heq⟩ := @dataSerialise_text data t hzero hfits
  obtain ⟨b, hsent, hdrop⟩ := @fills_stored time data stored _ t.length hpacket (by simp) hfits.le
  rw [List.take_left] at hdrop
  exact ⟨some b, ⟨_, heq, hsent⟩, b, rfl, congrArg some hdrop⟩

theorem fills_setData {s : Bytes} {len : ℤ} (hsource : len ≤ s.length) (hpos : 0 ≤ len) :
    ∃ data' bytes, dataSetData data (some s) len = some data' ∧
      sentBytes (dataSetTimestamp data' time) = some bytes ∧ bytes ≠ none ∧
      (Matches bytes (some (s.take len.toNat)) ↔ len ≤ dataMaxlen) := by
  obtain ⟨n, hn⟩ : ∃ n : ℕ, (n : ℤ) = if len > dataMaxlen then (dataMaxlen : ℤ) else len := by
    split_ifs
    · exact ⟨_, rfl⟩
    · exact ⟨len.toNat, Int.toNat_of_nonneg hpos⟩
  have hle : n ≤ s.length ∧ n ≤ dataMaxlen := by
    split_ifs at hn <;> omega
  have htake : (s.take n).length = n := by
    rw [List.length_take]
    omega
  obtain ⟨stored, hstored, -, hpacket⟩ := @store_start data (s.take n) (htake.trans_le hle.2)
  obtain ⟨b, hsent, hdrop⟩ := @fills_stored time data stored _ n hpacket htake.ge hle.2
  refine ⟨{ stored with len := n }, some b, ?_, hsent, by simp, ?_⟩
  · simp only [dataSetData, ← hn]
    rw [if_neg (by omega), Int.toNat_natCast, hstored, Option.map_some]
  · rw [List.take_take, Nat.min_self] at hdrop
    rw [matches_some, hdrop, Option.some.injEq]
    constructor
    · intro hsame
      have hlength := congrArg List.length hsame
      rw [htake, List.length_take] at hlength
      split_ifs at hn <;> omega
    · intro hfits
      rw [if_neg (not_lt.2 hfits)] at hn
      rw [← hn, Int.toNat_natCast]

end Fill

/-! ## When nothing is cut without a word -/

def Prints (format : Formatting) : Prop := ∃ t ∈ textOf format, t.length < dataMaxlen

/-- The length is so negative that `sendto` refuses the packet. -/
def OutOfRange : Formatting → Prop
  | .text _ _ => False
  | .failure result _ _ _ => result < -packetHeader

namespace Content

def Whole : Content → Prop
  | num text => text.length < dataMaxlen
  | str value => (quoted value).length < dataMaxlen
  | obj value => objectText value ≠ none
  | f format | v format => Prints format
  | bin data len _ => data ≠ none ∧ 0 ≤ len ∧ len ≤ dataMaxlen

def Refused : Content → Prop
  | num text => dataMaxlen ≤ text.length ∧ text.length < 2 ^ 31
  | str value => dataMaxlen ≤ (quoted value).length ∧ (quoted value).length < 2 ^ 31
  | obj value => objectText value = none
  | f _ | v _ | bin _ _ _ => False

def Defined : Content → Prop
  | bin data len _ => data = none ∨ 0 ≤ len
  | _ => True

/-- What was left in the packet by an earlier call is of no use either. -/
def Unsendable (output : Packet) : Content → Prop
  | f format | v format => OutOfRange format
  | bin data _ _ => data = none ∧ output.len < -packetHeader
  | _ => False

def filled (output : Data) : Content → Exec (ℤ × Data)
  | num text => dataPrintf output (vsnprintf text)
  | str value => dataPrintf output (vsnprintf (quoted value))
  | obj value => dataSerialise output value
  | f format | v format => (dataVprintf output format).map fun r => (0, r.2)
  | bin data len _ => (dataSetData output data len).map fun output => (0, output)

end Content

/-- A call does not go wrong unnoticed: what it is to send fits, or it is refused, or a packet for one
link does not go out. A broadcast reaches someone, and a data link has somewhere to send to. -/
def Call.Sound (takes : Link → Bool) (hub : Hub) : Call → Prop
  | send link content => content.Whole ∨ content.Refused ∨
      (content.Defined ∧ ∀ a ∈ link, takes a = false ∨ content.Unsendable hub.output)
  | broadcast exclude content => content.Refused ∨
      (content.Whole ∧ ∃ l ∈ hub.links, ¬ Excluded exclude l ∧ takes l = true)
  | datalinkF _ remoteAddr format => (∃ t ∈ textOf format, dataMaxlen ≤ t.length) ∨
      ∃ a, remoteAddr = some a ∧ (Prints format ∨ takes a = false ∨ OutOfRange format)
  | datalinkObj _ remoteAddr obj => objectText obj = none ∨ remoteAddr ≠ none

section Assemble
variable {takes : Link → Bool} {time : UInt64} {hub : Hub}

theorem inAnyCase_eq (links : List Link) (filled : Exec (ℤ × Data)) (send : Data → Exec Outcome) :
    inAnyCase filled send = ifFilled links (filled.map fun r => (0, r.2)) send := by
  cases filled <;> rfl

theorem bind_eq (links : List Link) (set : Exec Data) (send : Data → Exec Outcome) :
    set.bind send = ifFilled links (set.map fun data => (0, data)) send := by
  cases set <;> rfl

theorem run_send (link : Option Link) (content : Content) :
    (Call.send link content).run takes time hub =
      ifFilled hub.links (content.filled hub.output.toData) fun output =>
        datahubSendLocked takes time hub.links link output true := by
  cases content with
  | num | str | obj => rfl
  | f | v =>
    simp only [Call.run, datahubSendF, datahubSendV, Content.filled]
    rw [inAnyCase_eq hub.links]
  | bin =>
    simp only [Call.run, datahubSendBin, Content.filled]
    rw [bind_eq hub.links]

theorem run_broadcast (exclude : Option Link) (content : Content) :
    (Call.broadcast exclude content).run takes time hub =
      ifFilled hub.links (content.filled hub.output.toData) fun output =>
        datahubBroadcastLocked takes time hub.links exclude output true := by
  cases content with
  | num | str | obj => rfl
  | f | v =>
    simp only [Call.run, datahubBroadcastF, datahubBroadcastV, Content.filled]
    rw [inAnyCase_eq hub.links]
  | bin =>
    simp only [Call.run, datahubBroadcastBin, Content.filled]
    rw [bind_eq hub.links]

/-- What a sender finds out about a packet that was to be filled: whether it is refused (`R`), whole
(`W`) or nothing that `sendto` takes (`U`). -/
structure Filling (time : UInt64) (filled : Exec (ℤ × Data)) (complete : Option Bytes) (R W U : Prop)
    (err : ℤ) (bytes : Option Bytes) : Prop where
  fills : Fills time filled err bytes
  refused : err ≠ 0 ↔ R
  whole : ¬ R → (Matches bytes complete ↔ W)
  unsendable : ¬ R → (bytes = none ↔ U)

theorem filling_vprintf (time : UInt64) (output : Data) (format : Formatting) :
    ∃ err bytes, Filling time (dataVprintf output format) (textOf format)
      (∃ t ∈ textOf format, dataMaxlen ≤ t.length) (Prints format) (OutOfRange format) err bytes := by
  cases format with
  | text t hsmall =>
    obtain ⟨err, bytes, hfills, herr, hsome, hmatches⟩ := @fills_vprintf time output t hsmall
    refine ⟨err, bytes, hfills, ?_, fun _ => ?_, fun _ => ?_⟩
    · simp [textOf, herr]
    · simpa [Prints, textOf] using hmatches
    · exact iff_of_false hsome id
  | failure result hneg left hfits =>
    obtain ⟨bytes, hfills, -, hnone⟩ := @fills_vprintf_failure time output result hneg left hfits
    refine ⟨0, bytes, hfills, by simp [textOf], fun _ => ?_, fun _ => hnone⟩
    simp [Matches, Prints, textOf]

theorem filling_printf (time : UInt64) (output : Data) (text : CStr) :
    ∃ err bytes, Filling time (dataPrintf output (vsnprintf text)) (some text)
      (dataMaxlen ≤ text.length ∧ text.length < 2 ^ 31) (text.length < dataMaxlen) False err bytes := by
  by_cases hsmall : text.length < 2 ^ 31
  · obtain ⟨err, bytes, hfills, herr, hsome, hmatches⟩ := @fills_vprintf time output text hsmall
    have hformat : vsnprintf text = .text text hsmall := dif_pos hsmall
    refine ⟨err, bytes, by rw [hformat]; exact hfills, ?_, fun _ => hmatches, fun _ => iff_of_false hsome id⟩
    rw [and_iff_left hsmall, Ne, herr, not_lt]
  · obtain ⟨bytes, hfills, hcut, hnone⟩ :=
      @fills_vprintf_failure time output (-1) (by decide) [] (Nat.zero_le _)
    have hformat : vsnprintf text = .failure (-1) (by decide) [] (Nat.zero_le _) := dif_neg hsmall
    refine ⟨0, bytes, by rw [hformat]; exact hfills, ?_, fun _ => ?_, fun _ => ?_⟩
    · exact iff_of_false (fun h => h rfl) fun h => hsmall h.2
    · refine iff_of_false ?_ fun hfits => hsmall (hfits.trans (by decide))
      rintro ⟨b, hb, hsame⟩
      rw [hcut b hb, Option.some.injEq] at hsame
      rw [← hsame] at hsmall
      exact hsmall (by decide)
    · rw [hnone]
      decide

theorem filling_serialise (time : UInt64) {output : Data} (houtput : output.len ≤ dataMaxlen)
    (obj : Serialisation) :
    ∃ err bytes, Filling time (dataSerialise output obj) (objectText obj) (objectText obj = none)
      (objectText obj ≠ none) False err bytes := by
  cases obj with
  | text t hzero hfits =>
    obtain ⟨bytes, hfills, hmatches⟩ := @fills_serialise time output t hzero hfits
    refine ⟨0, bytes, hfills, by simp [objectText], fun _ => ?_, fun _ => ?_⟩
    · exact iff_of_true hmatches (Option.some_ne_none t)
    · obtain ⟨b, rfl, -⟩ := hmatches
      simp
  | failure result hresult left hfits =>
    obtain ⟨stored, hlen, heq⟩ := @dataSerialise_failure output result hresult left hfits
    have hstored : stored.len ≤ dataMaxlen := hlen.trans_le houtput
    obtain ⟨bytes, hsent⟩ := @sentBytes_bounded (dataSetTimestamp stored time) hstored
    refine ⟨-1, bytes, ⟨stored, heq, hsent⟩, by simp [objectText], ?_, ?_⟩
    · exact fun h => absurd rfl h
    · exact fun h => absurd rfl h

theorem filling_unchecked (time : UInt64) (output : Data) (format : Formatting) :
    ∃ bytes, Filling time ((dataVprintf output format).map fun r => (0, r.2)) (textOf format) False
      (Prints format) (OutOfRange format) 0 bytes := by
  cases format with
  | text t hsmall =>
    obtain ⟨err, bytes, ⟨data, heq, hsent⟩, -, hsome, hmatches⟩ :=
      @fills_vprintf time output t hsmall
    refine ⟨bytes, ⟨data, by rw [heq, Option.map_some], hsent⟩, by simp, fun _ => ?_, fun _ => ?_⟩
    · simpa [Prints, textOf] using hmatches
    · exact iff_of_false hsome id
  | failure result hneg left hfits =>
    obtain ⟨bytes, ⟨data, heq, hsent⟩, -, hnone⟩ :=
      @fills_vprintf_failure time output result hneg left hfits
    refine ⟨bytes, ⟨data, by rw [heq, Option.map_some], hsent⟩, by simp, fun _ => ?_, fun _ => hnone⟩
    simp [Matches, Prints, textOf]

theorem filling_setData (time : UInt64) (output : Packet) {data : Option Bytes} {len : ℤ}
    (hsource : ∀ bytes ∈ data, len ≤ bytes.length) (hdefined : data = none ∨ 0 ≤ len) :
    ∃ bytes, Filling time ((dataSetData output.toData data len).map fun output => (0, output))
      (if 0 ≤ len then data.map (·.take len.toNat) else none) False
      (data ≠ none ∧ 0 ≤ len ∧ len ≤ dataMaxlen) (data = none ∧ output.len < -packetHeader) 0
      bytes := by
  cases data with
  | none =>
    obtain ⟨bytes, hsent⟩ := @sentBytes_bounded (dataSetTimestamp output.toData time) output.bounded
    refine ⟨bytes, ⟨_, rfl, hsent⟩, by simp, fun _ => ?_, fun _ => ?_⟩
    · simp [Matches]
    · rw [and_iff_right rfl]
      by_cases hneg : output.len < 0
      · obtain ⟨bytes', hsent', -, hnone⟩ := @sentBytes_negative time output.toData hneg
        rwa [Option.some.inj (hsent.symm.trans hsent')]
      · obtain ⟨b, hsent', -⟩ := @sentBytes_stamped time output.toData ⟨not_lt.1 hneg, output.bounded⟩
        rw [Option.some.inj (hsent.symm.trans hsent')]
        exact iff_of_false (Option.some_ne_none b) (by omega)
  | some s =>
    have hpos : 0 ≤ len := hdefined.resolve_left (Option.some_ne_none s)
    obtain ⟨stored, bytes, heq, hsent, hsome, hmatches⟩ :=
      @fills_setData time output.toData s len (hsource s rfl) hpos
    refine ⟨bytes, ⟨stored, by rw [heq, Option.map_some], hsent⟩, by simp, fun _ => ?_, fun _ => ?_⟩
    · rw [if_pos hpos, Option.map_some, hmatches]
      simp [hpos]
    · exact iff_of_false hsome fun h => Option.some_ne_none s h.1

/-- A filled packet of any kind, unless bytes would be copied from beyond the data. -/
theorem filling_content (time : UInt64) (output : Packet) (content : Content) :
    (¬ content.Defined ∧ content.filled output.toData = none) ∨
      (content.Defined ∧ ∃ err bytes, Filling time (content.filled output.toData) content.complete
        content.Refused content.Whole (content.Unsendable output) err bytes) := by
  cases content with
  | num text => exact .inr ⟨trivial, filling_printf time _ text⟩
  | str value => exact .inr ⟨trivial, filling_printf time _ (quoted value)⟩
  | obj value => exact .inr ⟨trivial, filling_serialise time output.bounded value⟩
  | f format => exact .inr ⟨trivial, 0, filling_unchecked time _ format⟩
  | v format => exact .inr ⟨trivial, 0, filling_unchecked time _ format⟩
  | bin data len hsource =>
    by_cases hdefined : data = none ∨ 0 ≤ len
    · exact .inr ⟨hdefined, 0, filling_setData time output hsource hdefined⟩
    · obtain ⟨hdata, hneg⟩ := not_or.1 hdefined
      obtain ⟨s, rfl⟩ := Option.ne_none_iff_exists'.1 hdata
      refine .inl ⟨hdefined, ?_⟩
      rw [Content.filled, dataSetData_negative (not_le.1 hneg), Option.map_none]

/-! ## The senders -/

theorem whole_defined {content : Content} (h : content.Whole) : content.Defined := by
  cases content with
  | num | str | obj | f | v => trivial
  | bin => exact .inr h.2.1

theorem refused_defined {content : Content} (h : content.Refused) : content.Defined := by
  cases content with
  | num | str | obj => trivial
  | f | v | bin => exact h.elim

theorem reports_ifFilled {filled : Exec (ℤ × Data)} {send : Data → Exec Outcome}
    {complete : Option Bytes} {R W U P : Prop} {err : ℤ} {bytes : Option Bytes}
    (h : Filling time filled complete R W U err bytes)
    (hsend : ∀ data : Data, sentBytes (dataSetTimestamp data time) = some bytes →
      (Reports complete (send data) ↔ P)) (links : List Link) :
    Reports complete (ifFilled links filled send) ↔ R ∨ P := by
  obtain ⟨data, heq, hsent⟩ := h.fills
  rw [heq]
  simp only [ifFilled]
  by_cases herr : err = 0
  · have hnot : ¬ R := fun hR => h.refused.2 hR herr
    rw [if_pos herr, hsend data hsent, or_iff_right hnot]
  · rw [if_neg herr]
    exact iff_of_true ⟨_, rfl, .inr ⟨rfl, herr⟩⟩ (.inl (h.refused.1 herr))

theorem not_reports_none (complete : Option Bytes) : ¬ Reports complete none := by
  simp [Reports]

theorem reports_send (takes : Link → Bool) (time : UInt64) (hub : Hub) (link : Option Link)
    (content : Content) :
    Reports content.complete ((Call.send link content).run takes time hub) ↔
      (Call.send link content).Sound takes hub := by
  rw [run_send]
  obtain ⟨hundefined, hnone⟩ | ⟨hdefined, err, bytes, hfilling⟩ :=
    filling_content time hub.output content
  · rw [hnone]
    refine iff_of_false (not_reports_none _) ?_
    rintro (hwhole | hrefused | ⟨hdefined, -⟩)
    · exact hundefined (whole_defined hwhole)
    · exact hundefined (refused_defined hrefused)
    · exact hundefined hdefined
  · rw [reports_ifFilled hfilling fun data hsent => reports_sendLocked hsent hub.links link]
    by_cases hrefused : content.Refused
    · exact iff_of_true (.inl hrefused) (.inr (.inl hrefused))
    · rw [or_iff_right hrefused, hfilling.whole hrefused, hfilling.unsendable hrefused, Call.Sound,
        or_iff_right hrefused, and_iff_right hdefined]

theorem reports_broadcast (takes : Link → Bool) (time : UInt64) (hub : Hub) (exclude : Option Link)
    (content : Content) :
    Reports content.complete ((Call.broadcast exclude content).run takes time hub) ↔
      (Call.broadcast exclude content).Sound takes hub := by
  rw [run_broadcast]
  obtain ⟨hundefined, hnone⟩ | ⟨-, err, bytes, hfilling⟩ := filling_content time hub.output content
  · rw [hnone]
    refine iff_of_false (not_reports_none _) ?_
    rintro (hrefused | ⟨hwhole, -⟩)
    · exact hundefined (refused_defined hrefused)
    · exact hundefined (whole_defined hwhole)
  · rw [reports_ifFilled hfilling fun data hsent => reports_broadcastLocked hsent hub exclude]
    by_cases hrefused : content.Refused
    · exact iff_of_true (.inl hrefused) (.inl hrefused)
    · rw [or_iff_right hrefused, hfilling.whole hrefused, Call.Sound, or_iff_right hrefused]

theorem reports_datalinkF (takes : Link → Bool) (time : UInt64) (hub : Hub) (out : Packet)
    (remoteAddr : Option Link) (format : Formatting) :
    Reports (textOf format) ((Call.datalinkF out remoteAddr format).run takes time hub) ↔
      (Call.datalinkF out remoteAddr format).Sound takes hub := by
  obtain ⟨err, bytes, hfilling⟩ := filling_vprintf time out.toData format
  rw [Call.run, datalinkSendF,
    reports_ifFilled hfilling fun data hsent => reports_datalinkSend hsent remoteAddr]
  refine or_congr_right' fun hrefused => ?_
  rw [hfilling.whole hrefused, hfilling.unsendable hrefused]

theorem reports_datalinkObj (takes : Link → Bool) (time : UInt64) (hub : Hub) (out : Packet)
    (remoteAddr : Option Link) (obj : Serialisation) :
    Reports (objectText obj) ((Call.datalinkObj out remoteAddr obj).run takes time hub) ↔
      (Call.datalinkObj out remoteAddr obj).Sound takes hub := by
  obtain ⟨err, bytes, hfilling⟩ := filling_serialise time out.bounded obj
  rw [Call.run, datalinkSendObj,
    reports_ifFilled hfilling fun data hsent => reports_datalinkSend hsent remoteAddr]
  refine or_congr_right' fun hrefused => ?_
  rw [Option.ne_none_iff_exists']
  refine exists_congr fun a => and_iff_left (.inl ?_)
  exact (hfilling.whole hrefused).2 hrefused

/-- A sender sends the complete text or data, or sends nothing and says so, exactly if the call is
sound. -/
theorem complete_or_reported_iff (takes : Link → Bool) (time : UInt64) (hub : Hub) (call : Call) :
    Reports call.complete (call.run takes time hub) ↔ call.Sound takes hub := by
  cases call with
  | send link content => exact reports_send takes time hub link content
  | broadcast exclude content => exact reports_broadcast takes time hub exclude content
  | datalinkF out remoteAddr format => exact reports_datalinkF takes time hub out remoteAddr format
  | datalinkObj out remoteAddr obj => exact reports_datalinkObj takes time hub out remoteAddr obj

end Assemble

/-- One byte more than fits with its zero. -/
def longFormat : Formatting :=
  .text (List.replicate dataMaxlen 97) (by rw [List.length_replicate]; decide)

def receiver : Link := ⟨0, ⟨⟨10, 0, 0, 1⟩, 5000⟩⟩

def smallHub : Hub where
  links := [receiver]
  distinct := List.nodup_singleton 0
  output := ⟨newData, Int.natCast_nonneg _⟩

/-- The text is cut, sent, and the call returns 0. -/
theorem long_format_is_cut :
    ((Call.send (some receiver) (.f longFormat)).run (fun _ => true) 0 smallHub).map
        (fun r => (r.ret, r.sent.map (·.length))) = some (0, [packetMaxlen - 1]) ∧
      ¬ Reports (Call.send (some receiver) (.f longFormat)).complete
        ((Call.send (some receiver) (.f longFormat)).run (fun _ => true) 0 smallHub) := by
  have hlength : (List.replicate dataMaxlen (97 : UInt8)).length = dataMaxlen := List.length_replicate
  refine ⟨?_, fun h => ?_⟩
  · decide +kernel
  · obtain ⟨t, ht, hfits⟩ | hrefused | ⟨-, hlink⟩ := (reports_send _ _ _ _ _).1 h
    · rw [← Option.some.inj ht, hlength] at hfits
      exact lt_irrefl _ hfits
    · exact hrefused
    · obtain htakes | hunsendable := hlink receiver rfl
      · exact Bool.noConfusion htakes
      · exact hunsendable

end Rcom.DatahubSenders
