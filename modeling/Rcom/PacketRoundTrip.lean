import Rcom.Packets

/-!
# Packets from a sender to a receiver (data.c, net.c)

A text is printed into a packet and sent without its zero. The receiver keeps one packet, with
what is left in it of those before.
-/

namespace Rcom.Packets
open Rcom.Lib Rcom.Lib.ByteOrder Rcom.Datahub Rcom.Dump

/-- What `json_tostring` does with an object is part of the input. -/
inductive Printer where
  | printf
  | vprintf
  | serialise (obj : Serialisation)

/-- The text of an object is what `json_tostring` writes if it succeeds. -/
structure Message where
  printer : Printer
  text : CStr
  zero : 0 ∉ text
  written : ∀ obj, printer = .serialise obj → obj.result = 0 → obj.written = text ++ [0]
  timestamp : UInt64
  seqnum : UInt32

structure Report where
  timestamp : ℕ
  seqnum : ℕ
  text : CStr

namespace Message

def print (m : Message) (data : Data) : Exec (ℤ × Data) :=
  match m.printer with
  | .printf => dataPrintf data (vsnprintf m.text)
  | .vprintf => dataVprintf data (vsnprintf m.text)
  | .serialise obj => dataSerialise data obj

def Accepted (m : Message) : Prop := ∀ data, ∃ data', m.print data = some (0, data')

def report (m : Message) : Report := ⟨m.timestamp.toNat, m.seqnum.toNat, m.text⟩

end Message

/-- The message is printed, stamped and sent, and the datagram is received and parsed. -/
def exchange (source : Addr) (m : Message) (sender receiver : Data) : Exec (Report × Data × Data) := do
  let (_, sender) ← m.print sender
  let sender := dataSetSeqnum (dataSetTimestamp sender m.timestamp) m.seqnum
  let sent ← sentBytes sender
  let datagram ← sent
  let (_, receiver, _) ← udpSocketRead [.datagram source datagram] receiver source
  let timestamp := dataTimestamp receiver
  let seqnum := dataSeqnum receiver
  let (text, receiver) ← dataParse receiver
  return (⟨timestamp, seqnum, text⟩, sender, receiver)

def exchangeAll (source : Addr) : List Message → Data → Data → Exec (List Report × Data × Data)
  | [], sender, receiver => some ([], sender, receiver)
  | m :: ms, sender, receiver => do
    let (report, sender, receiver) ← exchange source m sender receiver
    let (reports, sender, receiver) ← exchangeAll source ms sender receiver
    return (report :: reports, sender, receiver)

/-! ## The header -/

section Header
variable {data : Data}

def headerOf (seqnum : UInt32) (timestamp : UInt64) : Bytes :=
  (toLe 4 seqnum.toNat).reverse ++ (toLe 8 timestamp.toNat).reverse

@[simp] theorem headerOf_length (seqnum : UInt32) (timestamp : UInt64) :
    (headerOf seqnum timestamp).length = packetHeader := by
  simp [headerOf, packetHeader]

theorem dataSeqnum_eq {seqnum : UInt32} {timestamp : UInt64}
    (h : data.packet.take packetHeader = headerOf seqnum timestamp) : dataSeqnum data = seqnum.toNat := by
  have htake : data.packet.take 4 = (toLe 4 seqnum.toNat).reverse := by
    have hmin : data.packet.take 4 = (data.packet.take packetHeader).take 4 := by
      rw [List.take_take]
      rfl
    rw [hmin, h, headerOf, List.take_left' (by simp)]
  rw [dataSeqnum, htake]
  exact wordSize_sizeWord seqnum.toNat_lt

theorem dataTimestamp_eq {seqnum : UInt32} {timestamp : UInt64}
    (h : data.packet.take packetHeader = headerOf seqnum timestamp) :
    dataTimestamp data = timestamp.toNat := by
  have htake : (data.packet.drop 4).take 8 = (toLe 8 timestamp.toNat).reverse := by
    have hdrop : (data.packet.drop 4).take 8 = (data.packet.take packetHeader).drop 4 := List.take_drop
    rw [hdrop, h, headerOf, List.drop_left' (by simp)]
  rw [dataTimestamp, htake, List.reverse_reverse, ofLe_toLe]
  exact Nat.mod_eq_of_lt timestamp.toNat_lt

theorem stamped_packet (data : Data) (seqnum : UInt32) (timestamp : UInt64) :
    (dataSetSeqnum (dataSetTimestamp data timestamp) seqnum).packet =
      headerOf seqnum timestamp ++ array data := by
  have hsize := data.size
  have hfour : (toLe 4 seqnum.toNat).reverse.length = 4 := by simp
  have height : (toLe 8 timestamp.toNat).reverse.length = 8 := by simp
  change splice (splice data.packet 4 (toLe 8 timestamp.toNat).reverse) 0
    (toLe 4 seqnum.toNat).reverse = _
  rw [splice_zero, hfour, drop_splice_start _ (by rw [hsize, packetMaxlen]; omega), height, headerOf,
    List.append_assoc]
  rfl

end Header

/-! ## One packet -/

structure Holds (data : Data) (text : CStr) : Prop where
  fits : text.length < dataMaxlen
  len : data.len = text.length
  array : (array data).take text.length = text

section Print
variable {data : Data} {m : Message}

theorem Holds.of_splice {stored : Data} {text rest : Bytes} (hfits : text.length < dataMaxlen)
    (hpacket : stored.packet = splice data.packet packetHeader (text ++ rest)) :
    Holds { stored with len := text.length } text := by
  refine ⟨hfits, rfl, ?_⟩
  have harray := array_splice hpacket
  rw [List.append_assoc] at harray
  change (Packets.array stored).take text.length = text
  rw [harray, List.take_left]

theorem dataVprintf_text {text : CStr} (hsmall : text.length < 2 ^ 31)
    (haccepted : ∃ data', dataVprintf data (vsnprintf text) = some (0, data')) :
    ∃ data', dataVprintf data (vsnprintf text) = some (0, data') ∧ Holds data' text := by
  obtain ⟨stored, hpacket, heq⟩ := dataVprintf_eq data (vsnprintf text)
  obtain ⟨data', hdata'⟩ := haccepted
  have hformat : vsnprintf text = .text text hsmall := dif_pos hsmall
  have hresult : (vsnprintf text).result = text.length := by
    rw [hformat]
    rfl
  have hfits : text.length < dataMaxlen := by
    by_contra hlong
    rw [heq, if_pos (by rw [hresult]; exact Int.ofNat_le.2 (not_lt.1 hlong))] at hdata'
    simp at hdata'
  have hwritten : (vsnprintf text).written = text ++ [0] := by
    rw [hformat, Formatting.written, List.take_of_length_le (by omega)]
  rw [hwritten] at hpacket
  have hholds := Holds.of_splice hfits hpacket
  rw [heq, if_neg (by rw [hresult]; exact not_le.2 (Int.ofNat_lt.2 hfits))]
  exact ⟨_, rfl, hresult ▸ hholds⟩

/-- An object that `data_serialise` accepts was written with its zero. -/
theorem serialised_text {obj : Serialisation} {text : CStr}
    (hwritten : obj.result = 0 → obj.written = text ++ [0])
    (haccepted : ∃ data', dataSerialise data obj = some (0, data')) :
    ∃ (zero : 0 ∉ text) (fits : text.length < dataMaxlen), obj = .text text zero fits := by
  cases obj with
  | text t zero fits =>
    obtain rfl := List.append_cancel_right (hwritten rfl)
    exact ⟨zero, fits, rfl⟩
  | failure result nonzero left fits =>
    obtain ⟨data', hdata'⟩ := haccepted
    obtain ⟨stored, -, heq⟩ := @dataSerialise_failure data result nonzero left fits
    rw [heq] at hdata'
    cases hdata'

theorem dataSerialise_accepted {obj : Serialisation} {text : CStr}
    (hwritten : obj.result = 0 → obj.written = text ++ [0])
    (haccepted : ∃ data', dataSerialise data obj = some (0, data')) :
    ∃ data', dataSerialise data obj = some (0, data') ∧ Holds data' text := by
  obtain ⟨hzero, hfits, rfl⟩ := serialised_text hwritten haccepted
  obtain ⟨stored, hpacket, heq⟩ := @dataSerialise_text data text hzero hfits
  exact ⟨_, heq, Holds.of_splice hfits hpacket⟩

theorem print_holds (haccepted : m.Accepted) (hsmall : m.text.length < 2 ^ 31) (data : Data) :
    ∃ data', m.print data = some (0, data') ∧ Holds data' m.text := by
  have haccepted := haccepted data
  obtain ⟨printer, text, hzero, hwritten, timestamp, seqnum⟩ := m
  cases printer with
  | printf => exact dataVprintf_text hsmall haccepted
  | vprintf => exact dataVprintf_text hsmall haccepted
  | serialise obj => exact dataSerialise_accepted (hwritten obj rfl) haccepted

end Print

section Receive
variable {receiver : Data} {header text : Bytes}

/-- Only the bytes of the datagram matter of what the receiver holds. -/
theorem received_holds (receiver : Data) (hheader : header.length = packetHeader) (hfits : text.length < dataMaxlen) :
    Holds (received receiver (header ++ text)) text ∧
      (received receiver (header ++ text)).packet.take packetHeader = header := by
  have hlength : (header ++ text).length = packetHeader + text.length := by
    rw [List.length_append, hheader]
  have hmax : packetHeader + text.length ≤ packetMaxlen := by
    simp only [packetHeader, dataMaxlen, packetMaxlen] at hfits ⊢
    omega
  have hpacket : (received receiver (header ++ text)).packet =
      header ++ (text ++ receiver.packet.drop (packetHeader + text.length)) := by
    change overwrite (header ++ text) receiver.packet = _
    rw [overwrite, hlength, Nat.min_eq_left hmax, List.take_of_length_le (by omega), List.append_assoc]
  refine ⟨⟨hfits, ?_, ?_⟩, ?_⟩
  · simp only [received, dataSetLen, hlength, Nat.min_eq_left hmax]
    simp only [packetHeader, dataMaxlen] at hfits ⊢
    split_ifs <;> omega
  · rw [array, hpacket, ← hheader, List.drop_left, List.take_left]
  · rw [hpacket, ← hheader, List.take_left]

theorem dataParse_holds {data : Data} (h : Holds data text) (hzero : 0 ∉ text) :
    ∃ data', dataParse data = some (text, data') ∧
      data'.packet.take packetHeader = data.packet.take packetHeader := by
  obtain ⟨hfits, hlen, harray⟩ := h
  have hsize := data.size
  have hroom : data.len ≤ dataMaxlen - 1 := by
    rw [hlen]
    omega
  obtain ⟨stored, hstored, -, hpacket⟩ :=
    @store_defined data data.len [0] (by omega) (by rw [List.length_singleton]; omega)
  have hpos : packetHeader + data.len.toNat ≤ data.packet.length := by
    rw [hsize, hlen]
    simp only [packetHeader, packetMaxlen, dataMaxlen] at hfits ⊢
    omega
  have htoNat : data.len.toNat = text.length := by
    rw [hlen]
    rfl
  have htext : array stored = text ++ 0 :: data.packet.drop (packetHeader + text.length + 1) := by
    have hfront := take_splice_end [0] hpos
    have hback := drop_splice_start [0] hpos
    rw [htoNat] at hback
    rw [array, ← List.take_append_drop text.length (stored.packet.drop packetHeader), List.drop_drop,
      hpacket, htoNat, hback]
    congr 1
    rw [window_splice (by rw [← htoNat]; exact hpos) (.inl le_rfl)]
    exact harray
  have happend : dataAppendZero data = some { stored with len := stored.len + 1 } := by
    rw [dataAppendZero, if_pos hroom, hstored, Option.map_some]
  refine ⟨{ stored with len := stored.len + 1 }, ?_, ?_⟩
  · rw [dataParse, happend, Option.map_some]
    change some ((array stored).takeWhile (· ≠ 0), _) = _
    rw [htext, takeWhile_zero hzero]
  · change stored.packet.take packetHeader = _
    rw [hpacket, take_splice hpos (Nat.le_add_right _ _)]

end Receive

section Exchange
variable {source : Addr} {m : Message} {sender receiver : Data}

theorem exchange_small (haccepted : m.Accepted) (hsmall : m.text.length < 2 ^ 31)
    (source : Addr) (sender receiver : Data) :
    ∃ sender' receiver', exchange source m sender receiver = some (m.report, sender', receiver') := by
  obtain ⟨printed, hprint, hfits, hlen, harray⟩ := print_holds haccepted hsmall sender
  set stamped := dataSetSeqnum (dataSetTimestamp printed m.timestamp) m.seqnum with hstamped
  have hstampedLen : stamped.len = m.text.length := hlen
  have hbounds : InBounds stamped := by
    rw [InBounds, hstampedLen]
    omega
  have hsent : sentBytes stamped = some (some (headerOf m.seqnum m.timestamp ++ m.text)) := by
    rw [sentBytes_inBounds hbounds, hstampedLen, hstamped, stamped_packet, Int.toNat_natCast,
      ← headerOf_length m.seqnum m.timestamp, List.take_length_add_append, harray]
  obtain ⟨hholds, hheader⟩ := received_holds receiver
    (headerOf_length m.seqnum m.timestamp) hfits
  obtain ⟨parsed, hparse, -⟩ := dataParse_holds hholds m.zero
  refine ⟨stamped, parsed, ?_⟩
  simp [exchange, hprint, ← hstamped, hsent, udpSocketRead, hparse, dataTimestamp_eq hheader,
    dataSeqnum_eq hheader, Message.report]

/-- A text for which `vsnprintf` fails is accepted, but with a negative length. -/
theorem print_large (haccepted : m.Accepted) (hlarge : 2 ^ 31 ≤ m.text.length) (data : Data) :
    ∃ data', m.print data = some (0, data') ∧ data'.len = -1 := by
  have haccepted := haccepted data
  obtain ⟨printer, text, hzero, hwritten, timestamp, seqnum⟩ := m
  have hlong : ¬ text.length < 2 ^ 31 := not_lt.2 hlarge
  have hprint : ∃ data', dataVprintf data (vsnprintf text) = some (0, data') ∧ data'.len = -1 := by
    obtain ⟨stored, -, heq⟩ := dataVprintf_eq data (vsnprintf text)
    have hresult : (vsnprintf text).result = -1 := by
      rw [vsnprintf, dif_neg hlong]
      rfl
    rw [heq, if_neg (by rw [hresult]; decide)]
    exact ⟨_, rfl, hresult⟩
  cases printer with
  | printf => exact hprint
  | vprintf => exact hprint
  | serialise obj =>
    obtain ⟨-, hfits, -⟩ := serialised_text (hwritten obj rfl) haccepted
    exact absurd (hfits.trans (by decide)) hlong

theorem exchange_large (haccepted : m.Accepted) (hlarge : 2 ^ 31 ≤ m.text.length)
    (source : Addr) (sender receiver : Data) :
    ∃ report sender' receiver', exchange source m sender receiver = some (report, sender', receiver') ∧
      report.text = [] := by
  obtain ⟨printed, hprint, hlen⟩ := print_large haccepted hlarge sender
  set stamped := dataSetSeqnum (dataSetTimestamp printed m.timestamp) m.seqnum with hstamped
  have hstampedLen : stamped.len = -1 := hlen
  have hsent : sentBytes stamped = some (some (stamped.packet.take 11)) := by
    rw [sentBytes, hstampedLen]
    rfl
  have hholds : Holds (received receiver (stamped.packet.take 11)) [] := by
    refine ⟨by decide, ?_, rfl⟩
    have hlength : (stamped.packet.take 11).length = 11 := by
      rw [List.length_take, stamped.size]
      rfl
    simp only [received, dataSetLen, hlength]
    rfl
  obtain ⟨parsed, hparse, -⟩ := dataParse_holds hholds (by simp)
  obtain ⟨report, hreport⟩ : ∃ report : Report, report =
      ⟨dataTimestamp (received receiver (stamped.packet.take 11)),
        dataSeqnum (received receiver (stamped.packet.take 11)), []⟩ := ⟨_, rfl⟩
  refine ⟨report, stamped, parsed, ?_, by rw [hreport]⟩
  simp [exchange, hprint, ← hstamped, hsent, udpSocketRead, hparse, hreport]

/-- A text that fits with its zero is accepted, if `json_tostring` takes it. -/
theorem accepted_of_fits (hfits : m.text.length < dataMaxlen)
    (htaken : ∀ obj, m.printer = .serialise obj → obj.result = 0) : m.Accepted := by
  intro data
  obtain ⟨printer, text, hzero, hwritten, timestamp, seqnum⟩ := m
  have hprint : ∃ data', dataVprintf data (vsnprintf text) = some (0, data') := by
    obtain ⟨stored, -, heq⟩ := dataVprintf_eq data (vsnprintf text)
    have hsmall : text.length < 2 ^ 31 := hfits.trans (by decide)
    have hresult : (vsnprintf text).result = text.length := by
      rw [vsnprintf, dif_pos hsmall]
      rfl
    rw [heq, if_neg (by rw [hresult]; exact not_le.2 (Int.ofNat_lt.2 hfits))]
    exact ⟨_, rfl⟩
  cases printer with
  | printf => exact hprint
  | vprintf => exact hprint
  | serialise obj =>
    cases obj with
    | text t zero fits =>
      obtain ⟨stored, -, heq⟩ := @dataSerialise_text data t zero fits
      exact ⟨_, heq⟩
    | failure result nonzero => exact absurd (htaken _ rfl) nonzero

end Exchange

/-! ## Sequences of packets -/

def Survives (source : Addr) (messages : List Message) (sender receiver : Data) : Prop :=
  ∃ sender' receiver', exchangeAll source messages sender receiver =
    some (messages.map Message.report, sender', receiver')

theorem survives_cons_small {m : Message} (haccepted : m.Accepted) (hsmall : m.text.length < 2 ^ 31)
    (source : Addr) (messages : List Message) (sender receiver : Data) :
    ∃ sender' receiver', Survives source (m :: messages) sender receiver ↔
      Survives source messages sender' receiver' := by
  obtain ⟨sender', receiver', hexchange⟩ := exchange_small haccepted hsmall source sender receiver
  refine ⟨sender', receiver', ?_⟩
  simp only [Survives, exchangeAll, hexchange, Option.bind_eq_bind, Option.bind_some]
  constructor
  · intro ⟨s, r, hall⟩
    obtain ⟨⟨reports, s', r'⟩, hrest, heq⟩ := Option.bind_eq_some_iff.1 hall
    cases heq
    exact ⟨s', r', hrest⟩
  · intro ⟨s, r, hrest⟩
    exact ⟨s, r, by rw [hrest]; rfl⟩

theorem not_survives_cons_large {source : Addr} {m : Message} {messages : List Message}
    {sender receiver : Data} (haccepted : m.Accepted) (hlarge : 2 ^ 31 ≤ m.text.length) :
    ¬ Survives source (m :: messages) sender receiver := by
  intro ⟨s, r, hall⟩
  obtain ⟨report, sender', receiver', hexchange, htext⟩ :=
    exchange_large haccepted hlarge source sender receiver
  simp only [exchangeAll, hexchange, Option.bind_eq_bind, Option.bind_some] at hall
  obtain ⟨⟨reports, s', r'⟩, -, heq⟩ := Option.bind_eq_some_iff.1 hall
  cases heq
  have hnil : m.text = [] := htext
  rw [hnil, List.length_nil] at hlarge
  omega

/-- Accepted packets survive the wire exactly if `vsnprintf` could print their texts. -/
theorem packets_survive_iff {messages : List Message} (haccepted : ∀ m ∈ messages, m.Accepted)
    (source : Addr) (sender receiver : Data) :
    Survives source messages sender receiver ↔ ∀ m ∈ messages, m.text.length < 2 ^ 31 := by
  induction messages generalizing sender receiver with
  | nil => exact iff_of_true ⟨sender, receiver, rfl⟩ (by simp)
  | cons m messages ih =>
    rw [List.forall_mem_cons] at haccepted ⊢
    by_cases hsmall : m.text.length < 2 ^ 31
    · obtain ⟨sender', receiver', hcons⟩ := survives_cons_small haccepted.1 hsmall source
        messages sender receiver
      rw [hcons, ih haccepted.2, and_iff_right hsmall]
    · refine iff_of_false (not_survives_cons_large haccepted.1 (not_lt.1 hsmall)) ?_
      intro hall
      exact hsmall hall.1

def somewhere : Addr := ⟨⟨10, 0, 0, 1⟩, 5000⟩

def trueObject : Serialisation := .text (ascii "true") (by decide) (by decide)

def twoMessages : List Message :=
  [⟨.printf, ascii "\x7b\"x\": 1234\x7d", by decide, by simp, 1000, 1⟩,
    ⟨.serialise trueObject, ascii "true", by decide, fun _ h _ => by cases h; rfl, 2000, 2⟩]

theorem two_messages_survive : Survives somewhere twoMessages newData newData := by
  have hfits : ∀ m ∈ twoMessages, m.text.length < dataMaxlen := by
    simp [twoMessages, ascii, dataMaxlen]
  have htaken : ∀ m ∈ twoMessages, ∀ obj, m.printer = .serialise obj → obj.result = 0 := by
    simp [twoMessages, trueObject, Serialisation.result]
  refine (packets_survive_iff (fun m hm => accepted_of_fits (hfits m hm) (htaken m hm)) _ _ _).2 ?_
  intro m hm
  exact (hfits m hm).trans (by decide)

def hugeMessage : Message where
  printer := .printf
  text := List.replicate (2 ^ 31) 97
  zero h := absurd (List.eq_of_mem_replicate h) (by decide)
  written _ h := absurd h (by simp)
  timestamp := 0
  seqnum := 0

theorem huge_message_is_lost :
    hugeMessage.Accepted ∧ ¬ Survives somewhere [hugeMessage] newData newData := by
  have hlength : hugeMessage.text.length = 2 ^ 31 := List.length_replicate
  have haccepted : hugeMessage.Accepted := by
    intro data
    obtain ⟨stored, -, heq⟩ := dataVprintf_eq data (vsnprintf hugeMessage.text)
    have hresult : (vsnprintf hugeMessage.text).result = -1 := by
      rw [vsnprintf, dif_neg (by rw [hlength]; exact lt_irrefl _)]
      rfl
    rw [if_neg (by rw [hresult]; decide)] at heq
    exact ⟨_, heq⟩
  exact ⟨haccepted, not_survives_cons_large haccepted hlength.ge⟩

end Rcom.Packets
