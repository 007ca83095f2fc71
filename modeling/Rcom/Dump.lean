import Rcom.Datahub
import Rcom.Lib.ByteOrder
import Rcom.RegistryEntry

/-!
# Dumps (dump.c, data.c)

A dump is a file with four lines, the header, and then records: the number of bytes of a packet,
most significant byte first, and the packet. What is written counts the header of the packet,
and what is read may not be longer than the data of a packet alone.
-/

namespace Rcom
open Rcom.Lib Rcom.Lib.ByteOrder Rcom.Datahub Rcom.RegistryEntry

/-- `fp` has what was written, or what is left to read; using NULL is undefined. `none` as the type
is `TYPE_NONE`. -/
structure Dump where
  fp : Option Bytes
  name : CStr
  type : Option EntryType
  topic : CStr
  mimetype : CStr

namespace Dump

/-! ## Bytes -/

/-- The stream takes everything. -/
def dumpWrite (dump : Dump) (bytes : Bytes) : Exec (ℤ × Dump) :=
  dump.fp.map fun file => (0, { dump with fp := some (file ++ bytes) })

/-- The error code, the bytes that are stored, and the dump afterwards. -/
def dumpRead (dump : Dump) (size : ℕ) : Exec (ℤ × Bytes × Dump) :=
  dump.fp.map fun file =>
    (if (file.take size).length = size then 0 else -1, file.take size,
      { dump with fp := some (file.drop size) })

def dumpReadBuffer (dump : Dump) (size : ℕ) : Exec (ℤ × Bytes × Dump) := dumpRead dump size

/-! ## Records -/

def sizeWord (n : ℕ) : Bytes := (toLe 4 n).reverse

def wordSize (b : Bytes) : ℕ := ofLe b.reverse

/-- The conversion of an `uint32_t` to an `int`. -/
def intOfUint32 (n : ℕ) : ℤ := if n < 2 ^ 31 then n else n - 2 ^ 32

/-- A length that the packet does not have is read past its end. -/
def dumpWriteData (dump : Dump) (data : Data) : Exec (ℤ × Dump) :=
  let n := ((packetHeader + data.len) % 2 ^ 32).toNat
  match dumpWrite dump (sizeWord n) with
  | none => none
  | some (err, dump) =>
    if err ≠ 0 then some (err, dump)
    else if n ≤ packetMaxlen then dumpWrite dump (data.packet.take n)
    else none

/-- Stores bytes from the start of the packet; there is no room for more than `packetMaxlen`. -/
def storePacket (data : Data) (bytes : Bytes) : Exec Data :=
  if h : bytes.length ≤ packetMaxlen then
    some { data with
      packet := bytes ++ data.packet.drop bytes.length
      size := by rw [List.length_append, List.length_drop, data.size]; omega }
  else none

def dumpReadData (dump : Dump) (data : Data) : Exec (ℤ × Data × Dump) :=
  match dumpRead dump 4 with
  | none => none
  | some (err, b, dump) =>
    if err ≠ 0 then some (err, data, dump)
    else
      let n := wordSize b
      if n > dataMaxlen then some (-1, data, dump)
      else
        match dumpReadBuffer dump n with
        | none => none
        | some (err, bytes, dump) =>
          (storePacket data bytes).map fun data =>
            if err ≠ 0 then (err, data, dump)
            else (0, dataSetLen data (intOfUint32 ((n + 2 ^ 32 - packetHeader) % 2 ^ 32)), dump)

/-! ## The header -/

def header (name : CStr) (type : EntryType) (topic mimetype : CStr) : Bytes :=
  name ++ [10] ++ registryTypeToStr type ++ [10] ++ topic ++ [10] ++ mimetype ++ [10]

def dumpCreate (name : CStr) (type : EntryType) (topic mimetype : CStr) : Dump :=
  ⟨some (header name type topic mimetype), name, some type, topic, mimetype⟩

/-- At most `size - 1` bytes, up to the end of the line; `none` at the end of the file. -/
def fgets (size : ℕ) (file : Bytes) : Option (Bytes × Bytes) :=
  if file = [] then none
  else
    let chunk := file.take (size - 1)
    let line := chunk.takeWhile (· ≠ 10) ++ (chunk.dropWhile (· ≠ 10)).take 1
    some (line, file.drop line.length)

def stripNewline (line : Bytes) : CStr := (line.takeWhile (· ≠ 0)).takeWhile (· ≠ 10)

/-- The stream from which the header was read is not kept in the dump. -/
def dumpOpen (file : Bytes) : Option Dump := do
  let (name, file) ← fgets 128 file
  let (stype, file) ← fgets 128 file
  let (topic, file) ← fgets 128 file
  let (mimetype, _) ← fgets 128 file
  return ⟨none, stripNewline name, registryStrToType (stripNewline stype), stripNewline topic,
    stripNewline mimetype⟩

/-! ## Reading records back -/

theorem wordSize_sizeWord {n : ℕ} (h : n < 2 ^ 32) : wordSize (sizeWord n) = n := by
  rw [wordSize, sizeWord, List.reverse_reverse, ofLe_toLe]
  exact Nat.mod_eq_of_lt h

@[simp] theorem length_sizeWord (n : ℕ) : (sizeWord n).length = 4 := by
  rw [sizeWord, List.length_reverse, length_toLe]

theorem intOfUint32_sub {m k : ℕ} (h : m < 2 ^ 31) :
    intOfUint32 ((k + m + 2 ^ 32 - k) % 2 ^ 32) = m := by
  have hsub : (k + m + 2 ^ 32 - k) % 2 ^ 32 = m := by omega
  rw [hsub, intOfUint32, if_pos h]

def record (data : Data) : Bytes :=
  sizeWord (packetHeader + data.len.toNat) ++ data.packet.take (packetHeader + data.len.toNat)

def dataSeqnum (data : Data) : ℕ := wordSize (data.packet.take 4)

def dataTimestamp (data : Data) : ℕ := ofLe ((data.packet.drop 4).take 8).reverse

def payload (data : Data) : Bytes := (data.packet.drop packetHeader).take data.len.toNat

structure Same (data data' : Data) : Prop where
  seqnum : dataSeqnum data' = dataSeqnum data
  timestamp : dataTimestamp data' = dataTimestamp data
  len : data'.len = data.len
  payload : payload data' = payload data

section Record
variable {data data' : Data} (dump : Dump) (file : Bytes)

theorem dumpWriteData_record (h0 : 0 ≤ data.len) (hlen : data.len ≤ dataMaxlen) :
    dumpWriteData { dump with fp := some file } data =
      some (0, { dump with fp := some (file ++ record data) }) := by
  have hn : ((packetHeader + data.len) % 2 ^ 32).toNat = packetHeader + data.len.toNat := by
    simp only [packetHeader, dataMaxlen] at hlen ⊢
    omega
  have hmax : packetHeader + data.len.toNat ≤ packetMaxlen := by
    simp only [packetHeader, dataMaxlen, packetMaxlen] at hlen ⊢
    omega
  unfold dumpWriteData
  simp only [dumpWrite, Option.map_some, hn, ne_eq, not_true, if_false, if_pos hmax]
  rw [record, List.append_assoc]

theorem same_of_packet {n : ℕ} (hn : n = packetHeader + data.len.toNat)
    (hlen : data'.len = data.len) (hpacket : data'.packet.take n = data.packet.take n) :
    Same data data' := by
  have htake : ∀ m ≤ n, data'.packet.take m = data.packet.take m := by
    intro m hm
    rw [← Nat.min_eq_left hm, ← List.take_take, hpacket, List.take_take]
  have hdrop : ∀ a b, a + b ≤ n → (data'.packet.drop a).take b = (data.packet.drop a).take b := by
    intro a b hab
    rw [List.take_drop, List.take_drop, htake _ hab]
  constructor
  · rw [dataSeqnum, dataSeqnum, htake 4 (by rw [hn, packetHeader]; omega)]
  · rw [dataTimestamp, dataTimestamp, hdrop 4 8 (by rw [hn, packetHeader]; omega)]
  · exact hlen
  · rw [payload, payload, hlen, hdrop _ _ hn.ge]

theorem dumpRead_append (bytes : Bytes) :
    dumpRead { dump with fp := some (bytes ++ file) } bytes.length =
      some (0, bytes, { dump with fp := some file }) := by
  simp [dumpRead]

theorem dumpRead_size (data : Data) :
    dumpRead { dump with fp := some (record data ++ file) } 4 =
      some (0, sizeWord (packetHeader + data.len.toNat),
        { dump with fp := some (data.packet.take (packetHeader + data.len.toNat) ++ file) }) := by
  have hread := dumpRead_append dump
    (data.packet.take (packetHeader + data.len.toNat) ++ file)
    (sizeWord (packetHeader + data.len.toNat))
  rwa [length_sizeWord, ← List.append_assoc] at hread

theorem dumpReadData_record (h0 : 0 ≤ data.len) (hlen : data.len ≤ dataMaxlen - packetHeader)
    (into : Data) :
    ∃ data', dumpReadData { dump with fp := some (record data ++ file) } into =
      some (0, data', { dump with fp := some file }) ∧ Same data data' := by
  have hsize := data.size
  obtain ⟨n, hn⟩ : ∃ n, n = packetHeader + data.len.toNat := ⟨_, rfl⟩
  have hmax : n ≤ dataMaxlen := by
    simp only [packetHeader, dataMaxlen] at hlen hn ⊢
    omega
  have hlength : (data.packet.take n).length = n := by
    rw [List.length_take, hsize]
    simp only [packetMaxlen, dataMaxlen] at hmax ⊢
    omega
  have hword : wordSize (sizeWord n) = n := by
    apply wordSize_sizeWord
    simp only [dataMaxlen] at hmax
    omega
  have hread := dumpRead_size dump file data
  rw [← hn] at hread
  have hbuffer := dumpRead_append dump file (data.packet.take n)
  rw [hlength] at hbuffer
  have hstore : (data.packet.take n).length ≤ packetMaxlen := by
    rw [hlength]
    simp only [packetMaxlen, dataMaxlen] at hmax ⊢
    omega
  have hint : intOfUint32 ((n + 2 ^ 32 - packetHeader) % 2 ^ 32) = data.len := by
    rw [hn, intOfUint32_sub]
    · exact Int.toNat_of_nonneg h0
    · rw [← Nat.add_lt_add_iff_left (k := packetHeader), ← hn]
      simp only [dataMaxlen, packetHeader] at hmax ⊢
      omega
  unfold dumpReadData
  simp only [hread, ne_eq, not_true, if_false, hword, gt_iff_lt, not_lt.2 hmax, dumpReadBuffer,
    hbuffer, storePacket, dif_pos hstore, Option.map_some, hint]
  refine ⟨_, rfl, same_of_packet hn ?_ ?_⟩
  · simp only [dataSetLen, packetHeader, dataMaxlen] at hlen ⊢
    split_ifs <;> omega
  · simp only [dataSetLen]
    exact List.take_left' hlength

/-- A longer record is refused, and the packet is what is read next. -/
theorem dumpReadData_long (hlong : dataMaxlen - packetHeader < data.len)
    (hlen : data.len ≤ dataMaxlen) (into : Data) :
    ∃ rest, dumpReadData { dump with fp := some (record data ++ file) } into =
      some (-1, into, { dump with fp := some rest }) := by
  have hword : wordSize (sizeWord (packetHeader + data.len.toNat)) = packetHeader + data.len.toNat := by
    apply wordSize_sizeWord
    simp only [packetHeader, dataMaxlen] at hlen ⊢
    omega
  have hmore : packetHeader + data.len.toNat > dataMaxlen := by
    simp only [packetHeader, dataMaxlen] at hlong ⊢
    omega
  refine ⟨data.packet.take (packetHeader + data.len.toNat) ++ file, ?_⟩
  unfold dumpReadData
  simp only [dumpRead_size, ne_eq, not_true, if_false, hword]
  rw [if_pos hmore]

theorem dumpReadData_end (into : Data) :
    dumpReadData { dump with fp := some [] } into = some (-1, into, { dump with fp := some [] }) := by
  simp [dumpReadData, dumpRead]

theorem dumpReadData_defined (into : Data) :
    dumpReadData { dump with fp := some file } into ≠ none := by
  unfold dumpReadData
  simp only [dumpRead, dumpReadBuffer, Option.map_some]
  by_cases hn : wordSize (file.take 4) > dataMaxlen
  · simp only [if_pos hn]
    split <;> exact Option.some_ne_none _
  · have hstore : ((file.drop 4).take (wordSize (file.take 4))).length ≤ packetMaxlen := by
      rw [List.length_take]
      simp only [packetMaxlen, dataMaxlen] at hn ⊢
      omega
    simp only [if_neg hn, storePacket, dif_pos hstore, Option.map_some]
    split <;> exact Option.some_ne_none _

end Record

/-! ## Lists of records -/

def writeAll (dump : Dump) : List Data → Exec (List ℤ × Dump)
  | [] => some ([], dump)
  | data :: records =>
    match dumpWriteData dump data with
    | none => none
    | some (err, dump) => (writeAll dump records).map fun r => (err :: r.1, r.2)

def readAll (dump : Dump) : List Data → Exec (List (ℤ × Data) × Dump)
  | [] => some ([], dump)
  | into :: more =>
    match dumpReadData dump into with
    | none => none
    | some (err, data, dump) => (readAll dump more).map fun r => ((err, data) :: r.1, r.2)

def ReadsBack (dump : Dump) (file : Bytes) (records : List Data) : Prop :=
  ∀ into last, into.length = records.length → ∃ results last' dump',
    readAll { dump with fp := some file } (into ++ [last]) =
      some (results ++ [(-1, last')], dump') ∧
    List.Forall₂ (fun data (r : ℤ × Data) => r.1 = 0 ∧ Same data r.2) records results

def RoundTrips (dump : Dump) (records : List Data) : Prop :=
  ∃ file, writeAll { dump with fp := some [] } records =
      some (records.map fun _ => 0, { dump with fp := some file }) ∧
    ReadsBack dump file records

variable {dump : Dump} {records : List Data}

theorem writeAll_records (dump : Dump) (h : ∀ data ∈ records, 0 ≤ data.len ∧ data.len ≤ dataMaxlen) (file : Bytes) :
    writeAll { dump with fp := some file } records =
      some (records.map fun _ => 0,
        { dump with fp := some (file ++ records.flatMap record) }) := by
  induction records generalizing file with
  | nil => simp [writeAll]
  | cons data records ih =>
    simp only [List.mem_cons, forall_eq_or_imp] at h
    have hwrite := dumpWriteData_record dump file h.1.1 h.1.2
    simp only [writeAll, hwrite, ih h.2, Option.map_some, List.map_cons, List.flatMap_cons,
      List.append_assoc]

theorem readsBack_iff (h : ∀ data ∈ records, 0 ≤ data.len ∧ data.len ≤ dataMaxlen) :
    ReadsBack dump (records.flatMap record) records ↔
      ∀ data ∈ records, data.len ≤ dataMaxlen - packetHeader := by
  induction records with
  | nil =>
    refine iff_of_true ?_ (by simp)
    intro into last hlength
    rw [List.length_eq_zero_iff.1 hlength]
    refine ⟨[], last, { dump with fp := some [] }, ?_, .nil⟩
    simp only [List.flatMap_nil, List.nil_append, readAll, dumpReadData_end, Option.map_some]
  | cons data records ih =>
    simp only [List.mem_cons, forall_eq_or_imp] at h ⊢
    rw [← ih h.2]
    by_cases hlen : data.len ≤ dataMaxlen - packetHeader
    · simp only [hlen, true_and]
      have hread := dumpReadData_record dump (records.flatMap record) h.1.1 hlen
      rw [← List.flatMap_cons] at hread
      constructor
      · intro hreads into last hlength
        obtain ⟨results, last', dump', hall, hsame⟩ := hreads (newData :: into) last (by simp [hlength])
        obtain ⟨data', hdata', _⟩ := hread newData
        simp only [List.cons_append, readAll, hdata'] at hall
        obtain ⟨r, hr, heq⟩ := Option.map_eq_some_iff.1 hall
        obtain ⟨rs, dump''⟩ := r
        cases hsame with
        | @cons _ result _ results _ hsame =>
          cases heq
          exact ⟨results, last', _, hr, hsame⟩
      · intro hreads into last hlength
        cases into with
        | nil => simp at hlength
        | cons target into =>
          obtain ⟨results, last', dump', hall, hsame⟩ := hreads into last (by simpa using hlength)
          obtain ⟨data', hdata', hsame'⟩ := hread target
          refine ⟨(0, data') :: results, last', dump', ?_, .cons ⟨rfl, hsame'⟩ hsame⟩
          simp only [List.cons_append, readAll, hdata', hall, Option.map_some]
    · refine iff_of_false ?_ (fun h => hlen h.1)
      intro hreads
      obtain ⟨results, last', dump', hall, hsame⟩ :=
        hreads (List.replicate (records.length + 1) newData) newData (by simp)
      obtain ⟨rest, hrefused⟩ :=
        dumpReadData_long dump (records.flatMap record) (not_le.1 hlen) h.1.2 newData
      rw [← List.flatMap_cons] at hrefused
      simp only [List.replicate_succ, List.cons_append, readAll, hrefused] at hall
      obtain ⟨r, hr, heq⟩ := Option.map_eq_some_iff.1 hall
      cases hsame with
      | @cons _ result _ results hfirst hsame =>
        simp only [List.cons_append, Prod.mk.injEq, List.cons.injEq] at heq
        have hcode := hfirst.1
        rw [← heq.1.1] at hcode
        simp at hcode

/-- Records are read back as they were written exactly if the packets are not longer than the data
of a packet may be. No file overflows a packet. -/
theorem records_round_trip_iff (h : ∀ data ∈ records, 0 ≤ data.len ∧ data.len ≤ dataMaxlen) :
    (RoundTrips dump records ∧
        ∀ file into, dumpReadData { dump with fp := some file } into ≠ none) ↔
      ∀ data ∈ records, data.len ≤ dataMaxlen - packetHeader := by
  have hwrite := writeAll_records dump h []
  rw [List.nil_append] at hwrite
  rw [and_iff_left fun file into => dumpReadData_defined dump file into, ← readsBack_iff h]
  constructor
  · intro htrips
    obtain ⟨file, hfile, hreads⟩ := htrips
    rw [hwrite] at hfile
    cases hfile
    exact hreads
  · intro hreads
    exact ⟨_, hwrite, hreads⟩

def zeros (len : ℤ) : Data := { newData with len }

def bare : Dump := ⟨some [], [], none, [], []⟩

theorem long_packet_is_lost : ¬RoundTrips bare [zeros 1409] := by
  intro htrips
  have hlen : ∀ data ∈ [zeros 1409], 0 ≤ data.len ∧ data.len ≤ dataMaxlen := by
    simp [zeros, dataMaxlen]
  obtain ⟨file, hfile, hreads⟩ := htrips
  rw [writeAll_records bare hlen []] at hfile
  cases hfile
  have hshort := (readsBack_iff hlen).1 hreads
  simp [zeros, dataMaxlen, packetHeader] at hshort

theorem longest_packet_is_read : RoundTrips bare [zeros 1408] := by
  have hlen : ∀ data ∈ [zeros 1408], 0 ≤ data.len ∧ data.len ≤ dataMaxlen := by
    simp [zeros, dataMaxlen]
  refine ((records_round_trip_iff hlen).2 ?_).1
  simp [zeros, dataMaxlen, packetHeader]

/-! ## Replaying -/

structure HeaderLine (text : CStr) : Prop where
  zero : 0 ∉ text
  newline : 10 ∉ text
  length : text.length ≤ 126

theorem headerLine_type (type : EntryType) : HeaderLine (registryTypeToStr type) := by
  cases type <;> constructor <;> decide

theorem HeaderLine.noNewline {text : CStr} (h : HeaderLine text) :
    ∀ c ∈ text, (fun c : UInt8 => decide (c ≠ 10)) c = true := by
  intro c hc
  exact decide_eq_true fun heq => h.newline (heq ▸ hc)

theorem HeaderLine.fgets {text : CStr} (h : HeaderLine text) (rest : Bytes) :
    fgets 128 (text ++ 10 :: rest) = some (text ++ [10], rest) := by
  have hchunk : (text ++ 10 :: rest).take (128 - 1) =
      text ++ 10 :: rest.take (126 - text.length) := by
    have hlen := h.length
    have hleft : 128 - 1 - text.length = (126 - text.length) + 1 := by omega
    rw [List.take_append, List.take_of_length_le (by omega), hleft, List.take_succ_cons]
  have hline : (text ++ 10 :: rest.take (126 - text.length)).takeWhile (· ≠ 10) ++
      ((text ++ 10 :: rest.take (126 - text.length)).dropWhile (· ≠ 10)).take 1 = text ++ [10] := by
    rw [List.takeWhile_append_of_pos h.noNewline, List.dropWhile_append_of_pos h.noNewline]
    simp
  unfold Dump.fgets
  simp only [hchunk, hline]
  rw [if_neg (by simp)]
  simp

theorem HeaderLine.strip {text : CStr} (h : HeaderLine text) : stripNewline (text ++ [10]) = text := by
  have hzero : ∀ c ∈ text ++ [10], (fun c : UInt8 => decide (c ≠ 0)) c = true := by
    intro c hc
    rcases List.mem_append.1 hc with hc | hc
    · exact decide_eq_true fun heq => h.zero (heq ▸ hc)
    · rw [List.mem_singleton.1 hc]
      decide
  rw [stripNewline, List.takeWhile_eq_self_iff.2 hzero, List.takeWhile_append_of_pos h.noNewline]
  simp

theorem dumpOpen_header {name topic mimetype : CStr} (type : EntryType) (hname : HeaderLine name)
    (htopic : HeaderLine topic) (hmimetype : HeaderLine mimetype) (written : Bytes) :
    dumpOpen (header name type topic mimetype ++ written) =
      some ⟨none, name, some type, topic, mimetype⟩ := by
  have hfile : header name type topic mimetype ++ written =
      name ++ 10 :: (registryTypeToStr type ++ 10 :: (topic ++ 10 :: (mimetype ++ 10 :: written))) := by
    simp [header]
  simp [dumpOpen, hfile, hname.fgets, (headerLine_type type).fgets, htopic.fgets, hmimetype.fgets,
    hname.strip, (headerLine_type type).strip, htopic.strip, hmimetype.strip,
    registryStrToType_typeToStr]

def readBuffers (dump : Dump) : List ℕ → Exec (List (ℤ × Bytes))
  | [] => some []
  | size :: sizes =>
    match dumpReadBuffer dump size with
    | none => none
    | some (err, bytes, dump) => (readBuffers dump sizes).map ((err, bytes) :: ·)

/-- Opening the file gives a dump with the same description, which goes on with the bytes that were
written after the header. -/
def Replays (name : CStr) (type : EntryType) (topic mimetype : CStr) (written : Bytes) : Prop :=
  ∃ dump, dumpOpen (header name type topic mimetype ++ written) = some dump ∧
    dump.name = name ∧ dump.type = some type ∧ dump.topic = topic ∧ dump.mimetype = mimetype ∧
    (∀ sizes, readBuffers dump sizes = readBuffers { dump with fp := some written } sizes) ∧
    ∀ into, (readAll dump into).map (·.1) = (readAll { dump with fp := some written } into).map (·.1)

theorem not_replays_of_open {name topic mimetype : CStr} {type : EntryType} {written : Bytes}
    {dump : Dump} (hopen : dumpOpen (header name type topic mimetype ++ written) = some dump)
    (hfp : dump.fp = none) : ¬Replays name type topic mimetype written := by
  intro hreplays
  obtain ⟨dump', hopen', -, -, -, -, hbuffers, -⟩ := hreplays
  rw [hopen] at hopen'
  cases hopen'
  have hone := hbuffers [1]
  simp [readBuffers, dumpReadBuffer, dumpRead, hfp] at hone

/-- What is opened is the dump that was created but for its stream, so that it cannot be read. -/
theorem dump_is_not_replayed {name topic mimetype : CStr} (type : EntryType)
    (hname : HeaderLine name) (htopic : HeaderLine topic) (hmimetype : HeaderLine mimetype)
    (written : Bytes) :
    dumpOpen (header name type topic mimetype ++ written) =
        some { dumpCreate name type topic mimetype with fp := none } ∧
      ¬Replays name type topic mimetype written := by
  have hopen := dumpOpen_header type hname htopic hmimetype written
  exact ⟨hopen, not_replays_of_open hopen rfl⟩

theorem cameraDump_is_not_replayed :
    ¬Replays (ascii "camera") .datahub (ascii "camera") (ascii "image/jpeg") (ascii "abc") := by
  have hopen : dumpOpen (header (ascii "camera") .datahub (ascii "camera") (ascii "image/jpeg") ++
      ascii "abc") =
      some ⟨none, ascii "camera", some .datahub, ascii "camera", ascii "image/jpeg"⟩ := by
    apply dumpOpen_header <;> constructor <;> decide
  exact not_replays_of_open hopen rfl

theorem camera_header_is_read :
    dumpOpen (header (ascii "camera") .datahub (ascii "camera") (ascii "image/jpeg") ++ []) =
      some ⟨none, ascii "camera", some .datahub, ascii "camera", ascii "image/jpeg"⟩ := by
  refine (dump_is_not_replayed .datahub ?_ ?_ ?_ []).1 <;> constructor <;> decide

end Dump
end Rcom
