import Rcom.Dump
import Rcom.Lib.Splice

/-!
# Packets and their length (data.c, net.c)

The length of a packet comes from a caller, from what was printed, from a datagram or from a file.
What `vsnprintf` and `json_tostring` do is part of the input.
-/

namespace Rcom.Packets
open Rcom.Lib Rcom.Lib.ByteOrder Rcom.Datahub Rcom.Dump

/-- A text is printed, as much of it as there is room for. On a failure some bytes may have been
written. -/
inductive Formatting where
  | text (t : Bytes) (small : t.length < 2 ^ 31)
  | failure (result : ℤ) (negative : result < 0) (left : Bytes) (fits : left.length ≤ dataMaxlen)

/-- An object is written as a text with its zero, or does not fit. -/
inductive Serialisation where
  | text (t : CStr) (zero : 0 ∉ t) (fits : t.length < dataMaxlen)
  | failure (result : ℤ) (nonzero : result ≠ 0) (left : Bytes) (fits : left.length ≤ dataMaxlen)

/-- A text too long for an `int` is an error. -/
def vsnprintf (t : CStr) : Formatting :=
  if h : t.length < 2 ^ 31 then .text t h else .failure (-1) (by decide) [] (Nat.zero_le _)

namespace Formatting

def result : Formatting → ℤ
  | text t _ => t.length
  | failure result _ _ _ => result

def written : Formatting → Bytes
  | text t _ => t.take (dataMaxlen - 1) ++ [0]
  | failure _ _ left _ => left

theorem written_fits (p : Formatting) : p.written.length ≤ dataMaxlen := by
  cases p with
  | text t h =>
    simp only [written, List.length_append, List.length_take, List.length_singleton, dataMaxlen]
    omega
  | failure _ _ left h => exact h

end Formatting

namespace Serialisation

def result : Serialisation → ℤ
  | text _ _ _ => 0
  | failure result _ _ _ => result

def written : Serialisation → Bytes
  | text t _ _ => t ++ [0]
  | failure _ _ left _ => left

end Serialisation

/-! ## Writing into the packet -/

/-- The array `data` of the packet. -/
def array (data : Data) : Bytes := data.packet.drop packetHeader

theorem size_splice (data : Data) {pos : ℕ} {bytes : Bytes} (h : pos + bytes.length ≤ packetMaxlen) :
    (splice data.packet pos bytes).length = packetMaxlen := by
  rw [splice_length (by rw [data.size]; exact h), data.size]

theorem fits_packet {i : ℤ} {bytes : Bytes} (h : 0 ≤ i ∧ i + bytes.length ≤ dataMaxlen) :
    packetHeader + i.toNat + bytes.length ≤ packetMaxlen := by
  simp only [packetHeader, packetMaxlen, dataMaxlen] at h ⊢
  omega

theorem packetHeader_le : packetHeader ≤ packetMaxlen := by decide

def store (data : Data) (i : ℤ) (bytes : Bytes) : Exec Data :=
  if h : 0 ≤ i ∧ i + bytes.length ≤ dataMaxlen then
    some { data with
      packet := splice data.packet (packetHeader + i.toNat) bytes
      size := size_splice data (fits_packet h) }
  else none

/-! ## Setting the data -/

/-- A negative number of bytes to copy is a huge one. -/
def dataSetData (data : Data) (s : Option Bytes) (len : ℤ) : Exec Data :=
  match s with
  | none => some data
  | some s =>
    let len := if len > dataMaxlen then (dataMaxlen : ℤ) else len
    if len < 0 ∨ s.length < len then none
    else (store data 0 (s.take len.toNat)).map fun data => { data with len }

def dataAppendZero (data : Data) : Exec Data :=
  if data.len ≤ dataMaxlen - 1 then
    (store data data.len [0]).map fun data => { data with len := data.len + 1 }
  else store data (dataMaxlen - 1) [0]

def dataVprintf (data : Data) (format : Formatting) : Exec (ℤ × Data) :=
  (store data 0 format.written).map fun data =>
    if format.result ≥ dataMaxlen then (-1, { data with len := dataMaxlen - 1 })
    else (0, { data with len := format.result })

def dataPrintf (data : Data) (format : Formatting) : Exec (ℤ × Data) := dataVprintf data format

/-- `strlen`, if there is a zero in the packet. -/
def strlen (data : Data) : Exec ℕ :=
  if 0 ∈ array data then some ((array data).takeWhile (· ≠ 0)).length else none

def dataSerialise (data : Data) (obj : Serialisation) : Exec (ℤ × Data) := do
  let data ← store data 0 obj.written
  if obj.result ≠ 0 then return (-1, data)
  else
    let len ← strlen data
    return (0, { data with len := len })

/-- The C string that is handed to the parser, and the data afterwards. -/
def dataParse (data : Data) : Exec (CStr × Data) :=
  (dataAppendZero data).map fun data => ((array data).takeWhile (· ≠ 0), data)

/-! ## The header -/

def setHeader (data : Data) (pos : ℕ) (bytes : Bytes) (h : pos + bytes.length ≤ packetHeader) : Data :=
  { data with
    packet := splice data.packet pos bytes
    size := size_splice data (h.trans packetHeader_le) }

def dataSetTimestamp (data : Data) (t : UInt64) : Data :=
  setHeader data 4 (toLe 8 t.toNat).reverse (by simp [packetHeader])

def dataSetSeqnum (data : Data) (n : UInt32) : Data :=
  setHeader data 0 (toLe 4 n.toNat).reverse (by simp [packetHeader])

/-! ## Sending -/

/-- The bytes that `sendto` is told to send: `some none` if there are fewer than none of them, which
it refuses. -/
def sentBytes (data : Data) : Exec (Option Bytes) :=
  let n := packetHeader + data.len
  if n < 0 then some none
  else if n ≤ packetMaxlen then some (some (data.packet.take n.toNat))
  else none

/-! ## Any operations on one packet -/

/-- The source of `setData` is as long as it is said to be. `udpRead` receives a datagram, or nothing
because of an error, and `dumpRead` reads from a file. -/
inductive Op where
  | setData (s : Option Bytes) (len : ℤ) (source : ∀ bytes ∈ s, len ≤ bytes.length)
  | setLen (len : ℤ)
  | appendZero
  | printf (format : Formatting)
  | vprintf (format : Formatting)
  | serialise (obj : Serialisation)
  | parse
  | udpRead (incoming : Incoming) (addr : Addr)
  | dumpRead (dump : Dump) (file : Bytes)

namespace Op

def apply (data : Data) : Op → Exec Data
  | setData s len _ => dataSetData data s len
  | setLen len => some (dataSetLen data len)
  | appendZero => dataAppendZero data
  | printf format => (dataPrintf data format).map (·.2)
  | vprintf format => (dataVprintf data format).map (·.2)
  | serialise obj => (dataSerialise data obj).map (·.2)
  | parse => (dataParse data).map (·.2)
  | udpRead incoming addr => (udpSocketRead [incoming] data addr).map (·.2.1)
  | dumpRead dump file => (dumpReadData { dump with fp := some file } data).map (·.2.1)

/-- No length given or returned is negative. -/
def Nonnegative : Op → Prop
  | setData s len _ => s = none ∨ 0 ≤ len
  | printf format | vprintf format => 0 ≤ format.result
  | _ => True

end Op

def run : Data → List Op → Exec Data
  | data, [] => some data
  | data, op :: ops => (op.apply data).bind fun data => run data ops

def InBounds (data : Data) : Prop := 0 ≤ data.len ∧ data.len ≤ dataMaxlen

/-- The length is in its bounds, and a datagram has the header and nothing from beyond the packet. -/
def Sound (data : Data) : Prop :=
  InBounds data ∧ ∃ bytes, sentBytes data = some (some bytes) ∧ packetHeader ≤ bytes.length

theorem sentBytes_inBounds {data : Data} (h : InBounds data) :
    sentBytes data = some (some (data.packet.take (packetHeader + data.len.toNat))) := by
  obtain ⟨h0, hlen⟩ := h
  simp only [dataMaxlen] at hlen
  have hn : (packetHeader + data.len).toNat = packetHeader + data.len.toNat := by
    simp only [packetHeader]
    omega
  rw [sentBytes, if_neg (by simp only [packetHeader]; omega),
    if_pos (by simp only [packetHeader, packetMaxlen]; omega), hn]

theorem sound_iff {data : Data} : Sound data ↔ InBounds data := by
  refine ⟨And.left, fun h => ⟨h, _, sentBytes_inBounds h, ?_⟩⟩
  obtain ⟨h0, hlen⟩ := h
  rw [List.length_take, data.size]
  simp only [packetHeader, dataMaxlen, packetMaxlen] at hlen ⊢
  omega

/-! ### What each operation does to the length -/

section Length
variable {data : Data} {i : ℤ} {bytes : Bytes}

theorem store_defined (h0 : 0 ≤ i) (h : i + bytes.length ≤ dataMaxlen) :
    ∃ stored, store data i bytes = some stored ∧ stored.len = data.len ∧
      stored.packet = splice data.packet (packetHeader + i.toNat) bytes := by
  rw [store, dif_pos ⟨h0, h⟩]
  exact ⟨_, rfl, rfl, rfl⟩

theorem store_start (h : bytes.length ≤ dataMaxlen) :
    ∃ stored, store data 0 bytes = some stored ∧ stored.len = data.len ∧
      stored.packet = splice data.packet packetHeader bytes :=
  store_defined (le_refl 0) (by omega)

theorem dataSetLen_inBounds (len : ℤ) : InBounds (dataSetLen data len) := by
  simp only [InBounds, dataSetLen]
  split_ifs <;> omega

theorem dataSetData_inBounds {s : Option Bytes} {len : ℤ} (h : InBounds data)
    (hsource : ∀ bytes ∈ s, len ≤ bytes.length) (hlen : s = none ∨ 0 ≤ len) :
    ∃ data', dataSetData data s len = some data' ∧ InBounds data' := by
  cases s with
  | none => exact ⟨data, rfl, h⟩
  | some s =>
    have hs : len ≤ s.length := hsource s rfl
    have hpos : 0 ≤ len := hlen.resolve_left (by simp)
    obtain ⟨n, hn⟩ : ∃ n, n = if len > dataMaxlen then (dataMaxlen : ℤ) else len := ⟨_, rfl⟩
    have hn0 : 0 ≤ n ∧ n ≤ s.length ∧ n ≤ dataMaxlen := by
      rw [hn]
      split_ifs <;> omega
    obtain ⟨stored, hstored, -⟩ := @store_start data (s.take n.toNat) (by rw [List.length_take]; omega)
    refine ⟨{ stored with len := n }, ?_, hn0.1, hn0.2.2⟩
    simp only [dataSetData, ← hn]
    rw [if_neg (by omega), hstored, Option.map_some]

theorem dataSetData_negative {s : Bytes} {len : ℤ} (h : len < 0) :
    dataSetData data (some s) len = none := by
  have hmax : ¬ len > dataMaxlen := by
    simp only [dataMaxlen]
    omega
  simp only [dataSetData, if_neg hmax]
  rw [if_pos (.inl h)]

theorem dataAppendZero_inBounds (h : InBounds data) :
    ∃ data', dataAppendZero data = some data' ∧ InBounds data' := by
  obtain ⟨h0, hlen⟩ := h
  unfold dataAppendZero
  split_ifs with hroom
  · obtain ⟨stored, hstored, hsame, -⟩ := @store_defined data data.len [0] h0 (by simp; omega)
    refine ⟨{ stored with len := stored.len + 1 }, by rw [hstored, Option.map_some], ?_⟩
    have hnext : 0 ≤ stored.len + 1 ∧ stored.len + 1 ≤ dataMaxlen := by omega
    exact hnext
  · obtain ⟨stored, hstored, hsame, -⟩ := @store_defined data (dataMaxlen - 1) [0] (by decide) (by simp)
    exact ⟨stored, hstored, by rw [hsame]; exact h0, by rw [hsame]; exact hlen⟩

theorem dataVprintf_eq (data : Data) (format : Formatting) :
    ∃ stored : Data, stored.packet = splice data.packet packetHeader format.written ∧
      dataVprintf data format =
        some (if format.result ≥ dataMaxlen then (-1, { stored with len := dataMaxlen - 1 })
          else (0, { stored with len := format.result })) := by
  obtain ⟨stored, hstored, -, hpacket⟩ := @store_start data _ format.written_fits
  exact ⟨stored, hpacket, by rw [dataVprintf, hstored, Option.map_some]⟩

theorem dataVprintf_inBounds_iff (format : Formatting) :
    (∃ data', (dataVprintf data format).map (·.2) = some data' ∧ InBounds data') ↔
      0 ≤ format.result := by
  obtain ⟨stored, -, heq⟩ := dataVprintf_eq data format
  rw [heq, Option.map_some]
  split_ifs with hlong
  · refine iff_of_true ⟨_, rfl, ?_, ?_⟩ (by simp only [dataMaxlen] at hlong; omega)
    · change 0 ≤ (dataMaxlen : ℤ) - 1
      decide
    · change (dataMaxlen : ℤ) - 1 ≤ dataMaxlen
      decide
  · constructor
    · rintro ⟨data', hdata', hbounds⟩
      rw [← Option.some.inj hdata'] at hbounds
      exact hbounds.1
    · intro hpos
      exact ⟨_, rfl, hpos, (not_le.1 hlong).le⟩

/-- The text at the start of the array, up to the zero behind it. -/
theorem takeWhile_zero {t : CStr} (h : 0 ∉ t) (rest : Bytes) :
    (t ++ 0 :: rest).takeWhile (· ≠ 0) = t := by
  have hall : ∀ c ∈ t, (fun c : UInt8 => decide (c ≠ 0)) c = true :=
    fun c hc => decide_eq_true fun heq => h (heq ▸ hc)
  rw [List.takeWhile_append_of_pos hall]
  simp

theorem array_splice {stored : Data} (hpacket : stored.packet = splice data.packet packetHeader bytes) :
    array stored = bytes ++ (array data).drop bytes.length := by
  have hsize := data.size
  rw [array, hpacket, drop_splice_start _ (by simp only [hsize, packetHeader, packetMaxlen]; omega),
    array, List.drop_drop]

theorem dataSerialise_text {t : CStr} (hzero : 0 ∉ t) (hfits : t.length < dataMaxlen) :
    ∃ stored : Data, stored.packet = splice data.packet packetHeader (t ++ [0]) ∧
      dataSerialise data (.text t hzero hfits) = some (0, { stored with len := t.length }) := by
  have hwritten : (t ++ [0]).length ≤ dataMaxlen := by
    rw [List.length_append]
    exact hfits
  obtain ⟨stored, hstored, -, hpacket⟩ := @store_start data (t ++ [0]) hwritten
  refine ⟨stored, hpacket, ?_⟩
  have harray : array stored = t ++ 0 :: (array data).drop (t ++ [0]).length := by
    rw [array_splice hpacket, List.append_assoc]
    rfl
  have hstrlen : strlen stored = some t.length := by
    rw [strlen, harray, if_pos (by simp), takeWhile_zero hzero]
  simp [dataSerialise, Serialisation.written, Serialisation.result, hstored, hstrlen]

theorem dataSerialise_failure {result : ℤ} (hresult : result ≠ 0) (left : Bytes)
    (hfits : left.length ≤ dataMaxlen) :
    ∃ stored : Data, stored.len = data.len ∧
      dataSerialise data (.failure result hresult left hfits) = some (-1, stored) := by
  obtain ⟨stored, hstored, hlen, -⟩ := @store_start data left hfits
  exact ⟨stored, hlen, by simp [dataSerialise, Serialisation.written, Serialisation.result, hstored, hresult]⟩

theorem dataSerialise_inBounds (h : InBounds data) (obj : Serialisation) :
    ∃ err data', dataSerialise data obj = some (err, data') ∧ InBounds data' := by
  cases obj with
  | text t hzero hfits =>
    obtain ⟨stored, -, heq⟩ := @dataSerialise_text data t hzero hfits
    refine ⟨0, _, heq, ?_, ?_⟩
    · exact Int.natCast_nonneg _
    · exact Int.ofNat_le.2 hfits.le
  | failure result hresult left hfits =>
    obtain ⟨stored, hlen, heq⟩ := @dataSerialise_failure data result hresult left hfits
    refine ⟨-1, stored, heq, ?_⟩
    rwa [InBounds, hlen]

theorem dumpReadData_inBounds (h : InBounds data) (dump : Dump) (file : Bytes) :
    ∃ err data' dump', dumpReadData { dump with fp := some file } data = some (err, data', dump') ∧
      InBounds data' := by
  have hstore : ∀ b : Bytes, b.length ≤ packetMaxlen →
      ∃ stored, storePacket data b = some stored ∧ stored.len = data.len := by
    intro b hb
    rw [storePacket, dif_pos hb]
    exact ⟨_, rfl, rfl⟩
  unfold dumpReadData
  simp only [dumpRead, dumpReadBuffer, Option.map_some]
  by_cases hword : (file.take 4).length = 4
  · simp only [hword, if_pos]
    rw [if_neg (by simp)]
    by_cases hn : wordSize (file.take 4) > dataMaxlen
    · rw [if_pos hn]
      exact ⟨_, _, _, rfl, h⟩
    · have hle : ((file.drop 4).take (wordSize (file.take 4))).length ≤ packetMaxlen := by
        rw [List.length_take]
        simp only [packetMaxlen, dataMaxlen] at hn ⊢
        omega
      obtain ⟨stored, hstored, hlen⟩ := hstore _ hle
      simp only [if_neg hn, hstored, Option.map_some]
      by_cases hall : ((file.drop 4).take (wordSize (file.take 4))).length = wordSize (file.take 4)
      · rw [if_pos hall, if_neg (by simp)]
        exact ⟨_, _, _, rfl, dataSetLen_inBounds _⟩
      · rw [if_neg hall, if_pos (by decide)]
        exact ⟨_, _, _, rfl, by rwa [InBounds, hlen]⟩
  · simp only [if_neg hword]
    rw [if_pos (by decide)]
    exact ⟨_, _, _, rfl, h⟩

end Length

/-! ### Runs -/

/-- An operation keeps the length in its bounds unless a length that it is given or that is
returned to it is negative. -/
theorem apply_inBounds_iff {data : Data} (h : InBounds data) (op : Op) :
    (∃ data', op.apply data = some data' ∧ InBounds data') ↔ op.Nonnegative := by
  cases op with
  | setData s len hsource =>
    constructor
    · intro ⟨data', hdata', _⟩
      cases s with
      | none => exact .inl rfl
      | some s =>
        refine .inr (not_lt.1 fun hneg => ?_)
        rw [Op.apply, dataSetData_negative hneg] at hdata'
        cases hdata'
    · intro hlen
      exact dataSetData_inBounds h hsource hlen
  | setLen len => exact iff_of_true ⟨_, rfl, dataSetLen_inBounds len⟩ trivial
  | appendZero => exact iff_of_true (dataAppendZero_inBounds h) trivial
  | printf format => exact dataVprintf_inBounds_iff format
  | vprintf format => exact dataVprintf_inBounds_iff format
  | serialise obj =>
    obtain ⟨err, data', heq, hbounds⟩ := dataSerialise_inBounds h obj
    exact iff_of_true ⟨data', by rw [Op.apply, heq, Option.map_some], hbounds⟩ trivial
  | parse =>
    obtain ⟨data', heq, hbounds⟩ := dataAppendZero_inBounds h
    exact iff_of_true ⟨data', by rw [Op.apply, dataParse, heq]; rfl, hbounds⟩ trivial
  | udpRead incoming addr =>
    refine iff_of_true ?_ trivial
    cases incoming with
    | datagram source bytes => exact ⟨_, rfl, dataSetLen_inBounds _⟩
    | failure => exact ⟨data, rfl, h⟩
  | dumpRead dump file =>
    obtain ⟨err, data', dump', heq, hbounds⟩ := dumpReadData_inBounds h dump file
    exact iff_of_true ⟨data', by rw [Op.apply, heq, Option.map_some], hbounds⟩ trivial

/-- The data is sound after these operations and after any first ones of them. -/
def StaysSound (data : Data) (ops : List Op) : Prop :=
  ∀ front, front <+: ops → ∃ data', run data front = some data' ∧ Sound data'

theorem staysSound_cons {data : Data} (h : InBounds data) (op : Op) (ops : List Op) :
    StaysSound data (op :: ops) ↔
      ∃ data', op.apply data = some data' ∧ InBounds data' ∧ StaysSound data' ops := by
  constructor
  · intro hall
    obtain ⟨data', hrun, hsound⟩ := hall [op] ⟨ops, rfl⟩
    obtain ⟨next, hnext, heq⟩ := Option.bind_eq_some_iff.1 hrun
    cases heq
    refine ⟨data', hnext, hsound.1, ?_⟩
    intro front hfront
    obtain ⟨data'', hrun', hsound'⟩ := hall (op :: front) ((List.prefix_cons_inj op).2 hfront)
    rw [run, hnext] at hrun'
    exact ⟨data'', hrun', hsound'⟩
  · intro ⟨data', hnext, hbounds, hrest⟩ front hfront
    rcases List.prefix_cons_iff.1 hfront with rfl | ⟨front', rfl, hfront'⟩
    · exact ⟨data, rfl, sound_iff.2 h⟩
    · obtain ⟨data'', hrun, hsound⟩ := hrest front' hfront'
      exact ⟨data'', by rw [run, hnext]; exact hrun, hsound⟩

theorem staysSound_iff {data : Data} {ops : List Op} (h : InBounds data) :
    StaysSound data ops ↔ ∀ op ∈ ops, op.Nonnegative := by
  induction ops generalizing data with
  | nil =>
    refine iff_of_true ?_ (by simp)
    intro front hfront
    rw [List.prefix_nil.1 hfront]
    exact ⟨data, rfl, sound_iff.2 h⟩
  | cons op ops ih =>
    rw [staysSound_cons h, List.forall_mem_cons, ← apply_inBounds_iff h]
    constructor
    · intro ⟨data', hnext, hbounds, hrest⟩
      exact ⟨⟨data', hnext, hbounds⟩, (ih hbounds).1 hrest⟩
    · intro ⟨⟨data', hnext, hbounds⟩, hrest⟩
      exact ⟨data', hnext, hbounds, (ih hbounds).2 hrest⟩

theorem newData_inBounds : InBounds newData := ⟨le_refl 0, by decide⟩

/-- The length of a packet stays in its bounds exactly if no length is negative that
`data_set_data` is given or that `vsnprintf` returns. -/
theorem packet_length_kept_iff (ops : List Op) :
    StaysSound newData ops ↔ ∀ op ∈ ops, op.Nonnegative := staysSound_iff newData_inBounds

/-- `vsnprintf` fails. -/
def failed : Formatting := .failure (-1) (by decide) [] (Nat.zero_le _)

theorem failed_format_sets_length :
    (run newData [.vprintf failed]).map (·.len) = some (-1) ∧ ¬ StaysSound newData [.vprintf failed] := by
  refine ⟨rfl, fun h => ?_⟩
  obtain ⟨data, hrun, hsound⟩ := h [.vprintf failed] (List.prefix_refl _)
  have hlen : data.len = -1 := by
    rw [← Option.some.inj hrun]
    rfl
  have hpos := hsound.1.1
  omega

end Rcom.Packets
