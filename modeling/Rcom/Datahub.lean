import Rcom.Addr

/-!
# The links of a data hub (datahub.c, udp_socket_read of net.c, data.c)

Every link of a hub has an address record of its own, and `datahub_read` gives that record
to `recvfrom` as the place for the sender's address.
-/

namespace Rcom
open Rcom.Lib Rcom.Addr

def packetMaxlen : ℕ := 1432
def packetHeader : ℕ := 12
def dataMaxlen : ℕ := 1420

/-- A `data_t`: the bytes of the packet, header included, and the length of its data. -/
structure Data where
  packet : Bytes
  len : ℤ
  size : packet.length = packetMaxlen

/-- What the next `recvfrom` on a UDP socket finds. -/
inductive Incoming where
  | datagram (source : Addr) (bytes : Bytes)
  | failure

structure Datahub where
  links : List Addr
  queue : List Incoming
  input : Data
  ondata : Option (Addr → Data → Data)

namespace Datahub

def newData : Data := ⟨List.replicate packetMaxlen 0, 0, List.length_replicate⟩

def dataSetLen (data : Data) (len : ℤ) : Data :=
  { data with len := if len < 0 then 0 else if dataMaxlen < len then dataMaxlen else len }

def contents (data : Data) : Bytes := data.packet.take (packetHeader + data.len).toNat

/-! ## Links -/

def datahubFind : List Addr → Addr → Bool
  | [], _ => false
  | a :: l, addr => addrEq addr a || datahubFind l addr

def datahubAddLink (links : List Addr) (addr : Addr) : List Addr :=
  if datahubFind links addr then links else links ++ [addr]

theorem datahubFind_iff {links : List Addr} {addr : Addr} :
    datahubFind links addr = true ↔ addr ∈ links := by
  induction links with
  | nil => simp [datahubFind]
  | cons a l ih => rw [datahubFind, Bool.or_eq_true, addrEq_iff, ih, List.mem_cons]

/-! ## Reading -/

/-- What `recvfrom` makes of the packet: the datagram, as much of it as fits, and then the
bytes that were there before. -/
def overwrite (bytes packet : Bytes) : Bytes :=
  bytes.take packetMaxlen ++ packet.drop (min bytes.length packetMaxlen)

theorem overwrite_length {bytes packet : Bytes} (h : packet.length = packetMaxlen) :
    (overwrite bytes packet).length = packetMaxlen := by
  rw [overwrite, List.length_append, List.length_take, List.length_drop, h]
  omega

def received (data : Data) (bytes : Bytes) : Data :=
  dataSetLen ⟨overwrite bytes data.packet, data.len, overwrite_length data.size⟩
    ((min bytes.length packetMaxlen : ℕ) - (packetHeader : ℕ))

/-- The error code, the data and the address record afterwards, and what is left to receive.
With nothing to receive the call waits: `none`. -/
def udpSocketRead : List Incoming → Data → Addr → Option (ℤ × Data × Addr × List Incoming)
  | [], _, _ => none
  | .failure :: queue, data, addr => some (-1, data, addr, queue)
  | .datagram source bytes :: queue, data, _ => some (0, received data bytes, source, queue)

abbrev Call := Addr × Data

/-- The callback runs without the lock; here it changes the data at most. -/
def deliver (ondata : Option (Addr → Data → Data)) (link : Addr) (input : Data) : Data × List Call :=
  match ondata with
  | none => (input, [])
  | some f => (f link input, [(link, input)])

/-- The loop of `datahub_read` over the rest of the list. -/
def readLoop (ondata : Option (Addr → Data → Data)) :
    List Addr → Data → List Incoming → Option (List Addr × Data × List Incoming × List Call)
  | [], input, queue => some ([], input, queue, [])
  | link :: list, input, queue =>
    match udpSocketRead queue input link with
    | none => none
    | some (err, input, link, queue) =>
      if err = 0 then
        let (input, calls) := deliver ondata link input
        (readLoop ondata list input queue).map
          fun (links, input, queue, later) => (link :: links, input, queue, calls ++ later)
      else readLoop ondata list input queue

/-- The hub afterwards and the calls of its callback, in order. -/
def datahubRead (hub : Datahub) : Option (Datahub × List Call) :=
  (readLoop hub.ondata hub.links hub.input hub.queue).map
    fun (links, input, queue, calls) => ({ hub with links, input, queue }, calls)

def sender : Incoming → Option Addr
  | .datagram source _ => some source
  | .failure => none

/-- A call receives once for each link, and its links are then the senders of what it
received. -/
theorem readLoop_senders {ondata : Option (Addr → Data → Data)} {links links' : List Addr}
    {input input' : Data} {queue queue' : List Incoming} {calls : List Call}
    (h : readLoop ondata links input queue = some (links', input', queue', calls)) :
    ∃ taken, queue = taken ++ queue' ∧ taken.length = links.length ∧
      links' = taken.filterMap sender := by
  induction links generalizing input queue links' calls with
  | nil =>
    simp only [readLoop, Option.some.injEq, Prod.mk.injEq] at h
    exact ⟨[], h.2.2.1, rfl, h.1.symm⟩
  | cons link list ih =>
    match queue with
    | [] => simp [readLoop, udpSocketRead] at h
    | .failure :: queue =>
      have hrest : readLoop ondata list input queue = some (links', input', queue', calls) := h
      obtain ⟨taken, hqueue, hlength, hlinks⟩ := ih hrest
      refine ⟨.failure :: taken, by rw [hqueue, List.cons_append], by simp [hlength], ?_⟩
      rw [hlinks, List.filterMap_cons_none rfl]
    | .datagram source bytes :: queue =>
      simp only [readLoop, udpSocketRead, if_pos, Option.map_eq_some_iff, Prod.exists,
        Prod.mk.injEq] at h
      obtain ⟨links₁, input₁, queue₁, later, hrest, rfl, rfl, rfl, -⟩ := h
      obtain ⟨taken, hqueue, hlength, hlinks⟩ := ih hrest
      refine ⟨.datagram source bytes :: taken, by rw [hqueue, List.cons_append], by simp [hlength], ?_⟩
      have hsender : sender (.datagram source bytes) = some source := rfl
      rw [hlinks, List.filterMap_cons_some hsender]

/-! ## What a call should do -/

/-- A datagram is read whole when it has a header and fits the packet. -/
def Whole (bytes : Bytes) : Prop := packetHeader ≤ bytes.length ∧ bytes.length ≤ packetMaxlen

theorem contents_received {data : Data} {bytes : Bytes} :
    contents (received data bytes) = bytes ↔ Whole bytes := by
  constructor
  · intro h
    have hlength := congrArg List.length h
    rw [contents, List.length_take, (received data bytes).size] at hlength
    simp only [received, dataSetLen, packetHeader, packetMaxlen, dataMaxlen] at hlength
    simp only [Whole, packetHeader, packetMaxlen]
    split_ifs at hlength <;> omega
  · intro h
    have hmin : min bytes.length packetMaxlen = bytes.length := min_eq_left h.2
    have hlen : (received data bytes).len = bytes.length - packetHeader := by
      simp only [received, dataSetLen, hmin]
      simp only [Whole, packetHeader, packetMaxlen, dataMaxlen] at h ⊢
      split_ifs <;> omega
    have htake : (packetHeader + (received data bytes).len).toNat = bytes.length := by
      rw [hlen]
      omega
    rw [contents, htake]
    change (overwrite bytes data.packet).take bytes.length = bytes
    rw [overwrite, List.take_of_length_le h.2, List.take_left]

/-- The next datagram is consumed and handed over whole, once, and the links stay. -/
def ReadsOne (hub : Datahub) : Prop :=
  ∃ hub' failures source bytes data, datahubRead hub = some (hub', [(source, data)]) ∧
    hub.queue = failures ++ .datagram source bytes :: hub'.queue ∧
    (∀ a ∈ failures, sender a = none) ∧ contents data = bytes ∧ hub'.links = hub.links

theorem datahubRead_single {hub : Datahub} {link source : Addr} {bytes : Bytes}
    {queue : List Incoming} (hlinks : hub.links = [link])
    (hqueue : hub.queue = .datagram source bytes :: queue) :
    datahubRead hub =
      some ({ hub with
          links := [source]
          queue := queue
          input := (deliver hub.ondata source (received hub.input bytes)).1 },
        (deliver hub.ondata source (received hub.input bytes)).2) := by
  rw [datahubRead, hlinks, hqueue]
  simp [readLoop, udpSocketRead]

/-- Only a hub with a single link that sent the next datagram itself reads it so. -/
theorem datahub_read_keeps_links (hub : Datahub) :
    ReadsOne hub ↔ hub.ondata.isSome ∧ ∃ link bytes queue, hub.links = [link] ∧
      hub.queue = .datagram link bytes :: queue ∧ Whole bytes := by
  constructor
  · intro ⟨hub', failures, source, bytes, data, hread, hqueue, hfailures, hdata, hlinks⟩
    have hcalls := hread
    simp only [datahubRead, Option.map_eq_some_iff, Prod.exists, Prod.mk.injEq] at hread
    obtain ⟨links, input, queue, calls, hloop, rfl, rfl⟩ := hread
    obtain ⟨taken, htaken, hlength, hsenders⟩ := readLoop_senders hloop
    have heq : taken = failures ++ [.datagram source bytes] := by
      rw [htaken, List.append_cons] at hqueue
      exact List.append_cancel_right hqueue
    have hlink : hub.links = [source] := by
      have hnone : failures.filterMap sender = [] := List.filterMap_eq_nil_iff.2 hfailures
      calc hub.links = taken.filterMap sender := by rw [← hsenders, ← hlinks]
        _ = [source] := by rw [heq, List.filterMap_append, hnone]; rfl
    have hnil : failures = [] := by
      rw [heq, hlink, List.length_append] at hlength
      exact List.length_eq_zero_iff.1 (by simpa using hlength)
    rw [hnil, List.nil_append] at hqueue
    rw [datahubRead_single hlink hqueue, Option.some.injEq, Prod.mk.injEq] at hcalls
    cases hondata : hub.ondata with
    | none => simp [hondata, deliver] at hcalls
    | some f =>
      have hreceived : received hub.input bytes = data := by
        simpa [hondata, deliver] using hcalls.2
      rw [← hreceived, contents_received] at hdata
      exact ⟨rfl, source, bytes, queue, hlink, hqueue, hdata⟩
  · intro ⟨hondata, link, bytes, queue, hlinks, hqueue, hwhole⟩
    obtain ⟨f, hf⟩ := Option.isSome_iff_exists.1 hondata
    have hread := datahubRead_single hlinks hqueue
    rw [hf] at hread
    exact ⟨_, [], link, bytes, received hub.input bytes, hread, hqueue, by simp,
      contents_received.2 hwhole, hlinks.symm⟩

def strangerHub : Datahub :=
  ⟨[⟨⟨10, 0, 0, 1⟩, 5000⟩], [.datagram ⟨⟨10, 0, 0, 2⟩, 6000⟩ (List.replicate 12 0)], newData,
    some fun _ data => data⟩

theorem stranger_becomes_the_link :
    (datahubRead strangerHub).map (fun r => r.1.links) = some [⟨⟨10, 0, 0, 2⟩, 6000⟩] ∧
      ¬ReadsOne strangerHub := by
  have hread := @datahubRead_single strangerHub _ _ _ _ rfl rfl
  constructor
  · rw [hread]
    rfl
  · intro ⟨hub', _, _, _, _, heq, _, _, _, hlinks⟩
    rw [hread, Option.some.injEq, Prod.mk.injEq] at heq
    rw [← heq.1] at hlinks
    exact absurd hlinks (by decide)

end Datahub
end Rcom
