import Rcom.Escaping
import Rcom.Lib.FirstMatch
import Rcom.Packets

/-!
# Sending to the links of a data hub (datahub.c, datalink.c, net.c)

A packet is sent to one link, or to all but one. The list of links has pointers to address records,
and links are told apart by these. Which links take a packet is part of the input.
-/

namespace Rcom.DatahubSenders
open Rcom.Lib Rcom.Datahub Rcom.Packets

/-- A pointer to an address record, and the address in it. -/
structure Link where
  pointer : ℕ
  addr : Addr
deriving DecidableEq

/-- A packet whose length is not beyond its end. -/
structure Packet extends Data where
  bounded : toData.len ≤ dataMaxlen

/-- Every link has a record of its own. -/
structure Hub where
  links : List Link
  distinct : (links.map (·.pointer)).Nodup
  output : Packet

/-- What was given to `sendto` and what `udp_socket_send` returned; `none` stands for a negative
number of bytes. -/
structure Attempt where
  link : Link
  bytes : Option Bytes
  ret : ℤ

/-- The result of a call, the links afterwards and what was given to `sendto`. -/
structure Outcome where
  ret : ℤ
  links : List Link
  attempts : List Attempt

def Outcome.sent (r : Outcome) : List Bytes :=
  (r.attempts.filter (·.ret = 0)).filterMap (·.bytes)

def listRemove (links : List Link) (link : Link) : List Link :=
  links.eraseP (·.pointer = link.pointer)

section Net
variable (takes : Link → Bool) (time : UInt64)

/-- The packet is too long for `sendto` when its length is negative. -/
def udpSocketSend (data : Data) (link : Link) : Exec Attempt :=
  (sentBytes data).map fun bytes =>
    ⟨link, bytes, if bytes.isSome && takes link then 0 else -1⟩

def stamped (data : Data) (stamp : Bool) : Data :=
  if stamp then dataSetTimestamp data time else data

/-! ## One link -/

def datahubSendLocked (links : List Link) (link : Option Link) (data : Data) (stamp : Bool) :
    Exec Outcome :=
  match link with
  | none => some ⟨-1, links, []⟩
  | some link =>
    (udpSocketSend takes (stamped time data stamp) link).map fun attempt =>
      if attempt.ret ≠ 0 then ⟨-1, listRemove links link, [attempt]⟩
      else ⟨0, links, [attempt]⟩

/-! ## All links but one -/

/-- The first loop: the links to remove, in the order of the list `rm`, and the attempts. -/
def broadcastLoop (exclude : Option Link) (data : Data) :
    List Link → List Link → Exec (List Link × List Attempt)
  | [], rm => some (rm, [])
  | addr :: l, rm =>
    if exclude.map (·.pointer) = some addr.pointer then broadcastLoop exclude data l rm
    else do
      let attempt ← udpSocketSend takes data addr
      let (rm, attempts) ← broadcastLoop exclude data l (if attempt.ret ≠ 0 then addr :: rm else rm)
      return (rm, attempt :: attempts)

def datahubBroadcastLocked (links : List Link) (exclude : Option Link) (data : Data) (stamp : Bool) :
    Exec Outcome :=
  (broadcastLoop takes exclude (stamped time data stamp) links []).map fun (rm, attempts) =>
    ⟨0, rm.foldl listRemove links, attempts⟩

/-! ## Formatting and binary senders -/

/-- The packet is sent if the function that was to fill it returned 0. -/
def ifFilled (links : List Link) (filled : Exec (ℤ × Data)) (send : Data → Exec Outcome) :
    Exec Outcome :=
  match filled with
  | none => none
  | some (r, data) => if r = 0 then send data else some ⟨r, links, []⟩

/-- The packet is sent whatever the function returned. -/
def inAnyCase (filled : Exec (ℤ × Data)) (send : Data → Exec Outcome) : Exec Outcome :=
  filled.bind fun (_, data) => send data

section Send
variable (hub : Hub) (link : Option Link)

/-- `text` is what `%f` makes of the number. -/
def datahubSendNum (text : CStr) : Exec Outcome :=
  ifFilled hub.links (dataPrintf hub.output.toData (vsnprintf text)) fun output =>
    datahubSendLocked takes time hub.links link output true

def datahubSendStr (value : CStr) : Exec Outcome :=
  ifFilled hub.links (dataPrintf hub.output.toData (vsnprintf (quoted value))) fun output =>
    datahubSendLocked takes time hub.links link output true

def datahubSendObj (value : Serialisation) : Exec Outcome :=
  ifFilled hub.links (dataSerialise hub.output.toData value) fun output =>
    datahubSendLocked takes time hub.links link output true

def datahubSendF (format : Formatting) : Exec Outcome :=
  inAnyCase (dataVprintf hub.output.toData format) fun output =>
    datahubSendLocked takes time hub.links link output true

def datahubSendV (format : Formatting) : Exec Outcome :=
  inAnyCase (dataVprintf hub.output.toData format) fun output =>
    datahubSendLocked takes time hub.links link output true

def datahubSendBin (data : Option Bytes) (len : ℤ) : Exec Outcome :=
  (dataSetData hub.output.toData data len).bind fun output =>
    datahubSendLocked takes time hub.links link output true

end Send

section Broadcast
variable (hub : Hub) (exclude : Option Link)

def datahubBroadcastNum (text : CStr) : Exec Outcome :=
  ifFilled hub.links (dataPrintf hub.output.toData (vsnprintf text)) fun output =>
    datahubBroadcastLocked takes time hub.links exclude output true

def datahubBroadcastStr (value : CStr) : Exec Outcome :=
  ifFilled hub.links (dataPrintf hub.output.toData (vsnprintf (quoted value))) fun output =>
    datahubBroadcastLocked takes time hub.links exclude output true

def datahubBroadcastObj (value : Serialisation) : Exec Outcome :=
  ifFilled hub.links (dataSerialise hub.output.toData value) fun output =>
    datahubBroadcastLocked takes time hub.links exclude output true

def datahubBroadcastF (format : Formatting) : Exec Outcome :=
  inAnyCase (dataVprintf hub.output.toData format) fun output =>
    datahubBroadcastLocked takes time hub.links exclude output true

def datahubBroadcastV (format : Formatting) : Exec Outcome :=
  inAnyCase (dataVprintf hub.output.toData format) fun output =>
    datahubBroadcastLocked takes time hub.links exclude output true

def datahubBroadcastBin (data : Option Bytes) (len : ℤ) : Exec Outcome :=
  (dataSetData hub.output.toData data len).bind fun output =>
    datahubBroadcastLocked takes time hub.links exclude output true

end Broadcast

section Datalink
variable (out : Data) (remoteAddr : Option Link)

def datalinkSend (data : Data) : Exec Outcome :=
  match remoteAddr with
  | none => some ⟨0, [], []⟩
  | some addr => (udpSocketSend takes data addr).map fun attempt => ⟨attempt.ret, [], [attempt]⟩

def datalinkSendF (format : Formatting) : Exec Outcome :=
  ifFilled [] (dataVprintf out format) fun out =>
    datalinkSend takes remoteAddr (dataSetTimestamp out time)

def datalinkSendObj (obj : Serialisation) : Exec Outcome :=
  ifFilled [] (dataSerialise out obj) fun out =>
    datalinkSend takes remoteAddr (dataSetTimestamp out time)

end Datalink

end Net

/-! ## What a broadcast does -/

section Spec
variable {takes : Link → Bool} {exclude : Option Link} {data : Data} {bytes : Option Bytes}

def Excluded (exclude : Option Link) (link : Link) : Prop :=
  exclude.map (·.pointer) = some link.pointer

instance (exclude : Option Link) (link : Link) : Decidable (Excluded exclude link) :=
  inferInstanceAs (Decidable (_ = _))

def attempt (takes : Link → Bool) (bytes : Option Bytes) (link : Link) : Attempt :=
  ⟨link, bytes, if bytes.isSome && takes link then 0 else -1⟩

def Fails (takes : Link → Bool) (exclude : Option Link) (bytes : Option Bytes) (link : Link) : Prop :=
  ¬ Excluded exclude link ∧ (attempt takes bytes link).ret ≠ 0

instance (link : Link) : Decidable (Fails takes exclude bytes link) :=
  inferInstanceAs (Decidable (_ ∧ _))

theorem sentBytes_bounded (h : data.len ≤ dataMaxlen) : ∃ bytes, sentBytes data = some bytes := by
  simp only [sentBytes]
  split_ifs with hneg hmax
  · exact ⟨_, rfl⟩
  · exact ⟨_, rfl⟩
  · simp only [packetHeader, packetMaxlen, dataMaxlen] at h hmax
    omega

theorem broadcastLoop_eq (hbytes : sentBytes data = some bytes) (l rm : List Link) :
    broadcastLoop takes exclude data l rm =
      some ((l.filter (Fails takes exclude bytes)).reverse ++ rm,
        (l.filter (¬ Excluded exclude ·)).map (attempt takes bytes)) := by
  induction l generalizing rm with
  | nil => rfl
  | cons addr l ih =>
    rw [broadcastLoop]
    by_cases hexcluded : Excluded exclude addr
    · have hsame : exclude.map (·.pointer) = some addr.pointer := hexcluded
      have hfails : ¬ Fails takes exclude bytes addr := fun h => h.1 hexcluded
      rw [if_pos hsame, ih, List.filter_cons_of_neg (by simpa using hfails),
        List.filter_cons_of_neg (by simpa using hexcluded)]
    · have hother : ¬ exclude.map (·.pointer) = some addr.pointer := hexcluded
      have hsend : udpSocketSend takes data addr = some (attempt takes bytes addr) := by
        rw [udpSocketSend, hbytes]
        rfl
      rw [if_neg hother, hsend]
      by_cases hret : (attempt takes bytes addr).ret ≠ 0
      · have hfails : Fails takes exclude bytes addr := ⟨hexcluded, hret⟩
        simp [ih, hret, hfails, hexcluded]
      · have hfails : ¬ Fails takes exclude bytes addr := fun h => hret h.2
        simp [ih, hret, hfails, hexcluded]

theorem foldl_listRemove {links : List Link} (hdistinct : (links.map (·.pointer)).Nodup) :
    (links.filter (Fails takes exclude bytes)).reverse.foldl listRemove links =
      links.filter fun l => Excluded exclude l ∨ (attempt takes bytes l).ret = 0 := by
  have hremove := foldl_eraseP_key hdistinct (links.filter (Fails takes exclude bytes)).reverse
  refine hremove.trans (List.filter_congr fun l hl => ?_)
  have hkey : l.pointer ∈ (links.filter (Fails takes exclude bytes)).reverse.map (·.pointer) ↔
      Fails takes exclude bytes l := by
    simp only [List.mem_map, List.mem_reverse, List.mem_filter, decide_eq_true_eq]
    constructor
    · intro ⟨a, ⟨ha, hfails⟩, heq⟩
      rwa [← List.inj_on_of_nodup_map hdistinct ha hl heq]
    · intro hfails
      exact ⟨l, ⟨hl, hfails⟩, rfl⟩
  rw [decide_eq_decide, hkey, Fails, not_and_or, not_not, not_not]

theorem datahubBroadcastLocked_eq {time : UInt64} {stamp : Bool}
    (hbytes : sentBytes (stamped time data stamp) = some bytes) {links : List Link}
    (hdistinct : (links.map (·.pointer)).Nodup) :
    datahubBroadcastLocked takes time links exclude data stamp =
      some { ret := 0
             links := links.filter fun l => Excluded exclude l ∨ (attempt takes bytes l).ret = 0
             attempts := (links.filter (¬ Excluded exclude ·)).map (attempt takes bytes) } := by
  rw [datahubBroadcastLocked, broadcastLoop_eq hbytes, Option.map_some, List.append_nil]
  exact congrArg (fun links => some (Outcome.mk 0 links _)) (foldl_listRemove hdistinct)

/-- The packet is sent once to each link but the one left out, in the order of the list, and the
links are left but for those whose send failed. -/
theorem broadcast_reaches_others (takes : Link → Bool) (time : UInt64) (hub : Hub)
    (exclude : Option Link) (data : Packet) (stamp : Bool) :
    ∃ bytes, sentBytes (stamped time data.toData stamp) = some bytes ∧
      datahubBroadcastLocked takes time hub.links exclude data.toData stamp =
        some { ret := 0
               links := hub.links.filter fun l => Excluded exclude l ∨ (attempt takes bytes l).ret = 0
               attempts := (hub.links.filter (¬ Excluded exclude ·)).map (attempt takes bytes) } := by
  have hlen : (stamped time data.toData stamp).len = data.len := by
    cases stamp <;> rfl
  obtain ⟨bytes, hbytes⟩ := sentBytes_bounded (hlen.trans_le data.bounded)
  exact ⟨bytes, hbytes, datahubBroadcastLocked_eq hbytes hub.distinct⟩

end Spec

end Rcom.DatahubSenders
