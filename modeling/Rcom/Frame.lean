import Rcom.Lib.Rfc6455
import Rcom.Net

/-!
# Web socket frames (messagelink.c)

The writer puts a header in front of the payload and, for a client, masks the
payload in blocks of 1 kB. The reader takes the header apart again and reads the
payload in whatever parts `recv` returns. The host is little-endian.
-/

namespace Rcom

open Lib Lib.ByteOrder Lib.Keystream

def htons (n : ℕ) : ℕ := swap 2 n
def ntohs (n : ℕ) : ℕ := swap 2 n
def htonl (n : ℕ) : ℕ := swap 4 n
def ntohl (n : ℕ) : ℕ := swap 4 n

def htonll (x : ℕ) : ℕ :=
  if htonl 1 = 1 then x else htonl (x &&& 0xFFFFFFFF) <<< 32 ||| htonl (x >>> 32)

def ntohll (x : ℕ) : ℕ :=
  if ntohl 1 = 1 then x else ntohl (x &&& 0xFFFFFFFF) <<< 32 ||| ntohl (x >>> 32)

/-- The four bytes of a mask; the index of the next one counts around. -/
abbrev Mask := Fin 4 → UInt8

/-- The `j = 0` before a payload. -/
abbrev maskStart : Fin 4 := 0

/-- The loop that masks, or unmasks, the bytes of one buffer. -/
def maskBlock (mask : Mask) : Fin 4 → Bytes → Bytes × Fin 4
  | j, [] => ([], j)
  | j, b :: bs =>
    let r := maskBlock mask (j + 1) bs
    ((b ^^^ mask j) :: r.1, r.2)

/-- The masked bytes, and the index after `n` bytes. -/
abbrev crypted (mask : Mask) (j : Fin 4) (bs : Bytes) : Bytes :=
  crypt (· + 1) (fun i b => b ^^^ mask i) j bs

abbrev turned (j : Fin 4) (n : ℕ) : Fin 4 := advance (· + 1) j n

def maskBytes (masked : Bool) (mask : Mask) : Bytes :=
  if masked then [mask 0, mask 1, mask 2, mask 3] else []

/-! ## Writing -/

def frameMakeHeader (opcode : ℕ) (masked : Bool) (mask : Mask) (length : ℕ) : Bytes :=
  let size :=
    if length < 126 then
      [UInt8.ofNat (if masked then 0x80 ||| (length &&& 0x7f) else length &&& 0x7f)]
    else if length ≤ 65536 then
      let netshort := htons (length % 65536)
      [if masked then 254 else 126,
        UInt8.ofNat (netshort &&& 0x00ff),
        UInt8.ofNat ((netshort &&& 0xff00) >>> 8)]
    else
      let netlong := htonll length
      [if masked then 255 else 127,
        UInt8.ofNat (netlong &&& 0x00000000000000ff),
        UInt8.ofNat ((netlong &&& 0x000000000000ff00) >>> 8),
        UInt8.ofNat ((netlong &&& 0x0000000000ff0000) >>> 16),
        UInt8.ofNat ((netlong &&& 0x00000000ff000000) >>> 24),
        UInt8.ofNat ((netlong &&& 0x000000ff00000000) >>> 32),
        UInt8.ofNat ((netlong &&& 0x0000ff0000000000) >>> 40),
        UInt8.ofNat ((netlong &&& 0x00ff000000000000) >>> 48),
        UInt8.ofNat ((netlong &&& 0xff00000000000000) >>> 56)]
  UInt8.ofNat (0x80 ||| opcode) :: size ++
    if masked then [mask 0, mask 1, mask 2, mask 3] else []

/-- The blocks from position `sent` on. -/
def maskBlocks (mask : Mask) (data : Bytes) (j : Fin 4) (sent : ℕ) : Bytes :=
  if sent < data.length then
    let n := if data.length - sent > 1024 then 1024 else data.length - sent
    let block := maskBlock mask j ((data.drop sent).take n)
    block.1 ++ maskBlocks mask data block.2 (sent + n)
  else []
termination_by data.length - sent
decreasing_by split <;> omega

def frameAppendPayload (masked : Bool) (mask : Mask) (data : Bytes) : Bytes :=
  if masked then maskBlocks mask data 0 0 else data

def frameMake (opcode : ℕ) (masked : Bool) (mask : Mask) (data : Bytes) : Bytes :=
  frameMakeHeader opcode masked mask data.length ++ frameAppendPayload masked mask data

/-! ## Reading -/

structure WsFrame where
  fin : UInt8
  opcode : UInt8
  mask : UInt8
  length : UInt8
deriving DecidableEq, Repr

/-- What a messagelink reads with: its role, the message read last and its socket. -/
structure Reader where
  isClient : Bool
  input : Bytes
  socket : Socket
deriving DecidableEq, Repr

def messagelinkReadFrame (socket : Socket) (frame : WsFrame) : ℤ × WsFrame × Socket :=
  let r := tcpSocketRead socket 2
  if r.1 ≠ 2 then (-1, frame, r.2.2)
  else
    let b0 := r.2.1.getD 0 0
    let b1 := r.2.1.getD 1 0
    (0, { frame with
      fin := (b0 &&& 0x80) >>> 7
      opcode := b0 &&& 0x0f
      mask := (b1 &&& 0x80) >>> 7
      length := b1 &&& 0x7f }, r.2.2)

/-- The length of the payload, `none` when it cannot be read. -/
def readLength (length : UInt8) (socket : Socket) : Option ℕ × Socket :=
  if length < 126 then (some length.toNat, socket)
  else if length = 126 then
    let r := tcpSocketRead socket 2
    if r.1 ≠ 2 then (none, r.2.2) else (some (ntohs (ofLe r.2.1)), r.2.2)
  else
    let r := tcpSocketRead socket 8
    if r.1 ≠ 8 then (none, r.2.2) else (some (ntohll (ofLe r.2.1)), r.2.2)

def readMask (masked : UInt8) (socket : Socket) : Option Mask × Socket :=
  if masked = 0 then (some fun _ => 0, socket)
  else
    let r := tcpSocketRead socket 4
    if r.1 ≠ 4 then (none, r.2.2) else (some fun j => r.2.1.getD j 0, r.2.2)

def readPayload (mask : Mask) (length : ℕ) (j : Fin 4) (numRead : ℕ) (link : Reader) : ℤ × Reader :=
  if numRead < length then
    let numToRead := if length - numRead > 1024 then 1024 else length - numRead
    let r := tcpSocketRecv link.socket numToRead
    let received := r.1
    if received < 0 then (received, { link with socket := r.2.2 })
    else if received = 0 then (-1, { link with socket := r.2.2 })
    else if link.isClient then
      readPayload mask length j (numRead + received.toNat)
        { link with input := link.input ++ r.2.1, socket := r.2.2 }
    else
      let block := maskBlock mask j r.2.1
      readPayload mask length block.2 (numRead + received.toNat)
        { link with input := link.input ++ block.1, socket := r.2.2 }
  else (0, link)
termination_by length - numRead
decreasing_by
  all_goals
    have hr : 0 < received.toNat := by omega
    show length - (numRead + received.toNat) < length - numRead
    omega

def messagelinkReadMessage (link : Reader) (frame : WsFrame) : ℤ × WsFrame × Reader :=
  let r := messagelinkReadFrame link.socket frame
  let err := r.1
  let frame := r.2.1
  if err ≠ 0 then (err, frame, { link with socket := r.2.2 })
  else
    match readLength frame.length r.2.2 with
    | (none, socket) => (-1, frame, { link with socket })
    | (some length, socket) =>
      match readMask frame.mask socket with
      | (none, socket) => (-1, frame, { link with socket })
      | (some mask, socket) =>
        if length > 16777216 then (-2, frame, { link with socket })
        else
          let p := readPayload mask length 0 0 { link with input := [], socket }
          (p.1, frame, p.2)

end Rcom
