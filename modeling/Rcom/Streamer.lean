import Rcom.CircularBuffer
import Rcom.Lib.Program
import Rcom.Multipart

/-!
# The streamer and its clients (streamer.c)

Any number of threads call `streamer_send_multipart` while each client has a thread that reads
from its circular buffer and sends to its socket. Clients come and go. The threads do their
actions one at a time, in any order; an action is one section under a mutex or less.
-/

namespace Rcom.Streaming
open Lib Lib.Program Lib.Trace

variable {T : Type} (dt : DoubleText T)

/-- The circular buffer of a client in `new_streamer_client`. -/
def bufferSize : ℕ := 1048576

inductive Act (T : Type) where
  | lockClients
  | unlockClients
  | getClients (part : Part T)
  | appendClient (client : ℕ)
  | removeClient (client : ℕ)
  | sum (x : ℤ)
  | spaceAvailable (client : ℕ)
  | writeHeader (client : ℕ) (part : Part T)
  | writeData (client : ℕ) (part : Part T)
  | dataAvailable (client : ℕ)
  | read (client : ℕ) (len : ℤ)
  | quit

abbrev Act.Answer : Act T → Type
  | .getClients _ => List ℕ
  | .sum _ | .spaceAvailable _ | .dataAvailable _ => ℤ
  | .read _ _ => Bytes
  | .quit => Bool
  | _ => Unit

abbrev Program (T : Type) (α : Type) := Prog (Act.Answer (T := T)) α

def doing (a : Act T) : Program T a.Answer := perform a

/-! ## The code of the threads -/

def sendToClients (totalLen : ℤ) (part : Part T) : List ℕ → Program T Unit
  | [] => pure ()
  | b :: l => do
    let space : ℤ ← doing (.spaceAvailable b)
    if totalLen < space then do
      let _ ← doing (.writeHeader b part)
      let _ ← doing (.writeData b part)
      sendToClients totalLen part l
    else sendToClients totalLen part l

def streamerSendMultipart (part : Part T) : Program T Unit := do
  let totalLen : ℤ ← doing (.sum ((part.header dt).length + part.data.length))
  let _ ← doing .lockClients
  let clients : List ℕ ← doing (.getClients part)
  sendToClients totalLen part clients
  doing .unlockClients

/-- The loop of `streamer_client_read`; it is cut after a number of rounds. -/
def awaitData (client : ℕ) : ℕ → ℤ → Program T (Option ℤ)
  | rounds, available =>
    if available = 0 then
      match rounds with
      | 0 => .stop
      | rounds + 1 => do
        let quit : Bool ← doing .quit
        if quit then pure none
        else do
          let available : ℤ ← doing (.dataAvailable client)
          awaitData client rounds available
    else pure (some available)

def streamerClientRead (rounds client len : ℕ) : Program T Bytes := do
  let available : ℤ ← doing (.dataAvailable client)
  let found ← awaitData client rounds available
  match found with
  | none => pure []
  | some available =>
    -- `available` is compared as an unsigned number
    doing (.read client (if (len : ℤ) < available % 4294967296 then len else available))

def streamerAddClient (client : ℕ) : Program T Unit := do
  let _ ← doing .lockClients
  let _ ← doing (.appendClient client)
  doing .unlockClients

def streamerRemoveClient (client : ℕ) : Program T Unit := do
  let _ ← doing .lockClients
  let _ ← doing (.removeClient client)
  doing .unlockClients

/-- What the threads of a process do: a caller of `streamer_send_multipart`, the reader of a client
(`streamer_client_run`) and `streamer_run_server`. -/
inductive Job (T : Type) where
  | sender (parts : List (Part T))
  | reader (rounds client : ℕ) (lens : List ℕ)
  | server (clients : List ℕ)

def sendAll : List (Part T) → Program T Unit
  | [] => pure ()
  | part :: parts => do
    streamerSendMultipart dt part
    sendAll parts

def readAll (rounds client : ℕ) : List ℕ → Program T Unit
  | [] => streamerRemoveClient client
  | len :: lens => do
    let _ ← streamerClientRead rounds client len
    readAll rounds client lens

def addAll : List ℕ → Program T Unit
  | [] => pure ()
  | client :: clients => do
    streamerAddClient client
    addAll clients

def Job.program : Job T → Program T Unit
  | .sender parts => sendAll dt parts
  | .reader rounds client lens => readAll rounds client lens
  | .server clients => addAll clients

/-! ## What the actions do -/

/-- A client as the threads share it. `buffer` is `none` after an undefined operation. The other
fields are history: the bytes written and not yet read, all bytes read, the parts of the calls
that found the client in the list, those whose header was written, the bytes that the call that
wrote it has still to write, and what `data_available` last said less the bytes read since. -/
structure Client (T : Type) where
  buffer : Option CircularBuffer
  queue : Bytes
  received : Bytes
  offered : List (Part T)
  sent : List (Part T)
  owed : Bytes
  ready : ℤ

/-- `holder` is the thread that has locked `clients_mutex`, `room` what `space_available` told it of a
client less the bytes written since, `seen` the clients that have been in the list. -/
structure Streamer (T : Type) where
  holder : Option ℕ
  clients : List ℕ
  client : ℕ → Client T
  room : ℕ → ℤ
  seen : List ℕ

/-- `header` after `snprintf`, as far as its characters count. -/
def headerText (part : Part T) : Option Bytes :=
  slice ((part.header dt).take (headerSize - 1) ++ [0]) 0 (part.header dt).length

/-- `circular_buffer_write` drops what is longer than the buffer. -/
def accepted : Option Bytes → Bytes
  | some data => if data.length ≤ bufferSize then data else []
  | none => []

namespace Client
variable (c : Client T)

def write (data : Option Bytes) : Client T :=
  { c with
    buffer := do circularBufferWrite (← c.buffer) (← data)
    queue := c.queue ++ accepted data }

def writeHeader (part : Part T) : Client T :=
  { c.write (headerText dt part) with sent := c.sent ++ [part], owed := part.data }

def writeData (part : Part T) : Client T :=
  { c.write (some part.data) with owed := c.owed.drop (accepted (some part.data)).length }

def ask (answer : Option ℤ) : Client T :=
  { c with buffer := if answer.isSome then c.buffer else none }

def read (len : ℤ) : Client T :=
  match c.buffer.bind (circularBufferRead · len) with
  | some (out, r) =>
    { c with
      buffer := some r
      queue := c.queue.drop len.toNat
      received := c.received ++ out
      ready := c.ready - len }
  | none => { c with buffer := none }

end Client

namespace Streamer
variable (s : Streamer T)

def put (k : ℕ) (c : Client T) (room : ℤ) : Streamer T :=
  { s with client := Function.update s.client k c, room := Function.update s.room k room }

def offer (part : Part T) (k : ℕ) : Client T :=
  if k ∈ s.clients then { s.client k with offered := (s.client k).offered ++ [part] }
  else s.client k

/-- What each action of thread `i` does. A sum out of range and the answer of an undefined operation
may be anything; a client that is added is a new one. -/
def Does (i : ℕ) (s : Streamer T) : (a : Act T) → a.Answer → Streamer T → Prop
  | .lockClients, _, t => s.holder = none ∧ t = { s with holder := some i }
  | .unlockClients, _, t => t = { s with holder := none }
  | .getClients part, l, t => l = s.clients ∧ t = { s with client := s.offer part }
  | .appendClient k, _, t =>
    k ∉ s.seen ∧ t = { s with clients := s.clients ++ [k], seen := k :: s.seen }
  | .removeClient k, _, t => t = { s with clients := s.clients.erase k }
  | .sum x, (r : ℤ), t => (∀ y ∈ int x, r = y) ∧ t = s
  | .spaceAvailable k, (r : ℤ), t =>
    let answer := (s.client k).buffer.bind circularBufferSpaceAvailable
    (∀ y ∈ answer, r = y) ∧ t = s.put k ((s.client k).ask answer) r
  | .writeHeader k part, _, t =>
    t = s.put k ((s.client k).writeHeader dt part)
      (s.room k - (accepted (headerText dt part)).length)
  | .writeData k part, _, t =>
    t = s.put k ((s.client k).writeData part) (s.room k - (accepted (some part.data)).length)
  | .dataAvailable k, (r : ℤ), t =>
    let answer := (s.client k).buffer.bind circularBufferDataAvailable
    (∀ y ∈ answer, r = y) ∧
      t = s.put k { (s.client k).ask answer with ready := r } (s.room k)
  | .read k len, out, t =>
    (∀ y ∈ (s.client k).buffer.bind (circularBufferRead · len), out = y.1) ∧
      t = s.put k ((s.client k).read len) (s.room k)
  | .quit, _, t => t = s

end Streamer

def newClient (memory : ℕ → UInt8) : Client T where
  buffer := some (newCircularBuffer memory bufferSize)
  queue := []
  received := []
  offered := []
  sent := []
  owed := []
  ready := 0

def openStreamer (memory : ℕ → ℕ → UInt8) : Streamer T where
  holder := none
  clients := []
  client := fun k => newClient (memory k)
  room := fun _ => 0
  seen := []

/-! ## The buffer of a client -/

theorem bufferSize_small : 2 * (bufferSize : ℤ) ≤ intMax := by decide

structure Buffered (buffer : Option CircularBuffer) (queue : Bytes) : Prop where
  lies : ∃ r p, buffer = some r ∧ Lies bufferSize r p queue
  spare : queue.length < bufferSize

namespace Buffered
variable {buffer : Option CircularBuffer} {queue : Bytes} (h : Buffered buffer queue)
include h

theorem lawful : ∃ r p, buffer = some r ∧ Lies bufferSize r p queue ∧ Lawful bufferSize r queue := by
  obtain ⟨r, p, hbuffer, hlies⟩ := h.lies
  have hlawful := hlies.lawful_iff (by decide) (by decide)
  exact ⟨r, p, hbuffer, hlies,
    hlawful.2 ⟨Or.inl h.spare, hlies.small_of_le bufferSize_small⟩⟩

theorem data : buffer.bind circularBufferDataAvailable = some (queue.length : ℤ) := by
  obtain ⟨r, p, hbuffer, -, hlawful⟩ := h.lawful
  rw [hbuffer]
  exact hlawful.data

theorem space : buffer.bind circularBufferSpaceAvailable = some (bufferSize - queue.length : ℤ) := by
  obtain ⟨r, p, hbuffer, -, hlawful⟩ := h.lawful
  rw [hbuffer]
  exact hlawful.space

theorem read {k : ℕ} (hk : k ≤ queue.length) :
    ∃ r, buffer.bind (circularBufferRead · k) = some (queue.take k, r) ∧
      Buffered (some r) (queue.drop k) := by
  obtain ⟨r, p, hbuffer, hlies⟩ := h.lies
  have hspare := h.spare
  have hsum : r.readpos + k ≤ intMax := by
    have hp := hlies.le
    have hsize := bufferSize_small
    rw [hlies.readpos]
    omega
  obtain ⟨r', hread, hlies'⟩ := hlies.read hk hsum
  refine ⟨r', ?_, ⟨r', _, rfl, hlies'⟩, ?_⟩
  · rw [hbuffer, Option.bind_some, hread]
  · rw [List.length_drop]
    omega

theorem write {b : Bytes} (hb : b.length + queue.length < bufferSize) :
    ∃ r, buffer.bind (circularBufferWrite · b) = some r ∧ Buffered (some r) (queue ++ b) := by
  obtain ⟨r, p, hbuffer, hlies⟩ := h.lies
  have hsum : r.writepos + b.length ≤ intMax := by
    have hp := hlies.le
    have hsize := bufferSize_small
    rw [hlies.writepos_eq]
    split_ifs <;> omega
  obtain ⟨r', hwrite, hlies'⟩ := hlies.write (b := b) (by omega) hsum
  refine ⟨r', ?_, ⟨r', p, rfl, hlies'⟩, ?_⟩
  · rw [hbuffer]
    exact hwrite
  · rw [List.length_append]
    omega

end Buffered

theorem buffered_new (memory : ℕ → UInt8) :
    Buffered (some (newCircularBuffer memory bufferSize)) [] :=
  ⟨⟨_, 0, rfl, lies_new memory bufferSize⟩, (by decide : 0 < bufferSize)⟩

end Rcom.Streaming
