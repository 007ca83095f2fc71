import Rcom.Lib.Chunked
import Rcom.Streamer

/-!
# The thread of a streamer's client (streamer.c)

`streamer_client_run` sends what it reads from the client's buffer as chunks until someone asks the
streamer to quit. It looks for that in two places: in its own loop and in `streamer_client_read`,
while that waits for data. Other threads write into the buffer and ask to quit at any time.
-/

namespace Rcom.StreamerClient
open Lib Lib.Program Lib.Trace Lib.Chunked Streaming

/-- What the threads share with each other is `shared`; `quit` is the test in the loop of
`streamer_client_run`. The last two are done by other threads. -/
inductive Act where
  | shared (a : Streaming.Act Unit)
  | quit
  | sendStreamingHeaders
  | send (data : Bytes)
  | closeTcpSocket
  | write (data : Bytes)
  | askQuit

abbrev Act.Answer : Act → Type
  | .shared a => a.Answer
  | .quit => Bool
  | .sendStreamingHeaders | .send _ => ℤ
  | _ => Unit

abbrev Program (α : Type) := Prog Act.Answer α

def doing (a : Act) : Program a.Answer := perform a

/-- A program of the streamer, done in this thread. -/
def shared {α : Type} : Streaming.Program Unit α → Program α
  | .ret x => .ret x
  | .stop => .stop
  | .act a k => .act (.shared a) fun r => shared (k r)

/-! ## The code of the threads -/

/-- `datalen` is what `streamer_client_read` returned for `data`. -/
def httpSendChunk (data : Bytes) : Program ℤ := do
  let err : ℤ ← doing (.send (hexadecimal data.length ++ crlf))
  if err = -1 then pure (-1)
  else do
    let err : ℤ ← doing (.send data)
    if err = -1 then pure (-1)
    else do
      let err : ℤ ← doing (.send crlf)
      if err = -1 then pure (-1)
      else pure 0

/-- The loop of `streamer_client_run`, cut after a number of rounds, as the loop that it calls. -/
def sendChunks (waits : ℕ) : ℕ → Program Unit
  | 0 => .stop
  | rounds + 1 => do
    let quit : Bool ← doing .quit
    if quit then pure ()
    else do
      let data ← shared (streamerClientRead waits 0 16384)
      let err ← httpSendChunk data
      if err = -1 then pure ()
      else sendChunks waits rounds

def streamerClientRun (waits rounds : ℕ) : Program Unit := do
  let err : ℤ ← doing .sendStreamingHeaders
  if err ≠ 0 then do
    let _ ← doing .closeTcpSocket
    shared (streamerRemoveClient 0)
  else do
    sendChunks waits rounds
    let _ ← doing .closeTcpSocket
    shared (streamerRemoveClient 0)

/-- The other threads: callers of `streamer_send_multipart`, and who ends the streamer. -/
inductive Job where
  | sender (pieces : List Bytes)
  | ender

def writeAll : List Bytes → Program Unit
  | [] => pure ()
  | data :: pieces => do
    let _ ← doing (.write data)
    writeAll pieces

def Job.program : Job → Program Unit
  | .sender pieces => writeAll pieces
  | .ender => doing .askQuit

/-! ## What the actions do -/

inductive Place where
  | loop
  | read
deriving DecidableEq

/-- `buffer` is `none` after an undefined operation. The other fields but `quitting` and `connected` are
history: the bytes in the buffer, what `data_available` last said less the bytes read since, all bytes
read, all bytes sent after the headers, whether sending has failed, and where the request to quit was
found first. -/
structure Stream where
  buffer : Option CircularBuffer
  quitting : Bool
  connected : Bool
  queue : Bytes
  ready : ℤ
  received : Bytes
  sent : Bytes
  failed : Bool
  noticed : Option Place

namespace Stream
variable (s : Stream)

def ask (answer : Option ℤ) : Stream :=
  { s with buffer := if answer.isSome then s.buffer else none }

def notice (place : Place) : Stream :=
  { s with noticed := if s.quitting then s.noticed <|> some place else s.noticed }

def read (len : ℤ) : Stream :=
  match s.buffer.bind (circularBufferRead · len) with
  | some (out, r) =>
    { s with
      buffer := some r
      queue := s.queue.drop len.toNat
      ready := s.ready - len
      received := s.received ++ out }
  | none => { s with buffer := none }

/-- `streamer_send_multipart` leaves out a client that has not the space. -/
def write (data : Bytes) : Stream :=
  match s.buffer.bind circularBufferSpaceAvailable with
  | some space =>
    if (data.length : ℤ) < space then
      { s with
        buffer := s.buffer.bind (circularBufferWrite · data)
        queue := s.queue ++ data }
    else s
  | none => { s with buffer := none }

/-- What each action does. The answer of an undefined operation may be anything. -/
def Does (s : Stream) : (a : Act) → a.Answer → Stream → Prop
  | .shared .quit, (r : Bool), t => r = s.quitting ∧ t = s.notice .read
  | .shared (.dataAvailable _), (r : ℤ), t =>
    let answer := s.buffer.bind circularBufferDataAvailable
    (∀ y ∈ answer, r = y) ∧ t = { s.ask answer with ready := r }
  | .shared (.read _ len), out, t =>
    (∀ y ∈ s.buffer.bind (circularBufferRead · len), out = y.1) ∧ t = s.read len
  | .shared _, _, t => t = s
  | .quit, (r : Bool), t => r = s.quitting ∧ t = s.notice .loop
  | .sendStreamingHeaders, (r : ℤ), t => (r = 0 ∧ t = s) ∨ (r = -1 ∧ t = { s with failed := true })
  | .send data, (r : ℤ), t =>
    (r = 0 ∧ t = { s with sent := s.sent ++ data }) ∨
      (r = -1 ∧ ∃ part, part <+: data ∧ t = { s with sent := s.sent ++ part, failed := true })
  | .closeTcpSocket, _, t => t = { s with connected := false }
  | .write data, _, t => t = s.write data
  | .askQuit, _, t => t = { s with quitting := true }

end Stream

def openStream (memory : ℕ → UInt8) : Stream where
  buffer := some (newCircularBuffer memory bufferSize)
  quitting := false
  connected := true
  queue := []
  ready := 0
  received := []
  sent := []
  failed := false
  noticed := none

abbrev Process := Threads Stream Act.Answer Unit

def newProcess (memory : ℕ → UInt8) (waits rounds : ℕ) (others : List Job) : Process :=
  (openStream memory, streamerClientRun waits rounds :: others.map Job.program)

/-- What was sent is a whole chunked message for the bytes that were read. -/
def Complete (s : Stream) : Prop := Message s.sent s.received

/-! ## What the thread knows -/

structure Good (s : Stream) : Prop where
  buffered : Buffered s.buffer s.queue
  ready : s.ready ≤ s.queue.length
  noticed : s.noticed ≠ none → s.quitting = true

structure View where
  ready : ℤ
  received : Bytes
  sent : Bytes
  failed : Bool
  noticed : Option Place

def View.notice (v : View) (place : Place) (quit : Bool) : View :=
  { v with noticed := if quit then v.noticed <|> some place else v.noticed }

def view (s : Stream) (i : ℕ) : Option View :=
  if i = 0 then some ⟨s.ready, s.received, s.sent, s.failed, s.noticed⟩ else none

/-- The thread of the client reads no more than there is, and the others do not do its actions. -/
def pre : Option View → Act → Prop
  | some v, .shared (.read _ len) => 0 ≤ len ∧ len ≤ v.ready
  | some _, _ => True
  | none, .write _ => True
  | none, .askQuit => True
  | none, _ => False

def loc : Option View → (a : Act) → a.Answer → Option View → Prop
  | none, _, _, w => w = none
  | some v, .shared .quit, (r : Bool), w => (v.noticed ≠ none → r = true) ∧ w = some (v.notice .read r)
  | some v, .quit, (r : Bool), w => (v.noticed ≠ none → r = true) ∧ w = some (v.notice .loop r)
  | some v, .shared (.dataAvailable _), (r : ℤ), w =>
    0 ≤ r ∧ r ≤ bufferSize ∧ w = some { v with ready := r }
  | some v, .shared (.read _ len), (out : Bytes), w =>
    (out.length : ℤ) = len ∧
      w = some { v with ready := v.ready - len, received := v.received ++ out }
  | some v, .sendStreamingHeaders, (r : ℤ), w =>
    (r = 0 ∧ w = some v) ∨ (r = -1 ∧ w = some { v with failed := true })
  | some v, .send data, (r : ℤ), w =>
    (r = 0 ∧ w = some { v with sent := v.sent ++ data }) ∨
      (r = -1 ∧ ∃ sent, w = some { v with sent, failed := true })
  | some v, _, _, w => w = some v

/-- The bytes read were sent as chunks, with these bytes after them. -/
def View.Chunks (v : View) (last : Bytes) : Prop :=
  ∃ chunks : List Bytes, (∀ data ∈ chunks, data ≠ []) ∧ v.received = chunks.flatten ∧
    v.sent = (chunks.map chunk).flatten ++ last

/-- Sending has failed, or it stopped where the request to quit was found. -/
def View.Ended (v : View) : Prop :=
  v.failed = true ∨ (v.noticed = some .read ∧ v.Chunks (chunk [])) ∨
    (v.noticed = some .loop ∧ v.Chunks [])

def View.Turning (v : View) : Prop :=
  (v.noticed = none ∧ v.Chunks []) ∨ (v.noticed = some .read ∧ v.Chunks (chunk []))

def post (i : ℕ) (_ : Unit) (w : Option View) : Prop := i = 0 → ∃ v ∈ w, v.Ended

@[simp] theorem View.notice_false (v : View) (place : Place) : v.notice place false = v := rfl

section Programs
variable {α β : Type} {v : View} {Q : α → Option View → Prop}

theorem shared_bind (p : Streaming.Program Unit α) (f : α → Streaming.Program Unit β) :
    shared (p >>= f) = shared p >>= fun x => shared (f x) := by
  induction p with
  | ret x => rfl
  | stop => rfl
  | act a k ih => exact congrArg (Prog.act (Act.shared a)) (funext ih)

theorem wp_do {a : Act} {f : a.Answer → Program α} (hpre : pre (some v) a)
    (h : ∀ r w, loc (some v) a r w → wp loc pre True Q (f r) w) :
    wp loc pre True Q (doing a >>= f) (some v) := ⟨hpre, h⟩

theorem wp_shared {a : Streaming.Act Unit} {f : a.Answer → Streaming.Program Unit α}
    (hpre : pre (some v) (.shared a))
    (h : ∀ r w, loc (some v) (.shared a) r w → wp loc pre True Q (shared (f r)) w) :
    wp loc pre True Q (shared (Streaming.doing a >>= f)) (some v) := ⟨hpre, h⟩

/-- The wait for data ends with the request to quit, or with the number of bytes there are. -/
theorem wp_awaitData (waits : ℕ) {available : ℤ} (hpos : 0 ≤ available)
    (hle : available ≤ bufferSize) (hready : v.ready = available) (hnone : v.noticed = none) :
    wp loc pre True (fun found w =>
        (found = none ∧ ∃ ready, w = some { v with ready, noticed := some .read }) ∨
        ∃ n : ℤ, found = some n ∧ 0 < n ∧ n ≤ bufferSize ∧ w = some { v with ready := n })
      (shared (awaitData 0 waits available)) (some v) := by
  induction waits generalizing available v with
  | zero =>
    rw [awaitData]
    split
    · trivial
    · exact .inr ⟨available, rfl, by omega, hle, by rw [← hready]⟩
  | succ waits ih =>
    rw [awaitData]
    split
    · refine wp_shared trivial ?_
      rintro quit _ ⟨-, rfl⟩
      cases (quit : Bool) with
      | true => exact .inl ⟨rfl, v.ready, by simp [View.notice, hnone]⟩
      | false =>
        refine wp_shared trivial ?_
        rintro n _ ⟨hn, hn', rfl⟩
        exact ih (v := { v with ready := n }) hn hn' rfl hnone
    · exact .inr ⟨available, rfl, by omega, hle, by rw [← hready]⟩

/-- What is read is not empty, unless the request to quit was found. -/
theorem wp_streamerClientRead (waits : ℕ) (hnone : v.noticed = none) :
    wp loc pre True (fun data w =>
        (data = [] ∧ ∃ ready, w = some { v with ready, noticed := some .read }) ∨
        (data ≠ [] ∧ ∃ ready, w = some { v with ready, received := v.received ++ data }))
      (shared (streamerClientRead waits 0 16384)) (some v) := by
  refine wp_shared trivial ?_
  rintro available _ ⟨hpos, hle, rfl⟩
  rw [shared_bind]
  refine wp_bind.2 (wp_mono (wp_awaitData waits hpos hle rfl hnone) ?_)
  rintro found w (⟨rfl, ready, rfl⟩ | ⟨n, rfl, hn, hn', rfl⟩)
  · exact .inl ⟨rfl, ready, rfl⟩
  · have hunsigned : n % 4294967296 = n := by
      unfold bufferSize at hn'
      exact Int.emod_eq_of_lt (by omega) (by omega)
    have hlen : 0 < (if ((16384 : ℕ) : ℤ) < n then ((16384 : ℕ) : ℤ) else n) ∧
        (if ((16384 : ℕ) : ℤ) < n then ((16384 : ℕ) : ℤ) else n) ≤ n := by
      split_ifs <;> omega
    dsimp only
    rw [hunsigned]
    refine ⟨⟨hlen.1.le, hlen.2⟩, ?_⟩
    rintro data _ ⟨hdata, rfl⟩
    refine .inr ⟨fun hnil => ?_, _, rfl⟩
    subst hnil
    exact absurd hlen.1 (by rw [← hdata]; simp)

theorem wp_httpSendChunk (data : Bytes) :
    wp loc pre True (fun err w =>
        (err = 0 ∧ w = some { v with sent := v.sent ++ chunk data }) ∨
        (err = -1 ∧ ∃ sent, w = some { v with sent, failed := true }))
      (httpSendChunk data) (some v) := by
  refine wp_do trivial ?_
  rintro err _ (⟨rfl, rfl⟩ | ⟨rfl, sent, rfl⟩)
  · refine wp_do trivial ?_
    rintro err _ (⟨rfl, rfl⟩ | ⟨rfl, sent, rfl⟩)
    · refine wp_do trivial ?_
      rintro err _ (⟨rfl, rfl⟩ | ⟨rfl, sent, rfl⟩)
      · exact .inl ⟨rfl, by simp [chunk, List.append_assoc]⟩
      · exact .inr ⟨rfl, sent, rfl⟩
    · exact .inr ⟨rfl, sent, rfl⟩
  · exact .inr ⟨rfl, sent, rfl⟩

theorem ended_of_failed {sent : Bytes} : ({ v with sent, failed := true } : View).Ended := .inl rfl

theorem View.Turning.ended (h : v.Turning) : (v.notice .loop true).Ended := by
  rcases h with ⟨hnone, hchunks⟩ | ⟨hread, hchunks⟩
  · exact .inr (.inr ⟨by simp [View.notice, hnone], hchunks⟩)
  · exact .inr (.inl ⟨by simp [View.notice, hread], hchunks⟩)

theorem wp_sendChunks (waits rounds : ℕ) (hv : v.Turning) :
    wp loc pre True (post 0) (sendChunks waits rounds) (some v) := by
  induction rounds generalizing v with
  | zero => trivial
  | succ rounds ih =>
    refine wp_do trivial ?_
    rintro quit _ ⟨hquit, rfl⟩
    cases (quit : Bool) with
    | true => exact fun _ => ⟨_, rfl, hv.ended⟩
    | false =>
      rw [View.notice_false]
      have hnone : v.noticed = none := by
        by_contra hsome
        exact absurd (hquit hsome) (by decide)
      obtain ⟨chunks, hchunks, hreceived, hsent⟩ : v.Chunks [] := by
        rcases hv with ⟨-, hchunks⟩ | ⟨hread, -⟩
        · exact hchunks
        · rw [hnone] at hread
          cases hread
      rw [List.append_nil] at hsent
      refine wp_bind.2 (wp_mono (wp_streamerClientRead waits hnone) ?_)
      rintro data _ (⟨rfl, ready, rfl⟩ | ⟨hdata, ready, rfl⟩)
      · refine wp_bind.2 (wp_mono (wp_httpSendChunk []) ?_)
        rintro err _ (⟨rfl, rfl⟩ | ⟨rfl, sent, rfl⟩)
        · exact ih (.inr ⟨rfl, chunks, hchunks, hreceived, congrArg (· ++ chunk []) hsent⟩)
        · exact fun _ => ⟨_, rfl, ended_of_failed⟩
      · refine wp_bind.2 (wp_mono (wp_httpSendChunk data) ?_)
        rintro err _ (⟨rfl, rfl⟩ | ⟨rfl, sent, rfl⟩)
        · refine ih (.inl ⟨hnone, chunks ++ [data], ?_, ?_, ?_⟩)
          · intro data' hmem
            rcases List.mem_append.1 hmem with hmem | hmem
            · exact hchunks data' hmem
            · rwa [List.mem_singleton.1 hmem]
          · simp [hreceived]
          · simp [hsent]
        · exact fun _ => ⟨_, rfl, ended_of_failed⟩

theorem wp_leave (hv : v.Ended) : wp loc pre True (post 0) (do
    let _ ← doing .closeTcpSocket
    shared (streamerRemoveClient 0)) (some v) := by
  refine wp_do trivial ?_
  rintro - _ rfl
  refine wp_shared trivial ?_
  rintro - _ rfl
  refine wp_shared trivial ?_
  rintro - _ rfl
  refine ⟨trivial, ?_⟩
  rintro - _ rfl
  exact fun _ => ⟨v, rfl, hv⟩

theorem wp_streamerClientRun (waits rounds : ℕ) (hv : v.Turning) :
    wp loc pre True (post 0) (streamerClientRun waits rounds) (some v) := by
  refine wp_do trivial ?_
  rintro err _ (⟨rfl, rfl⟩ | ⟨rfl, rfl⟩)
  · refine wp_bind.2 (wp_mono (wp_sendChunks waits rounds hv) ?_)
    intro _ w hw
    obtain ⟨v', rfl, hv'⟩ := hw rfl
    exact wp_leave hv'
  · exact wp_leave ended_of_failed

theorem wp_other {i : ℕ} (hi : i ≠ 0) (job : Job) :
    wp loc pre True (post i) job.program none := by
  cases job with
  | sender pieces =>
    induction pieces with
    | nil => exact fun h => absurd h hi
    | cons data pieces ih =>
      refine ⟨trivial, ?_⟩
      rintro - _ rfl
      exact ih
  | ender => exact ⟨trivial, fun _ _ _ h => absurd h hi⟩

end Programs

section Steps
variable {s t : Stream} {i : ℕ}

theorem view_ne (hi : i ≠ 0) : view s i = none := if_neg hi

theorem good_notice (h : Good s) (place : Place) : Good (s.notice place) where
  buffered := h.buffered
  ready := h.ready
  noticed := by
    unfold Stream.notice
    split
    · next hquit => exact fun _ => hquit
    · exact h.noticed

theorem good_write (h : Good s) (data : Bytes) :
    Good (s.write data) ∧ view (s.write data) 0 = view s 0 := by
  unfold Stream.write
  rw [h.buffered.space]
  dsimp only
  split
  · next hspace =>
    obtain ⟨r, hwrite, hbuffered⟩ := h.buffered.write (b := data) (by omega)
    have hready := h.ready
    refine ⟨⟨?_, ?_, h.noticed⟩, rfl⟩
    · rw [hwrite]
      exact hbuffered
    · rw [List.length_append]
      dsimp only
      omega
  · exact ⟨h, rfl⟩

theorem read_eq (h : Good s) {k : ℕ} (hk : (k : ℤ) ≤ s.ready) :
    ∃ r, s.buffer.bind (circularBufferRead · k) = some (s.queue.take k, r) ∧
      s.read k = { s with
        buffer := some r
        queue := s.queue.drop k
        ready := s.ready - k
        received := s.received ++ s.queue.take k } ∧ Good (s.read k) := by
  have hready := h.ready
  obtain ⟨r, hread, hbuffered⟩ := h.buffered.read (k := k) (by omega)
  have hs : s.read k = { s with
      buffer := some r
      queue := s.queue.drop k
      ready := s.ready - k
      received := s.received ++ s.queue.take k } := by
    rw [Stream.read, hread]
    rfl
  refine ⟨r, hread, hs, ?_⟩
  rw [hs]
  refine ⟨hbuffered, ?_, h.noticed⟩
  rw [List.length_drop]
  dsimp only
  omega

theorem does_step {a : Act} {r : a.Answer} (h : Good s) (hpre : pre (view s i) a)
    (hdoes : Stream.Does s a r t) :
    Good t ∧ loc (view s i) a r (view t i) ∧ ∀ j, j ≠ i → view t j = view s j := by
  by_cases hi : i = 0
  · subst hi
    have hothers : ∀ j, j ≠ 0 → view t j = view s j := fun j hj => by
      rw [view_ne hj, view_ne hj]
    suffices hown : Good t ∧ loc (view s 0) a r (view t 0) from ⟨hown.1, hown.2, hothers⟩
    have hquit : s.noticed ≠ none → s.quitting = true := h.noticed
    cases a with
    | shared a =>
      cases a with
      | quit =>
        obtain ⟨rfl, rfl⟩ := hdoes
        exact ⟨good_notice h .read, hquit, rfl⟩
      | dataAvailable client =>
        obtain ⟨hr, rfl⟩ := hdoes
        have hspare := h.buffered.spare
        rw [h.buffered.data] at hr ⊢
        obtain rfl := hr _ rfl
        exact ⟨⟨h.buffered, le_rfl, h.noticed⟩, Int.natCast_nonneg _, by omega, rfl⟩
      | read client len =>
        obtain ⟨hout, rfl⟩ := hdoes
        obtain ⟨k, rfl⟩ := Int.eq_ofNat_of_zero_le hpre.1
        have hk : (k : ℤ) ≤ s.ready := hpre.2
        have hready := h.ready
        obtain ⟨r', hread, hs, hgood⟩ := read_eq h hk
        obtain rfl := hout _ hread
        refine ⟨hgood, ?_, ?_⟩
        · rw [List.length_take]
          omega
        · rw [hs]
          rfl
      | _ =>
        cases hdoes
        exact ⟨h, rfl⟩
    | quit =>
      obtain ⟨rfl, rfl⟩ := hdoes
      exact ⟨good_notice h .loop, hquit, rfl⟩
    | sendStreamingHeaders =>
      rcases hdoes with ⟨rfl, rfl⟩ | ⟨rfl, rfl⟩
      · exact ⟨h, .inl ⟨rfl, rfl⟩⟩
      · exact ⟨⟨h.buffered, h.ready, h.noticed⟩, .inr ⟨rfl, rfl⟩⟩
    | send data =>
      rcases hdoes with ⟨rfl, rfl⟩ | ⟨rfl, part, -, rfl⟩
      · exact ⟨⟨h.buffered, h.ready, h.noticed⟩, .inl ⟨rfl, rfl⟩⟩
      · exact ⟨⟨h.buffered, h.ready, h.noticed⟩, .inr ⟨rfl, _, rfl⟩⟩
    | closeTcpSocket =>
      cases hdoes
      exact ⟨⟨h.buffered, h.ready, h.noticed⟩, rfl⟩
    | write data =>
      cases hdoes
      exact good_write h data
    | askQuit =>
      cases hdoes
      exact ⟨⟨h.buffered, h.ready, fun _ => rfl⟩, rfl⟩
  · have hthread : view t 0 = view s 0 → ∀ j, j ≠ i → view t j = view s j := by
      intro hsame j _
      by_cases hj : j = 0
      · rw [hj, hsame]
      · rw [view_ne hj, view_ne hj]
    rw [view_ne hi] at hpre ⊢
    cases a with
    | write data =>
      cases hdoes
      obtain ⟨hgood, hsame⟩ := good_write h data
      exact ⟨hgood, view_ne hi, hthread hsame⟩
    | askQuit =>
      cases hdoes
      exact ⟨⟨h.buffered, h.ready, fun _ => rfl⟩, view_ne hi, hthread rfl⟩
    | _ => exact hpre.elim

end Steps

theorem View.Chunks.not_message {v : View} (h : v.Chunks []) : ¬Message v.sent v.received := by
  obtain ⟨chunks, hchunks, hreceived, hsent⟩ := h
  rw [hreceived, hsent, message_chunks_iff hchunks]
  exact not_message_nil []

theorem View.Chunks.message {v : View} (h : v.Chunks (chunk [])) : Message v.sent v.received := by
  obtain ⟨chunks, hchunks, hreceived, hsent⟩ := h
  rw [hreceived, hsent, message_chunks_iff hchunks]
  exact message_last

/-- When the thread has ended and no send has failed, what it sent is a whole chunked message for
the bytes that it read exactly if the request to quit was found while it waited for data. -/
theorem complete_iff {memory : ℕ → UInt8} {waits rounds : ℕ} {others : List Job}
    {ms : List (Move Process (ℕ × Event Act.Answer))} {d : Process}
    (hrun : Run (ThreadStep fun _ => Stream.Does) (newProcess memory waits rounds others) ms d)
    (hend : d.2[0]? = some (.ret ())) (hsent : d.1.failed = false) :
    Complete d.1 ↔ d.1.noticed = some .read := by
  have hgood : Good (openStream memory) :=
    ⟨buffered_new memory, le_rfl, fun h => absurd rfl h⟩
  have hcomply : Complies view loc pre post (newProcess memory waits rounds others) := by
    intro i p hp
    cases i with
    | zero =>
      cases hp
      exact wp_streamerClientRun waits rounds (.inl ⟨rfl, [], by simp, rfl, rfl⟩)
    | succ i =>
      rw [newProcess, List.getElem?_cons_succ, List.getElem?_map] at hp
      obtain ⟨job, -, rfl⟩ := Option.map_eq_some_iff.1 hp
      exact wp_other (Nat.succ_ne_zero i) job
  have hinv := complies_run (G := fun _ _ _ _ _ => True)
    (fun _ _ _ _ _ hs hpre hdoes _ => does_step hs hpre hdoes) hrun (fun _ _ => trivial) hgood
    hcomply
  obtain ⟨v, hv, hended⟩ := hinv.2 0 _ hend rfl
  cases hv
  rcases hended with hfailed | ⟨hnoticed, hchunks⟩ | ⟨hnoticed, hchunks⟩
  · exact absurd hfailed (by simp [hsent])
  · exact iff_of_true hchunks.message hnoticed
  · refine iff_of_false hchunks.not_message fun hread => ?_
    have hloop : d.1.noticed = some .loop := hnoticed
    rw [hread] at hloop
    cases hloop

/-! ### Two moments to quit -/

/-- One way in which the actions are answered, as long as the buffer has the bytes of the queue, which
are one at most. -/
def answers (_ : ℕ) (s : Stream) : (a : Act) → Option (a.Answer × Stream)
  | .shared .quit => some (s.quitting, s.notice .read)
  | .shared (.dataAvailable _) =>
    match s.queue with
    | [] => some ((0 : ℤ), { s with ready := 0 })
    | [_] => some ((1 : ℤ), { s with ready := 1 })
    | _ => none
  | .shared (.read _ len) =>
    if len = 1 ∧ s.queue.length = 1 then
      some (s.queue, { s with
        buffer := (s.buffer.bind (circularBufferRead · 1)).map Prod.snd
        queue := []
        ready := s.ready - 1
        received := s.received ++ s.queue })
    else none
  | .shared .lockClients | .shared .unlockClients | .shared (.removeClient _) => some ((), s)
  | .shared _ => none
  | .quit => some (s.quitting, s.notice .loop)
  | .sendStreamingHeaders => some (0, s)
  | .send data => some (0, { s with sent := s.sent ++ data })
  | .closeTcpSocket => some ((), { s with connected := false })
  | .write data =>
    if data.length = 1 ∧ s.queue = [] then
      some ((), { s with buffer := s.buffer.bind (circularBufferWrite · data), queue := data })
    else none
  | .askQuit => some ((), { s with quitting := true })

section Answers
variable {s : Stream} (hs : Buffered s.buffer s.queue)
include hs

theorem does_dataAvailable (client : ℕ) {n : ℕ} (hn : s.queue.length = n) :
    Stream.Does s (.shared (.dataAvailable client)) (n : ℤ) { s with ready := n } := by
  subst hn
  refine ⟨fun y hy => ?_, ?_⟩
  · rw [hs.data] at hy
    exact Option.some_inj.1 hy
  · rw [hs.data]
    rfl

theorem does_readAll (client : ℕ) : ∃ buffer,
    s.buffer.bind (circularBufferRead · s.queue.length) = some (s.queue, buffer) ∧
    Buffered (some buffer) [] ∧
    Stream.Does s (.shared (.read client s.queue.length)) s.queue { s with
      buffer := some buffer
      queue := []
      ready := s.ready - s.queue.length
      received := s.received ++ s.queue } := by
  obtain ⟨buffer, hread, hbuffered⟩ := hs.read le_rfl
  rw [List.take_length] at hread
  rw [List.drop_length] at hbuffered
  refine ⟨buffer, hread, hbuffered, fun y hy => ?_, ?_⟩
  · rw [hread] at hy
    rw [← Option.some_inj.1 hy]
  · rw [Stream.read, hread]
    simp

theorem does_write {data : Bytes} (hone : data.length = 1) (hnil : s.queue = []) : ∃ buffer,
    s.buffer.bind (circularBufferWrite · data) = some buffer ∧ Buffered (some buffer) data ∧
    Stream.Does s (.write data) () { s with buffer := some buffer, queue := data } := by
  have hsize : bufferSize = 1048576 := rfl
  obtain ⟨buffer, hwrite, hbuffered⟩ := hs.write (b := data)
    (by rw [hone, hnil, List.length_nil]; omega)
  rw [hnil, List.nil_append] at hbuffered
  refine ⟨buffer, hwrite, hbuffered, ?_⟩
  have hspace : (data.length : ℤ) < bufferSize - s.queue.length := by
    rw [hone, hnil, List.length_nil]
    omega
  rw [Stream.Does, Stream.write, hs.space]
  dsimp only
  rw [if_pos hspace, hnil, List.nil_append, hwrite]

theorem does_answers {i : ℕ} {t : Stream} {a : Act} {r : a.Answer}
    (h : answers i s a = some (r, t)) : Stream.Does s a r t ∧ Buffered t.buffer t.queue ∧ True := by
  cases a with
  | shared a =>
    cases a with
    | quit =>
      cases h
      exact ⟨⟨rfl, rfl⟩, hs, trivial⟩
    | dataAvailable client =>
      simp only [answers] at h
      split at h
      · next hqueue =>
        cases h
        exact ⟨does_dataAvailable hs client (congrArg List.length hqueue), hs, trivial⟩
      · next c hqueue =>
        cases h
        exact ⟨does_dataAvailable hs client (congrArg List.length hqueue), hs, trivial⟩
      · cases h
    | read client len =>
      simp only [answers] at h
      split_ifs at h with hone
      obtain ⟨rfl, hone⟩ := hone
      cases h
      obtain ⟨buffer, hread, hbuffered, hdoes⟩ := does_readAll hs client
      rw [hone] at hread hdoes
      have hread : s.buffer.bind (circularBufferRead · 1) = some (s.queue, buffer) := hread
      rw [hread]
      exact ⟨hdoes, hbuffered, trivial⟩
    | lockClients | unlockClients | removeClient =>
      cases h
      exact ⟨rfl, hs, trivial⟩
    | _ => cases h
  | quit =>
    cases h
    exact ⟨⟨rfl, rfl⟩, hs, trivial⟩
  | sendStreamingHeaders | send =>
    cases h
    exact ⟨.inl ⟨rfl, rfl⟩, hs, trivial⟩
  | closeTcpSocket | askQuit =>
    cases h
    exact ⟨rfl, hs, trivial⟩
  | write data =>
    simp only [answers] at h
    split_ifs at h with hempty
    cases h
    obtain ⟨buffer, hwrite, hbuffered, hdoes⟩ := does_write hs hempty.1 hempty.2
    rw [hwrite]
    exact ⟨hdoes, hbuffered, trivial⟩

end Answers

theorem exists_play (order : List ℕ) (c : Process) (hc : Buffered c.1.buffer c.1.queue) :
    ∃ ms, Run (ThreadStep fun _ => Stream.Does) c ms (play answers order c) := by
  obtain ⟨ms, hrun, -⟩ := run_play_keeping (I := fun s => Buffered s.buffer s.queue)
    (G := fun _ _ _ _ => True) answers
    (fun _ _ _ _ _ hs h => does_answers hs h) order c hc
  exact ⟨ms, hrun⟩

abbrev streaming : Process := newProcess (fun _ => 0) 1 3 [.sender [[120]], .ender]

/-- The client has sent the byte and waits for data when it is asked to quit. -/
def lateOrder : List ℕ := [1] ++ List.replicate 9 0 ++ [2] ++ List.replicate 12 0

def earlyOrder : List ℕ := [1] ++ List.replicate 7 0 ++ [2] ++ List.replicate 6 0

theorem late_quit_completes : ∃ ms d, Run (ThreadStep fun _ => Stream.Does) streaming ms d ∧
    d.1.received = [120] ∧ Complete d.1 := by
  obtain ⟨ms, hrun⟩ := exists_play lateOrder streaming (buffered_new _)
  exact ⟨ms, _, hrun, rfl, (complete_iff hrun rfl rfl).2 rfl⟩

theorem early_quit_leaves_out_last : ∃ ms d, Run (ThreadStep fun _ => Stream.Does) streaming ms d ∧
    d.2[0]? = some (.ret ()) ∧ d.1.failed = false ∧ d.1.received = [120] ∧ ¬Complete d.1 := by
  obtain ⟨ms, hrun⟩ := exists_play earlyOrder streaming (buffered_new _)
  have hchunks : ∀ data ∈ [[120]], data ≠ ([] : Bytes) := by simp
  exact ⟨ms, _, hrun, rfl, rfl, rfl,
    fun hcomplete => not_message_nil [] ((message_chunks_iff hchunks).1 hcomplete)⟩

end Rcom.StreamerClient
