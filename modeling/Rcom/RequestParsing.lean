import Rcom.Base64
import Rcom.HttpParser
import Rcom.Net

/-!
# Reading a request (request.c)

`request_parse_html` gives the bytes of a request to the HTTP parser one by one. A parser that has
failed returns 0 for each further byte, which is the number received less one, and that the
loop takes for an answer without error.
-/

namespace Rcom.Http
open Rcom.Lib Rcom.Lib.Program

inductive HttpMethod where
  | unsupported
  | get
  | post
deriving DecidableEq

inductive RequestParse where
  | headers
  | all
deriving DecidableEq

/-- `released` says that the three buffers have been deleted; using them is then undefined. -/
structure RequestT where
  method : HttpMethod
  uri : Option CStr
  arg : Option CStr
  body : Option Bytes
  reader : HeaderReader
  uriBuffer : Bytes
  released : Bool
  continueParsing : Bool
  parseWhat : RequestParse

namespace RequestT

def newRequest : RequestT := ⟨.unsupported, none, none, none, {}, [], false, false, .headers⟩

/-! ## Callbacks -/

def requestMessageComplete (r : RequestT) : RequestT := { r with continueParsing := false }

def requestOnBody (data : Bytes) (r : RequestT) : RequestT :=
  { r with body := some (r.body.getD [] ++ data) }

def requestOnUrl (data : Bytes) (r : RequestT) : Exec RequestT :=
  if r.released then none else some { r with uriBuffer := r.uriBuffer ++ data }

def requestOnHeaderField (data : Bytes) (r : RequestT) : Exec RequestT :=
  if r.released then none else some { r with reader := r.reader.onHeaderField data }

/-- A value that comes before any field is dropped. -/
def requestOnHeaderValue (data : Bytes) (r : RequestT) : Exec RequestT :=
  if r.reader.parserHeaderState = .headerNew then some r
  else if r.released then none
  else some { r with reader := r.reader.onHeaderValue data }

def methodOf : ParserMethod → HttpMethod
  | .get => .get
  | .post => .post
  | .other => .unsupported

/-- The copy of the URI has 2048 bytes. -/
def requestOnHeadersComplete (method : ParserMethod) (r : RequestT) : Exec (ℤ × RequestT) :=
  if r.released then none
  else
    let reader := r.reader.store
    let uriBuffer := appendZero r.uriBuffer
    if uriBuffer.length > 2048 then some (-1, { r with reader, uriBuffer })
    else
      let uri := cstr uriBuffer
      some (0, { r with
        reader
        uri := some (uri.takeWhile (· ≠ 63))
        arg := if 63 ∈ uri then some (uri.dropWhile (· ≠ 63)).tail else none
        uriBuffer := []
        released := true
        method := methodOf method
        continueParsing := if r.parseWhat = .headers then false else r.continueParsing })

/-- The settings of `request_parse_html`; `on_status` is not among them. -/
def requestCallback (r : RequestT) : ParserCallback → Exec (ℤ × RequestT)
  | .messageBegin => some (0, r)
  | .url data => (requestOnUrl data r).map (0, ·)
  | .status _ => some (0, r)
  | .headerField data => (requestOnHeaderField data r).map (0, ·)
  | .headerValue data => (requestOnHeaderValue data r).map (0, ·)
  | .headersComplete method _ => requestOnHeadersComplete method r
  | .body data => some (0, requestOnBody data r)
  | .messageComplete => some (0, requestMessageComplete r)

/-! ## The loop -/

/-- The state at the head of the loop; `round` numbers the calls of `app_quit`. -/
structure Head (parser : HttpParser) where
  round : ℕ
  state : parser.State
  request : RequestT
  socket : Socket

variable (parser : HttpParser) (quits : ℕ → Bool)

/-- The loop of `request_parse_html`; its buffer has one byte. -/
def parseLoop (h : Head parser) : Exec (ℤ × RequestT × Socket) :=
  if quits h.round || !h.request.continueParsing then some (0, h.request, h.socket)
  else
    let recv := tcpSocketRecv h.socket 1
    if recv.1 < 0 then some (-1, h.request, recv.2.2)
    else
      match interpret requestCallback (parser.execute h.state recv.2.1) h.request with
      | none => none
      | some (_, (state, parsed), request) =>
        if hzero : recv.1 = 0 then
          if request.continueParsing = false then some (0, request, recv.2.2)
          else some (-1, request, recv.2.2)
        else if (parsed : ℤ) ≠ recv.1 ∧ (parsed : ℤ) ≠ recv.1 - 1 ∧ request.continueParsing then
          some (-1, request, recv.2.2)
        else
          have : recv.2.2.weight < h.socket.weight := tcpSocketRecv_weight Nat.one_pos hzero
          parseLoop ⟨h.round + 1, state, request, recv.2.2⟩
termination_by h.socket.weight

def start (what : RequestParse) (request : RequestT) (socket : Socket) : Head parser :=
  ⟨0, parser.init, { request with parseWhat := what, continueParsing := true }, socket⟩

def requestParseHtml (what : RequestParse) (request : RequestT) (socket : Socket) :
    Exec (ℤ × RequestT × Socket) :=
  parseLoop parser quits (start parser what request socket)

/-! ## Rounds -/

def Executes (h : Head parser) : Prop :=
  quits h.round = false ∧ h.request.continueParsing = true ∧ 0 ≤ (tcpSocketRecv h.socket 1).1

/-- The callbacks of a round, the number of bytes parsed, and the state after the call. -/
def Calling (h : Head parser) (calls : Calls) (parsed : ℕ) (h' : Head parser) : Prop :=
  Executes parser quits h ∧
    h'.round = h.round + 1 ∧ h'.socket = (tcpSocketRecv h.socket 1).2.2 ∧
    interpret requestCallback (parser.execute h.state (tcpSocketRecv h.socket 1).2.1) h.request =
      some (calls, (h'.state, parsed), h'.request)

def Mismatch (h : Head parser) (parsed : ℕ) (h' : Head parser) : Prop :=
  (parsed : ℤ) ≠ (tcpSocketRecv h.socket 1).1 ∧ (parsed : ℤ) ≠ (tcpSocketRecv h.socket 1).1 - 1 ∧
    h'.request.continueParsing = true

/-- The loop comes to the head of this round, and the parser has made these calls. -/
inductive Reached (first : Head parser) : Calls → Head parser → Prop where
  | first : Reached first [] first
  | next {calls calls' : Calls} {parsed : ℕ} {h h' : Head parser} :
      Reached first calls h → Calling parser quits h calls' parsed h' → h.socket ≠ [] →
      ¬Mismatch parser h parsed h' → Reached first (calls ++ calls') h'

variable {parser} {quits}

section Rounds
variable {h h' : Head parser} {calls : Calls} {parsed : ℕ}

theorem parseLoop_end (hc : Calling parser quits h calls parsed h') (hend : h.socket = []) :
    parseLoop parser quits h =
      some (if h'.request.continueParsing = false then 0 else -1, h'.request, h'.socket) := by
  obtain ⟨⟨hquit, hcontinue, _⟩, _, hsocket, hcall⟩ := hc
  rw [parseLoop]
  simp only [hquit, hcontinue, Bool.not_true, Bool.or_false, Bool.false_eq_true, if_false,
    hcall, (tcpSocketRecv_zero one_pos).2 hend, lt_irrefl, dite_true]
  rw [hsocket]
  split_ifs <;> simp

theorem parseLoop_mismatch (hc : Calling parser quits h calls parsed h') (hmore : h.socket ≠ [])
    (hm : Mismatch parser h parsed h') :
    parseLoop parser quits h = some (-1, h'.request, h'.socket) := by
  obtain ⟨⟨hquit, hcontinue, hpos⟩, _, hsocket, hcall⟩ := hc
  obtain ⟨hne, hne', hcontinue'⟩ := hm
  rw [parseLoop]
  simp only [hquit, hcontinue, Bool.not_true, Bool.or_false, Bool.false_eq_true, if_false,
    not_lt.2 hpos, hcall, (tcpSocketRecv_zero one_pos).not.2 hmore, dite_false]
  rw [if_pos ⟨hne, hne', hcontinue'⟩, hsocket]

theorem parseLoop_continues (hc : Calling parser quits h calls parsed h') (hmore : h.socket ≠ [])
    (hm : ¬Mismatch parser h parsed h') : parseLoop parser quits h = parseLoop parser quits h' := by
  obtain ⟨⟨hquit, hcontinue, hpos⟩, hround, hsocket, hcall⟩ := hc
  obtain ⟨round, state, request, socket⟩ := h'
  dsimp only at hround hsocket hcall
  rw [parseLoop]
  simp only [hquit, hcontinue, Bool.not_true, Bool.or_false, Bool.false_eq_true, if_false,
    not_lt.2 hpos, hcall, (tcpSocketRecv_zero one_pos).not.2 hmore, dite_false]
  unfold Mismatch at hm
  rw [if_neg hm, hround, hsocket]

/-- The loop comes to what it comes to from any round that it reaches. -/
theorem parseLoop_reached (hreach : Reached parser quits h calls h') :
    parseLoop parser quits h = parseLoop parser quits h' := by
  induction hreach with
  | first => rfl
  | next _ hc hmore hm ih => exact ih.trans (parseLoop_continues hc hmore hm)

end Rounds

/-! ## Errors -/

def HeadersTaken (calls : Calls) : Prop :=
  ∃ method status, ⟨.headersComplete method status, 0⟩ ∈ calls

/-- The parsing is over: the message is complete, or the headers are and no more is asked for. -/
def Ends (what : RequestParse) (calls : Calls) : Prop :=
  MessageComplete calls ∨ what = .headers ∧ HeadersTaken calls

theorem ends_append {what : RequestParse} {calls : Calls} {e : Event fun _ : ParserCallback => ℤ} :
    Ends what (calls ++ [e]) ↔ Ends what calls ∨ Ends what [e] := by
  simp only [Ends, MessageComplete, HeadersTaken, List.mem_append, exists_or]
  rw [and_or_left, or_or_or_comm]

theorem headersTaken_append {calls : Calls} {e : Event fun _ : ParserCallback => ℤ} :
    HeadersTaken (calls ++ [e]) ↔ HeadersTaken calls ∨ HeadersTaken [e] := by
  simp only [HeadersTaken, List.mem_append, exists_or]

/-- What a callback does to the request, as far as the parsing goes. -/
structure Answered (r : RequestT) (c : ParserCallback) (answer : ℤ) (r' : RequestT) : Prop where
  parseWhat : r'.parseWhat = r.parseWhat
  ends : r'.continueParsing = false ↔ r.continueParsing = false ∨ Ends r.parseWhat [⟨c, answer⟩]
  released : r'.released = true ↔ r.released = true ∨ HeadersTaken [⟨c, answer⟩]
  headerNew : r'.reader.parserHeaderState = .headerNew ↔
    r.reader.parserHeaderState = .headerNew ∧ ¬FieldSeen [⟨c, answer⟩]

theorem requestCallback_answered {r r' : RequestT} {c : ParserCallback} {answer : ℤ}
    (h : requestCallback r c = some (answer, r')) : Answered r c answer r' := by
  have hsame : ∀ data : Bytes, Answered r (.headerValue data) 0 r ∧ Answered r (.url data) 0
      { r with uriBuffer := r.uriBuffer ++ data } := by
    intro data
    constructor <;> constructor <;> simp [Ends, MessageComplete, HeadersTaken, FieldSeen]
  cases c with
  | messageBegin | status =>
    cases h
    constructor <;> simp [Ends, MessageComplete, HeadersTaken, FieldSeen]
  | url data =>
    obtain ⟨r₁, hr₁, heq⟩ := Option.map_eq_some_iff.1 h
    cases heq
    unfold requestOnUrl at hr₁
    split at hr₁
    · simp at hr₁
    · cases hr₁
      exact (hsame data).2
  | headerField data =>
    obtain ⟨r₁, hr₁, heq⟩ := Option.map_eq_some_iff.1 h
    cases heq
    unfold requestOnHeaderField at hr₁
    split at hr₁
    · simp at hr₁
    · cases hr₁
      constructor <;>
        simp [Ends, MessageComplete, HeadersTaken, FieldSeen, HeaderReader.onHeaderField_state]
  | headerValue data =>
    obtain ⟨r₁, hr₁, heq⟩ := Option.map_eq_some_iff.1 h
    cases heq
    unfold requestOnHeaderValue at hr₁
    split at hr₁
    · cases hr₁
      exact (hsame data).1
    · next hstate =>
      split at hr₁
      · simp at hr₁
      · cases hr₁
        constructor <;>
          simp [Ends, MessageComplete, HeadersTaken, FieldSeen, HeaderReader.onHeaderValue, hstate]
  | headersComplete method status =>
    change requestOnHeadersComplete method r = some (answer, r') at h
    unfold requestOnHeadersComplete at h
    split at h
    · simp at h
    · next hreleased =>
      dsimp only at h
      split at h
      · cases h
        constructor <;>
          simp [Ends, MessageComplete, HeadersTaken, FieldSeen, HeaderReader.store_state]
      · cases h
        constructor
        · rfl
        · cases r.parseWhat <;> simp [Ends, MessageComplete, HeadersTaken]
        · simp [HeadersTaken]
        · simp [FieldSeen, HeaderReader.store_state]
  | body data =>
    cases h
    constructor <;> simp [Ends, MessageComplete, HeadersTaken, FieldSeen, requestOnBody]
  | messageComplete =>
    cases h
    constructor <;> simp [Ends, MessageComplete, HeadersTaken, FieldSeen, requestMessageComplete]

/-- A call of the parser ends the parsing exactly with the callbacks that do. -/
theorem Calling.ends {h h' : Head parser} {calls : Calls} {parsed : ℕ}
    (hc : Calling parser quits h calls parsed h') :
    h'.request.parseWhat = h.request.parseWhat ∧
      (h'.request.continueParsing = false ↔ Ends h.request.parseWhat calls) := by
  obtain ⟨⟨_, hcontinue, _⟩, _, _, hcall⟩ := hc
  have hstart : h.request.parseWhat = h.request.parseWhat ∧
      (h.request.continueParsing = false ↔ Ends h.request.parseWhat []) := by
    simp [hcontinue, Ends, MessageComplete, HeadersTaken]
  have hinv := interpret_invariant (I := fun es r => r.parseWhat = h.request.parseWhat ∧
    (r.continueParsing = false ↔ Ends h.request.parseWhat es)) ?_ hcall hstart
  · exact hinv
  · rintro es r c answer r' ⟨hwhat, hiff⟩ hcallback
    have hanswered := requestCallback_answered hcallback
    refine ⟨hanswered.parseWhat.trans hwhat, ?_⟩
    rw [hanswered.ends, hiff, hwhat, ends_append]

/-! ## Buffers -/

def UsesBuffers (calls : Calls) : ParserCallback → Prop
  | .url _ | .headerField _ | .headersComplete _ _ => True
  | .headerValue _ => FieldSeen calls
  | _ => False

structure Heard (calls : Calls) (r : RequestT) : Prop where
  released : r.released = true ↔ HeadersTaken calls
  headerNew : r.reader.parserHeaderState = .headerNew ↔ ¬FieldSeen calls

theorem heard_callback {calls : Calls} {r r' : RequestT} {c : ParserCallback} {answer : ℤ}
    (hr : Heard calls r) (h : requestCallback r c = some (answer, r')) :
    Heard (calls ++ [⟨c, answer⟩]) r' := by
  have hanswered := requestCallback_answered h
  constructor
  · rw [hanswered.released, hr.released, headersTaken_append]
  · rw [hanswered.headerNew, hr.headerNew, fieldSeen_append, not_or]

theorem heard_reached {what : RequestParse} {socket : Socket} {calls : Calls} {h : Head parser}
    (hreach : Reached parser quits (start parser what newRequest socket) calls h) :
    Heard calls h.request := by
  induction hreach with
  | first => constructor <;> simp [start, newRequest, HeadersTaken, FieldSeen]
  | next _ hc _ _ ih =>
    exact interpret_invariant (I := Heard) (fun _ _ _ _ _ => heard_callback) hc.2.2.2 ih

theorem requestCallback_defined {calls : Calls} {r : RequestT} (hr : Heard calls r)
    (c : ParserCallback) :
    requestCallback r c ≠ none ↔ (HeadersTaken calls → ¬UsesBuffers calls c) := by
  rw [← hr.released]
  cases c with
  | messageBegin | status | body | messageComplete => simp [requestCallback, UsesBuffers]
  | url data => simp [requestCallback, requestOnUrl, UsesBuffers]
  | headerField data => simp [requestCallback, requestOnHeaderField, UsesBuffers]
  | headerValue data =>
    by_cases hstate : r.reader.parserHeaderState = .headerNew
    · simp [requestCallback, requestOnHeaderValue, UsesBuffers, hstate, hr.headerNew.1 hstate]
    · simp [requestCallback, requestOnHeaderValue, UsesBuffers, hstate,
        not_not.1 (hr.headerNew.not.1 hstate)]
  | headersComplete method status =>
    cases hreleased : r.released with
    | true => simp [requestCallback, requestOnHeadersComplete, UsesBuffers, hreleased]
    | false =>
      have hdefined : requestOnHeadersComplete method r ≠ none := by
        unfold requestOnHeadersComplete
        rw [hreleased, if_neg Bool.false_ne_true]
        dsimp only
        split <;> simp
      simpa [requestCallback] using hdefined

variable (parser quits) in
/-- In this round the parser asks for a callback, after these calls and with the request in this
state. -/
def AsksFor (first : Head parser) (calls : Calls) (c : ParserCallback) (r : RequestT) : Prop :=
  ∃ before h es, Reached parser quits first before h ∧ Executes parser quits h ∧
    Asks requestCallback (parser.execute h.state (tcpSocketRecv h.socket 1).2.1) h.request es c r ∧
    calls = before ++ es

theorem heard_asks {what : RequestParse} {socket : Socket} {calls : Calls} {c : ParserCallback}
    {r : RequestT}
    (h : AsksFor parser quits (start parser what newRequest socket) calls c r) : Heard calls r := by
  obtain ⟨before, h, es, hreach, _, hasks, heq⟩ := h
  rw [heq]
  exact asks_invariant (I := Heard) (fun _ _ _ _ _ => heard_callback) hasks (heard_reached hreach)

/-! ## Reading on -/

def content : Socket → Bytes
  | [] => []
  | .bytes b bs :: s => b :: bs ++ content s
  | _ :: s => content s

def RejectedAtOnce (result : Exec (ℤ × RequestT × Socket)) (h : Head parser) : Prop :=
  ∃ request socket, result = some (-1, request, socket) ∧ content socket = content h.socket

/-- The next `recv` has no byte. -/
def NoByte (socket : Socket) : Prop := ∀ b bs s, socket ≠ .bytes b bs :: s

theorem content_push (bs : Bytes) (s : Socket) : content (Socket.push bs s) = bs ++ content s := by
  cases bs with
  | nil => rfl
  | cons b bs => rfl

theorem content_recv (socket : Socket) :
    (content (tcpSocketRecv socket 1).2.2).length ≤ (content socket).length := by
  cases socket with
  | nil => exact le_refl _
  | cons a s =>
    cases a with
    | timeout | error => exact le_refl _
    | bytes b bs =>
      simp only [tcpSocketRecv, content_push, content, List.length_append, List.length_drop,
        List.length_cons]
      omega

theorem parseLoop_content {h : Head parser} {code : ℤ} {request : RequestT} {socket : Socket}
    (hloop : parseLoop parser quits h = some (code, request, socket)) :
    (content socket).length ≤ (content h.socket).length := by
  fun_induction parseLoop parser quits h with
  | case1 h hstop =>
    cases hloop
    exact le_refl _
  | case2 h hgo recv hneg =>
    cases hloop
    exact content_recv _
  | case3 => simp at hloop
  | case4 h =>
    cases hloop
    exact content_recv _
  | case5 h =>
    cases hloop
    exact content_recv _
  | case6 h =>
    cases hloop
    exact content_recv _
  | case7 h _ recv _ _ _ _ _ _ _ _ _ ih => exact (ih hloop).trans (content_recv _)

theorem parseWhat_reached {what : RequestParse} {socket : Socket} {calls : Calls} {h : Head parser}
    (hreach : Reached parser quits (start parser what newRequest socket) calls h) :
    h.request.parseWhat = what := by
  induction hreach with
  | first => rfl
  | next _ hc _ _ ih => exact hc.ends.1.trans ih

theorem rejectedAtOnce_after {h : Head parser} (hsilent : parser.Silent)
    (herror : parser.failed h.state = true) (hcontinue : h.request.continueParsing = true) :
    RejectedAtOnce (parseLoop parser quits h) h ↔ quits h.round = false ∧ NoByte h.socket := by
  cases hquit : quits h.round with
  | true =>
    have hloop : parseLoop parser quits h = some (0, h.request, h.socket) := by
      rw [parseLoop]
      simp [hquit]
    simp [RejectedAtOnce, hloop]
  | false =>
    obtain ⟨round, state, request, socket⟩ := h
    dsimp only at hquit hcontinue herror
    simp only [true_and]
    obtain ⟨state', hexecute, herror'⟩ := hsilent state (tcpSocketRecv socket 1).2.1 herror
    have hcall : interpret requestCallback (parser.execute state (tcpSocketRecv socket 1).2.1) request =
        some ([], (state', 0), request) := by rw [hexecute, interpret]
    cases socket with
    | nil =>
      have hc : Calling parser quits ⟨round, state, request, []⟩ [] 0
          ⟨round + 1, state', request, []⟩ := ⟨⟨hquit, hcontinue, le_refl _⟩, rfl, rfl, hcall⟩
      refine iff_of_true ⟨request, [], ?_, rfl⟩ (by simp [NoByte])
      rw [parseLoop_end hc rfl, if_neg (by simp [hcontinue])]
    | cons a s =>
      cases a with
      | timeout | error =>
        refine iff_of_true ⟨request, s, ?_, rfl⟩ (by simp [NoByte])
        rw [parseLoop]
        simp [hquit, hcontinue, tcpSocketRecv]
      | bytes b bs =>
        refine iff_of_false ?_ (fun hno => hno b bs s rfl)
        rintro ⟨request', socket', hloop, hcontent⟩
        have hc : Calling parser quits ⟨round, state, request, .bytes b bs :: s⟩ [] 0
            ⟨round + 1, state', request, Socket.push bs s⟩ := by
          refine ⟨⟨hquit, hcontinue, ?_⟩, rfl, ?_, hcall⟩ <;> simp [tcpSocketRecv]
        have hm : ¬Mismatch parser ⟨round, state, request, .bytes b bs :: s⟩ 0
            ⟨round + 1, state', request, Socket.push bs s⟩ := by
          simp [Mismatch, tcpSocketRecv]
        rw [parseLoop_continues hc (List.cons_ne_nil _ _) hm] at hloop
        have hle := parseLoop_content hloop
        rw [hcontent, content_push] at hle
        simp only [content, List.length_append, List.length_cons] at hle
        omega

/-- An error is rejected at once exactly if it was signalled at the end of the stream, or the
call returned neither 0 nor 1, or nothing more is received and the application does not quit; and if
the same call did not end the parsing. -/
theorem rejected_at_once_iff (hsilent : parser.Silent) {what : RequestParse} {socket : Socket}
    {h h' : Head parser} {before calls : Calls} {parsed : ℕ}
    (hreach : Reached parser quits (start parser what newRequest socket) before h)
    (hcall : Calling parser quits h calls parsed h') (herror : parser.failed h'.state = true) :
    RejectedAtOnce (requestParseHtml parser quits what newRequest socket) h' ↔
      ¬Ends what calls ∧ (h.socket = [] ∨ (parsed ≠ 0 ∧ parsed ≠ 1) ∨
        (quits h'.round = false ∧ NoByte h'.socket)) := by
  have hends := hcall.ends.2
  rw [parseWhat_reached hreach] at hends
  rw [requestParseHtml, parseLoop_reached hreach, ← hends]
  cases hcontinue : h'.request.continueParsing with
  | false =>
    simp only [not_true, false_and, iff_false]
    rintro ⟨request, socket', hloop, _⟩
    by_cases hend : h.socket = []
    · rw [parseLoop_end hcall hend, if_pos hcontinue] at hloop
      simp at hloop
    · have hm : ¬Mismatch parser h parsed h' := fun hm => by simp [hm.2.2] at hcontinue
      rw [parseLoop_continues hcall hend hm, parseLoop] at hloop
      simp [hcontinue] at hloop
  | true =>
    simp only [Bool.true_eq_false, not_false_eq_true, true_and]
    by_cases hend : h.socket = []
    · refine iff_of_true ⟨h'.request, h'.socket, ?_, rfl⟩ (.inl hend)
      rw [parseLoop_end hcall hend, if_neg (by simp [hcontinue])]
    · have hone : (tcpSocketRecv h.socket 1).1 = 1 := by
        cases hsocket : h.socket with
        | nil => exact absurd hsocket hend
        | cons a s =>
          have hpos := hcall.1.2.2
          rw [hsocket] at hpos
          cases a with
          | timeout | error => simp [tcpSocketRecv] at hpos
          | bytes b bs => simp [tcpSocketRecv]
      have hmismatch : Mismatch parser h parsed h' ↔ parsed ≠ 0 ∧ parsed ≠ 1 := by
        unfold Mismatch
        rw [hone, hcontinue, eq_self_iff_true, and_true]
        omega
      by_cases hm : Mismatch parser h parsed h'
      · exact iff_of_true ⟨h'.request, h'.socket, parseLoop_mismatch hcall hend hm, rfl⟩
          (.inr (.inl (hmismatch.1 hm)))
      · rw [parseLoop_continues hcall hend hm, rejectedAtOnce_after hsilent herror hcontinue,
          ← hmismatch]
        simp [hend, hm]

def afterError (socket : Socket) : Head letters :=
  ⟨1, true, { newRequest with parseWhat := .all, continueParsing := true }, socket⟩

/-- The first byte is an error, and the second one is read. -/
theorem error_read_on :
    letters.Silent ∧
      Calling letters (fun _ => false) (start letters .all newRequest [.bytes 64 [64]]) [] 0
        (afterError [.bytes 64 []]) ∧
      letters.failed (afterError [.bytes 64 []]).state = true ∧
      ¬RejectedAtOnce (requestParseHtml letters (fun _ => false) .all newRequest [.bytes 64 [64]])
        (afterError [.bytes 64 []]) := by
  have hcall : Calling letters (fun _ => false) (start letters .all newRequest [.bytes 64 [64]]) [] 0
      (afterError [.bytes 64 []]) := by
    refine ⟨⟨rfl, rfl, ?_⟩, rfl, rfl, rfl⟩
    decide
  refine ⟨letters_silent, hcall, rfl, ?_⟩
  have hm : ¬Mismatch letters (start letters .all newRequest [.bytes 64 [64]]) 0
      (afterError [.bytes 64 []]) :=
    fun hm => hm.2.1 rfl
  rw [requestParseHtml, parseLoop_continues hcall (List.cons_ne_nil _ _) hm,
    rejectedAtOnce_after letters_silent rfl rfl]
  exact fun hno => hno.2 64 [] [] rfl

theorem rejected_at_once_closed :
    RejectedAtOnce (requestParseHtml letters (fun _ => false) .all newRequest [.bytes 64 []])
      (afterError []) := by
  have hcall : Calling letters (fun _ => false) (start letters .all newRequest [.bytes 64 []]) [] 0
      (afterError []) := by
    refine ⟨⟨rfl, rfl, ?_⟩, rfl, rfl, rfl⟩
    decide
  refine (rejected_at_once_iff letters_silent .first hcall rfl).2 ⟨?_, .inr (.inr ⟨rfl, ?_⟩)⟩
  · simp [Ends, MessageComplete, HeadersTaken]
  · simp [NoByte, afterError]

end RequestT
end Rcom.Http
