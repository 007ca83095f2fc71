import Rcom.HttpParser
import Rcom.Net

/-!
# Reading a response (response.c)

`response_parse_html` waits for data, receives and gives what came to the HTTP parser. When the
peer has closed the connection the loop is left and 0 is returned, whatever the parser has made of
the end.
-/

namespace Rcom.Http
open Rcom.Lib Rcom.Lib.Program

inductive ResponseParse where
  | headers
  | all
deriving DecidableEq

/-- `released` says that the buffers of the header have been deleted; using them is then undefined. -/
structure ResponseT where
  status : ℤ
  body : Bytes
  continueParsing : Bool
  parseWhat : ResponseParse
  reader : HeaderReader
  statusBuffer : Bytes
  released : Bool

/-- What the user has set, with user data of type `U`. -/
structure ResponseHandlers (U : Type) where
  onheaders : Option (U → ResponseT → ℤ × U)
  ondata : Option (U → ResponseT → Bytes → ℤ × U)

namespace ResponseT

def newResponse (status : ℤ) : ResponseT := ⟨status, [], false, .headers, {}, [], false⟩

/-! ## Callbacks -/

variable {U : Type} (handlers : ResponseHandlers U)

def responseOnStatus (data : Bytes) (r : ResponseT) : ResponseT :=
  { r with statusBuffer := r.statusBuffer ++ data }

def responseOnHeaderField (data : Bytes) (r : ResponseT) : Exec ResponseT :=
  if r.released then none else some { r with reader := r.reader.onHeaderField data }

/-- A value that comes before any field is dropped. -/
def responseOnHeaderValue (data : Bytes) (r : ResponseT) : Exec ResponseT :=
  if r.reader.parserHeaderState = .headerNew then some r
  else if r.released then none
  else some { r with reader := r.reader.onHeaderValue data }

def responseOnHeadersComplete (statusCode : ℤ) (r : ResponseT) (userdata : U) :
    Exec (ℤ × ResponseT × U) :=
  if r.released then none
  else
    let r := { r with
      reader := r.reader.store
      statusBuffer := appendZero r.statusBuffer
      status := statusCode
      released := true
      continueParsing := if r.parseWhat = .headers then false else r.continueParsing }
    match handlers.onheaders with
    | none => some (0, r, userdata)
    | some onheaders => some ((onheaders userdata r).1, r, (onheaders userdata r).2)

def responseOnBody (data : Bytes) (r : ResponseT) (userdata : U) : ℤ × ResponseT × U :=
  match handlers.ondata with
  | none => (0, { r with body := r.body ++ data }, userdata)
  | some ondata => ((ondata userdata r data).1, r, (ondata userdata r data).2)

def responseOnMessageComplete (r : ResponseT) : ResponseT := { r with continueParsing := false }

/-- The settings of `response_parse_html`; the start of a message and URLs are not asked for. -/
def responseCallback (s : ResponseT × U) : ParserCallback → Exec (ℤ × ResponseT × U)
  | .messageBegin => some (0, s)
  | .url _ => some (0, s)
  | .status data => some (0, responseOnStatus data s.1, s.2)
  | .headerField data => (responseOnHeaderField data s.1).map fun r => (0, r, s.2)
  | .headerValue data => (responseOnHeaderValue data s.1).map fun r => (0, r, s.2)
  | .headersComplete _ statusCode => responseOnHeadersComplete handlers statusCode s.1 s.2
  | .body data => some (responseOnBody handlers data s.1 s.2)
  | .messageComplete => some (0, responseOnMessageComplete s.1, s.2)

/-! ## The loop -/

structure Head (parser : HttpParser) (U : Type) where
  state : parser.State
  response : ResponseT × U
  socket : Socket

/-- What a round finds: whether the application quits, and what `tcp_socket_wait_data` returns. -/
structure Round where
  quit : Bool
  wait : ℤ

def bufferLength : ResponseParse → ℕ
  | .headers => 1
  | .all => 80 * 1024

variable (parser : HttpParser)

/-- The loop of `response_parse_html`: the calls of the parser, what is returned (`none` if it
goes on after these rounds), and the state in the end. -/
def parseLoop (what : ResponseParse) :
    List Round → Head parser U → Exec (Calls × Option ℤ × Head parser U)
  | [], h => some ([], none, h)
  | round :: rounds, h =>
    if round.quit || !h.response.1.continueParsing then some ([], some 0, h)
    else if round.wait = 1 then
      let recv := tcpSocketRecv h.socket (bufferLength what)
      if recv.1 < 0 then some ([], some (-1), { h with socket := recv.2.2 })
      else
        match interpret (responseCallback handlers) (parser.execute h.state recv.2.1) h.response with
        | none => none
        | some (calls, (state, parsed), response) =>
          if recv.1 = 0 then some (calls, some 0, ⟨state, response, recv.2.2⟩)
          else if (parsed : ℤ) ≠ recv.1 ∧ (parsed : ℤ) ≠ recv.1 - 1 then
            some (calls, some (-1), ⟨state, response, recv.2.2⟩)
          else (parseLoop what rounds ⟨state, response, recv.2.2⟩).map fun r => (calls ++ r.1, r.2)
    else parseLoop what rounds h

def start (what : ResponseParse) (response : ResponseT) (userdata : U) (socket : Socket) :
    Head parser U :=
  ⟨parser.init, ({ response with parseWhat := what, continueParsing := true }, userdata), socket⟩

def responseParseHtml (what : ResponseParse) (response : ResponseT) (userdata : U) (socket : Socket)
    (rounds : List Round) : Exec (Calls × Option ℤ × Head parser U) :=
  parseLoop handlers parser what rounds (start parser what response userdata socket)

/-! ## Rounds -/

/-- The callbacks of a round, the number of bytes parsed, and the state after the call. -/
def Calling (what : ResponseParse) (h : Head parser U) (calls : Calls) (parsed : ℕ)
    (h' : Head parser U) : Prop :=
  h.response.1.continueParsing = true ∧ 0 ≤ (tcpSocketRecv h.socket (bufferLength what)).1 ∧
    h'.socket = (tcpSocketRecv h.socket (bufferLength what)).2.2 ∧
    interpret (responseCallback handlers)
        (parser.execute h.state (tcpSocketRecv h.socket (bufferLength what)).2.1) h.response =
      some (calls, (h'.state, parsed), h'.response)

def Mismatch (what : ResponseParse) (h : Head parser U) (parsed : ℕ) : Prop :=
  (parsed : ℤ) ≠ (tcpSocketRecv h.socket (bufferLength what)).1 ∧
    (parsed : ℤ) ≠ (tcpSocketRecv h.socket (bufferLength what)).1 - 1

/-- The loop comes to its head in this state, and the parser has made these calls. -/
inductive Reached (what : ResponseParse) (first : Head parser U) : Calls → Head parser U → Prop where
  | first : Reached what first [] first
  | next {calls calls' : Calls} {parsed : ℕ} {h h' : Head parser U} :
      Reached what first calls h → Calling handlers parser what h calls' parsed h' →
      h.socket ≠ [] → ¬Mismatch parser what h parsed → Reached what first (calls ++ calls') h'

variable {handlers} {parser} {what : ResponseParse}

theorem bufferLength_pos (what : ResponseParse) : 0 < bufferLength what := by
  cases what with
  | headers => exact Nat.one_pos
  | all => decide

section Loop
variable {h h' : Head parser U} {calls calls' : Calls} {parsed : ℕ} {rounds : List Round}

/-- What follows a round in which the parser was called, with no one quitting. -/
theorem parseLoop_continues {last : Head parser U} {code : ℤ}
    (hc : Calling handlers parser what h calls parsed h') (hmore : h.socket ≠ [])
    (hm : ¬Mismatch parser what h parsed) (hquit : ∀ round ∈ rounds, round.quit = false)
    (hloop : parseLoop handlers parser what rounds h = some (calls', some code, last)) :
    ∃ rest calls'', (∀ round ∈ rest, round.quit = false) ∧ calls' = calls ++ calls'' ∧
      parseLoop handlers parser what rest h' = some (calls'', some code, last) := by
  obtain ⟨hcontinue, hpos, hsocket, hcall⟩ := hc
  induction rounds with
  | nil => simp [parseLoop] at hloop
  | cons round rounds ih =>
    simp only [List.mem_cons, forall_eq_or_imp] at hquit
    rw [parseLoop] at hloop
    simp only [hquit.1, hcontinue, Bool.not_true, Bool.or_false, Bool.false_eq_true, if_false]
      at hloop
    by_cases hwait : round.wait = 1
    · unfold Mismatch at hm
      rw [if_pos hwait, if_neg (not_lt.2 hpos), hcall] at hloop
      dsimp only at hloop
      rw [if_neg ((tcpSocketRecv_zero (bufferLength_pos what)).not.2 hmore), if_neg hm, ← hsocket] at hloop
      obtain ⟨r, hr, heq⟩ := Option.map_eq_some_iff.1 hloop
      obtain ⟨calls'', code', last'⟩ := r
      cases heq
      exact ⟨rounds, calls'', hquit.2, rfl, hr⟩
    · rw [if_neg hwait] at hloop
      exact ih hquit.2 hloop

theorem parseLoop_end {last : Head parser U} {code : ℤ}
    (hc : Calling handlers parser what h calls parsed h') (hend : h.socket = [])
    (hquit : ∀ round ∈ rounds, round.quit = false)
    (hloop : parseLoop handlers parser what rounds h = some (calls', some code, last)) :
    code = 0 ∧ calls' = calls ∧ last = h' := by
  obtain ⟨hcontinue, hpos, hsocket, hcall⟩ := hc
  induction rounds with
  | nil => simp [parseLoop] at hloop
  | cons round rounds ih =>
    simp only [List.mem_cons, forall_eq_or_imp] at hquit
    rw [parseLoop] at hloop
    simp only [hquit.1, hcontinue, Bool.not_true, Bool.or_false, Bool.false_eq_true, if_false]
      at hloop
    by_cases hwait : round.wait = 1
    · rw [if_pos hwait, if_neg (not_lt.2 hpos), hcall] at hloop
      dsimp only at hloop
      rw [if_pos ((tcpSocketRecv_zero (bufferLength_pos what)).2 hend), ← hsocket] at hloop
      cases hloop
      exact ⟨rfl, rfl, rfl⟩
    · rw [if_neg hwait] at hloop
      exact ih hquit.2 hloop

/-- From a state that it comes to, the loop goes on with other rounds. -/
theorem parseLoop_reached {first last : Head parser U} {code : ℤ}
    (hreach : Reached handlers parser what first calls h)
    (hquit : ∀ round ∈ rounds, round.quit = false)
    (hloop : parseLoop handlers parser what rounds first = some (calls', some code, last)) :
    ∃ rest calls'', (∀ round ∈ rest, round.quit = false) ∧ calls' = calls ++ calls'' ∧
      parseLoop handlers parser what rest h = some (calls'', some code, last) := by
  induction hreach with
  | first => exact ⟨rounds, calls', hquit, rfl, hloop⟩
  | next _ hc hmore hm ih =>
    obtain ⟨rest, calls₁, hquit₁, heq₁, hloop₁⟩ := ih
    obtain ⟨rest', calls₂, hquit₂, heq₂, hloop₂⟩ := parseLoop_continues hc hmore hm hquit₁ hloop₁
    exact ⟨rest', calls₂, hquit₂, by rw [heq₁, heq₂, List.append_assoc], hloop₂⟩

/-- The loop is left with 0 when the parsing is over, or after the end of the stream. -/
theorem parseLoop_returns {first last : Head parser U}
    (hreach : Reached handlers parser what first calls h)
    (hquit : ∀ round ∈ rounds, round.quit = false)
    (hloop : parseLoop handlers parser what rounds h = some (calls', some 0, last)) :
    (Reached handlers parser what first (calls ++ calls') last ∧
        last.response.1.continueParsing = false) ∨
      ∃ before atEnd calls'' parsed, Reached handlers parser what first before atEnd ∧
        atEnd.socket = [] ∧ Calling handlers parser what atEnd calls'' parsed last ∧
        calls ++ calls' = before ++ calls'' := by
  induction rounds generalizing calls calls' h with
  | nil => simp [parseLoop] at hloop
  | cons round rounds ih =>
    simp only [List.mem_cons, forall_eq_or_imp] at hquit
    rw [parseLoop] at hloop
    simp only [hquit.1, Bool.false_or, Bool.not_eq_true'] at hloop
    split at hloop
    · next hcontinue =>
      cases hloop
      rw [List.append_nil]
      exact .inl ⟨hreach, hcontinue⟩
    · next hcontinue =>
      split at hloop
      · split at hloop
        · simp at hloop
        · next hpos =>
          split at hloop
          · simp at hloop
          · next calls₁ state parsed response hcall =>
            have hc : Calling handlers parser what h calls₁ parsed
                ⟨state, response, (tcpSocketRecv h.socket (bufferLength what)).2.2⟩ :=
              ⟨Bool.eq_true_of_not_eq_false hcontinue, not_lt.1 hpos, rfl, hcall⟩
            split at hloop
            · next hzero =>
              cases hloop
              exact .inr ⟨calls, h, _, parsed, hreach, (tcpSocketRecv_zero (bufferLength_pos what)).1 hzero, hc, rfl⟩
            · next hmore =>
              split at hloop
              · simp at hloop
              · next hm =>
                obtain ⟨r, hr, heq⟩ := Option.map_eq_some_iff.1 hloop
                obtain ⟨calls₂, code, last'⟩ := r
                cases heq
                rw [← List.append_assoc]
                exact ih (.next hreach hc ((tcpSocketRecv_zero (bufferLength_pos what)).not.1 hmore) hm) hquit.2 hr
      · exact ih hreach hquit.2 hloop

end Loop

/-! ## Whole responses -/

def Complete (what : ResponseParse) (calls : Calls) : Prop :=
  MessageComplete calls ∨ what = .headers ∧ ∃ statusCode, HeadersComplete calls statusCode

theorem complete_append {calls calls' : Calls} :
    Complete what (calls ++ calls') ↔ Complete what calls ∨ Complete what calls' := by
  simp only [Complete, messageComplete_append, headersComplete_append, exists_or]
  rw [and_or_left, or_or_or_comm]

/-- What a callback does to the response, as far as the parsing goes. -/
structure Answered (r : ResponseT) (c : ParserCallback) (answer : ℤ) (r' : ResponseT) : Prop where
  parseWhat : r'.parseWhat = r.parseWhat
  ends : r'.continueParsing = false ↔
    r.continueParsing = false ∨ Complete r.parseWhat [⟨c, answer⟩]
  released : r'.released = true ↔
    r.released = true ∨ ∃ statusCode, HeadersComplete [⟨c, answer⟩] statusCode
  headers : ∀ statusCode, HeadersComplete [⟨c, answer⟩] statusCode →
    r.released = false ∧ r'.status = statusCode
  status : (∀ statusCode, ¬HeadersComplete [⟨c, answer⟩] statusCode) → r'.status = r.status
  headerNew : r'.reader.parserHeaderState = .headerNew ↔
    r.reader.parserHeaderState = .headerNew ∧ ¬FieldSeen [⟨c, answer⟩]

theorem responseCallback_answered {s s' : ResponseT × U} {c : ParserCallback} {answer : ℤ}
    (h : responseCallback handlers s c = some (answer, s')) : Answered s.1 c answer s'.1 := by
  cases c with
  | messageBegin | url | status =>
    cases h
    constructor <;> simp [Complete, MessageComplete, HeadersComplete, FieldSeen, responseOnStatus]
  | headerField data =>
    obtain ⟨r, hr, heq⟩ := Option.map_eq_some_iff.1 h
    cases heq
    unfold responseOnHeaderField at hr
    split at hr
    · simp at hr
    · cases hr
      constructor <;>
        simp [Complete, MessageComplete, HeadersComplete, FieldSeen,
          HeaderReader.onHeaderField_state]
  | headerValue data =>
    obtain ⟨r, hr, heq⟩ := Option.map_eq_some_iff.1 h
    cases heq
    unfold responseOnHeaderValue at hr
    split at hr
    · cases hr
      constructor <;> simp [Complete, MessageComplete, HeadersComplete, FieldSeen]
    · next hstate =>
      split at hr
      · simp at hr
      · cases hr
        constructor <;>
          simp [Complete, MessageComplete, HeadersComplete, FieldSeen, HeaderReader.onHeaderValue,
            hstate]
  | headersComplete method statusCode =>
    change responseOnHeadersComplete handlers statusCode s.1 s.2 = some (answer, s') at h
    unfold responseOnHeadersComplete at h
    split at h
    · simp at h
    · next hreleased =>
      have hs : s'.1 = { s.1 with
          reader := s.1.reader.store
          statusBuffer := appendZero s.1.statusBuffer
          status := statusCode
          released := true
          continueParsing := if s.1.parseWhat = .headers then false else s.1.continueParsing } := by
        dsimp only at h
        split at h <;> (cases h; rfl)
      rw [hs]
      constructor
      · rfl
      · cases s.1.parseWhat <;> simp [Complete, MessageComplete, HeadersComplete]
      · simp [HeadersComplete]
      · simp [HeadersComplete, hreleased]
      · simp [HeadersComplete]
      · simp [FieldSeen, HeaderReader.store_state]
  | body data =>
    change some (responseOnBody handlers data s.1 s.2) = some (answer, s') at h
    unfold responseOnBody at h
    split at h <;>
      (cases h
       constructor <;> simp [Complete, MessageComplete, HeadersComplete, FieldSeen])
  | messageComplete =>
    cases h
    constructor <;>
      simp [Complete, MessageComplete, HeadersComplete, FieldSeen, responseOnMessageComplete]

structure Heard (what : ResponseParse) (calls : Calls) (r : ResponseT) : Prop where
  parseWhat : r.parseWhat = what
  ends : r.continueParsing = false ↔ Complete what calls
  released : r.released = true ↔ ∃ statusCode, HeadersComplete calls statusCode
  status : ∀ statusCode, HeadersComplete calls statusCode → r.status = statusCode
  headerNew : r.reader.parserHeaderState = .headerNew ↔ ¬FieldSeen calls

theorem heard_callback {calls : Calls} {s s' : ResponseT × U} {c : ParserCallback} {answer : ℤ}
    (hr : Heard what calls s.1) (h : responseCallback handlers s c = some (answer, s')) :
    Heard what (calls ++ [⟨c, answer⟩]) s'.1 := by
  have hanswered := responseCallback_answered h
  constructor
  · exact hanswered.parseWhat.trans hr.parseWhat
  · rw [hanswered.ends, hr.ends, hr.parseWhat, complete_append]
  · simp only [hanswered.released, hr.released, headersComplete_append, exists_or]
  · intro code hcode
    rcases headersComplete_append.1 hcode with hbefore | hnow
    · -- the buffers were released by then, so that the headers cannot be complete once more
      have hnone : ∀ code, ¬HeadersComplete [⟨c, answer⟩] code := by
        intro code' hcode'
        have hreleased := hr.released.2 ⟨code, hbefore⟩
        rw [(hanswered.headers code' hcode').1] at hreleased
        exact Bool.false_ne_true hreleased
      exact (hanswered.status hnone).trans (hr.status code hbefore)
    · exact (hanswered.headers code hnow).2
  · rw [hanswered.headerNew, hr.headerNew, fieldSeen_append, not_or]

theorem heard_reached {status : ℤ} {userdata : U} {socket : Socket} {calls : Calls}
    {h : Head parser U} (hreach : Reached handlers parser what
      (start parser what (newResponse status) userdata socket) calls h) :
    Heard what calls h.response.1 := by
  induction hreach with
  | first =>
    constructor <;>
      simp [start, newResponse, Complete, MessageComplete, HeadersComplete, FieldSeen]
  | next _ hc _ _ ih =>
    exact interpret_invariant (I := fun calls s => Heard what calls s.1)
      (fun _ _ _ _ _ => heard_callback) hc.2.2.2 ih

theorem transcript_reached {response : ResponseT} {userdata : U} {socket : Socket} {calls : Calls}
    {h : Head parser U}
    (hreach : Reached handlers parser what (start parser what response userdata socket) calls h) :
    parser.Transcript h.state calls := by
  induction hreach with
  | first => exact .init
  | next _ hc _ _ ih => exact .execute ih (does_of_interpret hc.2.2.2)

/-- The parser has reported all that was asked for, and `status` is the code that it reported. -/
def Whole (what : ResponseParse) (calls : Calls) (status : ℤ) : Prop :=
  HeadersComplete calls status ∧ (what = .all → MessageComplete calls)

theorem whole_of_complete {calls : Calls} {state : parser.State} {r : ResponseT}
    (hparser : parser.HeadersFirst) (htranscript : parser.Transcript state calls)
    (hr : Heard what calls r) : Whole what calls r.status ↔ Complete what calls := by
  constructor
  · intro hwhole
    cases what with
    | headers => exact .inr ⟨rfl, r.status, hwhole.1⟩
    | all => exact .inl (hwhole.2 rfl)
  · intro hcomplete
    have hheaders : ∃ statusCode, HeadersComplete calls statusCode := by
      rcases hcomplete with hmessage | ⟨_, hheaders⟩
      · exact hparser state calls htranscript hmessage
      · exact hheaders
    obtain ⟨statusCode, hcode⟩ := hheaders
    refine ⟨hr.status statusCode hcode ▸ hcode, ?_⟩
    intro hall
    rcases hcomplete with hmessage | ⟨hwhat, _⟩
    · exact hmessage
    · rw [hall] at hwhat
      cases hwhat

/-- A response that is returned is whole exactly if the parser, where it was told of the end of the
stream, has called what was still waited for. -/
theorem whole_iff (hparser : parser.HeadersFirst) {status : ℤ} {userdata : U} {socket : Socket}
    {rounds : List Round} (hquit : ∀ round ∈ rounds, round.quit = false) {calls : Calls}
    {last : Head parser U}
    (hreturn : responseParseHtml handlers parser what (newResponse status) userdata socket rounds =
      some (calls, some 0, last)) :
    Whole what calls last.response.1.status ↔
      ∀ before atEnd calls' parsed h', Reached handlers parser what
          (start parser what (newResponse status) userdata socket) before atEnd →
        atEnd.socket = [] → Calling handlers parser what atEnd calls' parsed h' →
        Complete what calls' := by
  have hends : ∀ before atEnd calls' parsed h', Reached handlers parser what
      (start parser what (newResponse status) userdata socket) before atEnd →
      Calling handlers parser what atEnd calls' parsed h' →
      Heard what (before ++ calls') h'.response.1 ∧
        parser.Transcript h'.state (before ++ calls') ∧
        (Complete what (before ++ calls') ↔ Complete what calls') := by
    intro before atEnd calls' parsed h' hreach hc
    have hheard := heard_reached hreach
    refine ⟨?_, .execute (transcript_reached hreach) (does_of_interpret hc.2.2.2), ?_⟩
    · exact interpret_invariant (I := fun calls s => Heard what calls s.1)
        (fun _ _ _ _ _ => heard_callback) hc.2.2.2 hheard
    · rw [complete_append, ← hheard.ends, hc.1]
      simp
  constructor
  · intro hwhole before atEnd calls' parsed h' hreach hend hc
    obtain ⟨rest, calls₁, hrest, heq, hloop⟩ := parseLoop_reached hreach hquit hreturn
    obtain ⟨_, hcalls, hlast⟩ := parseLoop_end hc hend hrest hloop
    obtain ⟨hheard, htranscript, hcomplete⟩ := hends before atEnd calls' parsed h' hreach hc
    rw [heq, hcalls, hlast, whole_of_complete hparser htranscript hheard] at hwhole
    exact hcomplete.1 hwhole
  · intro hcondition
    rcases parseLoop_returns .first hquit hreturn with
      ⟨hreach, hcontinue⟩ | ⟨before, atEnd, calls', parsed, hreach, hend, hc, heq⟩
    · have hheard := heard_reached hreach
      rw [List.nil_append] at hreach hheard
      exact (whole_of_complete hparser (transcript_reached hreach) hheard).2
        (hheard.ends.1 hcontinue)
    · obtain ⟨hheard, htranscript, hcomplete⟩ := hends before atEnd calls' parsed last hreach hc
      rw [List.nil_append] at heq
      rw [heq, whole_of_complete hparser htranscript hheard]
      exact hcomplete.2 (hcondition before atEnd calls' parsed last hreach hend hc)

def noContent (parsed : ℕ) : ℕ → Prog (fun _ : ParserCallback => ℤ) (Unit × ℕ)
  | 0 => .ret ((), parsed)
  | n + 1 => .act .messageBegin fun _ => .act (.status []) fun _ =>
      .act (.headersComplete .other 204) fun _ => .act .messageComplete fun _ => noContent parsed n

/-- Takes every 16 bytes for `HTTP/1.1 204` and an empty line. -/
def noContentParser : HttpParser where
  State := Unit
  init := ()
  execute _ data := noContent data.length (data.length / 16)
  failed _ := false

theorem noContent_does {parsed n : ℕ} {calls : Calls} {x : Unit × ℕ}
    (h : Does (noContent parsed n) calls x) :
    (calls = [] ∧ n = 0) ∨ MessageComplete calls ∧ HeadersComplete calls 204 := by
  cases n with
  | zero => exact .inl ⟨h.1, rfl⟩
  | succ n =>
    obtain ⟨_, _, rfl, _, _, rfl, answer, _, rfl, answer', _, rfl, _⟩ := h
    refine .inr ⟨⟨answer', ?_⟩, ⟨.other, answer, ?_⟩⟩ <;> simp

theorem noContentParser_headersFirst : noContentParser.HeadersFirst := by
  intro state calls htranscript hmessage
  induction htranscript with
  | init => simp [MessageComplete] at hmessage
  | execute _ hdoes ih =>
    rcases noContent_does hdoes with ⟨hnone, _⟩ | ⟨_, hheaders⟩
    · rw [hnone, List.append_nil] at hmessage ⊢
      exact ih hmessage
    · exact ⟨204, headersComplete_append.2 (.inr hheaders)⟩

/-- `HTTP/1.1 204` and an empty line. -/
def noContentText : Bytes := [72, 84, 84, 80, 47, 49, 46, 49, 32, 50, 48, 52, 13, 10, 13, 10]

theorem noContent_whole :
    Whole .all [⟨.messageBegin, 0⟩, ⟨.status [], 0⟩, ⟨.headersComplete .other 204, 0⟩,
      ⟨.messageComplete, 0⟩] 204 := by
  have hreturn : responseParseHtml (U := Unit) ⟨none, none⟩ noContentParser .all (newResponse 200) ()
      (Socket.push noContentText []) [⟨false, 1⟩, ⟨false, 1⟩] =
      some ([⟨.messageBegin, 0⟩, ⟨.status [], 0⟩, ⟨.headersComplete .other 204, 0⟩,
        ⟨.messageComplete, 0⟩], some 0, ⟨(), (⟨204, [], false, .all, {}, [0], true⟩, ()), []⟩) := rfl
  refine (whole_iff noContentParser_headersFirst (by simp) hreturn).2 ?_
  intro before atEnd calls' parsed h' hreach hend hc
  have hcomplete : atEnd = start noContentParser .all (newResponse 200) ()
      (Socket.push noContentText []) ∨ atEnd.response.1.continueParsing = false := by
    clear hend hc
    induction hreach with
    | first => exact .inl rfl
    | next hbefore hround hmore hm ih =>
      refine .inr ((heard_reached (.next hbefore hround hmore hm)).ends.2 (.inl ?_))
      refine messageComplete_append.2 (.inr ?_)
      rcases ih with hfirst | hcontinue
      · subst hfirst
        rcases noContent_does (does_of_interpret hround.2.2.2) with ⟨_, hnone⟩ | ⟨hmessage, _⟩
        · cases hnone
        · exact hmessage
      · rw [hround.1] at hcontinue
        cases hcontinue
  rcases hcomplete with hfirst | hcontinue
  · rw [hfirst] at hend
    cases hend
  · rw [hc.1] at hcontinue
    cases hcontinue

theorem letters_calls {state : letters.State} {calls : Calls} (h : letters.Transcript state calls) :
    calls = [] := by
  induction h with
  | init => rfl
  | execute _ hdoes ih => rw [ih, hdoes.1, List.append_nil]

/-- The peer closes the connection without an answer. -/
theorem empty_response_ok :
    letters.HeadersFirst ∧
      responseParseHtml (U := Unit) ⟨none, none⟩ letters .all (newResponse 200) () [] [⟨false, 1⟩] =
        some ([], some 0, ⟨false, (⟨200, [], true, .all, {}, [], false⟩, ()), []⟩) ∧
      ¬Whole .all [] 200 := by
  refine ⟨?_, rfl, fun hwhole => by simp [Whole, HeadersComplete] at hwhole⟩
  intro state calls htranscript hmessage
  rw [letters_calls htranscript] at hmessage
  simp [MessageComplete] at hmessage

end ResponseT
end Rcom.Http
