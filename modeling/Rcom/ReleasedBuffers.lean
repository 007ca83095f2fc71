import Rcom.RequestParsing
import Rcom.ResponseParsing

/-!
# Buffers that are deleted when the headers are complete

The callbacks of a request and of a response delete the buffers of the header with
`on_headers_complete`. The parser can call again for a header: for a trailer field after a chunked
body, or for the next message in what was received.
-/

namespace Rcom.Http
open Rcom.Lib Rcom.Lib.Program

/-! ## Requests -/

namespace RequestT
variable (parser : HttpParser) (quits : ℕ → Bool) (what : RequestParse) (socket : Socket)

/-- No callback of the run uses a buffer that has been deleted. -/
def BuffersKept : Prop :=
  ∀ calls c r, AsksFor parser quits (start parser what newRequest socket) calls c r →
    requestCallback r c ≠ none

/-- After the end of the headers the parser calls for no URL, header, or end of headers. -/
def HeadersOnce : Prop :=
  ∀ calls c r, AsksFor parser quits (start parser what newRequest socket) calls c r →
    HeadersTaken calls → ¬UsesBuffers calls c

theorem buffersKept_iff :
    BuffersKept parser quits what socket ↔ HeadersOnce parser quits what socket := by
  constructor
  · intro h calls c r hasks
    exact (requestCallback_defined (heard_asks hasks) c).1 (h calls c r hasks)
  · intro h calls c r hasks
    exact (requestCallback_defined (heard_asks hasks) c).2 (h calls c r hasks)

end RequestT

/-! ## Responses -/

namespace ResponseT
variable {U : Type}

def UsesBuffers (calls : Calls) : ParserCallback → Prop
  | .headerField _ | .headersComplete _ _ => True
  | .headerValue _ => FieldSeen calls
  | _ => False

theorem responseCallback_defined {handlers : ResponseHandlers U} {what : ResponseParse}
    {calls : Calls} {s : ResponseT × U} (hr : Heard what calls s.1) (c : ParserCallback) :
    responseCallback handlers s c ≠ none ↔
      ((∃ statusCode, HeadersComplete calls statusCode) → ¬UsesBuffers calls c) := by
  rw [← hr.released]
  cases c with
  | messageBegin | url | status | body | messageComplete => simp [responseCallback, UsesBuffers]
  | headerField data => simp [responseCallback, responseOnHeaderField, UsesBuffers]
  | headerValue data =>
    by_cases hstate : s.1.reader.parserHeaderState = .headerNew
    · simp [responseCallback, responseOnHeaderValue, UsesBuffers, hstate, hr.headerNew.1 hstate]
    · simp [responseCallback, responseOnHeaderValue, UsesBuffers, hstate,
        not_not.1 (hr.headerNew.not.1 hstate)]
  | headersComplete method statusCode =>
    cases hreleased : s.1.released with
    | true => simp [responseCallback, responseOnHeadersComplete, UsesBuffers, hreleased]
    | false =>
      have hdefined : responseOnHeadersComplete handlers statusCode s.1 s.2 ≠ none := by
        unfold responseOnHeadersComplete
        rw [hreleased, if_neg Bool.false_ne_true]
        dsimp only
        split <;> simp
      simpa [responseCallback] using hdefined

variable (handlers : ResponseHandlers U) (parser : HttpParser)

/-- In some round the parser asks for a callback, after these calls and with the response in this
state. -/
def AsksFor (what : ResponseParse) (first : Head parser U) (calls : Calls) (c : ParserCallback)
    (s : ResponseT × U) : Prop :=
  ∃ before h es, Reached handlers parser what first before h ∧ h.response.1.continueParsing = true ∧
    0 ≤ (tcpSocketRecv h.socket (bufferLength what)).1 ∧
    Asks (responseCallback handlers)
      (parser.execute h.state (tcpSocketRecv h.socket (bufferLength what)).2.1) h.response es c s ∧
    calls = before ++ es

variable (what : ResponseParse) (status : ℤ) (userdata : U) (socket : Socket)

/-- No callback of the run uses a buffer that has been deleted. -/
def BuffersKept : Prop :=
  ∀ calls c s, AsksFor handlers parser what (start parser what (newResponse status) userdata socket)
    calls c s → responseCallback handlers s c ≠ none

/-- After the end of the headers the parser calls for no header and no end of headers. -/
def HeadersOnce : Prop :=
  ∀ calls c s, AsksFor handlers parser what (start parser what (newResponse status) userdata socket)
    calls c s → (∃ statusCode, HeadersComplete calls statusCode) → ¬UsesBuffers calls c

theorem buffersKept_iff : BuffersKept handlers parser what status userdata socket ↔
    HeadersOnce handlers parser what status userdata socket := by
  have hheard : ∀ calls c s, AsksFor handlers parser what
      (start parser what (newResponse status) userdata socket) calls c s → Heard what calls s.1 := by
    intro calls c s hasks
    obtain ⟨before, h, es, hreach, _, _, hasks, heq⟩ := hasks
    rw [heq]
    exact asks_invariant (I := fun calls s => Heard what calls s.1) (fun _ _ _ _ _ => heard_callback)
      hasks (heard_reached hreach)
  constructor
  · intro h calls c s hasks
    exact (responseCallback_defined (hheard calls c s hasks) c).1 (h calls c s hasks)
  · intro h calls c s hasks
    exact (responseCallback_defined (hheard calls c s hasks) c).2 (h calls c s hasks)

end ResponseT

/-- The buffers are kept exactly while the headers come once. -/
theorem buffers_kept_iff (parser : HttpParser) (socket : Socket) :
    (∀ quits what, RequestT.BuffersKept parser quits what socket ↔
      RequestT.HeadersOnce parser quits what socket) ∧
    ∀ (U : Type) (handlers : ResponseHandlers U) what status userdata,
      ResponseT.BuffersKept handlers parser what status userdata socket ↔
        ResponseT.HeadersOnce handlers parser what status userdata socket :=
  ⟨fun quits what => RequestT.buffersKept_iff parser quits what socket,
    fun _ handlers what status userdata =>
      ResponseT.buffersKept_iff handlers parser what status userdata socket⟩

/-- Two responses without content arrive together. -/
theorem second_response_uses_buffers :
    ¬ResponseT.BuffersKept (U := Unit) ⟨none, none⟩ ResponseT.noContentParser .all 200 ()
      (Socket.push (ResponseT.noContentText ++ ResponseT.noContentText) []) := by
  intro h
  refine h [⟨.messageBegin, 0⟩, ⟨.status [], 0⟩, ⟨.headersComplete .other 204, 0⟩,
    ⟨.messageComplete, 0⟩, ⟨.messageBegin, 0⟩, ⟨.status [], 0⟩] (.headersComplete .other 204)
    (⟨204, [], false, .all, {}, [0], true⟩, ()) ⟨[], _, _, .first, rfl, ?_, ?_, rfl⟩ rfl
  · decide
  · refine .inr ⟨_, _, _, rfl, rfl, .inr ⟨_, _, _, rfl, rfl, .inr ⟨_, _, _, rfl, rfl,
      .inr ⟨_, _, _, rfl, rfl, .inr ⟨_, _, _, rfl, rfl, .inr ⟨_, _, _, rfl, rfl, .inl ⟨rfl, rfl, rfl⟩⟩⟩⟩⟩⟩⟩

end Rcom.Http
