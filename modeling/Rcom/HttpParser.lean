import Rcom.HttpHeaders
import Rcom.Lib.Program

/-!
# The HTTP parser as its callers see it (http_parser.h)

`http_parser_execute` takes some bytes and calls back; what the callbacks answer decides how it
goes on. The parser is a parameter of what is said about its callers.
-/

namespace Rcom.Http
open Rcom.Lib Rcom.Lib.Program

inductive ParserMethod where
  | get
  | post
  | other
deriving DecidableEq

/-- The callbacks of `http_parser_settings`. When the headers are complete, `method` and `status_code`
of the parser are looked at. -/
inductive ParserCallback where
  | messageBegin
  | url (data : Bytes)
  | status (data : Bytes)
  | headerField (data : Bytes)
  | headerValue (data : Bytes)
  | headersComplete (method : ParserMethod) (statusCode : ℤ)
  | body (data : Bytes)
  | messageComplete

abbrev Calls := List (Event fun _ : ParserCallback => ℤ)

/-- `execute` returns the state afterwards and the number of bytes parsed; no bytes mean the end of
the stream. The error number of a parser that has `failed` is set. -/
structure HttpParser where
  State : Type
  init : State
  execute : State → Bytes → Prog (fun _ : ParserCallback => ℤ) (State × ℕ)
  failed : State → Bool

namespace HttpParser

/-- After an error the parser returns 0 and calls nothing. -/
def Silent (parser : HttpParser) : Prop :=
  ∀ state data, parser.failed state = true →
    ∃ state', parser.execute state data = .ret (state', 0) ∧ parser.failed state' = true

/-- What the parser can have called since it was initialised, whatever the answers were. -/
inductive Transcript (parser : HttpParser) : parser.State → Calls → Prop where
  | init : Transcript parser parser.init []
  | execute {state state' : parser.State} {calls calls' : Calls} {data : Bytes} {parsed : ℕ} :
      Transcript parser state calls → Does (parser.execute state data) calls' (state', parsed) →
      Transcript parser state' (calls ++ calls')

end HttpParser

/-- The parser has called `on_message_complete`. -/
def MessageComplete (calls : Calls) : Prop := ∃ answer, ⟨.messageComplete, answer⟩ ∈ calls

/-- The parser has called `on_headers_complete`, with this status code. -/
def HeadersComplete (calls : Calls) (statusCode : ℤ) : Prop :=
  ∃ method answer, ⟨.headersComplete method statusCode, answer⟩ ∈ calls

def FieldSeen (calls : Calls) : Prop := ∃ data answer, ⟨.headerField data, answer⟩ ∈ calls

def HttpParser.HeadersFirst (parser : HttpParser) : Prop :=
  ∀ state calls, parser.Transcript state calls → MessageComplete calls →
    ∃ statusCode, HeadersComplete calls statusCode

theorem messageComplete_append {calls calls' : Calls} :
    MessageComplete (calls ++ calls') ↔ MessageComplete calls ∨ MessageComplete calls' := by
  simp only [MessageComplete, List.mem_append, exists_or]

theorem headersComplete_append {calls calls' : Calls} {statusCode : ℤ} :
    HeadersComplete (calls ++ calls') statusCode ↔
      HeadersComplete calls statusCode ∨ HeadersComplete calls' statusCode := by
  simp only [HeadersComplete, List.mem_append, exists_or]

theorem fieldSeen_append {calls calls' : Calls} :
    FieldSeen (calls ++ calls') ↔ FieldSeen calls ∨ FieldSeen calls' := by
  simp only [FieldSeen, List.mem_append, exists_or]

/-- Letters are taken, and any other byte is an error; nothing is called. -/
def letters : HttpParser where
  State := Bool
  init := false
  execute error data := .ret <|
    if error then (true, 0)
    else if data.all fun b => 65 ≤ b ∧ b ≤ 90 then (false, data.length) else (true, 0)
  failed error := error

theorem letters_silent : letters.Silent := by
  intro error data herror
  change error = true at herror
  subst herror
  exact ⟨true, rfl, rfl⟩

end Rcom.Http
