import Rcom.CommandReplies
import Rcom.HttpHeaders

/-!
# Remote procedure calls (RPCServer.cpp, RPCClient.cpp)

A request is a JSON object with a method and its parameters; the response has an error, a result,
or both or neither. The client takes a response without an error for a success, and a message link
that could not send or read returns `json_null`, which has no members.
-/

namespace Rcom.Rpc
open Rcom.Lib Rcom.Lib.Json Rcom.Lib.Program Rcom.Messagelink

/-- More functions of the JSON objects. `jsonConstruct` is `JsonCpp::construct` with the arguments of
its format. `jsonNumberInt` is the number cut to an `int`, which is undefined if it does not fit. -/
structure RpcLib (J : Type) extends JsonLib J where
  jsonNull : J
  jsonConstruct : CStr → List CStr → J
  jsonObjectHas : J → CStr → Bool
  jsonObjectSetnum : J → CStr → ℤ → J
  jsonIsnumber : J → Bool
  jsonIsstring : J → Bool
  jsonNumberInt : J → Exec ℤ
  jsonStringValue : J → CStr

structure RPCError where
  code : ℤ
  message : Bytes
deriving DecidableEq

namespace RPCError

def methodNotFound : ℤ := -32601
def internalError : ℤ := -32603
def nullMethod : ℤ := -32000
def invalidResponse : ℤ := -32001

end RPCError

variable {J : Type} (L : RpcLib J)

/-! ## The server -/

/-- How the handler ends: it has set the error and the result, or it has thrown. -/
inductive Outcome (J : Type) where
  | returned (error : RPCError) (result : J)
  | threw (what : CStr)

/-- The envelope for an error; the code 0 gives an empty object. -/
def constructError (code : ℤ) (message : CStr) : J :=
  let response := L.jsonObjectCreate
  if code ≠ 0 then
    let error := L.jsonObjectSetnum L.jsonObjectCreate (ascii "code") code
    let text := if message.length > 0 then message else ascii "No message was given"
    L.jsonObjectSet response (ascii "error") (L.jsonObjectSetstr error (ascii "message") text)
  else response

def constructResponse (error : RPCError) (result : J) : J :=
  let response := constructError L error.code (Http.cstr error.message)
  if !L.jsonIsnull result then L.jsonObjectSet response (ascii "result") result else response

def Outcome.response : Outcome J → J
  | .returned error result => constructResponse L error result
  | .threw what => constructError L RPCError.internalError what

def onmessage (handler : CStr → J → Outcome J) (message : J) : List (CStr × J) × J :=
  match L.jsonObjectGetstr message (ascii "method") with
  | some method =>
    let params := L.jsonObjectGet message (ascii "params")
    ([(method, params)], (handler method params).response L)
  | none => ([], constructError L RPCError.methodNotFound (ascii "The method is missing"))

/-! ## The client -/

def checkError (retval : J) (error : RPCError) : Exec RPCError :=
  if L.jsonObjectHas retval (ascii "error") then
    let e := L.jsonObjectGet retval (ascii "error")
    let code := L.jsonObjectGet e (ascii "code")
    let message := L.jsonObjectGet e (ascii "message")
    if L.jsonIsnumber code && L.jsonIsstring message then
      (L.jsonNumberInt code).map (⟨·, L.jsonStringValue message⟩)
    else some ⟨RPCError.invalidResponse, ascii "RPCError: Response has invalid error"⟩
  else some { error with code := 0 }

def constructRequest (method : CStr) (params : J) : J :=
  L.jsonObjectSet (L.jsonConstruct (ascii "\x7b\"method\": \"%s\"\x7d") [method]) (ascii "params") params

/-- `result` and `error` are taken along, as what they were is kept where they are not set. -/
def execute (background : Bool) (n : ℕ) (method : Option CStr) (params result : J)
    (error : RPCError) : Program J (J × Exec RPCError) :=
  match method with
  | some method => do
    let reply ← messagelinkSendCommand L.toJsonLib true background n (constructRequest L method params)
    let retval := reply.getD L.jsonNull
    return (L.jsonObjectGet retval (ascii "result"), checkError L retval error)
  | none => .ret (result, some ⟨RPCError.nullMethod, ascii "RPCClient: Null method"⟩)

/-! ## Failures -/

/-- Of the texts that came to the server, one is this request. For it the handler was executed and
ended with the code 0, and this is what the client parses of the response. -/
def Served (handler : CStr → J → Outcome J) (heard : List Bytes) (request reply : J) : Prop :=
  L.jsonSerialise request ∈ heard ∧
    ∃ message method params text result response,
      parseText L.toJsonLib (L.jsonSerialise request) = some message ∧
      onmessage L handler message = ([(method, params)], response) ∧
      handler method params = .returned ⟨0, text⟩ result ∧
      parseText L.toJsonLib (L.jsonSerialise response) = some reply

def Succeeded (handler : CStr → J → Outcome J) (heard : List Bytes) (method : Option CStr) (params : J)
    (log : Log J) : Prop :=
  ∃ name reply, method = some name ∧ Received L.toJsonLib true log reply ∧
    Served L handler heard (constructRequest L name params) reply

def Honest (handler : CStr → J → Outcome J) (heard : List Bytes) (method : Option CStr) (params : J)
    (log : Log J) (error : Exec RPCError) : Prop :=
  ∃ e, error = some e ∧ (e.code = 0 → Succeeded L handler heard method params log)

/-- The member `error` is there. It is no valid error, or its number as an `int` is not 0. -/
def CarriesError (reply : J) : Prop :=
  let error := L.jsonObjectGet reply (ascii "error")
  let code := L.jsonObjectGet error (ascii "code")
  L.jsonObjectHas reply (ascii "error") = true ∧
    (L.jsonIsnumber code = true → L.jsonIsstring (L.jsonObjectGet error (ascii "message")) = true →
      ∃ n, L.jsonNumberInt code = some n ∧ n ≠ 0)

/-- The member `error` is missing, or is a valid error with the number 0. -/
def CarriesNone (reply : J) : Prop :=
  let error := L.jsonObjectGet reply (ascii "error")
  let code := L.jsonObjectGet error (ascii "code")
  L.jsonObjectHas reply (ascii "error") = true →
    L.jsonIsnumber code = true ∧ L.jsonIsstring (L.jsonObjectGet error (ascii "message")) = true ∧
      L.jsonNumberInt code = some 0

/-- A text that is JSON was received. It carries an error, or it carries none and is the reply of the
handler that succeeded. -/
def Replied (handler : CStr → J → Outcome J) (heard : List Bytes) (request : J) (log : Log J) : Prop :=
  ∃ reply, Received L.toJsonLib true log reply ∧
    (CarriesError L reply ∨ CarriesNone L reply ∧ Served L handler heard request reply)

variable {L}

theorem checkError_defined {reply : J} (h : CarriesError L reply ∨ CarriesNone L reply)
    (error : RPCError) : ∃ e, checkError L reply error = some e := by
  unfold checkError
  dsimp only
  split_ifs with hhas hvalid
  · rw [Bool.and_eq_true] at hvalid
    rcases h with herror | hnone
    · obtain ⟨n, hn, -⟩ := herror.2 hvalid.1 hvalid.2
      rw [hn]
      exact ⟨_, rfl⟩
    · rw [(hnone hhas).2.2]
      exact ⟨_, rfl⟩
  · exact ⟨_, rfl⟩
  · exact ⟨_, rfl⟩

theorem checkError_cases {reply : J} {error e : RPCError} (h : checkError L reply error = some e) :
    e.code = 0 ∧ CarriesNone L reply ∨ e.code ≠ 0 ∧ CarriesError L reply := by
  unfold checkError at h
  dsimp only at h
  split_ifs at h with hhas hvalid
  · rw [Bool.and_eq_true] at hvalid
    obtain ⟨n, hn, rfl⟩ := Option.map_eq_some_iff.1 h
    by_cases hzero : n = 0
    · exact .inl ⟨hzero, fun _ => ⟨hvalid.1, hvalid.2, hzero ▸ hn⟩⟩
    · exact .inr ⟨hzero, hhas, fun _ _ => ⟨n, hn, hzero⟩⟩
  · obtain rfl := Option.some.inj h
    refine .inr ⟨by decide, hhas, fun hcode hmessage => absurd ?_ hvalid⟩
    rw [Bool.and_eq_true]
    exact ⟨hcode, hmessage⟩
  · obtain rfl := Option.some.inj h
    exact .inl ⟨rfl, fun hhas' => absurd hhas' hhas⟩

theorem CarriesError.not_none {reply : J} (h : CarriesError L reply) : ¬CarriesNone L reply := by
  intro hnone
  obtain ⟨hcode, hmessage, hzero⟩ := hnone h.1
  obtain ⟨n, hn, hne⟩ := h.2 hcode hmessage
  exact hne (Option.some.inj (hn.symm.trans hzero))

theorem received_unique {log : Log J} {reply reply' : J} (h : Received L.toJsonLib true log reply)
    (h' : Received L.toJsonLib true log reply') : reply = reply' := by
  obtain ⟨front, heq, message, hlast, htext⟩ := h
  rw [heq, received_iff] at h'
  have htext' := (justRead_iff hlast reply').1 h'
  exact Option.some.inj (htext.2.2.2.symm.trans htext'.2.2.2)

/-- After a reply was received, the execution is honest exactly if the reply is. -/
theorem honest_iff_of_received {handler : CStr → J → Outcome J} {heard : List Bytes} {name : CStr}
    {params reply : J} {log : Log J} (hr : Received L.toJsonLib true log reply) (error : RPCError) :
    Honest L handler heard (some name) params log (checkError L reply error) ↔
      CarriesError L reply ∨
        CarriesNone L reply ∧ Served L handler heard (constructRequest L name params) reply := by
  constructor
  · rintro ⟨e, he, hsucceeded⟩
    rcases checkError_cases he with ⟨hzero, hnone⟩ | ⟨-, herror⟩
    · obtain ⟨name', reply', hname, hr', hserved⟩ := hsucceeded hzero
      cases hname
      cases received_unique hr hr'
      exact .inr ⟨hnone, hserved⟩
    · exact .inl herror
  · intro h
    obtain ⟨e, he⟩ := checkError_defined (h.imp_right And.left) error
    refine ⟨e, he, fun hzero => ?_⟩
    rcases h with herror | ⟨-, hserved⟩
    · rcases checkError_cases he with ⟨-, hnone⟩ | ⟨hne, -⟩
      · exact absurd hnone herror.not_none
      · exact absurd hzero hne
    · exact ⟨name, reply, rfl, hr, hserved⟩

/-- An execution is honest exactly if it has no method, or a reply was received that carries an error
or is that of the handler. -/
theorem failure_is_reported_iff (hhas : ∀ k, L.jsonObjectHas L.jsonNull k = false)
    {background : Bool} {n : ℕ} {method : Option CStr} {params result result' : J}
    {error : RPCError} {error' : Exec RPCError} {log : Log J}
    (h : Does (execute L background n method params result error) log (result', error'))
    (handler : CStr → J → Outcome J) (heard : List Bytes) :
    Honest L handler heard method params log error' ↔
      ∀ name, method = some name → Replied L handler heard (constructRequest L name params) log := by
  cases method with
  | none =>
    obtain ⟨_, heq⟩ := h
    refine iff_of_true ⟨_, congrArg Prod.snd heq, fun hcode => ?_⟩ (by simp)
    exact absurd hcode (by decide)
  | some method =>
    obtain ⟨log₁, log₂, reply, hlog, hcommand, hnil, heq⟩ := does_bind.1 h
    rw [hnil, List.append_nil] at hlog
    rw [← hlog] at hcommand
    have hreceived := received_of_sendCommand hcommand
    have herror : error' = checkError L (reply.getD L.jsonNull) error := congrArg Prod.snd heq
    simp only [herror, Option.some.injEq, forall_eq']
    cases reply with
    | none =>
      have hnone : ∀ r, ¬Received L.toJsonLib true log r := by
        intro r hr
        exact absurd ((hreceived r).2 hr) (by simp)
      refine iff_of_false ?_ fun hreplied => ?_
      · rintro ⟨e, he, hcode⟩
        rw [Option.getD_none, checkError, hhas, if_neg Bool.false_ne_true] at he
        cases he
        obtain ⟨_, _, _, hr, _⟩ := hcode rfl
        exact hnone _ hr
      · obtain ⟨r, hr, _⟩ := hreplied
        exact hnone r hr
    | some reply =>
      have hr := (hreceived reply).1 rfl
      rw [Option.getD_some, honest_iff_of_received hr]
      constructor
      · exact fun hreply => ⟨reply, hr, hreply⟩
      · rintro ⟨reply', hr', hreply⟩
        cases received_unique hr hr'
        exact hreply

/-! ## JSON values as objects -/

/-- The integer that a literal without fraction and exponent stands for. -/
def intOfText : Bytes → Exec ℤ
  | 45 :: ds => (natOf ds).map fun n => -(n : ℤ)
  | ds => (natOf ds).map fun n => (n : ℤ)
where natOf (ds : Bytes) : Option ℕ :=
  ds.foldlM (fun n d => if 48 ≤ d ∧ d ≤ 57 then some (10 * n + (d.toNat - 48)) else none) 0

def intText (n : ℤ) : Bytes := ascii (toString n)

/-- The text that a format with `%s` gives. -/
def formatText : CStr → List CStr → Bytes
  | 37 :: 115 :: format, arg :: args => arg ++ formatText format args
  | c :: format, args => c :: formatText format args
  | [], _ => []

def rpcLib : RpcLib Value where
  toJsonLib := valueLib
  jsonNull := .null
  jsonConstruct format args := valueLib.jsonParse (formatText format args)
  jsonObjectHas o k := match o with | .obj ms => (ms.lookup k).isSome | _ => false
  jsonObjectSetnum o k n := match o with | .obj ms => .obj (ms ++ [(k, .num (intText n))]) | _ => o
  jsonIsnumber v := match v with | .num _ => true | _ => false
  jsonIsstring v := match v with | .str _ => true | _ => false
  jsonNumberInt v := match v with | .num t => intOfText t | _ => some 0
  jsonStringValue v := match v with | .str s => s | _ => []

def throwing : CStr → Value → Outcome Value := fun _ _ => .threw []

/-- The text of a request for `m` without parameters. -/
def requestText : Bytes :=
  rpcLib.jsonSerialise (constructRequest rpcLib (ascii "m") .null)

def closedLog : Log Value :=
  [⟨.lock .out, ()⟩, ⟨.clearOut, ()⟩, ⟨.appendOut requestText, ()⟩, ⟨.out, requestText⟩,
    ⟨.socket, none⟩, ⟨.unlock .out, ()⟩]

/-- The link is open, and the socket does not take the header of the frame. -/
def failedLog : Log Value :=
  [⟨.lock .out, ()⟩, ⟨.clearOut, ()⟩, ⟨.appendOut requestText, ()⟩, ⟨.out, requestText⟩,
    ⟨.socket, some 0⟩, ⟨.state, .open⟩, ⟨.makeMask, fun _ => 0⟩, ⟨.lock .sendMutex, ()⟩,
    ⟨.socket, some 0⟩,
    ⟨.send 0 1 (frameMakeHeader 1 true (fun _ => 0) requestText.length), (-1 : ℤ)⟩,
    ⟨.unlock .sendMutex, ()⟩, ⟨.unlock .out, ()⟩]

theorem closed_link_succeeds :
    Does (execute rpcLib false 1 (some (ascii "m")) .null .null ⟨0, []⟩) closedLog
        (.null, some ⟨0, []⟩) ∧
      ¬Honest rpcLib throwing [] (some (ascii "m")) .null closedLog (some ⟨0, []⟩) := by
  constructor
  · exact ⟨_, _, rfl, _, _, rfl, _, _, rfl, _, _, rfl, _, _, rfl, _, _, rfl, rfl, rfl⟩
  · rintro ⟨e, he, hcode⟩
    cases he
    obtain ⟨_, _, _, _, hheard, _⟩ := hcode rfl
    cases hheard

theorem failed_send_succeeds :
    ¬Honest rpcLib throwing [] (some (ascii "m")) .null failedLog (some ⟨0, []⟩) := by
  obtain ⟨b, bs, hheader⟩ : ∃ b bs,
      frameMakeHeader 1 true (fun _ => 0) requestText.length = b :: bs := ⟨_, _, rfl⟩
  have hdoes : Does (execute rpcLib false 1 (some (ascii "m")) .null .null ⟨0, []⟩) failedLog
      (.null, some ⟨0, []⟩) := by
    refine ⟨_, _, rfl, _, _, rfl, _, _, rfl, _, _, rfl, _, _, rfl, _, _, rfl, _, _, rfl, _, _, rfl,
      _, _, rfl, ?_⟩
    simp only [Prog.bind, bind]
    rw [hheader]
    simp only [tcpSocketSend, sendLoop_cons]
    exact ⟨_, _, rfl, _, _, rfl, _, _, rfl, rfl, rfl⟩
  rw [failure_is_reported_iff (fun _ => rfl) hdoes throwing []]
  intro hreplied
  obtain ⟨reply, ⟨front, heq, message, hlast, _⟩, _⟩ := hreplied _ rfl
  have hfront : front = failedLog.dropLast := by rw [heq, List.dropLast_concat]
  rw [hfront] at hlast
  cases hlast

end Rcom.Rpc
