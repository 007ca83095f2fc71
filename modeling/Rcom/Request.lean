import Rcom.Base64
import Rcom.HttpHeaders

/-!
# Requests (request.c)

As a hub reads them: up to the end of the headers. What the parser makes of the bytes is
part of the input.
-/

namespace Rcom.Http
open Rcom.Lib

structure Request where
  reader : HeaderReader := {}
  uriBuffer : Bytes := []
  uri : CStr := []
  arg : Option CStr := none
  continueParsing : Bool := false
deriving DecidableEq

def newRequest : Request := {}

def requestOnUrl (data : Bytes) (r : Request) : Request :=
  { r with uriBuffer := r.uriBuffer ++ data }

/-- The copy of the URI has 2048 bytes. -/
def requestOnHeadersComplete (r : Request) : ℤ × Request :=
  let reader := r.reader.store
  let uriBuffer := appendZero r.uriBuffer
  if uriBuffer.length > 2048 then (-1, { r with reader, uriBuffer })
  else
    let uri := cstr uriBuffer
    (0, { r with
      reader
      uriBuffer := []
      uri := uri.takeWhile (· ≠ 63)
      arg := if 63 ∈ uri then some (uri.dropWhile (· ≠ 63)).tail else none
      continueParsing := false })

def requestCallback (r : Request) : Callback → Request
  | .url data => requestOnUrl data r
  | .headerField data => { r with reader := r.reader.onHeaderField data }
  | .headerValue data => { r with reader := r.reader.onHeaderValue data }
  | .headersComplete => (requestOnHeadersComplete r).2

/-- The loop of `request_parse_html` for the headers; each round asks first whether the application
quits. It does not return while there is nothing to receive. -/
def requestParseLoop : List (Bool × Received) → Request → Option (ℤ × Request)
  | [], r => if r.continueParsing then none else some (0, r)
  | (quit, read) :: reads, r =>
    if quit ∨ r.continueParsing = false then some (0, r)
    else if read.received < 0 then some (-1, r)
    else
      let r := read.callbacks.foldl requestCallback r
      if read.received = 0 ∧ r.continueParsing = false then some (0, r)
      else if read.received = 0 then some (-1, r)
      else if read.parsed ≠ read.received ∧ read.parsed ≠ read.received - 1 ∧ r.continueParsing then
        some (-1, r)
      else requestParseLoop reads r

def requestParseHtml (reads : List (Bool × Received)) (r : Request) : Option (ℤ × Request) :=
  requestParseLoop reads { r with continueParsing := true }

def requestGetHeaderValue (r : Request) (key : CStr) : Option CStr :=
  getHeaderValue r.reader.headers key

/-- `strstr` finds it. -/
def contains (s sub : CStr) : Bool := decide (sub <:+: s)

def requestIsWebsocket (r : Request) : Bool :=
  if (requestGetHeaderValue r (ascii "Sec-WebSocket-Key")).isSome then true
  else if (requestGetHeaderValue r (ascii "Sec-WebSocket-Version")).isSome then true
  else if requestGetHeaderValue r (ascii "Upgrade") = some (ascii "websocket") then true
  else
    match requestGetHeaderValue r (ascii "Connection") with
    | none => false
    | some value => contains value (ascii "Upgrade") || contains value (ascii "upgrade")

def isKeyChar (c : UInt8) : Bool :=
  !((c < 97 || c > 122) && (c < 65 || c > 90) && (c < 48 || c > 57) && c != 43 && c != 47)

def validWebsocketKey (key : CStr) : Bool :=
  if key.length ≠ 24 then false
  else if key.getD 22 0 ≠ 61 ∨ key.getD 23 0 ≠ 61 then false
  else (key.take 22).all isKeyChar

def requestIsValidWebsocket (r : Request) : Bool :=
  match requestGetHeaderValue r (ascii "Sec-WebSocket-Key") with
  | none => false
  | some key =>
    if !validWebsocketKey key then false
    else if requestGetHeaderValue r (ascii "Sec-WebSocket-Version") ≠ some (ascii "13") then false
    else if requestGetHeaderValue r (ascii "Upgrade") ≠ some (ascii "websocket") then false
    else
      match requestGetHeaderValue r (ascii "Connection") with
      | none => false
      | some value => contains value (ascii "Upgrade") || contains value (ascii "upgrade")

/-! ## A request whose headers are all reported -/

section Parse
variable {r : Request} {hs : List HttpHeader} {reads : List Received}

theorem requestCallback_reader (c : Callback) : (requestCallback r c).reader = r.reader.hear c := by
  cases c with
  | headersComplete =>
    simp only [requestCallback, requestOnHeadersComplete]
    split_ifs <;> rfl
  | _ => rfl

theorem foldl_requestCallback_reader (cs : List Callback) :
    (cs.foldl requestCallback r).reader = cs.foldl HeaderReader.hear r.reader := by
  induction cs generalizing r with
  | nil => rfl
  | cons c cs ih => rw [List.foldl_cons, ih, requestCallback_reader, List.foldl_cons]

theorem requestCallback_continues {c : Callback} (hc : c ≠ .headersComplete) :
    (requestCallback r c).continueParsing = r.continueParsing := by
  cases c with
  | headersComplete => exact absurd rfl hc
  | _ => rfl

theorem foldl_requestCallback_continues {cs : List Callback} (hcs : .headersComplete ∉ cs) :
    (cs.foldl requestCallback r).continueParsing = r.continueParsing := by
  induction cs generalizing r with
  | nil => rfl
  | cons c cs ih =>
    simp only [List.mem_cons, not_or] at hcs
    rw [List.foldl_cons, ih hcs.2, requestCallback_continues (Ne.symm hcs.1)]

theorem requestParseLoop_front {rest : List (Bool × Received)}
    (hreads : ∀ read ∈ reads, (0 < read.received ∧ read.parsed = read.received) ∧
      .headersComplete ∉ read.callbacks) (hr : r.continueParsing = true) :
    requestParseLoop (reads.map (false, ·) ++ rest) r =
      requestParseLoop rest ((reads.flatMap (·.callbacks)).foldl requestCallback r) := by
  induction reads generalizing r with
  | nil => rfl
  | cons read reads ih =>
    simp only [List.mem_cons, forall_eq_or_imp] at hreads
    obtain ⟨⟨⟨hpos, hparsed⟩, hmore⟩, hreads⟩ := hreads
    have hcontinues := (foldl_requestCallback_continues (r := r) hmore).trans hr
    rw [List.map_cons, List.cons_append, requestParseLoop]
    simp only [hr, Bool.false_eq_true, Bool.true_eq_false, or_self, if_false, hparsed]
    rw [if_neg (by omega), if_neg (by omega), if_neg (by omega), if_neg (by simp), ih hreads hcontinues,
      List.flatMap_cons, List.foldl_append]

theorem foldl_requestOnUrl (urls : List Bytes) :
    (urls.map Callback.url).foldl requestCallback r =
      { r with uriBuffer := r.uriBuffer ++ urls.flatten } := by
  induction urls generalizing r with
  | nil => simp
  | cons url urls ih =>
    rw [List.map_cons, List.foldl_cons, ih]
    simp [requestCallback, requestOnUrl]

theorem foldl_requestCallback_uriBuffer {cs : List Callback} (h : Fragments hs cs) :
    (cs.foldl requestCallback r).uriBuffer = r.uriBuffer := by
  have hmem := fun c => h.mem (c := c)
  clear h
  induction cs generalizing r with
  | nil => rfl
  | cons c cs ih =>
    rw [List.foldl_cons, ih fun c hc => hmem c (List.mem_cons_of_mem _ hc)]
    rcases hmem c (by simp) with ⟨data, rfl⟩ | ⟨data, rfl⟩ <;> rfl

theorem requestParseHtml_hears {url : Bytes} {statusCode : ℤ}
    (h : Reports url hs statusCode reads) (hurl : url.length < 2048) :
    ∃ r cs, requestParseHtml (reads.map (false, ·)) newRequest = some (0, r) ∧ Fragments hs cs ∧
      r.reader.headers = (cs.foldl HeaderReader.hear {}).store.headers := by
  obtain ⟨urls, cs, hurls, hcs, hall⟩ := h.callbacks
  obtain ⟨front, read, rfl, -, hfront⟩ := h.last
  have htaken := h.taken
  simp only [List.mem_append, List.mem_singleton] at htaken
  set start : Request := { newRequest with continueParsing := true } with hstart
  set heard := (urls.map Callback.url ++ cs).foldl requestCallback start with hheard
  have huri : heard.uriBuffer = url := by
    rw [hheard, List.foldl_append, foldl_requestCallback_uriBuffer hcs, foldl_requestOnUrl, ← hurls]
    rfl
  have hheaders : heard.reader.store.headers = (cs.foldl HeaderReader.hear {}).store.headers := by
    rw [hheard, List.foldl_append, foldl_requestOnUrl, foldl_requestCallback_reader]
    rfl
  have hdone : requestOnHeadersComplete heard = (0, (requestOnHeadersComplete heard).2) ∧
      (requestOnHeadersComplete heard).2.continueParsing = false := by
    rw [requestOnHeadersComplete, huri, if_neg (by simp [appendZero]; omega)]
    exact ⟨rfl, rfl⟩
  have hlast : read.callbacks.foldl requestCallback
      ((front.flatMap (·.callbacks)).foldl requestCallback start) =
      (requestOnHeadersComplete heard).2 := by
    have hsplit := congrArg (List.foldl requestCallback start) hall
    simpa [List.flatMap_append, List.foldl_append, hheard, requestCallback] using hsplit
  have hfrontTaken : ∀ r ∈ front, (0 < r.received ∧ r.parsed = r.received) ∧
      .headersComplete ∉ r.callbacks :=
    fun r hr => ⟨htaken r (.inl hr), hfront r hr⟩
  have hnone : .headersComplete ∉ front.flatMap (·.callbacks) := by simpa using hfront
  have hcontinues := foldl_requestCallback_continues (r := start) hnone
  refine ⟨(requestOnHeadersComplete heard).2, cs, ?_, hcs, ?_⟩
  · obtain ⟨hpos, hparsed⟩ := htaken read (.inr rfl)
    rw [requestParseHtml, List.map_append, requestParseLoop_front hfrontTaken rfl, List.map_cons,
      List.map_nil, requestParseLoop]
    simp only [← hstart, hcontinues, hlast, hdone.2, hparsed]
    rw [if_neg (by simp [hstart]), if_neg (by omega), if_neg (by omega), if_neg (by omega),
      if_neg (by simp), requestParseLoop, if_neg (by simp [hdone.2])]
  · have hreader : (requestOnHeadersComplete heard).2.reader = heard.reader.store :=
      requestCallback_reader .headersComplete
    rw [hreader, hheaders]

theorem requestParseHtml_reports {url : Bytes} {statusCode : ℤ}
    (h : Reports url hs statusCode reads) (hplain : ∀ h ∈ hs, h.Plain) (hurl : url.length < 2048) :
    ∃ r, requestParseHtml (reads.map (false, ·)) newRequest = some (0, r) ∧
      r.reader.headers = setHeaders [] hs := by
  obtain ⟨r, cs, hparse, hcs, hheaders⟩ := requestParseHtml_hears h hurl
  refine ⟨r, hparse, hheaders.trans ?_⟩
  rw [HeaderReader.hear_fragments hcs hplain (by simp)]
  rfl

end Parse

end Rcom.Http
