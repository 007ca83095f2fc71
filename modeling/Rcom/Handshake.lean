import Rcom.Addr
import Rcom.Request

/-!
# The opening handshake (messagelink.c, messagehub.c)

The client keeps the headers of a response in the link. SHA-1 is any function to 20 bytes.
What is received and what the HTTP parser makes of it are part of the input.
-/

namespace Rcom.Http
open Rcom.Lib

abbrev Nonce := { bytes : Bytes // bytes.length = 16 }

abbrev Digest := { digest : Bytes // digest.length = 20 }

def websocketGuid : CStr := ascii "258EAFA5-E914-47DA-95CA-C5AB0DC85B11"

/-- What `snprintf` leaves in a buffer of this size. -/
def snprintf (size : ℕ) (text : CStr) : CStr := text.take (size - 1)

def makeKey (nonce : Nonce) : CStr := encodeBase64 nonce.1

def makeAccept (sha1 : CStr → Digest) (key : CStr) : CStr :=
  let buffer := snprintf 100 (key ++ websocketGuid)
  encodeBase64 (sha1 buffer).1

/-! ## The client -/

/-- The fields of a link that the handshake uses. -/
structure HttpLink where
  reader : HeaderReader := {}
  cont : Bool := true
  httpStatus : ℤ := 0
deriving DecidableEq

def newLink : HttpLink := {}

/-- The text has to fit the buffer, since the length that is sent is that of the whole text. -/
def clientMessagelinkSendRequest (host key : CStr) : Exec Bytes :=
  let text := ascii "GET / HTTP/1.1\r\nHost: " ++ host ++
    ascii "\r\nConnection: Upgrade\r\nUpgrade: websocket\r\nSec-WebSocket-Version: 13\r\n" ++
    ascii "Sec-WebSocket-Key: " ++ key ++ ascii "\r\n\r\n"
  if text.length < 2048 then some text else none

def messagelinkCallback (link : HttpLink) : Callback → HttpLink
  | .url _ => link
  | .headerField data => { link with reader := link.reader.onHeaderField data }
  | .headerValue data => { link with reader := link.reader.onHeaderValue data }
  | .headersComplete => { link with reader := link.reader.store, cont := false }

/-- The loop of `client_messagelink_parse_response`. It does not return while there is nothing to
receive. -/
def responseLoop : List Received → HttpLink → Option (ℤ × HttpLink)
  | [], _ => none
  | read :: reads, link =>
    if read.received < 0 then some (-1, link)
    else
      let link := read.callbacks.foldl messagelinkCallback link
      if read.received = 0 then some (0, { link with httpStatus := read.statusCode })
      else if read.parsed ≠ read.received ∧ read.parsed ≠ read.received - 1 ∧ link.cont = true then
        some (-1, link)
      else if link.cont then responseLoop reads link
      else some (0, { link with httpStatus := read.statusCode })

def clientMessagelinkParseResponse (reads : List Received) (link : HttpLink) :
    Option (ℤ × HttpLink) :=
  responseLoop reads
    { link with reader := { link.reader with parserHeaderState := .headerNew }, cont := true }

def validHeader (link : HttpLink) (name value : CStr) : Bool :=
  match getHeader link.reader.headers name with
  | none => false
  | some h => h.value = value

def clientMessagelinkValidateResponse (link : HttpLink) (accept : CStr) : ℤ :=
  if link.httpStatus ≠ 101 then -1
  else if !validHeader link (ascii "Connection") (ascii "Upgrade") then -1
  else if !validHeader link (ascii "Upgrade") (ascii "websocket") then -1
  else if !validHeader link (ascii "Sec-WebSocket-Accept") accept then -1
  else 0

/-- `sent` is the result of sending the request. -/
def clientMessagelinkOpenWebsocket (sha1 : CStr → Digest) (nonce : Nonce) (sent : ℤ)
    (reads : List Received) (link : HttpLink) : Option (ℤ × HttpLink) :=
  let accept := makeAccept sha1 (makeKey nonce)
  if sent ≠ 0 then some (-1, link)
  else
    match clientMessagelinkParseResponse reads link with
    | none => none
    | some (err, link) =>
      if err ≠ 0 then some (-1, link)
      else if clientMessagelinkValidateResponse link accept ≠ 0 then some (-1, link)
      else some (0, link)

/-! ## The server -/

/-- The answer to a request; `none` if the key is missing. -/
def messagehubUpgradeConnection (sha1 : CStr → Digest) (request : Request) : Exec Bytes :=
  match requestGetHeaderValue request (ascii "Sec-WebSocket-Key") with
  | none => none
  | some key =>
    let buffer := snprintf 100 (key ++ websocketGuid)
    let accept := encodeBase64 (sha1 buffer).1
    some (ascii "HTTP/1.1 101 Switching Protocols\r\nUpgrade: websocket\r\nConnection: Upgrade\r\n" ++
      ascii "Sec-WebSocket-Accept: " ++ accept ++ ascii "\r\n\r\n")

/-! ## What a link makes of a response -/

/-- What the loop hears: the callbacks, and the status code if it ends without an error. -/
def heard : List Received → Option (Option ℤ × List Callback)
  | [] => none
  | read :: reads =>
    if read.received < 0 then some (none, [])
    else if read.received = 0 then some (some read.statusCode, read.callbacks)
    else if .headersComplete ∈ read.callbacks then some (some read.statusCode, read.callbacks)
    else if read.parsed ≠ read.received ∧ read.parsed ≠ read.received - 1 then
      some (none, read.callbacks)
    else (heard reads).map fun rest => (rest.1, read.callbacks ++ rest.2)

theorem heard_reports {url : Bytes} {hs : List HttpHeader} {statusCode : ℤ} {reads : List Received}
    (h : Reports url hs statusCode reads) :
    heard reads = some (some statusCode, reads.flatMap (·.callbacks)) := by
  obtain ⟨front, read, rfl, hstatus, hfront⟩ := h.last
  have htaken := h.taken
  have hlast : .headersComplete ∈ read.callbacks := by
    obtain ⟨urls, cs, -, -, hall⟩ := h.callbacks
    have hmem : .headersComplete ∈ (front ++ [read]).flatMap (·.callbacks) := by simp [hall]
    rw [List.flatMap_append, List.mem_append] at hmem
    rcases hmem with hmem | hmem
    · obtain ⟨r, hr, hmem⟩ := List.mem_flatMap.1 hmem
      exact absurd hmem (hfront r hr)
    · simpa using hmem
  clear h
  induction front with
  | nil =>
    obtain ⟨hpos, -⟩ := htaken read (by simp)
    rw [List.nil_append, heard, if_neg (by omega), if_neg (by omega), if_pos hlast]
    simp [hstatus]
  | cons r front ih =>
    simp only [List.cons_append, List.mem_cons, forall_eq_or_imp] at htaken hfront
    obtain ⟨⟨hpos, hparsed⟩, htaken⟩ := htaken
    rw [List.cons_append, heard, if_neg (by omega), if_neg (by omega), if_neg hfront.1,
      if_neg (fun h => h.1 hparsed), ih hfront.2 htaken]
    rfl

def requiredHeaders (accept : CStr) : List HttpHeader :=
  [⟨ascii "Connection", ascii "Upgrade"⟩, ⟨ascii "Upgrade", ascii "websocket"⟩,
    ⟨ascii "Sec-WebSocket-Accept", accept⟩]

section Response
variable {link : HttpLink}

theorem foldl_messagelinkCallback (cs : List Callback) :
    cs.foldl messagelinkCallback link =
      { link with
        reader := cs.foldl HeaderReader.hear link.reader
        cont := link.cont && !decide (.headersComplete ∈ cs) } := by
  induction cs generalizing link with
  | nil => simp
  | cons c cs ih =>
    rw [List.foldl_cons, ih]
    cases c <;> simp [messagelinkCallback, HeaderReader.hear]

theorem responseLoop_eq (reads : List Received) (hcont : link.cont = true) :
    responseLoop reads link = (heard reads).map fun h =>
      (if h.1.isSome then 0 else -1,
        { reader := h.2.foldl HeaderReader.hear link.reader
          cont := !decide (.headersComplete ∈ h.2)
          httpStatus := h.1.getD link.httpStatus }) := by
  induction reads generalizing link with
  | nil => rfl
  | cons read reads ih =>
    rw [responseLoop, heard]
    simp only [foldl_messagelinkCallback, hcont, Bool.true_and]
    by_cases hfailed : read.received < 0
    · simp [hfailed, ← hcont]
    by_cases hend : read.received = 0
    · simp [hend]
    by_cases hcomplete : .headersComplete ∈ read.callbacks
    · simp [hfailed, hend, hcomplete]
    by_cases hparsed : read.parsed ≠ read.received ∧ read.parsed ≠ read.received - 1
    · simp [hfailed, hend, hcomplete, hparsed]
    · have hgo : ¬ (read.parsed ≠ read.received ∧ read.parsed ≠ read.received - 1 ∧
          (!decide (.headersComplete ∈ read.callbacks)) = true) := fun h => hparsed ⟨h.1, h.2.1⟩
      simp only [if_neg hfailed, if_neg hend, if_neg hcomplete, if_neg hparsed, if_neg hgo]
      rw [if_pos (by simpa using hcomplete), ih (by simpa using hcomplete)]
      simp [Function.comp_def, hcomplete]

def HeaderReader.after (r : HeaderReader) (cs : List Callback) : HeaderReader :=
  cs.foldl HeaderReader.hear { r with parserHeaderState := .headerNew }

theorem parseResponse_eq (reads : List Received) (link : HttpLink) :
    clientMessagelinkParseResponse reads link = (heard reads).map fun h =>
      (if h.1.isSome then 0 else -1,
        { reader := link.reader.after h.2
          cont := !decide (.headersComplete ∈ h.2)
          httpStatus := h.1.getD link.httpStatus }) := by
  rw [clientMessagelinkParseResponse, responseLoop_eq reads rfl]
  rfl

def Accepts (accept : CStr) (headers : List HttpHeader) : Prop :=
  ∀ h ∈ requiredHeaders accept, getHeaderValue headers h.name = some h.value

theorem validHeader_iff (name value : CStr) :
    validHeader link name value = true ↔ getHeaderValue link.reader.headers name = some value := by
  rw [validHeader, getHeaderValue]
  cases getHeader link.reader.headers name <;> simp

theorem validateResponse_eq (link : HttpLink) (accept : CStr) [Decidable (Accepts accept link.reader.headers)] :
    clientMessagelinkValidateResponse link accept =
      if link.httpStatus = 101 ∧ Accepts accept link.reader.headers then 0 else -1 := by
  simp only [clientMessagelinkValidateResponse, Accepts, requiredHeaders, List.mem_cons,
    List.not_mem_nil, or_false, forall_eq_or_imp, forall_eq, ← validHeader_iff]
  split_ifs <;> simp_all

end Response

section Verdict
variable {sha1 : CStr → Digest} {nonce : Nonce} {sent : ℤ} {reads : List Received}

open Classical in
theorem verdict_eq (hsent : sent = 0) (link : HttpLink) :
    (clientMessagelinkOpenWebsocket sha1 nonce sent reads link).map Prod.fst =
      (heard reads).map fun h =>
        if h.1 = some 101 ∧ Accepts (makeAccept sha1 (makeKey nonce)) (link.reader.after h.2).headers
        then (0 : ℤ) else -1 := by
  rw [clientMessagelinkOpenWebsocket, parseResponse_eq]
  simp only [hsent, ne_eq, not_true_eq_false, if_false]
  cases heard reads with
  | none => rfl
  | some h =>
    obtain ⟨status, cs⟩ := h
    cases status with
    | none => simp
    | some status =>
      simp only [Option.map_some, validateResponse_eq, Option.some.injEq, Option.getD_some,
        Option.isSome_some, if_true, not_true_eq_false, if_false]
      split_ifs <;> simp_all

theorem plain_requiredHeaders (key : CStr) :
    ∀ h ∈ requiredHeaders (makeAccept sha1 key), h.Plain := by
  have hlen : (makeAccept sha1 key).length = 28 := by
    rw [makeAccept, length_encodeBase64, (sha1 _).2]
  have hne : makeAccept sha1 key ≠ [] := by
    intro h
    simp [h] at hlen
  have hname : ascii "Sec-WebSocket-Accept" ≠ [] ∧ 0 ∉ ascii "Sec-WebSocket-Accept" := by decide
  simp only [requiredHeaders, List.mem_cons, List.not_mem_nil, or_false, forall_eq_or_imp, forall_eq]
  exact ⟨by decide, by decide, hname.1, hname.2, hne, zero_notMem_encodeBase64 _⟩

theorem after_complete {hs : List HttpHeader} {cs : List Callback} (h : Fragments hs cs)
    (hplain : ∀ h ∈ hs, h.Plain) (urls : List Bytes) :
    (HeaderReader.after {} (urls.map .url ++ (cs ++ [.headersComplete]))).headers =
      setHeaders [] hs := by
  have hurls : (urls.map Callback.url).foldl HeaderReader.hear {} = {} := by
    induction urls with
    | nil => rfl
    | cons url urls ih => exact ih
  rw [HeaderReader.after, List.foldl_append, hurls, List.foldl_append]
  exact HeaderReader.hear_fragments h hplain (by simp)

end Verdict

/-! ## The two sides together -/

def requestHeaders (host key : CStr) : List HttpHeader :=
  [⟨ascii "Host", host⟩, ⟨ascii "Connection", ascii "Upgrade"⟩,
    ⟨ascii "Upgrade", ascii "websocket"⟩, ⟨ascii "Sec-WebSocket-Version", ascii "13"⟩,
    ⟨ascii "Sec-WebSocket-Key", key⟩]

def replyHeaders (accept : CStr) : List HttpHeader :=
  [⟨ascii "Upgrade", ascii "websocket"⟩, ⟨ascii "Connection", ascii "Upgrade"⟩,
    ⟨ascii "Sec-WebSocket-Accept", accept⟩]

theorem sendRequest_eq (addr : Addr) (nonce : Nonce) :
    clientMessagelinkSendRequest addr.addrIp (makeKey nonce) =
      some (messageText (ascii "GET / HTTP/1.1") (requestHeaders addr.addrIp (makeKey nonce))) := by
  have hkey : (makeKey nonce).length = 24 := by rw [makeKey, length_encodeBase64, nonce.2]
  have hhost : addr.addrIp.length ≤ 15 := Libc.inetNtoa_length addr.ip
  have hstart : ascii "GET / HTTP/1.1\r\nHost: " =
      ascii "GET / HTTP/1.1" ++ crlf ++ ascii "Host" ++ [58, 32] := by decide
  have hmiddle : ascii "\r\nConnection: Upgrade\r\nUpgrade: websocket\r\nSec-WebSocket-Version: 13\r\n" =
      crlf ++ headerText ⟨ascii "Connection", ascii "Upgrade"⟩ ++
        headerText ⟨ascii "Upgrade", ascii "websocket"⟩ ++
        headerText ⟨ascii "Sec-WebSocket-Version", ascii "13"⟩ := by decide
  have hname : ascii "Sec-WebSocket-Key: " = ascii "Sec-WebSocket-Key" ++ [58, 32] := by decide
  have hend : ascii "\r\n\r\n" = crlf ++ crlf := by decide
  obtain ⟨hlen₁, hlen₂, hlen₃, hlen₄⟩ : (ascii "GET / HTTP/1.1\r\nHost: ").length < 100 ∧
      (ascii "\r\nConnection: Upgrade\r\nUpgrade: websocket\r\nSec-WebSocket-Version: 13\r\n").length <
        100 ∧
      (ascii "Sec-WebSocket-Key: ").length < 100 ∧ (ascii "\r\n\r\n").length < 100 := by decide
  rw [clientMessagelinkSendRequest, if_pos]
  · rw [hstart, hmiddle, hname, hend]
    simp [messageText, requestHeaders, headerText]
  · simp only [List.length_append, hkey]
    omega

theorem upgradeConnection_eq {sha1 : CStr → Digest} {request : Request} {key : CStr}
    (h : requestGetHeaderValue request (ascii "Sec-WebSocket-Key") = some key) :
    messagehubUpgradeConnection sha1 request =
      some (messageText (ascii "HTTP/1.1 101 Switching Protocols")
        (replyHeaders (makeAccept sha1 key))) := by
  have hstart : ascii "HTTP/1.1 101 Switching Protocols\r\nUpgrade: websocket\r\nConnection: Upgrade\r\n" =
      ascii "HTTP/1.1 101 Switching Protocols" ++ crlf ++
        headerText ⟨ascii "Upgrade", ascii "websocket"⟩ ++
        headerText ⟨ascii "Connection", ascii "Upgrade"⟩ := by decide
  have hname : ascii "Sec-WebSocket-Accept: " = ascii "Sec-WebSocket-Accept" ++ [58, 32] := by decide
  have hend : ascii "\r\n\r\n" = crlf ++ crlf := by decide
  rw [messagehubUpgradeConnection, h]
  simp only [hstart, hname, hend]
  simp [messageText, replyHeaders, headerText, makeAccept]

theorem base64Table_isKeyChar : ∀ c ∈ base64Table, isKeyChar c = true :=
  List.all_eq_true.1 (by decide)

theorem validWebsocketKey_makeKey (nonce : Nonce) : validWebsocketKey (makeKey nonce) = true := by
  obtain ⟨front, hfront, hlen, hmem⟩ := encodeBase64_padding (s := nonce.1) (n := 5) nonce.2
  have hend : (front ++ [61, 61]).getD 22 0 = 61 ∧ (front ++ [61, 61]).getD 23 0 = 61 := by
    simp [hlen]
  have htake : (front ++ [61, 61]).take 22 = front := List.take_left' hlen
  rw [validWebsocketKey, makeKey, hfront, if_neg (by simp [hlen]),
    if_neg (by rw [hend.1, hend.2]; simp), htake, List.all_eq_true]
  exact fun c hc => base64Table_isKeyChar c (hmem c hc)

theorem addrIp_plain {addr : Addr} {c : UInt8} (hc : c ∈ addr.addrIp) :
    c ≠ 0 ∧ c ≠ 10 ∧ c ≠ 13 ∧ c ≠ 32 := by
  have hnat : c ≠ 0 ∧ c ≠ 10 ∧ c ≠ 13 ∧ c ≠ 32 ↔
      c.toNat ≠ 0 ∧ c.toNat ≠ 10 ∧ c.toNat ≠ 13 ∧ c.toNat ≠ 32 := by
    simp [← UInt8.toNat_inj]
  rw [hnat]
  rcases Libc.mem_inetNtoa hc with rfl | h
  · decide
  · omega

theorem requestHeaders_inline (addr : Addr) (nonce : Nonce) :
    ∀ h ∈ requestHeaders addr.addrIp (makeKey nonce), h.Inline := by
  simp only [requestHeaders, List.mem_cons, List.not_mem_nil, or_false, forall_eq_or_imp, forall_eq]
  exact ⟨HttpHeader.inline_of (by decide) fun c hc => (addrIp_plain hc).2,
    HttpHeader.inline_text (by decide) (by decide), HttpHeader.inline_text (by decide) (by decide),
    HttpHeader.inline_text (by decide) (by decide),
    HttpHeader.inline_of (by decide) fun c hc => (encodeBase64_plain hc).2⟩

theorem requestHeaders_plain (addr : Addr) (nonce : Nonce) :
    ∀ h ∈ requestHeaders addr.addrIp (makeKey nonce), h.Plain := by
  have hkey : (makeKey nonce).length = 24 := by rw [makeKey, length_encodeBase64, nonce.2]
  have hhost : addr.addrIp ≠ [] := by simp [Addr.addrIp, Libc.inetNtoa]
  have hnames : ascii "Host" ≠ [] ∧ 0 ∉ ascii "Host" ∧ ascii "Sec-WebSocket-Key" ≠ [] ∧
      0 ∉ ascii "Sec-WebSocket-Key" := by decide
  simp only [requestHeaders, List.mem_cons, List.not_mem_nil, or_false, forall_eq_or_imp, forall_eq]
  exact ⟨⟨hnames.1, hnames.2.1, hhost, fun h => (addrIp_plain h).1 rfl⟩, by decide, by decide,
    by decide, hnames.2.2.1, hnames.2.2.2, List.ne_nil_of_length_eq_add_one hkey,
    zero_notMem_encodeBase64 _⟩

theorem replyHeaders_inline (sha1 : CStr → Digest) (key : CStr) :
    ∀ h ∈ replyHeaders (makeAccept sha1 key), h.Inline := by
  simp only [replyHeaders, List.mem_cons, List.not_mem_nil, or_false, forall_eq_or_imp, forall_eq]
  exact ⟨HttpHeader.inline_text (by decide) (by decide), HttpHeader.inline_text (by decide) (by decide),
    HttpHeader.inline_of (by decide) fun c hc => (encodeBase64_plain hc).2⟩

theorem mem_replyHeaders {accept : CStr} {h : HttpHeader} :
    h ∈ replyHeaders accept ↔ h ∈ requiredHeaders accept := by
  simp only [replyHeaders, requiredHeaders, List.mem_cons, List.not_mem_nil, or_false]
  tauto

theorem request_valid {r : Request} {addr : Addr} {nonce : Nonce}
    (h : r.reader.headers = setHeaders [] (requestHeaders addr.addrIp (makeKey nonce))) :
    requestGetHeaderValue r (ascii "Sec-WebSocket-Key") = some (makeKey nonce) ∧
      requestIsWebsocket r = true ∧ requestIsValidWebsocket r = true := by
  have hnodup : ((requestHeaders addr.addrIp (makeKey nonce)).map (·.name)).Nodup := by
    have hnames : [ascii "Host", ascii "Connection", ascii "Upgrade", ascii "Sec-WebSocket-Version",
      ascii "Sec-WebSocket-Key"].Nodup := by decide
    exact hnames
  have hvalue : ∀ q ∈ requestHeaders addr.addrIp (makeKey nonce),
      requestGetHeaderValue r q.name = some q.value := by
    intro q hq
    rw [requestGetHeaderValue, h]
    exact getHeaderValue_setHeaders [] hnodup hq
  simp only [requestHeaders, List.mem_cons, List.not_mem_nil, or_false, forall_eq_or_imp,
    forall_eq] at hvalue
  obtain ⟨-, hconnection, hupgrade, hversion, hkey⟩ := hvalue
  have hcontains : contains (ascii "Upgrade") (ascii "Upgrade") = true := by decide
  refine ⟨hkey, ?_, ?_⟩
  · rw [requestIsWebsocket, hkey]
    rfl
  · simp [requestIsValidWebsocket, hkey, hversion, hupgrade, hconnection, hcontains,
      validWebsocketKey_makeKey]

theorem reply_opens {sha1 : CStr → Digest} {nonce : Nonce} {reads : List Received}
    (h : Reports [] (replyHeaders (makeAccept sha1 (makeKey nonce))) 101 reads) :
    (clientMessagelinkOpenWebsocket sha1 nonce 0 reads newLink).map Prod.fst = some 0 := by
  classical
  have hplain : ∀ q ∈ replyHeaders (makeAccept sha1 (makeKey nonce)), q.Plain :=
    fun q hq => plain_requiredHeaders (makeKey nonce) q (mem_replyHeaders.1 hq)
  have hnodup : ((replyHeaders (makeAccept sha1 (makeKey nonce))).map (·.name)).Nodup := by
    have hnames : [ascii "Upgrade", ascii "Connection", ascii "Sec-WebSocket-Accept"].Nodup := by
      decide
    exact hnames
  obtain ⟨urls, cs, -, hcs, hall⟩ := h.callbacks
  have haccepts : Accepts (makeAccept sha1 (makeKey nonce))
      (newLink.reader.after (reads.flatMap (·.callbacks))).headers := by
    have hafter := after_complete hcs hplain urls
    rw [← hall] at hafter
    intro q hq
    rw [newLink, hafter]
    exact getHeaderValue_setHeaders [] hnodup (mem_replyHeaders.2 hq)
  rw [verdict_eq rfl, heard_reports h, Option.map_some, if_pos ⟨rfl, haccepts⟩]

/-- The server takes the request of the client, both compute the same accept value, from the whole
key, and the client takes the reply. -/
theorem handshake_agrees (sha1 : CStr → Digest) (nonce : Nonce) (addr : Addr) :
    ∃ request, clientMessagelinkSendRequest addr.addrIp (makeKey nonce) = some request ∧
      ∀ status reads, Reports (ascii "/") (sentHeaders request) status reads →
        ∃ r, requestParseHtml (reads.map (false, ·)) newRequest = some (0, r) ∧
          requestIsWebsocket r = true ∧ requestIsValidWebsocket r = true ∧
          ∃ reply, messagehubUpgradeConnection sha1 r = some reply ∧
            ⟨ascii "Sec-WebSocket-Accept", makeAccept sha1 (makeKey nonce)⟩ ∈ sentHeaders reply ∧
            makeAccept sha1 (makeKey nonce) =
              encodeBase64 (sha1 (encodeBase64 nonce.1 ++ websocketGuid)).1 ∧
            ∀ reads', Reports [] (sentHeaders reply) 101 reads' →
              (clientMessagelinkOpenWebsocket sha1 nonce 0 reads' newLink).map Prod.fst = some 0 := by
  refine ⟨_, sendRequest_eq addr nonce, fun status reads hreads => ?_⟩
  have hget : 10 ∉ ascii "GET / HTTP/1.1" ∧ 10 ∉ ascii "HTTP/1.1 101 Switching Protocols" ∧
      (ascii "/").length < 2048 ∧ websocketGuid.length = 36 := by decide
  obtain ⟨hstart, hstart', hurl, hguid⟩ := hget
  rw [sentHeaders_messageText hstart (requestHeaders_inline addr nonce)] at hreads
  obtain ⟨r, hparse, hheaders⟩ :=
    requestParseHtml_reports hreads (requestHeaders_plain addr nonce) hurl
  obtain ⟨hkey, hwebsocket, hvalid⟩ := request_valid hheaders
  refine ⟨r, hparse, hwebsocket, hvalid, _, upgradeConnection_eq hkey, ?_, ?_, ?_⟩
  · rw [sentHeaders_messageText hstart' (replyHeaders_inline sha1 _)]
    simp [replyHeaders]
  · have hlen : (encodeBase64 nonce.1).length = 24 := by rw [length_encodeBase64, nonce.2]
    rw [makeAccept, makeKey, snprintf, List.take_of_length_le]
    rw [List.length_append, hlen, hguid]
    omega
  · intro reads' hreads'
    rw [sentHeaders_messageText hstart' (replyHeaders_inline sha1 _)] at hreads'
    exact reply_opens hreads'

/-! ### One handshake -/

def zeroSha1 (_ : CStr) : Digest := ⟨List.replicate 20 0, rfl⟩

def zeroNonce : Nonce := ⟨List.replicate 16 0, rfl⟩

theorem zeroHandshake_agrees :
    ∃ (request : Bytes) (reads : List Received) (r : Request) (reply : Bytes)
      (reads' : List Received),
      clientMessagelinkSendRequest Addr.newAddr0.addrIp (makeKey zeroNonce) = some request ∧
      requestParseHtml (reads.map (false, ·)) newRequest = some (0, r) ∧
      requestIsValidWebsocket r = true ∧ messagehubUpgradeConnection zeroSha1 r = some reply ∧
      (clientMessagelinkOpenWebsocket zeroSha1 zeroNonce 0 reads' newLink).map Prod.fst = some 0 := by
  obtain ⟨request, hrequest, h⟩ := handshake_agrees zeroSha1 zeroNonce Addr.newAddr0
  have hlines : 10 ∉ ascii "GET / HTTP/1.1" ∧ 10 ∉ ascii "HTTP/1.1 101 Switching Protocols" ∧
      (ascii "/").length < 2048 := by decide
  have hplain := requestHeaders_plain Addr.newAddr0 zeroNonce
  obtain ⟨reads, hreads⟩ : ∃ reads, Reports (ascii "/")
      (requestHeaders Addr.newAddr0.addrIp (makeKey zeroNonce)) 0 reads :=
    ⟨_, reports_readEach hplain [ascii "/"] 0⟩
  have hsent : sentHeaders request = requestHeaders Addr.newAddr0.addrIp (makeKey zeroNonce) := by
    have htext := hrequest
    rw [sendRequest_eq, Option.some.injEq] at htext
    rw [← htext, sentHeaders_messageText hlines.1 (requestHeaders_inline _ _)]
  obtain ⟨r, hparse, -, hvalid, reply, hreply, -, -, hopens⟩ := h 0 reads (by rwa [hsent])
  have hheaders : r.reader.headers =
      setHeaders [] (requestHeaders Addr.newAddr0.addrIp (makeKey zeroNonce)) := by
    obtain ⟨r', hparse', hheaders⟩ := requestParseHtml_reports hreads hplain hlines.2.2
    have hsame := hparse.symm.trans hparse'
    rw [Option.some.injEq, Prod.mk.injEq] at hsame
    rw [hsame.2, hheaders]
  have hanswered : sentHeaders reply = replyHeaders (makeAccept zeroSha1 (makeKey zeroNonce)) := by
    have htext := hreply
    rw [upgradeConnection_eq (request_valid hheaders).1, Option.some.injEq] at htext
    rw [← htext, sentHeaders_messageText hlines.2.1 (replyHeaders_inline _ _)]
  obtain ⟨reads', hreads'⟩ : ∃ reads, Reports []
      (replyHeaders (makeAccept zeroSha1 (makeKey zeroNonce))) 101 reads := by
    have hplain' : ∀ q ∈ replyHeaders (makeAccept zeroSha1 (makeKey zeroNonce)), q.Plain :=
      fun q hq => plain_requiredHeaders _ q (mem_replyHeaders.1 hq)
    exact ⟨_, reports_readEach hplain' [] 101⟩
  exact ⟨request, reads, r, reply, reads', hrequest, hparse, hvalid, hreply,
    hopens reads' (by rwa [hanswered])⟩

end Rcom.Http
