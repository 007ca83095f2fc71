import Rcom.Libc
import Rcom.Streamer

/-!
# Headers that are built in a buffer (http.c, streamer.c)

The text is written with `snprintf`, which returns the length that the whole text has even if it
does not fit. The caller takes what it returned for the number of bytes to send.
-/

namespace Rcom.Http
open Lib Lib.Decimal Lib.Program Libc

/-- What `snprintf` left in its buffer, without the final zero, and what it returned. -/
structure Printed where
  stored : CStr
  count : ℤ

def Printed.snprintf (size : ℕ) (text : CStr) : Printed where
  stored := text.take (size - 1)
  count := if (text.length : ℤ) ≤ intMax then text.length else -1

/-- The bytes that are passed on with this count, when `behind` follows what was stored. -/
def Printed.passed (behind : ℕ → UInt8) (p : Printed) : Bytes :=
  (p.stored ++ 0 :: (List.range p.count.toNat).map behind).take p.count.toNat

/-- No more is passed on than was stored, and that is the text. -/
def Printed.Whole (p : Printed) (text : CStr) : Prop :=
  p.count ≤ p.stored.length ∧ ∀ behind, p.passed behind = text

/-! ## The functions of http.c -/

/-- `%d` -/
def printInt (n : ℤ) : CStr := if n < 0 then 45 :: decimal n.natAbs else decimal n.natAbs

def requestText (resource host contentType : CStr) (contentLength : ℤ) : CStr :=
  let slash := if resource.head? = some 47 then [] else ascii "/"
  if 0 < contentLength then
    ascii "POST " ++ slash ++ resource ++ ascii " HTTP/1.1\r\n" ++
    ascii "Host: " ++ host ++ ascii "\r\n" ++
    ascii "Content-Type: " ++ contentType ++ ascii "\r\n" ++
    ascii "Content-Length: " ++ printInt contentLength ++ ascii "\r\n\r\n"
  else
    ascii "GET " ++ slash ++ resource ++ ascii " HTTP/1.1\r\n" ++
    ascii "Host: " ++ host ++ ascii "\r\n\r\n"

/-- What `http_send_request_headers` passes to `tcp_socket_send`. -/
def httpSendRequestHeaders (resource host contentType : CStr) (contentLength : ℤ) : Printed :=
  .snprintf 2048 (requestText resource host contentType contentLength)

def streamingText (mimetype : CStr) : CStr :=
  ascii "HTTP/1.1 200 OK\r\n" ++
  ascii "Content-Type: " ++ mimetype ++ ascii "\r\n" ++
  ascii "Transfer-Encoding: chunked\r\n" ++
  ascii "\r\n"

def httpSendStreamingHeaders (mimetype : CStr) : Printed :=
  .snprintf 2048 (streamingText mimetype)

/-- `statusString` is what `http_status_string` returns for the status. -/
def headersText (status : ℤ) (statusString mimetype : CStr) (contentLength : ℤ) : CStr :=
  ascii "HTTP/1.1 " ++ printInt status ++ ascii " " ++ statusString ++ ascii "\r\n" ++
  ascii "Content-Type: " ++ mimetype ++ ascii "\r\n" ++
  ascii "Content-Length: " ++ printInt contentLength ++ ascii "\r\n" ++
  ascii "Access-Control-Allow-Origin: *\r\n" ++
  ascii "Connection: close\r\n\r\n"

/-- The length is asked for first and compared as an unsigned number; `none` is the failure. -/
def httpSendHeaders (status : ℤ) (statusString mimetype : CStr) (contentLength : ℤ) :
    Option Printed :=
  let text := headersText status statusString mimetype contentLength
  if 2047 < (Printed.snprintf 0 text).count % 4294967296 then none
  else some (.snprintf 2048 text)

variable {T : Type} (dt : DoubleText T)

/-- What `streamer_send_multipart` passes to `circular_buffer_write` for the header. -/
def multipartHeader (part : Part T) : Printed := .snprintf headerSize (part.header dt)

/-! ## What fits -/

section
variable {size : ℕ} {text : CStr}

theorem passed_eq (behind : ℕ → UInt8) {p : Printed} (h : p.count.toNat ≤ p.stored.length) :
    p.passed behind = p.stored.take p.count.toNat := by
  rw [Printed.passed, List.take_append_of_le_length h]

theorem snprintf_fits (h : text.length < size) (hmax : (text.length : ℤ) ≤ intMax) :
    Printed.snprintf size text = ⟨text, text.length⟩ := by
  rw [Printed.snprintf, List.take_of_length_le (by omega), if_pos hmax]

/-- The whole text is passed on exactly if it fits into the buffer. -/
theorem sent_whole_iff (htext : text ≠ []) (hsize : (size : ℤ) ≤ intMax) :
    (Printed.snprintf size text).Whole text ↔ text.length < size := by
  constructor
  · rintro ⟨hcount, hpassed⟩
    by_contra hlong
    by_cases hmax : (text.length : ℤ) ≤ intMax
    · have hlen : (text.length : ℤ) ≤ (text.take (size - 1)).length := by
        simpa [Printed.snprintf, hmax] using hcount
      rw [List.length_take] at hlen
      have hpos := List.length_pos_iff.2 htext
      omega
    · refine htext ((hpassed fun _ => 0).symm.trans ?_)
      simp [Printed.passed, Printed.snprintf, hmax]
  · intro h
    rw [snprintf_fits h (by omega)]
    refine ⟨le_rfl, fun behind => ?_⟩
    rw [passed_eq behind (by simp)]
    simp

end

theorem requestText_ne_nil (resource host contentType : CStr) (contentLength : ℤ) :
    requestText resource host contentType contentLength ≠ [] := by
  unfold requestText
  dsimp only
  split_ifs <;> simp [ascii]

theorem streamingText_ne_nil (mimetype : CStr) : streamingText mimetype ≠ [] := by
  simp [streamingText, ascii]

theorem header_ne_nil (part : Part T) : part.header dt ≠ [] := by
  simp [Part.header, ascii]

/-- `http_send_headers` fails on what the others pass on. -/
theorem httpSendHeaders_whole {status : ℤ} {statusString mimetype : CStr} {contentLength : ℤ}
    {p : Printed} (h : httpSendHeaders status statusString mimetype contentLength = some p) :
    p.Whole (headersText status statusString mimetype contentLength) := by
  unfold httpSendHeaders at h
  dsimp only at h
  split_ifs at h with hlong
  cases h
  have htext : headersText status statusString mimetype contentLength ≠ [] := by
    simp [headersText, ascii]
  refine (sent_whole_iff htext (by decide)).2 ?_
  unfold Printed.snprintf at hlong
  dsimp only at hlong
  split_ifs at hlong with hmax
  · unfold intMax at hmax
    rw [Int.emod_eq_of_lt (by omega) (by omega)] at hlong
    omega
  · exact absurd (by decide) hlong

/-! ## The parts of a stream -/

section Multipart
open Streaming

variable {dt} {part : Part T}

/-- The clients that have the room get the header of this part, the others do not. -/
theorem sendToClients_writes {totalLen : ℤ} {clients : List ℕ}
    {es : List (Event (Act.Answer (T := T)))}
    (h : Does (sendToClients totalLen part clients) es ()) :
    (∀ b p r, ⟨.writeHeader b p, r⟩ ∈ es → p = part) ∧
      ((∃ b r, ⟨.writeHeader b part, r⟩ ∈ es) ↔
        ∃ b, ∃ space : ℤ, ⟨.spaceAvailable b, space⟩ ∈ es ∧ totalLen < space) := by
  induction clients generalizing es with
  | nil =>
    obtain ⟨rfl, -⟩ := h
    simp
  | cons b l ih =>
    obtain ⟨space, es', rfl, h⟩ := h
    change Does (if totalLen < (space : ℤ) then _ else _) es' () at h
    split_ifs at h with hroom
    · obtain ⟨r₁, es₁, rfl, r₂, es₂, rfl, hrest⟩ := h
      obtain ⟨hpart, -⟩ := ih hrest
      refine ⟨?_, iff_of_true ⟨b, r₁, by simp⟩ ⟨b, space, by simp, hroom⟩⟩
      simp only [List.mem_cons, Sigma.mk.injEq, reduceCtorEq, false_and, false_or,
        Act.writeHeader.injEq]
      rintro b' p r (⟨⟨-, rfl⟩, -⟩ | hmem)
      · rfl
      · exact hpart b' p r hmem
    · obtain ⟨hpart, hiff⟩ := ih h
      simp only [List.mem_cons, Sigma.mk.injEq, reduceCtorEq, false_and, false_or]
      refine ⟨hpart, hiff.trans ⟨?_, ?_⟩⟩
      · rintro ⟨b', space', hmem, hlt⟩
        exact ⟨b', space', .inr hmem, hlt⟩
      · rintro ⟨b', space', ⟨hb, hspace⟩ | hmem, hlt⟩
        · cases hb
          cases hspace
          exact absurd hlt hroom
        · exact ⟨b', space', hmem, hlt⟩

/-- What a call of `streamer_send_multipart` compares with the space of a client, and whether it
writes the header. -/
theorem streamerSendMultipart_writes {es : List (Event (Act.Answer (T := T)))}
    (h : Does (streamerSendMultipart dt part) es ()) :
    (∀ b p r, ⟨.writeHeader b p, r⟩ ∈ es → p = part) ∧
      ∃ x, ∃ totalLen : ℤ, es.head? = some ⟨.sum x, totalLen⟩ ∧
        ((∃ b r, ⟨.writeHeader b part, r⟩ ∈ es) ↔
          ∃ b, ∃ space : ℤ, ⟨.spaceAvailable b, space⟩ ∈ es ∧ totalLen < space) := by
  obtain ⟨totalLen, es₁, rfl, r₁, es₂, rfl, clients, es₃, rfl, h⟩ := h
  change Does (sendToClients totalLen part clients >>= fun _ => doing .unlockClients) es₃ () at h
  obtain ⟨es₄, es₅, _, rfl, hsend, r₂, es₆, rfl, rfl, -⟩ := does_bind.1 h
  obtain ⟨hpart, hiff⟩ := sendToClients_writes hsend
  simp only [List.mem_cons, List.mem_append, Sigma.mk.injEq, reduceCtorEq, false_and, false_or,
    List.not_mem_nil, or_false]
  exact ⟨hpart, _, _, rfl, hiff⟩

end Multipart

/-- What the three builders pass on is the text that they built exactly if it fits, or, for a part, if
no client has the room for it. -/
theorem builders_whole_iff :
    (∀ resource host contentType contentLength,
      (httpSendRequestHeaders resource host contentType contentLength).Whole
          (requestText resource host contentType contentLength) ↔
        (requestText resource host contentType contentLength).length < 2048) ∧
    (∀ mimetype, (httpSendStreamingHeaders mimetype).Whole (streamingText mimetype) ↔
      (streamingText mimetype).length < 2048) ∧
    ∀ (part : Part T) (es : List (Event (Streaming.Act.Answer (T := T)))),
      Does (Streaming.streamerSendMultipart dt part) es () →
      ((∀ b p r, ⟨.writeHeader b p, r⟩ ∈ es → (multipartHeader dt p).Whole (p.header dt)) ↔
        (part.header dt).length < 512 ∨
          ∀ x, ∀ totalLen : ℤ, es.head? = some ⟨.sum x, totalLen⟩ →
            ∀ b, ∀ space : ℤ, ⟨.spaceAvailable b, space⟩ ∈ es → space ≤ totalLen) := by
  refine ⟨fun _ _ _ _ => ?_, fun _ => ?_, fun part es h => ?_⟩
  · exact sent_whole_iff (requestText_ne_nil _ _ _ _) (by decide)
  · exact sent_whole_iff (streamingText_ne_nil _) (by decide)
  · obtain ⟨hpart, x, totalLen, hhead, hiff⟩ := streamerSendMultipart_writes h
    have hwhole : (multipartHeader dt part).Whole (part.header dt) ↔ (part.header dt).length < 512 :=
      sent_whole_iff (header_ne_nil dt part) (by decide)
    constructor
    · intro hall
      by_contra hnot
      push Not at hnot
      obtain ⟨hlong, x', totalLen', hhead', b, space, hmem, hlt⟩ := hnot
      rw [hhead, Option.some_inj] at hhead'
      cases hhead'
      obtain ⟨b', r, hwrite⟩ := hiff.2 ⟨b, space, hmem, hlt⟩
      exact absurd (hwhole.1 (hall b' part r hwrite)) (not_lt.2 hlong)
    · rintro (hfits | hnone) b p r hmem
      · rw [hpart b p r hmem]
        exact hwhole.2 hfits
      · rw [hpart b p r hmem] at hmem
        obtain ⟨b', space, hmem', hlt⟩ := hiff.1 ⟨b, r, hmem⟩
        exact absurd (hnone x totalLen hhead b' space hmem') (not_le.2 hlt)

def plainText : DoubleText Unit := ⟨fun _ => ascii "0.000000", fun _ => (), fun _ => true⟩

def smallPart : Part Unit := ⟨[1], ascii "image/png", ()⟩

def smallPartSent : List (Event (Streaming.Act.Answer (T := Unit))) :=
  [⟨.sum ((smallPart.header plainText).length + smallPart.data.length), (86 : ℤ)⟩,
    ⟨.lockClients, ()⟩, ⟨.getClients smallPart, [0]⟩, ⟨.spaceAvailable 0, (1000 : ℤ)⟩,
    ⟨.writeHeader 0 smallPart, ()⟩, ⟨.writeData 0 smallPart, ()⟩, ⟨.unlockClients, ()⟩]

theorem smallPart_does :
    Does (Streaming.streamerSendMultipart plainText smallPart) smallPartSent () := by
  refine ⟨(86 : ℤ), _, rfl, (), _, rfl, [0], _, rfl, ?_⟩
  refine ⟨(1000 : ℤ), _, rfl, ?_⟩
  change Does (.act (Streaming.Act.writeHeader 0 smallPart) fun _ =>
    .act (Streaming.Act.writeData 0 smallPart) fun _ =>
    .act Streaming.Act.unlockClients .ret) _ _
  exact ⟨(), _, rfl, (), _, rfl, (), _, rfl, rfl, rfl⟩

theorem smallHeader_whole : (multipartHeader plainText smallPart).Whole (smallPart.header plainText) :=
  ((builders_whole_iff plainText).2.2 smallPart smallPartSent smallPart_does).2 (.inl (by decide))
    0 smallPart () (by simp [smallPartSent])

/-- The media type alone fills the buffer. -/
theorem long_mimetype_sent_beyond :
    ¬(httpSendStreamingHeaders (List.replicate 2048 97)).Whole
      (streamingText (List.replicate 2048 97)) := by
  rw [httpSendStreamingHeaders, sent_whole_iff (streamingText_ne_nil _) (by decide), streamingText]
  simp only [List.length_append, List.length_replicate]
  omega

end Rcom.Http
