import Rcom.Handshake
import Rcom.RequestParsing
import Rcom.ResponseParsing

/-!
# The table of headers (request.c, response.c, messagelink.c)

A request, a response and a link hear of the same headers, cut into pieces by the parser in any way.
Each of them stores a header when the next one begins or the headers end, unless its value is empty.
-/

namespace Rcom.Http
open Rcom.Lib

/-- The value of the last header of this name that has one. -/
def lastValue (hs : List HttpHeader) (name : CStr) : Option CStr :=
  ((hs.filter fun h => h.name = name ∧ h.value ≠ []).getLast?).map (·.value)

/-- A header as the parser reports it, with or without a value. -/
def HttpHeader.Textual (h : HttpHeader) : Prop := h.name ≠ [] ∧ 0 ∉ h.name ∧ 0 ∉ h.value

theorem lastValue_cons (h : HttpHeader) (hs : List HttpHeader) (name : CStr) :
    lastValue (h :: hs) name =
      (lastValue hs name).or (if h.name = name ∧ h.value ≠ [] then some h.value else none) := by
  unfold lastValue
  rw [List.filter_cons]
  split_ifs with hkeep hname hname
  · rw [List.getLast?_cons]
    cases (hs.filter fun h => h.name = name ∧ h.value ≠ []).getLast? <;> rfl
  · exact absurd (of_decide_eq_true hkeep) hname
  · exact absurd (decide_eq_true hname) hkeep
  · rw [Option.or_none]

theorem getHeaderValue_setHeaders_last (headers hs : List HttpHeader) (name : CStr) :
    getHeaderValue (setHeaders headers (hs.filter (·.value ≠ []))) name =
      (lastValue hs name).or (getHeaderValue headers name) := by
  induction hs generalizing headers with
  | nil => rfl
  | cons h hs ih =>
    rw [lastValue_cons, List.filter_cons]
    by_cases hvalue : h.value = []
    · rw [if_neg (by simp [hvalue]), ih]
      simp [hvalue]
    · rw [if_pos (by simp [hvalue])]
      change getHeaderValue (setHeaders (setHeader headers h.name h.value) _) name = _
      rw [ih, getHeaderValue_setHeader, Option.or_assoc]
      congr 1
      by_cases hname : name = h.name
      · simp [hname, hvalue]
      · simp [hname, Ne.symm hname]

namespace HeaderReader
variable {r : HeaderReader}

theorem store_empty (hvalue : r.headerValue = []) : r.store = r := by
  rw [store, if_neg (by simp [hvalue])]

theorem hear_textual {hs : List HttpHeader} {cs : List Callback} (h : Fragments hs cs)
    (htext : ∀ h ∈ hs, h.Textual) (hstate : r.parserHeaderState ≠ .headerField) :
    (cs.foldl hear r).store.headers =
      setHeaders r.store.headers (hs.filter (·.value ≠ [])) := by
  induction h generalizing r with
  | nil => rfl
  | @cons h hs cs names values hnames hname hvalues hvalue hcs ih =>
    simp only [List.mem_cons, forall_eq_or_imp] at htext
    obtain ⟨⟨hname0, hnul, hnul'⟩, htext⟩ := htext
    rw [← List.append_assoc, List.foldl_append, hear_header hnames hvalues hstate, ih htext (by simp),
      List.filter_cons]
    by_cases hempty : h.value = []
    · rw [if_neg (by simp [hempty]), store_empty (hvalue.trans hempty)]
    · rw [if_pos (by simp [hempty]), store_plain ⟨hname0, hnul, hempty, hnul'⟩ hname hvalue]
      rfl

theorem table_eq {hs : List HttpHeader} {cs : List Callback} (h : Fragments hs cs)
    (htext : ∀ h ∈ hs, h.Textual) (name : CStr) :
    getHeaderValue (cs.foldl hear {}).store.headers name = lastValue hs name := by
  rw [hear_textual h htext (by simp), getHeaderValue_setHeaders_last]
  exact Option.or_none

end HeaderReader

/-! ## The three objects -/

/-- The same callback with what the parser knows when the headers are complete. -/
def Callback.report (method : ParserMethod) (statusCode : ℤ) : Callback → ParserCallback
  | .url data => .url data
  | .headerField data => .headerField data
  | .headerValue data => .headerValue data
  | .headersComplete => .headersComplete method statusCode

/-- The callbacks for a URL and headers that come in pieces. -/
def reported (urls : List Bytes) (cs : List Callback) : List Callback :=
  urls.map .url ++ (cs ++ [.headersComplete])

def hears {σ : Type} (callback : σ → ParserCallback → Exec (ℤ × σ)) :
    List ParserCallback → σ → Exec (List ℤ × σ)
  | [], s => some ([], s)
  | c :: cs, s => do
    let (answer, s) ← callback s c
    let (answers, s) ← hears callback cs s
    pure (answer :: answers, s)

section Hears
variable {σ : Type} {callback : σ → ParserCallback → Exec (ℤ × σ)} {s t u : σ}

theorem hears_cons {c : ParserCallback} {cs : List ParserCallback} {answer : ℤ} {answers : List ℤ}
    (h : callback s c = some (answer, t)) (hcs : hears callback cs t = some (answers, u)) :
    hears callback (c :: cs) s = some (answer :: answers, u) := by
  simp [hears, h, hcs]

theorem hears_append {cs cs' : List ParserCallback} {answers answers' : List ℤ}
    (h : hears callback cs s = some (answers, t)) (h' : hears callback cs' t = some (answers', u)) :
    hears callback (cs ++ cs') s = some (answers ++ answers', u) := by
  induction cs generalizing s answers with
  | nil =>
    cases h
    exact h'
  | cons c cs ih =>
    simp only [hears, Option.bind_eq_bind, Option.bind_eq_some_iff, Option.pure_def,
      Option.some.injEq, Prod.exists, Prod.mk.injEq] at h
    obtain ⟨answer, s₁, hc, answers₁, s₂, hcs, rfl, rfl⟩ := h
    exact hears_cons hc (ih hcs)

/-- Callbacks that answer 0 and do what `f` says. -/
theorem hears_foldl {I : σ → Prop} {report : Callback → ParserCallback} {f : σ → Callback → σ}
    (hstep : ∀ s c, I s → c ≠ .headersComplete → callback s (report c) = some (0, f s c) ∧ I (f s c))
    {cs : List Callback} (hcs : .headersComplete ∉ cs) (hs : I s) :
    hears callback (cs.map report) s = some (cs.map fun _ => 0, cs.foldl f s) ∧ I (cs.foldl f s) := by
  induction cs generalizing s with
  | nil => exact ⟨rfl, hs⟩
  | cons c cs ih =>
    simp only [List.mem_cons, not_or] at hcs
    obtain ⟨hc, hnext⟩ := hstep s c hs (Ne.symm hcs.1)
    obtain ⟨hrest, hlast⟩ := ih hcs.2 hnext
    exact ⟨hears_cons hc hrest, hlast⟩

end Hears

def Callback.urlData : Callback → Bytes
  | .url data => data
  | _ => []

def RequestT.hear (r : RequestT) (c : Callback) : RequestT :=
  { r with reader := r.reader.hear c, uriBuffer := r.uriBuffer ++ c.urlData }

def ResponseT.hear (r : ResponseT) (c : Callback) : ResponseT :=
  { r with reader := r.reader.hear c }

section Objects
variable (method : ParserMethod) (statusCode : ℤ) {c : Callback}

theorem requestCallback_hear {r : RequestT} (hr : r.released = false) (hc : c ≠ .headersComplete) :
    RequestT.requestCallback r (c.report method statusCode) = some (0, r.hear c) := by
  obtain ⟨_, _, _, _, _, _, _, _, _⟩ := r
  cases hr
  cases c with
  | url data =>
    simp [RequestT.requestCallback, Callback.report, RequestT.requestOnUrl, RequestT.hear,
      HeaderReader.hear, Callback.urlData]
  | headerField data =>
    simp [RequestT.requestCallback, Callback.report, RequestT.requestOnHeaderField, RequestT.hear,
      HeaderReader.hear, Callback.urlData]
  | headerValue data =>
    simp only [RequestT.requestCallback, Callback.report, RequestT.requestOnHeaderValue,
      RequestT.hear, HeaderReader.hear, HeaderReader.onHeaderValue, Callback.urlData]
    split_ifs <;> simp_all
  | headersComplete => exact absurd rfl hc

theorem foldl_requestHear (cs : List Callback) (r : RequestT) :
    cs.foldl RequestT.hear r = { r with
      reader := cs.foldl HeaderReader.hear r.reader
      uriBuffer := r.uriBuffer ++ cs.flatMap Callback.urlData } := by
  induction cs generalizing r with
  | nil => simp
  | cons c cs ih => simp [ih, RequestT.hear]

variable {U : Type} (handlers : ResponseHandlers U)

theorem responseCallback_hear {r : ResponseT} {userdata : U} (hr : r.released = false)
    (hc : c ≠ .headersComplete) :
    ResponseT.responseCallback handlers (r, userdata) (c.report method statusCode) =
      some (0, r.hear c, userdata) := by
  obtain ⟨_, _, _, _, _, _, _⟩ := r
  cases hr
  cases c with
  | url data => rfl
  | headerField data =>
    simp [ResponseT.responseCallback, Callback.report, ResponseT.responseOnHeaderField,
      ResponseT.hear, HeaderReader.hear]
  | headerValue data =>
    simp only [ResponseT.responseCallback, Callback.report, ResponseT.responseOnHeaderValue,
      ResponseT.hear, HeaderReader.hear, HeaderReader.onHeaderValue]
    split_ifs <;> simp_all
  | headersComplete => exact absurd rfl hc

theorem foldl_responseHear (cs : List Callback) (r : ResponseT) (userdata : U) :
    cs.foldl (fun s c => (s.1.hear c, s.2)) (r, userdata) =
      ({ r with reader := cs.foldl HeaderReader.hear r.reader }, userdata) := by
  induction cs generalizing r with
  | nil => rfl
  | cons c cs ih => exact ih (r.hear c)

end Objects

/-- `uri` and `args` are the URL up to its first question mark and what is behind that. -/
def Splits (url : Bytes) (uri args : Option CStr) : Prop :=
  (∃ front back, url = front ++ 63 :: back ∧ 63 ∉ front ∧ uri = some front ∧ args = some back) ∨
    63 ∉ url ∧ uri = some url ∧ args = none

theorem splits_takeWhile (url : Bytes) :
    Splits url (some (url.takeWhile (· ≠ 63)))
      (if 63 ∈ url then some (url.dropWhile (· ≠ 63)).tail else none) := by
  induction url with
  | nil => exact .inr ⟨List.not_mem_nil, rfl, rfl⟩
  | cons c url ih =>
    by_cases hc : c = 63
    · subst hc
      exact .inl ⟨[], url, rfl, List.not_mem_nil, by simp, by simp⟩
    · have hmem : 63 ∈ c :: url ↔ 63 ∈ url := by simp [Ne.symm hc]
      simp only [hmem, List.takeWhile_cons, List.dropWhile_cons, hc, ne_eq, not_false_eq_true,
        decide_true, if_true]
      rcases ih with ⟨front, back, rfl, hfront, huri, hargs⟩ | ⟨hnone, huri, hargs⟩
      · refine .inl ⟨c :: front, back, rfl, by simp [Ne.symm hc, hfront], ?_, hargs⟩
        exact congrArg (Option.map (c :: ·)) huri
      · exact .inr ⟨mt hmem.1 hnone, congrArg (Option.map (c :: ·)) huri, hargs⟩

/-- The headers end: the last one is stored and the URL is split. -/
theorem requestOnHeadersComplete_splits {r : RequestT} (hr : r.released = false)
    (hurl : (0 : UInt8) ∉ r.uriBuffer) (hlen : r.uriBuffer.length ≤ 2047) (method : ParserMethod) :
    ∃ r', RequestT.requestOnHeadersComplete method r = some (0, r') ∧
      r'.reader = r.reader.store ∧ Splits r.uriBuffer r'.uri r'.arg := by
  have hfits : ¬(appendZero r.uriBuffer).length > 2048 := by
    rw [appendZero, List.length_append, List.length_singleton]
    omega
  have hcomplete := RequestT.requestOnHeadersComplete.eq_def method r
  rw [if_neg (by simp [hr])] at hcomplete
  dsimp only at hcomplete
  rw [if_neg hfits, cstr_appendZero hurl] at hcomplete
  exact ⟨_, hcomplete, rfl, splits_takeWhile r.uriBuffer⟩

theorem responseOnHeadersComplete_stores {U : Type} (handlers : ResponseHandlers U) {r : ResponseT}
    (hr : r.released = false) (statusCode : ℤ) (userdata : U) :
    ∃ answer r' userdata', ResponseT.responseOnHeadersComplete handlers statusCode r userdata =
      some (answer, r', userdata') ∧ r'.reader = r.reader.store := by
  unfold ResponseT.responseOnHeadersComplete
  rw [if_neg (by simp [hr])]
  dsimp only
  split
  · exact ⟨_, _, _, rfl, rfl⟩
  · exact ⟨_, _, _, rfl, rfl⟩

section Fresh
variable {hs : List HttpHeader} {cs : List Callback} {urls : List Bytes} {U : Type}

theorem fragments_not_complete (h : Fragments hs cs) :
    .headersComplete ∉ urls.map Callback.url ++ cs := by
  intro hmem
  rcases List.mem_append.1 hmem with hmem | hmem
  · obtain ⟨url, -, hurl⟩ := List.mem_map.1 hmem
    cases hurl
  · rcases h.mem hmem with ⟨data, hdata⟩ | ⟨data, hdata⟩ <;> cases hdata

theorem foldl_hear_urls (r : HeaderReader) (cs : List Callback) :
    (urls.map Callback.url ++ cs).foldl HeaderReader.hear r = cs.foldl HeaderReader.hear r := by
  induction urls with
  | nil => rfl
  | cons url urls ih => exact ih

theorem urlData_reported (h : Fragments hs cs) :
    (urls.map Callback.url ++ cs).flatMap Callback.urlData = urls.flatten := by
  have hnone : cs.flatMap Callback.urlData = [] := by
    rw [List.flatMap_eq_nil_iff]
    intro c hc
    rcases h.mem hc with ⟨data, rfl⟩ | ⟨data, rfl⟩ <;> rfl
  rw [List.flatMap_append, hnone, List.append_nil, List.flatMap_map]
  exact List.flatMap_id'

/-- A fresh request, a fresh response and a fresh link have the same table after headers that came
in any pieces, and the request has the two parts of the URL. -/
theorem tables_agree (hfragments : Fragments hs cs) (htext : ∀ h ∈ hs, h.Textual)
    (hurl : (0 : UInt8) ∉ urls.flatten) (hlen : urls.flatten.length ≤ 2047)
    (method : ParserMethod) (status statusCode : ℤ) (handlers : ResponseHandlers U) (userdata : U) :
    ∃ request response answers answers' userdata',
      hears RequestT.requestCallback ((reported urls cs).map (·.report method statusCode))
          RequestT.newRequest = some (answers, request) ∧
        hears (ResponseT.responseCallback handlers)
            ((reported urls cs).map (·.report method statusCode))
            (ResponseT.newResponse status, userdata) = some (answers', response, userdata') ∧
        (∀ answer ∈ answers, answer = 0) ∧ Splits urls.flatten request.uri request.arg ∧
        ∀ name, getHeaderValue request.reader.headers name = lastValue hs name ∧
          getHeaderValue response.reader.headers name = lastValue hs name ∧
          getHeaderValue ((reported urls cs).foldl messagelinkCallback newLink).reader.headers name =
            lastValue hs name := by
  have hmore : .headersComplete ∉ urls.map Callback.url ++ cs := fragments_not_complete hfragments
  have hreader : ((urls.map Callback.url ++ cs).foldl HeaderReader.hear {}).store.headers =
      (cs.foldl HeaderReader.hear {}).store.headers := by rw [foldl_hear_urls]
  have hcalls : (reported urls cs).map (·.report method statusCode) =
      (urls.map Callback.url ++ cs).map (·.report method statusCode) ++
        [.headersComplete method statusCode] := by
    rw [reported, ← List.append_assoc, List.map_append]
    rfl
  have hrequest := (hears_foldl (I := fun r : RequestT => r.released = false) (f := RequestT.hear)
    (fun _ _ hr hc => ⟨requestCallback_hear method statusCode hr hc, hr⟩) hmore
    (s := RequestT.newRequest) rfl).1
  have hresponse := (hears_foldl (I := fun s : ResponseT × U => s.1.released = false)
    (f := fun s c => (s.1.hear c, s.2))
    (fun _ _ hr hc => ⟨responseCallback_hear method statusCode handlers hr hc, hr⟩) hmore
    (s := (ResponseT.newResponse status, userdata)) rfl).1
  rw [foldl_requestHear] at hrequest
  rw [foldl_responseHear] at hresponse
  have hbuffer : RequestT.newRequest.uriBuffer ++
      (urls.map Callback.url ++ cs).flatMap Callback.urlData = urls.flatten :=
    urlData_reported hfragments
  rw [hbuffer] at hrequest
  obtain ⟨request, hend, hrequestReader, hsplits⟩ := requestOnHeadersComplete_splits (r := {
    RequestT.newRequest with
      reader := (urls.map Callback.url ++ cs).foldl HeaderReader.hear RequestT.newRequest.reader
      uriBuffer := urls.flatten }) rfl hurl hlen method
  obtain ⟨answer, response, userdata', hend', hresponseReader⟩ :=
    responseOnHeadersComplete_stores handlers (r := { ResponseT.newResponse status with
      reader := (urls.map Callback.url ++ cs).foldl HeaderReader.hear
        (ResponseT.newResponse status).reader }) rfl statusCode userdata
  refine ⟨request, response, (urls.map Callback.url ++ cs).map (fun _ => 0) ++ [0],
    (urls.map Callback.url ++ cs).map (fun _ => 0) ++ [answer], userdata', ?_, ?_, ?_, hsplits,
    fun name => ?_⟩
  · rw [hcalls]
    exact hears_append hrequest (hears_cons hend rfl)
  · rw [hcalls]
    exact hears_append hresponse (hears_cons hend' rfl)
  · intro answer hanswer
    rcases List.mem_append.1 hanswer with h | h
    · obtain ⟨-, -, rfl⟩ := List.mem_map.1 h
      rfl
    · exact List.mem_singleton.1 h
  · have htable := HeaderReader.table_eq hfragments htext name
    rw [← hreader] at htable
    refine ⟨?_, ?_, ?_⟩
    · rw [hrequestReader]
      exact htable
    · rw [hresponseReader]
      exact htable
    · rw [foldl_messagelinkCallback, reported, ← List.append_assoc, List.foldl_append]
      exact htable

end Fresh

def twiceHeaders : List HttpHeader := [⟨ascii "A", ascii "x"⟩, ⟨ascii "A", []⟩]

def twicePieces : List Callback :=
  [.headerField (ascii "A"), .headerValue [], .headerValue (ascii "x"), .headerField [],
    .headerField (ascii "A"), .headerValue []]

theorem twice_fragments : Fragments twiceHeaders twicePieces :=
  @Fragments.cons ⟨ascii "A", ascii "x"⟩ _ _ [ascii "A"] [[], ascii "x"] (by simp) rfl (by simp) rfl
    (@Fragments.cons ⟨ascii "A", []⟩ _ _ [[], ascii "A"] [[]] (by simp) rfl (by simp) rfl .nil)

theorem twice_table : ∃ request answers,
    hears RequestT.requestCallback
        ((reported [ascii "/a?", ascii "b"] twicePieces).map (·.report .get 0))
        RequestT.newRequest = some (answers, request) ∧
      getHeaderValue request.reader.headers (ascii "A") = some (ascii "x") := by
  have htext : ∀ h ∈ twiceHeaders, h.Textual := by
    simp only [twiceHeaders, List.mem_cons, List.not_mem_nil, or_false, forall_eq_or_imp, forall_eq]
    exact ⟨⟨by decide, by decide, by decide⟩, by decide, by decide, by decide⟩
  obtain ⟨request, _, answers, _, _, hrequest, -, -, -, htable⟩ :=
    @tables_agree _ _ [ascii "/a?", ascii "b"] Unit twice_fragments htext (by decide) (by decide)
      .get 200 0 ⟨none, none⟩ ()
  exact ⟨request, answers, hrequest, (htable (ascii "A")).1⟩

end Rcom.Http
