import Rcom.Lib.FirstMatch
import Rcom.Libc
import Mathlib.Data.List.Basic

/-!
# HTTP headers (http.c, request.c, messagelink.c)

Requests and links take the headers that the HTTP parser reports in the same way: the parts of
a name, then the parts of its value, and the header is stored when the next one starts or
when the headers end.
-/

namespace Rcom.Http
open Rcom.Lib

structure HttpHeader where
  name : CStr
  value : CStr
deriving DecidableEq

/-- The C string in a membuf. -/
def cstr (membuf : Bytes) : CStr := membuf.takeWhile (· ≠ 0)

def appendZero (membuf : Bytes) : Bytes := membuf ++ [0]

theorem cstr_appendZero {membuf : Bytes} (h : 0 ∉ membuf) : cstr (appendZero membuf) = membuf := by
  have hall : ∀ b ∈ membuf, (fun b : UInt8 => decide (b ≠ 0)) b = true := by
    intro b hb
    exact decide_eq_true fun h0 => h (h0 ▸ hb)
  rw [cstr, appendZero, List.takeWhile_append_of_pos hall]
  simp

def getHeader (headers : List HttpHeader) (name : CStr) : Option HttpHeader :=
  headers.find? (name = ·.name)

def getHeaderValue (headers : List HttpHeader) (name : CStr) : Option CStr :=
  (getHeader headers name).map (·.value)

def addHeader (headers : List HttpHeader) (key value : CStr) : List HttpHeader :=
  ⟨key, value⟩ :: headers

def setHeader (headers : List HttpHeader) (key value : CStr) : List HttpHeader :=
  match getHeader headers key with
  | none => addHeader headers key value
  | some _ => updateFirst (key = ·.name) ({ · with value := value }) headers

theorem getHeaderValue_cons (header : HttpHeader) (headers : List HttpHeader) (name : CStr) :
    getHeaderValue (header :: headers) name =
      if name = header.name then some header.value else getHeaderValue headers name := by
  by_cases h : name = header.name <;> simp [getHeaderValue, getHeader, h]

theorem getHeaderValue_updateFirst {headers : List HttpHeader} {key : CStr} (value name : CStr)
    (h : (getHeaderValue headers key).isSome) :
    getHeaderValue (updateFirst (key = ·.name) ({ · with value := value }) headers) name =
      if name = key then some value else getHeaderValue headers name := by
  induction headers with
  | nil => cases h
  | cons header headers ih =>
    rw [getHeaderValue_cons] at h
    by_cases hkey : key = header.name
    · subst hkey
      simp only [updateFirst, decide_true, if_true, getHeaderValue_cons]
      split_ifs <;> rfl
    · rw [if_neg hkey] at h
      simp only [updateFirst, hkey, decide_false, Bool.false_eq_true, if_false,
        getHeaderValue_cons, ih h]
      by_cases hname : name = header.name
      · have hne : name ≠ key := fun h => hkey (h ▸ hname)
        simp [hname, hname ▸ hne]
      · simp [hname]

theorem getHeaderValue_setHeader (headers : List HttpHeader) (key value name : CStr) :
    getHeaderValue (setHeader headers key value) name =
      if name = key then some value else getHeaderValue headers name := by
  rw [setHeader]
  cases h : getHeader headers key with
  | none => exact getHeaderValue_cons _ _ _
  | some header => exact getHeaderValue_updateFirst value name (by simp [getHeaderValue, h])

/-! ## What the parser reports -/

inductive ParserHeaderState where
  | headerNew
  | headerField
  | headerValue
deriving DecidableEq

structure HeaderReader where
  headers : List HttpHeader := []
  headerName : Bytes := []
  headerValue : Bytes := []
  parserHeaderState : ParserHeaderState := .headerNew
deriving DecidableEq

namespace HeaderReader

/-- The header in the buffers is stored, unless its name or its value is empty. -/
def store (r : HeaderReader) : HeaderReader :=
  if r.headerName.length > 0 ∧ r.headerValue.length > 0 then
    { r with
      headerName := appendZero r.headerName
      headerValue := appendZero r.headerValue
      headers := setHeader r.headers (cstr (appendZero r.headerName))
        (cstr (appendZero r.headerValue)) }
  else r

def onHeaderField (data : Bytes) (r : HeaderReader) : HeaderReader :=
  if r.parserHeaderState = .headerNew ∨ r.parserHeaderState = .headerValue then
    { r.store with headerName := data, headerValue := [], parserHeaderState := .headerField }
  else { r with headerName := r.headerName ++ data }

def onHeaderValue (data : Bytes) (r : HeaderReader) : HeaderReader :=
  if r.parserHeaderState = .headerNew then r
  else { r with headerValue := r.headerValue ++ data, parserHeaderState := .headerValue }

theorem store_state (r : HeaderReader) : r.store.parserHeaderState = r.parserHeaderState := by
  unfold store
  split <;> rfl

theorem onHeaderField_state (data : Bytes) (r : HeaderReader) :
    (r.onHeaderField data).parserHeaderState = .headerField := by
  unfold onHeaderField
  split
  · rfl
  · next hstate =>
    cases h : r.parserHeaderState with
    | headerNew => exact absurd (.inl h) hstate
    | headerValue => exact absurd (.inr h) hstate
    | headerField => rfl

end HeaderReader

/-- The callbacks of the parser, without those that no setting asks for. -/
inductive Callback where
  | url (data : Bytes)
  | headerField (data : Bytes)
  | headerValue (data : Bytes)
  | headersComplete
deriving DecidableEq

/-- One `recv` and what `http_parser_execute` makes of it: the callbacks, the number of bytes it has
parsed, and the status code so far. -/
structure Received where
  received : ℤ
  callbacks : List Callback
  parsed : ℤ
  statusCode : ℤ

def HeaderReader.hear (r : HeaderReader) : Callback → HeaderReader
  | .url _ => r
  | .headerField data => r.onHeaderField data
  | .headerValue data => r.onHeaderValue data
  | .headersComplete => r.store

/-- The headers are reported one after the other, each name and each value in some parts. -/
inductive Fragments : List HttpHeader → List Callback → Prop where
  | nil : Fragments [] []
  | cons {h : HttpHeader} {hs : List HttpHeader} {cs : List Callback} {names values : List Bytes} :
      names ≠ [] → names.flatten = h.name → values ≠ [] → values.flatten = h.value →
      Fragments hs cs →
      Fragments (h :: hs) (names.map .headerField ++ (values.map .headerValue ++ cs))

theorem Fragments.mem {hs : List HttpHeader} {cs : List Callback} (h : Fragments hs cs)
    {c : Callback} (hc : c ∈ cs) :
    (∃ data, c = .headerField data) ∨ ∃ data, c = .headerValue data := by
  induction h with
  | nil => simp at hc
  | cons _ _ _ _ _ ih =>
    simp only [List.mem_append, List.mem_map] at hc
    rcases hc with ⟨data, -, rfl⟩ | ⟨data, -, rfl⟩ | hc
    · exact .inl ⟨data, rfl⟩
    · exact .inr ⟨data, rfl⟩
    · exact ih hc

def HttpHeader.Plain (h : HttpHeader) : Prop :=
  h.name ≠ [] ∧ 0 ∉ h.name ∧ h.value ≠ [] ∧ 0 ∉ h.value

instance (h : HttpHeader) : Decidable h.Plain := inferInstanceAs (Decidable (_ ∧ _ ∧ _ ∧ _))

def setHeaders (headers : List HttpHeader) (hs : List HttpHeader) : List HttpHeader :=
  hs.foldl (fun headers h => setHeader headers h.name h.value) headers

theorem getHeaderValue_setHeaders_of_notMem {hs : List HttpHeader} (headers : List HttpHeader)
    {name : CStr} (h : name ∉ hs.map (·.name)) :
    getHeaderValue (setHeaders headers hs) name = getHeaderValue headers name := by
  induction hs generalizing headers with
  | nil => rfl
  | cons q hs ih =>
    simp only [List.map_cons, List.mem_cons, not_or] at h
    exact (ih _ h.2).trans (by rw [getHeaderValue_setHeader, if_neg h.1])

theorem getHeaderValue_setHeaders {hs : List HttpHeader} (headers : List HttpHeader)
    (hnodup : (hs.map (·.name)).Nodup) {h : HttpHeader} (hh : h ∈ hs) :
    getHeaderValue (setHeaders headers hs) h.name = some h.value := by
  induction hs generalizing headers with
  | nil => simp at hh
  | cons q hs ih =>
    rw [List.map_cons, List.nodup_cons] at hnodup
    rcases List.mem_cons.1 hh with rfl | hh
    · exact (getHeaderValue_setHeaders_of_notMem _ hnodup.1).trans
        (by rw [getHeaderValue_setHeader, if_pos rfl])
    · exact ih _ hnodup.2 hh

namespace HeaderReader
variable {r : HeaderReader}

theorem hear_names (names : List Bytes) (h : r.parserHeaderState = .headerField) :
    (names.map Callback.headerField).foldl hear r =
      { r with headerName := r.headerName ++ names.flatten } := by
  induction names generalizing r with
  | nil => simp
  | cons name names ih =>
    rw [List.map_cons, List.foldl_cons, ih (by simp [hear, onHeaderField, h])]
    simp [hear, onHeaderField, h]

theorem hear_values (values : List Bytes) (h : r.parserHeaderState = .headerValue) :
    (values.map Callback.headerValue).foldl hear r =
      { r with headerValue := r.headerValue ++ values.flatten } := by
  induction values generalizing r with
  | nil => simp
  | cons value values ih =>
    rw [List.map_cons, List.foldl_cons, ih (by simp [hear, onHeaderValue, h])]
    simp [hear, onHeaderValue, h]

/-- A header that is reported in parts waits in the buffers, and the one before it is stored. -/
theorem hear_header {names values : List Bytes} (hnames : names ≠ []) (hvalues : values ≠ [])
    (h : r.parserHeaderState ≠ .headerField) :
    (names.map Callback.headerField ++ values.map Callback.headerValue).foldl hear r =
      { r.store with
        headerName := names.flatten
        headerValue := values.flatten
        parserHeaderState := .headerValue } := by
  obtain ⟨name, names, rfl⟩ := List.exists_cons_of_ne_nil hnames
  obtain ⟨value, values, rfl⟩ := List.exists_cons_of_ne_nil hvalues
  have hfirst : r.hear (.headerField name) =
      { r.store with headerName := name, headerValue := [], parserHeaderState := .headerField } := by
    rw [hear, onHeaderField, if_pos]
    cases hs : r.parserHeaderState <;> simp_all
  rw [List.foldl_append, List.map_cons, List.foldl_cons, hfirst, hear_names names rfl,
    List.map_cons, List.foldl_cons]
  have hvalue : hear { r.store with
      headerName := name ++ names.flatten
      headerValue := []
      parserHeaderState := .headerField } (.headerValue value) =
      { r.store with
        headerName := name ++ names.flatten
        headerValue := value
        parserHeaderState := .headerValue } := by
    simp [hear, onHeaderValue]
  rw [hvalue, hear_values values rfl]
  simp

theorem store_plain {h : HttpHeader} (hplain : h.Plain) (hname : r.headerName = h.name)
    (hvalue : r.headerValue = h.value) : r.store.headers = setHeader r.headers h.name h.value := by
  obtain ⟨hn, hn0, hv, hv0⟩ := hplain
  have hlen : r.headerName.length > 0 ∧ r.headerValue.length > 0 := by
    rw [hname, hvalue]
    exact ⟨List.length_pos_iff.2 hn, List.length_pos_iff.2 hv⟩
  rw [store, if_pos hlen, hname, hvalue]
  simp only [cstr_appendZero hn0, cstr_appendZero hv0]

/-- What is reported is stored, in order, after what was still in the buffers. -/
theorem hear_fragments {hs : List HttpHeader} {cs : List Callback} (h : Fragments hs cs)
    (hplain : ∀ h ∈ hs, h.Plain) (hstate : r.parserHeaderState ≠ .headerField) :
    (cs.foldl hear r).store.headers = setHeaders r.store.headers hs := by
  induction h generalizing r with
  | nil => rfl
  | @cons h hs cs names values hnames hname hvalues hvalue hcs ih =>
    simp only [List.mem_cons, forall_eq_or_imp] at hplain
    rw [← List.append_assoc, List.foldl_append, hear_header hnames hvalues hstate,
      ih hplain.2 (by simp), store_plain hplain.1 hname hvalue]
    rfl

end HeaderReader

/-- The parser takes everything and reports the URL, the headers and their end, in as many calls as
it is given bytes. -/
structure Reports (url : Bytes) (hs : List HttpHeader) (statusCode : ℤ) (reads : List Received) :
    Prop where
  taken : ∀ read ∈ reads, 0 < read.received ∧ read.parsed = read.received
  callbacks : ∃ (urls : List Bytes) (cs : List Callback), urls.flatten = url ∧ Fragments hs cs ∧
    reads.flatMap (·.callbacks) = urls.map .url ++ (cs ++ [.headersComplete])
  last : ∃ front read, reads = front ++ [read] ∧ read.statusCode = statusCode ∧
    ∀ r ∈ front, Callback.headersComplete ∉ r.callbacks

def bytewise (hs : List HttpHeader) : List Callback :=
  hs.flatMap fun h => (h.name.map ([·])).map .headerField ++ (h.value.map ([·])).map .headerValue

theorem fragments_bytewise {hs : List HttpHeader} (hplain : ∀ h ∈ hs, h.Plain) :
    Fragments hs (bytewise hs) := by
  induction hs with
  | nil => exact .nil
  | cons h hs ih =>
    simp only [List.mem_cons, forall_eq_or_imp] at hplain
    obtain ⟨⟨hname, -, hvalue, -⟩, hplain⟩ := hplain
    have hflat : ∀ bs : Bytes, (bs.map ([·])).flatten = bs := by
      intro bs
      induction bs with
      | nil => rfl
      | cons b bs ih => rw [List.map_cons, List.flatten_cons, ih]; rfl
    rw [bytewise, List.flatMap_cons, List.append_assoc]
    exact .cons (by simpa using hname) (hflat _) (by simpa using hvalue) (hflat _) (ih hplain)

def readEach (statusCode : ℤ) (cs : List Callback) : List Received :=
  cs.map fun c => ⟨1, [c], 1, statusCode⟩

theorem flatMap_readEach (statusCode : ℤ) (cs : List Callback) :
    (readEach statusCode cs).flatMap (·.callbacks) = cs := by
  induction cs with
  | nil => rfl
  | cons c cs ih =>
    rw [readEach, List.map_cons, List.flatMap_cons, ← readEach, ih]
    rfl

theorem reports_readEach {hs : List HttpHeader} (hplain : ∀ h ∈ hs, h.Plain) (urls : List Bytes)
    (statusCode : ℤ) :
    Reports urls.flatten hs statusCode
      (readEach statusCode (urls.map .url ++ (bytewise hs ++ [.headersComplete]))) where
  taken := by
    intro read hread
    obtain ⟨c, -, rfl⟩ := List.mem_map.1 hread
    exact ⟨one_pos, rfl⟩
  callbacks := ⟨urls, bytewise hs, rfl, fragments_bytewise hplain, flatMap_readEach _ _⟩
  last := by
    refine ⟨readEach statusCode (urls.map .url ++ bytewise hs),
      ⟨1, [.headersComplete], 1, statusCode⟩, ?_, rfl, ?_⟩
    · rw [readEach, readEach, ← List.append_assoc, List.map_append]
      rfl
    · intro r hr
      obtain ⟨c, hc, rfl⟩ := List.mem_map.1 hr
      rw [List.mem_singleton]
      rcases List.mem_append.1 hc with hc | hc
      · obtain ⟨url, -, rfl⟩ := List.mem_map.1 hc
        simp
      · rcases (fragments_bytewise hplain).mem hc with ⟨data, rfl⟩ | ⟨data, rfl⟩ <;> simp

/-! ## The text of a message -/

def crlf : Bytes := [13, 10]

def headerText (h : HttpHeader) : Bytes := h.name ++ [58, 32] ++ h.value ++ crlf

def messageText (start : Bytes) (hs : List HttpHeader) : Bytes :=
  start ++ crlf ++ hs.flatMap headerText ++ crlf

/-- The name up to the colon, the value without the blanks before it and the end of the line. -/
def headerOfLine (line : Bytes) : HttpHeader where
  name := line.takeWhile (· ≠ 58)
  value := ((line.dropWhile (· ≠ 58)).tail.dropWhile (· = 32)).takeWhile (· ≠ 13)

/-- The headers in a text: the lines after the first one, up to an empty line. -/
def sentHeaders (text : Bytes) : List HttpHeader :=
  ((text.splitOn 10).tail.takeWhile (· ≠ [13])).map headerOfLine

structure HttpHeader.Inline (h : HttpHeader) : Prop where
  name : ∀ c ∈ h.name, c ≠ 10 ∧ c ≠ 13 ∧ c ≠ 58
  value : ∀ c ∈ h.value, c ≠ 10 ∧ c ≠ 13
  start : ∀ c ∈ h.value.head?, c ≠ 32

theorem HttpHeader.inline_of {name value : CStr}
    (hname : (name.all fun c => c ≠ 10 ∧ c ≠ 13 ∧ c ≠ 58) = true)
    (hvalue : ∀ c ∈ value, c ≠ 10 ∧ c ≠ 13 ∧ c ≠ 32) : HttpHeader.Inline ⟨name, value⟩ where
  name := by simpa using hname
  value c hc := ⟨(hvalue c hc).1, (hvalue c hc).2.1⟩
  start c hc := (hvalue c (List.mem_of_mem_head? hc)).2.2

theorem HttpHeader.inline_text {name value : CStr}
    (hname : (name.all fun c => c ≠ 10 ∧ c ≠ 13 ∧ c ≠ 58) = true)
    (hvalue : (value.all fun c => c ≠ 10 ∧ c ≠ 13 ∧ c ≠ 32) = true) :
    HttpHeader.Inline ⟨name, value⟩ := by
  apply HttpHeader.inline_of hname
  simpa using hvalue

theorem headerOfLine_text {h : HttpHeader} (hline : h.Inline) :
    headerOfLine (h.name ++ [58, 32] ++ h.value ++ [13]) = h := by
  have hname : ∀ c ∈ h.name, (fun c : UInt8 => decide (c ≠ 58)) c = true := by
    intro c hc
    simpa using (hline.name c hc).2.2
  have hvalue : ∀ c ∈ h.value, (fun c : UInt8 => decide (c ≠ 13)) c = true := by
    intro c hc
    simpa using (hline.value c hc).2
  have hblank : (h.value ++ [13]).dropWhile (fun c : UInt8 => decide (c = 32)) = h.value ++ [13] := by
    cases hv : h.value with
    | nil => rfl
    | cons c cs =>
      have hc : c ≠ 32 := hline.start c (by simp [hv])
      simp [hc]
  have htext : h.name ++ [58, 32] ++ h.value ++ [13] = h.name ++ 58 :: 32 :: (h.value ++ [13]) := by
    simp
  rw [htext, headerOfLine, List.takeWhile_append_of_pos hname, List.dropWhile_append_of_pos hname]
  simp only [ne_eq, not_true_eq_false, decide_false, Bool.false_eq_true, not_false_eq_true,
    List.takeWhile_cons_of_neg, List.dropWhile_cons_of_neg, List.append_nil, List.tail_cons,
    decide_true, List.dropWhile_cons_of_pos, hblank]
  rw [List.takeWhile_append_of_pos hvalue]
  simp

theorem headerLines {hs : List HttpHeader} (hline : ∀ h ∈ hs, h.Inline) :
    (((hs.flatMap headerText ++ crlf).splitOn 10).takeWhile (· ≠ [13])).map headerOfLine = hs := by
  induction hs with
  | nil => decide
  | cons h hs ih =>
    simp only [List.mem_cons, forall_eq_or_imp] at hline
    have hbody : 10 ∉ h.name ++ [58, 32] ++ h.value ++ [13] := by
      simp only [List.mem_append, not_or]
      exact ⟨⟨⟨fun hc => (hline.1.name _ hc).1 rfl, by decide⟩,
        fun hc => (hline.1.value _ hc).1 rfl⟩, by decide⟩
    have htext : (h :: hs).flatMap headerText ++ crlf =
        (h.name ++ [58, 32] ++ h.value ++ [13]) ++ 10 :: (hs.flatMap headerText ++ crlf) := by
      simp [headerText, crlf]
    have hne : h.name ++ [58, 32] ++ h.value ++ [13] ≠ [13] := by
      intro heq
      have hlen := congrArg List.length heq
      simp only [List.length_append, List.length_cons, List.length_nil] at hlen
      omega
    rw [htext, List.splitOn_append_cons_self_of_not_mem hbody,
      List.takeWhile_cons_of_pos (by exact decide_eq_true hne), List.map_cons, headerOfLine_text hline.1,
      ih hline.2]

theorem sentHeaders_messageText {start : Bytes} {hs : List HttpHeader} (hstart : 10 ∉ start)
    (hline : ∀ h ∈ hs, h.Inline) : sentHeaders (messageText start hs) = hs := by
  have htext : messageText start hs = (start ++ [13]) ++ 10 :: (hs.flatMap headerText ++ crlf) := by
    simp [messageText, crlf]
  rw [sentHeaders, htext, List.splitOn_append_cons_self_of_not_mem (by simpa using hstart),
    List.tail_cons, headerLines hline]

end Rcom.Http
