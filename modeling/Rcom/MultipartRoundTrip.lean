import Rcom.MultipartReturns
import Mathlib.Data.List.TakeWhile

/-!
# What was sent in parts is read in parts (streamer.c, multipart_parser.c)

The header of a part has four lines and an empty one. A payload may contain anything, also the text of
a header, since its length is known when it is read.
-/

namespace Rcom.MultipartParser
open Lib Lib.Decimal

variable {T : Type} {dt : DoubleText T} {cb : Callbacks T}

/-! ## Lines -/

def crlf : Bytes := [13, 10]

def headerOf (lines : List Bytes) : Bytes := lines.flatMap (· ++ crlf) ++ crlf

structure Line (l : Bytes) : Prop where
  ne_nil : l ≠ []
  plain : ∀ c ∈ l, c ≠ 10

theorem Line.of_all {l : Bytes} (hne : l ≠ []) (h : l.all (· != 10) = true) : Line l :=
  ⟨hne, by simpa using h⟩

theorem pushAll_append (w : Window) (s t : Bytes) :
    w.pushAll (s ++ t) = (w.pushAll s).pushAll t := List.foldl_append

theorem cut_plain (w : Window) {l : Bytes} (h : ∀ c ∈ l, c ≠ 10) : cut w l = none := by
  induction l generalizing w with
  | nil => rfl
  | cons c l ih =>
    have hne : w.push c ≠ endOfHeader := by
      intro heq
      exact h c List.mem_cons_self (congrArg (fun w : Window => w.2.2.2) heq)
    rw [cut, if_neg hne, ih _ fun c hc => h c (List.mem_cons_of_mem _ hc)]
    rfl

theorem cut_line (w : Window) {l : Bytes} (h : Line l) :
    cut w (l ++ crlf) = none ∧ ∃ a b, w.pushAll (l ++ crlf) = (a, b, 13, 10) := by
  obtain ⟨l', c, rfl⟩ : ∃ l' c, l = l' ++ [c] :=
    ⟨_, _, (List.dropLast_append_getLast h.ne_nil).symm⟩
  have hc : c ≠ 10 := h.plain c (by simp)
  obtain ⟨v, hv⟩ : ∃ v, v = w.pushAll l' := ⟨_, rfl⟩
  have hpush : w.pushAll (l' ++ [c]) = (v.2.1, v.2.2.1, v.2.2.2, c) := by
    rw [pushAll_append, ← hv]
    rfl
  refine ⟨?_, v.2.2.2, c, ?_⟩
  · rw [cut_append, cut_plain w h.plain, hpush]
    simp [cut, crlf, Window.push, endOfHeader, hc]
  · rw [pushAll_append, hpush]
    rfl

theorem cut_headerOf (w : Window) {lines : List Bytes} (hne : lines ≠ [])
    (h : ∀ l ∈ lines, Line l) (s : Bytes) :
    cut w (headerOf lines ++ s) = some (headerOf lines, s) := by
  induction lines generalizing w with
  | nil => exact absurd rfl hne
  | cons l lines ih =>
    obtain ⟨hnone, a, b, hw⟩ := cut_line w (h l List.mem_cons_self)
    have hsplit : headerOf (l :: lines) = (l ++ crlf) ++ headerOf lines := by
      simp [headerOf]
    rw [hsplit, List.append_assoc, cut_append, hnone, hw]
    by_cases hlines : lines = []
    · have hlast : cut (a, b, 13, 10) (headerOf [] ++ s) = some (headerOf [], s) := by
        simp [cut, headerOf, crlf, Window.push, endOfHeader]
      rw [hlines, hlast]
      rfl
    · rw [ih _ hlines fun l hl => h l (List.mem_cons_of_mem _ hl)]
      rfl

theorem scanLines_line {l : Bytes} (h : ∀ c ∈ l, c ≠ 10) (line : Bytes) (last : UInt8)
    (s : Bytes) : scanLines line last (l ++ (crlf ++ s)) = (line ++ l) :: skipFirst s := by
  induction l generalizing line last with
  | nil => simp [crlf, scanLines]
  | cons c l ih =>
    have hc : ¬(last = 13 ∧ c = 10) := fun hc => h c List.mem_cons_self hc.2
    rw [List.cons_append, scanLines, if_neg hc, ih fun c hc => h c (List.mem_cons_of_mem _ hc)]
    simp

theorem skipFirst_headerOf {lines : List Bytes} (h : ∀ l ∈ lines, Line l) :
    skipFirst (headerOf lines) = lines := by
  induction lines with
  | nil => rfl
  | cons l lines ih =>
    obtain ⟨hne, hplain⟩ := h l List.mem_cons_self
    obtain ⟨c, l', rfl⟩ := List.exists_cons_of_ne_nil hne
    have hsplit : headerOf ((c :: l') :: lines) = c :: (l' ++ (crlf ++ headerOf lines)) := by
      simp [headerOf]
    rw [hsplit, skipFirst, scanLines_line fun c hc => hplain c (List.mem_cons_of_mem _ hc),
      ih fun l hl => h l (List.mem_cons_of_mem _ hl)]
    rfl

theorem scanLines_headerOf {lines : List Bytes} (hne : lines ≠ []) (h : ∀ l ∈ lines, Line l) :
    scanLines [] 0 (headerOf lines) = lines := by
  obtain ⟨l, lines, rfl⟩ := List.exists_cons_of_ne_nil hne
  have hsplit : headerOf (l :: lines) = l ++ (crlf ++ headerOf lines) := by simp [headerOf]
  rw [hsplit, scanLines_line (h l List.mem_cons_self).plain,
    skipFirst_headerOf fun l hl => h l (List.mem_cons_of_mem _ hl)]
  rfl

/-! ## The header of a part -/

/-- No CR, LF or NUL. -/
def Text (s : Bytes) : Prop := ∀ c ∈ s, c ≠ 13 ∧ c ≠ 10 ∧ c ≠ 0

structure Sendable (dt : DoubleText T) (p : Part T) : Prop where
  data : p.data ≠ []
  length : p.data.length ≤ 2147483647
  mimetype : p.mimetype.length ≤ 126
  text : Text p.mimetype
  time : dt.isZero (dt.strtod (dt.print p.time)) = false

def Part.lines (dt : DoubleText T) (p : Part T) : List Bytes :=
  [ascii "--nextimage", ascii "Content-Type: " ++ p.mimetype,
    ascii "Content-Length: " ++ decimal p.data.length,
    ascii "X-LT-Timestamp: " ++ dt.print p.time]

theorem header_eq (p : Part T) : p.header dt = headerOf (Part.lines dt p) := by
  have hfirst : ascii "--nextimage\r\n" = ascii "--nextimage" ++ crlf := rfl
  have hend : ascii "\r\n" = crlf := rfl
  simp [Part.header, headerOf, Part.lines, hfirst, hend]

theorem Text.append {s t : Bytes} (hs : Text s) (ht : Text t) : Text (s ++ t) := by
  intro c hc
  obtain hc | hc := List.mem_append.1 hc
  · exact hs c hc
  · exact ht c hc

theorem text_decimal (n : ℕ) : Text (decimal n) := by
  intro c hc
  have hdigit := mem_decimal hc
  refine ⟨?_, ?_, ?_⟩ <;> rintro rfl <;> exact absurd hdigit (by decide)

theorem text_ascii {s : String} (h : (ascii s).all fun c => c ≠ 13 ∧ c ≠ 10 ∧ c ≠ 0) :
    Text (ascii s) := by
  simpa [Text] using h

theorem lines_text (hprint : ∀ t, Text (dt.print t)) {p : Part T} (hp : Sendable dt p) :
    ∀ l ∈ Part.lines dt p, Text l ∧ l ≠ [] := by
  simp only [Part.lines, List.mem_cons, List.not_mem_nil, or_false, forall_eq_or_imp, forall_eq]
  refine ⟨⟨text_ascii (by decide), by decide⟩, ⟨(text_ascii (by decide)).append hp.text, ?_⟩,
    ⟨(text_ascii (by decide)).append (text_decimal _), ?_⟩,
    (text_ascii (by decide)).append (hprint _), ?_⟩
  all_goals simp [ascii]

theorem takeWhile_text {line : Bytes} (h : Text line) : line.takeWhile (· ≠ 0) = line := by
  rw [List.takeWhile_eq_self_iff]
  intro c hc
  simpa using (h c hc).2.2

theorem toInt_eq {n : ℕ} (h : n ≤ 2147483647) : toInt n = n := by
  unfold toInt
  omega

theorem isPrefixOf_append (s t : Bytes) : s.isPrefixOf (s ++ t) = true :=
  List.isPrefixOf_iff_prefix.2 (List.prefix_append s t)

theorem not_isPrefixOf_append {s t : Bytes} (hlen : s.length ≤ t.length)
    (h : s.isPrefixOf t = false) (u : Bytes) : ¬s.isPrefixOf (t ++ u) = true := by
  intro hstart
  have hs := List.prefix_of_prefix_length_le (List.isPrefixOf_iff_prefix.1 hstart)
    (List.prefix_append t u) hlen
  rw [List.isPrefixOf_iff_prefix.2 hs] at h
  cases h

section
variable (f : Fields T)

theorem parseLine_nextimage : parseLine dt f (ascii "--nextimage") = some f := by
  have htext : Text (ascii "--nextimage") := text_ascii (by decide)
  rw [parseLine, takeWhile_text htext]
  exact if_pos rfl

theorem parseLine_mimetype {s : Bytes} (hs : Text s) (hlen : s.length ≤ 126) :
    parseLine dt f (ascii "Content-Type: " ++ s) = some { f with mimetype := s } := by
  have htext : Text (ascii "Content-Type: " ++ s) := (text_ascii (by decide)).append hs
  have hne : ascii "Content-Type: " ++ s ≠ ascii "--nextimage" := by simp [ascii]
  have hn : ((ascii "Content-Type: " ++ s).length + 1 : ℤ) - 14 < 128 := by
    rw [List.length_append, show (ascii "Content-Type: ").length = 14 from rfl]
    omega
  rw [parseLine, takeWhile_text htext]
  dsimp only
  rw [if_neg hne, if_pos (isPrefixOf_append _ _), if_pos hn]
  rfl

theorem parseLine_length {n : ℕ} (hpos : n ≠ 0) (hmax : n ≤ 2147483647) :
    parseLine dt f (ascii "Content-Length: " ++ decimal n) = some { f with length := n } := by
  have htext : Text (ascii "Content-Length: " ++ decimal n) :=
    (text_ascii (by decide)).append (text_decimal n)
  have hne : ascii "Content-Length: " ++ decimal n ≠ ascii "--nextimage" := by simp [ascii]
  have hno : ¬(ascii "Content-Type: ").isPrefixOf (ascii "Content-Length: " ++ decimal n) :=
    not_isPrefixOf_append (by decide) (by decide) _
  have hdrop : (ascii "Content-Length: " ++ decimal n).drop 16 = decimal n := rfl
  have hmax' : (n : ℤ) ≤ Libc.longMax := by
    unfold Libc.longMax
    omega
  have hvalue : toInt ((Libc.strtol (decimal n)).elim 0 Prod.fst) = n := by
    rw [Libc.strtol_decimal hmax']
    exact toInt_eq hmax
  rw [parseLine, takeWhile_text htext]
  dsimp only
  rw [if_neg hne, if_neg hno, if_pos (isPrefixOf_append _ _), hdrop, hvalue, if_neg (by omega)]

theorem parseLine_timestamp {s : Bytes} (hs : Text s) (hzero : dt.isZero (dt.strtod s) = false) :
    parseLine dt f (ascii "X-LT-Timestamp: " ++ s) =
      some { f with timestamp := dt.strtod s } := by
  have htext : Text (ascii "X-LT-Timestamp: " ++ s) := (text_ascii (by decide)).append hs
  have hne : ascii "X-LT-Timestamp: " ++ s ≠ ascii "--nextimage" := by simp [ascii]
  have hno : ¬(ascii "Content-Type: ").isPrefixOf (ascii "X-LT-Timestamp: " ++ s) :=
    not_isPrefixOf_append (by decide) (by decide) s
  have hno' : ¬(ascii "Content-Length: ").isPrefixOf (ascii "X-LT-Timestamp: " ++ s) :=
    not_isPrefixOf_append (by decide) (by decide) s
  have hdrop : (ascii "X-LT-Timestamp: " ++ s).drop 16 = s := rfl
  rw [parseLine, takeWhile_text htext]
  dsimp only
  rw [if_neg hne, if_neg hno, if_neg hno', if_pos (isPrefixOf_append _ _), hdrop, hzero]
  rfl

theorem parseHeader_eq (hprint : ∀ t, Text (dt.print t)) {p : Part T} (hp : Sendable dt p) :
    parseHeader dt (p.header dt) f =
      some ⟨p.mimetype, dt.strtod (dt.print p.time), p.data.length⟩ := by
  have htext := lines_text hprint hp
  have hline : ∀ l ∈ Part.lines dt p, Line l :=
    fun l hl => ⟨(htext l hl).2, fun c hc => ((htext l hl).1 c hc).2.1⟩
  have hstart : (ascii "--nextimage").isPrefixOf (p.header dt) = true := by
    simp [Part.header, ascii]
  have hlength : p.data.length ≠ 0 := fun h => hp.data (List.length_eq_zero_iff.1 h)
  rw [parseHeader, if_pos hstart, header_eq, scanLines_headerOf (by simp [Part.lines]) hline]
  simp only [Part.lines, List.foldlM_cons, List.foldlM_nil, parseLine_nextimage,
    parseLine_mimetype _ hp.text hp.mimetype, parseLine_length _ hlength hp.length,
    parseLine_timestamp _ (hprint _) hp.time]
  rfl

end

theorem cut_header (hprint : ∀ t, Text (dt.print t)) {p : Part T} (hp : Sendable dt p)
    (w : Window) (s : Bytes) : cut w (p.header dt ++ s) = some (p.header dt, s) := by
  have htext := lines_text hprint hp
  rw [header_eq]
  exact cut_headerOf w (by simp [Part.lines])
    (fun l hl => ⟨(htext l hl).2, fun c hc => ((htext l hl).1 c hc).2.1⟩) s

/-! ## How the loop goes on -/

def Ends (dt : DoubleText T) (cb : Callbacks T) (s : Processing T) (err : ℤ) (m : Parser T) : Prop :=
  ∃ rounds, processLoop dt cb rounds s = .returned err m

section
variable {s s' : Processing T} {err : ℤ} {m m' : Parser T} {buf : Bytes}

theorem ends_nil : Ends dt cb ⟨m, err, []⟩ err m := ⟨0, processLoop_nil rfl 0⟩

theorem Ends.of_step (h : Ends dt cb s' err m) (hbuf : s.buf ≠ [])
    (hstep : s.step dt cb = some s') : Ends dt cb s err m := by
  obtain ⟨rounds, hrounds⟩ := h
  refine ⟨rounds + 1, ?_⟩
  rw [processLoop_succ hbuf, hstep]
  exact hrounds

theorem Ends.step (h : Ends dt cb s err m) (hbuf : s.buf ≠ []) :
    ∃ s', s.step dt cb = some s' ∧ Ends dt cb s' err m := by
  obtain ⟨rounds, hrounds⟩ := h
  cases rounds with
  | zero =>
    rw [processLoop.eq_def, if_neg hbuf] at hrounds
    cases hrounds
  | succ rounds =>
    rw [processLoop_succ hbuf] at hrounds
    cases hstep : s.step dt cb with
    | none =>
      rw [hstep] at hrounds
      cases hrounds
    | some s' =>
      rw [hstep] at hrounds
      exact ⟨s', rfl, rounds, hrounds⟩

theorem Ends.unique {err' : ℤ} (h : Ends dt cb s err m) (h' : Ends dt cb s err' m') :
    err = err' ∧ m = m' := by
  obtain ⟨rounds, hrounds⟩ := h
  induction rounds generalizing s with
  | zero =>
    by_cases hbuf : s.buf = []
    · obtain ⟨rounds', hrounds'⟩ := h'
      rw [processLoop_nil hbuf] at hrounds hrounds'
      rw [hrounds] at hrounds'
      cases hrounds'
      exact ⟨rfl, rfl⟩
    · rw [processLoop.eq_def, if_neg hbuf] at hrounds
      cases hrounds
  | succ rounds ih =>
    by_cases hbuf : s.buf = []
    · obtain ⟨rounds', hrounds'⟩ := h'
      rw [processLoop_nil hbuf] at hrounds hrounds'
      rw [hrounds] at hrounds'
      cases hrounds'
      exact ⟨rfl, rfl⟩
    · obtain ⟨s', hstep, hends⟩ := h'.step hbuf
      rw [processLoop_succ hbuf, hstep] at hrounds
      exact ih hends hrounds

end

/-! ## One part -/

/-- Both callbacks are there and return 0. -/
def quiet : Callbacks T := ⟨some fun _ => 0, some fun _ => 0⟩

def afterHeader (dt : DoubleText T) (m : Parser T) (p : Part T) : Parser T where
  status := .headerComplete
  body := []
  header := []
  fields := ⟨p.mimetype, dt.strtod (dt.print p.time), p.data.length⟩
  filepos := m.filepos + .ofNat (p.header dt).length
  eoh := (0, 0, 0, 0)
  calls := m.calls

def afterPart (dt : DoubleText T) (m : Parser T) (p : Part T) : Parser T where
  status := .bodyComplete
  body := p.data
  header := []
  fields := ⟨p.mimetype, dt.strtod (dt.print p.time), p.data.length⟩
  filepos := m.filepos + .ofNat (p.header dt).length + .ofNat p.data.length
  eoh := (0, 0, 0, 0)
  calls := m.calls ++ [.onheaders p.data.length p.mimetype (dt.strtod (dt.print p.time))
    (m.filepos + .ofNat (p.header dt).length)]

def nextPart (m : Parser T) : Parser T :=
  { m with
    status := .readHeader
    body := []
    calls := m.calls ++ [.onpart m.body m.fields.mimetype m.fields.timestamp] }

structure AtStart (m : Parser T) : Prop where
  status : m.status = .readHeader
  body : m.body = []
  header : m.header = []

section
variable {m m' : Parser T} {p : Part T} {err : ℤ} {buf : Bytes}

theorem atStart_nextPart : AtStart (nextPart (afterPart dt m p)) := ⟨rfl, rfl, rfl⟩

theorem ends_part (hprint : ∀ t, Text (dt.print t)) (hm : AtStart m) (hp : Sendable dt p)
    (h : Ends dt quiet ⟨afterPart dt m p, 0, buf⟩ err m') :
    Ends dt quiet ⟨m, 0, p.encoding dt ++ buf⟩ err m' := by
  have hbuf : p.data ++ buf ≠ [] := fun hnil => hp.data (List.append_eq_nil_iff.1 hnil).1
  have hne : p.encoding dt ++ buf ≠ [] := by
    rw [Part.encoding, List.append_assoc]
    exact fun hnil => hbuf (List.append_eq_nil_iff.1 hnil).2
  have hheader : Processing.step dt quiet ⟨m, 0, p.encoding dt ++ buf⟩ =
      some ⟨afterHeader dt m p, 0, p.data ++ buf⟩ := by
    rw [step_readHeader hm.status, Part.encoding, List.append_assoc, Parser.appendHeader_eq,
      cut_header hprint hp]
    simp only [Parser.appendAll_eq, Parser.finishHeader, hm.header, List.nil_append,
      parseHeader_eq _ hprint hp, hm.body]
    rfl
  obtain ⟨m₁, hm₁⟩ : ∃ m₁ : Parser T, m₁ = { afterHeader dt m p with
      status := .readBody
      calls := (afterPart dt m p).calls } := ⟨_, rfl⟩
  have hcallback : Processing.step dt quiet ⟨afterHeader dt m p, 0, p.data ++ buf⟩ =
      some ⟨m₁, 0, p.data ++ buf⟩ := by
    rw [hm₁]
    rfl
  have hbody : Processing.step dt quiet ⟨m₁, 0, p.data ++ buf⟩ =
      some ⟨afterPart dt m p, 0, buf⟩ := by
    have hfields : m₁.fields.length - m₁.body.length = p.data.length := by
      rw [hm₁]
      exact sub_zero _
    rw [step_readBody (by rw [hm₁])]
    dsimp only
    rw [Parser.appendPart, hfields]
    rw [if_neg (by rw [List.length_append]; omega), if_neg (by omega), Int.toNat_natCast,
      List.take_left, List.drop_left, hm₁]
    rfl
  exact ((h.of_step hbuf hbody).of_step hbuf hcallback).of_step hne hheader

theorem ends_nextPart (hstatus : m.status = .bodyComplete) (hbuf : buf ≠ [])
    (h : Ends dt quiet ⟨nextPart m, 0, buf⟩ err m') : Ends dt quiet ⟨m, 0, buf⟩ err m' := by
  refine h.of_step hbuf ?_
  rw [Processing.step]
  simp only [hstatus]
  rfl

end

/-! ## All parts -/

/-- The calls for these parts, when their encodings begin at the offset. -/
def partCalls (dt : DoubleText T) : ℕ → List (Part T) → List (Callback T)
  | _, [] => []
  | offset, p :: ps =>
    .onheaders p.data.length p.mimetype (dt.strtod (dt.print p.time))
        (.ofNat (offset + (p.header dt).length)) ::
      .onpart p.data p.mimetype (dt.strtod (dt.print p.time)) ::
        partCalls dt (offset + (p.encoding dt).length) ps

def afterParts (dt : DoubleText T) (m : Parser T) : List (Part T) → Parser T
  | [] => m
  | [p] => afterPart dt m p
  | p :: q :: ps => afterParts dt (nextPart (afterPart dt m p)) (q :: ps)

section
variable {m : Parser T}

theorem ends_parts (hprint : ∀ t, Text (dt.print t)) (hm : AtStart m) {parts : List (Part T)}
    (hparts : ∀ p ∈ parts, Sendable dt p) :
    Ends dt quiet ⟨m, 0, parts.flatMap (Part.encoding dt)⟩ 0 (afterParts dt m parts) := by
  fun_induction afterParts dt m parts with
  | case1 m => exact ends_nil
  | case2 m p =>
    have hp := hparts p List.mem_cons_self
    have hlast := ends_part hprint hm hp ends_nil
    simpa using hlast
  | case3 m p q ps ih =>
    have hp := hparts p List.mem_cons_self
    have hq := hparts q (List.mem_cons_of_mem _ List.mem_cons_self)
    have hrest := ih atStart_nextPart fun r hr => hparts r (List.mem_cons_of_mem _ hr)
    have hne : (q :: ps).flatMap (Part.encoding dt) ≠ [] := by
      intro hnil
      rw [List.flatMap_cons, Part.encoding, List.append_assoc, List.append_eq_nil_iff,
        List.append_eq_nil_iff] at hnil
      exact hq.data hnil.2.1
    exact ends_part hprint hm hp (ends_nextPart rfl hne hrest)

theorem nextPart_afterParts {offset : ℕ} (hm : m.filepos = .ofNat offset) {parts : List (Part T)}
    (hne : parts ≠ []) : (afterParts dt m parts).status = .bodyComplete ∧
      (nextPart (afterParts dt m parts)).calls = m.calls ++ partCalls dt offset parts := by
  fun_induction afterParts dt m parts generalizing offset with
  | case1 m => exact absurd rfl hne
  | case2 m p => exact ⟨rfl, by simp [partCalls, afterPart, nextPart, hm, UInt32.ofNat_add]⟩
  | case3 m p q ps ih =>
    have hpos : (nextPart (afterPart dt m p)).filepos =
        .ofNat (offset + (p.encoding dt).length) := by
      simp [nextPart, afterPart, hm, Part.encoding, UInt32.ofNat_add, UInt32.add_assoc]
    have hcalls : (nextPart (afterPart dt m p)).calls = m.calls ++
        [.onheaders p.data.length p.mimetype (dt.strtod (dt.print p.time))
            (.ofNat (offset + (p.header dt).length)),
          .onpart p.data p.mimetype (dt.strtod (dt.print p.time))] := by
      simp [nextPart, afterPart, hm, UInt32.ofNat_add]
    obtain ⟨hstatus, hrest⟩ := ih hpos (List.cons_ne_nil q ps)
    refine ⟨hstatus, ?_⟩
    rw [hrest, hcalls, List.append_assoc]
    rfl

theorem ends_byte (hm : m.status = .readHeader) (c : UInt8) :
    ∃ m', Ends dt quiet ⟨m, 0, [c]⟩ 0 m' ∧ m'.calls = m.calls := by
  have hne : [c] ≠ [] := List.cons_ne_nil c []
  by_cases hend : (m.append c).eoh = endOfHeader
  · refine ⟨(m.append c).finishHeader dt, ?_, ?_⟩
    · refine Ends.of_step ends_nil hne ?_
      rw [step_readHeader hm, Parser.appendHeader, if_pos hend]
    · unfold Parser.finishHeader
      split <;> rfl
  · refine ⟨m.append c, ?_, rfl⟩
    refine Ends.of_step ends_nil hne ?_
    rw [step_readHeader hm, Parser.appendHeader, if_neg hend]
    rfl

end

/-! ## Any buffers -/

section
variable {m m' m₁ : Parser T} {err err₁ : ℤ} {a b : Bytes} {s s' : Processing T}

theorem appendHeader_append (hcut : cut m.eoh a = none) (b : Bytes) :
    m.appendHeader dt (a ++ b) = (m.appendAll a).appendHeader dt b := by
  have heoh : (m.appendAll a).eoh = m.eoh.pushAll a := by rw [Parser.appendAll_eq]
  rw [Parser.appendHeader_eq, Parser.appendHeader_eq, cut_append, hcut, heoh]
  cases cut (m.eoh.pushAll a) b with
  | none => simp only [Option.map_none, Parser.appendAll_append]
  | some p => simp only [Option.map_some, Parser.appendAll_append]

theorem appendPart_append (hmore : (a.length : ℤ) < m.fields.length - m.body.length) (b : Bytes) :
    m.appendPart (a ++ b) =
      Parser.appendPart
        { m with body := m.body ++ a, filepos := m.filepos + .ofNat a.length } b := by
  obtain ⟨k, hk⟩ : ∃ k, k = m.fields.length - m.body.length := ⟨_, rfl⟩
  have hneeded : m.fields.length - ((m.body ++ a).length : ℤ) = k - a.length := by
    rw [List.length_append]
    omega
  rw [Parser.appendPart, Parser.appendPart, ← hk]
  dsimp only
  rw [hneeded, List.length_append]
  by_cases hb : (b.length : ℤ) < k - a.length
  · rw [if_pos (by omega), if_pos hb]
    simp [UInt32.ofNat_add, UInt32.add_assoc]
  · have htake : (a ++ b).take k.toNat = a ++ b.take (k - a.length).toNat := by
      rw [List.take_append, List.take_of_length_le (by omega)]
      congr 2
      omega
    have hdrop : (a ++ b).drop k.toNat = b.drop (k - a.length).toNat := by
      rw [List.drop_append, List.drop_of_length_le (by omega), List.nil_append]
      congr 1
      omega
    have hsum : a.length + (k - a.length).toNat = k.toNat := by omega
    rw [if_neg (by omega), if_neg (by omega), if_neg hb, if_neg (by omega), htake, hdrop,
      List.append_assoc, UInt32.add_assoc, ← UInt32.ofNat_add, hsum]

/-- A round with more bytes in the buffer does the same, or it goes on with them where it stopped. -/
theorem step_extend (hbuf : s.buf ≠ []) (hstep : s.step dt cb = some s') :
    (∀ b, Processing.step dt cb { s with buf := s.buf ++ b } =
      some { s' with buf := s'.buf ++ b }) ∨
    s'.buf = [] ∧ ∀ b, Processing.step dt cb { s with buf := s.buf ++ b } =
      Processing.step dt cb { s' with buf := b } := by
  obtain ⟨m, err, buf⟩ := s
  dsimp only at hbuf ⊢
  have hpos := List.length_pos_of_ne_nil hbuf
  cases hstatus : m.status with
  | readHeader =>
    rw [step_readHeader hstatus, Option.some_inj] at hstep
    cases hcut : cut m.eoh buf with
    | none =>
      have happend : m.appendHeader dt buf = (m.appendAll buf, []) := by
        rw [Parser.appendHeader_eq, hcut]
      rw [happend] at hstep
      obtain rfl := hstep
      have hstatus' : (m.appendAll buf).status = .readHeader := by
        rw [Parser.appendAll_eq]
        exact hstatus
      refine Or.inr ⟨rfl, fun b => ?_⟩
      rw [step_readHeader (s := ⟨m, err, buf ++ b⟩) hstatus,
        step_readHeader (s := ⟨m.appendAll buf, err, b⟩) hstatus', appendHeader_append hcut]
    | some p =>
      obtain ⟨header, rest⟩ := p
      have happend (b : Bytes) : m.appendHeader dt (buf ++ b) =
          ((m.appendAll header).finishHeader dt, rest ++ b) := by
        rw [Parser.appendHeader_eq, cut_append, hcut]
      have happend' := happend []
      rw [List.append_nil, List.append_nil] at happend'
      rw [happend'] at hstep
      obtain rfl := hstep
      refine Or.inl fun b => ?_
      rw [step_readHeader (s := ⟨m, err, buf ++ b⟩) hstatus, happend]
  | headerComplete =>
    simp only [Processing.step, hstatus, Option.some_inj] at hstep ⊢
    obtain rfl := hstep
    refine Or.inl fun b => ?_
    cases cb.onheaders <;> rfl
  | readBody =>
    rw [step_readBody hstatus, Parser.appendPart] at hstep
    dsimp only at hstep
    split_ifs at hstep with hmore hneg
    · obtain rfl := Option.some_inj.1 hstep
      refine Or.inr ⟨rfl, fun b => ?_⟩
      rw [step_readBody (s := ⟨m, err, buf ++ b⟩) hstatus, step_readBody hstatus]
      exact congrArg _ (appendPart_append hmore b)
    · cases hstep
    · obtain rfl := Option.some_inj.1 hstep
      refine Or.inl fun b => ?_
      have hle : (m.fields.length - m.body.length).toNat ≤ buf.length := by omega
      rw [step_readBody (s := ⟨m, err, buf ++ b⟩) hstatus, Parser.appendPart]
      dsimp only
      rw [if_neg (by rw [List.length_append]; omega), if_neg hneg,
        List.take_append_of_le_length hle, List.drop_append_of_le_length hle]
      rfl
  | bodyComplete =>
    simp only [Processing.step, hstatus, Option.some_inj] at hstep ⊢
    obtain rfl := hstep
    refine Or.inl fun b => ?_
    cases cb.onpart <;> rfl
  | error =>
    rw [step_error hstatus, Option.some_inj] at hstep
    obtain rfl := hstep
    exact Or.inl fun b => step_error hstatus

theorem Ends.append (ha : Ends dt cb s err₁ m₁) (hb : Ends dt cb ⟨m₁, err₁, b⟩ err m) :
    Ends dt cb { s with buf := s.buf ++ b } err m := by
  obtain ⟨rounds, hrounds⟩ := ha
  induction rounds generalizing s with
  | zero =>
    by_cases hbuf : s.buf = []
    · rw [processLoop_nil hbuf] at hrounds
      cases hrounds
      simpa [hbuf] using hb
    · rw [processLoop.eq_def, if_neg hbuf] at hrounds
      cases hrounds
  | succ rounds ih =>
    by_cases hbuf : s.buf = []
    · rw [processLoop_nil hbuf] at hrounds
      cases hrounds
      simpa [hbuf] using hb
    · have hne : s.buf ++ b ≠ [] := fun h => hbuf (List.append_eq_nil_iff.1 h).1
      obtain ⟨s', hstep, -⟩ := Ends.step ⟨_, hrounds⟩ hbuf
      rw [processLoop_succ hbuf, hstep] at hrounds
      obtain hsame | ⟨hnil, hstop⟩ := step_extend hbuf hstep
      · exact (ih hrounds).of_step hne (hsame b)
      · simp only [processLoop_nil hnil] at hrounds
        cases hrounds
        by_cases hb' : b = []
        · obtain ⟨rfl, rfl⟩ := hb.unique (hb' ▸ ends_nil)
          rw [hb', List.append_nil]
          refine Ends.of_step ?_ hbuf hstep
          exact ⟨0, processLoop_nil hnil 0⟩
        · obtain ⟨s'', hstep', hends⟩ := hb.step hb'
          exact hends.of_step hne ((hstop b).trans hstep')

theorem not_ends_error (hstatus : s.parser.status = .error) (hbuf : s.buf ≠ []) :
    ¬Ends dt cb s err m := by
  intro ⟨rounds, hrounds⟩
  induction rounds generalizing s with
  | zero =>
    rw [processLoop.eq_def, if_neg hbuf] at hrounds
    cases hrounds
  | succ rounds ih =>
    rw [processLoop_succ hbuf, step_error hstatus] at hrounds
    exact ih (s := { s with err := -1 }) hstatus hbuf hrounds

theorem step_quiet (hs : s.err = 0) (hstatus : s.parser.status ≠ .error)
    (hstep : s.step dt quiet = some s') : s'.err = 0 := by
  cases hcase : s.parser.status with
  | readHeader =>
    rw [step_readHeader hcase, Option.some_inj] at hstep
    rw [← hstep]
    exact hs
  | headerComplete | bodyComplete =>
    simp only [Processing.step, hcase, Option.some_inj] at hstep
    rw [← hstep]
    rfl
  | readBody =>
    rw [step_readBody hcase] at hstep
    obtain ⟨p, -, hp⟩ := Option.map_eq_some_iff.1 hstep
    rw [← hp]
    exact hs
  | error => exact absurd hcase hstatus

theorem ends_quiet (hs : s.err = 0) (h : Ends dt quiet s err m) : err = 0 := by
  obtain ⟨rounds, hrounds⟩ := h
  induction rounds generalizing s with
  | zero =>
    by_cases hbuf : s.buf = []
    · rw [processLoop_nil hbuf] at hrounds
      cases hrounds
      exact hs
    · rw [processLoop.eq_def, if_neg hbuf] at hrounds
      cases hrounds
  | succ rounds ih =>
    by_cases hbuf : s.buf = []
    · rw [processLoop_nil hbuf] at hrounds
      cases hrounds
      exact hs
    · have hstatus : s.parser.status ≠ .error :=
        fun hstatus => not_ends_error hstatus hbuf ⟨_, hrounds⟩
      obtain ⟨s', hstep, -⟩ := Ends.step ⟨_, hrounds⟩ hbuf
      rw [processLoop_succ hbuf, hstep] at hrounds
      exact ih (step_quiet hs hstatus hstep) hrounds

end

inductive Feeds (dt : DoubleText T) (cb : Callbacks T) : Parser T → List Bytes → Parser T → Prop where
  | nil (m : Parser T) : Feeds dt cb m [] m
  | cons {m m₁ m' : Parser T} {buf : Bytes} {bufs : List Bytes} :
      Process dt cb m buf 0 m₁ → Feeds dt cb m₁ bufs m' → Feeds dt cb m (buf :: bufs) m'

theorem feeds_of_ends {m m' : Parser T} (htidy : Tidy m) {bufs : List Bytes}
    (h : Ends dt quiet ⟨m, 0, bufs.flatten⟩ 0 m') : Feeds dt quiet m bufs m' := by
  induction bufs generalizing m with
  | nil =>
    obtain ⟨-, rfl⟩ := ends_nil.unique h
    exact .nil m
  | cons buf bufs ih =>
    rw [List.flatten_cons] at h
    obtain ⟨rounds, hall⟩ := h
    have hread : ReadableFrom dt m (buf ++ bufs.flatten) := by
      have hend := (processLoop_readable htidy hall).2 []
      simp only [List.append_nil] at hend
      exact hend.1 (readableFrom_nil m')
    obtain ⟨rounds₁, err₁, m₁, hfirst⟩ := @processLoop_returns _ _ quiet ⟨m, 0, buf⟩ htidy
      (readableFrom_left hread)
    obtain ⟨htidy₁, hread₁⟩ := processLoop_readable htidy hfirst
    obtain ⟨rounds₂, err₂, m₂, hrest⟩ := @processLoop_returns _ _ quiet ⟨m₁, 0, bufs.flatten⟩ htidy₁
      ((hread₁ _).2 hread)
    obtain rfl := ends_quiet rfl ⟨rounds₁, hfirst⟩
    have hboth := Ends.append ⟨rounds₁, hfirst⟩ ⟨rounds₂, hrest⟩
    obtain ⟨rfl, rfl⟩ := hboth.unique ⟨rounds, hall⟩
    exact .cons ⟨rounds₁, hfirst⟩ (ih htidy₁ ⟨rounds₂, hrest⟩)

/-- The texts of any parts, cut into any buffers, are read part by part. The last part is handed on
with the first byte that follows. -/
theorem multipart_round_trip (dt : DoubleText T) (hprint : ∀ t, Text (dt.print t)) (zero : T)
    (eoh : Window) {parts : List (Part T)} (hparts : ∀ p ∈ parts, Sendable dt p)
    {bufs : List Bytes} (hbufs : bufs.flatten = parts.flatMap (Part.encoding dt)) :
    ∃ m, Feeds dt quiet (newMultipartParser zero eoh) bufs m ∧
      m.calls = (partCalls dt 0 parts).dropLast ∧
      ∀ c, ∃ m', Process dt quiet m [c] 0 m' ∧ m'.calls = partCalls dt 0 parts := by
  have hstart : AtStart (newMultipartParser zero eoh) := ⟨rfl, rfl, rfl⟩
  have hends := ends_parts hprint hstart hparts
  rw [← hbufs] at hends
  refine ⟨_, feeds_of_ends ⟨fun _ => rfl, fun h => by cases h⟩ hends, ?_⟩
  by_cases hne : parts = []
  · subst hne
    exact ⟨rfl, fun c => ends_byte rfl c⟩
  · obtain ⟨hstatus, hnext⟩ := @nextPart_afterParts _ dt (newMultipartParser zero eoh) 0 rfl _ hne
    rw [show (newMultipartParser zero eoh).calls = [] from rfl, List.nil_append] at hnext
    refine ⟨?_, fun c => ?_⟩
    · rw [← hnext]
      exact List.dropLast_concat.symm
    · obtain ⟨m', hbyte, hcalls⟩ := @ends_byte _ dt
        (nextPart (afterParts dt (newMultipartParser zero eoh) parts)) rfl c
      exact ⟨m', ends_nextPart hstatus (List.cons_ne_nil c []) hbyte, hcalls.trans hnext⟩

/-! ### Two images -/

def wholeSeconds : DoubleText ℕ where
  print t := decimal t ++ ascii ".000000"
  strtod s := (readDigits 10 0 s).1
  isZero t := t = 0

theorem text_wholeSeconds (t : ℕ) : Text (wholeSeconds.print t) :=
  (text_decimal t).append (text_ascii (by decide))

def twoImages : List (Part ℕ) :=
  [⟨[1, 2, 3], ascii "image/jpeg", 7⟩, ⟨ascii "--nextimage\r\n\r\n", ascii "image/png", 8⟩]

theorem sendable_image {data mimetype : Bytes} {t : ℕ} (hdata : data ≠ [])
    (hlength : data.length ≤ 2147483647) (hmimetype : mimetype.length ≤ 126)
    (htext : Text mimetype) (ht : t ≠ 0) : Sendable wholeSeconds ⟨data, mimetype, t⟩ := by
  refine ⟨hdata, hlength, hmimetype, htext, ?_⟩
  have hread : readDigits 10 0 (decimal t ++ ascii ".000000") = (t, ascii ".000000") := by
    apply readDigits_decimal
    intro c hc
    obtain rfl := Option.some_inj.1 hc
    decide
  change decide ((readDigits 10 0 (decimal t ++ ascii ".000000")).1 = 0) = false
  rw [hread]
  exact decide_eq_false ht

theorem twoImages_round_trip :
    let e := twoImages.flatMap (Part.encoding wholeSeconds)
    ∃ m, Feeds wholeSeconds quiet (newMultipartParser 0 (0, 0, 0, 0)) [e.take 30, e.drop 30] m ∧
      m.calls = (partCalls wholeSeconds 0 twoImages).dropLast ∧
      ∀ c, ∃ m', Process wholeSeconds quiet m [c] 0 m' ∧
        m'.calls = partCalls wholeSeconds 0 twoImages := by
  intro e
  refine multipart_round_trip wholeSeconds text_wholeSeconds 0 _ ?_ (by simp [e])
  intro p hp
  obtain rfl | rfl : p = _ ∨ p = _ := by simpa [twoImages] using hp
  · exact sendable_image (by decide) (by decide) (by decide) (text_ascii (by decide)) (by decide)
  · exact sendable_image (by decide) (by decide) (by decide) (text_ascii (by decide)) (by decide)

end Rcom.MultipartParser
