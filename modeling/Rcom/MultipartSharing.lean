import Rcom.Lib.Trace
import Rcom.MultipartBounds

/-!
# Several multipart parsers in one process

The window in which `multipart_parser_append_header` looks for the end of a header is static, so
that every parser finds there what the last one has left. It only matters for the first header
that a call reads.
-/

namespace Rcom.MultipartParser
open Lib Trace

variable {T : Type} {dt : DoubleText T} {cb : Callbacks T}

def Parser.withEoh (w : Window) (m : Parser T) : Parser T := { m with eoh := w }

def Processing.withEoh (w : Window) (s : Processing T) : Processing T :=
  { s with parser := s.parser.withEoh w }

def Outcome.withEoh (w : Window) : Outcome T → Outcome T
  | .returned err m => .returned err (m.withEoh w)
  | .undefined => .undefined
  | .running => .running

/-- What of the buffer a call reads as header, as long as it finds no end of it. -/
def Parser.headerPart (m : Parser T) (buf : Bytes) : Bytes :=
  match m.status with
  | .readHeader | .bodyComplete => buf
  | .headerComplete | .readBody => buf.drop (m.fields.length - m.body.length).toNat
  | .error => []

/-- With either window the first end of a header is at the same place. -/
def SameEnd (m : Parser T) (buf : Bytes) (w v : Window) : Prop :=
  cut w (m.headerPart buf) = cut v (m.headerPart buf)

theorem sameEnd_nil (m : Parser T) (w v : Window) : SameEnd m [] w v := by
  unfold SameEnd Parser.headerPart
  split <;> simp [cut]

section
variable {s : Processing T} {w v : Window}

theorem appendAll_withEoh (m : Parser T) (t : Bytes) :
    (m.withEoh w).appendAll t = (m.appendAll t).withEoh (w.pushAll t) := by
  simp [Parser.appendAll_eq, Parser.withEoh]

/-- At the end of a header the window is cleared, unless the header is rejected. -/
theorem finishHeader_withEoh (m : Parser T) : ∃ v,
    (m.withEoh w).finishHeader dt = (m.finishHeader dt).withEoh v ∧
      ((m.finishHeader dt).status = .error ∨ v = (m.finishHeader dt).eoh) := by
  have hsame : parseHeader dt (m.withEoh w).header (m.withEoh w).fields =
      parseHeader dt m.header m.fields := rfl
  unfold Parser.finishHeader
  rw [hsame]
  cases parseHeader dt m.header m.fields with
  | none => exact ⟨w, rfl, .inl rfl⟩
  | some fields => exact ⟨_, rfl, .inr rfl⟩

theorem appendPart_withEoh (m : Parser T) (buf : Bytes) :
    (m.withEoh w).appendPart buf = (m.appendPart buf).map fun (m, buf) => (m.withEoh w, buf) := by
  by_cases hmore : (buf.length : ℤ) < m.fields.length - m.body.length
  · simp [Parser.appendPart, Parser.withEoh, hmore]
  · by_cases hneg : m.fields.length - m.body.length < 0
    · simp [Parser.appendPart, Parser.withEoh, hmore, hneg]
    · simp [Parser.appendPart, Parser.withEoh, hmore, hneg]

theorem step_readHeader_withEoh (h : s.parser.status = .readHeader)
    (hend : SameEnd s.parser s.buf s.parser.eoh w) :
    ∃ v, (s.withEoh w).step dt cb = (s.step dt cb).map (·.withEoh v) ∧
      ∀ s', s.step dt cb = some s' → SameEnd s'.parser s'.buf s'.parser.eoh v := by
  have hcut : cut w s.buf = cut s.parser.eoh s.buf := by
    simpa [SameEnd, Parser.headerPart, h] using hend.symm
  have h' : (s.withEoh w).parser.status = .readHeader := h
  have hcut' : cut (s.withEoh w).parser.eoh (s.withEoh w).buf = cut s.parser.eoh s.buf := hcut
  rw [step_readHeader h, step_readHeader h', Parser.appendHeader_eq, Parser.appendHeader_eq, hcut']
  cases cut s.parser.eoh s.buf with
  | none =>
    refine ⟨w.pushAll s.buf, ?_, ?_⟩
    · have happend := appendAll_withEoh (w := w) s.parser s.buf
      simp only [Option.map_some, Processing.withEoh, happend]
    · intro s' hs'
      cases hs'
      exact sameEnd_nil _ _ _
  | some p =>
    obtain ⟨header, rest⟩ := p
    obtain ⟨v, hv, hstatus⟩ := @finishHeader_withEoh _ dt (w.pushAll header)
      (s.parser.appendAll header)
    refine ⟨v, ?_, ?_⟩
    · have happend := appendAll_withEoh (w := w) s.parser header
      simp only [Option.map_some, Processing.withEoh, happend, hv]
    · intro s' hs'
      cases hs'
      rcases hstatus with herror | rfl
      · simp only [SameEnd, Parser.headerPart, herror, cut]
      · rfl

/-- A round with another window does the same, and so will the next one. -/
theorem step_withEoh (hend : SameEnd s.parser s.buf s.parser.eoh w) :
    ∃ v, (s.withEoh w).step dt cb = (s.step dt cb).map (·.withEoh v) ∧
      ∀ s', s.step dt cb = some s' → SameEnd s'.parser s'.buf s'.parser.eoh v := by
  cases hstatus : s.parser.status with
  | readHeader => exact step_readHeader_withEoh hstatus hend
  | headerComplete =>
    have hpart : SameEnd s.parser s.buf s.parser.eoh w := hend
    simp only [SameEnd, Parser.headerPart, hstatus] at hpart
    refine ⟨w, ?_, fun s' hs' => ?_⟩
    · simp only [Processing.step, hstatus, Processing.withEoh, Parser.withEoh]
      cases cb.onheaders <;> rfl
    · obtain ⟨err, calls, hstep⟩ := @step_headerComplete _ dt cb s hstatus
      rw [hstep, Option.some_inj] at hs'
      subst hs'
      simpa only [SameEnd, Parser.headerPart] using hpart
  | readBody =>
    have hpart : SameEnd s.parser s.buf s.parser.eoh w := hend
    simp only [SameEnd, Parser.headerPart, hstatus] at hpart
    have hstatus' : (s.withEoh w).parser.status = .readBody := hstatus
    refine ⟨w, ?_, fun s' hs' => ?_⟩
    · rw [step_readBody hstatus, step_readBody hstatus']
      change ((s.parser.withEoh w).appendPart s.buf).map _ = _
      rw [appendPart_withEoh]
      cases s.parser.appendPart s.buf <;> rfl
    · rw [step_readBody hstatus, Option.map_eq_some_iff] at hs'
      obtain ⟨⟨m', buf⟩, happend, rfl⟩ := hs'
      unfold Parser.appendPart at happend
      dsimp only at happend
      split_ifs at happend with hmore hneg
      · simp only [Option.some.injEq, Prod.mk.injEq] at happend
        obtain ⟨rfl, rfl⟩ := happend
        exact sameEnd_nil _ _ _
      · simp only [Option.some.injEq, Prod.mk.injEq] at happend
        obtain ⟨rfl, rfl⟩ := happend
        exact hpart
  | bodyComplete =>
    have hpart : SameEnd s.parser s.buf s.parser.eoh w := hend
    simp only [SameEnd, Parser.headerPart, hstatus] at hpart
    refine ⟨w, ?_, fun s' hs' => ?_⟩
    · simp only [Processing.step, hstatus, Processing.withEoh, Parser.withEoh]
      cases cb.onpart <;> rfl
    · obtain ⟨err, calls, hstep⟩ := @step_bodyComplete _ dt cb s hstatus
      rw [hstep, Option.some_inj] at hs'
      subst hs'
      simpa only [SameEnd, Parser.headerPart] using hpart
  | error =>
    have hstatus' : (s.withEoh w).parser.status = .error := hstatus
    refine ⟨w, ?_, fun s' hs' => ?_⟩
    · rw [step_error hstatus, step_error hstatus']
      rfl
    · rw [step_error hstatus, Option.some_inj] at hs'
      subst hs'
      simp only [SameEnd, Parser.headerPart, hstatus, cut]

theorem processLoop_withEoh (hend : SameEnd s.parser s.buf s.parser.eoh w) (rounds : ℕ) :
    ∃ v, processLoop dt cb rounds (s.withEoh w) = (processLoop dt cb rounds s).withEoh v := by
  induction rounds generalizing s w with
  | zero =>
    have hbuf' : (s.withEoh w).buf = s.buf := rfl
    rw [processLoop.eq_def, processLoop.eq_def, hbuf']
    split_ifs
    · exact ⟨w, rfl⟩
    · exact ⟨w, rfl⟩
  | succ rounds ih =>
    by_cases hbuf : s.buf = []
    · rw [processLoop_nil hbuf, processLoop_nil (show (s.withEoh w).buf = [] from hbuf)]
      exact ⟨w, rfl⟩
    · obtain ⟨v, hstep, hnext⟩ := @step_withEoh _ dt cb _ _ hend
      rw [processLoop_succ hbuf, processLoop_succ (show (s.withEoh w).buf ≠ [] from hbuf), hstep]
      cases hs : s.step dt cb with
      | none => exact ⟨w, rfl⟩
      | some s' => exact ih (hnext s' hs)

end

/-! ## One call -/

theorem processLoop_mono {s : Processing T} {rounds : ℕ} {err : ℤ} {m : Parser T}
    (h : processLoop dt cb rounds s = .returned err m) :
    processLoop dt cb (rounds + 1) s = .returned err m := by
  induction rounds generalizing s with
  | zero =>
    by_cases hbuf : s.buf = []
    · rw [processLoop_nil hbuf] at h ⊢
      exact h
    · rw [processLoop.eq_def, if_neg hbuf] at h
      cases h
  | succ rounds ih =>
    by_cases hbuf : s.buf = []
    · rw [processLoop_nil hbuf] at h ⊢
      exact h
    · rw [processLoop_succ hbuf] at h ⊢
      cases hs : s.step dt cb with
      | none =>
        rw [hs] at h
        cases h
      | some s' =>
        simp only [hs] at h ⊢
        exact ih h

theorem processLoop_le {s : Processing T} {rounds rounds' : ℕ} (hle : rounds ≤ rounds') {err : ℤ}
    {m : Parser T} (h : processLoop dt cb rounds s = .returned err m) :
    processLoop dt cb rounds' s = .returned err m := by
  induction hle with
  | refl => exact h
  | step _ ih => exact processLoop_mono ih

theorem process_unique {m m₁ m₂ : Parser T} {buf : Bytes} {err₁ err₂ : ℤ}
    (h₁ : Process dt cb m buf err₁ m₁) (h₂ : Process dt cb m buf err₂ m₂) :
    err₁ = err₂ ∧ m₁ = m₂ := by
  obtain ⟨rounds₁, h₁⟩ := h₁
  obtain ⟨rounds₂, h₂⟩ := h₂
  have h := (processLoop_le (le_max_left rounds₁ rounds₂) h₁).symm.trans
    (processLoop_le (le_max_right rounds₁ rounds₂) h₂)
  cases h
  exact ⟨rfl, rfl⟩

/-- The call returns with one window exactly if it does with the other, and does the same. -/
theorem process_withEoh {m : Parser T} {w : Window} {buf : Bytes} (hend : SameEnd m buf m.eoh w) :
    (∀ err m', Process dt cb m buf err m' →
        ∃ v, Process dt cb (m.withEoh w) buf err (m'.withEoh v)) ∧
      ∀ err m', Process dt cb (m.withEoh w) buf err m' →
        ∃ m₀ v, Process dt cb m buf err m₀ ∧ m' = m₀.withEoh v := by
  constructor
  · rintro err m' ⟨rounds, h⟩
    obtain ⟨v, hv⟩ := @processLoop_withEoh _ dt cb ⟨m, 0, buf⟩ _ hend rounds
    rw [h] at hv
    exact ⟨v, rounds, hv⟩
  · rintro err m' ⟨rounds, h⟩
    obtain ⟨v, hv⟩ := @processLoop_withEoh _ dt cb ⟨m, 0, buf⟩ _ hend rounds
    have hv' := hv.symm.trans h
    cases hloop : processLoop dt cb rounds ⟨m, 0, buf⟩ with
    | returned err₀ m₀ =>
      rw [hloop] at hv'
      cases hv'
      exact ⟨m₀, v, ⟨rounds, hloop⟩, rfl⟩
    | undefined =>
      rw [hloop] at hv'
      cases hv'
    | running =>
      rw [hloop] at hv'
      cases hv'

/-! ## All parsers of a process -/

structure Parsers (ι T : Type) where
  eoh : Window
  parser : ι → Parser T

section
variable {ι : Type} [DecidableEq ι] (dt) (cbs : ι → Callbacks T)

def Feed (s : Parsers ι T) (e : ι × Bytes) (t : Parsers ι T) : Prop :=
  ∃ err m, Process dt (cbs e.1) ((s.parser e.1).withEoh s.eoh) e.2 err m ∧
    t = ⟨m.eoh, Function.update s.parser e.1 m⟩

inductive Alone (cb : Callbacks T) : Parser T → List Bytes → Parser T → Prop where
  | nil (m : Parser T) : Alone cb m [] m
  | cons {m m₁ m₂ : Parser T} {buf : Bytes} {bufs : List Bytes} {err : ℤ} :
      Process dt cb m buf err m₁ → Alone cb m₁ bufs m₂ → Alone cb m (buf :: bufs) m₂

def buffersOf (i : ι) : List (Move (Parsers ι T) (ι × Bytes)) → List Bytes
  | [] => []
  | m :: ms => if m.act.1 = i then m.act.2 :: buffersOf i ms else buffersOf i ms

/-- Whenever a buffer is processed, its first header ends where it would if the parser had been
alone. `own` are the parsers as they would be. -/
def Unmixed : (ι → Parser T) → List (Move (Parsers ι T) (ι × Bytes)) → Prop
  | _, [] => True
  | own, m :: ms =>
    SameEnd (own m.act.1) m.act.2 (own m.act.1).eoh m.src.eoh ∧
      ∀ err m', Process dt (cbs m.act.1) (own m.act.1) m.act.2 err m' →
        Unmixed (Function.update own m.act.1 m') ms

def newParsers (zero : T) (w : Window) : Parsers ι T := ⟨w, fun _ => newMultipartParser zero w⟩

/-- The calls and the status of each parser are what they would be if it were alone. -/
def Independent (s : Parsers ι T) (ms : List (Move (Parsers ι T) (ι × Bytes))) (t : Parsers ι T) :
    Prop :=
  ∀ i, ∃ m, Alone dt (cbs i) (s.parser i) (buffersOf i ms) m ∧
    (t.parser i).calls = m.calls ∧ (t.parser i).status = m.status

variable {dt cbs}

theorem independent_of_unmixed {s t : Parsers ι T} {ms : List (Move (Parsers ι T) (ι × Bytes))}
    (h : Run (Feed dt cbs) s ms t) {own : ι → Parser T}
    (hown : ∀ i, ∃ v, s.parser i = (own i).withEoh v) (hun : Unmixed dt cbs own ms) (i : ι) :
    ∃ m v, Alone dt (cbs i) (own i) (buffersOf i ms) m ∧ t.parser i = m.withEoh v := by
  induction h generalizing own with
  | nil s =>
    obtain ⟨v, hv⟩ := hown i
    exact ⟨own i, v, .nil _, hv⟩
  | @cons s s₁ t e ms hstep _ ih =>
    obtain ⟨err, m, hprocess, rfl⟩ := hstep
    obtain ⟨hend, hrest⟩ := hun
    obtain ⟨v, hv⟩ := hown e.1
    have hmixed : (s.parser e.1).withEoh s.eoh = (own e.1).withEoh s.eoh := by
      rw [hv]
      rfl
    rw [hmixed] at hprocess
    obtain ⟨m₀, v', hm₀, rfl⟩ := (process_withEoh hend).2 err m hprocess
    have hown' : ∀ j, ∃ v, Function.update s.parser e.1 (m₀.withEoh v') j =
        (Function.update own e.1 m₀ j).withEoh v := by
      intro j
      by_cases hj : j = e.1
      · subst hj
        exact ⟨v', by simp⟩
      · obtain ⟨u, hu⟩ := hown j
        exact ⟨u, by simpa [hj] using hu⟩
    obtain ⟨m', v'', hm', ht⟩ := ih hown' (hrest err m₀ hm₀)
    refine ⟨m', v'', ?_, ht⟩
    by_cases hi : e.1 = i
    · subst hi
      rw [Function.update_self] at hm'
      rw [buffersOf, if_pos rfl]
      exact .cons hm₀ hm'
    · rw [Function.update_of_ne (Ne.symm hi)] at hm'
      rw [buffersOf, if_neg hi]
      exact hm'

/-- Parsers do not influence each other in a run in which the characters of the others in the
static window end no header and hide the end of none. -/
theorem parsers_independent {zero : T} {w : Window} {t : Parsers ι T}
    {ms : List (Move (Parsers ι T) (ι × Bytes))} (h : Run (Feed dt cbs) (newParsers zero w) ms t)
    (hun : Unmixed dt cbs (newParsers zero w).parser ms) :
    Independent dt cbs (newParsers zero w) ms t := by
  intro i
  obtain ⟨m, v, halone, ht⟩ := independent_of_unmixed h (fun j => ⟨w, rfl⟩) hun i
  refine ⟨m, halone, ?_, ?_⟩
  · rw [ht]
    rfl
  · rw [ht]
    rfl

end

/-! ## A header in two pieces -/

def cutHeader : Bytes := ascii "--nextimage\r\n\r"

def noCallbacks (_ : Bool) : Callbacks Unit := ⟨none, none⟩

def cutParser : Parser Unit := emptyParser.appendAll cutHeader

theorem process_of_step {m m' : Parser T} {buf : Bytes} {err : ℤ} (hbuf : buf ≠ [])
    (hstep : (⟨m, 0, buf⟩ : Processing T).step dt cb = some ⟨m', err, []⟩) :
    Process dt cb m buf err m' := by
  refine ⟨1, ?_⟩
  rw [processLoop_succ hbuf, hstep]
  exact processLoop_nil rfl 0

theorem process_unfinished {m : Parser T} {buf : Bytes} (hm : m.status = .readHeader)
    (hcut : cut m.eoh buf = none) : Process dt cb m buf 0 (m.appendAll buf) := by
  by_cases hbuf : buf = []
  · rw [hbuf]
    exact ⟨0, processLoop_nil rfl 0⟩
  · refine process_of_step hbuf ?_
    rw [step_readHeader hm, Parser.appendHeader_eq, hcut]

theorem process_cutHeader : Process noText ⟨none, none⟩ emptyParser cutHeader 0 cutParser :=
  process_unfinished rfl (by decide)

theorem cutParser_status : cutParser.status = .readHeader := by
  rw [cutParser, Parser.appendAll_eq]
  rfl

def firstFed : Parsers Bool Unit :=
  ⟨cutParser.eoh, Function.update (fun _ => emptyParser) false cutParser⟩

theorem feed_cutHeader :
    Feed noText noCallbacks (newParsers () (0, 0, 0, 0)) (false, cutHeader) firstFed :=
  ⟨0, cutParser, process_cutHeader, rfl⟩

def otherParser : Parser Unit := (emptyParser.withEoh cutParser.eoh).appendAll [120]

def bothFed : Parsers Bool Unit :=
  ⟨otherParser.eoh, Function.update firstFed.parser true otherParser⟩

theorem feed_other : Feed noText noCallbacks firstFed (true, [120]) bothFed :=
  ⟨0, otherParser, process_unfinished rfl (by decide), rfl⟩

theorem bothFed_independent : Independent noText noCallbacks (newParsers () (0, 0, 0, 0))
    [⟨newParsers () (0, 0, 0, 0), (false, cutHeader), firstFed⟩, ⟨firstFed, (true, [120]), bothFed⟩]
    bothFed :=
  parsers_independent (.cons feed_cutHeader (.single feed_other))
    ⟨rfl, fun _ _ _ => ⟨rfl, fun _ _ _ => trivial⟩⟩

theorem cutParser_header : cutParser.header = cutHeader ∧ cutParser.fields = ⟨[], (), 0⟩ := by
  rw [cutParser, Parser.appendAll_eq]
  exact ⟨rfl, rfl⟩

theorem parseHeader_separator (f : Fields Unit) :
    parseHeader noText (headerOf [ascii "--nextimage"]) f = some f := by
  have hline : ∀ l ∈ [ascii "--nextimage"], Line l := by
    simp only [List.mem_singleton, forall_eq]
    exact .of_all (by decide) rfl
  have hfirst : parseLine noText f (ascii "--nextimage") = some f := rfl
  rw [parseHeader, if_pos (by decide), scanLines_headerOf (by simp) hline]
  simp [hfirst]

theorem process_lastCharacter : ∃ m, Process noText ⟨none, none⟩ cutParser [10] 0 m ∧
    m.status = .headerComplete := by
  obtain ⟨hheader, hfields⟩ := cutParser_header
  have hwhole : cutHeader ++ [10] = headerOf [ascii "--nextimage"] := by decide
  have hcut : cut cutParser.eoh [10] = some ([10], []) := by
    rw [cutParser, Parser.appendAll_eq]
    decide
  have hstep : (⟨cutParser, 0, [10]⟩ : Processing Unit).step noText ⟨none, none⟩ =
      some ⟨(cutParser.appendAll [10]).finishHeader noText, 0, []⟩ := by
    rw [step_readHeader cutParser_status, Parser.appendHeader_eq, hcut]
  refine ⟨_, process_of_step (List.cons_ne_nil _ _) hstep, ?_⟩
  simp only [Parser.appendAll_eq, Parser.finishHeader, hheader, hfields, hwhole,
    parseHeader_separator]

/-- Another parser reads one character before the header ends: the end is not found. -/
theorem other_parser_hides_end : ∃ ms t,
    Run (Feed noText noCallbacks) (newParsers () (0, 0, 0, 0)) ms t ∧
      ms.map Move.act = [(false, cutHeader), (true, [120]), (false, [10])] ∧
      ¬ Independent noText noCallbacks (newParsers () (0, 0, 0, 0)) ms t := by
  let last := (cutParser.withEoh otherParser.eoh).appendAll [10]
  have hthird : Feed noText noCallbacks bothFed (false, [10])
      ⟨last.eoh, Function.update bothFed.parser false last⟩ :=
    ⟨0, last, process_unfinished cutParser_status (by decide), rfl⟩
  refine ⟨_, _, .cons feed_cutHeader (.cons feed_other (.single hthird)), rfl, fun h => ?_⟩
  obtain ⟨m, halone, -, hstatus⟩ := h false
  have hread : last.status = .readHeader := cutParser_status
  obtain ⟨whole, hwhole, hcomplete⟩ := process_lastCharacter
  cases halone with
  | cons h₁ halone =>
    obtain ⟨-, rfl⟩ := process_unique h₁ process_cutHeader
    cases halone with
    | cons h₂ halone =>
      obtain ⟨-, rfl⟩ := process_unique h₂ hwhole
      cases halone
      have hfinal : (Function.update bothFed.parser false last false).status = m.status := hstatus
      rw [Function.update_self, hread, hcomplete] at hfinal
      cases hfinal

end Rcom.MultipartParser
