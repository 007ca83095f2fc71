import Rcom.MultipartErrors
import Rcom.MultipartRoundTrip

/-!
# Where the multipart parser reads

Here the offsets are those of the C code: a round of the loop has the buffer, its length and an
offset, hands ranges of the buffer to `membuf_append` and goes on at another offset. The length of a
part is a number off the network.
-/

namespace Rcom.MultipartParser
open Lib

variable {T : Type} (dt : DoubleText T) (cb : Callbacks T)

/-- The second and third argument of a call of `membuf_append`, from the start of the buffer. -/
structure Range where
  offset : ℤ
  count : ℤ

/-- What a round does with the buffer; `grown` is what it adds to `m->filepos`. -/
structure Round where
  appends : List Range
  next : ℤ
  grown : ℤ

def Round.one (offset : ℤ) (r : Round) : Round :=
  ⟨⟨offset, 1⟩ :: r.appends, r.next, r.grown + 1⟩

/-- The loop of `multipart_parser_append_header`, from `offset`. -/
def headerRound (w : Window) : Bytes → ℤ → Round
  | [], offset => ⟨[], offset, 0⟩
  | c :: s, offset =>
    if w.push c = endOfHeader then Round.one offset ⟨[], offset + 1, 0⟩
    else Round.one offset (headerRound (w.push c) s (offset + 1))

/-- `multipart_parser_append_part`. -/
def partRound (length read len offset : ℤ) : Round :=
  let needed := length - read
  let provided := len - offset
  if needed > provided then ⟨[⟨offset, provided⟩], len, provided⟩
  else ⟨[⟨offset, needed⟩], offset + needed, needed⟩

/-- `len` is the length of the buffer and `s.buf` what is left of it. -/
def Processing.round (len : ℤ) (s : Processing T) : Round :=
  let m := s.parser
  let offset := len - s.buf.length
  match m.status with
  | .readHeader => headerRound m.eoh s.buf offset
  | .readBody => partRound m.fields.length m.body.length len offset
  | .headerComplete | .bodyComplete | .error => ⟨[], offset, 0⟩

/-- The ranges are in the buffer, the offset does not decrease and stays in the buffer, and the
position in the stream moves with it. -/
structure Round.Inside (len offset : ℤ) (r : Round) : Prop where
  appends : ∀ a ∈ r.appends, 0 ≤ a.count ∧ 0 ≤ a.offset ∧ a.offset + a.count ≤ len
  forward : offset ≤ r.next
  bounded : r.next ≤ len
  grown : r.grown = r.next - offset

variable {dt cb} {s s' : Processing T} {m m' : Parser T}

theorem headerRound_inside (w : Window) (s : Bytes) {len offset : ℤ} (hlow : 0 ≤ offset)
    (hlen : offset + s.length = len) : (headerRound w s offset).Inside len offset := by
  induction s generalizing w offset with
  | nil =>
    simp only [List.length_nil] at hlen
    exact ⟨by simp [headerRound], le_rfl, by simp [headerRound]; omega, by simp [headerRound]⟩
  | cons c s ih =>
    simp only [List.length_cons] at hlen
    rw [headerRound]
    split_ifs with hend
    · constructor
      · simp [Round.one]
        omega
      · simp [Round.one]
      · simp [Round.one]
        omega
      · simp [Round.one]
    · obtain ⟨happ, hforward, hbounded, hgrown⟩ := @ih (w.push c) (offset + 1) (by omega)
        (by omega)
      refine ⟨?_, ?_, hbounded, ?_⟩
      · simp only [Round.one, List.mem_cons, forall_eq_or_imp]
        exact ⟨⟨by omega, hlow, by omega⟩, happ⟩
      · simp only [Round.one]
        omega
      · simp only [Round.one, hgrown]
        omega

/-- A part is copied inside the buffer unless more of it has been read than there is of it. -/
theorem partRound_inside_iff {length read len offset : ℤ} (hlow : 0 ≤ offset) (hlen : offset ≤ len) :
    (partRound length read len offset).Inside len offset ↔ read ≤ length := by
  unfold partRound
  dsimp only
  split_ifs with hmore
  · refine iff_of_true ⟨?_, hlen, le_rfl, rfl⟩ (by omega)
    simp
    omega
  · constructor
    · intro h
      have hforward : offset ≤ offset + (length - read) := h.forward
      omega
    · intro h
      refine ⟨?_, ?_, ?_, ?_⟩ <;> simp <;> omega

/-! ## The rounds of the model -/

theorem headerRound_next (w : Window) (s : Bytes) (offset : ℤ) :
    (headerRound w s offset).next = offset + (s.length - ((cut w s).elim [] Prod.snd).length) := by
  induction s generalizing w offset with
  | nil => simp [headerRound, cut]
  | cons c s ih =>
    rw [headerRound, cut]
    split_ifs with hend
    · simp [Round.one]
    · simp only [Round.one, ih, List.length_cons]
      cases cut (w.push c) s with
      | none =>
        simp
        omega
      | some p =>
        simp
        omega

theorem finishHeader_filepos (m : Parser T) : (m.finishHeader dt).filepos = m.filepos := by
  unfold Parser.finishHeader
  split <;> rfl

theorem appendHeader_buf : (m.appendHeader dt s.buf).2 = (cut m.eoh s.buf).elim [] Prod.snd := by
  rw [Parser.appendHeader_eq]
  cases cut m.eoh s.buf <;> rfl

theorem appendHeader_filepos (s : Bytes) : (m.appendHeader dt s).1.filepos =
    m.filepos + .ofNat (s.length - ((cut m.eoh s).elim [] Prod.snd).length) := by
  rw [Parser.appendHeader_eq]
  cases hcut : cut m.eoh s with
  | none => simp [Parser.appendAll_eq]
  | some p =>
    obtain ⟨header, rest⟩ := p
    obtain ⟨rfl, -⟩ := cut_eq hcut
    simp [finishHeader_filepos, Parser.appendAll_eq]

theorem step_buf (h : s.step dt cb = some s') : s'.buf.length ≤ s.buf.length := by
  cases hstatus : s.parser.status with
  | readHeader =>
    rw [step_readHeader hstatus, Option.some_inj] at h
    subst h
    dsimp only
    rw [appendHeader_buf]
    cases hcut : cut s.parser.eoh s.buf with
    | none => simp
    | some p =>
      rw [(cut_eq hcut).1, List.length_append]
      exact Nat.le_add_left _ _
  | headerComplete =>
    obtain ⟨err, calls, hstep⟩ := @step_headerComplete _ dt cb s hstatus
    rw [hstep, Option.some_inj] at h
    subst h
    exact le_rfl
  | readBody =>
    rw [step_readBody hstatus, Option.map_eq_some_iff] at h
    obtain ⟨⟨m', buf⟩, happend, rfl⟩ := h
    unfold Parser.appendPart at happend
    dsimp only at happend
    split_ifs at happend with hmore hneg
    · simp only [Option.some.injEq, Prod.mk.injEq] at happend
      simp [← happend.2]
    · simp only [Option.some.injEq, Prod.mk.injEq] at happend
      simp [← happend.2]
  | bodyComplete =>
    obtain ⟨err, calls, hstep⟩ := @step_bodyComplete _ dt cb s hstatus
    rw [hstep, Option.some_inj] at h
    subst h
    exact le_rfl
  | error =>
    rw [step_error hstatus, Option.some_inj] at h
    subst h
    exact le_rfl

/-- The offset and the position after a round are those of the C code. -/
theorem step_round (h : s.step dt cb = some s') {len : ℤ} (hlen : s.buf.length ≤ len) :
    len - s'.buf.length = (s.round len).next ∧
      s'.parser.filepos = s.parser.filepos + .ofNat (s.round len).grown.toNat := by
  cases hstatus : s.parser.status with
  | readHeader =>
    rw [step_readHeader hstatus, Option.some_inj] at h
    subst h
    have hround : s.round len = headerRound s.parser.eoh s.buf (len - s.buf.length) := by
      simp only [Processing.round, hstatus]
    have hinside := @headerRound_inside s.parser.eoh s.buf len (len - s.buf.length)
      (by omega) (by omega)
    have hnext := headerRound_next s.parser.eoh s.buf (len - s.buf.length)
    have hgrown := hinside.grown
    dsimp only
    rw [hround, appendHeader_buf, appendHeader_filepos]
    refine ⟨by omega, ?_⟩
    congr 2
    omega
  | headerComplete =>
    obtain ⟨err, calls, hstep⟩ := @step_headerComplete _ dt cb s hstatus
    rw [hstep, Option.some_inj] at h
    subst h
    simp [Processing.round, hstatus]
  | readBody =>
    rw [step_readBody hstatus, Option.map_eq_some_iff] at h
    obtain ⟨⟨m', buf⟩, happend, rfl⟩ := h
    have hround : s.round len =
        partRound s.parser.fields.length s.parser.body.length len (len - s.buf.length) := by
      simp only [Processing.round, hstatus]
    rw [hround]
    unfold Parser.appendPart at happend
    unfold partRound
    dsimp only at happend ⊢
    have hprovided : len - (len - (s.buf.length : ℤ)) = s.buf.length := by omega
    rw [hprovided]
    split_ifs at happend with hmore hneg
    · simp only [Option.some.injEq, Prod.mk.injEq] at happend
      obtain ⟨rfl, rfl⟩ := happend
      rw [if_pos hmore]
      simp
    · simp only [Option.some.injEq, Prod.mk.injEq] at happend
      obtain ⟨rfl, rfl⟩ := happend
      rw [if_neg hmore]
      refine ⟨?_, rfl⟩
      simp only [List.length_drop]
      omega
  | bodyComplete =>
    obtain ⟨err, calls, hstep⟩ := @step_bodyComplete _ dt cb s hstatus
    rw [hstep, Option.some_inj] at h
    subst h
    simp [Processing.round, hstatus]
  | error =>
    rw [step_error hstatus, Option.some_inj] at h
    subst h
    simp [Processing.round, hstatus]

/-! ## All rounds -/

variable (dt cb)

def roundStates : ℕ → Processing T → List (Processing T)
  | 0, _ => []
  | n + 1, s =>
    if s.buf = [] then []
    else
      s :: match s.step dt cb with
        | none => []
        | some s' => roundStates n s'

variable {dt cb} in
theorem roundStates_succ {n : ℕ} (hbuf : s.buf ≠ []) (h : s.step dt cb = some s') :
    roundStates dt cb (n + 1) s = s :: roundStates dt cb n s' := by
  rw [roundStates, if_neg hbuf, h]

def StaysInside (m : Parser T) (buf : Bytes) : Prop :=
  ∀ n, ∀ s ∈ roundStates dt cb n ⟨m, 0, buf⟩,
    (s.round buf.length).Inside buf.length (buf.length - s.buf.length)

/-- The loop goes on where each round says, and the position in the stream has grown as it says. -/
def FollowsRounds (m : Parser T) (buf : Bytes) : Prop :=
  ∀ n, ∀ s ∈ roundStates dt cb n ⟨m, 0, buf⟩, ∀ s', s.step dt cb = some s' →
    buf.length - s'.buf.length = (s.round buf.length).next ∧
      s'.parser.filepos = s.parser.filepos + .ofNat (s.round buf.length).grown.toNat

/-- Between two calls other parsers may have used the static window. -/
inductive Fed : Parser T → Parser T → Prop where
  | nil (m : Parser T) : Fed m m
  | cons {m m₁ m₂ : Parser T} {w : Window} {buf : Bytes} {err : ℤ} :
      Process dt cb { m with eoh := w } buf err m₁ → Fed m₁ m₂ → Fed m m₂

def Reachable (m : Parser T) : Prop := ∃ zero w, Fed dt cb (newMultipartParser zero w) m

variable {dt cb}

/-- No more of a part has been read than there is of it. -/
structure Fits (m : Parser T) : Prop where
  before : m.status = .readHeader ∨ m.status = .headerComplete → m.body = []
  reading : m.status = .readBody → m.body = [] ∨ m.body.length ≤ m.fields.length

theorem appendHeader_status (hm : m.status = .readHeader) (s : Bytes) :
    (m.appendHeader dt s).1.status ≠ .readBody ∧ (m.appendHeader dt s).1.body = m.body := by
  rw [Parser.appendHeader_eq]
  cases hcut : cut m.eoh s with
  | none => simp [Parser.appendAll_eq, hm]
  | some p =>
    dsimp only
    rw [finishHeader_body, Parser.appendAll_eq]
    refine ⟨?_, rfl⟩
    unfold Parser.finishHeader
    split <;> simp

theorem step_fits (hs : Fits s.parser) (h : s.step dt cb = some s') : Fits s'.parser := by
  cases hstatus : s.parser.status with
  | readHeader =>
    rw [step_readHeader hstatus, Option.some_inj] at h
    subst h
    obtain ⟨hnot, hbody⟩ := @appendHeader_status _ dt _ hstatus s.buf
    exact ⟨fun _ => hbody.trans (hs.before (.inl hstatus)), fun h => absurd h hnot⟩
  | headerComplete =>
    obtain ⟨err, calls, hstep⟩ := @step_headerComplete _ dt cb s hstatus
    rw [hstep, Option.some_inj] at h
    subst h
    exact ⟨by simp, fun _ => .inl (hs.before (.inr hstatus))⟩
  | readBody =>
    rw [step_readBody hstatus, Option.map_eq_some_iff] at h
    obtain ⟨⟨m', buf⟩, happend, rfl⟩ := h
    unfold Parser.appendPart at happend
    dsimp only at happend
    split_ifs at happend with hmore hneg
    · simp only [Option.some.injEq, Prod.mk.injEq] at happend
      obtain ⟨rfl, rfl⟩ := happend
      refine ⟨by simp [hstatus], fun _ => .inr ?_⟩
      simp only [List.length_append]
      omega
    · simp only [Option.some.injEq, Prod.mk.injEq] at happend
      obtain ⟨rfl, rfl⟩ := happend
      exact ⟨by simp, by simp⟩
  | bodyComplete =>
    obtain ⟨err, calls, hstep⟩ := @step_bodyComplete _ dt cb s hstatus
    rw [hstep, Option.some_inj] at h
    subst h
    exact ⟨fun _ => rfl, by simp⟩
  | error =>
    rw [step_error hstatus, Option.some_inj] at h
    subst h
    exact hs

theorem processLoop_fits {rounds : ℕ} {err : ℤ} (hs : Fits s.parser)
    (h : processLoop dt cb rounds s = .returned err m) : Fits m := by
  induction rounds generalizing s with
  | zero =>
    by_cases hbuf : s.buf = []
    · rw [processLoop_nil hbuf] at h
      cases h
      exact hs
    · rw [processLoop.eq_def, if_neg hbuf] at h
      cases h
  | succ rounds ih =>
    by_cases hbuf : s.buf = []
    · rw [processLoop_nil hbuf] at h
      cases h
      exact hs
    · rw [processLoop_succ hbuf] at h
      cases hnext : s.step dt cb with
      | none =>
        rw [hnext] at h
        cases h
      | some s' =>
        simp only [hnext] at h
        exact ih (step_fits hs hnext) h

theorem Fed.fits (h : Fed dt cb m m') (hm : Fits m) : Fits m' := by
  induction h with
  | nil m => exact hm
  | @cons m₀ _ _ w buf err hprocess _ ih =>
    obtain ⟨rounds, hloop⟩ := hprocess
    have hfits : Fits { m₀ with eoh := w } := ⟨hm.before, hm.reading⟩
    exact ih (processLoop_fits hfits hloop)

theorem Reachable.fits (h : Reachable dt cb m) : Fits m := by
  obtain ⟨zero, w, hfed⟩ := h
  exact hfed.fits ⟨fun _ => rfl, by simp [newMultipartParser]⟩

/-- The state of a round is tidy, and what is left is the end of the buffer. -/
theorem roundStates_spec {n : ℕ} {len : ℤ} (hs : Fits s.parser) (hlen : s.buf.length ≤ len)
    (h : s' ∈ roundStates dt cb n s) :
    Fits s'.parser ∧ s'.buf ≠ [] ∧ (s'.buf.length : ℤ) ≤ len := by
  induction n generalizing s with
  | zero => simp [roundStates] at h
  | succ n ih =>
    rw [roundStates] at h
    split_ifs at h with hbuf
    · simp at h
    · rcases List.mem_cons.1 h with rfl | h
      · exact ⟨hs, hbuf, hlen⟩
      · cases hnext : s.step dt cb with
        | none => simp [hnext] at h
        | some s₁ =>
          rw [hnext] at h
          have hless := step_buf hnext
          exact ih (step_fits hs hnext) (by omega) h

/-- The parser stays inside its buffer unless it begins to copy a part with a negative length. -/
theorem stays_inside_iff (hm : Reachable dt cb m) (buf : Bytes) :
    FollowsRounds dt cb m buf ∧
      (StaysInside dt cb m buf ↔ ∀ n, ∀ s ∈ roundStates dt cb n ⟨m, 0, buf⟩,
        s.parser.status = .readBody → 0 ≤ s.parser.fields.length) := by
  have hstate {n : ℕ} {s : Processing T} (hs : s ∈ roundStates dt cb n ⟨m, 0, buf⟩) :
      Fits s.parser ∧ s.buf ≠ [] ∧ (s.buf.length : ℤ) ≤ buf.length :=
    roundStates_spec (s := ⟨m, 0, buf⟩) hm.fits le_rfl hs
  have hpart {n : ℕ} {s : Processing T} (hs : s ∈ roundStates dt cb n ⟨m, 0, buf⟩)
      (hstatus : s.parser.status = .readBody) :
      (s.round buf.length).Inside buf.length (buf.length - s.buf.length) ↔
        (s.parser.body.length : ℤ) ≤ s.parser.fields.length := by
    obtain ⟨-, -, hlen⟩ := hstate hs
    simp only [Processing.round, hstatus]
    exact partRound_inside_iff (by omega) (by omega)
  refine ⟨fun n s hs s' hstep => step_round hstep (hstate hs).2.2, ?_, ?_⟩
  · intro h n s hs hstatus
    have hread := (hpart hs hstatus).1 (h n s hs)
    omega
  · intro h n s hs
    obtain ⟨hfits, -, hlen⟩ := hstate hs
    have hrest : (⟨[], buf.length - s.buf.length, 0⟩ : Round).Inside buf.length
        (buf.length - s.buf.length) := ⟨by simp, le_rfl, by simp, by simp⟩
    cases hstatus : s.parser.status with
    | readHeader =>
      simp only [Processing.round, hstatus]
      exact headerRound_inside _ _ (by omega) (by omega)
    | readBody =>
      refine (hpart hs hstatus).2 ?_
      have hlength := h n s hs hstatus
      rcases hfits.reading hstatus with hbody | hbody
      · simpa [hbody] using hlength
      · exact hbody
    | headerComplete | bodyComplete | error =>
      simp only [Processing.round, hstatus]
      exact hrest

/-! ## A negative length -/

def negativeHeader : Bytes := headerOf [ascii "--nextimage", ascii "Content-Length: -5"]

def negativePart : Bytes := negativeHeader ++ [120]

def emptyParser : Parser Unit := newMultipartParser () (0, 0, 0, 0)

theorem emptyParser_reachable : Reachable noText ⟨none, none⟩ emptyParser := ⟨(), _, .nil _⟩

theorem negative_lines : ∀ l ∈ [ascii "--nextimage", ascii "Content-Length: -5"], Line l := by
  simp only [List.mem_cons, List.not_mem_nil, or_false, forall_eq_or_imp, forall_eq]
  exact ⟨.of_all (by decide) rfl, .of_all (by decide) rfl⟩

theorem strtol_negative : Libc.strtol (ascii "-5") = some (-5, []) := by
  refine Libc.strtol_eq_some.2 ⟨-5, by decide, ?_⟩
  unfold Libc.longOf Libc.longMax
  omega

theorem parseLine_negative (f : Fields Unit) :
    parseLine noText f (ascii "Content-Length: -5") = some { f with length := -5 } := by
  have hline : (ascii "Content-Length: -5").takeWhile (· ≠ 0) = ascii "Content-Length: -5" := by decide
  have hvalue : (ascii "Content-Length: -5").drop 16 = ascii "-5" := by decide
  simp only [parseLine, hline, hvalue, strtol_negative]
  rw [if_neg (by decide), if_neg (by decide), if_pos (by decide)]
  norm_num [toInt]

theorem parseHeader_negative :
    parseHeader noText negativeHeader ⟨[], (), 0⟩ = some ⟨[], (), -5⟩ := by
  have hlines : scanLines [] 0 negativeHeader = [ascii "--nextimage", ascii "Content-Length: -5"] :=
    scanLines_headerOf (by simp) negative_lines
  have hfirst : parseLine noText ⟨[], (), 0⟩ (ascii "--nextimage") = some ⟨[], (), 0⟩ := rfl
  rw [parseHeader, if_pos (by decide), hlines]
  simp [hfirst, parseLine_negative]

/-- The parser once the header has been read, in the states of the next two rounds. -/
def negativeRead (status : Status) : Processing Unit :=
  ⟨{ emptyParser with
      status
      fields := ⟨[], (), -5⟩
      filepos := .ofNat negativeHeader.length
      eoh := (0, 0, 0, 0) }, 0, [120]⟩

theorem negative_step : (⟨emptyParser, 0, negativePart⟩ : Processing Unit).step noText ⟨none, none⟩ =
    some (negativeRead .headerComplete) := by
  have hcut : cut emptyParser.eoh negativePart = some (negativeHeader, [120]) :=
    cut_headerOf _ (by simp) negative_lines _
  have hheader : emptyParser.header ++ negativeHeader = negativeHeader := rfl
  have hfields : emptyParser.fields = ⟨[], (), 0⟩ := rfl
  rw [step_readHeader rfl]
  simp only [Parser.appendHeader_eq, hcut, Parser.appendAll_eq, Parser.finishHeader, hheader, hfields,
    parseHeader_negative, negativeRead]
  rfl

theorem negativePart_inside : FollowsRounds noText ⟨none, none⟩ emptyParser negativePart ∧
    (StaysInside noText ⟨none, none⟩ emptyParser negativePart ↔
      ∀ n, ∀ s ∈ roundStates noText ⟨none, none⟩ n ⟨emptyParser, 0, negativePart⟩,
        s.parser.status = .readBody → 0 ≤ s.parser.fields.length) :=
  stays_inside_iff emptyParser_reachable negativePart

/-- The part is appended with a count of -5. -/
theorem negativePart_escapes : Reachable noText ⟨none, none⟩ emptyParser ∧
    ¬ StaysInside noText ⟨none, none⟩ emptyParser negativePart := by
  refine ⟨emptyParser_reachable, fun h => ?_⟩
  have hne : negativePart ≠ [] := by simp [negativePart]
  have hstep : (negativeRead .headerComplete).step noText ⟨none, none⟩ =
      some (negativeRead .readBody) := rfl
  have hmem : negativeRead .readBody ∈
      roundStates noText ⟨none, none⟩ 3 ⟨emptyParser, 0, negativePart⟩ := by
    rw [roundStates_succ hne negative_step, roundStates_succ (by simp [negativeRead]) hstep,
      roundStates, if_neg (by simp [negativeRead])]
    simp
  have hround := h 3 _ hmem
  have hlen : negativePart.length = negativeHeader.length + 1 := by simp [negativePart]
  have hread := (@partRound_inside_iff (-5) ([] : Bytes).length negativePart.length
    (negativePart.length - ([120] : Bytes).length) (by simp [hlen]) (by simp)).1 hround
  simp at hread

end Rcom.MultipartParser
