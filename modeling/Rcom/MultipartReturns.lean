import Rcom.MultipartParser
import Mathlib.Tactic

/-!
# When the multipart parser returns (multipart_parser.c)

A parser in the state `k_error` reads no more, so that the loop does not end if there is anything
to read. A negative length has the same source, a header off the network.
-/

namespace Rcom.MultipartParser
open Lib

variable {T : Type} {dt : DoubleText T} {cb : Callbacks T}

/-! ## The stream -/

def Window.pushAll (w : Window) (s : Bytes) : Window := s.foldl Window.push w

def cut (w : Window) : Bytes → Option (Bytes × Bytes)
  | [] => none
  | c :: s =>
    if w.push c = endOfHeader then some ([c], s)
    else (cut (w.push c) s).map fun (section_, rest) => (c :: section_, rest)

/-- No header is rejected or has a negative length, unless it is the last thing in the stream. `h` is
what has been read of the first header. -/
inductive Readable (dt : DoubleText T) : Bytes → Window → Fields T → Bytes → Prop where
  | unfinished {h : Bytes} {w : Window} {f : Fields T} {s : Bytes} : cut w s = none →
      Readable dt h w f s
  | last {h : Bytes} {w : Window} {f : Fields T} {s header : Bytes} : cut w s = some (header, []) →
      Readable dt h w f s
  | part {h : Bytes} {w : Window} {f f' : Fields T} {s header rest : Bytes} :
      cut w s = some (header, rest) → parseHeader dt (h ++ header) f = some f' → 0 ≤ f'.length →
      Readable dt [] (0, 0, 0, 0) f' (rest.drop f'.length.toNat) → Readable dt h w f s

theorem cut_append (w : Window) (s t : Bytes) :
    cut w (s ++ t) = match cut w s with
      | some (header, rest) => some (header, rest ++ t)
      | none => (cut (w.pushAll s) t).map fun (header, rest) => (s ++ header, rest) := by
  induction s generalizing w with
  | nil =>
    rw [List.nil_append, cut, Window.pushAll, List.foldl_nil]
    cases cut w t <;> rfl
  | cons c s ih =>
    rw [List.cons_append, cut, cut]
    split_ifs with hend
    · rfl
    · rw [ih]
      cases cut (w.push c) s with
      | some p => rfl
      | none =>
        rw [Option.map_none, Window.pushAll, Window.pushAll, List.foldl_cons, Option.map_map]
        rfl

theorem cut_eq {w : Window} {s header rest : Bytes} (h : cut w s = some (header, rest)) :
    s = header ++ rest ∧ header ≠ [] := by
  induction s generalizing w header with
  | nil => cases h
  | cons c s ih =>
    rw [cut] at h
    split_ifs at h
    · obtain ⟨rfl, rfl⟩ := Prod.mk.injEq .. ▸ Option.some_inj.1 h
      exact ⟨rfl, List.cons_ne_nil _ _⟩
    · obtain ⟨⟨header', rest'⟩, hcut, heq⟩ := Option.map_eq_some_iff.1 h
      obtain ⟨rfl, rfl⟩ := Prod.mk.injEq .. ▸ heq
      obtain ⟨rfl, -⟩ := ih hcut
      exact ⟨rfl, List.cons_ne_nil _ _⟩

/-! ## Reading a header -/

namespace Parser
variable (m : Parser T)

def appendAll (s : Bytes) : Parser T := s.foldl Parser.append m

@[simp] theorem appendAll_nil : m.appendAll [] = m := rfl

theorem appendAll_cons (c : UInt8) (s : Bytes) :
    m.appendAll (c :: s) = (m.append c).appendAll s := rfl

theorem appendAll_append (s t : Bytes) : m.appendAll (s ++ t) = (m.appendAll s).appendAll t :=
  List.foldl_append

theorem appendAll_eq (s : Bytes) : m.appendAll s = { m with
    filepos := m.filepos + .ofNat s.length
    header := m.header ++ s
    eoh := m.eoh.pushAll s } := by
  induction s generalizing m with
  | nil => simp [Window.pushAll]
  | cons c s ih =>
    rw [appendAll_cons, ih]
    simp only [Parser.append, Window.pushAll, List.foldl_cons, List.length_cons, List.append_assoc,
      List.singleton_append]
    congr 1
    rw [UInt32.add_assoc]
    congr 1
    apply UInt32.toNat_inj.1
    simp
    omega

theorem appendHeader_eq (s : Bytes) : m.appendHeader dt s = match cut m.eoh s with
    | none => (m.appendAll s, [])
    | some (header, rest) => ((m.appendAll header).finishHeader dt, rest) := by
  induction s generalizing m with
  | nil => rfl
  | cons c s ih =>
    rw [appendHeader, cut]
    change (if m.eoh.push c = endOfHeader then _ else _) = _
    split_ifs with hend
    · rfl
    · rw [ih]
      change (match cut (m.eoh.push c) s with | none => _ | some (header, rest) => _) = _
      cases cut (m.eoh.push c) s with
      | none => rfl
      | some p => rfl

end Parser

/-! ## One round of the loop -/

/-- What `Readable` says of the rest of the stream, from the state of the parser. -/
def ReadableFrom (dt : DoubleText T) (m : Parser T) (s : Bytes) : Prop :=
  match m.status with
  | .readHeader | .bodyComplete => Readable dt m.header m.eoh m.fields s
  | .headerComplete | .readBody =>
    s = [] ∨ 0 ≤ m.fields.length - m.body.length ∧
      Readable dt m.header m.eoh m.fields (s.drop (m.fields.length - m.body.length).toNat)
  | .error => s = []

structure Tidy (m : Parser T) : Prop where
  body : m.status = .readHeader → m.body = []
  header : m.status = .headerComplete → m.header = []

theorem readable_nil (h : Bytes) (w : Window) (f : Fields T) : Readable dt h w f [] :=
  .unfinished rfl

theorem readableFrom_nil (m : Parser T) : ReadableFrom dt m [] := by
  unfold ReadableFrom
  split
  · exact readable_nil _ _ _
  · exact readable_nil _ _ _
  · exact Or.inl rfl
  · exact Or.inl rfl
  · rfl

theorem readable_iff_of_cut {h header rest s : Bytes} {w : Window} {f : Fields T}
    (hcut : cut w s = some (header, rest)) :
    Readable dt h w f s ↔ rest = [] ∨ ∃ f', parseHeader dt (h ++ header) f = some f' ∧
      0 ≤ f'.length ∧ Readable dt [] (0, 0, 0, 0) f' (rest.drop f'.length.toNat) := by
  constructor
  · intro hread
    cases hread with
    | unfinished hnone => simp [hnone] at hcut
    | last hlast =>
      rw [hcut] at hlast
      exact Or.inl (Prod.ext_iff.1 (Option.some_inj.1 hlast)).2
    | part hcut' hparse hlen hrest =>
      rw [hcut, Option.some_inj, Prod.ext_iff] at hcut'
      obtain ⟨rfl, rfl⟩ := hcut'
      exact Or.inr ⟨_, hparse, hlen, hrest⟩
  · intro hrest
    obtain rfl | ⟨f', hparse, hlen, hread⟩ := hrest
    · exact .last hcut
    · exact .part hcut hparse hlen hread

/-- The bytes of an unfinished header do not matter apart from being part of it. -/
theorem readable_append {h s t : Bytes} {w : Window} {f : Fields T} (hcut : cut w s = none) :
    Readable dt h w f (s ++ t) ↔ Readable dt (h ++ s) (w.pushAll s) f t := by
  have happend := cut_append w s t
  rw [hcut] at happend
  cases hrest : cut (w.pushAll s) t with
  | none =>
    rw [hrest] at happend
    exact iff_of_true (.unfinished happend) (.unfinished hrest)
  | some p =>
    rw [hrest] at happend
    rw [readable_iff_of_cut happend, readable_iff_of_cut hrest, List.append_assoc]

theorem finishHeader_body (m : Parser T) : (m.finishHeader dt).body = m.body := by
  unfold Parser.finishHeader
  split <;> rfl

theorem finishHeader_header (m : Parser T) (h : (m.finishHeader dt).status = .headerComplete) :
    (m.finishHeader dt).header = [] := by
  unfold Parser.finishHeader at h ⊢
  split at h
  · cases h
  · rfl

theorem readableFrom_finishHeader {m : Parser T} (hbody : m.body = []) (s : Bytes) :
    ReadableFrom dt (m.finishHeader dt) s ↔
      s = [] ∨ ∃ f', parseHeader dt m.header m.fields = some f' ∧
        0 ≤ f'.length ∧ Readable dt [] (0, 0, 0, 0) f' (s.drop f'.length.toNat) := by
  unfold Parser.finishHeader
  cases hparse : parseHeader dt m.header m.fields with
  | none => simp [ReadableFrom]
  | some f' => simp [ReadableFrom, hbody]

section
variable {m : Parser T} {s t : Bytes}

theorem readableFrom_appendHeader (hstatus : m.status = .readHeader) (hbody : m.body = []) :
    Tidy (m.appendHeader dt s).1 ∧
      (ReadableFrom dt (m.appendHeader dt s).1 ((m.appendHeader dt s).2 ++ t) ↔
        ReadableFrom dt m (s ++ t)) := by
  have hfrom : ReadableFrom dt m (s ++ t) ↔ Readable dt m.header m.eoh m.fields (s ++ t) := by
    rw [ReadableFrom, hstatus]
  rw [Parser.appendHeader_eq, hfrom]
  cases hcut : cut m.eoh s with
  | none =>
    have hall := m.appendAll_eq s
    have hstatus' : (m.appendAll s).status = .readHeader := by rw [hall]; exact hstatus
    refine ⟨⟨fun _ => by rw [hall]; exact hbody, fun h => ?_⟩, ?_⟩
    · rw [hstatus'] at h
      cases h
    · rw [readable_append hcut, ReadableFrom, hall]
      simp only [hstatus, List.nil_append]
  | some p =>
    obtain ⟨header, rest⟩ := p
    have happend := cut_append m.eoh s t
    rw [hcut] at happend
    have hall := m.appendAll_eq header
    have hbody' : (m.appendAll header).body = [] := by rw [hall]; exact hbody
    refine ⟨⟨fun _ => (finishHeader_body _).trans hbody', finishHeader_header _⟩, ?_⟩
    rw [readable_iff_of_cut happend, readableFrom_finishHeader hbody', hall]

theorem readableFrom_appendPart (hstatus : m.status = .readBody) (hs : s ≠ []) :
    match m.appendPart s with
    | none => ¬ReadableFrom dt m (s ++ t)
    | some (m', rest) => Tidy m' ∧
      (ReadableFrom dt m' (rest ++ t) ↔ ReadableFrom dt m (s ++ t)) := by
  have hne : s ++ t ≠ [] := fun h => hs (List.append_eq_nil_iff.1 h).1
  have hpos := List.length_pos_of_ne_nil hs
  obtain ⟨k, hk⟩ : ∃ k, k = m.fields.length - m.body.length := ⟨_, rfl⟩
  have hfrom : ReadableFrom dt m (s ++ t) ↔
      0 ≤ k ∧ Readable dt m.header m.eoh m.fields ((s ++ t).drop k.toNat) := by
    rw [ReadableFrom, hstatus, hk]
    exact or_iff_right hne
  rw [Parser.appendPart, ← hk]
  by_cases hmore : (s.length : ℤ) < k
  · rw [if_pos hmore]
    refine ⟨⟨fun h => ?_, fun h => ?_⟩, ?_⟩
    · simp [hstatus] at h
    · simp [hstatus] at h
    · rw [hfrom, ReadableFrom]
      have hneeded : m.fields.length - (m.body ++ s).length = k - s.length := by
        rw [List.length_append]
        omega
      have hdrop : (s ++ t).drop k.toNat = t.drop (k - s.length).toNat := by
        rw [List.drop_append, List.drop_of_length_le (by omega), List.nil_append]
        congr 1
        omega
      simp only [hstatus, List.nil_append, hneeded, hdrop]
      constructor
      · intro h
        obtain rfl | h := h
        · exact ⟨by omega, by rw [List.drop_nil]; exact readable_nil _ _ _⟩
        · exact ⟨by omega, h.2⟩
      · intro h
        exact Or.inr ⟨by omega, h.2⟩
  · rw [if_neg hmore]
    by_cases hneg : k < 0
    · rw [if_pos hneg]
      rw [hfrom]
      exact fun h => absurd h.1 (not_le.2 hneg)
    · rw [if_neg hneg]
      refine ⟨⟨nofun, nofun⟩, ?_⟩
      have hdrop : (s ++ t).drop k.toNat = s.drop k.toNat ++ t :=
        List.drop_append_of_le_length (by omega)
      rw [hfrom, hdrop]
      exact (and_iff_right (not_lt.1 hneg)).symm

end

theorem call_frame (callback : Option (List (Callback T) → ℤ)) (c : Callback T)
    (s : Processing T) : ∃ err calls,
      call callback c s = { s with err, parser := { s.parser with calls } } := by
  cases callback with
  | none => exact ⟨_, _, rfl⟩
  | some f => exact ⟨_, _, rfl⟩

section
variable {s : Processing T}

theorem step_readHeader (h : s.parser.status = .readHeader) : s.step dt cb = some { s with
    parser := (s.parser.appendHeader dt s.buf).1
    buf := (s.parser.appendHeader dt s.buf).2 } := by
  rw [Processing.step]
  simp only [h]

theorem step_headerComplete (h : s.parser.status = .headerComplete) :
    ∃ err calls, s.step dt cb = some { s with
      err
      parser := { s.parser with status := .readBody, header := [], calls } } := by
  obtain ⟨err, calls, hcall⟩ := call_frame cb.onheaders (.onheaders s.parser.fields.length
    s.parser.fields.mimetype s.parser.fields.timestamp s.parser.filepos) s
  refine ⟨err, calls, ?_⟩
  rw [Processing.step]
  simp only [h, hcall]

theorem step_readBody (h : s.parser.status = .readBody) : s.step dt cb =
    (s.parser.appendPart s.buf).map fun (m, buf) => { s with parser := m, buf } := by
  rw [Processing.step]
  simp only [h]
  cases s.parser.appendPart s.buf <;> rfl

theorem step_bodyComplete (h : s.parser.status = .bodyComplete) :
    ∃ err calls, s.step dt cb = some { s with
      err
      parser := { s.parser with status := .readHeader, body := [], calls } } := by
  obtain ⟨err, calls, hcall⟩ := call_frame cb.onpart (.onpart s.parser.body
    s.parser.fields.mimetype s.parser.fields.timestamp) s
  refine ⟨err, calls, ?_⟩
  rw [Processing.step]
  simp only [h, hcall]

theorem step_error (h : s.parser.status = .error) :
    s.step dt cb = some { s with err := -1 } := by
  rw [Processing.step]
  simp only [h]

theorem step_readable (htidy : Tidy s.parser) (hbuf : s.buf ≠ []) (t : Bytes) :
    match s.step dt cb with
    | none => ¬ReadableFrom dt s.parser (s.buf ++ t)
    | some s' => Tidy s'.parser ∧
      (ReadableFrom dt s'.parser (s'.buf ++ t) ↔ ReadableFrom dt s.parser (s.buf ++ t)) := by
  have hne : s.buf ++ t ≠ [] := fun h => hbuf (List.append_eq_nil_iff.1 h).1
  cases hstatus : s.parser.status with
  | readHeader =>
    rw [step_readHeader hstatus]
    exact readableFrom_appendHeader hstatus (htidy.body hstatus)
  | headerComplete =>
    obtain ⟨err, calls, hstep⟩ := @step_headerComplete _ dt cb s hstatus
    rw [hstep]
    refine ⟨⟨nofun, nofun⟩, ?_⟩
    simp only [ReadableFrom, hstatus, htidy.header hstatus]
  | readBody =>
    have hpart := @readableFrom_appendPart _ dt _ _ t hstatus hbuf
    rw [step_readBody hstatus]
    cases happend : s.parser.appendPart s.buf with
    | none =>
      rw [happend] at hpart
      exact hpart
    | some p =>
      rw [happend] at hpart
      exact hpart
  | bodyComplete =>
    obtain ⟨err, calls, hstep⟩ := @step_bodyComplete _ dt cb s hstatus
    rw [hstep]
    refine ⟨⟨fun _ => rfl, nofun⟩, ?_⟩
    simp only [ReadableFrom, hstatus]
  | error =>
    rw [step_error hstatus]
    exact ⟨htidy, Iff.rfl⟩

/-! ## The loop -/

def rank : Status → ℕ
  | .readHeader | .error => 0
  | .bodyComplete => 1
  | .readBody => 2
  | .headerComplete => 3

/-- What is left to do: a round reads something or goes on to the next state. -/
def Processing.weight (s : Processing T) : ℕ := 4 * s.buf.length + rank s.parser.status

theorem step_weight {s' : Processing T} (h : s.step dt cb = some s') (hbuf : s.buf ≠ [])
    (herror : s.parser.status ≠ .error) : s'.weight < s.weight := by
  have hpos := List.length_pos_of_ne_nil hbuf
  unfold Processing.weight
  cases hstatus : s.parser.status with
  | readHeader =>
    rw [step_readHeader hstatus, Option.some_inj, Parser.appendHeader_eq] at h
    cases hcut : cut s.parser.eoh s.buf with
    | none =>
      simp only [hcut] at h
      obtain rfl := h
      rw [Parser.appendAll_eq]
      simp only [hstatus, rank, List.length_nil]
      omega
    | some p =>
      obtain ⟨header, rest⟩ := p
      simp only [hcut] at h
      obtain rfl := h
      obtain ⟨hbuf, hheader⟩ := cut_eq hcut
      have hlen := List.length_pos_of_ne_nil hheader
      have hrank : ∀ status, rank status ≤ 3 := by
        intro status
        cases status <;> decide
      have hrank' := hrank ((s.parser.appendAll header).finishHeader dt).status
      rw [hbuf, List.length_append]
      dsimp only
      omega
  | headerComplete =>
    obtain ⟨err, calls, hstep⟩ := @step_headerComplete _ dt cb s hstatus
    rw [hstep, Option.some_inj] at h
    obtain rfl := h
    simp only [rank]
    omega
  | readBody =>
    rw [step_readBody hstatus, Parser.appendPart] at h
    dsimp only at h
    split_ifs at h
    · obtain rfl := Option.some_inj.1 h
      simp only [hstatus, rank, List.length_nil]
      omega
    · cases h
    · obtain rfl := Option.some_inj.1 h
      simp only [rank, List.length_drop]
      omega
  | bodyComplete =>
    obtain ⟨err, calls, hstep⟩ := @step_bodyComplete _ dt cb s hstatus
    rw [hstep, Option.some_inj] at h
    obtain rfl := h
    simp only [rank]
    omega
  | error => exact absurd hstatus herror

end

theorem processLoop_nil {s : Processing T} (h : s.buf = []) (rounds : ℕ) :
    processLoop dt cb rounds s = .returned s.err s.parser := by
  rw [processLoop.eq_def, if_pos h]

theorem processLoop_succ {s : Processing T} (h : s.buf ≠ []) (rounds : ℕ) :
    processLoop dt cb (rounds + 1) s = match s.step dt cb with
      | none => .undefined
      | some s' => processLoop dt cb rounds s' := by
  rw [processLoop.eq_def]
  exact if_neg h

/-- Where the loop returns, all of the buffer was readable, and the parser goes on with the rest of
the stream as if it were one buffer. -/
theorem processLoop_readable {s : Processing T} (htidy : Tidy s.parser) {rounds : ℕ} {err : ℤ}
    {m : Parser T} (h : processLoop dt cb rounds s = .returned err m) :
    Tidy m ∧ ∀ t, ReadableFrom dt m t ↔ ReadableFrom dt s.parser (s.buf ++ t) := by
  induction rounds generalizing s with
  | zero =>
    by_cases hbuf : s.buf = []
    · rw [processLoop_nil hbuf] at h
      cases h
      exact ⟨htidy, fun t => by rw [hbuf, List.nil_append]⟩
    · rw [processLoop.eq_def, if_neg hbuf] at h
      cases h
  | succ rounds ih =>
    by_cases hbuf : s.buf = []
    · rw [processLoop_nil hbuf] at h
      cases h
      exact ⟨htidy, fun t => by rw [hbuf, List.nil_append]⟩
    · rw [processLoop_succ hbuf] at h
      have hstep := @step_readable _ dt cb s htidy hbuf
      cases hnext : s.step dt cb with
      | none =>
        rw [hnext] at h
        cases h
      | some s' =>
        simp only [hnext] at h hstep
        obtain ⟨htidy', hread⟩ := ih (hstep []).1 h
        exact ⟨htidy', fun t => (hread t).trans (hstep t).2⟩

theorem processLoop_returns {s : Processing T} (htidy : Tidy s.parser)
    (h : ReadableFrom dt s.parser s.buf) :
    ∃ rounds err m, processLoop dt cb rounds s = .returned err m := by
  induction hw : s.weight using Nat.strong_induction_on generalizing s with
  | _ w ih =>
    by_cases hbuf : s.buf = []
    · exact ⟨0, _, _, processLoop_nil hbuf 0⟩
    · have herror : s.parser.status ≠ .error := by
        intro herror
        rw [ReadableFrom, herror] at h
        exact hbuf h
      have hstep := @step_readable _ dt cb s htidy hbuf []
      simp only [List.append_nil] at hstep
      cases hnext : s.step dt cb with
      | none =>
        rw [hnext] at hstep
        exact absurd h hstep
      | some s' =>
        rw [hnext] at hstep
        have hweight := step_weight hnext hbuf herror
        obtain ⟨rounds, err, m, hreturn⟩ :=
          ih _ (hw ▸ hweight) hstep.1 (hstep.2.2 h) rfl
        refine ⟨rounds + 1, err, m, ?_⟩
        rw [processLoop_succ hbuf, hnext]
        exact hreturn

/-! ## All calls return -/

theorem readable_prefix {h s t : Bytes} {w : Window} {f : Fields T}
    (hread : Readable dt h w f (s ++ t)) : Readable dt h w f s := by
  generalize hst : s ++ t = u at hread
  induction hread generalizing s with
  | @unfinished h w f u hcut =>
    subst hst
    rw [cut_append] at hcut
    cases hs : cut w s with
    | none => exact .unfinished hs
    | some p => simp [hs] at hcut
  | @last h w f u header hcut =>
    subst hst
    rw [cut_append] at hcut
    cases hs : cut w s with
    | none => exact .unfinished hs
    | some p =>
      obtain ⟨header', rest'⟩ := p
      simp only [hs, Option.some_inj, Prod.mk.injEq, List.append_eq_nil_iff] at hcut
      exact .last (hcut.2.1 ▸ hs)
  | @part h w f f' u header rest hcut hparse hlen hrest ih =>
    subst hst
    rw [cut_append] at hcut
    cases hs : cut w s with
    | none => exact .unfinished hs
    | some p =>
      obtain ⟨header', rest'⟩ := p
      simp only [hs, Option.some_inj, Prod.mk.injEq] at hcut
      obtain ⟨rfl, rfl⟩ := hcut
      refine .part hs hparse hlen ?_
      by_cases hle : f'.length.toNat ≤ rest'.length
      · exact ih (List.drop_append_of_le_length hle).symm
      · rw [List.drop_of_length_le (by omega)]
        exact readable_nil _ _ _

theorem readableFrom_left {m : Parser T} {s t : Bytes} (h : ReadableFrom dt m (s ++ t)) :
    ReadableFrom dt m s := by
  by_cases hs : s = []
  · rw [hs]
    exact readableFrom_nil m
  · have hne : s ++ t ≠ [] := fun h => hs (List.append_eq_nil_iff.1 h).1
    unfold ReadableFrom at h ⊢
    cases hstatus : m.status with
    | readHeader | bodyComplete =>
      simp only [hstatus] at h
      exact readable_prefix h
    | headerComplete | readBody =>
      simp only [hstatus] at h
      obtain ⟨hlen, hread⟩ := h.resolve_left hne
      refine Or.inr ⟨hlen, ?_⟩
      rw [List.drop_append] at hread
      exact readable_prefix hread
    | error =>
      simp only [hstatus] at h
      exact absurd h hne

end Rcom.MultipartParser
