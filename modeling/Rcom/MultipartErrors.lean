import Rcom.MultipartReturns

/-!
# What multipart_parser_process returns

The loop has one variable for all errors. Each callback overwrites it, and a header that is rejected
does not touch it.
-/

namespace Rcom.MultipartParser
open Lib

variable {T : Type} (dt : DoubleText T) (cb : Callbacks T)

inductive Note where
  | rejected
  | returned (err : ℤ)
deriving DecidableEq

def Note.Fails : Note → Prop
  | .rejected => True
  | .returned err => err ≠ 0

def called (callback : Option (List (Callback T) → ℤ)) (c : Callback T) (s : Processing T) :
    List Note :=
  match callback with
  | none => []
  | some f => [.returned (f (s.parser.calls ++ [c]))]

def Processing.notes (s : Processing T) : List Note :=
  let m := s.parser
  match m.status with
  | .readHeader => if (m.appendHeader dt s.buf).1.status = .error then [.rejected] else []
  | .headerComplete =>
    called cb.onheaders (.onheaders m.fields.length m.fields.mimetype m.fields.timestamp m.filepos) s
  | .bodyComplete => called cb.onpart (.onpart m.body m.fields.mimetype m.fields.timestamp) s
  | .readBody | .error => []

def loopNotes : ℕ → Processing T → List Note
  | 0, _ => []
  | rounds + 1, s =>
    if s.buf = [] then []
    else
      match s.step dt cb with
      | none => s.notes dt cb
      | some s' => s.notes dt cb ++ loopNotes rounds s'

def lastReturned (err : ℤ) : List Note → ℤ
  | [] => err
  | .rejected :: ns => lastReturned err ns
  | .returned e :: ns => lastReturned e ns

theorem lastReturned_append (err : ℤ) (ns ns' : List Note) :
    lastReturned err (ns ++ ns') = lastReturned (lastReturned err ns) ns' := by
  induction ns generalizing err with
  | nil => rfl
  | cons n ns ih =>
    cases n with
    | rejected => exact ih err
    | returned e => exact ih e

theorem lastReturned_zero {ns : List Note} (h : ∀ n ∈ ns, ¬ n.Fails) : lastReturned 0 ns = 0 := by
  induction ns with
  | nil => rfl
  | cons n ns ih =>
    have hn := h n List.mem_cons_self
    have hns := ih fun n' hn' => h n' (List.mem_cons_of_mem _ hn')
    cases n with
    | rejected => exact absurd trivial hn
    | returned e =>
      obtain rfl : e = 0 := not_not.1 hn
      exact hns

theorem exists_fails_of_lastReturned {ns : List Note} (h : lastReturned 0 ns ≠ 0) :
    ∃ n ∈ ns, n.Fails := by
  by_contra hnone
  refine h (lastReturned_zero fun n hn hfails => hnone ⟨n, hn, hfails⟩)

variable {dt cb} {s s' : Processing T}

theorem call_err (callback : Option (List (Callback T) → ℤ)) (c : Callback T) (s : Processing T) :
    (call callback c s).err = lastReturned s.err (called callback c s) := by
  cases callback <;> rfl

theorem step_err (h : s.step dt cb = some s') (hstatus : s.parser.status ≠ .error) :
    s'.err = lastReturned s.err (s.notes dt cb) := by
  cases hs : s.parser.status with
  | readHeader =>
    simp only [Processing.step, hs, Option.some.injEq] at h
    subst h
    simp only [Processing.notes, hs]
    split_ifs <;> rfl
  | headerComplete =>
    simp only [Processing.step, hs, Option.some.injEq] at h
    subst h
    simp only [Processing.notes, hs]
    exact call_err _ _ _
  | readBody =>
    rw [step_readBody hs, Option.map_eq_some_iff] at h
    obtain ⟨p, -, rfl⟩ := h
    simp only [Processing.notes, hs]
    rfl
  | bodyComplete =>
    simp only [Processing.step, hs, Option.some.injEq] at h
    subst h
    simp only [Processing.notes, hs]
    exact call_err _ _ _
  | error => exact absurd hs hstatus

/-- Once a header was rejected the loop only ends if nothing is left to read. -/
theorem processLoop_error (hs : s.parser.status = .error) (hbuf : s.buf ≠ []) {rounds : ℕ}
    {err : ℤ} {m : Parser T} : processLoop dt cb rounds s ≠ .returned err m := by
  induction rounds generalizing s with
  | zero =>
    rw [processLoop.eq_def, if_neg hbuf]
    simp
  | succ rounds ih =>
    rw [processLoop_succ hbuf, step_error hs]
    exact ih hs hbuf

theorem processLoop_err {rounds : ℕ} {err : ℤ} {m : Parser T} (hstatus : s.parser.status ≠ .error)
    (h : processLoop dt cb rounds s = .returned err m) :
    err = lastReturned s.err (loopNotes dt cb rounds s) := by
  induction rounds generalizing s with
  | zero =>
    by_cases hbuf : s.buf = []
    · rw [processLoop_nil hbuf] at h
      cases h
      rfl
    · rw [processLoop.eq_def, if_neg hbuf] at h
      cases h
  | succ rounds ih =>
    rw [loopNotes]
    by_cases hbuf : s.buf = []
    · rw [processLoop_nil hbuf] at h
      cases h
      rw [if_pos hbuf]
      rfl
    · rw [processLoop_succ hbuf] at h
      rw [if_neg hbuf]
      cases hnext : s.step dt cb with
      | none =>
        rw [hnext] at h
        cases h
      | some s' =>
        simp only [hnext] at h ⊢
        rw [lastReturned_append, ← step_err hnext hstatus]
        by_cases hs' : s'.parser.status = .error
        · have hbuf' : s'.buf = [] := by
            by_contra hbuf'
            exact processLoop_error hs' hbuf' h
          rw [processLoop_nil hbuf'] at h
          cases h
          cases rounds <;> simp [loopNotes, hbuf', lastReturned]
        · exact ih hs' h

/-- The return value tells whether something failed, unless something did and the last callback
was content. -/
theorem errors_reported_iff {m m' : Parser T} (hstatus : m.status ≠ .error) {buf : Bytes}
    {rounds : ℕ} {err : ℤ} (h : processLoop dt cb rounds ⟨m, 0, buf⟩ = .returned err m') :
    (err ≠ 0 ↔ ∃ n ∈ loopNotes dt cb rounds ⟨m, 0, buf⟩, n.Fails) ↔
      lastReturned 0 (loopNotes dt cb rounds ⟨m, 0, buf⟩) ≠ 0 ∨
        ∀ n ∈ loopNotes dt cb rounds ⟨m, 0, buf⟩, ¬ n.Fails := by
  have herr : err = lastReturned 0 (loopNotes dt cb rounds ⟨m, 0, buf⟩) :=
    processLoop_err (s := ⟨m, 0, buf⟩) hstatus h
  rw [herr]
  constructor
  · intro hreport
    by_cases hlast : lastReturned 0 (loopNotes dt cb rounds ⟨m, 0, buf⟩) = 0
    · right
      intro n hn hfails
      exact hreport.2 ⟨n, hn, hfails⟩ hlast
    · exact .inl hlast
  · rintro (hlast | hnone)
    · exact iff_of_true hlast (exists_fails_of_lastReturned hlast)
    · refine iff_of_false (not_not.2 (lastReturned_zero hnone)) ?_
      rintro ⟨n, hn, hfails⟩
      exact hnone n hn hfails

/-- Numbers that are never written. -/
def noText : DoubleText Unit := ⟨fun _ => [], fun _ => (), fun _ => false⟩

theorem bad_separator_errors :
    ((0 : ℤ) ≠ 0 ↔ ∃ n ∈ loopNotes noText ⟨none, none⟩ 1
        ⟨newMultipartParser () (0, 0, 0, 0), 0, ascii "x\r\n\r\n"⟩, n.Fails) ↔
      lastReturned 0 (loopNotes noText ⟨none, none⟩ 1
          ⟨newMultipartParser () (0, 0, 0, 0), 0, ascii "x\r\n\r\n"⟩) ≠ 0 ∨
        ∀ n ∈ loopNotes noText ⟨none, none⟩ 1
          ⟨newMultipartParser () (0, 0, 0, 0), 0, ascii "x\r\n\r\n"⟩, ¬ n.Fails :=
  errors_reported_iff (m := newMultipartParser () (0, 0, 0, 0)) (by simp [newMultipartParser]) rfl

/-- A header that is none ends the buffer: the call returns 0. -/
theorem bad_separator_returns_zero :
    Process noText ⟨none, none⟩ (newMultipartParser () (0, 0, 0, 0)) (ascii "x\r\n\r\n") 0
        { (newMultipartParser () (0, 0, 0, 0)).appendAll (ascii "x\r\n\r\n") with status := .error } ∧
      ¬ ((0 : ℤ) ≠ 0 ↔ ∃ n ∈ loopNotes noText ⟨none, none⟩ 1
        ⟨newMultipartParser () (0, 0, 0, 0), 0, ascii "x\r\n\r\n"⟩, n.Fails) := by
  refine ⟨⟨1, rfl⟩, fun h => ?_⟩
  exact h.2 ⟨.rejected, by decide, trivial⟩ rfl

end Rcom.MultipartParser
