import Rcom.Lib.Program
import Mathlib.Data.List.Nodup
import Mathlib.Logic.Function.Basic
import Mathlib.Tactic.Tauto

/-!
# Records that are handed to workers and back

One thread makes records. It puts each in a list, starts a worker for it, and later frees the
records that their workers have moved to a second list. Both lists are changed under one mutex.
Who may use a record follows from how far the two sides have come with it: the control thread
until it starts the worker, then the worker until it releases the record, then the control thread
again. A worker releases its record when it will not use it any more. A record whose worker could
not be started is stranded: it stays in the first list, and nobody moves it to the second one.

Thread 0 is the control thread and thread `k + 1` the worker of record `k`.
-/

namespace Rcom.Lib.Workers
open Program Trace

inductive Ctl where
  | fresh
  | made
  | listed
  | running
  | stranded
  | joined
  | freed
  deriving DecidableEq

inductive Wrk where
  | idle
  | working
  | leaving
  | retired
  | released
  deriving DecidableEq

def Ctl.owns : Ctl → Bool
  | .fresh | .made | .listed => true
  | _ => false

def Wrk.owns : Wrk → Bool
  | .working | .leaving | .retired => true
  | _ => false

/-- `own` is an action on the data of a record, the answer to `ask` comes from outside, and that to
`start` says whether there is a worker now. -/
inductive Act (B : Type) where
  | lock
  | unlock
  | ask
  | accept
  | own (k : ℕ) (b : B)
  | append (k : ℕ)
  | start (k : ℕ)
  | thread (k : ℕ)
  | join (k : ℕ)
  | finished
  | free (k : ℕ)
  | clear
  | anyActive
  | take
  | begin (k : ℕ)
  | remove (k : ℕ)
  | prepend (k : ℕ)
  | release (k : ℕ)

/-- Why the control thread may use a record that its worker has put in the second list: it joins
the worker first, the worker has released the record before it unlocks, or there is no reason. -/
inductive Discipline where
  | joins
  | prompt
  | trusting
  deriving DecidableEq

/-- The data of the records, what always holds of it, and what it is when a record changes hands. -/
structure Contract (D B : Type) (R : B → Type) where
  new : D
  does : D → (b : B) → R b → D → Prop
  sound : D → Prop
  sound_new : sound new
  discipline : Discipline
  handed : D → Prop
  returned : D → Prop
  disposed : D → Prop
  disposed_of_returned : ∀ d, returned d → disposed d
  sound_of_returned : ∀ d, returned d → sound d

variable {D B : Type} {R : B → Type}

abbrev Act.Answer (R : B → Type) : Act B → Type
  | .ask | .start _ | .thread _ | .anyActive => Bool
  | .accept => Option ℕ
  | .own _ b => R b
  | .finished | .take => List ℕ
  | _ => Unit

abbrev Program (R : B → Type) (α : Type) := Prog (Act.Answer R) α

def doing (a : Act B) : Program R (a.Answer R) := perform a

/-- `taken` is the first list once the control thread has emptied it or has found it empty, `frees`
counts how often each record was freed. -/
structure Pool (D : Type) where
  holder : Option ℕ
  active : List ℕ
  finished : List ℕ
  taken : Option (List ℕ)
  ctl : ℕ → Ctl
  wrk : ℕ → Wrk
  data : ℕ → D
  frees : ℕ → ℕ

namespace Pool
variable (s : Pool D)

def setCtl (k : ℕ) (c : Ctl) : Pool D := { s with ctl := Function.update s.ctl k c }

def setWrk (k : ℕ) (w : Wrk) : Pool D := { s with wrk := Function.update s.wrk k w }

def setData (k : ℕ) (d : D) : Pool D := { s with data := Function.update s.data k d }

end Pool

variable (C : Contract D B R)

/-- What an action of thread `i` does. A freed record may hold anything, and there is nothing to
join for a record without a worker. -/
def Does (i : ℕ) (s : Pool D) : (a : Act B) → a.Answer R → Pool D → Prop
  | .lock, _, t => s.holder = none ∧ t = { s with holder := some i }
  | .unlock, _, t => t = { s with holder := none }
  | .ask, _, t => t = s
  | .accept, r, t =>
    match (r : Option ℕ) with
    | none => t = s
    | some k => s.ctl k = .fresh ∧ t = (s.setCtl k .made).setData k C.new
  | .own k b, r, t =>
    ∃ d, (s.ctl k ≠ .freed → C.does (s.data k) b r d) ∧ t = s.setData k d
  | .append k, _, t => t = { s.setCtl k .listed with active := s.active ++ [k] }
  | .start k, r, t => t = s.setCtl k (if (r : Bool) then .running else .stranded)
  | .thread k, r, t => (r : Bool) = decide (s.ctl k = .running) ∧ t = s
  | .join k, _, t =>
    s.ctl k = .stranded ∧ t = s ∨
      s.ctl k ≠ .stranded ∧ s.wrk k = .released ∧ t = s.setCtl k .joined
  | .finished, r, t => r = s.finished ∧ t = s
  | .free k, _, t =>
    t = { s.setCtl k .freed with frees := Function.update s.frees k (s.frees k + 1) }
  | .clear, _, t => t = { s with finished := [] }
  | .anyActive, r, t =>
    (r : Bool) = !s.active.isEmpty ∧ t = if r then s else { s with taken := some [] }
  | .take, r, t => r = s.active ∧ t = { s with active := [], taken := some s.active }
  | .begin k, _, t => s.ctl k = .running ∧ t = s.setWrk k .working
  | .remove k, _, t => t = { s.setWrk k .leaving with active := s.active.erase k }
  | .prepend k, _, t => t = { s.setWrk k .retired with finished := k :: s.finished }
  | .release k, _, t => t = s.setWrk k .released

/-! ## What the threads see -/

/-- The control thread's view. `data` is of the records that are its own, `fin` is the second list
while it holds the mutex. -/
structure Control (D : Type) where
  ctl : ℕ → Ctl
  data : ℕ → Option D
  fin : Option (List ℕ)
  taken : Option (List ℕ)

structure Worker (D : Type) where
  record : ℕ
  wrk : Wrk
  data : Option D
  holds : Prop

inductive View (D : Type) where
  | control (c : Control D)
  | worker (w : Worker D)

def Pool.control (s : Pool D) : Control D where
  ctl := s.ctl
  data k := if (s.ctl k).owns then some (s.data k) else none
  fin := if s.holder = some 0 then some s.finished else none
  taken := s.taken

def Pool.worker (s : Pool D) (k : ℕ) : Worker D where
  record := k
  wrk := s.wrk k
  data := if (s.wrk k).owns then some (s.data k) else none
  holds := s.holder = some (k + 1)

def Pool.view (s : Pool D) : ℕ → View D
  | 0 => .control s.control
  | k + 1 => .worker (s.worker k)

def Control.Sweeps (c : Control D) (k : ℕ) : Prop :=
  (∃ l, c.fin = some l ∧ k ∈ l) ∧
    (c.ctl k = .joined ∨ c.ctl k = .running ∧ C.discipline ≠ .joins)

def Control.Pre (c : Control D) : Act B → Prop
  | .lock => c.fin = none
  | .unlock => ∃ l, c.fin = some l ∧ ∀ k ∈ l, c.ctl k ≠ .freed
  | .ask | .accept | .thread _ => True
  | .own k b => (∃ d, c.data k = some d ∧ ∀ r d', C.does d b r d' → C.sound d') ∨
      c.Sweeps C k ∧ ∀ d r d', C.returned d → C.does d b r d' → C.returned d'
  | .append k => c.fin.isSome ∧ c.ctl k = .made ∧ c.taken = none
  | .start k => c.ctl k = .listed ∧ c.taken = none ∧ ∀ d ∈ c.data k, C.handed d
  | .join k => c.ctl k = .running ∨ c.ctl k = .stranded
  | .finished => c.fin.isSome
  | .free k => (c.ctl k = .made ∧ ∀ d ∈ c.data k, C.disposed d) ∨ c.Sweeps C k
  | .clear => ∃ l, c.fin = some l ∧ ∀ k ∈ l, c.ctl k = .freed
  | .anyActive => c.taken = none ∧ ∀ k, c.ctl k ≠ .listed
  | .take => c.fin.isSome ∧ c.taken = none ∧ ∀ k, c.ctl k ≠ .listed
  | .begin _ | .remove _ | .prepend _ | .release _ => False

def Control.setCtl (c : Control D) (k : ℕ) (x : Ctl) (d : Option D) : Control D :=
  { c with ctl := Function.update c.ctl k x, data := Function.update c.data k d }

structure Control.Found (c : Control D) (l : List ℕ) : Prop where
  nodup : l.Nodup
  out : ∀ k ∈ l, c.ctl k = .running ∨ c.ctl k = .joined
  data : ∀ k ∈ l, c.data k = none
  joined : ∀ k, c.ctl k = .joined → k ∈ l
  running : ∀ taken, c.taken = some taken → ∀ k, c.ctl k = .running → k ∈ taken ∨ k ∈ l

def Control.Sees (c : Control D) : (a : Act B) → a.Answer R → Control D → Prop
  | .lock, _, c' => ∃ l, c.Found l ∧ c' = { c with fin := some l }
  | .unlock, _, c' => c' = { c with fin := none }
  | .accept, r, c' =>
    match (r : Option ℕ) with
    | none => c' = c
    | some k => c.ctl k = .fresh ∧ c' = c.setCtl k .made (some C.new)
  | .own k b, r, c' =>
    (∃ d d', c.data k = some d ∧ C.does d b r d' ∧ c' = c.setCtl k (c.ctl k) (some d')) ∨
      c.data k = none ∧ (∃ d d', C.returned d ∧ C.does d b r d') ∧ c' = c
  | .append k, _, c' => c' = c.setCtl k .listed (c.data k)
  | .start k, r, c' => c' = c.setCtl k (if (r : Bool) then .running else .stranded) none
  | .thread k, r, c' => (r : Bool) = decide (c.ctl k = .running) ∧ c' = c
  | .join k, _, c' => c' = if c.ctl k = .stranded then c else c.setCtl k .joined none
  | .finished, r, c' => c.fin = some r ∧ c' = c
  | .free k, _, c' => c' = c.setCtl k .freed none
  | .clear, _, c' => c' = { c with fin := some [] }
  | .anyActive, r, c' => c' = if (r : Bool) then c else { c with taken := some [] }
  | .take, r, c' =>
    (r : List ℕ).Nodup ∧ (∀ k ∈ (r : List ℕ), c.ctl k = .running ∨ c.ctl k = .stranded) ∧
      c' = { c with taken := some r }
  | _, _, c' => c' = c

def Worker.Pre (w : Worker D) : Act B → Prop
  | .lock => ¬ w.holds
  | .unlock => w.holds ∧ w.wrk ≠ .leaving ∧ (C.discipline = .prompt → w.wrk ≠ .retired)
  | .ask => True
  | .own k b => k = w.record ∧ ∃ d, w.data = some d ∧ ∀ r d', C.does d b r d' → C.sound d'
  | .begin k => k = w.record ∧ w.wrk = .idle
  | .remove k => k = w.record ∧ w.holds ∧ w.wrk = .working
  | .prepend k => k = w.record ∧ w.holds ∧ w.wrk = .leaving
  | .release k => k = w.record ∧ w.wrk = .retired ∧ ∀ d ∈ w.data, C.returned d
  | _ => False

def Worker.Sees (w : Worker D) : (a : Act B) → a.Answer R → Worker D → Prop
  | .lock, _, w' => w' = { w with holds := True }
  | .unlock, _, w' => w' = { w with holds := False }
  | .own _ b, r, w' => ∃ d d', w.data = some d ∧ C.does d b r d' ∧ w' = { w with data := some d' }
  | .begin _, _, w' => ∃ d, C.handed d ∧ w' = { w with wrk := .working, data := some d }
  | .remove _, _, w' => w' = { w with wrk := .leaving }
  | .prepend _, _, w' => w' = { w with wrk := .retired }
  | .release _, _, w' => w' = { w with wrk := .released, data := none }
  | _, _, w' => w' = w

def View.Pre : View D → Act B → Prop
  | .control c, a => c.Pre C a
  | .worker w, a => w.Pre C a

def View.Sees : View D → (a : Act B) → a.Answer R → View D → Prop
  | .control c, a, r, .control c' => c.Sees C a r c'
  | .worker w, a, r, .worker w' => w.Sees C a r w'
  | _, _, _, _ => False

/-! ## The invariant -/

structure Cell (D : Type) where
  record : ℕ
  holder : Option ℕ
  taken : Option (List ℕ)
  active : Prop
  finished : Prop
  ctl : Ctl
  wrk : Wrk
  data : D
  frees : ℕ

def Pool.cell (s : Pool D) (k : ℕ) : Cell D where
  record := k
  holder := s.holder
  taken := s.taken
  active := k ∈ s.active
  finished := k ∈ s.finished
  ctl := s.ctl k
  wrk := s.wrk k
  data := s.data k
  frees := s.frees k

structure Cell.Good (c : Cell D) : Prop where
  active : c.active ↔ c.taken = none ∧ (c.ctl = .listed ∨ c.ctl = .running ∨ c.ctl = .stranded) ∧
    (c.wrk = .idle ∨ c.wrk = .working)
  finished : c.finished → c.wrk = .retired ∨ c.wrk = .released
  out : c.wrk = .retired ∨ c.wrk = .released → c.finished ∨ c.ctl = .freed
  swept : c.finished → c.ctl = .freed → c.holder = some 0
  busy : c.wrk ≠ .idle → c.ctl.owns = false
  joined : c.ctl = .joined → c.wrk = .released
  freed : c.ctl = .freed → c.wrk = .idle ∨ c.wrk = .released
  leaving : c.wrk = .leaving → c.holder = some (c.record + 1)
  prompt : C.discipline = .prompt → c.wrk = .retired → c.holder = some (c.record + 1)
  taken : ∀ l, c.taken = some l → c.ctl = .running → c.record ∈ l ∨ c.finished ∨ c.wrk = .leaving
  sound : c.ctl ≠ .fresh → C.sound c.data
  handed : c.ctl = .running → c.wrk = .idle → C.handed c.data
  stranded : c.ctl = .stranded → c.wrk = .idle ∧ C.handed c.data
  returned : c.wrk = .released → c.ctl ≠ .freed → C.returned c.data
  disposed : c.ctl = .freed → C.disposed c.data
  frees : c.frees = if c.ctl = .freed then 1 else 0

structure Inv (s : Pool D) : Prop where
  good : ∀ k, (s.cell k).Good C
  active_nodup : s.active.Nodup
  finished_nodup : s.finished.Nodup

def Timely (i : ℕ) (s : Pool D) (a : Act B) : Prop :=
  C.discipline = .trusting → i = 0 → ∀ k, (a = .free k ∨ ∃ b, a = .own k b) → s.ctl k = .running →
    s.wrk k = .released

namespace Cell.Good
variable {C} {c : Cell D}

theorem lock (h : c.Good C) (hholder : c.holder = none) (i : ℕ) :
    { c with holder := some i }.Good C := by
  have h₁ : ¬ c.wrk = .leaving := fun hw => by simpa [hholder] using h.leaving hw
  have h₂ : c.finished → ¬ c.ctl = .freed := fun hf hc => by simpa [hholder] using h.swept hf hc
  have h₃ : C.discipline = .prompt → ¬ c.wrk = .retired :=
    fun hd hw => by simpa [hholder] using h.prompt hd hw
  exact { h with
    swept := fun hf hc => absurd hc (h₂ hf)
    leaving := fun hw => absurd hw h₁
    prompt := fun hd hw => absurd hw (h₃ hd) }

theorem unlock (h : c.Good C) (hfreed : c.finished → c.ctl ≠ .freed) (hleaving : c.wrk ≠ .leaving)
    (hretired : C.discipline = .prompt → c.wrk ≠ .retired) : { c with holder := none }.Good C :=
  { h with
    swept := fun hf hc => absurd hc (hfreed hf)
    leaving := fun hw => absurd hw hleaving
    prompt := fun hd hw => absurd hw (hretired hd) }

theorem idle (h : c.Good C) (hc : c.ctl.owns = true) : c.wrk = .idle := by
  by_contra hw
  rw [h.busy hw] at hc
  exact absurd hc (by simp)

theorem not_freed (h : c.Good C) (hw : c.wrk.owns = true) : c.ctl ≠ .freed := by
  intro hc
  rcases h.freed hc with h' | h' <;> simp [h', Wrk.owns] at hw

theorem made (h : c.Good C) (hc : c.ctl = .fresh) :
    { c with ctl := .made, data := C.new }.Good C := by
  have hw := h.idle (by rw [hc]; rfl)
  have hnew := C.sound_new
  obtain ⟨h₁, h₂, h₃, h₄, h₅, h₆, h₇, h₈, h₉, h₁₀, h₁₁, h₁₂, h₁₃, h₁₄, h₁₅, h₁₆⟩ := h
  constructor <;> simp_all

theorem own (h : c.Good C) (hc : c.ctl.owns = true) {d : D} (hd : C.sound d) :
    { c with data := d }.Good C := by
  have hw := h.idle hc
  have hr : c.ctl ≠ .running := fun h' => by simp [h', Ctl.owns] at hc
  have hf : c.ctl ≠ .freed := fun h' => by simp [h', Ctl.owns] at hc
  have hs : c.ctl ≠ .stranded := fun h' => by simp [h', Ctl.owns] at hc
  exact { h with
    stranded := fun h' => absurd h' hs
    handed := fun h' => absurd h' hr
    returned := fun h' => by simp [hw] at h'
    disposed := fun h' => absurd h' hf
    sound := fun _ => hd }

theorem own_released (h : c.Good C) (hw : c.wrk = .released) (hc : c.ctl ≠ .freed) {d : D}
    (hd : C.returned d) : { c with data := d }.Good C :=
  { h with
    stranded := fun h' => absurd (hw.symm.trans (h.stranded h').1) (by simp)
    handed := fun _ h' => by simp [hw] at h'
    returned := fun _ _ => hd
    disposed := fun h' => absurd h' hc
    sound := fun _ => C.sound_of_returned d hd }

theorem own_worker (h : c.Good C) (hw : c.wrk.owns = true) {d : D} (hd : C.sound d) :
    { c with data := d }.Good C := by
  have hf := h.not_freed hw
  have hidle : c.wrk ≠ .idle := fun h' => by simp [h', Wrk.owns] at hw
  have hreleased : c.wrk ≠ .released := fun h' => by simp [h', Wrk.owns] at hw
  exact { h with
    stranded := fun h' => absurd (h.stranded h').1 hidle
    handed := fun _ h' => absurd h' hidle
    returned := fun h' => absurd h' hreleased
    disposed := fun h' => absurd h' hf
    sound := fun _ => hd }

theorem append (h : c.Good C) (hc : c.ctl = .made) (ht : c.taken = none) :
    { c with active := True, ctl := .listed }.Good C := by
  have hw := h.idle (by rw [hc]; rfl)
  obtain ⟨h₁, h₂, h₃, h₄, h₅, h₆, h₇, h₈, h₉, h₁₀, h₁₁, h₁₂, h₁₃, h₁₄, h₁₅, h₁₆⟩ := h
  constructor <;> simp_all

theorem start (h : c.Good C) (hc : c.ctl = .listed) (ht : c.taken = none) (hd : C.handed c.data) :
    { c with ctl := .running }.Good C := by
  have hw := h.idle (by rw [hc]; rfl)
  obtain ⟨h₁, h₂, h₃, h₄, h₅, h₆, h₇, h₈, h₉, h₁₀, h₁₁, h₁₂, h₁₃, h₁₄, h₁₅, h₁₆⟩ := h
  constructor <;> simp_all

theorem strand (h : c.Good C) (hc : c.ctl = .listed) (ht : c.taken = none) (hd : C.handed c.data) :
    { c with ctl := .stranded }.Good C := by
  have hw := h.idle (by rw [hc]; rfl)
  obtain ⟨h₁, h₂, h₃, h₄, h₅, h₆, h₇, h₈, h₉, h₁₀, h₁₁, h₁₂, h₁₃, h₁₄, h₁₅, h₁₆⟩ := h
  constructor <;> simp_all

theorem join (h : c.Good C) (hc : c.ctl = .running) (hw : c.wrk = .released) :
    { c with ctl := .joined }.Good C := by
  obtain ⟨h₁, h₂, h₃, h₄, h₅, h₆, h₇, h₈, h₉, h₁₀, h₁₁, h₁₂, h₁₃, h₁₄, h₁₅, h₁₆⟩ := h
  constructor <;> simp_all [Ctl.owns]

theorem free_made (h : c.Good C) (hc : c.ctl = .made) (hd : C.disposed c.data) :
    { c with ctl := .freed, frees := c.frees + 1 }.Good C := by
  have hw := h.idle (by rw [hc]; rfl)
  obtain ⟨h₁, h₂, h₃, h₄, h₅, h₆, h₇, h₈, h₉, h₁₀, h₁₁, h₁₂, h₁₃, h₁₄, h₁₅, h₁₆⟩ := h
  constructor <;> simp_all

theorem free_released (h : c.Good C) (hc : c.ctl ≠ .freed) (hw : c.wrk = .released)
    (hholder : c.holder = some 0) : { c with ctl := .freed, frees := c.frees + 1 }.Good C := by
  have hd := C.disposed_of_returned _ (h.returned hw hc)
  have hs := C.sound_of_returned _ (h.returned hw hc)
  obtain ⟨h₁, h₂, h₃, h₄, h₅, h₆, h₇, h₈, h₉, h₁₀, h₁₁, h₁₂, h₁₃, h₁₄, h₁₅, h₁₆⟩ := h
  constructor <;> simp_all [Ctl.owns]

theorem clear (h : c.Good C) (hfreed : c.finished → c.ctl = .freed) :
    { c with finished := False }.Good C :=
  { h with
    finished := False.elim
    out := fun hw => .inr ((h.out hw).elim hfreed id)
    swept := False.elim
    taken := fun l hl hc => (h.taken l hl hc).imp_right fun hf =>
      .inr (hf.resolve_left fun hf => absurd (hc.symm.trans (hfreed hf)) (by simp)) }

theorem take (h : c.Good C) {l : List ℕ} (hl : c.active → c.record ∈ l) (ht : c.taken = none) :
    { c with active := False, taken := some l }.Good C := by
  refine { h with active := by simp, taken := fun l' hl' hc => ?_ }
  obtain rfl : l = l' := Option.some.inj hl'
  have hfreed : c.ctl ≠ .freed := fun h' => absurd (hc.symm.trans h') (by simp)
  cases hw : c.wrk with
  | idle => exact .inl (hl (h.active.2 ⟨ht, .inr (.inl hc), .inl hw⟩))
  | working => exact .inl (hl (h.active.2 ⟨ht, .inr (.inl hc), .inr hw⟩))
  | leaving => exact .inr (.inr rfl)
  | retired => exact .inr (.inl ((h.out (.inl hw)).resolve_right hfreed))
  | released => exact .inr (.inl ((h.out (.inr hw)).resolve_right hfreed))

theorem begin (h : c.Good C) (hc : c.ctl = .running) (hw : c.wrk = .idle) :
    { c with wrk := .working }.Good C := by
  obtain ⟨h₁, h₂, h₃, h₄, h₅, h₆, h₇, h₈, h₉, h₁₀, h₁₁, h₁₂, h₁₃, h₁₄, h₁₅, h₁₆⟩ := h
  constructor <;> simp_all [Ctl.owns]

theorem remove (h : c.Good C) (hw : c.wrk = .working) (hholder : c.holder = some (c.record + 1)) :
    { c with active := False, wrk := .leaving }.Good C := by
  have hf := h.not_freed (by rw [hw]; rfl)
  have hleaving : c.wrk = .leaving → c.holder = some (c.record + 1) := fun _ => hholder
  obtain ⟨h₁, h₂, h₃, h₄, h₅, h₆, h₇, h₈, h₉, h₁₀, h₁₁, h₁₂, h₁₃, h₁₄, h₁₅, h₁₆⟩ := h
  constructor <;> simp_all

theorem prepend (h : c.Good C) (hw : c.wrk = .leaving)
    (hholder : c.holder = some (c.record + 1)) :
    { c with finished := True, wrk := .retired }.Good C := by
  have hf := h.not_freed (by rw [hw]; rfl)
  have hprompt : C.discipline = .prompt → c.holder = some (c.record + 1) := fun _ => hholder
  obtain ⟨h₁, h₂, h₃, h₄, h₅, h₆, h₇, h₈, h₉, h₁₀, h₁₁, h₁₂, h₁₃, h₁₄, h₁₅, h₁₆⟩ := h
  constructor <;> simp_all

theorem release (h : c.Good C) (hw : c.wrk = .retired) (hd : C.returned c.data) :
    { c with wrk := .released }.Good C := by
  have hf := h.not_freed (by rw [hw]; rfl)
  obtain ⟨h₁, h₂, h₃, h₄, h₅, h₆, h₇, h₈, h₉, h₁₀, h₁₁, h₁₂, h₁₃, h₁₄, h₁₅, h₁₆⟩ := h
  constructor <;> simp_all

end Cell.Good

/-! ## One step -/

section Steps
variable {C} {s t : Pool D} {k : ℕ}

theorem Inv.at (h : Inv C s) (k : ℕ) (hk : (t.cell k).Good C)
    (hother : ∀ j, j ≠ k → t.cell j = s.cell j) (hactive : t.active.Nodup)
    (hfinished : t.finished.Nodup) : Inv C t := by
  refine ⟨fun j => ?_, hactive, hfinished⟩
  by_cases hj : j = k
  · exact hj ▸ hk
  · exact hother j hj ▸ h.good j

theorem worker_congr {j : ℕ} (hw : t.wrk j = s.wrk j)
    (hd : (s.wrk j).owns = true → t.data j = s.data j)
    (hh : t.holder = some (j + 1) ↔ s.holder = some (j + 1)) : t.worker j = s.worker j := by
  simp only [Pool.worker, Worker.mk.injEq, hw, hh, true_and, and_true]
  split_ifs with h
  · rw [hd h]
  · rfl

theorem control_congr (hc : t.ctl = s.ctl) (ht : t.taken = s.taken)
    (hd : ∀ j, (s.ctl j).owns = true → t.data j = s.data j)
    (hh : t.holder = some 0 ↔ s.holder = some 0)
    (hf : s.holder = some 0 → t.finished = s.finished) : t.control = s.control := by
  simp only [Pool.control, Control.mk.injEq, hc, ht, hh, true_and, and_true]
  constructor
  · funext j
    split_ifs with h
    · rw [hd j h]
    · rfl
  · split_ifs with h
    · rw [hf h]
    · rfl

theorem control_setCtl (x : Ctl) :
    (s.setCtl k x).control =
      s.control.setCtl k x (if x.owns then some (s.data k) else none) := by
  simp only [Pool.control, Pool.setCtl, Control.setCtl, Control.mk.injEq, true_and]
  refine ⟨?_, rfl, trivial⟩
  funext j
  by_cases hj : j = k
  · subst hj
    simp
  · simp [hj]

theorem control_fin {l : List ℕ} (h : s.control.fin = some l) : s.holder = some 0 ∧ s.finished = l := by
  simpa [Pool.control] using h

theorem control_isSome (h : s.control.fin.isSome) : s.holder = some 0 := by
  obtain ⟨l, hl⟩ := Option.isSome_iff_exists.1 h
  exact (control_fin hl).1

theorem control_data {d : D} (h : s.control.data k = some d) :
    (s.ctl k).owns = true ∧ s.data k = d := by
  simpa [Pool.control] using h

theorem Inv.released (h : Inv C s) (hk : s.control.Sweeps C k)
    (htime : C.discipline = .trusting → s.ctl k = .running → s.wrk k = .released) :
    s.wrk k = .released ∧ s.ctl k ≠ .freed ∧ s.holder = some 0 := by
  obtain ⟨⟨l, hl, hkl⟩, hcases⟩ := hk
  obtain ⟨hholder, rfl⟩ := control_fin hl
  rcases hcases with hjoined | ⟨hrunning, hd⟩
  · have hc : s.ctl k = .joined := hjoined
    exact ⟨(h.good k).joined hc, by simp [hc], hholder⟩
  · have hc : s.ctl k = .running := hrunning
    refine ⟨?_, by simp [hc], hholder⟩
    rcases (h.good k).finished hkl with hw | hw
    · cases hdis : C.discipline with
      | joins => exact absurd hdis hd
      | prompt =>
        have hk := (h.good k).prompt hdis hw
        simp [Pool.cell, hholder] at hk
      | trusting => exact htime hdis hc
    · exact hw

theorem lock_inv (h : Inv C s) (hs : s.holder = none) (i : ℕ) :
    Inv C { s with holder := some i } :=
  ⟨fun j => (h.good j).lock hs i, h.active_nodup, h.finished_nodup⟩

theorem finished_worked (h : Inv C s) (hk : k ∈ s.finished) : s.wrk k ≠ .idle := by
  intro hw
  rcases (h.good k).finished hk with h' | h' <;> exact absurd (hw.symm.trans h') (by simp)

theorem finished_busy (h : Inv C s) (hk : k ∈ s.finished) : (s.ctl k).owns = false :=
  (h.good k).busy (finished_worked h hk)

theorem found (h : Inv C s) (hs : s.holder = none) : s.control.Found s.finished where
  nodup := h.finished_nodup
  data k hk := by simp [Pool.control, finished_busy h hk]
  out k hk := by
    have hfreed : s.ctl k ≠ .freed := fun hc => by
      simpa [Pool.cell, hs] using (h.good k).swept hk hc
    have hbusy := finished_busy h hk
    have hstranded : s.ctl k ≠ .stranded := fun hc =>
      finished_worked h hk ((h.good k).stranded hc).1
    cases hc : s.ctl k <;> simp_all [Pool.control, Ctl.owns]
  joined k hk := by
    have hc : s.ctl k = .joined := hk
    exact ((h.good k).out (.inr ((h.good k).joined hc))).resolve_right (by simp [Pool.cell, hc])
  running taken ht k hk := ((h.good k).taken taken ht hk).imp_right fun hf =>
    hf.resolve_right fun hw => by simpa [Pool.cell, hs] using (h.good k).leaving hw

structure Controlled (s t : Pool D) (a : Act B) (r : a.Answer R) : Prop where
  inv : Inv C t
  sees : s.control.Sees C a r t.control
  others : ∀ j, t.worker j = s.worker j

theorem lock_controlled (h : Inv C s) (hs : s.holder = none) :
    Controlled (C := C) s { s with holder := some 0 } .lock () := by
  refine ⟨lock_inv h hs 0, ⟨s.finished, found h hs, by simp [Pool.control]⟩, fun j => ?_⟩
  exact worker_congr rfl (fun _ => rfl) (by simp [hs])

theorem unlock_controlled (h : Inv C s) (hpre : s.control.Pre C .unlock) :
    Controlled (C := C) s { s with holder := none } .unlock () := by
  obtain ⟨l, hl, hfreed⟩ := hpre
  obtain ⟨hholder, rfl⟩ := control_fin hl
  have hgood (j : ℕ) : ({ s with holder := none } : Pool D).cell j = { s.cell j with holder := none } :=
    rfl
  refine ⟨⟨fun j => ?_, h.active_nodup, h.finished_nodup⟩, by simp [Control.Sees, Pool.control],
    fun j => worker_congr rfl (fun _ => rfl) (by simp [hholder])⟩
  rw [hgood]
  refine (h.good j).unlock (hfreed j) (fun hw => ?_) (fun hd hw => ?_)
  · simpa [Pool.cell, hholder] using (h.good j).leaving hw
  · simpa [Pool.cell, hholder] using (h.good j).prompt hd hw

theorem accept_controlled (h : Inv C s) (hc : s.ctl k = .fresh) :
    Controlled (C := C) s ((s.setCtl k .made).setData k C.new) .accept (some k) := by
  have hw : s.wrk k = .idle := (h.good k).idle (by simp [Pool.cell, hc, Ctl.owns])
  refine ⟨h.at k ?_ ?_ h.active_nodup h.finished_nodup, ⟨hc, ?_⟩, fun j => worker_congr rfl ?_ Iff.rfl⟩
  · simpa [Pool.cell, Pool.setCtl, Pool.setData] using (h.good k).made hc
  · intro j hj
    simp [Pool.cell, Pool.setCtl, Pool.setData, hj]
  · simp only [Pool.control, Pool.setCtl, Pool.setData, Control.setCtl, Control.mk.injEq, true_and]
    refine ⟨?_, rfl, trivial⟩
    funext j
    by_cases hj : j = k
    · subst hj
      simp [Ctl.owns]
    · simp [hj]
  · intro hj
    have hne : j ≠ k := fun h' => by simp [h', hw, Wrk.owns] at hj
    simp [Pool.setCtl, Pool.setData, hne]

theorem own_controlled (h : Inv C s) {b : B} {r : R b} {d : D}
    (hpre : s.control.Pre C (.own k b)) (htime : Timely C 0 s (.own k b))
    (hd : s.ctl k ≠ .freed → C.does (s.data k) b r d) :
    Controlled (C := C) s (s.setData k d) (.own k b) r := by
  rcases hpre with ⟨d₀, hd₀, hsound⟩ | ⟨hk, hkeep⟩
  · obtain ⟨hc, rfl⟩ := control_data hd₀
    have hw : s.wrk k = .idle := (h.good k).idle hc
    have hfreed : s.ctl k ≠ .freed := fun h' => by simp [h', Ctl.owns] at hc
    refine ⟨h.at k ?_ ?_ h.active_nodup h.finished_nodup, .inl ⟨_, d, hd₀, hd hfreed, ?_⟩,
      fun j => worker_congr rfl ?_ Iff.rfl⟩
    · simpa [Pool.cell, Pool.setData] using (h.good k).own hc (hsound r d (hd hfreed))
    · intro j hj
      simp [Pool.cell, Pool.setData, hj]
    · simp only [Pool.control, Pool.setData, Control.setCtl, Control.mk.injEq,
        Function.update_eq_self, true_and]
      refine ⟨?_, rfl, trivial⟩
      funext j
      by_cases hj : j = k
      · subst hj
        simp [hc]
      · simp [hj]
    · intro hj
      have hne : j ≠ k := fun h' => by simp [h', hw, Wrk.owns] at hj
      simp [Pool.setData, hne]
  · have htime' (hdis : C.discipline = .trusting) (hc : s.ctl k = .running) : s.wrk k = .released :=
      htime hdis rfl k (.inr ⟨b, rfl⟩) hc
    obtain ⟨hw, hfreed, -⟩ := h.released hk htime'
    have hret : C.returned (s.data k) := (h.good k).returned hw hfreed
    have hc : (s.ctl k).owns = false := (h.good k).busy (by simp [Pool.cell, hw])
    have hcontrol : (s.setData k d).control = s.control := by
      refine control_congr rfl rfl (fun j hj => ?_) Iff.rfl fun _ => rfl
      have hne : j ≠ k := fun h' => by simp [h', hc] at hj
      simp [Pool.setData, hne]
    refine ⟨h.at k ?_ ?_ h.active_nodup h.finished_nodup,
      .inr ⟨by simp [Pool.control, hc], ⟨_, d, hret, hd hfreed⟩, hcontrol⟩,
      fun j => worker_congr rfl ?_ Iff.rfl⟩
    · simpa [Pool.cell, Pool.setData] using
        (h.good k).own_released hw hfreed (hkeep _ r d hret (hd hfreed))
    · intro j hj
      simp [Pool.cell, Pool.setData, hj]
    · intro hj
      have hne : j ≠ k := fun h' => by simp [h', hw, Wrk.owns] at hj
      simp [Pool.setData, hne]

theorem append_controlled (h : Inv C s) (hpre : s.control.Pre C (.append k)) :
    Controlled (C := C) s { s.setCtl k .listed with active := s.active ++ [k] } (.append k) () := by
  obtain ⟨-, hc, ht⟩ := hpre
  have hc' : s.ctl k = .made := hc
  have hnot : k ∉ s.active := fun hk => by simpa [Pool.cell, hc'] using ((h.good k).active.1 hk).2.1
  refine ⟨h.at k ?_ ?_ ?_ h.finished_nodup, ?_, fun j => worker_congr rfl (fun _ => rfl) Iff.rfl⟩
  · simpa [Pool.cell, Pool.setCtl] using (h.good k).append hc ht
  · intro j hj
    simp [Pool.cell, Pool.setCtl, hj]
  · exact List.nodup_append.2 ⟨h.active_nodup, by simp, by
      rintro a ha b hb rfl
      exact hnot (by simpa using (List.mem_singleton.1 hb) ▸ ha)⟩
  · have hdata : s.control.data k = some (s.data k) := by simp [Pool.control, hc', Ctl.owns]
    show _ = s.control.setCtl k .listed (s.control.data k)
    rw [hdata]
    exact control_setCtl .listed

theorem start_controlled (h : Inv C s) (hpre : s.control.Pre C (.start k)) (started : Bool) :
    Controlled (C := C) s (s.setCtl k (if started then .running else .stranded)) (.start k)
      started := by
  obtain ⟨hc, ht, hd⟩ := hpre
  have hc' : s.ctl k = .listed := hc
  have hdata : s.control.data k = some (s.data k) := by simp [Pool.control, hc', Ctl.owns]
  refine ⟨h.at k ?_ ?_ h.active_nodup h.finished_nodup, ?_,
    fun j => worker_congr rfl (fun _ => rfl) Iff.rfl⟩
  · cases started with
    | true => simpa [Pool.cell, Pool.setCtl] using (h.good k).start hc ht (hd _ hdata)
    | false => simpa [Pool.cell, Pool.setCtl] using (h.good k).strand hc ht (hd _ hdata)
  · intro j hj
    simp [Pool.cell, Pool.setCtl, hj]
  · rw [control_setCtl]
    cases started <;> rfl

theorem join_controlled (h : Inv C s) (hpre : s.control.Pre C (.join k)) (hc : s.ctl k ≠ .stranded)
    (hw : s.wrk k = .released) : Controlled (C := C) s (s.setCtl k .joined) (.join k) () := by
  refine ⟨h.at k ?_ ?_ h.active_nodup h.finished_nodup, ?_,
    fun j => worker_congr rfl (fun _ => rfl) Iff.rfl⟩
  · simpa [Pool.cell, Pool.setCtl] using (h.good k).join (hpre.resolve_right hc) hw
  · intro j hj
    simp [Pool.cell, Pool.setCtl, hj]
  · exact (control_setCtl .joined).trans (if_neg hc).symm

theorem free_controlled (h : Inv C s) (hpre : s.control.Pre C (.free k))
    (htime : Timely C 0 s (.free k)) :
    Controlled (C := C) s
      { s.setCtl k .freed with frees := Function.update s.frees k (s.frees k + 1) } (.free k) () := by
  refine ⟨h.at k ?_ ?_ h.active_nodup h.finished_nodup, control_setCtl .freed,
    fun j => worker_congr rfl (fun _ => rfl) Iff.rfl⟩
  · rcases hpre with ⟨hc, hd⟩ | hk
    · have hc' : s.ctl k = .made := hc
      have hdata : s.control.data k = some (s.data k) := by simp [Pool.control, hc', Ctl.owns]
      simpa [Pool.cell, Pool.setCtl] using (h.good k).free_made hc (hd _ hdata)
    · obtain ⟨hw, hfreed, hholder⟩ := h.released hk fun hdis hc => htime hdis rfl k (.inl rfl) hc
      simpa [Pool.cell, Pool.setCtl] using (h.good k).free_released hfreed hw hholder
  · intro j hj
    simp [Pool.cell, Pool.setCtl, hj]

theorem clear_controlled (h : Inv C s) (hpre : s.control.Pre C .clear) :
    Controlled (C := C) s { s with finished := [] } .clear () := by
  obtain ⟨l, hl, hfreed⟩ := hpre
  obtain ⟨hholder, rfl⟩ := control_fin hl
  refine ⟨⟨fun j => ?_, h.active_nodup, List.nodup_nil⟩, by simp [Control.Sees, Pool.control, hholder],
    fun j => worker_congr rfl (fun _ => rfl) Iff.rfl⟩
  simpa [Pool.cell] using (h.good j).clear (hfreed j)

theorem anyActive_controlled (h : Inv C s) (hpre : s.control.Pre C .anyActive) :
    Controlled (C := C) s (if !s.active.isEmpty then s else { s with taken := some [] }) .anyActive
      (!s.active.isEmpty) := by
  obtain ⟨ht, hlisted⟩ := hpre
  by_cases hempty : s.active.isEmpty = true
  · have hnil : s.active = [] := List.isEmpty_iff.1 hempty
    rw [hempty]
    refine ⟨⟨fun j => ?_, h.active_nodup, h.finished_nodup⟩, rfl,
      fun j => worker_congr rfl (fun _ => rfl) Iff.rfl⟩
    simpa [Pool.cell, hnil] using (h.good j).take (l := []) (by simp [Pool.cell, hnil]) ht
  · rw [Bool.eq_false_iff.2 hempty]
    exact ⟨h, rfl, fun _ => rfl⟩

theorem take_controlled (h : Inv C s) (hpre : s.control.Pre C .take) :
    Controlled (C := C) s { s with active := [], taken := some s.active } .take s.active := by
  obtain ⟨-, ht, hlisted⟩ := hpre
  refine ⟨⟨fun j => ?_, List.nodup_nil, h.finished_nodup⟩, ⟨h.active_nodup, fun j hj => ?_, rfl⟩,
    fun j => worker_congr rfl (fun _ => rfl) Iff.rfl⟩
  · simpa [Pool.cell] using (h.good j).take (l := s.active) id ht
  · exact ((h.good j).active.1 hj).2.1.resolve_left (hlisted j)

theorem control_step {a : Act B} {r : a.Answer R} (h : Inv C s) (hpre : s.control.Pre C a)
    (htime : Timely C 0 s a) (hdoes : Does C 0 s a r t) : Controlled (C := C) s t a r := by
  have hstay (hsees : s.control.Sees C a r s.control) : Controlled (C := C) s s a r :=
    ⟨h, hsees, fun _ => rfl⟩
  cases a with
  | lock =>
    obtain ⟨hs, rfl⟩ := hdoes
    exact lock_controlled h hs
  | unlock =>
    obtain rfl := hdoes
    exact unlock_controlled h hpre
  | ask =>
    obtain rfl := hdoes
    exact hstay rfl
  | accept =>
    cases r with
    | none =>
      obtain rfl := hdoes
      exact hstay rfl
    | some k =>
      obtain ⟨hc, rfl⟩ := hdoes
      exact accept_controlled h hc
  | own k b =>
    obtain ⟨d, hd, rfl⟩ := hdoes
    exact own_controlled h hpre htime hd
  | append k =>
    obtain rfl := hdoes
    exact append_controlled h hpre
  | start k =>
    obtain rfl := hdoes
    exact start_controlled h hpre r
  | thread k =>
    obtain ⟨hr, rfl⟩ := hdoes
    exact hstay ⟨hr, rfl⟩
  | join k =>
    rcases hdoes with ⟨hc, rfl⟩ | ⟨hc, hw, rfl⟩
    · exact hstay (if_pos hc).symm
    · exact join_controlled h hpre hc hw
  | finished =>
    obtain ⟨rfl, rfl⟩ := hdoes
    exact hstay ⟨by simp [Pool.control, control_isSome hpre], rfl⟩
  | free k =>
    obtain rfl := hdoes
    exact free_controlled h hpre htime
  | clear =>
    obtain rfl := hdoes
    exact clear_controlled h hpre
  | anyActive =>
    obtain ⟨rfl, rfl⟩ := hdoes
    exact anyActive_controlled h hpre
  | take =>
    obtain ⟨rfl, rfl⟩ := hdoes
    exact take_controlled h hpre
  | begin k | remove k | prepend k | release k => exact hpre.elim

/-- The worker of record `k` has done an action. -/
structure Worked (k : ℕ) (s t : Pool D) (a : Act B) (r : a.Answer R) : Prop where
  inv : Inv C t
  sees : (s.worker k).Sees C a r (t.worker k)
  control : t.control = s.control
  others : ∀ j, j ≠ k → t.worker j = s.worker j

theorem lock_worked (h : Inv C s) (hs : s.holder = none) :
    Worked (C := C) k s { s with holder := some (k + 1) } .lock () := by
  refine ⟨lock_inv h hs _, by simp [Worker.Sees, Pool.worker], ?_, fun j hj => ?_⟩
  · exact control_congr rfl rfl (fun _ _ => rfl) (by simp [hs]) fun _ => rfl
  · exact worker_congr rfl (fun _ => rfl) (by simp [hs, Ne.symm hj])

theorem unlock_worked (h : Inv C s) (hpre : (s.worker k).Pre C .unlock) :
    Worked (C := C) k s { s with holder := none } .unlock () := by
  obtain ⟨hholder, hleaving, hretired⟩ := hpre
  have hholder' : s.holder = some (k + 1) := hholder
  have hgood (j : ℕ) : ({ s with holder := none } : Pool D).cell j = { s.cell j with holder := none } :=
    rfl
  have hk {j : ℕ} (hj : s.holder = some (j + 1)) : j = k := by
    simpa [hholder', eq_comm] using hj
  refine ⟨⟨fun j => ?_, h.active_nodup, h.finished_nodup⟩, by simp [Worker.Sees, Pool.worker],
    control_congr rfl rfl (fun _ _ => rfl) (by simp [hholder']) fun _ => rfl,
    fun j hj => worker_congr rfl (fun _ => rfl) (by simp [hholder', Ne.symm hj])⟩
  rw [hgood]
  refine (h.good j).unlock (fun hf hc => ?_) (fun hw => ?_) (fun hd hw => ?_)
  · simpa [Pool.cell, hholder'] using (h.good j).swept hf hc
  · obtain rfl := hk ((h.good j).leaving hw)
    exact hleaving hw
  · obtain rfl := hk ((h.good j).prompt hd hw)
    exact hretired hd hw

theorem worker_data {d : D} (h : (s.worker k).data = some d) :
    (s.wrk k).owns = true ∧ s.data k = d := by
  simpa [Pool.worker] using h

theorem own_worked (h : Inv C s) {b : B} {r : R b} {d : D} (hpre : (s.worker k).Pre C (.own k b))
    (hd : s.ctl k ≠ .freed → C.does (s.data k) b r d) :
    Worked (C := C) k s (s.setData k d) (.own k b) r := by
  obtain ⟨-, d₀, hd₀, hsound⟩ := hpre
  obtain ⟨hw, rfl⟩ := worker_data hd₀
  have hfreed : s.ctl k ≠ .freed := (h.good k).not_freed hw
  have hc : (s.ctl k).owns = false :=
    (h.good k).busy fun hi => by simp [show s.wrk k = .idle from hi, Wrk.owns] at hw
  refine ⟨h.at k ?_ ?_ h.active_nodup h.finished_nodup,
    ⟨s.data k, d, by simp [Pool.worker, hw], hd hfreed, by simp [Pool.worker, Pool.setData, hw]⟩, ?_,
    fun j hj => worker_congr rfl (fun _ => by simp [Pool.setData, hj]) Iff.rfl⟩
  · simpa [Pool.cell, Pool.setData] using (h.good k).own_worker hw (hsound r d (hd hfreed))
  · intro j hj
    simp [Pool.cell, Pool.setData, hj]
  · refine control_congr rfl rfl (fun j hj => ?_) Iff.rfl fun _ => rfl
    have hne : j ≠ k := fun h' => by simp [h', hc] at hj
    simp [Pool.setData, hne]

theorem setWrk_worked (h : Inv C s) {x : Wrk} (hx : ((s.setWrk k x).cell k).Good C)
    {a : Act B} {r : a.Answer R} (hsees : (s.worker k).Sees C a r ((s.setWrk k x).worker k)) :
    Worked (C := C) k s (s.setWrk k x) a r := by
  refine ⟨h.at k hx (fun j hj => ?_) h.active_nodup h.finished_nodup, hsees, rfl, fun j hj => ?_⟩
  · simp [Pool.cell, Pool.setWrk, hj]
  · exact worker_congr (by simp [Pool.setWrk, hj]) (fun _ => rfl) Iff.rfl

theorem begin_worked (h : Inv C s) (hpre : (s.worker k).Pre C (.begin k)) (hc : s.ctl k = .running) :
    Worked (C := C) k s (s.setWrk k .working) (.begin k) () := by
  obtain ⟨-, hw⟩ := hpre
  refine setWrk_worked h ?_ ⟨s.data k, (h.good k).handed hc hw, ?_⟩
  · simpa [Pool.cell, Pool.setWrk] using (h.good k).begin hc hw
  · simp [Pool.worker, Pool.setWrk, Wrk.owns]

theorem release_worked (h : Inv C s) (hpre : (s.worker k).Pre C (.release k)) :
    Worked (C := C) k s (s.setWrk k .released) (.release k) () := by
  obtain ⟨-, hw, hd⟩ := hpre
  have hw' : s.wrk k = .retired := hw
  have hdata : (s.worker k).data = some (s.data k) := by simp [Pool.worker, hw', Wrk.owns]
  refine setWrk_worked h ?_ ?_
  · simpa [Pool.cell, Pool.setWrk] using (h.good k).release hw (hd _ hdata)
  · simp [Worker.Sees, Pool.worker, Pool.setWrk, Wrk.owns]

theorem remove_worked (h : Inv C s) (hpre : (s.worker k).Pre C (.remove k)) :
    Worked (C := C) k s { s.setWrk k .leaving with active := s.active.erase k } (.remove k) () := by
  obtain ⟨-, hholder, hw⟩ := hpre
  have hw' : s.wrk k = .working := hw
  refine ⟨h.at k ?_ ?_ (h.active_nodup.erase k) h.finished_nodup, ?_, ?_, fun j hj => ?_⟩
  · simpa [Pool.cell, Pool.setWrk, h.active_nodup.mem_erase_iff] using (h.good k).remove hw hholder
  · intro j hj
    simp [Pool.cell, Pool.setWrk, hj]
  · simp [Worker.Sees, Pool.worker, Pool.setWrk, hw', Wrk.owns]
  · exact control_congr rfl rfl (fun _ _ => rfl) Iff.rfl fun _ => rfl
  · exact worker_congr (by simp [Pool.setWrk, hj]) (fun _ => rfl) Iff.rfl

theorem prepend_worked (h : Inv C s) (hpre : (s.worker k).Pre C (.prepend k)) :
    Worked (C := C) k s { s.setWrk k .retired with finished := k :: s.finished } (.prepend k) () := by
  obtain ⟨-, hholder, hw⟩ := hpre
  have hw' : s.wrk k = .leaving := hw
  have hholder' : s.holder = some (k + 1) := hholder
  have hnot : k ∉ s.finished := fun hk => by
    rcases (h.good k).finished hk with h' | h' <;> simp [Pool.cell, hw'] at h'
  refine ⟨h.at k ?_ ?_ h.active_nodup (List.nodup_cons.2 ⟨hnot, h.finished_nodup⟩), ?_, ?_,
    fun j hj => ?_⟩
  · simpa [Pool.cell, Pool.setWrk] using (h.good k).prepend hw hholder
  · intro j hj
    simp [Pool.cell, Pool.setWrk, hj]
  · simp [Worker.Sees, Pool.worker, Pool.setWrk, hw', Wrk.owns]
  · exact control_congr rfl rfl (fun _ _ => rfl) Iff.rfl (by simp [hholder'])
  · exact worker_congr (by simp [Pool.setWrk, hj]) (fun _ => rfl) Iff.rfl

theorem worker_step {a : Act B} {r : a.Answer R} (h : Inv C s) (hpre : (s.worker k).Pre C a)
    (hdoes : Does C (k + 1) s a r t) : Worked (C := C) k s t a r := by
  cases a with
  | lock =>
    obtain ⟨hs, rfl⟩ := hdoes
    exact lock_worked h hs
  | unlock =>
    obtain rfl := hdoes
    exact unlock_worked h hpre
  | ask =>
    obtain rfl := hdoes
    exact ⟨h, rfl, rfl, fun _ _ => rfl⟩
  | own j b =>
    obtain ⟨d, hd, rfl⟩ := hdoes
    obtain rfl := hpre.1
    exact own_worked h hpre hd
  | begin j =>
    obtain ⟨hc, rfl⟩ := hdoes
    obtain rfl := hpre.1
    exact begin_worked h hpre hc
  | remove j =>
    obtain rfl := hdoes
    obtain rfl := hpre.1
    exact remove_worked h hpre
  | prepend j =>
    obtain rfl := hdoes
    obtain rfl := hpre.1
    exact prepend_worked h hpre
  | release j =>
    obtain rfl := hdoes
    obtain rfl := hpre.1
    exact release_worked h hpre
  | accept | append j | start j | thread j | join j | finished | free j | clear | anyActive | take =>
    exact hpre.elim

theorem view_step {i : ℕ} {a : Act B} {r : a.Answer R} (h : Inv C s) (hpre : (s.view i).Pre C a)
    (hdoes : Does C i s a r t) (htime : Timely C i s a) :
    Inv C t ∧ (s.view i).Sees C a r (t.view i) ∧ ∀ j, j ≠ i → t.view j = s.view j := by
  cases i with
  | zero =>
    obtain ⟨hinv, hsees, hothers⟩ := control_step h hpre htime hdoes
    refine ⟨hinv, hsees, fun j hj => ?_⟩
    cases j with
    | zero => exact absurd rfl hj
    | succ j => exact congrArg View.worker (hothers j)
  | succ k =>
    obtain ⟨hinv, hsees, hcontrol, hothers⟩ := worker_step h hpre hdoes
    refine ⟨hinv, hsees, fun j hj => ?_⟩
    cases j with
    | zero => exact congrArg View.control hcontrol
    | succ j => exact congrArg View.worker (hothers j fun h' => hj (h' ▸ rfl))

end Steps

/-! ## Runs -/

section Runs
variable {α : Type}

def newPool (d : D) : Pool D where
  holder := none
  active := []
  finished := []
  taken := none
  ctl := fun _ => .fresh
  wrk := fun _ => .idle
  data := fun _ => d
  frees := fun _ => 0

theorem newPool_inv (d : D) : Inv C (newPool d) := by
  refine ⟨fun k => ?_, List.nodup_nil, List.nodup_nil⟩
  constructor <;> simp [newPool, Pool.cell, Ctl.owns]

variable {C}

theorem newPool_control (d : D) :
    (newPool d).control = ⟨fun _ => .fresh, fun _ => some d, none, none⟩ := by
  simp [newPool, Pool.control, Ctl.owns]

/-- Every thread keeps to the protocol through a run in which the control thread is timely. -/
theorem pool_run {post : ℕ → α → View D → Prop} {c d : Threads (Pool D) (Act.Answer R) α}
    {ms : List (Move (Threads (Pool D) (Act.Answer R) α) (ℕ × Event (Act.Answer R)))}
    (h : Run (ThreadStep (Does C)) c ms d)
    (htime : ∀ m ∈ ms, Timely C m.act.1 m.src.1 m.act.2.1) (hc : Inv C c.1)
    (hconform : Complies Pool.view (View.Sees C) (View.Pre C) post c) :
    Inv C d.1 ∧ Complies Pool.view (View.Sees C) (View.Pre C) post d :=
  complies_run (G := fun i s a _ _ => Timely C i s a)
    (fun _ _ _ _ _ hinv hpre hdoes htime => view_step hinv hpre hdoes htime) h htime hc hconform

def process (d : D) (control : Program R α) (worker : ℕ → Program R α) (n : ℕ) :
    Threads (Pool D) (Act.Answer R) α :=
  (newPool d, control :: (List.range n).map worker)

theorem newPool_worker (d : D) (k : ℕ) : (newPool d).worker k = ⟨k, .idle, none, False⟩ := by
  simp [newPool, Pool.worker, Wrk.owns]

theorem process_complies {post : α → View D → Prop} {d : D} {control : Program R α}
    {worker : ℕ → Program R α} {n : ℕ}
    (hcontrol : wp (View.Sees C) (View.Pre C) True post control
      (.control ⟨fun _ => .fresh, fun _ => some d, none, none⟩))
    (hworker : ∀ k, wp (View.Sees C) (View.Pre C) True (fun _ _ => True) (worker k)
      (.worker ⟨k, .idle, none, False⟩)) :
    Complies Pool.view (View.Sees C) (View.Pre C) (fun i x v => i = 0 → post x v)
      (process d control worker n) := by
  intro i p hp
  cases i with
  | zero =>
    obtain rfl : control = p := by simpa [process] using hp
    refine wp_mono ?_ (fun _ _ h _ => h)
    simpa [process, Pool.view, newPool_control] using hcontrol
  | succ k =>
    obtain ⟨j, hj, rfl⟩ : ∃ j, (List.range n)[k]? = some j ∧ worker j = p := by
      simpa [process] using hp
    obtain ⟨hlt, hget⟩ := List.getElem?_eq_some_iff.1 hj
    obtain rfl : k = j := by simpa using hget
    have hview : (newPool d).view (k + 1) = .worker ⟨k, .idle, none, False⟩ :=
      congrArg View.worker (newPool_worker d k)
    refine wp_mono (hview ▸ hworker k) fun _ _ _ h => ?_
    exact absurd h (Nat.succ_ne_zero k)

theorem pool_moves {post : ℕ → α → View D → Prop} {c d : Threads (Pool D) (Act.Answer R) α}
    {ms : List (Move (Threads (Pool D) (Act.Answer R) α) (ℕ × Event (Act.Answer R)))}
    (h : Run (ThreadStep (Does C)) c ms d)
    (htime : ∀ m ∈ ms, Timely C m.act.1 m.src.1 m.act.2.1) (hc : Inv C c.1)
    (hconform : Complies Pool.view (View.Sees C) (View.Pre C) post c)
    {m : Move (Threads (Pool D) (Act.Answer R) α) (ℕ × Event (Act.Answer R))} (hm : m ∈ ms) :
    Inv C m.src.1 ∧ (m.src.1.view m.act.1).Pre C m.act.2.1 := by
  obtain ⟨before, after, rfl⟩ := List.append_of_mem hm
  obtain ⟨hbefore, ⟨k, hk, -⟩, -⟩ := h.split
  obtain ⟨hinv, hcomplies⟩ := pool_run hbefore
    (fun m' hm' => htime m' (List.mem_append_left _ hm')) hc hconform
  exact ⟨hinv, (hcomplies _ _ hk).1⟩

theorem timely_of_ne (h : C.discipline ≠ .trusting) {i : ℕ} {s : Pool D} {a : Act B} :
    Timely C i s a :=
  fun hd => absurd hd h

/-- An action brings at most one record further, and only one that is not stranded. -/
theorem ctl_of_does {i : ℕ} {s t : Pool D} {a : Act B} {r : a.Answer R} (hpre : (s.view i).Pre C a)
    (hdoes : Does C i s a r t) :
    t.ctl = s.ctl ∨ ∃ j x, t.ctl = Function.update s.ctl j x ∧ s.ctl j ≠ .stranded ∧
      (x = .stranded → (⟨a, r⟩ : Event (Act.Answer R)) = ⟨.start j, false⟩) := by
  cases i with
  | succ k =>
    cases a with
    | lock | begin =>
      obtain ⟨-, rfl⟩ := hdoes
      exact .inl rfl
    | unlock | ask | remove | prepend | release =>
      obtain rfl := hdoes
      exact .inl rfl
    | own j b =>
      obtain ⟨d, -, rfl⟩ := hdoes
      exact .inl rfl
    | accept | append | start | thread | join | finished | free | clear | anyActive | take =>
      exact hpre.elim
  | zero =>
    have hat {j : ℕ} {x : Ctl} (hj : s.control.ctl j = x) (hx : x ≠ .stranded) : s.ctl j ≠ .stranded :=
      fun h => hx (hj.symm.trans h)
    cases a with
    | lock | thread | finished | take =>
      obtain ⟨-, rfl⟩ := hdoes
      exact .inl rfl
    | unlock | ask | clear =>
      obtain rfl := hdoes
      exact .inl rfl
    | own j b =>
      obtain ⟨d, -, rfl⟩ := hdoes
      exact .inl rfl
    | anyActive =>
      obtain ⟨-, rfl⟩ := hdoes
      exact .inl (by split <;> rfl)
    | accept =>
      cases r with
      | none =>
        obtain rfl := hdoes
        exact .inl rfl
      | some j =>
        obtain ⟨hj, rfl⟩ := hdoes
        exact .inr ⟨j, .made, rfl, by simp [hj], by simp⟩
    | append j =>
      obtain rfl := hdoes
      exact .inr ⟨j, .listed, rfl, hat hpre.2.1 (by simp), by simp⟩
    | start j =>
      obtain rfl := hdoes
      refine .inr ⟨j, _, rfl, hat hpre.1 (by simp), fun hx => ?_⟩
      cases r with
      | true => simp at hx
      | false => rfl
    | join j =>
      rcases hdoes with ⟨-, rfl⟩ | ⟨hj, -, rfl⟩
      · exact .inl rfl
      · exact .inr ⟨j, .joined, rfl, hj, by simp⟩
    | free j =>
      obtain rfl := hdoes
      refine .inr ⟨j, .freed, rfl, ?_, by simp⟩
      rcases hpre with ⟨hj, -⟩ | ⟨-, hj | ⟨hj, -⟩⟩ <;> exact hat hj (by simp)
    | begin | remove | prepend | release => exact hpre.elim

/-- Through a run, those records are stranded whose worker could not be started. -/
theorem stranded_iff {post : ℕ → α → View D → Prop} {c d : Threads (Pool D) (Act.Answer R) α}
    {ms : List (Move (Threads (Pool D) (Act.Answer R) α) (ℕ × Event (Act.Answer R)))}
    (h : Run (ThreadStep (Does C)) c ms d)
    (htime : ∀ m ∈ ms, Timely C m.act.1 m.src.1 m.act.2.1) (hc : Inv C c.1)
    (hconform : Complies Pool.view (View.Sees C) (View.Pre C) post c) (k : ℕ) :
    d.1.ctl k = .stranded ↔ c.1.ctl k = .stranded ∨ ∃ m ∈ ms, m.act.2 = ⟨.start k, false⟩ := by
  induction h with
  | nil c => simp
  | @cons c s d e ms hstep hrest ih =>
    simp only [List.forall_mem_cons] at htime
    obtain ⟨hs, hconform'⟩ := pool_run (.single hstep) (by simpa using htime.1) hc hconform
    rw [ih htime.2 hs hconform']
    simp only [List.mem_cons, or_and_right, exists_or, exists_eq_left, ← or_assoc]
    refine or_congr_left ?_
    obtain ⟨p, hp, hdoes, -⟩ := hstep
    have hpre := (hconform _ _ hp).1
    constructor
    · intro hk
      rcases ctl_of_does hpre hdoes with heq | ⟨j, x, heq, -, hx⟩
      · exact .inl (heq ▸ hk)
      · by_cases hj : k = j
        · subst hj
          rw [heq, Function.update_self] at hk
          exact .inr (hx hk)
        · rw [heq, Function.update_of_ne hj] at hk
          exact .inl hk
    · rintro (hk | hk)
      · rcases ctl_of_does hpre hdoes with heq | ⟨j, x, heq, hj, -⟩
        · exact heq ▸ hk
        · have hne : k ≠ j := by
            rintro rfl
            exact hj hk
          rw [heq, Function.update_of_ne hne, hk]
      · obtain ⟨i, a, r⟩ := e
        cases hk
        have heq : s.1 = c.1.setCtl k .stranded := hdoes
        simp [heq, Pool.setCtl]

theorem Inv.lists_nodup {s : Pool D} (h : Inv C s) : (s.active ++ s.finished).Nodup := by
  refine List.nodup_append.2 ⟨h.active_nodup, h.finished_nodup, ?_⟩
  rintro k hactive j hfinished rfl
  have hw := ((h.good k).active.1 hactive).2.2
  rcases (h.good k).finished hfinished with h' | h' <;> simp [h'] at hw

theorem Inv.frees_le {s : Pool D} (h : Inv C s) (k : ℕ) : s.frees k ≤ 1 := by
  have hfrees := (h.good k).frees
  by_cases hc : s.ctl k = .freed <;> simp_all [Pool.cell]

/-- A record is freed before its worker was started or after it has released the record. -/
theorem Inv.freed_unused {s : Pool D} {i k : ℕ} (h : Inv C s)
    (hpre : (s.view i).Pre C (.free k : Act B)) (htime : Timely C i s (.free k)) :
    s.ctl k = .made ∧ s.wrk k = .idle ∨ s.wrk k = .released := by
  cases i with
  | zero =>
    rcases hpre with ⟨hc, -⟩ | hk
    · have hc' : s.ctl k = .made := hc
      exact .inl ⟨hc', (h.good k).idle (by simp [Pool.cell, hc', Ctl.owns])⟩
    · exact .inr (h.released hk fun hd hc => htime hd rfl k (.inl rfl) hc).1
  | succ i => exact hpre.elim

theorem Inv.not_freed {s : Pool D} {k : ℕ} {b : B} (h : Inv C s)
    (hpre : (s.view (k + 1)).Pre C (.own k b)) : s.ctl k ≠ .freed := by
  obtain ⟨-, d, hd, -⟩ := hpre
  exact (h.good k).not_freed (worker_data hd).1

end Runs

end Rcom.Lib.Workers
