import Rcom.Addr
import Rcom.Lib.Bytes
import Rcom.Lib.Program

/-!
# A link to a streamer (streamerlink.c)

`streamerlink_connect` starts a thread that sends a request and passes the body of the response to
the user. `streamerlink_stop_thread` clears `cont`, which `streamerlink_ondata` looks at, and waits
for that thread to end. Any number of threads use the link; they do their actions one at a time.
-/

namespace Rcom.Streamerlink
open Lib Lib.Program Lib.Trace

inductive Act where
  | begin
  | finish
  | writeCont (value : ℤ)
  | readCont
  | lock
  | unlock
  | readThread
  | newThread
  | writeThread (thread : Option ℕ)
  | join (thread : Option ℕ)
  | openSocket (addr : Addr)
  | closeConnection
  | readRemote
  | writeRemote (addr : Option Addr)
  | sendRequest
  | parse (answer : ℤ)
  | ondata (data : Bytes)

/-- `sendRequest` and `openSocket` say whether they failed; `parse` goes on with what the last
callback returned, up to the next piece of the body. -/
abbrev Act.Answer : Act → Type
  | .readCont | .ondata _ => ℤ
  | .readThread | .newThread => Option ℕ
  | .openSocket _ | .sendRequest => Bool
  | .readRemote => Option Addr
  | .parse _ => Option Bytes
  | _ => Unit

abbrev Program (α : Type) := Prog Act.Answer α

def doing (a : Act) : Program a.Answer := perform a

/-! ## The code of the threads -/

/-- `link->thread` is read again after the link has been unlocked. -/
def streamerlinkStopThread : Program Unit := do
  let _ ← doing (.writeCont 0)
  let _ ← doing .lock
  let thread : Option ℕ ← doing .readThread
  if thread.isSome then do
    let _ ← doing .unlock
    let thread : Option ℕ ← doing .readThread
    let _ ← doing (.join thread)
    let _ ← doing .lock
    doing .unlock
  else doing .unlock

def streamerlinkDisconnect : Program ℤ := do
  streamerlinkStopThread
  let _ ← doing .lock
  let _ ← doing .closeConnection
  let _ ← doing .unlock
  pure 0

def streamerlinkConnect : Program ℤ := do
  let err ← streamerlinkDisconnect
  if err ≠ 0 then pure (-1)
  else do
    let _ ← doing .lock
    let remote : Option Addr ← doing .readRemote
    match remote with
    | none => do
      let _ ← doing .unlock
      pure 0
    | some addr => do
      let failed : Bool ← doing (.openSocket addr)
      if failed then do
        let _ ← doing .closeConnection
        let _ ← doing .unlock
        pure (-1)
      else do
        let thread : Option ℕ ← doing .newThread
        let _ ← doing (.writeThread thread)
        if thread.isNone then do
          let _ ← doing .closeConnection
          let _ ← doing .unlock
          pure (-1)
        else do
          let _ ← doing .unlock
          pure 0

def streamerlinkSetRemote (autoconnect : Bool) (addr : Option Addr) : Program ℤ := do
  streamerlinkStopThread
  let _ ← doing .lock
  let _ ← doing .closeConnection
  let _ ← doing (.writeRemote addr)
  let _ ← doing .unlock
  let remote : Option Addr ← doing .readRemote
  if remote.isSome && autoconnect then streamerlinkConnect
  else pure 0

def deleteStreamerlink : Program Unit := do
  streamerlinkStopThread
  let _ ← doing .lock
  let _ ← doing .closeConnection
  let _ ← doing (.writeRemote none)
  doing .unlock

def streamerlinkOndata (data : Bytes) : Program ℤ := do
  let cont : ℤ ← doing .readCont
  if cont = 0 then pure (-1)
  else doing (.ondata data)

/-- The calls of `streamerlink_ondata` in `response_parse_html`, which go on for as long as the parser
finds data; the loop is cut after a number of rounds. -/
def responseParse : ℕ → ℤ → Program Unit
  | 0, _ => .stop
  | rounds + 1, answer => do
    let data : Option Bytes ← doing (.parse answer)
    match data with
    | none => pure ()
    | some data => do
      let answer ← streamerlinkOndata data
      responseParse rounds answer

def cleanup : Program Unit := do
  let _ ← doing .lock
  let _ ← doing .closeConnection
  let _ ← doing (.writeThread none)
  let _ ← doing .unlock
  doing .finish

def streamerlinkRun (rounds : ℕ) : Program Unit := do
  let _ ← doing .begin
  let failed : Bool ← doing .sendRequest
  if failed then cleanup
  else do
    let _ ← doing (.writeCont 1)
    responseParse rounds 0
    cleanup

inductive Call where
  | connect
  | disconnect
  | setRemote (addr : Option Addr)
  | delete

def Call.program (autoconnect : Bool) : Call → Program Unit
  | .connect => do
    let _ ← streamerlinkConnect
    pure ()
  | .disconnect => do
    let _ ← streamerlinkDisconnect
    pure ()
  | .setRemote addr => do
    let _ ← streamerlinkSetRemote autoconnect addr
    pure ()
  | .delete => deleteStreamerlink

def callAll (autoconnect : Bool) : List Call → Program Unit
  | [] => pure ()
  | call :: calls => do
    call.program autoconnect
    callAll autoconnect calls

/-- A thread of the user, or one that the link starts. -/
inductive Job where
  | user (calls : List Call)
  | run (rounds : ℕ)

def Job.program (autoconnect : Bool) : Job → Program Unit
  | .user calls => callAll autoconnect calls
  | .run rounds => streamerlinkRun rounds

/-! ## What the actions do -/

/-- What a started thread has come to, as history: `stopped` once `cont` has been cleared before its
end, `late` while it is in a call of `streamerlink_ondata` that was made after that, the data that
such calls passed to the user and what they returned. -/
structure Connection where
  ended : Bool
  stopped : Bool
  late : Bool
  passed : List Bytes
  returned : List ℤ

structure Link where
  cont : ℤ
  holder : Option ℕ
  thread : Option ℕ
  socket : Bool
  remoteAddr : Option Addr
  started : List ℕ
  connection : ℕ → Connection

namespace Connection
variable (c : Connection)

def stop : Connection := { c with stopped := c.stopped || !c.ended }

def enter : Connection := { c with late := c.stopped }

def leave (answer : ℤ) : Connection :=
  if c.late then { c with late := false, returned := c.returned ++ [answer] } else c

def pass (data : Bytes) : Connection :=
  if c.late then { c with passed := c.passed ++ [data] } else c

end Connection

namespace Link
variable (s : Link)

def put (i : ℕ) (c : Connection) : Link := { s with connection := Function.update s.connection i c }

def setCont (value : ℤ) : Link :=
  { s with
    cont := value
    connection := fun k =>
      if value = 0 ∧ k ∈ s.started then (s.connection k).stop else s.connection k }

/-- What each action of thread `i` does. -/
def Does (i : ℕ) (s : Link) : (a : Act) → a.Answer → Link → Prop
  | .begin, _, t => i ∈ s.started ∧ t = s
  | .finish, _, t => t = s.put i { s.connection i with ended := true }
  | .writeCont value, _, t => t = s.setCont value
  | .readCont, (r : ℤ), t => r = s.cont ∧ t = s.put i (s.connection i).enter
  | .lock, _, t => s.holder = none ∧ t = { s with holder := some i }
  | .unlock, _, t => t = { s with holder := none }
  | .readThread, (r : Option ℕ), t => r = s.thread ∧ t = s
  | .newThread, (r : Option ℕ), t =>
    match r with
    | none => t = s
    | some k => k ∉ s.started ∧ t = { s with started := k :: s.started }
  | .writeThread thread, _, t => t = { s with thread := thread }
  | .join thread, _, t => (∀ k ∈ thread, (s.connection k).ended = true) ∧ t = s
  | .openSocket _, (r : Bool), t => t = { s with socket := !r }
  | .closeConnection, _, t => t = { s with socket := false }
  | .readRemote, (r : Option Addr), t => r = s.remoteAddr ∧ t = s
  | .writeRemote addr, _, t => t = { s with remoteAddr := addr }
  | .sendRequest, _, t => t = s
  | .parse answer, _, t => t = s.put i ((s.connection i).leave answer)
  | .ondata data, _, t => t = s.put i ((s.connection i).pass data)

end Link

def newStreamerlink : Link where
  cont := 0
  holder := none
  thread := none
  socket := false
  remoteAddr := none
  started := []
  connection := fun _ => ⟨false, false, false, [], []⟩

/-- The program of a thread, with the link as it is shared. -/
abbrev Process := Threads Link Act.Answer Unit

def newProcess (autoconnect : Bool) (jobs : List Job) : Process :=
  (newStreamerlink, jobs.map (Job.program autoconnect))

/-! ## Stop requests -/

/-- A thread sets `cont` again only when no connection that was stopped is still running. -/
def SetsInTime (s : Link) (a : Act) : Prop :=
  ∀ value, a = .writeCont value → value ≠ 0 →
    ∀ k, (s.connection k).stopped = true → (s.connection k).ended = true

/-- No data goes to the user after a stop, and `streamerlink_ondata` says so to the parser. -/
structure Connection.Quiet (c : Connection) : Prop where
  passed : c.passed = []
  returned : ∀ answer ∈ c.returned, answer = -1

structure Link.Heeds (s : Link) : Prop where
  cleared : ∀ k, (s.connection k).stopped = true → (s.connection k).ended = false → s.cont = 0
  quiet : ∀ k, (s.connection k).Quiet

structure View where
  ended : Bool
  late : Bool

def view (s : Link) (i : ℕ) : View := ⟨(s.connection i).ended, (s.connection i).late⟩

def pre (v : View) : Act → Prop
  | .readCont => v.ended = false
  | .parse answer => v.late = true → answer = -1
  | .ondata _ => v.late = false
  | _ => True

def loc (v : View) : (a : Act) → a.Answer → View → Prop
  | .readCont, (r : ℤ), w => w.ended = v.ended ∧ (w.late = true → r = 0)
  | .parse _, _, w => w = ⟨v.ended, false⟩
  | .finish, _, w => w = ⟨true, v.late⟩
  | _, _, w => w = v

section Programs

def Plain : Act → Prop
  | .readCont | .parse _ | .ondata _ | .finish => False
  | _ => True

theorem loc_plain {a : Act} (h : Plain a) (v : View) :
    pre v a ∧ ∀ r w, loc v a r w → w = v := by
  cases a with
  | readCont | parse | ondata | finish => exact h.elim
  | _ => exact ⟨trivial, fun _ _ hw => hw⟩

theorem wp_plain {α : Type} {p : Program α} (h : Only Plain p) {v : View} {Q : α → View → Prop}
    (hQ : ∀ x, Q x v) : wp loc pre True Q p v := by
  refine wp_of_only (I := (· = v)) h ?_ rfl ?_
  · rintro _ a ha rfl
    exact loc_plain ha _
  · rintro x _ rfl
    exact hQ x

theorem plain_do {α : Type} {a : Act} {f : a.Answer → Program α} (ha : Plain a)
    (hf : ∀ r, Only Plain (f r)) : Only Plain (doing a >>= f) := ⟨ha, hf⟩

theorem plain_doing {a : Act} (ha : Plain a) : Only Plain (doing a) := ⟨ha, fun _ => trivial⟩

theorem plain_stopThread : Only Plain streamerlinkStopThread := by
  refine plain_do trivial fun _ => plain_do trivial fun _ => plain_do trivial fun thread => ?_
  split
  · exact plain_do trivial fun _ => plain_do trivial fun _ => plain_do trivial fun _ =>
      plain_do trivial fun _ => plain_doing trivial
  · exact plain_doing trivial

theorem plain_disconnect : Only Plain streamerlinkDisconnect :=
  only_bind plain_stopThread fun _ => plain_do trivial fun _ => plain_do trivial fun _ =>
    plain_do trivial fun _ => trivial

theorem plain_connect : Only Plain streamerlinkConnect := by
  have hunlock : ∀ err : ℤ, Only Plain (do let _ ← doing .unlock; pure err) :=
    fun _ => plain_do trivial fun _ => trivial
  have hclose : Only Plain (do
      let _ ← doing .closeConnection
      let _ ← doing .unlock
      pure (-1 : ℤ)) := plain_do trivial fun _ => hunlock (-1)
  refine only_bind plain_disconnect fun err => ?_
  split
  · trivial
  refine plain_do trivial fun _ => plain_do trivial fun remote => ?_
  split
  · exact hunlock 0
  refine plain_do trivial fun failed => ?_
  split
  · exact hclose
  refine plain_do trivial fun thread => plain_do trivial fun _ => ?_
  split
  · exact hclose
  · exact hunlock 0

theorem plain_setRemote (autoconnect : Bool) (addr : Option Addr) :
    Only Plain (streamerlinkSetRemote autoconnect addr) := by
  refine only_bind plain_stopThread fun _ => plain_do trivial fun _ => plain_do trivial fun _ =>
    plain_do trivial fun _ => plain_do trivial fun _ => plain_do trivial fun remote => ?_
  split
  · exact plain_connect
  · trivial

theorem plain_call (autoconnect : Bool) (call : Call) : Only Plain (call.program autoconnect) := by
  cases call with
  | connect => exact only_bind plain_connect fun _ => trivial
  | disconnect => exact only_bind plain_disconnect fun _ => trivial
  | setRemote addr => exact only_bind (plain_setRemote autoconnect addr) fun _ => trivial
  | delete =>
    exact only_bind plain_stopThread fun _ => plain_do trivial fun _ => plain_do trivial fun _ =>
      plain_do trivial fun _ => plain_doing trivial

theorem plain_callAll (autoconnect : Bool) (calls : List Call) :
    Only Plain (callAll autoconnect calls) := by
  induction calls with
  | nil => trivial
  | cons call calls ih => exact only_bind (plain_call autoconnect call) fun _ => ih

variable {α : Type} {v : View} {Q : α → View → Prop}

theorem wp_do {a : Act} {f : a.Answer → Program α} (hpre : pre v a)
    (h : ∀ r w, loc v a r w → wp loc pre True Q (f r) w) :
    wp loc pre True Q (doing a >>= f) v := ⟨hpre, h⟩

theorem wp_plainDo {a : Act} {f : a.Answer → Program α} (ha : Plain a)
    (h : ∀ r, wp loc pre True Q (f r) v) : wp loc pre True Q (doing a >>= f) v :=
  wp_bind.2 (wp_plain (plain_doing ha) h)

theorem wp_responseParse (rounds : ℕ) {answer : ℤ} {late : Bool}
    (hanswer : late = true → answer = -1) :
    wp loc pre True (fun _ v => v.ended = false) (responseParse rounds answer) ⟨false, late⟩ := by
  induction rounds generalizing answer late with
  | zero => trivial
  | succ rounds ih =>
    refine wp_do hanswer ?_
    rintro data _ rfl
    cases (data : Option Bytes) with
    | none => rfl
    | some data =>
      refine wp_bind.2 (wp_do rfl ?_)
      rintro cont ⟨ended, late⟩ ⟨hended, hlate⟩
      cases hended
      by_cases hcont : (cont : ℤ) = 0
      · rw [if_pos hcont]
        exact ih fun _ => rfl
      · have hearly : late = false := Bool.eq_false_iff.2 (mt hlate hcont)
        rw [if_neg hcont]
        refine ⟨hearly, ?_⟩
        rintro answer _ rfl
        exact ih fun h => absurd h (by simp [hearly])

theorem wp_cleanup (v : View) : wp loc pre True (fun _ _ => True) cleanup v := by
  refine wp_plainDo trivial fun _ => wp_plainDo trivial fun _ => wp_plainDo trivial fun _ =>
    wp_plainDo trivial fun _ => ?_
  exact ⟨trivial, fun _ _ _ => trivial⟩

theorem wp_streamerlinkRun (rounds : ℕ) :
    wp loc pre True (fun _ _ => True) (streamerlinkRun rounds) ⟨false, false⟩ := by
  refine wp_plainDo trivial fun _ => wp_plainDo trivial fun failed => ?_
  split
  · exact wp_cleanup _
  refine wp_plainDo trivial fun _ => ?_
  refine wp_bind.2 (wp_mono (wp_responseParse rounds fun h => absurd h (by decide)) ?_)
  intro _ v _
  exact wp_cleanup v

theorem wp_job (autoconnect : Bool) (job : Job) :
    wp loc pre True (fun _ _ => True) (job.program autoconnect) ⟨false, false⟩ := by
  cases job with
  | user calls => exact wp_plain (plain_callAll autoconnect calls) fun _ => trivial
  | run rounds => exact wp_streamerlinkRun rounds

end Programs

section Steps
variable {s t : Link} {i : ℕ}

@[simp] theorem view_put_self {c : Connection} : view (s.put i c) i = ⟨c.ended, c.late⟩ := by
  simp [view, Link.put]

theorem view_put_ne {c : Connection} {j : ℕ} (h : j ≠ i) : view (s.put i c) j = view s j := by
  simp [view, Link.put, Function.update_of_ne h]

theorem heeds_put {c : Connection} (h : s.Heeds) (hstopped : c.stopped = (s.connection i).stopped)
    (hended : c.ended = false → (s.connection i).ended = false) (hquiet : c.Quiet) :
    (s.put i c).Heeds where
  cleared k hk hk' := by
    by_cases hi : k = i
    · subst hi
      simp only [Link.put, Function.update_self] at hk hk'
      exact h.cleared k (hstopped ▸ hk) (hended hk')
    · simp only [Link.put, Function.update_of_ne hi] at hk hk'
      exact h.cleared k hk hk'
  quiet k := by
    by_cases hi : k = i
    · subst hi
      simpa [Link.put] using hquiet
    · simpa [Link.put, Function.update_of_ne hi] using h.quiet k

theorem heeds_setCont {value : ℤ} (h : s.Heeds) (htime : SetsInTime s (.writeCont value)) :
    (s.setCont value).Heeds where
  cleared k hk hk' := by
    by_cases hvalue : value = 0
    · exact hvalue
    · simp only [Link.setCont, hvalue, false_and, if_false] at hk hk'
      rw [htime value rfl hvalue k hk] at hk'
      exact absurd hk' (by decide)
  quiet k := by
    have hquiet := h.quiet k
    simp only [Link.setCont]
    split
    · exact ⟨hquiet.passed, hquiet.returned⟩
    · exact hquiet

theorem view_setCont (value : ℤ) (j : ℕ) : view (s.setCont value) j = view s j := by
  simp only [view, Link.setCont]
  split <;> rfl

theorem quiet_leave {c : Connection} {answer : ℤ} (h : c.Quiet) (hanswer : c.late = true → answer = -1) :
    (c.leave answer).Quiet := by
  unfold Connection.leave
  split
  · next hlate =>
    refine ⟨h.passed, fun answer' hmem => ?_⟩
    rcases List.mem_append.1 hmem with hmem | hmem
    · exact h.returned answer' hmem
    · rw [List.mem_singleton.1 hmem, hanswer hlate]
  · exact h

theorem does_step {a : Act} {r : a.Answer} (h : s.Heeds) (hpre : pre (view s i) a)
    (hdoes : Link.Does i s a r t) (htime : SetsInTime s a) :
    t.Heeds ∧ loc (view s i) a r (view t i) ∧ ∀ j, j ≠ i → view t j = view s j := by
  have hkept : ∀ t : Link, t.cont = s.cont → t.connection = s.connection →
      t.Heeds ∧ view t i = view s i ∧ ∀ j, j ≠ i → view t j = view s j := by
    intro t hcont hconnection
    refine ⟨⟨fun k => ?_, fun k => ?_⟩, ?_, fun j _ => ?_⟩
    · rw [hcont, hconnection]
      exact h.cleared k
    · rw [hconnection]
      exact h.quiet k
    · rw [view, hconnection, view]
    · rw [view, hconnection, view]
  cases a with
  | begin | readThread | readRemote | join =>
    obtain ⟨-, rfl⟩ := hdoes
    exact hkept _ rfl rfl
  | lock =>
    obtain ⟨-, rfl⟩ := hdoes
    exact hkept _ rfl rfl
  | unlock | writeThread | openSocket | closeConnection | writeRemote | sendRequest =>
    cases hdoes
    exact hkept _ rfl rfl
  | newThread =>
    cases (r : Option ℕ) with
    | none =>
      cases hdoes
      exact hkept _ rfl rfl
    | some k =>
      obtain ⟨-, rfl⟩ := hdoes
      exact hkept _ rfl rfl
  | finish =>
    cases hdoes
    refine ⟨heeds_put h rfl (fun hended => Bool.noConfusion hended) ?_, view_put_self,
      fun j => view_put_ne⟩
    exact ⟨(h.quiet i).passed, (h.quiet i).returned⟩
  | writeCont value =>
    cases hdoes
    exact ⟨heeds_setCont h htime, view_setCont value i, fun j _ => view_setCont value j⟩
  | readCont =>
    obtain ⟨rfl, rfl⟩ := hdoes
    refine ⟨heeds_put h rfl id ⟨(h.quiet i).passed, (h.quiet i).returned⟩, ?_, fun j => view_put_ne⟩
    rw [view_put_self]
    exact ⟨rfl, fun hlate => h.cleared i hlate hpre⟩
  | parse answer =>
    cases hdoes
    have hsame : ((s.connection i).leave answer).stopped = (s.connection i).stopped ∧
        ((s.connection i).leave answer).ended = (s.connection i).ended ∧
        ((s.connection i).leave answer).late = false := by
      unfold Connection.leave
      split
      · exact ⟨rfl, rfl, rfl⟩
      · next hlate => exact ⟨rfl, rfl, Bool.eq_false_iff.2 hlate⟩
    refine ⟨heeds_put h hsame.1 (fun hended => hsame.2.1 ▸ hended) (quiet_leave (h.quiet i) hpre), ?_,
      fun j => view_put_ne⟩
    rw [view_put_self, hsame.2.1, hsame.2.2]
    exact rfl
  | ondata data =>
    have hpass : (s.connection i).pass data = s.connection i := by
      rw [Connection.pass, if_neg]
      exact Bool.eq_false_iff.1 hpre
    have hsame : s.put i ((s.connection i).pass data) = s := by
      rw [hpass, Link.put, Function.update_eq_self]
    cases hdoes
    rw [hsame]
    exact hkept s rfl rfl

end Steps

/-- As long as no thread sets `cont` again while a stopped connection is running, no data goes to the
user after a stop: every later call of `streamerlink_ondata` returns -1. -/
theorem stop_is_heeded {autoconnect : Bool} {jobs : List Job}
    {ms : List (Move Process (ℕ × Event Act.Answer))} {d : Process}
    (hrun : Run (ThreadStep Link.Does) (newProcess autoconnect jobs) ms d)
    (htime : ∀ m ∈ ms, SetsInTime m.src.1 m.act.2.1) (k : ℕ) :
    (d.1.connection k).passed = [] ∧ ∀ answer ∈ (d.1.connection k).returned, answer = -1 := by
  have hnew : newStreamerlink.Heeds :=
    ⟨fun _ h => Bool.noConfusion h, fun _ => ⟨rfl, fun _ h => absurd h List.not_mem_nil⟩⟩
  have hconform : Conform view loc pre (newProcess autoconnect jobs) := by
    intro i p hp
    rw [newProcess, List.getElem?_map] at hp
    obtain ⟨job, -, rfl⟩ := Option.map_eq_some_iff.1 hp
    exact wp_job autoconnect job
  have hinv := threads_run (G := fun _ s a _ _ => SetsInTime s a)
    (fun _ _ _ _ _ hs hpre hdoes => does_step hs hpre hdoes) hrun htime hnew hconform
  exact ⟨(hinv.1.quiet k).passed, (hinv.1.quiet k).returned⟩

/-- One way in which the actions are answered: nothing fails, each piece of a body is one byte, and
the body ends when a callback returned something else than 0. -/
def answers (i : ℕ) (s : Link) : (a : Act) → Option (a.Answer × Link)
  | .begin => if i ∈ s.started then some ((), s) else none
  | .finish => some ((), s.put i { s.connection i with ended := true })
  | .writeCont value => some ((), s.setCont value)
  | .readCont => some (s.cont, s.put i (s.connection i).enter)
  | .lock => if s.holder = none then some ((), { s with holder := some i }) else none
  | .unlock => some ((), { s with holder := none })
  | .readThread => some (s.thread, s)
  | .newThread =>
    if s.started.length + 1 ∈ s.started then none
    else some (some (s.started.length + 1),
      { s with started := (s.started.length + 1) :: s.started })
  | .writeThread thread => some ((), { s with thread := thread })
  | .join thread =>
    if ∀ k ∈ thread, (s.connection k).ended = true then some ((), s) else none
  | .openSocket _ => some (false, { s with socket := true })
  | .closeConnection => some ((), { s with socket := false })
  | .readRemote => some (s.remoteAddr, s)
  | .writeRemote addr => some ((), { s with remoteAddr := addr })
  | .sendRequest => some (false, s)
  | .parse answer =>
    some (if answer = 0 then some [0] else none, s.put i ((s.connection i).leave answer))
  | .ondata data => some (0, s.put i ((s.connection i).pass data))

theorem does_answers {i : ℕ} {s t : Link} {a : Act} {r : a.Answer}
    (h : answers i s a = some (r, t)) : Link.Does i s a r t := by
  cases a with
  | begin | lock | join =>
    simp only [answers, Option.ite_none_right_eq_some, Option.some.injEq, Prod.mk.injEq] at h
    exact ⟨h.1, h.2.2.symm⟩
  | newThread =>
    simp only [answers, Option.ite_none_left_eq_some, Option.some.injEq] at h
    obtain ⟨hnew, h⟩ := h
    cases h
    exact ⟨hnew, rfl⟩
  | readCont | readThread | readRemote =>
    cases h
    exact ⟨rfl, rfl⟩
  | _ =>
    cases h
    exact rfl

/-- The same as long as no thread sets `cont`. -/
def clearing (i : ℕ) (s : Link) : (a : Act) → Option (a.Answer × Link)
  | .writeCont value => if value = 0 then answers i s (.writeCont value) else none
  | a => answers i s a

theorem does_clearing {i : ℕ} {s t : Link} {a : Act} {r : a.Answer}
    (h : clearing i s a = some (r, t)) : Link.Does i s a r t ∧ SetsInTime s a := by
  cases a with
  | writeCont value =>
    obtain ⟨hvalue, hsame⟩ := Option.ite_none_right_eq_some.1 h
    refine ⟨does_answers hsame, fun value' hsame' hne => ?_⟩
    cases hsame'
    exact absurd hvalue hne
  | _ => exact ⟨does_answers h, fun _ hsame => nomatch hsame⟩

/-- A user who connects, and disconnects once the thread has passed one piece on. -/
def connecting : Process :=
  newProcess true [.user [.setRemote (some Addr.newAddr0), .disconnect], .run 3]

def requestSent : Process := play clearing (List.replicate 22 0 ++ [1, 1]) connecting

def contSet : Process := play answers [1] requestSent

theorem contSet_step : ThreadStep Link.Does requestSent (1, ⟨.writeCont 1, ()⟩) contSet :=
  ⟨_, rfl, rfl, rfl⟩

theorem late_stop_is_heeded : ∃ ms d, Run (ThreadStep Link.Does) connecting ms d ∧
    (d.1.connection 1).returned = [-1] ∧ (d.1.connection 1).passed = [] ∧
      ∀ answer ∈ (d.1.connection 1).returned, answer = -1 := by
  obtain ⟨ms₁, hrun₁, hms₁⟩ := run_play_guarded clearing (fun _ _ _ _ _ => does_clearing)
    (List.replicate 22 0 ++ [1, 1]) connecting
  obtain ⟨ms₂, hrun₂, hms₂⟩ := run_play_guarded clearing (fun _ _ _ _ _ => does_clearing)
    ([1, 1, 1, 0] ++ List.replicate 8 1) contSet
  have htime : SetsInTime requestSent.1 (.writeCont 1) := 
    fun _ _ _ k hk => absurd hk Bool.false_ne_true
  have hrun := hrun₁.append ((Run.single contSet_step).append hrun₂)
  refine ⟨_, _, hrun, rfl, stop_is_heeded hrun ?_ 1⟩
  simp only [List.mem_append, List.mem_singleton, or_imp, forall_and, forall_eq]
  exact ⟨hms₁, htime, hms₂⟩

/-- The user connects and disconnects before the thread has sent its request. -/
theorem early_stop_is_lost : ∃ ms d,
    Run (ThreadStep Link.Does)
      (newProcess true [.user [.setRemote (some Addr.newAddr0), .disconnect], .run 2]) ms d ∧
      (d.1.connection 1).passed = [[0]] := by
  obtain ⟨ms, hrun⟩ := run_play answers (fun _ _ _ _ _ => does_answers)
    (List.replicate 23 0 ++ List.replicate 6 1)
    (newProcess true [.user [.setRemote (some Addr.newAddr0), .disconnect], .run 2])
  exact ⟨ms, _, hrun, rfl⟩

end Rcom.Streamerlink
