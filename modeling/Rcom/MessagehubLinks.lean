import Rcom.Lib.WorkerRules

/-!
# The life of a messagehub's links (messagehub.c)

The hub's thread makes a link for each websocket that it accepts and starts its reader, which moves
the link to `closed_links` when it ends. The hub's thread deletes the links it finds there, and
`delete_messagehub` stops the readers of the others first. A link whose reader could not be started
stays in `links`, and nobody deletes it.
-/

namespace Rcom.MessagehubLinks
open Lib Lib.Program Lib.Trace Lib.Workers

/-- The only action on a link is `()`: some use of it. -/
abbrev Program (α : Type) := Workers.Program (fun _ : Unit => Unit) α

/-- `delete_messagelink` stops the reader first, so a link may be used until then. -/
def contract : Contract Unit Unit (fun _ => Unit) where
  new := ()
  does := fun _ _ _ _ => True
  sound := fun _ => True
  sound_new := trivial
  discipline := .joins
  handed := fun _ => True
  returned := fun _ => True
  disposed := fun _ => True
  disposed_of_returned := fun _ _ => trivial
  sound_of_returned := fun _ _ => trivial

/-! ## The code of the threads -/

def messagelinkStopThread (link : ℕ) : Program Unit := do
  let thread : Bool ← doing (.thread link)
  if thread then doing (.join link)
  else pure ()

def deleteMessagelink (link : ℕ) : Program Unit := do
  messagelinkStopThread link
  let _ ← doing (.own link ())
  doing (.free link)

/-- The calls of `messagehub_handle_websocket` that make a link, until the hub is asked to quit; the
loop is cut after a number of rounds. -/
def messagehubRun : ℕ → Program Unit
  | 0 => .stop
  | rounds + 1 => do
    let quit : Bool ← doing .ask
    if quit then pure ()
    else do
      let accepted : Option ℕ ← doing .accept
      match accepted with
      | none => messagehubRun rounds
      | some link => do
        let refused : Bool ← doing .ask
        if refused then do
          deleteMessagelink link
          messagehubRun rounds
        else do
          addRecord link
          deleteFinished deleteMessagelink
          let _ ← doing (.start link)
          messagehubRun rounds

/-- The hub's thread, and then `delete_messagehub`, which has joined it. -/
def hubThread (rounds : ℕ) : Program Unit := do
  messagehubRun rounds
  takeAll messagelinkStopThread
  deleteFinished deleteMessagelink

/-- The loop reads messages while the link is open and nobody asks it to stop. -/
def messagelinkLoop (link : ℕ) : ℕ → Program Unit
  | 0 => .stop
  | rounds + 1 => do
    let _ ← doing (.own link ())
    let quit : Bool ← doing .ask
    if quit then pure ()
    else messagelinkLoop link rounds

/-- The name of the link is still read for the log when it has been moved. -/
def serverMessagelinkRun (rounds link : ℕ) : Program Unit := do
  let _ ← doing (.begin link)
  messagelinkLoop link rounds
  removeRecord link
  let _ ← doing (.own link ())
  doing (.release link)

def newProcess (rounds messages n : ℕ) : Threads (Pool Unit) (Act.Answer fun _ : Unit => Unit) Unit :=
  process () (hubThread rounds) (serverMessagelinkRun messages) n

/-! ## What the threads keep to -/

abbrev Between (c : Control Unit) : Prop := c.Between fun _ => False

section Threads
variable {Q : Unit → View Unit → Prop} {c : Control Unit} {link : ℕ}

abbrev Wp (Q : Unit → View Unit → Prop) (p : Program Unit) (v : View Unit) : Prop :=
  wp (View.Sees contract) (View.Pre contract) True Q p v

theorem wp_stopThread (hc : c.ctl link = .running)
    (hQ : Q () (.control (c.setCtl link .joined none))) :
    Wp Q (messagelinkStopThread link) (.control c) := by
  refine wp_control trivial ?_
  rintro r c' ⟨hr, rfl⟩
  have hthread : r = true := by simpa [hc] using hr
  subst hthread
  exact wp_join hc hQ

theorem wp_stopThread_none (hc : c.ctl link ≠ .running) (hQ : Q () (.control c)) :
    Wp Q (messagelinkStopThread link) (.control c) := by
  refine wp_control trivial ?_
  rintro r c' ⟨hr, rfl⟩
  have hthread : r = false := by simpa [hc] using hr
  subst hthread
  exact hQ

theorem wp_delete_swept (hk : c.Sweeps contract link) (hd : c.data link = none)
    (hctl : c.ctl link ≠ .running) (hQ : Q () (.control (c.setCtl link .freed none))) :
    Wp Q (deleteMessagelink link) (.control c) := by
  rw [Wp, deleteMessagelink, wp_bind]
  refine wp_stopThread_none hctl ?_
  refine wp_own_swept hk hd (fun _ _ _ _ _ => trivial) ?_
  intro _ _ _ _ _
  refine wp_control (.inr hk) ?_
  rintro _ c' rfl
  exact hQ

theorem wp_delete_left (hleft : c.Left link) (hQ : Q () (.control (c.setCtl link .freed none))) :
    Wp Q (deleteMessagelink link) (.control c) := by
  obtain ⟨hlisted, hctl, hd⟩ := hleft
  by_cases hrunning : c.ctl link = .running
  · rw [Wp, deleteMessagelink, wp_bind]
    refine wp_stopThread hrunning ?_
    have hjoined : (c.setCtl link .joined none).ctl link = .joined := by simp [Control.setCtl]
    have hk : (c.setCtl link .joined none).Sweeps contract link := ⟨hlisted, .inl hjoined⟩
    refine wp_own_swept hk (by simp [Control.setCtl]) (fun _ _ _ _ _ => trivial) ?_
    intro _ _ _ _ _
    refine wp_control (.inr hk) ?_
    rintro _ c' rfl
    rwa [setCtl_setCtl]
  · exact wp_delete_swept ⟨hlisted, .inl (hctl.resolve_left hrunning)⟩ hd hrunning hQ

theorem wp_delete_made (hctl : c.ctl link = .made) (hd : c.data link = some ())
    (hQ : Q () (.control (c.setCtl link .freed none))) :
    Wp Q (deleteMessagelink link) (.control c) := by
  rw [Wp, deleteMessagelink, wp_bind]
  refine wp_stopThread_none (by simp [hctl]) ?_
  refine wp_own hd (fun _ _ _ => trivial) ?_
  intro _ _ _
  refine wp_control (.inl ⟨by simp [Control.setCtl, hctl], fun _ _ => trivial⟩) ?_
  rintro _ c' rfl
  rwa [setCtl_setCtl]

theorem wp_run {Q : Unit → View Unit → Prop} {rounds : ℕ} (hc : Between c)
    (hQ : ∀ c', Between c' → Q () (.control c')) :
    Wp Q (messagehubRun rounds) (.control c) := by
  induction rounds generalizing c with
  | zero => trivial
  | succ rounds ih =>
    refine wp_control trivial ?_
    rintro quit c₁ rfl
    cases quit with
    | true => exact hQ c₁ hc
    | false =>
      refine wp_control trivial ?_
      intro accepted c₂ haccepted
      cases accepted with
      | none =>
        obtain rfl := haccepted
        exact ih hc
      | some link =>
        obtain ⟨-, rfl⟩ := haccepted
        have hmade : (c₁.setCtl link .made (some ())).ctl link = .made := by simp [Control.setCtl]
        refine wp_control trivial ?_
        rintro refused c₃ rfl
        cases refused with
        | true =>
          refine (wp_bind (p := deleteMessagelink link)).2 ?_
          refine wp_delete_made hmade (by simp [Control.setCtl]) (ih ?_)
          rw [setCtl_setCtl]
          exact hc.setCtl (.inr (.inl rfl))
        | false =>
          exact wp_launch (fun _ _ hleft _ => wp_delete_left hleft) hc trivial fun c' hc' => ih hc'

/-- Only links without a reader are left when `delete_messagehub` returns. -/
theorem wp_hubThread {rounds : ℕ} (hc : Between c) :
    Wp (fun _ v => ∃ c', v = .control c' ∧ c'.Cleared fun _ => False) (hubThread rounds)
      (.control c) := by
  rw [Wp, hubThread, wp_bind]
  refine wp_run hc fun c₁ hc₁ => ?_
  rw [wp_bind]
  refine wp_takeAll (fun _ _ hrunning _ => wp_stopThread hrunning)
    (fun _ _ hstranded _ => wp_stopThread_none (by simp [hstranded])) hc₁ fun l => ?_
  exact wp_deleteFinished_last (fun _ _ hleft _ => wp_delete_left hleft) hc₁
    fun c' hc' => ⟨c', rfl, hc'⟩

theorem wp_loop {Q : Unit → View Unit → Prop} {messages : ℕ} {w : Wrk}
    (hQ : Q () (.worker ⟨link, w, some (), False⟩)) :
    Wp Q (messagelinkLoop link messages) (.worker ⟨link, w, some (), False⟩) := by
  induction messages with
  | zero => trivial
  | succ messages ih =>
    refine wp_own_worker (fun _ _ _ => trivial) ?_
    intro _ _ _
    refine wp_worker trivial ?_
    rintro quit w' rfl
    cases quit with
    | true => exact hQ
    | false => exact ih

theorem wp_reader {messages : ℕ} :
    Wp (fun _ _ => True) (serverMessagelinkRun messages link)
      (.worker ⟨link, .idle, none, False⟩) := by
  refine wp_begin ?_
  intro _ _
  refine (wp_bind (p := messagelinkLoop link messages)).2 (wp_loop ?_)
  refine (wp_bind (p := removeRecord link)).2 (wp_removeRecord (by decide) ?_)
  refine wp_own_worker (fun _ _ _ => trivial) ?_
  intro _ _ _
  refine wp_worker ⟨rfl, rfl, fun _ _ => trivial⟩ ?_
  rintro _ w' rfl
  trivial

end Threads

/-! ## Runs -/

theorem between_new : Between ⟨fun _ => .fresh, fun _ => some (), none, none⟩ :=
  ⟨rfl, rfl, fun _ => .inl rfl⟩

abbrev Process := Threads (Pool Unit) (Act.Answer fun _ : Unit => Unit) Unit

abbrev Step := Move Process (ℕ × Event (Act.Answer fun _ : Unit => Unit))

/-- A link is in at most one of the two lists, and only once. It is deleted at most once, and only
after its reader has ended or when it was refused and never got one. When `delete_messagehub` has
returned, every link that was made has been deleted. -/
structure LifeCycle (ms : List Step) (d : Process) : Prop where
  lists : (d.1.active ++ d.1.finished).Nodup
  once : ∀ k, d.1.frees k ≤ 1
  after : ∀ m ∈ ms, ∀ k, m.act.2.1 = .free k →
    m.src.1.ctl k = .made ∧ m.src.1.wrk k = .idle ∨ m.src.1.wrk k = .released
  deleted : d.2[0]? = some (.ret ()) → ∀ k, d.1.ctl k ≠ .fresh → d.1.frees k = 1

/-- The links keep to their life cycle through a run exactly if `new_thread` gives each of them its
reader, unless `delete_messagehub` has not returned yet. -/
theorem link_life_cycle_iff {rounds messages n : ℕ} {ms : List Step} {d : Process}
    (hrun : Run (ThreadStep (Does contract)) (newProcess rounds messages n) ms d) :
    LifeCycle ms d ↔
      (d.2[0]? = some (.ret ()) → ∀ m ∈ ms, ∀ k, m.act.2 ≠ ⟨.start k, false⟩) := by
  have hcomplies : Complies Pool.view (View.Sees contract) (View.Pre contract) _
      (newProcess rounds messages n) := process_complies (wp_hubThread between_new) fun _ => wp_reader
  have htime : ∀ m ∈ ms, Timely contract m.act.1 m.src.1 m.act.2.1 :=
    fun _ _ => timely_of_ne (by decide)
  obtain ⟨hinv, hthreads⟩ := pool_run hrun htime (newPool_inv contract ()) hcomplies
  have hstranded (k : ℕ) : d.1.ctl k = .stranded ↔ ∃ m ∈ ms, m.act.2 = ⟨.start k, false⟩ :=
    (stranded_iff hrun htime (newPool_inv contract ()) hcomplies k).trans (by simp [newProcess, process, newPool])
  constructor
  · intro h hret m hm k hstart
    have hk := (hstranded k).2 ⟨m, hm, hstart⟩
    have hfrees := (hinv.good k).frees
    rw [show (d.1.cell k).frees = 1 from h.deleted hret k (by simp [hk])] at hfrees
    simp [Pool.cell, hk] at hfrees
  · intro hstarted
    refine ⟨hinv.lists_nodup, hinv.frees_le, fun m hm k hfree => ?_, fun hret k hmade => ?_⟩
    · obtain ⟨hsrc, hpre⟩ := pool_moves hrun htime (newPool_inv contract ()) hcomplies hm
      rw [hfree] at hpre
      exact hsrc.freed_unused hpre (timely_of_ne (by decide))
    · obtain ⟨c, hc, hcleared⟩ := hthreads 0 _ hret rfl
      obtain rfl : d.1.control = c := View.control.inj hc
      rcases hcleared.ctl k with h | h | h | ⟨-, _, -, h⟩
      · exact absurd h hmade
      · obtain ⟨m, hm, hstart⟩ := (hstranded k).1 h
        exact absurd hstart (hstarted hret m hm k)
      · have hfrees := (hinv.good k).frees
        have hfreed : d.1.ctl k = .freed := h
        simpa [Pool.cell, hfreed] using hfrees
      · exact h.elim

/-- The hub quits when one link has been accepted. -/
def oneLinkAnswers (start : Bool) :=
  answers contract 1 (fun i s => i = 1 ∨ s.ctl 0 ≠ .fresh ∧ s.ctl 0 ≠ .made) (fun _ _ => ((), ())) start

def oneLinkOrder : List ℕ := List.replicate 16 0 ++ List.replicate 9 1 ++ List.replicate 8 0

/-- Its reader ends at once. -/
theorem one_link_deleted : ∃ ms d, Run (ThreadStep (Does contract)) (newProcess 2 1 1) ms d ∧
    d.2[0]? = some (.ret ()) ∧ d.1.frees 0 = 1 := by
  obtain ⟨ms, hrun, hstarted⟩ := run_play_guarded (oneLinkAnswers true)
    (fun _ _ _ _ _ h => ⟨does_answers (fun _ _ => trivial) h, started_of_answers h⟩) oneLinkOrder
    (newProcess 2 1 1)
  exact ⟨ms, _, hrun, rfl,
    ((link_life_cycle_iff hrun).2 fun _ => hstarted).deleted rfl 0 (by decide)⟩

/-- It has no reader. -/
theorem unstarted_link_never_deleted : ∃ ms d,
    Run (ThreadStep (Does contract)) (newProcess 2 1 1) ms d ∧ d.2[0]? = some (.ret ()) ∧
      d.1.ctl 0 ≠ .fresh ∧ d.1.frees 0 = 0 ∧ ¬LifeCycle ms d := by
  obtain ⟨ms, hrun⟩ := run_play (oneLinkAnswers false)
    (fun _ _ _ _ _ => does_answers fun _ _ => trivial) oneLinkOrder (newProcess 2 1 1)
  refine ⟨ms, _, hrun, rfl, by decide, rfl, fun h => ?_⟩
  have hdeleted := h.deleted rfl 0 (by decide)
  exact absurd hdeleted (by decide)

end Rcom.MessagehubLinks
