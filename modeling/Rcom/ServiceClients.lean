import Rcom.Lib.WorkerRules

/-!
# The clients of a service (service.c)

`service_run` makes a record for each connection and starts a thread that handles it. That thread
moves its record to `finished_clients` and then closes the socket and marks it closed in the record;
`service_delete_clients` frees what it finds in that list.
-/

namespace Rcom.Service
open Lib Lib.Program Lib.Trace Lib.Workers

/-- The accesses to a `service_client_t`: `socket` is a use of the socket to send or receive,
`service` reads the pointer to the service. -/
inductive Use where
  | socket
  | service
  | isValid
  | close
  | invalidate

abbrev Use.Answer : Use → Type
  | .isValid => Bool
  | _ => Unit

/-- `valid` says whether the record still holds the accepted descriptor, `closes` counts how often that
descriptor was closed. -/
structure Client where
  valid : Bool
  closes : ℕ

def newServiceClient : Client where
  valid := true
  closes := 0

def Client.Does (c : Client) : (b : Use) → b.Answer → Client → Prop
  | .isValid, (r : Bool), c' => r = c.valid ∧ c' = c
  | .close, _, c' => c' = if c.valid then { c with closes := c.closes + 1 } else c
  | .invalidate, _, c' => c' = { c with valid := false }
  | _, _, c' => c' = c

/-- `service_delete_clients` does not wait for the thread of a record. -/
def contract : Contract Client Use Use.Answer where
  new := newServiceClient
  does := Client.Does
  sound := fun c => c.closes ≤ 1
  sound_new := Nat.zero_le 1
  discipline := .trusting
  handed := fun c => c = newServiceClient
  returned := fun c => c = ⟨false, 1⟩
  disposed := fun c => c.closes = 1
  disposed_of_returned := by
    rintro _ rfl
    rfl
  sound_of_returned := by
    rintro _ rfl
    exact Nat.le_refl 1

abbrev Program (α : Type) := Workers.Program Use.Answer α

def access (client : ℕ) (b : Use) : Program b.Answer := doing (.own client b)

/-! ## The code of the threads -/

def deleteServiceClient (client : ℕ) : Program Unit := do
  let valid : Bool ← access client .isValid
  if valid then do
    let _ ← access client .close
    let _ ← access client .invalidate
    doing (.free client)
  else doing (.free client)

def cleanup (client : ℕ) : Program Unit := do
  let _ ← access client .service
  removeRecord client
  let _ ← access client .close
  let _ ← access client .invalidate
  doing (.release client)

def sendErrorHeaders (client : ℕ) : Program Unit := do
  let _ ← access client .socket
  cleanup client

/-- What can go wrong: parsing the request, its URI, the export for it and the response. -/
def serviceClientHandle (client : ℕ) : Program Unit := do
  let _ ← doing (.begin client)
  let _ ← access client .socket
  let failed : Bool ← doing .ask
  if failed then sendErrorHeaders client
  else do
    let noUri : Bool ← doing .ask
    if noUri then sendErrorHeaders client
    else do
      let _ ← access client .service
      let noExport : Bool ← doing .ask
      if noExport then sendErrorHeaders client
      else do
        let noResponse : Bool ← doing .ask
        if noResponse then sendErrorHeaders client
        else do
          let _ ← access client .socket
          cleanup client

/-- The loop is cut after a number of rounds. -/
def serviceRun : ℕ → Program Unit
  | 0 => .stop
  | rounds + 1 => do
    let quit : Bool ← doing .ask
    if quit then pure ()
    else do
      let accepted : Option ℕ ← doing .accept
      match accepted with
      | none => serviceRun rounds
      | some client => do
        addRecord client
        deleteFinished deleteServiceClient
        let _ ← doing (.start client)
        serviceRun rounds

def deleteService : Program Unit := do
  let any : Bool ← doing .anyActive
  if any then do
    takeAll fun client => doing (.join client)
    deleteFinished deleteServiceClient
  else deleteFinished deleteServiceClient

/-- The service's thread, and then `delete_service`, which has joined it. -/
def serviceThread (rounds : ℕ) : Program Unit := do
  serviceRun rounds
  deleteService

abbrev Process := Threads (Pool Client) (Act.Answer Use.Answer) Unit

def newProcess (rounds n : ℕ) : Process :=
  process newServiceClient (serviceThread rounds) serviceClientHandle n

/-! ## What the threads keep to -/

abbrev Wp (Q : Unit → View Client → Prop) (p : Program Unit) (v : View Client) : Prop :=
  wp (View.Sees contract) (View.Pre contract) True Q p v

abbrev Between (c : Control Client) : Prop := c.Between fun _ => False

section Threads
variable {Q : Unit → View Client → Prop} {c : Control Client} {client : ℕ}

theorem returned_does {b : Use} {r : b.Answer} {d d' : Client} (h : contract.returned d)
    (hdoes : contract.does d b r d') : contract.returned d' := by
  obtain rfl : d = ⟨false, 1⟩ := h
  cases b with
  | isValid => exact hdoes.2
  | socket | service | close | invalidate => exact hdoes

theorem wp_delete_left (hleft : c.Left client)
    (hQ : Q () (.control (c.setCtl client .freed none))) :
    Wp Q (deleteServiceClient client) (.control c) := by
  obtain ⟨hlisted, hctl, hd⟩ := hleft
  have hk : c.Sweeps contract client := ⟨hlisted, hctl.symm.imp_right fun h => ⟨h, by decide⟩⟩
  refine wp_own_swept hk hd (fun _ _ _ => returned_does) ?_
  intro valid d d' hret hdoes
  obtain rfl : d = ⟨false, 1⟩ := hret
  obtain rfl : valid = false := hdoes.1
  refine wp_control (.inr hk) ?_
  rintro _ c' rfl
  exact hQ

theorem wp_run {rounds : ℕ} (hc : Between c) (hQ : ∀ c', Between c' → Q () (.control c')) :
    Wp Q (serviceRun rounds) (.control c) := by
  induction rounds generalizing c with
  | zero => trivial
  | succ rounds ih =>
    refine wp_control trivial ?_
    rintro quit c₁ rfl
    cases quit with
    | true => exact hQ c₁ hc
    | false =>
      refine wp_control trivial ?_
      intro accepted c₂ haccepted
      cases accepted with
      | none =>
        obtain rfl := haccepted
        exact ih hc
      | some client =>
        obtain ⟨-, rfl⟩ := haccepted
        exact wp_launch (fun _ _ hleft _ => wp_delete_left hleft) hc rfl fun c' hc' => ih hc'

theorem wp_serviceThread {rounds : ℕ} (hc : Between c) :
    Wp (fun _ v => ∃ c', v = .control c' ∧ c'.Cleared fun _ => False) (serviceThread rounds)
      (.control c) := by
  rw [Wp, serviceThread, wp_bind]
  refine wp_run hc fun c₁ hc₁ => ?_
  refine wp_control ⟨hc₁.taken, hc₁.not_listed⟩ ?_
  rintro any c₂ rfl
  have hlast (l : List ℕ) : Wp (fun _ v => ∃ c', v = .control c' ∧ c'.Cleared fun _ => False)
      (deleteFinished deleteServiceClient)
      (.control (({ c₁ with taken := some l } : Control Client).joinAll l)) :=
    wp_deleteFinished_last (fun _ _ hleft _ => wp_delete_left hleft) hc₁ fun c' hc' => ⟨c', rfl, hc'⟩
  cases any with
  | true =>
    exact (wp_bind (p := takeAll _)).2 (wp_takeAll (fun _ _ hk _ hQ => wp_join hk hQ)
      (fun _ _ hk _ hQ => wp_join_stranded hk hQ) hc₁ hlast)
  | false =>
    have hnone := hlast []
    rw [Control.joinAll, List.filter_nil, setAll_nil] at hnone
    exact hnone

theorem wp_read {Q : Unit → View Client → Prop} {b : Use} {f : b.Answer → Program Unit}
    (hread : ∀ d r d', Client.Does d b r d' → d' = d)
    (h : ∀ r, Wp Q (f r) (.worker ⟨client, .working, some newServiceClient, False⟩)) :
    Wp Q (.act (.own client b) f) (.worker ⟨client, .working, some newServiceClient, False⟩) := by
  refine wp_own_worker (fun r d' hdoes => ?_) fun r d' hdoes => ?_
  · rw [hread _ _ _ hdoes]
    exact contract.sound_new
  · rw [hread _ _ _ hdoes]
    exact h r

theorem wp_cleanup : Wp (fun _ _ => True) (cleanup client)
    (.worker ⟨client, .working, some newServiceClient, False⟩) := by
  refine wp_read (fun _ _ _ h => h) fun _ => ?_
  refine (wp_bind (p := removeRecord client)).2 (wp_removeRecord (by decide) ?_)
  refine wp_own_worker (fun _ _ hdoes => hdoes ▸ Nat.le_refl 1) ?_
  rintro _ d rfl
  refine wp_own_worker (fun _ _ hdoes => hdoes ▸ Nat.le_refl 1) ?_
  rintro _ d rfl
  refine wp_worker ⟨rfl, rfl, fun d hd => ?_⟩ fun _ _ _ => trivial
  exact (Option.mem_some_iff.1 hd).symm

theorem wp_sendErrorHeaders : Wp (fun _ _ => True) (sendErrorHeaders client)
    (.worker ⟨client, .working, some newServiceClient, False⟩) :=
  wp_read (fun _ _ _ h => h) fun _ => wp_cleanup

theorem wp_ask {Q : Unit → View Client → Prop} {f : Bool → Program Unit} {w : Worker Client}
    (h : ∀ r, Wp Q (f r) (.worker w)) : Wp Q (.act .ask f) (.worker w) := by
  refine wp_worker trivial ?_
  rintro r w' rfl
  exact h r

theorem wp_handle : Wp (fun _ _ => True) (serviceClientHandle client)
    (.worker ⟨client, .idle, none, False⟩) := by
  refine wp_begin ?_
  rintro d rfl
  refine wp_read (fun _ _ _ h => h) fun _ => wp_ask fun failed => ?_
  cases failed with
  | true => exact wp_sendErrorHeaders
  | false =>
    refine wp_ask fun noUri => ?_
    cases noUri with
    | true => exact wp_sendErrorHeaders
    | false =>
      refine wp_read (fun _ _ _ h => h) fun _ => wp_ask fun noExport => ?_
      cases noExport with
      | true => exact wp_sendErrorHeaders
      | false =>
        refine wp_ask fun noResponse => ?_
        cases noResponse with
        | true => exact wp_sendErrorHeaders
        | false => exact wp_read (fun _ _ _ h => h) fun _ => wp_cleanup

end Threads

/-! ## Runs -/

theorem between_new : Between ⟨fun _ => .fresh, fun _ => some newServiceClient, none, none⟩ :=
  ⟨rfl, rfl, fun _ => .inl rfl⟩

/-- As long as `service_delete_clients` comes to a record only when the thread of that record has done
its last statement with it, no thread uses a freed record, no accepted socket is closed twice, and each
is closed once its thread has ended. If each record has got a thread, all of them are closed when
`delete_service` has returned. -/
theorem sockets_closed_once {rounds n : ℕ} {ms : List (Move Process (ℕ × Event _))} {d : Process}
    (hrun : Run (ThreadStep (Does contract)) (newProcess rounds n) ms d)
    (htime : ∀ m ∈ ms, Timely contract m.act.1 m.src.1 m.act.2.1) :
    (∀ k, d.1.ctl k ≠ .fresh → (d.1.data k).closes ≤ 1) ∧
    (∀ k, d.1.wrk k = .released → (d.1.data k).closes = 1) ∧
    ((∀ m ∈ ms, ∀ k, m.act.2 ≠ ⟨.start k, false⟩) → d.2[0]? = some (.ret ()) →
      ∀ k, d.1.ctl k ≠ .fresh → (d.1.data k).closes = 1) ∧
    ∀ m ∈ ms, ∀ k b, m.act.1 = k + 1 → m.act.2.1 = .own k b → m.src.1.ctl k ≠ .freed := by
  have hcomplies : Complies Pool.view (View.Sees contract) (View.Pre contract) _
      (newProcess rounds n) := process_complies (wp_serviceThread between_new) fun _ => wp_handle
  obtain ⟨hinv, hthreads⟩ := pool_run hrun htime (newPool_inv contract newServiceClient) hcomplies
  refine ⟨fun k => (hinv.good k).sound, fun k hk => ?_, fun hstarted hret k hmade => ?_, ?_⟩
  · by_cases hfreed : d.1.ctl k = .freed
    · exact (hinv.good k).disposed hfreed
    · exact contract.disposed_of_returned _ ((hinv.good k).returned hk hfreed)
  · obtain ⟨c, hc, hcleared⟩ := hthreads 0 _ hret rfl
    obtain rfl : d.1.control = c := View.control.inj hc
    rcases hcleared.ctl k with h | h | h | ⟨-, _, -, h⟩
    · exact absurd h hmade
    · have hfailed := (stranded_iff hrun htime (newPool_inv contract newServiceClient) hcomplies k).1 h
      rcases hfailed with hnew | ⟨m, hm, hstart⟩
      · cases hnew
      · exact absurd hstart (hstarted m hm k)
    · exact (hinv.good k).disposed h
    · exact h.elim
  · intro m hm k b hthread huse
    obtain ⟨hsrc, hpre⟩ := pool_moves hrun htime (newPool_inv contract newServiceClient) hcomplies hm
    rw [hthread, huse] at hpre
    exact hsrc.not_freed hpre

def Client.answer (c : Client) : (b : Use) → b.Answer × Client
  | .isValid => (c.valid, c)
  | .close => ((), if c.valid then { c with closes := c.closes + 1 } else c)
  | .invalidate => ((), { c with valid := false })
  | .socket | .service => ((), c)

theorem does_answer (c : Client) (b : Use) : contract.does c b (c.answer b).1 (c.answer b).2 := by
  cases b with
  | isValid => exact ⟨rfl, rfl⟩
  | socket | service | close | invalidate => exact rfl

/-- The service quits when one connection has been accepted, and its request cannot be parsed. -/
def oneClientAnswers :=
  timelyAnswers contract 1 (fun i s => i = 1 ∨ s.ctl 0 = .running) Client.answer true

theorem does_oneClientAnswers {i : ℕ} {s t : Pool Client} {a : Act Use} {r : a.Answer Use.Answer}
    (h : oneClientAnswers i s a = some (r, t)) : Does contract i s a r t ∧
      Timely contract i s a ∧ ∀ k, (⟨a, r⟩ : Event (Act.Answer Use.Answer)) ≠ ⟨.start k, false⟩ := by
  obtain ⟨hdoes, htime⟩ := does_timelyAnswers does_answer h
  exact ⟨hdoes, htime, started_of_timelyAnswers h⟩

theorem one_client_closed_once : ∃ ms d, Run (ThreadStep (Does contract)) (newProcess 2 1) ms d ∧
    d.2[0]? = some (.ret ()) ∧ (d.1.data 0).closes = 1 := by
  obtain ⟨ms, hrun, hms⟩ := run_play_guarded oneClientAnswers (fun _ _ _ _ _ => does_oneClientAnswers)
    (List.replicate 10 0 ++ List.replicate 12 1 ++ List.replicate 8 0) (newProcess 2 1)
  exact ⟨ms, _, hrun, rfl, (sockets_closed_once hrun fun m hm => (hms m hm).1).2.2.1
    (fun m hm => (hms m hm).2) rfl 0 (by decide)⟩

/-- The thread of the first connection has moved its record and closed the socket when the second
connection is accepted. -/
def removedOrder : List ℕ := List.replicate 10 0 ++ List.replicate 10 1 ++ List.replicate 11 0

def sweepTooEarly : Process :=
  play (answers contract 2 (fun i _ => i = 1) Client.answer true) removedOrder (newProcess 2 1)

theorem removed_client_closed_twice : ∃ ms d,
    Run (ThreadStep (Does contract)) (newProcess 2 1) ms d ∧ (d.1.data 0).closes = 2 ∧
      ∃ m ∈ ms, m.act = (1, ⟨.own 0 .invalidate, ()⟩) ∧ m.src.1.ctl 0 = .freed := by
  obtain ⟨ms, hrun⟩ := run_play (answers contract 2 (fun i _ => i = 1) Client.answer true)
    (fun _ _ _ _ _ => Workers.does_answers does_answer) removedOrder (newProcess 2 1)
  have hlast : ThreadStep (Does contract) sweepTooEarly (1, ⟨.own 0 .invalidate, ()⟩)
      (play (answers contract 2 (fun i _ => i = 1) Client.answer true) [1] sweepTooEarly) :=
    ⟨_, rfl, ⟨_, fun _ => does_answer _ _, rfl⟩, rfl⟩
  exact ⟨_, _, hrun.append (.single hlast), rfl, ⟨sweepTooEarly, (1, ⟨.own 0 .invalidate, ()⟩), _⟩,
    List.mem_append_right _ (List.mem_singleton_self _), rfl, rfl⟩

end Rcom.Service
