import Rcom.Lib.Bytes
import Rcom.Lib.WorkerRules
import Mathlib.Data.Int.Notation

/-!
# The sockets of a streamer's clients (streamer.c)

`streamer_run_server` accepts connections and closes most of them itself. The connections for
`/stream.html` that the callback `onclient` agrees to get a thread of their own, which closes the
socket and then moves the record to `finished_clients`.
-/

namespace Rcom.StreamerSockets
open Lib Lib.Program Lib.Trace Lib.Workers

/-- The accesses to a `streamer_client_t`: `parse` reads a request, `send` is any data sent to the
client, `field` a use of another field. -/
inductive Use where
  | parse
  | send
  | onclient
  | field
  | isValid
  | close
  | invalidate

/-- `parse` answers with the URI, or with nothing when there is no valid request; `send` and `onclient`
with what was returned. -/
abbrev Use.Answer : Use → Type
  | .parse => Option Bytes
  | .send | .onclient => ℤ
  | .isValid => Bool
  | _ => Unit

/-- `valid` says whether the record still holds the accepted descriptor, `closes` counts how often that
descriptor was closed, and `onclient` is what the callback returned, 0 if it was not called. -/
structure Client where
  valid : Bool
  closes : ℕ
  onclient : ℤ

def newStreamerClient : Client where
  valid := true
  closes := 0
  onclient := 0

def Client.Settled (c : Client) : Prop := c.closes = 1 ∧ c.onclient = 0 ∨ c.closes = 0 ∧ c.onclient ≠ 0

def Client.Does (c : Client) : (b : Use) → b.Answer → Client → Prop
  | .onclient, (r : ℤ), c' => c' = { c with onclient := r }
  | .isValid, (r : Bool), c' => r = c.valid ∧ c' = c
  | .close, _, c' => c' = if c.valid then { c with closes := c.closes + 1 } else c
  | .invalidate, _, c' => c' = { c with valid := false }
  | _, _, c' => c' = c

theorem newStreamerClient_closes_le : newStreamerClient.closes ≤ 1 := Nat.zero_le 1

/-- The thread of a client does not use its record once it has moved it. -/
def contract : Contract Client Use Use.Answer where
  new := newStreamerClient
  does := Client.Does
  sound := fun c => c.closes ≤ 1
  sound_new := newStreamerClient_closes_le
  discipline := .prompt
  handed := fun c => c = newStreamerClient
  returned := fun c => c = ⟨false, 1, 0⟩
  disposed := fun c => c.closes = 1 ∧ c.onclient = 0
  disposed_of_returned := by
    rintro _ rfl
    exact ⟨rfl, rfl⟩
  sound_of_returned := by
    rintro _ rfl
    exact Nat.le_refl 1

abbrev Program (α : Type) := Workers.Program Use.Answer α

def access (client : ℕ) (b : Use) : Program b.Answer := doing (.own client b)

/-! ## The code of the threads -/

def deleteStreamerClient (client : ℕ) : Program Unit := do
  let valid : Bool ← access client .isValid
  if valid then do
    let _ ← access client .close
    doing (.free client)
  else doing (.free client)

/-- The loop over the chunks is cut after a number of rounds. -/
def chunks (client : ℕ) : ℕ → Program Unit
  | 0 => .stop
  | rounds + 1 => do
    let _ ← access client .field
    let quit : Bool ← doing .ask
    if quit then pure ()
    else do
      let _ ← access client .field
      let err : ℤ ← access client .send
      if err = -1 then pure ()
      else chunks client rounds

def closeAndRemove (client : ℕ) : Program Unit := do
  let _ ← access client .close
  let _ ← access client .invalidate
  let _ ← access client .field
  retireRecord client

def streamerClientRun (rounds client : ℕ) : Program Unit := do
  let _ ← doing (.begin client)
  let _ ← access client .field
  let err : ℤ ← access client .send
  if err ≠ 0 then closeAndRemove client
  else do
    chunks client rounds
    closeAndRemove client

def streamerStartStream (client : ℕ) : Program Unit := do
  let ret : ℤ ← access client .onclient
  if ret ≠ 0 then do
    let _ ← access client .send
    pure ()
  else do
    addRecord client
    let _ ← doing (.start client)
    pure ()

def handle (client : ℕ) (uri : Bytes) : Program Unit :=
  if uri = ascii "/" ∨ uri = ascii "/index.html" then do
    let _ ← access client .send
    deleteStreamerClient client
  else if uri = ascii "/index.json" then do
    let _ ← access client .send
    deleteStreamerClient client
  else if uri = ascii "/stream.html" then streamerStartStream client
  else do
    let _ ← access client .send
    deleteStreamerClient client

/-- A request that cannot be read is answered with an error. -/
def handleConnection (client : ℕ) : Program Unit := do
  let uri : Option Bytes ← access client .parse
  match uri with
  | none => do
    let _ ← access client .send
    let _ ← access client .close
    let _ ← access client .invalidate
    pure ()
  | some uri => handle client uri

def streamerRunServer : ℕ → Program Unit
  | 0 => .stop
  | rounds + 1 => do
    let quit : Bool ← doing .ask
    if quit then pure ()
    else do
      let accepted : Option ℕ ← doing .accept
      match accepted with
      | none => streamerRunServer rounds
      | some client => do
        deleteFinished deleteStreamerClient
        handleConnection client
        streamerRunServer rounds

def deleteStreamer : Program Unit := do
  let any : Bool ← doing .anyActive
  if any then do
    takeAll fun client => doing (.join client)
    deleteFinished deleteStreamerClient
  else deleteFinished deleteStreamerClient

/-- The streamer's thread, and then `delete_streamer`, which has joined it. -/
def streamerThread (rounds : ℕ) : Program Unit := do
  streamerRunServer rounds
  deleteStreamer

abbrev Process := Threads (Pool Client) (Act.Answer Use.Answer) Unit

def newProcess (rounds chunks n : ℕ) : Process :=
  process newStreamerClient (streamerThread rounds) (streamerClientRun chunks) n

/-! ## What the threads keep to -/

abbrev Wp (Q : Unit → View Client → Prop) (p : Program Unit) (v : View Client) : Prop :=
  wp (View.Sees contract) (View.Pre contract) True Q p v

abbrev Between (c : Control Client) : Prop := c.Between Client.Settled

section Threads
variable {Q : Unit → View Client → Prop} {c : Control Client} {client : ℕ}

abbrev Holding (c : Control Client) (client : ℕ) (d : Client) : View Client :=
  .control (c.setCtl client .made (some d))

theorem wp_access {b : Use} {d : Client} {f : b.Answer → Program Unit}
    (hsound : ∀ r d', Client.Does d b r d' → d'.closes ≤ 1)
    (h : ∀ r d', Client.Does d b r d' → Wp Q (f r) (Holding c client d')) :
    Wp Q (.act (.own client b) f) (Holding c client d) := by
  have hctl : (c.setCtl client .made (some d)).ctl client = .made := by simp [Control.setCtl]
  refine wp_own (by simp [Control.setCtl]) hsound fun r d' hdoes => ?_
  rw [hctl, setCtl_setCtl]
  exact h r d' hdoes

theorem wp_send {d : Client} (hd : d.closes ≤ 1) {f : ℤ → Program Unit}
    (h : ∀ r, Wp Q (f r) (Holding c client d)) :
    Wp Q (.act (.own client .send) f) (Holding c client d) :=
  wp_access (fun _ _ hdoes => hdoes ▸ hd) fun r _ hdoes => hdoes ▸ h r

theorem wp_delete_left (hleft : c.Left client)
    (hQ : Q () (.control (c.setCtl client .freed none))) :
    Wp Q (deleteStreamerClient client) (.control c) := by
  obtain ⟨hlisted, hctl, hd⟩ := hleft
  have hk : c.Sweeps contract client := ⟨hlisted, hctl.symm.imp_right fun h => ⟨h, by decide⟩⟩
  refine wp_own_swept hk hd (fun d r d' hret hdoes => hdoes.2 ▸ hret) ?_
  intro valid d d' hret hdoes
  obtain rfl : d = ⟨false, 1, 0⟩ := hret
  obtain rfl : valid = false := hdoes.1
  refine wp_control (.inr hk) ?_
  rintro _ c' rfl
  exact hQ

theorem wp_delete_new (hQ : Q () (.control (c.setCtl client .freed none))) :
    Wp Q (deleteStreamerClient client) (Holding c client newStreamerClient) := by
  refine wp_access (fun _ _ hdoes => hdoes.2 ▸ Nat.zero_le 1) ?_
  rintro valid d ⟨hvalid, rfl⟩
  obtain rfl : valid = true := hvalid
  refine wp_access (fun _ _ hdoes => hdoes ▸ Nat.le_refl 1) ?_
  rintro _ d rfl
  refine wp_control (.inl ⟨by simp [Control.setCtl], ?_⟩) ?_
  · intro d hd
    obtain rfl : _ = d := by simpa [Control.setCtl] using hd
    exact ⟨rfl, rfl⟩
  · rintro _ c' rfl
    rwa [setCtl_setCtl]

theorem wp_startStream (hc : Between c) (hQ : ∀ c', Between c' → Q () (.control c')) :
    Wp Q (streamerStartStream client) (Holding c client newStreamerClient) := by
  refine wp_access (fun _ _ hdoes => hdoes ▸ Nat.zero_le 1) ?_
  rintro (ret : ℤ) d rfl
  by_cases hret : ret = 0
  · subst hret
    refine (wp_bind (p := addRecord client)).2 (wp_addRecord hc.fin ?_ hc.taken ?_)
    · simp [Control.setCtl]
    refine wp_control ⟨by simp [Control.setCtl], hc.taken, ?_⟩ ?_
    · intro d hd
      obtain rfl : newStreamerClient = d := by simpa [Control.setCtl, newStreamerClient] using hd
      rfl
    rintro started c' rfl
    rw [setCtl_setCtl, setCtl_setCtl]
    refine hQ _ (hc.setCtl (.inl ?_))
    cases started with
    | true => exact .inl rfl
    | false => exact .inr rfl
  · change Wp Q (if ret ≠ 0 then _ else _) _
    rw [if_pos hret]
    exact wp_send (Nat.zero_le 1) fun _ =>
      hQ _ (hc.setCtl (.inr (.inr ⟨rfl, _, rfl, .inr ⟨rfl, hret⟩⟩)))

theorem wp_handle {uri : Bytes} (hc : Between c) (hQ : ∀ c', Between c' → Q () (.control c')) :
    Wp Q (handle client uri) (Holding c client newStreamerClient) := by
  have hdelete : Wp Q (do let _ ← access client .send; deleteStreamerClient client)
      (Holding c client newStreamerClient) :=
    wp_send (Nat.zero_le 1) fun _ => wp_delete_new (hQ _ (hc.setCtl (.inr (.inl rfl))))
  rw [handle]
  split_ifs
  · exact hdelete
  · exact hdelete
  · exact wp_startStream hc hQ
  · exact hdelete

theorem wp_handleConnection (hc : Between c) (hQ : ∀ c', Between c' → Q () (.control c')) :
    Wp Q (handleConnection client) (Holding c client newStreamerClient) := by
  refine wp_access (fun _ _ hdoes => hdoes ▸ Nat.zero_le 1) ?_
  rintro uri d rfl
  cases uri with
  | some uri => exact wp_handle hc hQ
  | none =>
    refine wp_send (Nat.zero_le 1) fun _ => ?_
    refine wp_access (fun _ _ hdoes => hdoes ▸ Nat.le_refl 1) ?_
    rintro _ d rfl
    refine wp_access (fun _ _ hdoes => hdoes ▸ Nat.le_refl 1) ?_
    rintro _ d rfl
    exact hQ _ (hc.setCtl (.inr (.inr ⟨rfl, _, rfl, .inl ⟨rfl, rfl⟩⟩)))

theorem wp_runServer {rounds : ℕ} (hc : Between c) (hQ : ∀ c', Between c' → Q () (.control c')) :
    Wp Q (streamerRunServer rounds) (.control c) := by
  induction rounds generalizing c with
  | zero => trivial
  | succ rounds ih =>
    refine wp_control trivial ?_
    rintro quit c₁ rfl
    cases quit with
    | true => exact hQ c₁ hc
    | false =>
      refine wp_control trivial ?_
      intro accepted c₂ haccepted
      cases accepted with
      | none =>
        obtain rfl := haccepted
        exact ih hc
      | some client =>
        obtain ⟨-, rfl⟩ := haccepted
        refine (wp_bind (p := deleteFinished deleteStreamerClient)).2 ?_
        refine wp_deleteFinished (fun _ _ hleft _ => wp_delete_left hleft) hc.fin ?_
        intro l hfound
        have hclient : client ∉ l := fun hl => by
          rcases hfound.out client hl with h | h <;> simp [Control.setCtl] at h
        rw [setAll_setCtl hclient]
        refine (wp_bind (p := handleConnection client)).2 ?_
        exact wp_handleConnection (hc.setAll l) fun c' hc' => ih hc'

theorem wp_streamerThread {rounds : ℕ} (hc : Between c) :
    Wp (fun _ v => ∃ c', v = .control c' ∧ c'.Cleared Client.Settled) (streamerThread rounds)
      (.control c) := by
  rw [Wp, streamerThread, wp_bind]
  refine wp_runServer hc fun c₁ hc₁ => ?_
  refine wp_control ⟨hc₁.taken, hc₁.not_listed⟩ ?_
  rintro any c₂ rfl
  have hlast (l : List ℕ) : Wp (fun _ v => ∃ c', v = .control c' ∧ c'.Cleared Client.Settled)
      (deleteFinished deleteStreamerClient)
      (.control (({ c₁ with taken := some l } : Control Client).joinAll l)) :=
    wp_deleteFinished_last (fun _ _ hleft _ => wp_delete_left hleft) hc₁ fun c' hc' => ⟨c', rfl, hc'⟩
  cases any with
  | true =>
    exact (wp_bind (p := takeAll _)).2 (wp_takeAll (fun _ _ hk _ hQ => wp_join hk hQ)
      (fun _ _ hk _ hQ => wp_join_stranded hk hQ) hc₁ hlast)
  | false =>
    have hnone := hlast []
    rw [Control.joinAll, List.filter_nil, setAll_nil] at hnone
    exact hnone

abbrev Serving (client : ℕ) : View Client :=
  .worker ⟨client, .working, some newStreamerClient, False⟩

theorem wp_serve {b : Use} {f : b.Answer → Program Unit}
    (hkeep : ∀ d r d', Client.Does d b r d' → d' = d) (h : ∀ r, Wp Q (f r) (Serving client)) :
    Wp Q (.act (.own client b) f) (Serving client) := by
  refine wp_own_worker (fun r d' hdoes => ?_) fun r d' hdoes => ?_
  · rw [hkeep _ _ _ hdoes]
    exact contract.sound_new
  · rw [hkeep _ _ _ hdoes]
    exact h r

theorem wp_closeAndRemove : Wp (fun _ _ => True) (closeAndRemove client) (Serving client) := by
  refine wp_own_worker (fun _ _ hdoes => hdoes ▸ Nat.le_refl 1) ?_
  rintro _ d rfl
  refine wp_own_worker (fun _ _ hdoes => hdoes ▸ Nat.le_refl 1) ?_
  rintro _ d rfl
  refine wp_own_worker (fun _ _ hdoes => hdoes ▸ Nat.le_refl 1) ?_
  rintro _ d rfl
  exact wp_retireRecord rfl trivial

theorem wp_chunks {Q : Unit → View Client → Prop} {rounds : ℕ} (hQ : Q () (Serving client)) :
    Wp Q (chunks client rounds) (Serving client) := by
  induction rounds with
  | zero => trivial
  | succ rounds ih =>
    refine wp_serve (fun _ _ _ h => h) fun _ => ?_
    refine wp_worker trivial ?_
    rintro quit w rfl
    cases quit with
    | true => exact hQ
    | false =>
      refine wp_serve (fun _ _ _ h => h) fun _ => wp_serve (fun _ _ _ h => h) fun (err : ℤ) => ?_
      change Wp Q (if err = -1 then pure () else chunks client rounds) _
      split_ifs
      · exact hQ
      · exact ih

theorem wp_clientRun {rounds : ℕ} : Wp (fun _ _ => True) (streamerClientRun rounds client)
    (.worker ⟨client, .idle, none, False⟩) := by
  refine wp_begin ?_
  rintro d rfl
  refine wp_serve (fun _ _ _ h => h) fun _ => wp_serve (fun _ _ _ h => h) fun (err : ℤ) => ?_
  change Wp _ (if err ≠ 0 then _ else _) _
  split_ifs
  · exact wp_closeAndRemove
  · exact (wp_bind (p := chunks client rounds)).2 (wp_chunks wp_closeAndRemove)

end Threads

/-! ## Runs -/

theorem between_new : Between ⟨fun _ => .fresh, fun _ => some newStreamerClient, none, none⟩ :=
  ⟨rfl, rfl, fun _ => .inl rfl⟩

/-- No accepted socket is closed twice. When `delete_streamer` has returned, and for a record that is
freed before that, the socket has been closed exactly once unless the callback `onclient` refused the
client or no thread could be started for it. -/
theorem socket_closed_once_iff {rounds chunks n : ℕ} {ms : List (Move Process (ℕ × Event _))}
    {d : Process} (hrun : Run (ThreadStep (Does contract)) (newProcess rounds chunks n) ms d) :
    (∀ k, d.1.ctl k ≠ .fresh → (d.1.data k).closes ≤ 1) ∧
    ∀ k, d.1.ctl k ≠ .fresh → (d.1.ctl k = .freed ∨ d.2[0]? = some (.ret ())) →
      ((d.1.data k).closes = 1 ↔
        (d.1.data k).onclient = 0 ∧ ∀ m ∈ ms, m.act.2 ≠ ⟨.start k, false⟩) := by
  have hcomplies : Complies Pool.view (View.Sees contract) (View.Pre contract) _
      (newProcess rounds chunks n) :=
    process_complies (wp_streamerThread between_new) fun _ => wp_clientRun
  have htime : ∀ m ∈ ms, Timely contract m.act.1 m.src.1 m.act.2.1 :=
    fun _ _ => timely_of_ne (by decide)
  obtain ⟨hinv, hthreads⟩ := pool_run hrun htime (newPool_inv contract newStreamerClient) hcomplies
  have hstranded (k : ℕ) : (∀ m ∈ ms, m.act.2 ≠ ⟨.start k, false⟩) ↔ d.1.ctl k ≠ .stranded := by
    rw [Ne, stranded_iff hrun htime (newPool_inv contract newStreamerClient) hcomplies k]
    simp [newProcess, process, newPool]
  have hsettled {k : ℕ} {data : Client} (hk : d.1.ctl k ≠ .stranded) (hdata : d.1.data k = data)
      (h : data.Settled) : (d.1.data k).closes = 1 ↔
        (d.1.data k).onclient = 0 ∧ ∀ m ∈ ms, m.act.2 ≠ ⟨.start k, false⟩ := by
    rw [hdata, and_iff_left ((hstranded k).2 hk)]
    rcases h with ⟨hcloses, honclient⟩ | ⟨hcloses, honclient⟩
    · exact ⟨fun _ => honclient, fun _ => hcloses⟩
    · exact ⟨fun h => absurd (hcloses.symm.trans h) (by decide), fun h => absurd h honclient⟩
  have hfreed (k : ℕ) (h : d.1.ctl k = .freed) : (d.1.data k).closes = 1 ↔
      (d.1.data k).onclient = 0 ∧ ∀ m ∈ ms, m.act.2 ≠ ⟨.start k, false⟩ :=
    hsettled (by simp [h]) rfl (.inl ((hinv.good k).disposed h))
  refine ⟨fun k => (hinv.good k).sound, ?_⟩
  rintro k hmade (h | hret)
  · exact hfreed k h
  · obtain ⟨c, hc, hcleared⟩ := hthreads 0 _ hret rfl
    obtain rfl : d.1.control = c := View.control.inj hc
    rcases hcleared.ctl k with h | h | h | ⟨hctl, data, hdata, hkept⟩
    · exact absurd h hmade
    · have hnew : d.1.data k = newStreamerClient := ((hinv.good k).stranded h).2
      rw [hnew, hstranded]
      exact ⟨fun h => absurd h (by decide), fun h' => absurd h h'.2⟩
    · exact hfreed k h
    · exact hsettled (by rw [show d.1.ctl k = .made from hctl]; simp) (control_data hdata).2 hkept

/-- Every client asks for the stream and nothing fails; the callback returns `ret`. -/
def Client.answer (ret : ℤ) (c : Client) : (b : Use) → b.Answer × Client
  | .parse => (some (ascii "/stream.html"), c)
  | .onclient => (ret, { c with onclient := ret })
  | .isValid => (c.valid, c)
  | .close => ((), if c.valid then { c with closes := c.closes + 1 } else c)
  | .invalidate => ((), { c with valid := false })
  | .send => ((0 : ℤ), c)
  | .field => ((), c)

theorem does_answer (ret : ℤ) (c : Client) (b : Use) :
    contract.does c b (c.answer ret b).1 (c.answer ret b).2 := by
  cases b with
  | isValid => exact ⟨rfl, rfl⟩
  | parse | send | onclient | field | close | invalidate => exact rfl

def oneClientOrder : List ℕ := List.replicate 20 0 ++ List.replicate 20 1 ++ List.replicate 20 0

def oneClientAnswers (ret : ℤ) :=
  answers contract 1 (fun i s => i = 1 ∨ s.ctl 0 ≠ .fresh) (Client.answer ret) true

theorem accepted_client_closed : ∃ ms d,
    Run (ThreadStep (Does contract)) (newProcess 2 2 1) ms d ∧ d.2[0]? = some (.ret ()) ∧
      (d.1.data 0).closes = 1 := by
  obtain ⟨ms, hrun, hstarted⟩ := run_play_guarded (oneClientAnswers 0)
    (fun _ _ _ _ _ h => ⟨Workers.does_answers (does_answer 0) h, started_of_answers h⟩)
    oneClientOrder (newProcess 2 2 1)
  exact ⟨ms, _, hrun, rfl,
    ((socket_closed_once_iff hrun).2 0 (by decide) (.inr rfl)).2 ⟨rfl, fun m hm => hstarted m hm 0⟩⟩

theorem refused_client_never_closed : ∃ ms d,
    Run (ThreadStep (Does contract)) (newProcess 2 2 1) ms d ∧ d.2[0]? = some (.ret ()) ∧
      d.1.ctl 0 ≠ .fresh ∧ (d.1.data 0).closes = 0 := by
  obtain ⟨ms, hrun⟩ := run_play (oneClientAnswers (-1))
    (fun _ _ _ _ _ => Workers.does_answers (does_answer (-1))) oneClientOrder (newProcess 2 2 1)
  exact ⟨ms, _, hrun, rfl, by decide, rfl⟩

end Rcom.StreamerSockets
