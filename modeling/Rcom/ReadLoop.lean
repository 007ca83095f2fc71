import Rcom.Reading

/-!
# The read loop (messagelink.c)

`_messagelink_loop` hands the values of the text messages to `onmessage` until a frame for
which the link is closed.
-/

namespace Rcom.Messagelink
open Rcom.Lib Rcom.Lib.Program Rcom.Lib.Trace Rcom.Lib.Rfc6455
open Rcom.ClientLink (LinkState)

variable {J : Type} {L : JsonLib J} {isClient : Bool}

def Session.deliver (r : Option J) (s : Session J) : Session J :=
  { s with delivered := s.delivered ++ r.toList }

inductive Loops (L : JsonLib J) (isClient : Bool) :
    Option (List Frame) → Session J → Session J → Prop
  | closed (s : Session J) : Loops L isClient none s s
  | round {fs : List Frame} {s t u : Session J} {r : Option J} {next : Option (List Frame)}
      (h : Handles L isClient fs s r next u) (hrest : Loops L isClient next (u.deliver r) t) :
      Loops L isClient (some fs) s t

section Loop
variable {fs : List Frame} {next : Option (List Frame)} {s t u : Session J} {r : Option J}

theorem Stands.deliver (h : Stands isClient next s) (r : Option J) :
    Stands isClient next (s.deliver r) := by
  cases next with
  | none => exact h
  | some fs => exact ⟨h.1, h.2.1, h.2.2.of_reader rfl⟩

theorem returns_deliver {Q : Unit → Session J → Prop} (h : Q () (s.deliver r)) :
    Returns Q (messagelinkLoop.deliver r) s := by
  cases r with
  | none =>
    have hsame : s.deliver none = s := by simp [Session.deliver]
    rwa [hsame] at h
  | some v =>
    simp only [messagelinkLoop.deliver, doing, perform]
    exact returns_onmessage.2 h

theorem returns_loop {Q : Unit → Session J → Prop} {n : ℕ} (hs : Stands isClient next s)
    (hquit : s.mayQuit = false) (hpos : 0 < n)
    (hn : ∀ fs, next = some fs → fs.length + s.patience + 2 < n)
    (h : ∀ t, Loops L isClient next s t → Q () t) : Returns Q (messagelinkLoop L isClient n) s := by
  induction n generalizing next s with
  | zero => omega
  | succ n ih =>
    have hnever : ∀ quit : Bool, (quit = true → s.mayQuit = true) → quit = false := by
      intro quit hmay
      cases quit with
      | false => rfl
      | true => simp [hquit] at hmay
    simp only [messagelinkLoop, doing, perform_bind]
    apply returns_threadQuit
    intro quit hmay
    obtain rfl := hnever quit hmay
    rw [if_neg Bool.false_ne_true]
    simp only [returns_state]
    cases next with
    | none =>
      rw [if_pos (by rw [hs.1]; decide)]
      exact h s (.closed s)
    | some fs =>
      have hfew := hn fs rfl
      rw [if_neg (not_not.2 hs.1)]
      apply returns_appQuit
      intro quit hmay
      obtain rfl := hnever quit hmay
      rw [if_neg Bool.false_ne_true]
      apply wp_bind.2
      apply returns_readOpen hs (by omega)
      intro r next u hu
      apply wp_bind.2
      apply returns_deliver
      apply ih ((hu.stands hs).deliver r) (hu.mayQuit.trans hquit) (by omega)
      · rintro rest rfl
        have hless := hu.fewer.2 hquit
        change rest.length + u.patience + 2 < n
        omega
      · intro t ht
        exact h t (.round hu ht)

end Loop

/-! ## What the loop does -/

/-- Part of a pong with this payload, and all of it if no pong failed. -/
def PongFor (isClient : Bool) (failed : List ℕ) (payload bytes : Bytes) : Prop :=
  ∃ pong, IsFrame 10 isClient payload pong ∧ bytes <+: pong ∧ (10 ∉ failed → bytes = pong)

def Answered (isClient : Bool) (pings : List Bytes) (s t : Session J) : Prop :=
  ∃ pongs, List.Forall₂ (PongFor isClient t.failed) pings pongs ∧
    wireOf 10 t.wire = wireOf 10 s.wire ++ pongs.flatten

section Pongs
variable {fs pre rest : List Frame} {s t u : Session J} {pings pings' : List Bytes}

theorem PongFor.mono {failed failed' : List ℕ} {payload bytes : Bytes}
    (h : PongFor isClient failed payload bytes) (hmono : 10 ∈ failed → 10 ∈ failed') :
    PongFor isClient failed' payload bytes := by
  obtain ⟨pong, hpong, hpart, hall⟩ := h
  exact ⟨pong, hpong, hpart, fun hok => hall (mt hmono hok)⟩

theorem Answered.nil (hwire : wireOf 10 t.wire = wireOf 10 s.wire) :
    Answered isClient [] s t := ⟨[], .nil, by simp [hwire]⟩

theorem Answered.append (h : Answered isClient pings s u) (h' : Answered isClient pings' u t)
    (hmono : 10 ∈ u.failed → 10 ∈ t.failed) : Answered isClient (pings ++ pings') s t := by
  obtain ⟨pongs, hpongs, hwire⟩ := h
  obtain ⟨pongs', hpongs', hwire'⟩ := h'
  refine ⟨pongs ++ pongs', ?_, ?_⟩
  · exact List.rel_append (hpongs.imp fun _ _ hp => hp.mono hmono) hpongs'
  · rw [hwire', hwire, List.flatten_append, List.append_assoc]

theorem Sends.answered {payload : Bytes} {err : ℤ} (hlen : payload.length ≤ 125)
    (h : Sends isClient 10 payload s err t) : Answered isClient [payload] s t := by
  have hframe : ∀ mask, IsFrame 10 isClient payload (frameMake 10 isClient mask payload) :=
    fun mask => (isFrame_iff (by omega) (by omega)).2 ⟨mask, rfl⟩
  cases h with
  | sent mask out w hw =>
    refine ⟨[frameMake 10 isClient mask payload], ?_, ?_⟩
    · exact .cons ⟨_, hframe mask, List.prefix_rfl, fun _ => rfl⟩ .nil
    · rw [wireOf_append, hw.wireOf_self]
      simp
  | failed mask out w bytes hw hpart hless =>
    refine ⟨[bytes], ?_, ?_⟩
    · exact .cons ⟨_, hframe mask, hpart, fun hok => absurd (by simp) hok⟩ .nil
    · rw [wireOf_append, hw.wireOf_self]
      simp

theorem Sends.failed_mono {opcode other : ℕ} {payload : Bytes} {err : ℤ}
    (h : Sends isClient opcode payload s err t) (hfailed : other ∈ s.failed) : other ∈ t.failed := by
  cases h with
  | sent => exact hfailed
  | failed => exact List.mem_append_left _ hfailed

theorem Passes.failed_mono (h : Passes isClient pre s t) {op : ℕ} (hfailed : op ∈ s.failed) :
    op ∈ t.failed := by
  induction h with
  | nil s => exact hfailed
  | ping p hp hf hop h hrest ih => exact ih (h.failed_mono hfailed)
  | other p hp hf hop hrest ih => exact ih hfailed

theorem Passes.answered (h : Passes isClient pre s t)
    (hcontrol : ∀ f ∈ pre, f.Control → f.payload.length ≤ 125) :
    Answered isClient (payloadsOf 9 pre) s t := by
  induction h with
  | nil s => exact .nil rfl
  | @ping f fs s t u err p hp hf hop h hrest ih =>
    simp only [List.mem_cons, forall_eq_or_imp] at hcontrol
    have hlen : f.payload.length ≤ 125 := hcontrol.1 (by rw [Frame.Control, hop]; decide)
    have hpings : payloadsOf 9 (f :: fs) = [f.payload] ++ payloadsOf 9 fs := by
      simp [payloadsOf, hop]
    rw [hpings]
    have hsent := h.answered hlen
    have hfirst : Answered isClient [f.payload] s u := hsent
    exact hfirst.append (ih hcontrol.2) hrest.failed_mono
  | @other f fs s t p hp hf hop hrest ih =>
    simp only [List.mem_cons, forall_eq_or_imp] at hcontrol
    have hpings : payloadsOf 9 (f :: fs) = payloadsOf 9 fs := by simp [payloadsOf, hop.2]
    rw [hpings]
    exact ih hcontrol.2

theorem Passes.reader_eq (h : Passes isClient pre s t) : t.reader = readOn^[pre.length] s.reader := by
  induction h with
  | nil s => rfl
  | ping p hp hf hop h hrest ih =>
    rw [ih, h.same]
    rfl
  | other p hp hf hop hrest ih =>
    rw [ih]
    rfl

end Pongs

/-- The owner closes the link for this frame, and waits for a close message. -/
def ClosedByOwner (isClient : Bool) (f : Frame) : Prop :=
  f.payload.length ≤ 16777216 ∧ (Bare isClient f ∨ f.opcode ∈ [2, 0])

/-- What the loop has done with the frames when it ends. -/
structure LoopEnds (L : JsonLib J) (isClient : Bool) (fs : List Frame) (s t : Session J) : Prop where
  state : t.state = .closed
  socket : t.socket = none
  delivered : t.delivered =
    s.delivered ++ (payloadsOf 1 (handled isClient fs)).filterMap (parseText L)
  answered : Answered isClient (payloadsOf 9 (handled isClient fs)) s t
  waited : ∃ patience,
    Waited patience (readOn^[(handled isClient fs).length + 1] s.reader) t.reader
  nothing : (∀ f ∈ (fs.drop (handled isClient fs).length).head?, ¬ ClosedByOwner isClient f) →
    t.reader = readOn^[(handled isClient fs).length + 1] s.reader

section Ends
variable {fs pre rest : List Frame} {next : Option (List Frame)} {s t u : Session J} {r : Option J}

theorem Sends.reader_eq {opcode : ℕ} {payload : Bytes} {err : ℤ}
    (h : Sends isClient opcode payload s err t) : t.reader = s.reader := by
  rw [h.same]

theorem ClosesOneway.reader_eq {code : ℤ} (h : ClosesOneway isClient code s t) :
    t.reader = s.reader := by
  obtain ⟨h⟩ := h
  exact h.reader_eq

theorem RemoteCloses.reader_eq {input : Bytes} (h : RemoteCloses isClient input s t) :
    t.reader = s.reader := by
  obtain ⟨h⟩ := h
  exact h.reader_eq

theorem OwnerCloses.reads {code : ℤ} (h : OwnerCloses isClient code s t) :
    ∃ patience, Waited patience s.reader t.reader := by
  cases h with
  | unsent h =>
    refine ⟨1, ?_⟩
    rw [← show _ = s.reader from h.reader_eq]
    exact .stop _ one_pos
  | waited reader patience h hwaited =>
    rw [h.reader_eq] at hwaited
    exact ⟨_, hwaited⟩

theorem Stops.loopEnds (h : Stops L isClient rest s r none t) : LoopEnds L isClient rest s t := by
  have hshuts := h.shuts
  have hnil := h.handled_eq_nil
  have hstop : t.reader = readOn s.reader → ∃ patience, Waited patience (readOn s.reader) t.reader := by
    intro hreader
    rw [hreader]
    exact ⟨1, .stop _ one_pos⟩
  refine ⟨hshuts.state, hshuts.socket, ?_, ?_, ?_, ?_⟩
  · simp [hnil, payloadsOf, hshuts.delivered]
  · rw [hnil]
    exact .nil (hshuts.wire 10 (by decide))
  · rw [hnil]
    cases h with
    | ended p hp h | oversized p hp hsize h => exact hstop h.reader_eq
    | close p hp hsize hbare hop h => exact hstop h.reader_eq
    | bare p hp hsize hbare h | refused p hp hsize hbare hop h => exact h.reads
  · rw [hnil]
    intro hnever
    cases h with
    | ended p hp h | oversized p hp hsize h => exact h.reader_eq
    | close p hp hsize hbare hop h => exact h.reader_eq
    | bare p hp hsize hbare h => exact absurd ⟨hsize, .inl hbare⟩ (hnever _ rfl)
    | refused p hp hsize hbare hop h => exact absurd ⟨hsize, .inr (by simpa using hop)⟩ (hnever _ rfl)

theorem LoopEnds.pass (h : LoopEnds L isClient rest u t) (hpass : Passes isClient pre s u)
    (hcontrol : ∀ f ∈ pre, f.Control → f.payload.length ≤ 125)
    (hmono : 10 ∈ u.failed → 10 ∈ t.failed) : LoopEnds L isClient (pre ++ rest) s t := by
  have hhandled : handled isClient (pre ++ rest) = pre ++ handled isClient rest := hpass.handled
  have htexts : payloadsOf 1 pre = [] := by
    rw [payloadsOf, List.filter_eq_nil_iff.2, List.map_nil]
    intro f hf
    simpa using (hpass.mem f hf).2
  have hpayloads : ∀ op, payloadsOf op (pre ++ handled isClient rest) =
      payloadsOf op pre ++ payloadsOf op (handled isClient rest) := by
    intro op
    rw [payloadsOf, List.filter_append, List.map_append]
    rfl
  have hreader : readOn^[(handled isClient (pre ++ rest)).length + 1] s.reader =
      readOn^[(handled isClient rest).length + 1] u.reader := by
    rw [hhandled, hpass.reader_eq, List.length_append, ← Function.iterate_add_apply]
    congr 1
    omega
  refine ⟨h.state, h.socket, ?_, ?_, ?_, ?_⟩
  · rw [h.delivered, hhandled, hpayloads, htexts, hpass.keeps.delivered, List.nil_append]
  · rw [hhandled, hpayloads]
    exact (hpass.answered hcontrol).append h.answered hmono
  · rw [hreader]
    exact h.waited
  · rw [hreader, hhandled, List.length_append, List.drop_append]
    intro hnever
    apply h.nothing
    rwa [List.drop_of_length_le (by omega), List.nil_append, Nat.add_sub_cancel_left] at hnever

theorem LoopEnds.text {f : Frame} {p : ℕ} (hf : ¬ Ends isClient f) (hop : f.opcode = 1)
    (h : LoopEnds L isClient rest ((s.took p).deliver (parseText L f.payload)) t) :
    LoopEnds L isClient (f :: rest) s t := by
  have hhandled : handled isClient (f :: rest) = f :: handled isClient rest := handled_cons hf
  refine ⟨h.state, h.socket, ?_, ?_, ?_, ?_⟩
  · rw [h.delivered, hhandled]
    change (s.delivered ++ _) ++ _ = _
    cases hvalue : parseText L f.payload <;> simp [payloadsOf, hop, hvalue]
  · have hpings : payloadsOf 9 (handled isClient (f :: rest)) =
        payloadsOf 9 (handled isClient rest) := by
      simp [hhandled, payloadsOf, hop]
    rw [hpings]
    exact h.answered
  · rw [hhandled]
    exact h.waited
  · rw [hhandled]
    exact h.nothing

theorem Loops.failed_mono (h : Loops L isClient next s t) (hfailed : 10 ∈ s.failed) :
    10 ∈ t.failed := by
  induction h with
  | closed s => exact hfailed
  | @round fs s t u r next h hrest ih =>
    apply ih
    obtain ⟨pre, rest, w, rfl, hpass, hstop⟩ := h
    have hw := hpass.failed_mono hfailed
    change 10 ∈ u.failed
    cases next with
    | none => exact (hstop.shuts.failed 10 (by decide)).2 hw
    | some rest' => cases hstop <;> exact hw

theorem Loops.eq_of_closed (h : Loops L isClient none s t) : t = s := by
  generalize hnext : (none : Option (List Frame)) = next at h
  cases h with
  | closed s => rfl
  | round h hrest => cases hnext

theorem Loops.loopEnds (h : Loops L isClient (some fs) s t) (hquit : s.mayQuit = false)
    (hcontrol : ∀ f ∈ fs, f.Control → f.payload.length ≤ 125) : LoopEnds L isClient fs s t := by
  generalize hnext : some fs = next at h
  induction h generalizing fs with
  | closed s => cases hnext
  | @round fs' s t u r next h hrest ih =>
    obtain rfl := Option.some.inj hnext
    obtain ⟨pre, rest, w, rfl, hpass, hstop⟩ := h
    have hpre : ∀ f ∈ pre, f.Control → f.payload.length ≤ 125 :=
      fun f hf => hcontrol f (List.mem_append_left _ hf)
    cases next with
    | none =>
      obtain rfl := hstop.eq_none
      have hmono : 10 ∈ w.failed → 10 ∈ t.failed := fun hw =>
        hrest.failed_mono ((hstop.shuts.failed 10 (by decide)).2 hw)
      obtain rfl := hrest.eq_of_closed
      have hsame : u.deliver none = u := by simp [Session.deliver]
      rw [hsame] at hmono ⊢
      exact hstop.loopEnds.pass hpass hpre hmono
    | some fs'' =>
      cases hstop with
      | quits p hp hmay => simp [hpass.keeps.mayQuit, hquit] at hmay
      | text p hp hf hop =>
        have hlater := @ih fs'' (hpass.keeps.mayQuit.trans hquit)
          (fun f hf => hcontrol f (by simp [hf])) rfl
        exact (hlater.text hf hop).pass hpass hpre hrest.failed_mono

end Ends

/-! ## Every run -/

theorem Session.Does.delivered {s t : Session J} {a : Act J} {r : a.Answer} (h : s.Does a r t) :
    s.delivered <+: t.delivered := by
  cases a with
  | onmessage message =>
    obtain rfl := h
    exact List.prefix_append _ _
  | waitData =>
    rcases h with ⟨-, rfl⟩ | ⟨-, patience, -, rfl⟩
    · exact List.prefix_rfl
    · exact List.prefix_rfl
  | send fd opcode data =>
    rcases h with ⟨-, -, rfl⟩ | ⟨-, rfl⟩
    · exact List.prefix_rfl
    · exact List.prefix_rfl
  | appQuit | threadQuit | state | socket | closeCode | out | readMessage =>
    obtain ⟨-, rfl⟩ := h
    exact List.prefix_rfl
  | _ =>
    obtain rfl := h
    exact List.prefix_rfl

theorem delivered_grows {α : Type} {c d : Config (Session J) (Act.Answer (J := J)) α}
    {ms : List (Move _ _)} (h : Run (Steps Session.Does) c ms d) :
    c.1.delivered <+: d.1.delivered := by
  apply h.invariant (I := fun e => c.1.delivered <+: e.1.delivered) (G := fun _ => True)
  · intro e a e' he hstep _
    obtain ⟨k, -, hdoes, -⟩ := hstep
    exact he.trans hdoes.delivered
  · exact List.prefix_rfl
  · simp

/-- With rounds enough the loop comes to an end. Until then it has handed out the first of the
values, and in the end all of them; the pings are answered, and what is read after the last frame
is only a reply that the owner of the link waits for. -/
theorem loop_delivers (L : JsonLib J) {isClient : Bool} {fs : List Frame} {s : Session J}
    (hs : s.Opened isClient fs) (hcontrol : ∀ f ∈ fs, f.Control → f.payload.length ≤ 125) {n : ℕ}
    (hn : fs.length + s.patience + 2 < n) {ms : List (Move _ _)}
    {d : Config (Session J) (Act.Answer (J := J)) Unit}
    (hrun : Run (Steps Session.Does) (s, messagelinkLoop L isClient n) ms d) :
    d.1.delivered <+: (payloadsOf 1 (handled isClient fs)).filterMap (parseText L) ∧
      (∃ ms' t, Run (Steps Session.Does) d ms' (t, .ret ())) ∧
      ∀ x, d.2 = .ret x → LoopEnds L isClient fs s d.1 := by
  have hloop : Returns (fun _ t => LoopEnds L isClient fs s t) (messagelinkLoop L isClient n) s := by
    apply returns_loop hs.stands hs.mayQuit (by omega)
    · intro fs' hfs'
      obtain rfl := Option.some.inj hfs'
      exact hn
    · exact fun t ht => ht.loopEnds hs.mayQuit hcontrol
  have hd := wp_steps hrun hloop
  obtain ⟨ms', x, t, hrest, hends, -⟩ := Returns.exists_run hd
  refine ⟨?_, ⟨ms', t, hrest⟩, ?_⟩
  · have hgrows := delivered_grows hrest
    rwa [hends.delivered, hs.delivered, List.nil_append] at hgrows
  · intro x hx
    rw [hx] at hd
    exact hd

/-! ### A text, and a binary frame -/

abbrev thenClose (opcode : Fin 16) (payload : Bytes) : List Frame :=
  [serverFrame true opcode payload, serverFrame true 8 [3, 235]]

abbrev textStream : List Frame := thenClose 1 [49]

abbrev binaryStream : List Frame := thenClose 2 []

theorem text_is_delivered :
    ∃ (ms : List (Move _ _)) (t : Session Json.Value),
      Run (Steps Session.Does) (listening true textStream, messagelinkLoop valueLib true 5) ms
        (t, .ret ()) ∧
      LoopEnds valueLib true textStream (listening true textStream) t := by
  have hs : (listening true textStream : Session Json.Value).Opened true textStream :=
    listening_opened (by simp)
  have hn : textStream.length + (listening true textStream : Session Json.Value).patience + 2 < 5 := by
    simp [listening]
  have hreturns : Returns (fun _ _ => True) (messagelinkLoop valueLib true 5)
      (listening true textStream) := by
    apply returns_loop hs.stands hs.mayQuit (by omega)
    · intro fs hfs
      obtain rfl := Option.some.inj hfs
      exact hn
    · simp
  obtain ⟨ms, x, t, hrun, -, -⟩ := hreturns.exists_run
  exact ⟨ms, t, hrun, (loop_delivers valueLib hs (by simp) hn hrun).2.2 x rfl⟩

/-- The close message that the owner waits for is read, if its own can be sent and `select` does not
time out. -/
theorem OwnerCloses.reads_reply {code : ℤ} {close : Frame} {s t : Session J}
    (h : OwnerCloses isClient code s t) (hears : s.Hears isClient [close]) (hop : close.opcode = 8)
    (hsize : close.payload.length ≤ 16777216) (hpatience : s.patience = 0) (hfailed : 8 ∉ t.failed) :
    t.reader = readOn s.reader := by
  cases h with
  | unsent h =>
    cases h with
    | failed => exact absurd (by simp [Session.shut]) hfailed
  | waited reader patience h hwaited =>
    have hpatience' := congrArg Session.patience h.same
    rw [h.reader_eq, hpatience'] at hwaited
    cases hwaited with
    | stop r hp => exact absurd hp (by simp [hpatience])
    | last => rfl
    | more hclose hmore =>
      apply absurd _ hclose
      change (messagelinkReadMessage s.reader _).2.1.opcode = 8
      rw [hears.read hsize]
      exact (opcode_eq_iff close 8).2 hop

theorem binary_frame_reads_on :
    ∃ (ms : List (Move _ _)) (t : Session Json.Value),
      Run (Steps Session.Does) (listening true binaryStream, messagelinkLoop valueLib true 5) ms
        (t, .ret ()) ∧
      t.reader ≠ readOn (listening true binaryStream : Session Json.Value).reader := by
  set s : Session Json.Value := listening true binaryStream with hs'
  have hs : s.Opened true binaryStream := listening_opened (by simp)
  have hreturns : Returns (fun _ t => Loops valueLib true (some binaryStream) s t)
      (messagelinkLoop valueLib true 5) s := by
    apply returns_loop hs.stands hs.mayQuit (by omega)
    · intro fs hfs
      obtain rfl := Option.some.inj hfs
      simp [hs', listening]
    · exact fun t ht => ht
  obtain ⟨ms, x, t, hrun, hloop, hfailed⟩ := hreturns.exists_run
  refine ⟨ms, t, hrun, ?_⟩
  have hsize : ([] : Bytes).length ≤ 16777216 := by simp
  have hears := hs.stands.2.2
  have hfirst := hears.next hsize
  have hsecond := hfirst.next (by simp)
  have hreader : t.reader = readOn (readOn s.reader) := by
    cases hloop with
    | @round _ _ _ u r next h hrest =>
      obtain ⟨pre, rest, w, hfs, hpass, hstop⟩ := h
      cases pre with
      | cons f pre =>
        have hf := (hpass.mem f (by simp)).1
        rw [← (List.cons.inj hfs).1] at hf
        exact absurd (by simp [Ends]) hf
      | nil =>
        obtain rfl := hfs
        cases hpass
        cases hstop with
        | refused p hp _ _ _ hclose =>
          rw [hrest.eq_of_closed] at hfailed ⊢
          have hnone : u.failed = [] := hfailed
          apply hclose.reads_reply (hears.took hsize p) rfl (by simp)
          · exact Nat.le_zero.1 hp
          · simp [hnone]
        | quits p hp hmay => simp [hs.mayQuit] at hmay
        | oversized p hp hlong => simp at hlong
        | bare p hp _ hbare => exact absurd rfl hbare.2.1
        | close p hp _ _ hop => exact absurd hop (by decide)
        | text p hp _ hop => exact absurd hop (by decide)
  rw [hreader]
  intro hsame
  have harrived := hsecond.arrives.arrived
  rw [hsame, hfirst.arrives.arrived] at harrived
  simp [Frame.bytes, Frame.header] at harrived

end Rcom.Messagelink
