import Rcom.ReadErrors
import Rcom.RpcExchange

/-!
# What a client has after one remote call (RPCClient.cpp, RPCServer.cpp)

A client sends one request and reads one text. The thread of the server goes on reading after it has
answered, for any number of rounds, and nothing more comes.
-/

namespace Rcom

theorem Socket.delivered_skip {s : Socket} {n : ℕ} (h : n ≤ s.arrived.length) :
    (s.skip n).delivered = s.delivered.drop n := by
  induction s generalizing n with
  | nil => exact List.drop_nil.symm
  | cons a s ih =>
    cases a with
    | timeout | error =>
      obtain rfl : n = 0 := Nat.le_zero.1 h
      rfl
    | bytes b bs =>
      simp only [arrived, List.length_append, List.length_cons] at h
      rw [skip, delivered]
      split_ifs with hn
      · rw [delivered_push, List.drop_append_of_le_length (by rw [List.length_cons]; omega)]
      · have hdrop : (b :: bs).drop n = [] := List.drop_eq_nil_of_le (by rw [List.length_cons]; omega)
        rw [ih (by omega), List.drop_append, hdrop, List.nil_append, List.length_cons]

end Rcom

namespace Rcom.Rpc
open Rcom.Lib Rcom.Lib.Json Rcom.Lib.Program Rcom.Lib.Trace Rcom.Lib.Rfc6455 Rcom.Messagelink
open Rcom.ClientLink (LinkState)

variable {J α : Type} {L : RpcLib J} {denote : Value → J}

/-! ## The handler and the client -/

/-- The handler, with the calls that are made of it. -/
def logged (handler : CStr → J → Outcome J) : Handler J (List (CStr × J)) :=
  fun calls method params => (handler method params, calls ++ [(method, params)])

theorem after_logged (handler : CStr → J → Outcome J) (done calls : List (CStr × J)) :
    after (logged handler) done calls = done ++ calls := by
  induction calls generalizing done with
  | nil => exact (List.append_nil done).symm
  | cons c calls ih =>
    rw [after, List.foldl_cons, ← after, ih, logged, List.append_assoc]
    rfl

/-- The message of an error is handed on as a C string. -/
def Outcome.message : Outcome J → CStr
  | .returned e _ => Http.cstr e.message
  | .threw what => what

def Outcome.result (L : RpcLib J) : Outcome J → J
  | .returned _ result => result
  | .threw _ => L.jsonNull

structure Holds (L : RpcLib J) (o : Outcome J) (reply : J × Exec RPCError) : Prop where
  result : reply.1 = o.result L
  error : ∃ e, reply.2 = some e ∧ e.code = o.code ∧ (o.code ≠ 0 → e.message = givenMessage o.message)

/-- After these bytes nothing comes, in time or late. -/
structure Awaits (s : Session J) (isClient : Bool) (bytes : Bytes) : Prop extends
    s.Linked isClient bytes where
  delivered : s.reader.socket.delivered = bytes

section Server
variable {s t : Session J} {n rounds : ℕ} {request : J} {handler : CStr → J → Outcome J}

theorem Awaits.reads {isClient : Bool} {mask : Mask} {text rest : Bytes}
    (hs : Awaits s isClient (frameMake 1 (!isClient) mask text ++ rest)) (h : Fits text) (p : ℕ)
    (delivered : List J) : Awaits { s.took p with delivered } isClient rest := by
  obtain ⟨hstate, hsocket, hquit, hrole, harrived⟩ := (hs.toLinked.reads h p).2
  refine ⟨⟨hstate, hsocket, hquit, hrole, harrived⟩, ?_⟩
  show (readOn s.reader).socket.delivered = rest
  rw [readOn, hs.toLinked.readMessage_eq h]
  dsimp only
  rw [Socket.delivered_skip (by rw [hs.arrived, List.length_append]; omega), hs.delivered, List.drop_left]

theorem Awaits.of_sends {isClient : Bool} {opcode : ℕ} {payload bytes : Bytes} {err : ℤ}
    (hs : Awaits s isClient bytes) (h : Sends isClient opcode payload s err t) :
    Awaits t isClient bytes := by
  rw [h.same]
  exact ⟨⟨hs.state, hs.socket, hs.mayQuit, hs.role, hs.arrived⟩, hs.delivered⟩

theorem Awaits.message_err {isClient : Bool} (hs : Awaits s isClient []) : s.message.err = -1 := by
  refine messagelinkReadMessage_incomplete ?_ ⟨0, 0, 0, 0⟩
  rw [hs.delivered]
  rintro ⟨h, hpre⟩
  have hnil := List.prefix_nil.1 hpre
  simp [Header.bytes] at hnil

theorem returns_serve_closed {σ : Type} {Q : σ → Session J → Prop} {handler : Handler J σ} {state : σ}
    (hclosed : s.state ≠ .open) (h : Q state s) : Returns Q (serve L handler n rounds state) s := by
  cases rounds with
  | zero => exact h
  | succ rounds =>
    simp only [serve, doing, perform_bind]
    apply returns_threadQuit
    intro quit _
    cases quit with
    | true => exact h
    | false =>
      simp only [Bool.false_eq_true, if_false, returns_state]
      rw [if_pos hclosed]
      exact h

/-- Whatever the message, the server only closes the link for it. -/
theorem returns_serve_oneway {σ : Type} {Q : σ → Session J → Prop} {handler : Handler J σ} {state : σ}
    {bytes : Bytes} (code : ℤ) (hs : s.Linked false bytes) (hn : s.patience + 1 < n)
    (hround : ∀ k, readRound L.toJsonLib false k s.message = do
      ownerMessagelinkCloseOneway false code
      return some none)
    (h : ∀ p ≤ s.patience, ∀ t, ClosesOneway false code (s.took p) t → Q state t) :
    Returns Q (serve L handler n (rounds + 1) state) s := by
  refine returns_serve hs.state hs.mayQuit (returns_readOpen_round hs.state hs.mayQuit hn fun k p hp => ?_)
  obtain ⟨fd, hsocket⟩ := hs.socket
  rw [hround]
  refine wp_bind.2 (returns_ownerCloseOneway (by exact hsocket) fun t ht => ⟨none, rfl, ?_⟩)
  refine returns_serve_closed ?_ (h p hp t ht)
  cases ht with
  | closed hsends => exact fun hopen => LinkState.noConfusion hopen

theorem returns_serve_idle {σ : Type} {handler : Handler J σ} {state : σ} (hs : Awaits s false [])
    (hn : s.patience + 1 < n) :
    Returns (fun last t => last = state ∧ wireOf 1 t.wire = wireOf 1 s.wire)
      (serve L handler n rounds state) s := by
  cases rounds with
  | zero => exact ⟨rfl, rfl⟩
  | succ rounds =>
    refine returns_serve_oneway 1011 hs.toLinked hn (fun k => ?_) fun p _ t ht => ⟨rfl, ?_⟩
    · rw [readRound, if_pos hs.message_err]
    · cases ht with
      | closed hsends => exact hsends.wireOf_ne (by decide)

end Server

/-! ## The exchange -/

/-- A program of the client and the server, where each end hears just what the other sends and every
send succeeds. -/
structure Exchanges (L : RpcLib J) (handler : CStr → J → Outcome J) (client : Program J α)
    (n rounds : ℕ) (c s : Session J) (x : α) (calls : List (CStr × J)) (d t : Session J) : Prop where
  client : ∃ ms, Run (Steps Session.Does) (c, client) ms (d, .ret x)
  server : ∃ ms, Run (Steps Session.Does) (s, serve L (logged handler) n rounds []) ms (t, .ret calls)
  sent : d.failed = [] ∧ t.failed = []
  up : ∃ bytes, Awaits s false bytes ∧ d.sent = c.sent ++ bytes
  down : ∃ bytes, c.Linked true bytes ∧ t.sent = s.sent ++ bytes

/-- One text frame is sent, with this object. -/
def Responds (L : RpcLib J) (response : J) (s t : Session J) : Prop :=
  ∃ key, wireOf 1 t.wire = wireOf 1 s.wire ++ frameMake 1 false key (L.jsonSerialise response)

section Exchange
variable {c s d t : Session J} {handler : CStr → J → Outcome J} {n m rounds : ℕ}
variable {calls cs : List (CStr × J)} {request response : J} {r : Option J}

theorem Exchanges.answered
    (h : Exchanges L handler (messagelinkSendCommand L.toJsonLib true false n request) m (rounds + 1) c s
      r calls d t) (hn : c.patience + 1 < n) (hm : s.patience + 1 < m) (hrequest : Carried L request)
    (hcall : onmessage L handler request = (cs, response)) (hresponse : Carried L response) :
    r = some response ∧ calls = cs ∧ Responds L response s t := by
  obtain ⟨⟨ms, hclient⟩, ⟨ms', hserver⟩, ⟨hd, ht⟩, ⟨up, hs, hup⟩, down, hc, hdown⟩ := h
  obtain ⟨mask, hsent, hreply⟩ := finishes_command (finishes_iff_run.2 ⟨ms, hclient⟩) hd hc hn
  -- what the server hears begins with the request
  rw [hup] at hsent
  obtain ⟨rest, rfl⟩ := (List.prefix_append_right_inj _).1 hsent
  obtain ⟨p, hp, s₁, hserve, hsends⟩ := finishes_serve (finishes_iff_run.2 ⟨ms', hserver⟩) ht
    hs.toLinked hm hrequest hcall
  obtain ⟨hs₁, hpatience, -, key, hsent₁⟩ := served hsends hs.toLinked hrequest.1
  -- what the client hears begins with the response
  have hback := sent_grows (grows_of_finishes hserve).wire
  rw [hsent₁, hdown] at hback
  obtain ⟨more, rfl⟩ := (List.prefix_append_right_inj _).1 hback
  obtain ⟨rfl, -, -, hall⟩ := hreply response more key hresponse rfl
  -- the client has sent nothing else
  rw [hup] at hall
  obtain rfl : rest = [] := by simpa using hall
  have hidle : Awaits s₁ false [] := (hs.reads hrequest.1 p _).of_sends hsends
  obtain ⟨rfl, hwire⟩ := hserve.of_wp (returns_serve_idle hidle (by omega))
  refine ⟨rfl, after_logged handler [] cs, ?_⟩
  cases hsends with
  | sent mask out w hw =>
    refine ⟨mask, hwire.trans ?_⟩
    rw [wireOf_append, hw.wireOf_self]
    rfl

theorem Exchanges.command {call : Call J} {reply : J × Exec RPCError}
    (h : Exchanges L handler (execute L false n (some call.method) call.params call.result call.error)
      m rounds c s reply calls d t) :
    ∃ r, Exchanges L handler (messagelinkSendCommand L.toJsonLib true false n (call.request L)) m rounds
        c s r calls d t ∧
      reply = (L.jsonObjectGet (r.getD L.jsonNull) (ascii "result"),
        checkError L (r.getD L.jsonNull) call.error) := by
  obtain ⟨⟨ms, hclient⟩, hserver, hsent, hup, hdown⟩ := h
  obtain ⟨r, _, hcommand, rfl, rfl⟩ := finishes_bind.1 (finishes_iff_run.2 ⟨ms, hclient⟩)
  exact ⟨r, ⟨finishes_iff_run.1 hcommand, hserver, hsent, hup, hdown⟩, rfl⟩

end Exchange

section TooLong
variable {s : Session J} {n rounds : ℕ} {rest : Bytes}

end TooLong

end Rcom.Rpc
