import Rcom.Lib.JsonText
import Rcom.Rpc
import Rcom.TextExchange

/-!
# Remote calls and calls of the handler (RPCClient.cpp, RPCServer.cpp)

A client calls one method after the other over its link. The thread of the other end reads the
requests, calls the handler for each and sends the response. The handler may have a state.
-/

namespace Rcom.Rpc
open Rcom.Lib Rcom.Lib.Json Rcom.Lib.Program Rcom.Lib.Trace Rcom.Messagelink
open Rcom.ClientLink (LinkState)

variable {J σ : Type} {L : RpcLib J} {denote : Value → J}

/-! ## The objects -/

/-- The range of an `int`. -/
def IsInt (n : ℤ) : Prop := -2147483648 ≤ n ∧ n ≤ 2147483647

instance (n : ℤ) : Decidable (IsInt n) := inferInstanceAs (Decidable (_ ∧ _))

/-- What the library promises of the functions that remote calls use. A member that is missing is
null, and a number that was set has its value. -/
structure RpcLib.Lawful (L : RpcLib J) (denote : Value → J) : Prop where
  objects : L.toJsonLib.Lawful denote
  denotes (j : J) : ∃ v, denote v = j
  null_eq : L.jsonNull = denote .null
  construct {front back : CStr} (arg : CStr) : 37 ∉ front → 37 ∉ back →
    L.jsonConstruct (front ++ ascii "%s" ++ back) [arg] = L.jsonParse (front ++ arg ++ back)
  isnull (v : Value) : L.jsonIsnull (denote v) = true ↔ v = .null
  objectGet_none {ms : List (Bytes × Value)} {k : CStr} : k ∉ ms.map Prod.fst →
    L.jsonObjectGet (denote (.obj ms)) k = denote .null
  objectHas {ms : List (Bytes × Value)} {k : CStr} :
    L.jsonObjectHas (denote (.obj ms)) k = true ↔ k ∈ ms.map Prod.fst
  objectSetnum {ms : List (Bytes × Value)} {k : CStr} {n : ℤ} : k ∉ ms.map Prod.fst → IsInt n →
    ∃ t, L.jsonObjectSetnum (denote (.obj ms)) k n = denote (.obj (ms ++ [(k, .num t)])) ∧
      L.jsonIsnumber (denote (.num t)) = true ∧ L.jsonNumberInt (denote (.num t)) = some n
  isstring (s : CStr) : L.jsonIsstring (denote (.str s)) = true
  stringValue (s : CStr) : L.jsonStringValue (denote (.str s)) = s

/-- The message of an error; a message that is empty is replaced. -/
def givenMessage (message : CStr) : CStr :=
  if message.length > 0 then message else ascii "No message was given"

def Outcome.seen (L : RpcLib J) (error : RPCError) : Outcome J → J × RPCError
  | .returned e result =>
    (result, if e.code = 0 then { error with code := 0 } else ⟨e.code, givenMessage (Http.cstr e.message)⟩)
  | .threw what => (L.jsonNull, ⟨RPCError.internalError, givenMessage what⟩)

def Outcome.code : Outcome J → ℤ
  | .returned e _ => e.code
  | .threw _ => RPCError.internalError

section Objects
variable (hL : L.Lawful denote) {ms : List (Bytes × Value)}
include hL

def Stands (L : RpcLib J) (denote : Value → J) (code : ℤ) (t : Bytes) : Prop :=
  L.jsonIsnumber (denote (.num t)) = true ∧ L.jsonNumberInt (denote (.num t)) = some code

end Objects

/-! ## The two programs -/

/-- A call of `RPCClient::execute`; `result` and `error` are what is in the variables of its caller. -/
structure Call (J : Type) where
  method : CStr
  params : J
  result : J
  error : RPCError

def Call.request (L : RpcLib J) (c : Call J) : J := constructRequest L c.method c.params

abbrev Handler (J σ : Type) := σ → CStr → J → Outcome J × σ

/-- `RPCServer::onmessage` -/
def respond (L : RpcLib J) (handler : Handler J σ) (state : σ) (message : J) : Program J σ := do
  let (calls, response) := onmessage L (fun method params => (handler state method params).1) message
  let _ ← messagelinkSendObj L.toJsonLib false response
  return calls.foldl (fun state c => (handler state c.1 c.2).2) state

/-- The first rounds of `messagelinkLoop`, with the handler behind `onmessage`. -/
def serve (L : RpcLib J) (handler : Handler J σ) (n : ℕ) : ℕ → σ → Program J σ
  | 0, state => .ret state
  | rounds + 1, state => do
    let quit : Bool ← doing .threadQuit
    if quit then return state
    else
      let link : LinkState ← doing .state
      if link ≠ .open then return state
      else
        let quit : Bool ← doing .appQuit
        if quit then return state
        else
          let message ← messagelinkReadOpen L.toJsonLib false n
          let state ← deliver state message
          serve L handler n rounds state
where deliver (state : σ) : Option J → Program J σ
  | none => .ret state
  | some message => do
    doing (.onmessage message)
    respond L handler state message

def callAll (handler : Handler J σ) : σ → List (Call J) → List (Outcome J) × σ
  | state, [] => ([], state)
  | state, c :: calls =>
    let (o, next) := handler state c.method c.params
    let (os, last) := callAll handler next calls
    (o :: os, last)

/-! ## One exchange -/

theorem not_quit {s t : Session J} {quit : Bool} (hs : s.mayQuit = false)
    (h : (quit = true → s.mayQuit = true) ∧ t = s) : quit = false ∧ s = t := by
  refine ⟨Bool.eq_false_iff.2 fun hquit => ?_, h.2.symm⟩
  rw [h.1 hquit] at hs
  cases hs

theorem finishes_printed {α : Type} {isClient : Bool} {s t : Session J} {fd : ℕ} {text : Bytes}
    {k : ℤ → Program J α} {x : α} (hopen : s.state = .open) (hsocket : s.socket = some fd)
    (h : Finishes Session.Does (.act (.lock .out) fun _ => .act .clearOut fun _ =>
      .act (.appendOut text) fun _ => .act .out fun out => messagelinkSendText isClient out >>= k) s x t) :
    ∃ err u, Sends isClient 1 text s err u ∧ Finishes Session.Does (k err) u x t := by
  obtain ⟨_, s₁, hs₁, _, s₂, hs₂, _, s₃, hs₃, out, s₄, ⟨hout, hs₄⟩, h⟩ := h
  obtain rfl : s₁ = s := hs₁
  obtain rfl : s₄ = s₃ := hs₄
  obtain rfl : s₄ = { s₁ with out := text } := by rw [hs₃, hs₂]; rfl
  obtain rfl : out = text := hout
  obtain ⟨err, u, hsend, hrest⟩ := finishes_bind.1 h
  exact ⟨err, u, hsend.of_wp (returns_sendText hopen hsocket fun err t ht => ht.of_out), hrest⟩

def Carried (L : RpcLib J) (v : J) : Prop :=
  Fits (L.jsonSerialise v) ∧ parseText L.toJsonLib (L.jsonSerialise v) = some v

section Exchange
variable {s t : Session J} {n : ℕ} {rest : Bytes}

/-- The request is sent first; if a text is the next to come, it is the reply. -/
theorem finishes_command {request : J} {r : Option J} {down : Bytes}
    (h : Finishes Session.Does (messagelinkSendCommand L.toJsonLib true false n request) s r t)
    (hfailed : t.failed = []) (hs : s.Linked true down) (hn : s.patience + 1 < n) :
    ∃ mask, s.sent ++ frameMake 1 true mask (L.jsonSerialise request) <+: t.sent ∧
      ∀ (response : J) (rest : Bytes) (key : Mask), Carried L response →
        down = frameMake 1 false key (L.jsonSerialise response) ++ rest →
        r = some response ∧ t.Linked true rest ∧ t.patience ≤ s.patience ∧
          t.sent = s.sent ++ frameMake 1 true mask (L.jsonSerialise request) := by
  obtain ⟨fd, hsocket⟩ := hs.socket
  obtain ⟨err, u, hsends, hrest⟩ := finishes_printed (k := fun err => do
    let reply ← if err = 0 then messagelinkRead L.toJsonLib true false n else .ret none
    doing (.unlock .out)
    return reply) hs.state hsocket h
  obtain ⟨hwire, hfails, -⟩ := grows_of_finishes hrest
  rw [hfailed, List.prefix_nil] at hfails
  obtain ⟨rfl, hu, hpatience, -, mask, hsent⟩ := hsends.linked hfails hs
  refine ⟨mask, hsent ▸ sent_grows hwire, fun response rest key hcarried hdown => ?_⟩
  obtain ⟨r', v, hread, hrest⟩ := finishes_bind.1 hrest
  have hread' : r' = some response ∧ v.Linked true rest ∧ v.patience ≤ u.patience ∧ v.sent = u.sent := by
    subst hdown
    have hreads : Returns (fun r v => r = some response ∧ v.Linked true rest ∧
        v.patience ≤ u.patience ∧ v.sent = u.sent) (messagelinkReadOpen L.toJsonLib true n) u :=
      returns_readText hu hcarried.1 (by omega) fun p hp hlinked => ⟨hcarried.2, hlinked, hp, rfl⟩
    exact hread.of_wp hreads
  obtain ⟨_, v', hv', hr, hv⟩ := hrest
  obtain ⟨rfl, hlinked, hless, hsame⟩ := hread'
  obtain rfl : v' = v := hv'
  subst hv hr
  exact ⟨rfl, hlinked, by omega, hsame.trans hsent⟩

/-- The state of the handler after these calls. -/
def after (handler : Handler J σ) (state : σ) (calls : List (CStr × J)) : σ :=
  calls.foldl (fun state c => (handler state c.1 c.2).2) state

/-- The handler is called for the request, and its response is sent before the next round. -/
theorem finishes_serve {handler : Handler J σ} {state last : σ} {rounds : ℕ} {request response : J}
    {calls : List (CStr × J)} {mask : Mask}
    (h : Finishes Session.Does (serve L handler n (rounds + 1) state) s last t) (hfailed : t.failed = [])
    (hs : s.Linked false (frameMake 1 true mask (L.jsonSerialise request) ++ rest))
    (hn : s.patience + 1 < n) (hcarried : Carried L request)
    (hcall : onmessage L (fun method params => (handler state method params).1) request =
      (calls, response)) :
    ∃ p ≤ s.patience, ∃ s₁,
      Finishes Session.Does (serve L handler n rounds (after handler state calls)) s₁ last t ∧
      Sends false 1 (L.jsonSerialise response)
        { s.took p with delivered := s.delivered ++ [request] } 0 s₁ := by
  simp only [serve, doing, perform_bind] at h
  obtain ⟨quit, _, hquit, h⟩ := h
  obtain ⟨rfl, rfl⟩ := not_quit hs.mayQuit hquit
  simp only [Bool.false_eq_true, if_false] at h
  obtain ⟨link, s₁, ⟨rfl, hsame⟩, h⟩ := h
  obtain rfl : s = s₁ := hsame.symm
  simp only [hs.state, ne_eq, not_true_eq_false, if_false] at h
  obtain ⟨quit, _, hquit, h⟩ := h
  obtain ⟨rfl, rfl⟩ := not_quit hs.mayQuit hquit
  simp only [Bool.false_eq_true, if_false] at h
  obtain ⟨message, u, hread, h⟩ := finishes_bind.1 h
  have hreads : Returns (fun message u => message = some request ∧ ∃ p ≤ s.patience, u = s.took p)
      (messagelinkReadOpen L.toJsonLib false n) s :=
    returns_readText hs hcarried.1 hn fun p hp _ => ⟨hcarried.2, p, hp, rfl⟩
  obtain ⟨rfl, p, hp, rfl⟩ := hread.of_wp hreads
  obtain ⟨next, w, ⟨_, v, rfl, hrespond⟩, h⟩ := finishes_bind.1 h
  have hlinked := (hs.reads hcarried.1 p).2
  obtain ⟨fd, hsocket⟩ := hlinked.socket
  have hrespond : Finishes Session.Does (respond L handler state request)
      { s.took p with delivered := s.delivered ++ [request] } next w := hrespond
  rw [respond, hcall] at hrespond
  obtain ⟨_, x, hsend, rfl, rfl⟩ := finishes_bind.1 hrespond
  obtain ⟨err, y, hsends, _, z, hz, -, hy⟩ := finishes_printed (k := fun err => do
    doing (.unlock .out)
    return err) (by exact hlinked.state) (by exact hsocket) hsend
  obtain rfl : y = w := hz.symm.trans hy.symm
  have hfails := (grows_of_finishes h).failed
  rw [hfailed, List.prefix_nil] at hfails
  obtain ⟨rfl, -⟩ := hsends.all hfails
  exact ⟨p, hp, y, h, hsends⟩

/-- The server after the round. -/
theorem served {request response : Bytes} {mask : Mask} {p : ℕ} {delivered : List J}
    (h : Sends false 1 response { s.took p with delivered } 0 t)
    (hs : s.Linked false (frameMake 1 true mask request ++ rest)) (hrequest : Fits request) :
    t.Linked false rest ∧ t.patience = p ∧ t.delivered = delivered ∧
      ∃ key, t.sent = s.sent ++ frameMake 1 false key response := by
  have hlinked := (hs.reads hrequest p).2
  cases h with
  | sent mask out w hw =>
    refine ⟨⟨hlinked.state, hlinked.socket, hlinked.mayQuit, hlinked.role, hlinked.arrived⟩, rfl, rfl,
      mask, ?_⟩
    rw [Session.sent, List.flatMap_append, hw.all]
    rfl

/-- The next round of an open link. -/
theorem returns_serve {Q : σ → Session J → Prop} {handler : Handler J σ} {state : σ} {rounds : ℕ}
    (hopen : s.state = .open) (hquit : s.mayQuit = false)
    (h : Returns (fun message t => Returns (fun state u => Returns Q (serve L handler n rounds state) u)
      (serve.deliver L handler state message) t) (messagelinkReadOpen L.toJsonLib false n) s) :
    Returns Q (serve L handler n (rounds + 1) state) s := by
  simp only [serve, doing, perform_bind]
  apply returns_threadQuit
  intro quit hmay
  cases quit with
  | true => simp [hquit] at hmay
  | false =>
    simp only [Bool.false_eq_true, if_false, returns_state, hopen, ne_eq, not_true_eq_false]
    apply returns_appQuit
    intro quit hmay
    cases quit with
    | true => simp [hquit] at hmay
    | false =>
      simp only [Bool.false_eq_true, if_false]
      refine wp_bind.2 (wp_mono h fun message t ht => ?_)
      exact wp_bind.2 ht

end Exchange

/-! ## All calls -/

/-- What a caller of the handler itself has after each call. -/
def Call.reply (L : RpcLib J) (c : Call J) (o : Outcome J) : J × Exec RPCError :=
  ((o.seen L c.error).1, some (o.seen L c.error).2)

structure Carries (L : RpcLib J) (handler : Handler J σ) (state : σ) (calls : List (Call J)) : Prop where
  method : ∀ c ∈ calls, Plain c.method
  request : ∀ c ∈ calls, Carried L (c.request L)
  code : ∀ o ∈ (callAll handler state calls).1, IsInt o.code
  response : ∀ o ∈ (callAll handler state calls).1, Carried L (o.response L)

theorem Carries.tail {handler : Handler J σ} {state : σ} {c : Call J} {calls : List (Call J)}
    (h : Carries L handler state (c :: calls)) :
    Carries L handler (handler state c.method c.params).2 calls where
  method := fun d hd => h.method d (List.mem_cons_of_mem _ hd)
  request := fun d hd => h.request d (List.mem_cons_of_mem _ hd)
  code := fun o ho => h.code o (List.mem_cons_of_mem _ ho)
  response := fun o ho => h.response o (List.mem_cons_of_mem _ ho)

def waiting (isClient : Bool) (bytes : Bytes) : Session J :=
  { listening isClient [] with reader := ⟨isClient, [], Socket.push bytes []⟩ }

section Example
def counter : Handler Value ℕ := fun count _ _ => (.returned ⟨0, []⟩ (.str (ascii "done")), count + 1)

end Example

end Rcom.Rpc
