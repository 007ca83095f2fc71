import Rcom.Interleaving
import Rcom.NodeTexts
import Rcom.Readdressing

/-!
# A node among the others

The threads of a node open and close endpoints while another one handles the texts of the
central registry. `proxy_new_entry` and `proxy_delete_entry` hold the mutex only while they
change the list of entries: what they send is a step of its own. The registry has a thread
for each link, and handles the requests of a link one after the other.
-/

namespace Rcom
open Rcom.Lib Rcom.Lib.Json Rcom.Lib.Trace Rcom.Addr Rcom.RegistryEntry Rcom.Registry Rcom.RcRegistry
open Rcom.Proxy Rcom.Node Rcom.Client Rcom.Replica Rcom.Interleaving Rcom.NodeTexts

namespace ProxyRuns
variable {J : Type} (L : JsonLib J)

/-- The ids that were given out, each with the link of the node that has it; the registry has
no link. -/
abbrev Names := List (CStr × Option LinkId)

/-- `requests` and `queue` are on their way to the registry and to the node. `opening` are the
entries whose registration has yet to be sent, `closing` those whose removal has, and `updates`
what the handler of the last text has yet to send. -/
structure System (J : Type) where
  registry : Registry
  handlers : List (Handler J)
  joined : Bool
  requests : Sent
  queue : List (Text J)
  proxy : Proxy
  opening : List Entry
  closing : List Entry
  updates : Sent
  named : Names

/-- `handle` and `emit` are steps of the registry's threads, `serve` is the one for the node. -/
inductive Action where
  | handle (l : LinkId) (r : Request)
  | join
  | serve
  | emit (i : ℕ)
  | deliver (outcomes : List Outcome)
  | insert (name topic : CStr) (type : EntryType) (created : Creation)
  | register (i : ℕ) (sent : Bool)
  | remove (type : EntryType) (endpoint : Endpoint)
  | unregister (i : ℕ) (sent : Bool)
  | update (sent : Bool)

def start (r : Registry) : System J :=
  ⟨r, [], false, [], [], newProxy, [], [], [], r.map fun e => (e.id, none)⟩

/-- A node registers new ids, and the rest of its requests is about its own. -/
def MayAsk (named : Names) (l : LinkId) : Request → Prop
  | .register id _ _ _ _ => id ∉ named.map Prod.fst
  | .unregister id => (id, some l) ∈ named
  | .updateAddress id _ => (id, some l) ∈ named
  | .list => True

/-- The thread of the link has sent all texts of its last request. -/
def Idle (handlers : List (Handler J)) (l : LinkId) : Prop := ∀ h ∈ handlers, h.link = l → h.outs = []

/-- Endpoints are opened once `new_proxy` has returned, which takes the list. -/
def Enabled (link : LinkId) (s : System J) : Action → Prop
  | .handle l r => l ≠ link ∧ Idle s.handlers l ∧ Proper r ∧ MayAsk s.named l r
  | .join => s.joined = false
  | .serve => s.requests ≠ [] ∧ Idle s.handlers link
  | .emit i => ∃ h, s.handlers[i]? = some h ∧ h.outs ≠ []
  | .deliver outcomes => s.queue ≠ [] ∧ s.updates = [] ∧ Addressed outcomes
  | .insert _ _ _ created => s.proxy.status = .ready ∧ registryValidId created.uuid = true ∧
      created.uuid ∉ s.named.map Prod.fst
  | .register i _ => i < s.opening.length
  | .remove _ _ => True
  | .unregister i _ => i < s.closing.length
  | .update _ => s.updates ≠ []

/-- The registry handles a request, and the thread of the link has texts to send. -/
def ask (s : System J) (l : LinkId) (r : Request) : Exec (System J) :=
  (rcregistryOnmessage L s.registry l (L.jsonParse (requestBytes r))).map fun p =>
    { s with registry := p.1, handlers := s.handlers ++ [⟨l, p.2, p.1⟩] }

/-- The next text of a handler; it reaches the node if the node has joined. -/
def emit (link : LinkId) (s : System J) (i : ℕ) : System J :=
  match s.handlers[i]? with
  | some ⟨l, o :: outs, seen⟩ => { s with
      handlers := s.handlers.set i ⟨l, outs, seen⟩
      queue := if s.joined then s.queue ++ delivered link [o] else s.queue }
  | _ => s

def next (link : LinkId) (s : System J) : Action → Exec (System J)
  | .handle l r =>
    ask L { s with named := s.named ++ (creates r).toList.map fun id => (id, some l) } l r
  | .join => some { s with joined := true, requests := [.list] }
  | .serve =>
    match s.requests with
    | [] => some s
    | r :: requests => ask L { s with requests := requests } link r
  | .emit i => some (emit link s i)
  | .deliver outcomes =>
    match s.queue with
    | [] => some s
    | t :: queue =>
      (proxyOnmessage L s.proxy outcomes (L.jsonParse (textBytes L t))).map
        fun p => { s with queue := queue, proxy := p.1, updates := requestsOf p.2 }
  | .insert name topic type created =>
    let p := insertEntry s.proxy name topic type created
    some { s with
      proxy := p.1
      opening := s.opening ++ p.2.toList
      named := s.named ++ [(created.uuid, some link)] }
  | .register i sent =>
    match s.opening[i]? with
    | none => some s
    | some entry =>
      let p := registerEntry sent s.proxy entry
      some { s with proxy := p.1, requests := s.requests ++ p.2, opening := s.opening.eraseIdx i }
  | .remove type endpoint =>
    (removeEntry s.proxy type endpoint).map
      fun p => { s with proxy := p.1, closing := s.closing ++ p.2.toList }
  | .unregister i sent =>
    match s.closing[i]? with
    | none => some s
    | some entry => some { s with
        requests := s.requests ++ proxySendUnregisterRequest false sent entry
        closing := s.closing.eraseIdx i }
  | .update sent =>
    match s.updates with
    | [] => some s
    | r :: updates =>
      some { s with requests := if sent then s.requests ++ [r] else s.requests, updates := updates }

def Step (link : LinkId) (x : Exec (System J)) (a : Action) (y : Exec (System J)) : Prop :=
  ∃ s, x = some s ∧ Enabled link s a ∧ y = next L link s a

/-! ## Announcements on their way -/

def waiting (s : System J) : List Request :=
  s.opening.map requestOf ++ s.requests.filter fun r => (creates r).isSome

def pendingTexts (link : LinkId) (handlers : List (Handler J)) : List (Text J) :=
  handlers.flatMap fun h => delivered link h.outs

def coming (link : LinkId) (s : System J) : List Request :=
  waiting s ++ (pendingTexts link s.handlers).filterMap announced ++ s.queue.filterMap announced

/-- The node has not received the event about the registration of this id. -/
def Awaited (link : LinkId) (s : System J) (id : CStr) : Prop :=
  ∃ r ∈ coming link s, r.subject = some id

/-- A link that gets a new address is not awaited, and a list does not have an entry in the place
of one that it has otherwise. -/
def Fits (link : LinkId) (s : System J) (outcomes : List Outcome) : ProxyEvent → Prop
  | .add e => ∀ g a, (g, some (some a)) ∈ attempts s.proxy.registry outcomes e → g.addr ≠ some a →
      ¬ Awaited link s g.id
  | .list es => Replaceable s.proxy.registry es
  | _ => True

/-- The next text is delivered when its event fits. -/
def Safe (link : LinkId) (s : System J) : Action → Prop
  | .deliver outcomes => ∀ t ∈ s.queue.head?, ∀ ev,
      Carries L (L.jsonParse (textBytes L t)) ev → Fits link s outcomes ev
  | _ => True

end ProxyRuns
end Rcom
