import Rcom.Lib.Delivery
import Rcom.Mirror

/-!
# Handlers that run at the same time

Each link has a thread of its own that handles its requests one by one: first the
operation on the registry, then the texts, one after the other. The threads of different
links interleave at these steps. A listening proxy joins at some time, asks for the list
and receives the texts that are sent to it in the order in which they are sent.
-/

namespace Rcom.Interleaving
open Rcom.Lib Rcom.Lib.Json Rcom.Lib.Trace Rcom.Lib.Delivery Rcom.Addr Rcom.RegistryEntry
open Rcom.Registry Rcom.RcRegistry Rcom.Proxy Rcom.Replica Rcom.Events
variable {J : Type} (L : JsonLib J)

/-- A handler after its operation: the texts that it still has to send. `seen` is the registry
as it left it. -/
structure Handler (J : Type) where
  link : LinkId
  outs : List (Output J)
  seen : Registry

/-- The handlers stand in the order of their operations. The history only serves to say what
clients do not do. -/
structure System (J : Type) where
  registry : Registry
  handlers : List (Handler J)
  joined : Bool
  asked : Bool
  queue : List (Text J)
  proxy : Proxy
  history : History

inductive Action (J : Type) where
  | handle (m : Message J)
  | join
  | emit (i : ℕ)
  | deliver

def namedIn : Output J → Option CStr
  | .broadcast _ (.proxyUpdateAddress id _) => some id
  | _ => none

/-- The history with the entries of a registry and the identifiers of the updates sent. -/
def see (h : History) (r : Registry) (outs : List (Output J)) : History where
  named := h.named ++ r.map Entry.id ++ outs.filterMap namedIn
  kinds := h.kinds ++ r.map fun e => (e.id, kind e)
  addrs := h.addrs ++ r.filterMap fun e => e.addr.map fun a => (e.id, a)

def start (r : Registry) : System J := ⟨r, [], false, false, [], newProxy, see ⟨[], [], []⟩ r ([] : List (Output J))⟩

/-- The thread of a link handles one request at a time, and the proxy only asks for the list. -/
def Enabled (link : LinkId) (s : System J) : Action J → Prop
  | .handle m => (∀ h ∈ s.handlers, h.link = m.link → h.outs = []) ∧
      (m.link = link → s.joined = true ∧ s.asked = false ∧
        m.body = L.jsonParse (requestBytes .list))
  | .join => s.joined = false
  | .emit i => ∃ h, s.handlers[i]? = some h ∧ h.outs ≠ []
  | .deliver => s.queue ≠ []

def handle (link : LinkId) (s : System J) (m : Message J) : Exec (System J) :=
  (rcregistryOnmessage L s.registry m.link m.body).map fun p => { s with
    registry := p.1
    handlers := s.handlers ++ [⟨m.link, p.2, p.1⟩]
    asked := s.asked || m.link == link
    history := see s.history p.1 p.2 }

/-- The next text of a handler; it reaches the proxy if the proxy has joined. -/
def emit (link : LinkId) (s : System J) (i : ℕ) : System J :=
  match s.handlers[i]? with
  | some ⟨l, o :: outs, seen⟩ => { s with
      handlers := s.handlers.set i ⟨l, outs, seen⟩
      queue := if s.joined then s.queue ++ delivered link [o] else s.queue }
  | _ => s

def deliver (s : System J) : Exec (System J) :=
  match s.queue with
  | [] => some s
  | t :: queue => (proxyOnmessage L s.proxy [] (L.jsonParse (textBytes L t))).map
      fun p => { s with queue := queue, proxy := p.1 }

def next (link : LinkId) (s : System J) : Action J → Exec (System J)
  | .handle m => handle L link s m
  | .join => some { s with joined := true }
  | .emit i => some (emit link s i)
  | .deliver => deliver L s

def Step (link : LinkId) (x : Exec (System J)) (a : Action J) (y : Exec (System J)) : Prop :=
  ∃ s, x = some s ∧ Enabled L link s a ∧ y = next L link s a

/-! ## Orderly runs -/

def concerns : Text J → Option CStr
  | .proxyAdd id _ _ _ _ => some id
  | .proxyRemove id => some id
  | .proxyUpdateAddress id _ => some id
  | _ => none

/-- The texts for the proxy that handlers with earlier operations have not sent yet. -/
def earlier (link : LinkId) (s : System J) (i : ℕ) : List (Text J) :=
  (s.handlers.take i).flatMap fun h => delivered link h.outs

/-- An event is sent after the earlier events about its identifier and after an earlier list, and
a list is not sent before the announcement of an entry that it has with another address. -/
structure Orderly (link : LinkId) (s : System J) (i : ℕ) : Prop where
  event : ∀ h o outs t, s.handlers[i]? = some h → h.outs = o :: outs → t ∈ delivered link [o] →
    (∀ v, t ≠ .obj v) → ∀ t' ∈ earlier link s i, (∀ v, t' ≠ .obj v) ∧ concerns t' ≠ concerns t
  list : ∀ h o outs v, s.handlers[i]? = some h → h.outs = o :: outs → .obj v ∈ delivered link [o] →
    ∀ id name topic type addr, .proxyAdd id name topic type addr ∈ earlier link s i →
      ∀ e ∈ h.seen, e.id = id → addrString e.addr = addr

/-- Clients register identifiers that nobody has named, and send addresses that can be used. -/
structure Tame (s : System J) (body : J) : Prop where
  usable : AddressesUsable L s.registry body
  plain : ∀ id addr, Updates L body id addr → Plain id ∧ Plain addr
  fresh : ∀ e, Registers L body e → e.id ∉ s.history.named

def Quiet (s : System J) : Prop := (∀ h ∈ s.handlers, h.outs = []) ∧ s.queue = []

end Rcom.Interleaving
