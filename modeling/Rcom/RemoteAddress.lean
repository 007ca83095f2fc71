import Rcom.Client

/-!
# Where the data links of a node send to

Opening a link and the events about hubs set its remote address. Closing a hub of the same
node does not: its entry is gone before the event about its removal arrives, and for an id
it does not know the proxy does nothing.
-/

namespace Rcom
open Rcom.Lib Rcom.Lib.Json Rcom.Lib.Trace Rcom.Addr Rcom.RegistryEntry Rcom.Registry Rcom.RcRegistry
open Rcom.Proxy Rcom.Node

namespace Client
variable {J : Type} (L : JsonLib J)

/-! ## Steps -/

/-- What the client knows of the registry after a text of the registry. The other proxies only
remove and change entries of their own, and an update that fails is told to nobody. -/
inductive Heard (s : Client) (message : J) : Registry → Sent → Prop where
  | nothing : (∀ event, ¬Carries L message event) → Heard s message s.registry s.requests
  | noEntries {rest : Sent} : s.requests = .list :: rest → s.registry = [] →
      (∀ event, ¬Carries L message event) → Heard s message s.registry rest
  | listed {es : List Entry} {rest : Sent} : s.requests = .list :: rest →
      Carries L message (.list es) → (∀ e, e ∈ es ↔ e ∈ s.registry) →
      Heard s message s.registry rest
  | added {e : Entry} {rest : Sent} : s.requests = requestOf e :: rest → e.WellFormed →
      Carries L message (.add e.remote) → Heard s message (s.registry ++ [e.remote]) rest
  | otherAdded {e : Entry} : s.Fresh e.id → Carries L message (.add e) →
      Heard s message (s.registry ++ [e]) s.requests
  | removed {id : CStr} {rest : Sent} {registry : Registry} :
      s.requests = .unregister id :: rest → Carries L message (.remove id) →
      registryDelete s.registry id = some registry → Heard s message registry rest
  | otherRemoved {id : CStr} {registry : Registry} : ¬s.OfNode id → Carries L message (.remove id) →
      registryDelete s.registry id = some registry → Heard s message registry s.requests
  | otherUpdated {id addr : CStr} {registry : Registry} : ¬s.OfNode id →
      Carries L message (.updateAddress id addr) →
      registryUpdateAddr s.registry id addr = some (registry, 0) →
      Heard s message registry s.requests

def Allocates (s : Client) (created : Option Creation) : Prop :=
  ∀ c, created = some c → registryValidId c.uuid = true ∧ s.Fresh c.uuid ∧
    s.node.datalinks c.endpoint = none ∧ s.node.datahubs c.endpoint = none

inductive Act (J : Type) where
  | receive (delivery : Delivery J)
  | openDatalink (sent : Bool) (name topic : CStr) (created : Option Creation)
  | openDatahub (sent : Bool) (name topic : CStr) (created : Option Creation)
  | closeDatalink (link : Endpoint)
  | closeDatahub (hub : Endpoint)

def opening (opened : Option (Endpoint × Sent)) : Sent := (opened.map Prod.snd).getD []

inductive Step : Client → Act J → Client → Prop where
  | receive {s : Client} {d : Delivery J} {node : Node} {registry : Registry} {requests : Sent} :
      Receives L s.node d node → Heard L s d.message registry requests →
      Step s (.receive d) ⟨node, registry, requests⟩
  | openDatalink {s : Client} {sent : Bool} {name topic : CStr} {created : Option Creation}
      {node : Node} {opened : Option (Endpoint × Sent)} : s.Allocates created →
      proxyOpenDatalink false sent s.node name topic created = some (node, opened) →
      Step s (.openDatalink sent name topic created) ⟨node, s.registry, s.requests ++ opening opened⟩
  | openDatahub {s : Client} {sent : Bool} {name topic : CStr} {created : Option Creation}
      {node : Node} {opened : Option (Endpoint × Sent)} : s.Allocates created →
      proxyOpenDatahub false sent s.node name topic created = some (node, opened) →
      Step s (.openDatahub sent name topic created) ⟨node, s.registry, s.requests ++ opening opened⟩
  | closeDatalink {s : Client} {link : Endpoint} {node : Node} {requests : Sent} :
      s.node.datalinks link ≠ none →
      proxyCloseDatalink false true s.node link = some (node, requests) →
      Step s (.closeDatalink link) ⟨node, s.registry, s.requests ++ requests⟩
  | closeDatahub {s : Client} {hub : Endpoint} {node : Node} {requests : Sent} :
      s.node.datahubs hub ≠ none →
      proxyCloseDatahub false true s.node hub = some (node, requests) →
      Step s (.closeDatahub hub) ⟨node, s.registry, s.requests ++ requests⟩

/-! ## What links point at -/

def addrOfHub (registry : Registry) (topic : CStr) : Option Addr :=
  (registry.find? (onTopic topic .datahub)).bind Entry.addr

/-- Every live link is a link of some topic, and sends to the hub registered on it. -/
def PointsAtHub (s : Client) : Prop :=
  ∀ p link, s.node.datalinks p = some link →
    (∃ topic, LinkOf s.node.proxy.registry topic p) ∧
      ∀ topic, LinkOf s.node.proxy.registry topic p → link.remoteAddr = addrOfHub s.registry topic

/-- A hub whose registration is known is closed when no link of its topic sends to it, and an
entry that gets a new address is not a hub that the node has links for. -/
def Untargeted (s : Client) : Act J → Prop
  | .closeDatahub hub => ∀ f ∈ s.node.proxy.registry, f.type = .datahub → f.endpoint = some hub →
      f.remote ∈ s.registry → ∀ p link, s.node.datalinks p = some link →
        LinkOf s.node.proxy.registry f.topic p → link.remoteAddr ≠ f.addr
  | .receive d => ∀ id addr, Carries L d.message (.updateAddress id addr) →
      ∀ f ∈ s.node.proxy.registry, f.type = .datahub → f.id = id →
        ∀ p, ¬LinkOf s.node.proxy.registry f.topic p
  | _ => True

/-- The addresses that a link of the topic may have while requests are pending. -/
def Aims (known registry : Registry) (requests : Sent) (topic : CStr) (a : Option Addr) : Prop :=
  (∃ e, Pending requests e ∧ onTopic topic .datahub e ∧ a = e.addr) ∨
    (∃ f ∈ known, onTopic topic .datahub f ∧ f.remote ∈ registry ∧ a = f.addr) ∨
      a = none ∧ ∀ f ∈ known, onTopic topic .datahub f → f.remote ∉ registry

structure Wired (node : Node) (registry : Registry) (requests : Sent) : Prop where
  locals : ∀ g ∈ node.proxy.registry, g.endpoint ≠ none → g.type = .datalink ∨ g.type = .datahub
  live : ∀ topic p, LinkOf node.proxy.registry topic p → node.datalinks p ≠ none
  sole : ∀ g ∈ node.proxy.registry, ∀ g' ∈ node.proxy.registry, g.type = .datalink →
    g'.type = .datalink → g.endpoint ≠ none → g.endpoint = g'.endpoint → g = g'
  entries : ∀ p link, node.datalinks p = some link → ∃ topic, LinkOf node.proxy.registry topic p
  aims : ∀ p link topic, node.datalinks p = some link → LinkOf node.proxy.registry topic p →
    Aims node.proxy.registry registry requests topic link.remoteAddr

variable {L}
section Aims
variable {known known' registry registry' : Registry} {requests requests' : Sent} {topic : CStr}
  {a : Option Addr}

theorem Aims.mono (h : Aims known registry requests topic a)
    (hpending : ∀ e, Pending requests e → onTopic topic .datahub e → Pending requests' e)
    (hknown : ∀ f, onTopic topic .datahub f →
      ((f ∈ known' ∧ f.remote ∈ registry') ↔ f ∈ known ∧ f.remote ∈ registry)) :
    Aims known' registry' requests' topic a := by
  rcases h with ⟨e, he, hon, ha⟩ | ⟨f, hf, hon, hmem, ha⟩ | ⟨ha, hnone⟩
  · exact .inl ⟨e, hpending e he hon, hon, ha⟩
  · obtain ⟨hf', hmem'⟩ := (hknown f hon).2 ⟨hf, hmem⟩
    exact .inr (.inl ⟨f, hf', hon, hmem', ha⟩)
  · refine .inr (.inr ⟨ha, fun f hf hon hmem => ?_⟩)
    obtain ⟨hf, hmem⟩ := (hknown f hon).1 ⟨hf, hmem⟩
    exact hnone f hf hon hmem

theorem Book.aims (h : Book known registry requests) {f : Entry} (hf : f ∈ known)
    (hon : onTopic topic .datahub f) : Aims known registry requests topic f.addr := by
  rcases h.backed f hf with hmem | ⟨_, hp⟩
  · exact .inr (.inl ⟨f, hf, hon, hmem, rfl⟩)
  · exact .inl ⟨f, hp, hon, rfl⟩

/-- When nothing is pending, the address is the one of the registered hub. -/
theorem Aims.settled (h : Aims known registry [] topic a) (hbook : Book known registry [])
    (hone : OneHub topic registry) : a = addrOfHub registry topic := by
  unfold addrOfHub
  cases hfind : registry.find? (onTopic topic .datahub) with
  | none =>
    have hnone := List.find?_eq_none.1 hfind
    rcases h with ⟨e, he, _⟩ | ⟨f, _, hon, hmem, _⟩ | ⟨ha, _⟩
    · exact absurd he.2 List.not_mem_nil
    · exact absurd hon (hnone f.remote hmem)
    · rw [ha, Option.bind_none]
  | some x =>
    have hx := List.mem_of_find?_eq_some hfind
    have hxt := List.find?_some hfind
    rw [Option.bind_some]
    rcases h with ⟨e, he, _⟩ | ⟨f, _, hon, hmem, ha⟩ | ⟨_, hnone⟩
    · exact absurd he.2 List.not_mem_nil
    · rw [ha, ← oneHub_eq hone hmem hx hon hxt]
      exact Eq.refl f.addr
    · rcases hbook.hubs x hx (onTopic_iff.1 hxt).1 with ⟨g, hg, hgx⟩ | hr | hr | ⟨e, he, _⟩
      · have hon : onTopic topic .datahub g = true := by
          rw [← onTopic_remote, hgx]
          exact hxt
        exact absurd (hgx ▸ hx) (hnone g hg hon)
      · exact absurd hr List.not_mem_nil
      · exact absurd hr List.not_mem_nil
      · exact absurd he.2 List.not_mem_nil

end Aims

/-! ## Events -/

theorem linkOf_iff {r r' : Registry} (h : ∀ g, g.endpoint ≠ none → (g ∈ r' ↔ g ∈ r)) (topic : CStr)
    (p : Endpoint) : LinkOf r' topic p ↔ LinkOf r topic p := by
  have hne : ∀ g : Entry, g.endpoint = some p → g.endpoint ≠ none := fun g hg => by simp [hg]
  constructor
  · intro ⟨g, hg, hon, hend⟩
    exact ⟨g, (h g (hne g hend)).1 hg, hon, hend⟩
  · intro ⟨g, hg, hon, hend⟩
    exact ⟨g, (h g (hne g hend)).2 hg, hon, hend⟩

theorem Wired.topic_eq {node : Node} {registry : Registry} {requests : Sent}
    (h : Wired node registry requests) {topic topic' : CStr} {p : Endpoint}
    (hp : LinkOf node.proxy.registry topic p) (hp' : LinkOf node.proxy.registry topic' p) :
    topic = topic' := by
  obtain ⟨g, hg, hon, hend⟩ := hp
  obtain ⟨g', hg', hon', hend'⟩ := hp'
  obtain ⟨htype, htopic⟩ := onTopic_iff.1 hon
  obtain ⟨htype', htopic'⟩ := onTopic_iff.1 hon'
  have heq := h.sole g hg g' hg' htype htype' (by simp [hend]) (hend.trans hend'.symm)
  rw [← htopic, ← htopic', heq]

/-- An event leaves the node's own entries; links that it does not set keep an address that is
still right, and those that it sets get one. -/
theorem Wired.hears {node node' : Node} {proxy : Proxy} {registry registry' : Registry}
    {requests requests' : Sent} {es : List Effect} (h : Wired node registry requests)
    (hperform : performAll { node with proxy := proxy } es = some node')
    (hlocal : ∀ g, g.endpoint ≠ none → (g ∈ proxy.registry ↔ g ∈ node.proxy.registry))
    (hkeep : ∀ p topic, LinkOf node.proxy.registry topic p → (∀ a, .datalinkSetRemoteAddr p a ∉ es) →
      ∀ a, Aims node.proxy.registry registry requests topic a →
        Aims proxy.registry registry' requests' topic a)
    (hset : ∀ p a, .datalinkSetRemoteAddr p a ∈ es → ∃ topic, LinkOf node.proxy.registry topic p ∧
      Aims proxy.registry registry' requests' topic a) : Wired node' registry' requests' := by
  have hproxy : node'.proxy = proxy := (performAll_spec hperform).1
  have hlinks := performAll_links hperform
  have hmem : ∀ g ∈ node'.proxy.registry, g.endpoint ≠ none → g ∈ node.proxy.registry :=
    fun g hg hend => (hlocal g hend).1 (hproxy ▸ hg)
  have hlinkOf : ∀ topic p, LinkOf node'.proxy.registry topic p ↔ LinkOf node.proxy.registry topic p :=
    fun topic p => by rw [hproxy, linkOf_iff hlocal]
  constructor
  · exact fun g hg hend => h.locals g (hmem g hg hend) hend
  · intro topic p hp
    have hlive := h.live topic p ((hlinkOf topic p).1 hp)
    rcases hlinks p with ⟨heq, _⟩ | ⟨a, link, _, _, hlast⟩
    · rw [heq]
      exact hlive
    · simp [hlast]
  · intro g hg g' hg' htype htype' hend heq
    exact h.sole g (hmem g hg hend) g' (hmem g' hg' (heq ▸ hend)) htype htype' hend heq
  · intro p link hp
    have hold : ∃ link, node.datalinks p = some link := by
      rcases hlinks p with ⟨heq, _⟩ | ⟨a, link, _, hlink, _⟩
      · exact ⟨link, heq ▸ hp⟩
      · exact ⟨link, hlink⟩
    obtain ⟨link, hlink⟩ := hold
    obtain ⟨topic, htopic⟩ := h.entries p link hlink
    exact ⟨topic, (hlinkOf topic p).2 htopic⟩
  · intro p link topic hp htopic
    have htopic := (hlinkOf topic p).1 htopic
    rw [hproxy]
    rcases hlinks p with ⟨heq, hnone⟩ | ⟨a, link', ha, _, hlast⟩
    · exact hkeep p topic htopic hnone _ (h.aims p link topic (heq ▸ hp) htopic)
    · obtain ⟨topic', htopic', haims⟩ := hset p a ha
      obtain rfl := Option.some.inj (hlast.symm.trans hp)
      exact h.topic_eq htopic htopic' ▸ haims

end Client
end Rcom
