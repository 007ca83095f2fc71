import Rcom.Listener
import Rcom.RegistryTexts

/-!
# A listening proxy next to the central registry

The registry handles the requests of its clients one after the other, and a proxy without
endpoints of its own receives each event before the next request. The two lists are the
same as long as no entry is registered that the proxy takes for one it knows already.
-/

namespace Rcom.Replica
open Rcom.Lib Rcom.Lib.Json Rcom.Lib.Trace Rcom.Addr Rcom.RegistryEntry Rcom.Registry
open Rcom.RcRegistry Rcom.Proxy
variable {J : Type} (L : JsonLib J)

structure State where
  registry : Registry
  proxy : Proxy

def delivered (link : LinkId) (outs : List (Output J)) : List (Text J) :=
  outs.filterMap fun
    | .send l text => if l = link then some text else none
    | .broadcast exclude text => if exclude = some link then none else some text

theorem delivered_cons (link : LinkId) (o : Output J) (outs : List (Output J)) :
    delivered link (o :: outs) = delivered link [o] ++ delivered link outs := by
  simp only [delivered, List.filterMap_cons, List.filterMap_nil]
  split <;> rfl

/-- The proxy has no links to connect, so it needs no outcomes. -/
def receive : Proxy → List (Text J) → Exec Proxy
  | proxy, [] => some proxy
  | proxy, text :: texts =>
    (proxyOnmessage L proxy [] (L.jsonParse (textBytes L text))).bind fun p => receive p.1 texts

/-- The registry handles a message, and the proxy behind `link` what follows from it. -/
def replicate (link : LinkId) (s : Exec State) (m : Message J) : Exec State :=
  s.bind fun x =>
    (rcregistryOnmessage L x.registry m.link m.body).bind fun p =>
      (receive L x.proxy (delivered link p.2)).map fun proxy => ⟨p.1, proxy⟩

/-- The clients are the others; a listening proxy sends no requests. -/
def Replicates (link : LinkId) (s : Exec State) (m : Message J) (t : Exec State) : Prop :=
  m.link ≠ link ∧ t = replicate L link s m

def Agree (x : State) : Prop :=
  ∀ e, e ∈ x.registry.map Entry.remote ↔ e ∈ x.proxy.registry.map Entry.remote

structure Followed (r : Registry) (message : J) : Prop where
  usable : AddressesUsable L r message
  plain : ∀ id addr, Updates L message id addr → Plain id ∧ Plain addr
  unlike : ∀ e, Registers L message e → ∀ f ∈ r, f.key ≠ e.key

structure InStep (x : State) : Prop where
  wellFormed : WellFormed x.registry
  same : x.proxy.registry = x.registry.map Entry.remote

variable {L}

theorem InStep.agree {x : State} (h : InStep x) : Agree x := by
  intro e
  have hremote : Entry.remote ∘ Entry.remote = Entry.remote := rfl
  rw [h.same, List.map_map, hremote]

theorem listening_remote {r : Registry} (h : WellFormed r) : Listening (r.map Entry.remote) := by
  intro f hf
  obtain ⟨e, he, rfl⟩ := List.mem_map.1 hf
  exact ⟨rfl, (h e he).addr⟩

theorem holds_remote {r : Registry} {id : CStr} : Holds (r.map Entry.remote) id ↔ Holds r id := by
  simp [Holds, Entry.remote]

theorem receive_text {denote : Value → J} (hL : L.Lawful denote) {text : Text J} {v : Value}
    (h : decode (textBytes L text) = some v) (proxy : Proxy) :
    receive L proxy [text] = (proxyOnmessage L proxy [] (denote v)).map Prod.fst := by
  simp only [receive, hL.parse h]
  cases proxyOnmessage L proxy [] (denote v) <;> rfl

/-- Responses to others do not reach the proxy. -/
theorem delivered_send {link other : LinkId} (h : other ≠ link) (text : Text J) :
    delivered link [.send other text] = [] := by
  simp [delivered, h]

/-- Of a success and the event that goes with it the proxy gets the event. -/
theorem delivered_event {link other : LinkId} (h : other ≠ link) {exclude : Option LinkId}
    (hexclude : exclude ≠ some link) (req : CStr) (event : Text J) :
    delivered link [rcregistrySuccess other req, .broadcast exclude event] = [event] := by
  simp [delivered, rcregistrySuccess, h, hexclude]

/-- One message: the proxy does to its list what the registry has done to its own. -/
theorem InStep.handled {denote : Value → J} (hL : L.Lawful denote) {x : State} (hx : InStep x)
    {link : LinkId} {m : Message J} (hlink : m.link ≠ link) (hG : Followed L x.registry m.body)
    {r' : Registry} {outs : List (Output J)}
    (h : Handled L x.registry m.link m.body r' outs) :
    receive L x.proxy (delivered link outs) =
      some { x.proxy with registry := r'.map Entry.remote } := by
  have hlisten : Listening x.proxy.registry := hx.same ▸ listening_remote hx.wellFormed
  have hexclude : some m.link ≠ some link := fun h => hlink (Option.some.inj h)
  cases h with
  | ignored =>
    rw [delivered, List.filterMap_nil, receive, ← hx.same]
  | rejected | unregisterFailed =>
    rw [rcregistryFail, delivered_send hlink, receive, ← hx.same]
  | listed =>
    rw [delivered_send hlink, receive, ← hx.same]
  | @registered e h =>
    have hknown : e.remote.key ∉ x.proxy.registry.map Entry.key := by
      rw [hx.same, List.map_map, List.mem_map]
      rintro ⟨f, hf, hk⟩
      exact hG.unlike e h f hf hk
    have he := (registryEntryParse_ok h.2.2).1
    rw [delivered_event hlink (by simp), receive_text hL (decode_addText he),
      onmessage_add hL hlisten he, addUnknown, if_neg hknown, hx.same, List.map_append]
    rfl
  | @unregistered id h hh =>
    obtain ⟨e, he, rfl⟩ := hh
    have hid : Plain e.id := plain_of_validId (hx.wellFormed e he).id
    rw [delivered_event hlink (by simp), receive_text hL (decode_proxyRemove hid),
      onmessage_remove hL hlisten, hx.same, List.eraseP_map]
    rfl
  | @updatedNothing id addr h hh =>
    obtain ⟨hid, haddr⟩ := hG.plain _ _ h
    have hno : ¬ Holds x.proxy.registry id := by rwa [hx.same, holds_remote]
    rw [delivered_event hlink hexclude,
      receive_text hL (decode_proxyUpdateAddress hid haddr), onmessage_update hL,
      registryUpdateAddr_unknown hno, ← hx.same]
    rfl
  | @updated id addr a h hh hp =>
    obtain ⟨hid, haddr⟩ := hG.plain _ _ h
    have hknown : Holds x.proxy.registry id := by rwa [hx.same, holds_remote]
    have hmap := map_updateFirst Entry.remote (p := fun e => decide (e.id = id))
      (q := fun e => decide (e.id = id)) (f := setAddr (some a)) (k := setAddr (some a))
      (fun _ => rfl) (fun _ => rfl) x.registry
    rw [delivered_event hlink hexclude,
      receive_text hL (decode_proxyUpdateAddress hid haddr), onmessage_update hL,
      registryUpdateAddr_known hknown, hp, hx.same, hmap]
    rfl
  | updateFailed h hh hp =>
    obtain ⟨a, ha⟩ := hG.usable.update _ _ h hh
    rw [hp] at ha
    simp at ha

theorem InStep.replicate {denote : Value → J} (hL : L.Lawful denote) {x : State} (hx : InStep x)
    {link : LinkId} {m : Message J} {t : Exec State} (h : Replicates L link (some x) m t)
    (hG : Followed L x.registry m.body) : ∃ y, t = some y ∧ InStep y := by
  obtain ⟨hlink, rfl⟩ := h
  rcases serve_cases (L := L) x.registry m with hf | ⟨r', outs, hh⟩
  · exact absurd hf (not_faults_of_usable hx.wellFormed hG.usable)
  · refine ⟨⟨r', { x.proxy with registry := r'.map Entry.remote }⟩, ?_, ?_, rfl⟩
    · simp only [Replica.replicate, Option.bind_some, handled_iff.1 hh,
        hx.handled hL hlink hG hh, Option.map_some]
    · exact hh.wellFormed hx.wellFormed hG.usable

/-! ## The list reply -/

theorem jsonParse_list {denote : Value → J} (hL : L.Lawful denote) :
    L.jsonParse (requestBytes .list) = denote listRequest := by
  have hkey : Plain (ascii "request") := by decide
  have h : Reads _ listRequest := .obj (.last hkey (.space (.str (show Plain (ascii "list") by decide))))
  have hbytes : requestBytes .list = 123 :: 34 :: (ascii "request" ++ 34 :: 58 :: (32 :: (34 ::
      (ascii "list" ++ [34])) ++ [125])) := by decide
  rw [hbytes, hL.parse h.decode]

def idleLink (id : CStr) : Entry :=
  ⟨id, ascii "configuration", ascii "logger", .messagelink, some newAddr0, none⟩

def firstId : CStr := ascii "c4d06932-1552-4905-a6ed-f2c59350c0eb"

def secondId : CStr := ascii "289a0c98-6bed-4336-92b3-c04b806f36f1"

theorem hubEntry_wellFormed : WellFormed [hubEntry] :=
  newRcregistry_wellFormed (by decide) newRcregistry_hub

end Rcom.Replica
