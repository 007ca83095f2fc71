import Rcom.Proxy
import Rcom.Datahub

/-!
# The data hubs and data links of a node (proxy.c, second part)

Next to the proxy the node keeps what the wiring of its endpoints consists of: the links of
each live hub, and the address each live data link sends to. An endpoint that is not live
has been deleted, and using it is undefined behaviour. Everything else about an endpoint is
in datahub.c and datalink.c.
-/

namespace Rcom
open Rcom.Lib Rcom.Addr Rcom.RegistryEntry Rcom.Registry Rcom.Proxy Rcom.Datahub

structure Datalink where
  addr : Addr
  remoteAddr : Option Addr

structure Node where
  proxy : Proxy
  datahubs : Endpoint → Option (List Addr)
  datalinks : Endpoint → Option Datalink

/-- What the system gives to a new endpoint: its pointer, the address of its socket and the
identifier of its entry. -/
structure Creation where
  endpoint : Endpoint
  addr : Addr
  uuid : CStr

/-! ## Entries of a topic -/

namespace Proxy

def onTopic (topic : CStr) (type : EntryType) (e : Entry) : Bool := e.type = type && e.topic = topic

theorem onTopic_iff {topic : CStr} {type : EntryType} {e : Entry} :
    onTopic topic type e = true ↔ e.type = type ∧ e.topic = topic := by
  simp [onTopic]

theorem select_onTopic (registry : Registry) (topic : CStr) (type : EntryType) :
    registrySelect registry (ofTopic topic type) =
      some ((registry.filter (onTopic topic type)).map cloneEntry).reverse := by
  have hpicks : picks (ofTopic topic type) = onTopic topic type := by
    funext e
    simp [picks, ofTopic, agrees, onTopic, eq_comm]
  rw [registrySelect_eq rfl, hpicks]

end Proxy

namespace Node

def newNode : Node := ⟨newProxy, fun _ => none, fun _ => none⟩

/-- `addr` is not NULL where this is used. -/
def linkHub (node : Node) (hub : Endpoint) (addr : Option Addr) : Exec Node :=
  match node.datahubs hub, addr with
  | some links, some addr =>
    some { node with datahubs := Function.update node.datahubs hub (some (datahubAddLink links addr)) }
  | _, _ => none

def datalinkSetRemoteAddr (node : Node) (link : Endpoint) (addr : Option Addr) : Exec Node :=
  match node.datalinks link with
  | none => none
  | some l =>
    some { node with datalinks := Function.update node.datalinks link (some { l with remoteAddr := addr }) }

def perform (node : Node) : Effect → Exec Node
  | .datahubAddLink hub addr => linkHub node hub addr
  | .datalinkSetRemoteAddr link addr => datalinkSetRemoteAddr node link addr
  | .streamerlinkSetRemote _ _ => some node
  | .send _ => some node
  | .quit => some node

def performAll : Node → List Effect → Exec Node
  | node, [] => some node
  | node, e :: es => (perform node e).bind fun node => performAll node es

/-- `proxy_onmessage`, with what it does to the endpoints. -/
def onmessage {J : Type} (L : JsonLib J) (node : Node) (outcomes : List Outcome) (message : J) :
    Exec Node :=
  (proxyOnmessage L node.proxy outcomes message).bind
    fun (proxy, es) => performAll { node with proxy := proxy } es

/-! ## Entries of the node's own endpoints -/

/-- The requests of a node, in the order it sends them. -/
abbrev Sent := List Request

/-- A stand-alone node sends nothing. `sent` is the outcome of `messagelink_send_f`. -/
def proxySendRegisterRequest (standalone sent : Bool) (entry : Entry) : Bool × Sent :=
  if standalone then (true, [])
  else if sent then
    (true, [.register entry.id entry.name entry.topic (registryTypeToStr entry.type)
      (addrString entry.addr)])
  else (false, [])

def proxySendUnregisterRequest (standalone sent : Bool) (entry : Entry) : Sent :=
  if !standalone && sent then [.unregister entry.id] else []

/-- The entry and the requests, or no entry. -/
def proxyNewEntry (standalone sent : Bool) (proxy : Proxy) (name topic : CStr) (type : EntryType)
    (created : Creation) : Proxy × Option (Entry × Sent) :=
  if !registryValidName name then (proxy, none)
  else if !registryValidTopic topic then (proxy, none)
  else
    match newRegistryEntry created.uuid name topic type (some created.addr) (some created.endpoint) with
    | none => (proxy, none)
    | some entry =>
      match registryInsertEntry proxy.registry entry with
      | none => (proxy, none)
      | some registry =>
        match proxySendRegisterRequest standalone sent entry with
        | (true, requests) => ({ proxy with registry := registry }, some (entry, requests))
        | (false, _) =>
          ({ proxy with registry := (registryDelete registry entry.id).getD registry }, none)

/-- Deletes the newest entry of the endpoint. -/
def proxyDeleteEntry (standalone sent : Bool) (proxy : Proxy) (type : EntryType)
    (endpoint : Endpoint) : Exec (Proxy × Sent) :=
  match registrySelect proxy.registry ⟨none, none, none, some type, none, some endpoint⟩ with
  | none => none
  | some [] => some (proxy, [])
  | some (none :: _) => none
  | some (some entry :: _) =>
    some ({ proxy with registry := (registryDelete proxy.registry entry.id).getD proxy.registry },
      proxySendUnregisterRequest standalone sent entry)

/-! ## Opening and closing -/

/-- A new link sends to the newest hub of its topic. Nothing is created when there is no
socket for it. -/
def proxyOpenDatalink (standalone sent : Bool) (node : Node) (name topic : CStr) :
    Option Creation → Exec (Node × Option (Endpoint × Sent))
  | none => some (node, none)
  | some created =>
  match proxyNewEntry standalone sent node.proxy name topic .datalink created with
  | (proxy, none) => some ({ node with proxy := proxy }, none)
  | (proxy, some (entry, requests)) =>
    let link (remoteAddr : Option Addr) : Node :=
      { node with
        proxy := proxy
        datalinks := Function.update node.datalinks created.endpoint (some ⟨created.addr, remoteAddr⟩) }
    match registrySelect proxy.registry (ofTopic entry.topic .datahub) with
    | none => none
    | some [] => some (link none, some (created.endpoint, requests))
    | some (none :: _) => none
    | some (some e :: _) => some (link e.addr, some (created.endpoint, requests))

/-- The loop of `proxy_open_datahub` over the copies of the links. -/
def addLinks : List (Option Entry) → List Addr → Exec (List Addr)
  | [], links => some links
  | none :: _, _ => none
  | some e :: l, links =>
    match e.addr with
    | none => none
    | some addr => addLinks l (datahubAddLink links addr)

/-- A new hub gets every link of its topic. -/
def proxyOpenDatahub (standalone sent : Bool) (node : Node) (name topic : CStr) :
    Option Creation → Exec (Node × Option (Endpoint × Sent))
  | none => some (node, none)
  | some created =>
  match proxyNewEntry standalone sent node.proxy name topic .datahub created with
  | (proxy, none) => some ({ node with proxy := proxy }, none)
  | (proxy, some (entry, requests)) =>
    ((registrySelect proxy.registry (ofTopic entry.topic .datalink)).bind
      fun entries => addLinks entries []).map fun links =>
        ({ node with
            proxy := proxy
            datahubs := Function.update node.datahubs created.endpoint (some links) },
          some (created.endpoint, requests))

def proxyCloseDatalink (standalone sent : Bool) (node : Node) (link : Endpoint) :
    Exec (Node × Sent) :=
  (proxyDeleteEntry standalone sent node.proxy .datalink link).map fun (proxy, requests) =>
    ({ node with proxy := proxy, datalinks := Function.update node.datalinks link none }, requests)

def proxyCloseDatahub (standalone sent : Bool) (node : Node) (hub : Endpoint) :
    Exec (Node × Sent) :=
  (proxyDeleteEntry standalone sent node.proxy .datahub hub).map fun (proxy, requests) =>
    ({ node with proxy := proxy, datahubs := Function.update node.datahubs hub none }, requests)

/-! ## Specifications -/

def entryOf (name topic : CStr) (type : EntryType) (created : Creation) : Entry :=
  ⟨created.uuid, name, topic, type, some created.addr, some created.endpoint⟩

theorem proxyNewEntry_cases {standalone sent : Bool} {proxy proxy' : Proxy} {name topic : CStr}
    {type : EntryType} {created : Creation} {entry : Entry} {requests : Sent}
    (h : proxyNewEntry standalone sent proxy name topic type created =
      (proxy', some (entry, requests))) :
    registryValidName name = true ∧ registryValidTopic topic = true ∧
      entry = entryOf name topic type created ∧
      proxy' = { proxy with registry := proxy.registry ++ [entry] } ∧
      (true, requests) = proxySendRegisterRequest standalone sent entry := by
  unfold proxyNewEntry at h
  cases hname : registryValidName name <;> cases htopic : registryValidTopic topic <;>
    simp only [hname, htopic, Bool.not_false, Bool.not_true, if_true, if_false, Bool.false_eq_true,
      Prod.mk.injEq, reduceCtorEq, and_false] at h
  have hinsert := registryInsertEntry_eq proxy.registry
    (e := entryOf name topic type created) (Option.some_ne_none _)
  simp only [newRegistryEntry, entryOf] at h hinsert
  simp only [hinsert] at h
  split at h
  · next hsend =>
    simp only [Prod.mk.injEq, Option.some.injEq] at h
    obtain ⟨rfl, rfl, rfl⟩ := h
    exact ⟨rfl, rfl, rfl, rfl, hsend.symm⟩
  · simp at h

/-- `proxy_new_entry` up to the insertion. -/
def insertEntry (proxy : Proxy) (name topic : CStr) (type : EntryType) (created : Creation) :
    Proxy × Option Entry :=
  if !registryValidName name then (proxy, none)
  else if !registryValidTopic topic then (proxy, none)
  else
    match newRegistryEntry created.uuid name topic type (some created.addr) (some created.endpoint) with
    | none => (proxy, none)
    | some entry =>
      match registryInsertEntry proxy.registry entry with
      | none => (proxy, none)
      | some inserted => ({ proxy with registry := inserted }, some entry)

/-- The rest of it: an entry whose request cannot be sent is deleted. -/
def registerEntry (sent : Bool) (proxy : Proxy) (entry : Entry) : Proxy × Sent :=
  match proxySendRegisterRequest false sent entry with
  | (true, requests) => (proxy, requests)
  | (false, _) =>
    ({ proxy with registry := (registryDelete proxy.registry entry.id).getD proxy.registry }, [])

/-- `proxy_delete_entry` up to the deletion. -/
def removeEntry (proxy : Proxy) (type : EntryType) (endpoint : Endpoint) : Exec (Proxy × Option Entry) :=
  match registrySelect proxy.registry ⟨none, none, none, some type, none, some endpoint⟩ with
  | none => none
  | some [] => some (proxy, none)
  | some (none :: _) => none
  | some (some entry :: _) =>
    some ({ proxy with registry := (registryDelete proxy.registry entry.id).getD proxy.registry },
      some entry)

theorem registerEntry_sent (proxy : Proxy) (entry : Entry) : registerEntry true proxy entry =
    (proxy, [.register entry.id entry.name entry.topic (registryTypeToStr entry.type)
      (addrString entry.addr)]) := rfl

theorem registerEntry_unsent (proxy : Proxy) (entry : Entry) : registerEntry false proxy entry =
    ({ proxy with registry := proxy.registry.eraseP fun e => e.id = entry.id }, []) := by
  rw [← registryDelete_getD]
  rfl

theorem proxyNewEntry_eq (sent : Bool) (proxy : Proxy) (name topic : CStr) (type : EntryType)
    (created : Creation) :
    proxyNewEntry false sent proxy name topic type created =
      let inserted := insertEntry proxy name topic type created
      match inserted.2 with
      | none => (inserted.1, none)
      | some entry =>
        let registered := registerEntry sent inserted.1 entry
        (registered.1, if sent then some (entry, registered.2) else none) := by
  unfold proxyNewEntry insertEntry registerEntry proxySendRegisterRequest newRegistryEntry
  cases registryValidName name with
  | false => rfl
  | true =>
    cases registryValidTopic topic with
    | false => rfl
    | true => cases sent <;> rfl

theorem proxyDeleteEntry_eq (sent : Bool) (proxy : Proxy) (type : EntryType) (endpoint : Endpoint) :
    proxyDeleteEntry false sent proxy type endpoint =
      (removeEntry proxy type endpoint).map fun p =>
        (p.1, p.2.elim [] (proxySendUnregisterRequest false sent)) := by
  unfold proxyDeleteEntry removeEntry
  generalize registrySelect _ _ = selected
  rcases selected with _ | _ | ⟨_ | e, l⟩ <;> rfl

theorem insertEntry_cases (proxy : Proxy) (name topic : CStr) (type : EntryType) (created : Creation) :
    insertEntry proxy name topic type created = (proxy, none) ∨
      (registryValidName name = true ∧ registryValidTopic topic = true ∧
        insertEntry proxy name topic type created =
          ({ proxy with registry := proxy.registry ++ [entryOf name topic type created] },
            some (entryOf name topic type created))) := by
  unfold insertEntry
  cases registryValidName name with
  | false => exact .inl rfl
  | true =>
    cases registryValidTopic topic with
    | false => exact .inl rfl
    | true =>
      have hinsert := registryInsertEntry_eq proxy.registry (e := entryOf name topic type created)
        (Option.some_ne_none _)
      refine .inr ⟨rfl, rfl, ?_⟩
      simp only [newRegistryEntry, entryOf] at hinsert ⊢
      simp only [hinsert]
      rfl

theorem removeEntry_cases {proxy proxy' : Proxy} {type : EntryType} {endpoint : Endpoint}
    {entry : Option Entry} (h : removeEntry proxy type endpoint = some (proxy', entry)) :
    (proxy' = proxy ∧ entry = none ∧
        ∀ e ∈ proxy.registry, e.type = type → e.endpoint ≠ some endpoint) ∨
      ∃ e ∈ proxy.registry, e.type = type ∧ e.endpoint = some endpoint ∧ entry = some e ∧
        proxy' = { proxy with registry := proxy.registry.eraseP fun f => f.id = e.id } := by
  rw [removeEntry, registrySelect_eq rfl] at h
  have hpicks : ∀ g, picks ⟨none, none, none, some type, none, some endpoint⟩ g = true ↔
      g.type = type ∧ g.endpoint = some endpoint := by
    intro g
    simp only [picks, agrees, Option.all_none, Option.all_some, Bool.true_and, Bool.and_true,
      Bool.and_eq_true, decide_eq_true_eq]
    exact ⟨fun hg => ⟨hg.1.symm, hg.2.symm⟩, fun hg => ⟨hg.1.symm, hg.2.symm⟩⟩
  split at h
  · cases h
  · next hnil =>
    cases h
    refine .inl ⟨rfl, rfl, fun g hg htype hend => ?_⟩
    exact none_of_no_copies (Option.some.inj hnil) g hg ((hpicks g).2 ⟨htype, hend⟩)
  · cases h
  · next g l hcons =>
    cases h
    obtain ⟨hg, hpick⟩ := mem_of_first_copy (Option.some.inj hcons)
    obtain ⟨htype, hend⟩ := (hpicks g).1 hpick
    exact .inr ⟨g, hg, htype, hend, rfl, by rw [registryDelete_getD]⟩

theorem proxyNewEntry_standalone {sent : Bool} {proxy : Proxy} {name topic : CStr}
    {type : EntryType} {created : Creation} (hname : registryValidName name = true)
    (htopic : registryValidTopic topic = true) :
    proxyNewEntry true sent proxy name topic type created =
      ({ proxy with registry := proxy.registry ++ [entryOf name topic type created] },
        some (entryOf name topic type created, [])) := by
  have hinsert := registryInsertEntry_eq proxy.registry
    (e := entryOf name topic type created) (Option.some_ne_none _)
  simp only [entryOf] at hinsert
  simp [proxyNewEntry, hname, htopic, newRegistryEntry, proxySendRegisterRequest, entryOf, hinsert]

theorem proxyNewEntry_invalid {standalone sent : Bool} {proxy : Proxy} {name topic : CStr}
    {type : EntryType} {created : Creation}
    (h : (registryValidName name && registryValidTopic topic) = false) :
    proxyNewEntry standalone sent proxy name topic type created = (proxy, none) := by
  cases hname : registryValidName name <;> cases htopic : registryValidTopic topic <;>
    simp_all [proxyNewEntry]

theorem mem_datahubAddLink {links : List Addr} {addr a : Addr} :
    a ∈ datahubAddLink links addr ↔ a ∈ links ∨ a = addr := by
  unfold datahubAddLink
  split_ifs with hfind
  · rw [datahubFind_iff] at hfind
    constructor
    · exact Or.inl
    · intro h
      rcases h with h | h
      · exact h
      · exact h ▸ hfind
  · rw [List.mem_append, List.mem_singleton]

theorem nodup_datahubAddLink {links : List Addr} (h : links.Nodup) (addr : Addr) :
    (datahubAddLink links addr).Nodup := by
  unfold datahubAddLink
  split_ifs with hfind
  · exact h
  · rw [datahubFind_iff] at hfind
    exact List.nodup_append.2 ⟨h, List.nodup_singleton _, fun a ha b hb hab =>
      hfind (List.mem_singleton.1 hb ▸ hab ▸ ha)⟩

theorem addLinks_some {l : List (Option Entry)} {links links' : List Addr}
    (h : addLinks l links = some links') :
    (links.Nodup → links'.Nodup) ∧
      ∀ a, a ∈ links' ↔ a ∈ links ∨ ∃ e, some e ∈ l ∧ e.addr = some a := by
  induction l generalizing links with
  | nil =>
    obtain rfl : links = links' := Option.some.inj h
    simp
  | cons e l ih =>
    match e with
    | none => simp [addLinks] at h
    | some e =>
      cases haddr : e.addr with
      | none => simp [addLinks, haddr] at h
      | some addr =>
        simp only [addLinks, haddr] at h
        obtain ⟨hnodup, hmem⟩ := ih h
        refine ⟨fun hlinks => hnodup (nodup_datahubAddLink hlinks addr), fun a => ?_⟩
        rw [hmem, mem_datahubAddLink]
        constructor
        · intro h
          rcases h with (h | h) | ⟨f, hf, ha⟩
          · exact .inl h
          · exact .inr ⟨e, List.mem_cons_self, h ▸ haddr⟩
          · exact .inr ⟨f, List.mem_cons_of_mem _ hf, ha⟩
        · intro h
          rcases h with h | ⟨f, hf, ha⟩
          · exact .inl (.inl h)
          · rcases List.mem_cons.1 hf with hf | hf
            · cases hf
              exact .inl (.inr (Option.some.inj (ha.symm.trans haddr)))
            · exact .inr ⟨f, hf, ha⟩

theorem addLinks_isSome {l : List Entry} (h : ∀ e ∈ l, e.addr ≠ none) (links : List Addr) :
    (addLinks (l.map some) links).isSome := by
  induction l generalizing links with
  | nil => rfl
  | cons e l ih =>
    obtain ⟨a, ha⟩ := Option.ne_none_iff_exists'.1 (h e List.mem_cons_self)
    simp only [List.map_cons, addLinks, ha]
    exact ih (fun f hf => h f (List.mem_cons_of_mem _ hf)) _

end Node
end Rcom
