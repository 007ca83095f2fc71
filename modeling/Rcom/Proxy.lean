import Rcom.Registry

/-!
# The proxy of a node (proxy.c)

Each node keeps a copy of the central registry in its proxy, together with the entries of
its own endpoints. A handler returns the proxy afterwards and what it did to the outside.
The outcomes of `client_messagelink_connect`, one for each call in order, are given to the
handlers from outside.
-/

namespace Rcom
open Rcom.Lib Rcom.Addr Rcom.RegistryEntry Rcom.Registry

inductive ProxyStatus where
  | initializing
  | ready
  | error
  deriving DecidableEq

structure Proxy where
  registry : Registry
  status : ProxyStatus

/-- The requests a proxy sends, with the arguments of their format strings. -/
inductive Request where
  | register (id name topic type addr : CStr)
  | unregister (id : CStr)
  | updateAddress (id addr : CStr)
  | list

inductive Effect where
  | datahubAddLink (hub : Endpoint) (addr : Option Addr)
  | datalinkSetRemoteAddr (link : Endpoint) (addr : Option Addr)
  | streamerlinkSetRemote (link : Endpoint) (addr : Option Addr)
  | send (request : Request)
  | quit

/-- `none` is an error, otherwise the address the link has once it is connected. -/
abbrev Outcome := Option (Option Addr)

namespace Proxy

def newProxy : Proxy := ⟨newRegistry, .initializing⟩

def requestBytes : Request → Bytes
  | .register id name topic type addr =>
    ascii "\x7b\"request\": \"register\",\"entry\": \x7b\"id\": \"" ++ id ++
      (ascii "\", \"name\": \"" ++ name ++
        (ascii "\", \"topic\": \"" ++ topic ++
          (ascii "\", \"type\": \"" ++ type ++
            (ascii "\", \"addr\": \"" ++ addr ++ ascii "\"\x7d\x7d"))))
  | .unregister id => ascii "\x7b\"request\": \"unregister\", \"id\": \"" ++ id ++ ascii "\"\x7d"
  | .updateAddress id addr =>
    ascii "\x7b\"request\": \"update-address\", \"id\": \"" ++ id ++
      (ascii "\", \"addr\": \"" ++ addr ++ ascii "\"\x7d")
  | .list => ascii "\x7b\"request\": \"list\"\x7d"

/-! ## Connections of the local endpoints -/

def ofTopic (topic : CStr) (type : EntryType) : Filter := ⟨none, none, some topic, some type, none, none⟩

/-- The endpoints of the local entries in a list of copies. The loops follow each copy, so
a NULL one is undefined behaviour. -/
def localEndpoints : List (Option Entry) → Exec (List Endpoint)
  | [] => some []
  | none :: _ => none
  | some e :: l => (localEndpoints l).map (e.endpoint.toList ++ ·)

def localsOfTopic (registry : Registry) (topic : CStr) (type : EntryType) :
    Exec (List Endpoint) :=
  (registrySelect registry (ofTopic topic type)).bind localEndpoints

def proxyConnectDatahub (registry : Registry) (entry : Entry) : Exec (List Effect) :=
  (localsOfTopic registry entry.topic .datalink).map
    fun links => links.map (.datalinkSetRemoteAddr · entry.addr)

/-- Only the first hub is looked at. -/
def proxyConnectDatalink (registry : Registry) (entry : Entry) : Exec (List Effect) :=
  ((registrySelect registry (ofTopic entry.topic .datahub)).bind
    fun list => localEndpoints (list.take 1)).map
      fun hubs => hubs.map (.datahubAddLink · entry.addr)

def proxyConnectStreamer (registry : Registry) (entry : Entry) : Exec (List Effect) :=
  (localsOfTopic registry entry.topic .streamerlink).map
    fun links => links.map (.streamerlinkSetRemote · entry.addr)

structure Connecting where
  registry : Registry
  outcomes : List Outcome
  effects : List Effect

/-- The loop of `proxy_connect_messagehub` over the copies of the links. -/
def connectLoop : List (Option Entry) → Connecting → Exec Connecting
  | [], c => some c
  | none :: _, _ => none
  | some e :: l, c =>
    match e.endpoint, c.outcomes with
    | none, _ => connectLoop l c
    | some _, [] => connectLoop l c
    | some _, none :: outcomes => connectLoop l { c with outcomes := outcomes }
    | some _, some addr :: outcomes =>
      let b := addrString addr
      match registryUpdateAddr c.registry e.id b with
      | none => none
      | some (registry, _) =>
        connectLoop l ⟨registry, outcomes, c.effects ++ [.send (.updateAddress e.id b)]⟩

def proxyConnectMessagehub (c : Connecting) (entry : Entry) : Exec Connecting :=
  (registrySelect c.registry (ofTopic entry.topic .messagelink)).bind fun list => connectLoop list c

def proxyAddConnection (c : Connecting) (entry : Entry) : Exec Connecting :=
  match entry.type with
  | .datalink =>
    (proxyConnectDatalink c.registry entry).map fun es => { c with effects := c.effects ++ es }
  | .datahub =>
    (proxyConnectDatahub c.registry entry).map fun es => { c with effects := c.effects ++ es }
  | .messagehub => proxyConnectMessagehub c entry
  | .streamer =>
    (proxyConnectStreamer c.registry entry).map fun es => { c with effects := c.effects ++ es }
  | .messagelink | .service | .streamerlink => some c

/-- The cases of data links and message hubs break before they do anything. -/
def proxyRemoveConnection (registry : Registry) (entry : Entry) : Exec (List Effect) :=
  match entry.type with
  | .datahub =>
    (localsOfTopic registry entry.topic .datalink).map
      fun links => links.map (.datalinkSetRemoteAddr · none)
  | _ => some []

/-! ## Events and responses -/

section Handlers
variable {J : Type} (L : JsonLib J)

def countLike (registry : Registry) (entry : Entry) : Exec ℕ :=
  registryCount registry ⟨none, some entry.name, some entry.topic, some entry.type, entry.addr, none⟩

def proxyHandleRegisterAdd (proxy : Proxy) (outcomes : List Outcome) (message : J) :
    Exec (Proxy × List Effect) :=
  let obj := L.jsonObjectGet message (ascii "entry")
  if L.jsonIsnull obj then some (proxy, [])
  else
    match registryEntryParse L obj with
    | none => none
    | some (.error _) => some (proxy, [])
    | some (.ok entry) =>
    match countLike proxy.registry entry with
    | none => none
    | some count =>
    match if count = 0 then registryInsertEntry proxy.registry entry else some proxy.registry with
    | none => some (proxy, [])
    | some registry =>
      (proxyAddConnection ⟨registry, outcomes, []⟩ entry).map
        fun c => ({ proxy with registry := c.registry }, c.effects)

/-- The copy that `registry_get` makes of an entry without address is NULL: such an entry
is not removed. -/
def proxyHandleRegisterRemove (proxy : Proxy) (message : J) : Exec (Proxy × List Effect) :=
  match L.jsonObjectGetstr message (ascii "id") with
  | none => some (proxy, [])
  | some id =>
    match registryGet proxy.registry id with
    | none => some (proxy, [])
    | some entry =>
      let registry := (registryDelete proxy.registry id).getD proxy.registry
      (proxyRemoveConnection registry entry).map
        fun es => ({ proxy with registry := registry }, es)

def proxyHandleUpdateAddress (proxy : Proxy) (message : J) : Exec (Proxy × List Effect) :=
  match L.jsonObjectGetstr message (ascii "id") with
  | none => some (proxy, [])
  | some id =>
  match L.jsonObjectGetstr message (ascii "addr") with
  | none => some (proxy, [])
  | some addr =>
    (registryUpdateAddr proxy.registry id addr).map
      fun p => ({ proxy with registry := p.1 }, [])

def entryEquals (entry e : Entry) : Exec Bool :=
  if e.type = entry.type ∧ e.name = entry.name ∧ e.topic = entry.topic then
    match e.addr, entry.addr with
    | some a, some b => some (addrEq a b)
    | _, _ => none
  else some false

def listContains : List Entry → Entry → Exec Bool
  | [], _ => some false
  | f :: l, e =>
    match entryEquals e f with
    | none => none
    | some true => some true
    | some false => listContains l e

/-- The first loop of `proxy_handle_update_list`. -/
def addMissing : List Entry → Registry → Exec Registry
  | [], registry => some registry
  | e :: l, registry =>
    match countLike registry e with
    | none => none
    | some 0 => addMissing l ((registryInsertEntry registry e).getD registry)
    | some _ => addMissing l registry

/-- The second loop of `proxy_handle_update_list`; entries with an endpoint are kept. -/
def removeVanished (remoteEntries : List Entry) : List (Option Entry) → Registry → Exec Registry
  | [], registry => some registry
  | none :: _, _ => none
  | some e :: l, registry =>
    match listContains remoteEntries e with
    | none => none
    | some true => removeVanished remoteEntries l registry
    | some false =>
      if e.endpoint.isSome then removeVanished remoteEntries l registry
      else removeVanished remoteEntries l ((registryDelete registry e.id).getD registry)

/-- The last loop of `proxy_handle_update_list`. -/
def connectAll : List (Option Entry) → Connecting → Exec Connecting
  | [], c => some c
  | none :: _, _ => none
  | some e :: l, c => (proxyAddConnection c e).bind (connectAll l)

def proxyHandleUpdateList (proxy : Proxy) (outcomes : List Outcome) (message : J) :
    Exec (Proxy × List Effect) :=
  let obj := L.jsonObjectGet message (ascii "list")
  if L.jsonIsnull obj || !L.jsonIsarray obj then some ({ proxy with status := .error }, [])
  else if L.jsonArrayLength obj = 0 then some ({ proxy with status := .ready }, [])
  else
    match registryEntryParseList L obj with
    | none => none
    | some [] => some ({ proxy with status := .error }, [])
    | some remoteEntries =>
      (addMissing remoteEntries proxy.registry).bind fun registry =>
      (registrySelectAll registry).bind fun localEntries =>
      (removeVanished remoteEntries localEntries registry).bind fun registry =>
      (registrySelectAll registry).bind fun entries =>
      (connectAll entries ⟨registry, outcomes, []⟩).map
        fun c => (⟨c.registry, .ready⟩, c.effects)

def proxyOnresponse (proxy : Proxy) (outcomes : List Outcome) (response : CStr) (message : J) :
    Exec (Proxy × List Effect) :=
  if response = ascii "register" then
    if L.jsonObjectGetbool message (ascii "success") then some (proxy, [])
    else some (proxy, [.quit])
  else if response = ascii "unregister" then some (proxy, [])
  else if response = ascii "update-address" then some (proxy, [])
  else if response = ascii "list" then proxyHandleUpdateList L proxy outcomes message
  else some (proxy, [])

def proxyOnevent (proxy : Proxy) (outcomes : List Outcome) (event : CStr) (message : J) :
    Exec (Proxy × List Effect) :=
  if event = ascii "proxy-add" then proxyHandleRegisterAdd L proxy outcomes message
  else if event = ascii "proxy-remove" then proxyHandleRegisterRemove L proxy message
  else if event = ascii "proxy-update-address" then proxyHandleUpdateAddress L proxy message
  else some (proxy, [])

def proxyOnmessage (proxy : Proxy) (outcomes : List Outcome) (message : J) :
    Exec (Proxy × List Effect) :=
  if L.jsonIsnull message then some (proxy, [])
  else
    match L.jsonObjectGetstr message (ascii "response"),
      L.jsonObjectGetstr message (ascii "event") with
    | some response, _ => proxyOnresponse L proxy outcomes response message
    | none, some event => proxyOnevent L proxy outcomes event message
    | none, none => some (proxy, [])

end Handlers

end Proxy
end Rcom
