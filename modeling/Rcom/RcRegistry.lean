import Rcom.Registry
import Rcom.Lib.Trace

/-!
# The central registry (rcregistry.c)

A message is handled by one function that changes the registry and sends texts, in the
order of the code: first to the requesting link, then to the others. `Handled` says once
what handling can do; every result about the registry is a case analysis of it.
-/

namespace Rcom
open Rcom.Lib Rcom.Lib.Json Rcom.Lib.Trace Rcom.Addr Rcom.RegistryEntry Rcom.Registry

abbrev LinkId := ℕ

/-- The format strings, with the arguments of each, and the JSON objects that are sent. -/
inductive Text (J : Type) where
  | fail (req message : CStr)
  | success (req : CStr)
  | proxyAdd (id name topic type addr : CStr)
  | proxyRemove (id : CStr)
  | proxyUpdateAddress (id addr : CStr)
  | obj (value : J)

inductive Output (J : Type) where
  | send (link : LinkId) (text : Text J)
  | broadcast (exclude : Option LinkId) (text : Text J)

def Output.text {J : Type} : Output J → Text J
  | .send _ text => text
  | .broadcast _ text => text

namespace RcRegistry
variable {J : Type} (L : JsonLib J)

/-- The bytes of a text; every argument of `%s` is copied as it is. -/
def textBytes : Text J → Bytes
  | .fail req message =>
    ascii "\x7b\"response\":\"" ++ req ++
      (ascii "\", \"success\":false, \"message\":\"" ++ message ++ ascii "\"\x7d")
  | .success req => ascii "\x7b\"response\":\"" ++ req ++ ascii "\", \"success\":true\x7d"
  | .proxyAdd id name topic type addr =>
    ascii "\x7b\"event\": \"proxy-add\",\"entry\": \x7b\"id\": \"" ++ id ++
      (ascii "\",\"name\": \"" ++ name ++
        (ascii "\",\"topic\": \"" ++ topic ++
          (ascii "\",\"type\": \"" ++ type ++
            (ascii "\",\"addr\": \"" ++ addr ++ ascii "\"\x7d\x7d"))))
  | .proxyRemove id => ascii "\x7b\"event\": \"proxy-remove\", \"id\": \"" ++ id ++ ascii "\"\x7d"
  | .proxyUpdateAddress id addr =>
    ascii "\x7b\"event\": \"proxy-update-address\",\"id\": \"" ++ id ++
      (ascii "\", \"addr\": \"" ++ addr ++ ascii "\"\x7d")
  | .obj value => L.jsonSerialise value

/-- The registry starts with the entry of its own hub; `uuid` is the new identifier. -/
def newRcregistry (uuid : CStr) (messagehubAddr : Option Addr) (hub : Endpoint) :
    Option Registry :=
  registryInsert newRegistry uuid (ascii "registry") (ascii "registry") .messagehub
    messagehubAddr (some hub)

def rcregistryFail (link : LinkId) (req message : CStr) : Output J :=
  .send link (.fail req message)

def rcregistrySuccess (link : LinkId) (req : CStr) : Output J := .send link (.success req)

/-- The texts for the error codes of `registry_entry_parse`. -/
def registerError (err : ℤ) : CStr :=
  if err = -1 then ascii "Invalid name"
  else if err = -2 then ascii "Invalid topic"
  else if err = -3 then ascii "Invalid type"
  else if err = -4 then ascii "Invalid address"
  else if err = -5 then ascii "Invalid ID"
  else ascii "Unknown error"

def addText (entry : Entry) : Text J :=
  .proxyAdd entry.id entry.name entry.topic (registryTypeToStr entry.type)
    (addrString entry.addr)

def rcregistryRegister (registry : Registry) (link : LinkId) (message : J) :
    Exec (Registry × List (Output J)) :=
  let obj := L.jsonObjectGet message (ascii "entry")
  if L.jsonIsnull obj then
    some (registry, [rcregistryFail link (ascii "register") (ascii "Invalid entry value")])
  else
    match registryEntryParse L obj with
    | none => none
    | some (.error err) =>
      some (registry, [rcregistryFail link (ascii "register") (registerError err)])
    | some (.ok entry) =>
      match registryInsert registry entry.id entry.name entry.topic entry.type entry.addr none with
      | none => some (registry, [rcregistryFail link (ascii "register") (ascii "Internal error")])
      | some registry =>
        some (registry, [rcregistrySuccess link (ascii "register"), .broadcast none (addText entry)])

def rcregistryUnregister (registry : Registry) (link : LinkId) (message : J) :
    Exec (Registry × List (Output J)) :=
  match L.jsonObjectGetstr message (ascii "id") with
  | none => some (registry, [])
  | some id =>
    match registryDelete registry id with
    | none => some (registry, [rcregistryFail link (ascii "unregister") (ascii "Internal error")])
    | some registry =>
      some (registry, [rcregistrySuccess link (ascii "unregister"),
        .broadcast none (.proxyRemove id)])

def listResponse (list : J) : J :=
  let response := L.jsonObjectCreate
  let response := L.jsonObjectSetstr response (ascii "response") (ascii "list")
  let response := L.jsonObjectSet response (ascii "success") L.jsonTrue
  let response := L.jsonObjectSetstr response (ascii "message") (ascii "OK")
  L.jsonObjectSet response (ascii "list") list

def rcregistrySendList (registry : Registry) (link : LinkId) :
    Exec (Registry × List (Output J)) :=
  match registrySelectAll registry with
  | none => none
  | some entries =>
    match registryEntryEncodeList L entries with
    | none => none
    | some list => some (registry, [.send link (.obj (listResponse L list))])

def rcregistryUpdateAddress (registry : Registry) (link : LinkId) (message : J) :
    Exec (Registry × List (Output J)) :=
  match L.jsonObjectGetstr message (ascii "id") with
  | none => some (registry, [])
  | some id =>
  match L.jsonObjectGetstr message (ascii "addr") with
  | none => some (registry, [])
  | some addr =>
  match registryUpdateAddr registry id addr with
  | none => none
  | some (registry, err) =>
    if err ≠ 0 then
      some (registry, [rcregistryFail link (ascii "update-address") (ascii "Internal error")])
    else
      some (registry, [rcregistrySuccess link (ascii "update-address"),
        .broadcast (some link) (.proxyUpdateAddress id addr)])

def rcregistryOnmessage (registry : Registry) (link : LinkId) (message : J) :
    Exec (Registry × List (Output J)) :=
  if L.jsonIsnull message then
    some (registry, [rcregistryFail link (ascii "?") (ascii "Failed to parse the request")])
  else
    match L.jsonObjectGetstr message (ascii "request") with
    | none => some (registry, [rcregistryFail link (ascii "?") (ascii "Invalid request")])
    | some request =>
      if request = ascii "register" then rcregistryRegister L registry link message
      else if request = ascii "unregister" then rcregistryUnregister L registry link message
      else if request = ascii "list" then rcregistrySendList L registry link
      else if request = ascii "update-address" then rcregistryUpdateAddress L registry link message
      else some (registry, [rcregistryFail link request (ascii "Unknown request")])

/-! ## What handling a message can do -/

def Asks (message : J) (request : CStr) : Prop :=
  L.jsonIsnull message = false ∧ L.jsonObjectGetstr message (ascii "request") = some request

def requestNames : List CStr :=
  [ascii "register", ascii "unregister", ascii "list", ascii "update-address"]

/-- The refusals that depend on the message alone, with the two arguments of the text. -/
inductive Rejects (message : J) : CStr → CStr → Prop where
  | null : L.jsonIsnull message = true →
      Rejects message (ascii "?") (ascii "Failed to parse the request")
  | noRequest : L.jsonIsnull message = false →
      L.jsonObjectGetstr message (ascii "request") = none →
      Rejects message (ascii "?") (ascii "Invalid request")
  | unknown {request : CStr} : Asks L message request → request ∉ requestNames →
      Rejects message request (ascii "Unknown request")
  | noEntry : Asks L message (ascii "register") →
      L.jsonIsnull (L.jsonObjectGet message (ascii "entry")) = true →
      Rejects message (ascii "register") (ascii "Invalid entry value")
  | badEntry {err : ℤ} : Asks L message (ascii "register") →
      L.jsonIsnull (L.jsonObjectGet message (ascii "entry")) = false →
      registryEntryParse L (L.jsonObjectGet message (ascii "entry")) = some (.error err) →
      Rejects message (ascii "register") (registerError err)

def Registers (message : J) (e : Entry) : Prop :=
  Asks L message (ascii "register") ∧
    L.jsonIsnull (L.jsonObjectGet message (ascii "entry")) = false ∧
    registryEntryParse L (L.jsonObjectGet message (ascii "entry")) = some (.ok e)

def Unregisters (message : J) (id : CStr) : Prop :=
  Asks L message (ascii "unregister") ∧ L.jsonObjectGetstr message (ascii "id") = some id

def Updates (message : J) (id addr : CStr) : Prop :=
  Asks L message (ascii "update-address") ∧ L.jsonObjectGetstr message (ascii "id") = some id ∧
    L.jsonObjectGetstr message (ascii "addr") = some addr

def LacksFields (message : J) : Prop :=
  (Asks L message (ascii "unregister") ∧ L.jsonObjectGetstr message (ascii "id") = none) ∨
    Asks L message (ascii "update-address") ∧
      (L.jsonObjectGetstr message (ascii "id") = none ∨
        L.jsonObjectGetstr message (ascii "addr") = none)

def Holds (registry : Registry) (id : CStr) : Prop := ∃ e ∈ registry, e.id = id

inductive Handled (r : Registry) (link : LinkId) (message : J) :
    Registry → List (Output J) → Prop where
  | rejected {req text : CStr} : Rejects L message req text →
      Handled r link message r [rcregistryFail link req text]
  | ignored : LacksFields L message → Handled r link message r []
  | registered {e : Entry} : Registers L message e →
      Handled r link message (r ++ [e])
        [rcregistrySuccess link (ascii "register"), .broadcast none (addText e)]
  | unregistered {id : CStr} : Unregisters L message id → Holds r id →
      Handled r link message (r.eraseP fun e => e.id = id)
        [rcregistrySuccess link (ascii "unregister"), .broadcast none (.proxyRemove id)]
  | unregisterFailed {id : CStr} : Unregisters L message id → ¬ Holds r id →
      Handled r link message r [rcregistryFail link (ascii "unregister") (ascii "Internal error")]
  | listed {list : J} : Asks L message (ascii "list") → (∀ e ∈ r, e.addr ≠ none) →
      registryEntryEncodeList L (r.reverse.map some) = some list →
      Handled r link message r [.send link (.obj (listResponse L list))]
  | updatedNothing {id addr : CStr} : Updates L message id addr → ¬ Holds r id →
      Handled r link message r [rcregistrySuccess link (ascii "update-address"),
        .broadcast (some link) (.proxyUpdateAddress id addr)]
  | updated {id addr : CStr} {a : Addr} : Updates L message id addr → Holds r id →
      addrParse addr = some (some a) →
      Handled r link message (updateFirst (fun e => e.id = id) (setAddr (some a)) r)
        [rcregistrySuccess link (ascii "update-address"),
          .broadcast (some link) (.proxyUpdateAddress id addr)]
  | updateFailed {id addr : CStr} : Updates L message id addr → Holds r id →
      addrParse addr = some none →
      Handled r link message (updateFirst (fun e => e.id = id) (setAddr none) r)
        [rcregistryFail link (ascii "update-address") (ascii "Internal error")]

/-- The messages on which the code runs into undefined behaviour. -/
inductive Faults (r : Registry) (message : J) : Prop where
  | register : Asks L message (ascii "register") →
      L.jsonIsnull (L.jsonObjectGet message (ascii "entry")) = false →
      OverlongEntry L (L.jsonObjectGet message (ascii "entry")) → Faults r message
  | list {e : Entry} : Asks L message (ascii "list") → e ∈ r → e.addr = none → Faults r message
  | update {id addr : CStr} : Updates L message id addr → Holds r id → Overlong addr →
      Faults r message

variable {L}

theorem registryInsert_of_registers {message : J} {e : Entry} (h : Registers L message e)
    (r : Registry) :
    registryInsert r e.id e.name e.topic e.type e.addr none = some (r ++ [e]) := by
  obtain ⟨he, hend, -⟩ := registryEntryParse_ok h.2.2
  rw [← registryInsertEntry_eq r he.addr, registryInsertEntry, hend]

theorem rcregistryRegister_cases (r : Registry) (link : LinkId) (message : J)
    (ha : Asks L message (ascii "register")) :
    match rcregistryRegister L r link message with
    | none => Faults L r message
    | some p => Handled L r link message p.1 p.2 := by
  unfold rcregistryRegister
  dsimp only
  cases hn : L.jsonIsnull (L.jsonObjectGet message (ascii "entry")) with
  | true => exact .rejected (.noEntry ha hn)
  | false =>
    rw [if_neg Bool.false_ne_true]
    cases hp : registryEntryParse L (L.jsonObjectGet message (ascii "entry")) with
    | none => exact .register ha hn (registryEntryParse_eq_none_iff.1 hp)
    | some p =>
      cases p with
      | error err => exact .rejected (.badEntry ha hn hp)
      | ok e =>
        simp only [registryInsert_of_registers ⟨ha, hn, hp⟩ r]
        exact .registered ⟨ha, hn, hp⟩

theorem rcregistryUnregister_cases (r : Registry) (link : LinkId) (message : J)
    (ha : Asks L message (ascii "unregister")) :
    match rcregistryUnregister L r link message with
    | none => Faults L r message
    | some p => Handled L r link message p.1 p.2 := by
  unfold rcregistryUnregister
  cases hid : L.jsonObjectGetstr message (ascii "id") with
  | none => exact .ignored (.inl ⟨ha, hid⟩)
  | some id =>
    dsimp only
    by_cases h : Holds r id
    · rw [registryDelete_known h]
      exact .unregistered ⟨ha, hid⟩ h
    · rw [registryDelete_unknown h]
      exact .unregisterFailed ⟨ha, hid⟩ h

theorem rcregistrySendList_cases (r : Registry) (link : LinkId) (message : J)
    (ha : Asks L message (ascii "list")) :
    match rcregistrySendList L r link with
    | none => Faults L r message
    | some p => Handled L r link message p.1 p.2 := by
  unfold rcregistrySendList
  by_cases h : ∃ e ∈ r, e.addr = none
  · obtain ⟨e, he, hn⟩ := h
    rw [registrySelectAll_eq]
    have hmem : none ∈ (r.map cloneEntry).reverse := by
      rw [List.mem_reverse, List.mem_map]
      exact ⟨e, he, cloneEntry_eq_none_iff.2 hn⟩
    simp only [registryEntryEncodeList, encodeListLoop_eq_none hmem]
    exact .list ha he hn
  · have haddr : ∀ e ∈ r, e.addr ≠ none := fun e he hn => h ⟨e, he, hn⟩
    rw [registrySelectAll_of_addr haddr]
    obtain ⟨list, hl⟩ := Option.isSome_iff_exists.1
      (encodeListLoop_isSome (L := L) r.reverse L.jsonArrayCreate)
    simp only [registryEntryEncodeList, hl]
    exact .listed ha haddr hl

theorem rcregistryUpdateAddress_cases (r : Registry) (link : LinkId) (message : J)
    (ha : Asks L message (ascii "update-address")) :
    match rcregistryUpdateAddress L r link message with
    | none => Faults L r message
    | some p => Handled L r link message p.1 p.2 := by
  unfold rcregistryUpdateAddress
  cases hid : L.jsonObjectGetstr message (ascii "id") with
  | none => exact .ignored (.inr ⟨ha, .inl hid⟩)
  | some id =>
    dsimp only
    cases haddr : L.jsonObjectGetstr message (ascii "addr") with
    | none => exact .ignored (.inr ⟨ha, .inr haddr⟩)
    | some addr =>
      dsimp only
      by_cases h : Holds r id
      · rw [registryUpdateAddr_known h]
        cases hp : addrParse addr with
        | none => exact .update ⟨ha, hid, haddr⟩ h (addrParse_eq_none_iff.1 hp)
        | some a =>
          cases a with
          | none => exact .updateFailed ⟨ha, hid, haddr⟩ h hp
          | some a => exact .updated ⟨ha, hid, haddr⟩ h hp
      · rw [registryUpdateAddr_unknown h]
        exact .updatedNothing ⟨ha, hid, haddr⟩ h

theorem rcregistryOnmessage_cases (r : Registry) (link : LinkId) (message : J) :
    match rcregistryOnmessage L r link message with
    | none => Faults L r message
    | some p => Handled L r link message p.1 p.2 := by
  unfold rcregistryOnmessage
  cases hn : L.jsonIsnull message with
  | true => exact .rejected (.null hn)
  | false =>
    rw [if_neg Bool.false_ne_true]
    cases hr : L.jsonObjectGetstr message (ascii "request") with
    | none => exact .rejected (.noRequest hn hr)
    | some request =>
      dsimp only
      split_ifs with h₁ h₂ h₃ h₄
      · exact rcregistryRegister_cases r link message ⟨hn, h₁ ▸ hr⟩
      · exact rcregistryUnregister_cases r link message ⟨hn, h₂ ▸ hr⟩
      · exact rcregistrySendList_cases r link message ⟨hn, h₃ ▸ hr⟩
      · exact rcregistryUpdateAddress_cases r link message ⟨hn, h₄ ▸ hr⟩
      · exact .rejected (.unknown ⟨hn, hr⟩ (by simp [requestNames, h₁, h₂, h₃, h₄]))

theorem handled_of_eq {r r' : Registry} {link : LinkId} {message : J} {outs : List (Output J)}
    (h : rcregistryOnmessage L r link message = some (r', outs)) :
    Handled L r link message r' outs := by
  have hc := rcregistryOnmessage_cases (L := L) r link message
  rwa [h] at hc

theorem faults_of_eq {r : Registry} {link : LinkId} {message : J}
    (h : rcregistryOnmessage L r link message = none) : Faults L r message := by
  have hc := rcregistryOnmessage_cases (L := L) r link message
  rwa [h] at hc

theorem onmessage_register {message : J} (ha : Asks L message (ascii "register")) (r : Registry)
    (link : LinkId) :
    rcregistryOnmessage L r link message = rcregistryRegister L r link message := by
  simp only [rcregistryOnmessage, ha.1, ha.2, Bool.false_eq_true, if_false, if_true]

theorem onmessage_unregister {message : J} (ha : Asks L message (ascii "unregister"))
    (r : Registry) (link : LinkId) :
    rcregistryOnmessage L r link message = rcregistryUnregister L r link message := by
  simp only [rcregistryOnmessage, ha.1, ha.2, Bool.false_eq_true, if_false, if_true,
    show ascii "unregister" ≠ ascii "register" by decide]

theorem onmessage_list {message : J} (ha : Asks L message (ascii "list")) (r : Registry)
    (link : LinkId) :
    rcregistryOnmessage L r link message = rcregistrySendList L r link := by
  simp only [rcregistryOnmessage, ha.1, ha.2, Bool.false_eq_true, if_false, if_true,
    show ascii "list" ≠ ascii "register" by decide,
    show ascii "list" ≠ ascii "unregister" by decide]

theorem onmessage_updateAddress {message : J} (ha : Asks L message (ascii "update-address"))
    (r : Registry) (link : LinkId) :
    rcregistryOnmessage L r link message = rcregistryUpdateAddress L r link message := by
  simp only [rcregistryOnmessage, ha.1, ha.2, Bool.false_eq_true, if_false, if_true,
    show ascii "update-address" ≠ ascii "register" by decide,
    show ascii "update-address" ≠ ascii "unregister" by decide,
    show ascii "update-address" ≠ ascii "list" by decide]

theorem eq_none_of_faults {r : Registry} {message : J} (h : Faults L r message) (link : LinkId) :
    rcregistryOnmessage L r link message = none := by
  cases h with
  | register ha hn hp =>
    rw [onmessage_register ha, rcregistryRegister]
    simp only [hn, registryEntryParse_eq_none_iff.2 hp, Bool.false_eq_true, if_false]
  | @list e ha he hnone =>
    have hmem : none ∈ (r.map cloneEntry).reverse := by
      rw [List.mem_reverse, List.mem_map]
      exact ⟨e, he, cloneEntry_eq_none_iff.2 hnone⟩
    rw [onmessage_list ha, rcregistrySendList, registrySelectAll_eq]
    simp only [registryEntryEncodeList, encodeListLoop_eq_none hmem]
  | update hu hh hp =>
    rw [onmessage_updateAddress hu.1, rcregistryUpdateAddress]
    simp only [hu.2.1, hu.2.2, registryUpdateAddr_known hh, addrParse_eq_none_iff.2 hp,
      Option.map_none]

/-- `Handled` leaves nothing out and adds nothing. -/
theorem handled_iff {r r' : Registry} {link : LinkId} {message : J} {outs : List (Output J)} :
    Handled L r link message r' outs ↔
      rcregistryOnmessage L r link message = some (r', outs) := by
  refine ⟨fun h => ?_, handled_of_eq⟩
  cases h with
  | rejected h =>
    cases h with
    | null hn => simp only [rcregistryOnmessage, hn, if_true]
    | noRequest hn hr => simp only [rcregistryOnmessage, hn, hr, Bool.false_eq_true, if_false]
    | unknown ha hu =>
      simp only [requestNames, List.mem_cons, List.not_mem_nil, or_false, not_or] at hu
      simp only [rcregistryOnmessage, ha.1, ha.2, hu.1, hu.2.1, hu.2.2.1, hu.2.2.2,
        Bool.false_eq_true, if_false]
    | noEntry ha hn =>
      rw [onmessage_register ha, rcregistryRegister]
      simp only [hn, if_true]
    | badEntry ha hn hp =>
      rw [onmessage_register ha, rcregistryRegister]
      simp only [hn, hp, Bool.false_eq_true, if_false]
  | ignored h =>
    rcases h with ⟨ha, hid⟩ | ⟨ha, hid | haddr⟩
    · rw [onmessage_unregister ha, rcregistryUnregister, hid]
    · rw [onmessage_updateAddress ha, rcregistryUpdateAddress, hid]
    · rw [onmessage_updateAddress ha, rcregistryUpdateAddress, haddr]
      split <;> rfl
  | registered h =>
    rw [onmessage_register h.1, rcregistryRegister]
    simp only [h.2.1, h.2.2, registryInsert_of_registers h, Bool.false_eq_true, if_false]
  | unregistered h hh =>
    rw [onmessage_unregister h.1, rcregistryUnregister, h.2]
    simp only [registryDelete_known hh]
  | unregisterFailed h hh =>
    rw [onmessage_unregister h.1, rcregistryUnregister, h.2]
    simp only [registryDelete_unknown hh]
  | listed ha haddr hl =>
    rw [onmessage_list ha, rcregistrySendList, registrySelectAll_of_addr haddr]
    simp only [hl]
  | updatedNothing h hh =>
    rw [onmessage_updateAddress h.1, rcregistryUpdateAddress, h.2.1, h.2.2]
    simp only [registryUpdateAddr_unknown hh, ne_eq, not_true, if_false]
  | updated h hh hp =>
    rw [onmessage_updateAddress h.1, rcregistryUpdateAddress, h.2.1, h.2.2]
    simp [registryUpdateAddr_known hh, hp]
  | updateFailed h hh hp =>
    rw [onmessage_updateAddress h.1, rcregistryUpdateAddress, h.2.1, h.2.2]
    simp [registryUpdateAddr_known hh, hp]

/-! ## Requests as JSON values -/

def strings (fields : List (CStr × CStr)) : Value := .obj (fields.map fun p => (p.1, .str p.2))

def registerRequest (e : Entry) : Value :=
  .obj [(ascii "request", .str (ascii "register")), (ascii "entry", RegistryEntry.Entry.value e)]

def unregisterRequest (id : CStr) : Value :=
  strings [(ascii "request", ascii "unregister"), (ascii "id", id)]

def updateRequest (id addr : CStr) : Value :=
  strings [(ascii "request", ascii "update-address"), (ascii "id", id), (ascii "addr", addr)]

def listRequest : Value := strings [(ascii "request", ascii "list")]

/-! ## Texts as JSON values -/

def failValue (req message : CStr) : Value :=
  .obj [(ascii "response", .str req), (ascii "success", .bool false), (ascii "message", .str message)]

def successValue (req : CStr) : Value :=
  .obj [(ascii "response", .str req), (ascii "success", .bool true)]

def addValue (id name topic type addr : CStr) : Value :=
  .obj [(ascii "event", .str (ascii "proxy-add")), (ascii "entry", entryValue id name topic type addr)]

def removeValue (id : CStr) : Value :=
  .obj [(ascii "event", .str (ascii "proxy-remove")), (ascii "id", .str id)]

def updateAddressValue (id addr : CStr) : Value :=
  .obj [(ascii "event", .str (ascii "proxy-update-address")), (ascii "id", .str id),
    (ascii "addr", .str addr)]

def listValue (r : Registry) : Value :=
  .obj [(ascii "response", .str (ascii "list")), (ascii "success", .bool true),
    (ascii "message", .str (ascii "OK")),
    (ascii "list", .arr (r.reverse.map RegistryEntry.Entry.value))]

section Lawful
variable {denote : Value → J} (hL : L.Lawful denote)
include hL

theorem registers_registerRequest {e : Entry} (he : e.WellFormed) :
    Registers L (denote (registerRequest e)) e.remote := by
  have hkeys : [ascii "request", ascii "entry"].Nodup := by decide
  have hentry : L.jsonObjectGet (denote (registerRequest e)) (ascii "entry") =
      denote (RegistryEntry.Entry.value e) := hL.objectGet hkeys rfl
  refine ⟨⟨hL.isnull_obj _, hL.objectGetstr hkeys rfl⟩, ?_, ?_⟩
  · rw [hentry]
    exact hL.isnull_obj _
  · rw [hentry, registryEntryParse_value hL he]

theorem updates_updateRequest (id addr : CStr) :
    Updates L (denote (updateRequest id addr)) id addr := by
  have hkeys : [ascii "request", ascii "id", ascii "addr"].Nodup := by decide
  exact ⟨⟨hL.isnull_obj _, hL.objectGetstr hkeys rfl⟩, hL.objectGetstr hkeys rfl,
    hL.objectGetstr hkeys rfl⟩

theorem asks_listRequest : Asks L (denote listRequest) (ascii "list") := by
  have hkeys : [ascii "request"].Nodup := by decide
  exact ⟨hL.isnull_obj _, hL.objectGetstr hkeys rfl⟩

theorem listResponse_eq (v : Value) :
    listResponse L (denote v) = denote (.obj [(ascii "response", .str (ascii "list")),
      (ascii "success", .bool true), (ascii "message", .str (ascii "OK")), (ascii "list", v)]) := by
  simp only [listResponse, hL.objectCreate, hL.true_eq]
  rw [hL.objectSetstr _ (show ascii "response" ∉ [] by simp),
    hL.objectSet _ (show ascii "success" ∉ [ascii "response"] by decide),
    hL.objectSetstr _ (show ascii "message" ∉ [ascii "response", ascii "success"] by
      decide),
    hL.objectSet _ (show ascii "list" ∉ [ascii "response", ascii "success", ascii "message"] by
      decide)]
  rfl

theorem listResponse_of_encode {r : Registry} {list : J}
    (h : registryEntryEncodeList L (r.reverse.map some) = some list) :
    listResponse L list = denote (listValue r) := by
  obtain rfl := Option.some.inj ((registryEntryEncodeList_eq hL _).symm.trans h)
  exact listResponse_eq hL _

end Lawful

end RcRegistry
end Rcom
