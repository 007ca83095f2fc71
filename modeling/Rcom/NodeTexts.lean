import Rcom.Client
import Rcom.EntryEncodings
import Rcom.Replica

/-!
# What a node and the central registry send each other

The requests that proxies send, what the registry does about each and which texts come back
to one of the nodes, and what the proxy of that node reads in them.
-/

namespace Rcom.NodeTexts
open Rcom.Lib Rcom.Lib.Json Rcom.Addr Rcom.RegistryEntry Rcom.Registry Rcom.RcRegistry Rcom.Proxy
open Rcom.Client Rcom.Replica
variable {J : Type} (L : JsonLib J)

/-! ## Requests -/

inductive Proper : Request → Prop where
  | register {e : Entry} : e.WellFormed → Proper (requestOf e)
  | unregister {id : CStr} : registryValidId id = true → Proper (.unregister id)
  | updateAddress {id : CStr} (a : Addr) : registryValidId id = true →
      Proper (.updateAddress id (addrString (some a)))
  | list : Proper .list

def isListRequest : Request → Bool
  | .list => true
  | _ => false

def creates : Request → Option CStr
  | .register id _ _ _ _ => some id
  | _ => none

theorem decode_unregister {id : CStr} (hid : Plain id) :
    decode (requestBytes (.unregister id)) = some (unregisterRequest id) := by
  obtain ⟨-, -, -, -, -, kid, -⟩ := plain_keys
  have krequest : Plain (ascii "request") := by decide
  have h : Reads _ (unregisterRequest id) :=
    .obj (.next krequest (.space (.str (show Plain (ascii "unregister") by decide)))
      (.space (.last kid (.space (.str hid)))))
  have h₁ : ascii "\x7b\"request\": \"unregister\", \"id\": \"" = 123 :: 34 :: (ascii "request" ++
      34 :: 58 :: 32 :: 34 :: (ascii "unregister" ++ 34 :: 44 :: 32 :: 34 ::
        (ascii "id" ++ [34, 58, 32, 34]))) := by decide
  rw [← h.decode]
  simp [requestBytes, h₁, ascii_end]

theorem decode_updateAddress {id addr : CStr} (hid : Plain id) (haddr : Plain addr) :
    decode (requestBytes (.updateAddress id addr)) = some (updateRequest id addr) := by
  obtain ⟨-, -, -, -, -, kid, -, -, -, kaddr⟩ := plain_keys
  have krequest : Plain (ascii "request") := by decide
  have h : Reads _ (updateRequest id addr) :=
    .obj (.next krequest (.space (.str (show Plain (ascii "update-address") by decide)))
      (.space (.next kid (.space (.str hid)) (.space (.last kaddr (.space (.str haddr)))))))
  have h₁ : ascii "\x7b\"request\": \"update-address\", \"id\": \"" = 123 :: 34 :: (ascii "request" ++
      34 :: 58 :: 32 :: 34 :: (ascii "update-address" ++ 34 :: 44 :: 32 :: 34 ::
        (ascii "id" ++ [34, 58, 32, 34]))) := by decide
  have h₂ : ascii "\", \"addr\": \"" = 34 :: 44 :: 32 :: 34 ::
      (ascii "addr" ++ [34, 58, 32, 34]) := by decide
  rw [← h.decode]
  simp [requestBytes, h₁, h₂, ascii_end]

/-! ## What comes back -/

def reply (link l : LinkId) (t : Text J) : List (Text J) := if l = link then [t] else []

def toOthers (link l : LinkId) (t : Text J) : List (Text J) := if l = link then [] else [t]

/-- What the registry does about a request of the link `l`, and the texts for `link`. -/
inductive Served (link l : LinkId) (r : Registry) : Request → Registry → List (Text J) → Prop where
  | registered {e : Entry} : e.WellFormed → Served link l r (requestOf e) (r ++ [e.remote])
      (reply link l (.success (ascii "register")) ++ [addText e.remote])
  | unregistered {id : CStr} : registryValidId id = true → Holds r id →
      Served link l r (.unregister id) (r.eraseP fun e => e.id = id)
        (reply link l (.success (ascii "unregister")) ++ [.proxyRemove id])
  | unknown {id : CStr} : ¬ Holds r id → Served link l r (.unregister id) r
      (reply link l (.fail (ascii "unregister") (ascii "Internal error")))
  | updated {id : CStr} (a : Addr) : registryValidId id = true →
      Served link l r (.updateAddress id (addrString (some a)))
        (updateFirst (fun e => e.id = id) (setAddr (some a)) r)
        (reply link l (.success (ascii "update-address")) ++
          toOthers link l (.proxyUpdateAddress id (addrString (some a))))
  | listed {list : J} : registryEntryEncodeList L (r.reverse.map some) = some list →
      Served link l r .list r (reply link l (.obj (listResponse L list)))

variable {L}

theorem delivered_reply (link l : LinkId) (t : Text J) :
    delivered link [.send l t] = reply link l t := by
  unfold delivered reply
  by_cases h : l = link <;> simp [h]

theorem delivered_broadcast (link l : LinkId) (req : CStr) (t : Text J) :
    delivered link [rcregistrySuccess l req, .broadcast none t] = reply link l (.success req) ++ [t] := by
  unfold delivered reply rcregistrySuccess
  by_cases h : l = link <;> simp [h]

theorem delivered_update (link l : LinkId) (req : CStr) (t : Text J) :
    delivered link [rcregistrySuccess l req, .broadcast (some l) t] =
      reply link l (.success req) ++ toOthers link l t := by
  unfold delivered reply toOthers rcregistrySuccess
  by_cases h : l = link <;> simp [h]

section Requests
variable {denote : Value → J} (hL : L.Lawful denote) {r r' : Registry} {l : LinkId}
  {outs : List (Output J)}
include hL

theorem registers_requestOf {e : Entry} (he : e.WellFormed) :
    Registers L (L.jsonParse (requestBytes (requestOf e))) e.remote := by
  obtain ⟨a, ha⟩ := Option.ne_none_iff_exists'.1 he.addr
  have htext := decode_register (plain_of_validId he.id) (plain_of_validName he.name)
    (plain_of_validTopic he.topic) (plain_typeToStr e.type) (ha ▸ plain_addrString a)
  rw [requestOf, hL.parse htext]
  exact registers_registerRequest hL he

theorem unregisters_unregister {id : CStr} (hid : Plain id) :
    Unregisters L (L.jsonParse (requestBytes (.unregister id))) id := by
  have hkeys : [ascii "request", ascii "id"].Nodup := by decide
  rw [hL.parse (decode_unregister hid)]
  exact ⟨⟨hL.isnull_obj _, hL.objectGetstr hkeys rfl⟩, hL.objectGetstr hkeys rfl⟩

theorem updates_updateAddress {id addr : CStr} (hid : Plain id) (haddr : Plain addr) :
    Updates L (L.jsonParse (requestBytes (.updateAddress id addr))) id addr := by
  rw [hL.parse (decode_updateAddress hid haddr)]
  exact updates_updateRequest hL id addr

theorem served {req : Request} (hr : WellFormed r) (hreq : Proper req)
    (h : rcregistryOnmessage L r l (L.jsonParse (requestBytes req)) = some (r', outs))
    (link : LinkId) : Served L link l r req r' (delivered link outs) := by
  cases hreq with
  | @register e he =>
    have heq := handled_iff.1 (.registered (registers_requestOf hL he) : Handled L r l _ _ _)
    cases h.symm.trans heq
    rw [delivered_broadcast]
    exact .registered he
  | @unregister id hid =>
    have hu := unregisters_unregister hL (plain_of_validId hid)
    by_cases hh : Holds r id
    · cases h.symm.trans (handled_iff.1 (.unregistered hu hh : Handled L r l _ _ _))
      rw [delivered_broadcast]
      exact .unregistered hid hh
    · cases h.symm.trans (handled_iff.1 (.unregisterFailed hu hh : Handled L r l _ _ _))
      rw [rcregistryFail, delivered_reply]
      exact .unknown hh
  | @updateAddress id a hid =>
    have hu := updates_updateAddress hL (plain_of_validId hid) (plain_addrString a)
    by_cases hh : Holds r id
    · have hparse := addrParse_addrString a
      cases h.symm.trans (handled_iff.1 (.updated hu hh hparse : Handled L r l _ _ _))
      rw [delivered_update]
      exact .updated a hid
    · cases h.symm.trans (handled_iff.1 (.updatedNothing hu hh : Handled L r l _ _ _))
      have hnone : ∀ e ∈ r, decide (e.id = id) = false := fun e he =>
        decide_eq_false fun hid => hh ⟨e, he, hid⟩
      have hsame := updateFirst_of_forall (setAddr (some a)) hnone
      have hupdated : Served L link l r _ _ _ := .updated a hid
      rw [hsame] at hupdated
      rw [delivered_update]
      exact hupdated
  | list =>
    obtain ⟨list, hlist⟩ := Option.isSome_iff_exists.1
      (encodeListLoop_isSome (L := L) r.reverse L.jsonArrayCreate)
    have hasks : Asks L (L.jsonParse (requestBytes .list)) (ascii "list") :=
      jsonParse_list hL ▸ asks_listRequest hL
    cases h.symm.trans (handled_iff.1
      (.listed hasks (fun e he => (hr e he).addr) hlist : Handled L r l _ _ _))
    rw [delivered_reply]
    exact .listed hlist

end Requests

/-! ## What the proxy reads -/

variable (L) in
inductive Tells : Text J → ProxyEvent → Prop where
  | add {e : Entry} : e.WellFormed → Tells (addText e.remote) (.add e.remote)
  | remove {id : CStr} : registryValidId id = true → Tells (.proxyRemove id) (.remove id)
  | updateAddress {id : CStr} (a : Addr) : registryValidId id = true →
      Tells (.proxyUpdateAddress id (addrString (some a))) (.updateAddress id (addrString (some a)))
  | list {r : Registry} {list : J} : WellFormed r → IdsUnique r → r ≠ [] →
      registryEntryEncodeList L (r.reverse.map some) = some list →
      Tells (.obj (listResponse L list)) (.list (r.map Entry.remote))

inductive Silent : Text J → Prop where
  | success {req : CStr} : req ∈ [ascii "register", ascii "unregister", ascii "update-address"] →
      Silent (.success req)
  | fail : Silent (.fail (ascii "unregister") (ascii "Internal error"))

def isList : Text J → Bool
  | .obj _ => true
  | _ => false

section Texts
variable {denote : Value → J} (hL : L.Lawful denote) {t : Text J} {ev : ProxyEvent}
include hL

theorem Tells.carries (h : Tells L t ev) : Carries L (L.jsonParse (textBytes L t)) ev := by
  cases h with
  | @add e he =>
    have hremote : e.remote.WellFormed := ⟨⟨he.id, he.name, he.topic⟩, he.addr⟩
    rw [hL.parse (decode_addText hremote)]
    exact carries_add hL hremote
  | remove hid =>
    rw [hL.parse (decode_proxyRemove (plain_of_validId hid))]
    exact carries_remove hL _
  | updateAddress a hid =>
    have hkeys : [ascii "event", ascii "id", ascii "addr"].Nodup := by decide
    rw [hL.parse (decode_proxyUpdateAddress (plain_of_validId hid) (plain_addrString a))]
    refine ⟨⟨hL.isnull_obj _, ?_, hL.objectGetstr hkeys rfl⟩, hL.objectGetstr hkeys rfl,
      hL.objectGetstr hkeys rfl⟩
    exact hL.objectGetstr_none
      (show ascii "response" ∉ [ascii "event", ascii "id", ascii "addr"] by decide)
  | @list r list hwf _ hne hlist =>
    have htext : decode (textBytes L (.obj (listResponse L list))) = some (listValue r) := by
      rw [listResponse_of_encode hL hlist]
      exact hL.serialise (printable_listValue hwf)
    rw [hL.parse htext]
    exact carries_list hL hwf hne

theorem Tells.unique {ev' : ProxyEvent} (h : Tells L t ev) (h' : Tells L t ev') : ev = ev' :=
  (h.carries hL).unique (h'.carries hL)

theorem Silent.onmessage (h : Silent t) (proxy : Proxy) (outcomes : List Outcome) :
    proxyOnmessage L proxy outcomes (L.jsonParse (textBytes L t)) = some (proxy, []) := by
  cases h with
  | @success req hreq =>
    have hplain : ∀ req ∈ [ascii "register", ascii "unregister", ascii "update-address"], Plain req := by
      decide
    have hkeys : [ascii "response", ascii "success"].Nodup := by decide
    have hresponse : L.jsonObjectGetstr (denote (successValue req)) (ascii "response") = some req :=
      hL.objectGetstr hkeys rfl
    have hsuccess : L.jsonObjectGetbool (denote (successValue req)) (ascii "success") = true :=
      hL.objectGetbool hkeys rfl
    have hquiet : proxyOnresponse L proxy outcomes req (denote (successValue req)) = some (proxy, []) := by
      rw [proxyOnresponse, hsuccess]
      simp only [List.mem_cons, List.not_mem_nil, or_false] at hreq
      rcases hreq with rfl | rfl | rfl
      · rfl
      · rw [if_neg (by decide), if_pos rfl]
      · rw [if_neg (by decide), if_neg (by decide), if_pos rfl]
    rw [hL.parse (decode_success (hplain req hreq)), proxyOnmessage, successValue, hL.isnull_obj,
      ← successValue, if_neg Bool.false_ne_true]
    simp only [hresponse, hquiet]
  | fail =>
    have hkeys : [ascii "response", ascii "success", ascii "message"].Nodup := by decide
    have hresponse : L.jsonObjectGetstr (denote (failValue (ascii "unregister") (ascii "Internal error")))
        (ascii "response") = some (ascii "unregister") := hL.objectGetstr hkeys rfl
    rw [hL.parse (decode_fail (by decide) (by decide)), proxyOnmessage, failValue, hL.isnull_obj,
      ← failValue, if_neg Bool.false_ne_true]
    simp only [hresponse]
    rw [proxyOnresponse, if_neg (by decide), if_pos rfl]

end Texts

/-! ## Announcements -/

def announced : Text J → Option Request
  | .proxyAdd id name topic type addr => some (.register id name topic type addr)
  | _ => none

theorem creates_eq {r : Request} (h : (creates r).isSome) : r.subject = creates r := by
  cases r with
  | register => rfl
  | unregister => cases h
  | updateAddress => cases h
  | list => cases h

variable (L) in
abbrev Meant (t : Text J) : Prop := Silent t ∨ ∃ ev, Tells L t ev

theorem tells_of_announced {t : Text J} {r : Request} (ht : Meant L t) (h : announced t = some r) :
    ∃ e : Entry, r = requestOf e.remote ∧ Tells L t (.add e.remote) := by
  rcases ht with hsilent | ⟨ev, htells⟩
  · cases hsilent <;> cases h
  · cases htells with
    | @add e he =>
      cases h
      exact ⟨e, rfl, .add he⟩
    | remove => cases h
    | updateAddress => cases h
    | list => cases h

section Answers
variable {link l : LinkId} {r r' : Registry} {req : Request} {ts : List (Text J)}

theorem mem_reply {t t' : Text J} (h : t ∈ reply link l t') : l = link ∧ t = t' := by
  unfold reply at h
  split_ifs at h with hl
  · exact ⟨hl, List.mem_singleton.1 h⟩
  · cases h

theorem mem_toOthers {t t' : Text J} (h : t ∈ toOthers link l t') : l ≠ link ∧ t = t' := by
  unfold toOthers at h
  split_ifs at h with hl
  · cases h
  · exact ⟨hl, List.mem_singleton.1 h⟩

theorem announced_reply (t : Text J) (h : announced t = none) :
    (reply link l t).filterMap announced = [] := by
  unfold reply
  split_ifs
  · rw [List.filterMap_cons_none h, List.filterMap_nil]
  · rfl

theorem Served.announced (h : Served L link l r req r' ts) :
    ts.filterMap announced = if (creates req).isSome then [req] else [] := by
  cases h with
  | registered =>
    rw [List.filterMap_append, announced_reply _ rfl]
    rfl
  | unregistered =>
    rw [List.filterMap_append, announced_reply _ rfl]
    rfl
  | unknown => exact announced_reply _ rfl
  | updated =>
    show _ = []
    rw [List.filterMap_append, announced_reply _ rfl, toOthers]
    split_ifs <;> rfl
  | listed => exact announced_reply _ rfl

theorem Served.meant (h : Served L link l r req r' ts) (hwf : WellFormed r) (hids : IdsUnique r)
    (hne : r ≠ []) : ∀ t ∈ ts, Meant L t := by
  intro t ht
  cases h with
  | registered he =>
    rcases List.mem_append.1 ht with ht | ht
    · obtain ⟨-, rfl⟩ := mem_reply ht
      exact .inl (.success (by simp))
    · rw [List.mem_singleton.1 ht]
      exact .inr ⟨_, .add he⟩
  | unregistered hid =>
    rcases List.mem_append.1 ht with ht | ht
    · obtain ⟨-, rfl⟩ := mem_reply ht
      exact .inl (.success (by simp))
    · rw [List.mem_singleton.1 ht]
      exact .inr ⟨_, .remove hid⟩
  | unknown =>
    obtain ⟨-, rfl⟩ := mem_reply ht
    exact .inl .fail
  | updated a hid =>
    rcases List.mem_append.1 ht with ht | ht
    · obtain ⟨-, rfl⟩ := mem_reply ht
      exact .inl (.success (by simp))
    · obtain ⟨-, rfl⟩ := mem_toOthers ht
      exact .inr ⟨_, .updateAddress a hid⟩
  | listed hlist =>
    obtain ⟨-, rfl⟩ := mem_reply ht
    exact .inr ⟨_, .list hwf hids hne hlist⟩

theorem Served.tells {denote : Value → J} (hL : L.Lawful denote) (h : Served L link l r req r' ts)
    (hwf : WellFormed r) (hids : IdsUnique r) (hne : r ≠ []) {t : Text J} (ht : t ∈ ts)
    {ev : ProxyEvent} (hev : Tells L t ev) :
    (∃ e : Entry, req = requestOf e ∧ ev = .add e.remote) ∨ (∃ id, ev = .remove id) ∨
      (l ≠ link ∧ ∃ id addr, req = .updateAddress id addr ∧ ev = .updateAddress id addr) ∨
      ev = .list (r.map Entry.remote) := by
  have hsilent : ∀ req : CStr, ¬ Tells L (.success req : Text J) ev := fun _ h => by cases h
  cases h with
  | @registered e he =>
    rcases List.mem_append.1 ht with ht | ht
    · obtain ⟨-, rfl⟩ := mem_reply ht
      exact absurd hev (hsilent _)
    · rw [List.mem_singleton.1 ht] at hev
      exact .inl ⟨e, rfl, hev.unique hL (.add he)⟩
  | unregistered hid =>
    rcases List.mem_append.1 ht with ht | ht
    · obtain ⟨-, rfl⟩ := mem_reply ht
      exact absurd hev (hsilent _)
    · rw [List.mem_singleton.1 ht] at hev
      exact .inr (.inl ⟨_, hev.unique hL (.remove hid)⟩)
  | unknown =>
    obtain ⟨-, rfl⟩ := mem_reply ht
    cases hev
  | updated a hid =>
    rcases List.mem_append.1 ht with ht | ht
    · obtain ⟨-, rfl⟩ := mem_reply ht
      exact absurd hev (hsilent _)
    · obtain ⟨hl, rfl⟩ := mem_toOthers ht
      exact .inr (.inr (.inl ⟨hl, _, _, rfl, hev.unique hL (.updateAddress a hid)⟩))
  | @listed list hlist =>
    obtain ⟨-, rfl⟩ := mem_reply ht
    exact .inr (.inr (.inr (hev.unique hL (.list hwf hids hne hlist))))

theorem Served.mem (h : Served L link l r req r' ts) {x : Entry} (hx : x ∈ r') :
    x ∈ r ∨ (∃ e : Entry, req = requestOf e ∧ x = e.remote) ∨
      ∃ y ∈ r, ∃ a, creates req = none ∧ req.subject = some y.id ∧ x = setAddr (some a) y := by
  cases h with
  | @registered e =>
    rcases List.mem_append.1 hx with hx | hx
    · exact .inl hx
    · exact .inr (.inl ⟨e, rfl, List.mem_singleton.1 hx⟩)
  | unregistered => exact .inl (List.mem_of_mem_eraseP hx)
  | unknown => exact .inl hx
  | updated a =>
    rcases mem_updateFirst hx with hx | ⟨y, hy, hid, rfl⟩
    · exact .inl hx
    · exact .inr (.inr ⟨y, hy, a, rfl, congrArg some (of_decide_eq_true hid).symm, rfl⟩)
  | listed => exact .inl hx

theorem countP_reply (t : Text J) :
    (reply link l t).countP isList = if l = link ∧ isList t then 1 else 0 := by
  unfold reply
  by_cases hl : l = link <;> cases h : isList t <;> simp [hl, h]

theorem Served.lists (h : Served L link l r req r' ts) :
    ts.countP isList = if l = link ∧ isListRequest req then 1 else 0 := by
  have hother : ∀ t : Text J, isList t = false → (toOthers link l t).countP isList = 0 := by
    intro t ht
    unfold toOthers
    split_ifs
    · rfl
    · simp [ht]
  have hno : ∀ req : Request, isListRequest req = false →
      0 = if l = link ∧ isListRequest req then 1 else 0 := by
    intro req hreq
    rw [if_neg (by simp [hreq])]
  cases h with
  | registered =>
    rw [List.countP_append, countP_reply, if_neg (by simp [isList]), ← hno _ rfl]
    rfl
  | unregistered =>
    rw [List.countP_append, countP_reply, if_neg (by simp [isList]), ← hno _ rfl]
    rfl
  | unknown => rw [countP_reply, if_neg (by simp [isList]), ← hno _ rfl]
  | updated =>
    rw [List.countP_append, countP_reply, if_neg (by simp [isList]), ← hno _ rfl, hother _ rfl]
  | listed => exact countP_reply _

end Answers

end Rcom.NodeTexts
