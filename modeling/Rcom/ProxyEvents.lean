import Rcom.Proxy
import Rcom.RcRegistry

/-!
# The events of a proxy

What the handlers of `proxy_onmessage` do once the fields of the message have been read.
-/

namespace Rcom
open Rcom.Lib Rcom.Lib.Json Rcom.Addr Rcom.RegistryEntry Rcom.Registry Rcom.RcRegistry

inductive ProxyEvent where
  | add (entry : Entry)
  | remove (id : CStr)
  | updateAddress (id addr : CStr)
  | list (entries : List Entry)

namespace Proxy
variable {J : Type}

def Announces (L : JsonLib J) (message : J) (event : CStr) : Prop :=
  L.jsonIsnull message = false ∧ L.jsonObjectGetstr message (ascii "response") = none ∧
    L.jsonObjectGetstr message (ascii "event") = some event

/-- The message has all the fields of the event, and they are valid. -/
def Carries (L : JsonLib J) (message : J) : ProxyEvent → Prop
  | .add entry => Announces L message (ascii "proxy-add") ∧
      L.jsonIsnull (L.jsonObjectGet message (ascii "entry")) = false ∧
      registryEntryParse L (L.jsonObjectGet message (ascii "entry")) = some (.ok entry)
  | .remove id => Announces L message (ascii "proxy-remove") ∧
      L.jsonObjectGetstr message (ascii "id") = some id
  | .updateAddress id addr => Announces L message (ascii "proxy-update-address") ∧
      L.jsonObjectGetstr message (ascii "id") = some id ∧
      L.jsonObjectGetstr message (ascii "addr") = some addr
  | .list entries => L.jsonIsnull message = false ∧
      L.jsonObjectGetstr message (ascii "response") = some (ascii "list") ∧
      L.jsonIsnull (L.jsonObjectGet message (ascii "list")) = false ∧
      L.jsonIsarray (L.jsonObjectGet message (ascii "list")) = true ∧
      L.jsonArrayLength (L.jsonObjectGet message (ascii "list")) ≠ 0 ∧ entries ≠ [] ∧
      registryEntryParseList L (L.jsonObjectGet message (ascii "list")) = some entries

def handleAdd (proxy : Proxy) (outcomes : List Outcome) (entry : Entry) :
    Exec (Proxy × List Effect) :=
  (countLike proxy.registry entry).bind fun count =>
    match if count = 0 then registryInsertEntry proxy.registry entry else some proxy.registry with
    | none => some (proxy, [])
    | some registry =>
      (proxyAddConnection ⟨registry, outcomes, []⟩ entry).map
        fun c => ({ proxy with registry := c.registry }, c.effects)

def handleRemove (proxy : Proxy) (id : CStr) : Exec (Proxy × List Effect) :=
  match registryGet proxy.registry id with
  | none => some (proxy, [])
  | some entry =>
    let registry := (registryDelete proxy.registry id).getD proxy.registry
    (proxyRemoveConnection registry entry).map fun es => ({ proxy with registry := registry }, es)

def handleList (proxy : Proxy) (outcomes : List Outcome) (entries : List Entry) :
    Exec (Proxy × List Effect) :=
  (addMissing entries proxy.registry).bind fun registry =>
    (registrySelectAll registry).bind fun localEntries =>
    (removeVanished entries localEntries registry).bind fun registry =>
    (registrySelectAll registry).bind fun all =>
    (connectAll all ⟨registry, outcomes, []⟩).map fun c => (⟨c.registry, .ready⟩, c.effects)

def handle (proxy : Proxy) (outcomes : List Outcome) : ProxyEvent → Exec (Proxy × List Effect)
  | .add entry => handleAdd proxy outcomes entry
  | .remove id => handleRemove proxy id
  | .updateAddress id addr =>
    (registryUpdateAddr proxy.registry id addr).map
      fun p => ({ proxy with registry := p.1 }, [])
  | .list entries => handleList proxy outcomes entries

variable {L : JsonLib J}

theorem Announces.unique {message : J} {event event' : CStr} (h : Announces L message event)
    (h' : Announces L message event') : event = event' :=
  Option.some.inj (h.2.2.symm.trans h'.2.2)

theorem Announces.not_response {message : J} {event response : CStr} (h : Announces L message event)
    (h' : L.jsonObjectGetstr message (ascii "response") = some response) : False := by
  rw [h.2.1] at h'
  simp at h'

theorem Carries.unique {message : J} {event event' : ProxyEvent} (h : Carries L message event)
    (h' : Carries L message event') : event = event' := by
  cases event with
  | add entry =>
    cases event' with
    | add entry' =>
      have heq := h.2.2.symm.trans h'.2.2
      simp only [Option.some.injEq, Except.ok.injEq] at heq
      rw [heq]
    | remove => exact absurd (h.1.unique h'.1) (by decide)
    | updateAddress => exact absurd (h.1.unique h'.1) (by decide)
    | list => exact (h.1.not_response h'.2.1).elim
  | remove id =>
    cases event' with
    | add => exact absurd (h.1.unique h'.1) (by decide)
    | remove id' => rw [Option.some.inj (h.2.symm.trans h'.2)]
    | updateAddress => exact absurd (h.1.unique h'.1) (by decide)
    | list => exact (h.1.not_response h'.2.1).elim
  | updateAddress id addr =>
    cases event' with
    | add => exact absurd (h.1.unique h'.1) (by decide)
    | remove => exact absurd (h.1.unique h'.1) (by decide)
    | updateAddress id' addr' =>
      rw [Option.some.inj (h.2.1.symm.trans h'.2.1), Option.some.inj (h.2.2.symm.trans h'.2.2)]
    | list => exact (h.1.not_response h'.2.1).elim
  | list entries =>
    cases event' with
    | add => exact (h'.1.not_response h.2.1).elim
    | remove => exact (h'.1.not_response h.2.1).elim
    | updateAddress => exact (h'.1.not_response h.2.1).elim
    | list entries' =>
      obtain ⟨_, _, _, _, _, _, hparse⟩ := h
      obtain ⟨_, _, _, _, _, _, hparse'⟩ := h'
      rw [Option.some.inj (hparse.symm.trans hparse')]

theorem onevent_of_announces {message : J} {event : CStr} (h : Announces L message event)
    (proxy : Proxy) (outcomes : List Outcome) :
    proxyOnmessage L proxy outcomes message = proxyOnevent L proxy outcomes event message := by
  simp only [proxyOnmessage, h.1, h.2.1, h.2.2, Bool.false_eq_true, if_false]

theorem onmessage_of_carries {message : J} {event : ProxyEvent} (h : Carries L message event)
    (proxy : Proxy) (outcomes : List Outcome) :
    proxyOnmessage L proxy outcomes message = handle proxy outcomes event := by
  cases event with
  | add entry =>
    obtain ⟨hname, hnull, hparse⟩ := h
    rw [onevent_of_announces hname, proxyOnevent, if_pos rfl, proxyHandleRegisterAdd]
    simp only [hnull, hparse, Bool.false_eq_true, if_false, handle, handleAdd]
    cases countLike proxy.registry entry <;> rfl
  | remove id =>
    obtain ⟨hname, hid⟩ := h
    rw [onevent_of_announces hname, proxyOnevent, if_neg (by decide), if_pos rfl,
      proxyHandleRegisterRemove]
    cases hget : registryGet proxy.registry id <;> simp only [hid, hget, handle, handleRemove]
  | updateAddress id addr =>
    obtain ⟨hname, hid, haddr⟩ := h
    rw [onevent_of_announces hname, proxyOnevent, if_neg (by decide), if_neg (by decide), if_pos rfl,
      proxyHandleUpdateAddress]
    simp only [hid, haddr, handle]
  | list entries =>
    obtain ⟨hmessage, hresponse, hnull, harray, hlength, hne, hparse⟩ := h
    have hlist : proxyOnmessage L proxy outcomes message =
        proxyHandleUpdateList L proxy outcomes message := by
      rw [proxyOnmessage, hmessage, if_neg Bool.false_ne_true]
      simp only [hresponse]
      rw [proxyOnresponse, if_neg (by decide), if_neg (by decide), if_neg (by decide), if_pos rfl]
    obtain ⟨e, l, rfl⟩ := List.exists_cons_of_ne_nil hne
    rw [hlist, proxyHandleUpdateList]
    simp only [hnull, harray, hlength, hparse, Bool.not_true, Bool.or_false, Bool.false_eq_true,
      if_false, handle, handleList]

theorem updateList_cases {proxy proxy' : Proxy} {outcomes : List Outcome} {message : J}
    {es : List Effect} (hnull : L.jsonIsnull message = false)
    (hresponse : L.jsonObjectGetstr message (ascii "response") = some (ascii "list"))
    (h : proxyHandleUpdateList L proxy outcomes message = some (proxy', es)) :
    (proxy'.registry = proxy.registry ∧ es = []) ∨ ∃ entries, Carries L message (.list entries) := by
  unfold proxyHandleUpdateList at h
  dsimp only at h
  split_ifs at h with hlist hlength
  · cases h
    exact .inl ⟨rfl, rfl⟩
  · cases h
    exact .inl ⟨rfl, rfl⟩
  · simp only [Bool.or_eq_true, not_or, Bool.not_eq_true, Bool.not_eq_false'] at hlist
    cases hparse : registryEntryParseList L (L.jsonObjectGet message (ascii "list")) with
    | none => simp [hparse] at h
    | some entries =>
      cases entries with
      | nil =>
        simp only [hparse] at h
        cases h
        exact .inl ⟨rfl, rfl⟩
      | cons e l =>
        exact .inr ⟨e :: l, hnull, hresponse, hlist.1, hlist.2, hlength, List.cons_ne_nil e l, hparse⟩

theorem onresponse_cases {proxy proxy' : Proxy} {outcomes : List Outcome} {message : J}
    {response : CStr} {es : List Effect} (hnull : L.jsonIsnull message = false)
    (hresponse : L.jsonObjectGetstr message (ascii "response") = some response)
    (h : proxyOnresponse L proxy outcomes response message = some (proxy', es)) :
    (proxy'.registry = proxy.registry ∧ ∀ e ∈ es, e = .quit) ∨ ∃ event, Carries L message event := by
  unfold proxyOnresponse at h
  split_ifs at h with _ _ _ _ hlist
  · cases h
    simp
  · cases h
    simp
  · cases h
    simp
  · cases h
    simp
  · rw [hlist] at hresponse
    rcases updateList_cases hnull hresponse h with ⟨hregistry, hes⟩ | ⟨entries, hcarries⟩
    · exact .inl ⟨hregistry, by simp [hes]⟩
    · exact .inr ⟨_, hcarries⟩
  · cases h
    simp

theorem onevent_cases {proxy proxy' : Proxy} {outcomes : List Outcome} {message : J}
    {event : CStr} {es : List Effect} (hevent : Announces L message event)
    (h : proxyOnevent L proxy outcomes event message = some (proxy', es)) :
    (proxy'.registry = proxy.registry ∧ es = []) ∨ ∃ event, Carries L message event := by
  unfold proxyOnevent at h
  split_ifs at h with hadd hremove hupdate
  · rw [hadd] at hevent
    unfold proxyHandleRegisterAdd at h
    dsimp only at h
    split_ifs at h with hnull
    · cases h
      exact .inl ⟨rfl, rfl⟩
    · split at h
      · simp at h
      · cases h
        exact .inl ⟨rfl, rfl⟩
      · next entry hparse =>
        exact .inr ⟨.add entry, hevent, Bool.eq_false_of_not_eq_true hnull, hparse⟩
  · rw [hremove] at hevent
    unfold proxyHandleRegisterRemove at h
    split at h
    · cases h
      exact .inl ⟨rfl, rfl⟩
    · next id hid => exact .inr ⟨.remove id, hevent, hid⟩
  · rw [hupdate] at hevent
    unfold proxyHandleUpdateAddress at h
    split at h
    · cases h
      exact .inl ⟨rfl, rfl⟩
    · next id hid =>
      split at h
      · cases h
        exact .inl ⟨rfl, rfl⟩
      · next addr haddr => exact .inr ⟨.updateAddress id addr, hevent, hid, haddr⟩
  · cases h
    exact .inl ⟨rfl, rfl⟩

theorem onmessage_cases {proxy proxy' : Proxy} {outcomes : List Outcome} {message : J}
    {es : List Effect} (h : proxyOnmessage L proxy outcomes message = some (proxy', es)) :
    (proxy'.registry = proxy.registry ∧ ∀ e ∈ es, e = .quit) ∨
      ∃ event, Carries L message event ∧ handle proxy outcomes event = some (proxy', es) := by
  have hcases : (proxy'.registry = proxy.registry ∧ ∀ e ∈ es, e = .quit) ∨
      ∃ event, Carries L message event := by
    have h' := h
    unfold proxyOnmessage at h'
    split_ifs at h' with hnull
    · cases h'
      simp
    · have hnull := Bool.eq_false_of_not_eq_true hnull
      split at h'
      · next response _ hresponse => exact onresponse_cases hnull hresponse h'
      · next event hresponse hevent =>
        rcases onevent_cases ⟨hnull, hresponse, hevent⟩ h' with ⟨hregistry, hes⟩ | hcarries
        · exact .inl ⟨hregistry, by simp [hes]⟩
        · exact .inr hcarries
      · cases h'
        simp
  rcases hcases with hidle | ⟨event, hcarries⟩
  · exact .inl hidle
  · exact .inr ⟨event, hcarries, onmessage_of_carries hcarries proxy outcomes ▸ h⟩

/-! ## The texts of the central registry -/

section Lawful
variable {denote : Value → J} (hL : L.Lawful denote)
include hL

theorem carries_add {e : Entry} (he : e.WellFormed) :
    Carries L (denote (addValue e.id e.name e.topic (registryTypeToStr e.type) (addrString e.addr)))
      (.add e.remote) := by
  have hkeys : [ascii "event", ascii "entry"].Nodup := by decide
  have hentry : L.jsonObjectGet (denote (addValue e.id e.name e.topic (registryTypeToStr e.type)
      (addrString e.addr))) (ascii "entry") = denote (RegistryEntry.Entry.value e) :=
    hL.objectGet hkeys rfl
  refine ⟨⟨hL.isnull_obj _, ?_, hL.objectGetstr hkeys rfl⟩, ?_, ?_⟩
  · exact hL.objectGetstr_none (show ascii "response" ∉ [ascii "event", ascii "entry"] by decide)
  · rw [hentry]
    exact hL.isnull_obj _
  · rw [hentry, registryEntryParse_value hL he]

theorem carries_remove (id : CStr) : Carries L (denote (removeValue id)) (.remove id) := by
  have hkeys : [ascii "event", ascii "id"].Nodup := by decide
  refine ⟨⟨hL.isnull_obj _, ?_, hL.objectGetstr hkeys rfl⟩, hL.objectGetstr hkeys rfl⟩
  exact hL.objectGetstr_none (show ascii "response" ∉ [ascii "event", ascii "id"] by decide)

theorem carries_list {r : Registry} (hr : ∀ e ∈ r, e.WellFormed) (hne : r ≠ []) :
    Carries L (denote (listValue r)) (.list (r.map Entry.remote)) := by
  have hkeys : [ascii "response", ascii "success", ascii "message", ascii "list"].Nodup := by decide
  have hlist : L.jsonObjectGet (denote (listValue r)) (ascii "list") =
      denote (.arr (r.reverse.map RegistryEntry.Entry.value)) := hL.objectGet hkeys rfl
  refine ⟨hL.isnull_obj _, hL.objectGetstr hkeys rfl, ?_⟩
  rw [hlist]
  refine ⟨hL.isnull_arr _, hL.isarray _, ?_, by simpa using hne, ?_⟩
  · rw [hL.arrayLength]
    simpa using hne
  · rw [registryEntryParseList_eq hL fun e he => hr e (List.mem_reverse.1 he), List.map_reverse,
      List.reverse_reverse]

end Lawful

end Proxy
end Rcom
