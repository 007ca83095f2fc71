import Rcom.Proxy
import Rcom.RcRegistry

/-!
# A proxy without endpoints of its own

Such a proxy only listens: it makes no connections and sends nothing, and each event is a
plain operation on its list of entries. The lemmas here say which one; they are all that
the results about replicas use of proxy.c.
-/

namespace Rcom
open Rcom.Lib Rcom.Lib.Json Rcom.Addr Rcom.RegistryEntry Rcom.Registry Rcom.RcRegistry

/-- What the proxy compares to find out whether it knows an entry. -/
def Entry.key (e : Entry) : CStr × CStr × EntryType × Option Addr := (e.name, e.topic, e.type, e.addr)

namespace Proxy

/-- Entries that came from the central registry, with their addresses. -/
def Listening (registry : Registry) : Prop := ∀ e ∈ registry, e.endpoint = none ∧ e.addr ≠ none

def addUnknown (registry : Registry) (e : Entry) : Registry :=
  if e.key ∈ registry.map Entry.key then registry else registry ++ [e]

theorem Listening.append {registry : Registry} (h : Listening registry) {e : Entry}
    (he : e.endpoint = none ∧ e.addr ≠ none) : Listening (registry ++ [e]) := by
  intro f hf
  rcases List.mem_append.1 hf with hf | hf
  · exact h f hf
  · exact List.mem_singleton.1 hf ▸ he

theorem Listening.addUnknown {registry : Registry} (h : Listening registry) {e : Entry}
    (he : e.endpoint = none ∧ e.addr ≠ none) : Listening (addUnknown registry e) := by
  unfold Proxy.addUnknown
  split
  · exact h
  · exact h.append he

theorem Listening.of_subset {registry registry' : Registry} (h : Listening registry)
    (hsub : registry' ⊆ registry) : Listening registry' := fun e he => h e (hsub he)

theorem Listening.updateFirst {registry : Registry} (h : Listening registry) (p : Entry → Bool)
    (a : Addr) : Listening (updateFirst p (setAddr (some a)) registry) := by
  intro e he
  rcases mem_updateFirst he with he | ⟨f, hf, -, rfl⟩
  · exact h e he
  · exact ⟨(h f hf).1, by simp⟩

/-! ## Connections -/

theorem localEndpoints_of_listening {registry : Registry} (h : Listening registry) :
    localEndpoints (registry.map some) = some [] := by
  induction registry with
  | nil => rfl
  | cons e l ih =>
    rw [List.map_cons, localEndpoints, ih (h.of_subset (List.subset_cons_self _ _)),
      (h e List.mem_cons_self).1]
    rfl

theorem select_of_listening {registry : Registry} (h : Listening registry) {f : Filter}
    (hf : f.addr = none) :
    ∃ l : List Entry, l ⊆ registry ∧ registrySelect registry f = some (l.map some) := by
  refine ⟨(registry.filter (picks f)).reverse, fun e he => ?_, ?_⟩
  · exact List.mem_of_mem_filter (List.mem_reverse.1 he)
  · rw [registrySelect_eq hf, map_cloneEntry fun e he => (h e (List.mem_of_mem_filter he)).2,
      List.map_reverse]

theorem localsOfTopic_of_listening {registry : Registry} (h : Listening registry) (topic : CStr)
    (type : EntryType) : localsOfTopic registry topic type = some [] := by
  obtain ⟨l, hl, heq⟩ := select_of_listening h (f := ofTopic topic type) rfl
  rw [localsOfTopic, heq, Option.bind_some, localEndpoints_of_listening (h.of_subset hl)]

theorem connectLoop_of_listening {l : List Entry} (h : Listening l) (c : Connecting) :
    connectLoop (l.map some) c = some c := by
  induction l with
  | nil => rfl
  | cons e l ih =>
    simp only [List.map_cons, connectLoop, (h e List.mem_cons_self).1]
    exact ih (h.of_subset (List.subset_cons_self _ _))

theorem proxyAddConnection_of_listening {c : Connecting} (h : Listening c.registry)
    (entry : Entry) : proxyAddConnection c entry = some c := by
  have hlocals := localsOfTopic_of_listening h
  unfold proxyAddConnection
  cases entry.type with
  | datalink =>
    obtain ⟨l, hl, heq⟩ := select_of_listening h (f := ofTopic entry.topic .datahub) rfl
    simp [proxyConnectDatalink, heq, ← List.map_take,
      localEndpoints_of_listening (h.of_subset fun e he => hl (List.mem_of_mem_take he))]
  | datahub => simp [proxyConnectDatahub, hlocals]
  | messagehub =>
    obtain ⟨l, hl, heq⟩ := select_of_listening h (f := ofTopic entry.topic .messagelink) rfl
    simp [proxyConnectMessagehub, heq, connectLoop_of_listening (h.of_subset hl)]
  | streamer => simp [proxyConnectStreamer, hlocals]
  | messagelink | service | streamerlink => rfl

theorem connectAll_of_listening {c : Connecting} (h : Listening c.registry) (l : List Entry) :
    connectAll (l.map some) c = some c := by
  induction l with
  | nil => rfl
  | cons e l ih =>
    rw [List.map_cons, connectAll, proxyAddConnection_of_listening h, Option.bind_some, ih]

theorem proxyRemoveConnection_of_listening {registry : Registry} (h : Listening registry)
    (entry : Entry) : proxyRemoveConnection registry entry = some [] := by
  unfold proxyRemoveConnection
  cases entry.type <;> simp [localsOfTopic_of_listening h]

/-! ## Entries that are known -/

/-- The filter of `countLike`. -/
def likeFilter (entry : Entry) : Filter :=
  ⟨none, some entry.name, some entry.topic, some entry.type, entry.addr, none⟩

theorem selects_like {e entry : Entry} (he : e.addr ≠ none) (hentry : entry.addr ≠ none) :
    selects (likeFilter entry) e = some (decide (e.key = entry.key)) := by
  obtain ⟨a, ha⟩ := Option.ne_none_iff_exists'.1 he
  obtain ⟨b, hb⟩ := Option.ne_none_iff_exists'.1 hentry
  have heq : addrEq a b = decide (a = b) := by
    rw [Bool.eq_iff_iff, addrEq_iff, decide_eq_true_iff]
  by_cases hk : entry.type = e.type ∧ entry.name = e.name ∧ entry.topic = e.topic
  · simp [selects, likeFilter, agrees, hk, ha, hb, heq, Entry.key]
  · have hne : e.key ≠ entry.key := fun h => hk (by
      simp only [Entry.key, Prod.mk.injEq] at h
      exact ⟨h.2.2.1.symm, h.1.symm, h.2.1.symm⟩)
    simp only [selects, likeFilter, agrees, Option.all_none, Option.all_some, Bool.true_and,
      Bool.and_eq_true, decide_eq_true_eq, and_assoc, if_neg hk, hne, decide_false]

theorem countLike_eq {registry : Registry} (h : ∀ e ∈ registry, e.addr ≠ none) {entry : Entry}
    (hentry : entry.addr ≠ none) :
    countLike registry entry = some (registry.countP fun e => e.key = entry.key) := by
  show registryCount registry (likeFilter entry) = _
  induction registry with
  | nil => rfl
  | cons e l ih =>
    rw [registryCount, selects_like (h e List.mem_cons_self) hentry,
      ih fun f hf => h f (List.mem_cons_of_mem _ hf)]
    by_cases hk : e.key = entry.key <;> simp [hk]

theorem countLike_eq_zero {registry : Registry} (h : ∀ e ∈ registry, e.addr ≠ none) {entry : Entry}
    (hentry : entry.addr ≠ none) (hnew : entry.key ∉ registry.map Entry.key) :
    countLike registry entry = some 0 := by
  rw [countLike_eq h hentry, Option.some.injEq, List.countP_eq_zero]
  intro e he
  rw [decide_eq_true_iff]
  exact fun hk => hnew (hk ▸ List.mem_map_of_mem he)

theorem countLike_ne_zero {registry : Registry} (h : ∀ e ∈ registry, e.addr ≠ none) {entry : Entry}
    (hentry : entry.addr ≠ none) (hknown : entry.key ∈ registry.map Entry.key) :
    ∃ n, countLike registry entry = some (n + 1) := by
  obtain ⟨e, he, hk⟩ := List.mem_map.1 hknown
  have hpos : 0 < registry.countP fun e => e.key = entry.key :=
    List.countP_pos_iff.2 ⟨e, he, by simpa using hk⟩
  exact ⟨_, by rw [countLike_eq h hentry, Option.some.injEq, Nat.sub_add_cancel hpos]⟩

/-! ## The list of the central registry -/

theorem addMissing_eq {es registry : Registry} (h : ∀ e ∈ registry, e.addr ≠ none)
    (hes : ∀ e ∈ es, e.addr ≠ none) (hkeys : (es.map Entry.key).Nodup) :
    addMissing es registry =
      some (registry ++ es.filter fun e => e.key ∉ registry.map Entry.key) := by
  induction es generalizing registry with
  | nil => simp [addMissing]
  | cons e es ih =>
    have he := hes e List.mem_cons_self
    have hes' : ∀ f ∈ es, f.addr ≠ none := fun f hf => hes f (List.mem_cons_of_mem _ hf)
    obtain ⟨hnot, hkeys'⟩ := List.nodup_cons.1 hkeys
    by_cases hk : e.key ∈ registry.map Entry.key
    · obtain ⟨n, hn⟩ := countLike_ne_zero h he hk
      rw [addMissing, hn]
      simp only [ih h hes' hkeys', List.filter_cons, hk, not_true, decide_false,
        Bool.false_eq_true, if_false]
    · have hrest : es.filter (fun f => f.key ∉ (registry ++ [e]).map Entry.key) =
          es.filter fun f => f.key ∉ registry.map Entry.key := by
        refine List.filter_congr fun f hf => ?_
        have hne : f.key ≠ e.key := fun hfe => hnot (hfe ▸ List.mem_map_of_mem hf)
        simp [hne]
      have hadd : ∀ f ∈ registry ++ [e], f.addr ≠ none := fun f hf => by
        rcases List.mem_append.1 hf with hf | hf
        · exact h f hf
        · exact List.mem_singleton.1 hf ▸ he
      rw [addMissing, countLike_eq_zero h he hk]
      simp only [registryInsertEntry_eq registry he, Option.getD_some]
      rw [ih hadd hes' hkeys', hrest, List.filter_cons_of_pos (by simpa using hk)]
      simp

theorem entryEquals_eq {entry e : Entry} (hentry : entry.addr ≠ none) (he : e.addr ≠ none) :
    entryEquals entry e = some (decide (e.key = entry.key)) := by
  obtain ⟨a, ha⟩ := Option.ne_none_iff_exists'.1 he
  obtain ⟨b, hb⟩ := Option.ne_none_iff_exists'.1 hentry
  have heq : addrEq a b = decide (a = b) := by
    rw [Bool.eq_iff_iff, addrEq_iff, decide_eq_true_iff]
  unfold entryEquals
  split_ifs with hk
  · simp [ha, hb, heq, Entry.key, hk]
  · have hne : e.key ≠ entry.key := fun h => hk (by
      simp only [Entry.key, Prod.mk.injEq] at h
      exact ⟨h.2.2.1, h.1, h.2.1⟩)
    simp [hne]

theorem listContains_eq {list : List Entry} (h : ∀ e ∈ list, e.addr ≠ none) {e : Entry}
    (he : e.addr ≠ none) :
    listContains list e = some (decide (e.key ∈ list.map Entry.key)) := by
  induction list with
  | nil => simp [listContains]
  | cons f l ih =>
    rw [listContains, entryEquals_eq he (h f List.mem_cons_self)]
    by_cases hk : f.key = e.key
    · simp [hk]
    · simp [hk, Ne.symm hk, ih fun g hg => h g (List.mem_cons_of_mem _ hg)]

/-- The loop deletes by id, and finds what it wants to delete first: `A` has distinct ids,
and the entries of `B`, that may share them, come after. -/
theorem removeVanished_eq {remote B : Registry} (hremote : ∀ e ∈ remote, e.addr ≠ none)
    {l A : Registry} (hnodup : l.Nodup) (hids : (A.map Entry.id).Nodup) (hl : Listening l)
    (hmem : ∀ e ∈ l, e.key ∉ remote.map Entry.key → e ∈ A) :
    removeVanished remote (l.map some) (A ++ B) =
      some (A.filter (fun e => ¬ (e ∈ l ∧ e.key ∉ remote.map Entry.key)) ++ B) := by
  induction l generalizing A with
  | nil => simp [removeVanished]
  | cons e l ih =>
    obtain ⟨hnot, hnodup'⟩ := List.nodup_cons.1 hnodup
    have hl' := hl.of_subset (List.subset_cons_self e l)
    have hmem' : ∀ f ∈ l, f.key ∉ remote.map Entry.key → f ∈ A :=
      fun f hf => hmem f (List.mem_cons_of_mem _ hf)
    obtain ⟨hend, haddr⟩ := hl e List.mem_cons_self
    rw [List.map_cons, removeVanished, listContains_eq hremote haddr]
    by_cases hk : e.key ∈ remote.map Entry.key
    · simp only [hk, decide_true, ih hnodup' hids hl' hmem']
      congr 2
      refine List.filter_congr fun f _ => ?_
      by_cases hfe : f = e
      · simp [hfe, hk]
      · simp [hfe]
    · have he : e ∈ A := hmem e List.mem_cons_self hk
      have hdelete : registryDelete (A ++ B) e.id =
          some (A.filter (fun f => f.id ≠ e.id) ++ B) := by
        rw [registryDelete_known ⟨e, List.mem_append_left _ he, rfl⟩,
          List.eraseP_append_left (by simp) _ he, eraseP_key hids]
      have hid : ∀ f ∈ A, f.id = e.id ↔ f = e := fun f hf =>
        ⟨List.inj_on_of_nodup_map hids hf he, fun h => h ▸ rfl⟩
      have hids' : ((A.filter fun f => f.id ≠ e.id).map Entry.id).Nodup :=
        (List.filter_sublist.map Entry.id).nodup hids
      have hmemE : ∀ f ∈ l, f.key ∉ remote.map Entry.key → f ∈ A.filter fun f => f.id ≠ e.id := by
        intro f hf hfk
        have hfA := hmem' f hf hfk
        rw [List.mem_filter, decide_eq_true_iff, ne_eq, hid f hfA]
        exact ⟨hfA, fun hfe => hnot (hfe ▸ hf)⟩
      simp only [hk, decide_false, hend, Option.isSome_none, Bool.false_eq_true, if_false, hdelete,
        Option.getD_some, ih hnodup' hids' hl' hmemE, List.filter_filter]
      congr 2
      refine List.filter_congr fun f hf => ?_
      by_cases hfe : f = e
      · simp [hfe, hk]
      · simp [hfe, hid f hf]

/-- What is left of the proxy's list once the list of the central registry has been taken
over. -/
def takeOver (registry remote : Registry) : Registry :=
  registry.filter (fun e => e.key ∈ remote.map Entry.key) ++
    remote.filter fun e => e.key ∉ registry.map Entry.key

theorem Listening.takeOver {registry remote : Registry} (h : Listening registry)
    (hremote : Listening remote) : Listening (takeOver registry remote) := by
  intro e he
  rcases List.mem_append.1 he with he | he
  · exact h e (List.mem_of_mem_filter he)
  · exact hremote e (List.mem_of_mem_filter he)

theorem removeVanished_takeOver {registry remote : Registry} (h : Listening registry)
    (hremote : Listening remote) (hids : (registry.map Entry.id).Nodup)
    (hkeys : (remote.map Entry.key).Nodup) :
    removeVanished remote
        ((registry ++ remote.filter fun e => e.key ∉ registry.map Entry.key).reverse.map some)
        (registry ++ remote.filter fun e => e.key ∉ registry.map Entry.key) =
      some (takeOver registry remote) := by
  have hA : registry.Nodup := hids.of_map _
  have hB : (remote.filter fun e => e.key ∉ registry.map Entry.key).Nodup :=
    (hkeys.of_map _).filter _
  have hdisjoint : ∀ e ∈ registry, e ∉ remote.filter fun e => e.key ∉ registry.map Entry.key := by
    intro e he hmem
    have hnot := (List.mem_filter.1 hmem).2
    exact (by simpa using hnot : ∀ f ∈ registry, f.key ≠ e.key) e he rfl
  have hlisten : Listening (registry ++ remote.filter fun e => e.key ∉ registry.map Entry.key) :=
    fun e he => (List.mem_append.1 he).elim (h e) fun he => hremote e (List.mem_of_mem_filter he)
  rw [removeVanished_eq (fun e he => (hremote e he).2) _ hids]
  · rw [takeOver]
    congr 2
    refine List.filter_congr fun e he => ?_
    simp [he]
  · intro e he
    exact hlisten e (List.mem_reverse.1 he)
  · intro e he hk
    rcases List.mem_append.1 (List.mem_reverse.1 he) with he | he
    · exact he
    · exact absurd (List.mem_map_of_mem (List.mem_of_mem_filter he)) hk
  · rw [List.nodup_reverse, List.nodup_append]
    exact ⟨hA, hB, fun e he f hf hef => hdisjoint e he (hef ▸ hf)⟩

theorem proxyHandleUpdateList_eq {J : Type} {L : JsonLib J} {proxy : Proxy}
    (h : Listening proxy.registry) (hids : (proxy.registry.map Entry.id).Nodup) {message : J}
    (hnull : L.jsonIsnull (L.jsonObjectGet message (ascii "list")) = false)
    (harray : L.jsonIsarray (L.jsonObjectGet message (ascii "list")) = true)
    (hlength : L.jsonArrayLength (L.jsonObjectGet message (ascii "list")) ≠ 0) {remote : Registry}
    (hparse : registryEntryParseList L (L.jsonObjectGet message (ascii "list")) = some remote)
    (hne : remote ≠ []) (hremote : Listening remote) (hkeys : (remote.map Entry.key).Nodup)
    (outcomes : List Outcome) :
    proxyHandleUpdateList L proxy outcomes message =
      some (⟨takeOver proxy.registry remote, .ready⟩, []) := by
  have haddr : ∀ e ∈ proxy.registry ++ remote.filter (fun e => e.key ∉ proxy.registry.map Entry.key),
      e.addr ≠ none := fun e he =>
    (List.mem_append.1 he).elim (fun he => (h e he).2) fun he =>
      (hremote e (List.mem_of_mem_filter he)).2
  have htaken := h.takeOver hremote
  unfold proxyHandleUpdateList
  simp only [hnull, harray, hlength, hparse, Bool.not_true, Bool.or_false, Bool.false_eq_true,
    if_false]
  obtain ⟨e, l, rfl⟩ := List.exists_cons_of_ne_nil hne
  simp only [addMissing_eq (fun e he => (h e he).2) (fun e he => (hremote e he).2) hkeys,
    Option.bind_some, registrySelectAll_of_addr haddr,
    removeVanished_takeOver h hremote hids hkeys,
    registrySelectAll_of_addr fun e he => (htaken e he).2]
  rw [connectAll_of_listening htaken]
  rfl

/-! ## Messages -/

theorem onmessage_event {J : Type} {L : JsonLib J} {message : J} {event : CStr}
    (hnull : L.jsonIsnull message = false)
    (hresponse : L.jsonObjectGetstr message (ascii "response") = none)
    (hevent : L.jsonObjectGetstr message (ascii "event") = some event) (proxy : Proxy)
    (outcomes : List Outcome) :
    proxyOnmessage L proxy outcomes message = proxyOnevent L proxy outcomes event message := by
  simp only [proxyOnmessage, hnull, hresponse, hevent, Bool.false_eq_true, if_false]

section Lawful
variable {J : Type} {L : JsonLib J} {denote : Value → J} (hL : L.Lawful denote)
include hL

theorem onmessage_add {proxy : Proxy} (h : Listening proxy.registry) {e : Entry}
    (he : e.WellFormed) (outcomes : List Outcome) :
    proxyOnmessage L proxy outcomes (denote (addValue e.id e.name e.topic
        (registryTypeToStr e.type) (addrString e.addr))) =
      some ({ proxy with registry := addUnknown proxy.registry e.remote }, []) := by
  have hkeys : [ascii "event", ascii "entry"].Nodup := by decide
  have hentry : L.jsonObjectGet (denote (addValue e.id e.name e.topic (registryTypeToStr e.type)
      (addrString e.addr))) (ascii "entry") = denote (RegistryEntry.Entry.value e) :=
    hL.objectGet hkeys rfl
  have hevent : L.jsonObjectGetstr (denote (addValue e.id e.name e.topic (registryTypeToStr e.type)
      (addrString e.addr))) (ascii "event") = some (ascii "proxy-add") := hL.objectGetstr hkeys rfl
  have haddr : e.remote.addr ≠ none := he.addr
  have hnull : L.jsonIsnull (denote (addValue e.id e.name e.topic (registryTypeToStr e.type)
      (addrString e.addr))) = false :=
    hL.isnull_obj _
  have hresponse : L.jsonObjectGetstr (denote (addValue e.id e.name e.topic (registryTypeToStr e.type)
      (addrString e.addr))) (ascii "response") = none :=
    hL.objectGetstr_none (show ascii "response" ∉ [ascii "event", ascii "entry"] by decide)
  rw [onmessage_event hnull hresponse hevent, proxyOnevent,
    if_pos rfl, proxyHandleRegisterAdd]
  have hentrynull : L.jsonIsnull (denote (RegistryEntry.Entry.value e)) = false := hL.isnull_obj _
  simp only [hentry, hentrynull, registryEntryParse_value hL he, Bool.false_eq_true, if_false]
  by_cases hk : e.remote.key ∈ proxy.registry.map Entry.key
  · obtain ⟨n, hn⟩ := countLike_ne_zero (fun f hf => (h f hf).2) haddr hk
    simp only [hn, Nat.add_one_ne_zero, if_false, addUnknown, if_pos hk]
    rw [proxyAddConnection_of_listening h]
    rfl
  · simp only [countLike_eq_zero (fun f hf => (h f hf).2) haddr hk, if_true,
      registryInsertEntry_eq _ haddr, addUnknown, if_neg hk]
    rw [proxyAddConnection_of_listening (h.append ⟨rfl, haddr⟩)]
    rfl

theorem onmessage_remove {proxy : Proxy} (h : Listening proxy.registry) (id : CStr)
    (outcomes : List Outcome) :
    proxyOnmessage L proxy outcomes (denote (removeValue id)) =
      some ({ proxy with registry := proxy.registry.eraseP fun e => e.id = id }, []) := by
  have hkeys : [ascii "event", ascii "id"].Nodup := by decide
  have hid : L.jsonObjectGetstr (denote (removeValue id)) (ascii "id") = some id :=
    hL.objectGetstr hkeys rfl
  have hevent : L.jsonObjectGetstr (denote (removeValue id)) (ascii "event") =
      some (ascii "proxy-remove") := hL.objectGetstr hkeys rfl
  have hnull : L.jsonIsnull (denote (removeValue id)) = false :=
    hL.isnull_obj _
  have hresponse : L.jsonObjectGetstr (denote (removeValue id)) (ascii "response") = none :=
    hL.objectGetstr_none (show ascii "response" ∉ [ascii "event", ascii "id"] by decide)
  rw [onmessage_event hnull hresponse hevent, proxyOnevent,
    if_neg (by decide), if_pos rfl, proxyHandleRegisterRemove]
  simp only [hid]
  by_cases hh : Holds proxy.registry id
  · obtain ⟨e, he⟩ : ∃ e, proxy.registry.find? (fun e => e.id = id) = some e := by
      obtain ⟨e, he, hid⟩ := hh
      exact Option.isSome_iff_exists.1 (List.find?_isSome.2 ⟨e, he, by simpa using hid⟩)
    have hclone := cloneEntry_of_addr (h e (List.mem_of_find?_eq_some he)).2
    simp only [registryGet, he, Option.bind_some, hclone, registryDelete_known hh, Option.getD_some]
    rw [proxyRemoveConnection_of_listening (h.of_subset List.eraseP_subset)]
    rfl
  · have hnone : ∀ e ∈ proxy.registry, ¬ decide (e.id = id) = true := fun e he hid =>
      hh ⟨e, he, by simpa using hid⟩
    simp only [registryGet, List.find?_eq_none.2 hnone, Option.bind_none,
      List.eraseP_of_forall_not hnone]

theorem onmessage_update (proxy : Proxy) (id addr : CStr) (outcomes : List Outcome) :
    proxyOnmessage L proxy outcomes (denote (updateAddressValue id addr)) =
      (registryUpdateAddr proxy.registry id addr).map
        fun p => ({ proxy with registry := p.1 }, []) := by
  have hkeys : [ascii "event", ascii "id", ascii "addr"].Nodup := by decide
  have hid : L.jsonObjectGetstr (denote (updateAddressValue id addr)) (ascii "id") = some id :=
    hL.objectGetstr hkeys rfl
  have haddr : L.jsonObjectGetstr (denote (updateAddressValue id addr)) (ascii "addr") = some addr :=
    hL.objectGetstr hkeys rfl
  have hevent : L.jsonObjectGetstr (denote (updateAddressValue id addr)) (ascii "event") =
      some (ascii "proxy-update-address") := hL.objectGetstr hkeys rfl
  have hnull : L.jsonIsnull (denote (updateAddressValue id addr)) = false :=
    hL.isnull_obj _
  have hresponse : L.jsonObjectGetstr (denote (updateAddressValue id addr)) (ascii "response") = none :=
    hL.objectGetstr_none (show ascii "response" ∉ [ascii "event", ascii "id", ascii "addr"] by decide)
  rw [onmessage_event hnull hresponse hevent, proxyOnevent,
    if_neg (by decide), if_neg (by decide), if_pos rfl, proxyHandleUpdateAddress]
  simp only [hid, haddr]

theorem onmessage_list {proxy : Proxy} (h : Listening proxy.registry)
    (hids : (proxy.registry.map Entry.id).Nodup) {r : Registry} (hr : ∀ e ∈ r, e.WellFormed)
    (hne : r ≠ []) (hkeys : (r.map Entry.key).Nodup) (outcomes : List Outcome) :
    proxyOnmessage L proxy outcomes (denote (listValue r)) =
      some (⟨takeOver proxy.registry (r.map Entry.remote), .ready⟩, []) := by
  have hfields : [ascii "response", ascii "success", ascii "message", ascii "list"].Nodup := by
    decide
  have hresponse : L.jsonObjectGetstr (denote (listValue r)) (ascii "response") =
      some (ascii "list") := hL.objectGetstr hfields rfl
  have hlist : L.jsonObjectGet (denote (listValue r)) (ascii "list") =
      denote (.arr (r.reverse.map RegistryEntry.Entry.value)) := hL.objectGet hfields rfl
  have hnull : L.jsonIsnull (denote (listValue r)) = false := hL.isnull_obj _
  have hparse : registryEntryParseList L (denote (.arr (r.reverse.map RegistryEntry.Entry.value))) =
      some (r.map Entry.remote) := by
    rw [registryEntryParseList_eq hL fun e he => hr e (List.mem_reverse.1 he), List.map_reverse,
      List.reverse_reverse]
  rw [proxyOnmessage, hnull, if_neg Bool.false_ne_true]
  simp only [hresponse]
  rw [proxyOnresponse, if_neg (by decide), if_neg (by decide), if_neg (by decide), if_pos rfl]
  refine proxyHandleUpdateList_eq h hids ?_ ?_ ?_ (hlist ▸ hparse) (by simpa using hne) ?_ ?_ _
  · rw [hlist]
    exact hL.isnull_arr _
  · rw [hlist]
    exact hL.isarray _
  · rw [hlist, hL.arrayLength]
    simpa using hne
  · intro f hf
    obtain ⟨e, he, rfl⟩ := List.mem_map.1 hf
    exact ⟨rfl, (hr e he).addr⟩
  · rw [List.map_map]
    exact hkeys

theorem onmessage_list_nil (proxy : Proxy) (outcomes : List Outcome) :
    proxyOnmessage L proxy outcomes (denote (listValue [])) =
      some ({ proxy with status := .ready }, []) := by
  have hfields : [ascii "response", ascii "success", ascii "message", ascii "list"].Nodup := by
    decide
  have hresponse : L.jsonObjectGetstr (denote (listValue [])) (ascii "response") =
      some (ascii "list") := hL.objectGetstr hfields rfl
  have hlist : L.jsonObjectGet (denote (listValue [])) (ascii "list") = denote (.arr []) :=
    hL.objectGet hfields rfl
  have hnull : L.jsonIsnull (denote (listValue [])) = false := hL.isnull_obj _
  rw [proxyOnmessage, hnull, if_neg Bool.false_ne_true]
  simp only [hresponse]
  rw [proxyOnresponse, if_neg (by decide), if_neg (by decide), if_neg (by decide), if_pos rfl]
  simp [proxyHandleUpdateList, hlist, hL.isnull_arr, hL.isarray, hL.arrayLength]

end Lawful

end Proxy
end Rcom
