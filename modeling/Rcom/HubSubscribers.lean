import Rcom.Connections
import Rcom.Listener
import Rcom.Lib.Trace

/-!
# The links of a hub and the registry

After a node has opened a hub, the registry's events are to keep the hub's list of links
equal to the data links of its topic. Removing a link from the registry does not remove it
from the hub: in `proxy_remove_connection` the case of data links breaks before the call of
`proxy_remove_datalink`.
-/

namespace Rcom
open Rcom.Lib Rcom.Lib.Json Rcom.Lib.Trace Rcom.Addr Rcom.RegistryEntry Rcom.Registry Rcom.RcRegistry
open Rcom.Proxy Rcom.Node

namespace Node

def Known (topic : CStr) (registry : Registry) (addr : Option Addr) : Prop :=
  ∃ d ∈ registry, onTopic topic .datalink d ∧ d.addr = addr

def Subscribed (topic : CStr) (hub : Endpoint) (node : Node) : Prop :=
  ∃ links, node.datahubs hub = some links ∧ links.Nodup ∧
    ∀ a, a ∈ links ↔ Known topic node.proxy.registry (some a)

def OneHub (topic : CStr) (registry : Registry) : Prop :=
  (registry.filter (onTopic topic .datahub)).length ≤ 1

def HubRegistered (hub : Endpoint) (registry : Registry) : Prop :=
  ∃ f ∈ registry, f.endpoint = some hub

/-- The entry goes with the list `es`: it has no endpoint, and none of the list is like it. -/
def Vanishes (es : List Entry) (v : Entry) : Prop :=
  v.endpoint = none ∧ ∀ e ∈ es, e.key ≠ v.key

def Stays (registry : Registry) (es : List Entry) (d : Entry) : Prop :=
  d ∈ registry ∧ ∀ v ∈ registry, Vanishes es v → v.id ≠ d.id

/-- No message link of the node has the id of a data link of the topic. -/
def Apart (topic : CStr) (registry : Registry) : Prop :=
  ∀ m ∈ registry, m.type = .messagelink → m.endpoint.isSome →
    ∀ d ∈ registry, onTopic topic .datalink d → d.id ≠ m.id

/-- The events that do not need the hub to forget a link, nor to hear of one while it is not
registered. -/
def Harmless (topic : CStr) (hub : Endpoint) (registry : Registry) : ProxyEvent → Prop
  | .add e => (onTopic topic .datalink e → HubRegistered hub registry ∨ Known topic registry e.addr) ∧
      (e.type = .messagehub → Apart topic registry)
  | .remove id => ∀ d, registry.find? (fun e => e.id = id) = some d → onTopic topic .datalink d →
      Known topic (registry.eraseP fun e => e.id = id) d.addr
  | .updateAddress id _ => ∀ d, registry.find? (fun e => e.id = id) = some d →
      ¬onTopic topic .datalink d
  | .list es =>
      (∀ d ∈ registry, onTopic topic .datalink d →
        ∃ d', Stays registry es d' ∧ onTopic topic .datalink d' ∧ d'.addr = d.addr) ∧
      ((∃ f, Stays registry es f ∧ f.endpoint = some hub) ∨
        ∀ e ∈ es, onTopic topic .datalink e → Known topic registry e.addr) ∧
      Apart topic (registry ++ es)

/-! ## The hub of the topic -/

def Own (topic : CStr) (hub : Endpoint) (registry : Registry) : Prop :=
  ∀ e ∈ registry, e.endpoint = some hub → onTopic topic .datahub e

theorem hubOf_iff {topic : CStr} {hub : Endpoint} {registry : Registry} (hown : Own topic hub registry)
    (hone : OneHub topic registry) :
    hubOf registry topic = some hub ↔ HubRegistered hub registry := by
  constructor
  · intro h
    obtain ⟨f, hf, hend⟩ := Option.bind_eq_some_iff.1 h
    exact ⟨f, List.mem_of_mem_filter (List.mem_of_getLast? hf), hend⟩
  · intro ⟨f, hf, hend⟩
    have hmem : f ∈ registry.filter (onTopic topic .datahub) :=
      List.mem_filter.2 ⟨hf, hown f hf hend⟩
    have hpos := List.length_pos_of_mem hmem
    obtain ⟨g, hg⟩ := List.length_eq_one_iff.1 (Nat.le_antisymm hone hpos)
    rw [hg, List.mem_singleton] at hmem
    rw [hubOf, hg, ← hmem]
    exact hend

/-- An entry adds its address to the hub exactly if it is a data link of the topic, and the
hub is registered. -/
theorem connects_iff {topic : CStr} {hub : Endpoint} {registry : Registry}
    (hown : Own topic hub registry) (hone : OneHub topic registry) (e : Entry) :
    (e.type = .datalink ∧ hubOf registry e.topic = some hub) ↔
      onTopic topic .datalink e ∧ HubRegistered hub registry := by
  rw [onTopic_iff]
  constructor
  · intro ⟨htype, hhub⟩
    obtain ⟨f, hf, hend⟩ := Option.bind_eq_some_iff.1 hhub
    have hmem := List.mem_of_getLast? hf
    have hreg := List.mem_of_mem_filter hmem
    have htopic : e.topic = topic := by
      have h := (onTopic_iff.1 (List.mem_filter.1 hmem).2).2
      rw [← h]
      exact (onTopic_iff.1 (hown f hreg hend)).2
    exact ⟨⟨htype, htopic⟩, f, hreg, hend⟩
  · intro ⟨⟨htype, htopic⟩, hhub⟩
    exact ⟨htype, htopic ▸ (hubOf_iff hown hone).2 hhub⟩

/-! ## One step -/

theorem onTopic_setAddr (topic : CStr) (type : EntryType) (a : Option Addr) (e : Entry) :
    onTopic topic type (setAddr a e) = onTopic topic type e := rfl

structure Serving (topic : CStr) (hub : Endpoint) (node : Node) : Prop where
  subscribed : Subscribed topic hub node
  own : Own topic hub node.proxy.registry

theorem Own.moved {topic : CStr} {hub : Endpoint} {keep : Entry → Bool} {r r' : Registry}
    (h : Own topic hub r) (hmoved : Moved keep r r') : Own topic hub r' := by
  intro e he hend
  obtain ⟨e', he', heq⟩ := hmoved.symm.exists he
  obtain ⟨_, htopic, htype, hend'⟩ := eq_of_setAddr heq
  have hon := onTopic_iff.1 (h e' he' (hend'.trans hend))
  exact onTopic_iff.2 ⟨htype ▸ hon.1, htopic ▸ hon.2⟩

theorem Own.subset {topic : CStr} {hub : Endpoint} {r r' : Registry} (h : Own topic hub r)
    (hsub : ∀ e ∈ r', e ∈ r ∨ e.endpoint = none) : Own topic hub r' := by
  intro e he hend
  rcases hsub e he with hmem | hnone
  · exact h e hmem hend
  · rw [hnone] at hend
    simp at hend

theorem OneHub.moved {topic : CStr} {keep : Entry → Bool} {r r' : Registry} (h : OneHub topic r')
    (hmoved : Moved keep r r') : OneHub topic r := by
  have hlength : ∀ r : Registry, (r.filter (onTopic topic .datahub)).length =
      ((r.map (setAddr none)).filter (onTopic topic .datahub)).length := by
    intro r
    have hon : onTopic topic .datahub ∘ setAddr none = onTopic topic .datahub := rfl
    rw [List.filter_map, hon, List.length_map]
  unfold OneHub at h ⊢
  rwa [hlength, ← hmoved.skeleton, ← hlength]

theorem known_moved {topic : CStr} {r r' : Registry} (h : Moved (onTopic topic .datalink) r r')
    (a : Option Addr) : Known topic r' a ↔ Known topic r a := by
  constructor
  · intro ⟨d, hd, hon, ha⟩
    exact ⟨d, (h.mem_iff hon).1 hd, hon, ha⟩
  · intro ⟨d, hd, hon, ha⟩
    exact ⟨d, (h.mem_iff hon).2 hd, hon, ha⟩

/-- The hub's list follows when what the event adds to it is what it adds to the registry. -/
theorem Serving.after {topic : CStr} {hub : Endpoint} {node node' : Node} {proxy : Proxy}
    {es : List Effect} (h : Serving topic hub node)
    (hperform : performAll { node with proxy := proxy } es = some node')
    (hown : Own topic hub proxy.registry)
    (hmem : ∀ a, Known topic proxy.registry (some a) ↔
      Known topic node.proxy.registry (some a) ∨ .datahubAddLink hub (some a) ∈ es) :
    Serving topic hub node' := by
  obtain ⟨links, hlinks, hnodup, hknown⟩ := h.subscribed
  obtain ⟨hproxy, hhubs⟩ := performAll_spec hperform
  obtain ⟨links', hlinks', hnodup', hmem'⟩ := hhubs hub links hlinks
  constructor
  · refine ⟨links', hlinks', hnodup' hnodup, fun a => ?_⟩
    rw [hmem', hknown, hproxy, hmem]
  · rw [hproxy]
    exact hown

theorem like_of_count {registry : Registry} {entry : Entry} (hentry : entry.addr ≠ none) {n : ℕ}
    (h : countLike registry entry = some n) (hn : n ≠ 0) : ∃ f ∈ registry, f.key = entry.key := by
  change registryCount registry (likeFilter entry) = some n at h
  induction registry generalizing n with
  | nil =>
    simp only [registryCount, Option.some.injEq] at h
    exact absurd h.symm hn
  | cons e l ih =>
    rw [registryCount] at h
    split at h
    · simp at h
    · next b hselects =>
      obtain ⟨k, hk, rfl⟩ := Option.map_eq_some_iff.1 h
      cases b with
      | true =>
        refine ⟨e, List.mem_cons_self, ?_⟩
        have haddr : e.addr ≠ none := by
          intro hnone
          obtain ⟨a, ha⟩ := Option.ne_none_iff_exists'.1 hentry
          simp [selects, likeFilter, hnone, ha] at hselects
        rw [selects_like haddr hentry] at hselects
        simpa using hselects
      | false =>
        obtain ⟨f, hf, hkey⟩ := ih (by simpa using hn) hk
        exact ⟨f, List.mem_cons_of_mem _ hf, hkey⟩

theorem known_of_key {topic : CStr} {registry : Registry} {e f : Entry} (hf : f ∈ registry)
    (hkey : f.key = e.key) (hon : onTopic topic .datalink e) : Known topic registry e.addr := by
  simp only [Entry.key, Prod.mk.injEq] at hkey
  obtain ⟨htype, htopic⟩ := onTopic_iff.1 hon
  exact ⟨f, hf, onTopic_iff.2 ⟨hkey.2.2.1.trans htype, hkey.2.1.trans htopic⟩, hkey.2.2.2⟩

theorem Serving.add {topic : CStr} {hub : Endpoint} {node node' : Node} {proxy : Proxy}
    {outcomes : List Outcome} {e : Entry} {es : List Effect} (h : Serving topic hub node)
    (hhandle : handleAdd node.proxy outcomes e = some (proxy, es))
    (hperform : performAll { node with proxy := proxy } es = some node')
    (hend : e.endpoint = none) (haddr : e.addr ≠ none) (hone : OneHub topic proxy.registry)
    (hG : Harmless topic hub node.proxy.registry (.add e)) : Serving topic hub node' := by
  obtain ⟨count, hcount, hrest⟩ := Option.bind_eq_some_iff.1 hhandle
  -- the registry in which the connections are made: with the entry, or as it was
  obtain ⟨registry, hregistry, hsub, hsup, hknown⟩ : ∃ registry,
      (if count = 0 then registryInsertEntry node.proxy.registry e else some node.proxy.registry) =
        some registry ∧
      (∀ f ∈ registry, f ∈ node.proxy.registry ∨ f = e) ∧ (∀ f ∈ node.proxy.registry, f ∈ registry) ∧
      (onTopic topic .datalink e → Known topic registry e.addr) := by
    by_cases hzero : count = 0
    · refine ⟨node.proxy.registry ++ [e], ?_, ?_, ?_, ?_⟩
      · rw [if_pos hzero, registryInsertEntry_eq _ haddr]
      · intro f hf
        simpa using hf
      · intro f hf
        exact List.mem_append_left _ hf
      · intro hon
        exact ⟨e, List.mem_append_right _ List.mem_cons_self, hon, rfl⟩
    · obtain ⟨f, hf, hkey⟩ := like_of_count haddr hcount hzero
      exact ⟨node.proxy.registry, if_neg hzero, fun f hf => .inl hf, fun f hf => hf,
        known_of_key hf hkey⟩
  rw [hregistry] at hrest
  obtain ⟨c, hconnect, heq⟩ := Option.map_eq_some_iff.1 hrest
  cases heq
  have hids : e.type = .messagehub → ∀ m ∈ registry, onTopic e.topic .messagelink m →
      m.endpoint.isSome → ∀ d ∈ registry, onTopic topic .datalink d = true → d.id ≠ m.id := by
    intro htype m hm hon hlocal d hd hdon
    have hm' : m ∈ node.proxy.registry := (hsub m hm).resolve_right fun heq => by
      rw [heq, hend] at hlocal
      simp at hlocal
    have hd' : d ∈ node.proxy.registry := (hsub d hd).resolve_right fun heq => by
      rw [heq, onTopic_iff, htype] at hdon
      simp at hdon
    exact hG.2 htype m hm' (onTopic_iff.1 hon).1 hlocal d hd' hdon
  obtain ⟨es, hconnected⟩ := addConnection_connected (onTopic_setAddr topic .datalink) hconnect hids
  have heffects : c.effects = es := by simpa using hconnected.effects
  have hown : Own topic hub registry := h.own.subset fun f hf =>
    (hsub f hf).imp_right fun (heq : f = e) => heq ▸ hend
  have hregistered : HubRegistered hub node.proxy.registry → HubRegistered hub registry :=
    fun ⟨f, hf, hhub⟩ => ⟨f, hsup f hf, hhub⟩
  have hiff := connects_iff hown (hone.moved hconnected.moved) e
  refine h.after hperform (hown.moved hconnected.moved) fun a => ?_
  rw [heffects, hconnected.hubs]
  refine (known_moved hconnected.moved _).trans ?_
  constructor
  · intro ⟨d, hd, hon, ha⟩
    rcases hsub d hd with hold | rfl
    · exact .inl ⟨d, hold, hon, ha⟩
    · rcases hG.1 hon with hhub | hold
      · obtain ⟨htype, hhub⟩ := hiff.2 ⟨hon, hregistered hhub⟩
        exact .inr ⟨htype, ha.symm, hhub⟩
      · exact .inl (ha ▸ hold)
  · intro hor
    rcases hor with ⟨d, hd, hon, ha⟩ | ⟨htype, ha, hhub⟩
    · exact ⟨d, hsup d hd, hon, ha⟩
    · exact ha ▸ hknown (hiff.1 ⟨htype, hhub⟩).1

/-! ## Removing -/

theorem removeConnection_effects {registry : Registry} {entry : Entry} {es : List Effect}
    (h : proxyRemoveConnection registry entry = some es) (hub : Endpoint) (a : Option Addr) :
    .datahubAddLink hub a ∉ es := by
  unfold proxyRemoveConnection at h
  split at h
  · obtain ⟨links, _, rfl⟩ := Option.map_eq_some_iff.1 h
    simp
  · obtain rfl := Option.some.inj h
    simp

theorem mem_eraseP_or_found {α : Type} {p : α → Bool} {l : List α} {a : α} (ha : a ∈ l) :
    a ∈ l.eraseP p ∨ l.find? p = some a := by
  induction l with
  | nil => simp at ha
  | cons b l ih =>
    cases hp : p b with
    | true =>
      rcases List.mem_cons.1 ha with rfl | ha
      · exact .inr (List.find?_cons_of_pos hp)
      · exact .inl (by simpa [hp] using ha)
    | false =>
      rcases List.mem_cons.1 ha with rfl | ha
      · exact .inl (by simp [hp])
      · rcases ih ha with h | h
        · exact .inl (by simp [hp, h])
        · exact .inr (by simp [hp, h])

theorem Serving.remove {topic : CStr} {hub : Endpoint} {node node' : Node} {proxy : Proxy} {id : CStr}
    {es : List Effect} (h : Serving topic hub node)
    (hhandle : handleRemove node.proxy id = some (proxy, es))
    (hperform : performAll { node with proxy := proxy } es = some node')
    (hG : Harmless topic hub node.proxy.registry (.remove id)) : Serving topic hub node' := by
  unfold handleRemove at hhandle
  split at hhandle
  · cases hhandle
    exact h.after hperform h.own (by simp)
  · next entry hget =>
    obtain ⟨d, hfind, hclone⟩ := Option.bind_eq_some_iff.1 hget
    have hd := List.mem_of_find?_eq_some hfind
    have hid : d.id = id := by simpa using List.find?_some hfind
    simp only [registryDelete_known ⟨d, hd, hid⟩, Option.getD_some] at hhandle
    obtain ⟨es, hes, heq⟩ := Option.map_eq_some_iff.1 hhandle
    cases heq
    refine h.after hperform (h.own.subset fun e he => .inl (List.mem_of_mem_eraseP he)) fun a => ?_
    have hnone := removeConnection_effects hes hub (some a)
    simp only [hnone, or_false]
    constructor
    · intro ⟨f, hf, hon, ha⟩
      exact ⟨f, List.mem_of_mem_eraseP hf, hon, ha⟩
    · intro ⟨f, hf, hon, ha⟩
      rcases mem_eraseP_or_found (p := fun e => e.id = id) hf with hmem | hfound
      · exact ⟨f, hmem, hon, ha⟩
      · exact ha ▸ hG f hfound hon

theorem Serving.update {topic : CStr} {hub : Endpoint} {node node' : Node} {proxy : Proxy}
    {id addr : CStr} {outcomes : List Outcome} {es : List Effect} (h : Serving topic hub node)
    (hhandle : handle node.proxy outcomes (.updateAddress id addr) = some (proxy, es))
    (hperform : performAll { node with proxy := proxy } es = some node')
    (hG : Harmless topic hub node.proxy.registry (.updateAddress id addr)) :
    Serving topic hub node' := by
  obtain ⟨⟨registry, err⟩, hupdate, heq⟩ := Option.map_eq_some_iff.1 hhandle
  cases heq
  have hmoved := moved_updateAddr (onTopic_setAddr topic .datalink) hupdate
    fun d hd => Bool.eq_false_of_not_eq_true (hG d hd)
  refine h.after hperform (h.own.moved hmoved) fun a => ?_
  simp [known_moved hmoved]

/-! ## Taking over a list -/

theorem addMissing_mem {es registry registry' : Registry}
    (h : addMissing es registry = some registry') :
    (∀ f ∈ registry, f ∈ registry') ∧ ∀ f ∈ registry', f ∈ registry ∨ f ∈ es := by
  induction es generalizing registry with
  | nil =>
    obtain rfl : registry = registry' := Option.some.inj h
    simp
  | cons e es ih =>
    rw [addMissing] at h
    split at h
    · simp at h
    · obtain ⟨hsup, hsub⟩ := ih h
      have hinsert : ∀ f ∈ (registryInsertEntry registry e).getD registry, f ∈ registry ∨ f = e := by
        intro f hf
        by_cases haddr : e.addr = none
        · have hnone : registryInsertEntry registry e = none := by
            rw [registryInsertEntry, registryInsert, haddr]
            rfl
          rw [hnone] at hf
          exact .inl hf
        · rw [registryInsertEntry_eq _ haddr] at hf
          simpa using hf
      have hkeep : ∀ f ∈ registry, f ∈ (registryInsertEntry registry e).getD registry := by
        intro f hf
        by_cases haddr : e.addr = none
        · have hnone : registryInsertEntry registry e = none := by
            rw [registryInsertEntry, registryInsert, haddr]
            rfl
          rw [hnone]
          exact hf
        · rw [registryInsertEntry_eq _ haddr]
          exact List.mem_append_left _ hf
      refine ⟨fun f hf => hsup f (hkeep f hf), fun f hf => ?_⟩
      rcases hsub f hf with hf | hf
      · rcases hinsert f hf with hf | rfl
        · exact .inl hf
        · exact .inr List.mem_cons_self
      · exact .inr (List.mem_cons_of_mem _ hf)
    · obtain ⟨hsup, hsub⟩ := ih h
      exact ⟨hsup, fun f hf => (hsub f hf).imp_right (List.mem_cons_of_mem _)⟩

theorem not_listed {es : List Entry} {e : Entry} (h : listContains es e = some false) :
    ∀ f ∈ es, f.key ≠ e.key := by
  induction es with
  | nil => simp
  | cons f l ih =>
    rw [listContains] at h
    split at h
    · simp at h
    · simp at h
    · next hequals =>
      intro g hg
      rcases List.mem_cons.1 hg with rfl | hg
      · intro hkey
        simp only [Entry.key, Prod.mk.injEq] at hkey
        obtain ⟨hname, htopic, htype, haddr⟩ := hkey
        rw [entryEquals, if_pos ⟨htype, hname, htopic⟩, haddr] at hequals
        cases haddr' : e.addr with
        | none => simp [haddr'] at hequals
        | some a =>
          simp only [haddr', Option.some.injEq] at hequals
          rw [addrEq_iff.2 rfl] at hequals
          simp at hequals
      · exact ih h g hg

theorem mem_registryDelete {registry : Registry} {id : CStr} {f : Entry} :
    (f ∈ (registryDelete registry id).getD registry → f ∈ registry) ∧
      (f ∈ registry → f.id ≠ id → f ∈ (registryDelete registry id).getD registry) := by
  by_cases hid : ∃ e ∈ registry, e.id = id
  · rw [registryDelete_known hid, Option.getD_some]
    refine ⟨List.mem_of_mem_eraseP, fun hf hne => ?_⟩
    exact (List.mem_eraseP_of_neg (by simpa using hne)).2 hf
  · rw [registryDelete_unknown hid]
    exact ⟨fun hf => hf, fun hf _ => hf⟩

/-- What the second loop removes has an entry that vanishes for its id. -/
theorem removeVanished_mem {es : List Entry} {l : List (Option Entry)} {registry registry' : Registry}
    (h : removeVanished es l registry = some registry') :
    (∀ f ∈ registry', f ∈ registry) ∧
      ∀ f ∈ registry, (∀ v, some v ∈ l → Vanishes es v → v.id ≠ f.id) → f ∈ registry' := by
  induction l generalizing registry with
  | nil =>
    obtain rfl : registry = registry' := Option.some.inj h
    simp
  | cons e l ih =>
    match e with
    | none => simp [removeVanished] at h
    | some e =>
      rw [removeVanished] at h
      split at h
      · simp at h
      · obtain ⟨hsub, hstay⟩ := ih h
        exact ⟨hsub, fun f hf hv => hstay f hf fun v hv' => hv v (List.mem_cons_of_mem _ hv')⟩
      · next hlisted =>
        split_ifs at h with hend
        · obtain ⟨hsub, hstay⟩ := ih h
          exact ⟨hsub, fun f hf hv => hstay f hf fun v hv' => hv v (List.mem_cons_of_mem _ hv')⟩
        · obtain ⟨hsub, hstay⟩ := ih h
          refine ⟨fun f hf => mem_registryDelete.1 (hsub f hf), fun f hf hv => ?_⟩
          have hvanishes : Vanishes es e := ⟨by simpa using hend, not_listed hlisted⟩
          have hne : f.id ≠ e.id := Ne.symm (hv e List.mem_cons_self hvanishes)
          exact hstay f (mem_registryDelete.2 hf hne) fun v hv' => hv v (List.mem_cons_of_mem _ hv')

theorem Serving.list {topic : CStr} {hub : Endpoint} {node node' : Node} {proxy : Proxy}
    {outcomes : List Outcome} {entries : List Entry} {es : List Effect} (h : Serving topic hub node)
    (hhandle : handleList node.proxy outcomes entries = some (proxy, es))
    (hperform : performAll { node with proxy := proxy } es = some node')
    (hend : ∀ e ∈ entries, e.endpoint = none) (hone : OneHub topic proxy.registry)
    (hG : Harmless topic hub node.proxy.registry (.list entries)) : Serving topic hub node' := by
  obtain ⟨hstay, hnew, hapart⟩ := hG
  obtain ⟨added, hadded, hrest⟩ := Option.bind_eq_some_iff.1 hhandle
  rw [registrySelectAll_eq, Option.bind_some] at hrest
  obtain ⟨left, hleft, hrest⟩ := Option.bind_eq_some_iff.1 hrest
  rw [registrySelectAll_eq, Option.bind_some] at hrest
  obtain ⟨c, hconnect, heq⟩ := Option.map_eq_some_iff.1 hrest
  cases heq
  obtain ⟨hsup, hsub⟩ := addMissing_mem hadded
  obtain ⟨hleftsub, hleftstay⟩ := removeVanished_mem hleft
  have hmemcopy : ∀ {registry : Registry} {e : Entry}, some e ∈ (registry.map cloneEntry).reverse →
      e ∈ registry := by
    intro registry e he
    obtain ⟨f, hf, hclone⟩ := List.mem_map.1 (List.mem_reverse.1 he)
    exact cloneEntry_eq hclone ▸ hf
  have hsubset : ∀ f ∈ left, f ∈ node.proxy.registry ∨ f ∈ entries := fun f hf =>
    hsub f (hleftsub f hf)
  have hstays : ∀ f, Stays node.proxy.registry entries f → f ∈ left := by
    intro f ⟨hf, hids⟩
    refine hleftstay f (hsup f hf) fun v hv hvanishes => ?_
    rcases hsub v (hmemcopy hv) with hv | hv
    · exact hids v hv hvanishes
    · exact absurd rfl (hvanishes.2 v hv)
  have hown : Own topic hub left := h.own.subset fun f hf =>
    (hsubset f hf).imp_right (hend f)
  obtain ⟨hmoved, es, heffects, hhubs, _⟩ :=
    connectAll_connected (onTopic_setAddr topic .datalink) hconnect
    fun m hm htype hlocal d hd hon => hapart m (List.mem_append.2 (hsubset m hm)) htype hlocal d
      (List.mem_append.2 (hsubset d hd)) hon
  have hiff := fun e => connects_iff hown (hone.moved hmoved) e
  refine h.after hperform (hown.moved hmoved) fun a => (known_moved hmoved _).trans ?_
  rw [heffects, List.nil_append, hhubs]
  constructor
  · intro ⟨d, hd, hon, ha⟩
    rcases hnew with ⟨f, hf, hhub⟩ | hnew
    · have hcopy : some d ∈ (left.map cloneEntry).reverse := by
        rw [← cloneEntry_of_addr (e := d) (by simp [ha])]
        exact List.mem_reverse.2 (List.mem_map_of_mem hd)
      obtain ⟨htype, hhub⟩ := (hiff d).2 ⟨hon, f, hstays f hf, hhub⟩
      exact .inr ⟨d, hcopy, htype, ha.symm, hhub⟩
    · rcases hsubset d hd with hold | hlisted
      · exact .inl ⟨d, hold, hon, ha⟩
      · exact .inl (ha ▸ hnew d hlisted hon)
  · intro hor
    rcases hor with ⟨d, hd, hon, ha⟩ | ⟨e, he, htype, ha, hhub⟩
    · obtain ⟨d', hd', hon', ha'⟩ := hstay d hd hon
      exact ⟨d', hstays d' hd', hon', ha'.trans ha⟩
    · exact ⟨e, hmemcopy he, ((hiff e).1 ⟨htype, hhub⟩).1, ha.symm⟩

/-! ## Runs -/

/-- What reaches the proxy: a message, and what becomes of the connections it asks for. -/
structure Delivery (J : Type) where
  message : J
  outcomes : List Outcome

variable {J : Type} (L : JsonLib J)

def Receives (node : Node) (d : Delivery J) (node' : Node) : Prop :=
  onmessage L node d.outcomes d.message = some node'

/-- Whatever the message carries, it does the hub's list no harm. -/
def HarmlessMove (topic : CStr) (hub : Endpoint) (m : Move Node (Delivery J)) : Prop :=
  ∀ event, Carries L m.act.message event → Harmless topic hub m.src.proxy.registry event

variable {L}

theorem receives_of_carries {node node' : Node} {d : Delivery J} {event : ProxyEvent} {proxy : Proxy}
    {es : List Effect} (h : Carries L d.message event)
    (hhandle : handle node.proxy d.outcomes event = some (proxy, es))
    (hperform : performAll { node with proxy := proxy } es = some node') : Receives L node d node' := by
  rw [Receives, onmessage, onmessage_of_carries h, hhandle]
  exact hperform

theorem parseListLoop_remote {a : J} {n i : ℕ} {list entries : List Entry}
    (h : parseListLoop L a n i list = some entries) (hlist : ∀ e ∈ list, e.endpoint = none) :
    ∀ e ∈ entries, e.endpoint = none := by
  induction n generalizing i list with
  | zero =>
    obtain rfl : list = entries := Option.some.inj h
    exact hlist
  | succ n ih =>
    rw [parseListLoop] at h
    split at h
    · simp at h
    · next entry hparse =>
      refine ih h fun e he => ?_
      rcases List.mem_cons.1 he with rfl | he
      · exact (registryEntryParse_ok hparse).2.1
      · exact hlist e he
    · obtain rfl : [] = entries := Option.some.inj h
      simp

theorem endpoints_of_carries {message : J} {entries : List Entry}
    (h : Carries L message (.list entries)) : ∀ e ∈ entries, e.endpoint = none := by
  obtain ⟨_, _, _, harray, _, _, hparse⟩ := h
  rw [registryEntryParseList, if_pos harray] at hparse
  exact parseListLoop_remote hparse (by simp)

theorem Serving.step {topic : CStr} {hub : Endpoint} {node node' : Node} {d : Delivery J}
    (h : Serving topic hub node) (hstep : Receives L node d node')
    (hone : OneHub topic node'.proxy.registry)
    (hG : ∀ event, Carries L d.message event → Harmless topic hub node.proxy.registry event) :
    Serving topic hub node' := by
  obtain ⟨⟨proxy, es⟩, hmessage, hperform⟩ := Option.bind_eq_some_iff.1 hstep
  have hproxy : node'.proxy = proxy := (performAll_spec hperform).1
  rw [hproxy] at hone
  rcases onmessage_cases hmessage with ⟨hregistry, hquit⟩ | ⟨event, hcarries, hhandle⟩
  · refine h.after hperform (hregistry ▸ h.own) fun a => ?_
    have hnone : .datahubAddLink hub (some a) ∉ es := fun hmem => by simpa using hquit _ hmem
    simp [hregistry, hnone]
  · have hharmless := hG event hcarries
    cases event with
    | add e =>
      obtain ⟨hwf, hend, _⟩ := registryEntryParse_ok hcarries.2.2
      exact h.add hhandle hperform hend hwf.addr hone hharmless
    | remove id => exact h.remove hhandle hperform hharmless
    | updateAddress id addr => exact h.update hhandle hperform hharmless
    | list entries =>
      exact h.list hhandle hperform (endpoints_of_carries hcarries) hone hharmless

theorem serving_of_open {sent : Bool} {node node₁ : Node} {name topic : CStr} {created : Creation}
    {requests : Sent}
    (hopen : proxyOpenDatahub false sent node name topic (some created) =
      some (node₁, some (created.endpoint, requests)))
    (hfresh : ∀ e ∈ node.proxy.registry, e.endpoint ≠ some created.endpoint) :
    Serving topic created.endpoint node₁ := by
  simp only [proxyOpenDatahub] at hopen
  split at hopen
  · simp at hopen
  · next proxy entry requests hentry =>
    obtain ⟨_, _, rfl, rfl, _⟩ := proxyNewEntry_cases hentry
    have htopic : (entryOf name topic .datahub created).topic = topic := rfl
    rw [htopic, select_onTopic, Option.bind_some] at hopen
    obtain ⟨links, hlinks, heq⟩ := Option.map_eq_some_iff.1 hopen
    cases heq
    obtain ⟨hnodup, hmem⟩ := addLinks_some hlinks
    constructor
    · refine ⟨links, Function.update_self _ _ _, hnodup List.nodup_nil, fun a => ?_⟩
      rw [hmem]
      constructor
      · intro hor
        rcases hor with hnil | ⟨d, hd, ha⟩
        · simp at hnil
        · obtain ⟨hreg, hon⟩ := mem_of_copies hd
          exact ⟨d, hreg, hon, ha⟩
      · intro ⟨d, hd, hon, ha⟩
        refine .inr ⟨d, ?_, ha⟩
        rw [← cloneEntry_of_addr (e := d) (by simp [ha])]
        exact List.mem_reverse.2 (List.mem_map_of_mem (List.mem_filter.2 ⟨hd, hon⟩))
    · intro e he hend
      rcases List.mem_append.1 he with he | he
      · exact absurd hend (hfresh e he)
      · rw [List.mem_singleton.1 he]
        exact onTopic_iff.2 ⟨rfl, rfl⟩

/-- In every run of harmless messages from the opening of the hub on, its links are the
registered data links of its topic, in every state. -/
theorem hub_links_are_registered {sent : Bool} {node node₁ : Node} {name topic : CStr}
    {created : Creation} {requests : Sent}
    (hopen : proxyOpenDatahub false sent node name topic (some created) =
      some (node₁, some (created.endpoint, requests)))
    (hfresh : ∀ e ∈ node.proxy.registry, e.endpoint ≠ some created.endpoint)
    {ms : List (Move Node (Delivery J))} {last : Node} (hrun : Run (Receives L) node₁ ms last)
    (hone : ∀ m ∈ ms, OneHub topic m.dst.proxy.registry)
    (hG : ∀ m ∈ ms, HarmlessMove L topic created.endpoint m) :
    Subscribed topic created.endpoint node₁ ∧
      ∀ m ∈ ms, Subscribed topic created.endpoint m.dst := by
  have hserving := serving_of_open hopen hfresh
  refine ⟨hserving.subscribed, fun m hm => ?_⟩
  have hall := hrun.invariant_dst (I := Serving topic created.endpoint)
    (G := fun m => OneHub topic m.dst.proxy.registry ∧ HarmlessMove L topic created.endpoint m)
    (fun s d t hs hstep hguard => hs.step hstep hguard.1 hguard.2) hserving
    fun m hm => ⟨hone m hm, hG m hm⟩
  exact (hall m hm).subscribed

/-! ## A link that comes and goes -/

def cameraHub : Creation :=
  ⟨1, ⟨⟨10, 0, 0, 1⟩, 5001⟩, ascii "ed8ae24b-fbfe-4320-ae2e-4115e95b9c6d"⟩

def viewer : Entry :=
  ⟨ascii "289a0c98-6bed-4336-92b3-c04b806f36f1", ascii "viewer", ascii "camera", .datalink,
    some ⟨⟨10, 0, 0, 2⟩, 5002⟩, none⟩

theorem viewer_wellFormed : viewer.WellFormed := ⟨⟨by decide, by decide, by decide⟩, by simp [viewer]⟩

def cameraNode (others : Registry) (links : List Addr) : Node :=
  ⟨⟨entryOf (ascii "camera") (ascii "camera") .datahub cameraHub :: others, .initializing⟩,
    Function.update (fun _ => none) 1 (some links), fun _ => none⟩

theorem cameraNode_open :
    ∃ requests, proxyOpenDatahub false true newNode (ascii "camera") (ascii "camera") (some cameraHub) =
      some (cameraNode [] [], some (1, requests)) := ⟨_, rfl⟩

def viewerAdded : Delivery Value :=
  ⟨addValue viewer.id viewer.name viewer.topic (registryTypeToStr viewer.type)
    (addrString viewer.addr), []⟩

def viewerRemoved : Delivery Value := ⟨removeValue viewer.id, []⟩

theorem viewer_comes : Receives valueLib (cameraNode [] []) viewerAdded
    (cameraNode [viewer] [⟨⟨10, 0, 0, 2⟩, 5002⟩]) := by
  have hidem : Function.update (cameraNode [] []).datahubs 1 (some [⟨⟨10, 0, 0, 2⟩, 5002⟩]) =
      (cameraNode [] [⟨⟨10, 0, 0, 2⟩, 5002⟩]).datahubs := Function.update_idem _ _ _
  have hhandle : handle (cameraNode [] []).proxy [] (.add viewer.remote) =
      some ((cameraNode [viewer] []).proxy,
        [.datahubAddLink 1 (some ⟨⟨10, 0, 0, 2⟩, 5002⟩)]) := rfl
  refine receives_of_carries (carries_add valueLib_lawful viewer_wellFormed) hhandle ?_
  exact congrArg (fun hubs => some (⟨(cameraNode [viewer] []).proxy, hubs, fun _ => none⟩ : Node)) hidem

theorem viewer_goes : Receives valueLib (cameraNode [viewer] [⟨⟨10, 0, 0, 2⟩, 5002⟩]) viewerRemoved
    (cameraNode [] [⟨⟨10, 0, 0, 2⟩, 5002⟩]) :=
  receives_of_carries (carries_remove valueLib_lawful viewer.id) rfl rfl

/-- The link is no longer registered, and the hub still sends to it. -/
theorem removed_link_stays :
    (∃ requests, proxyOpenDatahub false true newNode (ascii "camera") (ascii "camera") (some cameraHub) =
      some (cameraNode [] [], some (1, requests))) ∧
      Run (Receives valueLib) (cameraNode [] [])
        [⟨cameraNode [] [], viewerAdded, cameraNode [viewer] [⟨⟨10, 0, 0, 2⟩, 5002⟩]⟩,
          ⟨cameraNode [viewer] [⟨⟨10, 0, 0, 2⟩, 5002⟩], viewerRemoved,
            cameraNode [] [⟨⟨10, 0, 0, 2⟩, 5002⟩]⟩] (cameraNode [] [⟨⟨10, 0, 0, 2⟩, 5002⟩]) ∧
      OneHub (ascii "camera") (cameraNode [viewer] []).proxy.registry ∧
      ¬Subscribed (ascii "camera") 1 (cameraNode [] [⟨⟨10, 0, 0, 2⟩, 5002⟩]) := by
  refine ⟨⟨_, rfl⟩, .cons viewer_comes (.cons viewer_goes (.nil _)), by unfold OneHub; decide, ?_⟩
  · intro ⟨links, hlinks, _, hknown⟩
    obtain rfl : [⟨⟨10, 0, 0, 2⟩, 5002⟩] = links := Option.some.inj hlinks
    obtain ⟨d, hd, hon, _⟩ := (hknown ⟨⟨10, 0, 0, 2⟩, 5002⟩).1 List.mem_cons_self
    rw [List.mem_singleton.1 hd] at hon
    exact absurd hon (by decide)

/-- The link that comes is in the hub's list. -/
theorem new_link_subscribed :
    Subscribed (ascii "camera") 1 (cameraNode [] []) ∧
      ∀ m ∈ [(⟨cameraNode [] [], viewerAdded, cameraNode [viewer] [⟨⟨10, 0, 0, 2⟩, 5002⟩]⟩ :
        Move Node (Delivery Value))], Subscribed (ascii "camera") 1 m.dst := by
  obtain ⟨requests, hopen⟩ := cameraNode_open
  refine hub_links_are_registered (L := valueLib) hopen (by simp [newNode, newProxy, newRegistry])
    (.single viewer_comes) ?_ ?_
  · intro m hm
    rw [List.mem_singleton.1 hm]
    unfold OneHub
    decide
  · intro m hm event hevent
    rw [List.mem_singleton.1 hm] at hevent ⊢
    obtain rfl := (carries_add valueLib_lawful viewer_wellFormed).unique hevent
    have hregistered : HubRegistered 1 (cameraNode [] []).proxy.registry :=
      ⟨_, List.mem_cons_self, rfl⟩
    exact ⟨fun _ => .inl hregistered, fun h => absurd h (by decide)⟩

end Node
end Rcom
