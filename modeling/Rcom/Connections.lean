import Rcom.Endpoints
import Rcom.ProxyEvents

/-!
# What the handlers connect

Which hubs and links an entry is connected with, read off the registry; and what connecting
a message hub does to the registry itself, where its links get new addresses.
-/

namespace Rcom
open Rcom.Lib Rcom.Addr Rcom.RegistryEntry Rcom.Registry Rcom.Proxy Rcom.Datahub

namespace Registry

/-- Only addresses differ, and those of the entries that `keep` selects do not. -/
structure Moved (keep : Entry → Bool) (r r' : Registry) : Prop where
  skeleton : r'.map (setAddr none) = r.map (setAddr none)
  kept : r'.filter keep = r.filter keep

theorem Moved.refl (keep : Entry → Bool) (r : Registry) : Moved keep r r := ⟨rfl, rfl⟩

theorem Moved.trans {keep : Entry → Bool} {r r' r'' : Registry} (h : Moved keep r r')
    (h' : Moved keep r' r'') : Moved keep r r'' :=
  ⟨h'.skeleton.trans h.skeleton, h'.kept.trans h.kept⟩

theorem Moved.symm {keep : Entry → Bool} {r r' : Registry} (h : Moved keep r r') :
    Moved keep r' r := ⟨h.skeleton.symm, h.kept.symm⟩

theorem Moved.exists {keep : Entry → Bool} {r r' : Registry} (h : Moved keep r r') {e : Entry}
    (he : e ∈ r) : ∃ e' ∈ r', setAddr none e' = setAddr none e := by
  have hmem : setAddr none e ∈ r'.map (setAddr none) := h.skeleton ▸ List.mem_map_of_mem he
  exact List.mem_map.1 hmem

theorem Moved.mem_iff {keep : Entry → Bool} {r r' : Registry} (h : Moved keep r r') {e : Entry}
    (he : keep e = true) : e ∈ r' ↔ e ∈ r := by
  have hiff : e ∈ r'.filter keep ↔ e ∈ r.filter keep := by rw [h.kept]
  simpa [List.mem_filter, he] using hiff

theorem eq_of_setAddr {e e' : Entry} (h : setAddr none e' = setAddr none e) :
    e'.id = e.id ∧ e'.topic = e.topic ∧ e'.type = e.type ∧ e'.endpoint = e.endpoint :=
  ⟨by simpa using congrArg Entry.id h, by simpa using congrArg Entry.topic h,
    by simpa using congrArg Entry.type h, by simpa using congrArg Entry.endpoint h⟩

theorem moved_updateAddr {keep : Entry → Bool} (hkeep : ∀ a e, keep (setAddr a e) = keep e)
    {r r' : Registry} {id addr : CStr} {err : ℤ} (h : registryUpdateAddr r id addr = some (r', err))
    (hid : ∀ e, r.find? (fun e => e.id = id) = some e → keep e = false) : Moved keep r r' := by
  induction r generalizing r' err with
  | nil =>
    simp only [registryUpdateAddr, Option.some.injEq, Prod.mk.injEq] at h
    exact h.1 ▸ Moved.refl keep []
  | cons e l ih =>
    rw [registryUpdateAddr] at h
    by_cases he : id = e.id
    · rw [if_pos he] at h
      cases hparse : addrParse addr with
      | none => simp [hparse] at h
      | some a =>
        simp only [hparse, Option.some.injEq, Prod.mk.injEq] at h
        have hnot : keep e = false := hid e (List.find?_cons_of_pos (by simp [he]))
        have hnot' : keep (setAddr a e) = false := (hkeep a e).trans hnot
        rw [← h.1]
        constructor
        · rfl
        · change List.filter keep (setAddr a e :: l) = _
          rw [List.filter_cons_of_neg (by simpa using hnot'), List.filter_cons_of_neg (by simpa using hnot)]
    · rw [if_neg he, Option.map_eq_some_iff] at h
      obtain ⟨⟨l', err'⟩, hl, heq⟩ := h
      cases heq
      have hmoved := ih hl fun f hf =>
        hid f ((List.find?_cons_of_neg (by simpa using Ne.symm he)).trans hf)
      constructor
      · simp [hmoved.skeleton]
      · simp [List.filter_cons, hmoved.kept]

theorem not_keep_of_ids {keep : Entry → Bool} {r : Registry} {id : CStr}
    (h : ∀ e ∈ r, keep e = true → e.id ≠ id) {e : Entry}
    (he : r.find? (fun e => e.id = id) = some e) : keep e = false := by
  cases hk : keep e with
  | false => rfl
  | true =>
    have hid : e.id = id := by simpa using List.find?_some he
    exact absurd hid (h e (List.mem_of_find?_eq_some he) hk)

end Registry

namespace Proxy

/-! ## Entries and endpoints -/

theorem localEndpoints_mem {l : List (Option Entry)} {hs : List Endpoint}
    (h : localEndpoints l = some hs) (hub : Endpoint) :
    hub ∈ hs ↔ ∃ e, some e ∈ l ∧ e.endpoint = some hub := by
  induction l generalizing hs with
  | nil =>
    obtain rfl : [] = hs := Option.some.inj h
    simp
  | cons e l ih =>
    match e with
    | none => simp [localEndpoints] at h
    | some e =>
      simp only [localEndpoints, Option.map_eq_some_iff] at h
      obtain ⟨rest, hrest, rfl⟩ := h
      rw [List.mem_append, ih hrest, Option.mem_toList]
      constructor
      · intro h
        rcases h with h | ⟨f, hf, hend⟩
        · exact ⟨e, List.mem_cons_self, h⟩
        · exact ⟨f, List.mem_cons_of_mem _ hf, hend⟩
      · intro ⟨f, hf, hend⟩
        rcases List.mem_cons.1 hf with hf | hf
        · cases hf
          exact .inl hend
        · exact .inr ⟨f, hf, hend⟩

theorem copy_mem {registry : Registry} {p : Entry → Bool} {e : Entry} (he : e ∈ registry)
    (hp : p e = true) (hall : none ∉ ((registry.filter p).map cloneEntry).reverse) :
    some e ∈ ((registry.filter p).map cloneEntry).reverse := by
  have hmem : cloneEntry e ∈ ((registry.filter p).map cloneEntry).reverse :=
    List.mem_reverse.2 (List.mem_map_of_mem (List.mem_filter.2 ⟨he, hp⟩))
  cases hclone : cloneEntry e with
  | none => exact absurd (hclone ▸ hmem) hall
  | some f =>
    rw [cloneEntry_eq hclone, ← hclone]
    exact cloneEntry_eq hclone ▸ hmem

theorem localEndpoints_none {l : List (Option Entry)} {hs : List Endpoint}
    (h : localEndpoints l = some hs) : none ∉ l := by
  induction l generalizing hs with
  | nil => simp
  | cons e l ih =>
    match e with
    | none => simp [localEndpoints] at h
    | some e =>
      simp only [localEndpoints, Option.map_eq_some_iff] at h
      obtain ⟨rest, hrest, _⟩ := h
      simpa using ih hrest

/-- Local endpoints of a topic. A copy may be NULL, but then the loop over the copies has no
result. -/
theorem localsOfTopic_mem {registry : Registry} {topic : CStr} {type : EntryType}
    {hs : List Endpoint} (h : localsOfTopic registry topic type = some hs) (hub : Endpoint) :
    hub ∈ hs ↔ ∃ e ∈ registry, onTopic topic type e ∧ e.endpoint = some hub := by
  rw [localsOfTopic, select_onTopic, Option.bind_some] at h
  rw [localEndpoints_mem h]
  constructor
  · intro ⟨e, he, hend⟩
    obtain ⟨hmem, hon⟩ := mem_of_copies he
    exact ⟨e, hmem, hon, hend⟩
  · intro ⟨e, he, hon, hend⟩
    exact ⟨e, copy_mem he hon (localEndpoints_none h), hend⟩

/-- The hub that the data links of a topic are connected with: the newest, if it is local. -/
def hubOf (registry : Registry) (topic : CStr) : Option Endpoint :=
  (registry.filter (onTopic topic .datahub)).getLast?.bind Entry.endpoint

def LinkOf (registry : Registry) (topic : CStr) (link : Endpoint) : Prop :=
  ∃ f ∈ registry, onTopic topic .datalink f ∧ f.endpoint = some link

theorem LinkOf.moved {keep : Entry → Bool} {r r' : Registry} {topic : CStr} {link : Endpoint}
    (h : LinkOf r topic link) (hmoved : Moved keep r r') : LinkOf r' topic link := by
  obtain ⟨f, hf, hon, hend⟩ := h
  obtain ⟨f', hf', heq⟩ := hmoved.exists hf
  obtain ⟨_, htopic, htype, hend'⟩ := eq_of_setAddr heq
  have hon := onTopic_iff.1 hon
  exact ⟨f', hf', onTopic_iff.2 ⟨htype.trans hon.1, htopic.trans hon.2⟩, hend'.trans hend⟩

theorem connectDatalink_mem {registry : Registry} {entry : Entry} {es : List Effect}
    (h : proxyConnectDatalink registry entry = some es) (e : Effect) :
    e ∈ es ↔ ∃ hub, hubOf registry entry.topic = some hub ∧ e = .datahubAddLink hub entry.addr := by
  rw [proxyConnectDatalink, select_onTopic, Option.bind_some, Option.map_eq_some_iff] at h
  obtain ⟨hubs, hhubs, rfl⟩ := h
  rw [hubOf, ← List.head?_reverse, List.mem_map]
  rw [← List.map_reverse, ← List.map_take] at hhubs
  cases hl : (registry.filter (onTopic entry.topic .datahub)).reverse with
  | nil =>
    rw [hl] at hhubs
    obtain rfl : [] = hubs := Option.some.inj hhubs
    simp
  | cons f l =>
    rw [hl, List.take_succ_cons, List.take_zero, List.map_singleton] at hhubs
    cases hclone : cloneEntry f with
    | none => simp [hclone, localEndpoints] at hhubs
    | some f' =>
      obtain rfl := cloneEntry_eq hclone
      obtain rfl : f.endpoint.toList = hubs := by simpa [hclone, localEndpoints] using hhubs
      simp only [Option.mem_toList, List.head?_cons, Option.bind_some, eq_comm]

theorem connectDatahub_mem {registry : Registry} {entry : Entry} {es : List Effect}
    (h : proxyConnectDatahub registry entry = some es) (e : Effect) :
    e ∈ es ↔ ∃ link, LinkOf registry entry.topic link ∧
      e = .datalinkSetRemoteAddr link entry.addr := by
  rw [proxyConnectDatahub, Option.map_eq_some_iff] at h
  obtain ⟨links, hlinks, rfl⟩ := h
  simp only [List.mem_map, localsOfTopic_mem hlinks, LinkOf, eq_comm]

theorem connectStreamer_mem {registry : Registry} {entry : Entry} {es : List Effect}
    (h : proxyConnectStreamer registry entry = some es) :
    ∀ e ∈ es, ∃ link, e = .streamerlinkSetRemote link entry.addr := by
  rw [proxyConnectStreamer, Option.map_eq_some_iff] at h
  obtain ⟨links, _, rfl⟩ := h
  intro e he
  obtain ⟨link, _, rfl⟩ := List.mem_map.1 he
  exact ⟨link, rfl⟩

theorem connectLoop_moved {keep : Entry → Bool} (hkeep : ∀ a e, keep (setAddr a e) = keep e)
    {l : List (Option Entry)} {c c' : Connecting} (h : connectLoop l c = some c')
    (hids : ∀ m, some m ∈ l → m.endpoint.isSome → ∀ e ∈ c.registry, keep e = true → e.id ≠ m.id) :
    Moved keep c.registry c'.registry ∧
      ∃ requests : List Request, c'.effects = c.effects ++ requests.map Effect.send := by
  induction l generalizing c with
  | nil =>
    obtain rfl : c = c' := Option.some.inj h
    exact ⟨Moved.refl keep _, [], by simp⟩
  | cons m l ih =>
    match m with
    | none => simp [connectLoop] at h
    | some m =>
      have hrest : ∀ m, some m ∈ l → m.endpoint.isSome → ∀ e ∈ c.registry, keep e = true → e.id ≠ m.id :=
        fun m hm => hids m (List.mem_cons_of_mem _ hm)
      cases hend : m.endpoint with
      | none =>
        simp only [connectLoop, hend] at h
        exact ih h hrest
      | some link =>
        match houtcomes : c.outcomes with
        | [] =>
          simp only [connectLoop, hend, houtcomes] at h
          exact ih h hrest
        | none :: outcomes =>
          simp only [connectLoop, hend, houtcomes] at h
          exact ih (c := { c with outcomes := outcomes }) h hrest
        | some addr :: outcomes =>
          simp only [connectLoop, hend, houtcomes] at h
          split at h
          · simp at h
          · next registry err hupdate =>
            have hmoved := moved_updateAddr hkeep hupdate fun e he =>
              not_keep_of_ids (hids m List.mem_cons_self (by simp [hend])) he
            have hids' : ∀ m, some m ∈ l → m.endpoint.isSome → ∀ e ∈ registry, keep e = true →
                e.id ≠ m.id := fun m hm hlocal e he hk =>
              hrest m hm hlocal e ((hmoved.mem_iff hk).1 he) hk
            obtain ⟨hmoved', requests, heffects⟩ := ih h hids'
            refine ⟨hmoved.trans hmoved', .updateAddress m.id (addrString addr) :: requests, ?_⟩
            rw [heffects, List.map_cons, List.append_assoc, List.singleton_append]

structure Connected (keep : Entry → Bool) (entry : Entry) (c c' : Connecting) (es : List Effect) :
    Prop where
  effects : c'.effects = c.effects ++ es
  moved : Moved keep c.registry c'.registry
  hubs : ∀ hub a, .datahubAddLink hub a ∈ es ↔ entry.type = .datalink ∧ a = entry.addr ∧
    hubOf c.registry entry.topic = some hub
  links : ∀ link a, .datalinkSetRemoteAddr link a ∈ es ↔ entry.type = .datahub ∧ a = entry.addr ∧
    LinkOf c.registry entry.topic link

theorem addConnection_connected {keep : Entry → Bool} (hkeep : ∀ a e, keep (setAddr a e) = keep e)
    {c c' : Connecting} {entry : Entry} (h : proxyAddConnection c entry = some c')
    (hids : entry.type = .messagehub → ∀ m ∈ c.registry, onTopic entry.topic .messagelink m →
      m.endpoint.isSome → ∀ e ∈ c.registry, keep e = true → e.id ≠ m.id) :
    ∃ es, Connected keep entry c c' es := by
  unfold proxyAddConnection at h
  split at h
  · next htype =>
    obtain ⟨es, hes, rfl⟩ := Option.map_eq_some_iff.1 h
    refine ⟨es, rfl, Moved.refl keep _, fun hub a => ?_, fun link a => ?_⟩
    · rw [connectDatalink_mem hes]
      constructor
      · intro ⟨hub', hhub, heq⟩
        cases heq
        exact ⟨htype, rfl, hhub⟩
      · intro ⟨_, ha, hhub⟩
        exact ⟨hub, hhub, ha ▸ rfl⟩
    · simp [connectDatalink_mem hes, htype]
  · next htype =>
    obtain ⟨es, hes, rfl⟩ := Option.map_eq_some_iff.1 h
    refine ⟨es, rfl, Moved.refl keep _, fun hub a => ?_, fun link a => ?_⟩
    · simp [connectDatahub_mem hes, htype]
    · rw [connectDatahub_mem hes]
      constructor
      · intro ⟨link', hlink, heq⟩
        cases heq
        exact ⟨htype, rfl, hlink⟩
      · intro ⟨_, ha, hlink⟩
        exact ⟨link, hlink, ha ▸ rfl⟩
  · next htype =>
    rw [proxyConnectMessagehub, select_onTopic, Option.bind_some] at h
    obtain ⟨hmoved, requests, heffects⟩ := connectLoop_moved hkeep h fun m hm =>
      hids htype m (mem_of_copies hm).1 (mem_of_copies hm).2
    exact ⟨_, heffects, hmoved, by simp [htype], by simp [htype]⟩
  · next htype =>
    obtain ⟨es, hes, rfl⟩ := Option.map_eq_some_iff.1 h
    have hstreamer := connectStreamer_mem hes
    refine ⟨es, rfl, Moved.refl keep _, fun hub a => ?_, fun link a => ?_⟩
    · simp only [htype, reduceCtorEq, false_and, iff_false]
      intro hmem
      obtain ⟨link, heq⟩ := hstreamer _ hmem
      simp at heq
    · simp only [htype, reduceCtorEq, false_and, iff_false]
      intro hmem
      obtain ⟨link, heq⟩ := hstreamer _ hmem
      simp at heq
  all_goals
    next htype =>
    obtain rfl : c = c' := Option.some.inj h
    exact ⟨[], by simp, Moved.refl keep _, by simp [htype], by simp [htype]⟩

theorem hubOf_moved {keep : Entry → Bool} {r r' : Registry} (h : Moved keep r r') (topic : CStr) :
    hubOf r' topic = hubOf r topic := by
  have hskeleton : ∀ r : Registry, hubOf r topic = hubOf (r.map (setAddr none)) topic := by
    intro r
    have hon : onTopic topic .datahub ∘ setAddr none = onTopic topic .datahub := rfl
    rw [hubOf, hubOf, List.filter_map, hon, List.getLast?_map]
    cases (r.filter (onTopic topic .datahub)).getLast? <;> rfl
  rw [hskeleton r', h.skeleton, ← hskeleton r]

theorem connectAll_connected {keep : Entry → Bool} (hkeep : ∀ a e, keep (setAddr a e) = keep e)
    {l : List (Option Entry)} {c c' : Connecting} (h : connectAll l c = some c')
    (hids : ∀ m ∈ c.registry, m.type = .messagelink → m.endpoint.isSome → ∀ e ∈ c.registry,
      keep e = true → e.id ≠ m.id) :
    Moved keep c.registry c'.registry ∧ ∃ es, c'.effects = c.effects ++ es ∧
      (∀ hub a, .datahubAddLink hub a ∈ es ↔ ∃ e, some e ∈ l ∧ e.type = .datalink ∧ a = e.addr ∧
        hubOf c.registry e.topic = some hub) ∧
      ∀ link a, .datalinkSetRemoteAddr link a ∈ es ↔ ∃ e, some e ∈ l ∧ e.type = .datahub ∧
        a = e.addr ∧ LinkOf c.registry e.topic link := by
  induction l generalizing c with
  | nil =>
    obtain rfl : c = c' := Option.some.inj h
    exact ⟨Moved.refl keep _, [], by simp, by simp, by simp⟩
  | cons e l ih =>
    match e with
    | none => simp [connectAll] at h
    | some e =>
      obtain ⟨c₁, hadd, hrest⟩ := Option.bind_eq_some_iff.1 h
      obtain ⟨es₁, hconnected⟩ := addConnection_connected hkeep hadd fun _ m hm hon =>
        hids m hm (onTopic_iff.1 hon).1
      have hids₁ : ∀ m ∈ c₁.registry, m.type = .messagelink → m.endpoint.isSome →
          ∀ e ∈ c₁.registry, keep e = true → e.id ≠ m.id := by
        intro m hm htype hlocal f hf hk
        obtain ⟨m', hm', heq⟩ := hconnected.moved.symm.exists hm
        obtain ⟨hid, _, htype', hend⟩ := eq_of_setAddr heq
        rw [← hid]
        exact hids m' hm' (htype'.trans htype) (hend ▸ hlocal) f ((hconnected.moved.mem_iff hk).1 hf) hk
      obtain ⟨hmoved, es, heffects, hhubs, hlinks⟩ := ih hrest hids₁
      refine ⟨hconnected.moved.trans hmoved, es₁ ++ es, ?_, fun hub a => ?_, fun link a => ?_⟩
      · rw [heffects, hconnected.effects, List.append_assoc]
      · rw [List.mem_append, hconnected.hubs, hhubs]
        constructor
        · intro h
          rcases h with ⟨htype, ha, hhub⟩ | ⟨f, hf, htype, ha, hhub⟩
          · exact ⟨e, List.mem_cons_self, htype, ha, hhub⟩
          · rw [hubOf_moved hconnected.moved] at hhub
            exact ⟨f, List.mem_cons_of_mem _ hf, htype, ha, hhub⟩
        · intro ⟨f, hf, htype, ha, hhub⟩
          rcases List.mem_cons.1 hf with hf | hf
          · cases hf
            exact .inl ⟨htype, ha, hhub⟩
          · rw [← hubOf_moved hconnected.moved] at hhub
            exact .inr ⟨f, hf, htype, ha, hhub⟩
      · rw [List.mem_append, hconnected.links, hlinks]
        constructor
        · intro h
          rcases h with ⟨htype, ha, hlink⟩ | ⟨f, hf, htype, ha, hlink⟩
          · exact ⟨e, List.mem_cons_self, htype, ha, hlink⟩
          · exact ⟨f, List.mem_cons_of_mem _ hf, htype, ha, hlink.moved hconnected.moved.symm⟩
        · intro ⟨f, hf, htype, ha, hlink⟩
          rcases List.mem_cons.1 hf with hf | hf
          · cases hf
            exact .inl ⟨htype, ha, hlink⟩
          · exact .inr ⟨f, hf, htype, ha, hlink.moved hconnected.moved⟩

end Proxy

/-! ## What the endpoints come to -/

namespace Node

theorem perform_spec {node node' : Node} {e : Effect} (h : perform node e = some node') :
    node'.proxy = node.proxy ∧
      (∀ hub links, node.datahubs hub = some links → ∃ links', node'.datahubs hub = some links' ∧
        (links.Nodup → links'.Nodup) ∧
        ∀ a, a ∈ links' ↔ a ∈ links ∨ e = .datahubAddLink hub (some a)) := by
  cases e with
  | datahubAddLink hub addr =>
    change linkHub node hub addr = some node' at h
    unfold linkHub at h
    split at h
    · next links addr hlinks =>
      cases h
      refine ⟨rfl, fun hub' links' hlinks' => ?_⟩
      by_cases heq : hub' = hub
      · subst heq
        obtain rfl := Option.some.inj (hlinks.symm.trans hlinks')
        refine ⟨_, Function.update_self _ _ _, fun hnodup => nodup_datahubAddLink hnodup _, fun a => ?_⟩
        rw [mem_datahubAddLink]
        simp [eq_comm]
      · refine ⟨links', ?_, id, fun a => by simp [Ne.symm heq]⟩
        rw [← hlinks']
        exact Function.update_of_ne heq _ _
    · simp at h
  | datalinkSetRemoteAddr link addr =>
    change datalinkSetRemoteAddr node link addr = some node' at h
    unfold datalinkSetRemoteAddr at h
    split at h
    · simp at h
    · cases h
      exact ⟨rfl, fun hub links hlinks => ⟨links, hlinks, id, by simp⟩⟩
  | streamerlinkSetRemote | send | quit =>
    obtain rfl : node = node' := Option.some.inj h
    exact ⟨rfl, fun hub links hlinks => ⟨links, hlinks, id, by simp⟩⟩

theorem performAll_spec {node node' : Node} {es : List Effect} (h : performAll node es = some node') :
    node'.proxy = node.proxy ∧
      (∀ hub links, node.datahubs hub = some links → ∃ links', node'.datahubs hub = some links' ∧
        (links.Nodup → links'.Nodup) ∧
        ∀ a, a ∈ links' ↔ a ∈ links ∨ .datahubAddLink hub (some a) ∈ es) := by
  induction es generalizing node with
  | nil =>
    obtain rfl : node = node' := Option.some.inj h
    exact ⟨rfl, fun hub links hlinks => ⟨links, hlinks, id, by simp⟩⟩
  | cons e es ih =>
    obtain ⟨node₁, he, hrest⟩ := Option.bind_eq_some_iff.1 h
    obtain ⟨hproxy₁, hhubs₁⟩ := perform_spec he
    obtain ⟨hproxy, hhubs⟩ := ih hrest
    refine ⟨hproxy.trans hproxy₁, fun hub links hlinks => ?_⟩
    obtain ⟨links₁, hlinks₁, hnodup₁, hmem₁⟩ := hhubs₁ hub links hlinks
    obtain ⟨links', hlinks', hnodup, hmem⟩ := hhubs hub links₁ hlinks₁
    refine ⟨links', hlinks', fun hn => hnodup (hnodup₁ hn), fun a => ?_⟩
    rw [hmem, hmem₁, List.mem_cons, or_assoc, eq_comm (a := e)]

theorem perform_links {node node' : Node} {e : Effect} (h : perform node e = some node')
    (p : Endpoint) : node'.datalinks p = node.datalinks p ∧ (∀ a, e ≠ .datalinkSetRemoteAddr p a) ∨
      ∃ a link, e = .datalinkSetRemoteAddr p a ∧ node.datalinks p = some link ∧
        node'.datalinks p = some { link with remoteAddr := a } := by
  cases e with
  | datahubAddLink hub addr =>
    change linkHub node hub addr = some node' at h
    unfold linkHub at h
    split at h
    · cases h
      exact .inl ⟨rfl, by simp⟩
    · simp at h
  | datalinkSetRemoteAddr link addr =>
    change datalinkSetRemoteAddr node link addr = some node' at h
    unfold datalinkSetRemoteAddr at h
    split at h
    · simp at h
    · next l hl =>
      cases h
      by_cases heq : p = link
      · subst heq
        exact .inr ⟨addr, l, rfl, hl, Function.update_self _ _ _⟩
      · exact .inl ⟨Function.update_of_ne heq _ _, by simp [Ne.symm heq]⟩
  | streamerlinkSetRemote | send | quit =>
    obtain rfl : node = node' := Option.some.inj h
    exact .inl ⟨rfl, by simp⟩

theorem performAll_links {node node' : Node} {es : List Effect} (h : performAll node es = some node')
    (p : Endpoint) : node'.datalinks p = node.datalinks p ∧ (∀ a, .datalinkSetRemoteAddr p a ∉ es) ∨
      ∃ a link, .datalinkSetRemoteAddr p a ∈ es ∧ node.datalinks p = some link ∧
        node'.datalinks p = some { link with remoteAddr := a } := by
  induction es generalizing node with
  | nil =>
    obtain rfl : node = node' := Option.some.inj h
    exact .inl ⟨rfl, by simp⟩
  | cons e es ih =>
    obtain ⟨node₁, he, hrest⟩ := Option.bind_eq_some_iff.1 h
    rcases ih hrest with ⟨heq, hnone⟩ | ⟨a, link, ha, hlink, hlast⟩
    · rcases perform_links he p with ⟨heq₁, hne⟩ | ⟨a, link, rfl, hlink, hset⟩
      · exact .inl ⟨heq.trans heq₁, fun a => by simp [hnone a, Ne.symm (hne a)]⟩
      · exact .inr ⟨a, link, List.mem_cons_self, hlink, heq.trans hset⟩
    · rcases perform_links he p with ⟨heq₁, _⟩ | ⟨b, link₁, _, hlink₁, hset⟩
      · exact .inr ⟨a, link, List.mem_cons_of_mem _ ha, heq₁.symm.trans hlink, hlast⟩
      · obtain rfl := Option.some.inj (hlink.symm.trans hset)
        exact .inr ⟨a, link₁, List.mem_cons_of_mem _ ha, hlink₁, hlast⟩

end Node
end Rcom
