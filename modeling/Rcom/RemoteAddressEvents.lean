import Rcom.RemoteAddress

/-!
# Events that set the remote addresses

What the handlers of the registry's events do to the links of a node, and that each of them
keeps the lists in step and the addresses right.
-/

namespace Rcom
open Rcom.Lib Rcom.Lib.Json Rcom.Lib.Trace Rcom.Addr Rcom.RegistryEntry Rcom.Registry Rcom.RcRegistry
open Rcom.Proxy Rcom.Node

namespace Client
variable {J : Type} {L : JsonLib J}

/-! ## What the handlers do to the links -/

def DataOnly (registry : Registry) : Prop :=
  ∀ g ∈ registry, g.endpoint ≠ none → g.type = .datalink ∨ g.type = .datahub

theorem DataOnly.no_messagelink {registry : Registry} (h : DataOnly registry) {m : Entry}
    (hm : m ∈ registry) (htype : m.type = .messagelink) : ¬m.endpoint.isSome := by
  intro hend
  rcases h m hm (Option.isSome_iff_ne_none.1 hend) with heq | heq
  · simp [htype] at heq
  · simp [htype] at heq

def everyEntry (_ : Entry) : Bool := true

theorem everyEntry_setAddr (a : Option Addr) (e : Entry) : everyEntry (setAddr a e) = everyEntry e :=
  rfl

theorem moved_eq {r r' : Registry} (h : Moved everyEntry r r') : r' = r := by
  have hall : ∀ l : Registry, l.filter everyEntry = l := fun l => List.filter_eq_self.2 fun _ _ => rfl
  have hkept := h.kept
  rwa [hall, hall] at hkept

theorem mem_addUnknown {registry : Registry} {e f : Entry} (h : f ∈ addUnknown registry e) :
    f ∈ registry ∨ f = e := by
  unfold addUnknown at h
  split at h
  · exact .inl h
  · simpa using h

theorem subset_addUnknown {registry : Registry} {e f : Entry} (h : f ∈ registry) :
    f ∈ addUnknown registry e := by
  unfold addUnknown
  split
  · exact h
  · exact List.mem_append_left _ h

theorem like_addUnknown (registry : Registry) (e : Entry) :
    ∃ g ∈ addUnknown registry e, g.key = e.key := by
  unfold addUnknown
  split
  · next h =>
    obtain ⟨g, hg, hkey⟩ := List.mem_map.1 h
    exact ⟨g, hg, hkey⟩
  · exact ⟨e, List.mem_append_right _ List.mem_cons_self, rfl⟩

theorem handleAdd_spec {proxy proxy' : Proxy} {outcomes : List Outcome} {e : Entry}
    {es : List Effect} (haddrs : ∀ g ∈ proxy.registry, g.addr ≠ none) (hdata : DataOnly proxy.registry)
    (he : e.addr ≠ none) (hend : e.endpoint = none)
    (h : handleAdd proxy outcomes e = some (proxy', es)) :
    proxy'.registry = addUnknown proxy.registry e ∧
      ∀ p a, .datalinkSetRemoteAddr p a ∈ es ↔
        e.type = .datahub ∧ a = e.addr ∧ LinkOf (addUnknown proxy.registry e) e.topic p := by
  obtain ⟨count, hcount, hrest⟩ := Option.bind_eq_some_iff.1 h
  have hregistry : (if count = 0 then registryInsertEntry proxy.registry e else some proxy.registry) =
      some (addUnknown proxy.registry e) := by
    unfold addUnknown
    by_cases hkey : e.key ∈ proxy.registry.map Entry.key
    · obtain ⟨n, hn⟩ := countLike_ne_zero haddrs he hkey
      obtain rfl := Option.some.inj (hcount.symm.trans hn)
      rw [if_neg (Nat.succ_ne_zero n), if_pos hkey]
    · obtain rfl := Option.some.inj (hcount.symm.trans (countLike_eq_zero haddrs he hkey))
      rw [if_pos rfl, if_neg hkey, registryInsertEntry_eq _ he]
  rw [hregistry] at hrest
  obtain ⟨c, hconnect, heq⟩ := Option.map_eq_some_iff.1 hrest
  have hdata' : DataOnly (addUnknown proxy.registry e) := by
    intro g hg hgend
    exact hdata g ((mem_addUnknown hg).resolve_right fun heq => hgend (heq ▸ hend)) hgend
  obtain ⟨es', hconnected⟩ := addConnection_connected everyEntry_setAddr hconnect
    fun _ m hm hon hlocal => absurd hlocal (hdata'.no_messagelink hm (onTopic_iff.1 hon).1)
  have heffects : c.effects = es' := by simpa using hconnected.effects
  cases heq
  refine ⟨moved_eq hconnected.moved, fun p a => ?_⟩
  rw [heffects, hconnected.links]

theorem handleRemove_spec {proxy proxy' : Proxy} {id : CStr} {es : List Effect}
    (haddrs : ∀ g ∈ proxy.registry, g.addr ≠ none) (hids : IdsUnique proxy.registry)
    (h : handleRemove proxy id = some (proxy', es)) :
    proxy'.registry = (proxy.registry.eraseP fun e => e.id = id) ∧
      ∀ p a, .datalinkSetRemoteAddr p a ∈ es ↔ ∃ g ∈ proxy.registry, g.id = id ∧
        g.type = .datahub ∧ a = none ∧ LinkOf proxy'.registry g.topic p := by
  unfold handleRemove at h
  by_cases hid : ∃ g ∈ proxy.registry, g.id = id
  · obtain ⟨g, hg, rfl⟩ := hid
    have hget : registryGet proxy.registry g.id = some g := by
      rw [registryGet, find?_key hids hg, Option.bind_some, cloneEntry_of_addr (haddrs g hg)]
    simp only [hget, registryDelete_getD] at h
    obtain ⟨es, hes, heq⟩ := Option.map_eq_some_iff.1 h
    cases heq
    refine ⟨rfl, fun p a => ?_⟩
    have hiff : .datalinkSetRemoteAddr p a ∈ es ↔ g.type = .datahub ∧ a = none ∧
        LinkOf (proxy.registry.eraseP fun e => e.id = g.id) g.topic p := by
      unfold proxyRemoveConnection at hes
      split at hes
      · next htype =>
        obtain ⟨links, hlinks, rfl⟩ := Option.map_eq_some_iff.1 hes
        simp only [List.mem_map, localsOfTopic_mem hlinks, LinkOf, htype, true_and,
          Effect.datalinkSetRemoteAddr.injEq]
        constructor
        · rintro ⟨q, hq, hqp, ha⟩
          exact ⟨ha.symm, hqp ▸ hq⟩
        · rintro ⟨ha, hp⟩
          exact ⟨p, hp, rfl, ha.symm⟩
      · next htype =>
        obtain rfl := Option.some.inj hes
        simp only [List.not_mem_nil, false_iff, not_and]
        exact fun hhub => absurd hhub htype
    rw [hiff]
    constructor
    · exact fun hg' => ⟨g, hg, rfl, hg'⟩
    · rintro ⟨g', hg', hid, hrest⟩
      exact List.inj_on_of_nodup_map hids hg' hg hid ▸ hrest
  · have hnone : ∀ e ∈ proxy.registry, ¬(decide (e.id = id) = true) := fun e he => by
      simpa using fun hide => hid ⟨e, he, hide⟩
    have hget : registryGet proxy.registry id = none := by
      rw [registryGet, List.find?_eq_none.2 hnone, Option.bind_none]
    simp only [hget] at h
    cases h
    rw [List.eraseP_of_forall_not hnone]
    refine ⟨rfl, fun p a => ?_⟩
    simp only [List.not_mem_nil, false_iff]
    rintro ⟨g, hg, hgid, _⟩
    exact hid ⟨g, hg, hgid⟩

theorem idsUnique_addUnknown {registry : Registry} {e : Entry} (hids : IdsUnique registry)
    (h : ∀ g ∈ registry, g.id = e.id → g.key = e.key) : IdsUnique (addUnknown registry e) := by
  unfold addUnknown
  split
  · exact hids
  · next hkey =>
    rw [idsUnique_append hids]
    intro ⟨g, hg, hid⟩
    exact hkey (List.mem_map.2 ⟨g, hg, h g hg hid⟩)

theorem addMissing_cons {e : Entry} {es registry : Registry} (haddrs : ∀ g ∈ registry, g.addr ≠ none)
    (he : e.addr ≠ none) : addMissing (e :: es) registry = addMissing es (addUnknown registry e) := by
  unfold addUnknown
  rw [addMissing]
  by_cases hkey : e.key ∈ registry.map Entry.key
  · obtain ⟨n, hn⟩ := countLike_ne_zero haddrs he hkey
    simp only [hn, if_pos hkey]
  · simp only [countLike_eq_zero haddrs he hkey, registryInsertEntry_eq _ he, Option.getD_some,
      if_neg hkey]

theorem addMissing_spec {es registry registry' : Registry}
    (h : addMissing es registry = some registry') (haddrs : ∀ g ∈ registry, g.addr ≠ none)
    (hes : ∀ e ∈ es, e.addr ≠ none) (hids : IdsUnique registry)
    (hmatch : ∀ g, g ∈ registry ∨ g ∈ es → ∀ e ∈ es, g.id = e.id → g.key = e.key) :
    IdsUnique registry' ∧ ∀ e ∈ es, ∃ g ∈ registry', g.key = e.key := by
  induction es generalizing registry with
  | nil =>
    obtain rfl : registry = registry' := Option.some.inj h
    exact ⟨hids, by simp⟩
  | cons e es ih =>
    have he := hes e List.mem_cons_self
    rw [addMissing_cons haddrs he] at h
    have hfrom : ∀ g, g ∈ addUnknown registry e ∨ g ∈ es → g ∈ registry ∨ g ∈ e :: es := by
      intro g hg
      rcases hg with hg | hg
      · exact (mem_addUnknown hg).imp_right fun (heq : g = e) => heq ▸ List.mem_cons_self
      · exact .inr (List.mem_cons_of_mem _ hg)
    have haddrs' : ∀ g ∈ addUnknown registry e, g.addr ≠ none := by
      intro g hg
      rcases mem_addUnknown hg with hg | rfl
      · exact haddrs g hg
      · exact he
    obtain ⟨hids', hlike⟩ := ih h haddrs' (fun f hf => hes f (List.mem_cons_of_mem _ hf))
      (idsUnique_addUnknown hids fun g hg => hmatch g (.inl hg) e List.mem_cons_self)
      fun g hg f hf => hmatch g (hfrom g hg) f (List.mem_cons_of_mem _ hf)
    refine ⟨hids', fun f hf => ?_⟩
    rcases List.mem_cons.1 hf with rfl | hf
    · obtain ⟨g, hg, hkey⟩ := like_addUnknown registry f
      exact ⟨g, (addMissing_mem h).1 g hg, hkey⟩
    · exact hlike f hf

theorem removeVanished_eq {es : List Entry} {l : List (Option Entry)} {registry registry' : Registry}
    (h : removeVanished es l registry = some registry') (hl : ∀ v, some v ∈ l → ¬Vanishes es v) :
    registry' = registry := by
  induction l generalizing registry with
  | nil => exact (Option.some.inj h).symm
  | cons e l ih =>
    have hl' : ∀ v, some v ∈ l → ¬Vanishes es v := fun v hv => hl v (List.mem_cons_of_mem _ hv)
    match e with
    | none => simp [removeVanished] at h
    | some e =>
      rw [removeVanished] at h
      split at h
      · simp at h
      · exact ih h hl'
      · next hlisted =>
        split_ifs at h with hend
        · exact ih h hl'
        · exact absurd ⟨by simpa using hend, not_listed hlisted⟩ (hl e List.mem_cons_self)

/-- Nothing vanishes when the list has all entries of the other nodes. -/
theorem handleList_spec {proxy proxy' : Proxy} {outcomes : List Outcome} {entries : List Entry}
    {es : List Effect} (haddrs : ∀ g ∈ proxy.registry, g.addr ≠ none) (hdata : DataOnly proxy.registry)
    (hids : IdsUnique proxy.registry)
    (hentries : ∀ e ∈ entries, e.endpoint = none ∧ e.addr ≠ none)
    (hstay : ∀ g ∈ proxy.registry, g.endpoint = none → g ∈ entries)
    (hmatch : ∀ g, g ∈ proxy.registry ∨ g ∈ entries → ∀ e ∈ entries, g.id = e.id → g.key = e.key)
    (h : handleList proxy outcomes entries = some (proxy', es)) :
    (∀ g ∈ proxy.registry, g ∈ proxy'.registry) ∧
      (∀ g ∈ proxy'.registry, g ∈ proxy.registry ∨ g ∈ entries) ∧ IdsUnique proxy'.registry ∧
      (∀ e ∈ entries, ∃ g ∈ proxy'.registry, g.key = e.key) ∧
      ∀ p a, .datalinkSetRemoteAddr p a ∈ es ↔ ∃ e ∈ proxy'.registry, e.type = .datahub ∧
        a = e.addr ∧ LinkOf proxy'.registry e.topic p := by
  obtain ⟨added, hadded, hrest⟩ := Option.bind_eq_some_iff.1 h
  rw [registrySelectAll_eq, Option.bind_some] at hrest
  obtain ⟨left, hleft, hrest⟩ := Option.bind_eq_some_iff.1 hrest
  rw [registrySelectAll_eq, Option.bind_some] at hrest
  obtain ⟨c, hconnect, heq⟩ := Option.map_eq_some_iff.1 hrest
  obtain ⟨hsup, hsub⟩ := addMissing_mem hadded
  obtain ⟨hids', hlike⟩ := addMissing_spec hadded haddrs (fun e he => (hentries e he).2) hids hmatch
  have haddrs' : ∀ g ∈ added, g.addr ≠ none := fun g hg =>
    (hsub g hg).elim (haddrs g) fun hg => (hentries g hg).2
  have hcopies : (added.map cloneEntry).reverse = (added.map some).reverse := by
    rw [map_cloneEntry haddrs']
  have hmem : ∀ g, some g ∈ (added.map some).reverse ↔ g ∈ added := by simp
  have hvanish : ∀ v, some v ∈ (added.map some).reverse → ¬Vanishes entries v := by
    intro v hv ⟨hend, hnone⟩
    rcases hsub v ((hmem v).1 hv) with hv | hv
    · exact hnone v (hstay v hv hend) rfl
    · exact hnone v hv rfl
  rw [hcopies] at hleft
  obtain rfl := removeVanished_eq hleft hvanish
  have hdata' : DataOnly left := by
    intro g hg hend
    exact hdata g ((hsub g hg).resolve_right fun hg => hend (hentries g hg).1) hend
  obtain ⟨hmoved, es', heffects, _, hlinks⟩ :=
    connectAll_connected everyEntry_setAddr hconnect
      fun m hm htype hlocal => absurd hlocal (hdata'.no_messagelink hm htype)
  have heffects : c.effects = es' := by simpa using heffects
  have hsame : c.registry = left := moved_eq hmoved
  cases heq
  refine ⟨?_, ?_, ?_, ?_, fun p a => ?_⟩
  · rw [hsame]
    exact hsup
  · rw [hsame]
    exact hsub
  · rw [hsame]
    exact hids'
  · rw [hsame]
    exact hlike
  · rw [heffects, hlinks, hsame, hcopies]
    constructor
    · intro ⟨e, he, hrest⟩
      exact ⟨e, (hmem e).1 he, hrest⟩
    · intro ⟨e, he, hrest⟩
      exact ⟨e, (hmem e).2 he, hrest⟩

/-! ## Texts of the registry -/

structure Sound (s : Client) : Prop where
  book : Book s.node.proxy.registry s.registry s.requests
  wired : Wired s.node s.registry s.requests

theorem handles_of_receives {node node' : Node} {d : Delivery J} {event : ProxyEvent}
    (h : Receives L node d node') (hcarries : Carries L d.message event) :
    ∃ proxy es, handle node.proxy d.outcomes event = some (proxy, es) ∧
      performAll { node with proxy := proxy } es = some node' := by
  rw [Receives, onmessage, onmessage_of_carries hcarries] at h
  obtain ⟨⟨proxy, es⟩, hhandle, hperform⟩ := Option.bind_eq_some_iff.1 h
  exact ⟨proxy, es, hhandle, hperform⟩

/-- The conclusion of each step lemma, from what the handler has done. -/
theorem Sound.after {s : Client} {node' : Node} {proxy : Proxy} {es : List Effect}
    {registry : Registry} {requests : Sent} (h : Sound s)
    (hperform : performAll { s.node with proxy := proxy } es = some node')
    (hbook : Book proxy.registry registry requests)
    (hlocal : ∀ g, g.endpoint ≠ none → (g ∈ proxy.registry ↔ g ∈ s.node.proxy.registry))
    (hkeep : ∀ p topic, LinkOf s.node.proxy.registry topic p →
      (∀ a, .datalinkSetRemoteAddr p a ∉ es) →
      ∀ a, Aims s.node.proxy.registry s.registry s.requests topic a →
        Aims proxy.registry registry requests topic a)
    (hset : ∀ p a, .datalinkSetRemoteAddr p a ∈ es → ∃ topic,
      LinkOf s.node.proxy.registry topic p ∧ Aims proxy.registry registry requests topic a) :
    Sound ⟨node', registry, requests⟩ := by
  constructor
  · change Book node'.proxy.registry registry requests
    rw [(performAll_spec hperform).1]
    exact hbook
  · exact h.wired.hears hperform hlocal hkeep hset

theorem Sound.idle {s : Client} {node' : Node} {d : Delivery J} {rest : Sent} (h : Sound s)
    (done : Sent) (hstep : Receives L s.node d node') (hnone : ∀ event, ¬Carries L d.message event)
    (hrequests : s.requests = done ++ rest) (hdone : ∀ r ∈ done, r = .list ∧ s.registry = [])
    (hone : ∀ topic, OneHub topic s.registry) : Sound ⟨node', s.registry, rest⟩ := by
  have hbook := h.book
  rw [hrequests] at hbook
  obtain ⟨⟨proxy, es⟩, hmessage, hperform⟩ := Option.bind_eq_some_iff.1 hstep
  have hpending : ∀ e, Pending (done ++ rest) e → Pending rest e := by
    intro e ⟨hwf, hmem⟩
    refine ⟨hwf, (List.mem_append.1 hmem).resolve_left fun hd => ?_⟩
    have heq := (hdone _ hd).1
    simp [requestOf] at heq
  rcases onmessage_cases hmessage with ⟨hregistry, hquit⟩ | ⟨event, hcarries, _⟩
  · have hbook' : Book proxy.registry s.registry rest := by
      rw [hregistry]
      refine hbook.learn (fun g hg => hg) (fun g hg => .inl hg) hbook.ids hbook.listening
        hbook.registryIds (fun x hx => hx) (fun e he => hbook.pending e ?_)
        (fun e he => .inl (hpending e he)) (fun id hid => ?_) hone fun x hx _ => .inl ⟨hx, fun hl => ?_⟩
      · exact he.mono fun r hr => List.mem_append_right _ hr
      · have heq := (hdone _ hid).1
        simp at heq
      · rw [(hdone _ hl).2] at hx
        exact absurd hx List.not_mem_nil
    refine h.after hperform hbook' (fun g _ => by rw [hregistry]) (fun p topic _ _ a ha => ?_) ?_
    · refine ha.mono (fun e he _ => hpending e (hrequests ▸ he)) fun f _ => ?_
      rw [hregistry]
    · intro p a ha
      have heq := hquit _ ha
      simp at heq
  · exact absurd hcarries (hnone event)

theorem Sound.add {s : Client} {node' : Node} {d : Delivery J} {e : Entry} {rest : Sent}
    (h : Sound s) (done : Sent) (hstep : Receives L s.node d node') (hcarries : Carries L d.message (.add e))
    (hrequests : s.requests = done ++ rest)
    (hdone : ∀ r ∈ done, ∃ f : Entry, f.WellFormed ∧ r = requestOf f ∧ f.remote = e)
    (hrest : ∀ f, Pending rest f → f.id ≠ e.id) (hnew : ¬Holds s.registry e.id)
    (hids : ∀ g ∈ s.node.proxy.registry, g.id = e.id → g.key = e.key)
    (hone : ∀ topic, OneHub topic (s.registry ++ [e])) :
    Sound ⟨node', s.registry ++ [e], rest⟩ := by
  have hbook := h.book
  rw [hrequests] at hbook
  obtain ⟨hwf, hend, _⟩ := registryEntryParse_ok hcarries.2.2
  obtain ⟨proxy, es, hhandle, hperform⟩ := handles_of_receives hstep hcarries
  obtain ⟨hregistry, hset⟩ := handleAdd_spec hbook.addrs h.wired.locals hwf.addr hend hhandle
  have hanswered : ∀ f, Pending (done ++ rest) f → Pending rest f ∨ f.remote = e := by
    intro f ⟨hf, hmem⟩
    rcases List.mem_append.1 hmem with hd | hr
    · obtain ⟨f', hf', heq, hremote⟩ := hdone _ hd
      exact .inr ((remote_of_requestOf hf.addr hf'.addr heq).trans hremote)
    · exact .inl ⟨hf, hr⟩
  have hlast : e ∈ s.registry ++ [e] := List.mem_append_right _ List.mem_cons_self
  have hfrom : ∀ g ∈ proxy.registry, g ∈ s.node.proxy.registry ∨ g = e := fun g hg =>
    mem_addUnknown (hregistry ▸ hg)
  have hsup : ∀ g ∈ s.node.proxy.registry, g ∈ proxy.registry := fun g hg =>
    hregistry ▸ subset_addUnknown hg
  have hlocal : ∀ g, g.endpoint ≠ none → (g ∈ proxy.registry ↔ g ∈ s.node.proxy.registry) :=
    fun g hg => ⟨fun hmem => (hfrom g hmem).resolve_right fun heq => hg (heq ▸ hend), hsup g⟩
  have hbook' : Book proxy.registry (s.registry ++ [e]) rest := by
    refine hbook.learn hsup (fun g hg => (hfrom g hg).imp_right fun (heq : g = e) => heq ▸ hlast) ?_
      (hbook.listening.append ⟨hend, hwf.addr⟩) ((idsUnique_append hbook.registryIds).2 hnew)
      (fun x hx => List.mem_append_left _ hx) ?_
      (fun f hf => (hanswered f hf).imp_right fun (heq : f.remote = e) => heq ▸ hlast)
      (fun id hid => ?_) hone ?_
    · rw [hregistry]
      exact idsUnique_addUnknown hbook.ids hids
    · rintro f hf ⟨x, hx, hid⟩
      rcases List.mem_append.1 hx with hx | hx
      · exact hbook.pending f (hf.mono fun r hr => List.mem_append_right _ hr) ⟨x, hx, hid⟩
      · rw [List.mem_singleton.1 hx] at hid
        exact hrest f hf hid.symm
    · obtain ⟨f, _, heq, _⟩ := hdone _ hid
      simp [requestOf] at heq
    · intro x hx _
      rcases List.mem_append.1 hx with hx | hx
      · refine .inl ⟨hx, fun hl => ?_⟩
        obtain ⟨f, _, heq, _⟩ := hdone _ hl
        simp [requestOf] at heq
      · rw [List.mem_singleton.1 hx, hregistry]
        exact .inr (like_addUnknown _ e)
  refine h.after hperform hbook' hlocal (fun p topic hp hnone a ha => ?_) (fun p a hpa => ?_)
  · -- a link of the hub's topic would have been set
    have hoff : ¬onTopic topic .datahub e := by
      intro hon
      obtain ⟨htype, htopic⟩ := onTopic_iff.1 hon
      refine hnone e.addr ((hset p e.addr).2 ⟨htype, rfl, ?_⟩)
      rw [htopic, ← hregistry]
      exact (linkOf_iff hlocal topic p).2 hp
    refine ha.mono (fun f hf hon => ?_) fun f hon => ?_
    · rw [hrequests] at hf
      refine (hanswered f hf).resolve_right fun heq => hoff ?_
      rw [← heq]
      exact hon
    · constructor
      · rintro ⟨hf, hmem⟩
        refine ⟨(hfrom f hf).resolve_right fun heq => hoff (heq ▸ hon), ?_⟩
        refine (List.mem_append.1 hmem).resolve_right fun hlast => hoff ?_
        rw [← List.mem_singleton.1 hlast]
        exact hon
      · exact fun hf => ⟨hsup f hf.1, List.mem_append_left _ hf.2⟩
  · obtain ⟨htype, rfl, hp⟩ := (hset p a).1 hpa
    rw [← hregistry] at hp
    obtain ⟨g, hg, hkey⟩ := like_addUnknown s.node.proxy.registry e
    have hon : onTopic e.topic .datahub g = true :=
      (onTopic_of_key hkey).trans (onTopic_iff.2 ⟨htype, rfl⟩)
    refine ⟨e.topic, (linkOf_iff hlocal _ p).1 hp, ?_⟩
    rw [← addr_of_key hkey]
    exact hbook'.aims (hregistry ▸ hg) hon

theorem Sound.list {s : Client} {node' : Node} {d : Delivery J} {entries : List Entry} {rest : Sent}
    (h : Sound s) (hstep : Receives L s.node d node') (hcarries : Carries L d.message (.list entries))
    (hrequests : s.requests = .list :: rest) (hentries : ∀ e, e ∈ entries ↔ e ∈ s.registry)
    (hone : ∀ topic, OneHub topic s.registry) : Sound ⟨node', s.registry, rest⟩ := by
  have hbook : Book s.node.proxy.registry s.registry ([.list] ++ rest) := by
    rw [List.singleton_append, ← hrequests]
    exact h.book
  have hpending : ∀ e, Pending ([.list] ++ rest) e → Pending rest e := by
    intro e ⟨hwf, hmem⟩
    exact ⟨hwf, (List.mem_append.1 hmem).resolve_left (by simp [requestOf])⟩
  obtain ⟨proxy, es, hhandle, hperform⟩ := handles_of_receives hstep hcarries
  have hback : ∀ g ∈ s.node.proxy.registry, g.endpoint = none → g ∈ entries := by
    intro g hg hend
    rcases hbook.backed g hg with hmem | ⟨hne, _⟩
    · have heq : g.remote = g := by
        obtain ⟨⟩ := g
        dsimp only at hend
        subst hend
        exact Eq.refl _
      exact (hentries g).2 (heq ▸ hmem)
    · exact absurd hend hne
  have hmatch : ∀ g, g ∈ s.node.proxy.registry ∨ g ∈ entries → ∀ e ∈ entries, g.id = e.id →
      g.key = e.key := by
    intro g hg e he hid
    have he := (hentries e).1 he
    rcases hg with hg | hg
    · rcases hbook.backed g hg with hmem | ⟨_, hp⟩
      · rw [← List.inj_on_of_nodup_map hbook.registryIds hmem he hid]
        exact Eq.refl g.key
      · exact absurd ⟨e, he, hid.symm⟩ (hbook.pending g hp)
    · rw [List.inj_on_of_nodup_map hbook.registryIds ((hentries g).1 hg) he hid]
  have hremote : ∀ e ∈ entries, e.endpoint = none ∧ e.addr ≠ none := fun e he =>
    hbook.listening e ((hentries e).1 he)
  obtain ⟨hsup, hsub, hids, hlike, hset⟩ :=
    handleList_spec hbook.addrs h.wired.locals hbook.ids hremote hback hmatch hhandle
  have hlocal : ∀ g, g.endpoint ≠ none → (g ∈ proxy.registry ↔ g ∈ s.node.proxy.registry) :=
    fun g hg => ⟨fun hmem => (hsub g hmem).resolve_right fun hin => hg (hremote g hin).1, hsup g⟩
  have hbook' : Book proxy.registry s.registry rest := by
    refine hbook.learn hsup (fun g hg => (hsub g hg).imp_right (hentries g).1) hids hbook.listening
      hbook.registryIds (fun x hx => hx) (fun e he => hbook.pending e ?_)
      (fun e he => .inl (hpending e he)) (by simp) hone fun x hx _ => .inr ?_
    · exact he.mono fun r hr => List.mem_append_right _ hr
    · exact hlike x ((hentries x).2 hx)
  refine h.after hperform hbook' hlocal (fun p topic hp hnone a ha => ?_) (fun p a hpa => ?_)
  · -- there is no hub on the topic, or the link would have been set
    have hoff : ∀ f ∈ proxy.registry, ¬onTopic topic .datahub f := by
      intro f hf hon
      obtain ⟨htype, htopic⟩ := onTopic_iff.1 hon
      refine hnone f.addr ((hset p f.addr).2 ⟨f, hf, htype, rfl, ?_⟩)
      rw [htopic]
      exact (linkOf_iff hlocal topic p).2 hp
    rw [hrequests] at ha
    refine ha.mono (fun e he _ => hpending e he) fun f hon => ?_
    exact ⟨fun hf => absurd hon (hoff f hf.1), fun hf => absurd hon (hoff f (hsup f hf.1))⟩
  · obtain ⟨e, he, htype, rfl, hp⟩ := (hset p a).1 hpa
    exact ⟨e.topic, (linkOf_iff hlocal _ p).1 hp, hbook'.aims he (onTopic_iff.2 ⟨htype, rfl⟩)⟩

theorem Sound.remove {s : Client} {node' : Node} {d : Delivery J} {id : CStr} {registry : Registry}
    {rest : Sent} (h : Sound s) (done : Sent) (hstep : Receives L s.node d node')
    (hcarries : Carries L d.message (.remove id)) (hrequests : s.requests = done ++ rest)
    (hdone : ∀ r ∈ done, r = .unregister id)
    (hother : ∀ g ∈ s.node.proxy.registry, g.id = id → g.endpoint = none)
    (hdelete : registryDelete s.registry id = some registry) (hone : ∀ topic, OneHub topic s.registry) :
    Sound ⟨node', registry, rest⟩ := by
  have hbook := h.book
  rw [hrequests] at hbook
  obtain rfl : (s.registry.eraseP fun e => e.id = id) = registry := by
    rw [← registryDelete_getD, hdelete, Option.getD_some]
  obtain ⟨proxy, es, hhandle, hperform⟩ := handles_of_receives hstep hcarries
  obtain ⟨hregistry, hset⟩ := handleRemove_spec hbook.addrs hbook.ids hhandle
  have hmem : ∀ g, g ∈ proxy.registry ↔ g ∈ s.node.proxy.registry ∧ g.id ≠ id := fun g => by
    rw [hregistry]
    exact mem_eraseP_key hbook.ids
  have hmem' : ∀ x, x ∈ (s.registry.eraseP fun e => e.id = id) ↔ x ∈ s.registry ∧ x.id ≠ id :=
    fun x => mem_eraseP_key hbook.registryIds
  have hlocal : ∀ g, g.endpoint ≠ none → (g ∈ proxy.registry ↔ g ∈ s.node.proxy.registry) :=
    fun g hg => (hmem g).trans ⟨And.left, fun hin => ⟨hin, fun hid => hg (hother g hin hid)⟩⟩
  refine h.after hperform (hregistry ▸ hbook.forget hdone) hlocal
    (fun p topic hp hnone a ha => ?_) (fun p a hpa => ?_)
  · -- the entry is not a hub of the topic, or the link would have been set
    have hoff : ∀ f ∈ s.node.proxy.registry, onTopic topic .datahub f → f.id ≠ id := by
      intro f hf hon hid
      obtain ⟨htype, htopic⟩ := onTopic_iff.1 hon
      refine hnone none ((hset p none).2 ⟨f, hf, hid, htype, rfl, ?_⟩)
      rw [htopic]
      exact (linkOf_iff hlocal topic p).2 hp
    refine ha.mono (fun e he _ => ⟨he.1, ?_⟩) fun f hon => ?_
    · have he := he.2
      rw [hrequests] at he
      refine (List.mem_append.1 he).resolve_left fun hd => ?_
      have heq := hdone _ hd
      simp [requestOf] at heq
    · rw [hmem, hmem']
      constructor
      · exact fun hf => ⟨hf.1.1, hf.2.1⟩
      · exact fun hf => ⟨⟨hf.1, hoff f hf.1 hon⟩, hf.2, hoff f hf.1 hon⟩
  · obtain ⟨g, hg, hid, htype, rfl, hp⟩ := (hset p a).1 hpa
    refine ⟨g.topic, (linkOf_iff hlocal _ p).1 hp, .inr (.inr ⟨rfl, fun f hf hon hr => ?_⟩)⟩
    -- the hub that was removed was the only one
    have hgr : g.remote ∈ s.registry := by
      rcases hbook.backed g hg with hgr | ⟨hend, _⟩
      · exact hgr
      · exact absurd (hother g hg hid) hend
    obtain ⟨hr, hne⟩ := (hmem' _).1 hr
    have heq : f.remote = g.remote :=
      oneHub_eq (hone g.topic) hr hgr hon (onTopic_iff.2 ⟨htype, rfl⟩)
    exact hne ((id_of_remote heq).trans hid)

theorem updateAddr_eq {registry registry' : Registry} {id addr : CStr}
    (h : registryUpdateAddr registry id addr = some (registry', 0)) :
    ∃ a : Addr, registry' = updateFirst (fun e => e.id = id) (setAddr (some a)) registry ∧
      (Holds registry id → addrParse addr = some (some a)) := by
  by_cases hid : Holds registry id
  · rw [registryUpdateAddr_known hid] at h
    obtain ⟨a, ha, heq⟩ := Option.map_eq_some_iff.1 h
    cases a with
    | none => simp at heq
    | some a =>
      simp only [reduceCtorEq, if_false, Prod.mk.injEq, and_true] at heq
      exact ⟨a, heq.symm, fun _ => ha⟩
  · rw [registryUpdateAddr_unknown hid] at h
    simp only [Option.some.injEq, Prod.mk.injEq, and_true] at h
    refine ⟨⟨⟨0, 0, 0, 0⟩, 0⟩, ?_, fun hin => absurd hin hid⟩
    rw [updateFirst_of_forall _ fun e he => by simpa using fun hide => hid ⟨e, he, hide⟩, h]

theorem Sound.update {s : Client} {node' : Node} {d : Delivery J} {id addr : CStr}
    {registry : Registry} (h : Sound s) (hstep : Receives L s.node d node')
    (hcarries : Carries L d.message (.updateAddress id addr))
    (hother : ∀ g ∈ s.node.proxy.registry, g.id = id → g.endpoint = none)
    (hupdate : registryUpdateAddr s.registry id addr = some (registry, 0))
    (huntargeted : ∀ f ∈ s.node.proxy.registry, f.type = .datahub → f.id = id →
      ∀ p, ¬LinkOf s.node.proxy.registry f.topic p) : Sound ⟨node', registry, s.requests⟩ := by
  obtain ⟨a, rfl, hparse⟩ := updateAddr_eq hupdate
  obtain ⟨proxy, es, hhandle, hperform⟩ := handles_of_receives hstep hcarries
  obtain ⟨⟨known, err⟩, hknown, heq⟩ := Option.map_eq_some_iff.1 hhandle
  cases heq
  -- an entry that the proxy knows is in the registry too, so it gets the same address
  have hsame : known = updateFirst (fun e => e.id = id) (setAddr (some a)) s.node.proxy.registry := by
    by_cases hid : Holds s.node.proxy.registry id
    · have hin : Holds s.registry id := by
        obtain ⟨g, hg, hgid⟩ := hid
        rcases h.book.backed g hg with hmem | ⟨hend, _⟩
        · exact ⟨g.remote, hmem, hgid⟩
        · exact absurd (hother g hg hgid) hend
      rw [registryUpdateAddr_known hid, hparse hin] at hknown
      simp only [Option.map_some, Option.some.injEq, Prod.mk.injEq] at hknown
      exact hknown.1.symm
    · rw [registryUpdateAddr_unknown hid] at hknown
      simp only [Option.some.injEq, Prod.mk.injEq] at hknown
      rw [updateFirst_of_forall _ fun e he => by simpa using fun hide => hid ⟨e, he, hide⟩]
      exact hknown.1.symm
  subst hsame
  have hmem : ∀ f, f.id ≠ id →
      (f ∈ updateFirst (fun e => e.id = id) (setAddr (some a)) s.node.proxy.registry ↔
        f ∈ s.node.proxy.registry) := by
    intro f hne
    rw [mem_updateFirst_key h.book.ids]
    constructor
    · intro hf
      rcases hf with ⟨hf, _⟩ | ⟨b, _, hb, rfl⟩
      · exact hf
      · exact absurd hb hne
    · exact fun hf => .inl ⟨hf, hne⟩
  have hmem' : ∀ x, x.id ≠ id →
      (x ∈ updateFirst (fun e => e.id = id) (setAddr (some a)) s.registry ↔ x ∈ s.registry) := by
    intro x hne
    rw [mem_updateFirst_key h.book.registryIds]
    constructor
    · intro hx
      rcases hx with ⟨hx, _⟩ | ⟨b, _, hb, rfl⟩
      · exact hx
      · exact absurd hb hne
    · exact fun hx => .inl ⟨hx, hne⟩
  have hlocal : ∀ g, g.endpoint ≠ none →
      (g ∈ updateFirst (fun e => e.id = id) (setAddr (some a)) s.node.proxy.registry ↔
        g ∈ s.node.proxy.registry) := by
    intro g hg
    by_cases hid : g.id = id
    · constructor
      · intro hin
        rcases (mem_updateFirst_key h.book.ids).1 hin with ⟨_, hne⟩ | ⟨b, hb, hbid, rfl⟩
        · exact absurd hid hne
        · exact absurd (hother b hb hbid) hg
      · exact fun hin => absurd (hother g hin hid) hg
    · exact hmem g hid
  refine h.after hperform (h.book.readdress hother a) hlocal (fun p topic hp _ b hb => ?_) (by simp)
  refine hb.mono (fun e he _ => he) fun f hon => ?_
  by_cases hid : f.id = id
  · -- a hub with links keeps its address
    obtain ⟨htype, htopic⟩ := onTopic_iff.1 hon
    constructor
    · intro ⟨hf, _⟩
      rcases (mem_updateFirst_key h.book.ids).1 hf with ⟨_, hne⟩ | ⟨b, hb, hbid, rfl⟩
      · exact absurd hid hne
      · rw [setAddr_topic] at htopic
        exact absurd (htopic ▸ hp) (huntargeted b hb htype hbid p)
    · exact fun ⟨hf, _⟩ => absurd (htopic ▸ hp) (huntargeted f hf htype hid p)
  · exact and_congr (hmem f hid) (hmem' f.remote hid)

end Client
end Rcom
