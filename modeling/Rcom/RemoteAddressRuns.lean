import Rcom.RemoteAddressEvents

/-!
# Links in the runs of a node

Opening and closing keep the lists in step and the addresses right, as long as no hub that a
link sends to is closed. So they are right in every run whose events and closings spare the
hubs that are sent to.
-/

namespace Rcom
open Rcom.Lib Rcom.Lib.Json Rcom.Lib.Trace Rcom.Addr Rcom.RegistryEntry Rcom.Registry Rcom.RcRegistry
open Rcom.Proxy Rcom.Node

namespace Client
variable {J : Type} {L : JsonLib J}

/-! ## Opening and closing -/

theorem proxyNewEntry_failed {sent : Bool} {proxy proxy' : Proxy} {name topic : CStr}
    {type : EntryType} {created : Creation} (hfresh : ¬Holds proxy.registry created.uuid)
    (h : proxyNewEntry false sent proxy name topic type created = (proxy', none)) :
    proxy' = proxy := by
  rw [proxyNewEntry_eq] at h
  rcases insertEntry_cases proxy name topic type created with hnone | ⟨-, -, hinsert⟩
  · rw [hnone] at h
    exact (congrArg Prod.fst h).symm
  · rw [hinsert] at h
    cases sent with
    | true => cases h
    | false =>
      have hnone : ∀ e ∈ proxy.registry,
          ¬(decide (e.id = (entryOf name topic type created).id) = true) :=
        fun e he hid => hfresh ⟨e, he, of_decide_eq_true hid⟩
      obtain rfl : (registerEntry false _ _).1 = proxy' := congrArg Prod.fst h
      rw [registerEntry_unsent]
      dsimp only
      rw [List.eraseP_append_right _ hnone, List.eraseP_cons_of_pos (by simp), List.append_nil]

theorem proxyNewEntry_registered {sent : Bool} {proxy proxy' : Proxy} {name topic : CStr}
    {type : EntryType} {created : Creation} {entry : Entry} {requests : Sent}
    (hid : registryValidId created.uuid = true)
    (h : proxyNewEntry false sent proxy name topic type created = (proxy', some (entry, requests))) :
    entry = entryOf name topic type created ∧ entry.WellFormed ∧
      proxy' = { proxy with registry := proxy.registry ++ [entry] } ∧ requests = [requestOf entry] := by
  rw [proxyNewEntry_eq] at h
  rcases insertEntry_cases proxy name topic type created with hnone | ⟨hname, htopic, hinsert⟩
  · rw [hnone] at h
    cases h
  · rw [hinsert] at h
    cases sent with
    | false => cases h
    | true =>
      dsimp only at h
      rw [registerEntry_sent, if_pos rfl] at h
      cases h
      exact ⟨rfl, ⟨⟨hid, hname, htopic⟩, Option.some_ne_none _⟩, rfl, rfl⟩

theorem proxyDeleteEntry_cases {proxy proxy' : Proxy} {type : EntryType} {endpoint : Endpoint}
    {requests : Sent} (h : proxyDeleteEntry false true proxy type endpoint = some (proxy', requests)) :
    (proxy' = proxy ∧ requests = [] ∧
        ∀ g ∈ proxy.registry, g.type = type → g.endpoint ≠ some endpoint) ∨
      ∃ g ∈ proxy.registry, g.type = type ∧ g.endpoint = some endpoint ∧
        proxy' = { proxy with registry := proxy.registry.eraseP fun e => e.id = g.id } ∧
        requests = [.unregister g.id] := by
  rw [proxyDeleteEntry_eq] at h
  obtain ⟨⟨proxy₁, entry⟩, hremove, heq⟩ := Option.map_eq_some_iff.1 h
  cases heq
  rcases removeEntry_cases hremove with ⟨rfl, rfl, hnone⟩ | ⟨g, hg, htype, hend, rfl, rfl⟩
  · exact .inl ⟨rfl, rfl, hnone⟩
  · exact .inr ⟨g, hg, htype, hend, rfl, rfl⟩

theorem Sound.openDatalink {s : Client} {sent : Bool} {name topic : CStr} {created : Option Creation}
    {node : Node} {opened : Option (Endpoint × Sent)} (h : Sound s) (hnew : s.Allocates created)
    (hopen : proxyOpenDatalink false sent s.node name topic created = some (node, opened)) :
    Sound ⟨node, s.registry, s.requests ++ opening opened⟩ := by
  cases created with
  | none =>
    cases hopen
    rw [opening, Option.map_none, Option.getD_none, List.append_nil]
    exact h
  | some created =>
  obtain ⟨hid, ⟨hknown, hregistry, hrequests⟩, hdead, _⟩ := hnew created rfl
  simp only [proxyOpenDatalink] at hopen
  split at hopen
  · next proxy hentry =>
    obtain rfl := proxyNewEntry_failed hknown hentry
    cases hopen
    rw [opening, Option.map_none, Option.getD_none, List.append_nil]
    exact h
  · next proxy entry requests hentry =>
    obtain ⟨heq, hwf, rfl, rfl⟩ := proxyNewEntry_registered hid hentry
    have hend : entry.endpoint = some created.endpoint := congrArg Entry.endpoint heq
    have htype : entry.type = .datalink := congrArg Entry.type heq
    have hentryId : entry.id = created.uuid := congrArg Entry.id heq
    have hbook := h.book.open hwf (by simp [hend]) (hentryId ▸ hknown) (hentryId ▸ hregistry)
      (hentryId ▸ hrequests)
    -- the address of the newest hub, if there is one
    obtain ⟨a, haims, hnode, hopened⟩ : ∃ a,
        Aims (s.node.proxy.registry ++ [entry]) s.registry (s.requests ++ [requestOf entry]) entry.topic a ∧
        node = ⟨{ s.node.proxy with registry := s.node.proxy.registry ++ [entry] }, s.node.datahubs,
          Function.update s.node.datalinks created.endpoint (some ⟨created.addr, a⟩)⟩ ∧
        opened = some (created.endpoint, [requestOf entry]) := by
      rw [select_onTopic] at hopen
      split at hopen
      · simp at hopen
      · next hnil =>
        cases hopen
        refine ⟨none, .inr (.inr ⟨rfl, fun f hf hon => ?_⟩), rfl, rfl⟩
        exact absurd hon (none_of_no_copies (Option.some.inj hnil) f hf)
      · simp at hopen
      · next f l hcons =>
        cases hopen
        obtain ⟨hf, hon⟩ := mem_of_first_copy (Option.some.inj hcons)
        exact ⟨f.addr, hbook.aims hf hon, rfl, rfl⟩
    subst hnode hopened
    refine ⟨hbook, ?_⟩
    have hold : ∀ g ∈ s.node.proxy.registry, g.type = .datalink → g.endpoint ≠ some created.endpoint := by
      intro g hg htype hgend
      exact h.wired.live g.topic _ ⟨g, hg, onTopic_iff.2 ⟨htype, rfl⟩, hgend⟩ hdead
    have hlinkOf : ∀ t p, LinkOf (s.node.proxy.registry ++ [entry]) t p →
        (p ≠ created.endpoint ∧ LinkOf s.node.proxy.registry t p) ∨
          p = created.endpoint ∧ t = entry.topic := by
      intro t p ⟨g, hg, hon, hgend⟩
      rcases List.mem_append.1 hg with hg | hg
      · refine .inl ⟨fun hp => ?_, g, hg, hon, hgend⟩
        exact hold g hg (onTopic_iff.1 hon).1 (hp ▸ hgend)
      · rw [List.mem_singleton.1 hg] at hon hgend
        exact .inr ⟨Option.some.inj (hgend.symm.trans hend), (onTopic_iff.1 hon).2.symm⟩
    constructor
    · intro g hg hgend
      rcases List.mem_append.1 hg with hg | hg
      · exact h.wired.locals g hg hgend
      · exact .inl (List.mem_singleton.1 hg ▸ htype)
    · intro t p hp
      rcases hlinkOf t p hp with ⟨hne, hp⟩ | ⟨rfl, _⟩
      · dsimp only
        rw [Function.update_of_ne hne]
        exact h.wired.live t p hp
      · simp
    · intro g hg g' hg' hgt hgt' hgend heq
      rcases List.mem_append.1 hg with hg | hg
      · rcases List.mem_append.1 hg' with hg' | hg'
        · exact h.wired.sole g hg g' hg' hgt hgt' hgend heq
        · rw [List.mem_singleton.1 hg', hend] at heq
          exact absurd heq (hold g hg hgt)
      · rcases List.mem_append.1 hg' with hg' | hg'
        · rw [List.mem_singleton.1 hg, hend] at heq
          exact absurd heq.symm (hold g' hg' hgt')
        · rw [List.mem_singleton.1 hg, List.mem_singleton.1 hg']
    · intro p link hlink
      by_cases hp : p = created.endpoint
      · exact ⟨entry.topic, entry, List.mem_append_right _ List.mem_cons_self,
          onTopic_iff.2 ⟨htype, rfl⟩, hp ▸ hend⟩
      · dsimp only at hlink
        rw [Function.update_of_ne hp] at hlink
        obtain ⟨t, g, hg, hon, hgend⟩ := h.wired.entries p link hlink
        exact ⟨t, g, List.mem_append_left _ hg, hon, hgend⟩
    · intro p link t hlink hp
      rcases hlinkOf t p hp with ⟨hne, hp⟩ | ⟨rfl, rfl⟩
      · dsimp only at hlink
        rw [Function.update_of_ne hne] at hlink
        refine (h.wired.aims p link t hlink hp).mono ?_ fun f hon => ?_
        · exact fun e he _ => he.mono fun r hr => List.mem_append_left _ hr
        · have hf : f ≠ entry := by
            intro heq
            rw [heq, onTopic_iff, htype] at hon
            simp at hon
          simp [hf]
      · dsimp only at hlink
        rw [Function.update_self] at hlink
        obtain rfl := Option.some.inj hlink
        exact haims

theorem Sound.openDatahub {s : Client} {sent : Bool} {name topic : CStr} {created : Option Creation}
    {node : Node} {opened : Option (Endpoint × Sent)} (h : Sound s) (hnew : s.Allocates created)
    (hopen : proxyOpenDatahub false sent s.node name topic created = some (node, opened)) :
    Sound ⟨node, s.registry, s.requests ++ opening opened⟩ := by
  cases created with
  | none =>
    cases hopen
    rw [opening, Option.map_none, Option.getD_none, List.append_nil]
    exact h
  | some created =>
  obtain ⟨hid, ⟨hknown, hregistry, hrequests⟩, _, _⟩ := hnew created rfl
  simp only [proxyOpenDatahub] at hopen
  split at hopen
  · next proxy hentry =>
    obtain rfl := proxyNewEntry_failed hknown hentry
    cases hopen
    rw [opening, Option.map_none, Option.getD_none, List.append_nil]
    exact h
  · next proxy entry requests hentry =>
    obtain ⟨heq, hwf, rfl, rfl⟩ := proxyNewEntry_registered hid hentry
    have hend : entry.endpoint = some created.endpoint := congrArg Entry.endpoint heq
    have htype : entry.type = .datahub := congrArg Entry.type heq
    have hentryId : entry.id = created.uuid := congrArg Entry.id heq
    obtain ⟨links, _, hnode⟩ := Option.map_eq_some_iff.1 hopen
    cases hnode
    have hbook := h.book.open hwf (by simp [hend]) (hentryId ▸ hknown) (hentryId ▸ hregistry)
      (hentryId ▸ hrequests)
    have hlinkOf : ∀ t p, LinkOf (s.node.proxy.registry ++ [entry]) t p →
        LinkOf s.node.proxy.registry t p := by
      rintro t p ⟨g, hg, hon, hgend⟩
      refine ⟨g, (List.mem_append.1 hg).resolve_right fun hg => ?_, hon, hgend⟩
      rw [List.mem_singleton.1 hg, onTopic_iff, htype] at hon
      simp at hon
    have hlink : ∀ g ∈ s.node.proxy.registry ++ [entry], g.type = .datalink →
        g ∈ s.node.proxy.registry := by
      intro g hg hgt
      refine (List.mem_append.1 hg).resolve_right fun hg => ?_
      rw [List.mem_singleton.1 hg, htype] at hgt
      simp at hgt
    refine ⟨hbook, ?_⟩
    constructor
    · intro g hg hgend
      rcases List.mem_append.1 hg with hg | hg
      · exact h.wired.locals g hg hgend
      · exact .inr (List.mem_singleton.1 hg ▸ htype)
    · exact fun t p hp => h.wired.live t p (hlinkOf t p hp)
    · intro g hg g' hg' hgt hgt' hgend hgg
      exact h.wired.sole g (hlink g hg hgt) g' (hlink g' hg' hgt') hgt hgt' hgend hgg
    · intro p link hp
      obtain ⟨t, g, hg, hon, hgend⟩ := h.wired.entries p link hp
      exact ⟨t, g, List.mem_append_left _ hg, hon, hgend⟩
    · intro p link t hp hlinkp
      refine (h.wired.aims p link t hp (hlinkOf t p hlinkp)).mono ?_ fun f hon => ?_
      · exact fun e he _ => he.mono fun r hr => List.mem_append_left _ hr
      · -- the new hub is not in the registry yet
        constructor
        · rintro ⟨hf, hmem⟩
          refine ⟨(List.mem_append.1 hf).resolve_right fun hf => ?_, hmem⟩
          rw [List.mem_singleton.1 hf] at hmem
          exact hregistry ⟨_, hmem, hentryId⟩
        · exact fun hf => ⟨List.mem_append_left _ hf.1, hf.2⟩

theorem Sound.closeDatalink {s : Client} {link : Endpoint} {node : Node} {requests : Sent}
    (h : Sound s) (hclose : proxyCloseDatalink false true s.node link = some (node, requests)) :
    Sound ⟨node, s.registry, s.requests ++ requests⟩ := by
  obtain ⟨⟨proxy, requests'⟩, hdelete, heq⟩ := Option.map_eq_some_iff.1 hclose
  cases heq
  have hgone : ∀ p l, Function.update s.node.datalinks link none p = some l →
      p ≠ link ∧ s.node.datalinks p = some l := by
    intro p l hp
    have hne : p ≠ link := fun heq => by
      rw [heq, Function.update_self] at hp
      simp at hp
    rw [Function.update_of_ne hne] at hp
    exact ⟨hne, hp⟩
  rcases proxyDeleteEntry_cases hdelete with ⟨rfl, rfl, hnone⟩ | ⟨g, hg, htype, hend, rfl, rfl⟩
  · rw [List.append_nil]
    refine ⟨h.book, h.wired.locals, ?_, h.wired.sole, ?_, ?_⟩
    · intro t p hp
      have hne : p ≠ link := by
        intro heq
        obtain ⟨g, hg, hon, hend⟩ := hp
        exact hnone g hg (onTopic_iff.1 hon).1 (heq ▸ hend)
      dsimp only
      rw [Function.update_of_ne hne]
      exact h.wired.live t p hp
    · exact fun p l hp => h.wired.entries p l (hgone p l hp).2
    · exact fun p l t hp => h.wired.aims p l t (hgone p l hp).2
  · have hmem : ∀ f, f ∈ (s.node.proxy.registry.eraseP fun e => e.id = g.id) ↔
        f ∈ s.node.proxy.registry ∧ f.id ≠ g.id := fun f => mem_eraseP_key h.book.ids
    have hlinkOf : ∀ t p, LinkOf (s.node.proxy.registry.eraseP fun e => e.id = g.id) t p →
        LinkOf s.node.proxy.registry t p :=
      fun t p ⟨f, hf, hon, hfend⟩ => ⟨f, ((hmem f).1 hf).1, hon, hfend⟩
    refine ⟨h.book.close g.id, ?_⟩
    constructor
    · exact fun f hf hfend => h.wired.locals f ((hmem f).1 hf).1 hfend
    · intro t p ⟨f, hf, hon, hfend⟩
      obtain ⟨hf, hid⟩ := (hmem f).1 hf
      have hne : p ≠ link := by
        intro heq
        have hfg := h.wired.sole f hf g hg (onTopic_iff.1 hon).1 htype (by simp [hfend])
          (hfend.trans (heq ▸ hend.symm))
        exact hid (congrArg Entry.id hfg)
      dsimp only
      rw [Function.update_of_ne hne]
      exact h.wired.live t p ⟨f, hf, hon, hfend⟩
    · exact fun f hf f' hf' => h.wired.sole f ((hmem f).1 hf).1 f' ((hmem f').1 hf').1
    · intro p l hp
      obtain ⟨hne, hp⟩ := hgone p l hp
      obtain ⟨t, f, hf, hon, hfend⟩ := h.wired.entries p l hp
      refine ⟨t, f, (hmem f).2 ⟨hf, fun hid => hne ?_⟩, hon, hfend⟩
      have hfg := List.inj_on_of_nodup_map h.book.ids hf hg hid
      rw [hfg, hend] at hfend
      exact (Option.some.inj hfend).symm
    · intro p l t hp hlinkp
      refine (h.wired.aims p l t (hgone p l hp).2 (hlinkOf t p hlinkp)).mono ?_ fun f hon => ?_
      · exact fun e he _ => he.mono fun r hr => List.mem_append_left _ hr
      · rw [hmem]
        refine ⟨fun hf => ⟨hf.1.1, hf.2⟩, fun hf => ⟨⟨hf.1, fun hid => ?_⟩, hf.2⟩⟩
        rw [List.inj_on_of_nodup_map h.book.ids hf.1 hg hid, onTopic_iff, htype] at hon
        simp at hon

theorem Sound.closeDatahub {s : Client} {hub : Endpoint} {node : Node} {requests : Sent}
    (h : Sound s) (hclose : proxyCloseDatahub false true s.node hub = some (node, requests))
    (hone : ∀ topic, OneHub topic s.registry)
    (huntargeted : ∀ f ∈ s.node.proxy.registry, f.type = .datahub → f.endpoint = some hub →
      f.remote ∈ s.registry → ∀ p link, s.node.datalinks p = some link →
        LinkOf s.node.proxy.registry f.topic p → link.remoteAddr ≠ f.addr) :
    Sound ⟨node, s.registry, s.requests ++ requests⟩ := by
  obtain ⟨⟨proxy, requests'⟩, hdelete, heq⟩ := Option.map_eq_some_iff.1 hclose
  cases heq
  rcases proxyDeleteEntry_cases hdelete with ⟨rfl, rfl, _⟩ | ⟨g, hg, htype, hend, rfl, rfl⟩
  · rw [List.append_nil]
    exact ⟨h.book, h.wired.locals, h.wired.live, h.wired.sole, h.wired.entries, h.wired.aims⟩
  · have hmem : ∀ f, f ∈ (s.node.proxy.registry.eraseP fun e => e.id = g.id) ↔
        f ∈ s.node.proxy.registry ∧ f.id ≠ g.id := fun f => mem_eraseP_key h.book.ids
    have hlinkOf : ∀ t p, LinkOf (s.node.proxy.registry.eraseP fun e => e.id = g.id) t p →
        LinkOf s.node.proxy.registry t p :=
      fun t p ⟨f, hf, hon, hfend⟩ => ⟨f, ((hmem f).1 hf).1, hon, hfend⟩
    refine ⟨h.book.close g.id, ?_⟩
    constructor
    · exact fun f hf hfend => h.wired.locals f ((hmem f).1 hf).1 hfend
    · exact fun t p hp => h.wired.live t p (hlinkOf t p hp)
    · exact fun f hf f' hf' => h.wired.sole f ((hmem f).1 hf).1 f' ((hmem f').1 hf').1
    · intro p l hp
      obtain ⟨t, f, hf, hon, hfend⟩ := h.wired.entries p l hp
      refine ⟨t, f, (hmem f).2 ⟨hf, fun hid => ?_⟩, hon, hfend⟩
      rw [List.inj_on_of_nodup_map h.book.ids hf hg hid, onTopic_iff, htype] at hon
      simp at hon
    · intro p l t hp hlinkp
      have haims := h.wired.aims p l t hp (hlinkOf t p hlinkp)
      have hpending : ∀ e, Pending s.requests e →
          Pending (s.requests ++ [.unregister g.id]) e :=
        fun e he => he.mono fun r hr => List.mem_append_left _ hr
      by_cases hhub : onTopic t .datahub g = true ∧ g.remote ∈ s.registry
      · -- the hub of the topic is closed: the links of the topic send to one that is opening
        obtain ⟨hon, hgr⟩ := hhub
        have htopic := (onTopic_iff.1 hon).2
        rcases haims with ⟨e, he, heon, ha⟩ | ⟨f, hf, hfon, hfr, ha⟩ | ⟨_, hnone⟩
        · exact .inl ⟨e, hpending e he, heon, ha⟩
        · have heq : f.remote = g.remote := oneHub_eq (hone t) hfr hgr hfon hon
          have hfg := List.inj_on_of_nodup_map h.book.ids hf hg (id_of_remote heq)
          rw [hfg] at ha
          have hlinkg : LinkOf s.node.proxy.registry g.topic p := htopic ▸ hlinkOf t p hlinkp
          exact absurd ha (huntargeted g hg htype hend hgr p l hp hlinkg)
        · exact absurd hgr (hnone g hg hon)
      · refine haims.mono (fun e he _ => hpending e he) fun f hon => ?_
        rw [hmem]
        refine ⟨fun hf => ⟨hf.1.1, hf.2⟩, fun hf => ⟨⟨hf.1, fun hid => hhub ?_⟩, hf.2⟩⟩
        have hfg := List.inj_on_of_nodup_map h.book.ids hf.1 hg hid
        rw [← hfg]
        exact ⟨hon, hf.2⟩

/-! ## Runs -/

theorem sound_newClient {central : Registry} (hids : IdsUnique central) (hlist : Listening central) :
    Sound (newClient central) := by
  constructor
  · refine ⟨List.nodup_nil, by simp [newClient, newNode, newProxy, newRegistry], hids, hlist,
      by simp [newClient, newNode, newProxy, newRegistry], ?_, List.pairwise_singleton _ _, ?_, ?_⟩
    · intro e he
      simp [Pending, newClient, requestOf] at he
    · intro id _ g hg
      exact absurd hg List.not_mem_nil
    · exact fun x _ _ => .inr (.inr (.inl List.mem_cons_self))
  · refine ⟨by simp [newClient, newNode, newProxy, newRegistry], ?_, by simp [newClient, newNode,
      newProxy, newRegistry], by simp [newClient, newNode], by simp [newClient, newNode]⟩
    rintro topic p ⟨g, hg, _⟩
    exact absurd hg List.not_mem_nil

theorem Sound.heard {s : Client} {d : Delivery J} {node : Node} {registry : Registry}
    {requests : Sent} (h : Sound s) (hstep : Receives L s.node d node)
    (hheard : Heard L s d.message registry requests) (hone : ∀ topic, OneHub topic s.registry)
    (hone' : ∀ topic, OneHub topic registry) (hG : Untargeted L s (.receive d)) :
    Sound ⟨node, registry, requests⟩ := by
  have hother : ∀ id, ¬s.OfNode id → ∀ g ∈ s.node.proxy.registry, g.id = id → g.endpoint = none := by
    intro id hid g hg hgid
    by_contra hend
    exact hid (.inl ⟨g, hg, hend, hgid⟩)
  cases hheard with
  | nothing hnone => exact h.idle [] hstep hnone rfl (by simp) hone
  | noEntries hrequests hempty hnone =>
    exact h.idle [.list] hstep hnone hrequests (by simp [hempty]) hone
  | listed hrequests hcarries hentries => exact h.list hstep hcarries hrequests hentries hone
  | @added e rest hrequests hwf hcarries =>
    have hmem : Pending s.requests e := ⟨hwf, hrequests ▸ List.mem_cons_self⟩
    have hordered := h.book.ordered
    rw [hrequests, List.pairwise_cons] at hordered
    have hrest : ∀ f, Pending requests f → f.id ≠ e.id := fun f hf hid =>
      hordered.1 _ hf.2 f rfl (congrArg some hid.symm)
    refine h.add [requestOf e] hstep hcarries hrequests ?_ hrest (h.book.pending e hmem) ?_ hone'
    · intro r hr
      exact ⟨e, hwf, List.mem_singleton.1 hr, rfl⟩
    · intro g hg hid
      rcases h.book.backed g hg with hgr | ⟨_, hp⟩
      · exact absurd ⟨g.remote, hgr, hid⟩ (h.book.pending e hmem)
      · rw [hrequests] at hp
        rcases List.mem_cons.1 hp.2 with heq | hr
        · exact key_of_remote (remote_of_requestOf hp.1.addr hwf.addr heq)
        · exact absurd hid (hrest g ⟨hp.1, hr⟩)
  | otherAdded hfresh hcarries =>
    obtain ⟨hknown, hregistry, hrequests⟩ := hfresh
    refine h.add [] hstep hcarries rfl (by simp) (fun f hf hid => ?_) hregistry
      (fun g hg hid => absurd ⟨g, hg, hid⟩ hknown) hone'
    exact hrequests _ hf.2 (congrArg some hid)
  | removed hrequests hcarries hdelete =>
    refine h.remove [.unregister _] hstep hcarries hrequests (by simp) ?_ hdelete hone
    exact h.book.closed _ (hrequests ▸ List.mem_cons_self)
  | otherRemoved hid hcarries hdelete =>
    exact h.remove [] hstep hcarries rfl (by simp) (hother _ hid) hdelete hone
  | otherUpdated hid hcarries hupdate =>
    exact h.update hstep hcarries (hother _ hid) hupdate (hG _ _ hcarries)

theorem Sound.step {s s' : Client} {a : Act J} (h : Sound s) (hstep : Step L s a s')
    (hone : ∀ topic, OneHub topic s.registry) (hone' : ∀ topic, OneHub topic s'.registry)
    (hG : Untargeted L s a) : Sound s' := by
  cases hstep with
  | receive hreceives hheard => exact h.heard hreceives hheard hone hone' hG
  | openDatalink hnew hopen => exact h.openDatalink hnew hopen
  | openDatahub hnew hopen => exact h.openDatahub hnew hopen
  | closeDatalink _ hclose => exact h.closeDatalink hclose
  | closeDatahub _ hclose => exact h.closeDatahub hclose hone hG

theorem Sound.pointsAtHub {s : Client} (h : Sound s) (hnone : s.requests = [])
    (hone : ∀ topic, OneHub topic s.registry) : PointsAtHub s := by
  have hbook := h.book
  rw [hnone] at hbook
  intro p link hp
  refine ⟨h.wired.entries p link hp, fun topic htopic => ?_⟩
  have haims := h.wired.aims p link topic hp htopic
  rw [hnone] at haims
  exact haims.settled hbook (hone topic)

/-- Whenever no request is pending, the links send to the hubs that are registered, in every
run that closes no hub a link sends to and has at most one hub registered on each topic. -/
theorem datalinks_point_at_hub {central : Registry} (hids : IdsUnique central)
    (hlist : Listening central) (hone : ∀ topic, OneHub topic central)
    {ms : List (Move Client (Act J))} {last : Client}
    (hrun : Run (Step L) (newClient central) ms last)
    (hones : ∀ m ∈ ms, ∀ topic, OneHub topic m.dst.registry)
    (hG : ∀ m ∈ ms, Untargeted L m.src m.act) :
    ∀ m ∈ ms, m.dst.requests = [] → PointsAtHub m.dst := by
  have hall := hrun.invariant_dst (I := fun s => Sound s ∧ ∀ topic, OneHub topic s.registry)
    (G := fun m => (∀ topic, OneHub topic m.dst.registry) ∧ Untargeted L m.src m.act)
    (fun s a t hs hstep hguard => ⟨hs.1.step hstep hs.2 hguard.1 hguard.2, hguard.1⟩)
    ⟨sound_newClient hids hlist, hone⟩ fun m hm => ⟨hones m hm, hG m hm⟩
  intro m hm hnone
  exact (hall m hm).1.pointsAtHub hnone (hall m hm).2

/-! ## A hub and a link in the same node -/

def hubCreation : Creation :=
  ⟨1, ⟨⟨10, 0, 0, 1⟩, 5001⟩, ascii "c4d06932-1552-4905-a6ed-f2c59350c0eb"⟩

def linkCreation : Creation :=
  ⟨2, ⟨⟨10, 0, 0, 1⟩, 5002⟩, ascii "289a0c98-6bed-4336-92b3-c04b806f36f1"⟩

def hubOpened : Entry := entryOf (ascii "camera") (ascii "camera") .datahub hubCreation

def linkOpened : Entry := entryOf (ascii "viewer") (ascii "camera") .datalink linkCreation

def ready : Client :=
  ⟨⟨⟨[hubEntry.remote], .ready⟩, fun _ => none, fun _ => none⟩, [hubEntry.remote], []⟩

def hubOpen : Client :=
  ⟨⟨⟨[hubEntry.remote, hubOpened], .ready⟩, Function.update (fun _ => none) 1 (some []),
    fun _ => none⟩, [hubEntry.remote], [requestOf hubOpened]⟩

def hubKnown : Client := ⟨hubOpen.node, [hubEntry.remote, hubOpened.remote], []⟩

def linkOpen : Client :=
  ⟨⟨⟨[hubEntry.remote, hubOpened, linkOpened], .ready⟩, hubOpen.node.datahubs,
    Function.update (fun _ => none) 2 (some ⟨linkCreation.addr, some hubCreation.addr⟩)⟩,
    hubKnown.registry, [requestOf linkOpened]⟩

def linkKnown : Client :=
  ⟨⟨linkOpen.node.proxy, Function.update hubOpen.node.datahubs 1 (some [linkCreation.addr]),
    linkOpen.node.datalinks⟩, [hubEntry.remote, hubOpened.remote, linkOpened.remote], []⟩

def hubClosed : Client :=
  ⟨⟨⟨[hubEntry.remote, linkOpened], .ready⟩, Function.update linkKnown.node.datahubs 1 none,
    linkOpen.node.datalinks⟩, linkKnown.registry, [.unregister hubOpened.id]⟩

def hubGone : Client := ⟨hubClosed.node, [hubEntry.remote, linkOpened.remote], []⟩

def addMessage (e : Entry) : Delivery Value :=
  ⟨addValue e.id e.name e.topic (registryTypeToStr e.type) (addrString e.addr), []⟩

theorem hubOpened_wellFormed : hubOpened.WellFormed :=
  ⟨⟨by decide, by decide, by decide⟩, Option.some_ne_none _⟩

theorem linkOpened_wellFormed : linkOpened.WellFormed :=
  ⟨⟨by decide, by decide, by decide⟩, Option.some_ne_none _⟩

theorem list_carried : Carries valueLib (listValue [hubEntry]) (.list [hubEntry.remote]) := by
  have hwf : ∀ e ∈ [hubEntry], e.WellFormed := by
    intro e he
    rw [List.mem_singleton.1 he]
    exact ⟨⟨by decide, by decide, by decide⟩, Option.some_ne_none _⟩
  exact carries_list valueLib_lawful hwf (List.cons_ne_nil _ _)

theorem list_arrives :
    Step valueLib (newClient [hubEntry.remote]) (.receive ⟨listValue [hubEntry], []⟩) ready :=
  .receive (receives_of_carries list_carried rfl rfl) (.listed rfl list_carried fun _ => Iff.rfl)

theorem hub_opens :
    Step valueLib ready (.openDatahub true (ascii "camera") (ascii "camera") (some hubCreation))
      hubOpen := by
  have hopen : proxyOpenDatahub false true ready.node (ascii "camera") (ascii "camera")
      (some hubCreation) = some (hubOpen.node, some (1, [requestOf hubOpened])) := rfl
  refine .openDatahub ?_ hopen
  intro c hc
  obtain rfl := Option.some.inj hc
  exact ⟨by decide, ⟨by unfold Holds; decide, by unfold Holds; decide, by simp [ready]⟩, rfl, rfl⟩

theorem hub_arrives : Step valueLib hubOpen (.receive (addMessage hubOpened)) hubKnown := by
  have hcarries := carries_add valueLib_lawful hubOpened_wellFormed
  exact .receive (receives_of_carries hcarries rfl rfl) (.added rfl hubOpened_wellFormed hcarries)

theorem link_opens :
    Step valueLib hubKnown (.openDatalink true (ascii "viewer") (ascii "camera") (some linkCreation))
      linkOpen := by
  have hopen : proxyOpenDatalink false true hubKnown.node (ascii "viewer") (ascii "camera")
      (some linkCreation) = some (linkOpen.node, some (2, [requestOf linkOpened])) := rfl
  refine .openDatalink ?_ hopen
  intro c hc
  obtain rfl := Option.some.inj hc
  exact ⟨by decide, ⟨by unfold Holds; decide, by unfold Holds; decide, by simp [hubKnown]⟩, rfl, rfl⟩

theorem link_arrives : Step valueLib linkOpen (.receive (addMessage linkOpened)) linkKnown := by
  have hcarries := carries_add valueLib_lawful linkOpened_wellFormed
  exact .receive (receives_of_carries hcarries rfl rfl) (.added rfl linkOpened_wellFormed hcarries)

theorem hub_closes : Step valueLib linkKnown (.closeDatahub 1) hubClosed :=
  .closeDatahub (by simp [linkKnown]) rfl

theorem hub_goes :
    Step valueLib hubClosed (.receive ⟨removeValue hubOpened.id, []⟩) hubGone := by
  have hcarries := carries_remove valueLib_lawful hubOpened.id
  exact .receive (receives_of_carries hcarries rfl rfl) (.removed rfl hcarries rfl)

def openingMoves : List (Move Client (Act Value)) :=
  [⟨newClient [hubEntry.remote], .receive ⟨listValue [hubEntry], []⟩, ready⟩,
    ⟨ready, .openDatahub true (ascii "camera") (ascii "camera") (some hubCreation), hubOpen⟩,
    ⟨hubOpen, .receive (addMessage hubOpened), hubKnown⟩,
    ⟨hubKnown, .openDatalink true (ascii "viewer") (ascii "camera") (some linkCreation), linkOpen⟩,
    ⟨linkOpen, .receive (addMessage linkOpened), linkKnown⟩]

def closingMoves : List (Move Client (Act Value)) :=
  [⟨linkKnown, .closeDatahub 1, hubClosed⟩,
    ⟨hubClosed, .receive ⟨removeValue hubOpened.id, []⟩, hubGone⟩]

theorem opening_run :
    Run (Step valueLib) (newClient [hubEntry.remote]) openingMoves linkKnown :=
  .cons list_arrives (.cons hub_opens (.cons hub_arrives (.cons link_opens (.single link_arrives))))

theorem closing_run : Run (Step valueLib) linkKnown closingMoves hubGone :=
  .cons hub_closes (.single hub_goes)

theorem oneHub_of_length {registry : Registry}
    (h : (registry.filter fun e => e.type = .datahub).length ≤ 1) (topic : CStr) :
    OneHub topic registry := by
  have hsub : registry.filter (onTopic topic .datahub) =
      (registry.filter fun e => e.type = .datahub).filter fun e => e.topic = topic := by
    rw [List.filter_filter]
    exact List.filter_congr fun e _ => Bool.and_comm _ _
  unfold OneHub
  rw [hsub]
  exact (List.length_filter_le _ _).trans h

/-- The hub is gone and nothing is pending, but the link still sends to it. -/
theorem closed_hub_is_target :
    IdsUnique [hubEntry.remote] ∧ Listening [hubEntry.remote] ∧
      Run (Step valueLib) (newClient [hubEntry.remote]) (openingMoves ++ closingMoves) hubGone ∧
      (∀ m ∈ openingMoves ++ closingMoves, ∀ topic, OneHub topic m.dst.registry) ∧
      hubGone.requests = [] ∧ ¬PointsAtHub hubGone := by
  refine ⟨List.nodup_singleton _, ?_, opening_run.append closing_run, ?_, rfl, ?_⟩
  · intro e he
    rw [List.mem_singleton.1 he]
    exact ⟨rfl, Option.some_ne_none _⟩
  · have hall : ∀ m ∈ openingMoves ++ closingMoves,
        (m.dst.registry.filter fun e => e.type = .datahub).length ≤ 1 := by decide
    exact fun m hm => oneHub_of_length (hall m hm)
  · intro h
    have htarget := (h 2 ⟨linkCreation.addr, some hubCreation.addr⟩ rfl).2 (ascii "camera")
      ⟨linkOpened, List.mem_cons_of_mem _ List.mem_cons_self, by decide, rfl⟩
    exact absurd htarget (by decide)

/-- Before it is closed, the link sends to it. -/
theorem open_hub_is_target : PointsAtHub linkKnown := by
  have hlist : Listening [hubEntry.remote] := by
    intro e he
    rw [List.mem_singleton.1 he]
    exact ⟨rfl, Option.some_ne_none _⟩
  have hids : IdsUnique [hubEntry.remote] := List.nodup_singleton _
  have hlast : ⟨linkOpen, .receive (addMessage linkOpened), linkKnown⟩ ∈ openingMoves := by
    simp [openingMoves]
  refine datalinks_point_at_hub hids hlist ?_ opening_run ?_ ?_ _ hlast rfl
  · exact oneHub_of_length (by decide)
  · have hall : ∀ m ∈ openingMoves,
        (m.dst.registry.filter fun e => e.type = .datahub).length ≤ 1 := by decide
    exact fun m hm => oneHub_of_length (hall m hm)
  · intro m hm
    simp only [openingMoves, List.mem_cons, List.not_mem_nil, or_false] at hm
    rcases hm with rfl | rfl | rfl | rfl | rfl
    · intro id addr hupdate
      have heq := list_carried.unique hupdate
      simp at heq
    · trivial
    · intro id addr hupdate
      have heq := (carries_add valueLib_lawful hubOpened_wellFormed).unique hupdate
      simp at heq
    · trivial
    · intro id addr hupdate
      have heq := (carries_add valueLib_lawful linkOpened_wellFormed).unique hupdate
      simp at heq

end Client
end Rcom
