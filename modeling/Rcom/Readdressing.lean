import Rcom.Connections
import Rcom.HubSubscribers
import Rcom.RegistryUniqueness

/-!
# What an event does to the ids of a proxy's list

The proxy compares names, topics, types and addresses, never ids. So an event keeps the ids
distinct as long as an entry that is known is announced the way it is known. A message hub
gives the node's links on its topic new addresses.
-/

namespace Rcom
open Rcom.Lib Rcom.Addr Rcom.RegistryEntry Rcom.Registry Rcom.RcRegistry Rcom.Proxy Rcom.Node

namespace Proxy
variable {registry : Registry} {e : Entry} {outcomes : List Outcome}

def Addressed (outcomes : List Outcome) : Prop := ∀ o ∈ outcomes, o ≠ some none

/-- The node's links on the topic of a message hub, in the order of their connections. -/
def hubLinks (registry : Registry) (topic : CStr) : List Entry :=
  ((registry.filter (onTopic topic .messagelink)).reverse).filter fun g => g.endpoint.isSome

def attempts (registry : Registry) (outcomes : List Outcome) (e : Entry) : List (Entry × Outcome) :=
  if e.type = .messagehub then (hubLinks registry e.topic).zip outcomes else []

/-- The entries are the same, apart from the addresses of those whose connection succeeded. -/
structure Readdressed (tries : List (Entry × Outcome)) (r r' : Registry) : Prop where
  ids : r'.map Entry.id = r.map Entry.id
  mem : ∀ g ∈ r', g ∈ r ∨ ∃ f ∈ r, ∃ a, (f, some (some a)) ∈ tries ∧ g = setAddr (some a) f

def FromLinks (registry : Registry) (requests : Sent) : Prop :=
  ∀ r ∈ requests, ∃ g ∈ registry, g.endpoint ≠ none ∧ ∃ a, r = .updateAddress g.id (addrString (some a))

theorem Readdressed.refl (tries : List (Entry × Outcome)) (r : Registry) : Readdressed tries r r :=
  ⟨rfl, fun _ hg => .inl hg⟩

theorem Readdressed.mono {tries tries' : List (Entry × Outcome)} {r r' : Registry}
    (h : Readdressed tries r r') (hsub : ∀ p ∈ tries, p ∈ tries') : Readdressed tries' r r' := by
  refine ⟨h.ids, fun g hg => ?_⟩
  rcases h.mem g hg with hg | ⟨f, hf, a, hp, rfl⟩
  · exact .inl hg
  · exact .inr ⟨f, hf, a, hsub _ hp, rfl⟩

theorem Readdressed.addrs {tries : List (Entry × Outcome)} {r r' : Registry} (h : Readdressed tries r r')
    (haddr : ∀ g ∈ r, g.addr ≠ none) : ∀ g ∈ r', g.addr ≠ none := by
  intro g hg
  rcases h.mem g hg with hg | ⟨f, hf, a, hp, rfl⟩
  · exact haddr g hg
  · simp

/-! ## Connecting -/

theorem connectLoop_readdressed {l : List Entry} {c c' : Connecting} (hids : IdsUnique c.registry)
    (hl : (l.map Entry.id).Nodup) (hmem : ∀ g ∈ l, g ∈ c.registry) (hout : Addressed c.outcomes)
    (h : connectLoop (l.map some) c = some c') :
    Readdressed ((l.filter fun g => g.endpoint.isSome).zip c.outcomes) c.registry c'.registry ∧
      ∃ requests, c'.effects = c.effects ++ requests.map Effect.send ∧ FromLinks l requests := by
  induction l generalizing c with
  | nil =>
    obtain rfl : c = c' := Option.some.inj h
    exact ⟨.refl _ _, [], by simp, by simp [FromLinks]⟩
  | cons m l ih =>
    obtain ⟨hm, hl'⟩ := List.nodup_cons.1 hl
    have hmem' : ∀ g ∈ l, g ∈ c.registry := fun g hg => hmem g (List.mem_cons_of_mem _ hg)
    have hcons : ∀ {requests : Sent}, FromLinks l requests → FromLinks (m :: l) requests :=
      fun hfrom r hr => by
        obtain ⟨g, hg, hrest⟩ := hfrom r hr
        exact ⟨g, List.mem_cons_of_mem _ hg, hrest⟩
    rw [List.map_cons, connectLoop] at h
    cases hend : m.endpoint with
    | none =>
      simp only [hend] at h
      obtain ⟨hread, requests, heffects, hfrom⟩ := ih hids hl' hmem' hout h
      rw [List.filter_cons_of_neg (by simp [hend])]
      exact ⟨hread, requests, heffects, hcons hfrom⟩
    | some p =>
      rw [List.filter_cons_of_pos (by simp [hend])]
      rcases houtcomes : c.outcomes with _ | ⟨_ | a, outcomes⟩
      · simp only [hend, houtcomes] at h
        obtain ⟨hread, requests, heffects, hfrom⟩ := ih hids hl' hmem' hout h
        rw [houtcomes, List.zip_nil_right] at hread
        exact ⟨hread, requests, heffects, hcons hfrom⟩
      · simp only [hend, houtcomes] at h
        have hout' : Addressed outcomes := fun o ho => hout o (houtcomes ▸ List.mem_cons_of_mem _ ho)
        obtain ⟨hread, requests, heffects, hfrom⟩ :=
          @ih { c with outcomes := outcomes } hids hl' hmem' hout' h
        exact ⟨hread.mono fun p hp => List.mem_cons_of_mem _ hp, requests, heffects, hcons hfrom⟩
      · have hout' : Addressed outcomes := fun o ho => hout o (houtcomes ▸ List.mem_cons_of_mem _ ho)
        obtain ⟨a, rfl⟩ := Option.ne_none_iff_exists'.1 fun hnone : a = none =>
          hout (some a) (houtcomes ▸ List.mem_cons_self) (hnone ▸ rfl)
        have hhere : m ∈ c.registry := hmem m List.mem_cons_self
        have hupdate := registryUpdateAddr_known ⟨m, hhere, rfl⟩ (addrString (some a))
        rw [addrParse_addrString, Option.map_some] at hupdate
        simp only [hend, houtcomes, hupdate] at h
        -- the other links have other ids, so they stand unchanged in the new list
        have hstays : ∀ g ∈ l, g ∈ updateFirst (fun g => g.id = m.id) (setAddr (some a)) c.registry :=
          fun g hg => mem_updateFirst_of_neg (hmem' g hg)
            (decide_eq_false fun hid => hm (hid ▸ List.mem_map_of_mem hg))
        have hmap : (updateFirst (fun g => g.id = m.id) (setAddr (some a)) c.registry).map Entry.id =
            c.registry.map Entry.id := map_updateFirst_eq (f := setAddr (some a)) Entry.id (fun _ => rfl) _
        have hids' : IdsUnique (updateFirst (fun g => g.id = m.id) (setAddr (some a)) c.registry) := by
          rw [IdsUnique, hmap]
          exact hids
        obtain ⟨hread, requests, heffects, hfrom⟩ := ih hids' hl' hstays hout' h
        refine ⟨⟨hread.ids.trans hmap, fun g hg => ?_⟩,
          .updateAddress m.id (addrString (some a)) :: requests, ?_, ?_⟩
        · rcases hread.mem g hg with hg | ⟨f, hf, b, hp, rfl⟩
          · rcases (mem_updateFirst_key hids).1 hg with ⟨hg, -⟩ | ⟨f, hf, hid, rfl⟩
            · exact .inl hg
            · obtain rfl : f = m := List.inj_on_of_nodup_map hids hf hhere hid
              exact .inr ⟨f, hf, a, List.mem_cons_self, rfl⟩
          · have hfl : f ∈ l := List.mem_of_mem_filter (List.of_mem_zip hp).1
            exact .inr ⟨f, hmem' f hfl, b, List.mem_cons_of_mem _ hp, rfl⟩
        · rw [heffects, List.map_cons, List.append_assoc, List.singleton_append]
        · intro r hr
          rcases List.mem_cons.1 hr with rfl | hr
          · exact ⟨m, List.mem_cons_self, by simp [hend], a, rfl⟩
          · exact hcons hfrom r hr

def requestsOf (es : List Effect) : Sent :=
  es.filterMap fun
    | .send r => some r
    | _ => none

theorem requestsOf_send (requests : Sent) : requestsOf (requests.map Effect.send) = requests := by
  rw [requestsOf, List.filterMap_map]
  exact List.filterMap_some

theorem addConnection_readdressed {es : List Effect} {c c' : Connecting} (hids : IdsUnique c.registry)
    (haddr : ∀ g ∈ c.registry, g.addr ≠ none) (hout : Addressed c.outcomes) (hes : c.effects = es)
    (hquiet : requestsOf es = []) (h : proxyAddConnection c e = some c') :
    Readdressed (attempts c.registry c.outcomes e) c.registry c'.registry ∧
      FromLinks c.registry (requestsOf c'.effects) := by
  have hnone : ∀ {l : List Effect}, requestsOf l = [] → FromLinks c.registry (requestsOf (es ++ l)) := by
    intro l hl r hr
    rw [requestsOf, List.filterMap_append, ← requestsOf, ← requestsOf, hquiet, hl] at hr
    cases hr
  rw [attempts]
  unfold proxyAddConnection at h
  split at h
  · next htype =>
    obtain ⟨fs, hfs, rfl⟩ := Option.map_eq_some_iff.1 h
    refine ⟨.refl _ _, hes ▸ hnone ?_⟩
    rw [requestsOf, List.filterMap_eq_nil_iff]
    intro f hf
    obtain ⟨hub, -, rfl⟩ := (connectDatalink_mem hfs f).1 hf
    rfl
  · next htype =>
    obtain ⟨fs, hfs, rfl⟩ := Option.map_eq_some_iff.1 h
    refine ⟨.refl _ _, hes ▸ hnone ?_⟩
    rw [requestsOf, List.filterMap_eq_nil_iff]
    intro f hf
    obtain ⟨link, -, rfl⟩ := (connectDatahub_mem hfs f).1 hf
    rfl
  · next htype =>
    rw [proxyConnectMessagehub, select_onTopic, Option.bind_some,
      map_cloneEntry fun g hg => haddr g (List.mem_of_mem_filter hg), ← List.map_reverse] at h
    have hsub : ∀ g ∈ (c.registry.filter (onTopic e.topic .messagelink)).reverse, g ∈ c.registry :=
      fun g hg => List.mem_of_mem_filter (List.mem_reverse.1 hg)
    have hnodup : ((c.registry.filter (onTopic e.topic .messagelink)).reverse.map Entry.id).Nodup := by
      rw [List.map_reverse, List.nodup_reverse]
      exact hids.sublist (List.filter_sublist.map Entry.id)
    obtain ⟨hread, requests, heffects, hfrom⟩ := connectLoop_readdressed hids hnodup hsub hout h
    rw [if_pos htype, hubLinks]
    refine ⟨hread, fun r hr => ?_⟩
    rw [heffects, hes, requestsOf, List.filterMap_append, ← requestsOf, ← requestsOf, hquiet,
      requestsOf_send, List.nil_append] at hr
    obtain ⟨g, hg, hrest⟩ := hfrom r hr
    exact ⟨g, hsub g hg, hrest⟩
  · next htype =>
    obtain ⟨fs, hfs, rfl⟩ := Option.map_eq_some_iff.1 h
    refine ⟨.refl _ _, hes ▸ hnone ?_⟩
    rw [requestsOf, List.filterMap_eq_nil_iff]
    intro f hf
    obtain ⟨link, rfl⟩ := connectStreamer_mem hfs f hf
    rfl
  all_goals
    obtain rfl : c = c' := Option.some.inj h
    exact ⟨.refl _ _, by rw [hes]; simpa using hnone (l := []) rfl⟩

/-! ## Events -/

section Events
variable {proxy proxy' : Proxy} {es : List Effect}

theorem attempts_append :
    attempts (registry ++ [e]) outcomes e = attempts registry outcomes e := by
  unfold attempts
  split_ifs with htype
  · have hnot : ¬ onTopic e.topic .messagelink e = true := fun hon => by
      rw [(onTopic_iff.1 hon).1] at htype
      cases htype
    rw [hubLinks, List.filter_append, List.filter_cons_of_neg hnot, List.filter_nil, List.append_nil,
      hubLinks]
  · rfl

/-- The entry is not known, or it is known the way it is announced. -/
theorem handleAdd_readdressed (hids : IdsUnique proxy.registry)
    (haddr : ∀ g ∈ proxy.registry, g.addr ≠ none) (hout : Addressed outcomes) (he : e.addr ≠ none)
    (hend : e.endpoint = none) (hknown : ∀ g ∈ proxy.registry, g.id = e.id → g.key = e.key)
    (h : handleAdd proxy outcomes e = some (proxy', es)) :
    proxy'.status = proxy.status ∧ FromLinks proxy.registry (requestsOf es) ∧
      ∃ r, (r = proxy.registry ∨ r = proxy.registry ++ [e]) ∧ IdsUnique r ∧
        Readdressed (attempts proxy.registry outcomes e) r proxy'.registry := by
  by_cases hlike : e.key ∈ proxy.registry.map Entry.key
  · obtain ⟨n, hn⟩ := countLike_ne_zero haddr he hlike
    rw [handleAdd, hn, Option.bind_some, if_neg n.succ_ne_zero] at h
    obtain ⟨c, hc, heq⟩ := Option.map_eq_some_iff.1 h
    cases heq
    obtain ⟨hread, hfrom⟩ := addConnection_readdressed hids haddr hout rfl rfl hc
    exact ⟨rfl, hfrom, _, .inl rfl, hids, hread⟩
  · have hnew : ¬ Holds proxy.registry e.id := by
      rintro ⟨g, hg, hid⟩
      exact hlike (hknown g hg hid ▸ List.mem_map_of_mem hg)
    have hids' : IdsUnique (proxy.registry ++ [e]) := (idsUnique_append hids).2 hnew
    have haddr' : ∀ g ∈ proxy.registry ++ [e], g.addr ≠ none := by
      intro g hg
      rcases List.mem_append.1 hg with hg | hg
      · exact haddr g hg
      · exact List.mem_singleton.1 hg ▸ he
    rw [handleAdd, countLike_eq_zero haddr he hlike, Option.bind_some, if_pos rfl,
      registryInsertEntry_eq _ he] at h
    obtain ⟨c, hc, heq⟩ := Option.map_eq_some_iff.1 h
    cases heq
    obtain ⟨hread, hfrom⟩ := addConnection_readdressed hids' haddr' hout rfl rfl hc
    rw [attempts_append] at hread
    refine ⟨rfl, fun r hr => ?_, _, .inr rfl, hids', hread⟩
    obtain ⟨g, hg, hlocal, hrest⟩ := hfrom r hr
    rcases List.mem_append.1 hg with hg | hg
    · exact ⟨g, hg, hlocal, hrest⟩
    · exact absurd (List.mem_singleton.1 hg ▸ hend) hlocal

theorem handleRemove_erases {id : CStr} (h : handleRemove proxy id = some (proxy', es)) :
    proxy'.status = proxy.status ∧ requestsOf es = [] ∧
      (proxy'.registry = proxy.registry ∨
        proxy'.registry = proxy.registry.eraseP fun e => e.id = id) := by
  rw [handleRemove] at h
  split at h
  · cases h
    exact ⟨rfl, rfl, .inl rfl⟩
  · next g hget =>
    obtain ⟨f, hf, -⟩ := Option.bind_eq_some_iff.1 hget
    have hid : ∃ e ∈ proxy.registry, e.id = id :=
      ⟨f, List.mem_of_find?_eq_some hf, by simpa using List.find?_some hf⟩
    rw [registryDelete_known hid, Option.getD_some] at h
    obtain ⟨fs, hfs, heq⟩ := Option.map_eq_some_iff.1 h
    cases heq
    refine ⟨rfl, ?_, .inr rfl⟩
    unfold proxyRemoveConnection at hfs
    split at hfs
    · obtain ⟨links, -, rfl⟩ := Option.map_eq_some_iff.1 hfs
      simp [requestsOf]
    · obtain rfl := Option.some.inj hfs
      rfl

/-! ## The list -/

theorem addMissing_sublist {fs : List Entry} {r r' : Registry} (haddr : ∀ g ∈ r, g.addr ≠ none)
    (hfs : ∀ f ∈ fs, f.addr ≠ none) (h : addMissing fs r = some r') :
    ∃ added, r' = r ++ added ∧ added.Sublist fs ∧ ∀ f ∈ added, f.key ∉ r.map Entry.key := by
  induction fs generalizing r with
  | nil =>
    obtain rfl : r = r' := Option.some.inj h
    exact ⟨[], by simp, .slnil, by simp⟩
  | cons f fs ih =>
    have hf := hfs f List.mem_cons_self
    have hfs' : ∀ g ∈ fs, g.addr ≠ none := fun g hg => hfs g (List.mem_cons_of_mem _ hg)
    by_cases hlike : f.key ∈ r.map Entry.key
    · obtain ⟨n, hn⟩ := countLike_ne_zero haddr hf hlike
      rw [addMissing, hn] at h
      obtain ⟨added, rfl, hsub, hnew⟩ := ih haddr hfs' h
      exact ⟨added, rfl, hsub.cons f, hnew⟩
    · have haddr' : ∀ g ∈ r ++ [f], g.addr ≠ none := by
        intro g hg
        rcases List.mem_append.1 hg with hg | hg
        · exact haddr g hg
        · exact List.mem_singleton.1 hg ▸ hf
      rw [addMissing, countLike_eq_zero haddr hf hlike, registryInsertEntry_eq _ hf] at h
      obtain ⟨added, rfl, hsub, hnew⟩ := ih haddr' hfs' h
      refine ⟨f :: added, by simp, hsub.cons_cons f, fun g hg => ?_⟩
      rcases List.mem_cons.1 hg with rfl | hg
      · exact hlike
      · exact fun hmem => hnew g hg (by rw [List.map_append]; exact List.mem_append_left _ hmem)

/-- No entry that is known is listed otherwise while another one is listed in its place. -/
def Replaceable (known listed : List Entry) : Prop :=
  ∀ g ∈ known, ∀ f ∈ listed, f.id = g.id → f.key ≠ g.key → g.key ∉ listed.map Entry.key

/-- What is gone from the list is removed by its id, and then stands before what was added. -/
theorem handleList_ids {fs : List Entry} (hlisten : Listening proxy.registry)
    (hids : IdsUnique proxy.registry) (hfs : Listening fs) (hfids : IdsUnique fs)
    (hrepl : Replaceable proxy.registry fs)
    (h : handleList proxy outcomes fs = some (proxy', es)) :
    requestsOf es = [] ∧ IdsUnique proxy'.registry ∧
      ∀ g ∈ proxy'.registry, g ∈ proxy.registry ∨ g ∈ fs := by
  obtain ⟨r, hr, h⟩ := Option.bind_eq_some_iff.1 h
  obtain ⟨added, rfl, hsub, hnew⟩ := addMissing_sublist (fun g hg => (hlisten g hg).2)
    (fun f hf => (hfs f hf).2) hr
  have hboth : Listening (proxy.registry ++ added) := by
    intro g hg
    rcases List.mem_append.1 hg with hg | hg
    · exact hlisten g hg
    · exact hfs g (hsub.subset hg)
  have hadded : IdsUnique added := hfids.sublist (hsub.map Entry.id)
  have hdistinct : (proxy.registry ++ added).reverse.Nodup := by
    rw [List.nodup_reverse, List.nodup_append]
    exact ⟨hids.of_map _, hadded.of_map _, fun g hg f hf heq =>
      hnew f hf (heq ▸ List.mem_map_of_mem hg)⟩
  have hvanish : ∀ g ∈ (proxy.registry ++ added).reverse, g.key ∉ fs.map Entry.key →
      g ∈ proxy.registry := by
    intro g hg hkey
    rcases List.mem_append.1 (List.mem_reverse.1 hg) with hg | hg
    · exact hg
    · exact absurd (List.mem_map_of_mem (hsub.subset hg)) hkey
  rw [registrySelectAll_of_addr fun g hg => (hboth g hg).2, Option.bind_some,
    removeVanished_eq (fun f hf => (hfs f hf).2) hdistinct hids
      (hboth.of_subset fun g hg => List.mem_reverse.1 hg) hvanish, Option.bind_some] at h
  have hleft : ∀ g ∈ proxy.registry.filter (fun e => ¬ (e ∈ (proxy.registry ++ added).reverse ∧
      e.key ∉ fs.map Entry.key)) ++ added, g ∈ proxy.registry ∨ g ∈ fs := by
    intro g hg
    rcases List.mem_append.1 hg with hg | hg
    · exact .inl (List.mem_of_mem_filter hg)
    · exact .inr (hsub.subset hg)
  have hlistens : Listening (proxy.registry.filter (fun e => ¬ (e ∈ (proxy.registry ++ added).reverse ∧
      e.key ∉ fs.map Entry.key)) ++ added) := fun g hg => (hleft g hg).elim (hlisten g) (hfs g)
  rw [registrySelectAll_of_addr fun g hg => (hlistens g hg).2, Option.bind_some,
    connectAll_of_listening hlistens, Option.map_some] at h
  cases h
  refine ⟨rfl, ?_, hleft⟩
  rw [IdsUnique, List.map_append, List.nodup_append]
  refine ⟨hids.sublist (List.filter_sublist.map Entry.id), hadded, ?_⟩
  rintro id hid id' hid' rfl
  obtain ⟨g, hg, rfl⟩ := List.mem_map.1 hid
  obtain ⟨f, hf, hfg⟩ := List.mem_map.1 hid'
  obtain ⟨hg, hstays⟩ := List.mem_filter.1 hg
  have hlisted : g.key ∈ fs.map Entry.key := by
    by_contra hgone
    exact of_decide_eq_true hstays ⟨List.mem_reverse.2 (List.mem_append_left _ hg), hgone⟩
  have hkey : f.key ≠ g.key := fun heq => hnew f hf (heq ▸ List.mem_map_of_mem hg)
  exact hrepl g hg f (hsub.subset hf) hfg hkey hlisted

end Events

end Proxy
end Rcom
