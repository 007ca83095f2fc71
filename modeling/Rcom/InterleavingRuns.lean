import Rcom.Interleaving
import Rcom.Overtaking

/-!
# What a listening proxy gets in an orderly run

Each text that waits or is on its way stands for an item. In the order in which the
operations were made, and for one identifier at a time, the items lead from what the proxy
has to what the registry has. Sending an event keeps that order; sending the list does
not, and there the events that it overtakes change nothing.
-/

namespace Rcom.Interleaving
open Rcom.Lib Rcom.Lib.Json Rcom.Lib.Trace Rcom.Lib.Delivery Rcom.Addr Rcom.RegistryEntry
open Rcom.Registry Rcom.RcRegistry Rcom.Proxy Rcom.Replica Rcom.Events
variable {J : Type} {L : JsonLib J} {link : LinkId}

/-! ## The history -/

theorem le_see (h : History) (r : Registry) (outs : List (Output J)) : h.Le (see h r outs) where
  named _ hid := List.mem_append_left _ (List.mem_append_left _ hid)
  kinds _ hk := List.mem_append_left _ hk
  addrs _ ha := List.mem_append_left _ ha

theorem has_see {r : Registry} {e : Entry} (he : e ∈ r) (haddr : e.addr ≠ none) (h : History)
    (outs : List (Output J)) : (see h r outs).Has e.remote := by
  obtain ⟨a, ha⟩ := Option.ne_none_iff_exists'.1 haddr
  refine ⟨?_, ?_, a, ha, ?_⟩
  · exact List.mem_append_left _ (List.mem_append_right _ (List.mem_map.2 ⟨e, he, rfl⟩))
  · exact List.mem_append_right _ (List.mem_map.2 ⟨e, he, rfl⟩)
  · exact List.mem_append_right _ (List.mem_filterMap.2 ⟨e, he, by rw [ha]; rfl⟩)

/-- The texts that a handler still has to send to the proxy stand for these items. -/
def Carries (L : JsonLib J) (link : LinkId) (h : Handler J) (items : List Item) : Prop :=
  List.Forall₂ (Means L h.seen) (delivered link h.outs) items

def Arrives (L : JsonLib J) (t : Text J) (item : Item) : Prop := ∃ seen, Means L seen t item

/-! ## The invariant -/

/-- How far the proxy has come: it does not listen yet, it only receives events, or it has asked
for the list. In the end it then has what the registry has. -/
inductive Phase (s : System J) (waiting : List (List Item)) (sent : List Item) : Prop where
  | apart : s.joined = false → s.asked = false → sent = [] → s.proxy.registry = [] →
      (∀ r, .list r ∉ waiting.flatten) → Phase s waiting sent
  | listening : s.joined = true → s.asked = false → (∀ r, .list r ∉ waiting.flatten) →
      (∀ id, ∃ m, follow id (outstanding sent waiting) (slot s.proxy.registry id) = some m ∧
        (slot s.registry id = none → m = none)) → Phase s waiting sent
  | asked : s.joined = true → s.asked = true → ListsEnd waiting.flatten →
      (∀ id, follow id (outstanding sent waiting) (slot s.proxy.registry id) =
        some (slot s.registry id)) → Phase s waiting sent

structure Items (L : JsonLib J) (link : LinkId) (s : System J) (waiting : List (List Item))
    (sent : List Item) : Prop where
  handlers : List.Forall₂ (Carries L link) s.handlers waiting
  queue : List.Forall₂ (Arrives L) s.queue sent
  known : ∀ item ∈ outstanding sent waiting, item.In s.history
  ends : ∀ id, Ends (eventsAbout id waiting.flatten) (slot s.registry id)
  phase : Phase s waiting sent

structure Sound (L : JsonLib J) (link : LinkId) (s : System J) : Prop where
  wellFormed : WellFormed s.registry
  ids : IdsUnique s.registry
  has : ∀ e ∈ s.registry, s.history.Has e.remote
  separate : s.history.Separate
  mirror : Mirror s.history s.proxy.registry
  items : ∃ waiting sent, Items L link s waiting sent

theorem Items.event {s s' : System J} {waiting : List (List Item)} {sent : List Item}
    (h : Items L link s waiting sent) {m : Handler J} {ev : Event}
    (hhandlers : s'.handlers = s.handlers ++ [m]) (hqueue : s'.queue = s.queue)
    (hproxy : s'.proxy = s.proxy) (hjoined : s'.joined = s.joined) (hasked : s'.asked = s.asked)
    (hle : s.history.Le s'.history) (hcarries : Carries L link m [.event ev])
    (hin : (Item.event ev).In s'.history)
    (htakes : ev.Takes (slot s.registry ev.id) (slot s'.registry ev.id))
    (hothers : ∀ id, id ≠ ev.id → slot s'.registry id = slot s.registry id)
    (hadd : ∀ e, ev = .add e → e.id ∉ s.history.named) :
    Items L link s' (waiting ++ [[.event ev]]) sent where
  handlers := hhandlers ▸ forall₂_append h.handlers (.cons hcarries .nil)
  queue := hqueue ▸ h.queue
  known item hitem := by
    rw [outstanding_concat] at hitem
    rcases List.mem_append.1 hitem with hitem | hitem
    · exact (h.known item hitem).mono hle
    · exact List.mem_singleton.1 hitem ▸ hin
  ends id := by
    rw [flatten_concat, eventsAbout_append]
    by_cases hid : ev.id = id
    · subst hid
      have hone : eventsAbout ev.id [.event ev] = [ev] := by simp [eventsAbout]
      rw [hone]
      refine .snoc (h.ends _) htakes ?_
      rintro ⟨e, rfl⟩
      -- an announced identifier is new, so no event about it waits
      refine eventsAbout_eq_nil fun ev' hev' hid => hadd e rfl ?_
      have hknown := h.known _ (List.mem_append_right _ hev')
      change ev'.id = e.id at hid
      rw [← hid]
      cases ev' with
      | add e' => exact History.Has.named hknown
      | remove id => exact hknown
      | update id a => exact hknown.1
    · have hnone : eventsAbout id [.event ev] = [] := by simp [eventsAbout, hid]
      rw [hnone, List.append_nil, hothers id fun heq => hid heq.symm]
      exact h.ends id
  phase := by
    have hlists : (∀ r, .list r ∉ waiting.flatten) →
        ∀ r, .list r ∉ (waiting ++ [[Item.event ev]]).flatten := by
      intro hno r hr
      rw [flatten_concat] at hr
      rcases List.mem_append.1 hr with hr | hr
      · exact hno r hr
      · cases List.mem_singleton.1 hr
    cases h.phase with
    | apart hj ha hsent hempty hno =>
      exact .apart (hjoined.trans hj) (hasked.trans ha) hsent (hproxy ▸ hempty) (hlists hno)
    | listening hj ha hno hfollow =>
      refine .listening (hjoined.trans hj) (hasked.trans ha) (hlists hno) fun id => ?_
      obtain ⟨m, hm, himp⟩ := hfollow id
      rw [hproxy, outstanding_concat, follow_concat hm, Item.apply]
      by_cases hid : ev.id = id
      · subst hid
        obtain ⟨m', hm', himp'⟩ := htakes.apply_of_imp himp
        exact ⟨m', (if_pos rfl).trans hm', himp'⟩
      · rw [hothers id fun heq => hid heq.symm]
        exact ⟨m, if_neg hid, himp⟩
    | asked hj ha hend hfollow =>
      refine .asked (hjoined.trans hj) (hasked.trans ha) ?_ fun id => ?_
      · rw [flatten_concat]
        exact hend.concat ev
      · rw [hproxy, outstanding_concat, follow_concat (hfollow id), Item.apply]
        by_cases hid : ev.id = id
        · subst hid
          rw [if_pos rfl, htakes.apply]
        · rw [if_neg hid, hothers id fun heq => hid heq.symm]

/-- The items after a request that has nothing to tell the proxy. -/
theorem Items.silent {s s' : System J} {waiting : List (List Item)} {sent : List Item}
    (h : Items L link s waiting sent) {m : Handler J}
    (hhandlers : s'.handlers = s.handlers ++ [m]) (hqueue : s'.queue = s.queue)
    (hproxy : s'.proxy = s.proxy) (hjoined : s'.joined = s.joined) (hasked : s'.asked = s.asked)
    (hregistry : s'.registry = s.registry)
    (hle : s.history.Le s'.history) (hcarries : Carries L link m []) :
    Items L link s' (waiting ++ [[]]) sent where
  handlers := hhandlers ▸ forall₂_append h.handlers (.cons hcarries .nil)
  queue := hqueue ▸ h.queue
  known item hitem := by
    rw [outstanding_concat, List.append_nil] at hitem
    exact (h.known item hitem).mono hle
  ends id := by
    rw [flatten_concat, List.append_nil, hregistry]
    exact h.ends id
  phase := by
    have hflat : (waiting ++ [[]]).flatten = waiting.flatten := by
      rw [flatten_concat, List.append_nil]
    have hout : outstanding sent (waiting ++ [[]]) = outstanding sent waiting := by
      rw [outstanding_concat, List.append_nil]
    cases h.phase with
    | apart hj ha hsent hempty hno =>
      exact .apart (hjoined.trans hj) (hasked.trans ha) hsent (hproxy ▸ hempty) (hflat ▸ hno)
    | listening hj ha hno hfollow =>
      refine .listening (hjoined.trans hj) (hasked.trans ha) (hflat ▸ hno) ?_
      rw [hout, hproxy, hregistry]
      exact hfollow
    | asked hj ha hend hfollow =>
      refine .asked (hjoined.trans hj) (hasked.trans ha) (hflat ▸ hend) ?_
      rw [hout, hproxy, hregistry]
      exact hfollow

theorem Items.list {s s' : System J} {waiting : List (List Item)} {sent : List Item}
    (h : Items L link s waiting sent) {m : Handler J} (hj : s.joined = true)
    (ha : s.asked = false)
    (hhandlers : s'.handlers = s.handlers ++ [m]) (hqueue : s'.queue = s.queue)
    (hproxy : s'.proxy = s.proxy) (hjoined : s'.joined = s.joined) (hasked : s'.asked = true)
    (hregistry : s'.registry = s.registry) (hle : s.history.Le s'.history)
    (hhas : ∀ e ∈ s.registry, s'.history.Has e.remote)
    (hcarries : Carries L link m [.list (s.registry.map Entry.remote)]) :
    Items L link s' (waiting ++ [[.list (s.registry.map Entry.remote)]]) sent where
  handlers := hhandlers ▸ forall₂_append h.handlers (.cons hcarries .nil)
  queue := hqueue ▸ h.queue
  known item hitem := by
    rw [outstanding_concat] at hitem
    rcases List.mem_append.1 hitem with hitem | hitem
    · exact (h.known item hitem).mono hle
    · rw [List.mem_singleton.1 hitem]
      intro f hf
      obtain ⟨e, he, rfl⟩ := List.mem_map.1 hf
      exact hhas e he
  ends id := by
    have hnone : eventsAbout id [.list (s.registry.map Entry.remote)] = [] := rfl
    rw [flatten_concat, eventsAbout_append, hnone, List.append_nil, hregistry]
    exact h.ends id
  phase := by
    cases h.phase with
    | apart hj' => rw [hj] at hj'; cases hj'
    | asked _ ha' => rw [ha] at ha'; cases ha'
    | listening _ _ hno hfollow =>
      refine .asked (hjoined.trans hj) hasked ?_ fun id => ?_
      · rw [flatten_concat]
        intro front back remote heq
        have hback : back = [] := by
          rcases List.eq_nil_or_concat back with hb | ⟨back', item, rfl⟩
          · exact hb
          · rw [List.concat_eq_append, ← List.cons_append, ← List.append_assoc] at heq
            have hfront := List.append_inj_left' heq rfl
            exact absurd (hfront ▸ List.mem_append_right _ List.mem_cons_self) (hno remote)
        subst hback
        obtain ⟨rfl, hlist⟩ := List.append_inj' heq rfl
        simp only [List.cons.injEq, Item.list.injEq, and_true] at hlist
        refine ⟨hno, fun id => ?_⟩
        rw [← hlist, slot_remote]
        exact h.ends id
      · obtain ⟨m, hm, himp⟩ := hfollow id
        rw [hproxy, outstanding_concat, follow_concat hm, hregistry]
        cases hr : s.registry with
        | nil =>
          have hnone : slot s.registry id = none := by rw [hr]; rfl
          rw [himp hnone]
          rfl
        | cons e l =>
          rw [← slot_remote (e :: l) id]
          rfl

theorem named_of_update {r r' : Registry} {m : Message J} {outs : List (Output J)}
    (hh : Handled L r m.link m.body r' outs) {id addr : CStr}
    (ht : .proxyUpdateAddress id addr ∈ delivered link outs) (h : History) :
    id ∈ (see h r' outs).named := by
  refine List.mem_append_right _ (List.mem_filterMap.2 ?_)
  obtain ⟨out, hout, htext⟩ := List.mem_filterMap.1 ht
  refine ⟨out, hout, ?_⟩
  cases out with
  | broadcast exclude text =>
    by_cases hexclude : exclude = some link
    · simp [hexclude] at htext
    · simp only [hexclude, if_false, Option.some.injEq] at htext
      rw [htext, namedIn]
  | send l text =>
    by_cases hl : l = link
    · simp only [hl, if_true, Option.some.injEq] at htext
      subst htext
      cases hh <;> simp [rcregistryFail, rcregistrySuccess] at hout
    · simp [hl] at htext

theorem event_in_see {s : System J} (h : Sound L link s) {m : Message J} {r' : Registry}
    {outs : List (Output J)} (hh : Handled L s.registry m.link m.body r' outs)
    (hwf : WellFormed r') {t : Text J} {ev : Event} (hdelivered : delivered link outs = [t])
    (hmeans : Means L r' t (.event ev)) (htakes : ev.Takes (slot s.registry ev.id) (slot r' ev.id)) :
    (Item.event ev).In (see s.history r' outs) := by
  generalize hbefore : slot s.registry ev.id = o at htakes
  generalize hafter : slot r' ev.id = o' at htakes
  have hhas : ∀ {e : Entry}, slot r' ev.id = some e → (see s.history r' outs).Has e ∧ e.id = ev.id := by
    intro e he
    obtain ⟨f, hf, hid, rfl⟩ := mem_of_slot he
    exact ⟨has_see hf (hwf f hf).addr _ _, hid⟩
  cases ev with
  | add e =>
    cases htakes
    exact (hhas hafter).1
  | remove id =>
    cases htakes
    obtain ⟨f, hf, rfl, -⟩ := mem_of_slot hbefore
    exact (le_see _ _ _).named (h.has f hf).named
  | update id a =>
    cases a with
    | none =>
      cases hmeans
      have hnamed := named_of_update hh (hdelivered ▸ List.mem_singleton_self _) s.history
      exact ⟨hnamed, fun b hb => by cases hb⟩
    | some a =>
      cases htakes
      obtain ⟨hent, hid⟩ := hhas hafter
      obtain ⟨b, hb, hmem⟩ := hent.addr
      obtain rfl : a = b := Option.some.inj hb
      obtain rfl : _ = id := hid
      refine ⟨hent.named, fun c hc => ?_⟩
      rw [← Option.some.inj hc]
      exact hmem

theorem Sound.handle {denote : Value → J} (hL : L.Lawful denote) {s : System J}
    (h : Sound L link s) {m : Message J} (hen : Enabled L link s (.handle m))
    (htame : Tame L s m.body) :
    ∃ s', handle L link s m = some s' ∧ (s'.history.Separate → Sound L link s') := by
  obtain ⟨waiting, sent, hitems⟩ := h.items
  rcases serve_cases (L := L) s.registry m with hf | ⟨r', outs, hh⟩
  · exact absurd hf (not_faults_of_usable h.wellFormed htame.usable)
  have hnamed : ∀ e ∈ s.registry, e.id ∈ s.history.named := fun e he => (h.has e he).named
  have hfresh : ∀ e, Registers L m.body e → ¬ Holds s.registry e.id := by
    rintro e he ⟨f, hf, hid⟩
    exact htame.fresh e he (hid ▸ hnamed f hf)
  have hwf' := hh.wellFormed h.wellFormed htame.usable
  have hle := le_see s.history r' outs
  refine ⟨_, by rw [Interleaving.handle, handled_iff.1 hh]; rfl, fun hsep => ?_⟩
  refine ⟨hwf', hh.idsUnique h.ids hfresh, fun e he => has_see he (hwf' e he).addr _ _, hsep,
    h.mirror.mono hle, ?_⟩
  by_cases hme : m.link = link
  · obtain ⟨hj, ha, hbody⟩ := hen.2 hme
    have hasks : Asks L m.body (ascii "list") := by
      rw [hbody, jsonParse_list hL]
      exact asks_listRequest hL
    obtain ⟨list, hlist⟩ := Option.isSome_iff_exists.1
      (encodeListLoop_isSome (L := L) s.registry.reverse L.jsonArrayCreate)
    have hh' : Handled L s.registry m.link m.body s.registry
        [.send m.link (.obj (listResponse L list))] :=
      .listed hasks (fun e he => (h.wellFormed e he).addr) hlist
    obtain ⟨rfl, rfl⟩ := Prod.mk.inj
      (Option.some.inj ((handled_iff.1 hh).symm.trans (handled_iff.1 hh')))
    have hdelivered : delivered link [.send m.link (.obj (listResponse L list))] =
        [.obj (listResponse L list)] := by simp [delivered, hme]
    refine ⟨_, sent, hitems.list hj ha rfl rfl rfl rfl ?_ rfl hle
      (fun e he => has_see he (h.wellFormed e he).addr _ _) ?_⟩
    · simp [hme]
    · rw [Carries, hdelivered]
      exact .cons (.list h.wellFormed h.ids hlist) .nil
  · have hasked : (s.asked || m.link == link) = s.asked := by simp [hme]
    rcases Handled.means hh hme h.wellFormed h.ids htame.usable htame.plain hfresh with
      ⟨hnil, rfl⟩ | ⟨t, ev, hdelivered, hmeans, htakes, hothers, hadd⟩
    · refine ⟨_, sent, hitems.silent rfl rfl rfl rfl hasked rfl hle ?_⟩
      rw [Carries, hnil]
      exact .nil
    · refine ⟨_, sent, hitems.event rfl rfl rfl rfl hasked hle ?_ ?_ htakes hothers ?_⟩
      · rw [Carries, hdelivered]
        exact .cons hmeans .nil
      · exact event_in_see h hh hwf' hdelivered hmeans htakes
      · intro e he
        exact htame.fresh e (hadd e he).1

theorem Sound.join {s : System J} (h : Sound L link s) (hj : s.joined = false) :
    Sound L link { s with joined := true } := by
  obtain ⟨waiting, sent, hitems⟩ := h.items
  refine ⟨h.wellFormed, h.ids, h.has, h.separate, h.mirror,
    waiting, sent, hitems.handlers, hitems.queue, hitems.known, hitems.ends, ?_⟩
  cases hitems.phase with
  | listening hj' => rw [hj] at hj'; cases hj'
  | asked hj' => rw [hj] at hj'; cases hj'
  | apart _ ha hsent hempty hno =>
    refine .listening rfl ha hno fun id => ?_
    have hout : outstanding sent waiting = waiting.flatten := by rw [outstanding, hsent]; rfl
    have hslot : slot s.proxy.registry id = none := by rw [hempty]; rfl
    rw [hout, hslot, follow_eventsAbout hno]
    exact (hitems.ends id).apply_none

theorem Sound.deliver {denote : Value → J} (hL : L.Lawful denote) {s : System J}
    (h : Sound L link s) (hq : s.queue ≠ []) :
    ∃ s', deliver L s = some s' ∧ Sound L link s' := by
  obtain ⟨waiting, sent, hitems⟩ := h.items
  obtain ⟨t, queue, hqueue⟩ := List.exists_cons_of_ne_nil hq
  have hsent := hitems.queue
  rw [hqueue] at hsent
  cases hsent with
  | @cons _ item _ sent' harrives hrest =>
    obtain ⟨seen, hmeans⟩ := harrives
    have hout : outstanding (item :: sent') waiting = item :: outstanding sent' waiting := rfl
    have hclean : ∀ id, ∃ o, item.apply id (slot s.proxy.registry id) = some o := by
      intro id
      cases hitems.phase with
      | apart _ _ hnil => cases hnil
      | listening _ _ _ hfollow =>
        obtain ⟨m, hm, -⟩ := hfollow id
        rw [hout, follow_cons] at hm
        obtain ⟨o, ho, -⟩ := Option.bind_eq_some_iff.1 hm
        exact ⟨o, ho⟩
      | asked _ _ _ hfollow =>
        have hm := hfollow id
        rw [hout, follow_cons] at hm
        obtain ⟨o, ho, -⟩ := Option.bind_eq_some_iff.1 hm
        exact ⟨o, ho⟩
    have hknown : ∀ i ∈ outstanding sent' waiting, i.In s.history := fun i hi =>
      hitems.known i (hout ▸ List.mem_cons_of_mem _ hi)
    obtain ⟨p, hp, hmirror, hslots⟩ := hmeans.receive hL h.separate
      (hitems.known item (hout ▸ List.mem_cons_self)) h.mirror hclean
    refine ⟨{ s with queue := queue, proxy := p }, ?_, ?_⟩
    · rw [Interleaving.deliver, hqueue]
      simp only [hp, Option.map_some]
    · refine ⟨h.wellFormed, h.ids, h.has, h.separate, hmirror,
        waiting, sent', hitems.handlers, hrest, hknown, hitems.ends, ?_⟩
      cases hitems.phase with
      | apart _ _ hnil => cases hnil
      | listening hj ha hno hfollow =>
        refine .listening hj ha hno fun id => ?_
        obtain ⟨m, hm, himp⟩ := hfollow id
        rw [hout, follow_cons, hslots id, Option.bind_some] at hm
        exact ⟨m, hm, himp⟩
      | asked hj ha hend hfollow =>
        refine .asked hj ha hend fun id => ?_
        have hm := hfollow id
        rwa [hout, follow_cons, hslots id, Option.bind_some] at hm

/-! ## Sending -/

theorem delivered_one (link : LinkId) (o : Output J) :
    delivered link [o] = [] ∨ ∃ t, delivered link [o] = [t] := by
  simp only [delivered, List.filterMap_cons, List.filterMap_nil]
  split
  · exact .inl rfl
  · exact .inr ⟨_, rfl⟩

theorem concerns_of_means {seen : Registry} {t : Text J} {ev : Event}
    (h : Means L seen t (.event ev)) : concerns t = some ev.id := by
  cases h <;> rfl

theorem not_obj_of_means {seen : Registry} {t : Text J} {ev : Event}
    (h : Means L seen t (.event ev)) (v : J) : t ≠ .obj v := by
  cases h <;> simp [addText]

/-- What stands in front of an item stands for a text that has not been sent. -/
theorem mem_earlier {s : System J} {waiting : List (List Item)} {i : ℕ} {item : Item}
    (h : List.Forall₂ (Carries L link) s.handlers waiting)
    (hitem : item ∈ (waiting.take i).flatten) : ∃ t ∈ earlier link s i, Arrives L t item := by
  obtain ⟨items, hitems, hmem⟩ := List.mem_flatten.1 hitem
  obtain ⟨m, hm, hcarries⟩ := forall₂_exists_left (List.forall₂_take i h) hitems
  obtain ⟨t, ht, hmeans⟩ := forall₂_exists_left hcarries hmem
  exact ⟨t, List.mem_flatMap.2 ⟨m, hm, ht⟩, m.seen, hmeans⟩

theorem addr_of_addrString {e f : Entry} (he : e.addr ≠ none) (hf : f.addr ≠ none)
    (h : addrString e.addr = addrString f.addr) : e.addr = f.addr := by
  obtain ⟨a, ha⟩ := Option.ne_none_iff_exists'.1 he
  obtain ⟨b, hb⟩ := Option.ne_none_iff_exists'.1 hf
  have heq := congrArg addrParse h
  rw [ha, hb, addrParse_addrString, addrParse_addrString, Option.some.injEq] at heq
  rw [ha, hb, heq]

theorem Orderly.overtakes {s : System J} {i : ℕ} (h : Orderly link s i)
    {waiting : List (List Item)} (hcarries : List.Forall₂ (Carries L link) s.handlers waiting)
    {m : Handler J} {o : Output J} {outs : List (Output J)} (hm : s.handlers[i]? = some m)
    (houts : m.outs = o :: outs) {t : Text J} (ht : delivered link [o] = [t]) {item : Item}
    (hmeans : Means L m.seen t item) : Overtakes item (waiting.take i).flatten where
  event := by
    rintro ev rfl item' hitem'
    obtain ⟨t', ht', seen', hmeans'⟩ := mem_earlier hcarries hitem'
    obtain ⟨hno, hother⟩ := h.event m o outs t hm houts (ht ▸ List.mem_singleton_self t)
      (not_obj_of_means hmeans) t' ht'
    cases item' with
    | list remote =>
      cases hmeans'
      exact absurd rfl (hno _)
    | event ev' =>
      refine ⟨ev', rfl, fun hid => hother ?_⟩
      rw [concerns_of_means hmeans', concerns_of_means hmeans, hid]
  list := by
    rintro remote rfl e f he hf
    obtain ⟨t', ht', seen', hmeans'⟩ := mem_earlier hcarries he
    generalize hevent : Event.add e = ev at hmeans'
    cases hmeans with
    | @list list hwf hids hlist =>
      rw [slot_remote] at hf
      obtain ⟨g, hg, hid, rfl⟩ := mem_of_slot hf
      cases hmeans' with
      | add hwf' hend =>
        cases hevent
        have hsame := h.list m o outs _ hm houts (ht ▸ List.mem_singleton_self _) _ _ _ _ _ ht'
          g hg hid
        exact (addr_of_addrString (hwf g hg).addr hwf'.addr hsame).symm
      | remove | update | updateUnknown => cases hevent

theorem Phase.congr {s s' : System J} {waiting : List (List Item)} {sent : List Item}
    (h : Phase s waiting sent) (hregistry : s'.registry = s.registry) (hproxy : s'.proxy = s.proxy)
    (hjoined : s'.joined = s.joined) (hasked : s'.asked = s.asked) : Phase s' waiting sent := by
  cases h with
  | apart hj ha hsent hempty hno =>
    exact .apart (hjoined.trans hj) (hasked.trans ha) hsent (hproxy ▸ hempty) hno
  | listening hj ha hno hfollow =>
    exact .listening (hjoined.trans hj) (hasked.trans ha) hno (by rwa [hregistry, hproxy])
  | asked hj ha hend hfollow =>
    exact .asked (hjoined.trans hj) (hasked.trans ha) hend (by rwa [hregistry, hproxy])

theorem Phase.send {s : System J} {waiting : List (List Item)} {sent : List Item} {i : ℕ}
    {item : Item} {rest : List Item} (hi : waiting[i]? = some (item :: rest))
    (h : Overtakes item (waiting.take i).flatten) (hj : s.joined = true)
    (hphase : Phase s waiting sent) : Phase s (waiting.set i rest) (sent ++ [item]) := by
  have hevent : (∀ r, .list r ∉ waiting.flatten) → ∃ ev, item = .event ev := by
    intro hno
    cases item with
    | list r => exact absurd (mem_of_waiting hi) (hno r)
    | event ev => exact ⟨ev, rfl⟩
  cases hphase with
  | apart hj' => rw [hj] at hj'; cases hj'
  | listening _ ha hno hfollow =>
    obtain ⟨ev, hev⟩ := hevent hno
    refine .listening hj ha (fun r hr => hno r (mem_of_mem_set hi hr)) fun id => ?_
    rw [h.followEvent hi hev]
    exact hfollow id
  | asked _ ha hend hfollow =>
    cases item with
    | event ev =>
      refine .asked hj ha (h.listsEnd hi rfl hend) fun id => ?_
      rw [h.followEvent hi rfl]
      exact hfollow id
    | list remote =>
      refine .asked hj ha ?_ fun id => h.followList hi hend (hfollow id)
      intro front back r heq
      refine absurd ?_ (hend.sendList hi r)
      rw [heq]
      exact List.mem_append_right _ List.mem_cons_self

theorem Phase.miss {s : System J} {waiting : List (List Item)} {sent : List Item} {i : ℕ}
    {item : Item} {rest : List Item} (hi : waiting[i]? = some (item :: rest))
    (hj : s.joined = false) (hphase : Phase s waiting sent) :
    Phase s (waiting.set i rest) sent := by
  cases hphase with
  | listening hj' => rw [hj] at hj'; cases hj'
  | asked hj' => rw [hj] at hj'; cases hj'
  | apart _ ha hsent hempty hno =>
    exact .apart hj ha hsent hempty fun r hr => hno r (mem_of_mem_set hi hr)

theorem Sound.emit {s : System J} (h : Sound L link s) {i : ℕ} (horderly : Orderly link s i) :
    Sound L link (emit link s i) := by
  rw [Interleaving.emit]
  split
  case h_2 => exact h
  case h_1 l o outs seen hi =>
    obtain ⟨waiting, sent, hitems⟩ := h.items
    obtain ⟨items, hw, hcarries⟩ := forall₂_getElem? hitems.handlers hi
    rw [Carries] at hcarries
    dsimp only at hcarries
    rw [delivered_cons] at hcarries
    refine ⟨h.wellFormed, h.ids, h.has, h.separate, h.mirror, ?_⟩
    rcases delivered_one link o with hnil | ⟨t, ht⟩
    · rw [hnil, List.nil_append] at hcarries
      have hset : waiting.set i items = waiting := by
        obtain ⟨hlt, rfl⟩ := List.getElem?_eq_some_iff.1 hw
        exact List.set_getElem_self hlt
      have hcarries' : Carries L link ⟨l, outs, seen⟩ items := hcarries
      refine ⟨waiting, sent, ?_, ?_, hitems.known, hitems.ends,
        hitems.phase.congr rfl rfl rfl rfl⟩
      · rw [← hset]
        exact forall₂_set hitems.handlers hcarries' i
      · simpa [hnil] using hitems.queue
    · rw [ht] at hcarries
      cases hcarries with
      | @cons _ item _ rest hmeans hrest =>
      have hrest' : Carries L link ⟨l, outs, seen⟩ rest := hrest
      have hover := horderly.overtakes hitems.handlers hi rfl ht hmeans
      have hknown : ∀ item' ∈ (waiting.set i rest).flatten, item'.In s.history := fun item' h' =>
        hitems.known item' (List.mem_append_right _ (mem_of_mem_set hw h'))
      cases hj : s.joined with
      | false =>
        refine ⟨waiting.set i rest, sent, forall₂_set hitems.handlers hrest' i, hitems.queue, ?_,
          fun id => hover.ends hw (hitems.ends id), (hitems.phase.miss hw hj).congr rfl rfl hj.symm rfl⟩
        intro item' h'
        rcases List.mem_append.1 h' with h' | h'
        · exact hitems.known item' (List.mem_append_left _ h')
        · exact hknown item' h'
      | true =>
        refine ⟨waiting.set i rest, sent ++ [item], forall₂_set hitems.handlers hrest' i, ?_, ?_,
          fun id => hover.ends hw (hitems.ends id),
          (hitems.phase.send hw hover hj).congr rfl rfl hj.symm rfl⟩
        · rw [ht]
          exact forall₂_append hitems.queue (.cons ⟨seen, hmeans⟩ .nil)
        · intro item' h'
          rcases List.mem_append.1 h' with h' | h'
          · rcases List.mem_append.1 h' with h' | h'
            · exact hitems.known item' (List.mem_append_left _ h')
            · rw [List.mem_singleton.1 h']
              exact hitems.known item (List.mem_append_right _ (mem_of_waiting hw))
          · exact hknown item' h'

/-! ## Runs -/

/-- A proxy that has asked for the list has what the registry has once all is sent and received. -/
theorem Sound.agree {s : System J} (h : Sound L link s) (hasked : s.asked = true)
    (hquiet : Quiet s) : Agree ⟨s.registry, s.proxy⟩ := by
  obtain ⟨waiting, sent, hitems⟩ := h.items
  have hsent : sent = [] := by
    have hqueue := hitems.queue
    rw [hquiet.2] at hqueue
    cases hqueue
    rfl
  have hwaiting : ∀ items ∈ waiting, items = [] := by
    intro items hmem
    obtain ⟨m, hm, hcarries⟩ := forall₂_exists_left hitems.handlers hmem
    rw [Carries, hquiet.1 m hm] at hcarries
    cases hcarries
    rfl
  have hflat : waiting.flatten = [] := List.flatten_eq_nil_iff.2 hwaiting
  cases hitems.phase with
  | apart _ ha => rw [hasked] at ha; cases ha
  | listening _ ha => rw [hasked] at ha; cases ha
  | asked _ _ _ hfollow =>
    refine mem_iff_of_slots h.ids h.mirror.ids fun id => ?_
    have hnone := hfollow id
    rw [outstanding, hsent, hflat] at hnone
    exact (Option.some.inj hnone).symm

theorem deliver_text {denote : Value → J} (hL : L.Lawful denote) {s : System J} {t : Text J}
    {queue : List (Text J)} {v : Value} (hqueue : s.queue = t :: queue)
    (h : decode (textBytes L t) = some v) {p : Proxy} {es : List Effect}
    (hp : proxyOnmessage L s.proxy [] (denote v) = some (p, es)) :
    deliver L s = some { s with queue := queue, proxy := p } := by
  rw [deliver, hqueue]
  simp only [hL.parse h, hp, Option.map_some]

def listOuts : List (Output Value) := [.send 0 (.obj (listValue [hubEntry]))]

def registerOuts : List (Output Value) :=
  [rcregistrySuccess 1 (ascii "register"), .broadcast none (addText (idleLink firstId))]

def listed : System Value :=
  { start [hubEntry] with
    joined := true
    handlers := [⟨0, listOuts, [hubEntry]⟩]
    asked := true
    history := see (start (J := Value) [hubEntry]).history [hubEntry] listOuts }

def raced : System Value :=
  { listed with
    registry := [hubEntry, idleLink firstId]
    handlers := [⟨0, listOuts, [hubEntry]⟩, ⟨1, registerOuts, [hubEntry, idleLink firstId]⟩]
    history := see listed.history [hubEntry, idleLink firstId] registerOuts }

def settled (entries : Registry) : System Value :=
  { raced with
    handlers := [⟨0, [], [hubEntry]⟩, ⟨1, [], [hubEntry, idleLink firstId]⟩]
    proxy := ⟨entries, .ready⟩ }

/-- The proxy receives the list in state `p`. -/
theorem deliver_list {s : System Value} {queue : List (Text Value)}
    (hqueue : s.queue = .obj (listValue [hubEntry]) :: queue) (h : Listening s.proxy.registry)
    (hids : IdsUnique s.proxy.registry) :
    deliver valueLib s = some { s with
      queue := queue, proxy := ⟨takeOver s.proxy.registry [hubEntry.remote], .ready⟩ } :=
  deliver_text valueLib_lawful hqueue
    (valueLib_lawful.serialise (printable_listValue hubEntry_wellFormed))
    (onmessage_list valueLib_lawful h hids hubEntry_wellFormed (List.cons_ne_nil _ _)
      (List.nodup_singleton _) [])

end Rcom.Interleaving
