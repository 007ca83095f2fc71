import Rcom.ProxyRuns

/-!
# One entry for each id

What is on its way to a node agrees with what its proxy has: an entry whose registration is
yet to be announced stands in the list as it will be announced. Connecting a link breaks this
when its announcement is on the way, for the new address is only in the proxy.
-/

namespace Rcom.ProxyRuns
open Rcom.Lib Rcom.Lib.Json Rcom.Lib.Trace Rcom.Addr Rcom.RegistryEntry Rcom.Registry Rcom.RcRegistry
open Rcom.Proxy Rcom.Node Rcom.Client Rcom.Replica Rcom.Interleaving Rcom.NodeTexts
variable {J : Type} {L : JsonLib J} {link : LinkId}

/-! ## Events before an announcement -/

/-- The event leaves the entry that is announced later as it is announced. -/
def Spares (r : Request) : ProxyEvent → Prop
  | .updateAddress id _ => r.subject ≠ some id
  | .list es => ∀ e ∈ es, r.subject = some e.id → requestOf e = r
  | _ => True

variable (L) in
def TextSpares (r : Request) (t : Text J) : Prop := ∀ ev, Tells L t ev → Spares r ev

def mentions : ProxyEvent → List CStr
  | .add e => [e.id]
  | .updateAddress id _ => [id]
  | .list es => es.map Entry.id
  | .remove _ => []

theorem spares_of_new {r : Request} {ev : ProxyEvent} (h : ∀ id ∈ mentions ev, r.subject ≠ some id) :
    Spares r ev := by
  cases ev with
  | add => exact trivial
  | remove => exact trivial
  | updateAddress id addr => exact h id List.mem_cons_self
  | list es => exact fun e he heq => absurd heq (h e.id (List.mem_map_of_mem he))

theorem key_of_requestOf {e f : Entry} (he : e.addr ≠ none) (hf : f.addr ≠ none)
    (h : requestOf e = requestOf f) : e.key = f.key := key_of_remote (remote_of_requestOf he hf h)

/-! ## The invariant -/

structure Given (named : Names) : Prop where
  distinct : (named.map Prod.fst).Nodup
  valid : ∀ p ∈ named, registryValidId p.1 = true

structure Central (named : Names) (registry : Registry) : Prop where
  wellFormed : WellFormed registry
  ids : IdsUnique registry
  given : ∀ x ∈ registry, x.id ∈ named.map Prod.fst
  hub : ∃ x ∈ registry, (x.id, none) ∈ named

structure Mine (link : LinkId) (named : Names) (s : System J) : Prop where
  opening : ∀ e ∈ s.opening, e.WellFormed ∧ (e.id, some link) ∈ named
  closing : ∀ e ∈ s.closing, (e.id, some link) ∈ named
  requests : ∀ r ∈ s.requests, Proper r ∧ ∀ id, r.subject = some id → (id, some link) ∈ named
  updates : ∀ r ∈ s.updates, ∃ id a, r = .updateAddress id (addrString (some a)) ∧
    (id, some link) ∈ named

/-- What a handler has yet to announce is registered as it announces it. -/
def Sending (link : LinkId) (named : Names) (registry : Registry) (handlers : List (Handler J)) : Prop :=
  ∀ h ∈ handlers, ∀ t ∈ delivered link h.outs, ∀ r, announced t = some r →
    ∃ id, r.subject = some id ∧ (id, some h.link) ∈ named ∧ ∀ x ∈ registry, x.id = id → requestOf x = r

variable (L) in
/-- No registration is announced twice, and the texts before an announcement spare it. -/
structure Passing (named : Names) (waits : List Request) (texts queue : List (Text J)) : Prop where
  meant : ∀ t ∈ texts ++ queue, Meant L t
  given : ∀ t ∈ texts ++ queue, ∀ ev, Tells L t ev → ∀ id ∈ mentions ev, id ∈ named.map Prod.fst
  once : ((waits ++ texts.filterMap announced ++ queue.filterMap announced).map Request.subject).Nodup
  spared : ∀ r ∈ waits ++ texts.filterMap announced, ∀ t ∈ texts ++ queue, TextSpares L r t
  ordered : queue.Pairwise fun t t' => ∀ r, announced t' = some r → TextSpares L r t

structure Knows (link : LinkId) (named : Names) (comes : List Request) (known : Registry) : Prop where
  ids : IdsUnique known
  addrs : ∀ g ∈ known, g.addr ≠ none
  agree : ∀ r ∈ comes, ∀ g ∈ known, r.subject = some g.id → requestOf g = r
  given : ∀ g ∈ known, g.id ∈ named.map Prod.fst
  own : ∀ g ∈ known, g.endpoint ≠ none → (g.id, some link) ∈ named

def lists (link : LinkId) (s : System J) : ℕ :=
  s.requests.countP isListRequest + (pendingTexts link s.handlers).countP isList + s.queue.countP isList

structure Phase (link : LinkId) (s : System J) : Prop where
  one : lists link s ≤ 1
  ready : s.proxy.status = .ready → lists link s = 0
  unready : lists link s ≠ 0 → ∀ g ∈ s.proxy.registry, g.endpoint = none
  apart : s.joined = false → lists link s = 0 ∧ s.requests = [] ∧ s.queue = [] ∧ s.proxy = newProxy ∧
    s.opening = [] ∧ s.closing = [] ∧ s.updates = []

variable (L) in
structure Inv (link : LinkId) (s : System J) : Prop where
  given : Given s.named
  central : Central s.named s.registry
  mine : Mine link s.named s
  absent : ∀ r ∈ waiting s, ∀ x ∈ s.registry, r.subject ≠ some x.id
  sending : Sending link s.named s.registry s.handlers
  passing : Passing L s.named (waiting s) (pendingTexts link s.handlers) s.queue
  known : Knows link s.named (coming link s) s.proxy.registry
  phase : Phase link s

/-! ## Names -/

theorem Given.unique {named : Names} (h : Given named) {id : CStr} {l l' : Option LinkId}
    (hl : (id, l) ∈ named) (hl' : (id, l') ∈ named) : l = l' :=
  congrArg Prod.snd (List.inj_on_of_nodup_map h.distinct hl hl' rfl)

theorem Given.append {named : Names} (h : Given named) {id : CStr} (l : Option LinkId)
    (hid : registryValidId id = true) (hnew : id ∉ named.map Prod.fst) : Given (named ++ [(id, l)]) := by
  constructor
  · rw [List.map_append, List.nodup_append]
    refine ⟨h.distinct, List.nodup_singleton _, ?_⟩
    rintro id' hid' id'' hid'' rfl
    obtain rfl : id' = id := List.mem_singleton.1 hid''
    exact hnew hid'
  · intro p hp
    rcases List.mem_append.1 hp with hp | hp
    · exact h.valid p hp
    · rw [List.mem_singleton.1 hp]
      exact hid

theorem mem_ids {named : Names} {id : CStr} {l : Option LinkId} (h : (id, l) ∈ named) :
    id ∈ named.map Prod.fst := List.mem_map_of_mem h

theorem Mine.waiting {named : Names} {s : System J} (h : Mine link named s) {r : Request}
    (hr : r ∈ waiting s) : ∃ id, r.subject = some id ∧ (id, some link) ∈ named := by
  rcases List.mem_append.1 hr with hr | hr
  · obtain ⟨e, he, rfl⟩ := List.mem_map.1 hr
    exact ⟨e.id, rfl, (h.opening e he).2⟩
  · obtain ⟨hr, hcreates⟩ := List.mem_filter.1 hr
    obtain ⟨id, hid⟩ := Option.isSome_iff_exists.1 hcreates
    have hsubject := (creates_eq hcreates).trans hid
    exact ⟨id, hsubject, (h.requests r hr).2 id hsubject⟩

theorem Sending.pending {named : Names} {registry : Registry} {handlers : List (Handler J)}
    (h : Sending link named registry handlers) {r : Request}
    (hr : r ∈ (pendingTexts link handlers).filterMap announced) :
    ∃ x ∈ handlers, x.outs ≠ [] ∧ ∃ id, r.subject = some id ∧ (id, some x.link) ∈ named ∧
      ∀ y ∈ registry, y.id = id → requestOf y = r := by
  obtain ⟨t, ht, htr⟩ := List.mem_filterMap.1 hr
  obtain ⟨x, hx, ht⟩ := List.mem_flatMap.1 ht
  refine ⟨x, hx, ?_, h x hx t ht r htr⟩
  rintro hnil
  rw [hnil] at ht
  cases ht

theorem Inv.coming_named {s : System J} (h : Inv L link s) {r : Request} (hr : r ∈ coming link s) :
    ∃ id, r.subject = some id ∧ id ∈ s.named.map Prod.fst := by
  rcases List.mem_append.1 hr with hr | hr
  · rcases List.mem_append.1 hr with hr | hr
    · obtain ⟨id, hid, hmem⟩ := h.mine.waiting hr
      exact ⟨id, hid, mem_ids hmem⟩
    · obtain ⟨x, -, -, id, hid, hmem, -⟩ := h.sending.pending hr
      exact ⟨id, hid, mem_ids hmem⟩
  · obtain ⟨t, ht, htr⟩ := List.mem_filterMap.1 hr
    have ht' : t ∈ pendingTexts link s.handlers ++ s.queue := List.mem_append_right _ ht
    obtain ⟨e, rfl, htells⟩ := tells_of_announced (h.passing.meant t ht') htr
    exact ⟨e.remote.id, rfl, h.passing.given t ht' _ htells _ List.mem_cons_self⟩

theorem Inv.not_coming {s : System J} (h : Inv L link s) {id : CStr} (hnew : id ∉ s.named.map Prod.fst)
    {r : Request} (hr : r ∈ coming link s) : r.subject ≠ some id := by
  obtain ⟨id', hid', hmem⟩ := h.coming_named hr
  rw [hid']
  rintro heq
  cases heq
  exact hnew hmem

theorem Inv.new_once {s : System J} (h : Inv L link s) {e : Entry}
    (hnew : e.id ∉ s.named.map Prod.fst) :
    ((requestOf e :: coming link s).map Request.subject).Nodup := by
  refine List.nodup_cons.2 ⟨fun hmem => ?_, h.passing.once⟩
  obtain ⟨r, hr, hid⟩ := List.mem_map.1 hmem
  exact h.not_coming hnew hr hid

theorem Passing.spares_new {named : Names} {waits : List Request} {texts queue : List (Text J)}
    (h : Passing L named waits texts queue) {id : CStr} (hnew : id ∉ named.map Prod.fst) {r : Request}
    (hr : r.subject = some id) {t : Text J} (ht : t ∈ texts ++ queue) : TextSpares L r t := by
  intro ev hev
  refine spares_of_new fun id' hid' heq => ?_
  rw [hr] at heq
  cases heq
  exact hnew (h.given t ht ev hev _ hid')

/-! ## What the registry answers -/

section Served
variable {l : LinkId} {r r' : Registry} {req : Request} {ts : List (Text J)}

theorem Central.served {named named' : Names} (hr : Central named r) (h : Served L link l r req r' ts)
    (hgiven : Given named) (hsub : ∀ p ∈ named, p ∈ named')
    (hown : ∀ id, creates req = none → req.subject = some id → (id, some l) ∈ named)
    (hnew : ∀ id, creates req = some id → (id, some l) ∈ named' ∧ ¬ Holds r id) : Central named' r' := by
  have hold : ∀ x ∈ r, x.id ∈ named'.map Prod.fst := fun x hx => by
    obtain ⟨p, hp, hid⟩ := List.mem_map.1 (hr.given x hx)
    exact hid ▸ List.mem_map_of_mem (hsub p hp)
  obtain ⟨x, hx, hhub⟩ := hr.hub
  cases h with
  | @registered e he =>
    obtain ⟨hmem, hfresh⟩ := hnew e.id rfl
    refine ⟨?_, (idsUnique_append hr.ids).2 hfresh, ?_, x, List.mem_append_left _ hx, hsub _ hhub⟩
    · intro y hy
      rcases List.mem_append.1 hy with hy | hy
      · exact hr.wellFormed y hy
      · rw [List.mem_singleton.1 hy]
        exact ⟨⟨he.id, he.name, he.topic⟩, he.addr⟩
    · intro y hy
      rcases List.mem_append.1 hy with hy | hy
      · exact hold y hy
      · rw [List.mem_singleton.1 hy]
        exact mem_ids hmem
  | @unregistered id =>
    have hne : x.id ≠ id := by
      rintro rfl
      cases hgiven.unique hhub (hown x.id rfl rfl)
    exact ⟨fun y hy => hr.wellFormed y (List.mem_of_mem_eraseP hy),
      hr.ids.sublist (List.eraseP_sublist.map _), fun y hy => hold y (List.mem_of_mem_eraseP hy),
      x, (List.mem_eraseP_of_neg (by simpa using hne)).2 hx, hsub _ hhub⟩
  | unknown | listed => exact ⟨hr.wellFormed, hr.ids, hold, x, hx, hsub _ hhub⟩
  | @updated id a =>
    have hmap : (updateFirst (fun e => e.id = id) (setAddr (some a)) r).map Entry.id = r.map Entry.id :=
      map_updateFirst_eq (f := setAddr (some a)) Entry.id (fun _ => rfl) r
    have hback : ∀ y ∈ updateFirst (fun e => e.id = id) (setAddr (some a)) r, ∃ z ∈ r, y.id = z.id ∧
        y.WellFormed := by
      intro y hy
      rcases mem_updateFirst hy with hy | ⟨z, hz, -, rfl⟩
      · exact ⟨y, hy, rfl, hr.wellFormed y hy⟩
      · have hz' := hr.wellFormed z hz
        exact ⟨z, hz, rfl, ⟨hz'.id, hz'.name, hz'.topic⟩, by simp⟩
    have hmem : x.id ∈ (updateFirst (fun e => e.id = id) (setAddr (some a)) r).map Entry.id :=
      hmap ▸ List.mem_map_of_mem hx
    obtain ⟨y, hy, hyx⟩ := List.mem_map.1 hmem
    refine ⟨fun y hy => ?_, ?_, fun y hy => ?_, y, hy, hyx ▸ hsub _ hhub⟩
    · obtain ⟨-, -, -, hwf⟩ := hback y hy
      exact hwf
    · rw [IdsUnique, hmap]
      exact hr.ids
    · obtain ⟨z, hz, hid, -⟩ := hback y hy
      exact hid ▸ hold z hz

/-- The thread of the link had nothing left to announce, and the others announce other entries. -/
theorem Sending.served {named named' : Names} {handlers : List (Handler J)} {outs : List (Output J)}
    (hs : Sending link named r handlers) (h : Served L link l r req r' (delivered link outs))
    (hidle : Idle handlers l) (hgiven : Given named) (hsub : ∀ p ∈ named, p ∈ named')
    (hown : ∀ id, creates req = none → req.subject = some id → (id, some l) ∈ named)
    (hnew : ∀ id, creates req = some id → (id, some l) ∈ named' ∧ ¬ Holds r id ∧
      ∀ r ∈ (pendingTexts link handlers).filterMap announced, r.subject ≠ some id) :
    Sending link named' r' (handlers ++ [⟨l, outs, r'⟩]) := by
  intro x hx t ht rr htr
  rcases List.mem_append.1 hx with hx | hx
  · obtain ⟨id, hid, hmem, hsame⟩ := hs x hx t ht rr htr
    refine ⟨id, hid, hsub _ hmem, fun y hy hyid => ?_⟩
    rcases h.mem hy with hy | ⟨e, rfl, rfl⟩ | ⟨z, hz, a, hcreates, hsubject, rfl⟩
    · exact hsame y hy hyid
    · have hpending : rr ∈ (pendingTexts link handlers).filterMap announced :=
        List.mem_filterMap.2 ⟨t, List.mem_flatMap.2 ⟨x, hx, ht⟩, htr⟩
      exact absurd (hid.trans (congrArg some hyid.symm)) ((hnew e.id rfl).2.2 rr hpending)
    · have hlink := hgiven.unique hmem (hyid ▸ hown z.id hcreates hsubject)
      rw [hidle x hx (Option.some.inj hlink)] at ht
      cases ht
  · rw [List.mem_singleton.1 hx] at ht ⊢
    have hasked : rr ∈ (delivered link outs).filterMap announced := List.mem_filterMap.2 ⟨t, ht, htr⟩
    rw [h.announced] at hasked
    split_ifs at hasked with hcreates
    · rw [List.mem_singleton] at hasked
      subst hasked
      obtain ⟨id, hid⟩ := Option.isSome_iff_exists.1 hcreates
      obtain ⟨hmem, hfresh, -⟩ := hnew id hid
      refine ⟨id, (creates_eq hcreates).trans hid, hmem, fun y hy hyid => ?_⟩
      rcases h.mem hy with hy | ⟨e, rfl, rfl⟩ | ⟨z, hz, a, hnone, -⟩
      · exact absurd ⟨y, hy, hyid⟩ hfresh
      · rfl
      · rw [hnone] at hid
        cases hid
    · cases hasked

end Served

/-! ## Steps that put something on its way -/

/-- New texts are sent, and what waits has waited before or is spared by all texts. -/
theorem Passing.next {named named' : Names} {waits waits' : List Request} {texts ts queue : List (Text J)}
    (h : Passing L named waits texts queue) (hsub : ∀ id ∈ named.map Prod.fst, id ∈ named'.map Prod.fst)
    (hmeant : ∀ t ∈ ts, Meant L t)
    (hgiven : ∀ t ∈ ts, ∀ ev, Tells L t ev → ∀ id ∈ mentions ev, id ∈ named'.map Prod.fst)
    (honce : ((waits' ++ (texts ++ ts).filterMap announced ++
      queue.filterMap announced).map Request.subject).Nodup)
    (hold : ∀ r ∈ waits' ++ (texts ++ ts).filterMap announced, r ∈ waits ++ texts.filterMap announced ∨
      ∀ t ∈ texts ++ queue, TextSpares L r t)
    (hnew : ∀ r ∈ waits' ++ (texts ++ ts).filterMap announced, ∀ t ∈ ts, TextSpares L r t) :
    Passing L named' waits' (texts ++ ts) queue := by
  have hmem : ∀ t ∈ texts ++ ts ++ queue, t ∈ texts ++ queue ∨ t ∈ ts := by
    intro t ht
    rcases List.mem_append.1 ht with ht | ht
    · exact (List.mem_append.1 ht).imp_left (List.mem_append_left _)
    · exact .inl (List.mem_append_right _ ht)
  refine ⟨fun t ht => ?_, fun t ht ev hev id hid => ?_, honce, fun r hr t ht => ?_, h.ordered⟩
  · exact (hmem t ht).elim (h.meant t) (hmeant t)
  · exact (hmem t ht).elim (fun ht => hsub id (h.given t ht ev hev id hid))
      fun ht => hgiven t ht ev hev id hid
  · rcases hmem t ht with ht | ht
    · exact (hold r hr).elim (fun hr => h.spared r hr t ht) fun hspares => hspares t ht
    · exact hnew r hr t ht

theorem Knows.comes {named named' : Names} {comes comes' : List Request} {known : Registry}
    (h : Knows link named comes known) (hsub : ∀ p ∈ named, p ∈ named')
    (hcomes : ∀ r ∈ comes', r ∈ comes ∨ ∀ g ∈ known, r.subject = some g.id → requestOf g = r) :
    Knows link named' comes' known := by
  refine ⟨h.ids, h.addrs, fun r hr => ?_, fun g hg => ?_, fun g hg hend => hsub _ (h.own g hg hend)⟩
  · exact (hcomes r hr).elim (h.agree r) id
  · obtain ⟨p, hp, hid⟩ := List.mem_map.1 (h.given g hg)
    exact hid ▸ List.mem_map_of_mem (hsub p hp)

theorem ids_subset {named named' : Names} (h : ∀ p ∈ named, p ∈ named') {id : CStr}
    (hid : id ∈ named.map Prod.fst) : id ∈ named'.map Prod.fst := by
  obtain ⟨p, hp, rfl⟩ := List.mem_map.1 hid
  exact List.mem_map_of_mem (h p hp)

theorem pendingTexts_append (handlers : List (Handler J)) (l : LinkId) (outs : List (Output J))
    (seen : Registry) : pendingTexts link (handlers ++ [⟨l, outs, seen⟩]) =
      pendingTexts link handlers ++ delivered link outs := by
  rw [pendingTexts, List.flatMap_append, List.flatMap_singleton, pendingTexts]

section Ask
variable {denote : Value → J} (hL : L.Lawful denote) {s : System J} {l : LinkId} {req : Request}
  {named : Names} {requests : Sent}
include hL

/-- The registry handles a request. What waited before it may have been waiting itself. -/
theorem Inv.ask (h : Inv L link s) (hreq : Proper req) (hidle : Idle s.handlers l)
    (hgiven : Given named) (hsub : ∀ p ∈ s.named, p ∈ named)
    (hown : ∀ id, creates req = none → req.subject = some id → (id, some l) ∈ s.named)
    (hnew : ∀ id, creates req = some id → (id, some l) ∈ named ∧ ¬ Holds s.registry id ∧
      (∀ g ∈ s.proxy.registry, g.id = id → requestOf g = req) ∧
      ∀ t ∈ pendingTexts link s.handlers ++ s.queue, TextSpares L req t)
    (hrequests : ∀ r ∈ requests, r ∈ s.requests)
    (honce : ((waiting { s with requests := requests } ++
      ((pendingTexts link s.handlers).filterMap announced ++
        if (creates req).isSome then [req] else []) ++ s.queue.filterMap announced).map
          Request.subject).Nodup)
    {s' : System J}
    (hs' : ProxyRuns.ask L { s with named := named, requests := requests } l req = some s')
    (hphase : Phase link s') : Inv L link s' := by
  obtain ⟨⟨r', outs⟩, hanswer, rfl⟩ := Option.map_eq_some_iff.1 hs'
  have hserved := served hL h.central.wellFormed hreq hanswer link
  have hne : s.registry ≠ [] := by
    obtain ⟨x, hx, -⟩ := h.central.hub
    exact List.ne_nil_of_mem hx
  have hwaiting : ∀ r ∈ waiting { s with requests := requests }, r ∈ waiting s := by
    intro r hr
    rcases List.mem_append.1 hr with hr | hr
    · exact List.mem_append_left _ hr
    · obtain ⟨hr, hcreates⟩ := List.mem_filter.1 hr
      exact List.mem_append_right _ (List.mem_filter.2 ⟨hrequests r hr, hcreates⟩)
  have htexts : (pendingTexts link s.handlers ++ delivered link outs).filterMap announced =
      (pendingTexts link s.handlers).filterMap announced ++
        if (creates req).isSome then [req] else [] := by
    rw [List.filterMap_append, hserved.announced]
  -- what is asked for is announced by no other text, and waits nowhere else
  have hother : ∀ id, creates req = some id →
      (∀ r ∈ waiting { s with requests := requests }, r.subject ≠ some id) ∧
      ∀ r ∈ (pendingTexts link s.handlers).filterMap announced, r.subject ≠ some id := by
    intro id hid
    have hcreates : (creates req).isSome := by rw [hid]; rfl
    have hsubject : req.subject = some id := (creates_eq hcreates).trans hid
    rw [if_pos hcreates, List.map_append, List.nodup_append] at honce
    have hfirst := honce.1
    rw [← List.append_assoc, List.map_append, List.nodup_append] at hfirst
    have hdisjoint : ∀ r ∈ waiting { s with requests := requests } ++
        (pendingTexts link s.handlers).filterMap announced, r.subject ≠ some id := fun r hr =>
      hsubject ▸ hfirst.2.2 _ (List.mem_map_of_mem hr) _ (List.mem_map_of_mem List.mem_cons_self)
    exact ⟨fun r hr => hdisjoint r (List.mem_append_left _ hr),
      fun r hr => hdisjoint r (List.mem_append_right _ hr)⟩
  have hregistered : ∀ r ∈ waiting s ++ (pendingTexts link s.handlers).filterMap announced,
      ∀ x ∈ s.registry, r.subject = some x.id → requestOf x = r := by
    intro r hr x hx hid
    rcases List.mem_append.1 hr with hr | hr
    · exact absurd hid (h.absent r hr x hx)
    · obtain ⟨y, -, -, id, hid', -, hsame⟩ := h.sending.pending hr
      exact hsame x hx (Option.some.inj (hid.symm.trans hid'))
  have hcases : ∀ r ∈ waiting { s with requests := requests } ++
      (pendingTexts link s.handlers ++ delivered link outs).filterMap announced,
      r ∈ waiting s ++ (pendingTexts link s.handlers).filterMap announced ∨
        ∃ id, creates req = some id ∧ r = req := by
    intro r hr
    rw [htexts] at hr
    rcases List.mem_append.1 hr with hr | hr
    · exact .inl (List.mem_append_left _ (hwaiting r hr))
    · rcases List.mem_append.1 hr with hr | hr
      · exact .inl (List.mem_append_right _ hr)
      · split_ifs at hr with hcreates
        · obtain ⟨id, hid⟩ := Option.isSome_iff_exists.1 hcreates
          exact .inr ⟨id, hid, List.mem_singleton.1 hr⟩
        · cases hr
  refine ⟨hgiven, ?_, ?_, ?_, ?_, ?_, ?_, hphase⟩
  · exact h.central.served hserved h.given hsub hown fun id hid => ⟨(hnew id hid).1, (hnew id hid).2.1⟩
  · refine ⟨fun e he => ?_, fun e he => ?_, fun r hr => ?_, fun r hr => ?_⟩
    · exact ⟨(h.mine.opening e he).1, hsub _ (h.mine.opening e he).2⟩
    · exact hsub _ (h.mine.closing e he)
    · obtain ⟨hproper, hmine⟩ := h.mine.requests r (hrequests r hr)
      exact ⟨hproper, fun id hid => hsub _ (hmine id hid)⟩
    · obtain ⟨id, a, rfl, hmem⟩ := h.mine.updates r hr
      exact ⟨id, a, rfl, hsub _ hmem⟩
  · intro r hr x hx heq
    rcases hserved.mem hx with hx | ⟨e, rfl, rfl⟩ | ⟨y, hy, a, -, -, rfl⟩
    · exact h.absent r (hwaiting r hr) x hx heq
    · exact (hother e.id rfl).1 r hr heq
    · exact h.absent r (hwaiting r hr) y hy heq
  · exact h.sending.served hserved hidle h.given hsub hown fun id hid =>
      ⟨(hnew id hid).1, (hnew id hid).2.1, (hother id hid).2⟩
  · rw [pendingTexts_append]
    refine h.passing.next (fun id hid => ids_subset hsub hid)
      (hserved.meant h.central.wellFormed h.central.ids hne) ?_ (by rw [htexts]; exact honce) ?_ ?_
    · intro t ht ev hev id hid
      rcases hserved.tells hL h.central.wellFormed h.central.ids hne ht hev with
        ⟨e, rfl, rfl⟩ | ⟨id', rfl⟩ | ⟨-, id', addr, rfl, rfl⟩ | rfl
      · obtain rfl := List.mem_singleton.1 hid
        exact mem_ids (hnew e.id rfl).1
      · cases hid
      · obtain rfl := List.mem_singleton.1 hid
        exact ids_subset hsub (mem_ids (hown id rfl rfl))
      · obtain ⟨x, hx, rfl⟩ := List.mem_map.1 hid
        obtain ⟨y, hy, rfl⟩ := List.mem_map.1 hx
        exact ids_subset hsub (h.central.given y hy)
    · intro r hr
      rcases hcases r hr with hr | ⟨id, hid, rfl⟩
      · exact .inl hr
      · exact .inr (hnew id hid).2.2.2
    · intro r hr t ht ev hev
      rcases hserved.tells hL h.central.wellFormed h.central.ids hne ht hev with
        ⟨e, -, rfl⟩ | ⟨id, rfl⟩ | ⟨hl, id, addr, rfl, rfl⟩ | rfl
      · exact trivial
      · exact trivial
      · rcases hcases r hr with hr | ⟨id', hid', -⟩
        · intro hsubject
          have hasker := hown id rfl rfl
          rcases List.mem_append.1 hr with hr | hr
          · obtain ⟨id', hid', hmine⟩ := h.mine.waiting hr
            cases hid'.symm.trans hsubject
            exact hl (Option.some.inj (h.given.unique hasker hmine))
          · obtain ⟨x, hx, houts, id', hid', hmem, -⟩ := h.sending.pending hr
            cases hid'.symm.trans hsubject
            exact houts (hidle x hx (Option.some.inj (h.given.unique hmem hasker)))
        · cases hid'
      · intro e he hsubject
        obtain ⟨x, hx, rfl⟩ := List.mem_map.1 he
        rcases hcases r hr with hr | ⟨id, hid, rfl⟩
        · exact hregistered r hr x hx hsubject
        · have hid' : r.subject = some id := (creates_eq (by rw [hid]; rfl)).trans hid
          exact absurd ⟨x, hx, Option.some.inj (hsubject.symm.trans hid')⟩ (hnew id hid).2.1
  · refine h.known.comes hsub fun r hr => ?_
    rw [coming, pendingTexts_append] at hr
    rcases List.mem_append.1 hr with hr | hr
    · rcases hcases r hr with hr | ⟨id, hid, rfl⟩
      · exact .inl (List.mem_append_left _ hr)
      · refine .inr fun g hg hsubject => ?_
        have hid' : r.subject = some id := (creates_eq (by rw [hid]; rfl)).trans hid
        exact (hnew id hid).2.2.1 g hg (Option.some.inj (hsubject.symm.trans hid'))
    · exact .inl (List.mem_append_right _ hr)

end Ask

theorem Phase.of_lists {s s' : System J} (h : Phase link s) (hlists : lists link s' = lists link s)
    (hproxy : s'.proxy = s.proxy) (hapart : s'.joined = false → s.joined = false ∧ s'.requests = [] ∧
      s'.queue = [] ∧ s'.opening = [] ∧ s'.closing = [] ∧ s'.updates = []) : Phase link s' := by
  refine ⟨hlists ▸ h.one, fun hready => hlists ▸ h.ready (hproxy ▸ hready), fun hne => ?_, fun hj => ?_⟩
  · rw [hproxy]
    exact h.unready (hlists ▸ hne)
  · obtain ⟨hjoined, hrequests, hqueue, hrest⟩ := hapart hj
    obtain ⟨hnone, -, -, hnew, -⟩ := h.apart hjoined
    exact ⟨hlists.trans hnone, hrequests, hqueue, hproxy.trans hnew, hrest⟩

section Registry
variable {denote : Value → J} (hL : L.Lawful denote) {s s' : System J}
include hL

theorem Inv.lists_ask (h : Inv L link s) {l : LinkId} {req : Request} {named : Names} {requests : Sent}
    (hreq : Proper req)
    (hs' : ProxyRuns.ask L { s with named := named, requests := requests } l req = some s') :
    s'.proxy = s.proxy ∧ s'.joined = s.joined ∧ s'.requests = requests ∧ s'.queue = s.queue ∧
      s'.opening = s.opening ∧ s'.closing = s.closing ∧ s'.updates = s.updates ∧
      lists link s' = requests.countP isListRequest + (pendingTexts link s.handlers).countP isList +
        (if l = link ∧ isListRequest req then 1 else 0) + s.queue.countP isList := by
  obtain ⟨⟨r', outs⟩, hanswer, rfl⟩ := Option.map_eq_some_iff.1 hs'
  have hserved := served hL h.central.wellFormed hreq hanswer link
  refine ⟨rfl, rfl, rfl, rfl, rfl, rfl, rfl, ?_⟩
  rw [lists, pendingTexts_append, List.countP_append, hserved.lists, ← Nat.add_assoc]

theorem Inv.handle (h : Inv L link s) {l : LinkId} {req : Request}
    (henabled : Enabled link s (.handle l req)) (hs' : next L link s (.handle l req) = some s') :
    Inv L link s' := by
  obtain ⟨hl, hidle, hreq, hmay⟩ := henabled
  obtain ⟨hproxy, hjoined, hrequests, hqueue, hopening, hclosing, hupdates, hlists⟩ :=
    h.lists_ask hL hreq hs'
  have hphase : Phase link s' := by
    refine h.phase.of_lists ?_ hproxy fun hj => ?_
    · rw [hlists, if_neg fun hand => hl hand.1, lists, Nat.add_zero]
    · obtain ⟨-, hr, hq, -, ho, hc, hu⟩ := h.phase.apart (hjoined.symm.trans hj)
      exact ⟨hjoined.symm.trans hj, hrequests.trans hr, hqueue.trans hq, hopening.trans ho,
        hclosing.trans hc, hupdates.trans hu⟩
  have hsub : ∀ p ∈ s.named, p ∈ s.named ++ (creates req).toList.map fun id => (id, some l) :=
    fun p hp => List.mem_append_left _ hp
  have hgiven : Given (s.named ++ (none : Option CStr).toList.map fun id => (id, some l)) := by
    simpa using h.given
  have honce : ((waiting s ++ ((pendingTexts link s.handlers).filterMap announced ++ []) ++
      s.queue.filterMap announced).map Request.subject).Nodup := by
    simpa using h.passing.once
  cases hreq with
  | @register e he =>
    have hfresh : e.id ∉ s.named.map Prod.fst := hmay
    refine h.ask hL (.register he) hidle (h.given.append _ he.id hfresh) hsub (fun id hid => by cases hid)
      ?_ (fun r hr => hr) ?_ hs' hphase
    · rintro id hid
      cases hid
      refine ⟨List.mem_append_right _ List.mem_cons_self, ?_, ?_, fun t ht => ?_⟩
      · rintro ⟨x, hx, hid⟩
        exact hfresh (hid ▸ h.central.given x hx)
      · exact fun g hg hid => absurd (hid ▸ h.known.given g hg) hfresh
      · exact h.passing.spares_new hfresh rfl ht
    · have hmiddle : (waiting s ++ (pendingTexts link s.handlers).filterMap announced ++
          requestOf e :: s.queue.filterMap announced).Perm (requestOf e :: coming link s) :=
        List.perm_middle
      have honce := (hmiddle.map Request.subject).nodup_iff.2 (h.new_once hfresh)
      rw [List.append_assoc, List.append_cons, ← List.append_assoc, ← List.append_assoc] at honce
      rw [← List.append_assoc]
      exact honce
  | unregister =>
    refine h.ask hL (.unregister ‹_›) hidle hgiven hsub ?_ (fun id hid => by cases hid)
      (fun r hr => hr) honce hs' hphase
    rintro id - hid
    cases hid
    exact hmay
  | updateAddress a hid =>
    refine h.ask hL (.updateAddress a hid) hidle hgiven hsub ?_
      (fun id hid => by cases hid) (fun r hr => hr) honce hs' hphase
    rintro id - hid
    cases hid
    exact hmay
  | list =>
    exact h.ask hL .list hidle hgiven hsub (fun id _ hid => by cases hid)
      (fun id hid => by cases hid) (fun r hr => hr) honce hs' hphase

theorem Inv.serve (h : Inv L link s) (henabled : Enabled link s .serve)
    (hs' : next L link s .serve = some s') : Inv L link s' := by
  obtain ⟨hne, hidle⟩ := henabled
  obtain ⟨req, requests, hrequests⟩ := List.exists_cons_of_ne_nil hne
  simp only [next, hrequests] at hs'
  have hreq : req ∈ s.requests := hrequests ▸ List.mem_cons_self
  obtain ⟨hproper, hmine⟩ := h.mine.requests req hreq
  obtain ⟨hproxy, hjoined, -, hqueue, hopening, hclosing, hupdates, hlists⟩ :=
    h.lists_ask hL hproper hs'
  have hphase : Phase link s' := by
    refine h.phase.of_lists ?_ hproxy fun hj => ?_
    · rw [hlists, lists, hrequests, List.countP_cons]
      simp only [true_and]
      omega
    · exact absurd (h.phase.apart (hjoined.symm.trans hj)).2.1 hne
  have hwaits : (creates req).isSome → req ∈ waiting s := fun hcreates =>
    List.mem_append_right _ (List.mem_filter.2 ⟨hreq, hcreates⟩)
  refine h.ask hL hproper hidle h.given (fun p hp => hp) (fun id _ => hmine id) ?_
    (fun r hr => hrequests ▸ List.mem_cons_of_mem _ hr) ?_ hs' hphase
  · intro id hid
    have hcreates : (creates req).isSome := by rw [hid]; rfl
    have hsubject : req.subject = some id := (creates_eq hcreates).trans hid
    have hmem := hwaits hcreates
    refine ⟨hmine id hsubject, ?_, fun g hg hgid => ?_, ?_⟩
    · rintro ⟨x, hx, rfl⟩
      exact h.absent req hmem x hx hsubject
    · exact h.known.agree req (List.mem_append_left _ (List.mem_append_left _ hmem)) g hg
        (hgid ▸ hsubject)
    · exact h.passing.spared req (List.mem_append_left _ hmem)
  · have honce := h.passing.once
    rw [waiting, hrequests] at honce
    rw [waiting]
    by_cases hcreates : (creates req).isSome
    · rw [if_pos hcreates]
      rw [List.filter_cons_of_pos (by simpa using hcreates)] at honce
      -- both lists are this request in front of the rest
      have hfront : ∀ as bs cs ds : List Request,
          (as ++ (bs ++ (cs ++ req :: ds))).Perm (as ++ req :: (bs ++ (cs ++ ds))) := fun as bs cs ds => by
        rw [← List.append_assoc bs, ← List.append_assoc bs]
        exact List.perm_middle.append_left as
      simp only [List.append_assoc, List.cons_append, List.nil_append] at honce ⊢
      exact ((hfront _ _ _ _).map Request.subject).nodup_iff.2 honce
    · rw [if_neg hcreates, List.append_nil]
      rw [List.filter_cons_of_neg (by simpa using hcreates)] at honce
      exact honce

end Registry

/-! ## Sending a text -/

/-- A handler's next text leaves the rest of what is pending as it is. -/
theorem pendingTexts_set (link : LinkId) {handlers : List (Handler J)} {i : ℕ} {l : LinkId} {o : Output J}
    {outs : List (Output J)} {seen : Registry} (hi : handlers[i]? = some ⟨l, o :: outs, seen⟩) :
    ∃ before after, pendingTexts link handlers = before ++ delivered link [o] ++ after ∧
      pendingTexts link (handlers.set i ⟨l, outs, seen⟩) = before ++ after := by
  have hsplit : (handlers.map fun h => delivered link h.outs)[i]? =
      some (delivered link [o] ++ delivered link outs) := by
    rw [List.getElem?_map, hi, Option.map_some, delivered_cons]
  have hpending := Delivery.flatten_split hsplit
  rw [List.append_assoc, ← List.append_assoc, ← List.flatMap_def] at hpending
  refine ⟨_, _, hpending, ?_⟩
  rw [pendingTexts, List.flatMap_def, List.map_set, Delivery.flatten_set hsplit]

theorem Passing.emit {named : Names} {waits : List Request} {before sent after queue : List (Text J)}
    (h : Passing L named waits (before ++ sent ++ after) queue) :
    Passing L named waits (before ++ after) (queue ++ sent) := by
  have hmem : ∀ t ∈ before ++ after ++ (queue ++ sent), t ∈ before ++ sent ++ after ++ queue := by
    intro t ht
    simp only [List.mem_append] at ht ⊢
    tauto
  have hpending : ∀ r ∈ waits ++ (before ++ after).filterMap announced,
      r ∈ waits ++ (before ++ sent ++ after).filterMap announced := by
    intro r hr
    simp only [List.filterMap_append, List.mem_append] at hr ⊢
    tauto
  refine ⟨fun t ht => h.meant t (hmem t ht), fun t ht => h.given t (hmem t ht), ?_,
    fun r hr t ht => h.spared r (hpending r hr) t (hmem t ht), ?_⟩
  · have hperm : (waits ++ (before ++ after).filterMap announced ++
        (queue ++ sent).filterMap announced).Perm
        (waits ++ (before ++ sent ++ after).filterMap announced ++ queue.filterMap announced) := by
      simp only [List.filterMap_append, List.append_assoc]
      refine .append_left _ (.append_left _ ?_)
      rw [← List.append_assoc]
      exact List.perm_append_comm
    exact ((hperm.map Request.subject).nodup_iff).2 h.once
  · have hsent : ∀ t ∈ before ++ sent ++ after ++ queue, ∀ t' ∈ sent, ∀ r, announced t' = some r →
        TextSpares L r t := by
      intro t ht t' ht' r hr
      have hmem' : t' ∈ before ++ sent ++ after := by
        simp only [List.mem_append]
        tauto
      exact h.spared r (List.mem_append_right _ (List.mem_filterMap.2 ⟨t', hmem', hr⟩)) t ht
    refine List.pairwise_append.2 ⟨h.ordered, ?_, fun t ht t' ht' => hsent t ?_ t' ht'⟩
    · refine List.pairwise_of_forall_mem_list fun t ht t' ht' => hsent t ?_ t' ht'
      simp only [List.mem_append]
      tauto
    · exact List.mem_append_right _ ht

theorem Passing.drop {named : Names} {waits : List Request} {before sent after queue : List (Text J)}
    (h : Passing L named waits (before ++ sent ++ after) queue) :
    Passing L named waits (before ++ after) queue := by
  have hsub : (before ++ after).Sublist (before ++ sent ++ after) :=
    (List.sublist_append_left _ _).append_right after
  have hmem : ∀ t ∈ before ++ after ++ queue, t ∈ before ++ sent ++ after ++ queue := fun t ht =>
    (hsub.append_right queue).subset ht
  have hpending := (hsub.filterMap announced).append_left waits
  exact ⟨fun t ht => h.meant t (hmem t ht), fun t ht => h.given t (hmem t ht),
    h.once.sublist ((hpending.append_right _).map Request.subject),
    fun r hr t ht => h.spared r (hpending.subset hr) t (hmem t ht), h.ordered⟩

theorem Inv.emit {s : System J} (h : Inv L link s) {i : ℕ} (henabled : Enabled link s (.emit i)) :
    Inv L link (ProxyRuns.emit link s i) := by
  obtain ⟨⟨l, outs, seen⟩, hi, hne⟩ := henabled
  obtain ⟨o, outs, rfl⟩ := List.exists_cons_of_ne_nil hne
  obtain ⟨before, after, hpending, hset⟩ := pendingTexts_set link hi
  have hsending : Sending link s.named s.registry (s.handlers.set i ⟨l, outs, seen⟩) := by
    intro m hm t ht r hr
    rcases List.mem_or_eq_of_mem_set hm with hm | rfl
    · exact h.sending m hm t ht r hr
    · have ht' : t ∈ delivered link (o :: outs) := delivered_cons link o outs ▸ List.mem_append_right _ ht
      exact h.sending _ (List.mem_of_getElem? hi) t ht' r hr
  have hpassing := h.passing
  rw [hpending] at hpassing
  have hone := h.phase.one
  have hlists : lists link s = s.requests.countP isListRequest + (before.countP isList +
      (delivered link [o]).countP isList + after.countP isList) + s.queue.countP isList := by
    rw [lists, hpending, List.countP_append, List.countP_append]
  have hmine : ∀ {s' : System J}, s'.opening = s.opening → s'.closing = s.closing →
      s'.requests = s.requests → s'.updates = s.updates → Mine link s.named s' := by
    intro s' ho hc hr hu
    exact ⟨ho ▸ h.mine.opening, hc ▸ h.mine.closing, hr ▸ h.mine.requests, hu ▸ h.mine.updates⟩
  simp only [ProxyRuns.emit, hi]
  by_cases hjoined : s.joined = true
  · rw [if_pos hjoined]
    refine ⟨h.given, h.central, hmine rfl rfl rfl rfl, h.absent, hsending, hset ▸ hpassing.emit, ?_, ?_⟩
    · refine h.known.comes (fun p hp => hp) fun r hr => .inl ?_
      rw [coming, hpending]
      rw [coming, hset] at hr
      simp only [List.filterMap_append, List.mem_append] at hr ⊢
      tauto
    · refine h.phase.of_lists ?_ rfl fun hj => absurd hjoined (by simpa using hj)
      rw [hlists]
      simp only [lists, hset, List.countP_append]
      omega
  · rw [if_neg hjoined]
    obtain ⟨hnone, hrest⟩ := h.phase.apart (Bool.eq_false_iff.2 hjoined)
    refine ⟨h.given, h.central, hmine rfl rfl rfl rfl, h.absent, hsending, hset ▸ hpassing.drop, ?_, ?_⟩
    · refine h.known.comes (fun p hp => hp) fun r hr => .inl ?_
      rw [coming, hpending]
      rw [coming, hset] at hr
      simp only [List.filterMap_append, List.mem_append] at hr ⊢
      tauto
    · refine h.phase.of_lists ?_ rfl fun hj => ⟨hj, hrest.1, hrest.2.1, hrest.2.2.2⟩
      rw [hnone] at hlists ⊢
      simp only [lists, hset, List.countP_append]
      omega

end Rcom.ProxyRuns
