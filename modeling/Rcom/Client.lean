import Rcom.HubSubscribers
import Rcom.RegistryUniqueness

/-!
# A proxy and the central registry it is connected with

The registry handles the requests of all proxies one after the other, and what it tells a
proxy arrives in this order. So its list can be taken as it was when the last text that has
arrived was written, next to the requests of the node whose text has not arrived.
-/

namespace Rcom
open Rcom.Lib Rcom.Addr Rcom.RegistryEntry Rcom.Registry Rcom.RcRegistry Rcom.Proxy Rcom.Node

structure Client where
  node : Node
  registry : Registry
  requests : Sent

def Request.subject : Request → Option CStr
  | .register id _ _ _ _ => some id
  | .unregister id => some id
  | .updateAddress id _ => some id
  | .list => none

namespace Client

def requestOf (e : Entry) : Request :=
  .register e.id e.name e.topic (registryTypeToStr e.type) (addrString e.addr)

/-- The first request of `new_proxy` is for the list. -/
def newClient (registry : Registry) : Client := ⟨newNode, registry, [.list]⟩

/-- The id is of an entry of the node itself, or of one it has asked to add or to remove. -/
def OfNode (s : Client) (id : CStr) : Prop :=
  (∃ g ∈ s.node.proxy.registry, g.endpoint ≠ none ∧ g.id = id) ∨
    ∃ r ∈ s.requests, r.subject = some id

def Fresh (s : Client) (id : CStr) : Prop :=
  ¬Holds s.node.proxy.registry id ∧ ¬Holds s.registry id ∧ ∀ r ∈ s.requests, r.subject ≠ some id

def Pending (requests : Sent) (e : Entry) : Prop := e.WellFormed ∧ requestOf e ∈ requests

/-- How the list of the proxy, that of the registry, and the pending requests fit together. -/
structure Book (known registry : Registry) (requests : Sent) : Prop where
  ids : IdsUnique known
  addrs : ∀ g ∈ known, g.addr ≠ none
  registryIds : IdsUnique registry
  listening : Listening registry
  backed : ∀ g ∈ known, g.remote ∈ registry ∨ g.endpoint ≠ none ∧ Pending requests g
  pending : ∀ e, Pending requests e → ¬Holds registry e.id
  ordered : requests.Pairwise fun r r' => ∀ e, r' = requestOf e → r.subject ≠ some e.id
  closed : ∀ id, .unregister id ∈ requests → ∀ g ∈ known, g.id = id → g.endpoint = none
  hubs : ∀ x ∈ registry, x.type = .datahub →
    (∃ g ∈ known, g.remote = x) ∨ .unregister x.id ∈ requests ∨ .list ∈ requests ∨
      ∃ e, Pending requests e ∧ onTopic x.topic .datahub e

/-! ## Requests -/

theorem remote_of_requestOf {e f : Entry} (he : e.addr ≠ none) (hf : f.addr ≠ none)
    (h : requestOf e = requestOf f) : e.remote = f.remote := by
  simp only [requestOf, Request.register.injEq] at h
  obtain ⟨hid, hname, htopic, htype, haddr⟩ := h
  have htype : e.type = f.type := by
    have hstr := congrArg registryStrToType htype
    simpa [registryStrToType_typeToStr] using hstr
  obtain ⟨a, ha⟩ := Option.ne_none_iff_exists'.1 he
  obtain ⟨b, hb⟩ := Option.ne_none_iff_exists'.1 hf
  have haddr : e.addr = f.addr := by
    have hparse := congrArg addrParse haddr
    rw [ha, hb, addrParse_addrString, addrParse_addrString] at hparse
    rw [ha, hb]
    exact Option.some.inj hparse
  simp only [Entry.remote, hid, hname, htopic, htype, haddr]

theorem key_of_remote {e f : Entry} (h : e.remote = f.remote) : e.key = f.key := by
  have hname := congrArg Entry.name h
  have htopic := congrArg Entry.topic h
  have htype := congrArg Entry.type h
  have haddr := congrArg Entry.addr h
  simp only [Entry.remote] at hname htopic htype haddr
  simp only [Entry.key, hname, htopic, htype, haddr]

theorem id_of_remote {e f : Entry} (h : e.remote = f.remote) : e.id = f.id := by
  have hid := congrArg Entry.id h
  exact hid

theorem onTopic_of_key {topic : CStr} {type : EntryType} {e f : Entry} (h : e.key = f.key) :
    onTopic topic type e = onTopic topic type f := by
  simp only [Entry.key, Prod.mk.injEq] at h
  simp only [onTopic, h.2.1, h.2.2.1]

theorem addr_of_key {e f : Entry} (h : e.key = f.key) : e.addr = f.addr := by
  simp only [Entry.key, Prod.mk.injEq] at h
  exact h.2.2.2

theorem onTopic_remote (topic : CStr) (type : EntryType) (e : Entry) :
    onTopic topic type e.remote = onTopic topic type e := rfl

theorem oneHub_eq {topic : CStr} {registry : Registry} (h : OneHub topic registry) {x y : Entry}
    (hx : x ∈ registry) (hy : y ∈ registry) (hxt : onTopic topic .datahub x)
    (hyt : onTopic topic .datahub y) : x = y := by
  have hxf : x ∈ registry.filter (onTopic topic .datahub) := List.mem_filter.2 ⟨hx, hxt⟩
  have hyf : y ∈ registry.filter (onTopic topic .datahub) := List.mem_filter.2 ⟨hy, hyt⟩
  have hpos := List.length_pos_of_mem hxf
  obtain ⟨z, hz⟩ := List.length_eq_one_iff.1 (Nat.le_antisymm h hpos)
  rw [hz, List.mem_singleton] at hxf hyf
  rw [hxf, hyf]

/-! ## The five changes of the book -/

section Changes
variable {known known' registry registry' : Registry} {done rest requests : Sent} {id : CStr}

theorem remote_of_listening (h : Listening registry) {x : Entry} (hx : x ∈ registry) :
    x.remote = x := by
  obtain ⟨⟩ := x
  have hend := (h _ hx).1
  dsimp only at hend
  subst hend
  exact Eq.refl _

theorem Pending.mono {e : Entry} (h : Pending requests e) {requests' : Sent}
    (hsub : ∀ r ∈ requests, r ∈ requests') : Pending requests' e := ⟨h.1, hsub _ h.2⟩

/-- Entries of the registry are taken over, and `done` has been answered. -/
theorem Book.learn (h : Book known registry (done ++ rest)) (hsup : ∀ g ∈ known, g ∈ known')
    (hsub : ∀ g ∈ known', g ∈ known ∨ g ∈ registry') (hids : IdsUnique known')
    (hlistening : Listening registry') (hregistryIds : IdsUnique registry')
    (hgrown : ∀ x ∈ registry, x ∈ registry')
    (hpending : ∀ e, Pending rest e → ¬Holds registry' e.id)
    (hdone : ∀ e, Pending (done ++ rest) e → Pending rest e ∨ e.remote ∈ registry')
    (hclosing : ∀ id, .unregister id ∉ done) (hone : ∀ topic, OneHub topic registry')
    (hhubs : ∀ x ∈ registry', x.type = .datahub →
      (x ∈ registry ∧ .list ∉ done) ∨ ∃ g ∈ known', g.key = x.key) :
    Book known' registry' rest := by
  have hbacked : ∀ g ∈ known', g.remote ∈ registry' ∨ g.endpoint ≠ none ∧ Pending rest g := by
    intro g hg
    rcases hsub g hg with hg | hg
    · rcases h.backed g hg with hmem | ⟨hend, hp⟩
      · exact .inl (hgrown _ hmem)
      · exact (hdone g hp).elim (fun hrest => .inr ⟨hend, hrest⟩) .inl
    · rw [remote_of_listening hlistening hg]
      exact .inl hg
  refine ⟨hids, ?_, hregistryIds, hlistening, hbacked, hpending,
    (List.pairwise_append.1 h.ordered).2.1, ?_, ?_⟩
  · intro g hg
    exact (hsub g hg).elim (h.addrs g) fun hg => (hlistening g hg).2
  · intro id hid g hg hgid
    exact (hsub g hg).elim (fun hg => h.closed id (List.mem_append_right _ hid) g hg hgid)
      fun hg => (hlistening g hg).1
  · intro x hx htype
    have hxt : onTopic x.topic .datahub x = true := onTopic_iff.2 ⟨htype, rfl⟩
    rcases hhubs x hx htype with ⟨hold, hlist⟩ | ⟨g, hg, hkey⟩
    · rcases h.hubs x hold htype with ⟨g, hg, hgx⟩ | hunreg | hl | ⟨e, he, hon⟩
      · exact .inl ⟨g, hsup g hg, hgx⟩
      · exact .inr (.inl ((List.mem_append.1 hunreg).resolve_left (hclosing _)))
      · exact .inr (.inr (.inl ((List.mem_append.1 hl).resolve_left hlist)))
      · rcases hdone e he with hrest | hmem
        · exact .inr (.inr (.inr ⟨e, hrest, hon⟩))
        · have heq : e.remote = x := oneHub_eq (hone x.topic) hmem hx hon hxt
          exact absurd ⟨x, hold, heq ▸ Eq.refl e.id⟩ (h.pending e he)
    · have hon : onTopic x.topic .datahub g = true := (onTopic_of_key hkey).trans hxt
      rcases hbacked g hg with hmem | ⟨_, hp⟩
      · exact .inl ⟨g, hg, oneHub_eq (hone x.topic) hmem hx hon hxt⟩
      · exact .inr (.inr (.inr ⟨g, hp, hon⟩))

theorem Book.forget (h : Book known registry (done ++ rest))
    (hdone : ∀ r ∈ done, r = .unregister id) :
    Book (known.eraseP fun e => e.id = id) (registry.eraseP fun e => e.id = id) rest := by
  have hpending : ∀ e, Pending (done ++ rest) e → Pending rest e := by
    intro e ⟨hwf, hmem⟩
    refine ⟨hwf, (List.mem_append.1 hmem).resolve_left fun hd => ?_⟩
    have heq := hdone _ hd
    simp [requestOf] at heq
  have hkeeps : ∀ x ∈ registry, x.id ≠ id → x ∈ registry.eraseP fun e => e.id = id :=
    fun x hx hne => (mem_eraseP_key h.registryIds).2 ⟨hx, hne⟩
  constructor
  · exact h.ids.sublist (List.eraseP_sublist.map _)
  · exact fun g hg => h.addrs g (List.mem_of_mem_eraseP hg)
  · exact h.registryIds.sublist (List.eraseP_sublist.map _)
  · exact h.listening.of_subset fun x hx => List.mem_of_mem_eraseP hx
  · intro g hg
    obtain ⟨hg, hne⟩ := (mem_eraseP_key h.ids).1 hg
    rcases h.backed g hg with hmem | ⟨hend, hp⟩
    · exact .inl (hkeeps _ hmem hne)
    · exact .inr ⟨hend, hpending g hp⟩
  · intro e he ⟨x, hx, hid⟩
    exact h.pending e (he.mono fun r hr => List.mem_append_right _ hr)
      ⟨x, List.mem_of_mem_eraseP hx, hid⟩
  · exact (List.pairwise_append.1 h.ordered).2.1
  · intro id' hid' g hg hgid
    exact h.closed id' (List.mem_append_right _ hid') g (List.mem_of_mem_eraseP hg) hgid
  · intro x hx htype
    obtain ⟨hx, hne⟩ := (mem_eraseP_key h.registryIds).1 hx
    rcases h.hubs x hx htype with ⟨g, hg, rfl⟩ | hunreg | hlist | ⟨e, he, hon⟩
    · exact .inl ⟨g, (mem_eraseP_key h.ids).2 ⟨hg, hne⟩, rfl⟩
    · refine .inr (.inl ((List.mem_append.1 hunreg).resolve_left fun hd => hne ?_))
      simpa using hdone _ hd
    · refine .inr (.inr (.inl ((List.mem_append.1 hlist).resolve_left fun hd => ?_)))
      simpa using hdone _ hd
    · exact .inr (.inr (.inr ⟨e, hpending e he, hon⟩))

theorem Book.readdress (h : Book known registry requests)
    (hlocal : ∀ g ∈ known, g.id = id → g.endpoint = none) (a : Addr) :
    Book (updateFirst (fun e => e.id = id) (setAddr (some a)) known)
      (updateFirst (fun e => e.id = id) (setAddr (some a)) registry) requests := by
  have hmap : ∀ r : Registry, (updateFirst (fun e => e.id = id) (setAddr (some a)) r).map Entry.id =
      r.map Entry.id := fun r =>
    map_updateFirst_eq (f := setAddr (some a)) Entry.id (fun _ => rfl) r
  have hback : ∀ g ∈ known, g.id = id → g ∈ registry := by
    intro g hg hgid
    rcases h.backed g hg with hmem | ⟨hend, _⟩
    · have heq : g.remote = g := by
        obtain ⟨⟩ := g
        have hend := hlocal _ hg hgid
        dsimp only at hend
        subst hend
        exact Eq.refl _
      exact heq ▸ hmem
    · exact absurd (hlocal g hg hgid) hend
  constructor
  · rw [IdsUnique, hmap]
    exact h.ids
  · intro g hg
    rcases mem_updateFirst hg with hg | ⟨b, _, _, rfl⟩
    · exact h.addrs g hg
    · simp
  · rw [IdsUnique, hmap]
    exact h.registryIds
  · exact h.listening.updateFirst _ a
  · intro g hg
    rcases (mem_updateFirst_key h.ids).1 hg with ⟨hg, hne⟩ | ⟨b, hb, hbid, rfl⟩
    · rcases h.backed g hg with hmem | hp
      · exact .inl ((mem_updateFirst_key h.registryIds).2 (.inl ⟨hmem, hne⟩))
      · exact .inr hp
    · refine .inl ((mem_updateFirst_key h.registryIds).2 (.inr ⟨b, hback b hb hbid, hbid, ?_⟩))
      have hend := hlocal b hb hbid
      simp only [Entry.remote, setAddr, hend]
  · rintro e he ⟨x, hx, hxid⟩
    have hmem : x.id ∈ registry.map Entry.id := hmap registry ▸ List.mem_map_of_mem hx
    obtain ⟨y, hy, hyid⟩ := List.mem_map.1 hmem
    exact h.pending e he ⟨y, hy, hyid.trans hxid⟩
  · exact h.ordered
  · intro id' hid' g hg hgid
    rcases mem_updateFirst hg with hg | ⟨b, hb, _, rfl⟩
    · exact h.closed id' hid' g hg hgid
    · exact h.closed id' hid' b hb hgid
  · intro x hx htype
    rcases (mem_updateFirst_key h.registryIds).1 hx with ⟨hx, hne⟩ | ⟨y, hy, hyid, rfl⟩
    · rcases h.hubs x hx htype with ⟨g, hg, rfl⟩ | hrest
      · exact .inl ⟨g, (mem_updateFirst_key h.ids).2 (.inl ⟨hg, hne⟩), rfl⟩
      · exact .inr hrest
    · rcases h.hubs y hy htype with ⟨g, hg, hgy⟩ | hrest
      · have hgid : g.id = id := by
          rw [← hyid, ← hgy]
          exact Eq.refl g.id
        refine .inl ⟨setAddr (some a) g, (mem_updateFirst_key h.ids).2 (.inr ⟨g, hg, hgid, rfl⟩), ?_⟩
        rw [← hgy]
        exact Eq.refl _
      · exact .inr hrest

theorem Book.open (h : Book known registry requests) {e : Entry} (he : e.WellFormed)
    (hend : e.endpoint ≠ none) (hknown : ¬Holds known e.id) (hregistry : ¬Holds registry e.id)
    (hrequests : ∀ r ∈ requests, r.subject ≠ some e.id) :
    Book (known ++ [e]) registry (requests ++ [requestOf e]) := by
  have hleft : ∀ r ∈ requests, r ∈ requests ++ [requestOf e] := fun r hr =>
    List.mem_append_left _ hr
  constructor
  · exact (idsUnique_append h.ids).2 hknown
  · intro g hg
    rcases List.mem_append.1 hg with hg | hg
    · exact h.addrs g hg
    · exact List.mem_singleton.1 hg ▸ he.addr
  · exact h.registryIds
  · exact h.listening
  · intro g hg
    rcases List.mem_append.1 hg with hg | hg
    · exact (h.backed g hg).imp_right fun hp => ⟨hp.1, hp.2.mono hleft⟩
    · rw [List.mem_singleton.1 hg]
      exact .inr ⟨hend, he, List.mem_append_right _ List.mem_cons_self⟩
  · intro f ⟨hf, hmem⟩
    rcases List.mem_append.1 hmem with hmem | hmem
    · exact h.pending f ⟨hf, hmem⟩
    · have heq := remote_of_requestOf hf.addr he.addr (List.mem_singleton.1 hmem)
      rw [id_of_remote heq]
      exact hregistry
  · refine List.pairwise_append.2 ⟨h.ordered, List.pairwise_singleton _ _, fun r hr r' hr' f hf => ?_⟩
    have hsubject := congrArg Request.subject (hf.symm.trans (List.mem_singleton.1 hr'))
    simp only [requestOf, Request.subject] at hsubject
    exact hsubject ▸ hrequests r hr
  · intro id hid g hg hgid
    have hid : .unregister id ∈ requests := (List.mem_append.1 hid).resolve_right (by simp [requestOf])
    rcases List.mem_append.1 hg with hg | hg
    · exact h.closed id hid g hg hgid
    · rw [List.mem_singleton.1 hg] at hgid
      exact absurd (congrArg some hgid.symm) (hrequests _ hid)
  · intro x hx htype
    rcases h.hubs x hx htype with ⟨g, hg, hgx⟩ | hunreg | hlist | ⟨f, hf, hon⟩
    · exact .inl ⟨g, List.mem_append_left _ hg, hgx⟩
    · exact .inr (.inl (hleft _ hunreg))
    · exact .inr (.inr (.inl (hleft _ hlist)))
    · exact .inr (.inr (.inr ⟨f, hf.mono hleft, hon⟩))

theorem Book.close (h : Book known registry requests) (id : CStr) :
    Book (known.eraseP fun e => e.id = id) registry (requests ++ [.unregister id]) := by
  have hleft : ∀ r ∈ requests, r ∈ requests ++ [.unregister id] := fun r hr =>
    List.mem_append_left _ hr
  have hpending : ∀ e, Pending (requests ++ [.unregister id]) e → Pending requests e := by
    intro e ⟨hwf, hmem⟩
    exact ⟨hwf, (List.mem_append.1 hmem).resolve_right (by simp [requestOf])⟩
  constructor
  · exact h.ids.sublist (List.eraseP_sublist.map _)
  · exact fun f hf => h.addrs f (List.mem_of_mem_eraseP hf)
  · exact h.registryIds
  · exact h.listening
  · intro f hf
    exact (h.backed f (List.mem_of_mem_eraseP hf)).imp_right fun hp => ⟨hp.1, hp.2.mono hleft⟩
  · exact fun e he => h.pending e (hpending e he)
  · refine List.pairwise_append.2 ⟨h.ordered, List.pairwise_singleton _ _, fun r _ r' hr' f hf => ?_⟩
    rw [List.mem_singleton.1 hr'] at hf
    simp [requestOf] at hf
  · intro id' hid f hf hfid
    obtain ⟨hf, hne⟩ := (mem_eraseP_key h.ids).1 hf
    rcases List.mem_append.1 hid with hid | hid
    · exact h.closed id' hid f hf hfid
    · simp only [List.mem_singleton, Request.unregister.injEq] at hid
      exact absurd (hfid.trans hid) hne
  · intro x hx htype
    rcases h.hubs x hx htype with ⟨f, hf, rfl⟩ | hunreg | hlist | ⟨e, he, hon⟩
    · by_cases hfid : f.id = id
      · refine .inr (.inl (List.mem_append_right _ ?_))
        rw [List.mem_singleton, ← hfid]
        exact Eq.refl _
      · exact .inl ⟨f, (mem_eraseP_key h.ids).2 ⟨hf, hfid⟩, rfl⟩
    · exact .inr (.inl (hleft _ hunreg))
    · exact .inr (.inr (.inl (hleft _ hlist)))
    · exact .inr (.inr (.inr ⟨e, he.mono hleft, hon⟩))

end Changes

end Client
end Rcom
