import Rcom.OneEntry

/-!
# The steps of the node

The node reads what the registry sent, and its threads open and close endpoints. Each step leaves
one entry for each id, a text at least when it fits.
-/

namespace Rcom.ProxyRuns
open Rcom.Lib Rcom.Lib.Json Rcom.Lib.Trace Rcom.Addr Rcom.RegistryEntry Rcom.Registry Rcom.RcRegistry
open Rcom.Proxy Rcom.Node Rcom.Client Rcom.Replica Rcom.Interleaving Rcom.NodeTexts
variable {J : Type} {L : JsonLib J} {link : LinkId}

/-! ## What the node sends -/

theorem Passing.waits {named named' : Names} {waits waits' : List Request} {texts queue : List (Text J)}
    (h : Passing L named waits texts queue) (hsub : ∀ id ∈ named.map Prod.fst, id ∈ named'.map Prod.fst)
    (honce : ((waits' ++ texts.filterMap announced ++
      queue.filterMap announced).map Request.subject).Nodup)
    (hwaits : ∀ r ∈ waits', r ∈ waits ∨ ∀ t ∈ texts ++ queue, TextSpares L r t) :
    Passing L named' waits' texts queue := by
  refine ⟨h.meant, fun t ht ev hev id hid => hsub id (h.given t ht ev hev id hid), honce,
    fun r hr t ht => ?_, h.ordered⟩
  rcases List.mem_append.1 hr with hr | hr
  · exact (hwaits r hr).elim (fun hr => h.spared r (List.mem_append_left _ hr) t ht) fun hspares =>
      hspares t ht
  · exact h.spared r (List.mem_append_right _ hr) t ht

theorem Knows.sublist {named : Names} {comes comes' : List Request} {known known' : Registry}
    (h : Knows link named comes known) (hcomes : ∀ r ∈ comes', r ∈ comes)
    (hknown : known'.Sublist known) : Knows link named comes' known' :=
  ⟨h.ids.sublist (hknown.map _), fun g hg => h.addrs g (hknown.subset hg),
    fun r hr g hg => h.agree r (hcomes r hr) g (hknown.subset hg),
    fun g hg => h.given g (hknown.subset hg), fun g hg => h.own g (hknown.subset hg)⟩

theorem Inv.send {s s' : System J} (h : Inv L link s) (hregistry : s'.registry = s.registry)
    (hhandlers : s'.handlers = s.handlers) (hqueue : s'.queue = s.queue) (hnamed : s'.named = s.named)
    (hmine : Mine link s.named s') (hwaits : (waiting s').Subperm (waiting s))
    (hknown : s'.proxy.registry.Sublist s.proxy.registry) (hstatus : s'.proxy.status = s.proxy.status)
    (hlists : s'.requests.countP isListRequest = s.requests.countP isListRequest)
    (hjoined : s'.joined = true) : Inv L link s' := by
  have hsame : lists link s' = lists link s := by rw [lists, lists, hlists, hhandlers, hqueue]
  obtain ⟨ws, hperm, hsub⟩ := hwaits
  have hold : ∀ r ∈ waiting s', r ∈ waiting s := fun r hr => hsub.subset (hperm.mem_iff.2 hr)
  refine ⟨hnamed ▸ h.given, ?_, hnamed ▸ hmine, ?_, ?_, ?_, ?_, ?_⟩
  · rw [hnamed, hregistry]
    exact h.central
  · rw [hregistry]
    exact fun r hr => h.absent r (hold r hr)
  · rw [hnamed, hregistry, hhandlers]
    exact h.sending
  · rw [hnamed, hhandlers, hqueue]
    refine h.passing.waits (fun _ hid => hid) ?_ fun r hr => .inl (hold r hr)
    have honce := h.passing.once.sublist (((hsub.append_right _).append_right _).map Request.subject)
    exact (((hperm.append_right _).append_right _).map Request.subject).nodup_iff.1 honce
  · rw [hnamed]
    refine h.known.sublist (fun r hr => ?_) hknown
    rw [coming, hhandlers, hqueue] at hr
    simp only [coming, List.mem_append] at hr ⊢
    exact hr.imp_left fun hr => hr.imp_left (hold r)
  · refine ⟨hsame ▸ h.phase.one, fun hready => ?_, fun hne g hg => ?_, fun hj => ?_⟩
    · exact hsame ▸ h.phase.ready (hstatus ▸ hready)
    · exact h.phase.unready (hsame ▸ hne) g (hknown.subset hg)
    · cases hjoined.symm.trans hj

theorem Inv.joined {s : System J} (h : Inv L link s)
    (hbusy : s.opening ≠ [] ∨ s.closing ≠ [] ∨ s.updates ≠ [] ∨ s.queue ≠ [] ∨
      s.proxy.registry ≠ [] ∨ s.proxy.status = .ready) : s.joined = true := by
  by_contra hnot
  obtain ⟨-, -, hqueue, hproxy, hopening, hclosing, hupdates⟩ :=
    h.phase.apart (Bool.eq_false_iff.2 hnot)
  rw [hproxy, hqueue, hopening, hclosing, hupdates] at hbusy
  rcases hbusy with hne | hne | hne | hne | hne | hready
  · exact hne rfl
  · exact hne rfl
  · exact hne rfl
  · exact hne rfl
  · exact hne rfl
  · cases hready

theorem waiting_quiet {s s' : System J} {sent : Sent} (hopening : s'.opening = s.opening)
    (hrequests : s'.requests = s.requests ++ sent) (hquiet : ∀ r ∈ sent, creates r = none) :
    (waiting s').Subperm (waiting s) := by
  have hnone : sent.filter (fun r => (creates r).isSome) = [] :=
    List.filter_eq_nil_iff.2 fun r hr => by simp [hquiet r hr]
  rw [waiting, waiting, hopening, hrequests, List.filter_append, hnone, List.append_nil]

theorem lists_quiet {requests sent : Sent} (hquiet : ∀ r ∈ sent, isListRequest r = false) :
    (requests ++ sent).countP isListRequest = requests.countP isListRequest := by
  have hnone : sent.countP isListRequest = 0 := List.countP_eq_zero.2 fun r hr => by simp [hquiet r hr]
  rw [List.countP_append, hnone, Nat.add_zero]

theorem Inv.register {s s' : System J} (h : Inv L link s) {i : ℕ} {sent : Bool}
    (henabled : Enabled link s (.register i sent)) (hs' : next L link s (.register i sent) = some s') :
    Inv L link s' := by
  have hi : i < s.opening.length := henabled
  have hjoined : s.joined = true := h.joined (.inl (List.ne_nil_of_length_pos (by omega)))
  have hmem : s.opening[i] ∈ s.opening := List.getElem_mem hi
  have hperm : (s.opening[i] :: s.opening.eraseIdx i).Perm s.opening := List.getElem_cons_eraseIdx_perm hi
  have hopening : ∀ e ∈ s.opening.eraseIdx i, e ∈ s.opening := fun e he => List.mem_of_mem_eraseIdx he
  cases sent with
  | true =>
    simp only [next, List.getElem?_eq_getElem hi, registerEntry_sent] at hs'
    cases hs'
    refine h.send rfl rfl rfl rfl ⟨fun e he => h.mine.opening e (hopening e he), h.mine.closing, ?_,
      h.mine.updates⟩ (List.Perm.subperm ?_) (List.Sublist.refl _) rfl (lists_quiet ?_) hjoined
    · intro r hr
      rcases List.mem_append.1 hr with hr | hr
      · exact h.mine.requests r hr
      · rw [List.mem_singleton.1 hr]
        obtain ⟨hwf, hmine⟩ := h.mine.opening _ hmem
        refine ⟨.register hwf, fun id hid => ?_⟩
        cases hid
        exact hmine
    · -- the entry moves from the opened ones to the end of the requests
      have hrest := (hperm.map requestOf).append_right (s.requests.filter fun r => (creates r).isSome)
      have hlast := List.perm_append_singleton (requestOf s.opening[i])
        ((s.opening.eraseIdx i).map requestOf ++ s.requests.filter fun r => (creates r).isSome)
      simp only [waiting, List.filter_append]
      rw [← List.append_assoc]
      exact hlast.trans hrest
    · intro r hr
      rw [List.mem_singleton.1 hr]
      rfl
  | false =>
    simp only [next, List.getElem?_eq_getElem hi, registerEntry_unsent, List.append_nil] at hs'
    cases hs'
    have hsub : ((s.opening.eraseIdx i).map requestOf).Sublist (s.opening.map requestOf) :=
      (List.eraseIdx_sublist _ _).map requestOf
    exact h.send rfl rfl rfl rfl ⟨fun e he => h.mine.opening e (hopening e he), h.mine.closing,
      h.mine.requests, h.mine.updates⟩ (hsub.append_right _).subperm List.eraseP_sublist rfl rfl
      hjoined

theorem Inv.remove {s s' : System J} (h : Inv L link s) {type : EntryType} {endpoint : Endpoint}
    (hs' : next L link s (.remove type endpoint) = some s') : Inv L link s' := by
  obtain ⟨⟨proxy', entry⟩, hremove, rfl⟩ := Option.map_eq_some_iff.1 hs'
  rcases removeEntry_cases hremove with ⟨rfl, rfl, -⟩ | ⟨e, he, -, hend, rfl, rfl⟩
  · simpa using h
  · refine h.send rfl rfl rfl rfl ⟨h.mine.opening, fun f hf => ?_, h.mine.requests, h.mine.updates⟩
      (List.Subperm.refl _) List.eraseP_sublist rfl rfl
      (h.joined (.inr (.inr (.inr (.inr (.inl (List.ne_nil_of_mem he)))))))
    rcases List.mem_append.1 hf with hf | hf
    · exact h.mine.closing f hf
    · rw [List.mem_singleton.1 hf]
      exact h.known.own e he (by simp [hend])

theorem Inv.unregister {s s' : System J} (h : Inv L link s) {i : ℕ} {sent : Bool}
    (henabled : Enabled link s (.unregister i sent))
    (hs' : next L link s (.unregister i sent) = some s') : Inv L link s' := by
  have hi : i < s.closing.length := henabled
  have hjoined : s.joined = true := h.joined (.inr (.inl (List.ne_nil_of_length_pos (by omega))))
  have hmine := h.mine.closing s.closing[i] (List.getElem_mem hi)
  simp only [next, List.getElem?_eq_getElem hi] at hs'
  cases hs'
  have hsent : ∀ r ∈ proxySendUnregisterRequest false sent s.closing[i],
      r = .unregister s.closing[i].id := by
    cases sent <;> simp [proxySendUnregisterRequest]
  refine h.send rfl rfl rfl rfl ⟨h.mine.opening,
    fun e he => h.mine.closing e (List.mem_of_mem_eraseIdx he), fun r hr => ?_, h.mine.updates⟩ ?_ (List.Sublist.refl _) rfl (lists_quiet fun r hr => ?_) hjoined
  · rcases List.mem_append.1 hr with hr | hr
    · exact h.mine.requests r hr
    · rw [hsent r hr]
      refine ⟨.unregister (h.given.valid _ hmine), fun id hid => ?_⟩
      cases hid
      exact hmine
  · exact waiting_quiet rfl rfl fun r hr => hsent r hr ▸ rfl
  · rw [hsent r hr]
    rfl

theorem Inv.update {s s' : System J} (h : Inv L link s) {sent : Bool}
    (henabled : Enabled link s (.update sent)) (hs' : next L link s (.update sent) = some s') :
    Inv L link s' := by
  obtain ⟨r, updates, hupdates⟩ := List.exists_cons_of_ne_nil henabled
  have hjoined : s.joined = true := h.joined (.inr (.inr (.inl henabled)))
  simp only [next, hupdates] at hs'
  cases hs'
  have hrest : ∀ r ∈ updates, r ∈ s.updates := fun r hr => hupdates ▸ List.mem_cons_of_mem _ hr
  obtain ⟨id, a, rfl, hmine⟩ := h.mine.updates r (hupdates ▸ List.mem_cons_self)
  cases sent with
  | true =>
    simp only [if_true]
    refine h.send rfl rfl rfl rfl ⟨h.mine.opening, h.mine.closing, fun r hr => ?_,
      fun r hr => h.mine.updates r (hrest r hr)⟩ ?_ (List.Sublist.refl _) rfl (lists_quiet ?_) hjoined
    · rcases List.mem_append.1 hr with hr | hr
      · exact h.mine.requests r hr
      · rw [List.mem_singleton.1 hr]
        refine ⟨.updateAddress a (h.given.valid _ hmine), fun id' hid => ?_⟩
        cases hid
        exact hmine
    · exact waiting_quiet rfl rfl (by simp [creates])
    · simp [isListRequest]
  | false =>
    simp only [Bool.false_eq_true, if_false]
    exact h.send rfl rfl rfl rfl ⟨h.mine.opening, h.mine.closing, h.mine.requests,
      fun r hr => h.mine.updates r (hrest r hr)⟩ (List.Subperm.refl _) (List.Sublist.refl _) rfl rfl
      hjoined

/-! ## Joining and opening -/

theorem Inv.join {s s' : System J} (h : Inv L link s) (henabled : Enabled link s .join)
    (hs' : next L link s .join = some s') : Inv L link s' := by
  obtain ⟨hlists, hrequests, hqueue, hproxy, -⟩ := h.phase.apart henabled
  have hone : ([.list] : Sent).countP isListRequest = 1 := rfl
  have hlists' : lists link s' = 1 := by
    cases hs'
    rw [lists, hrequests, List.countP_nil, Nat.zero_add] at hlists
    simp only [lists, hone]
    omega
  have hwaiting : waiting s' = waiting s := by
    cases hs'
    rw [waiting, waiting, hrequests]
    rfl
  have hcoming : coming link s' = coming link s := by
    cases hs'
    rw [coming, coming, hwaiting]
  cases hs'
  refine ⟨h.given, h.central, ⟨h.mine.opening, h.mine.closing, ?_, h.mine.updates⟩, ?_, h.sending, ?_,
    ?_, ?_⟩
  · intro r hr
    rw [List.mem_singleton.1 hr]
    exact ⟨.list, fun id hid => by cases hid⟩
  · rw [hwaiting]
    exact h.absent
  · rw [hwaiting]
    exact h.passing
  · rw [hcoming]
    exact h.known
  · refine ⟨hlists'.le, fun hready => ?_, fun _ g hg => ?_, fun hj => by cases hj⟩
    · rw [hproxy] at hready
      cases hready
    · rw [hproxy] at hg
      cases hg

theorem Inv.name {s : System J} (h : Inv L link s) {id : CStr} (hid : registryValidId id = true)
    (hfresh : id ∉ s.named.map Prod.fst) :
    Inv L link { s with named := s.named ++ [(id, some link)] } := by
  have hsub : ∀ p ∈ s.named, p ∈ s.named ++ [(id, some link)] := fun p hp => List.mem_append_left _ hp
  refine ⟨h.given.append (some link) hid hfresh,
    ⟨h.central.wellFormed, h.central.ids, fun y hy => ?_, ?_⟩,
    ⟨fun e he => ?_, fun e he => hsub _ (h.mine.closing e he), fun r hr => ?_, fun r hr => ?_⟩, h.absent,
    fun m hm t ht r hr => ?_, ?_, h.known.comes hsub fun r hr => .inl hr, ?_⟩
  · exact ids_subset hsub (h.central.given y hy)
  · obtain ⟨x, hx, hhub⟩ := h.central.hub
    exact ⟨x, hx, hsub _ hhub⟩
  · exact ⟨(h.mine.opening e he).1, hsub _ (h.mine.opening e he).2⟩
  · obtain ⟨hproper, hmine⟩ := h.mine.requests r hr
    exact ⟨hproper, fun id hid => hsub _ (hmine id hid)⟩
  · obtain ⟨id, a, rfl, hmem⟩ := h.mine.updates r hr
    exact ⟨id, a, rfl, hsub _ hmem⟩
  · obtain ⟨id, hid, hmem, hsame⟩ := h.sending m hm t ht r hr
    exact ⟨id, hid, hsub _ hmem, hsame⟩
  · exact h.passing.waits (fun id hid => ids_subset hsub hid) h.passing.once fun r hr => .inl hr
  · exact ⟨h.phase.one, h.phase.ready, h.phase.unready, h.phase.apart⟩

theorem Knows.insert {named : Names} {comes comes' : List Request} {known : Registry} {e : Entry}
    (h : Knows link named comes known) (haddr : e.addr ≠ none) (hgiven : e.id ∈ named.map Prod.fst)
    (hown : e.endpoint ≠ none → (e.id, some link) ∈ named) (hids : IdsUnique (known ++ [e]))
    (hother : ∀ r ∈ comes, r.subject ≠ some e.id)
    (hcomes : ∀ r ∈ comes', r = requestOf e ∨ r ∈ comes) : Knows link named comes' (known ++ [e]) := by
  have hnew : ¬ Holds known e.id := (idsUnique_append h.ids).1 hids
  refine ⟨hids, fun g hg => ?_,
    fun r hr g hg hid => ?_, fun g hg => ?_, fun g hg hend => ?_⟩
  · rcases List.mem_append.1 hg with hg | hg
    · exact h.addrs g hg
    · exact List.mem_singleton.1 hg ▸ haddr
  · rcases List.mem_append.1 hg with hg | hg
    · rcases hcomes r hr with rfl | hr
      · exact absurd ⟨g, hg, (Option.some.inj hid).symm⟩ hnew
      · exact h.agree r hr g hg hid
    · rw [List.mem_singleton.1 hg] at hid ⊢
      rcases hcomes r hr with rfl | hr
      · rfl
      · exact absurd hid (hother r hr)
  · rcases List.mem_append.1 hg with hg | hg
    · exact h.given g hg
    · exact List.mem_singleton.1 hg ▸ hgiven
  · rcases List.mem_append.1 hg with hg | hg
    · exact h.own g hg hend
    · rw [List.mem_singleton.1 hg] at hend ⊢
      exact hown hend

theorem Inv.inserted {s : System J} (h : Inv L link s) {e : Entry} (he : e.WellFormed)
    (hfresh : e.id ∉ s.named.map Prod.fst) (hready : s.proxy.status = .ready) :
    Inv L link { s with
      proxy := { s.proxy with registry := s.proxy.registry ++ [e] }
      opening := s.opening ++ [e]
      named := s.named ++ [(e.id, some link)] } := by
  have hjoined := h.joined (.inr (.inr (.inr (.inr (.inr hready)))))
  have hname := h.name he.id hfresh
  have hnamed : (e.id, some link) ∈ s.named ++ [(e.id, some link)] :=
    List.mem_append_right _ List.mem_cons_self
  have hnew : ¬ Holds s.proxy.registry e.id := by
    rintro ⟨g, hg, hid⟩
    exact hfresh (hid ▸ h.known.given g hg)
  -- the registration stands between those of the other entries and the requests
  have hperm : (s.opening.map requestOf ++ [requestOf e] ++
      s.requests.filter fun r => (creates r).isSome).Perm (requestOf e :: waiting s) := by
    rw [waiting, List.append_assoc]
    exact List.perm_middle
  have hopening : (s.opening ++ [e]).map requestOf = s.opening.map requestOf ++ [requestOf e] := by
    rw [List.map_append]
    rfl
  have hwaiting : ∀ r ∈ s.opening.map requestOf ++ [requestOf e] ++
      s.requests.filter (fun r => (creates r).isSome), r = requestOf e ∨ r ∈ waiting s := fun r hr =>
    List.mem_cons.1 (hperm.mem_iff.1 hr)
  refine ⟨hname.given, hname.central, ⟨?_, hname.mine.closing, hname.mine.requests, hname.mine.updates⟩,
    ?_, hname.sending, ?_, ?_, ?_⟩
  · intro f hf
    rcases List.mem_append.1 hf with hf | hf
    · exact hname.mine.opening f hf
    · rw [List.mem_singleton.1 hf]
      exact ⟨he, hnamed⟩
  · simp only [waiting, hopening]
    intro r hr x hx hid
    rcases hwaiting r hr with rfl | hr
    · exact hfresh (Option.some.inj hid ▸ h.central.given x hx)
    · exact h.absent r hr x hx hid
  · simp only [waiting, hopening]
    refine hname.passing.waits (fun id hid => hid) ?_ fun r hr => ?_
    · have honce := h.new_once hfresh
      exact (((hperm.append_right _).append_right _).map Request.subject).nodup_iff.2 honce
    · rcases hwaiting r hr with rfl | hr
      · exact .inr fun t ht => h.passing.spares_new hfresh rfl ht
      · exact .inl hr
  · refine hname.known.insert he.addr (mem_ids hnamed) (fun _ => hnamed)
      ((idsUnique_append h.known.ids).2 hnew)
      (fun r hr => h.not_coming hfresh hr) fun r hr => ?_
    simp only [coming, waiting, hopening] at hr
    rcases List.mem_append.1 hr with hr | hr
    · rcases List.mem_append.1 hr with hr | hr
      · exact (hwaiting r hr).imp_right fun hr => List.mem_append_left _ (List.mem_append_left _ hr)
      · exact .inr (List.mem_append_left _ (List.mem_append_right _ hr))
    · exact .inr (List.mem_append_right _ hr)
  · refine ⟨hname.phase.one, hname.phase.ready, fun hne => absurd (hname.phase.ready hready) hne,
      fun hj => ?_⟩
    cases hjoined.symm.trans hj

theorem Inv.insert {s s' : System J} (h : Inv L link s) {name topic : CStr} {type : EntryType}
    {created : Creation} (henabled : Enabled link s (.insert name topic type created))
    (hs' : next L link s (.insert name topic type created) = some s') : Inv L link s' := by
  obtain ⟨hready, hid, hfresh⟩ := henabled
  rcases insertEntry_cases s.proxy name topic type created with hnone | ⟨hname, htopic, hinsert⟩
  · simp only [next, hnone, Option.toList_none, List.append_nil] at hs'
    cases hs'
    exact h.name hid hfresh
  · simp only [next, hinsert, Option.toList_some] at hs'
    cases hs'
    exact h.inserted ⟨⟨hid, hname, htopic⟩, Option.some_ne_none _⟩ hfresh hready

/-! ## Receiving -/

theorem Knows.readdressed {named : Names} {comes : List Request} {known known' : Registry}
    {tries : List (Entry × Outcome)} (h : Knows link named comes known)
    (hread : Readdressed tries known known')
    (hapart : ∀ f a, (f, some (some a)) ∈ tries → f.addr ≠ some a → ∀ r ∈ comes, r.subject ≠ some f.id) :
    Knows link named comes known' := by
  refine ⟨?_, hread.addrs h.addrs, fun r hr g hg hid => ?_, fun g hg => ?_, fun g hg hend => ?_⟩
  · rw [IdsUnique, hread.ids]
    exact h.ids
  · rcases hread.mem g hg with hg | ⟨f, hf, a, hp, rfl⟩
    · exact h.agree r hr g hg hid
    · by_cases haddr : f.addr = some a
      · have hsame : setAddr (some a) f = f := by
          rw [← haddr]
          rfl
        rw [hsame]
        exact h.agree r hr f hf hid
      · exact absurd hid (hapart f a hp haddr r hr)
  · rcases hread.mem g hg with hg | ⟨f, hf, a, -, rfl⟩
    · exact h.given g hg
    · exact h.given f hf
  · rcases hread.mem g hg with hg | ⟨f, hf, a, -, rfl⟩
    · exact h.own g hg hend
    · exact h.own f hf hend

theorem Knows.update {named : Names} {comes : List Request} {known : Registry} {id : CStr} {a : Addr}
    (h : Knows link named comes known) (hspares : ∀ r ∈ comes, r.subject ≠ some id) :
    Knows link named comes (updateFirst (fun e => e.id = id) (setAddr (some a)) known) := by
  have hread : Readdressed ((known.filter fun f => f.id = id).map fun f => (f, some (some a))) known
      (updateFirst (fun e => e.id = id) (setAddr (some a)) known) := by
    refine ⟨map_updateFirst_eq (f := setAddr (some a)) Entry.id (fun _ => rfl) known, fun g hg => ?_⟩
    rcases mem_updateFirst hg with hg | ⟨f, hf, hid, rfl⟩
    · exact .inl hg
    · exact .inr ⟨f, hf, a, List.mem_map_of_mem (List.mem_filter.2 ⟨hf, hid⟩), rfl⟩
  refine h.readdressed hread fun f b hp _ => ?_
  obtain ⟨g, hg, heq⟩ := List.mem_map.1 hp
  obtain rfl : g = f := congrArg Prod.fst heq
  rw [of_decide_eq_true (List.mem_filter.1 hg).2]
  exact hspares

theorem Knows.add {named : Names} {comes : List Request} {known r known' : Registry} {e : Entry}
    {tries : List (Entry × Outcome)} (h : Knows link named comes known) (haddr : e.addr ≠ none)
    (hend : e.endpoint = none) (hgiven : e.id ∈ named.map Prod.fst)
    (hother : ∀ r ∈ comes, r.subject ≠ some e.id) (hr : r = known ∨ r = known ++ [e]) (hids : IdsUnique r)
    (hread : Readdressed tries r known')
    (hapart : ∀ f a, (f, some (some a)) ∈ tries → f.addr ≠ some a → ∀ r ∈ comes, r.subject ≠ some f.id) :
    Knows link named comes known' := by
  rcases hr with rfl | rfl
  · exact h.readdressed hread hapart
  · have hinsert := h.insert haddr hgiven (fun hne => absurd hend hne) hids hother fun r hr => .inr hr
    exact hinsert.readdressed hread hapart

section Receive
variable {s : System J} {t : Text J} {queue : List (Text J)} {proxy : Proxy} {updates : Sent}

/-- What is coming after a text is read was coming before it, and the text spares it. -/
theorem Inv.rest (h : Inv L link s) (hqueue : s.queue = t :: queue) :
    Passing L s.named (waiting s) (pendingTexts link s.handlers) queue ∧
      ∀ r ∈ coming link { s with queue := queue }, r ∈ coming link s ∧ TextSpares L r t ∧
        ∀ r', announced t = some r' → r.subject ≠ r'.subject := by
  have hpassing := h.passing
  rw [hqueue] at hpassing
  have hmem : ∀ t' ∈ pendingTexts link s.handlers ++ queue,
      t' ∈ pendingTexts link s.handlers ++ t :: queue := by
    intro t' ht'
    simp only [List.mem_append, List.mem_cons] at ht' ⊢
    tauto
  obtain ⟨hfirst, hordered⟩ := List.pairwise_cons.1 hpassing.ordered
  have hsub : (queue.filterMap announced).Sublist ((t :: queue).filterMap announced) :=
    (List.sublist_cons_self t queue).filterMap announced
  refine ⟨⟨fun t' ht' => hpassing.meant t' (hmem t' ht'), fun t' ht' => hpassing.given t' (hmem t' ht'),
    hpassing.once.sublist ((hsub.append_left _).map _),
    fun r hr t' ht' => hpassing.spared r hr t' (hmem t' ht'), hordered⟩, fun r hr => ⟨?_, ?_, fun r' hr' => ?_⟩⟩
  · rw [coming, hqueue]
    exact (hsub.append_left _).subset hr
  · rcases List.mem_append.1 hr with hr | hr
    · exact hpassing.spared r hr t (List.mem_append_right _ List.mem_cons_self)
    · obtain ⟨t', ht', htr⟩ := List.mem_filterMap.1 hr
      exact hfirst t' ht' r htr
  · have honce := hpassing.once
    rw [List.filterMap_cons_some hr', (List.perm_middle.map Request.subject).nodup_iff, List.map_cons,
      List.nodup_cons] at honce
    exact fun heq => honce.1 (heq ▸ List.mem_map_of_mem hr)

theorem Inv.received (h : Inv L link s) (hqueue : s.queue = t :: queue)
    (hupdates : ∀ r ∈ updates, ∃ id a, r = .updateAddress id (addrString (some a)) ∧
      (id, some link) ∈ s.named)
    (hknown : Knows link s.named (coming link { s with queue := queue }) proxy.registry)
    (hstatus : proxy.status = s.proxy.status ∨ isList t = true)
    (hends : (∀ g ∈ s.proxy.registry, g.endpoint = none) → ∀ g ∈ proxy.registry, g.endpoint = none) :
    Inv L link { s with queue := queue, proxy := proxy, updates := updates } := by
  have hjoined := h.joined (.inr (.inr (.inr (.inl (hqueue ▸ List.cons_ne_nil t queue)))))
  have hone := h.phase.one
  have hlists : lists link s = lists link { s with queue := queue, proxy := proxy, updates := updates } +
      if isList t then 1 else 0 := by
    rw [lists, hqueue, List.countP_cons, ← Nat.add_assoc]
    rfl
  refine ⟨h.given, h.central, ⟨h.mine.opening, h.mine.closing, h.mine.requests, hupdates⟩, h.absent,
    h.sending, (h.rest hqueue).1, hknown, ⟨?_, fun hready => ?_, fun hne => ?_, fun hj => ?_⟩⟩
  · omega
  · rcases hstatus with hsame | hlist
    · have hnone := h.phase.ready (hsame ▸ hready)
      omega
    · rw [if_pos hlist] at hlists
      omega
  · exact hends (h.phase.unready (by omega))
  · cases hjoined.symm.trans hj

variable {denote : Value → J} (hL : L.Lawful denote) {s' : System J}
include hL

theorem Inv.deliver {outcomes : List Outcome} (h : Inv L link s)
    (henabled : Enabled link s (.deliver outcomes)) (hsafe : Safe L link s (.deliver outcomes))
    (hs' : next L link s (.deliver outcomes) = some s') : Inv L link s' := by
  obtain ⟨hne, hnone, hout⟩ := henabled
  obtain ⟨t, queue, hqueue⟩ := List.exists_cons_of_ne_nil hne
  obtain ⟨hpassing, hrest⟩ := h.rest hqueue
  have ht : t ∈ pendingTexts link s.handlers ++ s.queue :=
    List.mem_append_right _ (hqueue ▸ List.mem_cons_self)
  simp only [next, hqueue] at hs'
  obtain ⟨⟨proxy', es⟩, hread, rfl⟩ := Option.map_eq_some_iff.1 hs'
  rcases h.passing.meant t ht with hsilent | ⟨ev, htells⟩
  · rw [hsilent.onmessage hL] at hread
    cases hread
    exact h.received hqueue (by simp [requestsOf])
      (h.known.sublist (fun r hr => (hrest r hr).1) (List.Sublist.refl _)) (.inl rfl) id
  have hfits := hsafe t (by simp [hqueue]) ev (htells.carries hL)
  rw [onmessage_of_carries (htells.carries hL)] at hread
  have hgiven := h.passing.given t ht ev htells
  have hknown : Knows link s.named (coming link { s with queue := queue }) s.proxy.registry :=
    h.known.sublist (fun r hr => (hrest r hr).1) (List.Sublist.refl _)
  cases htells with
  | @add e he =>
    have hremote : e.remote.addr ≠ none := he.addr
    have hcoming : requestOf e.remote ∈ coming link s :=
      List.mem_append_right _ (List.mem_filterMap.2 ⟨_, hqueue ▸ List.mem_cons_self, rfl⟩)
    have hsame : ∀ g ∈ s.proxy.registry, g.id = e.remote.id → g.key = e.remote.key := fun g hg hid =>
      key_of_requestOf (h.known.addrs g hg) hremote
        (h.known.agree _ hcoming g hg (congrArg some hid.symm))
    obtain ⟨hstatus, hfrom, r, hr, hids, hreaddressed⟩ :=
      handleAdd_readdressed h.known.ids h.known.addrs hout hremote rfl hsame hread
    refine h.received hqueue (fun r hr => ?_) (hknown.add hremote rfl (hgiven _ List.mem_cons_self)
      (fun r hr => (hrest r hr).2.2 _ rfl) hr hids hreaddressed fun f a hp haddr r hr hid => ?_)
      (.inl hstatus) fun hend g hg => ?_
    · obtain ⟨g, hg, hlocal, a, rfl⟩ := hfrom r hr
      exact ⟨g.id, a, rfl, h.known.own g hg hlocal⟩
    · exact hfits f a hp haddr ⟨r, (hrest r hr).1, hid⟩
    · have hend' : ∀ g ∈ r, g.endpoint = none := by
        rcases hr with rfl | rfl
        · exact hend
        · intro g hg
          rcases List.mem_append.1 hg with hg | hg
          · exact hend g hg
          · exact List.mem_singleton.1 hg ▸ rfl
      rcases hreaddressed.mem g hg with hg | ⟨f, hf, a, -, rfl⟩
      · exact hend' g hg
      · exact hend' f hf
  | @remove id hid =>
    obtain ⟨hstatus, hquiet, hregistry⟩ := handleRemove_erases hread
    have hsub : proxy'.registry.Sublist s.proxy.registry := by
      rcases hregistry with heq | heq
      · rw [heq]
      · rw [heq]
        exact List.eraseP_sublist
    exact h.received hqueue (by simp [hquiet]) (hknown.sublist (fun r hr => hr) hsub) (.inl hstatus)
      fun hend g hg => hend g (hsub.subset hg)
  | @updateAddress id a hid =>
    obtain ⟨⟨registry, code⟩, hupdate, heq⟩ := Option.map_eq_some_iff.1 hread
    cases heq
    by_cases hheld : ∃ g ∈ s.proxy.registry, g.id = id
    · rw [registryUpdateAddr_known hheld, addrParse_addrString] at hupdate
      cases hupdate
      refine h.received hqueue (by simp [requestsOf])
        (hknown.update fun r hr => (hrest r hr).2.1 _ (.updateAddress a hid)) (.inl rfl)
        fun hend g hg => ?_
      rcases mem_updateFirst hg with hg | ⟨f, hf, -, rfl⟩
      · exact hend g hg
      · exact hend f hf
    · rw [registryUpdateAddr_unknown hheld] at hupdate
      cases hupdate
      exact h.received hqueue (by simp [requestsOf]) hknown (.inl rfl) fun hend => hend
  | @list r list hwf hids hne hlist =>
    have hend : ∀ g ∈ s.proxy.registry, g.endpoint = none := by
      refine h.phase.unready ?_
      rw [lists, hqueue, List.countP_cons_of_pos rfl]
      omega
    have hlisten : Listening s.proxy.registry := fun g hg => ⟨hend g hg, h.known.addrs g hg⟩
    have hlisted : Listening (r.map Entry.remote) := by
      intro g hg
      obtain ⟨e, he, rfl⟩ := List.mem_map.1 hg
      exact ⟨rfl, (hwf e he).addr⟩
    have hlistedIds : IdsUnique (r.map Entry.remote) := by
      rw [IdsUnique, List.map_map]
      exact hids
    obtain ⟨hquiet, hids', hmem⟩ :=
      handleList_ids hlisten h.known.ids hlisted hlistedIds hfits hread
    refine h.received hqueue (by simp [hquiet]) ⟨hids', fun g hg => ?_, fun r hr g hg hid => ?_,
      fun g hg => ?_, fun g hg hlocal => ?_⟩ (.inr rfl) fun _ g hg => ?_
    · exact (hmem g hg).elim (fun hg => (hlisten g hg).2) fun hg => (hlisted g hg).2
    · rcases hmem g hg with hg | hg
      · exact hknown.agree r hr g hg hid
      · exact (hrest r hr).2.1 _ (.list hwf hids hne hlist) g hg hid
    · exact (hmem g hg).elim (h.known.given g) fun hg => hgiven _ (List.mem_map_of_mem hg)
    · exact absurd ((hmem g hg).elim (hend g) fun hg => (hlisted g hg).1) hlocal
    · exact (hmem g hg).elim (hend g) fun hg => (hlisted g hg).1

end Receive

end Rcom.ProxyRuns
