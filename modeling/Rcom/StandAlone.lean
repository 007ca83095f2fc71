import Rcom.Endpoints

/-!
# A stand-alone node

Without a registry no request is sent and no event comes back, so the connections are those
that the opening functions make.
-/

namespace Rcom
open Rcom.Lib Rcom.RegistryEntry Rcom.Registry Rcom.Proxy Rcom.Node

namespace StandAlone

inductive Kind where
  | datahub
  | datalink
  deriving DecidableEq

def Kind.type : Kind → EntryType
  | .datahub => .datahub
  | .datalink => .datalink

/-- A call of `registry_open_datahub` or `registry_open_datalink`. -/
structure Open where
  kind : Kind
  name : CStr
  topic : CStr
  created : Option Creation

def Open.live (o : Open) : Option Creation :=
  if registryValidName o.name && registryValidTopic o.topic then o.created else none

def openOne (node : Node) (o : Open) : Exec Node :=
  match o.kind with
  | .datahub => (proxyOpenDatahub true true node o.name o.topic o.created).map Prod.fst
  | .datalink => (proxyOpenDatalink true true node o.name o.topic o.created).map Prod.fst

def openAll : Node → List Open → Exec Node
  | node, [] => some node
  | node, o :: os => (openOne node o).bind fun node => openAll node os

/-! ## What a call connects -/

/-- The address is that of an endpoint of the kind, opened on the topic of `o` before it. -/
def Earlier (done : List Open) (kind : Kind) (o : Open) (addr : Addr) : Prop :=
  ∃ o' c, List.Sublist [o', o] done ∧ o'.kind = kind ∧ o'.topic = o.topic ∧ o'.live = some c ∧
    c.addr = addr

theorem Earlier.append {done : List Open} {kind : Kind} {o : Open} {addr : Addr}
    (h : Earlier done kind o addr) (o₁ : Open) : Earlier (done ++ [o₁]) kind o addr := by
  obtain ⟨o', c, hsub, hrest⟩ := h
  exact ⟨o', c, List.sublist_append_of_sublist_left hsub, hrest⟩

/-- The endpoints after some calls, each connected to what was there before it at most. -/
structure Opened (done : List Open) (node : Node) : Prop where
  entries : ∀ e ∈ node.proxy.registry, ∃ o ∈ done, ∃ c, o.live = some c ∧
    e = entryOf o.name o.topic o.kind.type c
  hub : ∀ o ∈ done, o.kind = .datahub → ∀ c, o.live = some c →
    ∃ links, node.datahubs c.endpoint = some links ∧ ∀ a ∈ links, Earlier done .datalink o a
  link : ∀ o ∈ done, o.kind = .datalink → ∀ c, o.live = some c →
    ∃ l, node.datalinks c.endpoint = some l ∧
      ∀ a, l.remoteAddr = some a → Earlier done .datahub o a
  hubs : ∀ h links, node.datahubs h = some links → ∃ o ∈ done, o.kind = .datahub ∧
    ∃ c, o.live = some c ∧ c.endpoint = h
  links : ∀ l link, node.datalinks l = some link → ∃ o ∈ done, o.kind = .datalink ∧
    ∃ c, o.live = some c ∧ c.endpoint = l

theorem opened_nil : Opened [] newNode := by
  constructor <;> simp [newNode, newProxy, newRegistry]

theorem openOne_dead {node : Node} {o : Open} (h : o.live = none) : openOne node o = some node := by
  have hcall : ∀ type, o.created = none ∨
      ∀ created, proxyNewEntry true true node.proxy o.name o.topic type created = (node.proxy, none) := by
    intro type
    unfold Open.live at h
    split_ifs at h with hvalid
    · exact .inl h
    · exact .inr fun created => proxyNewEntry_invalid (Bool.eq_false_of_not_eq_true hvalid)
  unfold openOne
  cases o.kind with
  | datahub =>
    cases hcreated : o.created with
    | none => rfl
    | some created =>
      have hnone := (hcall .datahub).resolve_left (by simp [hcreated]) created
      simp [proxyOpenDatahub, hnone]
  | datalink =>
    cases hcreated : o.created with
    | none => rfl
    | some created =>
      have hnone := (hcall .datalink).resolve_left (by simp [hcreated]) created
      simp [proxyOpenDatalink, hnone]

theorem live_valid {o : Open} {c : Creation} (h : o.live = some c) :
    registryValidName o.name = true ∧ registryValidTopic o.topic = true ∧ o.created = some c := by
  unfold Open.live at h
  split_ifs at h with hvalid
  rw [Bool.and_eq_true] at hvalid
  exact ⟨hvalid.1, hvalid.2, h⟩

/-- The copies that a call gets of the entries of the other kind: the new entry is of the
call's own kind. -/
theorem select_others {registry : Registry} (haddr : ∀ e ∈ registry, e.addr ≠ none) {entry : Entry}
    {type : EntryType} (htype : entry.type ≠ type) (topic : CStr) :
    registrySelect (registry ++ [entry]) (ofTopic topic type) =
      some ((registry.filter (onTopic topic type)).reverse.map some) := by
  have hentry : onTopic topic type entry = false := by simp [onTopic, htype]
  rw [select_onTopic, List.filter_append, List.filter_cons_of_neg (by simp [hentry]), List.filter_nil,
    List.append_nil, map_cloneEntry fun e he => haddr e (List.mem_of_mem_filter he), List.map_reverse]

theorem openOne_datahub {node : Node} {o : Open} {c : Creation} (hkind : o.kind = .datahub)
    (hlive : o.live = some c) (haddr : ∀ e ∈ node.proxy.registry, e.addr ≠ none) :
    ∃ links, openOne node o = some { node with
        proxy := { node.proxy with
          registry := node.proxy.registry ++ [entryOf o.name o.topic .datahub c] }
        datahubs := Function.update node.datahubs c.endpoint (some links) } ∧
      ∀ a ∈ links, ∃ e ∈ node.proxy.registry, onTopic o.topic .datalink e ∧ e.addr = some a := by
  obtain ⟨hname, htopic, hcreated⟩ := live_valid hlive
  have hentry : (entryOf o.name o.topic .datahub c).type ≠ .datalink := by simp [entryOf]
  have hselect := select_others haddr hentry o.topic
  have hfiltered : ∀ e ∈ (node.proxy.registry.filter (onTopic o.topic .datalink)).reverse,
      e.addr ≠ none := fun e he => haddr e (List.mem_of_mem_filter (List.mem_reverse.1 he))
  obtain ⟨links, hlinks⟩ := Option.isSome_iff_exists.1 (addLinks_isSome hfiltered [])
  refine ⟨links, ?_, fun a ha => ?_⟩
  · rw [openOne, hkind, hcreated]
    simp only [proxyOpenDatahub, proxyNewEntry_standalone hname htopic]
    rw [show (entryOf o.name o.topic .datahub c).topic = o.topic from rfl, hselect, Option.bind_some,
      hlinks]
    rfl
  · obtain h | ⟨e, he, hea⟩ := (((addLinks_some hlinks).2 a).1 ha)
    · simp at h
    · obtain ⟨f, hf, rfl⟩ : ∃ f ∈ (node.proxy.registry.filter (onTopic o.topic .datalink)).reverse,
          f = e := by simpa using he
      obtain ⟨hmem, hon⟩ := List.mem_filter.1 (List.mem_reverse.1 hf)
      exact ⟨f, hmem, hon, hea⟩

theorem openOne_datalink {node : Node} {o : Open} {c : Creation} (hkind : o.kind = .datalink)
    (hlive : o.live = some c) (haddr : ∀ e ∈ node.proxy.registry, e.addr ≠ none) :
    ∃ remoteAddr, openOne node o = some { node with
        proxy := { node.proxy with
          registry := node.proxy.registry ++ [entryOf o.name o.topic .datalink c] }
        datalinks := Function.update node.datalinks c.endpoint (some ⟨c.addr, remoteAddr⟩) } ∧
      ∀ a, remoteAddr = some a →
        ∃ e ∈ node.proxy.registry, onTopic o.topic .datahub e ∧ e.addr = some a := by
  obtain ⟨hname, htopic, hcreated⟩ := live_valid hlive
  have hentry : (entryOf o.name o.topic .datalink c).type ≠ .datahub := by simp [entryOf]
  have hselect := select_others haddr hentry o.topic
  have hopen : openOne node o =
      (proxyOpenDatalink true true node o.name o.topic (some c)).map Prod.fst := by
    rw [openOne, hkind, hcreated]
  rw [hopen]
  simp only [proxyOpenDatalink, proxyNewEntry_standalone hname htopic]
  rw [show (entryOf o.name o.topic .datalink c).topic = o.topic from rfl, hselect]
  cases hl : (node.proxy.registry.filter (onTopic o.topic .datahub)).reverse with
  | nil => exact ⟨none, rfl, by simp⟩
  | cons e l =>
    refine ⟨e.addr, rfl, fun a ha => ?_⟩
    have he : e ∈ (node.proxy.registry.filter (onTopic o.topic .datahub)).reverse :=
      hl ▸ List.mem_cons_self
    obtain ⟨hmem, hon⟩ := List.mem_filter.1 (List.mem_reverse.1 he)
    exact ⟨e, hmem, hon, ha⟩

theorem Opened.addrs {done : List Open} {node : Node} (h : Opened done node) :
    ∀ e ∈ node.proxy.registry, e.addr ≠ none := by
  intro e he
  obtain ⟨o, _, c, _, rfl⟩ := h.entries e he
  exact Option.some_ne_none _

theorem Opened.earlier {done : List Open} {node : Node} (h : Opened done node) {e : Entry}
    (he : e ∈ node.proxy.registry) {kind : Kind} {o : Open} (hon : onTopic o.topic kind.type e)
    {a : Addr} (ha : e.addr = some a) : Earlier (done ++ [o]) kind o a := by
  obtain ⟨o', ho', c, hlive, rfl⟩ := h.entries e he
  obtain ⟨htype, htopic⟩ := onTopic_iff.1 hon
  have hkind : o'.kind = kind := by
    change o'.kind.type = kind.type at htype
    revert htype
    cases o'.kind <;> cases kind <;> simp [Kind.type]
  exact ⟨o', c, List.Sublist.append (List.singleton_sublist.2 ho') (List.Sublist.refl [o]), hkind,
    htopic, hlive, Option.some.inj ha⟩

theorem Opened.dead {done : List Open} {node : Node} (h : Opened done node) {o : Open}
    (hlive : o.live = none) : Opened (done ++ [o]) node := by
  have hold : ∀ o₁ ∈ done ++ [o], ∀ c, o₁.live = some c → o₁ ∈ done := by
    intro o₁ ho₁ c hc
    rcases List.mem_append.1 ho₁ with ho₁ | ho₁
    · exact ho₁
    · rw [List.mem_singleton.1 ho₁, hlive] at hc
      exact absurd hc (by simp)
  have hmem : ∀ o₁ ∈ done, o₁ ∈ done ++ [o] := fun o₁ ho₁ => List.mem_append_left _ ho₁
  constructor
  · intro e he
    obtain ⟨o₁, ho₁, hrest⟩ := h.entries e he
    exact ⟨o₁, hmem o₁ ho₁, hrest⟩
  · intro o₁ ho₁ hk c hc
    obtain ⟨links, hlinks, hearlier⟩ := h.hub o₁ (hold o₁ ho₁ c hc) hk c hc
    exact ⟨links, hlinks, fun a ha => (hearlier a ha).append o⟩
  · intro o₁ ho₁ hk c hc
    obtain ⟨l, hl, hearlier⟩ := h.link o₁ (hold o₁ ho₁ c hc) hk c hc
    exact ⟨l, hl, fun a ha => (hearlier a ha).append o⟩
  · intro hub links hlinks
    obtain ⟨o₁, ho₁, hrest⟩ := h.hubs hub links hlinks
    exact ⟨o₁, hmem o₁ ho₁, hrest⟩
  · intro l link hlink
    obtain ⟨o₁, ho₁, hrest⟩ := h.links l link hlink
    exact ⟨o₁, hmem o₁ ho₁, hrest⟩

theorem Opened.entries_append {done : List Open} {node : Node} (h : Opened done node) {o : Open}
    {c : Creation} (hlive : o.live = some c) :
    ∀ e ∈ node.proxy.registry ++ [entryOf o.name o.topic o.kind.type c], ∃ o₁ ∈ done ++ [o],
      ∃ c₁, o₁.live = some c₁ ∧ e = entryOf o₁.name o₁.topic o₁.kind.type c₁ := by
  intro e he
  rcases List.mem_append.1 he with he | he
  · obtain ⟨o₁, ho₁, hrest⟩ := h.entries e he
    exact ⟨o₁, List.mem_append_left _ ho₁, hrest⟩
  · exact ⟨o, List.mem_append_right _ List.mem_cons_self, c, hlive, List.mem_singleton.1 he⟩

theorem earlier_or_new {done : List Open} {o o₁ : Open} {c c₁ : Creation} (hlive : o.live = some c)
    (hnew : ∀ o₁ ∈ done, ∀ c₁, o₁.live = some c₁ → c₁.endpoint ≠ c.endpoint)
    (ho₁ : o₁ ∈ done ++ [o]) (hc₁ : o₁.live = some c₁) :
    (o₁ ∈ done ∧ c₁.endpoint ≠ c.endpoint) ∨ (o₁ = o ∧ c₁ = c) := by
  rcases List.mem_append.1 ho₁ with ho₁ | ho₁
  · exact .inl ⟨ho₁, hnew o₁ ho₁ c₁ hc₁⟩
  · obtain rfl := List.mem_singleton.1 ho₁
    exact .inr ⟨rfl, Option.some.inj (hc₁.symm.trans hlive)⟩

theorem Opened.datahub {done : List Open} {node : Node} (h : Opened done node) {o : Open}
    {c : Creation} (hkind : o.kind = .datahub) (hlive : o.live = some c)
    (hnew : ∀ o₁ ∈ done, ∀ c₁, o₁.live = some c₁ → c₁.endpoint ≠ c.endpoint) :
    ∃ node', openOne node o = some node' ∧ Opened (done ++ [o]) node' := by
  obtain ⟨links, hopen, hmem⟩ := openOne_datahub hkind hlive h.addrs
  refine ⟨_, hopen, ?_⟩
  constructor
  · have hentries := h.entries_append hlive
    rw [hkind] at hentries
    exact hentries
  · intro o₁ ho₁ hk c₁ hc₁
    rcases earlier_or_new hlive hnew ho₁ hc₁ with ⟨hdone, hne⟩ | ⟨rfl, rfl⟩
    · obtain ⟨links₁, hlinks₁, hearlier⟩ := h.hub o₁ hdone hk c₁ hc₁
      refine ⟨links₁, ?_, fun a ha => (hearlier a ha).append o⟩
      rw [← hlinks₁]
      exact Function.update_of_ne hne _ _
    · refine ⟨links, Function.update_self _ _ _, fun a ha => ?_⟩
      obtain ⟨e, he, hon, hea⟩ := hmem a ha
      exact h.earlier he hon hea
  · intro o₁ ho₁ hk c₁ hc₁
    rcases earlier_or_new hlive hnew ho₁ hc₁ with ⟨hdone, _⟩ | ⟨rfl, rfl⟩
    · obtain ⟨l, hl, hearlier⟩ := h.link o₁ hdone hk c₁ hc₁
      exact ⟨l, hl, fun a ha => (hearlier a ha).append o⟩
    · rw [hkind] at hk
      exact absurd hk (by simp)
  · intro hub links₁ hlinks₁
    by_cases hhub : hub = c.endpoint
    · exact ⟨o, List.mem_append_right _ List.mem_cons_self, hkind, c, hlive, hhub.symm⟩
    · obtain ⟨o₁, ho₁, hrest⟩ := h.hubs hub links₁
        ((Function.update_of_ne hhub _ _).symm.trans hlinks₁)
      exact ⟨o₁, List.mem_append_left _ ho₁, hrest⟩
  · intro l link hlink
    obtain ⟨o₁, ho₁, hrest⟩ := h.links l link hlink
    exact ⟨o₁, List.mem_append_left _ ho₁, hrest⟩

theorem Opened.datalink {done : List Open} {node : Node} (h : Opened done node) {o : Open}
    {c : Creation} (hkind : o.kind = .datalink) (hlive : o.live = some c)
    (hnew : ∀ o₁ ∈ done, ∀ c₁, o₁.live = some c₁ → c₁.endpoint ≠ c.endpoint) :
    ∃ node', openOne node o = some node' ∧ Opened (done ++ [o]) node' := by
  obtain ⟨remoteAddr, hopen, hmem⟩ := openOne_datalink hkind hlive h.addrs
  refine ⟨_, hopen, ?_⟩
  constructor
  · have hentries := h.entries_append hlive
    rw [hkind] at hentries
    exact hentries
  · intro o₁ ho₁ hk c₁ hc₁
    rcases earlier_or_new hlive hnew ho₁ hc₁ with ⟨hdone, _⟩ | ⟨rfl, rfl⟩
    · obtain ⟨links, hlinks, hearlier⟩ := h.hub o₁ hdone hk c₁ hc₁
      exact ⟨links, hlinks, fun a ha => (hearlier a ha).append o⟩
    · rw [hkind] at hk
      exact absurd hk (by simp)
  · intro o₁ ho₁ hk c₁ hc₁
    rcases earlier_or_new hlive hnew ho₁ hc₁ with ⟨hdone, hne⟩ | ⟨rfl, rfl⟩
    · obtain ⟨l, hl, hearlier⟩ := h.link o₁ hdone hk c₁ hc₁
      refine ⟨l, ?_, fun a ha => (hearlier a ha).append o⟩
      rw [← hl]
      exact Function.update_of_ne hne _ _
    · refine ⟨_, Function.update_self _ _ _, fun a ha => ?_⟩
      obtain ⟨e, he, hon, hea⟩ := hmem a ha
      exact h.earlier he hon hea
  · intro hub links hlinks
    obtain ⟨o₁, ho₁, hrest⟩ := h.hubs hub links hlinks
    exact ⟨o₁, List.mem_append_left _ ho₁, hrest⟩
  · intro l link hlink
    by_cases hl : l = c.endpoint
    · exact ⟨o, List.mem_append_right _ List.mem_cons_self, hkind, c, hlive, hl.symm⟩
    · obtain ⟨o₁, ho₁, hrest⟩ := h.links l link
        ((Function.update_of_ne hl _ _).symm.trans hlink)
      exact ⟨o₁, List.mem_append_left _ ho₁, hrest⟩

/-- The pointers and the socket addresses of the endpoints that the calls return. They live
at the same time, so no two are the same. -/
structure Distinct (opens : List Open) : Prop where
  endpoints : ((opens.filterMap Open.live).map Creation.endpoint).Nodup
  addrs : ((opens.filterMap Open.live).map Creation.addr).Nodup

theorem Distinct.perm {opens opens' : List Open} (h : Distinct opens) (hperm : opens'.Perm opens) :
    Distinct opens' := by
  constructor
  · exact ((hperm.filterMap Open.live).map Creation.endpoint).nodup_iff.2 h.endpoints
  · exact ((hperm.filterMap Open.live).map Creation.addr).nodup_iff.2 h.addrs

theorem Distinct.new {done rest : List Open} {o : Open} (h : Distinct (done ++ o :: rest))
    {c : Creation} (hc : o.live = some c) {o₁ : Open} (ho₁ : o₁ ∈ done) {c₁ : Creation}
    (hc₁ : o₁.live = some c₁) : c₁.endpoint ≠ c.endpoint := by
  have hnodup := h.endpoints
  rw [List.filterMap_append, List.map_append, List.nodup_append] at hnodup
  refine hnodup.2.2 _ (List.mem_map_of_mem (List.mem_filterMap.2 ⟨o₁, ho₁, hc₁⟩)) _
    (List.mem_map_of_mem (List.mem_filterMap.2 ⟨o, List.mem_cons_self, hc⟩))

theorem openAll_opened {done rest : List Open} {node : Node} (h : Opened done node)
    (hdistinct : Distinct (done ++ rest)) :
    ∃ node', openAll node rest = some node' ∧ Opened (done ++ rest) node' := by
  induction rest generalizing done node with
  | nil => exact ⟨node, rfl, by simpa using h⟩
  | cons o rest ih =>
    have hstep : ∃ node', openOne node o = some node' ∧ Opened (done ++ [o]) node' := by
      cases hlive : o.live with
      | none => exact ⟨node, openOne_dead hlive, h.dead hlive⟩
      | some c =>
        have hnew := fun o₁ ho₁ c₁ hc₁ => @Distinct.new _ _ _ hdistinct c hlive o₁ ho₁ c₁ hc₁
        cases hkind : o.kind with
        | datahub => exact h.datahub hkind hlive hnew
        | datalink => exact h.datalink hkind hlive hnew
    obtain ⟨node₁, hopen, hopened⟩ := hstep
    rw [List.append_cons] at hdistinct
    obtain ⟨node', hrest, hall⟩ := ih hopened hdistinct
    refine ⟨node', ?_, ?_⟩
    · rw [openAll, hopen, Option.bind_some, hrest]
    · rw [List.append_cons]
      exact hall

/-! ## What the calls should connect -/

def Paired (opens : List Open) (hub link : Creation) : Prop :=
  ∃ o ∈ opens, ∃ o' ∈ opens, o.kind = .datahub ∧ o'.kind = .datalink ∧ o.topic = o'.topic ∧
    o.live = some hub ∧ o'.live = some link

def Wired (opens : List Open) (node : Node) : Prop :=
  ∀ hub link, Paired opens hub link →
    (∃ links, node.datahubs hub.endpoint = some links ∧ link.addr ∈ links) ∧
      ∃ l, node.datalinks link.endpoint = some l ∧ l.remoteAddr = some hub.addr

structure SameConnections (node node' : Node) : Prop where
  hubs : ∀ h a, (∃ links, node.datahubs h = some links ∧ a ∈ links) ↔
    ∃ links, node'.datahubs h = some links ∧ a ∈ links
  links : ∀ l a, (∃ link, node.datalinks l = some link ∧ link.remoteAddr = some a) ↔
    ∃ link, node'.datalinks l = some link ∧ link.remoteAddr = some a

/-- All that belongs together is connected, whatever the order of the calls. -/
def WiredInAnyOrder (opens : List Open) : Prop :=
  ∃ node, openAll newNode opens = some node ∧ Wired opens node ∧
    ∀ opens', opens'.Perm opens →
      ∃ node', openAll newNode opens' = some node' ∧ SameConnections node node'

theorem sublist_asymm {α : Type} {l : List α} (hl : l.Nodup) {a b : α}
    (hab : List.Sublist [a, b] l) : ¬List.Sublist [b, a] l := by
  induction l with
  | nil => simp at hab
  | cons x l ih =>
    intro hba
    obtain ⟨hx, hl⟩ := List.nodup_cons.1 hl
    cases hab with
    | cons _ hab =>
      cases hba with
      | cons _ hba => exact ih hl hab hba
      | cons_cons _ hba => exact hx (hab.subset (List.mem_cons_of_mem _ List.mem_cons_self))
    | cons_cons _ hab =>
      cases hba with
      | cons _ hba => exact hx (hba.subset (List.mem_cons_of_mem _ List.mem_cons_self))
      | cons_cons _ hba => exact hx (hba.subset List.mem_cons_self)

/-- The endpoint with this address was created before that of `o`. -/
theorem Earlier.created {opens : List Open} (h : Distinct opens) {kind : Kind} {o o' : Open}
    {c c' : Creation} (hearlier : Earlier opens kind o c'.addr) (hc : o.live = some c)
    (ho' : o' ∈ opens) (hc' : o'.live = some c') :
    List.Sublist [c', c] (opens.filterMap Open.live) := by
  obtain ⟨o₁, c₁, hsub, _, _, hc₁, haddr⟩ := hearlier
  have ho₁ : o₁ ∈ opens := hsub.subset List.mem_cons_self
  have heq : c₁ = c' := List.inj_on_of_nodup_map h.addrs (List.mem_filterMap.2 ⟨o₁, ho₁, hc₁⟩)
    (List.mem_filterMap.2 ⟨o', ho', hc'⟩) haddr
  have hmap := hsub.filterMap Open.live
  rw [List.filterMap_cons_some hc₁, List.filterMap_cons_some hc, heq] at hmap
  exact hmap

/-- The connections of a node are between endpoints of one topic. -/
theorem Opened.paired_of_hub {opens : List Open} {node : Node} (h : Opened opens node)
    {hub : Endpoint} {links : List Addr} (hlinks : node.datahubs hub = some links) {a : Addr}
    (ha : a ∈ links) : ∃ hub link, Paired opens hub link := by
  obtain ⟨o, ho, hkind, c, hc, rfl⟩ := h.hubs hub links hlinks
  obtain ⟨links', hlinks', hearlier⟩ := h.hub o ho hkind c hc
  obtain rfl := Option.some.inj (hlinks.symm.trans hlinks')
  obtain ⟨o', c', hsub, hkind', htopic, hc', _⟩ := hearlier a ha
  exact ⟨c, c', o, ho, o', hsub.subset List.mem_cons_self, hkind, hkind', htopic.symm, hc, hc'⟩

theorem Opened.paired_of_link {opens : List Open} {node : Node} (h : Opened opens node)
    {l : Endpoint} {link : Datalink} (hlink : node.datalinks l = some link) {a : Addr}
    (ha : link.remoteAddr = some a) : ∃ hub link, Paired opens hub link := by
  obtain ⟨o, ho, hkind, c, hc, rfl⟩ := h.links l link hlink
  obtain ⟨link', hlink', hearlier⟩ := h.link o ho hkind c hc
  obtain rfl := Option.some.inj (hlink.symm.trans hlink')
  obtain ⟨o', c', hsub, hkind', htopic, hc', _⟩ := hearlier a ha
  exact ⟨c', c, o', hsub.subset List.mem_cons_self, o, ho, hkind', hkind, htopic, hc', hc⟩

/-- A hub and a link of one topic know of each other in one direction only. -/
theorem Opened.not_wired {opens : List Open} {node : Node} (h : Opened opens node)
    (hdistinct : Distinct opens) {hub link : Creation} (hpair : Paired opens hub link) :
    ¬Wired opens node := by
  intro hwired
  obtain ⟨⟨links, hlinks, hmem⟩, l, hl, hremote⟩ := hwired hub link hpair
  obtain ⟨o, ho, o', ho', hkind, hkind', _, hc, hc'⟩ := hpair
  obtain ⟨links', hlinks', hbefore⟩ := h.hub o ho hkind hub hc
  obtain ⟨l', hl', hbefore'⟩ := h.link o' ho' hkind' link hc'
  obtain rfl := Option.some.inj (hlinks.symm.trans hlinks')
  obtain rfl := Option.some.inj (hl.symm.trans hl')
  have hlinkFirst := (hbefore _ hmem).created hdistinct hc ho' hc'
  have hhubFirst := (hbefore' _ hremote).created hdistinct hc' ho hc
  exact sublist_asymm (hdistinct.addrs.of_map _) hlinkFirst hhubFirst

/-- Stand-alone wiring is complete, in whatever order, exactly when there is nothing to wire. -/
theorem standalone_wired_iff {opens : List Open} (hdistinct : Distinct opens) :
    WiredInAnyOrder opens ↔ ¬∃ hub link, Paired opens hub link := by
  have hrun : ∀ opens', opens'.Perm opens →
      ∃ node, openAll newNode opens' = some node ∧ Opened opens' node := fun opens' hperm =>
    @openAll_opened [] opens' newNode opened_nil (hdistinct.perm hperm)
  constructor
  · intro ⟨node, hnode, hwired, _⟩ ⟨hub, link, hpair⟩
    obtain ⟨node', hnode', hopened⟩ := hrun opens (List.Perm.refl _)
    obtain rfl := Option.some.inj (hnode.symm.trans hnode')
    exact hopened.not_wired hdistinct hpair hwired
  · intro hnone
    obtain ⟨node, hnode, hopened⟩ := hrun opens (List.Perm.refl _)
    refine ⟨node, hnode, fun hub link hpair => absurd ⟨hub, link, hpair⟩ hnone, fun opens' hperm => ?_⟩
    obtain ⟨node', hnode', hopened'⟩ := hrun opens' hperm
    have hnone' : ¬∃ hub link, Paired opens' hub link := by
      intro ⟨hub, link, o, ho, o', ho', hrest⟩
      exact hnone ⟨hub, link, o, hperm.subset ho, o', hperm.subset ho', hrest⟩
    refine ⟨node', hnode', fun h a => ?_, fun l a => ?_⟩
    · constructor
      · intro ⟨links, hlinks, ha⟩
        exact absurd (hopened.paired_of_hub hlinks ha) hnone
      · intro ⟨links, hlinks, ha⟩
        exact absurd (hopened'.paired_of_hub hlinks ha) hnone'
    · constructor
      · intro ⟨link, hlink, ha⟩
        exact absurd (hopened.paired_of_link hlink ha) hnone
      · intro ⟨link, hlink, ha⟩
        exact absurd (hopened'.paired_of_link hlink ha) hnone'

/-! ## A hub and a link of one topic -/

def cameraHub : Open :=
  ⟨.datahub, ascii "camera", ascii "camera", some ⟨1, ⟨⟨127, 0, 0, 1⟩, 5001⟩, ascii "a"⟩⟩

def cameraLink : Open :=
  ⟨.datalink, ascii "viewer", ascii "camera", some ⟨2, ⟨⟨127, 0, 0, 1⟩, 5002⟩, ascii "b"⟩⟩

/-- The link knows the hub, and the hub does not send to the link. -/
theorem hub_first_not_wired : ¬WiredInAnyOrder [cameraHub, cameraLink] := by
  intro ⟨node, hnode, hwired, _⟩
  have hpair : Paired [cameraHub, cameraLink] ⟨1, ⟨⟨127, 0, 0, 1⟩, 5001⟩, ascii "a"⟩
      ⟨2, ⟨⟨127, 0, 0, 1⟩, 5002⟩, ascii "b"⟩ :=
    ⟨cameraHub, by simp, cameraLink, by simp, rfl, rfl, rfl, rfl, rfl⟩
  obtain ⟨links, hlinks, hmem⟩ := (hwired _ _ hpair).1
  have hnone : (openAll newNode [cameraHub, cameraLink]).bind (fun node => node.datahubs 1) = some [] := by
    rfl
  rw [hnode, Option.bind_some, hlinks] at hnone
  rw [Option.some.inj hnone] at hmem
  simp at hmem

def laserLink : Open :=
  ⟨.datalink, ascii "viewer", ascii "laser", some ⟨3, ⟨⟨127, 0, 0, 1⟩, 5003⟩, ascii "c"⟩⟩

/-- The link finds no hub of its topic, and the hub no link. -/
theorem other_topic_wired : WiredInAnyOrder [cameraHub, laserLink] :=
  (standalone_wired_iff ⟨by decide, by decide⟩).2 fun ⟨_, _, o, ho, o', ho', hkind, hkind', htopic, _⟩ => by
    simp only [List.mem_cons, List.not_mem_nil, or_false] at ho ho'
    rcases ho with rfl | rfl
    · rcases ho' with rfl | rfl
      · exact absurd hkind' (by decide)
      · exact absurd htopic (by decide)
    · exact absurd hkind (by decide)

end StandAlone
end Rcom
