import Rcom.RegistryRuns

/-!
# What identifies an entry of the central registry

Two uniqueness invariants: one hub for each type and topic, as docs/protocol.md has it,
and one entry for each id, on which every function that stops at the first match relies.
`registry_insert` checks neither, so each holds through the runs whose registrations
respect it, and through no others.
-/

namespace Rcom.RcRegistry
open Rcom.Lib Rcom.Lib.Json Rcom.Lib.Trace Rcom.Addr Rcom.RegistryEntry Rcom.Registry
variable {J : Type} {L : JsonLib J}

/-! ## One hub for each type and topic -/

/-- The types that docs/protocol.md calls uniquely identified by type and topic. -/
def isHub : EntryType → Bool
  | .datahub | .messagehub | .service | .streamer => true
  | .datalink | .messagelink | .streamerlink => false

def HubsUnique (r : Registry) : Prop :=
  r.Pairwise fun e f => isHub e.type → ¬ (e.type = f.type ∧ e.topic = f.topic)

def HubTaken (r : Registry) (e : Entry) : Prop :=
  isHub e.type ∧ ∃ f ∈ r, f.type = e.type ∧ f.topic = e.topic

variable (L) in
/-- After the move the hubs are unique; the registration of a second hub has been refused
and has changed nothing. -/
def KeepsHubsUnique (m : Move (Exec Registry) (Message J)) : Prop :=
  (∀ r', m.dst = some r' → HubsUnique r') ∧
    ∀ r e, m.src = some r → Registers L m.act.body e → HubTaken r e →
      ∃ outs, rcregistryOnmessage L r m.act.link m.act.body = some (r, outs) ∧ Refused outs

variable (L) in
def RegistersFreeHub (m : Move (Exec Registry) (Message J)) : Prop :=
  ∀ r, m.src = some r → ∀ e, Registers L m.act.body e → ¬ HubTaken r e

theorem hubsUnique_append {r : Registry} (hr : HubsUnique r) {e : Entry} :
    HubsUnique (r ++ [e]) ↔ ¬ HubTaken r e := by
  simp only [HubsUnique, List.pairwise_append, List.pairwise_singleton, List.mem_singleton,
    forall_eq, true_and]
  constructor
  · rintro ⟨-, h⟩ ⟨hhub, f, hf, htype, htopic⟩
    exact h f hf (htype ▸ hhub) ⟨htype, htopic⟩
  · refine fun h => ⟨hr, fun f hf hhub hsame => h ⟨hsame.1 ▸ hhub, f, hf, hsame⟩⟩

theorem HubsUnique.of_sublist {r r' : Registry}
    (h : (r'.map fun e => (e.type, e.topic)).Sublist (r.map fun e => (e.type, e.topic)))
    (hr : HubsUnique r) : HubsUnique r' := by
  have hmap (l : Registry) : HubsUnique l ↔ (l.map fun e => (e.type, e.topic)).Pairwise
      fun a b => isHub a.1 → ¬ (a.1 = b.1 ∧ a.2 = b.2) := by
    rw [HubsUnique, List.pairwise_map]
  rw [hmap] at hr ⊢
  exact hr.sublist h

theorem keepsHubsUnique_iff {r : Registry} (hr : HubsUnique r) (m : Message J)
    (t : Exec Registry) (hs : Serves L (some r) m t) :
    KeepsHubsUnique L ⟨some r, m, t⟩ ↔ ∀ e, Registers L m.body e → ¬ HubTaken r e := by
  constructor
  · rintro ⟨hunique, -⟩ e he htaken
    have ht : t = some (r ++ [e]) := hs.trans (serve_of_handled (.registered he))
    exact (hubsUnique_append hr).1 (hunique _ ht) htaken
  · refine fun hG => ⟨?_, ?_⟩
    · rintro r' rfl
      obtain ⟨outs, hh⟩ := handled_of_serves hs
      rcases hh.map_sublist (g := fun e => (e.type, e.topic)) (fun _ _ => rfl) with
        ⟨e, he, rfl⟩ | hsub
      · exact (hubsUnique_append hr).2 (hG e he)
      · exact hr.of_sublist hsub
    · rintro r₀ e h₀ he htaken
      obtain rfl : r = r₀ := Option.some.inj h₀
      exact absurd htaken (hG e he)

/-- Hubs stay unique through exactly the runs in which no client registers a second one. -/
theorem hubsUnique_iff {uuid : CStr} {addr : Option Addr} {hub : Endpoint} {r₀ : Registry}
    (h₀ : newRcregistry uuid addr hub = some r₀) {ms : List (Move (Exec Registry) (Message J))}
    {t : Exec Registry} (h : Run (Serves L) (some r₀) ms t) :
    HubsUnique r₀ ∧ ((∀ m ∈ ms, KeepsHubsUnique L m) ↔ ∀ m ∈ ms, RegistersFreeHub L m) := by
  obtain ⟨a, -, rfl⟩ := newRcregistry_eq h₀
  have hr₀ : HubsUnique [⟨uuid, ascii "registry", ascii "registry", .messagehub, some a, some hub⟩] :=
    List.pairwise_singleton _ _
  refine ⟨hr₀, ?_⟩
  refine h.forall_iff (I := fun s => ∀ r, s = some r → HubsUnique r) ?_ ?_ (by simpa using hr₀)
  · intro s m t hI hs
    cases s with
    | none =>
      obtain rfl : t = none := hs
      simp [KeepsHubsUnique, RegistersFreeHub]
    | some r =>
      rw [keepsHubsUnique_iff (hI r rfl) m t hs]
      simp [RegistersFreeHub]
  · intro s m t hI hs hG r' hr'
    cases s with
    | none =>
      rw [Serves, serve, hr'] at hs
      cases hs
    | some r =>
      exact ((keepsHubsUnique_iff (hI r rfl) m t hs).2 (hG r rfl)).1 r' hr'

def freshHub : Entry :=
  ⟨ascii "c4d06932-1552-4905-a6ed-f2c59350c0eb", ascii "second", ascii "camera", .messagehub,
    some ⟨⟨10, 0, 0, 1⟩, 80⟩, none⟩

theorem freshHub_wellFormed : freshHub.WellFormed := by
  have hid : registryValidId freshHub.id = true := by decide
  have hname : registryValidName (ascii "second") = true := by decide
  have htopic : registryValidTopic (ascii "camera") = true := by decide
  exact ⟨⟨hid, hname, htopic⟩, by simp [freshHub]⟩

theorem register_fresh_hub :
    serve valueLib (some [hubEntry]) ⟨1, registerRequest freshHub⟩ = some [hubEntry, freshHub] ∧
      ∀ m ∈ firstMove ⟨1, registerRequest freshHub⟩, KeepsHubsUnique valueLib m := by
  have hregisters := registers_registerRequest valueLib_lawful freshHub_wellFormed
  refine ⟨serve_of_handled (.registered hregisters), ?_⟩
  refine (hubsUnique_iff newRcregistry_hub (firstMove_run _)).2.2 ?_
  intro m hm r hr e he
  obtain rfl := List.mem_singleton.1 hm
  obtain rfl := Option.some.inj hr
  obtain rfl := he.unique hregisters
  rintro ⟨-, f, hf, -, htopic⟩
  obtain rfl := List.mem_singleton.1 hf
  exact absurd htopic (by decide)

/-- A second message hub on the topic of the registry itself, under an id of choice. -/
def secondHub (id : CStr) : Entry :=
  ⟨id, ascii "second", ascii "registry", .messagehub, some ⟨⟨10, 0, 0, 1⟩, 80⟩, none⟩

theorem secondHub_wellFormed {id : CStr} (hid : registryValidId id = true) :
    (secondHub id).WellFormed := by
  have hname : registryValidName (ascii "second") = true := by decide
  have htopic : registryValidTopic (ascii "registry") = true := by decide
  exact ⟨⟨hid, hname, htopic⟩, by simp [secondHub]⟩

theorem registered_secondHub {id : CStr} (hid : registryValidId id = true) :
    rcregistryOnmessage valueLib [hubEntry] 1 (registerRequest (secondHub id)) =
      some ([hubEntry, secondHub id],
        [rcregistrySuccess 1 (ascii "register"), .broadcast none (addText (secondHub id))]) :=
  handled_iff.1 (.registered (registers_registerRequest valueLib_lawful (secondHub_wellFormed hid)))

/-- The registry accepts a second message hub on its own topic. -/
theorem register_second_hub :
    newRcregistry hubId (some hubAddr) 0 = some [hubEntry] ∧
      rcregistryOnmessage valueLib [hubEntry] 1
          (registerRequest (secondHub (ascii "c4d06932-1552-4905-a6ed-f2c59350c0eb"))) =
        some ([hubEntry, secondHub (ascii "c4d06932-1552-4905-a6ed-f2c59350c0eb")],
          [rcregistrySuccess 1 (ascii "register"),
            .broadcast none (addText (secondHub (ascii "c4d06932-1552-4905-a6ed-f2c59350c0eb")))]) ∧
      ¬ HubsUnique [hubEntry, secondHub (ascii "c4d06932-1552-4905-a6ed-f2c59350c0eb")] := by
  refine ⟨newRcregistry_hub, registered_secondHub (by decide), fun h => ?_⟩
  exact (List.pairwise_cons.1 h).1 _ (List.mem_singleton.2 rfl) rfl ⟨rfl, rfl⟩

/-! ## One entry for each id -/

def IdsUnique (r : Registry) : Prop := (r.map Entry.id).Nodup

/-- What a lookup of an entry that was given this address returns. -/
def Sees (r : Registry) (id : CStr) (a : Addr) : Prop :=
  ∃ e, registryGet r id = some e ∧ e.addr = some a

variable (L) in
/-- After the move the ids are distinct, an id that was unregistered with success is gone,
and an address that was updated with success is seen. -/
def KeepsIdsUnique (m : Move (Exec Registry) (Message J)) : Prop :=
  (∀ r', m.dst = some r' → IdsUnique r') ∧
    (∀ r r' outs id, m.src = some r → Unregisters L m.act.body id →
      rcregistryOnmessage L r m.act.link m.act.body = some (r', outs) → Accepted outs →
      ¬ Holds r' id) ∧
    ∀ r r' id addr a, m.src = some r → m.dst = some r' → Updates L m.act.body id addr →
      Holds r id → addrParse addr = some (some a) → Sees r' id a

variable (L) in
def RegistersFreshId (m : Move (Exec Registry) (Message J)) : Prop :=
  ∀ r, m.src = some r → ∀ e, Registers L m.act.body e → ¬ Holds r e.id

variable (L) in
/-- The address an entry was given by an update is seen at the end of the run, unless the
entry was updated again or unregistered. -/
def SeesUpdates (ms : List (Move (Exec Registry) (Message J))) (t : Exec Registry) : Prop :=
  ∀ pre m post r r' id addr a, ms = pre ++ m :: post → m.src = some r →
    Updates L m.act.body id addr → Holds r id → addrParse addr = some (some a) →
    (∀ m' ∈ post, ¬ Unregisters L m'.act.body id ∧ ∀ addr', ¬ Updates L m'.act.body id addr') →
    t = some r' → Sees r' id a

theorem idsUnique_append {r : Registry} (hr : IdsUnique r) {e : Entry} :
    IdsUnique (r ++ [e]) ↔ ¬ Holds r e.id := by
  rw [IdsUnique, List.map_append, List.nodup_append]
  constructor
  · rintro ⟨-, -, h⟩ ⟨f, hf, hid⟩
    exact h f.id (List.mem_map_of_mem hf) e.id (by simp) hid
  · intro h
    refine ⟨hr, List.nodup_singleton _, fun id hid id' hid' heq => ?_⟩
    obtain ⟨f, hf, rfl⟩ := List.mem_map.1 hid
    obtain rfl : id' = e.id := by simpa using hid'
    exact h ⟨f, hf, heq⟩

theorem not_holds_eraseP {r : Registry} (hr : IdsUnique r) (id : CStr) :
    ¬ Holds (r.eraseP fun e => e.id = id) id := by
  rintro ⟨e, he, hid⟩
  exact ((mem_eraseP_key hr).1 he).2 hid

theorem sees_of_mem {r : Registry} (hr : IdsUnique r) {e : Entry} (he : e ∈ r) {a : Addr}
    (ha : e.addr = some a) : Sees r e.id a := by
  refine ⟨e, ?_, ha⟩
  rw [registryGet, find?_key hr he, Option.bind_some, cloneEntry_of_addr (by simp [ha])]

theorem Handled.idsUnique {r r' : Registry} {link : LinkId} {message : J}
    {outs : List (Output J)} (h : Handled L r link message r' outs) (hr : IdsUnique r)
    (hG : ∀ e, Registers L message e → ¬ Holds r e.id) : IdsUnique r' := by
  rcases h.map_sublist (g := Entry.id) (fun _ _ => rfl) with ⟨e, he, rfl⟩ | hsub
  · exact (idsUnique_append hr).2 (hG e he)
  · exact hsub.nodup hr

theorem Handled.not_holds {r r' : Registry} {link : LinkId} {message : J}
    {outs : List (Output J)} (h : Handled L r link message r' outs) (hr : IdsUnique r)
    {id : CStr} (hu : Unregisters L message id) (hacc : Accepted outs) : ¬ Holds r' id := by
  cases h with
  | rejected | unregisterFailed | updateFailed => simp [Accepted, rcregistryFail] at hacc
  | ignored => simp [Accepted] at hacc
  | listed => simp [Accepted] at hacc
  | registered h => exact absurd (hu.1.unique h.1) (by decide)
  | updatedNothing h | updated h => exact absurd (hu.1.unique h.1) (by decide)
  | unregistered h =>
    obtain rfl := Option.some.inj (hu.2.symm.trans h.2)
    exact not_holds_eraseP hr _

theorem sees_of_update {r : Registry} (hr : IdsUnique r) {m : Message J} {id addr : CStr}
    {a : Addr} (hu : Updates L m.body id addr) (hh : Holds r id)
    (hp : addrParse addr = some (some a)) :
    ∃ r', serve L (some r) m = some r' ∧ ∃ e ∈ r', e.id = id ∧ e.addr = some a := by
  refine ⟨_, serve_of_handled (.updated hu hh hp), ?_⟩
  obtain ⟨e, he, rfl⟩ := hh
  exact ⟨setAddr (some a) e, (mem_updateFirst_key hr).2 (.inr ⟨e, he, rfl, rfl⟩), rfl, rfl⟩

theorem keepsIdsUnique_iff {r : Registry} (hr : IdsUnique r) (m : Message J)
    (t : Exec Registry) (hs : Serves L (some r) m t) :
    KeepsIdsUnique L ⟨some r, m, t⟩ ↔ ∀ e, Registers L m.body e → ¬ Holds r e.id := by
  constructor
  · rintro ⟨hunique, -⟩ e he hh
    have ht : t = some (r ++ [e]) := hs.trans (serve_of_handled (.registered he))
    exact (idsUnique_append hr).1 (hunique _ ht) hh
  · intro hG
    have hunique : ∀ r', t = some r' → IdsUnique r' := by
      rintro r' rfl
      obtain ⟨outs, hh⟩ := handled_of_serves hs
      exact hh.idsUnique hr hG
    refine ⟨hunique, ?_, ?_⟩
    · intro r₀ r' outs id h₀ hu heq hacc
      obtain rfl : r = r₀ := Option.some.inj h₀
      exact (handled_of_eq heq).not_holds hr hu hacc
    · intro r₀ r' id addr a h₀ h' hu hh hp
      obtain rfl : r = r₀ := Option.some.inj h₀
      obtain ⟨r'', h'', e, he, rfl, ha⟩ := sees_of_update hr hu hh hp
      obtain rfl : r'' = r' := Option.some.inj (h''.symm.trans (hs.symm.trans h'))
      exact sees_of_mem (hunique _ h') he ha

theorem Handled.keeps_addr {r r' : Registry} {link : LinkId} {message : J}
    {outs : List (Output J)} (h : Handled L r link message r' outs) {id : CStr} {a : Addr}
    (hother : ¬ Unregisters L message id ∧ ∀ addr, ¬ Updates L message id addr)
    (hmem : ∃ e ∈ r, e.id = id ∧ e.addr = some a) : ∃ e ∈ r', e.id = id ∧ e.addr = some a := by
  obtain ⟨e, he, rfl, ha⟩ := hmem
  refine ⟨e, ?_, rfl, ha⟩
  cases h with
  | rejected | ignored | unregisterFailed | listed | updatedNothing => exact he
  | registered => exact List.mem_append_left _ he
  | @unregistered id h =>
    have hne : e.id ≠ id := fun hid => hother.1 (hid ▸ h)
    exact (List.mem_eraseP_of_neg (by simpa using hne)).2 he
  | updated h | updateFailed h =>
    exact mem_updateFirst_of_neg he (by simpa using fun hid => hother.2 _ (hid ▸ h))

theorem keepsIdsUnique_iff_of_serves {s t : Exec Registry} {m : Message J}
    (hI : ∀ r, s = some r → IdsUnique r) (hs : Serves L s m t) :
    KeepsIdsUnique L ⟨s, m, t⟩ ↔ RegistersFreshId L ⟨s, m, t⟩ := by
  cases s with
  | none =>
    obtain rfl : t = none := hs
    simp [KeepsIdsUnique, RegistersFreshId]
  | some r =>
    rw [keepsIdsUnique_iff (hI r rfl) m t hs]
    simp [RegistersFreshId]

theorem idsUnique_of_serves {s t : Exec Registry} {m : Message J}
    (hI : ∀ r, s = some r → IdsUnique r) (hs : Serves L s m t)
    (hG : RegistersFreshId L ⟨s, m, t⟩) : ∀ r', t = some r' → IdsUnique r' :=
  ((keepsIdsUnique_iff_of_serves hI hs).2 hG).1

/-- From the entry that was updated to the end of the run, by induction on the messages
after the update. -/
theorem seesUpdates {s t : Exec Registry} {ms : List (Move (Exec Registry) (Message J))}
    (h : Run (Serves L) s ms t) (hs : ∀ r, s = some r → IdsUnique r)
    (hG : ∀ m ∈ ms, RegistersFreshId L m) : SeesUpdates L ms t := by
  rintro pre m post r r' id addr a rfl hsrc hu hh hp hother rfl
  obtain ⟨hpre, hm, hpost⟩ := h.split
  have hr : ∀ r, m.src = some r → IdsUnique r :=
    hpre.invariant (fun _ _ _ => idsUnique_of_serves) hs fun m' hm' => hG m' (by simp [hm'])
  obtain ⟨r₁, hserve, hmem⟩ := sees_of_update (hr r hsrc) hu hh hp
  have hdst : m.dst = some r₁ := by rw [hm, hsrc, hserve]
  have hr₁ : IdsUnique r₁ := idsUnique_of_serves hr hm (hG m (by simp)) r₁ hdst
  obtain ⟨hr', e, he, rfl, ha⟩ := hpost.invariant
    (I := fun s => ∀ r, s = some r → IdsUnique r ∧ ∃ e ∈ r, e.id = id ∧ e.addr = some a)
    (G := fun m' => RegistersFreshId L m' ∧
      ¬ Unregisters L m'.act.body id ∧ ∀ addr', ¬ Updates L m'.act.body id addr')
    (fun s m' t hI hs hG' r' ht => by
      refine ⟨idsUnique_of_serves (fun r hr => (hI r hr).1) hs hG'.1 r' ht, ?_⟩
      subst ht
      cases s with
      | none => cases hs
      | some r =>
        obtain ⟨outs, hh⟩ := handled_of_serves hs
        exact hh.keeps_addr hG'.2 (hI r rfl).2)
    (fun r hr => by
      obtain rfl : r₁ = r := Option.some.inj (hdst.symm.trans hr)
      exact ⟨hr₁, hmem⟩)
    (fun m' hm' => ⟨hG m' (by simp [hm']), hother m' hm'⟩) r' rfl
  exact sees_of_mem hr' he ha

/-- Ids stay distinct through exactly the runs in which no client registers an id that is
taken; in such a run the address an entry was given is seen until its id is named again. -/
theorem idsUnique_iff {uuid : CStr} {addr : Option Addr} {hub : Endpoint} {r₀ : Registry}
    (h₀ : newRcregistry uuid addr hub = some r₀) {ms : List (Move (Exec Registry) (Message J))}
    {t : Exec Registry} (h : Run (Serves L) (some r₀) ms t) :
    IdsUnique r₀ ∧ ((∀ m ∈ ms, KeepsIdsUnique L m) ↔ ∀ m ∈ ms, RegistersFreshId L m) ∧
      ((∀ m ∈ ms, RegistersFreshId L m) → SeesUpdates L ms t) := by
  obtain ⟨b, -, rfl⟩ := newRcregistry_eq h₀
  have hr₀ : IdsUnique [⟨uuid, ascii "registry", ascii "registry", .messagehub, some b, some hub⟩] :=
    List.nodup_singleton _
  have hs₀ : ∀ r, some [⟨uuid, ascii "registry", ascii "registry", .messagehub, some b, some hub⟩] =
      some r → IdsUnique r := fun r hr => Option.some.inj hr ▸ hr₀
  exact ⟨hr₀, h.forall_iff (fun _ _ _ => keepsIdsUnique_iff_of_serves)
    (fun _ _ _ => idsUnique_of_serves) hs₀, seesUpdates h hs₀⟩

theorem hubEntry_idsUnique_iff :
    IdsUnique [hubEntry] ∧
      ((∀ m ∈ firstMove ⟨1, registerRequest (secondHub hubId)⟩, KeepsIdsUnique valueLib m) ↔
        ∀ m ∈ firstMove ⟨1, registerRequest (secondHub hubId)⟩, RegistersFreshId valueLib m) ∧
      ((∀ m ∈ firstMove ⟨1, registerRequest (secondHub hubId)⟩, RegistersFreshId valueLib m) →
        SeesUpdates valueLib (firstMove ⟨1, registerRequest (secondHub hubId)⟩)
          (serve valueLib (some [hubEntry]) ⟨1, registerRequest (secondHub hubId)⟩)) :=
  idsUnique_iff newRcregistry_hub (firstMove_run _)

/-- The registry accepts a second entry under the id of its own hub. -/
theorem register_held_id :
    newRcregistry hubId (some hubAddr) 0 = some [hubEntry] ∧
      rcregistryOnmessage valueLib [hubEntry] 1 (registerRequest (secondHub hubId)) =
        some ([hubEntry, secondHub hubId],
          [rcregistrySuccess 1 (ascii "register"), .broadcast none (addText (secondHub hubId))]) ∧
      ¬ IdsUnique [hubEntry, secondHub hubId] := by
  refine ⟨newRcregistry_hub, registered_secondHub (by decide), fun h => ?_⟩
  exact (List.nodup_cons.1 h).1 (List.mem_singleton.2 rfl)

end Rcom.RcRegistry
