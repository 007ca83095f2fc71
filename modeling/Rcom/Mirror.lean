import Rcom.Events
import Rcom.Replica

/-!
# Receiving the texts of the registry in any order

A listening proxy receives texts whose registry has moved on. What a text does to the
slots is given by the item that it stands for, as long as two identifiers never shared a
name, topic, type and address, and the proxy takes no entry for another one.
-/

namespace Rcom.Events
open Rcom.Lib Rcom.Lib.Json Rcom.Addr Rcom.RegistryEntry Rcom.Registry Rcom.RcRegistry Rcom.Proxy
open Rcom.Replica

/-! ## What identifiers have stood for -/

abbrev Kind := CStr × CStr × EntryType

def kind (e : Entry) : Kind := (e.name, e.topic, e.type)

/-- The identifiers that occurred, and the kinds and addresses that entries had under them. -/
structure History where
  named : List CStr
  kinds : List (CStr × Kind)
  addrs : List (CStr × Addr)

structure History.Has (h : History) (e : Entry) : Prop where
  named : e.id ∈ h.named
  kind : (e.id, kind e) ∈ h.kinds
  addr : ∃ a, e.addr = some a ∧ (e.id, a) ∈ h.addrs

/-- No two identifiers ever had the same name, topic, type and address. -/
def History.Separate (h : History) : Prop :=
  ∀ i j k a, (i, k) ∈ h.kinds → (j, k) ∈ h.kinds → (i, a) ∈ h.addrs → (j, a) ∈ h.addrs → i = j

theorem History.Separate.id_eq {h : History} (hs : h.Separate) {e f : Entry} (he : h.Has e)
    (hf : h.Has f) (hkey : e.key = f.key) : e.id = f.id := by
  obtain ⟨a, ha, hea⟩ := he.addr
  obtain ⟨b, hb, hfb⟩ := hf.addr
  simp only [Entry.key, Prod.mk.injEq] at hkey
  have hkind : Events.kind e = Events.kind f := by
    simp only [Events.kind, hkey.1, hkey.2.1, hkey.2.2.1]
  have hab : a = b := by
    have haddr := hkey.2.2.2
    rw [ha, hb] at haddr
    exact Option.some.inj haddr
  exact hs _ _ _ _ he.kind (hkind ▸ hf.kind) hea (hab ▸ hfb)

def Item.In (h : History) : Item → Prop
  | .event (.add e) => h.Has e
  | .event (.remove id) => id ∈ h.named
  | .event (.update id a) => id ∈ h.named ∧ ∀ b, a = some b → (id, b) ∈ h.addrs
  | .list r => ∀ e ∈ r, h.Has e

structure History.Le (h h' : History) : Prop where
  named : h.named ⊆ h'.named
  kinds : h.kinds ⊆ h'.kinds
  addrs : h.addrs ⊆ h'.addrs

theorem History.Has.mono {h h' : History} (hle : h.Le h') {e : Entry} (he : h.Has e) :
    h'.Has e := by
  obtain ⟨a, ha, hmem⟩ := he.addr
  exact ⟨hle.named he.named, hle.kinds he.kind, a, ha, hle.addrs hmem⟩

theorem Item.In.mono {h h' : History} (hle : h.Le h') {item : Item} (hi : item.In h) :
    item.In h' := by
  cases item with
  | list r => exact fun e he => (hi e he).mono hle
  | event ev =>
    cases ev with
    | add e => exact History.Has.mono hle hi
    | remove id => exact hle.named hi
    | update id a => exact ⟨hle.named hi.1, fun b hb => hle.addrs (hi.2 b hb)⟩

/-! ## The texts -/

/-- The text stands for the item; `seen` is the registry when it was written. -/
inductive Means {J : Type} (L : JsonLib J) (seen : Registry) : Text J → Item → Prop where
  | add {e : Entry} : e.WellFormed → e.endpoint = none →
      Means L seen (addText e) (.event (.add e))
  | remove {id : CStr} : Plain id → Means L seen (.proxyRemove id) (.event (.remove id))
  | update {id addr : CStr} {a : Addr} : Plain id → Plain addr →
      addrParse addr = some (some a) →
      Means L seen (.proxyUpdateAddress id addr) (.event (.update id (some a)))
  | updateUnknown {id addr : CStr} : Plain id → Plain addr →
      Means L seen (.proxyUpdateAddress id addr) (.event (.update id none))
  | list {list : J} : WellFormed seen → IdsUnique seen →
      registryEntryEncodeList L (seen.reverse.map some) = some list →
      Means L seen (.obj (listResponse L list)) (.list (seen.map Entry.remote))

/-- What the registry sends to a listening proxy when it handles the request of another client:
nothing, or one event that says what became of one slot. -/
theorem Handled.means {J : Type} {L : JsonLib J} {r r' : Registry} {link me : LinkId} {body : J}
    {outs : List (Output J)} (h : Handled L r link body r' outs) (hme : link ≠ me)
    (hwf : WellFormed r) (hids : IdsUnique r) (husable : AddressesUsable L r body)
    (hplain : ∀ id addr, Updates L body id addr → Plain id ∧ Plain addr)
    (hfresh : ∀ e, Registers L body e → ¬ Holds r e.id) :
    (delivered me outs = [] ∧ r' = r) ∨
      ∃ t ev, delivered me outs = [t] ∧ Means L r' t (.event ev) ∧
        ev.Takes (slot r ev.id) (slot r' ev.id) ∧
        (∀ id, id ≠ ev.id → slot r' id = slot r id) ∧
        ∀ e, ev = .add e → Registers L body e ∧ r' = r ++ [e] := by
  have hexclude : some link ≠ some me := fun h => hme (Option.some.inj h)
  cases h with
  | rejected | unregisterFailed => exact .inl ⟨delivered_send hme _, rfl⟩
  | listed => exact .inl ⟨delivered_send hme _, rfl⟩
  | ignored => exact .inl ⟨rfl, rfl⟩
  | @registered e h =>
    obtain ⟨he, hend, -⟩ := registryEntryParse_ok h.2.2
    have hnone : slot r e.id = none := slot_eq_none_iff.2 (hfresh e h)
    have hremote : e.remote = e := by
      obtain ⟨⟩ := e
      cases hend
      rfl
    refine .inr ⟨_, .add e, delivered_event hme (by simp) _ _, .add he hend, ?_, ?_, ?_⟩
    · rw [Event.id, hnone, slot_append hnone, if_pos rfl, hremote]
      exact .add e
    · intro id hid
      rw [slot_append hnone, if_neg fun heq => hid heq.symm]
    · intro f hf
      cases hf
      exact ⟨h, rfl⟩
  | @unregistered id h hh =>
    obtain ⟨e, he, rfl⟩ := hh
    refine .inr ⟨_, .remove e.id, delivered_event hme (by simp) _ _,
      .remove (plain_of_validId (hwf e he).id), ?_, ?_, ?_⟩
    · rw [Event.id, slot_eraseP hids, if_pos rfl, slot_of_mem hids he]
      exact .remove _ _
    · intro id hid
      rw [slot_eraseP hids, if_neg fun heq => hid heq.symm]
    · intro f hf
      cases hf
  | @updatedNothing id addr h hh =>
    obtain ⟨hid, haddr⟩ := hplain _ _ h
    refine .inr ⟨_, .update id none, delivered_event hme hexclude _ _,
      .updateUnknown hid haddr, ?_, fun _ _ => rfl, ?_⟩
    · rw [Event.id, slot_eq_none_iff.2 hh]
      exact .updateUnknown id
    · intro f hf
      cases hf
  | @updated id addr a h hh hp =>
    obtain ⟨hid, haddr⟩ := hplain _ _ h
    obtain ⟨e, he, rfl⟩ := hh
    refine .inr ⟨_, .update e.id (some a), delivered_event hme hexclude _ _,
      .update hid haddr hp, ?_, ?_, ?_⟩
    · rw [Event.id, slot_updateFirst, if_pos rfl, slot_of_mem hids he]
      exact .update _ _ _
    · intro id hid
      rw [slot_updateFirst, if_neg fun heq => hid heq.symm]
    · intro f hf
      cases hf
  | updateFailed h hh hp =>
    obtain ⟨a, ha⟩ := husable.update _ _ h hh
    rw [hp] at ha
    simp at ha

/-! ## The list of the proxy -/

/-- The list of a listening proxy, with one entry for each identifier. -/
structure Mirror (h : History) (r : Registry) : Prop where
  listening : Listening r
  ids : IdsUnique r
  has : ∀ e ∈ r, h.Has e

theorem remote_of_endpoint {e : Entry} (h : e.endpoint = none) : e.remote = e := by
  obtain ⟨⟩ := e
  cases h
  rfl

theorem eq_of_id_key {e f : Entry} (hend : e.endpoint = f.endpoint) (hid : e.id = f.id)
    (hkey : e.key = f.key) : e = f := by
  obtain ⟨⟩ := e
  obtain ⟨⟩ := f
  simp only [Entry.key, Prod.mk.injEq, Entry.mk.injEq] at *
  exact ⟨hid, hkey.1, hkey.2.1, hkey.2.2.1, hkey.2.2.2, hend⟩

theorem Mirror.mono {h h' : History} (hle : h.Le h') {r : Registry} (hr : Mirror h r) :
    Mirror h' r :=
  ⟨hr.listening, hr.ids, fun e he => (hr.has e he).mono hle⟩

theorem slot_mirror {h : History} {r : Registry} (hr : Mirror h r) {e : Entry} (he : e ∈ r) :
    slot r e.id = some e := by
  rw [slot_of_mem hr.ids he, remote_of_endpoint (hr.listening e he).1]

theorem Mirror.append {h : History} {r : Registry} (hr : Mirror h r) {e : Entry}
    (hend : e.endpoint = none) (he : h.Has e) (hnew : slot r e.id = none) :
    Mirror h (r ++ [e]) where
  listening := by
    obtain ⟨a, ha, -⟩ := he.addr
    exact hr.listening.append ⟨hend, by simp [ha]⟩
  ids := (idsUnique_append hr.ids).2 (slot_eq_none_iff.1 hnew)
  has f hf := by
    rcases List.mem_append.1 hf with hf | hf
    · exact hr.has f hf
    · exact List.mem_singleton.1 hf ▸ he

theorem Mirror.eraseP {h : History} {r : Registry} (hr : Mirror h r) (id : CStr) :
    Mirror h (r.eraseP fun e => e.id = id) where
  listening := hr.listening.of_subset List.eraseP_subset
  ids := (List.eraseP_sublist.map Entry.id).nodup hr.ids
  has e he := hr.has e (List.mem_of_mem_eraseP he)

theorem Mirror.update {h : History} {r : Registry} (hr : Mirror h r) {id : CStr} {a : Addr}
    (ha : (id, a) ∈ h.addrs) : Mirror h (updateFirst (fun e => e.id = id) (setAddr (some a)) r) where
  listening := hr.listening.updateFirst _ a
  ids := by
    rw [IdsUnique, map_updateFirst_eq Entry.id fun e => setAddr_id _ e]
    exact hr.ids
  has e he := by
    rcases mem_updateFirst he with he | ⟨f, hf, hid, rfl⟩
    · exact hr.has e he
    · have hid : f.id = id := by simpa using hid
      have hf' := hr.has f hf
      exact ⟨hf'.named, hf'.kind, a, rfl, hid ▸ ha⟩

theorem mem_takeOver {h : History} (hs : h.Separate) {r remote : Registry} (hr : Mirror h r)
    (hremote : Mirror h remote) {e : Entry} : e ∈ takeOver r remote ↔ e ∈ remote := by
  have hsame : ∀ f ∈ r, ∀ g ∈ remote, f.key = g.key → f = g := by
    intro f hf g hg hkey
    have hend := (hr.listening f hf).1.trans (hremote.listening g hg).1.symm
    exact eq_of_id_key hend (hs.id_eq (hr.has f hf) (hremote.has g hg) hkey) hkey
  rw [takeOver, List.mem_append, List.mem_filter, List.mem_filter, decide_eq_true_iff,
    decide_eq_true_iff, List.mem_map, List.mem_map]
  constructor
  · rintro (⟨he, g, hg, hkey⟩ | ⟨he, -⟩)
    · exact hsame e he g hg hkey.symm ▸ hg
    · exact he
  · intro he
    by_cases hknown : ∃ f ∈ r, f.key = e.key
    · obtain ⟨f, hf, hkey⟩ := hknown
      exact .inl ⟨hsame f hf e he hkey ▸ hf, e, he, rfl⟩
    · exact .inr ⟨he, hknown⟩

theorem Mirror.takeOver {h : History} (hs : h.Separate) {r remote : Registry} (hr : Mirror h r)
    (hremote : Mirror h remote) : Mirror h (takeOver r remote) where
  listening := hr.listening.takeOver hremote.listening
  has e he := hremote.has e ((mem_takeOver hs hr hremote).1 he)
  ids := by
    have hmem : ∀ e ∈ r.filter fun e => e.key ∈ remote.map Entry.key, e ∈ remote := fun e he =>
      (mem_takeOver hs hr hremote).1 (List.mem_append_left _ he)
    rw [IdsUnique, Proxy.takeOver, List.map_append, List.nodup_append]
    refine ⟨(List.filter_sublist.map Entry.id).nodup hr.ids,
      (List.filter_sublist.map Entry.id).nodup hremote.ids, ?_⟩
    rintro id hid id' hid' rfl
    obtain ⟨e, he, rfl⟩ := List.mem_map.1 hid
    obtain ⟨f, hf, hfe⟩ := List.mem_map.1 hid'
    obtain rfl : f = e :=
      List.inj_on_of_nodup_map hremote.ids (List.mem_of_mem_filter hf) (hmem e he) hfe
    have hnot := (List.mem_filter.1 hf).2
    exact (by simpa using hnot : ∀ g ∈ r, g.key ≠ f.key) f (List.mem_of_mem_filter he) rfl

theorem slot_takeOver {h : History} (hs : h.Separate) {r remote : Registry} (hr : Mirror h r)
    (hremote : Mirror h remote) (id : CStr) : slot (takeOver r remote) id = slot remote id := by
  have htaken := hr.takeOver hs hremote
  by_cases hid : Holds remote id
  · obtain ⟨e, he, rfl⟩ := hid
    rw [slot_mirror hremote he, slot_mirror htaken ((mem_takeOver hs hr hremote).2 he)]
  · rw [slot_eq_none_iff.2 hid, slot_eq_none_iff]
    rintro ⟨e, he, hide⟩
    exact hid ⟨e, (mem_takeOver hs hr hremote).1 he, hide⟩

theorem receive_updateAddress {J : Type} {L : JsonLib J} {denote : Value → J}
    (hL : L.Lawful denote) {id addr : CStr} (hid : Plain id) (haddr : Plain addr) (p : Proxy) :
    proxyOnmessage L p [] (L.jsonParse (textBytes L (.proxyUpdateAddress id addr))) =
      (registryUpdateAddr p.registry id addr).map
        fun r => ({ p with registry := r.1 }, []) := by
  rw [hL.parse (decode_proxyUpdateAddress hid haddr)]
  exact onmessage_update hL p id addr []

theorem Means.receive {J : Type} {L : JsonLib J} {denote : Value → J} (hL : L.Lawful denote)
    {seen : Registry} {t : Text J} {item : Item} (ht : Means L seen t item) {h : History}
    (hs : h.Separate) (hin : item.In h) {p : Proxy} (hp : Mirror h p.registry)
    (hclean : ∀ id, ∃ o, item.apply id (slot p.registry id) = some o) :
    ∃ p', proxyOnmessage L p [] (L.jsonParse (textBytes L t)) = some (p', []) ∧
      Mirror h p'.registry ∧
      ∀ id, item.apply id (slot p.registry id) = some (slot p'.registry id) := by
  cases ht with
  | @add e he hend =>
    have hremote := remote_of_endpoint hend
    rw [hL.parse (decode_addText he)]
    refine ⟨_, onmessage_add hL hp.listening he [], ?_⟩
    rw [hremote, addUnknown]
    by_cases hk : e.key ∈ p.registry.map Entry.key
    · obtain ⟨f, hf, hkey⟩ := List.mem_map.1 hk
      have hid : f.id = e.id := hs.id_eq (hp.has f hf) hin hkey
      rw [if_pos hk]
      refine ⟨hp, fun id => ?_⟩
      by_cases hide : e.id = id
      · subst hide
        have hslot : slot p.registry e.id = some f := hid ▸ slot_mirror hp hf
        rw [hslot, Item.apply, Event.id, if_pos rfl, Event.apply, if_pos hkey]
      · rw [Item.apply, Event.id, if_neg hide]
    · have hnew : slot p.registry e.id = none := by
        obtain ⟨o, ho⟩ := hclean e.id
        rw [Item.apply, Event.id, if_pos rfl] at ho
        cases hslot : slot p.registry e.id with
        | none => rfl
        | some f =>
          obtain ⟨g, hg, -, rfl⟩ := mem_of_slot hslot
          have hkey : ¬ g.remote.key = e.key := fun hkey => hk (List.mem_map.2 ⟨g, hg, hkey⟩)
          rw [hslot, Event.apply, if_neg hkey] at ho
          cases ho
      rw [if_neg hk]
      refine ⟨hp.append hend hin hnew, fun id => ?_⟩
      rw [slot_append hnew, Item.apply, Event.id]
      by_cases hide : e.id = id
      · subst hide
        rw [if_pos rfl, if_pos rfl, hnew, Event.apply, hremote]
      · rw [if_neg hide, if_neg hide]
  | @remove id hid =>
    rw [hL.parse (decode_proxyRemove hid)]
    refine ⟨_, onmessage_remove hL hp.listening id [], hp.eraseP id, fun id' => ?_⟩
    rw [slot_eraseP hp.ids, Item.apply, Event.id]
    split <;> rfl
  | @update id addr a hid haddr hparse =>
    have hmessage := receive_updateAddress hL hid haddr p
    by_cases hh : Holds p.registry id
    · rw [registryUpdateAddr_known hh, hparse] at hmessage
      refine ⟨_, hmessage, hp.update (hin.2 a rfl), fun id' => ?_⟩
      rw [slot_updateFirst, Item.apply, Event.id]
      by_cases hide : id = id'
      · subst hide
        obtain ⟨f, hf, rfl⟩ := hh
        rw [if_pos rfl, if_pos rfl, slot_mirror hp hf]
        rfl
      · rw [if_neg hide, if_neg hide]
    · rw [registryUpdateAddr_unknown hh] at hmessage
      refine ⟨_, hmessage, hp, fun id' => ?_⟩
      rw [Item.apply, Event.id]
      split
      · next hide =>
        subst hide
        rw [slot_eq_none_iff.2 hh]
        rfl
      · rfl
  | @updateUnknown id addr hid haddr =>
    have hmessage := receive_updateAddress hL hid haddr p
    have hnone : slot p.registry id = none := by
      obtain ⟨o, ho⟩ := hclean id
      rw [Item.apply, Event.id, if_pos rfl] at ho
      cases hslot : slot p.registry id with
      | none => rfl
      | some f =>
        rw [hslot] at ho
        cases ho
    rw [registryUpdateAddr_unknown (slot_eq_none_iff.1 hnone)] at hmessage
    refine ⟨_, hmessage, hp, fun id' => ?_⟩
    rw [Item.apply, Event.id]
    split
    · next hide =>
      subst hide
      rw [hnone]
      rfl
    · rfl
  | @list list hwf hids hlist =>
    have htext : decode (textBytes L (.obj (listResponse L list))) = some (listValue seen) := by
      rw [listResponse_of_encode hL hlist]
      exact hL.serialise (printable_listValue hwf)
    rw [hL.parse htext]
    by_cases hne : seen = []
    · subst hne
      exact ⟨_, onmessage_list_nil hL p [], hp, fun _ => rfl⟩
    · have hremote : Mirror h (seen.map Entry.remote) := by
        refine ⟨listening_remote hwf, ?_, hin⟩
        rw [IdsUnique, List.map_map]
        exact hids
      have hkeys : (seen.map Entry.key).Nodup := by
        rw [List.Nodup, List.pairwise_map]
        have hpair : seen.Pairwise fun e f => e.id ≠ f.id := List.pairwise_map.1 hids
        refine hpair.imp_of_mem fun {e f} he hf hne hkey => hne ?_
        exact hs.id_eq (e := e.remote) (f := f.remote) (hin _ (List.mem_map_of_mem he))
          (hin _ (List.mem_map_of_mem hf)) hkey
      refine ⟨_, onmessage_list hL hp.listening hp.ids hwf hne hkeys [],
        hp.takeOver hs hremote, fun id => ?_⟩
      rw [slot_takeOver hs hp hremote]
      obtain ⟨e, l, rfl⟩ := List.exists_cons_of_ne_nil hne
      rfl

end Rcom.Events
