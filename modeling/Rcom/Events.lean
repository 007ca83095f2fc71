import Rcom.Listener
import Rcom.RegistryUniqueness

/-!
# The events about one identifier

What a list of entries has under an identifier is its slot. An event changes one slot,
the list reply sets all of them. `follow` replays what a proxy is going to receive on one
slot and stops where the proxy would do something else than the registry did.
-/

namespace Rcom.Events
open Rcom.Lib Rcom.Addr Rcom.RegistryEntry Rcom.Registry Rcom.RcRegistry Rcom.Proxy

/-! ## Slots -/

def slot (r : Registry) (id : CStr) : Option Entry := (r.find? fun e => e.id = id).map Entry.remote

theorem slot_eq_none_iff {r : Registry} {id : CStr} : slot r id = none ↔ ¬ Holds r id := by
  simp [slot, Holds]

theorem slot_remote (r : Registry) (id : CStr) : slot (r.map Entry.remote) id = slot r id := by
  have hp : (fun e : Entry => decide (e.id = id)) ∘ Entry.remote = fun e => decide (e.id = id) := rfl
  rw [slot, List.find?_map, hp, Option.map_map]
  rfl

theorem slot_of_mem {r : Registry} (hr : IdsUnique r) {e : Entry} (he : e ∈ r) :
    slot r e.id = some e.remote := by
  rw [slot, find?_key hr he, Option.map_some]

theorem mem_of_slot {r : Registry} {id : CStr} {f : Entry} (h : slot r id = some f) :
    ∃ e ∈ r, e.id = id ∧ f = e.remote := by
  obtain ⟨e, he, rfl⟩ := Option.map_eq_some_iff.1 h
  exact ⟨e, List.mem_of_find?_eq_some he, by simpa using List.find?_some he, rfl⟩

theorem slot_append {r : Registry} {e : Entry} (hnew : slot r e.id = none) (id : CStr) :
    slot (r ++ [e]) id = if e.id = id then some e.remote else slot r id := by
  rw [slot, List.find?_append]
  by_cases hid : e.id = id
  · have hnone : r.find? (fun f => f.id = id) = none := by
      rw [← hid]
      exact Option.map_eq_none_iff.1 hnew
    rw [if_pos hid, hnone]
    simp [hid]
  · rw [if_neg hid, List.find?_cons_of_neg (by simpa using hid)]
    simp [slot]

theorem slot_eraseP {r : Registry} (hr : IdsUnique r) (id id' : CStr) :
    slot (r.eraseP fun e => e.id = id) id' = if id = id' then none else slot r id' := by
  rw [eraseP_key hr]
  split
  · next h =>
    subst h
    rw [slot_eq_none_iff]
    rintro ⟨e, he, hid⟩
    have hne := (List.mem_filter.1 he).2
    exact (by simpa using hne : e.id ≠ id) hid
  · next h =>
    rw [slot, slot, List.find?_filter]
    congr 2
    funext e
    by_cases hid : e.id = id'
    · simp [hid, Ne.symm h]
    · simp [hid]

theorem slot_updateFirst (r : Registry) (id id' : CStr) (a : Option Addr) :
    slot (updateFirst (fun e => e.id = id) (setAddr a) r) id' =
      if id = id' then (slot r id').map (setAddr a) else slot r id' := by
  induction r with
  | nil => simp [updateFirst, slot]
  | cons e l ih =>
    rw [updateFirst]
    by_cases he : e.id = id
    · by_cases h : id = id'
      · simp [slot, he, h, Entry.remote, setAddr]
      · simp [slot, he, h]
    · by_cases he' : e.id = id'
      · have h : ¬ id = id' := fun h => he (he'.trans h.symm)
        simp [slot, he', h, Ne.symm h]
      · have hcons : ∀ l : Registry, slot (e :: l) id' = slot l id' := fun l => by simp [slot, he']
        simp only [he, decide_false, Bool.false_eq_true, if_false]
        rw [hcons, hcons, ih]

theorem mem_iff_of_slots {r r' : Registry} (hr : IdsUnique r) (hr' : IdsUnique r')
    (h : ∀ id, slot r id = slot r' id) (e : Entry) :
    e ∈ r.map Entry.remote ↔ e ∈ r'.map Entry.remote := by
  have himp : ∀ r r' : Registry, IdsUnique r → (∀ id, slot r id = slot r' id) →
      e ∈ r.map Entry.remote → e ∈ r'.map Entry.remote := by
    intro r r' hr h he
    obtain ⟨f, hf, rfl⟩ := List.mem_map.1 he
    obtain ⟨g, hg, -, heq⟩ := mem_of_slot ((h f.id).symm.trans (slot_of_mem hr hf))
    exact heq ▸ List.mem_map_of_mem hg
  exact ⟨himp r r' hr h, himp r' r hr' fun id => (h id).symm⟩

/-! ## Events -/

/-- An address that no entry was given is not kept: the registry did not parse it. -/
inductive Event where
  | add (e : Entry)
  | remove (id : CStr)
  | update (id : CStr) (addr : Option Addr)

def Event.id : Event → CStr
  | .add e => e.id
  | .remove id => id
  | .update id _ => id

/-- What a proxy does to a slot; `none` where it takes an entry for another one. -/
def Event.apply : Event → Option Entry → Option (Option Entry)
  | .add e, none => some (some e)
  | .add e, some f => if f.key = e.key then some (some f) else none
  | .remove _, _ => some none
  | .update _ _, none => some none
  | .update _ none, some _ => none
  | .update _ (some a), some f => some (some (setAddr (some a) f))

inductive Event.Takes : Event → Option Entry → Option Entry → Prop where
  | add (e : Entry) : Takes (.add e) none (some e)
  | remove (id : CStr) (f : Entry) : Takes (.remove id) (some f) none
  | update (id : CStr) (f : Entry) (a : Addr) :
      Takes (.update id (some a)) (some f) (some (setAddr (some a) f))
  | updateUnknown (id : CStr) : Takes (.update id none) none none

theorem Event.Takes.apply {ev : Event} {o o' : Option Entry} (h : ev.Takes o o') :
    ev.apply o = some o' := by
  cases h <;> rfl

/-- A slot that may lack an entry which the registry has follows all the same. -/
theorem Event.Takes.apply_of_imp {ev : Event} {o o' m : Option Entry} (h : ev.Takes o o')
    (hm : o = none → m = none) : ∃ m', ev.apply m = some m' ∧ (o' = none → m' = none) := by
  cases h with
  | add e => exact ⟨some e, by rw [hm rfl]; rfl, fun h => by cases h⟩
  | remove id f => exact ⟨none, rfl, fun _ => rfl⟩
  | updateUnknown id => exact ⟨none, by rw [hm rfl]; rfl, fun _ => rfl⟩
  | update id f a =>
    cases m with
    | none => exact ⟨none, rfl, fun _ => rfl⟩
    | some g => exact ⟨some (setAddr (some a) g), rfl, fun h => by cases h⟩

def applyAll (evs : List Event) (o : Option Entry) : Option (Option Entry) :=
  evs.foldlM (fun o ev => ev.apply o) o

theorem applyAll_concat {evs : List Event} {ev : Event} {o m : Option Entry}
    (h : applyAll evs o = some m) : applyAll (evs ++ [ev]) o = ev.apply m := by
  rw [applyAll, List.foldlM_append]
  change (applyAll evs o).bind _ = _
  rw [h, Option.bind_some, List.foldlM_cons]
  cases ev.apply m <;> rfl

/-! ## The last events before a state -/

/-- The events, all about one identifier, are the last ones before the registry had `o` in
the slot. An identifier is never registered again. -/
inductive Ends : List Event → Option Entry → Prop where
  | nil (o : Option Entry) : Ends [] o
  | snoc {evs : List Event} {ev : Event} {o o' : Option Entry} : Ends evs o → ev.Takes o o' →
      ((∃ e, ev = .add e) → evs = []) → Ends (evs ++ [ev]) o'

theorem Ends.tail {evs : List Event} {o : Option Entry} (h : Ends evs o) : Ends evs.tail o := by
  induction h with
  | nil o => exact .nil o
  | @snoc evs ev o o' _ ht hadd ih =>
    cases evs with
    | nil => exact .nil o'
    | cons ev' evs =>
      refine .snoc ih ht fun h => ?_
      cases hadd h

/-- Replayed on an empty slot they leave an entry only if the registry has one. -/
theorem Ends.apply_none {evs : List Event} {o : Option Entry} (h : Ends evs o) :
    ∃ m, applyAll evs none = some m ∧ (o = none → m = none) := by
  induction h with
  | nil o => exact ⟨none, rfl, fun _ => rfl⟩
  | snoc _ ht _ ih =>
    obtain ⟨m, hm, himp⟩ := ih
    obtain ⟨m', hm', himp'⟩ := ht.apply_of_imp himp
    exact ⟨m', (applyAll_concat hm).trans hm', himp'⟩

/-- An entry that was announced differs from what became of it at most in the address. -/
theorem Ends.like_of_add {evs : List Event} {o : Option Entry} (h : Ends evs o) {e : Entry}
    (he : .add e ∈ evs) {f : Entry} (hf : o = some f) : setAddr none e = setAddr none f := by
  induction h generalizing f with
  | nil => cases he
  | @snoc evs ev o o' _ ht hadd ih =>
    rcases List.mem_append.1 he with he' | he'
    · cases ht with
      | add e' =>
        rw [hadd ⟨e', rfl⟩] at he'
        cases he'
      | remove => cases hf
      | updateUnknown => cases hf
      | update id g a =>
        cases hf
        exact (ih he' rfl : setAddr none e = setAddr none g)
    · rw [List.mem_singleton] at he'
      subst he'
      cases ht
      cases hf
      rfl

/-- Replayed on an entry that differs at most in the address, and that the proxy takes for the
one announced, they lead to the same entry up to the address. -/
theorem Ends.apply_like {evs : List Event} {o : Option Entry} (h : Ends evs o) {f g : Entry}
    (hf : o = some f) (hlike : setAddr none g = setAddr none f)
    (hadd : ∀ e, .add e ∈ evs → g.key = e.key) :
    ∃ g', applyAll evs (some g) = some (some g') ∧ setAddr none g' = setAddr none f := by
  induction h generalizing f with
  | nil => exact ⟨g, rfl, hlike⟩
  | @snoc evs ev o o' _ ht hfirst ih =>
    cases ht with
    | add e =>
      cases hf
      have hkey : g.key = f.key := hadd f (List.mem_append_right _ List.mem_cons_self)
      rw [hfirst ⟨f, rfl⟩]
      exact ⟨g, by simp [applyAll, Event.apply, hkey], hlike⟩
    | remove => cases hf
    | updateUnknown => cases hf
    | update id f' a =>
      cases hf
      obtain ⟨g', hg', hlike'⟩ := ih rfl hlike fun e he => hadd e (List.mem_append_left _ he)
      exact ⟨setAddr (some a) g', applyAll_concat hg', hlike'⟩

/-- Replayed on the slot that they led to, the events change nothing, if an entry announced by
one of them has kept its address. -/
theorem Ends.apply_self {evs : List Event} {o : Option Entry} (h : Ends evs o)
    (hkept : ∀ e f, .add e ∈ evs → o = some f → e.addr = f.addr) :
    applyAll evs o = some o := by
  cases o with
  | none =>
    obtain ⟨m, hm, himp⟩ := h.apply_none
    rw [hm, himp rfl]
  | some f =>
    have hsame : ∀ e, .add e ∈ evs → e = f := by
      intro e he
      have hlike := h.like_of_add he rfl
      have haddr := hkept e f he rfl
      obtain ⟨⟩ := e
      obtain ⟨⟩ := f
      simp only [setAddr, Entry.mk.injEq] at hlike haddr ⊢
      exact ⟨hlike.1, hlike.2.1, hlike.2.2.1, hlike.2.2.2.1, haddr, hlike.2.2.2.2.2⟩
    cases h with
    | nil => rfl
    | @snoc evs ev o _ hends ht hfirst =>
      cases ht with
      | add =>
        rw [hfirst ⟨f, rfl⟩]
        simp [applyAll, Event.apply]
      | update id f' a =>
        obtain ⟨g', hg', hlike⟩ := hends.apply_like rfl (g := setAddr (some a) f') rfl
          fun e he => by rw [hsame e (List.mem_append_left _ he)]
        have hset := congrArg (setAddr (some a)) hlike
        have heq : setAddr (some a) g' = setAddr (some a) f' := hset
        rw [applyAll_concat hg', Event.apply, heq]

/-! ## What a proxy is going to receive -/

inductive Item where
  | event (ev : Event)
  | list (remote : Registry)

/-- The effect on the slot of an identifier. An empty list changes nothing. -/
def Item.apply (id : CStr) : Item → Option Entry → Option (Option Entry)
  | .event ev, o => if ev.id = id then ev.apply o else some o
  | .list [], o => some o
  | .list (e :: l), _ => some (slot (e :: l) id)

def Item.about (id : CStr) : Item → Bool
  | .event ev => ev.id = id
  | .list _ => true

def eventsAbout (id : CStr) (items : List Item) : List Event :=
  items.filterMap fun
    | .event ev => if ev.id = id then some ev else none
    | .list _ => none

def follow (id : CStr) (items : List Item) (o : Option Entry) : Option (Option Entry) :=
  items.foldlM (fun o item => item.apply id o) o

@[simp] theorem follow_nil (id : CStr) (o : Option Entry) : follow id [] o = some o := rfl

theorem follow_cons (id : CStr) (item : Item) (items : List Item) (o : Option Entry) :
    follow id (item :: items) o = (item.apply id o).bind (follow id items) := by
  rw [follow, List.foldlM_cons]
  rfl

theorem follow_append (id : CStr) (items items' : List Item) (o : Option Entry) :
    follow id (items ++ items') o = (follow id items o).bind (follow id items') := by
  rw [follow, List.foldlM_append]
  rfl

theorem follow_concat {id : CStr} {items : List Item} {o m : Option Entry}
    (h : follow id items o = some m) (item : Item) :
    follow id (items ++ [item]) o = item.apply id m := by
  rw [follow_append, h, Option.bind_some, follow_cons]
  cases item.apply id m <;> rfl

theorem follow_filter (id : CStr) (items : List Item) (o : Option Entry) :
    follow id (items.filter (Item.about id)) o = follow id items o := by
  induction items generalizing o with
  | nil => rfl
  | cons item items ih =>
    cases item with
    | list remote =>
      rw [List.filter_cons_of_pos rfl, follow_cons, follow_cons]
      exact congrArg _ (funext ih)
    | event ev =>
      by_cases h : ev.id = id
      · rw [List.filter_cons_of_pos (by simpa [Item.about] using h), follow_cons, follow_cons]
        exact congrArg _ (funext ih)
      · rw [List.filter_cons_of_neg (by simpa [Item.about] using h), follow_cons, Item.apply,
          if_neg h, Option.bind_some, ih]

theorem follow_eventsAbout {id : CStr} {items : List Item} (h : ∀ r, .list r ∉ items)
    (o : Option Entry) : follow id items o = applyAll (eventsAbout id items) o := by
  induction items generalizing o with
  | nil => rfl
  | cons item items ih =>
    have hrest : ∀ r, .list r ∉ items := fun r hr => h r (List.mem_cons_of_mem _ hr)
    cases item with
    | list remote => exact absurd List.mem_cons_self (h remote)
    | event ev =>
      rw [follow_cons, Item.apply, eventsAbout, List.filterMap_cons]
      by_cases hid : ev.id = id
      · simp only [hid, if_true]
        rw [applyAll, List.foldlM_cons]
        exact congrArg _ (funext fun o => ih hrest o)
      · simp only [hid, if_false, Option.bind_some]
        exact ih hrest o

end Rcom.Events
