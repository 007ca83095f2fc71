import Rcom.Lib.Delivery
import Rcom.Events

/-!
# Items that overtake each other

Items wait at several handlers, in the order of the operations that they tell about, and
are sent in another order. An event may overtake events about other identifiers; a list
that waits may overtake the events that led to it, as far as they say nothing else.
-/

namespace Rcom.Events
open Rcom.Lib.Delivery Rcom.RegistryEntry

/-! ## The events about one identifier -/

theorem eventsAbout_append (id : CStr) (items items' : List Item) :
    eventsAbout id (items ++ items') = eventsAbout id items ++ eventsAbout id items' :=
  List.filterMap_append

theorem eventsAbout_eq_nil {id : CStr} {items : List Item}
    (h : ∀ ev, .event ev ∈ items → ev.id ≠ id) : eventsAbout id items = [] := by
  rw [eventsAbout, List.filterMap_eq_nil_iff]
  intro item hitem
  cases item with
  | list r => rfl
  | event ev => exact if_neg (h ev hitem)

theorem mem_eventsAbout {id : CStr} {items : List Item} {ev : Event}
    (h : ev ∈ eventsAbout id items) : .event ev ∈ items ∧ ev.id = id := by
  obtain ⟨item, hitem, heq⟩ := List.mem_filterMap.1 h
  cases item with
  | list r => cases heq
  | event ev' =>
    by_cases hid : ev'.id = id
    · simp only [hid, if_true, Option.some.injEq] at heq
      exact heq ▸ ⟨hitem, hid⟩
    · simp only [hid, if_false] at heq
      cases heq

theorem eventsAbout_cons (id : CStr) (item : Item) (items : List Item) :
    eventsAbout id (item :: items) = eventsAbout id [item] ++ eventsAbout id items :=
  eventsAbout_append id [item] items

/-- Sending an event whose predecessors are gone, or sending a list, keeps what is known about
the events that still wait. -/
theorem ends_send {id : CStr} {front back : List Item} {item : Item} {o : Option Entry}
    (h : Ends (eventsAbout id (front ++ item :: back)) o)
    (hfirst : ∀ ev, item = .event ev → ev.id = id → eventsAbout id front = []) :
    Ends (eventsAbout id (front ++ back)) o := by
  rw [eventsAbout_append, eventsAbout_cons] at h
  rw [eventsAbout_append]
  cases item with
  | list r => exact h
  | event ev =>
    by_cases hid : ev.id = id
    · rw [hfirst ev rfl hid] at h ⊢
      have hone : eventsAbout id [.event ev] = [ev] := by simp [eventsAbout, hid]
      rw [hone] at h
      exact h.tail
    · have hnone : eventsAbout id [.event ev] = [] := by simp [eventsAbout, hid]
      rwa [hnone] at h

/-! ## Lists -/

/-- A list that waits stands at the end of the events that led to it, and is the only one. -/
def ListsEnd (items : List Item) : Prop :=
  ∀ front back remote, items = front ++ .list remote :: back →
    (∀ r, .list r ∉ front) ∧ ∀ id, Ends (eventsAbout id front) (slot remote id)

theorem outstanding_concat (sent items : List Item) (waiting : List (List Item)) :
    outstanding sent (waiting ++ [items]) = outstanding sent waiting ++ items := by
  rw [outstanding, outstanding, List.flatten_append, List.flatten_singleton, List.append_assoc]

theorem flatten_concat (items : List Item) (waiting : List (List Item)) :
    (waiting ++ [items]).flatten = waiting.flatten ++ items := by
  rw [List.flatten_append, List.flatten_singleton]

theorem ListsEnd.concat {items : List Item} (h : ListsEnd items) (ev : Event) :
    ListsEnd (items ++ [.event ev]) := by
  intro front back remote heq
  rcases List.eq_nil_or_concat back with rfl | ⟨back', item, rfl⟩
  · have hlast := congrArg List.getLast? heq
    simp at hlast
  · rw [List.concat_eq_append, ← List.cons_append, ← List.append_assoc] at heq
    exact h front back' remote (List.append_inj_left' heq rfl)

/-! ## Sending -/

/-- An event overtakes events about other identifiers only, and a list no announcement of an
entry that it has with another address. -/
structure Overtakes (item : Item) (front : List Item) : Prop where
  event : ∀ ev, item = .event ev → ∀ item' ∈ front, ∃ ev', item' = .event ev' ∧ ev'.id ≠ ev.id
  list : ∀ remote, item = .list remote → ∀ e f, .event (.add e) ∈ front →
    slot remote e.id = some f → e.addr = f.addr

/-- A list that is read before the events that led to it changes nothing. -/
theorem follow_list_first {id : CStr} {front : List Item} {remote : Registry} {o m : Option Entry}
    (hno : ∀ r, .list r ∉ front)
    (hself : applyAll (eventsAbout id front) (slot remote id) = some (slot remote id))
    (h : follow id (front ++ [.list remote]) o = some m) :
    follow id (.list remote :: front) o = some m := by
  rw [follow_append] at h
  obtain ⟨m', hm', hlast⟩ := Option.bind_eq_some_iff.1 h
  cases remote with
  | nil =>
    obtain rfl : m' = m := Option.some.inj hlast
    exact hm'
  | cons e l =>
    obtain rfl : slot (e :: l) id = m := Option.some.inj hlast
    rw [follow_cons, Item.apply, Option.bind_some, follow_eventsAbout hno]
    exact hself

section Send
variable {waiting : List (List Item)} {i : ℕ} {item : Item} {rest : List Item}

theorem mem_of_mem_set (hi : waiting[i]? = some (item :: rest)) {item' : Item}
    (h : item' ∈ (waiting.set i rest).flatten) : item' ∈ waiting.flatten := by
  rw [flatten_set hi] at h
  rw [flatten_split hi]
  simp only [List.mem_append, List.mem_cons] at h ⊢
  tauto

theorem mem_of_waiting (hi : waiting[i]? = some (item :: rest)) : item ∈ waiting.flatten := by
  rw [flatten_split hi]
  simp

theorem Overtakes.followEvent (hi : waiting[i]? = some (item :: rest))
    (h : Overtakes item (waiting.take i).flatten) {ev : Event} (hev : item = .event ev)
    (sent : List Item) (id : CStr) (o : Option Entry) :
    follow id (outstanding (sent ++ [item]) (waiting.set i rest)) o =
      follow id (outstanding sent waiting) o := by
  rw [← follow_filter id (outstanding sent waiting), ← filter_send hi, follow_filter]
  intro habout item' hitem'
  obtain ⟨ev', rfl, hid⟩ := h.event ev hev item' hitem'
  subst hev
  have hevid : ev.id = id := by simpa [Item.about] using habout
  simpa [Item.about, hevid] using hid

theorem Overtakes.ends (hi : waiting[i]? = some (item :: rest))
    (h : Overtakes item (waiting.take i).flatten) {id : CStr} {o : Option Entry}
    (hends : Ends (eventsAbout id waiting.flatten) o) :
    Ends (eventsAbout id (waiting.set i rest).flatten) o := by
  rw [flatten_split hi, List.cons_append] at hends
  rw [flatten_set hi]
  refine ends_send hends fun ev hev hid => eventsAbout_eq_nil fun ev' hev' => ?_
  obtain ⟨ev'', heq, hne⟩ := h.event ev hev _ hev'
  cases heq
  exact hid ▸ hne

/-- Sending an event leaves a list that waits at the end of the events that led to it. -/
theorem Overtakes.listsEnd (hi : waiting[i]? = some (item :: rest))
    (h : Overtakes item (waiting.take i).flatten) {ev : Event} (hev : item = .event ev)
    (hend : ListsEnd waiting.flatten) : ListsEnd (waiting.set i rest).flatten := by
  intro front back remote heq
  rw [flatten_set hi] at heq
  -- no list is overtaken, so the list stands behind the event
  obtain ⟨mid, rfl, hmid⟩ : ∃ mid, front = (waiting.take i).flatten ++ mid ∧
      rest ++ (waiting.drop (i + 1)).flatten = mid ++ .list remote :: back := by
    rcases List.append_eq_append_iff.1 heq with ⟨mid, hfront, hmid⟩ | ⟨mid, hfront, hmid⟩
    · exact ⟨mid, hfront, hmid⟩
    · cases mid with
      | nil => exact ⟨[], by simpa using hfront.symm, by simpa using hmid.symm⟩
      | cons item' mid =>
        obtain rfl : Item.list remote = item' := (List.cons.inj hmid).1
        have hmem : Item.list remote ∈ (waiting.take i).flatten := by
          rw [hfront]
          exact List.mem_append_right _ List.mem_cons_self
        obtain ⟨ev', hev', -⟩ := h.event ev hev _ hmem
        cases hev'
  have hwhole : waiting.flatten =
      ((waiting.take i).flatten ++ item :: mid) ++ .list remote :: back := by
    rw [flatten_split hi, List.cons_append, hmid, List.append_assoc, List.cons_append]
  obtain ⟨hno, hends⟩ := hend _ _ _ hwhole
  refine ⟨fun r hr => hno r ?_, fun id => ends_send (hends id) fun ev' hev' hid =>
    eventsAbout_eq_nil fun ev'' hev'' => ?_⟩
  · simp only [List.mem_append, List.mem_cons] at hr ⊢
    tauto
  · obtain ⟨_, heq', hne⟩ := h.event ev' hev' _ hev''
    cases heq'
    exact hid ▸ hne

/-- Sending the list, the events that it overtakes change nothing any more. -/
theorem Overtakes.followList {remote : Registry} (hi : waiting[i]? = some (.list remote :: rest))
    (h : Overtakes (.list remote) (waiting.take i).flatten) (hend : ListsEnd waiting.flatten)
    {sent : List Item} {id : CStr} {o m : Option Entry}
    (hfollow : follow id (outstanding sent waiting) o = some m) :
    follow id (outstanding (sent ++ [.list remote]) (waiting.set i rest)) o = some m := by
  have hsplit := flatten_split hi
  rw [List.cons_append] at hsplit
  obtain ⟨hno, hends⟩ := hend _ _ _ hsplit
  have hself : applyAll (eventsAbout id (waiting.take i).flatten) (slot remote id) =
      some (slot remote id) := by
    refine (hends id).apply_self fun e f he hf => ?_
    obtain ⟨hmem, hid⟩ := mem_eventsAbout he
    exact h.list remote rfl e f hmem ((congrArg (slot remote) hid).trans hf)
  have hlist : Item.list remote :: (rest ++ (waiting.drop (i + 1)).flatten) =
      [.list remote] ++ (rest ++ (waiting.drop (i + 1)).flatten) := rfl
  rw [outstanding, hsplit, hlist, ← List.append_assoc (waiting.take i).flatten, follow_append] at hfollow
  obtain ⟨m₁, hm₁, hrest⟩ := Option.bind_eq_some_iff.1 hfollow
  rw [follow_append] at hrest
  obtain ⟨m₂, hm₂, hback⟩ := Option.bind_eq_some_iff.1 hrest
  rw [outstanding, flatten_set hi, List.append_assoc, follow_append, hm₁, Option.bind_some,
    ← List.append_assoc, follow_append]
  change (follow id (.list remote :: (waiting.take i).flatten) m₁).bind _ = _
  rw [follow_list_first hno hself hm₂]
  exact hback

theorem ListsEnd.sendList {remote : Registry} (hi : waiting[i]? = some (.list remote :: rest))
    (hend : ListsEnd waiting.flatten) (r : Registry) : .list r ∉ (waiting.set i rest).flatten := by
  have hsplit := flatten_split hi
  rw [List.cons_append] at hsplit
  rw [flatten_set hi, List.mem_append]
  rintro (hr | hr)
  · exact (hend _ _ _ hsplit).1 r hr
  · obtain ⟨mid, back, hmid⟩ := List.append_of_mem hr
    rw [hmid, ← List.cons_append, ← List.append_assoc] at hsplit
    exact (hend _ _ _ hsplit).1 remote (by simp)

end Send

end Rcom.Events
