import Rcom.Streamer
import Mathlib.Data.List.Nodup

/-!
# A client only gets whole parts (streamer.c)

A thread that has locked `clients_mutex` is the only one that writes. Between its question for the
space of a client and its two writes the client can only get more space, since its own thread
takes bytes out.
-/

namespace Rcom.Streaming
open Lib Lib.Program Lib.Trace

variable {T : Type} {dt : DoubleText T}

/-- What the client has read and what waits for it are complete encodings of parts that it was in
the list for, in the order of the calls, up to what the call that has locked the list has still to
write. The buffer still has every byte that waits. -/
def Whole (dt : DoubleText T) (s : Streamer T) (c : Client T) : Prop :=
  (∃ (sent : List (Part T)) (rest : Bytes), sent.Sublist c.offered ∧
    c.received ++ c.queue ++ rest = sent.flatMap (Part.encoding dt) ∧
    (s.holder = none → rest = [])) ∧
  ∃ r p, c.buffer = some r ∧ Lies bufferSize r p c.queue ∧ Lawful bufferSize r c.queue

/-! ## The invariant -/

structure Sound (dt : DoubleText T) (c : Client T) (room : ℤ) : Prop where
  buffer : ∃ r p, c.buffer = some r ∧ Lies bufferSize r p c.queue
  spare : c.queue.length < bufferSize
  parts : c.sent.Sublist c.offered
  stream : c.received ++ c.queue ++ c.owed = c.sent.flatMap (Part.encoding dt)
  room : room ≤ bufferSize - c.queue.length
  ready : 0 ≤ c.ready ∧ c.ready ≤ c.queue.length

structure Orderly (dt : DoubleText T) (s : Streamer T) : Prop where
  sound : ∀ k, Sound dt (s.client k) (s.room k)
  owed : s.holder = none → ∀ k, (s.client k).owed = []
  nodup : s.clients.Nodup
  seen : ∀ k ∈ s.clients, k ∈ s.seen

theorem sound_new (memory : ℕ → UInt8) : Sound dt (newClient memory) 0 := by
  constructor
  · exact ⟨_, 0, rfl, lies_new memory bufferSize⟩
  · exact (by decide : 0 < bufferSize)
  · exact .refl _
  · rfl
  · exact (by decide : (0 : ℤ) ≤ bufferSize - (0 : ℕ))
  · exact ⟨le_rfl, le_rfl⟩

theorem orderly_open (memory : ℕ → ℕ → UInt8) : Orderly dt (openStreamer memory) where
  sound _ := sound_new _
  owed _ _ := rfl
  nodup := .nil
  seen _ hk := absurd hk List.not_mem_nil

section
variable {c : Client T} {room : ℤ}

theorem Sound.buffered (h : Sound dt c room) : Buffered c.buffer c.queue := ⟨h.buffer, h.spare⟩

theorem Orderly.whole {s : Streamer T} (h : Orderly dt s) (k : ℕ) : Whole dt s (s.client k) :=
  ⟨⟨_, _, (h.sound k).parts, (h.sound k).stream, fun hfree => h.owed hfree k⟩,
    (h.sound k).buffered.lawful⟩

theorem ask_some (answer : ℤ) : c.ask (some answer) = c := rfl

theorem Sound.read (h : Sound dt c room) {len : ℕ} (hlen : (len : ℤ) ≤ c.ready) :
    ∃ r, c.buffer.bind (circularBufferRead · len) = some (c.queue.take len, r) ∧
      Sound dt (c.read len) room ∧ c.read len = { c with
        buffer := some r
        queue := c.queue.drop len
        received := c.received ++ c.queue.take len
        ready := c.ready - len } := by
  have hready := h.ready
  have hroom := h.room
  obtain ⟨r', hcall, hbuffered⟩ := h.buffered.read (k := len) (by omega)
  have hclient : c.read len = { c with
      buffer := some r'
      queue := c.queue.drop len
      received := c.received ++ c.queue.take len
      ready := c.ready - len } := by
    rw [Client.read, hcall]
    rfl
  refine ⟨r', hcall, ?_, hclient⟩
  rw [hclient]
  constructor
  · exact hbuffered.lies
  · exact hbuffered.spare
  · exact h.parts
  · rw [List.append_assoc, List.append_assoc, ← List.append_assoc (c.queue.take len),
      List.take_append_drop, ← List.append_assoc]
    exact h.stream
  · rw [List.length_drop]
    omega
  · rw [List.length_drop]
    dsimp only
    omega

theorem Sound.write (h : Sound dt c room) {data : Bytes} (hdata : data.length < room) :
    ∃ r p, c.write (some data) = { c with buffer := some r, queue := c.queue ++ data } ∧
      Lies bufferSize r p (c.queue ++ data) := by
  have hroom := h.room
  obtain ⟨r, hwrite, hbuffered⟩ := h.buffered.write (b := data) (by omega)
  obtain ⟨_, p, hr, hlies⟩ := hbuffered.lies
  obtain rfl := Option.some_inj.1 hr
  refine ⟨r, p, ?_, hlies⟩
  rw [Client.write, accepted, if_pos (by omega)]
  exact congrArg (fun buffer => { c with buffer, queue := c.queue ++ data }) hwrite

theorem headerText_eq {part : Part T} (hfits : part.Fits dt) :
    headerText dt part = some (part.header dt) := by
  unfold Part.Fits headerSize at hfits
  rw [headerText, headerSize, List.take_of_length_le (by omega)]
  have hslice := slice_eq_some (b := part.header dt ++ [0]) (i := 0)
    (j := (part.header dt).length) (by rw [List.length_append]; omega)
  rw [List.drop_zero, List.take_left] at hslice
  exact hslice

theorem Sound.writeHeader (h : Sound dt c room) {part : Part T} (hfits : part.Fits dt)
    (howed : c.owed = []) (hparts : (c.sent ++ [part]).Sublist c.offered)
    (hroom : (part.header dt).length < room) :
    Sound dt (c.writeHeader dt part) (room - (part.header dt).length) := by
  have hready := h.ready
  have hroom' := h.room
  obtain ⟨r, p, hwrite, hlies⟩ := h.write hroom
  rw [Client.writeHeader, headerText_eq hfits, hwrite]
  constructor
  · exact ⟨r, p, rfl, hlies⟩
  · rw [List.length_append]
    omega
  · exact hparts
  · have hstream := h.stream
    rw [howed, List.append_nil] at hstream
    rw [List.flatMap_append, ← hstream]
    simp [Part.encoding]
  · rw [List.length_append]
    omega
  · rw [List.length_append]
    dsimp only
    omega

theorem Sound.writeData (h : Sound dt c room) {part : Part T} (howed : c.owed = part.data)
    (hroom : part.data.length < room) :
    Sound dt (c.writeData part) (room - part.data.length) ∧ (c.writeData part).owed = [] := by
  have hready := h.ready
  have hroom' := h.room
  obtain ⟨r, p, hwrite, hlies⟩ := h.write hroom
  rw [Client.writeData, hwrite, accepted, if_pos (by omega), howed, List.drop_length]
  refine ⟨?_, rfl⟩
  constructor
  · exact ⟨r, p, rfl, hlies⟩
  · rw [List.length_append]
    omega
  · exact h.parts
  · rw [List.append_nil, ← h.stream, howed, List.append_assoc]
  · rw [List.length_append]
    omega
  · rw [List.length_append]
    dsimp only
    omega

end

/-! ## What a thread sees -/

/-- What the thread that has locked the clients knows of one of them. -/
structure Desk (T : Type) where
  room : ℤ
  offered : List (Part T)
  sent : List (Part T)
  owed : Bytes

/-- `desk` is there while the thread has locked the clients, `ready` for the clients it reads for. -/
structure View (T : Type) where
  desk : Option (ℕ → Desk T)
  ready : ℕ → Option ℤ

def Streamer.desk (s : Streamer T) (k : ℕ) : Desk T :=
  ⟨s.room k, (s.client k).offered, (s.client k).sent, (s.client k).owed⟩

def Streamer.view (reader : ℕ → ℕ) (s : Streamer T) (i : ℕ) : View T where
  desk := if s.holder = some i then some s.desk else none
  ready k := if reader k = i then some (s.client k).ready else none

def Desk.offer (part : Part T) (clients : List ℕ) (d : ℕ → Desk T) (k : ℕ) : Desk T :=
  if k ∈ clients then { d k with offered := (d k).offered ++ [part] } else d k

def Sees (dt : DoubleText T) (v : View T) : (a : Act T) → a.Answer → View T → Prop
  | .lockClients, _, w => ∃ d, w = { v with desk := some d } ∧
      ∀ k, (d k).owed = [] ∧ (d k).sent.Sublist (d k).offered
  | .unlockClients, _, w => w = { v with desk := none }
  | .getClients part, clients, w =>
    List.Nodup clients ∧ w = { v with desk := v.desk.map (Desk.offer part clients) }
  | .sum x, (r : ℤ), w => (∀ y ∈ int x, r = y) ∧ w = v
  | .spaceAvailable k, (r : ℤ), w =>
    w = { v with desk := v.desk.map fun d => Function.update d k { d k with room := r } }
  | .writeHeader k part, _, w =>
    w = { v with desk := v.desk.map fun d => Function.update d k { d k with
      room := (d k).room - (part.header dt).length
      sent := (d k).sent ++ [part]
      owed := part.data } }
  | .writeData k part, _, w =>
    w = { v with desk := v.desk.map fun d => Function.update d k { d k with
      room := (d k).room - part.data.length
      owed := [] } }
  | .dataAvailable k, (r : ℤ), w =>
    0 ≤ r ∧ r ≤ bufferSize ∧ w = { v with ready := Function.update v.ready k (some r) }
  | .read k len, _, w =>
    w = { v with ready := Function.update v.ready k ((v.ready k).map (· - len)) }
  | _, _, w => w = v

def Keeps (dt : DoubleText T) (v : View T) : Act T → Prop
  | .unlockClients => ∃ d, v.desk = some d ∧ ∀ k, (d k).owed = []
  | .getClients _ | .appendClient _ | .removeClient _ | .spaceAvailable _ => v.desk.isSome
  | .writeHeader k part => ∃ d, v.desk = some d ∧ (d k).owed = [] ∧
      ((d k).sent ++ [part]).Sublist (d k).offered ∧ part.Fits dt ∧
      (part.header dt).length < (d k).room
  | .writeData k part => ∃ d, v.desk = some d ∧ (d k).owed = part.data ∧
      part.data.length < (d k).room
  | .dataAvailable k => (v.ready k).isSome
  | .read k len => ∃ n, v.ready k = some n ∧ 0 ≤ len ∧ len ≤ n
  | _ => True

section
variable {reader : ℕ → ℕ} {s t : Streamer T} {i : ℕ}

theorem desk_some {d : ℕ → Desk T} :
    (s.view reader i).desk = some d ↔ s.holder = some i ∧ s.desk = d := by
  simp [Streamer.view]

theorem desk_isSome : (s.view reader i).desk.isSome ↔ s.holder = some i := by
  simp [Streamer.view]

theorem ready_some {k : ℕ} {n : ℤ} :
    (s.view reader i).ready k = some n ↔ reader k = i ∧ (s.client k).ready = n := by
  simp [Streamer.view]

theorem desk_put (k : ℕ) (c : Client T) (room : ℤ) :
    (s.put k c room).desk = Function.update s.desk k ⟨room, c.offered, c.sent, c.owed⟩ := by
  funext j
  by_cases hj : j = k
  · subst hj
    simp [Streamer.desk, Streamer.put]
  · simp [Streamer.desk, Streamer.put, Function.update_of_ne hj]

/-- What the thread that has locked the clients changes is seen by no other. -/
theorem view_put_holder {k : ℕ} {c : Client T} {room : ℤ} (hholder : s.holder = some i)
    (hready : c.ready = (s.client k).ready) :
    (s.put k c room).view reader i = { s.view reader i with
        desk := some (Function.update s.desk k ⟨room, c.offered, c.sent, c.owed⟩) } ∧
      ∀ j, j ≠ i → (s.put k c room).view reader j = s.view reader j := by
  have hsame : ∀ l, ((s.put k c room).client l).ready = (s.client l).ready := by
    intro l
    by_cases hl : l = k
    · subst hl
      simp [Streamer.put, hready]
    · simp [Streamer.put, Function.update_of_ne hl]
  constructor
  · have hholder' : (s.put k c room).holder = some i := hholder
    simp only [Streamer.view, desk_put, hsame]
    rw [if_pos hholder']
  · intro j hj
    have hother : ¬s.holder = some j := fun h => hj (Option.some_inj.1 (h.symm.trans hholder))
    have hother' : ¬(s.put k c room).holder = some j := hother
    simp only [Streamer.view, hsame]
    rw [if_neg hother', if_neg hother]

theorem view_put_reader {k : ℕ} {c : Client T} (hreader : reader k = i)
    (hdesk : (⟨s.room k, c.offered, c.sent, c.owed⟩ : Desk T) = s.desk k) :
    (s.put k c (s.room k)).view reader i = { s.view reader i with
        ready := Function.update (s.view reader i).ready k (some c.ready) } ∧
      ∀ j, j ≠ i → (s.put k c (s.room k)).view reader j = s.view reader j := by
  have hsame : (s.put k c (s.room k)).desk = s.desk := by
    rw [desk_put, hdesk, Function.update_eq_self]
  constructor
  · simp only [Streamer.view, hsame]
    congr 1
    funext l
    by_cases hl : l = k
    · subst hl
      simp [Streamer.put, hreader]
    · simp [Streamer.put, Function.update_of_ne hl]
  · intro j hj
    simp only [Streamer.view, hsame]
    congr 1
    funext l
    by_cases hl : l = k
    · subst hl
      have hother : ¬reader l = j := fun h => hj (h.symm.trans hreader)
      rw [if_neg hother, if_neg hother]
    · simp [Streamer.put, Function.update_of_ne hl]

theorem Orderly.put (h : Orderly dt s) {k : ℕ} {c : Client T} {room : ℤ} (hc : Sound dt c room)
    (howed : s.holder = none → c.owed = []) : Orderly dt (s.put k c room) where
  sound l := by
    by_cases hl : l = k
    · subst hl
      simpa [Streamer.put] using hc
    · simpa [Streamer.put, Function.update_of_ne hl] using h.sound l
  owed hfree l := by
    by_cases hl : l = k
    · subst hl
      simpa [Streamer.put] using howed hfree
    · simpa [Streamer.put, Function.update_of_ne hl] using h.owed hfree l
  nodup := h.nodup
  seen := h.seen

theorem Sound.offer {part : Part T} {k : ℕ} {room : ℤ} (h : Sound dt (s.client k) room) :
    Sound dt (s.offer part k) room := by
  unfold Streamer.offer
  split
  · exact ⟨h.buffer, h.spare, h.parts.trans (List.sublist_append_left _ _), h.stream, h.room,
      h.ready⟩
  · exact h

theorem view_step {a : Act T} {r : a.Answer} (hs : Orderly dt s)
    (hkeeps : Keeps dt (s.view reader i) a) (hdoes : s.Does dt i a r t) :
    Orderly dt t ∧ Sees dt (s.view reader i) a r (t.view reader i) ∧
      ∀ j, j ≠ i → t.view reader j = s.view reader j := by
  cases a with
  | lockClients =>
    obtain ⟨hfree, rfl⟩ := hdoes
    refine ⟨⟨hs.sound, nofun, hs.nodup, hs.seen⟩, ⟨s.desk, ?_, fun k => ?_⟩, fun j hj => ?_⟩
    · simp [Streamer.view]
      rfl
    · exact ⟨hs.owed hfree k, (hs.sound k).parts⟩
    · have hother : ¬some i = some j := fun h => hj (Option.some_inj.1 h).symm
      simp [Streamer.view, hfree, hother]
  | unlockClients =>
    obtain rfl := hdoes
    obtain ⟨d, hdesk, howed⟩ := hkeeps
    obtain ⟨hholder, rfl⟩ := desk_some.1 hdesk
    refine ⟨⟨hs.sound, fun _ => howed, hs.nodup, hs.seen⟩, rfl, fun j hj => ?_⟩
    have hother : ¬s.holder = some j := fun h => hj (Option.some_inj.1 (h.symm.trans hholder))
    simp [Streamer.view, hother]
  | getClients part =>
    obtain ⟨rfl, rfl⟩ := hdoes
    have hholder := desk_isSome.1 hkeeps
    have hready : ∀ k, (s.offer part k).ready = (s.client k).ready := by
      intro k
      unfold Streamer.offer
      split <;> rfl
    have hfree : ¬s.holder = none := by simp [hholder]
    refine ⟨⟨fun k => (hs.sound k).offer, fun h => absurd h hfree, hs.nodup, hs.seen⟩,
      ⟨hs.nodup, ?_⟩, fun j hj => ?_⟩
    · simp only [Streamer.view, hready]
      rw [if_pos hholder, if_pos hholder]
      congr 2
      funext k
      simp only [Streamer.desk, Streamer.offer, Desk.offer]
      split <;> rfl
    · have hother : ¬s.holder = some j := fun h => hj (Option.some_inj.1 (h.symm.trans hholder))
      simp only [Streamer.view, hready]
      rw [if_neg hother, if_neg hother]
  | appendClient k =>
    obtain ⟨hnew, rfl⟩ := hdoes
    refine ⟨⟨hs.sound, hs.owed, ?_, fun l hl => ?_⟩, rfl, fun _ _ => rfl⟩
    · refine hs.nodup.append (List.nodup_singleton k) fun l hl hk => ?_
      obtain rfl := List.mem_singleton.1 hk
      exact hnew (hs.seen l hl)
    · obtain hl | hl := List.mem_append.1 hl
      · exact List.mem_cons_of_mem _ (hs.seen l hl)
      · exact List.mem_singleton.1 hl ▸ List.mem_cons_self
  | removeClient k =>
    obtain rfl := hdoes
    exact ⟨⟨hs.sound, hs.owed, hs.nodup.erase k, fun l hl => hs.seen l (List.mem_of_mem_erase hl)⟩,
      rfl, fun _ _ => rfl⟩
  | sum x =>
    obtain ⟨hr, rfl⟩ := hdoes
    exact ⟨hs, ⟨hr, rfl⟩, fun _ _ => rfl⟩
  | spaceAvailable k =>
    obtain ⟨hr, rfl⟩ := hdoes
    have hholder := desk_isSome.1 hkeeps
    have hc := hs.sound k
    have hspace := hc.buffered.space
    rw [hspace] at hr ⊢
    obtain rfl := hr _ rfl
    rw [ask_some]
    obtain ⟨hview, hothers⟩ := @view_put_holder _ reader _ _ k (s.client k)
      (bufferSize - (s.client k).queue.length) hholder rfl
    refine ⟨hs.put ?_ fun hfree => hs.owed hfree k, ?_, hothers⟩
    · exact ⟨hc.buffer, hc.spare, hc.parts, hc.stream, le_rfl, hc.ready⟩
    · rw [hview, Sees, desk_some.2 ⟨hholder, rfl⟩]
      rfl
  | writeHeader k part =>
    obtain rfl := hdoes
    obtain ⟨d, hdesk, howed, hparts, hfits, hroom⟩ := hkeeps
    obtain ⟨hholder, rfl⟩ := desk_some.1 hdesk
    have hc := (hs.sound k).writeHeader hfits howed hparts hroom
    have hle := (hs.sound k).room
    have hlen : accepted (headerText dt part) = part.header dt := by
      rw [headerText_eq hfits, accepted, if_pos]
      change ((part.header dt).length : ℤ) < s.room k at hroom
      omega
    obtain ⟨hview, hothers⟩ := @view_put_holder _ reader _ _ k
      ((s.client k).writeHeader dt part) (s.room k - (part.header dt).length) hholder rfl
    rw [hlen]
    refine ⟨hs.put hc fun hfree => ?_, ?_, hothers⟩
    · rw [hholder] at hfree
      cases hfree
    · rw [hview, Sees, hdesk]
      rfl
  | writeData k part =>
    obtain rfl := hdoes
    obtain ⟨d, hdesk, howed, hroom⟩ := hkeeps
    obtain ⟨hholder, rfl⟩ := desk_some.1 hdesk
    obtain ⟨hc, howed'⟩ := (hs.sound k).writeData howed hroom
    have hle := (hs.sound k).room
    have hlen : accepted (some part.data) = part.data := by
      rw [accepted, if_pos]
      change (part.data.length : ℤ) < s.room k at hroom
      omega
    obtain ⟨hview, hothers⟩ := @view_put_holder _ reader _ _ k
      ((s.client k).writeData part) (s.room k - part.data.length) hholder rfl
    rw [hlen]
    refine ⟨hs.put hc fun _ => howed', ?_, hothers⟩
    rw [hview, Sees, hdesk, howed']
    rfl
  | dataAvailable k =>
    obtain ⟨hr, rfl⟩ := hdoes
    have hc := hs.sound k
    have hdata := hc.buffered.data
    rw [hdata] at hr ⊢
    obtain rfl := hr _ rfl
    rw [ask_some]
    obtain ⟨n, hready⟩ := Option.isSome_iff_exists.1 hkeeps
    obtain ⟨hreader, -⟩ := ready_some.1 hready
    have hspare := hc.spare
    obtain ⟨hview, hothers⟩ := view_put_reader (s := s) (k := k)
      (c := { s.client k with ready := (s.client k).queue.length }) hreader rfl
    refine ⟨hs.put ?_ fun hfree => hs.owed hfree k, ⟨?_, ?_, hview⟩, hothers⟩
    · exact ⟨hc.buffer, hc.spare, hc.parts, hc.stream, hc.room, Int.natCast_nonneg _, le_rfl⟩
    · omega
    · omega
  | read k len =>
    obtain ⟨hr, rfl⟩ := hdoes
    obtain ⟨n, hready, h0, hlen⟩ := hkeeps
    obtain ⟨hreader, rfl⟩ := ready_some.1 hready
    obtain ⟨l, rfl⟩ := Int.eq_ofNat_of_zero_le h0
    obtain ⟨r', hread, hc, hclient⟩ := (hs.sound k).read hlen
    obtain ⟨hview, hothers⟩ := view_put_reader (s := s) (c := (s.client k).read l) hreader
      (by rw [hclient]; rfl)
    refine ⟨hs.put hc fun hfree => ?_, ?_, hothers⟩
    · rw [hclient]
      exact hs.owed hfree k
    · change (s.put k ((s.client k).read l) (s.room k)).view reader i = _
      rw [hview, hclient, hready]
      rfl
  | quit =>
    obtain rfl := hdoes
    exact ⟨hs, rfl, fun _ _ => rfl⟩

end

/-! ## The threads keep to their knowledge -/

abbrev Following (dt : DoubleText T) {α : Type} (Q : α → View T → Prop) (p : Program T α)
    (v : View T) : Prop :=
  wp (Sees dt) (Keeps dt) True Q p v

section
variable {v : View T} {part : Part T}

theorem owed_update {d : ℕ → Desk T} (howed : ∀ k, (d k).owed = []) {b : ℕ} {x : Desk T}
    (hx : x.owed = []) (k : ℕ) : (Function.update d b x k).owed = [] := by
  by_cases hk : k = b
  · rw [hk, Function.update_self, hx]
  · rw [Function.update_of_ne hk, howed]

theorem following_sendToClients {Q : Unit → View T → Prop} {l : List ℕ} {d : ℕ → Desk T}
    (hl : l.Nodup) (hfits : part.Fits dt) (hdesk : v.desk = some d) (howed : ∀ k, (d k).owed = [])
    (hoffer : ∀ k ∈ l, ((d k).sent ++ [part]).Sublist (d k).offered)
    (hQ : ∀ w d', w.ready = v.ready → w.desk = some d' → (∀ k, (d' k).owed = []) → Q () w) :
    Following dt Q (sendToClients ((part.header dt).length + part.data.length) part l) v := by
  induction l generalizing v d with
  | nil => exact hQ v d rfl hdesk howed
  | cons b l ih =>
    obtain ⟨hb, hl⟩ := List.nodup_cons.1 hl
    have hkeep : ∀ (x : Desk T), ∀ k ∈ l, Function.update d b x k = d k := by
      intro x k hk
      have hne : k ≠ b := fun h => hb (h ▸ hk)
      rw [Function.update_of_ne hne]
    refine ⟨by simp [Keeps, hdesk], fun (space : ℤ) w hw => ?_⟩
    obtain rfl : w = { v with desk := some (Function.update d b { d b with room := space }) } := by
      rw [hw, hdesk]
      rfl
    change Following dt Q (if _ < space then _ else sendToClients _ part l) _
    split_ifs with hroom
    · have hlarge : (part.data.length : ℤ) < space - (part.header dt).length := by omega
      refine ⟨⟨_, rfl, ?_, ?_, hfits, ?_⟩, fun _ w hw => ?_⟩
      · simpa using howed b
      · simpa using hoffer b List.mem_cons_self
      · rw [Function.update_self]
        dsimp only
        omega
      · rw [hw]
        simp only [Option.map_some, Function.update_self, Function.update_idem]
        refine ⟨⟨_, rfl, ?_, ?_⟩, fun _ w hw => ?_⟩
        · rw [Function.update_self]
        · rw [Function.update_self]
          exact hlarge
        · rw [hw]
          simp only [Option.map_some, Function.update_self, Function.update_idem]
          apply ih hl rfl
          · exact owed_update howed rfl
          · intro k hk
            rw [hkeep _ k hk]
            exact hoffer k (List.mem_cons_of_mem b hk)
          · exact hQ
    · apply ih hl rfl
      · exact owed_update howed (howed b)
      · intro k hk
        rw [hkeep _ k hk]
        exact hoffer k (List.mem_cons_of_mem b hk)
      · exact hQ

theorem following_sendMultipart {Q : Unit → View T → Prop} (hfits : part.Fits dt)
    (hsum : (part.header dt).length + part.data.length ≤ intMax)
    (hQ : ∀ w, w.ready = v.ready → w.desk = none → Q () w) :
    Following dt Q (streamerSendMultipart dt part) v := by
  refine ⟨trivial, fun (totalLen : ℤ) w hw => ?_⟩
  obtain ⟨hr, rfl⟩ := hw
  obtain rfl := hr _ (int_eq_some (by unfold intMax; omega) hsum)
  refine ⟨trivial, fun _ w hw => ?_⟩
  obtain ⟨d, rfl, hd⟩ := hw
  refine ⟨rfl, fun (clients : List ℕ) w hw => ?_⟩
  obtain ⟨hnodup, rfl⟩ := hw
  change Following dt Q (sendToClients _ part clients >>= fun _ => doing .unlockClients) _
  apply wp_bind.2
  refine following_sendToClients (d := Desk.offer part clients d) hnodup hfits ?_
    (fun k => ?_) (fun k hk => ?_) ?_
  · rfl
  · unfold Desk.offer
    split
    · exact (hd k).1
    · exact (hd k).1
  · rw [Desk.offer, if_pos hk]
    exact (hd k).2.append (.refl [part])
  · intro w d' hready hdesk howed
    refine ⟨⟨d', hdesk, howed⟩, fun _ u hu => ?_⟩
    obtain rfl := hu
    exact hQ _ hready rfl

theorem following_sendAll {parts : List (Part T)} (hfits : ∀ p ∈ parts, p.Fits dt)
    (hsum : ∀ p ∈ parts, (p.header dt).length + p.data.length ≤ intMax) :
    Following dt (fun _ _ => True) (sendAll dt parts) v := by
  induction parts generalizing v with
  | nil => trivial
  | cons part parts ih =>
    simp only [List.mem_cons, forall_eq_or_imp] at hfits hsum
    apply wp_bind.2
    exact following_sendMultipart hfits.1 hsum.1 fun w _ _ => ih hfits.2 hsum.2

theorem following_awaitData {Q : Option ℤ → View T → Prop} {client rounds : ℕ} {available : ℤ}
    (h0 : 0 ≤ available) (hmax : available ≤ bufferSize)
    (hready : v.ready client = some available)
    (hQ : ∀ found w, (∀ n : ℤ, found = some n → w.ready client = some n ∧ 0 ≤ n ∧ n ≤ bufferSize) →
      (w.ready client).isSome → Q found w) :
    Following dt Q (awaitData client rounds available) v := by
  have hfound : ∀ n : ℤ, some available = some n →
      v.ready client = some n ∧ 0 ≤ n ∧ n ≤ bufferSize := by
    intro n hn
    obtain rfl := Option.some_inj.1 hn
    exact ⟨hready, h0, hmax⟩
  induction rounds generalizing v available with
  | zero =>
    rw [awaitData]
    split_ifs
    · trivial
    · exact hQ _ v hfound (by simp [hready])
  | succ rounds ih =>
    rw [awaitData]
    split_ifs
    · refine ⟨trivial, fun (quit : Bool) w (hw : w = v) => ?_⟩
      rw [hw]
      cases quit with
      | true => exact hQ _ _ nofun (by simp [hready])
      | false =>
        refine ⟨by simp [Keeps, hready], fun (available : ℤ) w hw => ?_⟩
        obtain ⟨h0', hmax', rfl⟩ := hw
        have hready' := Function.update_self client (some available) v.ready
        refine ih h0' hmax' ?_ fun n hn => ?_
        · exact hready'
        · obtain rfl := Option.some_inj.1 hn
          exact ⟨hready', h0', hmax'⟩
    · exact hQ _ v hfound (by simp [hready])

theorem following_clientRead {Q : Bytes → View T → Prop} {rounds client len : ℕ}
    (hready : (v.ready client).isSome) (hQ : ∀ out w, (w.ready client).isSome → Q out w) :
    Following dt Q (streamerClientRead rounds client len) v := by
  refine ⟨hready, fun (available : ℤ) w hw => ?_⟩
  obtain ⟨h0, hmax, rfl⟩ := hw
  change Following dt Q (awaitData client rounds available >>= _) _
  apply wp_bind.2
  refine following_awaitData h0 hmax ?_ fun found w hfound hsome => ?_
  · exact Function.update_self client _ v.ready
  cases found with
  | none => exact hQ [] w hsome
  | some n =>
    obtain ⟨hn, hn0, hnmax⟩ := hfound n rfl
    have hunsigned : n % 4294967296 = n := by
      unfold bufferSize at hnmax
      omega
    refine ⟨⟨n, hn, ?_, ?_⟩, fun out u hu => ?_⟩
    · split_ifs <;> omega
    · split_ifs <;> omega
    · obtain rfl := hu
      exact hQ _ _ (by simp [hn])

theorem following_readAll {rounds client : ℕ} {lens : List ℕ} (hready : (v.ready client).isSome) :
    Following dt (fun _ _ => True) (readAll rounds client lens) v := by
  induction lens generalizing v with
  | nil =>
    refine ⟨trivial, fun _ w hw => ?_⟩
    obtain ⟨d, rfl, hd⟩ := hw
    refine ⟨rfl, fun _ w hw => ?_⟩
    obtain rfl := hw
    exact ⟨⟨d, rfl, fun k => (hd k).1⟩, fun _ _ _ => trivial⟩
  | cons len lens ih =>
    apply wp_bind.2
    exact following_clientRead hready fun _ w hw => ih hw

theorem following_addAll {clients : List ℕ} :
    Following dt (fun _ _ => True) (addAll (T := T) clients) v := by
  induction clients generalizing v with
  | nil => trivial
  | cons client clients ih =>
    refine ⟨trivial, fun _ w hw => ?_⟩
    obtain ⟨d, rfl, hd⟩ := hw
    refine ⟨rfl, fun _ w hw => ?_⟩
    obtain rfl := hw
    exact ⟨⟨d, rfl, fun k => (hd k).1⟩, fun _ _ _ => ih⟩

end

/-! ## Every run -/

def Job.reads : Job T → Option ℕ
  | .reader _ client _ => some client
  | _ => none

def Job.parts : Job T → List (Part T)
  | .sender parts => parts
  | _ => []

theorem following_job {reader : ℕ → ℕ} {i : ℕ} {job : Job T} {s : Streamer T}
    (hfits : ∀ p ∈ job.parts, p.Fits dt)
    (hsum : ∀ p ∈ job.parts, (p.header dt).length + p.data.length ≤ intMax)
    (hreader : ∀ client ∈ job.reads, reader client = i) :
    Following dt (fun _ _ => True) (job.program dt) (s.view reader i) := by
  cases job with
  | sender parts => exact following_sendAll hfits hsum
  | reader rounds client lens =>
    exact following_readAll (by simp [Streamer.view, hreader client rfl])
  | server clients => exact following_addAll

def OneReader (jobs : List (Job T)) : Prop :=
  ∀ (i j : ℕ) (job job' : Job T) (client : ℕ), jobs[i]? = some job → jobs[j]? = some job' →
    job.reads = some client → job'.reads = some client → i = j

theorem OneReader.exists_reader {jobs : List (Job T)} (h : OneReader jobs) :
    ∃ reader : ℕ → ℕ, ∀ i job, jobs[i]? = some job →
      ∀ client ∈ job.reads, reader client = i := by
  classical
  let reads (client i : ℕ) : Prop := ∃ job, jobs[i]? = some job ∧ job.reads = some client
  refine ⟨fun client => if hi : ∃ i, reads client i then hi.choose else 0, ?_⟩
  intro i job hjob client hclient
  have hi : ∃ i, reads client i := ⟨i, job, hjob, hclient⟩
  obtain ⟨job', hjob', hclient'⟩ := hi.choose_spec
  dsimp only
  rw [dif_pos hi]
  exact h _ _ _ _ _ hjob' hjob hclient' hclient

/-- As long as no sum of a header and its data is out of range, every client gets whole parts only. -/
theorem client_gets_whole_parts {memory : ℕ → ℕ → UInt8} {jobs : List (Job T)}
    (hreaders : OneReader jobs) (hfits : ∀ job ∈ jobs, ∀ p ∈ job.parts, p.Fits dt)
    (hsum : ∀ job ∈ jobs, ∀ p ∈ job.parts, (p.header dt).length + p.data.length ≤ intMax)
    {ms : List (Move _ _)} {d : Threads (Streamer T) (Act.Answer (T := T)) Unit}
    (hrun : Run (ThreadStep (Streamer.Does dt)) (openStreamer memory, jobs.map (Job.program dt))
      ms d) (k : ℕ) :
    Whole dt d.1 (d.1.client k) := by
  obtain ⟨reader, hreader⟩ := hreaders.exists_reader
  have hconform : Conform (Streamer.view reader) (Sees dt) (Keeps dt)
      (openStreamer memory, jobs.map (Job.program dt)) := by
    intro i p hp
    rw [List.getElem?_map] at hp
    obtain ⟨job, hjob, rfl⟩ := Option.map_eq_some_iff.1 hp
    have hmem := List.mem_of_getElem? hjob
    exact following_job (hfits job hmem) (hsum job hmem) (hreader i job hjob)
  have hstep : ∀ (i : ℕ) (s : Streamer T) (a : Act T) (r : a.Answer) (t : Streamer T),
      Orderly dt s → Keeps dt (s.view reader i) a → s.Does dt i a r t → True →
      Orderly dt t ∧ Sees dt (s.view reader i) a r (t.view reader i) ∧
        ∀ j, j ≠ i → t.view reader j = s.view reader j :=
    fun _ _ _ _ _ hs hkeeps hdoes _ => view_step hs hkeeps hdoes
  have hinv := threads_run (G := fun _ _ _ _ _ => True) hstep hrun (fun _ _ => trivial)
    (orderly_open memory) hconform
  exact hinv.1.whole k

/-! ### One way in which the system answers -/

/-- A sum out of range, as the usual compilers leave it. -/
def wrap (x : ℤ) : ℤ := if intMax < x then x - 4294967296 else x

theorem wrap_of_int {x y : ℤ} (h : int x = some y) : wrap x = y := by
  unfold int at h
  split_ifs at h with hx
  rw [wrap, if_neg (not_lt.2 hx.2)]
  exact Option.some_inj.1 h

section
variable (s : Streamer T)

def Streamer.answer : (a : Act T) → a.Answer
  | .getClients _ => s.clients
  | .sum x => wrap x
  | .spaceAvailable k => ((s.client k).buffer.bind circularBufferSpaceAvailable).getD 0
  | .dataAvailable k => ((s.client k).buffer.bind circularBufferDataAvailable).getD 0
  | .read k len => ((s.client k).buffer.bind (circularBufferRead · len)).elim [] Prod.fst
  | .quit => true
  | .lockClients | .unlockClients | .appendClient _ | .removeClient _ => ()
  | .writeHeader _ _ | .writeData _ _ => ()

def Streamer.next (dt : DoubleText T) (i : ℕ) : Act T → Option (Streamer T)
  | .lockClients => if s.holder = none then some { s with holder := some i } else none
  | .unlockClients => some { s with holder := none }
  | .getClients part => some { s with client := s.offer part }
  | .appendClient k =>
    if k ∈ s.seen then none else some { s with clients := s.clients ++ [k], seen := k :: s.seen }
  | .removeClient k => some { s with clients := s.clients.erase k }
  | .sum _ | .quit => some s
  | .spaceAvailable k =>
    let answer := (s.client k).buffer.bind circularBufferSpaceAvailable
    some (s.put k ((s.client k).ask answer) (answer.getD 0))
  | .writeHeader k part => some (s.put k ((s.client k).writeHeader dt part)
      (s.room k - (accepted (headerText dt part)).length))
  | .writeData k part => some (s.put k ((s.client k).writeData part)
      (s.room k - (accepted (some part.data)).length))
  | .dataAvailable k =>
    let answer := (s.client k).buffer.bind circularBufferDataAvailable
    some (s.put k { (s.client k).ask answer with ready := answer.getD 0 } (s.room k))
  | .read k len => some (s.put k ((s.client k).read len) (s.room k))

variable {s}

theorem does_next {i : ℕ} {a : Act T} {t : Streamer T} (h : s.next dt i a = some t) :
    s.Does dt i a (s.answer a) t := by
  cases a with
  | lockClients =>
    simp only [Streamer.next] at h
    split_ifs at h with hfree
    exact ⟨hfree, (Option.some.inj h).symm⟩
  | appendClient k =>
    simp only [Streamer.next] at h
    split_ifs at h with hnew
    exact ⟨hnew, (Option.some.inj h).symm⟩
  | sum x =>
    obtain rfl := Option.some.inj h
    exact ⟨fun y hy => wrap_of_int hy, rfl⟩
  | spaceAvailable k =>
    obtain rfl := Option.some.inj h
    exact ⟨fun y hy => by simp [Streamer.answer, Option.mem_def.1 hy], rfl⟩
  | dataAvailable k =>
    obtain rfl := Option.some.inj h
    exact ⟨fun y hy => by simp [Streamer.answer, Option.mem_def.1 hy], rfl⟩
  | read k len =>
    obtain rfl := Option.some.inj h
    refine ⟨fun y hy => ?_, rfl⟩
    rw [Streamer.answer, Option.mem_def.1 hy]
    rfl
  | getClients part =>
    obtain rfl := Option.some.inj h
    exact ⟨rfl, rfl⟩
  | _ =>
    obtain rfl := Option.some.inj h
    exact rfl

theorem run_answered {i : ℕ} {ps : List (Program T Unit)} {p : Program T Unit}
    (hi : ps[i]? = some p) (s : Streamer T) :
    ∃ ms, Run (ThreadStep (Streamer.Does dt)) (s, ps) ms
      ((follow Streamer.answer (Streamer.next · dt i) p s).1,
        ps.set i (follow Streamer.answer (Streamer.next · dt i) p s).2) := by
  have hstep : ∀ (s : Streamer T) (a : Act T) (t : Streamer T), s.next dt i a = some t →
      s.Does dt i a (s.answer a) t ∧ True := fun s a t h => ⟨does_next h, trivial⟩
  obtain ⟨ms, hrun, hms⟩ := run_follow (G := fun _ _ => True) hstep p s
  obtain ⟨ms', hrun', -⟩ := run_thread (G := fun _ _ => True) hrun hms hi
  exact ⟨ms', hrun'⟩

end

/-! ### Two parts to one client -/

def plainTimes : DoubleText Unit := ⟨fun _ => ascii "1.000000", fun _ => (), fun _ => false⟩

def somePart (data : Bytes) : Part Unit := ⟨data, ascii "image/jpeg", ()⟩

theorem somePart_fits {data : Bytes} (h : data.length ≤ 2147483647) :
    (somePart data).Fits plainTimes := by
  have hdigits := Lib.Decimal.decimal_length (n := data.length) (k := 10) (by decide) (by omega)
  simp [Part.Fits, Part.header, somePart, plainTimes, ascii, headerSize]
  omega

structure Served (s : Streamer Unit) (c : Client Unit) : Prop where
  free : s.holder = none
  clients : s.clients = [0]
  client : s.client 0 = c

def listed (memory : ℕ → ℕ → UInt8) : Streamer Unit :=
  { openStreamer memory with clients := [0], seen := [0] }

theorem served_listed (memory : ℕ → ℕ → UInt8) : Served (listed memory) (newClient (memory 0)) :=
  ⟨rfl, rfl, rfl⟩

theorem follow_server (memory : ℕ → ℕ → UInt8) :
    follow Streamer.answer (Streamer.next · plainTimes 0) (addAll [0]) (openStreamer memory) =
      (listed memory, .ret ()) := rfl

/-- The client after a call for which there seemed to be space. -/
def given (c : Client Unit) (data : Bytes) : Client Unit :=
  (({ c with offered := c.offered ++ [somePart data] } : Client Unit).writeHeader plainTimes
    (somePart data)).writeData (somePart data)

section
variable {s : Streamer Unit} {c : Client Unit} {data : Bytes}

theorem Served.follow_sender (h : Served s c) {space : ℤ}
    (hspace : c.buffer.bind circularBufferSpaceAvailable = some space)
    (hless : wrap (((somePart data).header plainTimes).length + data.length) < space) (i : ℕ) :
    Served (follow Streamer.answer (Streamer.next · plainTimes i)
      (sendAll plainTimes [somePart data]) s).1 (given c data) := by
  obtain ⟨hfree, hclients, rfl⟩ := h
  have hdata : (somePart data).data = data := rfl
  constructor <;>
    simp [sendAll, streamerSendMultipart, doing, follow, Streamer.answer, Streamer.next, hfree,
      hclients, sendToClients, Streamer.offer, hspace, hless, hdata, Streamer.put, Client.ask, given,
      -CharP.cast_eq_zero]

theorem given_queue (hfits : (somePart data).Fits plainTimes) :
    (given c data).queue = c.queue ++ (somePart data).header plainTimes ++ accepted (some data) := by
  have hlen : ((somePart data).header plainTimes).length ≤ bufferSize := by
    unfold Part.Fits headerSize at hfits
    unfold bufferSize
    omega
  have hheader : accepted (some ((somePart data).header plainTimes)) =
      (somePart data).header plainTimes := if_pos hlen
  rw [given, Client.writeData, Client.writeHeader, headerText_eq hfits]
  change c.queue ++ accepted (some ((somePart data).header plainTimes)) ++ accepted (some data) = _
  rw [hheader]

theorem given_buffered (hc : Buffered c.buffer c.queue) (hfits : (somePart data).Fits plainTimes)
    (hlen : c.queue.length + ((somePart data).header plainTimes).length + data.length < bufferSize) :
    Buffered (given c data).buffer (given c data).queue := by
  obtain ⟨r, hheader, hfirst⟩ := hc.write (b := (somePart data).header plainTimes) (by omega)
  obtain ⟨r', hdata, hsecond⟩ := hfirst.write (b := data) (by rw [List.length_append]; omega)
  have hbuffer : (given c data).buffer = some r' := by
    rw [given, Client.writeData, Client.writeHeader, headerText_eq hfits, ← hdata, ← hheader]
    rfl
  rwa [hbuffer, given_queue hfits, accepted, if_pos (by omega)]

theorem Served.follow_reader (h : Served s c) (hc : Buffered c.buffer c.queue) (hne : c.queue ≠ [])
    (hlen : c.queue.length ≤ 16384) (i : ℕ) :
    let t := (follow Streamer.answer (Streamer.next · plainTimes i) (readAll 0 0 [16384]) s).1
    t.holder = none ∧ (t.client 0).queue = [] ∧ (t.client 0).received = c.received ++ c.queue := by
  obtain ⟨hfree, hclients, rfl⟩ := h
  have hdata := hc.data
  obtain ⟨r, hread, -⟩ := hc.read le_rfl
  have hmod : ¬ (16384 : ℤ) < ((s.client 0).queue.length : ℤ) % 4294967296 := by omega
  rw [List.take_length] at hread
  simp [readAll, streamerClientRead, streamerRemoveClient, awaitData, doing, perform, follow,
    Streamer.answer, Streamer.next, hdata, hne, hmod, Streamer.put, Client.ask, Client.read, hread, hfree]

theorem server_run (memory : ℕ → ℕ → UInt8) (jobs : List (Job Unit)) :
    ∃ ms, Run (ThreadStep (Streamer.Does plainTimes))
      (openStreamer memory, (Job.server [0] :: jobs).map (Job.program plainTimes)) ms
      (listed memory, .ret () :: jobs.map (Job.program plainTimes)) := by
  obtain ⟨ms, hrun⟩ := @run_answered _ plainTimes 0
    ((Job.server [0] :: jobs).map (Job.program plainTimes)) (addAll [0]) rfl (openStreamer memory)
  rw [follow_server] at hrun
  exact ⟨ms, hrun⟩

theorem Served.sender_run (h : Served s c) {space : ℤ}
    (hspace : c.buffer.bind circularBufferSpaceAvailable = some space)
    (hless : wrap (((somePart data).header plainTimes).length + data.length) < space) {i : ℕ}
    {ps : List (Program Unit Unit)} (hi : ps[i]? = some (sendAll plainTimes [somePart data])) :
    ∃ (ms : List (Move _ _)) (t : Streamer Unit) (p : _),
      Run (ThreadStep (Streamer.Does plainTimes)) (s, ps) ms (t, ps.set i p) ∧
        Served t (given c data) := by
  obtain ⟨ms, hrun⟩ := @run_answered _ plainTimes i ps _ hi s
  exact ⟨ms, _, _, hrun, h.follow_sender hspace hless i⟩

theorem Served.small_run (h : Served s c) (hc : Buffered c.buffer c.queue)
    (hqueue : c.queue.length ≤ 1024) (hdata : data.length ≤ 1024) {i : ℕ}
    {ps : List (Program Unit Unit)} (hi : ps[i]? = some (sendAll plainTimes [somePart data])) :
    ∃ (ms : List (Move _ _)) (t : Streamer Unit) (p : _),
      Run (ThreadStep (Streamer.Does plainTimes)) (s, ps) ms (t, ps.set i p) ∧
        Served t (given c data) ∧ Buffered (given c data).buffer (given c data).queue ∧
        (given c data).queue = c.queue ++ (somePart data).encoding plainTimes := by
  have hfits : (somePart data).Fits plainTimes := somePart_fits (by omega)
  have hlen : ((somePart data).header plainTimes).length < 512 := hfits
  have hsize : bufferSize = 1048576 := rfl
  have hless : wrap (((somePart data).header plainTimes).length + data.length) <
      (bufferSize - c.queue.length : ℤ) := by
    rw [wrap, if_neg (by unfold intMax; omega)]
    omega
  obtain ⟨ms, t, p, hrun, ht⟩ := h.sender_run hc.space hless hi
  refine ⟨ms, t, p, hrun, ht, given_buffered hc hfits (by omega), ?_⟩
  rw [given_queue hfits, accepted, if_pos (by omega), List.append_assoc]
  rfl

end

abbrev streamedJobs : List (Job Unit) :=
  [.server [0], .sender [somePart [255]], .sender [somePart [254, 253]], .reader 0 0 [16384]]

def streamedBytes : Bytes :=
  (somePart [255]).encoding plainTimes ++ (somePart [254, 253]).encoding plainTimes

theorem somePart_encoding {data : Bytes} (h : data.length ≤ 2) :
    0 < ((somePart data).encoding plainTimes).length ∧
      ((somePart data).encoding plainTimes).length < 514 := by
  have hfits : ((somePart data).header plainTimes).length < 512 := somePart_fits (by omega)
  have hlen : ((somePart data).encoding plainTimes).length =
      ((somePart data).header plainTimes).length + data.length := List.length_append
  have hpos : 0 < ((somePart data).header plainTimes).length := by
    simp [Part.header, ascii]
  omega

/-- The senders come one after the other, and then the reader takes all. -/
theorem streamed_run : ∃ (ms : List (Move _ _))
    (d : Threads (Streamer Unit) (Act.Answer (T := Unit)) Unit),
    Run (ThreadStep (Streamer.Does plainTimes))
      (openStreamer fun _ _ => 0, streamedJobs.map (Job.program plainTimes)) ms d ∧
    d.1.holder = none ∧ (d.1.client 0).queue = [] ∧ (d.1.client 0).received = streamedBytes := by
  obtain ⟨hpos₁, hlen₁⟩ := somePart_encoding (show ([255] : Bytes).length ≤ 2 by decide)
  obtain ⟨hpos₂, hlen₂⟩ := somePart_encoding (show ([254, 253] : Bytes).length ≤ 2 by decide)
  have hnew := (@sound_new _ plainTimes fun _ => 0).buffered
  obtain ⟨ms₁, hserver⟩ := server_run (fun _ _ => 0) streamedJobs.tail
  obtain ⟨ms₂, s₂, p₂, hfirst, hs₂, hbuffered₂, hqueue₂⟩ :=
    (served_listed fun _ _ => 0).small_run hnew (by simp [newClient]) (by simp)
      (show (Prog.ret () :: streamedJobs.tail.map (Job.program plainTimes))[1]? =
        some (sendAll plainTimes [somePart [255]]) from rfl)
  obtain ⟨ms₃, s₃, p₃, hsecond, hs₃, hbuffered₃, hqueue₃⟩ :=
    hs₂.small_run hbuffered₂ (by rw [hqueue₂, List.length_append]; simp [newClient]; omega) (by simp)
      (show [Prog.ret (), p₂, sendAll plainTimes [somePart [254, 253]], readAll 0 0 [16384]][2]? =
        some (sendAll plainTimes [somePart [254, 253]]) from rfl)
  have hall : (given (given (newClient fun _ => 0) [255]) [254, 253]).queue = streamedBytes := by
    rw [hqueue₃, hqueue₂]
    rfl
  have hlen : 0 < streamedBytes.length ∧ streamedBytes.length ≤ 16384 := by
    rw [streamedBytes, List.length_append]
    omega
  obtain ⟨hfree, hempty, hreceived⟩ := hs₃.follow_reader hbuffered₃
    (by rw [hall]; exact List.length_pos_iff.1 hlen.1) (by rw [hall]; exact hlen.2) 3
  obtain ⟨ms₄, hreader⟩ := @run_answered _ plainTimes 3
    [Prog.ret (), p₂, p₃, readAll 0 0 [16384]] _ rfl s₃
  refine ⟨_, _, hserver.append (hfirst.append (hsecond.append hreader)), hfree, ?_, ?_⟩
  · exact hempty
  · rw [hreceived, hall]
    rfl

theorem streamedJobs_oneReader : OneReader streamedJobs := by
  have hlast : ∀ i job client, streamedJobs[i]? = some job → job.reads = some client → i = 3 := by
    intro i job client hi hread
    have hlt : i < 4 := (List.getElem?_eq_some_iff.1 hi).1
    interval_cases i
    · cases hi
      cases hread
    · cases hi
      cases hread
    · cases hi
      cases hread
    · rfl
  intro i j job job' client hi hj hread hread'
  rw [hlast i job client hi hread, hlast j job' client hj hread']

theorem mem_streamedJobs_parts {job : Job Unit} {p : Part Unit} (hjob : job ∈ streamedJobs)
    (hp : p ∈ job.parts) : ∃ data : Bytes, p = somePart data ∧ data ≠ [] ∧ data.length ≤ 2 := by
  simp only [List.mem_cons, List.not_mem_nil, or_false] at hjob
  rcases hjob with rfl | rfl | rfl | rfl
  · cases hp
  · exact ⟨[255], List.mem_singleton.1 hp, by simp, by simp⟩
  · exact ⟨[254, 253], List.mem_singleton.1 hp, by simp, by simp⟩
  · cases hp

theorem somePart_sum {data : Bytes} (h : data.length ≤ 2) :
    (((somePart data).header plainTimes).length : ℤ) + data.length ≤ intMax := by
  have hfits : ((somePart data).header plainTimes).length < 512 := somePart_fits (by omega)
  unfold intMax
  omega

theorem streamed_parts_whole : ∃ (ms : List (Move _ _))
    (d : Threads (Streamer Unit) (Act.Answer (T := Unit)) Unit),
    Run (ThreadStep (Streamer.Does plainTimes))
      (openStreamer fun _ _ => 0, streamedJobs.map (Job.program plainTimes)) ms d ∧
    (d.1.client 0).received = streamedBytes ∧ Whole plainTimes d.1 (d.1.client 0) := by
  obtain ⟨ms, d, hrun, -, -, hreceived⟩ := streamed_run
  refine ⟨ms, d, hrun, hreceived, client_gets_whole_parts streamedJobs_oneReader ?_ ?_ hrun 0⟩
  · intro job hjob p hp
    obtain ⟨data, rfl, -, hdata⟩ := mem_streamedJobs_parts hjob hp
    exact somePart_fits (by omega)
  · intro job hjob p hp
    obtain ⟨data, rfl, -, hdata⟩ := mem_streamedJobs_parts hjob hp
    exact somePart_sum hdata

abbrev oneClient (data : Bytes) : List (Job Unit) := [.server [0], .sender [somePart data]]

/-- The sum of the lengths of a header and of 2147483647 bytes is negative on the usual machines, so
that there seems to be space. The header is written and the data dropped. -/
theorem large_part_is_torn : ∃ (ms : List (Move _ _))
    (d : Threads (Streamer Unit) (Act.Answer (T := Unit)) Unit) (data : Bytes),
    data.length = 2147483647 ∧ (somePart data).Fits plainTimes ∧
    Run (ThreadStep (Streamer.Does plainTimes))
      (openStreamer fun _ _ => 0, (oneClient data).map (Job.program plainTimes)) ms d ∧
    (d.1.client 0).queue = (somePart data).header plainTimes ∧ d.1.holder = none ∧
    ¬Whole plainTimes d.1 (d.1.client 0) := by
  obtain ⟨data, hdata⟩ : ∃ data : Bytes, data.length = 2147483647 :=
    ⟨List.replicate 2147483647 0, List.length_replicate⟩
  have hfits : (somePart data).Fits plainTimes := somePart_fits (by omega)
  have hlen : ((somePart data).header plainTimes).length ≤ 511 := by
    unfold Part.Fits headerSize at hfits
    omega
  have hpos : 0 < ((somePart data).header plainTimes).length := by
    simp [Part.header, ascii]
  have hspace := (@sound_new _ plainTimes fun _ => 0).buffered.space
  have hnegative : wrap (((somePart data).header plainTimes).length + data.length) <
      (bufferSize - ([] : Bytes).length : ℤ) := by
    rw [wrap, if_pos (by unfold intMax; omega), List.length_nil]
    omega
  obtain ⟨ms, hserver⟩ := server_run (fun _ _ => 0) [.sender [somePart data]]
  obtain ⟨ns, t, p, hsender, hfree, -, hclient⟩ :=
    (served_listed fun _ _ => 0).sender_run hspace hnegative
      (show [.ret (), sendAll plainTimes [somePart data]][1]? = some _ from rfl)
  have hqueue : (t.client 0).queue = (somePart data).header plainTimes := by
    rw [hclient, given_queue hfits, accepted, if_neg (by unfold bufferSize; omega),
      List.append_nil]
    rfl
  refine ⟨ms ++ ns, (t, _), data, hdata, hfits, hserver.append hsender, hqueue, hfree, ?_⟩
  intro ⟨⟨sent, rest, hsent, hstream, hrest⟩, _⟩
  rw [hclient] at hsent
  rw [hrest hfree, hqueue, hclient, List.append_nil] at hstream
  change (somePart data).header plainTimes = sent.flatMap (Part.encoding plainTimes) at hstream
  obtain rfl | rfl : sent = [] ∨ sent = [somePart data] := List.sublist_singleton.1 hsent
  · rw [hstream] at hpos
    exact absurd hpos (by simp)
  · rw [List.flatMap_singleton, Part.encoding, List.self_eq_append_right] at hstream
    have hnil : data = [] := hstream
    rw [hnil] at hdata
    cases hdata

end Rcom.Streaming
