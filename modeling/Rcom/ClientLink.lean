import Rcom.Addr
import Rcom.Lib.Trace

/-!
# A client link and the thread that reads it (messagelink.c)

Threads call `client_messagelink_connect` and `client_messagelink_disconnect` on
one link that has an `onmessage` handler, next to the reader threads that these
calls start. A step is one access to the fields that the threads share: the
state, the socket, the remote address, the thread handle, `thread_quit` and the
mutex. What the network does is part of the label. The application is not
quitting, and the link is not deleted (the only use of `messagelink_stop_thread`).
-/

namespace Rcom.ClientLink

open Lib.Trace

inductive LinkState where
  | created | clientConnecting | serverConnecting | «open» | closing | closeReceived
  | finalizingClose | closed
deriving DecidableEq

structure Link where
  state : LinkState := .created
  hasSocket : Bool := false
  remoteAddr : Option Addr := none
  thread : Option ℕ := none
  threadQuit : Bool := false
  stateMutex : Option ℕ := none
deriving DecidableEq

/-! ## Closing -/

inductive ClosePc where
  | ownerClose
  | ownerCloseOneway
  | remoteClose
  | closeSocket
  | dropSocket
  | setClosed
deriving DecidableEq

/-- One step of them; `none` is the return. The first three end in `messagelink_close_socket`. -/
def closeStep : ClosePc → Link → Option ClosePc × Link
  | .ownerClose, l =>
    if l.state = .closed ∨ l.state = .closing then (none, l) else (some .closeSocket, l)
  | .ownerCloseOneway, l => (some .closeSocket, { l with state := .closed })
  | .remoteClose, l => (some .closeSocket, { l with state := .closed })
  | .closeSocket, l => if l.hasSocket then (some .dropSocket, l) else (none, l)
  | .dropSocket, l => (some .setClosed, { l with hasSocket := false })
  | .setClosed, l => (none, { l with state := .closed })

/-! ## The calls -/

/-- Where a thread is in `client_messagelink_connect` or `client_messagelink_disconnect`. -/
inductive CallPc where
  | idle
  | lock (addr : Addr)
  | testConnected (addr : Addr)
  | testStale (addr : Addr)
  | testOther (addr : Addr)
  | openSocket (addr : Addr)
  | setConnecting (addr : Addr)
  | openWebsocket (addr : Addr)
  | setRemoteAddr (addr : Addr)
  | setOpen
  | unlock (next : CallPc)
  | closing (pc : ClosePc) (next : CallPc)
  | readInBackground
  | newThread
  | setThread (handle : Option ℕ)
  | lockDisconnect
  | disconnecting (pc : ClosePc)
  | unlockDisconnect
deriving DecidableEq

def CallPc.IsConnect : CallPc → Bool
  | .idle | .lockDisconnect | .disconnecting _ | .unlockDisconnect => false
  | _ => true

def closeCall (after : Option ClosePc → CallPc) (pc : ClosePc) (l : Link) : CallPc × Link :=
  let r := closeStep pc l
  (after r.1, r.2)

/-- One step of a call by thread `c`; `ok` says whether what it asks of the system succeeds. -/
def callStep (c : ℕ) (ok : Bool) : CallPc → Link → Option (CallPc × Link)
  | .idle, _ => none
  | .lock addr, l =>
    if l.stateMutex = none then some (.testConnected addr, { l with stateMutex := some c })
    else none
  | .testConnected addr, l =>
    if l.remoteAddr.any (·.addrEq addr) ∧ l.state = .open then some (.unlock .idle, l)
    else some (.testStale addr, l)
  | .testStale addr, l =>
    if l.remoteAddr.any (·.addrEq addr) ∧ l.state ≠ .open then
      some (.closing .closeSocket (.testOther addr), l)
    else some (.testOther addr, l)
  | .testOther addr, l =>
    if l.remoteAddr.any (!·.addrEq addr) then
      some (.closing .closeSocket (.openSocket addr), l)
    else some (.openSocket addr, l)
  | .openSocket addr, l =>
    if ok then some (.setConnecting addr, { l with hasSocket := true })
    else some (.unlock .idle, { l with hasSocket := false })
  | .setConnecting addr, l => some (.openWebsocket addr, { l with state := .clientConnecting })
  | .openWebsocket addr, l =>
    if ok then some (.setRemoteAddr addr, l)
    else some (.closing .closeSocket (.unlock .idle), l)
  | .setRemoteAddr addr, l =>
    if ok then some (.setOpen, { l with remoteAddr := some addr })
    else some (.closing .closeSocket (.unlock .idle), { l with remoteAddr := none })
  | .setOpen, l => some (.unlock .readInBackground, { l with state := .open })
  | .unlock next, l => some (next, { l with stateMutex := none })
  | .closing pc next, l => some (closeCall (·.elim next (.closing · next)) pc l)
  | .readInBackground, l => if l.thread = none then some (.newThread, l) else some (.idle, l)
  | .newThread, _ => none
  | .setThread handle, l => some (.idle, { l with thread := handle })
  | .lockDisconnect, l =>
    if l.stateMutex = none then some (.disconnecting .ownerClose, { l with stateMutex := some c })
    else none
  | .disconnecting pc, l => some (closeCall (·.elim .unlockDisconnect .disconnecting) pc l)
  | .unlockDisconnect, l => some (.idle, { l with stateMutex := none })

/-! ## The reader -/

/-- Where `_messagelink_read` goes on after closing the link. -/
inductive AfterClose where
  | return
  | readAgain
deriving DecidableEq

/-- Where a thread is in `client_messagelink_run`: at the test of `_messagelink_loop`, in
`_messagelink_read`, or past the loop. -/
inductive ReaderPc where
  | loop
  | read
  | readAgain
  | tryRead
  | closing (pc : ClosePc) (next : AfterClose)
  | finished
deriving DecidableEq

def AfterClose.pc : AfterClose → ReaderPc
  | .return => .loop
  | .readAgain => .readAgain

inductive Received where
  | nothing
  | readError
  | tooBig
  | text
  | binary
  | close
  | continuation
  | ping
  | pong
  | reserved
deriving DecidableEq

def readerStep (received : Received) : ReaderPc → Link → Option (ReaderPc × Link)
  | .loop, l => if l.threadQuit = false ∧ l.state = .open then some (.read, l) else some (.finished, l)
  | .read, l => if l.state ≠ .open then some (.loop, l) else some (.readAgain, l)
  | .readAgain, l => if l.state = .open then some (.tryRead, l) else some (.loop, l)
  | .tryRead, l =>
    if l.state ≠ .open ∨ l.threadQuit then some (.loop, l)
    else
      match received with
      | .nothing => some (.tryRead, l)
      | .readError => some (.closing .ownerCloseOneway .return, l)
      | .tooBig => some (.closing .ownerCloseOneway .return, l)
      | .text => some (.loop, l)
      | .binary => some (.closing .ownerClose .return, l)
      | .close => some (.closing .remoteClose .return, l)
      | .continuation => some (.closing .ownerClose .readAgain, l)
      | .ping => some (.readAgain, l)
      | .pong => some (.readAgain, l)
      | .reserved => some (.readAgain, l)
  | .closing pc next, l =>
    let r := closeStep pc l
    some (r.1.elim next.pc (.closing · next), r.2)
  | .finished, _ => none

/-! ## The system -/

structure System where
  link : Link
  callers : List CallPc
  readers : List ReaderPc
deriving DecidableEq

inductive Action where
  | connect (c : ℕ) (addr : Addr)
  | disconnect (c : ℕ)
  | call (c : ℕ) (ok : Bool)
  | reader (r : ℕ) (received : Received)
deriving DecidableEq

def start (n : ℕ) : System := ⟨{}, List.replicate n .idle, []⟩

/-- A new thread starts at the test of its loop, even before its handle is stored. -/
def startThread (s : System) (c : ℕ) (ok : Bool) : System :=
  let link := { s.link with threadQuit := false }
  if ok then ⟨link, s.callers.set c (.setThread (some s.readers.length)), s.readers ++ [.loop]⟩
  else ⟨link, s.callers.set c (.setThread none), s.readers⟩

def exec (s : System) : Action → Option System
  | .connect c addr =>
    if s.callers[c]? = some .idle then some { s with callers := s.callers.set c (.lock addr) }
    else none
  | .disconnect c =>
    if s.callers[c]? = some .idle then some { s with callers := s.callers.set c .lockDisconnect }
    else none
  | .call c ok =>
    match s.callers[c]? with
    | none => none
    | some .newThread => some (startThread s c ok)
    | some pc =>
      (callStep c ok pc s.link).map fun r => { s with link := r.2, callers := s.callers.set c r.1 }
  | .reader r received =>
    match s.readers[r]? with
    | none => none
    | some pc =>
      (readerStep received pc s.link).map fun p =>
        { s with link := p.2, readers := s.readers.set r p.1 }

abbrev Step (s : System) (a : Action) (t : System) : Prop := exec s a = some t

/-! ## When an open link is read -/

def Live (s : System) : Prop := ∃ pc ∈ s.readers, pc ≠ .finished

instance (s : System) : Decidable (Live s) := inferInstanceAs (Decidable (∃ pc ∈ s.readers, _))

/-- Outside the calls of `client_messagelink_connect`, an open link has a live reader. -/
def Served (s : System) : Prop :=
  s.link.state = .open → (∀ pc ∈ s.callers, pc.IsConnect = false) → Live s

/-- Where a connect call decides about the reader of a link that is open, the handle is unused or
a reader is live, and a thread that it needs can be started. -/
def Restarts (s : System) : Action → Prop
  | .call c ok =>
    s.link.state = .open →
      (s.callers[c]? = some .readInBackground → s.link.thread = none ∨ Live s) ∧
      (s.callers[c]? = some .newThread → ok = true ∨ Live s)
  | _ => True

instance (s : System) : (a : Action) → Decidable (Restarts s a)
  | .call _ _ => inferInstanceAs (Decidable (s.link.state = .open → _ ∧ _))
  | .connect _ _ => inferInstanceAs (Decidable True)
  | .disconnect _ => inferInstanceAs (Decidable True)
  | .reader _ _ => inferInstanceAs (Decidable True)

/-! ## One step -/

theorem closeStep_open {pc : ClosePc} {l : Link} (h : (closeStep pc l).2.state = .open) :
    l.state = .open := by
  cases pc with
  | ownerClose =>
    rw [closeStep] at h
    split at h <;> exact h
  | closeSocket =>
    rw [closeStep] at h
    split at h <;> exact h
  | dropSocket => exact h
  | ownerCloseOneway => cases h
  | remoteClose => cases h
  | setClosed => cases h

theorem closeStep_threadQuit (pc : ClosePc) (l : Link) :
    (closeStep pc l).2.threadQuit = l.threadQuit := by
  cases pc with
  | ownerClose =>
    rw [closeStep]
    split <;> rfl
  | closeSocket =>
    rw [closeStep]
    split <;> rfl
  | dropSocket => rfl
  | ownerCloseOneway => rfl
  | remoteClose => rfl
  | setClosed => rfl

/-- A connect call that has opened the link and has not decided about the reader yet. -/
def CallPc.Starting : CallPc → Prop
  | .unlock .readInBackground => True
  | .readInBackground => True
  | .newThread => True
  | _ => False

/-- A call leaves the link open only if it found it open or goes on to start the reader. -/
theorem callStep_open {c : ℕ} {ok : Bool} {pc pc' : CallPc} {l l' : Link}
    (h : callStep c ok pc l = some (pc', l')) :
    l'.threadQuit = l.threadQuit ∧
      (l'.state = .open → pc'.Starting ∨
        l.state = .open ∧ (pc.Starting → pc = .readInBackground ∧ l.thread ≠ none)) := by
  cases pc with
  | idle => cases h
  | newThread => cases h
  | lock addr =>
    rw [callStep] at h
    split at h
    · cases h
      exact ⟨rfl, fun ho => .inr ⟨ho, False.elim⟩⟩
    · cases h
  | testConnected addr =>
    rw [callStep] at h
    split at h <;> cases h <;> exact ⟨rfl, fun ho => .inr ⟨ho, False.elim⟩⟩
  | testStale addr =>
    rw [callStep] at h
    split at h <;> cases h <;> exact ⟨rfl, fun ho => .inr ⟨ho, False.elim⟩⟩
  | testOther addr =>
    rw [callStep] at h
    split at h <;> cases h <;> exact ⟨rfl, fun ho => .inr ⟨ho, False.elim⟩⟩
  | openSocket addr =>
    rw [callStep] at h
    split at h <;> cases h <;> exact ⟨rfl, fun ho => .inr ⟨ho, False.elim⟩⟩
  | setConnecting addr =>
    cases h
    exact ⟨rfl, fun ho => by cases ho⟩
  | openWebsocket addr =>
    rw [callStep] at h
    split at h <;> cases h <;> exact ⟨rfl, fun ho => .inr ⟨ho, False.elim⟩⟩
  | setRemoteAddr addr =>
    rw [callStep] at h
    split at h <;> cases h <;> exact ⟨rfl, fun ho => .inr ⟨ho, False.elim⟩⟩
  | setOpen =>
    cases h
    exact ⟨rfl, fun _ => .inl trivial⟩
  | unlock next =>
    cases h
    refine ⟨rfl, fun ho => ?_⟩
    cases pc' with
    | readInBackground => exact .inl trivial
    | _ => exact .inr ⟨ho, False.elim⟩
  | closing pc next =>
    cases h
    refine ⟨closeStep_threadQuit pc l, fun ho => .inr ⟨closeStep_open ho, False.elim⟩⟩
  | readInBackground =>
    rw [callStep] at h
    split at h
    · cases h
      exact ⟨rfl, fun _ => .inl trivial⟩
    · rename_i hthread
      cases h
      exact ⟨rfl, fun ho => .inr ⟨ho, fun _ => ⟨rfl, hthread⟩⟩⟩
  | setThread handle =>
    cases h
    exact ⟨rfl, fun ho => .inr ⟨ho, False.elim⟩⟩
  | lockDisconnect =>
    rw [callStep] at h
    split at h
    · cases h
      exact ⟨rfl, fun ho => .inr ⟨ho, False.elim⟩⟩
    · cases h
  | disconnecting pc =>
    cases h
    refine ⟨closeStep_threadQuit pc l, fun ho => .inr ⟨closeStep_open ho, False.elim⟩⟩
  | unlockDisconnect =>
    cases h
    exact ⟨rfl, fun ho => .inr ⟨ho, False.elim⟩⟩

/-- A reader never opens the link, and leaves its loop only when it finds the link not open. -/
theorem readerStep_open {received : Received} {pc pc' : ReaderPc} {l l' : Link}
    (h : readerStep received pc l = some (pc', l')) :
    l'.threadQuit = l.threadQuit ∧
      (l'.state = .open → l.state = .open ∧ (l.threadQuit = false → pc' ≠ .finished)) := by
  cases pc with
  | finished => cases h
  | loop =>
    rw [readerStep] at h
    split at h
    · cases h
      exact ⟨rfl, fun ho => ⟨ho, fun _ => by decide⟩⟩
    · rename_i hstop
      cases h
      exact ⟨rfl, fun ho => ⟨ho, fun hq => absurd ⟨hq, ho⟩ hstop⟩⟩
  | read =>
    rw [readerStep] at h
    split at h <;> cases h <;> exact ⟨rfl, fun ho => ⟨ho, fun _ => by decide⟩⟩
  | readAgain =>
    rw [readerStep] at h
    split at h <;> cases h <;> exact ⟨rfl, fun ho => ⟨ho, fun _ => by decide⟩⟩
  | tryRead =>
    simp only [readerStep] at h
    split at h
    · cases h
      exact ⟨rfl, fun ho => ⟨ho, fun _ => by decide⟩⟩
    · cases received <;> cases h <;> exact ⟨rfl, fun ho => ⟨ho, fun _ => by decide⟩⟩
  | closing pc next =>
    cases h
    refine ⟨closeStep_threadQuit pc l, fun ho => ⟨closeStep_open ho, fun _ => ?_⟩⟩
    cases (closeStep pc l).1 with
    | none => cases next <;> decide
    | some pc => exact fun hf => by cases hf

/-! ## Every run -/

theorem exists_mem_set {α : Type*} {P : α → Prop} {l : List α} {i : ℕ} {a b : α}
    (hi : l[i]? = some a) (h : ∃ x ∈ l, P x) (hab : P a → P b) : ∃ x ∈ l.set i b, P x := by
  obtain ⟨hlt, rfl⟩ := List.getElem?_eq_some_iff.1 hi
  obtain ⟨x, hx, hP⟩ := h
  obtain ⟨j, hj, rfl⟩ := List.getElem_of_mem hx
  by_cases hij : i = j
  · subst hij
    exact ⟨b, List.mem_set hlt b, hab hP⟩
  · refine ⟨l[j], List.mem_of_getElem? (i := j) ?_, hP⟩
    rw [List.getElem?_set_ne hij, List.getElem?_eq_getElem hj]

structure Covered (s : System) : Prop where
  threadQuit : s.link.threadQuit = false
  covered : s.link.state = .open → Live s ∨ ∃ pc ∈ s.callers, pc.Starting

theorem covered_start (n : ℕ) : Covered (start n) := ⟨rfl, fun h => by cases h⟩

theorem Covered.served {s : System} (h : Covered s) : Served s := by
  intro hopen hidle
  refine (h.covered hopen).resolve_right ?_
  rintro ⟨pc, hpc, hstarting⟩
  have hconnect := hidle pc hpc
  cases pc with
  | unlock _ => cases hconnect
  | readInBackground => cases hconnect
  | newThread => cases hconnect
  | _ => exact hstarting

theorem Covered.begin {s : System} (h : Covered s) {c : ℕ} (hc : s.callers[c]? = some .idle)
    (pc : CallPc) : Covered { s with callers := s.callers.set c pc } where
  threadQuit := h.threadQuit
  covered hopen := (h.covered hopen).imp_right fun hs => exists_mem_set hc hs False.elim

theorem covered_startThread {s : System} {c : ℕ} {ok : Bool}
    (hg : s.link.state = .open → ok = true ∨ Live s) : Covered (startThread s c ok) := by
  cases ok with
  | true => exact ⟨rfl, fun _ => .inl ⟨.loop, by simp [startThread], by decide⟩⟩
  | false =>
    refine ⟨rfl, fun hopen => .inl ?_⟩
    exact (hg hopen).resolve_left Bool.false_ne_true

theorem Covered.call {s : System} (h : Covered s) {c : ℕ} {ok : Bool} {pc pc' : CallPc} {l' : Link}
    (hc : s.callers[c]? = some pc) (hstep : callStep c ok pc s.link = some (pc', l'))
    (hg : s.link.state = .open → pc = .readInBackground → s.link.thread = none ∨ Live s) :
    Covered { s with link := l', callers := s.callers.set c pc' } := by
  obtain ⟨hquit, hopen⟩ := callStep_open hstep
  refine ⟨hquit.trans h.threadQuit, fun ho => ?_⟩
  rcases hopen ho with hstarting | ⟨hold, hpc⟩
  · obtain ⟨hlt, -⟩ := List.getElem?_eq_some_iff.1 hc
    exact .inr ⟨pc', List.mem_set hlt pc', hstarting⟩
  · rcases h.covered hold with hlive | hs
    · exact .inl hlive
    · by_cases hpcs : pc.Starting
      · obtain ⟨hread, hthread⟩ := hpc hpcs
        exact .inl ((hg hold hread).resolve_left hthread)
      · exact .inr (exists_mem_set hc hs fun hp => absurd hp hpcs)

theorem Covered.reader {s : System} (h : Covered s) {r : ℕ} {received : Received}
    {pc pc' : ReaderPc} {l' : Link} (hr : s.readers[r]? = some pc)
    (hstep : readerStep received pc s.link = some (pc', l')) :
    Covered { s with link := l', readers := s.readers.set r pc' } := by
  obtain ⟨hquit, hopen⟩ := readerStep_open hstep
  refine ⟨hquit.trans h.threadQuit, fun ho => ?_⟩
  obtain ⟨hold, hnext⟩ := hopen ho
  rcases h.covered hold with hlive | hs
  · exact .inl (exists_mem_set hr hlive fun _ => hnext h.threadQuit)
  · exact .inr hs

theorem Covered.step {s t : System} {a : Action} (h : Covered s) (hstep : Step s a t)
    (hg : Restarts s a) : Covered t := by
  cases a with
  | connect c addr =>
    simp only [Step, exec] at hstep
    split at hstep
    · rename_i hc
      cases hstep
      exact h.begin hc _
    · cases hstep
  | disconnect c =>
    simp only [Step, exec] at hstep
    split at hstep
    · rename_i hc
      cases hstep
      exact h.begin hc _
    · cases hstep
  | call c ok =>
    simp only [Step, exec] at hstep
    split at hstep
    · cases hstep
    · rename_i hc
      cases hstep
      exact covered_startThread fun hopen => (hg hopen).2 hc
    · rename_i pc _ hc
      obtain ⟨⟨pc', l'⟩, hcall, rfl⟩ := Option.map_eq_some_iff.1 hstep
      exact h.call hc hcall fun hopen hpc => (hg hopen).1 (hpc ▸ hc)
  | reader r received =>
    simp only [Step, exec] at hstep
    split at hstep
    · cases hstep
    · rename_i pc hr
      obtain ⟨⟨pc', l'⟩, hread, rfl⟩ := Option.map_eq_some_iff.1 hstep
      exact h.reader hr hread

theorem open_link_is_read {n : ℕ} {ms : List (Move System Action)} {s : System}
    (h : Run Step (start n) ms s) (hg : ∀ m ∈ ms, Restarts m.src m.act) :
    Served (start n) ∧ ∀ m ∈ ms, Served m.dst := by
  refine ⟨(covered_start n).served, fun m hm => Covered.served ?_⟩
  exact h.invariant_dst (I := Covered) (G := fun m => Restarts m.src m.act)
    (fun _ _ _ hs hstep hm => hs.step hstep hm) (covered_start n) hg m hm

/-! ## A link that connects twice -/

def hubAddr : Addr := ⟨⟨10, 0, 0, 1⟩, 80⟩

def connectOnce : List Action := .connect 0 hubAddr :: List.replicate 13 (.call 0 true)

/-- The hub closes the connection and the reader ends; then the thread connects the link again. -/
def connectTwice : List Action :=
  connectOnce ++ List.replicate 9 (.reader 0 .close) ++
    .connect 0 hubAddr :: List.replicate 12 (.call 0 true)

theorem connectOnce_is_read :
    Served (start 1) ∧ ∀ m ∈ moves exec (start 1) connectOnce, Served m.dst := by
  obtain ⟨s, hrun, -⟩ := run_moves exec (start 1) connectOnce
  exact open_link_is_read hrun (by decide)

theorem connectTwice_is_not_read :
    ∃ s, Run Step (start 1) (moves exec (start 1) connectTwice) s ∧ ¬ Served s := by
  obtain ⟨s, hrun, hlast⟩ := run_moves exec (start 1) connectTwice
  have hend : s = ⟨⟨.open, true, some hubAddr, some 0, false, none⟩, [.idle], [.finished]⟩ := by
    rw [hlast]
    decide
  refine ⟨s, hrun, fun hserved => ?_⟩
  rw [hend] at hserved
  obtain ⟨pc, hpc, hlive⟩ := hserved rfl (by decide)
  exact hlive (List.mem_singleton.1 hpc)

end Rcom.ClientLink
