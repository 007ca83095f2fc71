import Rcom.Messagelink

/-!
# The connection of a client link (messagelink.c, net.c)

Here the calls come one after the other. Each is a whole run of its program, whatever the
network, the memory and the handshake answer.
-/

namespace Rcom.Messagelink
open Rcom.Lib Rcom.Lib.Program Rcom.Lib.Trace
open Rcom.ClientLink (LinkState)
variable {J : Type}

/-- The fields of the link, and what the system knows: the address that each descriptor is connected
to, the descriptors that are open, and those of them that could not be connected. -/
structure Connection where
  state : LinkState := .created
  socket : Option ℕ := none
  remoteAddr : Option Addr := none
  isClient : Bool := false
  peer : ℕ → Option Addr := fun _ => none
  opened : List ℕ := []
  refused : List ℕ := []

def newMessagelink : Connection := {}

def Linking (s : Connection) : (a : Act J) → a.Answer → Connection → Prop
  | .state, state, t => state = s.state ∧ t = s
  | .setState state, _, t => t = { s with state }
  | .socket, socket, t => socket = s.socket ∧ t = s
  | .setSocket socket, _, t => t = { s with socket }
  | .remoteAddr, addr, t => addr = s.remoteAddr ∧ t = s
  | .setRemoteAddr remoteAddr, _, t => t = { s with remoteAddr }
  | .setIsClient, _, t => t = { s with isClient := true }
  | .newSocket, (none : Option ℕ), t => t = s
  | .newSocket, some fd, t => fd ∉ s.opened ∧
      t = { s with opened := fd :: s.opened, peer := Function.update s.peer fd none }
  | .connect fd addr, (ret : ℤ), t =>
    t = if ret < 0 then { s with refused := fd :: s.refused }
      else { s with peer := Function.update s.peer fd (some addr) }
  | .closeTcpSocket fd, _, t =>
    t = { s with opened := s.opened.erase fd, peer := Function.update s.peer fd none }
  | .addrClone addr, clone, t => (clone = none ∨ clone = some addr) ∧ t = s
  | _, _, t => t = s

def KeepsSocket (s : Connection) : Act J → Prop
  | .setSocket (some _) => s.socket = none
  | _ => True

abbrev Linked {α : Type} (Q : α → Connection → Prop) (p : Program J α) (s : Connection) : Prop :=
  wp Linking KeepsSocket True Q p s

example (s : Connection) : Linking s (.setSocket s.socket : Act J) () s := by simp [Linking]

example (s : Connection) : KeepsSocket s (.setSocket none : Act J) := by simp [KeepsSocket]

/-! ## Sending and waiting leave the connection alone -/

def Inert : Act J → Prop
  | .setState _ | .setSocket _ | .setRemoteAddr _ | .setIsClient | .newSocket | .connect _ _
  | .closeTcpSocket _ => False
  | _ => True

example : ¬ Inert (.newSocket : Act J) := by simp [Inert]

theorem linked_of_inert {α : Type} {Q : α → Connection → Prop} {p : Program J α} {s : Connection}
    (h : Only Inert p) (hQ : ∀ x, Q x s) : Linked Q p s := by
  apply wp_of_only (I := fun t => t = s) h
  · intro t a ha ht
    subst ht
    cases a <;> simp_all [Inert, KeepsSocket, Linking]
  · rfl
  · intro x t ht
    subst ht
    exact hQ x

theorem inert_sendLoop (fd opcode : ℕ) (data : Bytes) :
    Only Inert (sendLoop (J := J) fd opcode data) := by
  fun_induction sendLoop fd opcode data with
  | case1 => trivial
  | case2 data hdata ih =>
    refine ⟨trivial, fun (ret : ℤ) => ?_⟩
    dsimp only
    split_ifs with hneg hzero
    · trivial
    · trivial
    · exact ih _ hneg hzero

theorem inert_tcpSocketSend (opcode : ℕ) (socket : Option ℕ) (data : Bytes) :
    Only Inert (tcpSocketSend (J := J) opcode socket data) := by
  cases socket with
  | none => trivial
  | some fd => exact inert_sendLoop fd opcode data

theorem inert_makeMask (masked : Bool) : Only Inert (makeMask (J := J) masked) := by
  cases masked with
  | false => trivial
  | true => exact ⟨trivial, fun _ => trivial⟩

theorem inert_sendFrame (isClient : Bool) (opcode : ℕ) (data : Bytes) :
    Only Inert (sendFrame (J := J) isClient opcode data) := by
  simp only [sendFrame, doing, perform_bind, only_act, Inert, true_and]
  intro _ _
  apply only_bind (inert_makeMask isClient)
  intro mask
  simp only [only_act, Inert, true_and]
  intro _ _ socket out
  apply only_bind (inert_tcpSocketSend opcode socket out)
  intro err
  simp [only_act, Inert]

theorem inert_waitRound : Only Inert (waitRound (J := J)) := by
  simp only [waitRound, doing, perform_bind, only_act, Inert, true_and]
  intro wait
  split_ifs with hwait
  · simp only [only_act, Inert, true_and]
    intro message
    split_ifs <;> trivial
  · trivial

theorem inert_waitClose (n : ℕ) : Only Inert (ownerMessagelinkWaitClose (J := J) n) := by
  induction n with
  | zero => trivial
  | succ n ih =>
    apply only_bind inert_waitRound
    intro result
    cases result with
    | some err => trivial
    | none =>
      simp only [doing, perform_bind, only_act, Inert, true_and]
      intro overdue
      split_ifs
      · trivial
      · exact ih

/-! ## Closing -/

/-- What `messagelink_close_socket` leaves. -/
def Connection.drop (s : Connection) : Connection :=
  match s.socket with
  | none => s
  | some fd =>
    { s with
      state := .closed
      socket := none
      peer := Function.update s.peer fd none
      opened := s.opened.erase fd }

section Close
variable {s : Connection}

theorem linked_closeSocket {Q : Unit → Connection → Prop} (h : Q () s.drop) :
    Linked (J := J) Q messagelinkCloseSocket s := by
  simp only [Linked, messagelinkCloseSocket, doing, perform_bind, wp_act, KeepsSocket, Linking,
    true_and]
  intro socket t ht
  obtain ⟨rfl, rfl⟩ := ht
  cases hsocket : t.socket with
  | none => simpa [Connection.drop, hsocket] using h
  | some fd =>
    simp only [Connection.drop, hsocket] at h
    simp [wp_act, perform, KeepsSocket, Linking]
    exact fun _ => h

theorem linked_ownerClose {Q : Unit → Connection → Prop}
    (h : Q () (if s.state = .closed ∨ s.state = .closing then s else s.drop)) (isClient : Bool)
    (n : ℕ) (code : ℤ) : Linked (J := J) Q (ownerMessagelinkClose isClient n code) s := by
  simp only [Linked, ownerMessagelinkClose, doing, perform_bind, wp_act, KeepsSocket, Linking,
    true_and]
  intro state t ht
  obtain ⟨rfl, rfl⟩ := ht
  split_ifs at h ⊢ with hclosed
  · exact h
  · apply wp_bind.2
    apply linked_of_inert
    · exact ⟨trivial, fun _ => inert_sendFrame isClient 8 _⟩
    intro err
    split_ifs with herr
    · exact linked_closeSocket h
    · apply wp_bind.2
      apply linked_of_inert (inert_waitClose n)
      intro _
      exact linked_closeSocket h

theorem linked_ownerCloseOneway {Q : Unit → Connection → Prop}
    (h : Q () { s with state := .closed }.drop) (isClient : Bool) (code : ℤ) :
    Linked (J := J) Q (ownerMessagelinkCloseOneway isClient code) s := by
  simp only [Linked, ownerMessagelinkCloseOneway, doing, perform_bind, wp_act, KeepsSocket,
    Linking, true_and]
  intro _ t ht
  subst ht
  apply wp_bind.2
  apply linked_of_inert (inert_sendFrame isClient 8 _)
  intro _
  exact linked_closeSocket h

theorem linked_remoteClose {Q : ℤ → Connection → Prop}
    (h : Q 0 { s with state := .closed }.drop) (isClient : Bool) (input : Bytes) :
    Linked (J := J) Q (remoteMessagelinkClose isClient input) s := by
  simp only [Linked, remoteMessagelinkClose, doing, perform_bind, wp_act, KeepsSocket, Linking,
    true_and]
  intro state t ht
  obtain ⟨rfl, rfl⟩ := ht
  have hclosed : Linked (J := J) Q (.act (.setState .closed) fun _ =>
      messagelinkCloseSocket >>= fun _ => .act .onclose fun _ => .ret 0) t := by
    refine ⟨trivial, fun _ t' ht => ?_⟩
    obtain rfl := ht
    apply wp_bind.2
    apply linked_closeSocket
    simpa [wp_act, KeepsSocket, Linking] using h
  split_ifs with hopen
  · apply wp_bind.2
    apply linked_of_inert
    · exact ⟨trivial, fun _ => ⟨trivial, fun code => inert_sendFrame isClient 8 _⟩⟩
    · intro _
      exact hclosed
  · exact hclosed

end Close

/-! ## Connecting -/

/-- Between two calls: the socket is valid just when the link is open, and then connected to the
remote address; the descriptors are the socket and those that could not be connected. -/
structure Connection.Sound (s : Connection) : Prop where
  connected : ∀ fd, s.socket = some fd → s.state = .open ∧
    ∃ addr, s.remoteAddr = some addr ∧ s.peer fd = some addr
  valid : s.state = .open → s.socket ≠ none
  client : s.state = .open → s.isClient = true
  opened : s.opened = s.socket.toList ++ s.refused

/-- What a call of `client_messagelink_connect` promises. -/
structure Connects (s : Connection) (addr : Addr) (result : ℤ) (t : Connection) : Prop where
  already : result = -2 ↔ s.state = .open ∧ ∃ a, s.remoteAddr = some a ∧ a.addrEq addr = true
  unchanged : result = -2 → t = s
  connected : result = 0 → t.state = .open ∧ t.remoteAddr = some addr ∧
    ∃ fd, t.socket = some fd ∧ t.peer fd = some addr
  failed : result = -1 → t.state ≠ .open
  cases : result = 0 ∨ result = -1 ∨ result = -2

section Connect
variable {s : Connection}

structure Connection.Idle (s : Connection) : Prop where
  socket : s.socket = none
  state : s.state ≠ .open
  client : s.isClient = true
  opened : s.opened = s.refused

theorem Connection.Idle.sound (h : s.Idle) : s.Sound where
  connected := by simp [h.socket]
  valid hopen := absurd hopen h.state
  client hopen := absurd hopen h.state
  opened := by simp [h.socket, h.opened]

structure Connection.Holds (s : Connection) (fd : ℕ) (addr : Addr) : Prop where
  socket : s.socket = some fd
  peer : s.peer fd = some addr
  client : s.isClient = true
  opened : s.opened = fd :: s.refused

theorem Connection.Holds.drop {fd : ℕ} {addr : Addr} (h : s.Holds fd addr) : s.drop.Idle := by
  simp only [Connection.drop, h.socket]
  exact ⟨rfl, by simp, h.client, by simp [h.opened]⟩

theorem linked_openTcpSocket {Q : Option ℕ → Connection → Prop} (addr : Addr) (hs : s.Idle)
    (hfailed : ∀ t : Connection, t.Idle → Q none t)
    (hopened : ∀ (t : Connection) (fd : ℕ), t.socket = none → { t with socket := some fd }.Holds fd addr →
      Q (some fd) t) :
    Linked (J := J) Q (openTcpSocket addr) s := by
  simp only [Linked, openTcpSocket, doing, perform_bind, wp_act, KeepsSocket, true_and]
  intro fd t ht
  cases fd with
  | none =>
    obtain rfl := ht
    exact hfailed _ hs
  | some fd =>
    obtain ⟨hfd, rfl⟩ := ht
    refine ⟨trivial, fun (ret : ℤ) t ht => ?_⟩
    obtain rfl := ht
    dsimp only
    split_ifs with hret
    · exact hfailed _ ⟨hs.socket, hs.state, hs.client, by simp [hs.opened]⟩
    · exact hopened _ fd hs.socket ⟨rfl, by simp, hs.client, by simp [hs.opened]⟩

theorem linked_openSocket {Q : ℤ → Connection → Prop} (addr : Addr) (hs : s.Idle)
    (hfailed : ∀ t : Connection, t.Idle → Q (-1) t)
    (hopened : ∀ (t : Connection) (fd : ℕ), t.Holds fd addr → Q 0 t) :
    Linked (J := J) Q (clientMessagelinkOpenSocket addr) s := by
  simp only [Linked, clientMessagelinkOpenSocket, doing, perform_bind]
  apply wp_bind.2
  apply linked_openTcpSocket addr hs
  · intro t ht
    refine ⟨trivial, fun _ t' ht' => ?_⟩
    obtain rfl := ht'
    refine ⟨trivial, fun _ t' ht' => ?_⟩
    obtain ⟨rfl, rfl⟩ := ht'
    exact hfailed _ ⟨rfl, ht.state, ht.client, ht.opened⟩
  · intro t fd hnone ht
    refine ⟨hnone, fun _ t' ht' => ?_⟩
    obtain rfl := ht'
    refine ⟨trivial, fun _ t' ht' => ?_⟩
    obtain ⟨rfl, rfl⟩ := ht'
    exact hopened _ fd ht

theorem linked_connectSocket {Q : ℤ → Connection → Prop} (addr : Addr) (hs : s.Idle)
    (hfailed : ∀ t : Connection, t.Idle → Q (-1) t)
    (hopened : ∀ (t : Connection) (fd : ℕ), t.Holds fd addr → t.state = .open →
      t.remoteAddr = some addr → Q 0 t) :
    Linked (J := J) Q (connectSocket addr) s := by
  have hclose : ∀ (t : Connection) (fd : ℕ), t.Holds fd addr → Linked (J := J) Q
      (messagelinkCloseSocket >>= fun _ => .act (.unlock .stateMutex) fun _ => .ret (-1)) t := by
    intro t fd ht
    apply wp_bind.2
    apply linked_closeSocket
    refine ⟨trivial, fun _ t' ht' => ?_⟩
    obtain rfl := ht'
    exact hfailed _ ht.drop
  simp only [Linked, connectSocket, doing, perform_bind]
  apply wp_bind.2
  apply linked_openSocket addr hs
  · intro t ht
    refine ⟨trivial, fun _ t' ht' => ?_⟩
    obtain rfl := ht'
    exact hfailed _ ht
  intro t fd ht
  refine ⟨trivial, fun _ t' ht' => ?_⟩
  obtain rfl := ht'
  refine ⟨trivial, fun upgraded t' ht' => ?_⟩
  obtain rfl := ht'
  dsimp only
  split_ifs with hupgraded
  · exact hclose _ fd ⟨ht.socket, ht.peer, ht.client, ht.opened⟩
  refine ⟨trivial, fun clone t' ht' => ?_⟩
  obtain ⟨hclone, rfl⟩ := ht'
  refine ⟨trivial, fun _ t' ht' => ?_⟩
  obtain rfl := ht'
  refine ⟨trivial, fun remoteAddr t' ht' => ?_⟩
  obtain ⟨rfl, rfl⟩ := ht'
  dsimp only
  split_ifs with hnone
  · exact hclose _ fd ⟨ht.socket, ht.peer, ht.client, ht.opened⟩
  refine ⟨trivial, fun _ t' ht' => ?_⟩
  obtain rfl := ht'
  refine ⟨trivial, fun _ t' ht' => ?_⟩
  obtain rfl := ht'
  exact hopened _ fd ⟨ht.socket, ht.peer, ht.client, ht.opened⟩ rfl (hclone.resolve_left hnone)

theorem Connection.Sound.idle (hs : s.Sound) (hstate : s.state ≠ .open) :
    { s with isClient := true }.Idle := by
  have hsocket : s.socket = none := by
    cases h : s.socket with
    | none => rfl
    | some fd => exact absurd (hs.connected fd h).1 hstate
  exact ⟨hsocket, hstate, rfl, by simpa [hsocket] using hs.opened⟩

theorem Connection.Idle.drop (hs : s.Idle) : s.drop = s := by
  simp only [Connection.drop, hs.socket]

theorem Connection.Sound.drop_idle (hs : s.Sound) (hstate : s.state = .open) :
    { s with isClient := true }.drop.Idle := by
  obtain ⟨fd, hfd⟩ := Option.ne_none_iff_exists'.1 (hs.valid hstate)
  obtain ⟨-, addr, -, hpeer⟩ := hs.connected fd hfd
  exact Connection.Holds.drop ⟨hfd, hpeer, rfl, by simpa [hfd] using hs.opened⟩

theorem linked_connect (addr : Addr) (hs : s.Sound) :
    Linked (J := J) (fun result t => t.Sound ∧ Connects s addr result t)
      (clientMessagelinkConnect addr) s := by
  simp only [Linked, clientMessagelinkConnect, doing, perform_bind]
  refine ⟨trivial, fun _ t ht => ?_⟩
  obtain rfl := ht
  refine ⟨trivial, fun _ t ht => ?_⟩
  obtain rfl := ht
  refine ⟨trivial, fun _ t ht => ?_⟩
  obtain ⟨rfl, rfl⟩ := ht
  refine ⟨trivial, fun _ t ht => ?_⟩
  obtain ⟨rfl, rfl⟩ := ht
  dsimp only
  split_ifs with hopen
  · obtain ⟨haddr, hstate⟩ := hopen
    have hsame : { s with isClient := true } = s := by
      cases s
      simpa using (hs.client hstate).symm
    refine ⟨trivial, fun _ t ht => ?_⟩
    obtain rfl := ht
    rw [hsame]
    exact ⟨hs, by simpa using ⟨hstate, (Option.any_eq_true _ _).1 haddr⟩, fun _ => rfl, by simp,
      by simp, by simp⟩
  have hother : ¬ (s.state = .open ∧ ∃ a, s.remoteAddr = some a ∧ a.addrEq addr = true) := by
    rw [← Option.any_eq_true]
    exact fun h => hopen h.symm
  have hconnect : ∀ t : Connection, t.Idle → Linked (J := J)
      (fun result t => t.Sound ∧ Connects s addr result t) (connectSocket addr) t := by
    intro t ht
    apply linked_connectSocket addr ht
    · intro t ht
      exact ⟨ht.sound, by simpa using hother, by simp, by simp, fun _ => ht.state, by simp⟩
    · intro t fd ht hstate haddr
      refine ⟨⟨?_, by simp [ht.socket], fun _ => ht.client, by simp [ht.socket, ht.opened]⟩,
        by simpa using hother, by simp, fun _ => ⟨hstate, haddr, fd, ht.socket, ht.peer⟩, by simp,
        by simp⟩
      intro fd' hfd'
      obtain rfl : fd = fd' := by simpa [ht.socket] using hfd'
      exact ⟨hstate, addr, haddr, ht.peer⟩
  refine ⟨trivial, fun _ t ht => ?_⟩
  obtain ⟨rfl, rfl⟩ := ht
  refine ⟨trivial, fun _ t ht => ?_⟩
  obtain ⟨rfl, rfl⟩ := ht
  dsimp only
  by_cases hstate : s.state = .open
  · have haddr : s.remoteAddr.any (!·.addrEq addr) = true := by
      obtain ⟨fd, hfd⟩ := Option.ne_none_iff_exists'.1 (hs.valid hstate)
      obtain ⟨-, a, ha, -⟩ := hs.connected fd hfd
      have hne : a.addrEq addr ≠ true := fun h => hopen ⟨by simp [ha, h], hstate⟩
      simpa [ha] using hne
    rw [if_neg (fun h => h.2 hstate)]
    refine ⟨trivial, fun _ t ht => ?_⟩
    obtain ⟨rfl, rfl⟩ := ht
    dsimp only
    rw [if_pos haddr]
    apply wp_bind.2
    apply linked_closeSocket
    exact hconnect _ (hs.drop_idle hstate)
  · have hidle := hs.idle hstate
    have hrest : Linked (J := J) (fun result t => t.Sound ∧ Connects s addr result t)
        (.act .remoteAddr fun remoteAddr =>
          if remoteAddr.any (!·.addrEq addr) then
            messagelinkCloseSocket >>= fun _ => connectSocket addr
          else connectSocket addr) { s with isClient := true } := by
      refine ⟨trivial, fun _ t ht => ?_⟩
      obtain ⟨rfl, rfl⟩ := ht
      dsimp only
      split_ifs
      · apply wp_bind.2
        apply linked_closeSocket
        rw [hidle.drop]
        exact hconnect _ hidle
      · exact hconnect _ hidle
    split_ifs
    · apply wp_bind.2
      apply linked_closeSocket
      rw [hidle.drop]
      exact hrest
    · exact hrest

end Connect

/-! ## Calls, one after the other -/

/-- A thread connects or disconnects, or the reader closes the link for what it read or could not
read. -/
inductive Call where
  | connect (addr : Addr)
  | disconnect
  | remoteClose (input : Bytes)
  | ownerClose (code : ℤ)
  | ownerCloseOneway (code : ℤ)

def Call.program (isClient : Bool) (n : ℕ) : Call → Program J ℤ
  | .connect addr => clientMessagelinkConnect addr
  | .disconnect => clientMessagelinkDisconnect isClient n
  | .remoteClose input => remoteMessagelinkClose isClient input
  | .ownerClose code => ownerMessagelinkClose isClient n code >>= fun _ => .ret 0
  | .ownerCloseOneway code => ownerMessagelinkCloseOneway isClient code >>= fun _ => .ret 0

structure Done (J : Type) where
  call : Call
  events : List (Event (Act.Answer (J := J)))
  result : ℤ

def Does (s : Connection) (d : Done J) (t : Connection) : Prop :=
  ∃ n ms, Run (Steps Linking) (s, d.call.program s.isClient n) ms (t, .ret d.result) ∧
    d.events = ms.map Move.act

section Calls
variable {s t : Connection}

theorem Connection.drop_sound (hopened : s.opened = s.socket.toList ++ s.refused)
    (hclosed : s.socket = none → s.state ≠ .open) : s.drop.Sound := by
  cases hsocket : s.socket with
  | none =>
    have hdrop : s.drop = s := by simp only [Connection.drop, hsocket]
    rw [hdrop]
    have hstate := hclosed hsocket
    exact ⟨by simp [hsocket], fun h => absurd h hstate, fun h => absurd h hstate, hopened⟩
  | some fd =>
    simp only [Connection.drop, hsocket]
    exact ⟨by simp, by simp, by simp, by simp [hopened, hsocket]⟩

theorem Connection.Sound.drop (hs : s.Sound) : s.drop.Sound :=
  s.drop_sound hs.opened fun hnone hopen => hs.valid hopen hnone

theorem Connection.Sound.drop_closed (hs : s.Sound) : { s with state := .closed }.drop.Sound :=
  Connection.drop_sound hs.opened fun _ => by simp

theorem linked_call (hs : s.Sound) (call : Call) (n : ℕ) :
    Linked (J := J)
      (fun result t => t.Sound ∧ ∀ addr, call = .connect addr → Connects s addr result t)
      (call.program s.isClient n) s := by
  have hclose : (if s.state = .closed ∨ s.state = .closing then s else s.drop).Sound := by
    split_ifs
    · exact hs
    · exact hs.drop
  cases call with
  | connect addr =>
    apply wp_mono (linked_connect addr hs)
    intro result t ht
    exact ⟨ht.1, fun addr' h => by cases h; exact ht.2⟩
  | disconnect =>
    simp only [Linked, Call.program, clientMessagelinkDisconnect, doing, perform_bind]
    refine ⟨trivial, fun _ t ht => ?_⟩
    obtain rfl := ht
    apply wp_bind.2
    apply linked_ownerClose
    refine ⟨trivial, fun _ t ht => ?_⟩
    obtain rfl := ht
    exact ⟨hclose, by simp⟩
  | remoteClose input => exact linked_remoteClose ⟨hs.drop_closed, by simp⟩ _ _
  | ownerClose code =>
    apply wp_bind.2
    exact linked_ownerClose ⟨hclose, by simp⟩ _ _ _
  | ownerCloseOneway code =>
    apply wp_bind.2
    exact linked_ownerCloseOneway ⟨hs.drop_closed, by simp⟩ _ _

theorem Does.sound {d : Done J} (h : Does s d t) (hs : s.Sound) :
    t.Sound ∧ ∀ addr, d.call = .connect addr → Connects s addr d.result t := by
  obtain ⟨n, ms, hrun, -⟩ := h
  exact wp_steps hrun (linked_call hs d.call n)

theorem newMessagelink_sound : newMessagelink.Sound where
  connected := by simp [newMessagelink]
  valid := by simp [newMessagelink]
  client := by simp [newMessagelink]
  opened := rfl

theorem calls_sound {ms : List (Move Connection (Done J))} (h : Run Does newMessagelink ms s) :
    s.Sound :=
  h.invariant (I := Connection.Sound) (G := fun _ => True) (fun _ _ _ hs hd _ => (hd.sound hs).1)
    newMessagelink_sound fun _ _ => trivial

def Overwrites {α : Type} (c : Config Connection (Act.Answer (J := J)) α) : Prop :=
  ∃ fd k, c.2 = .act (.setSocket (some fd)) k ∧ c.1.socket ≠ none

/-- After any calls: an open link has a socket that is connected to its remote address, no call
overwrites a valid socket, and `client_messagelink_connect` keeps what it promises. -/
theorem client_link_is_sound {ms : List (Move Connection (Done J))}
    (h : Run Does newMessagelink ms s) :
    (s.state = .open →
      ∃ fd addr, s.socket = some fd ∧ s.remoteAddr = some addr ∧ s.peer fd = some addr) ∧
    (∀ (call : Call) (n : ℕ) es c,
      Run (Steps Linking) (s, call.program (J := J) s.isClient n) es c → ¬ Overwrites c) ∧
    ∀ addr events result t,
      Does (J := J) s ⟨.connect addr, events, result⟩ t → Connects s addr result t := by
  have hs := calls_sound h
  refine ⟨?_, ?_, ?_⟩
  · intro hopen
    obtain ⟨fd, hfd⟩ := Option.ne_none_iff_exists'.1 (hs.valid hopen)
    obtain ⟨-, addr, haddr, hpeer⟩ := hs.connected fd hfd
    exact ⟨fd, addr, hfd, haddr, hpeer⟩
  · intro call n es c hrun hc
    obtain ⟨fd, k, hk, hsocket⟩ := hc
    have hwp := wp_steps hrun (linked_call hs call n)
    rw [hk] at hwp
    exact hsocket hwp.1
  · intro addr events result t hdoes
    exact (hdoes.sound hs).2 addr rfl

end Calls

/-! ### One attempt to connect -/

/-- `socket()` returns 3 and `connect()` returns `ret`. -/
def attempted (ret : ℤ) (s : Connection) : (a : Act J) → a.Answer
  | .state => s.state
  | .socket => s.socket
  | .remoteAddr => s.remoteAddr
  | .newSocket => some 3
  | .connect _ _ => ret
  | .openWebsocket => true
  | .addrClone addr => some addr
  | a => a.idle

def attempt (ret : ℤ) (s : Connection) : Act J → Option Connection
  | .setState state => some { s with state }
  | .setSocket socket => some { s with socket }
  | .setRemoteAddr remoteAddr => some { s with remoteAddr }
  | .setIsClient => some { s with isClient := true }
  | .newSocket =>
    if 3 ∈ s.opened then none
    else some { s with opened := 3 :: s.opened, peer := Function.update s.peer 3 none }
  | .connect fd addr =>
    some (if ret < 0 then { s with refused := fd :: s.refused }
      else { s with peer := Function.update s.peer fd (some addr) })
  | .closeTcpSocket fd =>
    some { s with opened := s.opened.erase fd, peer := Function.update s.peer fd none }
  | _ => some s

theorem linking_attempt {ret : ℤ} {s t : Connection} {a : Act J} (h : attempt ret s a = some t) :
    Linking s a (attempted ret s a) t := by
  cases a with
  | connect fd addr => exact (Option.some.inj h).symm
  | _ => simp_all [attempt, attempted, Linking]

def afterAttempt (ret : ℤ) : Config Connection (Act.Answer (J := Unit)) ℤ :=
  follow (attempted ret) (attempt ret) (clientMessagelinkConnect Addr.newAddr0) newMessagelink

/-- `connect()` fails. -/
def ConnectFails : Event (Act.Answer (J := J)) → Prop
  | ⟨.connect _ _, (ret : ℤ)⟩ => ret < 0
  | _ => False

theorem connectFails_attempted {ret : ℤ} (hret : 0 ≤ ret) (s : Connection) (a : Act J) :
    ¬ ConnectFails ⟨a, attempted ret s a⟩ := by
  cases a with
  | connect fd addr => exact not_lt.2 hret
  | _ => exact id

theorem does_attempt {ret result : ℤ} (h : (afterAttempt ret).2 = .ret result) :
    ∃ events : List (Event (Act.Answer (J := Unit))),
      Does newMessagelink ⟨.connect Addr.newAddr0, events, result⟩ (afterAttempt ret).1 ∧
      (0 ≤ ret → ∀ e ∈ events, ¬ ConnectFails e) := by
  let good (_ : Connection) (e : Event (Act.Answer (J := Unit))) : Prop :=
    0 ≤ ret → ¬ ConnectFails e
  obtain ⟨ms, hrun, hgood⟩ := run_follow (G := good)
    (fun s a t hnext => ⟨linking_attempt hnext, fun hret => connectFails_attempted hret s a⟩)
    (clientMessagelinkConnect Addr.newAddr0) newMessagelink
  refine ⟨ms.map Move.act, ⟨0, ms, ?_, rfl⟩, ?_⟩
  · rw [← h]
    exact hrun
  · intro hret e he
    obtain ⟨m, hm, rfl⟩ := List.mem_map.1 he
    exact hgood m hm hret

theorem connected_link_is_sound :
    ∃ (ms : List (Move Connection (Done Unit))) (s : Connection),
      Run Does newMessagelink ms s ∧ s.state = .open ∧
        ∃ fd addr, s.socket = some fd ∧ s.remoteAddr = some addr ∧ s.peer fd = some addr := by
  have hconnected : (afterAttempt 0).2 = .ret 0 := rfl
  obtain ⟨events, hdoes, -⟩ := does_attempt hconnected
  have hrun := Run.single hdoes
  exact ⟨_, _, hrun, rfl, (client_link_is_sound hrun).1 rfl⟩

/-! ## Descriptors -/

/-- One descriptor is open for a valid socket, and none without. -/
def Connection.Balanced (s : Connection) : Prop :=
  s.opened.length = if s.socket = none then 0 else 1

section Descriptors
variable {s t : Connection}

theorem linking_refused {a : Act J} {r : a.Answer} (h : Linking s a r t) :
    t.refused = [] ↔ s.refused = [] ∧ ¬ ConnectFails ⟨a, r⟩ := by
  cases a with
  | connect fd addr =>
    simp only [Linking] at h
    subst h
    simp only [ConnectFails]
    split_ifs with hret
    · simp [hret]
    · simp [hret]
  | newSocket =>
    cases r with
    | none =>
      obtain rfl := h
      simp [ConnectFails]
    | some fd =>
      obtain ⟨-, rfl⟩ := h
      simp [ConnectFails]
  | _ => simp_all [Linking, ConnectFails]

theorem steps_refused {α : Type} {c d : Config Connection (Act.Answer (J := J)) α}
    {ms : List (Move _ _)} (h : Run (Steps Linking) c ms d) :
    d.1.refused = [] ↔ c.1.refused = [] ∧ ∀ e ∈ ms.map Move.act, ¬ ConnectFails e := by
  induction h with
  | nil => simp
  | cons hs _ ih =>
    obtain ⟨k, -, hlink, -⟩ := hs
    rw [ih, linking_refused hlink, and_assoc]
    simp

theorem Connection.Sound.balanced_iff (hs : s.Sound) : s.Balanced ↔ s.refused = [] := by
  rw [Connection.Balanced, hs.opened]
  cases s.socket <;> simp

/-- The descriptors stay balanced just as long as no `connect()` fails. -/
theorem descriptors_balanced_iff {ms : List (Move Connection (Done J))}
    (h : Run Does newMessagelink ms s) :
    (∀ m ∈ ms, m.dst.Balanced) ↔ ∀ m ∈ ms, ∀ e ∈ m.act.events, ¬ ConnectFails e := by
  refine h.forall_iff (I := fun s => s.Sound ∧ s.refused = []) (P := fun m => m.dst.Balanced)
    (G := fun m => ∀ e ∈ m.act.events, ¬ ConnectFails e) ?_ ?_ ⟨newMessagelink_sound, rfl⟩
  · intro s d t hs hd
    have ht := (hd.sound hs.1).1
    obtain ⟨n, ms, hrun, hevents⟩ := hd
    rw [ht.balanced_iff, hevents, steps_refused hrun]
    simp [hs.2]
  · intro s d t hs hd hG
    have ht := (hd.sound hs.1).1
    obtain ⟨n, ms, hrun, hevents⟩ := hd
    rw [hevents] at hG
    exact ⟨ht, (steps_refused hrun).2 ⟨hs.2, hG⟩⟩

end Descriptors

theorem connected_descriptors_balanced :
    ∃ (ms : List (Move Connection (Done Unit))) (s : Connection),
      Run Does newMessagelink ms s ∧ s.socket = some 3 ∧ ∀ m ∈ ms, m.dst.Balanced := by
  have hconnected : (afterAttempt 0).2 = .ret 0 := rfl
  obtain ⟨events, hdoes, hgood⟩ := does_attempt hconnected
  have hrun := Run.single hdoes
  refine ⟨_, _, hrun, rfl, (descriptors_balanced_iff hrun).2 ?_⟩
  simpa using hgood le_rfl

theorem refused_descriptor_leaks :
    ∃ (ms : List (Move Connection (Done Unit))) (s : Connection),
      Run Does newMessagelink ms s ∧ s.socket = none ∧ s.opened = [3] ∧ ¬ s.Balanced := by
  have hfailed : (afterAttempt (-1)).2 = .ret (-1) := rfl
  obtain ⟨events, hdoes, -⟩ := does_attempt hfailed
  exact ⟨_, _, Run.single hdoes, rfl, rfl, fun h => Nat.one_ne_zero h⟩

end Rcom.Messagelink
