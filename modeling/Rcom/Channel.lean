import Rcom.Messagelink

/-!
# Several threads on one link (messagelink.c)

The threads do their actions one at a time, in any order. What arrives, what `select` and
`send` answer and who is asked to quit is left open. A lock that is held has to be waited
for.
-/

namespace Rcom.Messagelink
open Rcom.Lib Rcom.Lib.Program Rcom.Lib.Trace
open Rcom.ClientLink (LinkState)

variable {J : Type}

/-- What one call of `send` took. -/
structure Piece where
  thread : ℕ
  opcode : ℕ
  bytes : Bytes

/-- `connected` says that the descriptor of the socket is open. The last four fields are history: what
was sent under `send_mutex` and by whom, what was sent since it was taken, the frame in the
middle of which a `send` failed, and the threads that found the socket invalid or made it so. -/
structure Channel where
  state : LinkState
  socket : Option ℕ
  connected : Bool
  closeCode : ℤ
  holder : Lock → Option ℕ
  out : Bytes
  wire : List Piece
  frames : List (ℕ × Bytes)
  current : Bytes
  cut : Option (ℕ × Bytes)
  aware : List ℕ

namespace Channel
variable (s : Channel) (i : ℕ)

def hold (l : Lock) (thread : Option ℕ) : Channel :=
  { s with holder := Function.update s.holder l thread }

/-- What was sent since `send_mutex` was taken becomes a frame of the thread. -/
def settle : Channel :=
  { s with
    frames := if s.current = [] then s.frames else s.frames ++ [(i, s.current)]
    current := [] }

def release : Lock → Channel
  | .sendMutex => (s.settle i).hold .sendMutex none
  | l => s.hold l none

def put (opcode : ℕ) (data : Bytes) : Channel :=
  { s with wire := s.wire ++ [⟨i, opcode, data⟩], current := s.current ++ data }

def fail : Channel :=
  { s with cut := if s.current = [] then s.cut else some (i, s.current), current := [] }

def learn (socket : Option ℕ) : Channel :=
  if socket = none then { s with aware := i :: s.aware } else s

/-- What each action of thread `i` does. -/
def Does (i : ℕ) (s : Channel) : (a : Act J) → a.Answer → Channel → Prop
  | .lock l, _, t => s.holder l = none ∧ t = s.hold l (some i)
  | .unlock l, _, t => t = s.release i l
  | .state, state, t => state = s.state ∧ t = s
  | .setState state, _, t => t = { s with state }
  | .socket, socket, t => socket = s.socket ∧ t = s.learn i socket
  | .setSocket socket, _, t => t = { s.learn i socket with socket }
  | .closeCode, code, t => code = s.closeCode ∧ t = s
  | .setCloseCode code, _, t => t = { s with closeCode := code }
  | .closeTcpSocket _, _, t => t = { s with connected := false }
  | .clearOut, _, t => t = { s with out := [] }
  | .appendOut data, _, t => t = { s with out := s.out ++ data }
  | .out, out, t => out = s.out ∧ t = s
  | .send _ opcode data, (ret : ℤ), t =>
    0 < ret ∧ ret ≤ data.length ∧ s.connected = true ∧ t = s.put i opcode (data.take ret.toNat) ∨
      ret ≤ 0 ∧ t = s.fail i
  | _, _, t => t = s

end Channel

def openChannel (fd : ℕ) : Channel where
  state := .open
  socket := some fd
  connected := true
  closeCode := 0
  holder := fun _ => none
  out := []
  wire := []
  frames := []
  current := []
  cut := none
  aware := []

/-! ## One way in which the system answers -/

section Script
variable (refuses : Channel → Bool) (i : ℕ) (s : Channel)

/-- `send` takes all or fails. -/
def Channel.takes (data : Bytes) : Bool := !refuses s && s.connected && !data.isEmpty

def Channel.answer : (a : Act J) → a.Answer
  | .state => s.state
  | .socket => s.socket
  | .closeCode => s.closeCode
  | .out => s.out
  | .send _ _ data => if s.takes refuses data then (data.length : ℤ) else (-1 : ℤ)
  | a => a.idle

def Channel.next : Act J → Option Channel
  | .lock l => if s.holder l = none then some (s.hold l (some i)) else none
  | .unlock l => some (s.release i l)
  | .setState state => some { s with state }
  | .socket => some (s.learn i s.socket)
  | .setSocket socket => some { s.learn i socket with socket }
  | .setCloseCode code => some { s with closeCode := code }
  | .closeTcpSocket _ => some { s with connected := false }
  | .clearOut => some { s with out := [] }
  | .appendOut data => some { s with out := s.out ++ data }
  | .send _ opcode data => some (if s.takes refuses data then s.put i opcode data else s.fail i)
  | _ => some s

variable {refuses i s}

theorem does_next {a : Act J} {t : Channel} (h : s.next refuses i a = some t) :
    s.Does i a (s.answer refuses a) t := by
  cases a with
  | lock l =>
    simp only [Channel.next] at h
    split_ifs at h with hfree
    exact ⟨hfree, (Option.some.inj h).symm⟩
  | send fd opcode data =>
    obtain rfl := Option.some.inj h
    simp only [Channel.answer, Channel.Does]
    by_cases htakes : s.takes refuses data = true
    · rw [if_pos htakes, if_pos htakes]
      simp only [Channel.takes, Bool.and_eq_true, Bool.not_eq_true', List.isEmpty_eq_false_iff] at htakes
      have hpos : 0 < data.length := List.length_pos_iff.2 htakes.2
      exact .inl ⟨by omega, le_rfl, htakes.1.2, by simp⟩
    · rw [if_neg htakes, if_neg htakes]
      exact .inr ⟨by decide, rfl⟩
  | state | socket | closeCode | out =>
    obtain rfl := Option.some.inj h
    exact ⟨rfl, rfl⟩
  | _ =>
    obtain rfl := Option.some.inj h
    exact rfl

theorem run_answered {α : Type} {G : Channel → Event (Act.Answer (J := J)) → Prop}
    (hG : ∀ s a, G s ⟨a, s.answer refuses a⟩) {ps : List (Program J α)} {p : Program J α}
    (hi : ps[i]? = some p) (s : Channel) :
    ∃ ms, Run (ThreadStep Channel.Does) (s, ps) ms
        ((follow (Channel.answer refuses) (Channel.next refuses i) p s).1,
          ps.set i (follow (Channel.answer refuses) (Channel.next refuses i) p s).2) ∧
      ∀ m ∈ ms, m.act.1 = i ∧ G m.src.1 m.act.2 := by
  have hstep : ∀ (s : Channel) (a : Act J) (t : Channel), s.next refuses i a = some t →
      s.Does i a (s.answer refuses a) t ∧ G s ⟨a, s.answer refuses a⟩ :=
    fun s a t h => ⟨does_next h, hG s a⟩
  obtain ⟨ms, hrun, hms⟩ := run_follow hstep p s
  exact run_thread hrun hms hi

end Script

/-! ## Bytes on the wire -/

def tagged (f : ℕ × Bytes) : List (ℕ × UInt8) := f.2.map (Prod.mk f.1)

def bytesOf (wire : List Piece) : List (ℕ × UInt8) :=
  wire.flatMap fun p => tagged (p.thread, p.bytes)

@[simp] theorem tagged_nil (i : ℕ) : tagged (i, []) = [] := rfl

theorem tagged_append (i : ℕ) (bs cs : Bytes) :
    tagged (i, bs ++ cs) = tagged (i, bs) ++ tagged (i, cs) := List.map_append

theorem bytesOf_append (w v : List Piece) : bytesOf (w ++ v) = bytesOf w ++ bytesOf v :=
  List.flatMap_append

end Rcom.Messagelink
