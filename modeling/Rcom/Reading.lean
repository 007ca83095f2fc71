import Rcom.Session

/-!
# What a reading thread makes of the frames (messagelink.c)

`Handles` says for whole frames what one call of `_messagelink_read` does with a stream;
the function itself does just that, once its loops have enough rounds.
-/

namespace Rcom.Messagelink
open Rcom.Lib Rcom.Lib.Program Rcom.Lib.Trace Rcom.Lib.Rfc6455
open Rcom.ClientLink (LinkState)

variable {J : Type}

def Session.took (s : Session J) (patience : ℕ) : Session J :=
  { s with reader := readOn s.reader, patience }

/-- A server link does not take this from a client. -/
def Bare (isClient : Bool) (f : Frame) : Prop := isClient = false ∧ f.payload ≠ [] ∧ f.key = none

/-- The link is closed for this frame. -/
def Ends (isClient : Bool) (f : Frame) : Prop :=
  16777216 < f.payload.length ∨ Bare isClient f ∨ f.opcode ∈ [8, 2, 0]

instance (isClient : Bool) (f : Frame) : Decidable (Bare isClient f) :=
  inferInstanceAs (Decidable (_ ∧ _ ∧ f.key = none))

instance (isClient : Bool) (f : Frame) : Decidable (Ends isClient f) :=
  inferInstanceAs (Decidable (_ ∨ _ ∨ _))

def payloadsOf (opcode : Fin 16) (fs : List Frame) : List Bytes :=
  (fs.filter fun f => f.opcode = opcode).map Frame.payload

inductive Passes (isClient : Bool) : List Frame → Session J → Session J → Prop
  | nil (s : Session J) : Passes isClient [] s s
  | ping {f : Frame} {fs : List Frame} {s t u : Session J} {err : ℤ} (p : ℕ)
      (hp : p ≤ s.patience) (hf : ¬ Ends isClient f) (hop : f.opcode = 9)
      (h : Sends isClient 10 f.payload (s.took p) err u) (hrest : Passes isClient fs u t) :
      Passes isClient (f :: fs) s t
  | other {f : Frame} {fs : List Frame} {s t : Session J} (p : ℕ) (hp : p ≤ s.patience)
      (hf : ¬ Ends isClient f) (hop : f.opcode ≠ 1 ∧ f.opcode ≠ 9)
      (hrest : Passes isClient fs (s.took p) t) : Passes isClient (f :: fs) s t

/-- The end of a call: the frames that are to come, the value that is returned, and the frames after
it as long as the link stays open. -/
inductive Stops (L : JsonLib J) (isClient : Bool) :
    List Frame → Session J → Option J → Option (List Frame) → Session J → Prop
  | quits {fs : List Frame} {s : Session J} (p : ℕ) (hp : p ≤ s.patience)
      (hquit : s.mayQuit = true) : Stops L isClient fs s none (some fs) { s with patience := p }
  | ended {s t : Session J} (p : ℕ) (hp : p ≤ s.patience) (h : ClosesOneway isClient 1011 (s.took p) t) :
      Stops L isClient [] s none none t
  | oversized {f : Frame} {fs : List Frame} {s t : Session J} (p : ℕ)
      (hp : p ≤ s.patience) (hsize : 16777216 < f.payload.length) (h : ClosesOneway isClient 1009 (s.took p) t) :
      Stops L isClient (f :: fs) s none none t
  | bare {f : Frame} {fs : List Frame} {s t : Session J} (p : ℕ)
      (hp : p ≤ s.patience) (hsize : f.payload.length ≤ 16777216) (hbare : Bare isClient f)
      (h : OwnerCloses isClient 1002 (s.took p) t) : Stops L isClient (f :: fs) s none none t
  | refused {f : Frame} {fs : List Frame} {s t : Session J} (p : ℕ)
      (hp : p ≤ s.patience) (hsize : f.payload.length ≤ 16777216) (hbare : ¬ Bare isClient f)
      (hop : f.opcode = 2 ∨ f.opcode = 0) (h : OwnerCloses isClient 1003 (s.took p) t) :
      Stops L isClient (f :: fs) s none none t
  | close {f : Frame} {fs : List Frame} {s t : Session J} (p : ℕ)
      (hp : p ≤ s.patience) (hsize : f.payload.length ≤ 16777216) (hbare : ¬ Bare isClient f) (hop : f.opcode = 8)
      (h : RemoteCloses isClient f.payload (s.took p) t) : Stops L isClient (f :: fs) s none none t
  | text {f : Frame} {fs : List Frame} {s : Session J} (p : ℕ) (hp : p ≤ s.patience)
      (hf : ¬ Ends isClient f) (hop : f.opcode = 1) :
      Stops L isClient (f :: fs) s (parseText L f.payload) (some fs) (s.took p)

inductive Handles (L : JsonLib J) (isClient : Bool) (fs : List Frame) (s : Session J)
    (r : Option J) (next : Option (List Frame)) (t : Session J) : Prop
  | intro (pre rest : List Frame) (u : Session J) (hfs : fs = pre ++ rest)
      (hpass : Passes isClient pre s u) (hstop : Stops L isClient rest u r next t)

section Handles
variable {L : JsonLib J} {isClient : Bool} {f : Frame} {fs : List Frame} {s t u : Session J}
variable {r : Option J} {next : Option (List Frame)}

theorem Stops.handles (h : Stops L isClient fs s r next t) : Handles L isClient fs s r next t :=
  .intro [] fs s rfl (.nil s) h

theorem Handles.ping {err : ℤ} {p : ℕ} (hrest : Handles L isClient fs u r next t)
    (hp : p ≤ s.patience) (hf : ¬ Ends isClient f) (hop : f.opcode = 9)
    (h : Sends isClient 10 f.payload (s.took p) err u) :
    Handles L isClient (f :: fs) s r next t := by
  obtain ⟨pre, rest, v, hfs, hpass, hstop⟩ := hrest
  exact .intro (f :: pre) rest v (by rw [hfs, List.cons_append]) (.ping p hp hf hop h hpass) hstop

theorem Handles.other {p : ℕ} (hrest : Handles L isClient fs (s.took p) r next t)
    (hp : p ≤ s.patience) (hf : ¬ Ends isClient f) (hop : f.opcode ≠ 1 ∧ f.opcode ≠ 9) :
    Handles L isClient (f :: fs) s r next t := by
  obtain ⟨pre, rest, v, hfs, hpass, hstop⟩ := hrest
  exact .intro (f :: pre) rest v (by rw [hfs, List.cons_append]) (.other p hp hf hop hpass) hstop

end Handles

section Read
variable {L : JsonLib J} {isClient : Bool} {s : Session J} {fd : ℕ}

theorem returns_tryRead {Q : Message → Session J → Prop} {n : ℕ} (hopen : s.state = .open)
    (hn : s.patience < n)
    (hquit : s.mayQuit = true → ∀ p ≤ s.patience, Q (noMessage (-4)) { s with patience := p })
    (hread : ∀ p ≤ s.patience, Q s.message (s.took p)) :
    Returns Q (messagelinkTryReadMessage n) s := by
  induction n generalizing s with
  | zero => omega
  | succ n ih =>
    simp only [messagelinkTryReadMessage, doing, perform_bind, returns_state]
    rw [if_neg (not_not.2 hopen)]
    apply returns_appQuit
    intro quit hmay
    cases quit with
    | true => exact hquit (hmay rfl) s.patience le_rfl
    | false =>
      apply returns_threadQuit
      intro quit hmay
      cases quit with
      | true => exact hquit (hmay rfl) s.patience le_rfl
      | false =>
        apply returns_waitData
        · exact returns_readMessage.2 (hread s.patience le_rfl)
        · intro wait patience hwait hpatience
          by_cases hzero : wait = 0
          · rw [if_neg (not_not.2 hzero)]
            have hopen' : Session.state { s with patience } = .open := hopen
            apply ih hopen'
            · dsimp only
              omega
            · intro hmay p hp
              exact hquit hmay p (by dsimp only at hp; omega)
            · intro p hp
              exact hread p (by dsimp only at hp; omega)
          · rw [if_pos hzero]
            exact returns_readMessage.2 (hread patience (by omega))

theorem opcode_eq_iff (f : Frame) (k : Fin 16) :
    (wsFrame f).opcode = UInt8.ofNat k ↔ f.opcode = k := by
  have hall : ∀ o k : Fin 16, UInt8.ofNat o = UInt8.ofNat k ↔ o = k := by decide
  exact hall f.opcode k

theorem bare_iff (f : Frame) :
    (isClient = false ∧ f.payload.length > 0 ∧ (wsFrame f).mask = 0) ↔ Bare isClient f := by
  have hmask : (wsFrame f).mask = 0 ↔ f.key = none := by
    have hall : ∀ b : Bool, b.toUInt8 = 0 ↔ b = false := by decide
    rw [wsFrame, hall]
    simp
  rw [Bare, hmask, gt_iff_lt, List.length_pos_iff]

theorem Session.Hears.took {f : Frame} {fs : List Frame} (h : s.Hears isClient (f :: fs))
    (hsize : f.payload.length ≤ 16777216) (p : ℕ) : (s.took p).Hears isClient fs :=
  (h.next hsize).of_reader rfl

theorem returns_readLoop_closed {Q : Option J → Session J → Prop} {n : ℕ} (hclosed : s.state ≠ .open)
    (hn : 0 < n) (h : Q none s) : Returns Q (readLoop L isClient n) s := by
  obtain ⟨n, rfl⟩ := Nat.exists_eq_succ_of_ne_zero hn.ne'
  simp only [readLoop, doing, perform_bind, returns_state]
  rw [if_pos hclosed]
  exact h

theorem OwnerCloses.state {code : ℤ} {t : Session J} (h : OwnerCloses isClient code s t) :
    t.state = .closed := by
  cases h <;> rfl

theorem returns_readLoop {Q : Option J → Session J → Prop} {n : ℕ} {fs : List Frame}
    (hopen : s.state = .open) (hsocket : s.socket = some fd) (hears : s.Hears isClient fs)
    (hn : fs.length + s.patience + 1 < n)
    (h : ∀ r next t, Handles L isClient fs s r next t → Q r t) :
    Returns Q (readLoop L isClient n) s := by
  induction n generalizing s fs with
  | zero => omega
  | succ n ih =>
    simp only [readLoop, doing, perform_bind, returns_state]
    rw [if_neg (not_not.2 hopen)]
    apply returns_appQuit
    intro quit hmay
    cases quit with
    | true => exact h _ _ _ (Stops.quits s.patience le_rfl (hmay rfl)).handles
    | false =>
      apply wp_bind.2
      apply returns_tryRead hopen (by omega)
      · intro hmay p hp
        exact h _ _ _ (Stops.quits p hp hmay).handles
      intro p hp
      have hopen' : (s.took p).state = .open := hopen
      have hsocket' : (s.took p).socket = some fd := hsocket
      apply wp_bind.2
      rw [readRound]
      cases fs with
      | nil =>
        rw [if_pos hears.err_end]
        apply wp_bind.2
        apply returns_ownerCloseOneway hsocket'
        intro t ht
        exact h _ _ _ (Stops.ended p hp ht).handles
      | cons f fs =>
        rw [List.length_cons] at hn
        by_cases hsize : 16777216 < f.payload.length
        · rw [hears.err_oversized hsize, if_neg (by decide), if_pos rfl]
          apply wp_bind.2
          apply returns_ownerCloseOneway hsocket'
          intro t ht
          exact h _ _ _ (Stops.oversized p hp hsize ht).handles
        have hsize : f.payload.length ≤ 16777216 := by omega
        have hears' := hears.took hsize p
        have hpatience : (s.took p).patience = p := rfl
        rw [hears.message_eq hsize]
        dsimp only
        rw [if_neg (by decide), if_neg (by decide), if_neg (by decide)]
        simp only [bare_iff]
        by_cases hbare : Bare isClient f
        · rw [if_pos hbare]
          apply wp_bind.2
          apply returns_ownerClose hopen' hsocket' hears' (by omega)
          intro t ht
          exact h _ _ _ (Stops.bare p hp hsize hbare ht).handles
        have hop1 : (wsFrame f).opcode = 1 ↔ f.opcode = 1 := opcode_eq_iff f 1
        have hop2 : (wsFrame f).opcode = 2 ↔ f.opcode = 2 := opcode_eq_iff f 2
        have hop8 : (wsFrame f).opcode = 8 ↔ f.opcode = 8 := opcode_eq_iff f 8
        have hop0 : (wsFrame f).opcode = 0 ↔ f.opcode = 0 := opcode_eq_iff f 0
        have hop9 : (wsFrame f).opcode = 9 ↔ f.opcode = 9 := opcode_eq_iff f 9
        rw [if_neg hbare, handleMessage]
        simp only [hop1, hop2, hop8, hop0, hop9]
        by_cases htext : f.opcode = 1
        · have hf : ¬ Ends isClient f := by simp [Ends, hsize, hbare, htext]
          rw [if_pos htext]
          exact h _ _ _ (Stops.text p hp hf htext).handles
        rw [if_neg htext]
        by_cases hbinary : f.opcode = 2
        · rw [if_pos hbinary]
          apply wp_bind.2
          apply returns_ownerClose hopen' hsocket' hears' (by omega)
          intro t ht
          exact h _ _ _ (Stops.refused p hp hsize hbare (.inl hbinary) ht).handles
        rw [if_neg hbinary]
        by_cases hclose : f.opcode = 8
        · rw [if_pos hclose]
          apply wp_bind.2
          apply returns_remoteClose hopen' hsocket'
          intro t ht
          exact h _ _ _ (Stops.close p hp hsize hbare hclose ht).handles
        rw [if_neg hclose]
        by_cases hcontinuation : f.opcode = 0
        · rw [if_pos hcontinuation]
          apply wp_bind.2
          apply returns_ownerClose hopen' hsocket' hears' (by omega)
          intro t ht
          have hclosed : t.state ≠ .open := by
            rw [ht.state]
            decide
          exact returns_readLoop_closed hclosed (by omega)
            (h _ _ _ (Stops.refused p hp hsize hbare (.inr hcontinuation) ht).handles)
        have hf : ¬ Ends isClient f := by
          simp [Ends, hsize, hbare, hbinary, hclose, hcontinuation]
        rw [if_neg hcontinuation]
        by_cases hping : f.opcode = 9
        · rw [if_pos hping]
          apply wp_bind.2
          refine returns_sendFrame hsocket' fun err u hu => ?_
          have hfewer : fs.length + u.patience + 1 < n := by
            rw [hu.same]
            dsimp only
            omega
          apply ih (by rw [hu.same, hopen']) (by rw [hu.same, hsocket'])
            (hears'.of_reader (by rw [hu.same])) hfewer
          intro r next t ht
          exact h _ _ _ (ht.ping hp hf hping hu)
        rw [if_neg hping]
        have hrest : Returns Q (readLoop L isClient n) (s.took p) := by
          apply ih hopen' hsocket' hears' (by omega)
          intro r next t ht
          exact h _ _ _ (ht.other hp hf ⟨htext, hping⟩)
        split_ifs
        · exact returns_onpong.2 hrest
        · exact hrest

end Read

/-! ## What a call leaves -/

structure Session.Keeps (s t : Session J) : Prop where
  state : t.state = s.state
  socket : t.socket = s.socket
  mayQuit : t.mayQuit = s.mayQuit
  delivered : t.delivered = s.delivered
  closes : t.closes = s.closes
  patience : t.patience ≤ s.patience
  wire : ∀ op, op ≠ 10 → wireOf op t.wire = wireOf op s.wire
  failed : ∀ op, op ≠ 10 → (op ∈ t.failed ↔ op ∈ s.failed)

def Stands (isClient : Bool) : Option (List Frame) → Session J → Prop
  | some fs, s => s.state = .open ∧ (∃ fd, s.socket = some fd) ∧ s.Hears isClient fs
  | none, s => s.state = .closed ∧ s.socket = none

section Leaves
variable {L : JsonLib J} {isClient : Bool} {fs pre rest : List Frame} {s t u : Session J}
variable {r : Option J} {next : Option (List Frame)}

theorem Session.Keeps.trans (h : s.Keeps t) (h' : t.Keeps u) : s.Keeps u where
  state := h'.state.trans h.state
  socket := h'.socket.trans h.socket
  mayQuit := h'.mayQuit.trans h.mayQuit
  delivered := h'.delivered.trans h.delivered
  closes := h'.closes.trans h.closes
  patience := h'.patience.trans h.patience
  wire op hop := (h'.wire op hop).trans (h.wire op hop)
  failed op hop := (h'.failed op hop).trans (h.failed op hop)

theorem keeps_took {p : ℕ} (hp : p ≤ s.patience) : s.Keeps (s.took p) :=
  ⟨rfl, rfl, rfl, rfl, rfl, hp, fun _ _ => rfl, fun _ _ => Iff.rfl⟩

theorem Sends.wireOf_ne {opcode other : ℕ} {payload : Bytes} {err : ℤ}
    (h : Sends isClient opcode payload s err t) (hne : other ≠ opcode) :
    wireOf other t.wire = wireOf other s.wire := by
  cases h with
  | sent mask out w hw => rw [wireOf_append, hw.wireOf_ne hne, List.append_nil]
  | failed mask out w bytes hw hpart hless =>
    rw [wireOf_append, hw.wireOf_ne hne, List.append_nil]

theorem Sends.failed_ne {opcode other : ℕ} {payload : Bytes} {err : ℤ}
    (h : Sends isClient opcode payload s err t) (hne : other ≠ opcode) :
    other ∈ t.failed ↔ other ∈ s.failed := by
  cases h with
  | sent => exact Iff.rfl
  | failed => simp [hne]

theorem Sends.keeps {payload : Bytes} {err : ℤ} (h : Sends isClient 10 payload s err t) :
    s.Keeps t := by
  refine ⟨?_, ?_, ?_, ?_, ?_, ?_, fun op hop => h.wireOf_ne hop, fun op hop => h.failed_ne hop⟩
  all_goals rw [h.same]

theorem Passes.keeps (h : Passes isClient pre s t) : s.Keeps t := by
  induction h with
  | nil s => exact ⟨rfl, rfl, rfl, rfl, rfl, le_rfl, fun _ _ => rfl, fun _ _ => Iff.rfl⟩
  | ping p hp hf hop h hrest ih => exact ((keeps_took hp).trans h.keeps).trans ih
  | other p hp hf hop hrest ih => exact (keeps_took hp).trans ih

theorem size_of_not_ends {f : Frame} (hf : ¬ Ends isClient f) : f.payload.length ≤ 16777216 := by
  by_contra hsize
  exact hf (.inl (by omega))

theorem Passes.hears (h : Passes isClient pre s t) (hs : s.Hears isClient (pre ++ rest)) :
    t.Hears isClient rest := by
  induction h with
  | nil s => exact hs
  | ping p hp hf hop h hrest ih =>
    exact ih ((hs.took (size_of_not_ends hf) p).of_reader (by rw [h.same]))
  | other p hp hf hop hrest ih => exact ih (hs.took (size_of_not_ends hf) p)

structure Session.Shuts (s t : Session J) : Prop where
  state : t.state = .closed
  socket : t.socket = none
  mayQuit : t.mayQuit = s.mayQuit
  delivered : t.delivered = s.delivered
  wire : ∀ op, op ≠ 8 → wireOf op t.wire = wireOf op s.wire
  failed : ∀ op, op ≠ 8 → (op ∈ t.failed ↔ op ∈ s.failed)

theorem Sends.shuts {payload : Bytes} {err : ℤ} (h : Sends isClient 8 payload s err t) :
    s.Shuts t.shut := by
  refine ⟨rfl, rfl, ?_, ?_, fun op hop => h.wireOf_ne hop, fun op hop => h.failed_ne hop⟩
  · change t.mayQuit = _
    rw [h.same]
  · change t.delivered = _
    rw [h.same]

theorem OwnerCloses.shuts {code : ℤ} (h : OwnerCloses isClient code s t) : s.Shuts t := by
  cases h with
  | unsent h => exact ⟨rfl, rfl, h.shuts.mayQuit, h.shuts.delivered, h.shuts.wire, h.shuts.failed⟩
  | waited reader patience h hwaited =>
    exact ⟨rfl, rfl, h.shuts.mayQuit, h.shuts.delivered, h.shuts.wire, h.shuts.failed⟩

theorem ClosesOneway.shuts {code : ℤ} (h : ClosesOneway isClient code s t) : s.Shuts t := by
  obtain ⟨h⟩ := h
  exact ⟨rfl, rfl, h.shuts.mayQuit, h.shuts.delivered, h.shuts.wire, h.shuts.failed⟩

theorem RemoteCloses.shuts {input : Bytes} (h : RemoteCloses isClient input s t) : s.Shuts t := by
  obtain ⟨h⟩ := h
  exact ⟨rfl, rfl, h.shuts.mayQuit, h.shuts.delivered, h.shuts.wire, h.shuts.failed⟩

theorem Stops.shuts (h : Stops L isClient fs s r none t) : s.Shuts t := by
  have hsame : ∀ {p}, (s.took p).Shuts t → s.Shuts t := fun h =>
    ⟨h.state, h.socket, h.mayQuit, h.delivered, h.wire, h.failed⟩
  cases h with
  | ended p hp h | oversized p hp hsize h => exact hsame h.shuts
  | bare p hp hsize hbare h | refused p hp hsize hbare hop h => exact hsame h.shuts
  | close p hp hsize hbare hop h => exact hsame h.shuts

theorem Stops.stands (h : Stops L isClient fs s r next t) (hs : Stands isClient (some fs) s) :
    Stands isClient next t := by
  cases next with
  | none => exact ⟨h.shuts.state, h.shuts.socket⟩
  | some rest =>
    obtain ⟨hopen, hsocket, hears⟩ := hs
    cases h with
    | quits p hp hquit => exact ⟨hopen, hsocket, hears.of_reader rfl⟩
    | text p hp hf hop => exact ⟨hopen, hsocket, hears.took (size_of_not_ends hf) p⟩

theorem Handles.mayQuit (h : Handles L isClient fs s r next t) : t.mayQuit = s.mayQuit := by
  obtain ⟨pre, rest, u, rfl, hpass, hstop⟩ := h
  rw [← hpass.keeps.mayQuit]
  cases next with
  | none => exact hstop.shuts.mayQuit
  | some rest => cases hstop <;> rfl

theorem Handles.stands (h : Handles L isClient fs s r next t) (hs : Stands isClient (some fs) s) :
    Stands isClient next t := by
  obtain ⟨pre, rest, u, rfl, hpass, hstop⟩ := h
  obtain ⟨hopen, ⟨fd, hsocket⟩, hears⟩ := hs
  have hkeeps := hpass.keeps
  apply hstop.stands
  exact ⟨hkeeps.state.trans hopen, ⟨fd, hkeeps.socket.trans hsocket⟩, hpass.hears hears⟩

theorem Handles.fewer (h : Handles L isClient fs s r (some rest) t) :
    rest.length + t.patience ≤ fs.length + s.patience ∧
      (s.mayQuit = false → rest.length + t.patience < fs.length + s.patience) := by
  obtain ⟨pre, rest', u, rfl, hpass, hstop⟩ := h
  have hkeeps := hpass.keeps
  have hpatience := hkeeps.patience
  rw [List.length_append]
  cases hstop with
  | quits p hp hquit =>
    rw [hkeeps.mayQuit] at hquit
    refine ⟨by dsimp only; omega, fun h => ?_⟩
    rw [h] at hquit
    cases hquit
  | text p hp hf hop =>
    rw [List.length_cons]
    change _ + p ≤ _ ∧ (_ → _ + p < _)
    exact ⟨by omega, fun _ => by omega⟩

end Leaves

/-! ## Several calls -/

section Calls
variable {L : JsonLib J} {isClient : Bool} {next : Option (List Frame)} {s t : Session J}
variable {rs : List (Option J)}

/-- Calls of `_messagelink_read`, one after the other. -/
def readTimes (L : JsonLib J) (isClient : Bool) (n : ℕ) : ℕ → Program J (List (Option J))
  | 0 => .ret []
  | k + 1 => do
    let r ← messagelinkReadOpen L isClient n
    let rs ← readTimes L isClient n k
    return r :: rs

inductive Calls (L : JsonLib J) (isClient : Bool) :
    Option (List Frame) → Session J → List (Option J) → Session J → Prop
  | nil (next : Option (List Frame)) (s : Session J) : Calls L isClient next s [] s
  | read {fs : List Frame} {s t u : Session J} {r : Option J} {next : Option (List Frame)}
      {rs : List (Option J)} (h : Handles L isClient fs s r next u)
      (hrest : Calls L isClient next u rs t) : Calls L isClient (some fs) s (r :: rs) t
  | closed {s t : Session J} {rs : List (Option J)} (hrest : Calls L isClient none s rs t) :
      Calls L isClient none s (none :: rs) t

theorem returns_readOpen {Q : Option J → Session J → Prop} {n : ℕ} {fs : List Frame}
    (hs : Stands isClient (some fs) s) (hn : fs.length + s.patience + 1 < n)
    (h : ∀ r next t, Handles L isClient fs s r next t → Q r t) :
    Returns Q (messagelinkReadOpen L isClient n) s := by
  obtain ⟨hopen, ⟨fd, hsocket⟩, hears⟩ := hs
  simp only [messagelinkReadOpen, doing, perform_bind, returns_state]
  rw [if_neg (not_not.2 hopen)]
  exact returns_readLoop hopen hsocket hears hn h

theorem returns_readTimes {Q : List (Option J) → Session J → Prop} {n k : ℕ}
    (hs : Stands isClient next s)
    (hn : ∀ fs, next = some fs → fs.length + s.patience + 1 < n)
    (h : ∀ rs t, Calls L isClient next s rs t → rs.length = k → Q rs t) :
    Returns Q (readTimes L isClient n k) s := by
  induction k generalizing next s Q with
  | zero => exact h [] s (.nil next s) rfl
  | succ k ih =>
    rw [readTimes]
    apply wp_bind.2
    cases next with
    | none =>
      simp only [messagelinkReadOpen, doing, perform_bind, returns_state]
      rw [if_pos (by rw [hs.1]; decide)]
      apply wp_bind.2
      apply ih hs hn
      intro rs t ht hlen
      exact h _ _ (.closed ht) (by rw [List.length_cons, hlen])
    | some fs =>
      apply returns_readOpen hs (hn fs rfl)
      intro r next u hu
      apply wp_bind.2
      have hfewer : ∀ rest, next = some rest → rest.length + u.patience + 1 < n := by
        rintro rest rfl
        have hfew := hu.fewer.1
        have hfs := hn fs rfl
        omega
      apply ih (hu.stands hs) hfewer
      intro rs t ht hlen
      exact h _ _ (.read hu ht) (by rw [List.length_cons, hlen])

end Calls

/-! ## The frames that are handled -/

/-- The frames before the first one for which the link is closed. -/
def handled (isClient : Bool) (fs : List Frame) : List Frame :=
  fs.takeWhile fun f => ¬ Ends isClient f

section Handled
variable {L : JsonLib J} {isClient : Bool} {pre rest : List Frame} {s t : Session J}

theorem Passes.mem (h : Passes isClient pre s t) : ∀ f ∈ pre, ¬ Ends isClient f ∧ f.opcode ≠ 1 := by
  induction h with
  | nil s => simp
  | ping p hp hf hop h hrest ih =>
    simp only [List.mem_cons, forall_eq_or_imp]
    exact ⟨⟨hf, by rw [hop]; decide⟩, ih⟩
  | other p hp hf hop hrest ih =>
    simp only [List.mem_cons, forall_eq_or_imp]
    exact ⟨⟨hf, hop.1⟩, ih⟩

theorem Passes.handled (h : Passes isClient pre s t) :
    handled isClient (pre ++ rest) = pre ++ handled isClient rest := by
  apply List.takeWhile_append_of_pos
  intro f hf
  simpa using (h.mem f hf).1

theorem handled_cons {f : Frame} (hf : ¬ Ends isClient f) :
    handled isClient (f :: rest) = f :: handled isClient rest :=
  List.takeWhile_cons_of_pos (by simpa using hf)

theorem Stops.handled_eq_nil {r : Option J} (h : Stops L isClient rest s r none t) :
    Messagelink.handled isClient rest = [] := by
  cases h with
  | ended p hp h => rfl
  | oversized p hp hsize h => exact List.takeWhile_cons_of_neg (by simp [Ends, hsize])
  | bare p hp hsize hbare h => exact List.takeWhile_cons_of_neg (by simp [Ends, hbare])
  | close p hp hsize hbare hop h => exact List.takeWhile_cons_of_neg (by simp [Ends, hop])
  | refused p hp hsize hbare hop h =>
    rcases hop with hop | hop
    · exact List.takeWhile_cons_of_neg (by simp [Ends, hop])
    · exact List.takeWhile_cons_of_neg (by simp [Ends, hop])

theorem Stops.eq_none {r : Option J} (h : Stops L isClient rest s r none t) : r = none := by
  cases h <;> rfl

theorem Calls.eq_of_closed {rs : List (Option J)} (h : Calls L isClient none s rs t) : t = s := by
  generalize hnext : (none : Option (List Frame)) = next at h
  induction h with
  | nil => rfl
  | read => cases hnext
  | closed hrest ih => exact ih rfl

theorem Calls.closed_none {rs : List (Option J)} (h : Calls L isClient none s rs t) :
    ∃ k, rs = List.replicate k none := by
  generalize hnext : (none : Option (List Frame)) = next at h
  induction h with
  | nil => exact ⟨0, rfl⟩
  | read => cases hnext
  | closed hrest ih =>
    obtain ⟨k, rfl⟩ := ih rfl
    exact ⟨k + 1, rfl⟩

theorem Handles.before {good post : List Frame} {e : Frame} {r : Option J}
    {next : Option (List Frame)} (h : Handles L isClient (good ++ e :: post) s r next t)
    (he : Ends isClient e ∨ e.opcode = 1) :
    ∃ pre later u, good = pre ++ later ∧ payloadsOf 1 good = payloadsOf 1 later ∧
      Passes isClient pre s u ∧ Stops L isClient (later ++ e :: post) u r next t := by
  obtain ⟨pre, rest, u, hfs, hpass, hstop⟩ := h
  obtain ⟨later, rfl, rfl⟩ : ∃ later, good = pre ++ later ∧ rest = later ++ e :: post := by
    rcases List.append_eq_append_iff.1 hfs with ⟨x, hpre, hrest⟩ | ⟨later, hgood, hrest⟩
    · cases x with
      | nil => exact ⟨[], by simpa using hpre.symm, by simpa using hrest.symm⟩
      | cons g x =>
        obtain rfl : e = g := (List.cons.inj hrest).1
        have hmem := hpass.mem e (by simp [hpre])
        rcases he with he | he
        · exact absurd he hmem.1
        · exact absurd he hmem.2
    · exact ⟨later, hgood, hrest⟩
  refine ⟨pre, later, u, rfl, ?_, hpass, hstop⟩
  rw [payloadsOf, List.filter_append, List.filter_eq_nil_iff.2, List.nil_append, payloadsOf]
  intro f hf
  simpa using (hpass.mem f hf).2

/-- Enough calls come to the first frame for which the link is closed. -/
theorem Calls.ending {good post : List Frame} {e : Frame} {rs : List (Option J)}
    (h : Calls L isClient (some (good ++ e :: post)) s rs t)
    (hgood : ∀ f ∈ good, ¬ Ends isClient f) (he : Ends isClient e) (hquit : s.mayQuit = false)
    (hlen : (payloadsOf 1 good).length < rs.length) :
    ∃ u, s.Keeps u ∧ Stops L isClient (e :: post) u none none t := by
  generalize hnext : some (good ++ e :: post) = next at h
  induction h generalizing good with
  | nil => simp at hlen
  | closed hrest ih => cases hnext
  | @read fs s t u r next rs h hrest ih =>
    obtain rfl := Option.some.inj hnext
    obtain ⟨pre, later, w, rfl, hcount, hpass, hstop⟩ := h.before (.inl he)
    have hkeeps := hpass.keeps
    rw [hcount] at hlen
    cases next with
    | none =>
      have hlast : later = [] := by
        have hnil := hstop.handled_eq_nil
        cases later with
        | nil => rfl
        | cons g later =>
          rw [List.cons_append, handled_cons (hgood g (by simp))] at hnil
          cases hnil
      have hend := hrest.eq_of_closed
      have hr := hstop.eq_none
      subst hlast hend hr
      exact ⟨w, hkeeps, hstop⟩
    | some fs' =>
      cases later with
      | nil =>
        -- the call would go on after `e`
        cases hstop with
        | quits p hp hmay => simp [hkeeps.mayQuit, hquit] at hmay
        | text p hp hf hop => exact absurd he hf
      | cons g later =>
        generalize hg : g :: later ++ e :: post = gs at hstop
        cases hstop with
        | quits p hp hmay => simp [hkeeps.mayQuit, hquit] at hmay
        | @text f _ _ p hp hf hop =>
          obtain ⟨rfl, rfl⟩ := List.cons.inj hg
          have hfewer : (payloadsOf 1 later).length < rs.length := by
            simp only [payloadsOf, List.filter_cons, hop, decide_true, if_true, List.map_cons,
              List.length_cons] at hlen
            exact Nat.lt_of_succ_lt_succ hlen
          obtain ⟨v, hv, hend⟩ := ih (fun f hf => hgood f (by simp [hf]))
            (hkeeps.mayQuit.trans hquit) hfewer rfl
          exact ⟨v, (hkeeps.trans (keeps_took hp)).trans hv, hend⟩

/-- One call for each text frame and the last of them returns what that frame holds. -/
theorem Calls.reaches {good post : List Frame} {e : Frame} {rs : List (Option J)}
    (h : Calls L isClient (some (good ++ e :: post)) s rs t)
    (hs : Stands isClient (some (good ++ e :: post)) s) (hgood : ∀ f ∈ good, ¬ Ends isClient f)
    (he : ¬ Ends isClient e) (hop : e.opcode = 1) (hquit : s.mayQuit = false)
    (hlen : rs.length = (payloadsOf 1 good).length + 1) :
    rs.getLast? = some (parseText L e.payload) ∧ Stands isClient (some post) t := by
  generalize hnext : some (good ++ e :: post) = next at h
  induction h generalizing good with
  | nil => simp at hlen
  | closed hrest ih => cases hnext
  | @read fs s t u r next rs h hrest ih =>
    obtain rfl := Option.some.inj hnext
    have hu := h.stands hs
    obtain ⟨pre, later, w, rfl, hcount, hpass, hstop⟩ := h.before (.inr hop)
    have hkeeps := hpass.keeps
    rw [hcount, List.length_cons] at hlen
    -- the first frame that is not passed over leaves the link open
    obtain ⟨fs', rfl⟩ : ∃ fs', next = some fs' := by
      rw [← Option.ne_none_iff_exists']
      rintro rfl
      have hnil := hstop.handled_eq_nil
      cases later with
      | nil =>
        rw [List.nil_append, handled_cons he] at hnil
        cases hnil
      | cons g later =>
        rw [List.cons_append, handled_cons (hgood g (by simp))] at hnil
        cases hnil
    generalize hg : later ++ e :: post = gs at hstop
    cases hstop with
    | quits p hp hmay => simp [hkeeps.mayQuit, hquit] at hmay
    | @text f _ _ p hp hf hop' =>
      cases later with
      | nil =>
        obtain ⟨rfl, rfl⟩ := List.cons.inj hg
        obtain rfl := List.eq_nil_of_length_eq_zero (Nat.succ_injective hlen)
        cases hrest
        exact ⟨rfl, hu⟩
      | cons g later =>
        obtain ⟨rfl, rfl⟩ := List.cons.inj hg
        have hfewer : rs.length = (payloadsOf 1 later).length + 1 := by
          simpa [payloadsOf, List.filter_cons, hop'] using hlen
        obtain ⟨hlast, hend⟩ := ih hu (fun f hf => hgood f (by simp [hf]))
          (hkeeps.mayQuit.trans hquit) hfewer rfl
        refine ⟨?_, hend⟩
        rw [List.getLast?_cons, hlast, Option.getD_some]

end Handled

/-! ## A link that is there -/

/-- No `send` fails. -/
def Session.DoesSent (s : Session J) (a : Act J) (r : a.Answer) (t : Session J) : Prop :=
  s.Does a r t ∧ t.failed = s.failed

theorem Session.doesSent_total (s : Session J) (a : Act J) : ∃ r t, s.DoesSent a r t := by
  cases a with
  | send fd opcode data =>
    have hlen : (0 : ℤ) < data.length ∨ data = [] := by
      cases data with
      | nil => exact .inr rfl
      | cons b data => exact .inl (by simp)
    exact ⟨(data.length : ℤ), _, .inl ⟨hlen, le_rfl, rfl⟩, rfl⟩
  | waitData => exact ⟨(1 : ℤ), s, .inl ⟨rfl, rfl⟩, rfl⟩
  | appQuit | threadQuit => exact ⟨false, s, ⟨Bool.false_ne_true.elim, rfl⟩, rfl⟩
  | state | socket | closeCode | out | readMessage => exact ⟨_, _, ⟨rfl, rfl⟩, rfl⟩
  | _ => exact ⟨Act.idle _, _, rfl, rfl⟩

/-- Some run comes to the end without a `send` that fails. -/
theorem Returns.exists_run {α : Type} {Q : α → Session J → Prop} {p : Program J α} {s : Session J}
    (h : Returns Q p s) :
    ∃ ms x t, Run (Steps Session.Does) (s, p) ms (t, .ret x) ∧ Q x t ∧ t.failed = s.failed := by
  obtain ⟨ms, x, t, hrun, hms, hQ⟩ :=
    exists_return (fun _ _ _ _ h => h.1) Session.doesSent_total h
  refine ⟨ms, x, t, hrun, hQ, ?_⟩
  apply hrun.invariant (I := fun c => c.1.failed = s.failed)
    (G := fun m => m.dst.1.failed = m.src.1.failed)
  · intro c e d hc _ hG
    exact hG.trans hc
  · rfl
  · exact fun m hm => (hms m hm).2

def serverFrame (fin : Bool) (opcode : Fin 16) (payload : Bytes) : Frame :=
  ⟨fin, opcode, none, payload.take 125, (List.length_take_le 125 payload).trans_lt (by norm_num)⟩

section ServerFrame
variable (fin : Bool) (opcode : Fin 16) (payload : Bytes)

@[simp] theorem serverFrame_fin : (serverFrame fin opcode payload).fin = fin := rfl

@[simp] theorem serverFrame_opcode : (serverFrame fin opcode payload).opcode = opcode := rfl

@[simp] theorem serverFrame_key : (serverFrame fin opcode payload).key = none := rfl

@[simp] theorem serverFrame_payload {payload : Bytes} (h : payload.length ≤ 125) :
    (serverFrame fin opcode payload).payload = payload := List.take_of_length_le h

end ServerFrame

def listening (isClient : Bool) (fs : List Frame) : Session J where
  state := .open
  socket := some 3
  closeCode := 0
  reader := ⟨isClient, [], Socket.push (stream fs) []⟩
  mayQuit := false
  patience := 0
  out := []
  wire := []
  failed := []
  delivered := []
  closes := 0

theorem listening_stands {isClient : Bool} {fs : List Frame}
    (hkeys : ∀ f ∈ fs, isClient = true → f.key = none) :
    Stands isClient (some fs) (listening isClient fs : Session J) := by
  refine ⟨rfl, ⟨3, rfl⟩, rfl, ⟨?_, ?_⟩, hkeys⟩
  · intro a ha
    change a ∈ Socket.push (stream fs) [] at ha
    cases hbytes : stream fs with
    | nil => simp [hbytes, Socket.push] at ha
    | cons b bs =>
      simp only [hbytes, Socket.push, List.mem_singleton] at ha
      exact ⟨b, bs, ha⟩
  · exact (Socket.arrived_push _ _).trans (List.append_nil _)

structure Session.Opened (s : Session J) (isClient : Bool) (fs : List Frame) : Prop where
  stands : Stands isClient (some fs) s
  mayQuit : s.mayQuit = false
  wire : s.wire = []
  failed : s.failed = []
  delivered : s.delivered = []
  closes : s.closes = 0

theorem listening_opened {isClient : Bool} {fs : List Frame} (hkeys : ∀ f ∈ fs, isClient = true → f.key = none) :
    (listening isClient fs : Session J).Opened isClient fs :=
  ⟨listening_stands hkeys, rfl, rfl, rfl, rfl, rfl⟩

end Rcom.Messagelink
