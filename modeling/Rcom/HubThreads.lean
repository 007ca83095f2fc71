import Rcom.Broadcasts
import Rcom.Lib.LockOrder
import Rcom.TextExchange

/-!
# The locks of a hub and its links (messagehub.c, messagelink.c)

Threads broadcast, ping, add and remove links, and send on the links. A broadcast holds the
mutex of `hub->mem`, then that of the list and then that of one link after the other. A control frame
locks `link->out` and then the mutex of the link.
-/

namespace Rcom.HubThreads
open Lib Lib.Program Lib.Trace
open Broadcasts (Hub Source)
open Messagelink (Channel Lock SendCall)

variable {J : Type}

/-! ## The code of the threads -/

/-- `text` is what the pointer that is given to `messagelink_send_text` points to. -/
inductive Act (J : Type) where
  | hub (a : Broadcasts.Act)
  | text (source : Source)
  | link (l : ℕ) (a : Messagelink.Act J)

abbrev Act.Answer : Act J → Type
  | .hub a => a.Answer
  | .text _ => Bytes
  | .link _ a => a.Answer

abbrev Program (J α : Type) := Prog (Act.Answer (J := J)) α

def doing (a : Act J) : Program J a.Answer := perform a

def inHub {α : Type} (p : Broadcasts.Program α) : Program J α := p.through Act.hub fun _ r => r

def onLink {α : Type} (l : ℕ) (p : Messagelink.Program J α) : Program J α :=
  p.through (Act.link l) fun _ r => r

def sendAll (exclude : Option ℕ) (source : Source) : ℤ → List ℕ → Program J ℤ
  | err, [] => pure err
  | err, link :: l =>
    if some link ≠ exclude then do
      let data : Bytes ← doing (.text source)
      let r ← onLink link (Messagelink.messagelinkSendText false data)
      sendAll exclude source (if r ≠ 0 then -1 else err) l
    else sendAll exclude source err l

def messagehubBroadcastText (exclude : Option ℕ) (source : Source) : Program J ℤ := do
  inHub Broadcasts.messagehubMembuf
  doing (.hub .lockLinks)
  let l : List ℕ ← doing (.hub .readLinks)
  let err ← sendAll exclude source 0 l
  doing (.hub .unlockLinks)
  return err

def broadcastPrinted (exclude : Option ℕ) (err : ℤ) : Program J ℤ :=
  if err = 0 then do
    let mem : Option ℕ ← doing (.hub .readMem)
    match mem with
    | none => .stop
    | some b => messagehubBroadcastText exclude (.membuf b)
  else pure err

/-- `messagehub_broadcast_num`, `_str`, `_obj` and `_f`; `err` is what the printing of the pieces
returns. -/
def messagehubBroadcast (exclude : Option ℕ) (pieces : List Bytes) (err : ℤ) : Program J ℤ := do
  inHub Broadcasts.messagehubMembuf
  let _ ← inHub (Broadcasts.withMem .lockMem)
  let _ ← inHub (Broadcasts.withMem .clear)
  inHub (Broadcasts.appendAll pieces)
  let err ← broadcastPrinted exclude err
  let _ ← inHub (Broadcasts.withMem .unlockMem)
  return err

def pingAll (data : Bytes) : ℤ → List ℕ → Program J ℤ
  | err, [] => pure err
  | err, link :: l => do
    let r ← onLink link (Messagelink.messagelinkSendPing false data)
    pingAll data (if r ≠ 0 then -1 else err) l

def messagehubSendPing (data : Bytes) : Program J ℤ := do
  doing (.hub .lockLinks)
  let l : List ℕ ← doing (.hub .readLinks)
  let err ← pingAll data 0 l
  doing (.hub .unlockLinks)
  return err

/-- What threads do with a hub and its links; `print` is for the senders that put a text together in
`link->out`. -/
inductive Job where
  | broadcastText (exclude : Option ℕ) (data : Bytes)
  | broadcast (exclude : Option ℕ) (pieces : List Bytes) (err : ℤ)
  | ping (data : Bytes)
  | add
  | remove (link : ℕ)
  | send (link : ℕ) (call : SendCall)
  | print (link : ℕ) (text : Option Bytes)

def Job.program : Job → Program J Unit
  | .broadcastText exclude data => do
    let _ ← messagehubBroadcastText exclude (.given data)
    return ()
  | .broadcast exclude pieces err => do
    let _ ← messagehubBroadcast exclude pieces err
    return ()
  | .ping data => do
    let _ ← messagehubSendPing data
    return ()
  | .add => inHub Broadcasts.messagehubAddLink
  | .remove link => inHub (Broadcasts.messagehubRemoveLink link)
  | .send link call => do
    let _ ← onLink link (call.send false)
    return ()
  | .print link text => do
    let _ ← onLink link (Messagelink.sendPrinted false text)
    return ()

def runAll : List Job → Program J Unit
  | [] => pure ()
  | job :: jobs => do
    job.program
    runAll jobs

/-! ## What the actions do -/

structure System where
  hub : Hub
  channel : ℕ → Channel

def System.Does (i : ℕ) (s : System) : (a : Act J) → a.Answer → System → Prop
  | .hub a, r, t => ∃ h, s.hub.Does i a r h ∧ t = { s with hub := h }
  | .text source, r, t => r = s.hub.text source ∧ t = s
  | .link l a, r, t => ∃ c, (s.channel l).Does i a r c ∧
      t = { s with channel := Function.update s.channel l c }

/-- A new hub; its links will be open. -/
def newSystem : System := ⟨Broadcasts.newMessagehub, fun l => Messagelink.openChannel l⟩

abbrev Process (J : Type) := Threads System (Act.Answer (J := J)) Unit

def newProcess (jobs : List (List Job)) : Process J := (newSystem, jobs.map runAll)

/-! ## The locks -/

inductive Name where
  | mem (b : ℕ)
  | links
  | link (l : ℕ) (k : Lock)
deriving DecidableEq

def lockRank : Lock → ℕ
  | .out | .stateMutex => 2
  | .sendMutex => 3

def Name.rank : Name → ℕ
  | .mem _ => 0
  | .links => 1
  | .link _ k => lockRank k

def wants : Act J → Option Name
  | .hub (.lockMem b) => some (.mem b)
  | .hub .lockLinks => some .links
  | .link l (.lock k) => some (.link l k)
  | _ => none

def gives : Act J → Option Name
  | .hub (.unlockMem b) => some (.mem b)
  | .hub .unlockLinks => some .links
  | .link l (.unlock k) => some (.link l k)
  | _ => none

def System.holder (s : System) : Name → Option ℕ
  | .mem b => s.hub.memHolder b
  | .links => s.hub.linksHolder
  | .link l k => (s.channel l).holder k

/-- What a thread knows: `mem` once it has seen it, and the locks that it holds. -/
structure Grip where
  mem : Option ℕ
  held : Set Name

def grip (s : System) (i : ℕ) : Grip := ⟨s.hub.memOf i, {n | s.holder n = some i}⟩

namespace Grip
variable (g : Grip)

def heldAfter (a : Act J) : Set Name := {n | wants a = some n ∨ n ∈ g.held ∧ gives a ≠ some n}

/-- What the thread knows of `mem` afterwards. -/
def MemAfter : (a : Act J) → a.Answer → Option ℕ → Prop
  | .hub .readMem, (r : Option ℕ), mem => mem = r ∧ ∀ b, g.mem = some b → r = some b
  | .hub (.writeMem b), _, mem => mem = some b
  | _, _, mem => mem = g.mem

end Grip

def pre (g : Grip) (a : Act J) : Prop :=
  (∀ n, wants a = some n → ∀ k ∈ g.held, k.rank < n.rank) ∧ ∀ n, gives a = some n → n ∈ g.held

def loc (g : Grip) (a : Act J) (r : a.Answer) (w : Grip) : Prop :=
  w.held = g.heldAfter a ∧ g.MemAfter a r w.mem

def locking (J : Type) : Locking (Act J) System Grip Name where
  wants := wants
  holder := System.holder
  held := Grip.held
  rank := Name.rank

/-- A thread that has seen that `mem` is set sees it set. -/
def Inv (s : System) : Prop := ∀ i, s.hub.seen i = true → s.hub.mem.isSome = true

/-- `mem` is set only once. -/
def InTime (s : System) (a : Act J) : Prop := ∀ b, a = .hub b → Broadcasts.InTime s.hub b

/-! ## One step -/

section Step
variable {s t : System} {i : ℕ}

theorem hub_holder {h : Hub} {a : Broadcasts.Act} {r : a.Answer} (hdoes : s.hub.Does i a r h)
    (n : Name) : System.holder { s with hub := h } n =
      if wants (J := J) (.hub a) = some n then some i
      else if gives (J := J) (.hub a) = some n then none else s.holder n := by
  cases a with
  | lockMem b =>
    obtain ⟨-, rfl⟩ := hdoes
    cases n <;> simp [System.holder, wants, gives, Function.update_apply, eq_comm]
  | unlockMem b =>
    obtain rfl := hdoes
    cases n <;> simp [System.holder, wants, gives, Function.update_apply, eq_comm]
  | lockLinks =>
    obtain ⟨-, rfl⟩ := hdoes
    cases n <;> simp [System.holder, wants, gives]
  | unlockLinks =>
    obtain rfl := hdoes
    cases n <;> simp [System.holder, wants, gives]
  | readMem | newMembuf | readLinks =>
    obtain ⟨-, rfl⟩ := hdoes
    cases n <;> rfl
  | send link source =>
    obtain rfl := hdoes
    split <;> cases n <;> rfl
  | _ =>
    obtain rfl := hdoes
    cases n <;> rfl

theorem release_holder (c : Channel) (i : ℕ) (k : Lock) :
    (c.release i k).holder = Function.update c.holder k none := by
  cases k <;> rfl

theorem channel_holder {c d : Channel} {a : Messagelink.Act J} {r : a.Answer} (h : c.Does i a r d)
    (l : ℕ) (k : Lock) : d.holder k =
      if wants (.link l a) = some (.link l k) then some i
      else if gives (.link l a) = some (.link l k) then none else c.holder k := by
  cases a with
  | lock k' =>
    obtain ⟨-, rfl⟩ := h
    simp [wants, gives, Channel.hold, Function.update_apply, eq_comm]
  | unlock k' =>
    obtain rfl := h
    simp [wants, gives, release_holder, Function.update_apply, eq_comm]
  | state | closeCode | out =>
    obtain ⟨-, rfl⟩ := h
    rfl
  | socket =>
    obtain ⟨-, rfl⟩ := h
    rw [Channel.learn]
    split <;> rfl
  | setSocket fd =>
    obtain rfl := h
    simp only [wants, gives, Channel.learn]
    split <;> rfl
  | send fd opcode data =>
    rcases h with ⟨-, -, -, rfl⟩ | ⟨-, rfl⟩
    · rfl
    · rfl
  | _ =>
    obtain rfl := h
    rfl

theorem link_other {l : ℕ} (a : Messagelink.Act J) {n : Name} (hn : ∀ k, n ≠ .link l k) :
    wants (.link l a) ≠ some n ∧ gives (.link l a) ≠ some n := by
  constructor <;> intro heq <;> cases a <;> simp [wants, gives] at heq <;> exact hn _ heq.symm

theorem Does.holder {a : Act J} {r : a.Answer} (h : s.Does i a r t) (n : Name) :
    t.holder n =
      if wants a = some n then some i else if gives a = some n then none else s.holder n := by
  cases a with
  | hub a =>
    obtain ⟨h', hdoes, rfl⟩ := h
    exact hub_holder hdoes n
  | text source =>
    obtain ⟨-, rfl⟩ := h
    rfl
  | link l a =>
    obtain ⟨c, hdoes, rfl⟩ := h
    by_cases hn : ∃ k, n = .link l k
    · obtain ⟨k, rfl⟩ := hn
      exact (congrFun (congrArg Channel.holder (Function.update_self l c s.channel)) k).trans
        (channel_holder hdoes l k)
    · push Not at hn
      rw [if_neg (link_other a hn).1, if_neg (link_other a hn).2]
      cases n with
      | mem b => rfl
      | links => rfl
      | link l' k =>
        have hne : l' ≠ l := fun hl => hn k (hl ▸ rfl)
        exact congrFun (congrArg Channel.holder (Function.update_of_ne hne c s.channel)) k

theorem Does.free {a : Act J} {r : a.Answer} (h : s.Does i a r t) {n : Name} (hn : wants a = some n) :
    s.holder n = none := by
  cases a with
  | hub a =>
    obtain ⟨h', hdoes, rfl⟩ := h
    cases a with
    | lockMem b | lockLinks =>
      cases hn
      exact hdoes.1
    | _ => cases hn
  | text source => cases hn
  | link l a =>
    obtain ⟨c, hdoes, rfl⟩ := h
    cases a with
    | lock k =>
      cases hn
      exact hdoes.1
    | _ => cases hn

theorem hub_mem {h : Hub} {a : Broadcasts.Act} {r : a.Answer} (hdoes : s.hub.Does i a r h)
    (hread : a ≠ .readMem) (hwrite : ∀ b, a ≠ .writeMem b) :
    h.mem = s.hub.mem ∧ h.seen = s.hub.seen := by
  cases a with
  | readMem => exact absurd rfl hread
  | writeMem b => exact absurd rfl (hwrite b)
  | lockMem b | lockLinks | newMembuf | readLinks =>
    obtain ⟨-, rfl⟩ := hdoes
    exact ⟨rfl, rfl⟩
  | send link source =>
    obtain rfl := hdoes
    split <;> exact ⟨rfl, rfl⟩
  | _ =>
    obtain rfl := hdoes
    exact ⟨rfl, rfl⟩

theorem memOf_congr {s t : Hub} (hmem : t.mem = s.mem) (hseen : t.seen = s.seen) (j : ℕ) :
    t.memOf j = s.memOf j := by
  rw [Hub.memOf, Hub.memOf, hmem, hseen]

theorem mem_step {a : Act J} {r : a.Answer} (hinv : Inv s) (h : s.Does i a r t)
    (htime : InTime s a) :
    Inv t ∧ (grip s i).MemAfter a r (t.hub.memOf i) ∧ ∀ j, j ≠ i → t.hub.memOf j = s.hub.memOf j := by
  have hkeep : t.hub.mem = s.hub.mem → t.hub.seen = s.hub.seen →
      Inv t ∧ t.hub.memOf i = s.hub.memOf i ∧ ∀ j, j ≠ i → t.hub.memOf j = s.hub.memOf j := by
    intro hmem hseen
    refine ⟨fun j hj => ?_, memOf_congr hmem hseen i, fun j _ => memOf_congr hmem hseen j⟩
    rw [hmem]
    exact hinv j (hseen ▸ hj)
  cases a with
  | hub a =>
    obtain ⟨h', hdoes, rfl⟩ := h
    cases a with
    | readMem =>
      obtain ⟨rfl, rfl⟩ := hdoes
      have hseen : ∀ j, j ≠ i → (s.hub.see i).seen j = s.hub.seen j := fun j hj =>
        Function.update_of_ne hj _ _
      have hself : (s.hub.see i).seen i = (s.hub.seen i || s.hub.mem.isSome) := Function.update_self ..
      refine ⟨fun j hj => ?_, ⟨?_, fun b hb => (Broadcasts.memOf_seen hb).2⟩, fun j hj => ?_⟩
      · by_cases hji : j = i
        · subst hji
          dsimp only at hj
          rw [hself, Bool.or_eq_true] at hj
          exact hj.elim (hinv j) id
        · dsimp only at hj
          rw [hseen j hji] at hj
          exact hinv j hj
      · rw [Hub.memOf, hself]
        show (if _ then s.hub.mem else none) = s.hub.mem
        cases s.hub.mem <;> simp
      · rw [Hub.memOf, Hub.memOf, hseen j hj]
        rfl
    | writeMem b =>
      obtain rfl := hdoes
      have hnone := htime _ rfl b rfl
      refine ⟨fun _ _ => rfl, by simp [Grip.MemAfter, Hub.memOf], fun j hj => ?_⟩
      have hunseen : s.hub.seen j = false := by
        by_contra hseen
        have hsome := hinv j (Bool.eq_true_of_not_eq_false hseen)
        rw [hnone] at hsome
        cases hsome
      simp [Hub.memOf, Function.update_of_ne hj, hunseen]
    | _ => exact hkeep (hub_mem hdoes (by simp) (by simp)).1 (hub_mem hdoes (by simp) (by simp)).2
  | text source =>
    obtain ⟨-, rfl⟩ := h
    exact hkeep rfl rfl
  | link l a =>
    obtain ⟨c, hdoes, rfl⟩ := h
    exact hkeep rfl rfl

theorem does_step {a : Act J} {r : a.Answer} (hinv : Inv s) (hpre : pre (grip s i) a)
    (h : s.Does i a r t) (htime : InTime s a) :
    Inv t ∧ loc (grip s i) a r (grip t i) ∧ ∀ j, j ≠ i → grip t j = grip s j := by
  obtain ⟨hinv', hmem, hothers⟩ := mem_step hinv h htime
  refine ⟨hinv', ⟨?_, hmem⟩, fun j hj => ?_⟩
  · ext n
    simp only [grip, Grip.heldAfter, Set.mem_ofPred_eq, Does.holder h n]
    split_ifs with hwants hgives
    · simp [hwants]
    · simp [hwants, hgives]
    · simp [hwants, hgives]
  · rw [grip, grip, hothers j hj]
    congr 1
    ext n
    simp only [Set.mem_ofPred_eq, Does.holder h n]
    split_ifs with hwants hgives
    · rw [Does.free h hwants]
      simp [hj.symm]
    · have hheld : s.holder n = some i := hpre.2 n hgives
      simp [hheld, hj.symm]
    · rfl

theorem does_total (i : ℕ) (s : System) (a : Act J)
    (hfree : ∀ n, wants a = some n → s.holder n = none) : ∃ r t, s.Does i a r t := by
  cases a with
  | hub a =>
    cases a with
    | lockMem b => exact ⟨(), _, _, ⟨hfree (.mem b) rfl, rfl⟩, rfl⟩
    | lockLinks => exact ⟨(), _, _, ⟨hfree .links rfl, rfl⟩, rfl⟩
    | readMem | newMembuf | readLinks => exact ⟨_, _, _, ⟨rfl, rfl⟩, rfl⟩
    | send link source => exact ⟨(0 : ℤ), _, _, rfl, rfl⟩
    | _ => exact ⟨(), _, _, rfl, rfl⟩
  | text source => exact ⟨_, _, rfl, rfl⟩
  | link l a =>
    have hnext : ∃ c, (s.channel l).next (fun _ => false) i a = some c := by
      cases a with
      | lock k => exact ⟨_, if_pos (hfree (.link l k) rfl)⟩
      | _ => exact ⟨_, rfl⟩
    obtain ⟨c, hc⟩ := hnext
    exact ⟨_, _, c, Messagelink.does_next hc, rfl⟩

theorem ordered : (locking J).Ordered System.Does grip pre Inv where
  held _ _ _ _ h := h
  above _ _ _ h := h.1 _
  free i s a _ _ h := does_total i s a h

end Step

/-! ## A thread on one link -/

section Link
variable {α : Type} {h : Set Lock}

def LinkLocks (h : Set Lock) : (a : Messagelink.Act J) → a.Answer → Set Lock → Prop
  | .lock k, _, h' => h' = insert k h
  | .unlock k, _, h' => h' = h \ {k}
  | _, _, h' => h' = h

def LinkOrder (h : Set Lock) : Messagelink.Act J → Prop
  | .lock k => ∀ k' ∈ h, lockRank k' < lockRank k
  | .unlock k => k ∈ h
  | _ => True

abbrev OnLink (Q : α → Set Lock → Prop) (p : Messagelink.Program J α) (h : Set Lock) : Prop :=
  wp LinkLocks LinkOrder False Q p h

theorem onLink_keep {Q : α → Set Lock → Prop} {a : Messagelink.Act J}
    {k : a.Answer → Messagelink.Program J α} (hpre : LinkOrder h a)
    (hkeep : ∀ r h', LinkLocks h a r h' → h' = h) (hk : ∀ r, OnLink Q (k r) h) :
    OnLink Q (.act a k) h := by
  refine ⟨hpre, fun r h' hr => ?_⟩
  rw [hkeep r h' hr]
  exact hk r

theorem onLink_sendLoop {Q : ℤ → Set Lock → Prop} (hQ : ∀ r, Q r h) (fd opcode : ℕ) (data : Bytes) :
    OnLink (J := J) Q (Messagelink.sendLoop fd opcode data) h := by
  fun_induction Messagelink.sendLoop fd opcode data with
  | case1 => exact hQ 0
  | case2 data hdata ih =>
    refine onLink_keep trivial (fun _ _ h => h) fun r => ?_
    split_ifs with hneg hzero
    · exact hQ _
    · exact hQ _
    · exact ih _ hneg hzero

theorem onLink_tcpSocketSend {Q : ℤ → Set Lock → Prop} (hQ : ∀ r, Q r h) (opcode : ℕ)
    (socket : Option ℕ) (data : Bytes) :
    OnLink (J := J) Q (Messagelink.tcpSocketSend opcode socket data) h := by
  cases socket with
  | none => exact hQ _
  | some fd => exact onLink_sendLoop hQ fd opcode data

theorem onLink_makeMask {Q : Mask → Set Lock → Prop} (hQ : ∀ r, Q r h) (masked : Bool) :
    OnLink (J := J) Q (Messagelink.makeMask masked) h := by
  cases masked with
  | false => exact hQ _
  | true => exact onLink_keep trivial (fun _ _ h => h) hQ

theorem onLink_sendBlocks {Q : ℤ → Set Lock → Prop} (hQ : ∀ r, Q r h) (masked : Bool) (mask : Mask)
    (j : Fin 4) (data : Bytes) :
    OnLink (J := J) Q (Messagelink.sendBlocks masked mask j data) h := by
  fun_induction Messagelink.sendBlocks masked mask j data with
  | case1 => exact hQ 0
  | case2 j data hdata block turned ih =>
    refine onLink_keep trivial (fun _ _ h => h) fun socket => ?_
    apply wp_bind.2
    apply onLink_tcpSocketSend
    intro err
    by_cases herr : err = 0
    · rw [if_neg (not_not.2 herr)]
      exact ih
    · rw [if_pos herr]
      exact hQ _

theorem onLink_lock {Q : α → Set Lock → Prop} {k : Lock} {p : Unit → Messagelink.Program J α}
    (hpre : ∀ k' ∈ h, lockRank k' < lockRank k) (hp : OnLink Q (p ()) (insert k h)) :
    OnLink Q (.act (.lock k) p) h := by
  refine ⟨hpre, fun _ h' hr => ?_⟩
  obtain rfl := hr
  exact hp

theorem onLink_unlock {Q : α → Set Lock → Prop} {k : Lock} {p : Unit → Messagelink.Program J α}
    (hk : k ∉ h) (hp : OnLink Q (p ()) h) : OnLink Q (.act (.unlock k) p) (insert k h) := by
  refine ⟨Set.mem_insert k h, fun _ h' hr => ?_⟩
  rw [show h' = h from (show h' = insert k h \ {k} from hr).trans (Set.insert_sdiff_self_of_notMem hk)]
  exact hp

theorem onLink_sendText {Q : ℤ → Set Lock → Prop} (hQ : ∀ r, Q r h)
    (hpre : ∀ k ∈ h, lockRank k < lockRank .sendMutex) (isClient : Bool) (data : Bytes) :
    OnLink (J := J) Q (Messagelink.messagelinkSendText isClient data) h := by
  have hsend : Lock.sendMutex ∉ h := fun hmem => lt_irrefl _ (hpre _ hmem)
  have hunlock : ∀ err : ℤ, OnLink (J := J) Q
      (.act (.unlock .sendMutex) fun _ => .ret err) (insert .sendMutex h) := fun err =>
    onLink_unlock hsend (hQ err)
  simp only [Messagelink.messagelinkSendText, Messagelink.doing, perform_bind]
  refine onLink_keep trivial (fun _ _ h => h) fun socket => ?_
  split_ifs with hsocket
  · exact hQ _
  refine onLink_keep trivial (fun _ _ h => h) fun state => ?_
  split_ifs with hstate
  · exact hQ _
  apply wp_bind.2
  apply onLink_makeMask
  intro mask
  apply onLink_lock hpre
  refine onLink_keep trivial (fun _ _ h => h) fun socket => ?_
  apply wp_bind.2
  apply onLink_tcpSocketSend
  intro err
  split_ifs with herr
  · exact hunlock _
  · apply wp_bind.2
    exact onLink_sendBlocks hunlock _ _ _ _

theorem onLink_sendFrame {Q : ℤ → Set Lock → Prop} (hQ : ∀ r, Q r ∅) (isClient : Bool) (opcode : ℕ)
    (data : Bytes) : OnLink (J := J) Q (Messagelink.sendFrame isClient opcode data) ∅ := by
  simp only [Messagelink.sendFrame, Messagelink.doing, perform_bind]
  apply onLink_lock (by simp)
  refine onLink_keep trivial (fun _ _ h => h) fun _ => ?_
  apply wp_bind.2
  apply onLink_makeMask
  intro mask
  refine onLink_keep trivial (fun _ _ h => h) fun _ => ?_
  apply onLink_lock (by simp [lockRank])
  refine onLink_keep trivial (fun _ _ h => h) fun socket => ?_
  refine onLink_keep trivial (fun _ _ h => h) fun out => ?_
  apply wp_bind.2
  apply onLink_tcpSocketSend
  intro err
  apply onLink_unlock (by simp)
  exact onLink_unlock (by simp) (hQ err)

theorem onLink_send {Q : ℤ → Set Lock → Prop} (hQ : ∀ r, Q r ∅) (isClient : Bool) (call : SendCall) :
    OnLink (J := J) Q (call.send isClient) ∅ := by
  cases call with
  | text data => exact onLink_sendText hQ (by simp) isClient data
  | ping data => exact onLink_sendFrame hQ isClient 9 data
  | pong payload => exact onLink_sendFrame hQ isClient 10 payload
  | close code => exact onLink_sendFrame hQ isClient 8 _

theorem onLink_sendPrinted {Q : ℤ → Set Lock → Prop} (hQ : ∀ r, Q r ∅) (isClient : Bool)
    (text : Option Bytes) : OnLink (J := J) Q (Messagelink.sendPrinted isClient text) ∅ := by
  simp only [Messagelink.sendPrinted, Messagelink.doing, perform_bind]
  apply onLink_lock (by simp)
  refine onLink_keep trivial (fun _ _ h => h) fun _ => ?_
  have hunlock : ∀ err : ℤ, OnLink (J := J) Q
      (.act (.unlock .out) fun _ => .ret err) (insert .out ∅) := fun err =>
    onLink_unlock (by simp) (hQ err)
  cases text with
  | none => exact hunlock _
  | some text =>
    refine onLink_keep trivial (fun _ _ h => h) fun _ => ?_
    refine onLink_keep trivial (fun _ _ h => h) fun out => ?_
    apply wp_bind.2
    exact onLink_sendText hunlock (by simp [lockRank]) isClient out

end Link

/-! ## A thread on the hub -/

section Threads
variable {α : Type} {g : Grip}

abbrev InOrder (Q : α → Grip → Prop) (p : Program J α) (g : Grip) : Prop := wp loc pre False Q p g

def Early (n : Name) : Prop := n.rank < 2

/-- The thread knows what it knew, and of the locks it has others on the link only. -/
structure Beside (g : Grip) (l : ℕ) (w : Grip) : Prop where
  mem : w.mem = g.mem
  held : ∀ n, (∀ k, n ≠ .link l k) → (n ∈ w.held ↔ n ∈ g.held)

def Grip.onLink (w : Grip) (l : ℕ) : Set Lock := {k | .link l k ∈ w.held}

theorem two_le_lockRank (k : Lock) : 2 ≤ lockRank k := by
  cases k <;> decide

theorem Beside.pre {w : Grip} {l : ℕ} {a : Messagelink.Act J} (hw : Beside g l w)
    (hearly : ∀ n ∈ g.held, Early n) (h : LinkOrder (w.onLink l) a) : pre w (.link l a) := by
  cases a with
  | lock k =>
    refine ⟨fun n hn n' hn' => ?_, nofun⟩
    obtain rfl : Name.link l k = n := Option.some.inj hn
    by_cases hlink : ∃ k', n' = .link l k'
    · obtain ⟨k', rfl⟩ := hlink
      exact h k' hn'
    · push Not at hlink
      exact (hearly n' ((hw.held n' hlink).1 hn')).trans_le (two_le_lockRank k)
  | unlock k =>
    refine ⟨nofun, fun n hn => ?_⟩
    obtain rfl : Name.link l k = n := Option.some.inj hn
    exact h
  | _ => exact ⟨nofun, nofun⟩

theorem Beside.step {w t : Grip} {l : ℕ} {a : Messagelink.Act J} {r : a.Answer} (hw : Beside g l w)
    (h : loc w (.link l a) r t) : Beside g l t ∧ LinkLocks (w.onLink l) a r (t.onLink l) := by
  obtain ⟨hheld, hmem⟩ := h
  have hmem : t.mem = w.mem := hmem
  refine ⟨⟨hmem.trans hw.mem, fun n hn => ?_⟩, ?_⟩
  · rw [hheld, ← hw.held n hn]
    simp [Grip.heldAfter, link_other a hn]
  · have hafter : t.onLink l = {k | wants (.link l a) = some (.link l k) ∨
        k ∈ w.onLink l ∧ gives (.link l a) ≠ some (.link l k)} := by
      rw [Grip.onLink, hheld]
      rfl
    rw [hafter]
    cases a with
    | lock k =>
      ext k'
      simp [wants, gives, eq_comm]
    | unlock k =>
      ext k'
      simp [wants, gives, eq_comm]
    | _ =>
      ext k'
      simp [wants, gives]

theorem inOrder_onLink {Q : α → Grip → Prop} {l : ℕ} {p : Messagelink.Program J α}
    (hearly : ∀ n ∈ g.held, Early n) (hQ : ∀ x, Q x g)
    (h : OnLink (fun _ h => h = ∅) p ∅) : InOrder Q (onLink l p) g := by
  have hnone : ∀ k, .link l k ∉ g.held := fun k hk => absurd (two_le_lockRank k) (not_le.2 (hearly _ hk))
  have hstart : OnLink (fun _ h => h = ∅) p (g.onLink l) := by
    rwa [show g.onLink l = ∅ from Set.eq_empty_of_forall_notMem hnone]
  refine wp_through (v := fun w => w.onLink l) (I := Beside g l) (fun w a hw => hw.pre hearly)
    (fun w a r t hw _ hloc => hw.step hloc) (fun x w hw hnothing => ?_) ⟨rfl, fun _ _ => Iff.rfl⟩ hstart
  -- the locks of the link have been given back
  have hsame : w = g := by
    obtain ⟨mem, held⟩ := w
    obtain rfl : mem = g.mem := hw.mem
    have hnothing : Grip.onLink ⟨g.mem, held⟩ l = ∅ := hnothing
    have hheld : held = g.held := by
      ext n
      by_cases hlink : ∃ k, n = .link l k
      · obtain ⟨k, rfl⟩ := hlink
        exact iff_of_false (Set.eq_empty_iff_forall_notMem.1 hnothing k) (hnone k)
      · push Not at hlink
        exact hw.held n hlink
    rw [hheld]
  exact hsame ▸ hQ x

theorem heldAfter_of_none {a : Act J} (hwants : wants a = none) (hgives : gives a = none) :
    g.heldAfter a = g.held := by
  ext n
  simp [Grip.heldAfter, hwants, hgives]

theorem pre_of_none {a : Act J} (hwants : wants a = none) (hgives : gives a = none) : pre g a := by
  simp [pre, hwants, hgives]

theorem inOrder_keep {Q : α → Grip → Prop} {a : Act J} {k : a.Answer → Program J α}
    (hwants : wants a = none) (hgives : gives a = none) (hmem : ∀ r mem, g.MemAfter a r mem → mem = g.mem)
    (hk : ∀ r, InOrder Q (k r) g) : InOrder Q (.act a k) g := by
  refine ⟨pre_of_none hwants hgives, fun r w ⟨hheld, hafter⟩ => ?_⟩
  have hw : w = g := by
    rw [heldAfter_of_none hwants hgives] at hheld
    have hsame : (⟨w.mem, w.held⟩ : Grip) = ⟨g.mem, g.held⟩ := by rw [hheld, hmem r _ hafter]
    exact hsame
  rw [hw]
  exact hk r

theorem inOrder_lock {Q : α → Grip → Prop} {a : Act J} {n : Name} {k : a.Answer → Program J α}
    (hwants : wants a = some n) (hgives : gives a = none) (hmem : ∀ r mem, g.MemAfter a r mem → mem = g.mem)
    (hrank : ∀ n' ∈ g.held, n'.rank < n.rank) (hk : ∀ r, InOrder Q (k r) ⟨g.mem, insert n g.held⟩) :
    InOrder Q (.act a k) g := by
  refine ⟨⟨fun n' hn' => ?_, fun n' hn' => ?_⟩, fun r w hw => ?_⟩
  · obtain rfl : n = n' := Option.some.inj (hwants.symm.trans hn')
    exact hrank
  · rw [hgives] at hn'
    cases hn'
  · obtain ⟨hheld, hafter⟩ := hw
    have hinsert : g.heldAfter a = insert n g.held := by
      ext n'
      simp [Grip.heldAfter, hwants, hgives, eq_comm]
    have hw : w = ⟨g.mem, insert n g.held⟩ := by
      rw [← hinsert, ← hheld, ← hmem r _ hafter]
    rw [hw]
    exact hk r

theorem inOrder_unlock {Q : α → Grip → Prop} {mem : Option ℕ} {held : Set Name} {a : Act J} {n : Name}
    {k : a.Answer → Program J α} (hwants : wants a = none) (hgives : gives a = some n)
    (hmem : ∀ g : Grip, ∀ r mem, g.MemAfter a r mem → mem = g.mem) (hn : n ∉ held)
    (hk : ∀ r, InOrder Q (k r) ⟨mem, held⟩) : InOrder Q (.act a k) ⟨mem, insert n held⟩ := by
  refine ⟨⟨fun n' hn' => ?_, fun n' hn' => ?_⟩, fun r w hw => ?_⟩
  · rw [hwants] at hn'
    cases hn'
  · obtain rfl : n = n' := Option.some.inj (hgives.symm.trans hn')
    exact Set.mem_insert n held
  · obtain ⟨hheld, hafter⟩ := hw
    have hrest : (⟨mem, insert n held⟩ : Grip).heldAfter a = held := by
      ext n'
      simp only [Grip.heldAfter, hwants, hgives, Set.mem_ofPred_eq, Set.mem_insert_iff]
      constructor
      · rintro (h | ⟨rfl | h, hne⟩)
        · cases h
        · exact absurd rfl hne
        · exact h
      · exact fun h => .inr ⟨.inr h, fun heq => hn (Option.some.inj heq ▸ h)⟩
    have hw : w = ⟨mem, held⟩ := by
      rw [← hrest, ← hheld, ← show w.mem = mem from hmem _ r _ hafter]
    rw [hw]
    exact hk r

/-- The thread sees `mem` as it knows it. -/
theorem inOrder_readMem {Q : α → Grip → Prop} {k : Option ℕ → Program J α}
    (hk : ∀ mem, (∀ b, g.mem = some b → mem = some b) → InOrder Q (k mem) ⟨mem, g.held⟩) :
    InOrder Q (.act (.hub .readMem) k) g := by
  refine ⟨pre_of_none rfl rfl, fun r w ⟨hheld, hmem, hknown⟩ => ?_⟩
  rw [heldAfter_of_none rfl rfl] at hheld
  have hw : w = ⟨r, g.held⟩ := by
    rw [← hheld, ← hmem]
  rw [hw]
  exact hk r hknown

theorem inOrder_writeMem {Q : α → Grip → Prop} {b : ℕ} {k : Unit → Program J α}
    (hk : InOrder Q (k ()) ⟨some b, g.held⟩) : InOrder Q (.act (.hub (.writeMem b)) k) g := by
  refine ⟨pre_of_none rfl rfl, fun r w ⟨hheld, hmem⟩ => ?_⟩
  rw [heldAfter_of_none rfl rfl] at hheld
  have hw : w = ⟨some b, g.held⟩ := by
    rw [← hheld, ← show w.mem = some b from hmem]
  rw [hw]
  exact hk

/-- Afterwards the thread knows that `mem` is set; it is the one that the thread has seen before. -/
theorem inOrder_membuf {Q : Unit → Grip → Prop}
    (hQ : ∀ b, (∀ b', g.mem = some b' → b = b') → Q () ⟨some b, g.held⟩) :
    InOrder (J := J) Q (inHub Broadcasts.messagehubMembuf) g := by
  refine inOrder_readMem fun mem hmem => ?_
  cases mem with
  | some b => exact hQ b fun b' hb' => Option.some.inj (hmem b' hb')
  | none =>
    refine inOrder_keep rfl rfl (fun _ _ h => h) fun b => inOrder_writeMem (hQ b fun b' hb' => ?_)
    cases hmem b' hb'

theorem inOrder_withMem {Q : Option ℕ → Grip → Prop} {a : ℕ → Broadcasts.Act} {b : ℕ} {held : Set Name}
    (h : InOrder (J := J) (fun _ w => Q (some b) w) (perform (.hub (a b))) ⟨some b, held⟩) :
    InOrder (J := J) Q (inHub (Broadcasts.withMem a)) ⟨some b, held⟩ := by
  refine inOrder_readMem fun mem hmem => ?_
  obtain rfl := hmem b rfl
  exact h

theorem inOrder_appendAll {Q : Unit → Grip → Prop} {b : ℕ} {held : Set Name} (hQ : Q () ⟨some b, held⟩)
    (pieces : List Bytes) : InOrder (J := J) Q (inHub (Broadcasts.appendAll pieces)) ⟨some b, held⟩ := by
  induction pieces with
  | nil => exact hQ
  | cons piece pieces ih =>
    refine inOrder_readMem fun mem hmem => ?_
    obtain rfl := hmem b rfl
    exact inOrder_keep rfl rfl (fun _ _ h => h) fun _ => ih

theorem inOrder_sendAll {Q : ℤ → Grip → Prop} (hearly : ∀ n ∈ g.held, Early n) (hQ : ∀ err, Q err g)
    (exclude : Option ℕ) (source : Source) (err : ℤ) (l : List ℕ) :
    InOrder (J := J) Q (sendAll exclude source err l) g := by
  induction l generalizing err with
  | nil => exact hQ err
  | cons link l ih =>
    rw [sendAll]
    split_ifs with hexclude
    · simp only [doing, perform_bind]
      refine inOrder_keep rfl rfl (fun _ _ h => h) fun data => ?_
      apply wp_bind.2
      exact inOrder_onLink hearly (fun r => ih _)
        (onLink_sendText (Q := fun _ h => h = ∅) (fun _ => rfl)
          (fun k hk => absurd hk (Set.notMem_empty k)) false data)
    · exact ih err

theorem inOrder_pingAll {Q : ℤ → Grip → Prop} (hearly : ∀ n ∈ g.held, Early n) (hQ : ∀ err, Q err g)
    (data : Bytes) (err : ℤ) (l : List ℕ) : InOrder (J := J) Q (pingAll data err l) g := by
  induction l generalizing err with
  | nil => exact hQ err
  | cons link l ih =>
    rw [pingAll]
    apply wp_bind.2
    exact inOrder_onLink hearly (fun r => ih _)
      (onLink_send (Q := fun _ h => h = ∅) (fun _ => rfl) false (.ping data))

theorem inOrder_linksLocked {Q : ℤ → Grip → Prop} (hfirst : ∀ n ∈ g.held, n.rank < 1)
    (hQ : ∀ err, Q err g) {p : List ℕ → Program J ℤ}
    (hp : ∀ l, InOrder (fun _ w => w = ⟨g.mem, insert .links g.held⟩) (p l)
      ⟨g.mem, insert .links g.held⟩) :
    InOrder Q (do
      doing (.hub .lockLinks)
      let l : List ℕ ← doing (.hub .readLinks)
      let err ← p l
      doing (.hub .unlockLinks)
      return err) g := by
  have hnot : Name.links ∉ g.held := fun h => lt_irrefl _ (hfirst _ h)
  simp only [doing, perform_bind]
  refine inOrder_lock rfl rfl (fun _ _ h => h) hfirst fun _ => ?_
  refine inOrder_keep rfl rfl (fun _ _ h => h) fun l => ?_
  apply wp_bind.2
  refine wp_mono (hp l) fun err w hw => ?_
  rw [hw]
  exact inOrder_unlock rfl rfl (fun _ _ _ h => h) hnot fun _ => hQ err

theorem early_links (hfirst : ∀ n ∈ g.held, n.rank < 1) : ∀ n ∈ insert .links g.held, Early n := by
  rintro n (rfl | hn)
  · exact (by decide : Name.links.rank < 2)
  · exact (hfirst n hn).trans (by decide)

theorem inOrder_broadcastText {Q : ℤ → Grip → Prop} (hfirst : ∀ n ∈ g.held, n.rank < 1)
    (hQ : ∀ b, (∀ b', g.mem = some b' → b = b') → ∀ err, Q err ⟨some b, g.held⟩)
    (exclude : Option ℕ) (source : Source) :
    InOrder (J := J) Q (messagehubBroadcastText exclude source) g := by
  apply wp_bind.2
  refine inOrder_membuf fun b hb => ?_
  exact inOrder_linksLocked (g := ⟨some b, g.held⟩) hfirst (hQ b hb) fun l =>
    inOrder_sendAll (Q := fun _ w => w = _) (early_links hfirst) (fun _ => rfl) exclude source 0 l

theorem inOrder_sendPing {Q : ℤ → Grip → Prop} (hfirst : ∀ n ∈ g.held, n.rank < 1) (hQ : ∀ err, Q err g)
    (data : Bytes) : InOrder (J := J) Q (messagehubSendPing data) g :=
  inOrder_linksLocked hfirst hQ fun l =>
    inOrder_pingAll (Q := fun _ w => w = _) (early_links hfirst) (fun _ => rfl) data 0 l

/-- The mutex of `hub->mem` is held when the list is locked. -/
theorem inOrder_broadcast {Q : ℤ → Grip → Prop} (hheld : g.held = ∅)
    (hQ : ∀ err w, w.held = ∅ → Q err w) (exclude : Option ℕ) (pieces : List Bytes) (err : ℤ) :
    InOrder (J := J) Q (messagehubBroadcast exclude pieces err) g := by
  apply wp_bind.2
  refine inOrder_membuf fun b _ => ?_
  rw [hheld]
  apply wp_bind.2
  refine inOrder_withMem (inOrder_lock rfl rfl (fun _ _ h => h) (by simp) fun _ => ?_)
  apply wp_bind.2
  refine inOrder_withMem (inOrder_keep rfl rfl (fun _ _ h => h) fun _ => ?_)
  apply wp_bind.2
  refine inOrder_appendAll ?_ pieces
  have hunlock : ∀ err, InOrder (J := J) Q (do
      let _ ← inHub (Broadcasts.withMem .unlockMem)
      return err) ⟨some b, insert (.mem b) ∅⟩ := by
    intro err
    apply wp_bind.2
    exact inOrder_withMem (inOrder_unlock rfl rfl (fun _ _ _ h => h) (by simp) fun _ => hQ _ _ rfl)
  apply wp_bind.2
  rw [broadcastPrinted]
  split_ifs with herr
  · simp only [doing, perform_bind]
    refine inOrder_readMem fun mem hmem => ?_
    obtain rfl := hmem b rfl
    refine inOrder_broadcastText ?_ (fun b' hb' err => ?_) exclude _
    · rintro n (rfl | hn)
      · exact (by decide : (0 : ℕ) < 1)
      · exact hn.elim
    · obtain rfl : b' = b := hb' b rfl
      exact hunlock err
  · exact hunlock err

theorem inOrder_job (job : Job) (hheld : g.held = ∅) :
    InOrder (J := J) (fun _ w => w.held = ∅) job.program g := by
  have hfirst : ∀ n ∈ g.held, n.rank < 1 := by simp [hheld]
  have hearly : ∀ n ∈ g.held, Early n := by simp [hheld]
  cases job with
  | broadcastText exclude data =>
    apply wp_bind.2
    exact inOrder_broadcastText hfirst (fun _ _ _ => hheld) exclude _
  | broadcast exclude pieces err =>
    apply wp_bind.2
    exact inOrder_broadcast hheld (fun _ _ hw => hw) exclude pieces err
  | ping data =>
    apply wp_bind.2
    exact inOrder_sendPing hfirst (fun _ => hheld) data
  | add =>
    refine inOrder_lock rfl rfl (fun _ _ h => h) hfirst fun _ => ?_
    refine inOrder_keep rfl rfl (fun _ _ h => h) fun _ => ?_
    exact inOrder_unlock rfl rfl (fun _ _ _ h => h) (by simp [hheld]) fun _ => hheld
  | remove link =>
    refine inOrder_lock rfl rfl (fun _ _ h => h) hfirst fun _ => ?_
    refine inOrder_keep rfl rfl (fun _ _ h => h) fun _ => ?_
    exact inOrder_unlock rfl rfl (fun _ _ _ h => h) (by simp [hheld]) fun _ => hheld
  | send link call =>
    apply wp_bind.2
    exact inOrder_onLink hearly (fun _ => hheld)
      (onLink_send (Q := fun _ h => h = ∅) (fun _ => rfl) false call)
  | print link text =>
    apply wp_bind.2
    exact inOrder_onLink hearly (fun _ => hheld)
      (onLink_sendPrinted (Q := fun _ h => h = ∅) (fun _ => rfl) false text)

theorem inOrder_runAll (jobs : List Job) (hheld : g.held = ∅) :
    InOrder (J := J) (fun _ w => w.held = ∅) (runAll jobs) g := by
  induction jobs generalizing g with
  | nil => exact hheld
  | cons job jobs ih =>
    rw [runAll]
    apply wp_bind.2
    exact wp_mono (inOrder_job job hheld) fun _ w hw => ih hw

end Threads

/-! ## All threads -/

theorem tidy (jobs : List (List Job)) :
    (locking J).Tidy grip loc pre (newProcess jobs) := by
  have hfree : ∀ i, (grip newSystem i).held = ∅ := by
    intro i
    ext n
    cases n <;> simp [grip, System.holder, newSystem, Broadcasts.newMessagehub, Messagelink.openChannel]
  refine ⟨fun i p hp => ?_, fun i _ => hfree i⟩
  rw [newProcess, List.getElem?_map] at hp
  obtain ⟨js, -, rfl⟩ := Option.map_eq_some_iff.1 hp
  exact inOrder_runAll js (hfree i)

/-- Locks are taken in one order, so that no threads wait for each other. -/
theorem hub_goes_on {jobs : List (List Job)} {ms : List (Move (Process J) _)} {d : Process J}
    (hrun : Run (ThreadStep System.Does) (newProcess jobs) ms d)
    (htime : ∀ m ∈ ms, InTime m.src.1 m.act.2.1) :
    (Locking.Returned d ∨ ∃ e d', ThreadStep System.Does d e d') ∧
    ∃ ms' d', Run (ThreadStep System.Does) d ms' d' ∧
      (∀ m ∈ ms', InTime m.src.1 m.act.2.1) ∧
      (Locking.Returned d' ∨
        ∃ (i : ℕ) (a : Act J) (k : _), d'.2[i]? = some (.act a k) ∧ ¬InTime d'.1 a) := by
  have hstep : ∀ (i : ℕ) (s : System) (a : Act J) (r : a.Answer) (t : System), Inv s →
      pre (grip s i) a → s.Does i a r t → InTime s a →
      Inv t ∧ loc (grip s i) a r (grip t i) ∧ ∀ j, j ≠ i → grip t j = grip s j :=
    fun _ _ _ _ _ hs hpre hdoes htime => does_step hs hpre hdoes htime
  have hopen : Inv newSystem := fun i hi => by cases hi
  obtain ⟨hinv, htidy⟩ := Locking.Tidy.run hstep hrun htime hopen (tidy jobs)
  exact ⟨ordered.step hinv htidy, ordered.completes hstep d hinv htidy⟩

/-! ## An example -/

section Example

def answers (i : ℕ) (s : System) : (a : Act J) → Option (a.Answer × System)
  | .hub a => (Broadcasts.timelyAnswers i s.hub a).map fun x => (x.1, { s with hub := x.2 })
  | .text source => some (s.hub.text source, s)
  | .link l a => ((s.channel l).next (fun _ => false) i a).map fun c =>
      ((s.channel l).answer (fun _ => false) a, { s with channel := Function.update s.channel l c })

theorem does_answers {i : ℕ} {s t : System} {a : Act J} {r : a.Answer}
    (h : answers i s a = some (r, t)) : s.Does i a r t ∧ InTime s a := by
  cases a with
  | hub a =>
    obtain ⟨x, hx, heq⟩ := Option.map_eq_some_iff.1 h
    obtain ⟨hdoes, htime⟩ := Broadcasts.does_timelyAnswers hx
    cases heq
    refine ⟨⟨x.2, hdoes, rfl⟩, fun b hb => ?_⟩
    cases hb
    exact htime
  | text source =>
    cases h
    exact ⟨⟨rfl, rfl⟩, nofun⟩
  | link l a =>
    obtain ⟨c, hc, heq⟩ := Option.map_eq_some_iff.1 h
    cases heq
    exact ⟨⟨c, Messagelink.does_next hc, rfl⟩, nofun⟩

def threeThreads : Process ℕ :=
  newProcess [[.add, .broadcast none [ascii "1"] 0], [.broadcast none [ascii "2"] 0],
    [.send 0 (.ping [])]]

/-- One broadcast waits for the other, and that for a ping on its link. -/
def eachWaits : List ℕ :=
  List.replicate 13 0 ++ List.replicate 2 1 ++ List.replicate 4 2 ++ List.replicate 12 0

theorem waiting_threads_go_on : ∃ ms d, Run (ThreadStep System.Does) threeThreads ms d ∧
    d.1.hub.memHolder 0 = some 0 ∧ d.1.hub.linksHolder = some 0 ∧
      (d.1.channel 0).holder .sendMutex = some 2 ∧
    (∃ e d', ThreadStep System.Does d e d') ∧
    ∃ ms' d', Run (ThreadStep System.Does) d ms' d' ∧
      (∀ m ∈ ms', InTime m.src.1 m.act.2.1) ∧
      (Locking.Returned d' ∨
        ∃ (i : ℕ) (a : Act ℕ) (k : _), d'.2[i]? = some (.act a k) ∧ ¬InTime d'.1 a) := by
  obtain ⟨ms, hrun, htime⟩ := run_play_guarded answers (fun _ _ _ _ _ => does_answers) eachWaits
    threeThreads
  obtain ⟨hstep, hrest⟩ := hub_goes_on hrun htime
  refine ⟨ms, _, hrun, rfl, rfl, rfl, hstep.resolve_left fun hreturned => ?_, hrest⟩
  have hwaits : ∃ a k, (play answers eachWaits threeThreads).2[0]? = some (.act a k) := ⟨_, _, rfl⟩
  obtain ⟨a, k, hget⟩ := hwaits
  obtain ⟨x, hx⟩ := hreturned _ (List.mem_of_getElem? hget)
  cases hx

end Example

end Rcom.HubThreads
