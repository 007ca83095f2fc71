import Rcom.Lib.Bytes
import Rcom.Lib.Program
import Mathlib.Data.Int.Notation
import Mathlib.Data.List.Nodup
import Mathlib.Logic.Function.Basic

/-!
# Broadcasts to the links of a hub (messagehub.c)

`messagehub_broadcast_text` sends a text to all links of the hub while it holds the mutex of the
list. The other broadcast functions put their text together in `hub->mem`, which the first call makes,
and hold its mutex until they have sent it. Any number of threads broadcast, add links and remove
them; they do their actions one at a time.
-/

namespace Rcom.Broadcasts
open Lib Lib.Program Lib.Trace

/-- A call of `messagehub_broadcast_text`, or of one of the functions that write the text to the hub's
buffer, in one piece or in several. -/
inductive Call where
  | text (exclude : Option ℕ) (data : Bytes)
  | print (exclude : Option ℕ) (pieces : List Bytes)

def Call.exclude : Call → Option ℕ
  | .text exclude _ | .print exclude _ => exclude

def Call.data : Call → Bytes
  | .text _ data => data
  | .print _ pieces => pieces.flatten

/-- The data that `messagelink_send_text` is given a pointer to. -/
inductive Source where
  | given (data : Bytes)
  | membuf (b : ℕ)

/-- `returned` is the end of a call. -/
inductive Act where
  | readMem
  | newMembuf
  | writeMem (b : ℕ)
  | lockMem (b : ℕ)
  | unlockMem (b : ℕ)
  | clear (b : ℕ)
  | append (b : ℕ) (piece : Bytes)
  | lockLinks
  | unlockLinks
  | readLinks
  | send (link : ℕ) (source : Source)
  | returned (call : Call) (err : ℤ)
  | addLink
  | removeLink (link : ℕ)

abbrev Act.Answer : Act → Type
  | .readMem => Option ℕ
  | .newMembuf => ℕ
  | .readLinks => List ℕ
  | .send _ _ => ℤ
  | _ => Unit

abbrev Program (α : Type) := Prog Act.Answer α

def doing (a : Act) : Program a.Answer := perform a

/-! ## The code of the threads -/

def messagehubMembuf : Program Unit := do
  let mem : Option ℕ ← doing .readMem
  match mem with
  | some _ => pure ()
  | none => do
    let b : ℕ ← doing .newMembuf
    doing (.writeMem b)

/-- Something is done with `hub->mem`, which is not NULL any more. -/
def withMem (a : ℕ → Act) : Program (Option ℕ) := do
  let mem : Option ℕ ← doing .readMem
  match mem with
  | none => .stop
  | some b => do
    let _ ← doing (a b)
    pure (some b)

def sendAll (exclude : Option ℕ) (source : Source) : ℤ → List ℕ → Program ℤ
  | err, [] => pure err
  | err, link :: l =>
    if some link ≠ exclude then do
      let r : ℤ ← doing (.send link source)
      sendAll exclude source (if r ≠ 0 then -1 else err) l
    else sendAll exclude source err l

def messagehubBroadcastText (exclude : Option ℕ) (source : Source) : Program ℤ := do
  messagehubMembuf
  let _ ← doing .lockLinks
  let l : List ℕ ← doing .readLinks
  let err ← sendAll exclude source 0 l
  let _ ← doing .unlockLinks
  pure err

def appendAll : List Bytes → Program Unit
  | [] => pure ()
  | piece :: pieces => do
    let _ ← withMem fun b => .append b piece
    appendAll pieces

/-- `messagehub_broadcast_num`, `_str`, `_obj` and `_f`. -/
def messagehubBroadcast (exclude : Option ℕ) (pieces : List Bytes) : Program ℤ := do
  messagehubMembuf
  let _ ← withMem .lockMem
  let _ ← withMem .clear
  appendAll pieces
  let mem : Option ℕ ← doing .readMem
  match mem with
  | none => .stop
  | some b => do
    let err ← messagehubBroadcastText exclude (.membuf b)
    let _ ← withMem .unlockMem
    pure err

def Call.program (call : Call) : Program Unit := do
  let err ← match call with
    | .text exclude data => messagehubBroadcastText exclude (.given data)
    | .print exclude pieces => messagehubBroadcast exclude pieces
  doing (.returned call err)

def messagehubAddLink : Program Unit := do
  let _ ← doing .lockLinks
  let _ ← doing .addLink
  doing .unlockLinks

def messagehubRemoveLink (link : ℕ) : Program Unit := do
  let _ ← doing .lockLinks
  let _ ← doing (.removeLink link)
  doing .unlockLinks

inductive Job where
  | broadcast (call : Call)
  | add
  | remove (link : ℕ)

def Job.program : Job → Program Unit
  | .broadcast call => call.program
  | .add => messagehubAddLink
  | .remove link => messagehubRemoveLink link

def runAll : List Job → Program Unit
  | [] => pure ()
  | job :: jobs => do
    job.program
    runAll jobs

/-! ## What the actions do -/

/-- As history: one run through the list. The passes are numbered from 1; `failed` are the links that
`messagelink_send_text` returned an error for, and `returned` says whether the call is over. -/
structure Pass where
  number : ℕ
  listed : List ℕ
  failed : List ℕ
  returned : Bool

structure Record where
  call : Call
  pass : Pass
  err : ℤ

/-- `links` are numbered as they are made, `allocated` counts the buffers. As history there are the
number of passes and whether one is going on, each thread's last pass, what each link has received
and in which pass, the calls that are over, and whether a thread has seen that `mem` is set. -/
structure Hub where
  mem : Option ℕ
  allocated : ℕ
  content : ℕ → Bytes
  memHolder : ℕ → Option ℕ
  links : List ℕ
  made : ℕ
  linksHolder : Option ℕ
  passes : ℕ
  passing : Bool
  pass : ℕ → Pass
  received : ℕ → List (ℕ × Bytes)
  returned : List Record
  seen : ℕ → Bool

namespace Hub
variable (s : Hub)

def text : Source → Bytes
  | .given data => data
  | .membuf b => s.content b

def got (number link : ℕ) : List Bytes :=
  ((s.received link).filter fun e => e.1 = number).map Prod.snd

def see (i : ℕ) : Hub := { s with seen := Function.update s.seen i (s.seen i || s.mem.isSome) }

def setPass (i : ℕ) (p : Pass) : Hub := { s with pass := Function.update s.pass i p }

def startPass (i : ℕ) : Hub :=
  { s.setPass i ⟨s.passes + 1, s.links, [], false⟩ with passes := s.passes + 1, passing := true }

def deliver (i link : ℕ) (data : Bytes) : Hub :=
  { s with
    received := Function.update s.received link (s.received link ++ [((s.pass i).number, data)]) }

def fail (i link : ℕ) : Hub :=
  s.setPass i { s.pass i with failed := (s.pass i).failed ++ [link] }

def record (i : ℕ) (call : Call) (err : ℤ) : Hub :=
  { s.setPass i { s.pass i with returned := true } with
    returned := s.returned ++ [⟨call, s.pass i, err⟩] }

/-- What an action of thread `i` does. -/
def Does (i : ℕ) (s : Hub) : (a : Act) → a.Answer → Hub → Prop
  | .readMem, r, t => r = s.mem ∧ t = s.see i
  | .newMembuf, r, t => r = s.allocated ∧ t = { s with allocated := s.allocated + 1 }
  | .writeMem b, _, t => t = { s with mem := some b, seen := Function.update s.seen i true }
  | .lockMem b, _, t =>
    s.memHolder b = none ∧ t = { s with memHolder := Function.update s.memHolder b (some i) }
  | .unlockMem b, _, t => t = { s with memHolder := Function.update s.memHolder b none }
  | .clear b, _, t => t = { s with content := Function.update s.content b [] }
  | .append b piece, _, t =>
    t = { s with content := Function.update s.content b (s.content b ++ piece) }
  | .lockLinks, _, t => s.linksHolder = none ∧ t = { s with linksHolder := some i }
  | .unlockLinks, _, t => t = { s with linksHolder := none, passing := false }
  | .readLinks, r, t => r = s.links ∧ t = s.startPass i
  | .send link source, (r : ℤ), t =>
    t = if r = 0 then s.deliver i link (s.text source) else s.fail i link
  | .returned call err, _, t => t = s.record i call err
  | .addLink, _, t => t = { s with links := s.links ++ [s.made], made := s.made + 1 }
  | .removeLink link, _, t => t = { s with links := s.links.erase link }

end Hub

def newMessagehub : Hub where
  mem := none
  allocated := 0
  content := fun _ => []
  memHolder := fun _ => none
  links := []
  made := 0
  linksHolder := none
  passes := 0
  passing := false
  pass := fun _ => ⟨0, [], [], false⟩
  received := fun _ => []
  returned := []
  seen := fun _ => false

abbrev Process := Threads Hub Act.Answer Unit

def newProcess (jobs : List (List Job)) : Process := (newMessagehub, jobs.map runAll)

/-! ## What a thread sees -/

/-- `mem` once the thread has seen it, `content` while it holds the buffer's mutex, `passing` while it
goes through the list, and `got` is what the links got in its last pass. -/
structure View where
  mem : Option ℕ
  content : Option Bytes
  holds : Bool
  passing : Bool
  pass : Pass
  got : ℕ → List Bytes

def Hub.memOf (s : Hub) (i : ℕ) : Option ℕ := if s.seen i then s.mem else none

def Hub.contentOf (s : Hub) (i : ℕ) : Option Bytes :=
  (s.memOf i).bind fun b => if s.memHolder b = some i then some (s.content b) else none

def view (s : Hub) (i : ℕ) : View where
  mem := s.memOf i
  content := s.contentOf i
  holds := s.linksHolder = some i
  passing := s.linksHolder = some i ∧ s.passing = true
  pass := s.pass i
  got := s.got (s.pass i).number

def View.Locked (v : View) (b : ℕ) : Prop := v.mem = some b ∧ v.content.isSome

def View.Readable (v : View) : Source → Prop
  | .given _ => True
  | .membuf b => v.Locked b

def View.text (v : View) : Source → Bytes
  | .given data => data
  | .membuf _ => v.content.getD []

/-- What a pass has come to with `done`, the part of the list behind it. -/
structure Sent (exclude : Option ℕ) (data : Bytes) (done failed : List ℕ) (got : ℕ → List Bytes)
    (err : ℤ) : Prop where
  got : ∀ l, got l = if l ∈ done ∧ some l ≠ exclude ∧ l ∉ failed then [data] else []
  mem_done : ∀ l ∈ failed, l ∈ done ∧ some l ≠ exclude
  err : err ≠ 0 ↔ failed ≠ []

def Record.Holds (e : Record) (got : ℕ → List Bytes) : Prop :=
  Sent e.call.exclude e.call.data e.pass.listed e.pass.failed got e.err

def pre (v : View) : Act → Prop
  | .lockMem b => v.mem = some b
  | .unlockMem b | .clear b | .append b _ => v.Locked b
  | .unlockLinks | .readLinks | .addLink | .removeLink _ => v.holds = true
  | .send link source => v.passing = true ∧ v.got link = [] ∧ v.Readable source
  | .returned call err => v.holds = false ∧ 0 < v.pass.number ∧ v.pass.returned = false ∧
      (Record.mk call v.pass err).Holds v.got
  | .readMem | .newMembuf | .writeMem _ | .lockLinks => True

def loc (v : View) : (a : Act) → a.Answer → View → Prop
  | .readMem, (r : Option ℕ), w =>
    match v.mem with
    | some b => r = some b ∧ w = v
    | none => ∃ content, w = { v with mem := r, content := content }
  | .writeMem b, _, w => ∃ content, w = { v with mem := some b, content := content }
  | .lockMem _, _, w => ∃ content, w = { v with content := some content }
  | .unlockMem _, _, w => w = { v with content := none }
  | .clear _, _, w => w = { v with content := some [] }
  | .append _ piece, _, w => w = { v with content := some (v.content.getD [] ++ piece) }
  | .lockLinks, _, w => w = { v with holds := true, passing := false }
  | .unlockLinks, _, w => w = { v with holds := false, passing := false }
  | .readLinks, (r : List ℕ), w => r.Nodup ∧ ∃ number, 0 < number ∧
      w = { v with passing := true, pass := ⟨number, r, [], false⟩, got := fun _ => [] }
  | .send link source, (r : ℤ), w =>
    w = if r = 0 then { v with got := Function.update v.got link (v.got link ++ [v.text source]) }
      else { v with pass := { v.pass with failed := v.pass.failed ++ [link] } }
  | .returned _ _, _, w => w = { v with pass := { v.pass with returned := true } }
  | .newMembuf, _, w | .addLink, _, w | .removeLink _, _, w => w = v

/-! ## The calls keep to this -/

section Programs
variable {α : Type} {Q : α → View → Prop} {v : View}

abbrev Wp (Q : α → View → Prop) (p : Program α) (v : View) : Prop := wp loc pre True Q p v

theorem wp_do {a : Act} {f : a.Answer → Program α} (hpre : pre v a)
    (h : ∀ r w, loc v a r w → Wp Q (f r) w) : Wp Q (.act a f) v := ⟨hpre, h⟩

theorem wp_readMem {f : Option ℕ → Program α} {b : ℕ} (hmem : v.mem = some b)
    (h : Wp Q (f (some b)) v) : Wp Q (.act .readMem f) v := by
  refine wp_do trivial ?_
  intro r w hw
  simp only [loc, hmem] at hw
  obtain ⟨rfl, rfl⟩ := hw
  exact h

/-- Afterwards the buffer is there, and the thread sees the rest as before. -/
theorem wp_membuf {Q : Unit → View → Prop}
    (hQ : ∀ b content, (∀ b', v.mem = some b' → b = b' ∧ content = v.content) →
      Q () { v with mem := some b, content := content }) : Wp Q messagehubMembuf v := by
  cases hmem : v.mem with
  | some b =>
    refine wp_readMem hmem ?_
    have hsame : ({ v with mem := some b, content := v.content } : View) = v := by rw [← hmem]
    have hq := hQ b v.content fun b' hb => ⟨Option.some.inj (hmem.symm.trans hb), rfl⟩
    rwa [hsame] at hq
  | none =>
    have hnone {b : ℕ} {content : Option Bytes} (b' : ℕ) (hb : v.mem = some b') :
        b = b' ∧ content = v.content := by
      rw [hmem] at hb
      cases hb
    refine wp_do trivial ?_
    intro r w hw
    simp only [loc, hmem] at hw
    obtain ⟨content, rfl⟩ := hw
    cases r with
    | some b => exact hQ b content hnone
    | none =>
      refine wp_do trivial ?_
      rintro b w rfl
      refine wp_do trivial ?_
      rintro _ w ⟨content', rfl⟩
      exact hQ b content' hnone

theorem wp_withMem {Q : Option ℕ → View → Prop} {a : ℕ → Act} {b : ℕ} (hmem : v.mem = some b)
    (hpre : pre v (a b)) (hQ : ∀ r w, loc v (a b) r w → Q (some b) w) : Wp Q (withMem a) v :=
  wp_readMem hmem (wp_do hpre hQ)

section Pass
variable {exclude : Option ℕ} {source : Source} {data : Bytes} {done l failed : List ℕ}
variable {got : ℕ → List Bytes} {err : ℤ}

theorem Sent.nil : Sent exclude data [] [] (fun _ => []) 0 := ⟨by simp, by simp, by simp⟩

theorem Sent.skip (h : Sent exclude data done failed got err) {link : ℕ}
    (hlink : some link = exclude) : Sent exclude data (done ++ [link]) failed got err where
  got k := by
    rw [h.got k]
    by_cases hk : k = link
    · subst hk
      simp [hlink]
    · simp [hk]
  mem_done k hk := ⟨List.mem_append_left _ (h.mem_done k hk).1, (h.mem_done k hk).2⟩
  err := h.err

theorem Sent.nothing (h : Sent exclude data done failed got err) {link : ℕ} (hlink : link ∉ done) :
    got link = [] := by
  rw [h.got, if_neg]
  exact fun hd => hlink hd.1

theorem Sent.deliver (h : Sent exclude data done failed got err) {link : ℕ} (hlink : link ∉ done)
    (hexclude : some link ≠ exclude) :
    Sent exclude data (done ++ [link]) failed
      (Function.update got link (got link ++ [data])) err where
  got k := by
    by_cases hk : k = link
    · subst hk
      have hfailed : k ∉ failed := fun hf => hlink (h.mem_done k hf).1
      simp [h.nothing hlink, hexclude, hfailed]
    · simp [hk, h.got k]
  mem_done k hk := ⟨List.mem_append_left _ (h.mem_done k hk).1, (h.mem_done k hk).2⟩
  err := h.err

theorem Sent.fail (h : Sent exclude data done failed got err) {link : ℕ} (hlink : link ∉ done)
    (hexclude : some link ≠ exclude) :
    Sent exclude data (done ++ [link]) (failed ++ [link]) got (-1) where
  got k := by
    rw [h.got k]
    by_cases hk : k = link
    · subst hk
      simp [hlink]
    · simp [hk]
  mem_done k hk := by
    rcases List.mem_append.1 hk with hk | hk
    · exact ⟨List.mem_append_left _ (h.mem_done k hk).1, (h.mem_done k hk).2⟩
    · obtain rfl := List.mem_singleton.1 hk
      exact ⟨List.mem_append_right _ hk, hexclude⟩
  err := by simp

abbrev InPass (mem : Option ℕ) (content : Option Bytes) (number : ℕ) (listed failed : List ℕ)
    (got : ℕ → List Bytes) : View :=
  ⟨mem, content, true, true, ⟨number, listed, failed, false⟩, got⟩

theorem wp_sendAll {Q : ℤ → View → Prop} {mem : Option ℕ} {content : Option Bytes}
    {number : ℕ} {listed : List ℕ}
    (hread : ∀ failed got, (InPass mem content number listed failed got).Readable source)
    (htext : ∀ failed got, (InPass mem content number listed failed got).text source = data)
    (hl : (done ++ l).Nodup) (hsent : Sent exclude data done failed got err)
    (hQ : ∀ failed' got' err', Sent exclude data (done ++ l) failed' got' err' →
      Q err' (InPass mem content number listed failed' got')) :
    Wp Q (sendAll exclude source err l) (InPass mem content number listed failed got) := by
  induction l generalizing done failed got err with
  | nil => exact hQ failed got err (by simpa using hsent)
  | cons link l ih =>
    have happend : done ++ link :: l = done ++ [link] ++ l := by simp
    have hlink : link ∉ done := fun hd =>
      (List.nodup_append.1 hl).2.2 link hd link List.mem_cons_self rfl
    rw [happend] at hl hQ
    rw [sendAll]
    by_cases hexclude : some link = exclude
    · rw [if_neg (not_not.2 hexclude)]
      exact ih hl (hsent.skip hexclude) hQ
    · rw [if_pos hexclude]
      refine wp_do ⟨rfl, hsent.nothing hlink, hread failed got⟩ ?_
      rintro (r : ℤ) w rfl
      by_cases hr : r = 0
      · subst hr
        have hnext := ih hl (hsent.deliver hlink hexclude) hQ
        rw [← htext failed got] at hnext
        exact hnext
      · have hnext := ih hl (hsent.fail hlink hexclude) hQ
        change Wp Q (sendAll exclude source (if r ≠ 0 then -1 else err) l) (if r = 0 then _ else _)
        rw [if_pos hr, if_neg hr]
        exact hnext

def Passed (exclude : Option ℕ) (data : Bytes) (err : ℤ) (w : View) : Prop :=
  w.holds = false ∧ 0 < w.pass.number ∧ w.pass.returned = false ∧
    Sent exclude data w.pass.listed w.pass.failed w.got err

theorem wp_broadcastText (data : Bytes) {Q : ℤ → View → Prop}
    (hread : ∀ w : View, w.mem.isSome → (∀ b, v.mem = some b → w.mem = v.mem ∧ w.content = v.content) →
      w.Readable source ∧ w.text source = data)
    (hQ : ∀ err w, Passed exclude data err w →
      (∀ b, v.mem = some b → w.mem = v.mem ∧ w.content = v.content) → Q err w) :
    Wp Q (messagehubBroadcastText exclude source) v := by
  refine (wp_bind (p := messagehubMembuf)).2 (wp_membuf ?_)
  intro b content hkeep
  have hsame {w : View} (hmem : w.mem = some b) (hcontent : w.content = content) (b' : ℕ)
      (hb : v.mem = some b') : w.mem = v.mem ∧ w.content = v.content := by
    obtain ⟨rfl, hc⟩ := hkeep b' hb
    exact ⟨hmem.trans hb.symm, hcontent.trans hc⟩
  refine wp_do trivial ?_
  rintro _ w rfl
  refine wp_do rfl ?_
  rintro l w ⟨hl, number, hpos, rfl⟩
  refine (wp_bind (p := sendAll exclude source 0 l)).2 ?_
  have hstart : Sent exclude data [] [] (fun _ => []) 0 := .nil
  refine wp_sendAll (fun failed got => ?_) (fun failed got => ?_) (by simpa using hl)
    hstart ?_
  · exact (hread _ rfl (hsame rfl rfl)).1
  · exact (hread _ rfl (hsame rfl rfl)).2
  intro failed got err hsent
  refine wp_do rfl ?_
  rintro _ w rfl
  exact hQ err _ ⟨rfl, hpos, rfl, hsent⟩ (hsame rfl rfl)

theorem wp_appendAll {pieces : List Bytes} {Q : Unit → View → Prop} {b : ℕ} {content : Bytes}
    (hmem : v.mem = some b) (hcontent : v.content = some content)
    (hQ : Q () { v with content := some (content ++ pieces.flatten) }) :
    Wp Q (appendAll pieces) v := by
  induction pieces generalizing v content with
  | nil =>
    have hsame : ({ v with content := some (content ++ ([] : List Bytes).flatten) } : View) = v := by
      simp [← hcontent]
    rwa [hsame] at hQ
  | cons piece pieces ih =>
    refine (wp_bind (p := withMem _)).2 (wp_withMem hmem ⟨hmem, by simp [hcontent]⟩ ?_)
    rintro _ w rfl
    refine @ih _ (content ++ piece) hmem (by simp [hcontent]) ?_
    simpa using hQ

theorem wp_broadcast {pieces : List Bytes} {Q : ℤ → View → Prop}
    (hQ : ∀ err w, Passed exclude pieces.flatten err w → Q err w) :
    Wp Q (messagehubBroadcast exclude pieces) v := by
  refine (wp_bind (p := messagehubMembuf)).2 (wp_membuf fun b content _ => ?_)
  refine (wp_bind (p := withMem _)).2 (wp_withMem rfl rfl ?_)
  rintro _ w ⟨content', rfl⟩
  refine (wp_bind (p := withMem _)).2 (wp_withMem rfl ⟨rfl, rfl⟩ ?_)
  rintro _ w rfl
  refine (wp_bind (p := appendAll pieces)).2 (wp_appendAll rfl rfl ?_)
  refine wp_readMem rfl ?_
  refine (wp_bind (p := messagehubBroadcastText exclude (.membuf b))).2 ?_
  refine wp_broadcastText pieces.flatten (fun w _ hkeep => ?_) fun err w hpassed hkeep => ?_
  · obtain ⟨hmem, hcontent⟩ := hkeep b rfl
    exact ⟨⟨hmem, by simp [hcontent]⟩, by simp [View.text, hcontent]⟩
  · obtain ⟨hmem, hcontent⟩ := hkeep b rfl
    refine (wp_bind (p := withMem _)).2 (wp_withMem hmem ⟨hmem, by simp [hcontent]⟩ ?_)
    rintro _ w' rfl
    exact hQ err _ hpassed

theorem wp_call (call : Call) : Wp (fun _ _ => True) call.program v := by
  have hreturn {err : ℤ} {w : View} (h : Passed call.exclude call.data err w) :
      Wp (fun _ _ => True) (doing (.returned call err)) w :=
    wp_do ⟨h.1, h.2.1, h.2.2.1, h.2.2.2⟩ fun _ _ _ => trivial
  cases call with
  | text exclude data =>
    refine (wp_bind (p := messagehubBroadcastText exclude (.given data))).2 ?_
    exact wp_broadcastText data (fun _ _ _ => ⟨trivial, rfl⟩) fun err w h _ => hreturn h
  | print exclude pieces =>
    refine (wp_bind (p := messagehubBroadcast exclude pieces)).2 ?_
    exact wp_broadcast fun err w h => hreturn h

end Pass

theorem wp_job (job : Job) : Wp (fun _ _ => True) job.program v := by
  cases job with
  | broadcast call => exact wp_call call
  | add | remove =>
    refine wp_do trivial ?_
    rintro _ w rfl
    refine wp_do rfl ?_
    rintro _ w rfl
    exact wp_do rfl fun _ _ _ => trivial

theorem wp_runAll (jobs : List Job) : Wp (fun _ _ => True) (runAll jobs) v := by
  induction jobs generalizing v with
  | nil => trivial
  | cons job jobs ih => exact wp_bind.2 (wp_mono (wp_job job) fun _ _ _ => ih)

end Programs

/-! ## One step -/

/-- Each pass has its number, a link's entries are in the order of the passes, and the calls that are
over have been carried out. -/
structure Hub.Inv (s : Hub) : Prop where
  seen : ∀ i, s.seen i = true → s.mem.isSome
  links_nodup : s.links.Nodup
  links_made : ∀ l ∈ s.links, l < s.made
  passing : s.passing = true →
    ∃ j, s.linksHolder = some j ∧ (s.pass j).number = s.passes ∧ 0 < s.passes
  number_le : ∀ i, (s.pass i).number ≤ s.passes
  distinct : ∀ i j, i ≠ j → (s.pass i).number = (s.pass j).number → (s.pass i).number = 0
  sorted : ∀ l, ((s.received l).map Prod.fst).Pairwise (· < ·)
  received_le : ∀ l, ∀ e ∈ s.received l, 0 < e.1 ∧ e.1 ≤ s.passes
  records : ∀ e ∈ s.returned, e.Holds (s.got e.pass.number)
  record_le : ∀ e ∈ s.returned, 0 < e.pass.number ∧ e.pass.number ≤ s.passes
  record_lt : s.passing = true → ∀ e ∈ s.returned, e.pass.number < s.passes
  record_over : ∀ e ∈ s.returned, ∀ i, (s.pass i).number = e.pass.number → (s.pass i).returned = true
  records_nodup : (s.returned.map fun e => e.pass.number).Nodup

theorem newMessagehub_inv : newMessagehub.Inv := by
  constructor <;> simp [newMessagehub]

/-- No buffer is made in the place of another. -/
def InTime (s : Hub) (a : Act) : Prop := ∀ b, a = .writeMem b → s.mem = none

/-- Thread `i` has done an action. -/
structure Stepped (i : ℕ) (s t : Hub) (a : Act) (r : a.Answer) : Prop where
  inv : t.Inv
  loc : loc (view s i) a r (view t i)
  others : ∀ j, j ≠ i → view t j = view s j

section Steps
variable {s t : Hub} {i j : ℕ}

theorem view_congr (hmem : t.memOf j = s.memOf j) (hcontent : t.contentOf j = s.contentOf j)
    (hholder : t.linksHolder = some j ↔ s.linksHolder = some j)
    (hpassing : s.linksHolder = some j → t.passing = s.passing) (hpass : t.pass j = s.pass j)
    (hgot : t.got (s.pass j).number = s.got (s.pass j).number) : view t j = view s j := by
  simp only [view, hmem, hcontent, hpass, hgot, View.mk.injEq, true_and, and_true]
  refine ⟨decide_eq_decide.2 hholder, decide_eq_decide.2 ?_⟩
  rw [hholder]
  exact and_congr_right fun h => by rw [hpassing h]

theorem memOf_seen {b : ℕ} (h : s.memOf i = some b) : s.seen i = true ∧ s.mem = some b := by
  unfold Hub.memOf at h
  split_ifs at h with hseen
  exact ⟨hseen, h⟩

theorem memHolder_of_locked {b : ℕ} (h : (view s i).Locked b) :
    s.memOf i = some b ∧ s.memHolder b = some i := by
  obtain ⟨hmem, hcontent⟩ := h
  have hmem' : s.memOf i = some b := hmem
  refine ⟨hmem', ?_⟩
  by_contra hholder
  simp [view, Hub.contentOf, hmem', hholder] at hcontent

theorem contentOf_some {b : ℕ} (hmem : s.memOf i = some b) (hholder : s.memHolder b = some i) :
    s.contentOf i = some (s.content b) := by
  simp [Hub.contentOf, hmem, hholder]

/-! ### The buffer -/

theorem readMem_stepped (h : s.Inv) : Stepped i s (s.see i) .readMem s.mem := by
  have hmem : (s.see i).memOf i = s.mem := by
    cases hs : s.mem <;> simp [Hub.memOf, Hub.see, hs]
  have hother {j : ℕ} (hj : j ≠ i) : (s.see i).memOf j = s.memOf j := by
    simp [Hub.memOf, Hub.see, hj]
  refine ⟨{ h with seen := fun j hj => ?_ }, ?_, fun j hj => ?_⟩
  · by_cases hji : j = i
    · subst hji
      have hcases : s.seen j = true ∨ s.mem.isSome = true := by simpa [Hub.see] using hj
      exact hcases.elim (h.seen j) id
    · exact h.seen j (by simpa [Hub.see, hji] using hj)
  · cases hv : s.memOf i with
    | some b =>
      obtain ⟨hseen, hs⟩ := memOf_seen hv
      have hupdate : Function.update s.seen i (s.seen i || s.mem.isSome) = s.seen := by
        rw [hseen, Bool.true_or, ← hseen, Function.update_eq_self]
      have hsame : s.see i = s := by simp only [Hub.see, hupdate]
      simp only [loc, view, hv, hs, hsame, true_and]
    | none =>
      simp only [loc, view, hv]
      exact ⟨(s.see i).contentOf i, by rw [hmem]; rfl⟩
  · refine view_congr (hother hj) ?_ Iff.rfl (fun _ => rfl) rfl rfl
    simp only [Hub.contentOf, hother hj]
    rfl

theorem writeMem_stepped (h : s.Inv) {b : ℕ} (hmem : s.mem = none) :
    Stepped i s { s with mem := some b, seen := Function.update s.seen i true } (.writeMem b) () := by
  have hseen (j : ℕ) : s.seen j = false := Bool.eq_false_iff.2 fun hj => by
    simpa [hmem] using h.seen j hj
  have hother {j : ℕ} (hj : j ≠ i) :
      ({ s with mem := some b, seen := Function.update s.seen i true } : Hub).memOf j = s.memOf j := by
    simp [Hub.memOf, hj, hseen]
  refine ⟨{ h with seen := fun _ _ => rfl },
    ⟨({ s with mem := some b, seen := Function.update s.seen i true } : Hub).contentOf i, ?_⟩,
    fun j hj => ?_⟩
  · simp only [view, Hub.memOf, Function.update_self]
    rfl
  · refine view_congr (hother hj) ?_ Iff.rfl (fun _ => rfl) rfl rfl
    simp only [Hub.contentOf, hother hj]

/-- What happens to a buffer that the others do not hold, they do not see. -/
theorem view_buffer {content : ℕ → Bytes} {memHolder : ℕ → Option ℕ} {b : ℕ}
    (hcontent : ∀ b', b' ≠ b → content b' = s.content b')
    (hholder : ∀ b', b' ≠ b → memHolder b' = s.memHolder b') (hb : s.memHolder b ≠ some j)
    (hb' : memHolder b ≠ some j) :
    view { s with content := content, memHolder := memHolder } j = view s j := by
  refine view_congr rfl ?_ Iff.rfl (fun _ => rfl) rfl rfl
  unfold Hub.contentOf
  change (s.memOf j).bind _ = _
  cases s.memOf j with
  | none => rfl
  | some b' =>
    by_cases hbb : b' = b
    · subst hbb
      simp [hb, hb']
    · simp [hcontent b' hbb, hholder b' hbb]

theorem lockMem_stepped (h : s.Inv) {b : ℕ} (hpre : pre (view s i) (.lockMem b))
    (hfree : s.memHolder b = none) :
    Stepped i s { s with memHolder := Function.update s.memHolder b (some i) } (.lockMem b) () := by
  refine ⟨{ h with }, ⟨s.content b, ?_⟩, fun j hj => ?_⟩
  · have hmem : s.memOf i = some b := hpre
    have hcontent : ({ s with memHolder := Function.update s.memHolder b (some i) } : Hub).contentOf i =
        some (s.content b) := contentOf_some hmem (by simp)
    simp only [view, hcontent]
    rfl
  · refine view_buffer (b := b) (fun _ _ => rfl) (fun b' hb' => by simp [hb']) (by simp [hfree]) ?_
    simpa using Ne.symm hj

theorem unlockMem_stepped (h : s.Inv) {b : ℕ} (hpre : pre (view s i) (.unlockMem b)) :
    Stepped i s { s with memHolder := Function.update s.memHolder b none } (.unlockMem b) () := by
  obtain ⟨hmem, hholder⟩ := memHolder_of_locked hpre
  refine ⟨{ h with }, ?_, fun j hj => ?_⟩
  · have hcontent : ({ s with memHolder := Function.update s.memHolder b none } : Hub).contentOf i =
        none := by
      change (s.memOf i).bind _ = _
      simp [hmem]
    simp only [loc, view, hcontent]
    rfl
  · refine view_buffer (b := b) (fun _ _ => rfl) (fun b' hb' => by simp [hb']) ?_ (by simp)
    simpa [hholder] using Ne.symm hj

theorem write_stepped (h : s.Inv) {b : ℕ} {data : Bytes} {a : Act} {r : a.Answer}
    (hpre : (view s i).Locked b)
    (hloc : loc (view s i) a r { view s i with content := some data }) :
    Stepped i s { s with content := Function.update s.content b data } a r := by
  obtain ⟨hmem, hholder⟩ := memHolder_of_locked hpre
  refine ⟨{ h with }, ?_, fun j hj => ?_⟩
  · have hcontent : ({ s with content := Function.update s.content b data } : Hub).contentOf i =
        some data := by
      refine (contentOf_some (s := { s with content := Function.update s.content b data }) hmem
        hholder).trans ?_
      simp
    have hview : view { s with content := Function.update s.content b data } i =
        { view s i with content := some data } := by
      simp only [view, hcontent]
      rfl
    rw [hview]
    exact hloc
  · refine view_buffer (b := b) (fun b' hb' => by simp [hb']) (fun _ _ => rfl) ?_ ?_ <;>
      simpa [hholder] using Ne.symm hj

/-! ### The list -/

theorem holds_iff : (view s i).holds = true ↔ s.linksHolder = some i := by simp [view]

theorem lockLinks_stepped (h : s.Inv) (hfree : s.linksHolder = none) :
    Stepped i s { s with linksHolder := some i } .lockLinks () := by
  have hidle : s.passing = false := Bool.eq_false_iff.2 fun hp => by
    obtain ⟨j, hj, -⟩ := h.passing hp
    simp [hfree] at hj
  refine ⟨{ h with passing := fun hp => ?_ }, ?_, fun j hj => ?_⟩
  · exact absurd hp (by simp [hidle])
  · simp only [loc, view, hidle, View.mk.injEq]
    exact ⟨rfl, rfl, by simp, by simp, trivial, rfl⟩
  · refine view_congr rfl rfl ?_ (fun _ => rfl) rfl rfl
    simp [hfree, Ne.symm hj]

theorem unlockLinks_stepped (h : s.Inv) (hpre : pre (view s i) .unlockLinks) :
    Stepped i s { s with linksHolder := none, passing := false } .unlockLinks () := by
  have hholder := holds_iff.1 hpre
  refine ⟨{ h with passing := nofun, record_lt := nofun }, ?_, fun j hj => ?_⟩
  · simp only [loc, view, View.mk.injEq]
    exact ⟨rfl, rfl, by simp, by simp, trivial, rfl⟩
  · refine view_congr rfl rfl ?_ (fun hj' => ?_) rfl rfl
    · simpa [hholder] using Ne.symm hj
    · exact absurd (Option.some.inj (hholder.symm.trans hj')) (Ne.symm hj)

theorem links_stepped (h : s.Inv) {links : List ℕ} {made : ℕ} {a : Act} {r : a.Answer}
    (hnodup : links.Nodup) (hmade : ∀ l ∈ links, l < made)
    (hloc : loc (view s i) a r (view s i)) :
    Stepped i s { s with links := links, made := made } a r :=
  ⟨{ h with links_nodup := hnodup, links_made := hmade }, hloc, fun _ _ => rfl⟩

theorem got_nil {number link : ℕ} (h : ∀ e ∈ s.received link, e.1 ≠ number) :
    s.got number link = [] := by
  unfold Hub.got
  rw [List.filter_eq_nil_iff.2 fun e he => by simpa using h e he]
  rfl

theorem ne_of_got_nil {number link : ℕ} (h : s.got number link = []) (e : ℕ × Bytes)
    (he : e ∈ s.received link) : e.1 ≠ number := by
  have hfilter := List.map_eq_nil_iff.1 h
  simpa using List.filter_eq_nil_iff.1 hfilter e he

theorem readLinks_stepped (h : s.Inv) (hpre : pre (view s i) .readLinks) :
    Stepped i s (s.startPass i) .readLinks s.links := by
  have hholder := holds_iff.1 hpre
  have hself : (s.startPass i).pass i = ⟨s.passes + 1, s.links, [], false⟩ := Function.update_self ..
  have hother {j : ℕ} (hj : j ≠ i) : (s.startPass i).pass j = s.pass j := Function.update_of_ne hj ..
  have hnew {j : ℕ} (hj : j ≠ i) : ((s.startPass i).pass j).number < s.passes + 1 := by
    rw [hother hj]
    exact Nat.lt_succ_of_le (h.number_le j)
  refine ⟨{ h with
      passing := fun _ => ⟨i, hholder, by rw [hself]; rfl, Nat.succ_pos _⟩
      number_le := fun j => ?_
      distinct := fun j k hjk hnumber => ?_
      received_le := fun l e he => (h.received_le l e he).imp_right Nat.le_succ_of_le
      record_le := fun e he => (h.record_le e he).imp_right Nat.le_succ_of_le
      record_lt := fun _ e he => Nat.lt_succ_of_le (h.record_le e he).2
      record_over := fun e he j hj => ?_ }, ⟨h.links_nodup, s.passes + 1, Nat.succ_pos _, ?_⟩,
    fun j hj => ?_⟩
  · by_cases hj : j = i
    · subst hj
      rw [hself]
      exact Nat.le_refl _
    · exact Nat.le_of_lt (hnew hj)
  · by_cases hj : j = i
    · subst hj
      rw [hself] at hnumber
      exact absurd hnumber.symm (Nat.ne_of_lt (hnew (Ne.symm hjk)))
    · by_cases hk : k = i
      · subst hk
        rw [hself] at hnumber
        exact absurd hnumber (Nat.ne_of_lt (hnew hj))
      · rw [hother hj] at hnumber ⊢
        rw [hother hk] at hnumber
        exact h.distinct j k hjk hnumber
  · by_cases hj' : j = i
    · subst hj'
      rw [hself] at hj
      have hle := (h.record_le e he).2
      simp only at hj
      omega
    · rw [hother hj'] at hj ⊢
      exact h.record_over e he j hj
  · have hgot : (s.startPass i).got (s.passes + 1) = fun _ => [] := by
      funext l
      refine got_nil fun e he => ?_
      have hle := (h.received_le l e he).2
      omega
    simp only [view, hself, hgot, View.mk.injEq, and_true]
    refine ⟨rfl, rfl, ?_⟩
    simp [Hub.startPass, Hub.setPass, hholder]
  · refine view_congr rfl rfl Iff.rfl (fun hj' => ?_) (hother hj) rfl
    exact absurd (Option.some.inj (hholder.symm.trans hj')) (Ne.symm hj)

theorem passing_number (h : s.Inv) (hpre : (view s i).passing = true) :
    s.linksHolder = some i ∧ s.passing = true ∧ (s.pass i).number = s.passes ∧ 0 < s.passes := by
  obtain ⟨hholder, hpassing⟩ : s.linksHolder = some i ∧ s.passing = true := by simpa [view] using hpre
  obtain ⟨j, hj, hnumber, hpos⟩ := h.passing hpassing
  obtain rfl : i = j := Option.some.inj (hholder.symm.trans hj)
  exact ⟨hholder, hpassing, hnumber, hpos⟩

theorem got_deliver {link number l : ℕ} {data : Bytes} :
    (s.deliver i link data).got number l =
      if l = link ∧ (s.pass i).number = number then s.got number l ++ [data] else s.got number l := by
  unfold Hub.got Hub.deliver
  by_cases hl : l = link
  · subst hl
    by_cases hnumber : (s.pass i).number = number <;> simp [hnumber]
  · simp [hl]

theorem deliver_stepped (h : s.Inv) {link : ℕ} {source : Source}
    (hpre : pre (view s i) (.send link source)) :
    Stepped i s (s.deliver i link (s.text source)) (.send link source) (0 : ℤ) := by
  obtain ⟨hpassing, hgot, hread⟩ := hpre
  obtain ⟨-, hs, hnumber, hpos⟩ := passing_number h hpassing
  have hold {e : ℕ × Bytes} (he : e ∈ s.received link) : e.1 < (s.pass i).number :=
    Nat.lt_of_le_of_ne (hnumber ▸ (h.received_le link e he).2) (ne_of_got_nil hgot e he)
  have hkept {number : ℕ} (hne : (s.pass i).number ≠ number) :
      (s.deliver i link (s.text source)).got number = s.got number := by
    funext l
    rw [got_deliver, if_neg fun hd => hne hd.2]
  refine ⟨{ h with
      sorted := fun l => ?_
      received_le := fun l e he => ?_
      records := fun e he => ?_ }, ?_, fun j hj => ?_⟩
  · by_cases hl : l = link
    · subst hl
      simp only [Hub.deliver, Function.update_self, List.map_append, List.map_cons, List.map_nil]
      refine List.pairwise_append.2 ⟨h.sorted l, List.pairwise_singleton .., ?_⟩
      intro a ha b hb
      obtain ⟨e, he, rfl⟩ := List.mem_map.1 ha
      obtain rfl := List.mem_singleton.1 hb
      exact hold he
    · simpa [Hub.deliver, hl] using h.sorted l
  · by_cases hl : l = link
    · subst hl
      have hcases : e ∈ s.received l ∨ e = ((s.pass i).number, s.text source) := by
        simpa [Hub.deliver] using he
      rcases hcases with he' | rfl
      · exact h.received_le l e he'
      · exact ⟨hnumber ▸ hpos, h.number_le i⟩
    · exact h.received_le l e (by simpa [Hub.deliver, hl] using he)
  · have hne : (s.pass i).number ≠ e.pass.number := fun hsame =>
      absurd (h.record_lt hs e he) (by rw [← hnumber, hsame]; exact Nat.lt_irrefl _)
    rw [hkept hne]
    exact h.records e he
  · have htext : (view s i).text source = s.text source := by
      cases source with
      | given data => rfl
      | membuf b =>
        obtain ⟨hmem, hholder⟩ := memHolder_of_locked hread
        simp [View.text, view, contentOf_some hmem hholder, Hub.text]
    have hnow : (s.deliver i link (s.text source)).got (s.pass i).number =
        Function.update (s.got (s.pass i).number) link
          (s.got (s.pass i).number link ++ [s.text source]) := by
      funext l
      rw [got_deliver]
      by_cases hl : l = link
      · subst hl
        simp
      · simp [hl]
    simp only [loc, if_true, htext]
    change view (s.deliver i link (s.text source)) i = _
    simp only [view, View.mk.injEq]
    exact ⟨rfl, rfl, rfl, rfl, rfl, hnow⟩
  · refine view_congr rfl rfl Iff.rfl (fun _ => rfl) rfl (hkept fun hsame => ?_)
    have hzero := h.distinct i j (Ne.symm hj) hsame
    omega

theorem setPass_inv (h : s.Inv) {p : Pass} (hnumber : p.number = (s.pass i).number)
    (hreturned : (s.pass i).returned = true → p.returned = true) : (s.setPass i p).Inv := by
  have hsame (j : ℕ) : ((s.setPass i p).pass j).number = (s.pass j).number := by
    by_cases hj : j = i
    · subst hj
      simpa [Hub.setPass] using hnumber
    · simp [Hub.setPass, hj]
  refine { h with
    passing := fun hp => ?_
    number_le := fun j => (hsame j).symm ▸ h.number_le j
    distinct := fun j k hjk hn => ?_
    record_over := fun e he j hj => ?_ }
  · obtain ⟨j, hj, hn, hpos⟩ := h.passing hp
    exact ⟨j, hj, (hsame j).trans hn, hpos⟩
  · rw [hsame] at hn ⊢
    rw [hsame] at hn
    exact h.distinct j k hjk hn
  · rw [hsame] at hj
    have hover := h.record_over e he j hj
    by_cases hji : j = i
    · subst hji
      simpa [Hub.setPass] using hreturned hover
    · simpa [Hub.setPass, hji] using hover

theorem fail_stepped (h : s.Inv) {link : ℕ} {source : Source} {r : ℤ} (hr : r ≠ 0) :
    Stepped i s (s.fail i link) (.send link source) r := by
  have hself : (s.fail i link).pass i = { s.pass i with failed := (s.pass i).failed ++ [link] } :=
    Function.update_self ..
  refine ⟨setPass_inv h rfl id, ?_, fun j hj => ?_⟩
  · simp only [loc, if_neg hr, view, hself]
    rfl
  · exact view_congr rfl rfl Iff.rfl (fun _ => rfl) (Function.update_of_ne hj ..) rfl

theorem returned_stepped (h : s.Inv) {call : Call} {err : ℤ}
    (hpre : pre (view s i) (.returned call err)) :
    Stepped i s (s.record i call err) (.returned call err) () := by
  obtain ⟨hholds, hpos, hreturned, hsent⟩ := hpre
  have hself : (s.record i call err).pass i = { s.pass i with returned := true } :=
    Function.update_self ..
  have hset := setPass_inv (i := i) (p := { s.pass i with returned := true }) h rfl fun _ => rfl
  have hlt : s.passing = true → (s.pass i).number < s.passes := by
    intro hs
    obtain ⟨j, hj, hn, hpos'⟩ := h.passing hs
    refine Nat.lt_of_le_of_ne (h.number_le i) fun hsame => ?_
    have hne : i ≠ j := by
      rintro rfl
      simp [view, hj] at hholds
    have hzero := h.distinct i j hne (hsame.trans hn.symm)
    omega
  have hfresh : ∀ e ∈ s.returned, e.pass.number ≠ (s.pass i).number := by
    intro e he hsame
    have hover := h.record_over e he i hsame.symm
    have hnot : (s.pass i).returned = false := hreturned
    simp [hnot] at hover
  have hmem {e : Record} (he : e ∈ (s.record i call err).returned) :
      e ∈ s.returned ∨ e = ⟨call, s.pass i, err⟩ := by
    simpa [Hub.record] using he
  refine ⟨{ hset with
      records := fun e he => ?_
      record_le := fun e he => ?_
      record_lt := fun hs e he => ?_
      record_over := fun e he j hj => ?_
      records_nodup := ?_ }, ?_, fun j hj => ?_⟩
  · rcases hmem he with he | rfl
    · exact h.records e he
    · exact hsent
  · rcases hmem he with he | rfl
    · exact h.record_le e he
    · exact ⟨hpos, h.number_le i⟩
  · rcases hmem he with he | rfl
    · exact h.record_lt hs e he
    · exact hlt hs
  · rcases hmem he with he | rfl
    · exact hset.record_over e he j hj
    · by_cases hji : j = i
      · subst hji
        exact congrArg Pass.returned hself
      · have hother : (s.record i call err).pass j = s.pass j := Function.update_of_ne hji ..
        rw [hother] at hj
        have hzero : (s.pass j).number = 0 := h.distinct j i hji hj
        have hpos' : 0 < (s.pass i).number := hpos
        have hsame : (s.pass j).number = (s.pass i).number := hj
        omega
  · simp only [Hub.record, List.map_append, List.map_cons, List.map_nil]
    refine List.nodup_append.2 ⟨h.records_nodup, by simp, ?_⟩
    intro a ha b hb hab
    obtain ⟨e, he, rfl⟩ := List.mem_map.1 ha
    obtain rfl := List.mem_singleton.1 hb
    exact hfresh e he hab
  · simp only [loc, view, hself]
    rfl
  · exact view_congr rfl rfl Iff.rfl (fun _ => rfl) (Function.update_of_ne hj ..) rfl

theorem does_step {a : Act} {r : a.Answer} (h : s.Inv) (hpre : pre (view s i) a)
    (hdoes : Hub.Does i s a r t) (htime : InTime s a) : Stepped i s t a r := by
  cases a with
  | readMem =>
    obtain ⟨rfl, rfl⟩ := hdoes
    exact readMem_stepped h
  | newMembuf =>
    obtain ⟨rfl, rfl⟩ := hdoes
    exact ⟨{ h with }, rfl, fun _ _ => rfl⟩
  | writeMem b =>
    obtain rfl := hdoes
    exact writeMem_stepped h (htime b rfl)
  | lockMem b =>
    obtain ⟨hfree, rfl⟩ := hdoes
    exact lockMem_stepped h hpre hfree
  | unlockMem b =>
    obtain rfl := hdoes
    exact unlockMem_stepped h hpre
  | clear b =>
    obtain rfl := hdoes
    exact write_stepped h hpre rfl
  | append b piece =>
    obtain rfl := hdoes
    refine write_stepped h hpre ?_
    obtain ⟨hmem, hholder⟩ := memHolder_of_locked hpre
    simp [loc, view, contentOf_some hmem hholder]
  | lockLinks =>
    obtain ⟨hfree, rfl⟩ := hdoes
    exact lockLinks_stepped h hfree
  | unlockLinks =>
    obtain rfl := hdoes
    exact unlockLinks_stepped h hpre
  | readLinks =>
    obtain ⟨rfl, rfl⟩ := hdoes
    exact readLinks_stepped h hpre
  | send link source =>
    obtain rfl := hdoes
    by_cases hr : (r : ℤ) = 0
    · rw [if_pos hr]
      obtain rfl : r = (0 : ℤ) := hr
      exact deliver_stepped h hpre
    · rw [if_neg hr]
      exact fail_stepped h hr
  | returned call err =>
    obtain rfl := hdoes
    exact returned_stepped h hpre
  | addLink =>
    obtain rfl := hdoes
    refine links_stepped h ?_ ?_ rfl
    · refine List.nodup_append.2 ⟨h.links_nodup, by simp, ?_⟩
      rintro l hl l' hl' rfl
      exact absurd (h.links_made l hl) (by simp [List.mem_singleton.1 hl'])
    · intro l hl
      rcases List.mem_append.1 hl with hl | hl
      · exact Nat.lt_succ_of_lt (h.links_made l hl)
      · exact List.mem_singleton.1 hl ▸ Nat.lt_succ_self _
  | removeLink link =>
    obtain rfl := hdoes
    exact links_stepped h (h.links_nodup.erase link)
      (fun l hl => h.links_made l (List.mem_of_mem_erase hl)) rfl

end Steps

/-! ## Runs -/

/-- The link was in the list when the call went through it, the call did not leave it out, and nothing
failed. -/
def Record.Reached (e : Record) (link : ℕ) : Prop :=
  link ∈ e.pass.listed ∧ some link ≠ e.call.exclude ∧ link ∉ e.pass.failed

theorem pair_sublist_iff {l : List ℕ} (hl : l.Pairwise (· < ·)) {a b : ℕ} (ha : a ∈ l) (hb : b ∈ l) :
    [a, b].Sublist l ↔ a < b := by
  constructor
  · intro h
    have hpair := hl.sublist h
    simpa using hpair
  · intro hab
    induction l with
    | nil => exact absurd ha List.not_mem_nil
    | cons c l ih =>
      obtain ⟨hc, hl⟩ := List.pairwise_cons.1 hl
      rcases List.mem_cons.1 ha with rfl | ha
      · have hb' : b ∈ l := (List.mem_cons.1 hb).resolve_left (Nat.ne_of_gt hab)
        exact (List.singleton_sublist.2 hb').cons_cons a
      · have hb' : b ∈ l := (List.mem_cons.1 hb).resolve_left fun h =>
          absurd (hc a ha) (by omega)
        exact (ih hl ha hb').cons c

theorem Record.Holds.got {e : Record} {got : ℕ → List Bytes} (h : e.Holds got) {link : ℕ} :
    (e.Reached link → got link = [e.call.data]) ∧ (¬e.Reached link → got link = []) :=
  ⟨fun hr => (Sent.got h link).trans (if_pos hr), fun hr => (Sent.got h link).trans (if_neg hr)⟩

theorem Record.Holds.err {e : Record} {got : ℕ → List Bytes} (h : e.Holds got) :
    e.err ≠ 0 ↔ ∃ l ∈ e.pass.listed, some l ≠ e.call.exclude ∧ l ∈ e.pass.failed := by
  rw [Sent.err h]
  constructor
  · intro hne
    obtain ⟨l, hl⟩ := List.exists_mem_of_ne_nil _ hne
    exact ⟨l, (h.mem_done l hl).1, (h.mem_done l hl).2, hl⟩
  · rintro ⟨l, -, -, hl⟩
    exact List.ne_nil_of_mem hl

theorem Hub.Inv.mem_received {s : Hub} (h : s.Inv) {e : Record} (he : e ∈ s.returned) {link : ℕ}
    (hr : e.Reached link) : e.pass.number ∈ (s.received link).map Prod.fst := by
  by_contra hnot
  have hgot := (h.records e he).got.1 hr
  have hnil : s.got e.pass.number link = [] := got_nil fun e' he' hsame =>
    hnot (hsame ▸ List.mem_map_of_mem he')
  rw [hnil] at hgot
  cases hgot

/-- As long as no call makes a new buffer when `hub->mem` is set already: each call that is over has sent
its text once to every link that was listed, was not left out and did not fail, whatever the others
did, and to no other; it returned an error if and only if one of them failed; and two calls
reached the links in the same order. -/
theorem broadcasts_in_order {jobs : List (List Job)} {ms : List (Move Process (ℕ × Event Act.Answer))}
    {d : Process} (hrun : Run (ThreadStep Hub.Does) (newProcess jobs) ms d)
    (htime : ∀ m ∈ ms, InTime m.src.1 m.act.2.1) :
    (d.1.returned.map fun e => e.pass.number).Nodup ∧
    (∀ e ∈ d.1.returned,
      (∀ l, (e.Reached l → d.1.got e.pass.number l = [e.call.data]) ∧
        (¬e.Reached l → d.1.got e.pass.number l = [])) ∧
      (e.err ≠ 0 ↔ ∃ l ∈ e.pass.listed, some l ≠ e.call.exclude ∧ l ∈ e.pass.failed)) ∧
    ∀ e ∈ d.1.returned, ∀ f ∈ d.1.returned, ∀ l k,
      e.Reached l → f.Reached l → e.Reached k → f.Reached k →
        ([e.pass.number, f.pass.number].Sublist ((d.1.received l).map Prod.fst) ↔
          [e.pass.number, f.pass.number].Sublist ((d.1.received k).map Prod.fst)) := by
  have hconform : Conform view loc pre (newProcess jobs) := by
    intro i p hp
    rw [newProcess, List.getElem?_map] at hp
    obtain ⟨job, -, rfl⟩ := Option.map_eq_some_iff.1 hp
    exact wp_runAll job
  have hstep (i : ℕ) (s : Hub) (a : Act) (r : a.Answer) (t : Hub) (hs : s.Inv)
      (hpre : pre (view s i) a) (hdoes : Hub.Does i s a r t) (htime : InTime s a) :
      t.Inv ∧ loc (view s i) a r (view t i) ∧ ∀ j, j ≠ i → view t j = view s j :=
    have hstepped := does_step hs hpre hdoes htime
    ⟨hstepped.inv, hstepped.loc, hstepped.others⟩
  obtain ⟨hinv, -⟩ := threads_run (G := fun _ s a _ _ => InTime s a) hstep hrun htime
    newMessagehub_inv hconform
  refine ⟨hinv.records_nodup, fun e he => ?_, fun e he f hf l k hel hfl hek hfk => ?_⟩
  · exact ⟨fun l => (hinv.records e he).got, (hinv.records e he).err⟩
  · rw [pair_sublist_iff (hinv.sorted l) (hinv.mem_received he hel) (hinv.mem_received hf hfl),
      pair_sublist_iff (hinv.sorted k) (hinv.mem_received he hek) (hinv.mem_received hf hfk)]

/-- One way in which the actions are answered: no link fails. -/
def answers (i : ℕ) (s : Hub) : (a : Act) → Option (a.Answer × Hub)
  | .readMem => some (s.mem, s.see i)
  | .newMembuf => some (s.allocated, { s with allocated := s.allocated + 1 })
  | .writeMem b => some ((), { s with mem := some b, seen := Function.update s.seen i true })
  | .lockMem b =>
    if s.memHolder b = none then
      some ((), { s with memHolder := Function.update s.memHolder b (some i) })
    else none
  | .unlockMem b => some ((), { s with memHolder := Function.update s.memHolder b none })
  | .clear b => some ((), { s with content := Function.update s.content b [] })
  | .append b piece =>
    some ((), { s with content := Function.update s.content b (s.content b ++ piece) })
  | .lockLinks =>
    if s.linksHolder = none then some ((), { s with linksHolder := some i }) else none
  | .unlockLinks => some ((), { s with linksHolder := none, passing := false })
  | .readLinks => some (s.links, s.startPass i)
  | .send link source => some (0, s.deliver i link (s.text source))
  | .returned call err => some ((), s.record i call err)
  | .addLink => some ((), { s with links := s.links ++ [s.made], made := s.made + 1 })
  | .removeLink link => some ((), { s with links := s.links.erase link })

theorem does_answers {i : ℕ} {s t : Hub} {a : Act} {r : a.Answer}
    (h : answers i s a = some (r, t)) : Hub.Does i s a r t := by
  cases a with
  | lockMem | lockLinks =>
    simp only [answers, Option.ite_none_right_eq_some, Option.some.injEq, Prod.mk.injEq] at h
    exact ⟨h.1, h.2.2.symm⟩
  | readMem | newMembuf | readLinks =>
    cases h
    exact ⟨rfl, rfl⟩
  | _ =>
    cases h
    exact rfl

def timelyAnswers (i : ℕ) (s : Hub) : (a : Act) → Option (a.Answer × Hub)
  | .writeMem b => if s.mem = none then answers i s (.writeMem b) else none
  | a => answers i s a

theorem does_timelyAnswers {i : ℕ} {s t : Hub} {a : Act} {r : a.Answer}
    (h : timelyAnswers i s a = some (r, t)) : Hub.Does i s a r t ∧ InTime s a := by
  cases a with
  | writeMem b =>
    obtain ⟨hmem, hdoes⟩ := Option.ite_none_right_eq_some.1 h
    exact ⟨does_answers hdoes, fun _ _ => hmem⟩
  | _ => exact ⟨does_answers h, fun _ hsame => nomatch hsame⟩

def twoBroadcasts : Process :=
  newProcess [[.add, .broadcast (.print none [ascii "1"])], [.broadcast (.print none [ascii "2"])]]

theorem one_after_the_other : ∃ ms d, Run (ThreadStep Hub.Does) twoBroadcasts ms d ∧
    d.1.received 0 = [(1, ascii "1"), (2, ascii "2")] ∧
      (d.1.returned.map fun e => e.pass.number) = [1, 2] ∧
      (d.1.returned.map fun e => e.pass.number).Nodup := by
  obtain ⟨ms, hrun, htime⟩ := run_play_guarded timelyAnswers (fun _ _ _ _ _ => does_timelyAnswers)
    (List.replicate 25 0 ++ List.replicate 25 1) twoBroadcasts
  exact ⟨ms, _, hrun, rfl, rfl, (broadcasts_in_order hrun htime).1⟩

/-- Both find that there is no buffer; the second makes its own when the first has locked its. -/
def bothMakeBuffer : List ℕ :=
  [0, 0, 0, 0, 0] ++ [1, 1] ++ [0, 0, 0] ++ [1] ++ [0, 0, 0, 0] ++ [1, 1, 1, 1, 1, 1] ++
    List.replicate 9 0 ++ List.replicate 9 1

theorem first_broadcast_lost : ∃ ms d, Run (ThreadStep Hub.Does) twoBroadcasts ms d ∧
    d.1.received 0 = [(1, ascii "2"), (2, ascii "2")] ∧
      (d.1.returned.map fun e => (e.call.data, e.pass.listed, e.err)) =
        [(ascii "1", [0], 0), (ascii "2", [0], 0)] := by
  obtain ⟨ms, hrun⟩ := run_play answers (fun _ _ _ _ _ => does_answers) bothMakeBuffer twoBroadcasts
  exact ⟨ms, _, hrun, rfl, rfl⟩

end Rcom.Broadcasts
