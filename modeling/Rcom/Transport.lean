import Rcom.Lib.Delivery
import Rcom.Lib.Merge
import Rcom.ReadLoop
import Rcom.Senders

/-!
# From the senders to the reader (messagelink.c)

Any number of threads send on one end of a connection and keep what their calls return; the read
loop of the other end takes what comes out of the connection, in any pieces.
-/

namespace Rcom.Messagelink
open Rcom.Lib Rcom.Lib.Program Rcom.Lib.Trace Rcom.Lib.Rfc6455 Rcom.Lib.Merge
open Rcom.ClientLink (LinkState)

variable {J : Type} {isClient : Bool}

def sendReporting (isClient : Bool) : List SendCall → Program J (List ℤ)
  | [] => .ret []
  | c :: cs => do
    let err ← c.send isClient
    let errs ← sendReporting isClient cs
    return err :: errs

def succeeded (calls : List SendCall) (errs : List ℤ) : List SendCall :=
  ((calls.zip errs).filter fun c => c.2 = 0).map Prod.fst

theorem succeeded_append {cs cs' : List SendCall} {errs errs' : List ℤ} (h : cs.length = errs.length) :
    succeeded (cs ++ cs') (errs ++ errs') = succeeded cs errs ++ succeeded cs' errs' := by
  rw [succeeded, List.zip_append h, List.filter_append, List.map_append]
  rfl

theorem succeeded_sublist (cs : List SendCall) (errs : List ℤ) : (succeeded cs errs).Sublist cs := by
  induction cs generalizing errs with
  | nil => exact List.nil_sublist _
  | cons c cs ih =>
    cases errs with
    | nil => exact List.nil_sublist _
    | cons err errs =>
      by_cases herr : err = 0
      · simpa [succeeded, herr] using (ih errs).cons_cons c
      · simpa [succeeded, herr] using (ih errs).cons c

/-! ## What a call returns -/

section Calls
variable {calls : ℕ → List SendCall} {v : Sender} {part frame : Bytes}

/-- A call that returns 0 has sent its frame, and one that returns an error has sent none. -/
inductive Reported (isClient : Bool) (opcode : ℕ) (data : Bytes) (v : Sender) : ℤ → Sender → Prop
  | none {err : ℤ} (herr : err ≠ 0) : Reported isClient opcode data v err v
  | frame (mask : Mask) : Reported isClient opcode data v 0
      { v with frames := v.frames ++ [frameMake opcode isClient mask data] }

theorem frameMake_ne_nil (opcode : ℕ) (mask : Mask) (data : Bytes) :
    frameMake opcode isClient mask data ≠ [] := by
  simp [frameMake, frameMakeHeader]

theorem reported_unlock {Q : ℤ → Sender → Prop} {opcode : ℕ} {data : Bytes} {mask : Mask} {err : ℤ}
    {k : ℤ → Program J ℤ} (hfree : v.part = none)
    (hframe : FramesOf isClient (calls v.id) (v.frames ++ [frameMake opcode isClient mask data]))
    (hpart : part = [] ∧ err ≠ 0 ∨ part = frameMake opcode isClient mask data ∧ err = 0)
    (h : ∀ w, Reported isClient opcode data v err w → Sending isClient calls Q (k err) w) :
    Sending isClient calls Q (.act (.unlock .sendMutex) fun _ => k err)
      { v with part := some part } := by
  refine ⟨⟨part, rfl, fun hne => ?_⟩, fun _ w hw => ?_⟩
  · rcases hpart with ⟨hnone, -⟩ | ⟨hall, -⟩
    · exact absurd hnone hne
    · rw [hall]
      exact hframe
  · obtain rfl := hw
    apply h
    rcases hpart with ⟨rfl, herr⟩ | ⟨rfl, rfl⟩
    · have hsame : Sender.settle { v with part := some [] } = v := by
        simp [Sender.settle, ← hfree]
      rw [hsame]
      exact .none herr
    · have hsame : Sender.settle { v with part := some (frameMake opcode isClient mask data) } =
          { v with frames := v.frames ++ [frameMake opcode isClient mask data] } := by
        simp [Sender.settle, hfree, frameMake_ne_nil]
      rw [hsame]
      exact .frame mask

theorem reported_sendFrame {Q : ℤ → Sender → Prop} {opcode : ℕ} {data : Bytes}
    (hout : v.out = none) (hfree : v.part = none)
    (hframe : ∀ mask,
      FramesOf isClient (calls v.id) (v.frames ++ [frameMake opcode isClient mask data]))
    (h : ∀ err w, Reported isClient opcode data v err w → Q err w) :
    Sending (J := J) isClient calls Q (sendFrame isClient opcode data) v := by
  have hunlock : ∀ mask part err,
      part = [] ∧ err ≠ 0 ∨ part = frameMake opcode isClient mask data ∧ err = 0 →
      Sending isClient calls Q
        (.act (.unlock (J := J) .sendMutex) fun _ => .act (.unlock .out) fun _ => .ret err)
        { v with out := some (frameMake opcode isClient mask data), part := some part } := by
    intro mask part err hpart
    have hsent := @reported_unlock J isClient calls
      { v with out := some (frameMake opcode isClient mask data) } part Q opcode data mask err
      (fun err => .act (.unlock .out) fun _ => .ret err) hfree (hframe mask) hpart
    apply hsent
    intro w hw
    have hheld : w.out ≠ none := by cases hw <;> simp
    refine ⟨hheld, fun _ w' hw' => ?_⟩
    obtain rfl := hw'
    apply h
    have hsame : { v with out := none } = v := by rw [← hout]
    cases hw with
    | none herr => exact hsame ▸ .none herr
    | frame mask' => exact hsame ▸ .frame mask'
  simp only [Sending, sendFrame, doing, perform_bind]
  refine ⟨trivial, fun _ w hw => ?_⟩
  obtain ⟨out, rfl⟩ := hw
  refine ⟨Option.some_ne_none out, fun _ w hw => ?_⟩
  obtain rfl : w = { v with out := some [] } := hw
  apply wp_bind.2
  apply sending_makeMask
  intro mask
  refine ⟨Option.some_ne_none [], fun _ w hw => ?_⟩
  obtain rfl : w = { v with out := some (frameMake opcode isClient mask data) } := hw
  refine ⟨trivial, fun _ w hw => ?_⟩
  obtain rfl : w = { v with
    out := some (frameMake opcode isClient mask data), part := some [] } := hw
  refine ⟨trivial, fun socket w hw => ?_⟩
  obtain ⟨-, rfl⟩ := hw
  refine ⟨Option.some_ne_none _, fun out w hw => ?_⟩
  obtain ⟨hown, rfl⟩ := hw
  obtain rfl : frameMake opcode isClient mask data = out := Option.some.inj hown
  apply wp_bind.2
  cases socket with
  | none => exact hunlock mask _ _ (.inl ⟨rfl, by decide⟩)
  | some fd =>
    have hall : [] ++ frameMake opcode isClient mask data <+: frameMake opcode isClient mask data :=
      List.prefix_rfl
    rw [tcpSocketSend]
    refine sending_sendLoop rfl ?_ hall ?_ ?_ fd opcode
    · exact hframe mask
    · exact hunlock mask _ _ (.inr ⟨rfl, rfl⟩)
    · exact hunlock mask _ _ (.inl ⟨rfl, by decide⟩)

theorem reported_sendText {Q : ℤ → Sender → Prop} {data : Bytes} (hfree : v.part = none)
    (hframe : ∀ mask, FramesOf isClient (calls v.id) (v.frames ++ [frameMake 1 isClient mask data]))
    (h : ∀ err w, Reported isClient 1 data v err w → Q err w) :
    Sending (J := J) isClient calls Q (messagelinkSendText isClient data) v := by
  simp only [Sending, messagelinkSendText, doing, perform_bind]
  refine ⟨trivial, fun socket w hw => ?_⟩
  obtain ⟨hsocket, rfl⟩ := hw
  dsimp only
  split_ifs with hinvalid
  · exact h _ _ (.none (by decide))
  obtain ⟨fd, rfl⟩ := Option.ne_none_iff_exists'.1 hinvalid
  refine ⟨trivial, fun state w hw => ?_⟩
  obtain rfl := hw
  dsimp only
  split_ifs with hclosed
  · exact h _ _ (.none (by decide))
  apply wp_bind.2
  apply sending_makeMask
  intro mask
  refine ⟨trivial, fun _ w' hw => ?_⟩
  obtain rfl : w' = { w with part := some [] } := hw
  refine ⟨trivial, fun socket' w' hw => ?_⟩
  obtain ⟨hw, rfl⟩ := hw
  obtain rfl : socket' = some fd := hw.trans hsocket.symm
  have hunlock : ∀ part err, part = [] ∧ err ≠ 0 ∨ part = frameMake 1 isClient mask data ∧ err = 0 →
      Sending isClient calls Q (.act (.unlock (J := J) .sendMutex) fun _ => .ret err)
        { w with part := some part } := fun part err hpart =>
    reported_unlock hfree (hframe mask) hpart (h err)
  have hall : [] ++ frameMakeHeader 1 isClient mask data.length <+: frameMake 1 isClient mask data := by
    rw [frameMake_eq_body]
    exact List.prefix_append _ _
  apply wp_bind.2
  rw [tcpSocketSend]
  refine sending_sendLoop rfl ?_ hall ?_ ?_ fd 1
  · exact hframe mask
  · rw [if_neg (not_not.2 rfl)]
    apply wp_bind.2
    have hsocket' : w.socket = some fd := hsocket.symm
    have hbody : [] ++ frameMakeHeader 1 isClient mask data.length ++
        bodyFrom isClient mask maskStart data <+: frameMake 1 isClient mask data := by
      rw [List.nil_append, ← frameMake_eq_body]
    refine sending_sendBlocks (show _ = some fd from hsocket') rfl ?_ hbody ?_ ?_
    · exact hframe mask
    · rw [List.nil_append, ← frameMake_eq_body]
      exact hunlock _ _ (.inr ⟨rfl, rfl⟩)
    · exact hunlock _ _ (.inl ⟨rfl, by decide⟩)
  · rw [if_pos (by decide)]
    exact hunlock _ _ (.inl ⟨rfl, by decide⟩)

def Made (isClient : Bool) (made : List SendCall) (bs : List Bytes) : Prop :=
  List.Forall₂ (fun c b => IsFrame c.opcode isClient c.payload b) made bs

theorem Made.framesOf {made all : List SendCall} {bs : List Bytes} (h : Made isClient made bs)
    (hall : made.Sublist all) : FramesOf isClient all bs := ⟨made, hall, h⟩

theorem reported_call {Q : ℤ → Sender → Prop} {c : SendCall} (hout : v.out = none) (hfree : v.part = none)
    (hframe : ∀ mask, FramesOf isClient (calls v.id)
      (v.frames ++ [frameMake c.opcode isClient mask c.payload]))
    (h : ∀ err w, Reported isClient c.opcode c.payload v err w → Q err w) :
    Sending (J := J) isClient calls Q (c.send isClient) v := by
  cases c with
  | text data => exact reported_sendText hfree hframe h
  | ping data => exact reported_sendFrame hout hfree hframe h
  | pong payload => exact reported_sendFrame hout hfree hframe h
  | close code => exact reported_sendFrame hout hfree hframe h

/-- A thread that has returned from all its calls, with these results. -/
structure Returned (isClient : Bool) (calls : List SendCall) (errs : List ℤ) (v : Sender) : Prop where
  free : v.part = none
  length : calls.length = errs.length
  made : Made isClient (succeeded calls errs) v.frames

theorem reported_all {made cs : List SendCall} {before : List ℤ} (hcalls : calls v.id = made ++ cs)
    (hsized : ∀ c ∈ cs, c.Sized) (hout : v.out = none) (h : Returned isClient made before v) :
    Sending (J := J) isClient calls
      (fun errs w => Returned isClient (made ++ cs) (before ++ errs) w) (sendReporting isClient cs) v := by
  induction cs generalizing made before v with
  | nil =>
    show Returned isClient (made ++ []) (before ++ []) v
    rwa [List.append_nil, List.append_nil]
  | cons c cs ih =>
    simp only [List.mem_cons, forall_eq_or_imp] at hsized
    have hcalls' : calls v.id = (made ++ [c]) ++ cs := by
      rw [hcalls, List.append_assoc]
      rfl
    have hnext : ∀ mask, Made isClient (succeeded (made ++ [c]) (before ++ [0]))
        (v.frames ++ [frameMake c.opcode isClient mask c.payload]) := by
      intro mask
      rw [succeeded_append h.length]
      exact List.rel_append h.made (.cons (hsized.1.isFrame mask) .nil)
    have hgo : ∀ err w, Returned isClient (made ++ [c]) (before ++ [err]) w → calls w.id = (made ++ [c]) ++ cs →
        w.out = none → Sending (J := J) isClient calls
          (fun errs w => Returned isClient (made ++ c :: cs) (before ++ errs) w)
          (sendReporting isClient cs >>= fun errs => .ret (err :: errs)) w := by
      intro err w hw hwcalls hwout
      apply wp_bind.2
      refine wp_mono (ih hwcalls hsized.2 hwout hw) fun errs u hu => ?_
      rw [List.append_assoc, List.append_assoc] at hu
      exact hu
    apply wp_bind.2
    apply reported_call hout h.free
    · intro mask
      refine (hnext mask).framesOf (((succeeded_sublist _ _)).trans ?_)
      rw [hcalls']
      exact List.sublist_append_left _ _
    · intro err w hw
      cases hw with
      | none herr =>
        refine hgo err v ⟨h.free, by simp [h.length], ?_⟩ hcalls' hout
        rw [succeeded_append h.length]
        have hnone : succeeded [c] [err] = [] := by simp [succeeded, herr]
        rw [hnone, List.append_nil]
        exact h.made
      | frame mask =>
        exact hgo 0 _ ⟨h.free, by simp [h.length], hnext mask⟩ hcalls' hout

end Calls

/-! ## The wire when all threads have returned -/

/-- The threads that there are, and an orderly history in which only they hold `send_mutex`. -/
def OrderlyAmong (isClient : Bool) (calls : ℕ → List SendCall) (n : ℕ) (s : Channel) : Prop :=
  Orderly isClient calls s ∧ ∀ i, s.holder .sendMutex = some i → i < n

theorem orderlyAmong_step {calls : ℕ → List SendCall} {n i : ℕ} {s t : Channel} {a : Act J}
    {r : a.Answer} (hs : OrderlyAmong isClient calls n s) (howns : Owns isClient calls (s.sender i) a)
    (hdoes : s.Does i a r t) (hcut : StaysCut s a r) (hi : i < n) :
    OrderlyAmong isClient calls n t ∧ Sees (s.sender i) a r (t.sender i) ∧
      ∀ j, j ≠ i → t.sender j = s.sender j := by
  obtain ⟨horderly, hsees, hothers⟩ := sender_step hs.1 howns hdoes hcut
  refine ⟨⟨horderly, fun j hj => ?_⟩, hsees, hothers⟩
  by_cases hji : j = i
  · exact hji ▸ hi
  · have hpart : (t.sender j).part = some t.current := sender_part.2 ⟨hj, rfl⟩
    rw [hothers j hji] at hpart
    exact hs.2 j (sender_part.1 hpart).1

theorem Channel.Does.cut {i : ℕ} {s t : Channel} {a : Act J} {r : a.Answer} (h : s.Does i a r t)
    (ht : t.cut = none) : s.cut = none := by
  cases a with
  | lock l =>
    obtain ⟨-, rfl⟩ := h
    exact ht
  | unlock l =>
    obtain rfl := h
    cases l <;> exact ht
  | send fd opcode data =>
    change 0 < r ∧ r ≤ data.length ∧ _ ∧ _ ∨ r ≤ 0 ∧ _ at h
    rcases h with ⟨-, -, -, rfl⟩ | ⟨-, rfl⟩
    · exact ht
    · rw [Channel.fail] at ht
      dsimp only at ht
      split_ifs at ht
      exact ht
  | state | closeCode | out =>
    obtain ⟨-, rfl⟩ := h
    exact ht
  | socket =>
    obtain ⟨-, rfl⟩ := h
    rw [Channel.learn] at ht
    split_ifs at ht
    · exact ht
    · exact ht
  | setSocket socket =>
    obtain rfl := h
    rw [Channel.learn] at ht
    split_ifs at ht
    · exact ht
    · exact ht
  | _ =>
    obtain rfl := h
    exact ht

theorem uncut_run {α : Type} {c d : Threads Channel (Act.Answer (J := J)) α} {ms : List (Move _ _)}
    (hrun : Run (ThreadStep Channel.Does) c ms d) (hd : d.1.cut = none) :
    c.1.cut = none ∧ ∀ m ∈ ms, m.src.1.cut = none := by
  induction hrun with
  | nil c => exact ⟨hd, by simp⟩
  | cons hstep hrest ih =>
    obtain ⟨hnext, hms⟩ := ih hd
    obtain ⟨k, -, hdoes, -⟩ := hstep
    have hsrc := Channel.Does.cut hdoes hnext
    exact ⟨hsrc, by simpa using ⟨hsrc, hms⟩⟩

theorem threads_of_run {α : Type} {c d : Threads Channel (Act.Answer (J := J)) α} {ms : List (Move _ _)}
    (hrun : Run (ThreadStep Channel.Does) c ms d) :
    d.2.length = c.2.length ∧ ∀ m ∈ ms, m.act.1 < c.2.length := by
  induction hrun with
  | nil c => exact ⟨rfl, by simp⟩
  | cons hstep hrest ih =>
    obtain ⟨k, hk, -, hd⟩ := hstep
    have hlen := congrArg List.length hd
    rw [List.length_set] at hlen
    rw [hlen] at ih
    exact ⟨ih.1, by simpa using ⟨(List.getElem?_eq_some_iff.1 hk).1, ih.2⟩⟩

theorem staysCut_of_uncut {s : Channel} (hcut : s.cut = none) (a : Act J) (r : a.Answer) :
    StaysCut s a r := by
  cases a with
  | send fd opcode data => exact fun _ => hcut
  | _ => trivial

def Carries (isClient : Bool) (c : SendCall) (f : Frame) : Prop :=
  f.fin = true ∧ f.opcode = c.opcode ∧ f.key.isSome = isClient ∧ f.payload = c.payload

theorem exists_frames {order : List (ℕ × SendCall)} {frames : List (ℕ × Bytes)}
    (h : List.Forall₂ (fun o b => o.1 = b.1 ∧ IsFrame o.2.opcode isClient o.2.payload b.2) order frames) :
    ∃ fs, List.Forall₂ (fun o f => Carries isClient o.2 f) order fs ∧
      (frames.flatMap tagged).map Prod.snd = stream fs := by
  induction h with
  | nil => exact ⟨[], .nil, rfl⟩
  | @cons o b order frames hob hrest ih =>
    obtain ⟨fs, hfs, hstream⟩ := ih
    obtain ⟨-, f, hfin, hopcode, hkey, hpayload, hbytes⟩ := hob
    refine ⟨f :: fs, .cons ⟨hfin, hopcode, hkey, hpayload⟩ hfs, ?_⟩
    have htagged : (tagged b).map Prod.snd = b.2 := by
      rw [tagged, List.map_map]
      exact List.map_id _
    rw [List.flatMap_cons, List.map_append, hstream, stream_cons, hbytes, htagged]

/-- When all threads have returned and no frame was cut, what is on the wire is the frames of the
calls that returned 0, in one order for all threads. -/
theorem wire_of_returned {threads : List (List SendCall)} {fd : ℕ}
    (hsized : ∀ cs ∈ threads, ∀ c ∈ cs, c.Sized) {ms : List (Move _ _)}
    {d : Threads Channel (Act.Answer (J := J)) (List ℤ)}
    (hrun : Run (ThreadStep Channel.Does) (openChannel fd, threads.map (sendReporting isClient)) ms d)
    (hcut : d.1.cut = none) {errs : List (List ℤ)} (hdone : d.2 = errs.map .ret) :
    ∃ (order : List (ℕ × SendCall)) (fs : List Frame),
      (∀ i, byThread i order = succeeded (threads.getD i []) (errs.getD i [])) ∧
      List.Forall₂ (fun o f => Carries isClient o.2 f) order fs ∧
      (bytesOf d.1.wire).map Prod.snd = stream fs := by
  obtain ⟨hlen, hthreads⟩ := threads_of_run hrun
  have hn : errs.length = threads.length := by
    simpa [hdone] using hlen
  let calls := fun i => threads.getD i []
  have hcomplies : Complies Channel.sender Sees (Owns isClient calls)
      (fun i errs v => Returned isClient (calls i) errs v)
      (openChannel fd, threads.map (sendReporting (J := J) isClient)) := by
    intro i p hp
    rw [List.getElem?_map] at hp
    obtain ⟨cs, hcs, rfl⟩ := Option.map_eq_some_iff.1 hp
    have hi : calls i = [] ++ cs := by
      show threads.getD i [] = _
      rw [List.getD_eq_getElem?_getD, hcs]
      rfl
    have hstart : Returned isClient [] [] ((openChannel fd).sender i) := ⟨rfl, rfl, .nil⟩
    have hall := @reported_all J isClient calls ((openChannel fd).sender i) [] cs [] hi
      (hsized cs (List.mem_of_getElem? hcs)) rfl hstart
    rw [← hi] at hall
    exact hall
  have hstart : OrderlyAmong isClient calls threads.length (openChannel fd) :=
    ⟨orderly_openChannel fd calls, fun i hi => by simp [openChannel] at hi⟩
  have hends := complies_run (G := fun i s a r _ => StaysCut s a r ∧ i < threads.length)
    (fun i s a r t hs howns hdoes hG => orderlyAmong_step hs howns hdoes hG.1 hG.2) hrun
    (fun m hm => ⟨staysCut_of_uncut ((uncut_run hrun hcut).2 m hm) _ _, by simpa using hthreads m hm⟩)
    hstart hcomplies
  obtain ⟨⟨horderly, hamong⟩, hreturned⟩ := hends
  have hthread : ∀ i < threads.length, Returned isClient (calls i) (errs.getD i []) (d.1.sender i) := by
    intro i hi
    have hget : d.2[i]? = some (.ret (errs.getD i [])) := by
      rw [hdone, List.getElem?_map, List.getD_eq_getElem?_getD, List.getElem?_eq_getElem (by omega)]
      rfl
    exact hreturned i _ hget
  -- no thread is left in the middle of a frame
  have hfree : d.1.holder .sendMutex = none := by
    by_contra hheld
    obtain ⟨i, hi⟩ := Option.ne_none_iff_exists'.1 hheld
    have hpart : (d.1.sender i).part = some d.1.current := sender_part.2 ⟨hi, rfl⟩
    rw [(hthread i (hamong i hi)).free] at hpart
    exact absurd hpart (by simp)
  have hwire : bytesOf d.1.wire = d.1.frames.flatMap tagged := by
    rw [horderly.wire, hcut, hfree]
    simp
  have hmade : ∀ i, Made isClient (succeeded (calls i) (errs.getD i [])) (byThread i d.1.frames) := by
    intro i
    by_cases hi : i < threads.length
    · exact (hthread i hi).made
    · have hcalls : calls i = [] := by
        show threads.getD i [] = []
        rw [List.getD_eq_getElem?_getD, List.getElem?_eq_none (by omega)]
        rfl
      obtain ⟨made, hsub, hframes⟩ := horderly.whole i
      rw [hcalls] at hsub
      obtain rfl := List.sublist_nil.1 hsub
      rw [hcalls]
      exact hframes
  obtain ⟨order, horder, hrel⟩ := exists_order d.1.frames _ hmade
  obtain ⟨fs, hfs, hstream⟩ := exists_frames hrel
  exact ⟨order, fs, horder, hfs, by rw [hwire, hstream]⟩

/-! ## What the reader makes of it -/

def SendCall.Taken (c : SendCall) : Prop := c.payload.length ≤ 16777216 ∧ c.opcode ≠ 8

instance (c : SendCall) : Decidable c.Taken := inferInstanceAs (Decidable (_ ∧ _))

def SendCall.value (L : JsonLib J) : SendCall → Option J
  | .text data => parseText L data
  | _ => none

/-- The values of the texts up to the first call after which the reader stops. -/
def valuesOf (L : JsonLib J) (order : List (ℕ × SendCall)) : List J :=
  ((order.map Prod.snd).takeWhile fun c => c.Taken).filterMap (SendCall.value L)

theorem Carries.not_ends_iff {c : SendCall} {f : Frame} (h : Carries isClient c f) :
    ¬ Ends (!isClient) f ↔ c.Taken := by
  obtain ⟨-, hopcode, hkey, hpayload⟩ := h
  have hbare : ¬ Bare (!isClient) f := by
    rintro ⟨hserver, -, hnone⟩
    rw [hnone] at hkey
    cases isClient <;> simp_all
  have hops : c.opcode ∈ [8, 2, 0] ↔ c.opcode = 8 := by
    cases c <;> simp [SendCall.opcode]
  rw [Ends, SendCall.Taken, hpayload, hopcode, hops]
  simp only [hbare, false_or, not_or, not_lt, ne_eq]

theorem Carries.value {c : SendCall} {f : Frame} (h : Carries isClient c f) (L : JsonLib J) :
    (payloadsOf 1 [f]).filterMap (parseText L) = (SendCall.value L c).toList := by
  obtain ⟨-, hopcode, -, hpayload⟩ := h
  cases c with
  | text data =>
    have htext : payloadsOf 1 [f] = [data] := by
      rw [payloadsOf, List.filter_cons_of_pos (by rw [hopcode]; rfl)]
      exact congrArg (fun p => [p]) hpayload
    rw [htext, SendCall.value]
    cases hvalue : parseText L data <;> simp [hvalue]
  | ping data | pong data | close data =>
    have hnone : payloadsOf 1 [f] = [] := by
      rw [payloadsOf, List.filter_cons_of_neg (by simp [hopcode, SendCall.opcode])]
      rfl
    rw [hnone]
    rfl

theorem values_of_carries {order : List (ℕ × SendCall)} {fs : List Frame}
    (h : List.Forall₂ (fun o f => Carries isClient o.2 f) order fs) (L : JsonLib J) :
    (payloadsOf 1 (handled (!isClient) fs)).filterMap (parseText L) = valuesOf L order := by
  induction h with
  | nil => rfl
  | @cons o f order fs hof hrest ih =>
    rw [valuesOf] at ih ⊢
    rw [handled, List.takeWhile_cons, List.map_cons, List.takeWhile_cons]
    by_cases htaken : o.2.Taken
    · rw [if_pos (by simpa using hof.not_ends_iff.2 htaken), if_pos (by simpa using htaken)]
      have hcons : ∀ rest, payloadsOf 1 (f :: rest) = payloadsOf 1 [f] ++ payloadsOf 1 rest := by
        intro rest
        rw [payloadsOf, ← List.singleton_append, List.filter_append, List.map_append]
        rfl
      rw [hcons, List.filterMap_append, hof.value L, ← handled, ih, List.filterMap_cons]
      cases SendCall.value L o.2 <;> rfl
    · rw [if_neg (by simpa using fun hends => htaken (hof.not_ends_iff.1 hends)),
        if_neg (by simpa using htaken)]
      rfl

/-- An open link of this role that has these bytes to read, in any pieces, and then the end. -/
structure Session.Receives (s : Session J) (isClient : Bool) (bytes : Bytes) : Prop where
  state : s.state = .open
  socket : ∃ fd, s.socket = some fd
  mayQuit : s.mayQuit = false
  delivered : s.delivered = []
  role : s.reader.isClient = isClient
  pieces : ∀ a ∈ s.reader.socket, ∃ b bs, a = Arrival.bytes b bs
  arrived : s.reader.socket.arrived = bytes

/-- The loop hands out these values and nothing else, and comes to an end. -/
def LoopDelivers (L : JsonLib J) (isClient : Bool) (frames : ℕ) (s : Session J) (values : List J) : Prop :=
  ∀ n, frames + s.patience + 2 < n → ∀ (ms : List (Move _ _)) (d : Config (Session J) (Act.Answer (J := J)) Unit),
    Run (Steps Session.Does) (s, messagelinkLoop L isClient n) ms d →
      d.1.delivered <+: values ∧ (∃ ms' t, Run (Steps Session.Does) d ms' (t, .ret ())) ∧
        ∀ x, d.2 = .ret x → d.1.delivered = values

theorem loopDelivers_of_frames (L : JsonLib J) {isClient : Bool} {fs : List Frame} {s : Session J}
    (hs : s.Receives isClient (stream fs)) (hkeys : ∀ f ∈ fs, isClient = true → f.key = none)
    (hcontrol : ∀ f ∈ fs, f.Control → f.payload.length ≤ 125) :
    LoopDelivers L isClient fs.length s ((payloadsOf 1 (handled isClient fs)).filterMap (parseText L)) := by
  intro n hn ms d hrun
  have hstands : Stands isClient (some fs) s :=
    ⟨hs.state, hs.socket, hs.role, ⟨hs.pieces, hs.arrived⟩, hkeys⟩
  have hloop : Returns (fun _ t => LoopEnds L isClient fs s t) (messagelinkLoop L isClient n) s := by
    apply returns_loop hstands hs.mayQuit (by omega)
    · intro fs' hfs'
      obtain rfl := Option.some.inj hfs'
      exact hn
    · exact fun t ht => ht.loopEnds hs.mayQuit hcontrol
  have hd := wp_steps hrun hloop
  have hvalues : ∀ t, LoopEnds L isClient fs s t →
      t.delivered = (payloadsOf 1 (handled isClient fs)).filterMap (parseText L) := fun t ht => by
    rw [ht.delivered, hs.delivered, List.nil_append]
  obtain ⟨ms', x, t, hrest, hends, -⟩ := Returns.exists_run hd
  refine ⟨?_, ⟨ms', t, hrest⟩, fun x hx => ?_⟩
  · have hgrows := delivered_grows hrest
    rwa [hvalues t hends] at hgrows
  · rw [hx] at hd
    exact hvalues d.1 hd

/-- Payloads that the code frames right, short ones in control frames. -/
def SendCall.Proper (c : SendCall) : Prop := c.Sized ∧ (8 ≤ c.opcode.val → c.payload.length ≤ 125)

/-- Texts are neither lost nor doubled nor reordered on the way. When the threads have returned from
all their calls, and no `send` failed in the middle of a frame, there is one order of the calls that
returned 0, the same for each thread as its own, so that the read loop of the other end hands out the
values of the texts in that order, however the bytes come in. -/
theorem texts_arrive_in_order (L : JsonLib J) {threads : List (List SendCall)} {fd : ℕ}
    (hproper : ∀ cs ∈ threads, ∀ c ∈ cs, c.Proper) {ms : List (Move _ _)}
    {d : Threads Channel (Act.Answer (J := J)) (List ℤ)}
    (hrun : Run (ThreadStep Channel.Does) (openChannel fd, threads.map (sendReporting isClient)) ms d)
    (hcut : d.1.cut = none) {errs : List (List ℤ)} (hdone : d.2 = errs.map .ret) :
    ∃ order : List (ℕ × SendCall),
      (∀ i, byThread i order = succeeded (threads.getD i []) (errs.getD i [])) ∧
      ∀ s : Session J, s.Receives (!isClient) ((bytesOf d.1.wire).map Prod.snd) →
        LoopDelivers L (!isClient) order.length s (valuesOf L order) := by
  obtain ⟨order, fs, horder, hfs, hwire⟩ :=
    wire_of_returned (fun cs hcs c hc => (hproper cs hcs c hc).1) hrun hcut hdone
  refine ⟨order, horder, fun s hs => ?_⟩
  have hmem : ∀ o ∈ order, o.2.Proper := by
    intro o ho
    have hcall : o.2 ∈ threads.getD o.1 [] := by
      have hmade := mem_byThread ho
      rw [horder] at hmade
      exact (succeeded_sublist _ _).subset hmade
    rw [List.getD_eq_getElem?_getD] at hcall
    cases hthread : threads[o.1]? with
    | none => simp [hthread] at hcall
    | some cs =>
      rw [hthread] at hcall
      exact hproper cs (List.mem_of_getElem? hthread) o.2 hcall
  have hcarried : ∀ f ∈ fs, ∃ o ∈ order, Carries isClient o.2 f := fun f hf =>
    Delivery.forall₂_exists_left hfs hf
  rw [hwire] at hs
  rw [← values_of_carries hfs L, hfs.length_eq]
  apply loopDelivers_of_frames L hs
  · intro f hf hrole
    obtain ⟨o, -, -, -, hkey, -⟩ := hcarried f hf
    cases isClient with
    | false => simpa using hkey
    | true => exact absurd hrole (by decide)
  · intro f hf hcontrol
    obtain ⟨o, ho, -, hopcode, -, hpayload⟩ := hcarried f hf
    rw [hpayload]
    exact (hmem o ho).2 (by rw [← hopcode]; exact hcontrol)

theorem twoTexts_arrive :
    ∃ (ms : List (Move _ _)) (d : Threads Channel (Act.Answer (J := Json.Value)) (List ℤ)),
      Run (ThreadStep Channel.Does) (openChannel 3, twoTexts.map (sendReporting false)) ms d ∧
      d.2 = [[0, 0]].map .ret ∧ ∃ order,
        (∀ i, byThread i order = succeeded (twoTexts.getD i []) ([[0, 0]].getD i [])) ∧
        ∀ s : Session Json.Value, s.Receives true ((bytesOf d.1.wire).map Prod.snd) →
          LoopDelivers valueLib true order.length s (valuesOf valueLib order) := by
  let any (_ : Channel) (_ : Event (Act.Answer (J := Json.Value))) : Prop := True
  obtain ⟨ms, hrun, -⟩ := @run_answered Json.Value (fun _ => false) 0 (List ℤ) any (fun _ _ => trivial)
    (twoTexts.map (sendReporting false)) _ rfl (openChannel 3)
  have hproper : ∀ cs ∈ twoTexts, ∀ c ∈ cs, c.Proper := by
    simp [SendCall.Proper, SendCall.Sized, SendCall.payload, SendCall.opcode]
  have hall := @texts_arrive_in_order Json.Value false valueLib twoTexts 3 hproper ms _ hrun
  refine ⟨ms, _, hrun, ?_, hall ?_ ?_⟩ <;>
    simp [sendReporting, SendCall.send, messagelinkSendText, doing, follow, Channel.answer, Channel.next,
      openChannel, makeMask, tcpSocketSend, sendLoop_cons, sendBlocks_cons, frameMakeHeader,
      Channel.takes, Channel.put, Channel.hold, Channel.release, Channel.settle, Channel.learn]
end Rcom.Messagelink
