import Rcom.Lib.Chunked
import Rcom.MultipartRoundTrip
import Rcom.WholeParts

/-!
# From the senders to the callbacks of the other end (streamer.c, multipart_parser.c)

What the thread of a client reads from its buffer goes out as chunks, and the content of the chunks
is given to the multipart parser of the other end in buffers of any sizes. Its callbacks are called
for parts that were sent while the client was in the list.
-/

namespace Rcom.StreamTransport
open Lib Lib.Program Lib.Trace Lib.Chunked MultipartParser Streaming

variable {T : Type} {dt : DoubleText T}

/-! ## The parser calls back while it reads -/

section
variable {cb : Callbacks T} {s s' : Processing T} {m : Parser T} {err : ℤ}

theorem call_calls (callback : Option (List (Callback T) → ℤ)) (c : Callback T) (s : Processing T) :
    s.parser.calls <+: (call callback c s).parser.calls := by
  cases callback with
  | none => exact List.prefix_rfl
  | some f => exact List.prefix_append _ _

theorem appendHeader_calls (m : Parser T) (buf : Bytes) : (m.appendHeader dt buf).1.calls = m.calls := by
  induction buf generalizing m with
  | nil => rfl
  | cons c buf ih =>
    rw [Parser.appendHeader]
    split_ifs
    · unfold Parser.finishHeader
      split <;> rfl
    · exact ih (m.append c)

theorem step_calls (h : s.step dt cb = some s') : s.parser.calls <+: s'.parser.calls := by
  cases hstatus : s.parser.status with
  | readHeader =>
    rw [step_readHeader hstatus, Option.some_inj] at h
    rw [← h, appendHeader_calls]
  | headerComplete =>
    simp only [Processing.step, hstatus, Option.some_inj] at h
    rw [← h]
    exact call_calls _ _ s
  | readBody =>
    rw [step_readBody hstatus] at h
    obtain ⟨⟨m, buf⟩, happend, rfl⟩ := Option.map_eq_some_iff.1 h
    unfold Parser.appendPart at happend
    dsimp only at happend
    split_ifs at happend
    all_goals
      obtain ⟨rfl, -⟩ := Prod.mk.inj (Option.some_inj.1 happend)
      exact List.prefix_rfl
  | bodyComplete =>
    simp only [Processing.step, hstatus, Option.some_inj] at h
    rw [← h]
    exact call_calls _ _ s
  | error =>
    rw [step_error hstatus, Option.some_inj] at h
    rw [← h]

theorem ends_calls (h : Ends dt cb s err m) : s.parser.calls <+: m.calls := by
  obtain ⟨rounds, hrounds⟩ := h
  induction rounds generalizing s with
  | zero =>
    by_cases hbuf : s.buf = []
    · rw [processLoop_nil hbuf] at hrounds
      cases hrounds
      exact List.prefix_rfl
    · rw [processLoop.eq_def, if_neg hbuf] at hrounds
      cases hrounds
  | succ rounds ih =>
    by_cases hbuf : s.buf = []
    · rw [processLoop_nil hbuf] at hrounds
      cases hrounds
      exact List.prefix_rfl
    · obtain ⟨s', hstep, -⟩ := Ends.step ⟨_, hrounds⟩ hbuf
      rw [processLoop_succ hbuf, hstep] at hrounds
      exact (step_calls hstep).trans (ih hrounds)

end

theorem newMultipartParser_atStart (zero : T) (eoh : Window) : AtStart (newMultipartParser zero eoh) :=
  ⟨rfl, rfl, rfl⟩

theorem newMultipartParser_tidy (zero : T) (eoh : Window) : Tidy (newMultipartParser zero eoh) :=
  ⟨fun _ => rfl, fun h => by cases h⟩

/-- The last call for these parts waits for the first byte that follows. -/
theorem afterParts_calls (zero : T) (eoh : Window) (parts : List (Part T)) :
    (afterParts dt (newMultipartParser zero eoh) parts).calls = (partCalls dt 0 parts).dropLast := by
  by_cases hne : parts = []
  · rw [hne]
    rfl
  · obtain ⟨-, hnext⟩ := @nextPart_afterParts _ dt (newMultipartParser zero eoh) 0 rfl _ hne
    have hcalls : partCalls dt 0 parts = (afterParts dt (newMultipartParser zero eoh) parts).calls ++
        [_] := hnext.symm
    rw [hcalls, List.dropLast_concat]

theorem ends_parts_byte (hprint : ∀ t, MultipartParser.Text (dt.print t)) (zero : T) (eoh : Window)
    {parts : List (Part T)} (hparts : ∀ p ∈ parts, Sendable dt p) (c : UInt8) :
    ∃ m, Ends dt quiet ⟨newMultipartParser zero eoh, 0, parts.flatMap (Part.encoding dt) ++ [c]⟩ 0 m ∧
      m.calls = partCalls dt 0 parts := by
  have hends := ends_parts hprint (newMultipartParser_atStart zero eoh) hparts
  by_cases hne : parts = []
  · subst hne
    exact ends_byte rfl c
  · obtain ⟨hstatus, hnext⟩ := @nextPart_afterParts _ dt (newMultipartParser zero eoh) 0 rfl _ hne
    obtain ⟨m, hbyte, hcalls⟩ := @ends_byte _ dt
      (nextPart (afterParts dt (newMultipartParser zero eoh) parts)) rfl c
    exact ⟨m, hends.append (ends_nextPart hstatus (List.cons_ne_nil c []) hbyte), hcalls.trans hnext⟩

theorem ends_split {m m' : Parser T} (htidy : Tidy m) {a b : Bytes}
    (h : Ends dt quiet ⟨m, 0, a ++ b⟩ 0 m') :
    ∃ m₁, Ends dt quiet ⟨m, 0, a⟩ 0 m₁ ∧ Ends dt quiet ⟨m₁, 0, b⟩ 0 m' := by
  have hfeeds := @feeds_of_ends _ dt m m' htidy [a, b] (by simpa using h)
  cases hfeeds with
  | @cons _ m₁ _ _ _ ha hb =>
    cases hb with
    | cons hb hend =>
      cases hend
      exact ⟨m₁, ha, hb⟩

/-- The parser has read the first bytes of the parts: the calls are the first of those for all of
them, and each part of which all bytes and one more are read has been called back for. -/
theorem feeds_front (hprint : ∀ t, MultipartParser.Text (dt.print t)) (zero : T) (eoh : Window)
    {parts : List (Part T)} (hparts : ∀ p ∈ parts, Sendable dt p) {bufs : List Bytes} {rest : Bytes}
    (hbufs : bufs.flatten ++ rest = parts.flatMap (Part.encoding dt)) :
    ∃ m, Feeds dt quiet (newMultipartParser zero eoh) bufs m ∧
      m.calls <+: (partCalls dt 0 parts).dropLast ∧
      (∀ n, ((parts.take n).flatMap (Part.encoding dt)).length < bufs.flatten.length →
        partCalls dt 0 (parts.take n) <+: m.calls) ∧
      (rest = [] → m.calls = (partCalls dt 0 parts).dropLast) := by
  have htidy := newMultipartParser_tidy zero eoh
  have hall := ends_parts hprint (newMultipartParser_atStart zero eoh) hparts
  rw [← hbufs] at hall
  obtain ⟨m, hfront, hrest⟩ := ends_split htidy hall
  refine ⟨m, feeds_of_ends htidy hfront, ?_, fun n hn => ?_, fun hnil => ?_⟩
  · rw [← afterParts_calls zero eoh]
    exact ends_calls hrest
  · -- these parts and one byte more are a front of what was read
    have hparted : (parts.take n).flatMap (Part.encoding dt) ++
        (parts.drop n).flatMap (Part.encoding dt) = bufs.flatten ++ rest := by
      rw [← List.flatMap_append, List.take_append_drop, hbufs]
    obtain ⟨tail, htail⟩ :=
      List.prefix_of_prefix_length_le ⟨_, hparted⟩ (List.prefix_append _ rest) hn.le
    obtain ⟨c, more, rfl⟩ : ∃ c more, tail = c :: more := by
      apply List.exists_cons_of_ne_nil
      rintro rfl
      rw [← htail, List.append_nil] at hn
      exact lt_irrefl _ hn
    obtain ⟨m₁, hbyte, hcalls⟩ := ends_parts_byte hprint zero eoh
      (fun p hp => hparts p (List.mem_of_mem_take hp)) c
    rw [← htail, List.append_cons] at hfront
    obtain ⟨m₂, hfirst, hmore⟩ := ends_split htidy hfront
    obtain ⟨-, rfl⟩ := hfirst.unique hbyte
    rw [← hcalls]
    exact ends_calls hmore
  · subst hnil
    obtain ⟨-, rfl⟩ := hrest.unique ends_nil
    exact afterParts_calls zero eoh parts

/-! ## Only parts of the senders are offered -/

def Offers (parts : List (Part T)) : Act T → Prop
  | .getClients part => part ∈ parts
  | _ => True

section
variable {parts : List (Part T)}

theorem only_sendToClients (totalLen : ℤ) (part : Part T) (l : List ℕ) :
    Only (Offers parts) (sendToClients totalLen part l) := by
  induction l with
  | nil => trivial
  | cons b l ih =>
    refine ⟨trivial, fun (space : ℤ) => ?_⟩
    change Only _ (if totalLen < space then _ else sendToClients totalLen part l)
    split_ifs
    · exact ⟨trivial, fun _ => ⟨trivial, fun _ => ih⟩⟩
    · exact ih

theorem only_sendMultipart {part : Part T} (hpart : part ∈ parts) :
    Only (Offers parts) (streamerSendMultipart dt part) := by
  refine ⟨trivial, fun totalLen => ⟨trivial, fun _ => ⟨hpart, fun clients => ?_⟩⟩⟩
  change Only _ (sendToClients totalLen part clients >>= fun _ => doing .unlockClients)
  exact only_bind (only_sendToClients totalLen part clients) fun _ => ⟨trivial, fun _ => trivial⟩

theorem only_sendAll {l : List (Part T)} (hl : ∀ p ∈ l, p ∈ parts) :
    Only (Offers parts) (sendAll dt l) := by
  induction l with
  | nil => trivial
  | cons part l ih =>
    simp only [List.mem_cons, forall_eq_or_imp] at hl
    exact only_bind (only_sendMultipart hl.1) fun _ => ih hl.2

theorem only_awaitData (client rounds : ℕ) (available : ℤ) :
    Only (Offers parts) (awaitData client rounds available) := by
  induction rounds generalizing available with
  | zero =>
    rw [awaitData]
    split_ifs <;> trivial
  | succ rounds ih =>
    rw [awaitData]
    split_ifs
    · refine ⟨trivial, fun (quit : Bool) => ?_⟩
      cases quit with
      | true => trivial
      | false => exact ⟨trivial, ih⟩
    · trivial

theorem only_clientRead (rounds client len : ℕ) :
    Only (Offers parts) (streamerClientRead rounds client len) := by
  refine ⟨trivial, fun available => ?_⟩
  change Only _ (awaitData client rounds available >>= _)
  refine only_bind (only_awaitData client rounds available) fun found => ?_
  cases found with
  | none => trivial
  | some n => exact ⟨trivial, fun _ => trivial⟩

theorem only_readAll (rounds client : ℕ) (lens : List ℕ) :
    Only (Offers parts) (readAll rounds client lens) := by
  induction lens with
  | nil => exact ⟨trivial, fun _ => ⟨trivial, fun _ => ⟨trivial, fun _ => trivial⟩⟩⟩
  | cons len lens ih => exact only_bind (only_clientRead rounds client len) fun _ => ih

theorem only_addAll (clients : List ℕ) : Only (Offers parts) (addAll clients) := by
  induction clients with
  | nil => trivial
  | cons client clients ih =>
    exact only_bind ⟨trivial, fun _ => ⟨trivial, fun _ => ⟨trivial, fun _ => trivial⟩⟩⟩ fun _ => ih

theorem only_job {job : Job T} (hjob : ∀ p ∈ job.parts, p ∈ parts) :
    Only (Offers parts) (job.program dt) := by
  cases job with
  | sender l => exact only_sendAll hjob
  | reader rounds client lens => exact only_readAll rounds client lens
  | server clients => exact only_addAll clients

theorem offered_put {s : Streamer T} (h : ∀ k, ∀ p ∈ (s.client k).offered, p ∈ parts) {k : ℕ}
    {c : Streaming.Client T} {room : ℤ} (hc : c.offered = (s.client k).offered) :
    ∀ l, ∀ p ∈ ((s.put k c room).client l).offered, p ∈ parts := by
  intro l p hp
  by_cases hl : l = k
  · subst hl
    simp only [Streamer.put, Function.update_self, hc] at hp
    exact h l p hp
  · simp only [Streamer.put, Function.update_of_ne hl] at hp
    exact h l p hp

theorem offered_step {s t : Streamer T} {i : ℕ} {a : Act T} {r : a.Answer}
    (h : ∀ k, ∀ p ∈ (s.client k).offered, p ∈ parts) (ha : Offers parts a) (hdoes : s.Does dt i a r t) :
    ∀ k, ∀ p ∈ (t.client k).offered, p ∈ parts := by
  cases a with
  | getClients part =>
    obtain ⟨-, rfl⟩ := hdoes
    intro k p hp
    simp only [Streamer.offer] at hp
    split_ifs at hp
    · rcases List.mem_append.1 hp with hp | hp
      · exact h k p hp
      · exact List.mem_singleton.1 hp ▸ ha
    · exact h k p hp
  | writeHeader k part | writeData k part =>
    obtain rfl := hdoes
    exact offered_put h rfl
  | spaceAvailable k | dataAvailable k =>
    obtain ⟨-, rfl⟩ := hdoes
    exact offered_put h rfl
  | read k len =>
    obtain ⟨-, rfl⟩ := hdoes
    refine offered_put h ?_
    unfold Streaming.Client.read
    split <;> rfl
  | lockClients | appendClient k | sum x =>
    obtain ⟨-, rfl⟩ := hdoes
    exact h
  | unlockClients | removeClient k | quit =>
    obtain rfl := hdoes
    exact h

end

/-! ## From one end to the other -/

/-- What a sender can have sent to a client. -/
structure Streamable (dt : DoubleText T) (p : Part T) : Prop where
  sendable : Sendable dt p
  fits : p.Fits dt
  sum : (p.header dt).length + p.data.length ≤ intMax

section
variable {memory : ℕ → ℕ → UInt8} {jobs : List (Job T)} {ms : List (Move _ _)}
variable {d : Threads (Streamer T) (Act.Answer (T := T)) Unit}

/-- What a client has read begins the encodings of some of the parts that it was offered, and every
one of them comes from a sender. -/
theorem received_parts (hreaders : OneReader jobs)
    (hparts : ∀ job ∈ jobs, ∀ p ∈ job.parts, Streamable dt p)
    (hrun : Run (ThreadStep (Streamer.Does dt)) (openStreamer memory, jobs.map (Job.program dt)) ms d)
    (k : ℕ) :
    ∃ (sent : List (Part T)) (rest : Bytes), sent.Sublist (d.1.client k).offered ∧
      (∀ p ∈ sent, Streamable dt p) ∧
      (d.1.client k).received ++ rest = sent.flatMap (Part.encoding dt) ∧
      ((d.1.client k).queue = [] → d.1.holder = none → rest = []) := by
  obtain ⟨reader, hreader⟩ := hreaders.exists_reader
  have hconform : Conform (Streamer.view reader) (Sees dt) (Keeps dt)
      (openStreamer memory, jobs.map (Job.program dt)) := by
    intro i p hp
    rw [List.getElem?_map] at hp
    obtain ⟨job, hjob, rfl⟩ := Option.map_eq_some_iff.1 hp
    have hjobparts := hparts job (List.mem_of_getElem? hjob)
    exact following_job (fun p hp => (hjobparts p hp).fits) (fun p hp => (hjobparts p hp).sum)
      (hreader i job hjob)
  have honly : ∀ p ∈ jobs.map (Job.program dt), Only (Offers (jobs.flatMap Job.parts)) p := by
    intro p hp
    obtain ⟨job, hjob, rfl⟩ := List.mem_map.1 hp
    exact only_job fun p hp => List.mem_flatMap.2 ⟨job, hjob, hp⟩
  have hstep : ∀ (i : ℕ) (s : Streamer T) (a : Act T) (r : a.Answer) (t : Streamer T),
      (Orderly dt s ∧ ∀ k, ∀ p ∈ (s.client k).offered, p ∈ jobs.flatMap Job.parts) →
      Keeps dt (s.view reader i) a → s.Does dt i a r t → Offers (jobs.flatMap Job.parts) a →
      (Orderly dt t ∧ ∀ k, ∀ p ∈ (t.client k).offered, p ∈ jobs.flatMap Job.parts) ∧
        Sees dt (s.view reader i) a r (t.view reader i) ∧
        ∀ j, j ≠ i → t.view reader j = s.view reader j := by
    intro i s a r t hs hkeeps hdoes hoffers
    obtain ⟨horderly, hsees, hothers⟩ := view_step hs.1 hkeeps hdoes
    exact ⟨⟨horderly, offered_step hs.2 hoffers hdoes⟩, hsees, hothers⟩
  have hstart : ∀ k, ∀ p ∈ ((openStreamer (T := T) memory).client k).offered,
      p ∈ jobs.flatMap Job.parts := fun k p hp => absurd hp List.not_mem_nil
  obtain ⟨⟨horderly, hoffered⟩, -⟩ := threads_run (G := fun _ _ a _ _ => Offers (jobs.flatMap Job.parts) a)
    hstep hrun (only_run hrun honly) ⟨orderly_open memory, hstart⟩ hconform
  have hsound := horderly.sound k
  refine ⟨_, (d.1.client k).queue ++ (d.1.client k).owed, hsound.parts, fun p hp => ?_, ?_, ?_⟩
  · obtain ⟨job, hjob, hp⟩ := List.mem_flatMap.1 (hoffered k p (hsound.parts.subset hp))
    exact hparts job hjob p hp
  · rw [← List.append_assoc]
    exact hsound.stream
  · intro hqueue hfree
    rw [hqueue, horderly.owed hfree k]
    rfl

/-- The other end has been given the first bytes of the content of the chunks in any buffers. It has
called back for some of the parts that the client was offered, in their order and as they were sent:
for each of which all bytes and one more have come. -/
theorem client_is_called_back (hprint : ∀ t, MultipartParser.Text (dt.print t)) (hreaders : OneReader jobs)
    (hparts : ∀ job ∈ jobs, ∀ p ∈ job.parts, Streamable dt p)
    (hrun : Run (ThreadStep (Streamer.Does dt)) (openStreamer memory, jobs.map (Job.program dt)) ms d)
    (k : ℕ) {reads : List Bytes} (hreads : ∀ data ∈ reads, data ≠ [])
    (hall : reads.flatten = (d.1.client k).received) {bufs : List Bytes} {more : Bytes}
    (hcontent : Message ((reads.map chunk).flatten ++ chunk []) (bufs.flatten ++ more)) (zero : T)
    (eoh : Window) :
    ∃ (sent : List (Part T)) (m : Parser T), sent.Sublist (d.1.client k).offered ∧
      Feeds dt quiet (newMultipartParser zero eoh) bufs m ∧
      m.calls <+: (partCalls dt 0 sent).dropLast ∧
      (∀ n, ((sent.take n).flatMap (Part.encoding dt)).length < bufs.flatten.length →
        partCalls dt 0 (sent.take n) <+: m.calls) ∧
      (more = [] → (d.1.client k).queue = [] → d.1.holder = none →
        m.calls = (partCalls dt 0 sent).dropLast) := by
  obtain ⟨sent, rest, hoffered, hsent, hstream, hend⟩ := received_parts hreaders hparts hrun k
  have hreceived : bufs.flatten ++ more = (d.1.client k).received :=
    (message_content hreads hcontent).trans hall
  rw [← hreceived, List.append_assoc] at hstream
  obtain ⟨m, hfeeds, hprefix, hcomplete, hlast⟩ :=
    feeds_front hprint zero eoh (fun p hp => (hsent p hp).sendable) hstream
  refine ⟨sent, m, hoffered, hfeeds, hprefix, hcomplete, fun hmore hqueue hfree => hlast ?_⟩
  rw [hmore, hend hqueue hfree]
  rfl

end

/-! ### Two parts that arrive -/

theorem somePart_streamable {data : Bytes} (hne : data ≠ []) (hlen : data.length ≤ 2) :
    Streamable plainTimes (somePart data) where
  sendable := ⟨hne, by simp [somePart]; omega, by simp [somePart, ascii], text_ascii (by decide), rfl⟩
  fits := somePart_fits (by omega)
  sum := somePart_sum hlen

/-- The bytes come in two buffers, the first of which ends in the header of the first part. -/
theorem streamed_parts_are_called_back : ∃ (ms : List (Move _ _))
    (d : Threads (Streamer Unit) (Act.Answer (T := Unit)) Unit) (sent : List (Part Unit)) (m : Parser Unit),
    Run (ThreadStep (Streamer.Does plainTimes))
      (openStreamer fun _ _ => 0, streamedJobs.map (Job.program plainTimes)) ms d ∧
    (d.1.client 0).received = streamedBytes ∧
    sent.Sublist (d.1.client 0).offered ∧
    Feeds plainTimes quiet (newMultipartParser () (0, 0, 0, 0))
      [streamedBytes.take 30, streamedBytes.drop 30] m ∧
    m.calls = (partCalls plainTimes 0 sent).dropLast := by
  obtain ⟨ms, d, hrun, hfree, hempty, hreceived⟩ := streamed_run
  have hne : streamedBytes ≠ [] := by simp [streamedBytes, Part.encoding, somePart]
  have hreads : ∀ data ∈ [streamedBytes], data ≠ [] := by simpa using hne
  have hcontent : Message (([streamedBytes].map chunk).flatten ++ chunk [])
      (([streamedBytes.take 30, streamedBytes.drop 30] : List Bytes).flatten ++ []) := by
    simpa using (message_chunks_iff hreads).2 message_last
  have hparts : ∀ job ∈ streamedJobs, ∀ p ∈ job.parts, Streamable plainTimes p := by
    intro job hjob p hp
    obtain ⟨data, rfl, hdata, hlen⟩ := mem_streamedJobs_parts hjob hp
    exact somePart_streamable hdata hlen
  obtain ⟨sent, m, hsent, hfeeds, -, -, hall⟩ := client_is_called_back
    (fun _ => text_ascii (by decide)) streamedJobs_oneReader hparts hrun 0 hreads
    (by simp [hreceived]) hcontent () (0, 0, 0, 0)
  exact ⟨ms, d, sent, m, hrun, hreceived, hsent, hfeeds, hall rfl hempty hfree⟩

end Rcom.StreamTransport
