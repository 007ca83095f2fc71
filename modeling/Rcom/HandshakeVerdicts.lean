import Rcom.Handshake

/-!
# Handshakes on one link (messagelink.c)

The headers of a response stay in the link, and so does the last header in the buffers. They count
for the response of the next connection.
-/

namespace Rcom.Http
open Rcom.Lib

/-! ## What is left of earlier responses -/

namespace HeaderReader
variable {r b : HeaderReader}

theorem cstr_appendZero_twice (membuf : Bytes) :
    cstr (appendZero (appendZero membuf)) = cstr (appendZero membuf) := by
  simp [cstr, appendZero, List.takeWhile_append]

theorem store_store (k : CStr) :
    getHeaderValue r.store.store.headers k = getHeaderValue r.store.headers k := by
  by_cases h : r.headerName.length > 0 ∧ r.headerValue.length > 0
  · have h' : r.store.headerName.length > 0 ∧ r.store.headerValue.length > 0 := by
      simp [store, if_pos h, appendZero]
    rw [store, if_pos h']
    simp only [store, if_pos h, cstr_appendZero_twice, getHeaderValue_setHeader]
    split_ifs <;> rfl
  · have hsame : r.store = r := if_neg h
    rw [hsame, hsame]

theorem store_value {old : CStr → Option CStr} (hname : r.headerName = b.headerName)
    (hvalue : r.headerValue = b.headerValue)
    (h : ∀ k, getHeaderValue r.headers k = (getHeaderValue b.headers k).or (old k)) (k : CStr) :
    getHeaderValue r.store.headers k = (getHeaderValue b.store.headers k).or (old k) := by
  by_cases hfull : b.headerName.length > 0 ∧ b.headerValue.length > 0
  · have hfull' : r.headerName.length > 0 ∧ r.headerValue.length > 0 := by rwa [hname, hvalue]
    rw [store, store, if_pos hfull, if_pos hfull']
    simp only [hname, hvalue, getHeaderValue_setHeader]
    split_ifs
    · rfl
    · exact h k
  · have hfull' : ¬ (r.headerName.length > 0 ∧ r.headerValue.length > 0) := by rwa [hname, hvalue]
    rw [store, store, if_neg hfull, if_neg hfull']
    exact h k

theorem store_buffers (hname : r.headerName = b.headerName) (hvalue : r.headerValue = b.headerValue) :
    r.store.headerName = b.store.headerName ∧ r.store.headerValue = b.store.headerValue := by
  simp only [store, hname, hvalue]
  split_ifs <;> exact ⟨by simp [hname], by simp [hvalue]⟩

/-- A reader `r` that started with the headers of `r₀` next to one `b` that started with none. -/
structure Follows (r₀ b r : HeaderReader) : Prop where
  state : r.parserHeaderState = b.parserHeaderState
  fresh : b.parserHeaderState = .headerNew → b.headers = [] ∧ b.headerName = [] ∧
    ∀ k, getHeaderValue r.store.headers k = getHeaderValue r₀.store.headers k
  same : b.parserHeaderState ≠ .headerNew →
    r.headerName = b.headerName ∧ r.headerValue = b.headerValue
  values : (∀ k, getHeaderValue r.headers k =
      (getHeaderValue b.headers k).or (getHeaderValue r₀.headers k)) ∨
    ∀ k, getHeaderValue r.headers k =
      (getHeaderValue b.headers k).or (getHeaderValue r₀.store.headers k)

theorem store_parserHeaderState : r.store.parserHeaderState = r.parserHeaderState := by
  rw [store]
  split_ifs <;> rfl

theorem Follows.store {r₀ : HeaderReader} (h : Follows r₀ b r) : Follows r₀ b.store r.store := by
  by_cases hnew : b.parserHeaderState = .headerNew
  · obtain ⟨hheaders, hname, hstore⟩ := h.fresh hnew
    have hb : b.store = b := if_neg (by simp [hname])
    rw [hb]
    refine ⟨store_parserHeaderState.trans h.state, fun _ => ⟨hheaders, hname, ?_⟩,
      fun hne => absurd hnew hne, .inr ?_⟩
    · intro k
      rw [store_store, hstore]
    · intro k
      rw [hstore, hheaders]
      rfl
  · obtain ⟨hname, hvalue⟩ := h.same hnew
    refine ⟨?_, fun h' => absurd (store_parserHeaderState.symm.trans h') hnew,
      fun _ => store_buffers hname hvalue, ?_⟩
    · rw [store_parserHeaderState, store_parserHeaderState, h.state]
    · exact h.values.imp (store_value hname hvalue) (store_value hname hvalue)

theorem Follows.hear {r₀ : HeaderReader} (h : Follows r₀ b r) (c : Callback) :
    Follows r₀ (b.hear c) (r.hear c) := by
  cases c with
  | url data => exact h
  | headersComplete => exact h.store
  | headerField data =>
    simp only [HeaderReader.hear, onHeaderField, h.state]
    split_ifs with hstart
    · exact ⟨rfl, fun h => by simp at h, fun _ => ⟨rfl, rfl⟩, h.store.values⟩
    · have hnew : b.parserHeaderState ≠ .headerNew := fun h => hstart (.inl h)
      obtain ⟨hname, hvalue⟩ := h.same hnew
      exact ⟨rfl, fun h => absurd h hnew, fun _ => ⟨by rw [hname], hvalue⟩, h.values⟩
  | headerValue data =>
    simp only [HeaderReader.hear, onHeaderValue, h.state]
    split_ifs with hnew
    · exact h
    · obtain ⟨hname, hvalue⟩ := h.same hnew
      exact ⟨rfl, fun h => by simp at h, fun _ => ⟨hname, by rw [hvalue]⟩, h.values⟩

def reported (cs : List Callback) : List HttpHeader := (after {} cs).headers

theorem follows_after (r₀ : HeaderReader) (cs : List Callback) :
    Follows r₀ (after {} cs) (r₀.after cs) := by
  have hstart : Follows r₀ { ({} : HeaderReader) with parserHeaderState := .headerNew }
      { r₀ with parserHeaderState := .headerNew } := by
    refine ⟨rfl, fun _ => ⟨rfl, rfl, fun k => ?_⟩, fun h => absurd rfl h, .inl fun k => rfl⟩
    simp only [HeaderReader.store]
    split_ifs <;> rfl
  rw [after, after]
  generalize ({ ({} : HeaderReader) with parserHeaderState := .headerNew } : HeaderReader) = b at *
  generalize ({ r₀ with parserHeaderState := .headerNew } : HeaderReader) = r at *
  induction cs generalizing b r with
  | nil => exact hstart
  | cons c cs ih => exact ih _ _ (hstart.hear c)

theorem after_of_reported {cs : List Callback} {k v : CStr}
    (h : getHeaderValue (reported cs) k = some v) :
    getHeaderValue (r.after cs).headers k = some v := by
  rcases (follows_after r cs).values with hv | hv
  · rw [hv k]
    simp [show getHeaderValue (after {} cs).headers k = some v from h]
  · rw [hv k]
    simp [show getHeaderValue (after {} cs).headers k = some v from h]

/-- What it does not report is what was held, if nothing was left in the buffers. -/
theorem after_of_settled {cs : List Callback}
    (hr : ∀ k, getHeaderValue r.store.headers k = getHeaderValue r.headers k) (k : CStr) :
    getHeaderValue (r.after cs).headers k =
      (getHeaderValue (reported cs) k).or (getHeaderValue r.headers k) := by
  rcases (follows_after r cs).values with hv | hv
  · exact hv k
  · rw [hv k, hr]
    rfl

end HeaderReader

/-! ## The verdict -/

structure Attempt where
  nonce : Nonce
  sent : ℤ
  reads : List Received

section Verdict
variable (sha1 : CStr → Digest)

def afterAttempts : List Attempt → HttpLink → Option HttpLink
  | [], link => some link
  | a :: as, link =>
    match clientMessagelinkOpenWebsocket sha1 a.nonce a.sent a.reads link with
    | none => none
    | some (_, link) => afterAttempts as link

/-- Whatever was tried on the link before, the verdict on this response is the same. -/
def VerdictFixed (nonce : Nonce) (sent : ℤ) (reads : List Received) : Prop :=
  ∀ before before' link link',
    afterAttempts sha1 before newLink = some link →
    afterAttempts sha1 before' newLink = some link' →
    (clientMessagelinkOpenWebsocket sha1 nonce sent reads link).map Prod.fst =
      (clientMessagelinkOpenWebsocket sha1 nonce sent reads link').map Prod.fst

/-- If a response with status 101 comes in, it has one of the required headers with a wrong value, or
it has all of them. -/
def Decided (nonce : Nonce) (sent : ℤ) (reads : List Received) : Prop :=
  sent = 0 → ∀ cs, heard reads = some (some 101, cs) →
    (∃ h ∈ requiredHeaders (makeAccept sha1 (makeKey nonce)), ∃ value,
      getHeaderValue (HeaderReader.reported cs) h.name = some value ∧ value ≠ h.value) ∨
    ∀ h ∈ requiredHeaders (makeAccept sha1 (makeKey nonce)),
      (getHeaderValue (HeaderReader.reported cs) h.name).isSome

variable {sha1} {nonce : Nonce} {sent : ℤ} {reads : List Received}

theorem accepts_setHeaders (accept : CStr) :
    Accepts accept (setHeaders [] (requiredHeaders accept)) := by
  have hu : ascii "Connection" ≠ ascii "Upgrade" := by decide
  have ha : ascii "Connection" ≠ ascii "Sec-WebSocket-Accept" := by decide
  have hua : ascii "Upgrade" ≠ ascii "Sec-WebSocket-Accept" := by decide
  simp [Accepts, requiredHeaders, setHeaders, getHeaderValue_setHeader, hu, ha, hua]

def goodReads (accept : CStr) : List Received :=
  readEach 101 (bytewise (requiredHeaders accept) ++ [.headersComplete])

theorem openWebsocket_reader (hsent : sent = 0) {status : Option ℤ} {cs : List Callback}
    (h : heard reads = some (status, cs)) (link : HttpLink) :
    ∃ err link', clientMessagelinkOpenWebsocket sha1 nonce sent reads link = some (err, link') ∧
      link'.reader = link.reader.after cs := by
  rw [clientMessagelinkOpenWebsocket, parseResponse_eq, h]
  simp only [hsent, ne_eq, not_true_eq_false, if_false, Option.map_some]
  split_ifs <;> exact ⟨_, _, rfl, rfl⟩

/-- After a good response the link holds the required headers, and nothing is left in the buffers. -/
theorem after_goodReads (nonce : Nonce) (accept : CStr) (hplain : ∀ h ∈ requiredHeaders accept, h.Plain) :
    ∃ link, afterAttempts sha1 [⟨nonce, 0, goodReads accept⟩] newLink = some link ∧
      Accepts accept link.reader.headers ∧
      ∀ k, getHeaderValue link.reader.store.headers k = getHeaderValue link.reader.headers k := by
  have hheard := heard_reports (reports_readEach hplain [] 101)
  rw [flatMap_readEach] at hheard
  obtain ⟨err, link, hlink, hreader⟩ :=
    @openWebsocket_reader sha1 nonce 0 _ rfl _ _ hheard newLink
  refine ⟨link, ?_, ?_, ?_⟩
  · have hopen : clientMessagelinkOpenWebsocket sha1 nonce 0 (goodReads accept) newLink =
        some (err, link) := hlink
    simp [afterAttempts, hopen]
  · have hheaders : link.reader.headers = setHeaders [] (requiredHeaders accept) := by
      rw [hreader]
      exact after_complete (fragments_bytewise hplain) hplain []
    rw [hheaders]
    exact accepts_setHeaders accept
  · intro k
    rw [hreader, HeaderReader.after, ← List.append_assoc, List.foldl_append]
    exact HeaderReader.store_store k

theorem accepts_after_good {accept : CStr} {r : HeaderReader} {cs : List Callback}
    (hgood : Accepts accept r.headers)
    (hsettled : ∀ k, getHeaderValue r.store.headers k = getHeaderValue r.headers k)
    (hright : ∀ h ∈ requiredHeaders accept, ∀ value,
      getHeaderValue (HeaderReader.reported cs) h.name = some value → value = h.value) :
    Accepts accept (r.after cs).headers := by
  intro h hh
  rw [HeaderReader.after_of_settled hsettled]
  cases hvalue : getHeaderValue (HeaderReader.reported cs) h.name with
  | none => exact hgood h hh
  | some value =>
    rw [hright h hh value hvalue]
    rfl

/-- If the response decides nothing, it is taken after a good one and not on a new link. -/
theorem decided_of_fixed (hfixed : VerdictFixed sha1 nonce sent reads) :
    Decided sha1 nonce sent reads := by
  classical
  intro hsent cs hcs
  by_contra hopen
  simp only [not_or, not_exists, not_and, not_not, not_forall] at hopen
  obtain ⟨hright, h, hh, hmissing⟩ := hopen
  obtain ⟨link, hbefore, hgood, hsettled⟩ :=
    @after_goodReads sha1 nonce _ (plain_requiredHeaders (makeKey nonce))
  have hafter := accepts_after_good hgood hsettled hright
  have hnew : ¬ Accepts (makeAccept sha1 (makeKey nonce)) (newLink.reader.after cs).headers := by
    intro hall
    have hreported : getHeaderValue (HeaderReader.reported cs) h.name = some h.value := hall h hh
    simp [hreported] at hmissing
  have hverdict := hfixed _ [] link newLink hbefore rfl
  rw [verdict_eq hsent, verdict_eq hsent, hcs] at hverdict
  simp [hafter, hnew] at hverdict

/-- The headers in the link are of no consequence for a response that has one with a wrong value, or
that has all of them. -/
theorem accepts_after_iff {accept : CStr} {cs : List Callback}
    (h : (∃ h ∈ requiredHeaders accept, ∃ value,
      getHeaderValue (HeaderReader.reported cs) h.name = some value ∧ value ≠ h.value) ∨
      ∀ h ∈ requiredHeaders accept, (getHeaderValue (HeaderReader.reported cs) h.name).isSome)
    (r : HeaderReader) :
    Accepts accept (r.after cs).headers ↔ Accepts accept (HeaderReader.reported cs) := by
  rcases h with ⟨h, hh, value, hvalue, hne⟩ | hall
  · have hwrong : ∀ headers, getHeaderValue headers h.name = some value → ¬ Accepts accept headers := by
      intro headers hheaders haccepts
      rw [haccepts h hh, Option.some.injEq] at hheaders
      exact hne hheaders.symm
    exact iff_of_false (hwrong _ (HeaderReader.after_of_reported hvalue)) (hwrong _ hvalue)
  · have hsame : ∀ h ∈ requiredHeaders accept, getHeaderValue (r.after cs).headers h.name =
        getHeaderValue (HeaderReader.reported cs) h.name := by
      intro h hh
      obtain ⟨value, hvalue⟩ := Option.isSome_iff_exists.1 (hall h hh)
      rw [hvalue, HeaderReader.after_of_reported hvalue]
    exact forall₂_congr fun h hh => by rw [hsame h hh]

theorem fixed_of_decided (hdecided : Decided sha1 nonce sent reads) :
    VerdictFixed sha1 nonce sent reads := by
  classical
  intro before before' link link' _ _
  by_cases hsent : sent = 0
  · rw [verdict_eq hsent, verdict_eq hsent]
    cases hheard : heard reads with
    | none => rfl
    | some h =>
      obtain ⟨status, cs⟩ := h
      simp only [Option.map_some, Option.some.injEq]
      by_cases hstatus : status = some 101
      · have hcs := hdecided hsent cs (by rw [hheard, hstatus])
        simp only [accepts_after_iff hcs]
      · simp [hstatus]
  · simp [clientMessagelinkOpenWebsocket, hsent]

/-- The verdict is always the same just when the response decides it. -/
theorem verdict_fixed_iff (sha1 : CStr → Digest) (nonce : Nonce) (sent : ℤ) (reads : List Received) :
    VerdictFixed sha1 nonce sent reads ↔ Decided sha1 nonce sent reads :=
  ⟨decided_of_fixed, fixed_of_decided⟩

end Verdict

/-! ### A response with one of the three headers -/

def zeroAccept : CStr := makeAccept zeroSha1 (makeKey zeroNonce)

def acceptOnly : List Received :=
  readEach 101 (bytewise [⟨ascii "Sec-WebSocket-Accept", zeroAccept⟩] ++ [.headersComplete])

theorem stale_headers_are_used : ¬ VerdictFixed zeroSha1 zeroNonce 0 acceptOnly := by
  classical
  have hplain : ∀ h ∈ [⟨ascii "Sec-WebSocket-Accept", zeroAccept⟩], HttpHeader.Plain h := by
    intro h hh
    apply plain_requiredHeaders (makeKey zeroNonce) h
    exact List.mem_cons_of_mem _ (List.mem_cons_of_mem _ hh)
  set cs := bytewise [⟨ascii "Sec-WebSocket-Accept", zeroAccept⟩] ++ [.headersComplete] with hcs
  have hheard : heard acceptOnly = some (some 101, cs) := by
    have h := heard_reports (reports_readEach hplain [] 101)
    rw [flatMap_readEach] at h
    exact h
  have hreported : ∀ k, getHeaderValue (HeaderReader.reported cs) k =
      if k = ascii "Sec-WebSocket-Accept" then some zeroAccept else none := by
    intro k
    have h := after_complete (fragments_bytewise hplain) hplain []
    rw [HeaderReader.reported, hcs]
    exact (congrArg (getHeaderValue · k) h).trans (getHeaderValue_setHeader [] _ _ _)
  obtain ⟨link, hbefore, hgood, hsettled⟩ :=
    after_goodReads zeroNonce zeroAccept (plain_requiredHeaders (makeKey zeroNonce))
  have hafter : Accepts zeroAccept (link.reader.after cs).headers := by
    apply accepts_after_good hgood hsettled
    simp only [requiredHeaders, List.mem_cons, List.not_mem_nil, or_false, forall_eq_or_imp,
      forall_eq, hreported]
    rw [if_neg (by decide), if_neg (by decide)]
    simp
  have hnew : ¬ Accepts zeroAccept (newLink.reader.after cs).headers := by
    intro h
    have hconnection : getHeaderValue (HeaderReader.reported cs) (ascii "Connection") =
        some (ascii "Upgrade") := h ⟨ascii "Connection", ascii "Upgrade"⟩ (by simp [requiredHeaders])
    rw [hreported, if_neg (by decide)] at hconnection
    cases hconnection
  intro hfixed
  have hverdict := hfixed _ [] link newLink hbefore rfl
  rw [verdict_eq rfl, verdict_eq rfl, hheard] at hverdict
  simp only [Option.map_some, Option.some.injEq, true_and] at hverdict
  have hdiffer : (0 : ℤ) = -1 := by
    rwa [show makeAccept zeroSha1 (makeKey zeroNonce) = zeroAccept from rfl, if_pos hafter,
      if_neg hnew] at hverdict
  omega

end Rcom.Http
