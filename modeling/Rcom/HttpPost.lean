import Rcom.Addr
import Rcom.HttpSending
import Rcom.ResponseParsing

/-!
# A request and its response (http.c)

`http_post` opens a connection, sends the request and reads the response. What the network does is
given beforehand: whether the connection opens, what each `send` takes and what is received.
-/

namespace Rcom.Http
open Lib Lib.Program Libc

/-! ## Sending -/

/-- The loop of `tcp_socket_send` on an open socket whose `k`th `send` answers `sends k`: what is
returned, the bytes that were accepted, and the number of the next `send`. No `send` takes more than
it was given. -/
def tcpSocketSend (sends : ℕ → ℤ) (k : ℕ) (data : Bytes) : ℤ × Bytes × ℕ :=
  if data = [] then (0, [], k)
  else if sends k < 0 then (-1, [], k + 1)
  else if sends k = 0 then (-1, [], k + 1)
  else
    let rest := tcpSocketSend sends (k + 1) (data.drop (sends k).toNat)
    (rest.1, data.take (sends k).toNat ++ rest.2.1, rest.2.2)
termination_by data.length
decreasing_by
  rw [List.length_drop]
  have hpos : 0 < data.length := List.length_pos_iff.2 ‹_›
  omega

/-- What `http_post` finds. `behind` is what lies behind the buffer of the header. -/
structure Network where
  opens : Bool
  sends : ℕ → ℤ
  behind : ℕ → UInt8
  socket : Socket
  rounds : List ResponseT.Round

/-- What `http_send_request` returns, and the bytes that the socket accepted. -/
def httpSendRequest (net : Network) (addr : Addr) (resource contentType : CStr) (data : Bytes) :
    ℤ × Bytes :=
  let header := httpSendRequestHeaders resource (Addr.addrString (some addr)) contentType data.length
  let headers := tcpSocketSend net.sends 0 (header.passed net.behind)
  if headers.1 ≠ 0 then (0, headers.2.1)
  else if data.length ≠ 0 then
    let body := tcpSocketSend net.sends headers.2.2 data
    (body.1, headers.2.1 ++ body.2.1)
  else (headers.1, headers.2.1)

/-! ## The four phases -/

structure Given (U : Type) where
  response : ResponseT
  handlers : ResponseHandlers U
  userdata : U

/-- What a call has come to: `err`, `*response_handle`, whether a response was allocated and whether
that one was deleted; and, as history, what was sent and what the parser called. -/
structure Posted where
  err : ℤ
  handle : Option ResponseT
  allocated : Bool
  released : Bool
  sent : Bytes
  calls : Calls

variable {U : Type} (parser : HttpParser)

/-- `response_parse_html` and what follows. It does not return if it goes on after these rounds. -/
def httpReceive (net : Network) (sent : Bytes) (allocated : Bool) (given : Given U) :
    Exec (Option Posted) :=
  (ResponseT.responseParseHtml given.handlers parser .all given.response given.userdata net.socket
      net.rounds).map fun (calls, err, last) =>
    err.map fun err =>
      if err ≠ 0 ∧ allocated then ⟨err, none, true, true, sent, calls⟩
      else ⟨err, some last.response.1, allocated, false, sent, calls⟩

/-- `userdata` stands for the field of a new response, which has no handlers. -/
def httpPost (net : Network) (addr : Addr) (resource contentType : CStr) (data : Bytes)
    (given : Option (Given U)) (userdata : U) : Exec (Option Posted) :=
  let handle := given.map Given.response
  if net.opens = false then some (some ⟨-1, handle, false, false, [], []⟩)
  else
    let request := httpSendRequest net addr resource contentType data
    if request.1 ≠ 0 then some (some ⟨-1, handle, false, false, request.2, []⟩)
    else
      match given with
      | some given => httpReceive parser net request.2 false given
      | none => httpReceive parser net request.2 true
          ⟨ResponseT.newResponse 200, ⟨none, none⟩, userdata⟩

def httpGet (net : Network) (addr : Addr) (resource : CStr) (given : Option (Given U))
    (userdata : U) : Exec (Option Posted) :=
  httpPost parser net addr resource [] [] given userdata

/-! ## How the response is left -/

namespace ResponseT
variable (handlers : ResponseHandlers U) (what : ResponseParse)

/-- The loop comes to its head in this state with these rounds left, and the parser has made these
calls. -/
inductive Comes (first : Head parser U) (all : List Round) :
    Calls → Head parser U → List Round → Prop where
  | first : Comes first all [] first all
  | wait {calls : Calls} {h : Head parser U} {round : Round} {rounds : List Round} :
      Comes first all calls h (round :: rounds) → h.response.1.continueParsing = true →
      round.quit = false → round.wait ≠ 1 → Comes first all calls h rounds
  | next {calls calls' : Calls} {parsed : ℕ} {h h' : Head parser U} {round : Round}
      {rounds : List Round} : Comes first all calls h (round :: rounds) → round.quit = false →
      round.wait = 1 → Calling handlers parser what h calls' parsed h' → h.socket ≠ [] →
      ¬Mismatch parser what h parsed → Comes first all (calls ++ calls') h' rounds

/-- In this round the loop is left with 0 before all that is waited for was called: the application
quits, or the stream ends and the parser does not take that for the end of the message. -/
def LeavesEarly (h : Head parser U) (round : Round) : Prop :=
  h.response.1.continueParsing = true ∧ (round.quit = true ∨
    round.quit = false ∧ round.wait = 1 ∧ h.socket = [] ∧
      ∃ calls parsed h', Calling handlers parser what h calls parsed h' ∧ ¬Complete what calls)

def Errs (h : Head parser U) (round : Round) : Prop :=
  h.response.1.continueParsing = true ∧ round.quit = false ∧ round.wait = 1 ∧
    ((tcpSocketRecv h.socket (bufferLength what)).1 < 0 ∨ h.socket ≠ [] ∧
      ∃ calls parsed h', Calling handlers parser what h calls parsed h' ∧ Mismatch parser what h parsed)

variable {handlers what parser}

section Loop
variable {h h' first last : Head parser U} {calls calls' : Calls} {parsed : ℕ} {code : ℤ}
variable {round : Round} {rounds rest : List Round}

theorem parseLoop_quit (hquit : round.quit = true) :
    parseLoop handlers parser what (round :: rounds) h = some ([], some 0, h) := by
  rw [parseLoop, if_pos (by simp [hquit])]

theorem parseLoop_wait (hcontinue : h.response.1.continueParsing = true)
    (hquit : round.quit = false) (hwait : round.wait ≠ 1) :
    parseLoop handlers parser what (round :: rounds) h = parseLoop handlers parser what rounds h := by
  rw [parseLoop, if_neg (by simp [hquit, hcontinue]), if_neg hwait]

theorem parseLoop_recv (hcontinue : h.response.1.continueParsing = true)
    (hquit : round.quit = false) (hwait : round.wait = 1)
    (hrecv : (tcpSocketRecv h.socket (bufferLength what)).1 < 0) :
    ∃ last, parseLoop handlers parser what (round :: rounds) h = some ([], some (-1), last) := by
  rw [parseLoop, if_neg (by simp [hquit, hcontinue]), if_pos hwait]
  dsimp only
  rw [if_pos hrecv]
  exact ⟨_, rfl⟩

theorem parseLoop_call (hc : Calling handlers parser what h calls parsed h')
    (hquit : round.quit = false) (hwait : round.wait = 1) :
    (h.socket = [] → parseLoop handlers parser what (round :: rounds) h =
      some (calls, some 0, h')) ∧
    (h.socket ≠ [] → Mismatch parser what h parsed →
      parseLoop handlers parser what (round :: rounds) h = some (calls, some (-1), h')) ∧
    (h.socket ≠ [] → ¬Mismatch parser what h parsed →
      parseLoop handlers parser what (round :: rounds) h =
        (parseLoop handlers parser what rounds h').map fun r => (calls ++ r.1, r.2)) := by
  obtain ⟨hcontinue, hpos, hsocket, hcall⟩ := hc
  have hzero := @tcpSocketRecv_zero h.socket _ (bufferLength_pos what)
  unfold Mismatch
  rw [parseLoop, if_neg (by simp [hquit, hcontinue]), if_pos hwait]
  dsimp only
  rw [if_neg (not_lt.2 hpos), hcall]
  dsimp only
  rw [← hsocket]
  refine ⟨fun hend => ?_, fun hmore hm => ?_, fun hmore hm => ?_⟩
  · rw [if_pos (hzero.2 hend)]
  · rw [if_neg (hzero.not.2 hmore), if_pos hm]
  · rw [if_neg (hzero.not.2 hmore), if_neg hm]

theorem comes_loop {all : List Round} (hcomes : Comes parser handlers what first all calls h rest)
    (hloop : parseLoop handlers parser what all first = some (calls', some code, last)) :
    ∃ calls'', calls' = calls ++ calls'' ∧
      parseLoop handlers parser what rest h = some (calls'', some code, last) := by
  induction hcomes with
  | first => exact ⟨calls', rfl, hloop⟩
  | wait _ hcontinue hquit hwait ih =>
    obtain ⟨calls'', heq, hrest⟩ := ih
    rw [parseLoop_wait hcontinue hquit hwait] at hrest
    exact ⟨calls'', heq, hrest⟩
  | next _ hquit hwait hc hmore hm ih =>
    obtain ⟨calls'', heq, hrest⟩ := ih
    rw [(parseLoop_call hc hquit hwait).2.2 hmore hm] at hrest
    obtain ⟨⟨calls₁, code₁, last₁⟩, hr, hsame⟩ := Option.map_eq_some_iff.1 hrest
    cases hsame
    exact ⟨calls₁, by rw [heq, List.append_assoc], hr⟩

theorem not_errs_of_zero {all : List Round}
    (hloop : parseLoop handlers parser what all first = some (calls', some 0, last))
    (hcomes : Comes parser handlers what first all calls h (round :: rest)) :
    ¬Errs parser handlers what h round := by
  rintro ⟨hcontinue, hquit, hwait, hrecv | ⟨hmore, calls₁, parsed, h', hc, hm⟩⟩
  · obtain ⟨calls'', -, hrest⟩ := comes_loop hcomes hloop
    obtain ⟨last', herr⟩ := @parseLoop_recv U parser handlers what h round rest hcontinue hquit hwait hrecv
    rw [herr] at hrest
    cases hrest
  · obtain ⟨calls'', -, hrest⟩ := comes_loop hcomes hloop
    rw [(parseLoop_call hc hquit hwait).2.1 hmore hm] at hrest
    cases hrest

theorem exists_exit {all : List Round} (hcomes : Comes parser handlers what first all calls h rounds)
    (hloop : parseLoop handlers parser what rounds h = some (calls', some code, last)) :
    (code = 0 ∧ ∃ end_ rest, Comes parser handlers what first all (calls ++ calls') end_ rest ∧
      end_.response.1.continueParsing = false) ∨
    (∃ before end_ round rest, Comes parser handlers what first all before end_ (round :: rest) ∧
      (code = 0 ∧ (end_.response.1.continueParsing = true ∧ round.quit = true ∧
          before = calls ++ calls' ∨
        round.quit = false ∧ round.wait = 1 ∧ end_.socket = [] ∧ ∃ calls'' parsed,
          Calling handlers parser what end_ calls'' parsed last ∧
            before ++ calls'' = calls ++ calls') ∨
      code = -1 ∧ Errs parser handlers what end_ round)) := by
  induction rounds generalizing calls calls' h with
  | nil => simp [parseLoop] at hloop
  | cons round rounds ih =>
    by_cases hcontinue : h.response.1.continueParsing = true
    · cases hquit : round.quit with
      | true =>
        rw [parseLoop_quit hquit] at hloop
        cases hloop
        exact .inr ⟨calls, _, round, rounds, hcomes, .inl ⟨rfl, .inl ⟨hcontinue, hquit, by simp⟩⟩⟩
      | false =>
        by_cases hwait : round.wait = 1
        · by_cases hrecv : (tcpSocketRecv h.socket (bufferLength what)).1 < 0
          · obtain ⟨last', herr⟩ := @parseLoop_recv U parser handlers what h round rounds hcontinue
              hquit hwait hrecv
            rw [herr] at hloop
            cases hloop
            exact .inr ⟨calls, h, round, rounds, hcomes,
              .inr ⟨rfl, hcontinue, hquit, hwait, .inl hrecv⟩⟩
          · cases hcall : interpret (responseCallback handlers) (parser.execute h.state
                (tcpSocketRecv h.socket (bufferLength what)).2.1) h.response with
            | none =>
              rw [parseLoop, if_neg (by simp [hquit, hcontinue]), if_pos hwait] at hloop
              dsimp only at hloop
              rw [if_neg hrecv, hcall] at hloop
              cases hloop
            | some called =>
              obtain ⟨calls₁, ⟨state, parsed⟩, response⟩ := called
              have hc : Calling handlers parser what h calls₁ parsed
                  ⟨state, response, (tcpSocketRecv h.socket (bufferLength what)).2.2⟩ :=
                ⟨hcontinue, not_lt.1 hrecv, rfl, hcall⟩
              have hround := @parseLoop_call U parser handlers what h _ calls₁ parsed round rounds hc
                hquit hwait
              obtain ⟨hend, hfail, hnext⟩ := hround
              by_cases hmore : h.socket = []
              · rw [hend hmore] at hloop
                cases hloop
                exact .inr ⟨calls, h, round, rounds, hcomes,
                  .inl ⟨rfl, .inr ⟨hquit, hwait, hmore, _, parsed, hc, rfl⟩⟩⟩
              · by_cases hm : Mismatch parser what h parsed
                · rw [hfail hmore hm] at hloop
                  cases hloop
                  exact .inr ⟨calls, h, round, rounds, hcomes, .inr ⟨rfl, hcontinue, hquit, hwait,
                    .inr ⟨hmore, _, parsed, _, hc, hm⟩⟩⟩
                · rw [hnext hmore hm] at hloop
                  obtain ⟨⟨calls₂, code₂, last₂⟩, hr, hsame⟩ := Option.map_eq_some_iff.1 hloop
                  cases hsame
                  have hgo := ih (.next hcomes hquit hwait hc hmore hm) hr
                  simpa only [List.append_assoc] using hgo
        · rw [parseLoop_wait hcontinue hquit hwait] at hloop
          exact ih (.wait hcomes hcontinue hquit hwait) hloop
    · have hfinished : h.response.1.continueParsing = false := Bool.eq_false_iff.2 hcontinue
      rw [parseLoop, if_pos (by simp [hfinished])] at hloop
      cases hloop
      rw [List.append_nil]
      exact .inl ⟨rfl, _, _, hcomes, hfinished⟩

structure Ends (what : ResponseParse) (calls : Calls) (r : ResponseT) : Prop where
  parseWhat : r.parseWhat = what
  ends : r.continueParsing = false ↔ Complete what calls

theorem ends_callback {s s' : ResponseT × U} {c : ParserCallback} {answer : ℤ}
    (hr : Ends what calls s.1) (h : responseCallback handlers s c = some (answer, s')) :
    Ends what (calls ++ [⟨c, answer⟩]) s'.1 := by
  have hanswered := responseCallback_answered h
  refine ⟨hanswered.parseWhat.trans hr.parseWhat, ?_⟩
  rw [hanswered.ends, hr.ends, hr.parseWhat, complete_append]

theorem ends_comes {response : ResponseT} {userdata : U} {socket : Socket} {all : List Round}
    (hcomes : Comes parser handlers what (start parser what response userdata socket) all calls h
      rest) : Ends what calls h.response.1 := by
  induction hcomes with
  | first => exact ⟨rfl, by simp [start, Complete, MessageComplete, HeadersComplete]⟩
  | wait _ _ _ _ ih => exact ih
  | next _ _ _ hc _ _ ih =>
    exact interpret_invariant (I := fun calls s => Ends what calls s.1)
      (fun _ _ _ _ _ => ends_callback) hc.2.2.2 ih

end Loop

/-- When `response_parse_html` returns: it is 0 or -1; with 0 all that was waited for was called unless
the loop was left early; and it is -1 exactly after an error. -/
theorem responseParseHtml_returns {response : ResponseT} {userdata : U} {socket : Socket}
    {rounds : List Round} {calls : Calls} {code : ℤ} {last : Head parser U}
    (hreturn : responseParseHtml handlers parser what response userdata socket rounds =
      some (calls, some code, last)) :
    (code = 0 → (Complete what calls ↔ ∀ before h round rest,
        Comes parser handlers what (start parser what response userdata socket) rounds before h
          (round :: rest) → ¬LeavesEarly parser handlers what h round)) ∧
      (code ≠ 0 ↔ ∃ before h round rest,
        Comes parser handlers what (start parser what response userdata socket) rounds before h
          (round :: rest) ∧ Errs parser handlers what h round) := by
  have hexit := exists_exit .first hreturn
  simp only [List.nil_append] at hexit
  have hzero : code = 0 → ∀ before h round rest,
      Comes parser handlers what (start parser what response userdata socket) rounds before h
        (round :: rest) → ¬Errs parser handlers what h round := by
    rintro rfl before h round rest hcomes
    exact not_errs_of_zero hreturn hcomes
  refine ⟨fun hcode => ⟨fun hcomplete => ?_, fun hnever => ?_⟩, ⟨fun hcode => ?_, ?_⟩⟩
  · rintro before h round rest hcomes ⟨hcontinue, hleave⟩
    subst hcode
    obtain ⟨calls'', heq, hrest⟩ := comes_loop hcomes hreturn
    have hends := ends_comes hcomes
    have hbefore : ¬Complete what before := fun h => by
      rw [hends.ends.2 h] at hcontinue
      cases hcontinue
    rcases hleave with hquit | ⟨hquit, hwait, hend, calls₁, parsed, h', hc, hnot⟩
    · rw [parseLoop_quit hquit] at hrest
      cases hrest
      rw [heq, List.append_nil] at hcomplete
      exact hbefore hcomplete
    · rw [(parseLoop_call hc hquit hwait).1 hend] at hrest
      cases hrest
      rw [heq, complete_append] at hcomplete
      exact hcomplete.elim hbefore hnot
  · subst hcode
    rcases hexit with ⟨-, end_, rest, hcomes, hfinished⟩ | ⟨before, end_, round, rest, hcomes, hexit⟩
    · exact (ends_comes hcomes).ends.1 hfinished
    · rcases hexit with ⟨-, ⟨hcontinue, hquit, rfl⟩ | ⟨hquit, hwait, hend, calls₁, parsed, hc, heq⟩⟩ |
        ⟨herr, -⟩
      · exact absurd ⟨hcontinue, .inl hquit⟩ (hnever _ _ _ _ hcomes)
      · rw [← heq, complete_append]
        by_contra hnot
        exact hnever _ _ _ _ hcomes ⟨hc.1, .inr ⟨hquit, hwait, hend, calls₁, parsed, last, hc,
          fun h => hnot (.inr h)⟩⟩
      · exact absurd herr (by decide)
  · rcases hexit with ⟨h, -⟩ | ⟨before, end_, round, rest, hcomes, ⟨h, -⟩ | ⟨-, herrs⟩⟩
    · exact absurd h hcode
    · exact absurd h hcode
    · exact ⟨before, end_, round, rest, hcomes, herrs⟩
  · rintro ⟨before, h, round, rest, hcomes, herrs⟩ hcode
    exact hzero hcode before h round rest hcomes herrs

end ResponseT

/-! ## What was sent -/

def postText (addr : Addr) (resource contentType : CStr) (data : Bytes) : CStr :=
  requestText resource (Addr.addrString (some addr)) contentType data.length

def HeadersAccepted (net : Network) (text : CStr) : Prop :=
  text.length < 2048 ∧ (tcpSocketSend net.sends 0 text).2.1 = text

/-- The socket takes what is passed on for the headers, but not all of the body. -/
def BodyRefused (net : Network) (addr : Addr) (resource contentType : CStr) (data : Bytes) : Prop :=
  let headers := (httpSendRequestHeaders resource (Addr.addrString (some addr)) contentType
    data.length).passed net.behind
  (tcpSocketSend net.sends 0 headers).2.1 = headers ∧
    (tcpSocketSend net.sends (tcpSocketSend net.sends 0 headers).2.2 data).2.1 ≠ data

theorem tcpSocketSend_spec (sends : ℕ → ℤ) (k : ℕ) (data : Bytes) :
    ((tcpSocketSend sends k data).1 = 0 ∧ (tcpSocketSend sends k data).2.1 = data) ∨
      ((tcpSocketSend sends k data).1 = -1 ∧
        (tcpSocketSend sends k data).2.1.length < data.length) := by
  induction hn : data.length using Nat.strong_induction_on generalizing k data with
  | _ n ih =>
    rw [tcpSocketSend]
    split_ifs with hnil hneg hzero
    · exact .inl ⟨rfl, hnil.symm⟩
    · exact .inr ⟨rfl, hn ▸ List.length_pos_iff.2 hnil⟩
    · exact .inr ⟨rfl, hn ▸ List.length_pos_iff.2 hnil⟩
    · have hpos := List.length_pos_iff.2 hnil
      have hdrop : (data.drop (sends k).toNat).length < n := by
        rw [List.length_drop]
        omega
      rcases ih _ hdrop (k + 1) _ rfl with ⟨hret, hall⟩ | ⟨hret, hless⟩
      · refine .inl ⟨hret, ?_⟩
        dsimp only
        rw [hall, List.take_append_drop]
      · refine .inr ⟨hret, ?_⟩
        dsimp only
        rw [List.length_append, List.length_take]
        rw [List.length_drop] at hless
        omega

theorem tcpSocketSend_accepts {sends : ℕ → ℤ} {k : ℕ} {data : Bytes} :
    (tcpSocketSend sends k data).1 = 0 ↔ (tcpSocketSend sends k data).2.1 = data := by
  rcases tcpSocketSend_spec sends k data with ⟨hret, hall⟩ | ⟨hret, hless⟩
  · exact iff_of_true hret hall
  · refine iff_of_false (by simp [hret]) fun hall => ?_
    rw [hall] at hless
    exact lt_irrefl _ hless

theorem postText_ne_nil (addr : Addr) (resource contentType : CStr) (data : Bytes) :
    postText addr resource contentType data ≠ [] := requestText_ne_nil _ _ _ _

theorem not_mem_printInt (n : ℤ) : (0 : UInt8) ∉ printInt n := by
  have hdecimal : (0 : UInt8) ∉ Decimal.decimal n.natAbs := fun h =>
    absurd (Decimal.mem_decimal h).1 (by decide)
  unfold printInt
  split_ifs
  · rw [List.mem_cons, not_or]
    exact ⟨by decide, hdecimal⟩
  · exact hdecimal

theorem not_mem_addrString (addr : Addr) : (0 : UInt8) ∉ Addr.addrString (some addr) := by
  have hport : (0 : UInt8) ∉ Decimal.decimal (Addr.addrPort addr) := fun h =>
    absurd (Decimal.mem_decimal h).1 (by decide)
  have hip : (0 : UInt8) ∉ Addr.addrIp addr := fun h => by
    rcases mem_inetNtoa h with h | h <;> exact absurd h (by decide)
  rw [Addr.addrString, List.mem_append, List.mem_cons, not_or, not_or]
  exact ⟨hip, by decide, hport⟩

theorem not_mem_postText (addr : Addr) {resource contentType : CStr} (data : Bytes)
    (hresource : (0 : UInt8) ∉ resource) (htype : (0 : UInt8) ∉ contentType) :
    (0 : UInt8) ∉ postText addr resource contentType data := by
  have hhost := not_mem_addrString addr
  have hlength := not_mem_printInt data.length
  unfold postText requestText
  dsimp only
  split_ifs <;>
    simp only [List.mem_append, not_or, hresource, htype, hhost, hlength, not_false_eq_true,
      and_true] <;>
    decide

section Request
variable {net : Network} {addr : Addr} {resource contentType : CStr} {data : Bytes}

/-- The buffer ends with a zero, so that what is passed on is not a text that did not fit. -/
theorem passed_ne {text : CStr} (hnul : (0 : UInt8) ∉ text) (hlong : 2048 ≤ text.length)
    (behind : ℕ → UInt8) :
    (Printed.snprintf 2048 text).passed behind = [] ∨
      (Printed.snprintf 2048 text).passed behind ≠ text ∧
        ((Printed.snprintf 2048 text).passed behind).length = text.length := by
  by_cases hmax : (text.length : ℤ) ≤ intMax
  · refine .inr ⟨fun heq => hnul ?_, ?_⟩
    · rw [← heq]
      simp only [Printed.passed, Printed.snprintf, if_pos hmax, Int.toNat_natCast]
      rw [List.take_append, List.mem_append]
      refine .inr ?_
      obtain ⟨m, hm⟩ : ∃ m, text.length - (text.take (2048 - 1)).length = m + 1 :=
        ⟨text.length - 2048, by rw [List.length_take]; omega⟩
      rw [hm, List.take_succ_cons]
      exact List.mem_cons_self
    · simp only [Printed.passed, Printed.snprintf, if_pos hmax, Int.toNat_natCast]
      rw [List.length_take, List.length_append, List.length_cons, List.length_map,
        List.length_range]
      omega
  · exact .inl (by simp [Printed.passed, Printed.snprintf, if_neg hmax])

theorem httpSendRequest_ne_zero :
    (httpSendRequest net addr resource contentType data).1 ≠ 0 ↔
      BodyRefused net addr resource contentType data := by
  unfold httpSendRequest BodyRefused
  dsimp only
  generalize (httpSendRequestHeaders resource (Addr.addrString (some addr)) contentType
    data.length).passed net.behind = headers
  simp only [← tcpSocketSend_accepts]
  split_ifs with hheaders hdata
  · simp [hheaders]
  · simp [not_not.1 hheaders, tcpSocketSend_accepts]
  · have hnothing (k : ℕ) : (tcpSocketSend net.sends k data).1 = 0 := by
      rw [tcpSocketSend, if_pos (List.length_eq_zero_iff.1 (not_not.1 hdata))]
    simpa [tcpSocketSend_accepts.1 (hnothing _)] using hheaders

theorem httpSendRequest_zero {passed : Bytes}
    (hpassed : (httpSendRequestHeaders resource (Addr.addrString (some addr)) contentType
      data.length).passed net.behind = passed)
    (hzero : (httpSendRequest net addr resource contentType data).1 = 0) :
    ((tcpSocketSend net.sends 0 passed).1 = 0 ∧
        (httpSendRequest net addr resource contentType data).2 = passed ++ data) ∨
      ((tcpSocketSend net.sends 0 passed).1 = -1 ∧
        (httpSendRequest net addr resource contentType data).2.length < passed.length) := by
  unfold httpSendRequest at hzero ⊢
  dsimp only at hzero ⊢
  rw [hpassed] at hzero ⊢
  rcases tcpSocketSend_spec net.sends 0 passed with ⟨hret, hall⟩ | ⟨hret, hless⟩
  · rw [if_neg (by simp [hret])] at hzero ⊢
    refine .inl ⟨hret, ?_⟩
    split_ifs at hzero ⊢ with hdata
    · rcases tcpSocketSend_spec net.sends (tcpSocketSend net.sends 0 passed).2.2 data with
        ⟨-, hbody⟩ | ⟨hfail, -⟩
      · rw [hall, hbody]
      · rw [hfail] at hzero
        exact absurd hzero (by decide)
    · rw [hall, List.length_eq_zero_iff.1 (not_not.1 hdata), List.append_nil]
  · rw [if_pos (by simp [hret])]
    exact .inr ⟨hret, hless⟩

/-- When `http_send_request` returns 0, all was sent exactly if the headers were accepted. -/
theorem httpSendRequest_sent
    (hnul : (0 : UInt8) ∉ postText addr resource contentType data)
    (hzero : (httpSendRequest net addr resource contentType data).1 = 0) :
    (httpSendRequest net addr resource contentType data).2 =
        postText addr resource contentType data ++ data ↔
      HeadersAccepted net (postText addr resource contentType data) := by
  have hsent := httpSendRequest_zero rfl hzero
  have hpassed : (httpSendRequestHeaders resource (Addr.addrString (some addr)) contentType
      data.length).passed net.behind =
        (Printed.snprintf 2048 (postText addr resource contentType data)).passed net.behind := rfl
  rw [hpassed] at hsent
  generalize (httpSendRequest net addr resource contentType data).2 = sent at hsent ⊢
  have htext : 0 < (postText addr resource contentType data).length :=
    List.length_pos_iff.2 (postText_ne_nil _ _ _ _)
  generalize postText addr resource contentType data = text at hnul htext hsent ⊢
  have hshort : sent.length < text.length → sent ≠ text ++ data := by
    rintro hless rfl
    rw [List.length_append] at hless
    omega
  by_cases hfits : text.length < 2048
  · have hwhole := ((sent_whole_iff (List.length_pos_iff.1 htext) (by decide)).2 hfits).2 net.behind
    rw [hwhole] at hsent
    rcases hsent with ⟨hret, hsent⟩ | ⟨hret, hless⟩
    · exact iff_of_true hsent ⟨hfits, tcpSocketSend_accepts.1 hret⟩
    · exact iff_of_false (hshort hless) fun haccepted => by
        rw [tcpSocketSend_accepts.2 haccepted.2] at hret
        exact absurd hret (by decide)
  · refine iff_of_false ?_ fun haccepted => hfits haccepted.1
    rcases passed_ne hnul (not_lt.1 hfits) net.behind with hnone | ⟨hne, hlen⟩
    · rw [hnone] at hsent
      rcases hsent with ⟨-, rfl⟩ | ⟨-, hless⟩
      · intro heq
        have hlen := congrArg List.length heq
        simp only [List.length_append] at hlen
        omega
      · exact absurd hless (Nat.not_lt_zero _)
    · rcases hsent with ⟨-, rfl⟩ | ⟨-, hless⟩
      · exact fun heq => hne (List.append_cancel_right heq)
      · exact hshort (hlen ▸ hless)

end Request

/-! ## What is reported -/

/-- 0 is only returned when all phases succeeded; otherwise a response that was allocated here is
deleted and the handle reset. -/
structure Posted.Reports (p : Posted) (net : Network) (text data : Bytes)
    (given : Option (Given U)) : Prop where
  success : p.err = 0 → net.opens = true ∧ p.sent = text ++ data ∧ MessageComplete p.calls
  released : p.err ≠ 0 → given = none →
    p.handle = none ∧ (p.allocated = true → p.released = true)

def target (given : Option (Given U)) (userdata : U) : Given U :=
  given.getD ⟨ResponseT.newResponse 200, ⟨none, none⟩, userdata⟩

def receiving (net : Network) (g : Given U) : ResponseT.Head parser U :=
  ResponseT.start parser .all g.response g.userdata net.socket

/-- If the connection opens, the body is refused; or the headers are accepted and the response is not
left early; or the reading of the response fails. -/
def Noticed (net : Network) (addr : Addr) (resource contentType : CStr) (data : Bytes)
    (g : Given U) : Prop :=
  net.opens = true → BodyRefused net addr resource contentType data ∨
    (HeadersAccepted net (postText addr resource contentType data) ∧
      ∀ before h round rest, ResponseT.Comes parser g.handlers .all (receiving parser net g)
        net.rounds before h (round :: rest) →
          ¬ResponseT.LeavesEarly parser g.handlers .all h round) ∨
    ∃ before h round rest, ResponseT.Comes parser g.handlers .all (receiving parser net g)
      net.rounds before h (round :: rest) ∧ ResponseT.Errs parser g.handlers .all h round

section Reports
variable {parser} {net : Network} {addr : Addr} {resource contentType : CStr} {data : Bytes}
variable {given : Option (Given U)} {userdata : U} {p : Posted}

theorem complete_all {calls : Calls} : ResponseT.Complete .all calls ↔ MessageComplete calls := by
  simp [ResponseT.Complete]

theorem httpReceive_reports {text sent : Bytes} {g : Given U} (hopens : net.opens = true)
    (hreturn : httpReceive parser net sent given.isNone g = some (some p)) :
    p.Reports net text data given ↔
      (sent = text ++ data ∧ ∀ before h round rest, ResponseT.Comes parser g.handlers .all
          (receiving parser net g) net.rounds before h (round :: rest) →
            ¬ResponseT.LeavesEarly parser g.handlers .all h round) ∨
      ∃ before h round rest, ResponseT.Comes parser g.handlers .all (receiving parser net g)
        net.rounds before h (round :: rest) ∧ ResponseT.Errs parser g.handlers .all h round := by
  obtain ⟨⟨calls, code, last⟩, hparse, hrest⟩ := Option.map_eq_some_iff.1 hreturn
  obtain ⟨code, rfl, hp⟩ := Option.map_eq_some_iff.1 hrest
  obtain ⟨hcomplete, herrs⟩ := ResponseT.responseParseHtml_returns hparse
  rw [complete_all] at hcomplete
  have herr : p.err = code ∧ p.sent = sent ∧ p.calls = calls ∧
      (code ≠ 0 → given = none → p.handle = none ∧ p.released = true) := by
    subst hp
    split_ifs with hfailed
    · exact ⟨rfl, rfl, rfl, fun _ _ => ⟨rfl, rfl⟩⟩
    · refine ⟨rfl, rfl, rfl, fun hcode hnone => absurd ⟨hcode, ?_⟩ hfailed⟩
      rw [hnone]
      rfl
  obtain ⟨herr, hsent, hcalls, hreleased⟩ := herr
  by_cases hcode : code = 0
  · have hno : ¬∃ before h round rest, ResponseT.Comes parser g.handlers .all
        (receiving parser net g) net.rounds before h (round :: rest) ∧
          ResponseT.Errs parser g.handlers .all h round := fun h => herrs.2 h hcode
    rw [or_iff_left hno]
    constructor
    · intro hreports
      obtain ⟨-, hall, hmessage⟩ := hreports.success (herr.trans hcode)
      rw [hsent] at hall
      rw [hcalls] at hmessage
      exact ⟨hall, (hcomplete hcode).1 hmessage⟩
    · rintro ⟨hall, hnever⟩
      refine ⟨fun _ => ⟨hopens, hsent.trans hall, ?_⟩, fun h => absurd (herr.trans hcode) h⟩
      rw [hcalls]
      exact (hcomplete hcode).2 hnever
  · refine iff_of_true ⟨fun h => absurd (herr.symm.trans h) hcode, fun _ hnone => ?_⟩
      (.inr (herrs.1 hcode))
    obtain ⟨hhandle, hdeleted⟩ := hreleased hcode hnone
    exact ⟨hhandle, fun _ => hdeleted⟩

theorem httpPost_reports (hresource : (0 : UInt8) ∉ resource) (htype : (0 : UInt8) ∉ contentType)
    (hreturn : httpPost parser net addr resource contentType data given userdata = some (some p)) :
    p.Reports net (postText addr resource contentType data) data given ↔
      Noticed parser net addr resource contentType data (target given userdata) := by
  have hfails : ∀ sent : Bytes,
      (⟨-1, given.map Given.response, false, false, sent, []⟩ : Posted) = p →
      p.Reports net (postText addr resource contentType data) data given := by
    rintro sent rfl
    refine ⟨fun h => absurd (show (-1 : ℤ) = 0 from h) (by decide), ?_⟩
    rintro - rfl
    exact ⟨rfl, fun h => Bool.noConfusion h⟩
  unfold httpPost at hreturn
  dsimp only at hreturn
  split_ifs at hreturn with hopens hrequest
  · refine iff_of_true (hfails [] (Option.some_inj.1 (Option.some_inj.1 hreturn))) fun h => ?_
    rw [hopens] at h
    cases h
  · exact iff_of_true (hfails _ (Option.some_inj.1 (Option.some_inj.1 hreturn)))
      fun _ => .inl (httpSendRequest_ne_zero.1 hrequest)
  · have hopen : net.opens = true := Bool.eq_true_of_not_eq_false hopens
    have hzero := not_not.1 hrequest
    have htarget : httpReceive parser net
        (httpSendRequest net addr resource contentType data).2 given.isNone
        (target given userdata) = some (some p) := by
      cases given with
      | none => exact hreturn
      | some g => exact hreturn
    rw [httpReceive_reports hopen htarget,
      httpSendRequest_sent (not_mem_postText addr data hresource htype) hzero]
    have hbody : ¬BodyRefused net addr resource contentType data :=
      httpSendRequest_ne_zero.not.1 hrequest
    exact ⟨fun h _ => .inr h, fun h => (h hopen).resolve_left hbody⟩

/-- A call that returns reports its failures exactly if the failure to send the headers and the early
end of a response are noticed. -/
theorem http_post_reports_iff (hresource : (0 : UInt8) ∉ resource)
    (htype : (0 : UInt8) ∉ contentType) :
    (httpPost parser net addr resource contentType data given userdata = some (some p) →
      (p.Reports net (postText addr resource contentType data) data given ↔
        Noticed parser net addr resource contentType data (target given userdata))) ∧
    (httpGet parser net addr resource given userdata = some (some p) →
      (p.Reports net (postText addr resource [] []) [] given ↔
        Noticed parser net addr resource [] [] (target given userdata))) :=
  ⟨httpPost_reports hresource htype, httpPost_reports hresource List.not_mem_nil⟩

end Reports

/-! ### Two calls -/

/-- Every `send` takes all, and the peer answers `HTTP/1.1 204` and an empty line. -/
def answering : Network where
  opens := true
  sends := fun _ => 2048
  behind := fun _ => 0
  socket := Socket.push ResponseT.noContentText []
  rounds := [⟨false, 1⟩, ⟨false, 1⟩]

/-- No `send` succeeds, and the peer closes the connection. -/
def refusing : Network where
  opens := true
  sends := fun _ => -1
  behind := fun _ => 0
  socket := []
  rounds := [⟨false, 1⟩]

theorem tcpSocketSend_all {sends : ℕ → ℤ} {k : ℕ} {data : Bytes} (hdata : data ≠ [])
    (hsend : (data.length : ℤ) ≤ sends k) : tcpSocketSend sends k data = (0, data, k + 1) := by
  have hpos := List.length_pos_iff.2 hdata
  rw [tcpSocketSend, if_neg hdata, if_neg (by omega), if_neg (by omega),
    List.drop_of_length_le (by omega), List.take_of_length_le (by omega), tcpSocketSend, if_pos rfl]
  dsimp only
  rw [List.append_nil]

theorem getHeaders_passed (net : Network) :
    (httpSendRequestHeaders [47] (Addr.addrString (some Addr.newAddr0)) []
      ([] : Bytes).length).passed net.behind = postText Addr.newAddr0 [47] [] [] := by
  have htext : (postText Addr.newAddr0 [47] [] []).length < 2048 := by decide
  exact ((sent_whole_iff (requestText_ne_nil _ _ _ _) (by decide)).2 htext).2 net.behind

theorem answering_noticed : Noticed ResponseT.noContentParser answering Addr.newAddr0 [47] [] []
    (target none ()) := by
  have hsend : httpSendRequest answering Addr.newAddr0 [47] [] [] =
      (0, postText Addr.newAddr0 [47] [] []) := by
    have hall : tcpSocketSend answering.sends 0 (postText Addr.newAddr0 [47] [] []) =
        (0, postText Addr.newAddr0 [47] [] [], 1) :=
      tcpSocketSend_all (postText_ne_nil _ _ _ _)
        (by decide : ((postText Addr.newAddr0 [47] [] []).length : ℤ) ≤ 2048)
    unfold httpSendRequest
    dsimp only
    rw [getHeaders_passed, hall]
    rfl
  have hreturn : httpPost ResponseT.noContentParser answering Addr.newAddr0 [47] [] [] none () =
      some (some ⟨0, some ⟨204, [], false, .all, {}, [0], true⟩, true, false,
        postText Addr.newAddr0 [47] [] [],
        [⟨.messageBegin, 0⟩, ⟨.status [], 0⟩, ⟨.headersComplete .other 204, 0⟩,
          ⟨.messageComplete, 0⟩]⟩) := by
    unfold httpPost
    rw [hsend]
    rfl
  refine ((http_post_reports_iff (by decide) (by decide)).1 hreturn).1 ?_
  exact ⟨fun _ => ⟨rfl, by simp, 0, by simp⟩, fun h => absurd rfl h⟩

/-- The request was not sent and nothing was received, but 0 is returned. -/
theorem refused_request_ok : ∃ p,
    httpPost letters refusing Addr.newAddr0 [47] [] [] none () = some (some p) ∧ p.err = 0 ∧
      p.sent = [] ∧ ¬p.Reports refusing (postText Addr.newAddr0 [47] [] []) []
        (none : Option (Given Unit)) := by
  have hsend : httpSendRequest refusing Addr.newAddr0 [47] [] [] = (0, []) := by
    have hnone : tcpSocketSend refusing.sends 0 (postText Addr.newAddr0 [47] [] []) =
        (-1, [], 1) := by
      rw [tcpSocketSend, if_neg (postText_ne_nil _ _ _ _), if_pos (by decide)]
    unfold httpSendRequest
    dsimp only
    rw [getHeaders_passed, hnone]
    rfl
  refine ⟨⟨0, some ⟨200, [], true, .all, {}, [], false⟩, true, false, [], []⟩, ?_, rfl, rfl,
    fun h => ?_⟩
  · unfold httpPost
    rw [hsend]
    rfl
  · obtain ⟨answer, hmem⟩ := (h.success rfl).2.2
    exact absurd hmem List.not_mem_nil

end Rcom.Http
