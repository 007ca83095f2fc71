import Rcom.HeaderTables

/-!
# The case of header names (request.c, messagehub.c)

A request keeps the names of its headers as they were written and looks for one spelling of each. A
web socket request that is written in another way is not found.
-/

namespace Rcom.Http
open Rcom.Lib

def lower (c : UInt8) : UInt8 := if 65 ≤ c ∧ c ≤ 90 then c + 32 else c

def SameName (a b : CStr) : Prop := a.map lower = b.map lower

instance (a b : CStr) : Decidable (SameName a b) := inferInstanceAs (Decidable (_ = _))

/-- The headers with other cases of letters in their names. -/
def Recased (hs hs' : List HttpHeader) : Prop :=
  List.Forall₂ (fun h h' => SameName h.name h'.name ∧ h.value = h'.value) hs hs'

/-- The request was parsed and these headers were reported for it, in whatever pieces. -/
def Parses (hs : List HttpHeader) (r : Request) : Prop :=
  ∃ url statusCode reads, Reports url hs statusCode reads ∧ url.length < 2048 ∧
    requestParseHtml (reads.map (false, ·)) newRequest = some (0, r)

/-- What is found out about a web socket request: both tests and the key. -/
def websocketVerdict (r : Request) : Bool × Bool × Option CStr :=
  (requestIsWebsocket r, requestIsValidWebsocket r, requestGetHeaderValue r (ascii "Sec-WebSocket-Key"))

/-- A header that, in the right spelling, makes a request a web socket request. -/
def OfWebsocket (h : HttpHeader) : Prop :=
  (SameName h.name (ascii "Sec-WebSocket-Key") ∨ SameName h.name (ascii "Sec-WebSocket-Version")) ∧
      h.value ≠ [] ∨
    SameName h.name (ascii "Upgrade") ∧ h.value = ascii "websocket" ∨
    SameName h.name (ascii "Connection") ∧
      (contains h.value (ascii "Upgrade") ∨ contains h.value (ascii "upgrade"))

instance (h : HttpHeader) : Decidable (OfWebsocket h) := inferInstanceAs (Decidable (_ ∨ _ ∨ _))

instance (h : HttpHeader) : Decidable h.Textual := inferInstanceAs (Decidable (_ ∧ _ ∧ _))

section Values
variable {hs hs' : List HttpHeader} {r : Request} {name value : CStr}

theorem lower_toNat (c : UInt8) :
    (lower c).toNat = if 65 ≤ c.toNat ∧ c.toNat ≤ 90 then c.toNat + 32 else c.toNat := by
  simp only [lower, UInt8.le_iff_toNat_le, UInt8.reduceToNat]
  split_ifs with hcapital
  · have hfits : c.toNat + 32 < 256 := by omega
    exact (UInt8.toNat_add c 32).trans (Nat.mod_eq_of_lt hfits)
  · rfl

theorem lower_eq_zero {c : UInt8} (h : lower c = 0) : c = 0 := by
  have hnat : (lower c).toNat = 0 := by rw [h, UInt8.toNat_zero]
  rw [lower_toNat] at hnat
  rw [← UInt8.toNat_inj, UInt8.toNat_zero]
  split_ifs at hnat
  exact hnat

theorem SameName.textual {h h' : HttpHeader} (hname : SameName h.name h'.name) (hvalue : h.value = h'.value)
    (htext : h.Textual) : h'.Textual := by
  obtain ⟨hne, hzero, hvalue0⟩ := htext
  refine ⟨?_, ?_, hvalue ▸ hvalue0⟩
  · intro hnil
    rw [SameName, hnil, List.map_nil, List.map_eq_nil_iff] at hname
    exact hne hname
  · intro hmem
    have hlower : (0 : UInt8) ∈ h.name.map lower := hname ▸ List.mem_map.2 ⟨0, hmem, rfl⟩
    obtain ⟨c, hc, h0⟩ := List.mem_map.1 hlower
    exact hzero (lower_eq_zero h0 ▸ hc)

theorem Recased.textual (h : Recased hs hs') (htext : ∀ h ∈ hs, h.Textual) : ∀ h ∈ hs', h.Textual := by
  induction h with
  | nil => simp
  | cons hhead _ ih =>
    simp only [List.mem_cons, forall_eq_or_imp] at htext ⊢
    exact ⟨hhead.1.textual hhead.2 htext.1, ih htext.2⟩

theorem lastValue_mem (h : lastValue hs name = some value) :
    ∃ h ∈ hs, h.name = name ∧ h.value ≠ [] ∧ h.value = value := by
  obtain ⟨header, hlast, rfl⟩ := Option.map_eq_some_iff.1 h
  have hmem := List.mem_of_getLast? hlast
  simp only [List.mem_filter, decide_eq_true_eq] at hmem
  exact ⟨header, hmem.1, hmem.2.1, hmem.2.2, rfl⟩

theorem Parses.getHeaderValue (h : Parses hs r) (htext : ∀ h ∈ hs, h.Textual) (name : CStr) :
    requestGetHeaderValue r name = lastValue hs name := by
  obtain ⟨url, statusCode, reads, hreports, hurl, hparse⟩ := h
  obtain ⟨r', cs, hparse', hcs, hheaders⟩ := requestParseHtml_hears hreports hurl
  obtain rfl : r' = r := (Prod.mk.inj (Option.some.inj (hparse'.symm.trans hparse))).2
  rw [requestGetHeaderValue, hheaders]
  exact HeaderReader.table_eq hcs htext name

theorem exists_fragments (hs : List HttpHeader) : ∃ cs, Fragments hs cs := by
  induction hs with
  | nil => exact ⟨[], .nil⟩
  | cons h hs ih =>
    obtain ⟨cs, hcs⟩ := ih
    exact ⟨_, @Fragments.cons h hs cs [h.name] [h.value] (by simp) (by simp) (by simp) (by simp) hcs⟩

theorem exists_parses (hs : List HttpHeader) : ∃ r, Parses hs r := by
  obtain ⟨cs, hcs⟩ := exists_fragments hs
  have hreports : Reports [] hs 0 [⟨1, cs ++ [.headersComplete], 1, 0⟩] := by
    refine ⟨by simp, ⟨[], cs, rfl, hcs, by simp⟩, ⟨[], _, rfl, rfl, by simp⟩⟩
  obtain ⟨r, -, hparse, -⟩ := requestParseHtml_hears hreports (by simp)
  exact ⟨r, [], 0, _, hreports, by simp, hparse⟩

end Values

theorem requestIsWebsocket_iff (r : Request) :
    requestIsWebsocket r ↔
      (requestGetHeaderValue r (ascii "Sec-WebSocket-Key")).isSome ∨
      (requestGetHeaderValue r (ascii "Sec-WebSocket-Version")).isSome ∨
      requestGetHeaderValue r (ascii "Upgrade") = some (ascii "websocket") ∨
      ∃ value ∈ requestGetHeaderValue r (ascii "Connection"),
        contains value (ascii "Upgrade") ∨ contains value (ascii "upgrade") := by
  unfold requestIsWebsocket
  split_ifs with hkey hversion hupgrade
  · exact iff_of_true rfl (.inl hkey)
  · exact iff_of_true rfl (.inr (.inl hversion))
  · exact iff_of_true rfl (.inr (.inr (.inl hupgrade)))
  · rw [or_iff_right hkey, or_iff_right hversion, or_iff_right hupgrade]
    cases requestGetHeaderValue r (ascii "Connection") with
    | none => simp
    | some value => simp

/-! ## What does not depend on the case -/

section Verdict
variable {hs hs' : List HttpHeader} {r : Request}

theorem OfWebsocket.recase {h h' : HttpHeader} (hname : SameName h.name h'.name)
    (hvalue : h.value = h'.value) (hof : OfWebsocket h') : OfWebsocket h := by
  unfold OfWebsocket SameName at *
  rwa [hname, hvalue]

theorem Recased.none (h : Recased hs hs') (hnone : ∀ h ∈ hs, ¬ OfWebsocket h) :
    ∀ h ∈ hs', ¬ OfWebsocket h := by
  induction h with
  | nil => simp
  | cons hhead _ ih =>
    simp only [List.mem_cons, forall_eq_or_imp] at hnone ⊢
    exact ⟨fun hof => hnone.1 (hof.recase hhead.1 hhead.2), ih hnone.2⟩

theorem lastValue_none {name : CStr} (h : ∀ h ∈ hs, SameName h.name name → h.value = []) :
    lastValue hs name = none := by
  rw [Option.eq_none_iff_forall_ne_some]
  intro value hvalue
  obtain ⟨header, hmem, hname, hne, -⟩ := lastValue_mem hvalue
  exact hne (h header hmem (congrArg _ hname))

/-- Without such a header, in any spelling, the request is no web socket request. -/
theorem verdict_none (hparse : Parses hs r) (htext : ∀ h ∈ hs, h.Textual)
    (hnone : ∀ h ∈ hs, ¬ OfWebsocket h) : websocketVerdict r = (false, false, none) := by
  have hget := hparse.getHeaderValue htext
  have hkey : requestGetHeaderValue r (ascii "Sec-WebSocket-Key") = none :=
    (hget _).trans (lastValue_none fun h hh hname => by_contra fun hne =>
      hnone h hh (.inl ⟨.inl hname, hne⟩))
  have hversion : requestGetHeaderValue r (ascii "Sec-WebSocket-Version") = none :=
    (hget _).trans (lastValue_none fun h hh hname => by_contra fun hne =>
      hnone h hh (.inl ⟨.inr hname, hne⟩))
  have hnot : ¬ requestIsWebsocket r := by
    rw [requestIsWebsocket_iff, hkey, hversion, hget, hget]
    rintro (h | h | hupgrade | ⟨value, hconnection, hcontains⟩)
    · exact Bool.noConfusion h
    · exact Bool.noConfusion h
    · obtain ⟨h, hh, hname, -, heq⟩ := lastValue_mem hupgrade
      exact hnone h hh (.inr (.inl ⟨congrArg _ hname, heq⟩))
    · obtain ⟨h, hh, hname, -, rfl⟩ := lastValue_mem hconnection
      exact hnone h hh (.inr (.inr ⟨congrArg _ hname, hcontains⟩))
  rw [websocketVerdict, requestIsValidWebsocket, hkey, Bool.eq_false_of_not_eq_true hnot]

/-! ## What depends on it -/

def inLower (h : HttpHeader) : HttpHeader := ⟨h.name.map lower, h.value⟩

theorem lower_lower (c : UInt8) : lower (lower c) = lower c := by
  rw [← UInt8.toNat_inj, lower_toNat, lower_toNat]
  split_ifs <;> omega

theorem sameName_lower (name : CStr) : SameName name (name.map lower) := by
  rw [SameName, List.map_map]
  exact List.map_congr_left fun c _ => (lower_lower c).symm

theorem recased_inLower (hs : List HttpHeader) : Recased hs (hs.map inLower) := by
  induction hs with
  | nil => exact .nil
  | cons h hs ih => exact .cons ⟨sameName_lower h.name, rfl⟩ ih

theorem filter_inLower {name : CStr} (hname : name.map lower ≠ name) (hs : List HttpHeader) :
    (hs.map inLower).filter (fun h => h.name = name ∧ h.value ≠ []) = [] := by
  rw [List.filter_eq_nil_iff]
  intro h hh
  obtain ⟨h', -, rfl⟩ := List.mem_map.1 hh
  rw [decide_eq_true_iff]
  rintro ⟨rfl, -⟩
  exact hname (sameName_lower h'.name).symm

theorem lastValue_inLower {name : CStr} (hname : name.map lower ≠ name) (hs : List HttpHeader) :
    lastValue (hs.map inLower) name = none := by
  rw [lastValue, filter_inLower hname]
  rfl

def spelled (name value : CStr) (front back : List HttpHeader) : List HttpHeader :=
  front.map inLower ++ ⟨name, value⟩ :: back.map inLower

theorem lastValue_spelled {name value : CStr} (hname : name.map lower ≠ name) (hvalue : value ≠ [])
    (front back : List HttpHeader) : lastValue (spelled name value front back) name = some value := by
  rw [lastValue, spelled, List.filter_append, filter_inLower hname, List.filter_cons_of_pos (by simpa),
    filter_inLower hname]
  rfl

theorem recased_spelled {h : HttpHeader} {name : CStr} (hname : SameName h.name name)
    (front back : List HttpHeader) :
    Recased (front ++ h :: back) (spelled name h.value front back) :=
  List.rel_append (recased_inLower front) (.cons ⟨hname, rfl⟩ (recased_inLower back))

/-- Such a header, spelled as the code does, makes a web socket request of the request. -/
theorem exists_spelling {h : HttpHeader} (hof : OfWebsocket h) (front back : List HttpHeader)
    (htext : ∀ h' ∈ front ++ h :: back, h'.Textual) :
    ∃ hs', Recased (front ++ h :: back) hs' ∧ ∀ r, Parses hs' r → requestIsWebsocket r = true := by
  have hfinds : ∀ {name : CStr}, SameName h.name name → h.value ≠ [] → name.map lower ≠ name →
      ∀ r, Parses (spelled name h.value front back) r →
        requestGetHeaderValue r name = some h.value := by
    intro name hname hvalue hcapital r hr
    rw [hr.getHeaderValue ((recased_spelled hname front back).textual htext)]
    exact lastValue_spelled hcapital hvalue front back
  rcases hof with ⟨hname | hname, hvalue⟩ | ⟨hname, hvalue⟩ | ⟨hname, hcontains⟩
  · refine ⟨_, recased_spelled hname front back, fun r hr => (requestIsWebsocket_iff r).2 (.inl ?_)⟩
    rw [hfinds hname hvalue (by decide) r hr]
    rfl
  · refine ⟨_, recased_spelled hname front back, fun r hr =>
      (requestIsWebsocket_iff r).2 (.inr (.inl ?_))⟩
    rw [hfinds hname hvalue (by decide) r hr]
    rfl
  · refine ⟨_, recased_spelled hname front back, fun r hr =>
      (requestIsWebsocket_iff r).2 (.inr (.inr (.inl ?_)))⟩
    rw [hfinds hname (by rw [hvalue]; decide) (by decide) r hr, hvalue]
  · have hvalue : h.value ≠ [] := by
      intro hnil
      rw [hnil] at hcontains
      revert hcontains
      decide
    refine ⟨_, recased_spelled hname front back, fun r hr =>
      (requestIsWebsocket_iff r).2 (.inr (.inr (.inr ⟨h.value, ?_, hcontains⟩)))⟩
    exact hfinds hname hvalue (by decide) r hr

theorem not_websocket_inLower (htext : ∀ h ∈ hs, h.Textual) (hr : Parses (hs.map inLower) r) :
    requestIsWebsocket r = false := by
  have hget := fun name => hr.getHeaderValue ((recased_inLower hs).textual htext) name
  rw [← Bool.not_eq_true, requestIsWebsocket_iff, hget, hget, hget, hget,
    lastValue_inLower (by decide), lastValue_inLower (by decide), lastValue_inLower (by decide),
    lastValue_inLower (by decide)]
  simp

/-- The case of the names does not matter exactly if there is none of these headers, in any spelling. -/
theorem case_ignored_iff {hs : List HttpHeader} (htext : ∀ h ∈ hs, h.Textual) :
    (∀ hs' r r', Recased hs hs' → Parses hs r → Parses hs' r' →
      websocketVerdict r' = websocketVerdict r) ↔ ∀ h ∈ hs, ¬ OfWebsocket h := by
  constructor
  · intro hsame h hh hof
    obtain ⟨front, back, rfl⟩ := List.append_of_mem hh
    obtain ⟨hs', hrecased, hfound⟩ := exists_spelling hof front back htext
    obtain ⟨r, hr⟩ := exists_parses (front ++ h :: back)
    obtain ⟨found, hparse⟩ := exists_parses hs'
    obtain ⟨lost, hparse'⟩ := exists_parses ((front ++ h :: back).map inLower)
    have hboth : requestIsWebsocket found = requestIsWebsocket lost :=
      congrArg Prod.fst ((hsame _ r found hrecased hr hparse).trans
        (hsame _ r lost (recased_inLower _) hr hparse').symm)
    rw [hfound found hparse, not_websocket_inLower htext hparse'] at hboth
    exact Bool.noConfusion hboth
  · intro hnone hs' r r' hrecased hr hr'
    rw [verdict_none hr htext hnone,
      verdict_none hr' (hrecased.textual htext) (hrecased.none hnone)]

end Verdict

def pageHeaders : List HttpHeader := [⟨ascii "Host", ascii "hub"⟩, ⟨ascii "UPGRADE", ascii "h2c"⟩]

theorem page_in_any_case : (∀ h ∈ pageHeaders, ¬ OfWebsocket h) ∧
    ∀ hs' r r', Recased pageHeaders hs' → Parses pageHeaders r → Parses hs' r' →
      websocketVerdict r' = websocketVerdict r := by
  have hnone : ∀ h ∈ pageHeaders, ¬ OfWebsocket h := by decide
  exact ⟨hnone, (case_ignored_iff (by decide)).2 hnone⟩

def clientHeaders : List HttpHeader :=
  [⟨ascii "Connection", ascii "Upgrade"⟩, ⟨ascii "Upgrade", ascii "websocket"⟩,
    ⟨ascii "Sec-WebSocket-Version", ascii "13"⟩,
    ⟨ascii "Sec-WebSocket-Key", ascii "dGhlIHNhbXBsZSBub25jZQ=="⟩]

/-- The same request with its names in small letters is taken for a plain one. -/
theorem small_letters_missed : Recased clientHeaders (clientHeaders.map inLower) ∧
    ∃ r r', Parses clientHeaders r ∧ Parses (clientHeaders.map inLower) r' ∧
      websocketVerdict r = (true, true, some (ascii "dGhlIHNhbXBsZSBub25jZQ==")) ∧
      websocketVerdict r' = (false, false, none) := by
  have htext : ∀ h ∈ clientHeaders, h.Textual := by decide
  have hrecased := recased_inLower clientHeaders
  obtain ⟨r, hr⟩ := exists_parses clientHeaders
  obtain ⟨r', hr'⟩ := exists_parses (clientHeaders.map inLower)
  have hget := hr.getHeaderValue htext
  have hget' := hr'.getHeaderValue (hrecased.textual htext)
  refine ⟨hrecased, r, r', hr, hr', ?_, ?_⟩
  · simp only [websocketVerdict, requestIsWebsocket, requestIsValidWebsocket, hget]
    decide
  · simp only [websocketVerdict, requestIsWebsocket, requestIsValidWebsocket, hget']
    decide

end Rcom.Http
