import Rcom.Reading

/-!
# Whole messages (messagelink.c)

`_messagelink_read` hands out the payload of a text frame whether its FIN bit is set or
not.
-/

namespace Rcom.Messagelink
open Rcom.Lib Rcom.Lib.Program Rcom.Lib.Trace Rcom.Lib.Rfc6455
open Rcom.ClientLink (LinkState)

variable {J : Type} {L : JsonLib J} {isClient : Bool}

section Values
variable {fs : List Frame} {s t : Session J} {rs : List (Option J)}

theorem Handles.value {r : Option J} {next : Option (List Frame)}
    (h : Handles L isClient fs s r next t) {v : J} (hr : r = some v) :
    ∃ pre f rest, fs = pre ++ f :: rest ∧ f ∈ handled isClient fs ∧ f.opcode = 1 ∧
      parseText L f.payload = some v ∧ next = some rest := by
  obtain ⟨pre, rest, u, rfl, hpass, hstop⟩ := h
  rw [hpass.handled]
  cases hstop with
  | @text f fs _ p hp hf hop =>
    refine ⟨pre, f, fs, rfl, ?_, hop, hr, rfl⟩
    rw [handled_cons hf]
    simp
  | _ => cases hr

/-- A call leaves the last frames, and handles those that it takes. -/
theorem Handles.rest {r : Option J} {rest : List Frame}
    (h : Handles L isClient fs s r (some rest) t) :
    ∃ pre, fs = pre ++ rest ∧ handled isClient fs = pre ++ handled isClient rest := by
  obtain ⟨pre, rest', u, rfl, hpass, hstop⟩ := h
  rw [hpass.handled]
  cases hstop with
  | quits p hp hquit => exact ⟨pre, rfl, rfl⟩
  | @text f _ _ p hp hf hop =>
    refine ⟨pre ++ [f], by simp, ?_⟩
    rw [handled_cons hf]
    simp

/-- What the last call returns is the value of the frame read last. -/
theorem Calls.value (h : Calls L isClient (some fs) s rs t) (hs : Stands isClient (some fs) s) {v : J}
    (hv : rs.getLast? = some (some v)) :
    ∃ pre f rest, fs = pre ++ f :: rest ∧ f ∈ handled isClient fs ∧ f.opcode = 1 ∧
      parseText L f.payload = some v ∧ Stands isClient (some rest) t := by
  generalize hnext : some fs = next at h
  induction h generalizing fs with
  | nil => cases hv
  | closed hrest ih => cases hnext
  | @read fs s t u r next rs h hrest ih =>
    obtain rfl := Option.some.inj hnext
    have hu := h.stands hs
    rw [List.getLast?_cons, Option.some.injEq] at hv
    cases hlast : rs.getLast? with
    | none =>
      obtain rfl := List.getLast?_eq_none_iff.1 hlast
      cases hrest
      obtain ⟨pre, f, rest, rfl, hf, hop, hparse, rfl⟩ := h.value hv
      exact ⟨pre, f, rest, rfl, hf, hop, hparse, hu⟩
    | some last =>
      obtain rfl : last = some v := by rwa [hlast] at hv
      cases next with
      | none =>
        obtain ⟨k, hnone⟩ := hrest.closed_none
        rw [hnone] at hlast
        simp [List.getLast?_replicate] at hlast
      | some fs' =>
        obtain ⟨pre', rfl, hhandled⟩ := h.rest
        obtain ⟨pre, f, rest, rfl, hf, hop, hparse, ht⟩ := ih hu hlast rfl
        refine ⟨pre' ++ pre, f, rest, by simp, ?_, hop, hparse, ht⟩
        rw [hhandled]
        exact List.mem_append_right _ hf

end Values

/-! ## What may be handed out -/

/-- The frame before `rest` brings a text message to its end, and this is the value of the message. -/
def CompletesValue (L : JsonLib J) (fs rest : List Frame) (v : J) : Prop :=
  ∃ pre f payload, fs = pre ++ f :: rest ∧
    messages none (pre ++ [f]) = messages none pre ++ [⟨1, payload⟩] ∧
    parseText L payload = some v

/-- Whatever a call returns is the value of the message that the frame read last completes. -/
def OnlyWhole (L : JsonLib J) (isClient : Bool) (fs : List Frame) : Prop :=
  ∀ (s t : Session J) (n k : ℕ) (ms : List (Move _ _)) (rs : List (Option J)) (v : J),
    Stands isClient (some fs) s → fs.length + s.patience + 1 < n →
    Run (Steps Session.Does) (s, readTimes L isClient n k) ms (t, .ret rs) →
    rs.getLast? = some (some v) →
    ∃ rest, Stands isClient (some rest) t ∧ CompletesValue L fs rest v

/-- No text frame without FIN that is handled holds a JSON value. -/
def PartsUnparsed (L : JsonLib J) (isClient : Bool) (fs : List Frame) : Prop :=
  ∀ f ∈ handled isClient fs, f.opcode = 1 → f.fin = false → parseText L f.payload = none

section Whole
variable {fs : List Frame}

theorem onlyWhole_of_parts (hfs : Conforms (!isClient) false fs) (h : PartsUnparsed L isClient fs) :
    OnlyWhole L isClient fs := by
  intro s t n k ms rs v hs hn hrun hv
  have hcalls : Returns (fun rs u => Calls L isClient (some fs) s rs u)
      (readTimes L isClient n k) s := by
    apply returns_readTimes hs
    · intro fs' hfs'
      obtain rfl := Option.some.inj hfs'
      exact hn
    · exact fun rs u hu _ => hu
  have hd := wp_steps hrun hcalls
  obtain ⟨pre, f, rest, rfl, hf, hop, hparse, ht⟩ := hd.value hs hv
  refine ⟨rest, ht, pre, f, f.payload, rfl, ?_, hparse⟩
  have hfin : f.fin = true := by
    by_contra hfin
    rw [h f hf hop (Bool.eq_false_iff.2 hfin)] at hparse
    cases hparse
  have hcontrol : ¬ f.Control := by
    rw [Frame.Control, hop]
    decide
  rw [← hop]
  exact @Conforms.whole _ none _ _ _ hfs hcontrol (by rw [hop]; decide) hfin

theorem keys_of_conforms (hfs : Conforms (!isClient) false fs) :
    ∀ f ∈ fs, isClient = true → f.key = none := by
  intro f hf hclient
  have hkey := hfs.key f hf
  simpa [hclient] using hkey

/-- Some run returns the value of a part just when the part has been read. -/
theorem parts_of_onlyWhole (hfs : Conforms (!isClient) false fs) (h : OnlyWhole L isClient fs) :
    PartsUnparsed L isClient fs := by
  intro f hf hop hfin
  obtain ⟨good, later, hsplit⟩ := List.append_of_mem hf
  obtain ⟨post, rfl⟩ : ∃ post, fs = good ++ f :: post := by
    obtain ⟨tail, htail⟩ := List.takeWhile_prefix (l := fs) fun f => ¬ Ends isClient f
    refine ⟨later ++ tail, ?_⟩
    rw [← htail, ← handled, hsplit]
    simp
  have hnot : ∀ g ∈ handled isClient (good ++ f :: post), ¬ Ends isClient g := fun g hg => by
    simpa using List.mem_takeWhile_imp hg
  have hs : Stands isClient (some (good ++ f :: post))
      (listening isClient (good ++ f :: post) : Session J) :=
    listening_stands (keys_of_conforms hfs)
  have hn : (good ++ f :: post).length +
      (listening isClient (good ++ f :: post) : Session J).patience + 1 <
        (good ++ f :: post).length + 2 := by simp [listening]
  have hcalls : Returns (fun rs t => rs.getLast? = some (parseText L f.payload) ∧
      Stands isClient (some post) t)
      (readTimes L isClient ((good ++ f :: post).length + 2) ((payloadsOf 1 good).length + 1))
      (listening isClient (good ++ f :: post)) := by
    apply returns_readTimes hs
    · intro fs' hfs'
      obtain rfl := Option.some.inj hfs'
      exact hn
    · intro rs t ht hlen
      exact ht.reaches hs (fun g hg => hnot g (by simp [hsplit, hg])) (hnot f hf) hop rfl hlen
  obtain ⟨ms, rs, t, hrun, ⟨hlast, ht⟩, -⟩ := hcalls.exists_run
  cases hparse : parseText L f.payload with
  | none => rfl
  | some v =>
    rw [hparse] at hlast
    obtain ⟨rest, hrest, pre, g, payload, heq, hmessages, -⟩ := h _ _ _ _ _ _ v hs hn hrun hlast
    have hsame : rest = post := by
      have hsuffix : rest <:+ good ++ f :: post := ⟨pre ++ [g], by simp [heq]⟩
      apply eq_of_suffix hsuffix ⟨good ++ [f], by simp⟩
      rw [← hrest.2.2.arrives.arrived, ht.2.2.arrives.arrived]
    subst hsame
    obtain ⟨rfl, hgf⟩ := List.append_inj' heq rfl
    obtain rfl := (List.cons.inj hgf).1
    rw [messages_snoc (.inr hfin)] at hmessages
    simp at hmessages

theorem onlyWhole_iff (L : JsonLib J) {isClient : Bool} {fs : List Frame}
    (hfs : Conforms (!isClient) false fs) :
    OnlyWhole L isClient fs ↔ PartsUnparsed L isClient fs :=
  ⟨parts_of_onlyWhole hfs, onlyWhole_of_parts hfs⟩

end Whole

/-! ### A message in two frames -/

/-- The text `12`, split. -/
def splitText : List Frame := [serverFrame false 1 [49], serverFrame true 0 [50]]

theorem splitText_conforms : Conforms (!true) false splitText := by
  simp [splitText, Conforms, Frame.Control]

theorem split_text_is_not_whole :
    Conforms (!true) false splitText ∧ ¬ OnlyWhole valueLib true splitText := by
  refine ⟨splitText_conforms, fun h => ?_⟩
  have hhandled : serverFrame false 1 [49] ∈ handled true splitText := by
    simp [handled, splitText, Ends, Bare]
  have hnone := parts_of_onlyWhole splitText_conforms h _ hhandled rfl rfl
  have hsome : parseText valueLib (serverFrame false 1 [49]).payload = some (.num [49]) := rfl
  rw [hsome] at hnone
  cases hnone

/-- The same text in one frame, and then a text that is split behind its bracket. -/
def wholeText : List Frame :=
  [serverFrame true 1 [49, 50], serverFrame false 1 [91], serverFrame true 0 [93]]

theorem wholeText_onlyWhole : OnlyWhole valueLib true wholeText := by
  have hconforms : Conforms (!true) false wholeText := by simp [wholeText, Conforms, Frame.Control]
  apply (onlyWhole_iff valueLib hconforms).2
  intro f hf _ hfin
  have hf' := (List.takeWhile_sublist _).subset hf
  rw [wholeText, List.mem_cons, List.mem_cons, List.mem_singleton] at hf'
  rcases hf' with rfl | rfl | rfl
  · cases hfin
  · rfl
  · cases hfin

end Rcom.Messagelink
