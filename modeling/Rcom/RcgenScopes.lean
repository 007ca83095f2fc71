import Rcom.JsonObject
import Rcom.Rcgen

/-!
# Scopes of generated programs (rcgen.cpp)

What each pass prints declares and defines the handlers of the entries of `com`. Their names tell the
topic, so each is defined by the entry that declares it or by none.
-/

namespace Rcom.Rcgen
open Rcom.Lib Rcom.Lib.Scopes

def tokens (ps : List Piece) : List (Token CStr) := ps.map (·.token)

@[simp]
theorem tokens_append (ps qs : List Piece) : tokens (ps ++ qs) = tokens ps ++ tokens qs := List.map_append

@[simp]
theorem tokens_cons (t : Token CStr) (f : String) (args : List CStr) (ps : List Piece) :
    tokens (piece t f args :: ps) = t :: tokens ps := rfl

@[simp]
theorem tokens_nil : tokens [] = [] := rfl

@[simp]
theorem token_piece (t : Token CStr) (f : String) (args : List CStr) : (piece t f args).token = t := rfl

section Printing
variable {J : Type} {L : CodeLib J} {name topic : CStr} {obj : J} {ps : List Piece}

theorem bind_eq_ok {α β : Type} {x : Except ℤ α} {f : α → Except ℤ β} {b : β} (h : (x >>= f) = .ok b) :
    ∃ a, x = .ok a ∧ f a = .ok b := by
  cases x with
  | error e => cases h
  | ok a => exact ⟨a, rfl, h⟩

theorem printEach_ok {print : J → Printing} {l : List J} (h : printEach print l = .ok ps) :
    ∃ blocks, List.Forall₂ (fun obj block => print obj = .ok block) l blocks ∧ ps = blocks.flatten := by
  induction l generalizing ps with
  | nil =>
    cases h
    exact ⟨[], .nil, rfl⟩
  | cons obj l ih =>
    obtain ⟨front, hfront, hrest⟩ := bind_eq_ok h
    obtain ⟨back, hback, heq⟩ := bind_eq_ok hrest
    obtain ⟨blocks, hblocks, rfl⟩ := ih hback
    cases heq
    exact ⟨front :: blocks, .cons hfront hblocks, rfl⟩

/-! ## Names -/

def LikeHandler (f : CStr) : Prop := f.take 2 = ascii "me"

instance : DecidablePred LikeHandler := fun _ => inferInstanceAs (Decidable (_ = _))

theorem likeHandler_onconnect (topic : CStr) : LikeHandler (onconnectName topic) := rfl

theorem likeHandler_onmessage (topic : CStr) : LikeHandler (onmessageName topic) := rfl

theorem not_likeHandler_getter {f : CStr} (h : f.take 2 = ascii "ge") : ¬ LikeHandler f := by
  rw [LikeHandler, h]
  decide

theorem onconnectName_injective {a b : CStr} (h : onconnectName a = onconnectName b) : a = b :=
  List.append_cancel_left (List.append_cancel_right h)

theorem onmessageName_injective {a b : CStr} (h : onmessageName a = onmessageName b) : a = b :=
  List.append_cancel_left (List.append_cancel_right h)

theorem onconnectName_ne (a b : CStr) : onconnectName a ≠ onmessageName b := by
  intro h
  have hlast := congrArg List.getLast? h
  rw [onconnectName, onmessageName, List.getLast?_append_of_ne_nil _ (by decide),
    List.getLast?_append_of_ne_nil _ (by decide)] at hlast
  exact absurd hlast (by decide)

def handlerNames (L : CodeLib J) (obj : J) : List CStr :=
  if typeOf L obj = ascii "controller" then
    [onconnectName (topicOf L obj), onmessageName (topicOf L obj)]
  else if typeOf L obj = ascii "messagehub" ∧ str L obj "onmessage" ≠ none then
    [onconnectName (topicOf L obj)]
  else []

def Silent (L : CodeLib J) (obj : J) : Prop :=
  typeOf L obj = ascii "controller" ∧ L.jsonIsnull (L.jsonObjectGet obj (ascii "commands")) = true

theorem handlerNames_spec {f : CStr} (h : f ∈ handlerNames L obj) :
    f = onconnectName (topicOf L obj) ∨ f = onmessageName (topicOf L obj) := by
  unfold handlerNames at h
  split_ifs at h
  · simpa using h
  · exact .inl (by simpa using h)
  · cases h

theorem likeHandler_of_mem {f : CStr} (h : f ∈ handlerNames L obj) : LikeHandler f := by
  obtain rfl | rfl := handlerNames_spec h
  · exact likeHandler_onconnect _
  · exact likeHandler_onmessage _

theorem topic_of_mem {f : CStr} {d : J} (h : f ∈ handlerNames L obj) (hd : f ∈ handlerNames L d) :
    topicOf L d = topicOf L obj := by
  obtain rfl | rfl := handlerNames_spec h
  · obtain heq | heq := handlerNames_spec hd
    · exact (onconnectName_injective heq).symm
    · exact absurd heq (onconnectName_ne _ _)
  · obtain heq | heq := handlerNames_spec hd
    · exact absurd heq.symm (onconnectName_ne _ _)
    · exact (onmessageName_injective heq).symm

theorem handlerNames_nodup (obj : J) : (handlerNames L obj).Nodup := by
  unfold handlerNames
  split_ifs
  · simpa using onconnectName_ne _ _
  · exact List.nodup_singleton _
  · exact List.nodup_nil

/-! ## Declarations -/

/-- A function that gets the object, and the declarations of the handlers. -/
theorem tokens_decl (obj : J) : ∃ getter, ¬ LikeHandler getter ∧
    tokens (printComDeclI L obj) =
      [.other, .define getter, .other, .close] ++ (handlerNames L obj).map .declare := by
  unfold printComDeclI handlerNames
  dsimp only
  by_cases hcontroller : typeOf L obj = ascii "controller"
  · simp only [if_pos hcontroller]
    exact ⟨ascii "get_messagehub_" ++ topicOf L obj, not_likeHandler_getter rfl, rfl⟩
  · simp only [if_neg hcontroller]
    refine ⟨ascii "get_" ++ typeOf L obj ++ ascii "_" ++ topicOf L obj, not_likeHandler_getter rfl, ?_⟩
    rw [tokens_append]
    congr 1
    by_cases hhub : typeOf L obj = ascii "messagehub"
    · cases hmessage : str L obj "onmessage" with
      | none => simp [hhub]
      | some onmessage => simp [hhub]
    · simp [hhub]

/-! ## Initialisation -/

/-- What an entry prints into `init_com`. -/
structure InitBlock (L : CodeLib J) (obj : J) (ts : List (Token CStr)) (rest : List (Token CStr)) :
    Prop where
  tokens : ts = (if typeOf L obj = ascii "service" then [.var (ascii "err")] else []) ++ rest
  flat : ∀ t ∈ rest, t.Flat
  mentions : ∀ f ∈ mentions rest, f ∈ handlerNames L obj

theorem InitBlock.of_flat {ts : List (Token CStr)} (hservice : typeOf L obj ≠ ascii "service")
    (hflat : ∀ t ∈ ts, t.Flat) (hmentions : ∀ f ∈ Scopes.mentions ts, f ∈ handlerNames L obj) :
    InitBlock L obj ts ts :=
  ⟨by rw [if_neg hservice, List.nil_append], hflat, hmentions⟩

theorem InitBlock.created (hservice : typeOf L obj ≠ ascii "service") :
    InitBlock L obj [.other, .ifBranch] [.other, .ifBranch] :=
  .of_flat hservice (by simp [Token.Flat]) (by simp [Scopes.mentions, Token.mention?])

theorem InitBlock.connected (hservice : typeOf L obj ≠ ascii "service")
    (hmem : onconnectName (topicOf L obj) ∈ handlerNames L obj) :
    InitBlock L obj [.refer (onconnectName (topicOf L obj)), .ifBranch]
      [.refer (onconnectName (topicOf L obj)), .ifBranch] :=
  .of_flat hservice (by simp [Token.Flat]) (by simpa [Scopes.mentions, Token.mention?] using hmem)

theorem InitBlock.other {ts : List (Token CStr)} (h : InitBlock L obj ts ts)
    (hservice : typeOf L obj ≠ ascii "service") : InitBlock L obj (ts ++ [.other]) (ts ++ [.other]) := by
  refine .of_flat hservice (fun t ht => ?_) (fun f hf => h.mentions f ?_)
  · obtain ht | ht := List.mem_append.1 ht
    · exact h.flat t ht
    · rw [List.mem_singleton.1 ht]
      trivial
  · simpa [Scopes.mentions, Token.mention?] using hf

theorem initBlock_messagehub (htype : typeOf L obj = ascii "messagehub")
    (h : printNewMessagehub L name (topicOf L obj) obj = .ok ps) :
    InitBlock L obj (tokens ps) (tokens ps) := by
  have hservice : typeOf L obj ≠ ascii "service" := by
    rw [htype]
    decide
  obtain ⟨port, -, h⟩ := bind_eq_ok h
  split_ifs at h with hboth
  obtain rfl := Except.ok.inj h
  have hconnected : str L obj "onmessage" ≠ none →
      onconnectName (topicOf L obj) ∈ handlerNames L obj := by
    intro hmessage
    rw [handlerNames, htype, if_neg (by decide), if_pos ⟨rfl, hmessage⟩]
    exact List.mem_singleton_self _
  cases hconnect : str L obj "onconnect" with
  | some onconnect =>
    cases str L obj "onrequest" with
    | none => exact .created hservice
    | some onrequest => exact (InitBlock.created hservice).other hservice
  | none =>
    cases hmessage : str L obj "onmessage" with
    | none =>
      cases str L obj "onrequest" with
      | none => exact .created hservice
      | some onrequest => exact (InitBlock.created hservice).other hservice
    | some onmessage =>
      have hmem := hconnected (by simp [hmessage])
      cases str L obj "onrequest" with
      | none => exact .connected hservice hmem
      | some onrequest => exact (InitBlock.connected hservice hmem).other hservice

theorem tokens_resource {userdata : CStr} (h : printResource L topic userdata obj = .ok ps) :
    tokens ps = [.other, .other, .other, .other, .ifBranch] := by
  unfold printResource at h
  split_ifs at h
  split at h
  · obtain rfl := Except.ok.inj h
    cases str L obj "mimetype_in" <;> rfl
  · cases h

theorem resources_flat {userdata : CStr} {l : List J}
    (h : printEach (printResource L topic userdata) l = .ok ps) :
    (∀ t ∈ tokens ps, t.Flat) ∧ Scopes.mentions (tokens ps) = [] := by
  obtain ⟨blocks, hblocks, rfl⟩ := printEach_ok h
  clear h
  induction hblocks with
  | nil => exact ⟨by simp, rfl⟩
  | cons hblock _ ih =>
    rw [List.flatten_cons, tokens_append, tokens_resource hblock, mentions_append, ih.2]
    exact ⟨by simpa [Token.Flat] using ih.1, rfl⟩

theorem initBlock_service (htype : typeOf L obj = ascii "service")
    (h : printNewService L name (topicOf L obj) obj = .ok ps) :
    ∃ rest, InitBlock L obj (tokens ps) rest := by
  obtain ⟨port, -, h⟩ := bind_eq_ok h
  dsimp only at h
  split_ifs at h
  obtain ⟨exports, hexports, h⟩ := bind_eq_ok h
  obtain rfl := Except.ok.inj h
  obtain ⟨hflat, hmentions⟩ := resources_flat hexports
  refine ⟨[.other, .ifBranch] ++ tokens exports, ?_, ?_, ?_⟩
  · rw [if_pos htype]
    rfl
  · simpa [Token.Flat] using hflat
  · rw [mentions_append, hmentions]
    simp [Scopes.mentions, Token.mention?]

theorem init_block (h : printComInitI L name obj = .ok ps) : ∃ rest, InitBlock L obj (tokens ps) rest := by
  unfold printComInitI at h
  dsimp only at h
  split_ifs at h with h₁ h₂ h₃ h₄ h₅ h₆ h₇ h₈
  · cases h
    exact ⟨_, .created (by rw [h₁]; decide)⟩
  · cases h
    exact ⟨_, .created (by rw [h₂]; decide)⟩
  · exact ⟨_, initBlock_messagehub h₃ h⟩
  · cases h
    exact ⟨_, .created (by rw [h₄]; decide)⟩
  · obtain ⟨port, -, h⟩ := bind_eq_ok h
    cases h
    refine ⟨_, .connected (by rw [h₅]; decide) ?_⟩
    rw [handlerNames, if_pos h₅]
    exact List.mem_cons_self
  · exact initBlock_service h₆ h
  · obtain ⟨port, -, h⟩ := bind_eq_ok h
    split at h
    · cases h
    · cases h
      exact ⟨_, .created (by rw [h₇]; decide)⟩
  · unfold printNewStreamerlink at h
    split at h
    · cases h
    · cases h
      exact ⟨_, .created (by rw [h₈]; decide)⟩

theorem InitBlock.definitions {ts rest : List (Token CStr)} (h : InitBlock L obj ts rest) :
    definitions ts = [] := by
  rw [h.tokens, definitions_append, definitions_flat h.flat, List.append_nil]
  split_ifs <;> rfl

theorem InitBlock.mentions_mem {ts rest : List (Token CStr)} (h : InitBlock L obj ts rest) {f : CStr}
    (hf : f ∈ Scopes.mentions ts) : f ∈ handlerNames L obj := by
  rw [h.tokens, mentions_append] at hf
  refine h.mentions f ?_
  split_ifs at hf <;> exact hf

theorem InitBlock.branches {ts rest : List (Token CStr)} (h : InitBlock L obj ts rest) :
    ElseFollows false ts := by
  rw [h.tokens]
  have hrest : ElseFollows false rest := elseFollows_flat h.flat
  split_ifs <;> exact hrest

theorem InitBlock.locals {ts rest us : List (Token CStr)} (h : InitBlock L obj ts rest) (xs : List CStr) :
    LocalsDistinct xs (ts ++ us) ↔
      if typeOf L obj = ascii "service" then
        ascii "err" ∉ xs ∧ LocalsDistinct (ascii "err" :: xs) us
      else LocalsDistinct xs us := by
  rw [h.tokens, localsDistinct_append]
  split_ifs
  · simp [LocalsDistinct, localsAfter, localsDistinct_flat h.flat, localsAfter_flat h.flat]
  · simp [localsDistinct_flat h.flat, localsAfter_flat h.flat]

/-- `init_com` is right about variables unless two entries declare the same one. -/
theorem init_locals {l : List J} (h : printEach (printComInitI L name) l = .ok ps) (xs : List CStr) :
    LocalsDistinct xs (tokens ps) ↔
      l.countP (fun obj => typeOf L obj = ascii "service") + (if ascii "err" ∈ xs then 1 else 0) ≤ 1 := by
  obtain ⟨blocks, hblocks, rfl⟩ := printEach_ok h
  clear h
  induction hblocks generalizing xs with
  | nil =>
    simp only [List.flatten_nil, tokens_nil, LocalsDistinct, List.countP_nil, true_iff]
    split_ifs <;> decide
  | @cons obj block l blocks hblock _ ih =>
    obtain ⟨rest, hinit⟩ := init_block hblock
    rw [List.flatten_cons, tokens_append, hinit.locals, List.countP_cons]
    by_cases hservice : typeOf L obj = ascii "service"
    · by_cases hxs : ascii "err" ∈ xs
      · simp [hservice, hxs]
      · simp [hservice, hxs, ih]
    · simp [hservice, ih]

theorem init_parts {l : List J} (h : printEach (printComInitI L name) l = .ok ps) :
    definitions (tokens ps) = [] ∧ (∀ f ∈ mentions (tokens ps), f ∈ l.flatMap (handlerNames L)) ∧
      ElseFollows false (tokens ps) := by
  obtain ⟨blocks, hblocks, rfl⟩ := printEach_ok h
  clear h
  induction hblocks with
  | nil => exact ⟨rfl, by simp [mentions], trivial⟩
  | @cons obj block l blocks hblock _ ih =>
    obtain ⟨rest, hinit⟩ := init_block hblock
    obtain ⟨hdefinitions, hmentions, hbranches⟩ := ih
    rw [List.flatten_cons, tokens_append]
    refine ⟨?_, ?_, hinit.branches.append hbranches⟩
    · rw [definitions_append, hinit.definitions, hdefinitions]
      rfl
    · rw [mentions_append, List.flatMap_cons]
      intro f hf
      obtain hf | hf := List.mem_append.1 hf
      · exact List.mem_append_left _ (hinit.mentions_mem hf)
      · exact List.mem_append_right _ (hmentions f hf)

/-- `init_com`, after the blank line before it. -/
def initCom (created : List Piece) : List (Token CStr) :=
  .other :: .define (ascii "init_com") :: tokens created ++ [.other, .close]

theorem initCom_locals {l : List J} (h : printEach (printComInitI L name) l = .ok ps) (xs : List CStr) :
    LocalsDistinct xs (initCom ps) ↔
      l.countP (fun obj => typeOf L obj = ascii "service") ≤ 1 := by
  have hend : LocalsDistinct xs (initCom ps) ↔ LocalsDistinct [] (tokens ps) :=
    localsDistinct_append.trans (and_iff_left trivial)
  rw [hend, init_locals h]
  simp

theorem initCom_parts {l : List J} (h : printEach (printComInitI L name) l = .ok ps) :
    definitions (initCom ps) = [ascii "init_com"] ∧
      (∀ f ∈ mentions (initCom ps), f ∈ l.flatMap (handlerNames L)) ∧ ElseFollows false (initCom ps) := by
  obtain ⟨hdefinitions, hmentions, hbranches⟩ := init_parts h
  have hend : ElseFollows false [Token.other (α := CStr), .close] := trivial
  refine ⟨?_, ?_, hbranches.append hend⟩
  · rw [initCom, definitions_append]
    exact congrArg (ascii "init_com" :: · ++ []) hdefinitions
  · rw [initCom, mentions_append]
    intro f hf
    obtain hf | hf := List.mem_append.1 hf
    · exact hmentions f hf
    · cases hf

/-! ## Handlers -/

instance : DecidablePred (Silent L) := fun _ => inferInstanceAs (Decidable (_ ∧ _))

def definedNames (L : CodeLib J) (obj : J) : List CStr := if Silent L obj then [] else handlerNames L obj

structure HandlerBlock (L : CodeLib J) (obj : J) (ts : List (Token CStr)) : Prop where
  definitions : (definitions ts).Perm (definedNames L obj)
  mentions : ∀ f ∈ mentions ts, f ∈ handlerNames L obj
  locals : ∀ xs, LocalsDistinct xs ts
  branches : ElseFollows false ts

theorem branchChain_commands {first : Bool} {l : List J} (h : commandBranches L first l = .ok ps) :
    BranchChain (tokens ps) := by
  induction l generalizing first ps with
  | nil =>
    cases h
    exact .nil
  | cons d l ih =>
    rw [commandBranches] at h
    by_cases hobject : (!L.jsonIsobject d) = true
    · rw [if_pos hobject] at h
      cases h
    · rw [if_neg hobject] at h
      cases hname : str L d "name" with
      | none =>
        rw [hname] at h
        cases h
      | some n =>
        rw [hname] at h
        obtain ⟨rest, hrest, heq⟩ := bind_eq_ok h
        cases heq
        cases first with
        | false => exact (ih hrest).cons_elseIf
        | true => exact (ih hrest).cons_if

theorem tokens_onconnectBody (onmessage : Piece) (topic : CStr) :
    tokens (onconnectBody onmessage topic) =
      [.define (onconnectName topic), .other, onmessage.token, .other, .close] := rfl

theorem tokens_controller (h : printComControllerHandlers L obj = .ok ps)
    (hnull : ¬ L.jsonIsnull (L.jsonObjectGet obj (ascii "commands")) = true) :
    ∃ chain, BranchChain chain ∧ tokens ps =
      [.define (onmessageName (topicOf L obj)), .var (ascii "buffer"), .var (ascii "cmd"),
        .var (ascii "status"), .ifBranch, .elseBranch, .ifBranch] ++ chain ++
      [.elseBranch, .ifBranch, .elseBranch, .close] ++
      [.define (onconnectName (topicOf L obj)), .other, .refer (onmessageName (topicOf L obj)), .other,
        .close] := by
  unfold printComControllerHandlers at h
  dsimp only at h
  rw [if_neg hnull] at h
  split_ifs at h
  obtain ⟨branches, hbranches, heq⟩ := bind_eq_ok h
  obtain rfl := Except.ok.inj heq
  refine ⟨tokens branches, branchChain_commands hbranches, ?_⟩
  rw [tokens_append, tokens_append, tokens_append, tokens_onconnectBody]
  rfl

theorem handlerBlock_controller (htype : typeOf L obj = ascii "controller")
    (h : printComControllerHandlers L obj = .ok ps) : HandlerBlock L obj (tokens ps) := by
  by_cases hnull : L.jsonIsnull (L.jsonObjectGet obj (ascii "commands")) = true
  · rw [printComControllerHandlers, if_pos hnull] at h
    cases h
    refine ⟨?_, by simp [Scopes.mentions], fun _ => trivial, trivial⟩
    rw [definedNames, if_pos ⟨htype, hnull⟩]
    exact .nil
  · obtain ⟨chain, hchain, htokens⟩ := tokens_controller h hnull
    have hdefined : definedNames L obj = handlerNames L obj := if_neg (fun hsilent => hnull hsilent.2)
    have hnames : handlerNames L obj = [onconnectName (topicOf L obj), onmessageName (topicOf L obj)] :=
      if_pos htype
    rw [htokens]
    refine ⟨?_, ?_, fun xs => ?_, ?_⟩
    · rw [hdefined, hnames, definitions_append, definitions_append, definitions_append,
        hchain.definitions]
      exact List.Perm.swap _ _ _
    · rw [hnames, mentions_append, mentions_append, mentions_append, hchain.mentions]
      intro f hf
      rw [List.mem_singleton.1 hf]
      exact List.mem_cons_of_mem _ (List.mem_singleton_self _)
    · simp only [localsDistinct_append, LocalsDistinct, localsAfter, hchain.locals, and_true]
      decide
    · simp [elseFollows_append, ElseFollows, hchain.branches, hchain.allowed]

theorem handlerBlock_messagehub (htype : typeOf L obj = ascii "messagehub") :
    HandlerBlock L obj (tokens (printComMessagehubHandlers L obj)) := by
  have hdefined : definedNames L obj = handlerNames L obj := by
    refine if_neg (fun hsilent => ?_)
    rw [Silent, htype] at hsilent
    exact absurd hsilent.1 (by decide)
  have hcontroller : typeOf L obj ≠ ascii "controller" := by
    rw [htype]
    decide
  unfold printComMessagehubHandlers
  cases hmessage : str L obj "onmessage" with
  | none =>
    refine ⟨?_, by simp [Scopes.mentions], fun _ => trivial, trivial⟩
    rw [hdefined, handlerNames, if_neg hcontroller, if_neg (fun h => h.2 hmessage)]
    exact .nil
  | some onmessage =>
    refine ⟨?_, ?_, fun _ => trivial, trivial⟩
    · rw [hdefined, handlerNames, if_neg hcontroller, if_pos ⟨htype, by simp [hmessage]⟩]
      exact .refl _
    · simp [tokens_onconnectBody, Scopes.mentions, Token.mention?]

theorem handlerBlock (h : printComHandlersI L obj = .ok ps) : HandlerBlock L obj (tokens ps) := by
  unfold printComHandlersI at h
  split_ifs at h with hcontroller hhub
  · exact handlerBlock_controller hcontroller h
  · cases h
    exact handlerBlock_messagehub hhub
  · cases h
    refine ⟨?_, by simp [Scopes.mentions], fun _ => trivial, trivial⟩
    rw [definedNames, if_neg (fun hsilent => hcontroller hsilent.1), handlerNames, if_neg hcontroller,
      if_neg (fun hsome => hhub hsome.1)]
    exact .nil

theorem handlers {l : List J} (h : printEach (printComHandlersI L) l = .ok ps) :
    (definitions (tokens ps)).Perm (l.flatMap (definedNames L)) ∧
      (∀ f ∈ mentions (tokens ps), f ∈ l.flatMap (handlerNames L)) ∧
      (∀ xs, LocalsDistinct xs (tokens ps)) ∧ ElseFollows false (tokens ps) := by
  obtain ⟨blocks, hblocks, rfl⟩ := printEach_ok h
  clear h
  induction hblocks with
  | nil => exact ⟨.nil, by simp [mentions], fun _ => trivial, trivial⟩
  | @cons obj block l blocks hblock _ ih =>
    have hhandler := handlerBlock hblock
    obtain ⟨hdefinitions, hmentions, hlocals, hbranches⟩ := ih
    rw [List.flatten_cons, tokens_append]
    refine ⟨?_, ?_, fun xs => localsDistinct_append.2 ⟨hhandler.locals xs, hlocals _⟩,
      hhandler.branches.append hbranches⟩
    · rw [definitions_append, List.flatMap_cons]
      exact hhandler.definitions.append hdefinitions
    · rw [mentions_append, List.flatMap_cons]
      intro f hf
      obtain hf | hf := List.mem_append.1 hf
      · exact List.mem_append_left _ (hhandler.mentions f hf)
      · exact List.mem_append_right _ (hmentions f hf)

/-! ## The rest of the program -/

/-- Functions that are no handlers and are right about variables and branches. -/
structure Part (names : List CStr) (ts : List (Token CStr)) : Prop where
  definitions : ∀ f ∈ definitions ts, ¬ LikeHandler f
  mentions : ∀ f ∈ mentions ts, f ∈ names
  locals : ∀ xs, LocalsDistinct xs ts
  branches : ElseFollows false ts

theorem Part.append {names : List CStr} {ts us : List (Token CStr)} (ht : Part names ts)
    (hu : Part names us) : Part names (ts ++ us) := by
  refine ⟨?_, ?_, fun xs => localsDistinct_append.2 ⟨ht.locals xs, hu.locals _⟩,
    ht.branches.append hu.branches⟩
  · rw [definitions_append]
    exact List.forall_mem_append.2 ⟨ht.definitions, hu.definitions⟩
  · rw [mentions_append]
    exact List.forall_mem_append.2 ⟨ht.mentions, hu.mentions⟩

theorem Part.flat {names : List CStr} {ts : List (Token CStr)} (hflat : ∀ t ∈ ts, t.Flat)
    (hmentions : ∀ f ∈ Scopes.mentions ts, f ∈ names) : Part names ts :=
  ⟨by simp [definitions_flat hflat], hmentions, fun _ => localsDistinct_flat hflat, elseFollows_flat hflat⟩

theorem Part.function {names : List CStr} {f : CStr} {ts : List (Token CStr)} (hf : ¬ LikeHandler f)
    (hflat : ∀ t ∈ ts, t.Flat) (hmentions : ∀ g ∈ Scopes.mentions ts, g ∈ names) :
    Part names (.define f :: ts) := by
  have hlocals : LocalsDistinct [] ts := localsDistinct_flat hflat
  have hbranches : ElseFollows false ts := elseFollows_flat hflat
  refine ⟨?_, hmentions, fun _ => hlocals, hbranches⟩
  have hdefinitions : Scopes.definitions (.define f :: ts) = [f] :=
    congrArg (f :: ·) (definitions_flat hflat)
  rw [hdefinitions]
  simpa using hf

theorem Part.function_var {names : List CStr} {f x : CStr} {ts : List (Token CStr)}
    (hf : ¬ LikeHandler f) (hflat : ∀ t ∈ ts, t.Flat) (hmentions : ∀ g ∈ Scopes.mentions ts, g ∈ names) :
    Part names (.define f :: .var x :: ts) := by
  have hpart : Part names (.define f :: ts) := .function hf hflat hmentions
  have hlocals : LocalsDistinct [x] ts := localsDistinct_flat hflat
  exact ⟨hpart.definitions, hpart.mentions, fun _ => ⟨List.not_mem_nil, hlocals⟩, hpart.branches⟩

theorem decl_part {names : List CStr} (hnames : ∀ f ∈ handlerNames L obj, f ∈ names) :
    Part names (tokens (printComDeclI L obj)) := by
  obtain ⟨getter, hgetter, htokens⟩ := tokens_decl (L := L) obj
  rw [htokens]
  refine Part.append ?_ (.flat ?_ ?_)
  · have hvariable : Part names [.other] := .flat (by simp [Token.Flat]) (by simp [mentions, Token.mention?])
    exact hvariable.append
      (.function hgetter (by simp [Token.Flat]) (by simp [mentions, Token.mention?]))
  · simp [Token.Flat]
  · rwa [mentions_map_declare]

theorem comCleanup_part (names : List CStr) (com : J) :
    Part names (tokens (printComCleanup L com)) := by
  have htokens : tokens ((items L com).map (printComCleanupI L)) =
      (items L com).map fun _ => .ifBranch := by
    rw [tokens, List.map_map]
    refine List.map_congr_left (fun obj _ => ?_)
    rw [Function.comp_apply, printComCleanupI]
    split_ifs <;> rfl
  rw [printComCleanup, List.cons_append, tokens_cons, tokens_append, htokens]
  refine .function (by decide) (fun t ht => ?_) (by simp [mentions, Token.mention?])
  obtain ht | ht := List.mem_append.1 ht
  · obtain ⟨obj, -, rfl⟩ := List.mem_map.1 ht
    trivial
  · rw [List.mem_singleton.1 ht]
    trivial

theorem headers_part (names : List CStr) (name : CStr) (header : Option CStr) :
    Part names (tokens (printHeaders name header)) := by
  cases header <;>
    exact .flat (by simp [printHeaders, Token.Flat]) (by simp [printHeaders, mentions, Token.mention?])

theorem init_part (names : List CStr) (name : CStr) (initFunc : Func) :
    Part names (tokens (printInit name initFunc)) := by
  cases initFunc <;>
    exact .function_var (by decide) (by simp [Token.Flat]) (by simp [mentions, Token.mention?])

theorem cleanup_part (names : List CStr) (name : CStr) (cleanupFunc : Func) :
    Part names (tokens (printCleanup name cleanupFunc)) := by
  cases cleanupFunc <;>
    exact .function (by decide) (by simp [Token.Flat]) (by simp [mentions, Token.mention?])

theorem idle_part (names : List CStr) (idleFunc : Option CStr) :
    Part names (tokens (printIdle idleFunc)) := by
  cases idleFunc <;>
    exact .function (by decide) (by simp [Token.Flat]) (by simp [mentions, Token.mention?])

theorem main_part (names : List CStr) : Part names (tokens printMain) :=
  .function_var (by decide) (by simp [Token.Flat]) (by simp [mentions, Token.mention?])

theorem printCom_ok {com : J} (h : printCom L name com = .ok ps) :
    ∃ created handlers, printEach (printComInitI L name) (items L com) = .ok created ∧
      printEach (printComHandlersI L) (items L com) = .ok handlers ∧
      tokens ps = tokens ((items L com).flatMap (printComDeclI L)) ++ initCom created ++
        tokens handlers ++ tokens (printComCleanup L com) := by
  unfold printCom printComInit at h
  cases hcreated : printEach (printComInitI L name) (items L com) with
  | error e =>
    rw [hcreated] at h
    cases h
  | ok created =>
    rw [hcreated] at h
    cases hhandlers : printEach (printComHandlersI L) (items L com) with
    | error e =>
      rw [printComHandlers, hhandlers] at h
      cases h
    | ok handlers =>
      rw [printComHandlers, hhandlers] at h
      obtain rfl := Except.ok.inj h
      refine ⟨created, handlers, rfl, rfl, ?_⟩
      simp [printComDecl, initCom]

theorem generateCode_ok {definition : J} {outputfile : Option CStr} {opens : CStr → Bool} {file : CStr}
    (h : generateCode L (some definition) outputfile opens = .ok (file, ps)) :
    ∃ name body, printCom L name (L.jsonObjectGet definition (ascii "com")) = .ok body ∧
      ps = printHeaders name (str L definition "header") ++ body ++
        printInit name (funcOf L definition "init") ++
        printCleanup name (funcOf L definition "cleanup") ++
        printIdle (str L definition "idle") ++ printMain := by
  unfold generateCode at h
  dsimp only at h
  cases hfile : outputfile.or (str L definition "output") with
  | none => simp [hfile] at h
  | some codeOutput =>
    cases hname : str L definition "name" with
    | none => simp [hfile, hname] at h
    | some name =>
      simp only [hfile, hname] at h
      cases hbody : printCom L name (L.jsonObjectGet definition (ascii "com")) with
      | error e =>
        rw [hbody] at h
        dsimp only at h
        split_ifs at h
      | ok body =>
        rw [hbody] at h
        dsimp only at h
        split_ifs at h
        cases h
        exact ⟨name, body, hbody, rfl⟩

/-! ## Well scoped programs -/

theorem decls_part (l : List J) :
    Part (l.flatMap (handlerNames L)) (tokens (l.flatMap (printComDeclI L))) := by
  have hall : ∀ names, (∀ f ∈ l.flatMap (handlerNames L), f ∈ names) →
      Part names (tokens (l.flatMap (printComDeclI L))) := by
    intro names hnames
    induction l with
    | nil => exact .flat (by simp) (by simp [mentions])
    | cons obj l ih =>
      rw [List.flatMap_cons] at hnames
      rw [List.flatMap_cons, tokens_append]
      exact (decl_part fun f hf => hnames f (List.mem_append_left _ hf)).append
        (ih fun f hf => hnames f (List.mem_append_right _ hf))
  exact hall _ fun _ hf => hf

theorem mem_mentions_decls {l : List J} (hobj : obj ∈ l) {f : CStr} (hf : f ∈ handlerNames L obj) :
    f ∈ mentions (tokens (l.flatMap (printComDeclI L))) := by
  obtain ⟨front, back, rfl⟩ := List.append_of_mem hobj
  obtain ⟨getter, -, htokens⟩ := tokens_decl (L := L) obj
  rw [List.flatMap_append, List.flatMap_cons, tokens_append, tokens_append, mentions_append,
    mentions_append, htokens, mentions_append, mentions_map_declare]
  exact List.mem_append_right _ (List.mem_append_left _ (List.mem_append_right _ hf))

/-- With distinct topics a handler is defined as often as its own entry defines it. -/
theorem count_definedNames {l : List J} (htopics : (l.map (topicOf L)).Nodup) (hobj : obj ∈ l) {f : CStr}
    (hf : f ∈ handlerNames L obj) :
    (l.flatMap (definedNames L)).count f = if Silent L obj then 0 else 1 := by
  have hmem : ∀ d, f ∈ definedNames L d → f ∈ handlerNames L d := by
    intro d hd
    rw [definedNames] at hd
    split_ifs at hd
    · cases hd
    · exact hd
  rw [count_flatMap_key htopics hobj fun d _ hne hd => hne (topic_of_mem hf (hmem d hd)), definedNames]
  split_ifs
  · rfl
  · exact List.count_eq_one_of_mem (handlerNames_nodup obj) hf

/-- What matters about the program for a list of entries. -/
structure Program (L : CodeLib J) (l : List J) (ts : List (Token CStr)) : Prop where
  definitions : ∀ f, LikeHandler f → (definitions ts).count f = (l.flatMap (definedNames L)).count f
  declared : ∀ obj ∈ l, ∀ f ∈ handlerNames L obj, f ∈ mentions ts
  mentions : ∀ f ∈ mentions ts, f ∈ l.flatMap (handlerNames L)
  locals : LocalsDistinct [] ts ↔ l.countP (fun obj => typeOf L obj = ascii "service") ≤ 1
  branches : ElseFollows false ts

theorem Program.of_parts {l : List J} {front back : List (Token CStr)} {created hs : List Piece}
    (hfront : Part (l.flatMap (handlerNames L)) front) (hback : Part (l.flatMap (handlerNames L)) back)
    (hcreated : printEach (printComInitI L name) l = .ok created)
    (hhandlers : printEach (printComHandlersI L) l = .ok hs) :
    Program L l (front ++ tokens (l.flatMap (printComDeclI L)) ++ initCom created ++ tokens hs ++
      back) := by
  have hdecls := decls_part (L := L) l
  obtain ⟨hinitDefinitions, hinitMentions, hinitBranches⟩ := initCom_parts hcreated
  obtain ⟨hdefinitions, hmentions, hlocals, hbranches⟩ := handlers hhandlers
  refine ⟨fun f hf => ?_, fun obj hobj f hf => ?_, ?_, ?_, ?_⟩
  · have hzero : ∀ {ts}, (∀ g ∈ Scopes.definitions ts, ¬ LikeHandler g) →
        (Scopes.definitions ts).count f = 0 :=
      fun hpart => List.count_eq_zero_of_not_mem fun hmem => hpart f hmem hf
    have hinit : ∀ g ∈ Scopes.definitions (initCom created), ¬ LikeHandler g := by
      rw [hinitDefinitions]
      decide
    simp only [definitions_append, List.count_append, hzero hfront.definitions, hzero hdecls.definitions,
      hzero hinit, hzero hback.definitions, hdefinitions.count_eq, Nat.zero_add, Nat.add_zero]
  · simp only [mentions_append, List.mem_append]
    exact .inl (.inl (.inl (.inr (mem_mentions_decls hobj hf))))
  · simp only [mentions_append, List.forall_mem_append]
    exact ⟨⟨⟨⟨hfront.mentions, hdecls.mentions⟩, hinitMentions⟩, hmentions⟩, hback.mentions⟩
  · simp only [localsDistinct_append, hfront.locals, hdecls.locals, initCom_locals hcreated, hlocals,
      hback.locals, true_and, and_true]
  · exact (((hfront.branches.append hdecls.branches).append hinitBranches).append hbranches).append
      hback.branches

theorem Program.of_generateCode {definition : J} {outputfile : Option CStr} {opens : CStr → Bool}
    {file : CStr} (h : generateCode L (some definition) outputfile opens = .ok (file, ps)) :
    Program L (items L (L.jsonObjectGet definition (ascii "com"))) (tokens ps) := by
  obtain ⟨name, body, hbody, rfl⟩ := generateCode_ok h
  obtain ⟨created, hs, hcreated, hhandlers, htokens⟩ := printCom_ok hbody
  have hback := fun names => ((((comCleanup_part (L := L) names
    (L.jsonObjectGet definition (ascii "com"))).append
    (init_part names name (funcOf L definition "init"))).append
    (cleanup_part names name (funcOf L definition "cleanup"))).append
    (idle_part names (str L definition "idle"))).append (main_part names)
  have hprogram := Program.of_parts (headers_part _ name (str L definition "header")) (hback _)
    hcreated hhandlers
  simpa only [tokens_append, htokens, List.append_assoc] using hprogram

/-- A controller without commands has its handlers declared and used, and a second service declares
`err` again. -/
theorem generated_well_scoped_iff {definition : J} {outputfile : Option CStr} {opens : CStr → Bool}
    {file : CStr}
    (htopics : ((items L (L.jsonObjectGet definition (ascii "com"))).map (topicOf L)).Nodup)
    (h : generateCode L (some definition) outputfile opens = .ok (file, ps)) :
    WellScoped (tokens ps) ↔
      (∀ obj ∈ items L (L.jsonObjectGet definition (ascii "com")), ¬ Silent L obj) ∧
      (items L (L.jsonObjectGet definition (ascii "com"))).countP
        (fun obj => typeOf L obj = ascii "service") ≤ 1 := by
  have hprogram := Program.of_generateCode h
  constructor
  · intro hscoped
    refine ⟨fun obj hobj hsilent => ?_, hprogram.locals.1 hscoped.locals⟩
    have hmem : onconnectName (topicOf L obj) ∈ handlerNames L obj := by
      rw [handlerNames, if_pos hsilent.1]
      exact List.mem_cons_self
    have hcount := hscoped.defined _ (hprogram.declared obj hobj _ hmem)
    rw [hprogram.definitions _ (likeHandler_of_mem hmem), count_definedNames htopics hobj hmem,
      if_pos hsilent] at hcount
    exact absurd hcount (by decide)
  · rintro ⟨hcommands, hservices⟩
    refine ⟨fun f hf => ?_, hprogram.locals.2 hservices, hprogram.branches⟩
    obtain ⟨obj, hobj, hmem⟩ := List.mem_flatMap.1 (hprogram.mentions f hf)
    rw [hprogram.definitions _ (likeHandler_of_mem hmem), count_definedNames htopics hobj hmem,
      if_neg (hcommands obj hobj)]

end Printing

/-! ### Definitions that are accepted -/

open Lib.Json in
def valueCodeLib : CodeLib Value where
  jsonIsobject v := match v with | .obj _ => true | _ => false
  jsonIsnull := valueLib.jsonIsnull
  jsonIsarray := valueLib.jsonIsarray
  jsonArrayLength := valueLib.jsonArrayLength
  jsonArrayGet := valueLib.jsonArrayGet
  jsonObjectHas v k := match v with | .obj ms => (ms.lookup k).isSome | _ => false
  jsonObjectGet := valueLib.jsonObjectGet
  jsonObjectGetstr := valueLib.jsonObjectGetstr
  jsonObjectGetnum v k :=
    match v with
    | .obj ms =>
      match ms.lookup k with
      | some (.num (45 :: text)) => some (-(Decimal.readDigits 10 0 text).1)
      | some (.num text) => some (Decimal.readDigits 10 0 text).1
      | _ => none
    | _ => none
  jsonObjectGetbool v k :=
    match v with
    | .obj ms => match ms.lookup k with | some (.bool b) => if b then 1 else 0 | _ => -1
    | _ => -1

open Lib.Json in
def entry (type topic : String) (rest : List (Bytes × Value)) : Value :=
  .obj ([(ascii "type", .str (ascii type)), (ascii "topic", .str (ascii topic))] ++ rest)

open Lib.Json in
def definitionOf (com : List Value) : Value :=
  .obj [(ascii "name", .str (ascii "node")), (ascii "output", .str (ascii "node.c")),
    (ascii "com", .arr com)]

open Lib.Json in
def armAndCamera : Value :=
  definitionOf [entry "controller" "arm" [(ascii "commands", .arr [
      .obj [(ascii "name", .str (ascii "move")), (ascii "oncommand", .str (ascii "node_move"))]])],
    entry "service" "camera" [(ascii "resources", .arr [])]]

theorem armAndCamera_well_scoped :
    ∃ ps, generateCode valueCodeLib (some armAndCamera) none (fun _ => true) =
      .ok (ascii "node.c", ps) ∧ WellScoped (tokens ps) := by
  have hprinted : ∃ ps, generateCode valueCodeLib (some armAndCamera) none (fun _ => true) =
      .ok (ascii "node.c", ps) := ⟨_, rfl⟩
  obtain ⟨ps, h⟩ := hprinted
  exact ⟨ps, h, (generated_well_scoped_iff (by decide) h).2 ⟨by decide, by decide⟩⟩

def silentArm : Lib.Json.Value := definitionOf [entry "controller" "arm" []]

open Lib.Json in
def twoServices : Value :=
  definitionOf [entry "service" "camera" [(ascii "resources", .arr [])],
    entry "service" "lamp" [(ascii "resources", .arr [])]]

theorem undefined_handler_and_second_variable :
    (∃ ps, generateCode valueCodeLib (some silentArm) none (fun _ => true) =
      .ok (ascii "node.c", ps) ∧ ¬ WellScoped (tokens ps)) ∧
    ∃ ps, generateCode valueCodeLib (some twoServices) none (fun _ => true) =
      .ok (ascii "node.c", ps) ∧ ¬ WellScoped (tokens ps) := by
  constructor
  · refine ⟨_, rfl, fun hscoped => ?_⟩
    have hdefined := hscoped.defined (onconnectName (ascii "arm"))
    revert hdefined
    decide
  · have hprinted : ∃ ps, generateCode valueCodeLib (some twoServices) none (fun _ => true) =
        .ok (ascii "node.c", ps) := ⟨_, rfl⟩
    obtain ⟨ps, h⟩ := hprinted
    refine ⟨ps, h, fun hscoped => ?_⟩
    have hservices := (Program.of_generateCode h).locals.1 hscoped.locals
    revert hservices
    decide

end Rcom.Rcgen
