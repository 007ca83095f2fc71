import Rcom.JsonObject

/-!
# Nodes that rclaunch starts (rclaunch.cpp, run.c)

The description of a node says which program is to be executed, on which host, for which user and
with which arguments. `Rclaunch` models what is checked of it and what becomes of it.
-/

namespace Rcom.Rclaunch
open Rcom.Lib

/-- The functions of libr that rclaunch uses besides. -/
structure ConfigLib (J : Type) extends JsonLib J where
  jsonFalsy : J → Bool
  jsonIsstring : J → Bool
  jsonStringValue : J → CStr

structure Run where
  name : CStr
  path : CStr
  host : Option CStr
  user : Option CStr
  args : List CStr
  disabled : Bool

/-! ## Validation -/

def validInfo (s : Option CStr) (minlen maxlen : ℕ) (validChars : CStr) : Bool :=
  match s with
  | none => minlen = 0
  | some s =>
    if s.length < minlen ∨ s.length > maxlen then false
    else s.all fun c => c ∈ validChars

def letters : CStr := ascii "abcdefghijklmnopqrstuvwxyz" ++ ascii "ABCDEFGHIJKLMNOPQRSTUVWXYZ"

def digits : CStr := ascii "1234567890"

def pathChars : CStr := letters ++ digits ++ ascii "-_/."

def argChars : CStr := letters ++ digits ++ ascii "-_/.="

def addrChars : CStr := digits ++ ascii "."

def userChars : CStr := letters ++ digits ++ ascii "-_"

def validPath (path : Option CStr) : Bool := validInfo path 2 256 pathChars

def validArg (arg : Option CStr) : Bool := validInfo arg 1 256 argChars

def validAddr (host : Option CStr) : Bool := validInfo host 0 15 addrChars

def validUser (user : Option CStr) : Bool := validInfo user 0 32 userChars

/-! ## Parsing -/

section Parse
variable {J : Type} (L : ConfigLib J) (known : CStr → Bool)

/-- A user must be one that `getpwnam_r` finds. -/
def newRun (name path : CStr) (host user : Option CStr) : Option Run :=
  if user.all known then some ⟨name, path, host, user, [], false⟩ else none

def runAddArg (r : Run) (s : CStr) : Run := { r with args := r.args ++ [s] }

def baseName (path : CStr) : CStr := (path.reverse.takeWhile (· ≠ 47)).reverse

/-- The loop over the arguments, from index `i` on. -/
def addArgsLoop (args : J) : ℕ → ℕ → Run → Option Run
  | 0, _, r => some r
  | n + 1, i, r =>
    let arg := L.jsonArrayGet args i
    if !L.jsonIsstring arg then none
    else addArgsLoop args n (i + 1) (runAddArg r (L.jsonStringValue arg))

def parseArgs (node : J) (r : Run) : Option Run :=
  let args := L.jsonObjectGet node (ascii "args")
  if L.jsonIsarray args then addArgsLoop L args (L.jsonArrayLength args) 0 r else some r

def runSetDisabled (r : Run) (value : Bool) : Run := { r with disabled := value }

def runParse (node : J) (defaultUser : Option CStr) : Option Run :=
  let path := L.jsonObjectGetstr node (ascii "path")
  let host := L.jsonObjectGetstr node (ascii "host")
  let user := L.jsonObjectGetstr node (ascii "user")
  let args := L.jsonObjectGet node (ascii "args")
  let disabled := L.jsonObjectGetbool node (ascii "disabled")
  if !validPath path then none
  else if !validAddr host then none
  else if !validUser user then none
  else if !L.jsonFalsy args && !L.jsonIsarray args then none
  else
    match path with
    | none => none
    | some path =>
      let user := if user = none then defaultUser else user
      (newRun known (baseName path) path host user).bind fun r =>
        parseArgs L node (if disabled then runSetDisabled r true else r)

end Parse

/-! ## Starting -/

/-- What rclaunch itself was started with. -/
structure App where
  registryName : Option CStr
  registryIp : Option CStr
  config : Option CStr
  session : Option CStr
  logdir : Option CStr

/-- The arguments of `exec`, each with its origin. -/
inductive Argument where
  | own (text : Option CStr)
  | path (text : CStr)
  | host (text : CStr)
  | user (text : CStr)
  | arg (text : CStr)

/-- The last loop: the process exits when there are too many arguments. -/
def addRunArgs (argv : List Argument) : List CStr → Option (List Argument)
  | [] => some argv
  | a :: l =>
    let argv := argv ++ [.arg a]
    if argv.length ≥ 31 then none else addRunArgs argv l

def logArgs (app : App) : List Argument :=
  match app.logdir with
  | none => []
  | some dir => [.own (ascii "-L"), .own dir]

def sessionArgs (app : App) : List Argument :=
  match app.session with
  | some session => [.own (ascii "-s"), .own session]
  | none => logArgs app

def userArgs (r : Run) : List Argument :=
  match r.user with
  | none => []
  | some user => [.own (ascii "-l"), .user user]

structure Started where
  file : CStr
  argv : List Argument

def runStartLocally (app : App) (r : Run) : Option Started :=
  let argv := [.path r.path, .own (ascii "-C"), .own app.config] ++ sessionArgs app
  (addRunArgs argv r.args).map fun argv => ⟨r.path, argv⟩

/-- The file is not `ssh`, which is only the first argument. -/
def runStartRemotely (app : App) (host : CStr) (r : Run) : Option Started :=
  let argv := [.own (ascii "ssh")] ++ userArgs r ++ [.host host, .path r.path, .own (ascii "-N"),
    .own app.registryName, .own (ascii "-A"), .own app.registryIp] ++ logArgs app
  (addRunArgs argv r.args).map fun argv => ⟨r.path, argv⟩

/-- A run that is disabled is not started. -/
def runStart (app : App) (r : Run) : Option Started :=
  if r.disabled then none
  else
    match r.host with
    | some host => runStartRemotely app host r
    | none => runStartLocally app r

/-! ## What is to hold -/

section Spec
variable {J : Type} (L : ConfigLib J) (known : CStr → Bool) (node : J) (defaultUser : Option CStr)

def Argument.Allowed : Argument → Prop
  | own _ => True
  | path text => ∀ c ∈ text, c ∈ pathChars
  | host text => ∀ c ∈ text, c ∈ addrChars
  | user text => ∀ c ∈ text, c ∈ userChars
  | arg text => ∀ c ∈ text, c ∈ argChars

/-- The user is that of the description, unless it has none. -/
def Argument.FromNode : Argument → Prop
  | own _ => False
  | user _ => L.jsonObjectGetstr node (ascii "user") ≠ none
  | _ => True

/-- All that is taken from the description is validated, and all that of it is given to `exec`
consists of allowed characters. -/
structure Validated (r : Run) : Prop where
  path : validPath (some r.path)
  host : validAddr r.host
  user : L.jsonObjectGetstr node (ascii "user") ≠ none → validUser r.user
  args : ∀ arg ∈ r.args, validArg (some arg)
  started : ∀ app started, runStart app r = some started →
    (∀ c ∈ started.file, c ∈ pathChars) ∧ ∀ a ∈ started.argv, a.FromNode L node → a.Allowed

def runUser : Option CStr :=
  (L.jsonObjectGetstr node (ascii "user")).or defaultUser

structure Accepted : Prop where
  path : validPath (L.jsonObjectGetstr node (ascii "path"))
  host : validAddr (L.jsonObjectGetstr node (ascii "host"))
  user : validUser (L.jsonObjectGetstr node (ascii "user"))
  args : L.jsonFalsy (L.jsonObjectGet node (ascii "args")) ∨
    L.jsonIsarray (L.jsonObjectGet node (ascii "args"))
  known : ∀ user ∈ runUser L node defaultUser, known user
  strings : L.jsonIsarray (L.jsonObjectGet node (ascii "args")) →
    ∀ i < L.jsonArrayLength (L.jsonObjectGet node (ascii "args")),
      L.jsonIsstring (L.jsonArrayGet (L.jsonObjectGet node (ascii "args")) i)

def argStrings : List CStr :=
  let args := L.jsonObjectGet node (ascii "args")
  if L.jsonIsarray args then
    (List.range (L.jsonArrayLength args)).map fun i => L.jsonStringValue (L.jsonArrayGet args i)
  else []

end Spec

section Validation
variable {s : Option CStr} {minlen maxlen : ℕ} {chars text : CStr}

theorem chars_of_validInfo (h : validInfo (some text) minlen maxlen chars) : ∀ c ∈ text, c ∈ chars := by
  rw [validInfo] at h
  split_ifs at h
  simpa using h

end Validation

section Start
variable {app : App} {r : Run} {argv argv' : List Argument} {args : List CStr}

theorem mem_addRunArgs (h : addRunArgs argv args = some argv') {a : Argument} (ha : a ∈ argv') :
    a ∈ argv ∨ ∃ text ∈ args, a = .arg text := by
  induction args generalizing argv with
  | nil =>
    obtain rfl := Option.some.inj h
    exact .inl ha
  | cons text args ih =>
    rw [addRunArgs] at h
    split_ifs at h
    obtain hmem | ⟨text', htext', rfl⟩ := ih h
    · obtain hmem | hmem := List.mem_append.1 hmem
      · exact .inl hmem
      · exact .inr ⟨text, List.mem_cons_self, List.mem_singleton.1 hmem⟩
    · exact .inr ⟨text', List.mem_cons_of_mem _ htext', rfl⟩

/-- The origin of what is given to `exec`. -/
inductive Origin (r : Run) : Argument → Prop where
  | own (text : Option CStr) : Origin r (.own text)
  | path : Origin r (.path r.path)
  | host {host : CStr} : r.host = some host → Origin r (.host host)
  | user {user : CStr} : r.user = some user → Origin r (.user user)
  | arg {text : CStr} : text ∈ r.args → Origin r (.arg text)

theorem origin_logArgs {a : Argument} (h : a ∈ logArgs app) : Origin r a := by
  unfold logArgs at h
  split at h
  · cases h
  · simp only [List.mem_cons, List.not_mem_nil, or_false] at h
    rcases h with rfl | rfl <;> exact .own _

theorem origin_sessionArgs {a : Argument} (h : a ∈ sessionArgs app) : Origin r a := by
  unfold sessionArgs at h
  split at h
  · simp only [List.mem_cons, List.not_mem_nil, or_false] at h
    rcases h with rfl | rfl <;> exact .own _
  · exact origin_logArgs h

theorem origin_userArgs {a : Argument} (h : a ∈ userArgs r) : Origin r a := by
  unfold userArgs at h
  split at h
  · cases h
  · next user huser =>
    simp only [List.mem_cons, List.not_mem_nil, or_false] at h
    rcases h with rfl | rfl
    · exact .own _
    · exact .user huser

theorem origin_addRunArgs (hargv : ∀ a ∈ argv, Origin r a) (h : addRunArgs argv r.args = some argv') :
    ∀ a ∈ argv', Origin r a := by
  intro a ha
  obtain hmem | ⟨text, htext, rfl⟩ := mem_addRunArgs h ha
  · exact hargv a hmem
  · exact .arg htext

theorem runStart_spec {started : Started} (h : runStart app r = some started) :
    started.file = r.path ∧ ∀ a ∈ started.argv, Origin r a := by
  rw [runStart] at h
  split_ifs at h
  split at h
  · next host hhost =>
    obtain ⟨argv, hargv, rfl⟩ := Option.map_eq_some_iff.1 h
    refine ⟨rfl, origin_addRunArgs (fun a ha => ?_) hargv⟩
    simp only [List.mem_append, List.mem_cons, List.not_mem_nil, or_false] at ha
    rcases ha with ((rfl | ha) | rfl | rfl | rfl | rfl | rfl | rfl) | ha
    · exact .own _
    · exact origin_userArgs ha
    · exact .host hhost
    · exact .path
    · exact .own _
    · exact .own _
    · exact .own _
    · exact .own _
    · exact origin_logArgs ha
  · obtain ⟨argv, hargv, rfl⟩ := Option.map_eq_some_iff.1 h
    refine ⟨rfl, origin_addRunArgs (fun a ha => ?_) hargv⟩
    simp only [List.mem_append, List.mem_cons, List.not_mem_nil, or_false] at ha
    rcases ha with (rfl | rfl | rfl) | ha
    · exact .path
    · exact .own _
    · exact .own _
    · exact origin_sessionArgs ha

end Start

/-! ## What is accepted -/

section Accept
variable {J : Type} {L : ConfigLib J} {known : CStr → Bool} {node args : J} {defaultUser : Option CStr}
variable {r r' : Run}

theorem addArgsLoop_eq_some_iff {n i : ℕ} :
    addArgsLoop L args n i r = some r' ↔
      (∀ j ∈ List.range' i n, L.jsonIsstring (L.jsonArrayGet args j)) ∧
        r' = { r with args := r.args ++
          (List.range' i n).map fun j => L.jsonStringValue (L.jsonArrayGet args j) } := by
  induction n generalizing i r with
  | zero =>
    have hsame : { r with args := r.args ++ [] } = r := by rw [List.append_nil]
    rw [addArgsLoop, List.range'_zero, List.map_nil, hsame, Option.some.injEq, eq_comm]
    exact (and_iff_right (by simp)).symm
  | succ n ih =>
    rw [addArgsLoop, List.range'_succ, List.map_cons]
    simp only [List.mem_cons, forall_eq_or_imp]
    by_cases hstring : L.jsonIsstring (L.jsonArrayGet args i) = true
    · rw [if_neg (by simp [hstring]), ih]
      simp [hstring, runAddArg]
    · rw [if_pos (by simp [hstring])]
      simp [hstring]

theorem parseArgs_eq_some_iff : parseArgs L node r = some r' ↔
    (L.jsonIsarray (L.jsonObjectGet node (ascii "args")) →
        ∀ i < L.jsonArrayLength (L.jsonObjectGet node (ascii "args")),
          L.jsonIsstring (L.jsonArrayGet (L.jsonObjectGet node (ascii "args")) i)) ∧
      r' = { r with args := r.args ++ argStrings L node } := by
  simp only [parseArgs, argStrings]
  by_cases harray : L.jsonIsarray (L.jsonObjectGet node (ascii "args")) = true
  · rw [if_pos harray, if_pos harray, addArgsLoop_eq_some_iff, List.range_eq_range']
    simp [harray]
  · rw [if_neg harray, if_neg harray, List.append_nil, Option.some.injEq, eq_comm]
    exact (and_iff_right fun h => absurd h harray).symm

theorem newRun_eq_some_iff {name path : CStr} {host user : Option CStr} :
    newRun known name path host user = some r ↔
      (∀ u ∈ user, known u) ∧ r = ⟨name, path, host, user, [], false⟩ := by
  have hall : user.all known = true ↔ ∀ u ∈ user, known u := by
    cases user <;> simp
  rw [newRun, ← hall]
  split_ifs with hknown
  · rw [Option.some.injEq, eq_comm, and_iff_right hknown]
  · simp [hknown]

def describedRun (L : ConfigLib J) (node : J) (defaultUser : Option CStr) (path : CStr) : Run where
  name := baseName path
  path := path
  host := L.jsonObjectGetstr node (ascii "host")
  user := runUser L node defaultUser
  args := argStrings L node
  disabled := L.jsonObjectGetbool node (ascii "disabled")

theorem newRun_bind_eq_some_iff {path : CStr} :
    (newRun known (baseName path) path (L.jsonObjectGetstr node (ascii "host"))
        (runUser L node defaultUser)).bind (fun r => parseArgs L node
          (if L.jsonObjectGetbool node (ascii "disabled") then runSetDisabled r true else r)) = some r ↔
      (∀ u ∈ runUser L node defaultUser, known u) ∧
        (L.jsonIsarray (L.jsonObjectGet node (ascii "args")) →
          ∀ i < L.jsonArrayLength (L.jsonObjectGet node (ascii "args")),
            L.jsonIsstring (L.jsonArrayGet (L.jsonObjectGet node (ascii "args")) i)) ∧
        r = describedRun L node defaultUser path := by
  obtain ⟨r₀, hr₀⟩ : ∃ r₀ : Run, r₀ = ⟨baseName path, path, L.jsonObjectGetstr node (ascii "host"),
    runUser L node defaultUser, [], false⟩ := ⟨_, rfl⟩
  have hdescribed : { (if L.jsonObjectGetbool node (ascii "disabled") then runSetDisabled r₀ true else r₀)
      with args := (if L.jsonObjectGetbool node (ascii "disabled") then runSetDisabled r₀ true
        else r₀).args ++ argStrings L node } = describedRun L node defaultUser path := by
    rw [hr₀, describedRun]
    cases L.jsonObjectGetbool node (ascii "disabled") <;> rfl
  rw [Option.bind_eq_some_iff]
  constructor
  · intro ⟨r₁, hnew, hparse⟩
    obtain ⟨hknown, rfl⟩ := newRun_eq_some_iff.1 hnew
    rw [← hr₀, parseArgs_eq_some_iff, hdescribed] at hparse
    exact ⟨hknown, hparse⟩
  · intro ⟨hknown, hparse⟩
    refine ⟨r₀, newRun_eq_some_iff.2 ⟨hknown, hr₀⟩, ?_⟩
    rw [parseArgs_eq_some_iff, hdescribed]
    exact hparse

theorem runParse_eq_some_iff : runParse L known node defaultUser = some r ↔
    Accepted L known node defaultUser ∧ ∃ path, L.jsonObjectGetstr node (ascii "path") = some path ∧
      r = describedRun L node defaultUser path := by
  have huserOf : (if L.jsonObjectGetstr node (ascii "user") = none then defaultUser
      else L.jsonObjectGetstr node (ascii "user")) = runUser L node defaultUser := by
    rw [runUser]
    cases L.jsonObjectGetstr node (ascii "user") <;> rfl
  simp only [runParse, huserOf]
  constructor
  · intro h
    split at h
    · cases h
    next hpath =>
    split at h
    · cases h
    next hhost =>
    split at h
    · cases h
    next huser =>
    split at h
    · cases h
    next hargs =>
    split at h
    · cases h
    next path hp =>
    obtain ⟨hknown, hstrings, rfl⟩ := newRun_bind_eq_some_iff.1 h
    exact ⟨⟨by simpa using hpath, by simpa using hhost, by simpa using huser,
      by simpa [or_iff_not_imp_left] using hargs, hknown, hstrings⟩, path, hp, rfl⟩
  · rintro ⟨⟨hpath, hhost, huser, hargs, hknown, hstrings⟩, path, hp, rfl⟩
    rw [if_neg (by simp [hpath]), if_neg (by simp [hhost]), if_neg (by simp [huser]),
      if_neg (by simpa [or_iff_not_imp_left] using hargs), hp]
    exact newRun_bind_eq_some_iff.2 ⟨hknown, hstrings, rfl⟩

theorem exists_path (h : Accepted L known node defaultUser) :
    ∃ path, L.jsonObjectGetstr node (ascii "path") = some path := by
  have hpath := h.path
  cases hp : L.jsonObjectGetstr node (ascii "path") with
  | none =>
    rw [hp] at hpath
    exact Bool.noConfusion hpath
  | some path => exact ⟨path, rfl⟩

theorem describedRun_started {path : CStr} (h : Accepted L known node defaultUser)
    (hp : L.jsonObjectGetstr node (ascii "path") = some path)
    (hargs : ∀ arg ∈ argStrings L node, validArg (some arg)) {app : App} {started : Started}
    (hstart : runStart app (describedRun L node defaultUser path) = some started) :
    (∀ c ∈ started.file, c ∈ pathChars) ∧ ∀ a ∈ started.argv, a.FromNode L node → a.Allowed := by
  have hpath : ∀ c ∈ path, c ∈ pathChars := by
    have hvalid := h.path
    rw [hp] at hvalid
    exact chars_of_validInfo hvalid
  obtain ⟨hfile, horigin⟩ := runStart_spec hstart
  rw [hfile]
  refine ⟨hpath, fun a ha hnode => ?_⟩
  cases horigin a ha with
  | own text => trivial
  | path => exact hpath
  | @host host hhost =>
    have hvalid := h.host
    have hsame : L.jsonObjectGetstr node (ascii "host") = some host := hhost
    rw [hsame] at hvalid
    exact chars_of_validInfo hvalid
  | @user user huser =>
    obtain ⟨given, hgiven⟩ := Option.ne_none_iff_exists'.1 hnode
    have hvalid := h.user
    have hsame : runUser L node defaultUser = some user := huser
    rw [runUser, hgiven] at hsame
    obtain rfl := Option.some.inj hsame
    rw [hgiven] at hvalid
    exact chars_of_validInfo hvalid
  | @arg text htext => exact chars_of_validInfo (hargs text htext)

/-- All that is executed is validated exactly if the arguments of a description that is accepted are
valid. -/
theorem executed_validated_iff (L : ConfigLib J) (known : CStr → Bool) (node : J)
    (defaultUser : Option CStr) :
    (∀ r, runParse L known node defaultUser = some r → Validated L node r) ↔
      (Accepted L known node defaultUser → ∀ arg ∈ argStrings L node, validArg (some arg)) := by
  constructor
  · intro hall haccepted
    obtain ⟨path, hp⟩ := exists_path haccepted
    exact (hall _ (runParse_eq_some_iff.2 ⟨haccepted, path, hp, rfl⟩)).args
  · intro hargs r hparse
    obtain ⟨haccepted, path, hp, rfl⟩ := runParse_eq_some_iff.1 hparse
    have hvalid := hargs haccepted
    refine ⟨hp ▸ haccepted.path, haccepted.host, fun hgiven => ?_, hvalid, fun app started =>
      describedRun_started haccepted hp hvalid⟩
    obtain ⟨user, huser⟩ := Option.ne_none_iff_exists'.1 hgiven
    have hsame : runUser L node defaultUser = L.jsonObjectGetstr node (ascii "user") := by
      rw [runUser, huser]
      rfl
    exact (congrArg validUser hsame).trans haccepted.user

end Accept

/-! ### An argument that is not checked -/

open Lib.Json in
def valueConfigLib : ConfigLib Value where
  toJsonLib := valueLib
  jsonFalsy v := match v with | .null | .bool false => true | _ => false
  jsonIsstring v := match v with | .str _ => true | _ => false
  jsonStringValue v := match v with | .str s => s | _ => []

/-- The shell on the other host would run what is in the parentheses. -/
def substitution : CStr := ascii "$(reboot)"

open Lib.Json in
def remoteNode : Value :=
  .obj [(ascii "path", .str (ascii "bin/node")), (ascii "host", .str (ascii "10.0.0.2")),
    (ascii "args", .arr [.str substitution])]

def plainApp : App := ⟨some (ascii "registry"), some (ascii "10.0.0.1"), none, none, none⟩

theorem substitution_is_executed :
    ∃ r started, runParse valueConfigLib (fun _ => true) remoteNode none = some r ∧
      runStart plainApp r = some started ∧ .arg substitution ∈ started.argv ∧
      ¬ Validated valueConfigLib remoteNode r := by
  refine ⟨_, _, rfl, rfl, List.mem_of_getLast? rfl, fun h => ?_⟩
  have hvalid := h.args substitution List.mem_cons_self
  revert hvalid
  decide

end Rcom.Rclaunch
