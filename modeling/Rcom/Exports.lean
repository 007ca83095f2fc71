import Rcom.Lib.FirstMatch
import Rcom.Libc
import Mathlib.Data.List.Basic

/-!
# The exports of a service (export.c, service.c)

A service looks for a resource among its exports, first under its name with or without the slash
and then under the name `*`. A second export of a name replaces the first one.
-/

namespace Rcom.Exports
open Rcom.Lib

/-- `U` is what the pointer `userdata` leads to, `H` a handler. -/
structure Export (U H : Type*) where
  name : CStr
  mimetypeIn : Option CStr
  mimetypeOut : Option CStr
  userdata : Option U
  onrequest : Option H

/-- The arguments of `service_export`. -/
structure Call (U H : Type*) where
  name : CStr
  mimetypeIn : Option CStr
  mimetypeOut : Option CStr
  data : Option U
  onrequest : Option H

structure Handling (U H : Type*) where
  mimetypeIn : Option CStr
  mimetypeOut : Option CStr
  userdata : Option U
  onrequest : Option H

variable {U H : Type*}

def Export.handling (e : Export U H) : Handling U H :=
  ⟨e.mimetypeIn, e.mimetypeOut, e.userdata, e.onrequest⟩

def Call.handling (c : Call U H) : Handling U H :=
  ⟨c.mimetypeIn, c.mimetypeOut, c.data, c.onrequest⟩

def slash : UInt8 := '/'.val.toUInt8

def star : CStr := ascii "*"

def newExport (name : CStr) (mimetypeIn mimetypeOut : Option CStr) : Export U H :=
  ⟨name, mimetypeIn, mimetypeOut, none, none⟩

def exportSetOnrequest (e : Export U H) (userdata : Option U) (onrequest : Option H) : Export U H :=
  { e with userdata, onrequest }

def exportSetMimetypes (e : Export U H) (mimetypeIn mimetypeOut : Option CStr) : Export U H :=
  { e with mimetypeIn, mimetypeOut }

def exportClone (e : Export U H) : Export U H :=
  exportSetOnrequest (newExport e.name e.mimetypeIn e.mimetypeOut) e.userdata e.onrequest

def exportMatches (e : Export U H) (name : CStr) : Bool :=
  name = e.name || (name.head? = some slash && name.tail = e.name)

def Call.replace (c : Call U H) (e : Export U H) : Export U H :=
  exportSetOnrequest (exportSetMimetypes e c.mimetypeIn c.mimetypeOut) c.data c.onrequest

def serviceExport (exports : List (Export U H)) (c : Call U H) : List (Export U H) :=
  if exports.any (exportMatches · c.name) then
    updateFirst (exportMatches · c.name) c.replace exports
  else
    exportSetOnrequest (newExport c.name c.mimetypeIn c.mimetypeOut) c.data c.onrequest :: exports

def serviceGetExport (exports : List (Export U H)) (name : CStr) : Option (Export U H) :=
  match exports.find? (exportMatches · name) with
  | some r => some (exportClone r)
  | none => (exports.find? (star = ·.name)).map exportClone

/-- The calls that `new_service` makes. -/
def newService (service : U) (indexHtml indexJson : H) : List (Call U H) :=
  [⟨ascii "/", none, some (ascii "text/html"), some service, some indexHtml⟩,
    ⟨ascii "/index.json", none, some (ascii "application/json"), some service, some indexJson⟩]

def run (calls : List (Call U H)) : List (Export U H) := calls.foldl serviceExport []

def latest (named : CStr → Bool) (calls : List (Call U H)) : Option (Call U H) :=
  calls.reverse.find? (named ·.name)

/-- At most one slash in front, and not the name that a request for `/*` would have. -/
def Plain (name : CStr) : Prop := ¬ [slash, slash] <+: name ∧ name ≠ slash :: star

instance (name : CStr) : Decidable (Plain name) := inferInstanceAs (Decidable (_ ∧ _))

/-! ## One call -/

section Step
variable {exports : List (Export U H)} {c : Call U H} {uri x : CStr}

theorem exportMatches_iff {e : Export U H} : exportMatches e uri ↔ uri = e.name ∨ uri = slash :: e.name := by
  rw [exportMatches, Bool.or_eq_true, Bool.and_eq_true, decide_eq_true_iff, decide_eq_true_iff,
    decide_eq_true_iff]
  cases uri <;> simp

@[simp]
theorem handling_exportClone (e : Export U H) : (exportClone e).handling = e.handling := rfl

def Ordered (exports : List (Export U H)) : Prop :=
  (exports.map (·.name)).Pairwise fun a b => a ≠ slash :: b

theorem map_name_serviceExport (exports : List (Export U H)) (c : Call U H) :
    (serviceExport exports c).map (·.name) =
      if exports.any (exportMatches · c.name) then exports.map (·.name)
      else c.name :: exports.map (·.name) := by
  rw [serviceExport]
  split_ifs
  · exact map_updateFirst_eq (f := c.replace) Export.name (fun _ => rfl) exports
  · rfl

theorem ordered_serviceExport (h : Ordered exports) (c : Call U H) :
    Ordered (serviceExport exports c) := by
  rw [Ordered, map_name_serviceExport]
  split_ifs with hany
  · exact h
  · refine List.pairwise_cons.2 ⟨fun name hname heq => hany ?_, h⟩
    obtain ⟨e, he, rfl⟩ := List.mem_map.1 hname
    exact List.any_eq_true.2 ⟨e, he, exportMatches_iff.2 (.inr heq)⟩

theorem find?_serviceExport_self (exports : List (Export U H)) (c : Call U H) :
    ((serviceExport exports c).find? (exportMatches · c.name)).map Export.handling =
      some c.handling := by
  rw [serviceExport]
  split_ifs with hany
  · obtain ⟨e, he⟩ := Option.isSome_iff_exists.1 (List.find?_isSome.2 (List.any_eq_true.1 hany))
    have hkept : ∀ e, exportMatches e c.name → exportMatches (c.replace e) c.name := fun _ h => h
    rw [find?_updateFirst_self hkept, he]
    rfl
  · rw [List.find?_cons_of_pos (p := (exportMatches · c.name)) (exportMatches_iff.2 (.inl rfl))]
    rfl

theorem find?_serviceExport_other
    (hself : ¬ (uri = c.name ∨ uri = slash :: c.name))
    (h : ∀ name, c.name = slash :: name → ¬ (uri = name ∨ uri = slash :: name)) :
    (serviceExport exports c).find? (exportMatches · uri) = exports.find? (exportMatches · uri) := by
  rw [serviceExport]
  split_ifs
  · refine find?_updateFirst_of_disjoint (fun e he => ?_) exports
    have hother : exportMatches e uri = false := by
      rw [← Bool.not_eq_true, exportMatches_iff]
      obtain hname | hname := exportMatches_iff.1 he
      · rwa [← hname]
      · exact h e.name hname
    exact ⟨hother, hother⟩
  · exact List.find?_cons_of_neg fun he => hself (exportMatches_iff.1 he)

theorem find?_slash (hexports : Ordered exports) (hx : x.head? ≠ some slash)
    (h : x ∈ exports.map (·.name)) :
    exports.find? (exportMatches · (slash :: x)) = exports.find? (exportMatches · x) := by
  induction exports with
  | nil => cases h
  | cons e exports ih =>
    obtain ⟨hfirst, hrest⟩ := List.pairwise_cons.1 hexports
    by_cases hname : x = e.name
    · have hmatches : exportMatches e x ∧ exportMatches e (slash :: x) :=
        ⟨exportMatches_iff.2 (.inl hname), exportMatches_iff.2 (.inr (congrArg _ hname))⟩
      rw [List.find?_cons, List.find?_cons, hmatches.1, hmatches.2]
    · have hmem : x ∈ exports.map (·.name) := (List.mem_cons.1 h).resolve_left hname
      have hplain : ¬ exportMatches e x := fun he => (exportMatches_iff.1 he).elim hname fun heq =>
        hx (by rw [heq]; rfl)
      have hslash : ¬ exportMatches e (slash :: x) := fun he => (exportMatches_iff.1 he).elim
        (fun heq => hfirst x hmem heq.symm) fun heq => hname (List.cons.inj heq).2
      rw [List.find?_cons_of_neg (p := (exportMatches · x)) hplain,
        List.find?_cons_of_neg (p := (exportMatches · (slash :: x))) hslash, ih hrest hmem]

theorem mem_serviceExport (hx : c.name.head? ≠ some slash) :
    c.name ∈ (serviceExport exports c).map (·.name) := by
  rw [map_name_serviceExport]
  split_ifs with hany
  · obtain ⟨e, he, hmatches⟩ := List.any_eq_true.1 hany
    obtain hname | hname := exportMatches_iff.1 hmatches
    · exact hname ▸ List.mem_map_of_mem he
    · exact absurd (by rw [hname]; rfl) hx
  · exact List.mem_cons_self

end Step

/-! ## All calls -/

def Asked (uri : CStr) : Prop := uri = star ∨ ∃ x : CStr, x.head? ≠ some slash ∧ uri = slash :: x

def Answers (calls : List (Call U H)) (exports : List (Export U H)) : Prop :=
  Ordered exports ∧ ∀ uri, Asked uri →
    (exports.find? (exportMatches · uri)).map Export.handling =
      (latest (fun name => uri = name ∨ uri = slash :: name) calls).map Call.handling

section Run
variable {calls : List (Call U H)} {exports : List (Export U H)} {c : Call U H}

theorem latest_concat (named : CStr → Bool) (calls : List (Call U H)) (c : Call U H) :
    latest named (calls ++ [c]) = if named c.name then some c else latest named calls := by
  rw [latest, List.reverse_append, List.reverse_singleton, List.singleton_append, List.find?_cons]
  cases named c.name <;> rfl

theorem Answers.step (h : Answers calls exports) (hplain : Plain c.name) :
    Answers (calls ++ [c]) (serviceExport exports c) := by
  have hordered := ordered_serviceExport h.1 c
  refine ⟨hordered, fun uri huri => ?_⟩
  rw [latest_concat]
  by_cases hself : uri = c.name ∨ uri = slash :: c.name
  · rw [if_pos (decide_eq_true hself), Option.map_some, ← find?_serviceExport_self exports c]
    obtain rfl | rfl := hself
    · rfl
    · obtain hstar | ⟨x, hx, heq⟩ := huri
      · exact absurd (List.cons.inj hstar).1 (by decide)
      · obtain rfl : c.name = x := (List.cons.inj heq).2
        rw [find?_slash hordered hx (mem_serviceExport hx)]
  · rw [if_neg (by simpa using hself), ← h.2 uri huri, find?_serviceExport_other hself]
    rintro name hname (rfl | rfl)
    · obtain rfl | ⟨x, -, rfl⟩ := huri
      · exact hplain.2 hname
      · exact hplain.1 ⟨x, hname.symm⟩
    · exact hself (.inl hname.symm)

theorem answers_run (hplain : ∀ c ∈ calls, Plain c.name) : Answers calls (run calls) := by
  induction calls using List.reverseRecOn with
  | nil => exact ⟨List.Pairwise.nil, fun _ _ => rfl⟩
  | append_singleton calls c ih =>
    have hcalls := ih fun c hc => hplain c (List.mem_append_left _ hc)
    rw [run, List.foldl_concat]
    exact hcalls.step (hplain c (by simp))

/-- A resource is answered by the last export of its name, with or without the slash, or else by
the last export of `*`. -/
theorem last_export_answers (calls : List (Call U H)) (hplain : ∀ c ∈ calls, Plain c.name) (x : CStr)
    (hx : x.head? ≠ some slash) :
    (serviceGetExport (run calls) (slash :: x)).map Export.handling =
      ((latest (fun name => name = x ∨ name = slash :: x) calls).or
        (latest (fun name => name = star) calls)).map Call.handling := by
  have hname : (fun name => decide (name = x ∨ name = slash :: x)) =
      fun name => decide (slash :: x = name ∨ slash :: x = slash :: name) := by
    funext name
    rw [decide_eq_decide, or_comm, eq_comm, List.cons_inj_right, @eq_comm _ x]
  have hstar : (fun name => decide (name = star)) =
      fun name => decide (star = name ∨ star = slash :: name) := by
    funext name
    have hne : ¬ star = slash :: name := fun h => absurd (List.cons.inj h).1 (by decide)
    rw [decide_eq_decide, or_iff_left hne, eq_comm]
  obtain ⟨-, hfound⟩ := answers_run hplain
  have hresource := hfound (slash :: x) (.inr ⟨x, hx, rfl⟩)
  have hwildcard := hfound star (.inl rfl)
  have hmatches : (fun e : Export U H => decide (star = e.name)) = (exportMatches · star) := by
    funext e
    have hne : ¬ star = slash :: e.name := fun h => absurd (List.cons.inj h).1 (by decide)
    rw [Bool.eq_iff_iff, exportMatches_iff, or_iff_left hne, decide_eq_true_iff]
  rw [hname, hstar, Option.map_or, ← hresource, ← hwildcard, serviceGetExport, hmatches]
  cases (run calls).find? (exportMatches · (slash :: x)) with
  | some r => rfl
  | none => cases (run calls).find? (exportMatches · star) <;> rfl

end Run

def statusCalls : List (Call Unit ℕ) :=
  newService () 0 1 ++ [⟨ascii "/status", none, some (ascii "text/html"), none, some 2⟩,
    ⟨ascii "status", none, some (ascii "application/json"), none, some 3⟩]

theorem second_status_answers :
    (serviceGetExport (run statusCalls) (ascii "/status")).map Export.handling =
      some ⟨none, some (ascii "application/json"), none, some 3⟩ :=
  (last_export_answers statusCalls (by decide) (ascii "status") (by decide)).trans rfl

end Rcom.Exports
