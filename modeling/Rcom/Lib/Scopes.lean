import Mathlib.Data.List.Nodup
import Mathlib.Data.List.Count

/-!
# Scopes in a program text

A program text is a list of tokens: the functions that are declared, defined and used in it, the
local variables of the functions and the branches of its `if` statements.
-/

namespace Rcom.Lib.Scopes

/-- `define` begins the definition of a function and `close` ends it. `ifBranch` stands for a whole
`if` with its branch, and likewise `elseIf` and `elseBranch`. -/
inductive Token (α : Type*) where
  | declare (f : α)
  | define (f : α)
  | close
  | refer (f : α)
  | var (x : α)
  | ifBranch
  | elseIf
  | elseBranch
  | other

variable {α β κ : Type*}

namespace Token

def definition? : Token α → Option α
  | define f => some f
  | _ => none

def mention? : Token α → Option α
  | declare f => some f
  | refer f => some f
  | _ => none

/-- Neither a variable nor a branch after an `if`, nor the beginning of a function. -/
def Flat : Token α → Prop
  | declare _ | refer _ | close | ifBranch | other => True
  | define _ | var _ | elseIf | elseBranch => False

end Token

def definitions (ts : List (Token α)) : List α := ts.filterMap Token.definition?

def mentions (ts : List (Token α)) : List α := ts.filterMap Token.mention?

def localsAfter : List α → List (Token α) → List α
  | xs, [] => xs
  | _, .define _ :: ts => localsAfter [] ts
  | xs, .var x :: ts => localsAfter (x :: xs) ts
  | xs, _ :: ts => localsAfter xs ts

/-- No function declares a variable twice; the first one has declared `xs` before. -/
def LocalsDistinct : List α → List (Token α) → Prop
  | _, [] => True
  | _, .define _ :: ts => LocalsDistinct [] ts
  | xs, .var x :: ts => x ∉ xs ∧ LocalsDistinct (x :: xs) ts
  | xs, _ :: ts => LocalsDistinct xs ts

/-- Whether an `else` may follow the tokens. -/
def elseAllowed : Bool → List (Token α) → Bool
  | b, [] => b
  | _, .ifBranch :: ts => elseAllowed true ts
  | _, .elseIf :: ts => elseAllowed true ts
  | _, _ :: ts => elseAllowed false ts

/-- Every `else` follows an `if`; the first token may be one if `b`. -/
def ElseFollows : Bool → List (Token α) → Prop
  | _, [] => True
  | _, .ifBranch :: ts => ElseFollows true ts
  | b, .elseIf :: ts => b = true ∧ ElseFollows true ts
  | b, .elseBranch :: ts => b = true ∧ ElseFollows false ts
  | _, _ :: ts => ElseFollows false ts

/-- What is declared or used is defined exactly once, no function declares a variable twice, and every
`else` follows an `if`. -/
structure WellScoped [BEq α] (ts : List (Token α)) : Prop where
  defined : ∀ f ∈ mentions ts, (definitions ts).count f = 1
  locals : LocalsDistinct [] ts
  branches : ElseFollows false ts

theorem mentions_map_declare (fs : List α) : mentions (fs.map .declare) = fs := by
  rw [mentions, List.filterMap_map]
  exact List.filterMap_some

section Append
variable {ts us : List (Token α)} {xs : List α} {b : Bool}

@[simp]
theorem definitions_append : definitions (ts ++ us) = definitions ts ++ definitions us :=
  List.filterMap_append

@[simp]
theorem mentions_append : mentions (ts ++ us) = mentions ts ++ mentions us := List.filterMap_append

theorem localsDistinct_append :
    LocalsDistinct xs (ts ++ us) ↔ LocalsDistinct xs ts ∧ LocalsDistinct (localsAfter xs ts) us := by
  induction ts generalizing xs with
  | nil => exact ⟨fun h => ⟨trivial, h⟩, And.right⟩
  | cons t ts ih =>
    cases t with
    | var x => simp only [List.cons_append, LocalsDistinct, localsAfter, ih, and_assoc]
    | _ => exact ih

theorem elseFollows_append :
    ElseFollows b (ts ++ us) ↔ ElseFollows b ts ∧ ElseFollows (elseAllowed b ts) us := by
  induction ts generalizing b with
  | nil => exact ⟨fun h => ⟨trivial, h⟩, And.right⟩
  | cons t ts ih =>
    cases t with
    | elseIf | elseBranch => simp only [List.cons_append, ElseFollows, elseAllowed, ih, and_assoc]
    | _ => exact ih

theorem ElseFollows.mono (h : ElseFollows false ts) (b : Bool) : ElseFollows b ts := by
  cases ts with
  | nil => trivial
  | cons t ts =>
    cases t with
    | elseIf | elseBranch => exact absurd h.1 (by decide)
    | _ => exact h

theorem ElseFollows.append (ht : ElseFollows b ts) (hu : ElseFollows false us) :
    ElseFollows b (ts ++ us) := elseFollows_append.2 ⟨ht, hu.mono _⟩

/-! ## Flat tokens -/

theorem definitions_flat (h : ∀ t ∈ ts, t.Flat) : definitions ts = [] := by
  rw [definitions, List.filterMap_eq_nil_iff]
  intro t ht
  have hflat := h t ht
  cases t with
  | define => exact hflat.elim
  | _ => rfl

theorem localsAfter_flat (h : ∀ t ∈ ts, t.Flat) : localsAfter xs ts = xs := by
  induction ts with
  | nil => rfl
  | cons t ts ih =>
    simp only [List.mem_cons, forall_eq_or_imp] at h
    cases t with
    | define | var => exact h.1.elim
    | _ => exact ih h.2

theorem localsDistinct_flat (h : ∀ t ∈ ts, t.Flat) : LocalsDistinct xs ts := by
  induction ts with
  | nil => trivial
  | cons t ts ih =>
    simp only [List.mem_cons, forall_eq_or_imp] at h
    cases t with
    | define | var => exact h.1.elim
    | _ => exact ih h.2

theorem elseFollows_flat (h : ∀ t ∈ ts, t.Flat) : ElseFollows b ts := by
  induction ts generalizing b with
  | nil => trivial
  | cons t ts ih =>
    simp only [List.mem_cons, forall_eq_or_imp] at h
    cases t with
    | elseIf | elseBranch => exact h.1.elim
    | _ => exact ih h.2

end Append

/-! ## Chains of branches -/

/-- Tokens that continue an `if`, or begin it anew. -/
structure BranchChain (ts : List (Token α)) : Prop where
  definitions : definitions ts = []
  mentions : mentions ts = []
  after : ∀ xs, localsAfter xs ts = xs
  locals : ∀ xs, LocalsDistinct xs ts
  branches : ElseFollows true ts
  allowed : elseAllowed true ts = true

section Chain
variable {ts : List (Token α)}

theorem BranchChain.nil : BranchChain ([] : List (Token α)) :=
  ⟨rfl, rfl, fun _ => rfl, fun _ => trivial, trivial, rfl⟩

theorem BranchChain.cons_if (h : BranchChain ts) : BranchChain (.ifBranch :: ts) :=
  ⟨h.definitions, h.mentions, h.after, h.locals, h.branches, h.allowed⟩

theorem BranchChain.cons_elseIf (h : BranchChain ts) : BranchChain (.elseIf :: ts) :=
  ⟨h.definitions, h.mentions, h.after, h.locals, ⟨rfl, h.branches⟩, h.allowed⟩

end Chain

/-! ## One entry for each key -/

/-- What only the entry with one key can give is given as often as by that entry. -/
theorem count_flatMap_key [BEq α] [LawfulBEq α] {key : β → κ} {g : β → List α} {l : List β}
    (hkeys : (l.map key).Nodup) {c : β} (hc : c ∈ l) {f : α}
    (hothers : ∀ d ∈ l, key d ≠ key c → f ∉ g d) : (l.flatMap g).count f = (g c).count f := by
  induction l with
  | nil => cases hc
  | cons d l ih =>
    obtain ⟨hd, hl⟩ := List.nodup_cons.1 hkeys
    simp only [List.mem_cons, forall_eq_or_imp] at hothers
    rw [List.flatMap_cons, List.count_append]
    obtain rfl | hmem := List.mem_cons.1 hc
    · have hrest : f ∉ l.flatMap g := by
        intro hf
        obtain ⟨e, he, hfe⟩ := List.mem_flatMap.1 hf
        refine hothers.2 e he (fun hkey => hd ?_) hfe
        exact hkey ▸ List.mem_map_of_mem he
      rw [List.count_eq_zero_of_not_mem hrest, Nat.add_zero]
    · have hne : key d ≠ key c := fun hkey => hd (hkey ▸ List.mem_map_of_mem hmem)
      rw [List.count_eq_zero_of_not_mem (hothers.1 hne), Nat.zero_add, ih hl hmem hothers.2]

end Rcom.Lib.Scopes
