import Rcom.RegistryEntry
import Rcom.Lib.FirstMatch

/-!
# The registry (registry.c, second part)

The registry is the list of its entries; every function here is one section under the
registry's mutex. A result `none` of `Exec` is undefined behaviour, a NULL or an error
code is a value.
-/

namespace Rcom
open Rcom.Lib Rcom.Addr Rcom.RegistryEntry

abbrev Registry := List Entry

/-- The arguments of `registry_select` and `registry_count`; `none` matches anything. -/
structure Filter where
  id : Option CStr
  name : Option CStr
  topic : Option CStr
  type : Option EntryType
  addr : Option Addr
  endpoint : Option Endpoint

namespace Registry

def newRegistry : Registry := []

def cloneEntry (e : Entry) : Option Entry :=
  newRegistryEntry e.id e.name e.topic e.type e.addr e.endpoint

/-- The copy of an entry without address is NULL. -/
def registryGet (registry : Registry) (id : CStr) : Option Entry :=
  (registry.find? fun e => e.id = id).bind cloneEntry

def agrees {α : Type} [DecidableEq α] (wanted : Option α) (actual : α) : Bool :=
  wanted.all (· = actual)

/-- The condition of the loops in `registry_select` and `registry_count`. Comparing with
the address of an entry that has none is undefined behaviour. -/
def selects (f : Filter) (e : Entry) : Exec Bool :=
  if agrees f.id e.id && agrees f.type e.type && agrees f.name e.name && agrees f.topic e.topic then
    match f.addr, e.addr with
    | none, _ => some (f.endpoint.all (some · = e.endpoint))
    | some _, none => none
    | some addr, some a => some (addrEq a addr && f.endpoint.all (some · = e.endpoint))
  else some false

def selectLoop (f : Filter) : Registry → List (Option Entry) → Exec (List (Option Entry))
  | [], results => some results
  | e :: l, results =>
    match selects f e with
    | none => none
    | some true => selectLoop f l (cloneEntry e :: results)
    | some false => selectLoop f l results

def registrySelect (registry : Registry) (f : Filter) : Exec (List (Option Entry)) :=
  selectLoop f registry []

def selectAll : Filter := ⟨none, none, none, none, none, none⟩

def registrySelectAll (registry : Registry) : Exec (List (Option Entry)) :=
  registrySelect registry selectAll

def registryCount : Registry → Filter → Exec ℕ
  | [], _ => some 0
  | e :: l, f =>
    match selects f e with
    | none => none
    | some b => (registryCount l f).map (· + b.toNat)

def registryAddEntry (registry : Registry) (entry : Entry) : Registry := registry ++ [entry]

/-- `none` is the error code; the registry is then as before. -/
def registryInsert (registry : Registry) (id name topic : CStr) (type : EntryType)
    (addr : Option Addr) (endpoint : Option Endpoint) : Option Registry :=
  (newRegistryEntry id name topic type addr endpoint).map (registryAddEntry registry)

def registryInsertEntry (registry : Registry) (entry : Entry) : Option Registry :=
  registryInsert registry entry.id entry.name entry.topic entry.type entry.addr entry.endpoint

/-- `none` when no entry has the id. -/
def registryDelete : Registry → CStr → Option Registry
  | [], _ => none
  | e :: l, id => if e.id = id then some l else (registryDelete l id).map (e :: ·)

/-- The registry afterwards and the error code. The old address is freed before the new
one is parsed, and an id that is not found is no error. -/
def registryUpdateAddr : Registry → CStr → CStr → Exec (Registry × ℤ)
  | [], _, _ => some ([], 0)
  | e :: l, id, addr =>
    if id = e.id then
      match addrParse addr with
      | none => none
      | some a => some ({ e with addr := a } :: l, if a = none then -1 else 0)
    else (registryUpdateAddr l id addr).map fun r => (e :: r.1, r.2)

/-! ## Specifications -/

theorem registryInsertEntry_eq (registry : Registry) {e : Entry} (h : e.addr ≠ none) :
    registryInsertEntry registry e = some (registry ++ [e]) := by
  obtain ⟨a, ha⟩ := Option.ne_none_iff_exists'.1 h
  obtain ⟨id, name, topic, type, addr, endpoint⟩ := e
  obtain rfl : addr = some a := ha
  rfl

theorem cloneEntry_of_addr {e : Entry} (h : e.addr ≠ none) : cloneEntry e = some e := by
  obtain ⟨a, ha⟩ := Option.ne_none_iff_exists'.1 h
  obtain ⟨id, name, topic, type, addr, endpoint⟩ := e
  obtain rfl : addr = some a := ha
  rfl

theorem cloneEntry_eq_none_iff {e : Entry} : cloneEntry e = none ↔ e.addr = none := by
  obtain ⟨id, name, topic, type, addr, endpoint⟩ := e
  cases addr <;> simp [cloneEntry, newRegistryEntry]

theorem cloneEntry_eq {e e' : Entry} (h : cloneEntry e = some e') : e = e' := by
  have haddr : e.addr ≠ none := by
    intro hnone
    rw [cloneEntry_eq_none_iff.2 hnone] at h
    simp at h
  rw [cloneEntry_of_addr haddr] at h
  exact Option.some.inj h

theorem map_cloneEntry {registry : Registry} (h : ∀ e ∈ registry, e.addr ≠ none) :
    registry.map cloneEntry = registry.map some :=
  List.map_congr_left fun e he => cloneEntry_of_addr (h e he)

def picks (f : Filter) (e : Entry) : Bool :=
  agrees f.id e.id && agrees f.type e.type && agrees f.name e.name && agrees f.topic e.topic &&
    f.endpoint.all (some · = e.endpoint)

theorem selects_eq_picks {f : Filter} (h : f.addr = none) (e : Entry) :
    selects f e = some (picks f e) := by
  unfold selects picks
  split_ifs with hp
  · simp [h, hp]
  · simp [hp]

theorem selectLoop_eq {f : Filter} (h : f.addr = none) (registry : Registry)
    (results : List (Option Entry)) :
    selectLoop f registry results =
      some (((registry.filter (picks f)).map cloneEntry).reverse ++ results) := by
  induction registry generalizing results with
  | nil => rfl
  | cons e l ih =>
    rw [selectLoop, selects_eq_picks h]
    cases hp : picks f e <;> simp [hp, ih]

theorem registrySelect_eq {f : Filter} (h : f.addr = none) (registry : Registry) :
    registrySelect registry f = some ((registry.filter (picks f)).map cloneEntry).reverse := by
  rw [registrySelect, selectLoop_eq h, List.append_nil]

theorem mem_of_copies {registry : Registry} {p : Entry → Bool} {e : Entry}
    (h : some e ∈ ((registry.filter p).map cloneEntry).reverse) : e ∈ registry ∧ p e = true := by
  obtain ⟨f, hf, hclone⟩ := List.mem_map.1 (List.mem_reverse.1 h)
  rw [← cloneEntry_eq hclone]
  exact List.mem_filter.1 hf

theorem none_of_no_copies {registry : Registry} {p : Entry → Bool}
    (h : ((registry.filter p).map cloneEntry).reverse = []) : ∀ e ∈ registry, ¬p e = true := by
  have hempty : registry.filter p = [] := by
    rwa [List.reverse_eq_nil_iff, List.map_eq_nil_iff] at h
  exact List.filter_eq_nil_iff.1 hempty

theorem mem_of_first_copy {registry : Registry} {p : Entry → Bool} {e : Entry}
    {l : List (Option Entry)} (h : ((registry.filter p).map cloneEntry).reverse = some e :: l) :
    e ∈ registry ∧ p e = true := by
  apply mem_of_copies
  rw [h]
  exact List.mem_cons_self

theorem registrySelectAll_eq (registry : Registry) :
    registrySelectAll registry = some (registry.map cloneEntry).reverse := by
  have hall : registry.filter (picks selectAll) = registry := List.filter_eq_self.2 fun _ _ => rfl
  rw [registrySelectAll, registrySelect_eq rfl, hall]

theorem registrySelectAll_of_addr {registry : Registry} (h : ∀ e ∈ registry, e.addr ≠ none) :
    registrySelectAll registry = some (registry.reverse.map some) := by
  rw [registrySelectAll_eq, map_cloneEntry h, List.map_reverse]

theorem registryDelete_known {registry : Registry} {id : CStr} (h : ∃ e ∈ registry, e.id = id) :
    registryDelete registry id = some (registry.eraseP fun e => e.id = id) := by
  induction registry with
  | nil => simp at h
  | cons e l ih =>
    by_cases he : e.id = id
    · simp [registryDelete, he]
    · have hl : ∃ e ∈ l, e.id = id := by simpa [he] using h
      simp [registryDelete, he, ih hl]

theorem registryDelete_unknown {registry : Registry} {id : CStr}
    (h : ¬ ∃ e ∈ registry, e.id = id) : registryDelete registry id = none := by
  induction registry with
  | nil => rfl
  | cons e l ih =>
    simp only [List.mem_cons, exists_eq_or_imp, not_or] at h
    simp [registryDelete, h.1, ih h.2]

theorem registryDelete_getD (registry : Registry) (id : CStr) :
    (registryDelete registry id).getD registry = registry.eraseP fun e => e.id = id := by
  by_cases h : ∃ e ∈ registry, e.id = id
  · rw [registryDelete_known h, Option.getD_some]
  · have hnone : ∀ e ∈ registry, ¬(decide (e.id = id) = true) := fun e he => by
      simpa using fun hid => h ⟨e, he, hid⟩
    rw [registryDelete_unknown h, Option.getD_none, List.eraseP_of_forall_not hnone]

def setAddr (a : Option Addr) (e : Entry) : Entry := { e with addr := a }

@[simp] theorem setAddr_id (a : Option Addr) (e : Entry) : (setAddr a e).id = e.id := rfl
@[simp] theorem setAddr_name (a : Option Addr) (e : Entry) : (setAddr a e).name = e.name := rfl
@[simp] theorem setAddr_topic (a : Option Addr) (e : Entry) : (setAddr a e).topic = e.topic := rfl
@[simp] theorem setAddr_type (a : Option Addr) (e : Entry) : (setAddr a e).type = e.type := rfl
@[simp] theorem setAddr_addr (a : Option Addr) (e : Entry) : (setAddr a e).addr = a := rfl
@[simp] theorem setAddr_endpoint (a : Option Addr) (e : Entry) :
    (setAddr a e).endpoint = e.endpoint := rfl

theorem registryUpdateAddr_unknown {registry : Registry} {id : CStr}
    (h : ¬ ∃ e ∈ registry, e.id = id) (addr : CStr) :
    registryUpdateAddr registry id addr = some (registry, 0) := by
  induction registry with
  | nil => rfl
  | cons e l ih =>
    simp only [List.mem_cons, exists_eq_or_imp, not_or] at h
    simp [registryUpdateAddr, Ne.symm h.1, ih h.2]

theorem registryUpdateAddr_known {registry : Registry} {id : CStr}
    (h : ∃ e ∈ registry, e.id = id) (addr : CStr) :
    registryUpdateAddr registry id addr = (addrParse addr).map fun a =>
      (updateFirst (fun e => e.id = id) (setAddr a) registry, if a = none then -1 else 0) := by
  induction registry with
  | nil => simp at h
  | cons e l ih =>
    by_cases he : e.id = id
    · rw [registryUpdateAddr, if_pos he.symm]
      cases addrParse addr <;> simp [he, updateFirst, setAddr]
    · have hl : ∃ e ∈ l, e.id = id := by simpa [he] using h
      rw [registryUpdateAddr, if_neg (Ne.symm he), ih hl]
      cases addrParse addr <;> simp [he, updateFirst]

end Registry
end Rcom
