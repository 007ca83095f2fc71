import Rcom.RcRegistry

/-!
# Runs of the central registry

Any number of clients send any messages, and the registry handles them one after the
other. A state is the registry, or `none` once a message has led to undefined behaviour.
Each section takes one invariant: what one message preserves, then the exact condition on
the messages of a run.
-/

namespace Rcom.RcRegistry
open Rcom.Lib Rcom.Lib.Json Rcom.Lib.Trace Rcom.Addr Rcom.RegistryEntry Rcom.Registry
variable {J : Type} (L : JsonLib J)

structure Message (J : Type) where
  link : LinkId
  body : J

def serve : Exec Registry → Message J → Exec Registry
  | none, _ => none
  | some r, m => (rcregistryOnmessage L r m.link m.body).map Prod.fst

def Serves (s : Exec Registry) (m : Message J) (t : Exec Registry) : Prop := t = serve L s m

def Refused (outs : List (Output J)) : Prop :=
  ∃ link req message, Output.send link (.fail req message) ∈ outs

def Accepted (outs : List (Output J)) : Prop :=
  ∃ link req, Output.send link (.success req) ∈ outs

variable {L}

theorem serve_of_handled {r r' : Registry} {m : Message J} {outs : List (Output J)}
    (h : Handled L r m.link m.body r' outs) : serve L (some r) m = some r' := by
  rw [serve, handled_iff.1 h, Option.map_some]

theorem serve_of_faults {r : Registry} {m : Message J} (h : Faults L r m.body) :
    serve L (some r) m = none := by
  rw [serve, eq_none_of_faults h, Option.map_none]

theorem serve_cases (r : Registry) (m : Message J) :
    Faults L r m.body ∨ ∃ r' outs, Handled L r m.link m.body r' outs := by
  cases h : rcregistryOnmessage L r m.link m.body with
  | none => exact .inl (faults_of_eq h)
  | some p => exact .inr ⟨p.1, p.2, handled_of_eq h⟩

theorem handled_of_serves {r r' : Registry} {m : Message J} (h : Serves L (some r) m (some r')) :
    ∃ outs, Handled L r m.link m.body r' outs := by
  rcases serve_cases (L := L) r m with hf | ⟨r'', outs, hh⟩
  · rw [Serves, serve_of_faults hf] at h
    cases h
  · rw [Serves, serve_of_handled hh, Option.some.injEq] at h
    exact ⟨outs, h ▸ hh⟩

theorem Asks.unique {message : J} {request request' : CStr} (h : Asks L message request)
    (h' : Asks L message request') : request = request' :=
  Option.some.inj (h.2.symm.trans h'.2)

theorem Updates.unique {message : J} {id id' addr addr' : CStr} (h : Updates L message id addr)
    (h' : Updates L message id' addr') : id = id' ∧ addr = addr' :=
  ⟨Option.some.inj (h.2.1.symm.trans h'.2.1), Option.some.inj (h.2.2.symm.trans h'.2.2)⟩

theorem Registers.unique {message : J} {e e' : Entry} (h : Registers L message e)
    (h' : Registers L message e') : e = e' := by
  simpa using h.2.2.symm.trans h'.2.2

/-- Apart from a registration, a message can only change an address or drop an entry. -/
theorem Handled.map_sublist {β : Type} {g : Entry → β} (hg : ∀ a e, g (setAddr a e) = g e)
    {r r' : Registry} {link : LinkId} {message : J} {outs : List (Output J)}
    (h : Handled L r link message r' outs) :
    (∃ e, Registers L message e ∧ r' = r ++ [e]) ∨ (r'.map g).Sublist (r.map g) := by
  cases h with
  | registered h => exact .inl ⟨_, h, rfl⟩
  | rejected | ignored | unregisterFailed | listed | updatedNothing => exact .inr (.refl _)
  | unregistered => exact .inr (List.eraseP_sublist.map g)
  | updated | updateFailed => exact .inr (by rw [map_updateFirst_eq g (hg _)])

/-! ## Well-formed entries -/

def WellFormed (r : Registry) : Prop := ∀ e ∈ r, e.WellFormed

def Valid (r : Registry) : Prop := ∀ e ∈ r, e.Valid

variable (L) in
def Reachable (r : Registry) : Prop :=
  ∃ uuid addr hub r₀ ms, registryValidId uuid = true ∧ newRcregistry uuid addr hub = some r₀ ∧
    Run (Serves L) (some r₀) ms (some r)

variable (L) in
/-- Every address that the message makes the registry parse fits the buffer, and a new
address for an entry that exists is one. -/
structure AddressesUsable (r : Registry) (message : J) : Prop where
  register : Asks L message (ascii "register") →
    L.jsonIsnull (L.jsonObjectGet message (ascii "entry")) = false →
    ¬ OverlongEntry L (L.jsonObjectGet message (ascii "entry"))
  update : ∀ id addr, Updates L message id addr → Holds r id → ∃ a, addrParse addr = some (some a)

theorem newRcregistry_eq {uuid : CStr} {addr : Option Addr} {hub : Endpoint} {r : Registry}
    (h : newRcregistry uuid addr hub = some r) :
    ∃ a, addr = some a ∧
      r = [⟨uuid, ascii "registry", ascii "registry", .messagehub, some a, some hub⟩] := by
  cases addr with
  | none => simp [newRcregistry, registryInsert, newRegistryEntry] at h
  | some a => exact ⟨a, rfl, (Option.some.inj h).symm⟩

theorem newRcregistry_wellFormed {uuid : CStr} (hu : registryValidId uuid = true)
    {addr : Option Addr} {hub : Endpoint} {r : Registry}
    (h : newRcregistry uuid addr hub = some r) : WellFormed r := by
  obtain ⟨a, -, rfl⟩ := newRcregistry_eq h
  intro e he
  obtain rfl := List.mem_singleton.1 he
  have hname : registryValidName (ascii "registry") = true := by decide
  have htopic : registryValidTopic (ascii "registry") = true := by decide
  exact ⟨⟨hu, hname, htopic⟩, by simp⟩

theorem Handled.valid {r r' : Registry} {link : LinkId} {message : J} {outs : List (Output J)}
    (h : Handled L r link message r' outs) (hr : Valid r) : Valid r' := by
  cases h with
  | rejected | ignored | unregisterFailed | listed | updatedNothing => exact hr
  | registered h =>
    intro f hf
    rcases List.mem_append.1 hf with hf | hf
    · exact hr f hf
    · obtain rfl := List.mem_singleton.1 hf
      exact (registryEntryParse_ok h.2.2).1.toValid
  | unregistered => exact fun f hf => hr f (List.mem_of_mem_eraseP hf)
  | updated | updateFailed =>
    intro f hf
    rcases mem_updateFirst hf with hf | ⟨g, hg, -, rfl⟩
    · exact hr f hf
    · exact ⟨(hr g hg).id, (hr g hg).name, (hr g hg).topic⟩

theorem Reachable.valid {r : Registry} (h : Reachable L r) : Valid r := by
  obtain ⟨uuid, addr, hub, r₀, ms, hu, h₀, hrun⟩ := h
  refine hrun.invariant (I := fun s => ∀ r, s = some r → Valid r) (G := fun _ => True) ?_ ?_ ?_ r rfl
  · rintro s m t hI hs - r' rfl
    cases s with
    | none => cases hs
    | some r =>
      obtain ⟨outs, hh⟩ := handled_of_serves hs
      exact hh.valid (hI r rfl)
  · rintro r hr
    obtain rfl : r₀ = r := Option.some.inj hr
    exact fun e he => (newRcregistry_wellFormed hu h₀ e he).toValid
  · exact fun _ _ => trivial

theorem Handled.wellFormed {r r' : Registry} {link : LinkId} {message : J}
    {outs : List (Output J)} (h : Handled L r link message r' outs) (hr : WellFormed r)
    (hG : AddressesUsable L r message) : WellFormed r' := by
  cases h with
  | rejected | ignored | unregisterFailed | listed | updatedNothing => exact hr
  | registered h =>
    intro f hf
    rcases List.mem_append.1 hf with hf | hf
    · exact hr f hf
    · obtain rfl := List.mem_singleton.1 hf
      exact (registryEntryParse_ok h.2.2).1
  | unregistered => exact fun f hf => hr f (List.mem_of_mem_eraseP hf)
  | updated =>
    intro f hf
    rcases mem_updateFirst hf with hf | ⟨g, hg, -, rfl⟩
    · exact hr f hf
    · exact ⟨⟨(hr g hg).id, (hr g hg).name, (hr g hg).topic⟩, by simp⟩
  | updateFailed h hh hp =>
    obtain ⟨a, ha⟩ := hG.update _ _ h hh
    rw [hp] at ha
    simp at ha

theorem not_faults_of_usable {r : Registry} {message : J} (hr : WellFormed r)
    (hG : AddressesUsable L r message) : ¬ Faults L r message := by
  rintro (⟨ha, hn, hp⟩ | ⟨-, he, hnone⟩ | ⟨h, hh, hp⟩)
  · exact hG.register ha hn hp
  · exact (hr _ he).addr hnone
  · obtain ⟨a, ha⟩ := hG.update _ _ h hh
    rw [addrParse_eq_none_iff.2 hp] at ha
    simp at ha

def hubId : CStr := ascii "ed8ae24b-fbfe-4320-ae2e-4115e95b9c6d"

def hubAddr : Addr := ⟨⟨0, 0, 0, 0⟩, 10101⟩

def hubEntry : Entry :=
  ⟨hubId, ascii "registry", ascii "registry", .messagehub, some hubAddr, some 0⟩

theorem newRcregistry_hub : newRcregistry hubId (some hubAddr) 0 = some [hubEntry] := rfl

def firstMove (m : Message Value) : List (Move (Exec Registry) (Message Value)) :=
  [⟨some [hubEntry], m, serve valueLib (some [hubEntry]) m⟩]

theorem firstMove_run (m : Message Value) :
    Run (Serves valueLib) (some [hubEntry]) (firstMove m)
      (serve valueLib (some [hubEntry]) m) := .single rfl

end Rcom.RcRegistry
