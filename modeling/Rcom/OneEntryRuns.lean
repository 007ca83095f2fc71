import Rcom.NodeSteps

/-!
# One entry for each id in every run

The registration of an endpoint carries the address that the entry has when it is sent. The
announcement that comes back is compared with the entry as it is then, by its address, so a link
that was connected in between is taken for another one.
-/

namespace Rcom.ProxyRuns
open Rcom.Lib Rcom.Lib.Json Rcom.Lib.Trace Rcom.Addr Rcom.RegistryEntry Rcom.Registry Rcom.RcRegistry
open Rcom.Proxy Rcom.Node Rcom.Client Rcom.Replica Rcom.Interleaving Rcom.NodeTexts
variable {J : Type} {L : JsonLib J} {link : LinkId}

/-! ## Runs -/

theorem Inv.step {denote : Value → J} (hL : L.Lawful denote) {s s' : System J} {a : Action}
    (h : Inv L link s) (henabled : Enabled link s a) (hsafe : Safe L link s a)
    (hs' : next L link s a = some s') : Inv L link s' := by
  cases a with
  | handle l r => exact h.handle hL henabled hs'
  | join => exact h.join henabled hs'
  | serve => exact h.serve hL henabled hs'
  | emit i =>
    cases hs'
    exact h.emit henabled
  | deliver outcomes => exact h.deliver hL henabled hsafe hs'
  | insert name topic type created => exact h.insert henabled hs'
  | register i sent => exact h.register henabled hs'
  | remove type endpoint => exact h.remove hs'
  | unregister i sent => exact h.unregister henabled hs'
  | update sent => exact h.update henabled hs'

section Steps
variable {denote : Value → J} (hL : L.Lawful denote) {s : System J}
include hL

theorem deliver_event {t : Text J} {queue : List (Text J)} {ev : ProxyEvent} {proxy : Proxy}
    {es : List Effect} {outcomes : List Outcome} (hqueue : s.queue = t :: queue) (ht : Tells L t ev)
    (hhandle : Proxy.handle s.proxy outcomes ev = some (proxy, es)) :
    next L link s (.deliver outcomes) =
      some { s with queue := queue, proxy := proxy, updates := requestsOf es } := by
  simp only [next, hqueue, onmessage_of_carries (ht.carries hL), hhandle, Option.map_some]

end Steps

def linkAddr : Addr := ⟨⟨10, 0, 0, 7⟩, 40001⟩

def loggerLink (a : Addr) : Entry :=
  entryOf (ascii "configuration") (ascii "logger") .messagelink ⟨7, a, firstId⟩

def loggerHub : Entry :=
  ⟨secondId, ascii "logger", ascii "logger", .messagehub, some ⟨⟨10, 0, 0, 1⟩, 80⟩, none⟩

def hubList : Text Value := .obj (listValue [hubEntry])

def linkRequest : Request := requestOf (loggerLink newAddr0)

def moved : Request := .updateAddress firstId (addrString (some linkAddr))

def asking : System Value := { start [hubEntry] with joined := true, requests := [.list] }

def answering : System Value :=
  { asking with requests := [], handlers := [⟨0, [.send 0 hubList], [hubEntry]⟩] }

def listed : System Value :=
  { asking with requests := [], handlers := [⟨0, [], [hubEntry]⟩], proxy := ⟨[hubEntry.remote], .ready⟩ }

def opened : System Value := { listed with
  proxy := ⟨[hubEntry.remote, loggerLink newAddr0], .ready⟩
  opening := [loggerLink newAddr0]
  named := [(hubId, none), (firstId, some 0)] }

def registering : System Value := { opened with opening := [], requests := [linkRequest] }

def hubRegistered : System Value := { registering with
  registry := [hubEntry, loggerHub.remote]
  handlers := [⟨0, [], [hubEntry]⟩, ⟨1, [rcregistrySuccess 1 (ascii "register"),
    .broadcast none (addText loggerHub.remote)], [hubEntry, loggerHub.remote]⟩]
  named := [(hubId, none), (firstId, some 0), (secondId, some 1)] }

def hubAnnounced : System Value := emit 0 (emit 0 hubRegistered 1) 1

def connected : System Value := { hubAnnounced with
  queue := []
  proxy := ⟨[hubEntry.remote, loggerLink linkAddr, loggerHub.remote], .ready⟩
  updates := [moved] }

def through : System Value → List (Action × System Value) → List (Move (Exec (System Value)) Action)
  | _, [] => []
  | s, (a, t) :: l => ⟨some s, a, some t⟩ :: through t l

def openingStates : List (Action × System Value) :=
  [(.join, asking), (.serve, answering), (.emit 0, emit 0 answering 0), (.deliver [], listed),
    (.insert (ascii "configuration") (ascii "logger") .messagelink ⟨7, newAddr0, firstId⟩, opened),
    (.register 0 true, registering)]

theorem hubList_tells : Tells valueLib hubList (.list [hubEntry.remote]) := by
  obtain ⟨list, hlist⟩ := Option.isSome_iff_exists.1
    (encodeListLoop_isSome (L := valueLib) [hubEntry].reverse valueLib.jsonArrayCreate)
  have heq := listResponse_of_encode valueLib_lawful hlist
  have htext : hubList = .obj (listResponse valueLib list) := congrArg Text.obj heq.symm
  rw [htext]
  exact .list hubEntry_wellFormed (List.nodup_singleton _) (List.cons_ne_nil _ _) hlist

theorem serve_list : next valueLib 0 asking .serve = some answering := by
  obtain ⟨list, hlist⟩ := Option.isSome_iff_exists.1
    (encodeListLoop_isSome (L := valueLib) [hubEntry].reverse valueLib.jsonArrayCreate)
  have hasks : Asks valueLib (valueLib.jsonParse (requestBytes .list)) (ascii "list") :=
    jsonParse_list valueLib_lawful ▸ asks_listRequest valueLib_lawful
  have heq := handled_iff.1
    (.listed hasks (fun e he => (hubEntry_wellFormed e he).addr) hlist :
      Handled valueLib [hubEntry] 0 _ _ _)
  rw [listResponse_of_encode valueLib_lawful hlist] at heq
  show ask valueLib { asking with requests := [] } 0 .list = _
  rw [ask]
  dsimp only [asking, start]
  rw [heq]
  rfl

theorem deliver_list : next valueLib 0 (emit 0 answering 0) (.deliver []) = some listed := by
  have hread : Proxy.handle newProxy [] (.list [hubEntry.remote]) =
      some (⟨[hubEntry.remote], .ready⟩, []) := rfl
  exact deliver_event valueLib_lawful (s := emit 0 answering 0) rfl hubList_tells hread

theorem opening_run : Run (Step valueLib 0) (some (start [hubEntry]))
    (through (start [hubEntry]) openingStates) (some registering) := by
  refine .cons ⟨_, rfl, rfl, rfl⟩ ?_
  refine .cons ⟨_, rfl, ⟨List.cons_ne_nil _ _, by simp [Idle, asking, start]⟩, serve_list.symm⟩ ?_
  refine .cons ⟨_, rfl, ⟨_, rfl, List.cons_ne_nil _ _⟩, rfl⟩ ?_
  refine .cons ⟨_, rfl, ⟨List.cons_ne_nil _ _, rfl, by simp [Addressed]⟩, deliver_list.symm⟩ ?_
  refine .cons ⟨_, rfl, ⟨rfl, by decide, by decide⟩, rfl⟩ ?_
  exact .single ⟨_, rfl, Nat.zero_lt_one, rfl⟩

end Rcom.ProxyRuns
