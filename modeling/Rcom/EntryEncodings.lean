import Rcom.AddrParsing
import Rcom.Endpoints
import Rcom.ProxyEvents
import Rcom.RegistryTexts

/-!
# The encodings of an entry

An entry travels as an object built with the JSON library, in the register request of a
proxy and in the event that the central registry broadcasts. All of them are read by
`registry_entry_parse`. What it makes of any other object depends on the port: the number
is cut to an `int` before its range is checked.
-/

namespace Rcom.RegistryEntry
open Rcom.Lib Rcom.Lib.Json Rcom.Libc Rcom.Addr Rcom.RcRegistry Rcom.Proxy Rcom.Node

/-! ## Objects that are no entry -/

variable {J : Type} (L : JsonLib J)

def Complete (obj : J) : Prop :=
  FieldsValid L obj ∧ ∃ s, L.jsonObjectGetstr obj (ascii "addr") = some s ∧ ValidAddress s

variable {L}

theorem decode_register {id name topic type addr : CStr} (hid : Plain id) (hname : Plain name)
    (htopic : Plain topic) (htype : Plain type) (haddr : Plain addr) :
    decode (requestBytes (.register id name topic type addr)) =
      some (.obj [(ascii "request", .str (ascii "register")),
        (ascii "entry", entryValue id name topic type addr)]) := by
  obtain ⟨-, -, -, -, kentry, kid, kname, ktopic, ktype, kaddr⟩ := plain_keys
  have krequest : Plain (ascii "request") := by decide
  have hentry : Reads _ (entryValue id name topic type addr) :=
    .obj (.next kid (.space (.str hid)) (.space (.next kname (.space (.str hname))
      (.space (.next ktopic (.space (.str htopic)) (.space (.next ktype (.space (.str htype))
        (.space (.last kaddr (.space (.str haddr)))))))))))
  have h : Reads _ (.obj [(ascii "request", .str (ascii "register")),
      (ascii "entry", entryValue id name topic type addr)]) :=
    .obj (.next krequest (.space (.str (show Plain (ascii "register") by decide)))
      (.last kentry (.space hentry)))
  have h₁ : ascii "\x7b\"request\": \"register\",\"entry\": \x7b\"id\": \"" = 123 :: 34 ::
      (ascii "request" ++ 34 :: 58 :: 32 :: 34 :: (ascii "register" ++ 34 :: 44 :: 34 ::
        (ascii "entry" ++ 34 :: 58 :: 32 :: 123 :: 34 :: (ascii "id" ++ [34, 58, 32, 34])))) := by
    decide
  have h₂ : ascii "\", \"name\": \"" = 34 :: 44 :: 32 :: 34 :: (ascii "name" ++ [34, 58, 32, 34]) := by
    decide
  have h₃ : ascii "\", \"topic\": \"" = 34 :: 44 :: 32 :: 34 ::
      (ascii "topic" ++ [34, 58, 32, 34]) := by decide
  have h₄ : ascii "\", \"type\": \"" = 34 :: 44 :: 32 :: 34 :: (ascii "type" ++ [34, 58, 32, 34]) := by
    decide
  have h₅ : ascii "\", \"addr\": \"" = 34 :: 44 :: 32 :: 34 :: (ascii "addr" ++ [34, 58, 32, 34]) := by
    decide
  have h₆ : ascii "\"\x7d\x7d" = [34, 125, 125] := by decide
  rw [← h.decode]
  simp [requestBytes, h₁, h₂, h₃, h₄, h₅, h₆]

variable {denote : Value → J} (hL : L.Lawful denote)
include hL

omit hL

end Rcom.RegistryEntry
