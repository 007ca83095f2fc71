import Rcom.RegistryRuns
import Rcom.Lib.JsonText

/-!
# The texts of the central registry

The format strings copy their arguments between quotes as they are, so each text is the
JSON object it is meant to be exactly if its arguments need no escape. Which arguments
do depends on the validators that ran before.
-/

namespace Rcom.RcRegistry
open Rcom.Lib Rcom.Lib.Json Rcom.Lib.Decimal Rcom.Lib.Trace Rcom.Libc Rcom.Addr
open Rcom.RegistryEntry Rcom.Registry
variable {J : Type} (L : JsonLib J)

/-- The strings that reach a format string without a validator need no escape, and an
address that is registered is spelled as `addr_string` spells it. -/
structure Harmless (r : Registry) (message : J) : Prop where
  request : ∀ request, Asks L message request → request ∉ requestNames → Plain request
  update : ∀ id addr, Updates L message id addr →
    (Holds r id → ∃ a, addrParse addr = some (some a)) → Plain id ∧ Plain addr
  address : ∀ e, Registers L message e →
    L.jsonObjectGetstr (L.jsonObjectGet message (ascii "entry")) (ascii "addr") =
      some (addrString e.addr)
  defined : ¬ Faults L r message

variable {L}

theorem plain_typeToStr (type : EntryType) : Plain (registryTypeToStr type) := by
  cases type <;> decide

theorem plain_addrString (a : Addr) : Plain (addrString (some a)) := by
  have hchar : ∀ c ∈ addrString (some a), c = 58 ∨ c = 46 ∨ (48 ≤ c.toNat ∧ c.toNat ≤ 57) := by
    intro c hc
    rw [addrString, List.mem_append, List.mem_cons] at hc
    rcases hc with hc | hc | hc
    · exact .inr (mem_inetNtoa hc)
    · exact .inl hc
    · exact .inr (.inr (mem_decimal hc))
  intro c hc
  rcases hchar c hc with rfl | rfl | ⟨hlo, hhi⟩
  · decide
  · decide
  · refine ⟨?_, ?_, ?_⟩
    · rintro rfl
      simp at hlo
    · rintro rfl
      simp at hhi
    · rw [UInt8.lt_iff_toNat_lt]
      simp
      omega

/-! ## From the arguments to the value -/

theorem plain_keys : Plain (ascii "response") ∧ Plain (ascii "success") ∧ Plain (ascii "message") ∧
    Plain (ascii "event") ∧ Plain (ascii "entry") ∧ Plain (ascii "id") ∧ Plain (ascii "name") ∧
    Plain (ascii "topic") ∧ Plain (ascii "type") ∧ Plain (ascii "addr") := by
  decide

theorem ascii_end : ascii "\"\x7d" = [34, 125] := by decide

theorem ascii_response :
    ascii "\x7b\"response\":\"" = 123 :: 34 :: (ascii "response" ++ [34, 58, 34]) := by
  decide

theorem textBytes_fail (req message : CStr) :
    textBytes L (.fail req message) = 123 :: 34 :: (ascii "response" ++ 34 :: 58 :: 34 :: (req ++
      34 :: 44 :: 32 :: 34 :: (ascii "success" ++ 34 :: 58 :: (print (.bool false) ++
        44 :: 32 :: 34 :: (ascii "message" ++ 34 :: 58 :: 34 :: (message ++ [34, 125])))))) := by
  have h : ascii "\", \"success\":false, \"message\":\"" = 34 :: 44 :: 32 :: 34 ::
      (ascii "success" ++ 34 :: 58 :: (print (.bool false) ++ 44 :: 32 :: 34 ::
        (ascii "message" ++ [34, 58, 34]))) := by decide
  simp [textBytes, ascii_response, h, ascii_end]

theorem decode_fail {req message : CStr} (hreq : Plain req) (hmessage : Plain message) :
    decode (textBytes L (.fail req message)) = some (failValue req message) := by
  obtain ⟨kresponse, ksuccess, kmessage, -⟩ := plain_keys
  have h : Reads _ (failValue req message) := .obj (.next kresponse (.str hreq) (.space
    (.next ksuccess (.bool false) (.space (.last kmessage (.str hmessage))))))
  rw [← h.decode, textBytes_fail]
  simp

theorem decode_success {req : CStr} (hreq : Plain req) :
    decode (textBytes L (.success req)) = some (successValue req) := by
  obtain ⟨kresponse, ksuccess, -⟩ := plain_keys
  have h : Reads _ (successValue req) := .obj (.next kresponse (.str hreq) (.space
    (.last ksuccess (.bool true))))
  have h₁ : ascii "\", \"success\":true\x7d" = 34 :: 44 :: 32 :: 34 ::
      (ascii "success" ++ 34 :: 58 :: (print (.bool true) ++ [125])) := by decide
  rw [← h.decode]
  simp [textBytes, ascii_response, h₁]

theorem decode_proxyAdd {id name topic type addr : CStr} (hid : Plain id) (hname : Plain name)
    (htopic : Plain topic) (htype : Plain type) (haddr : Plain addr) :
    decode (textBytes L (.proxyAdd id name topic type addr)) =
      some (addValue id name topic type addr) := by
  obtain ⟨-, -, -, kevent, kentry, kid, kname, ktopic, ktype, kaddr⟩ := plain_keys
  have hentry : Reads _ (entryValue id name topic type addr) := .obj (.next kid (.space (.str hid))
    (.next kname (.space (.str hname)) (.next ktopic (.space (.str htopic))
      (.next ktype (.space (.str htype)) (.last kaddr (.space (.str haddr)))))))
  have h : Reads _ (addValue id name topic type addr) :=
    .obj (.next kevent (.space (.str (show Plain (ascii "proxy-add") by decide)))
      (.last kentry (.space hentry)))
  have h₁ : ascii "\x7b\"event\": \"proxy-add\",\"entry\": \x7b\"id\": \"" = 123 :: 34 ::
      (ascii "event" ++ 34 :: 58 :: 32 :: 34 :: (ascii "proxy-add" ++ 34 :: 44 :: 34 ::
        (ascii "entry" ++ 34 :: 58 :: 32 :: 123 :: 34 :: (ascii "id" ++ [34, 58, 32, 34])))) := by
    decide
  have h₂ : ascii "\",\"name\": \"" = 34 :: 44 :: 34 :: (ascii "name" ++ [34, 58, 32, 34]) := by
    decide
  have h₃ : ascii "\",\"topic\": \"" = 34 :: 44 :: 34 :: (ascii "topic" ++ [34, 58, 32, 34]) := by
    decide
  have h₄ : ascii "\",\"type\": \"" = 34 :: 44 :: 34 :: (ascii "type" ++ [34, 58, 32, 34]) := by
    decide
  have h₅ : ascii "\",\"addr\": \"" = 34 :: 44 :: 34 :: (ascii "addr" ++ [34, 58, 32, 34]) := by
    decide
  have h₆ : ascii "\"\x7d\x7d" = [34, 125, 125] := by decide
  rw [← h.decode]
  simp [textBytes, h₁, h₂, h₃, h₄, h₅, h₆]

theorem decode_proxyRemove {id : CStr} (hid : Plain id) :
    decode (textBytes L (.proxyRemove id)) = some (removeValue id) := by
  obtain ⟨-, -, -, kevent, -, kid, -⟩ := plain_keys
  have h : Reads _ (removeValue id) :=
    .obj (.next kevent (.space (.str (show Plain (ascii "proxy-remove") by decide)))
      (.space (.last kid (.space (.str hid)))))
  have h₁ : ascii "\x7b\"event\": \"proxy-remove\", \"id\": \"" = 123 :: 34 ::
      (ascii "event" ++ 34 :: 58 :: 32 :: 34 :: (ascii "proxy-remove" ++ 34 :: 44 :: 32 :: 34 ::
        (ascii "id" ++ [34, 58, 32, 34]))) := by decide
  rw [← h.decode]
  simp [textBytes, h₁, ascii_end]

theorem textBytes_proxyUpdateAddress (id addr : CStr) :
    textBytes L (.proxyUpdateAddress id addr) = 123 :: 34 :: (ascii "event" ++ 34 :: 58 :: 32 ::
      34 :: (ascii "proxy-update-address" ++ 34 :: 44 :: 34 :: (ascii "id" ++ 34 :: 58 :: 32 ::
        34 :: (id ++ 34 :: 44 :: 32 :: 34 :: (ascii "addr" ++ 34 :: 58 :: 32 :: 34 ::
          (addr ++ [34, 125])))))) := by
  have h₁ : ascii "\x7b\"event\": \"proxy-update-address\",\"id\": \"" = 123 :: 34 ::
      (ascii "event" ++ 34 :: 58 :: 32 :: 34 :: (ascii "proxy-update-address" ++ 34 :: 44 :: 34 ::
        (ascii "id" ++ [34, 58, 32, 34]))) := by decide
  have h₂ : ascii "\", \"addr\": \"" = 34 :: 44 :: 32 :: 34 ::
      (ascii "addr" ++ [34, 58, 32, 34]) := by decide
  simp [textBytes, h₁, h₂, ascii_end]

theorem decode_proxyUpdateAddress {id addr : CStr} (hid : Plain id) (haddr : Plain addr) :
    decode (textBytes L (.proxyUpdateAddress id addr)) = some (updateAddressValue id addr) := by
  obtain ⟨-, -, -, kevent, -, kid, -, -, -, kaddr⟩ := plain_keys
  have h : Reads _ (updateAddressValue id addr) :=
    .obj (.next kevent (.space (.str (show Plain (ascii "proxy-update-address") by decide)))
      (.next kid (.space (.str hid)) (.space (.last kaddr (.space (.str haddr))))))
  rw [← h.decode, textBytes_proxyUpdateAddress]
  simp

/-! ## From the value back to the arguments -/

theorem printable_value {e : Entry} (he : e.WellFormed) :
    Printable (RegistryEntry.Entry.value e) := by
  obtain ⟨a, ha⟩ := Option.ne_none_iff_exists'.1 he.addr
  obtain ⟨-, -, -, -, -, kid, kname, ktopic, ktype, kaddr⟩ := plain_keys
  simp only [RegistryEntry.Entry.value, entryValue, Printable, PrintableMembers, ha]
  exact ⟨⟨kid, plain_of_validId he.id⟩, ⟨kname, plain_of_validName he.name⟩,
    ⟨ktopic, plain_of_validTopic he.topic⟩, ⟨ktype, plain_typeToStr _⟩,
    ⟨kaddr, plain_addrString a⟩, trivial⟩

theorem printable_listValue {r : Registry} (hr : WellFormed r) : Printable (listValue r) := by
  obtain ⟨kresponse, ksuccess, kmessage, -⟩ := plain_keys
  simp only [listValue, Printable, PrintableMembers, printableElements_iff]
  refine ⟨⟨kresponse, by decide⟩, ⟨ksuccess, trivial⟩, ⟨kmessage, by decide⟩,
    ⟨by decide, fun v hv => ?_⟩, trivial⟩
  obtain ⟨e, he, rfl⟩ := List.mem_map.1 hv
  exact printable_value (hr e (List.mem_reverse.1 he))

theorem decode_addText {e : Entry} (he : e.WellFormed) :
    decode (textBytes L (addText e)) =
      some (addValue e.id e.name e.topic (registryTypeToStr e.type) (addrString e.addr)) := by
  obtain ⟨a, ha⟩ := Option.ne_none_iff_exists'.1 he.addr
  exact decode_proxyAdd (plain_of_validId he.id) (plain_of_validName he.name)
    (plain_of_validTopic he.topic) (plain_typeToStr _) (ha ▸ plain_addrString a)

end Rcom.RcRegistry
