import Rcom.Addr
import Rcom.JsonObject

/-!
# Registry entries (registry.c, first part)

`Entry.addr` is a pointer and may be NULL, as in the code; `Entry.WellFormed` says that
an entry would pass its own parser. The model does not run out of memory.
-/

namespace Rcom
open Rcom.Lib Rcom.Lib.Json

inductive EntryType where
  | datalink
  | datahub
  | messagelink
  | messagehub
  | service
  | streamer
  | streamerlink
  deriving DecidableEq

abbrev Endpoint := ℕ

structure Entry where
  id : CStr
  name : CStr
  topic : CStr
  type : EntryType
  addr : Option Addr
  endpoint : Option Endpoint
  deriving DecidableEq

namespace RegistryEntry
open Rcom.Addr

/-- `none` is `TYPE_NONE`. -/
def registryStrToType (str : CStr) : Option EntryType :=
  if str = ascii "datalink" then some .datalink
  else if str = ascii "datahub" then some .datahub
  else if str = ascii "messagelink" then some .messagelink
  else if str = ascii "messagehub" then some .messagehub
  else if str = ascii "service" then some .service
  else if str = ascii "streamer" then some .streamer
  else if str = ascii "streamerlink" then some .streamerlink
  else none

def registryTypeToStr : EntryType → CStr
  | .datalink => ascii "datalink"
  | .datahub => ascii "datahub"
  | .messagelink => ascii "messagelink"
  | .messagehub => ascii "messagehub"
  | .service => ascii "service"
  | .streamer => ascii "streamer"
  | .streamerlink => ascii "streamerlink"

theorem registryStrToType_typeToStr (type : EntryType) :
    registryStrToType (registryTypeToStr type) = some type := by
  cases type <;> decide

/-- Only the address can be NULL here: the type is one of the seven and the strings
are there. -/
def newRegistryEntry (id name topic : CStr) (type : EntryType) (addr : Option Addr)
    (endpoint : Option Endpoint) : Option Entry :=
  match addr with
  | none => none
  | some addr => some ⟨id, name, topic, type, some addr, endpoint⟩

/-! ## Validity -/

def hexDigits : CStr := ascii "0123456789abcdef"

def lowerCase : CStr := ascii "abcdefghijklmnopqrstuvwxyz"

/-- Steps over `n` characters of a set, as the loops of `registry_valid_id` do. -/
def skipChars (set : CStr) : ℕ → CStr → Option CStr
  | 0, p => some p
  | n + 1, c :: p => if c ∈ set then skipChars set n p else none
  | _ + 1, [] => none

/-- `n` hexadecimal digits and a hyphen. -/
def skipGroup (n : ℕ) (p : CStr) : Option CStr :=
  match skipChars hexDigits n p with
  | some (45 :: p) => some p
  | _ => none

def registryValidId (id : CStr) : Bool :=
  id.length = 36 &&
    (skipGroup 8 id >>= skipGroup 4 >>= skipGroup 4 >>= skipGroup 4 >>= skipChars hexDigits 12).isSome

def validWord (min : ℕ) (set : CStr) : CStr → Bool
  | [] => false
  | c :: s => min ≤ (c :: s).length && (c :: s).length ≤ 256 && c ∈ lowerCase && s.all (· ∈ set)

def registryValidTopic : CStr → Bool := validWord 2 (ascii "abcdefghijklmnopqrstuvwxyz.-_")

def registryValidName : CStr → Bool :=
  validWord 4 (ascii "abcdefghijklmnopqrstuvwxyz0123456789-_")

theorem mem_of_skipChars {set : CStr} {n : ℕ} {p q : CStr} (h : skipChars set n p = some q)
    {c : UInt8} (hc : c ∈ p) : c ∈ set ∨ c ∈ q := by
  induction n generalizing p with
  | zero => exact .inr ((by simpa [skipChars] using h : p = q) ▸ hc)
  | succ n ih =>
    cases p with
    | nil => simp at hc
    | cons d p =>
      simp only [skipChars] at h
      split_ifs at h with hd
      rcases List.mem_cons.1 hc with rfl | hc
      · exact .inl hd
      · exact ih h hc

theorem mem_of_skipGroup {n : ℕ} {p q : CStr} (h : skipGroup n p = some q) {c : UInt8}
    (hc : c ∈ p) : c ∈ 45 :: hexDigits ∨ c ∈ q := by
  unfold skipGroup at h
  split at h
  · next p' hp =>
    obtain rfl : p' = q := by simpa using h
    rcases mem_of_skipChars hp hc with hc | hc
    · exact .inl (List.mem_cons_of_mem _ hc)
    · rcases List.mem_cons.1 hc with rfl | hc
      · exact .inl List.mem_cons_self
      · exact .inr hc
  · simp at h

theorem length_skipChars {set : CStr} {n : ℕ} {p q : CStr} (h : skipChars set n p = some q) :
    p.length = n + q.length := by
  induction n generalizing p with
  | zero => simp [(by simpa [skipChars] using h : p = q)]
  | succ n ih =>
    cases p with
    | nil => simp [skipChars] at h
    | cons d p =>
      simp only [skipChars] at h
      split_ifs at h with hd
      have := ih h
      simp
      omega

theorem length_skipGroup {n : ℕ} {p q : CStr} (h : skipGroup n p = some q) :
    p.length = n + 1 + q.length := by
  unfold skipGroup at h
  split at h
  · next p' hp =>
    obtain rfl : p' = q := by simpa using h
    have := length_skipChars hp
    simp only [List.length_cons] at this
    omega
  · simp at h

theorem mem_of_validId {id : CStr} (h : registryValidId id = true) {c : UInt8} (hc : c ∈ id) :
    c ∈ 45 :: hexDigits := by
  simp only [registryValidId, Bool.and_eq_true, decide_eq_true_eq, Option.isSome_iff_exists,
    Option.bind_eq_bind, Option.bind_eq_some_iff] at h
  obtain ⟨hlen, p₅, p₄, ⟨p₃, ⟨p₂, ⟨p₁, h₁, h₂⟩, h₃⟩, h₄⟩, h₅⟩ := h
  have hp₅ : p₅ = [] := by
    have := length_skipGroup h₁
    have := length_skipGroup h₂
    have := length_skipGroup h₃
    have := length_skipGroup h₄
    have := length_skipChars h₅
    exact List.eq_nil_of_length_eq_zero (by omega)
  rcases mem_of_skipGroup h₁ hc with h | hc
  · exact h
  rcases mem_of_skipGroup h₂ hc with h | hc
  · exact h
  rcases mem_of_skipGroup h₃ hc with h | hc
  · exact h
  rcases mem_of_skipGroup h₄ hc with h | hc
  · exact h
  rcases mem_of_skipChars h₅ hc with h | hc
  · exact List.mem_cons_of_mem _ h
  · simp [hp₅] at hc

theorem mem_of_validWord {min : ℕ} {set s : CStr} (h : validWord min set s = true) {c : UInt8}
    (hc : c ∈ s) : c ∈ lowerCase ++ set := by
  cases s with
  | nil => simp at hc
  | cons d s =>
    simp only [validWord, Bool.and_eq_true, decide_eq_true_eq, List.all_eq_true] at h
    rw [List.mem_append]
    rcases List.mem_cons.1 hc with rfl | hc
    · exact .inl h.1.2
    · exact .inr (h.2 c hc)

theorem plain_of_forall_mem {set s : CStr} (hset : Plain set) (h : ∀ c ∈ s, c ∈ set) : Plain s :=
  fun c hc => hset c (h c hc)

theorem plain_of_validId {id : CStr} (h : registryValidId id = true) : Plain id :=
  @plain_of_forall_mem (45 :: hexDigits) _ (by decide) fun _ => mem_of_validId h

theorem plain_of_validTopic {topic : CStr} (h : registryValidTopic topic = true) : Plain topic :=
  plain_of_forall_mem (by decide) fun _ => mem_of_validWord h

theorem plain_of_validName {name : CStr} (h : registryValidName name = true) : Plain name :=
  plain_of_forall_mem (by decide) fun _ => mem_of_validWord h

end RegistryEntry

structure Entry.Valid (e : Entry) : Prop where
  id : RegistryEntry.registryValidId e.id = true
  name : RegistryEntry.registryValidName e.name = true
  topic : RegistryEntry.registryValidTopic e.topic = true

/-- What `registry_entry_parse` demands of an entry. The type needs no check here. -/
structure Entry.WellFormed (e : Entry) : Prop extends e.Valid where
  addr : e.addr ≠ none

def Entry.remote (e : Entry) : Entry := { e with endpoint := none }

namespace RegistryEntry
open Rcom.Addr

/-! ## Parsing and encoding -/

section Parse
variable {J : Type} (L : JsonLib J)

/-- The error codes are those of registry_priv.h: -1 name, -2 topic, -3 type, -4 address,
-5 id, -6 out of memory. -/
def registryEntryParse (obj : J) : Exec (Except ℤ Entry) :=
  let id := L.jsonObjectGetstr obj (ascii "id")
  let name := L.jsonObjectGetstr obj (ascii "name")
  let topic := L.jsonObjectGetstr obj (ascii "topic")
  let typeStr := L.jsonObjectGetstr obj (ascii "type")
  let addrStr := L.jsonObjectGetstr obj (ascii "addr")
  match id.filter registryValidId with
  | none => some (.error (-5))
  | some id =>
  match name.filter registryValidName with
  | none => some (.error (-1))
  | some name =>
  match topic.filter registryValidTopic with
  | none => some (.error (-2))
  | some topic =>
  match typeStr.bind registryStrToType with
  | none => some (.error (-3))
  | some type =>
  match addrStr with
  | none => some (.error (-4))
  | some addrStr =>
  match addrParse addrStr with
  | none => none
  | some none => some (.error (-4))
  | some (some addr) =>
  match newRegistryEntry id name topic type (some addr) none with
  | none => some (.error (-6))
  | some entry => some (.ok entry)

def registryEntryEncode (e : Entry) : J :=
  let obj := L.jsonObjectCreate
  let obj := L.jsonObjectSetstr obj (ascii "id") e.id
  let obj := L.jsonObjectSetstr obj (ascii "name") e.name
  let obj := L.jsonObjectSetstr obj (ascii "topic") e.topic
  let obj := L.jsonObjectSetstr obj (ascii "type") (registryTypeToStr e.type)
  L.jsonObjectSetstr obj (ascii "addr") (addrString e.addr)

/-- The loop of `registry_entry_parse_list`, with the number of objects still to come and
the index; one bad object gives up the whole list. -/
def parseListLoop (a : J) : ℕ → ℕ → List Entry → Exec (List Entry)
  | 0, _, list => some list
  | n + 1, i, list =>
    match registryEntryParse L (L.jsonArrayGet a i) with
    | none => none
    | some (.ok entry) => parseListLoop a n (i + 1) (entry :: list)
    | some (.error _) => some []

/-- NULL is the empty list. -/
def registryEntryParseList (a : J) : Exec (List Entry) :=
  if L.jsonIsarray a then parseListLoop L a (L.jsonArrayLength a) 0 [] else some []

/-- The entries are pointers; encoding a NULL one is undefined behaviour. -/
def encodeListLoop : List (Option Entry) → J → Exec J
  | [], a => some a
  | none :: _, _ => none
  | some e :: l, a => encodeListLoop l (L.jsonArrayPush a (registryEntryEncode L e))

def registryEntryEncodeList (list : List (Option Entry)) : Exec J :=
  encodeListLoop L list L.jsonArrayCreate

def entryValue (id name topic type addr : CStr) : Value :=
  .obj [(ascii "id", .str id), (ascii "name", .str name), (ascii "topic", .str topic),
    (ascii "type", .str type), (ascii "addr", .str addr)]

def Entry.value (e : Entry) : Value :=
  entryValue e.id e.name e.topic (registryTypeToStr e.type) (addrString e.addr)

variable {L}

theorem registryEntryParse_ok {obj : J} {e : Entry}
    (h : registryEntryParse L obj = some (.ok e)) :
    e.WellFormed ∧ e.endpoint = none ∧ L.jsonObjectGetstr obj (ascii "id") = some e.id ∧
      L.jsonObjectGetstr obj (ascii "name") = some e.name ∧
      L.jsonObjectGetstr obj (ascii "topic") = some e.topic ∧
      (∃ t, L.jsonObjectGetstr obj (ascii "type") = some t ∧ registryStrToType t = some e.type) ∧
      ∃ s, L.jsonObjectGetstr obj (ascii "addr") = some s ∧ addrParse s = some e.addr := by
  unfold registryEntryParse at h
  dsimp only at h
  split at h
  · simp at h
  next id hid =>
  split at h
  · simp at h
  next name hname =>
  split at h
  · simp at h
  next topic htopic =>
  split at h
  · simp at h
  next type htype =>
  split at h
  · simp at h
  next s haddr =>
  split at h
  · simp at h
  · simp at h
  next a hparse =>
  obtain rfl : (⟨id, name, topic, type, some a, none⟩ : Entry) = e := by
    simpa [newRegistryEntry] using h
  rw [Option.filter_eq_some_iff] at hid hname htopic
  exact ⟨⟨⟨hid.2, hname.2, htopic.2⟩, by simp⟩, rfl, hid.1, hname.1, htopic.1,
    Option.bind_eq_some_iff.1 htype, s, haddr, hparse⟩

variable (L) in
/-- The object passes every check that comes before the one of its address. -/
structure FieldsValid (obj : J) : Prop where
  id : ∃ id, L.jsonObjectGetstr obj (ascii "id") = some id ∧ registryValidId id = true
  name : ∃ name, L.jsonObjectGetstr obj (ascii "name") = some name ∧ registryValidName name = true
  topic : ∃ topic, L.jsonObjectGetstr obj (ascii "topic") = some topic ∧
    registryValidTopic topic = true
  type : ∃ str type, L.jsonObjectGetstr obj (ascii "type") = some str ∧
    registryStrToType str = some type

variable (L) in
def OverlongEntry (obj : J) : Prop :=
  FieldsValid L obj ∧ ∃ s, L.jsonObjectGetstr obj (ascii "addr") = some s ∧ Overlong s

theorem registryEntryParse_eq_none_iff {obj : J} :
    registryEntryParse L obj = none ↔ OverlongEntry L obj := by
  constructor
  · intro h
    unfold registryEntryParse at h
    dsimp only at h
    split at h
    · simp at h
    next id hid =>
    split at h
    · simp at h
    next name hname =>
    split at h
    · simp at h
    next topic htopic =>
    split at h
    · simp at h
    next type htype =>
    split at h
    · simp at h
    next s haddr =>
    split at h
    · next hparse =>
      rw [Option.filter_eq_some_iff] at hid hname htopic
      obtain ⟨str, hstr, htype⟩ := Option.bind_eq_some_iff.1 htype
      exact ⟨⟨⟨id, hid⟩, ⟨name, hname⟩, ⟨topic, htopic⟩, str, type, hstr, htype⟩, s, haddr,
        addrParse_eq_none_iff.1 hparse⟩
    · simp at h
    · simp [newRegistryEntry] at h
  · rintro ⟨⟨⟨id, hid, vid⟩, ⟨name, hname, vname⟩, ⟨topic, htopic, vtopic⟩, str, type, htype, vtype⟩,
      s, haddr, hs⟩
    simp only [registryEntryParse, hid, hname, htopic, htype, haddr, Option.filter_some, vid, vname,
      vtopic, if_true, Option.bind_some, vtype, addrParse_eq_none_iff.2 hs]

theorem registryEntryParse_of_fields {obj : J} {id name topic type addr : CStr}
    {ty : EntryType} {a : Addr}
    (hid : L.jsonObjectGetstr obj (ascii "id") = some id)
    (hname : L.jsonObjectGetstr obj (ascii "name") = some name)
    (htopic : L.jsonObjectGetstr obj (ascii "topic") = some topic)
    (htype : L.jsonObjectGetstr obj (ascii "type") = some type)
    (haddr : L.jsonObjectGetstr obj (ascii "addr") = some addr)
    (vid : registryValidId id = true) (vname : registryValidName name = true)
    (vtopic : registryValidTopic topic = true) (vtype : registryStrToType type = some ty)
    (vaddr : addrParse addr = some (some a)) :
    registryEntryParse L obj = some (.ok ⟨id, name, topic, ty, some a, none⟩) := by
  simp only [registryEntryParse, hid, hname, htopic, htype, haddr, Option.filter_some, vid, vname,
    vtopic, if_true, Option.bind_some, vtype, vaddr, newRegistryEntry]

theorem encodeListLoop_eq_none {list : List (Option Entry)} (h : none ∈ list) (a : J) :
    encodeListLoop L list a = none := by
  induction list generalizing a with
  | nil => simp at h
  | cons e list ih =>
    cases e with
    | none => rfl
    | some e => exact ih (by simpa using h) _

theorem encodeListLoop_isSome (es : List Entry) (a : J) :
    (encodeListLoop L (es.map some) a).isSome := by
  induction es generalizing a with
  | nil => rfl
  | cons e es ih => exact ih _

section Lawful
variable {denote : Value → J} (hL : L.Lawful denote)
include hL

theorem registryEntryEncode_eq (e : Entry) : registryEntryEncode L e = denote (Entry.value e) := by
  simp only [registryEntryEncode, hL.objectCreate]
  rw [hL.objectSetstr _ (show ascii "id" ∉ [] by simp),
    hL.objectSetstr _ (show ascii "name" ∉ [ascii "id"] by decide),
    hL.objectSetstr _ (show ascii "topic" ∉ [ascii "id", ascii "name"] by decide),
    hL.objectSetstr _
      (show ascii "type" ∉ [ascii "id", ascii "name", ascii "topic"] by decide),
    hL.objectSetstr _
      (show ascii "addr" ∉ [ascii "id", ascii "name", ascii "topic", ascii "type"] by
        decide)]
  rfl

/-- An entry survives its encoding, except for the pointer to its local object. -/
theorem registryEntryParse_value {e : Entry} (he : e.WellFormed) :
    registryEntryParse L (denote (Entry.value e)) = some (.ok e.remote) := by
  obtain ⟨a, ha⟩ := Option.ne_none_iff_exists'.1 he.addr
  have hget (k s : CStr) (h : ([(ascii "id", e.id), (ascii "name", e.name),
      (ascii "topic", e.topic), (ascii "type", registryTypeToStr e.type),
      (ascii "addr", addrString e.addr)].map fun p => (p.1, Value.str p.2)).lookup k =
        some (.str s)) : L.jsonObjectGetstr (denote (Entry.value e)) k = some s :=
    hL.objectGetstr (show [ascii "id", ascii "name", ascii "topic", ascii "type",
      ascii "addr"].Nodup by decide) h
  have h := registryEntryParse_of_fields (hget (ascii "id") e.id rfl)
    (hget (ascii "name") e.name rfl) (hget (ascii "topic") e.topic rfl)
    (hget (ascii "type") (registryTypeToStr e.type) rfl)
    (hget (ascii "addr") (addrString (some a)) (by rw [ha]; rfl)) he.id he.name he.topic
    (registryStrToType_typeToStr e.type) (addrParse_addrString a)
  rw [h, Entry.remote, ha]

theorem encodeListLoop_eq (es : List Entry) (vs : List Value) :
    encodeListLoop L (es.map some) (denote (.arr vs)) =
      some (denote (.arr (vs ++ es.map Entry.value))) := by
  induction es generalizing vs with
  | nil => simp [encodeListLoop]
  | cons e es ih =>
    simp [encodeListLoop, registryEntryEncode_eq hL, hL.arrayPush, ih]

theorem registryEntryEncodeList_eq (es : List Entry) :
    registryEntryEncodeList L (es.map some) = some (denote (.arr (es.map Entry.value))) := by
  rw [registryEntryEncodeList, hL.arrayCreate, encodeListLoop_eq hL, List.nil_append]

theorem parseListLoop_eq (es pre : List Entry) (hes : ∀ e ∈ es, e.WellFormed)
    (list : List Entry) :
    parseListLoop L (denote (.arr ((pre ++ es).map Entry.value))) es.length pre.length list =
      some ((es.map Entry.remote).reverse ++ list) := by
  induction es generalizing pre list with
  | nil => simp [parseListLoop]
  | cons e es ih =>
    have hget : ((pre ++ e :: es).map Entry.value)[pre.length]? = some (Entry.value e) := by simp
    rw [List.length_cons, parseListLoop, hL.arrayGet hget,
      registryEntryParse_value hL (hes e (by simp))]
    have h := ih (pre ++ [e]) (fun f hf => hes f (by simp [hf])) (e.remote :: list)
    simpa using h

/-- The receiver of a list gets the entries in the opposite order. -/
theorem registryEntryParseList_eq {es : List Entry} (hes : ∀ e ∈ es, e.WellFormed) :
    registryEntryParseList L (denote (.arr (es.map Entry.value))) =
      some (es.map Entry.remote).reverse := by
  have h := parseListLoop_eq hL es [] hes []
  rw [registryEntryParseList, hL.isarray, if_pos rfl, hL.arrayLength, List.length_map]
  simpa using h

end Lawful
end Parse

end RegistryEntry
end Rcom
