import Rcom.Lib.ByteOrder
import Rcom.Lib.Keystream

/-!
# Web socket frames on the wire

A frame as its fields, its bytes, and which sequences of frames one endpoint may send.
A message that is split comes as a frame without FIN and continuation frames; control
frames may stand between them.
-/

namespace Rcom.Lib.Rfc6455
open Keystream ByteOrder

-- for the numerals of positions in a key and of opcodes
instance neZero_four : NeZero 4 := ⟨Nat.succ_ne_zero 3⟩

instance neZero_sixteen : NeZero 16 := ⟨Nat.succ_ne_zero 15⟩

abbrev Key := Fin 4 → UInt8

/-- The payload is what it means; on the wire it is masked if there is a key. -/
structure Frame where
  fin : Bool
  opcode : Fin 16
  key : Option Key
  payload : Bytes
  length_lt : payload.length < 2 ^ 63

def masked (key : Key) (payload : Bytes) : Bytes :=
  crypt (· + 1) (fun i b => b ^^^ key i) 0 payload

namespace Frame
variable (f : Frame)

def sizeCode : ℕ :=
  if f.payload.length < 126 then f.payload.length
  else if f.payload.length < 65536 then 126 else 127

/-- The length where the seven bits do not hold it, most significant byte first. -/
def sizeBytes : Bytes :=
  if f.payload.length < 126 then []
  else if f.payload.length < 65536 then (toLe 2 f.payload.length).reverse
  else (toLe 8 f.payload.length).reverse

def keyBytes : Bytes :=
  match f.key with
  | none => []
  | some key => [key 0, key 1, key 2, key 3]

def header : Bytes :=
  UInt8.ofNat ((if f.fin then 0x80 else 0) ||| f.opcode) ::
    UInt8.ofNat ((if f.key.isSome then 0x80 else 0) ||| f.sizeCode) :: (f.sizeBytes ++ f.keyBytes)

def body : Bytes :=
  match f.key with
  | none => f.payload
  | some key => masked key f.payload

def bytes : Bytes := f.header ++ f.body

theorem bytes_append (rest : Bytes) :
    f.bytes ++ rest = UInt8.ofNat ((if f.fin then 0x80 else 0) ||| f.opcode) ::
      UInt8.ofNat ((if f.key.isSome then 0x80 else 0) ||| f.sizeCode) ::
        (f.sizeBytes ++ (f.keyBytes ++ (f.body ++ rest))) := by
  simp only [bytes, header, List.append_assoc, List.cons_append]

@[simp] theorem length_body : f.body.length = f.payload.length := by
  rw [body]
  split
  · rfl
  · exact length_crypt ..

theorem sizeCode_lt : f.sizeCode < 128 := by
  rw [sizeCode]
  split_ifs <;> omega

def Control : Prop := 8 ≤ f.opcode.val

instance : Decidable f.Control := inferInstanceAs (Decidable (8 ≤ f.opcode.val))

end Frame

/-- The code in the payload of a close frame. -/
def statusCode : Bytes → Option ℕ
  | a :: b :: _ => some (256 * a.toNat + b.toNat)
  | _ => none

def stream (fs : List Frame) : Bytes := fs.flatMap Frame.bytes

@[simp] theorem stream_nil : stream [] = [] := rfl

@[simp] theorem stream_cons (f : Frame) (fs : List Frame) :
    stream (f :: fs) = f.bytes ++ stream fs := List.flatMap_cons

/-! ## Messages -/

/-- A message has the opcode of its first frame. -/
structure DataMessage where
  opcode : Fin 16
  payload : Bytes

def extend (cur : Option DataMessage) (f : Frame) : DataMessage :=
  match cur with
  | none => ⟨f.opcode, f.payload⟩
  | some m => ⟨m.opcode, m.payload ++ f.payload⟩

/-- The messages that come to their end. -/
def messages : Option DataMessage → List Frame → List DataMessage
  | _, [] => []
  | cur, f :: fs =>
    if f.Control then messages cur fs
    else if f.fin then extend cur f :: messages none fs
    else messages (some (extend cur f)) fs

/-- The frames that one side may send; `inside` says that a message is in progress. -/
def Conforms (masks : Bool) : Bool → List Frame → Prop
  | _, [] => True
  | inside, f :: fs =>
    f.key.isSome = masks ∧
      if f.Control then f.fin = true ∧ f.payload.length ≤ 125 ∧ Conforms masks inside fs
      else (f.opcode = 0 ↔ inside = true) ∧ Conforms masks (!f.fin) fs

theorem Conforms.key {masks inside : Bool} {fs : List Frame} (h : Conforms masks inside fs) :
    ∀ f ∈ fs, f.key.isSome = masks := by
  induction fs generalizing inside with
  | nil => simp
  | cons f fs ih =>
    obtain ⟨hkey, h⟩ := h
    simp only [List.mem_cons, forall_eq_or_imp]
    refine ⟨hkey, ?_⟩
    split_ifs at h
    · exact ih h.2.2
    · exact ih h.2

/-- A control frame, or one without FIN, brings no message to its end. -/
theorem messages_snoc {f : Frame} (hf : f.Control ∨ f.fin = false) (cur : Option DataMessage)
    (pre : List Frame) : messages cur (pre ++ [f]) = messages cur pre := by
  induction pre generalizing cur with
  | nil =>
    rcases hf with hcontrol | hfin
    · simp only [List.nil_append, messages, if_pos hcontrol]
    · simp only [List.nil_append, messages, hfin, Bool.false_eq_true, if_false, ite_self]
  | cons g pre ih =>
    rw [List.cons_append, messages, messages]
    split_ifs
    · exact ih cur
    · rw [ih]
    · exact ih _

/-- A frame that is not a continuation and ends its message is a message by itself. -/
theorem Conforms.whole {masks : Bool} {cur : Option DataMessage} {pre rest : List Frame} {f : Frame}
    (h : Conforms masks cur.isSome (pre ++ f :: rest)) (hcontrol : ¬ f.Control)
    (hstart : f.opcode ≠ 0) (hfin : f.fin = true) :
    messages cur (pre ++ [f]) = messages cur pre ++ [⟨f.opcode, f.payload⟩] := by
  induction pre generalizing cur with
  | nil =>
    obtain ⟨-, h⟩ := h
    rw [if_neg hcontrol] at h
    obtain rfl : cur = none := by
      rw [← Option.not_isSome_iff_eq_none]
      exact mt h.1.2 hstart
    simp only [List.nil_append, messages, if_neg hcontrol, if_pos hfin, extend]
  | cons g pre ih =>
    rw [List.cons_append, messages, messages]
    obtain ⟨-, h⟩ := h
    by_cases hg : g.Control
    · rw [if_pos hg] at h
      rw [if_pos hg, if_pos hg]
      exact ih h.2.2
    · rw [if_neg hg] at h
      rw [if_neg hg, if_neg hg]
      cases hgfin : g.fin with
      | true =>
        rw [hgfin] at h
        rw [if_pos rfl, if_pos rfl, List.cons_append]
        congr 1
        exact @ih none h.2
      | false =>
        rw [hgfin] at h
        rw [if_neg (by simp), if_neg (by simp)]
        exact @ih (some (extend cur g)) h.2

theorem Frame.bytes_ne_nil (f : Frame) : f.bytes ≠ [] := List.cons_ne_nil _ _

theorem stream_append (fs later : List Frame) : stream (fs ++ later) = stream fs ++ stream later :=
  List.flatMap_append

theorem eq_of_suffix {fs rest rest' : List Frame} (h : rest <:+ fs) (h' : rest' <:+ fs)
    (hstream : stream rest = stream rest') : rest = rest' := by
  have hshort : ∀ {a b : List Frame}, a <:+ b → stream a = stream b → a = b := by
    rintro a b ⟨pre, rfl⟩ hsame
    rw [stream_append, List.self_eq_append_left] at hsame
    cases pre with
    | nil => rfl
    | cons g pre =>
      rw [stream_cons, List.append_eq_nil_iff] at hsame
      exact absurd hsame.1 g.bytes_ne_nil
  rcases List.suffix_or_suffix_of_suffix h h' with hle | hle
  · exact hshort hle hstream
  · exact (hshort hle hstream.symm).symm

end Rcom.Lib.Rfc6455
