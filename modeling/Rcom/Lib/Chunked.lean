import Rcom.Lib.Bytes
import Rcom.Lib.Decimal

/-!
# The chunked coding of a message

A chunk is its size in hexadecimal digits, a line end, that many bytes and a line end; a chunk of
size zero ends the message. What a message stands for is read from its front: after a chunk the
rest has to be a message again.
-/

namespace Rcom.Lib.Chunked
open Decimal

def hexChar (d : ℕ) : UInt8 := if d < 10 then UInt8.ofNat (48 + d) else UInt8.ofNat (87 + d)

/-- What `%x` writes. -/
def hexadecimal (n : ℕ) : Bytes :=
  if n = 0 then [48] else (Nat.digits 16 n).reverse.map hexChar

def crlf : Bytes := [13, 10]

def chunk (data : Bytes) : Bytes := hexadecimal data.length ++ crlf ++ data ++ crlf

/-- A line of hexadecimal digits with the value `n`. -/
def SizeLine (size : Bytes) (n : ℕ) : Prop := size ≠ [] ∧ readDigits 16 0 size = (n, [])

/-- The message is this content in chunks, with a last chunk and nothing after it. -/
inductive Message : Bytes → Bytes → Prop where
  | last {size : Bytes} : SizeLine size 0 → Message (size ++ crlf ++ crlf) []
  | chunk {size data rest content : Bytes} : SizeLine size data.length → data ≠ [] →
      Message rest content → Message (size ++ crlf ++ data ++ crlf ++ rest) (data ++ content)

theorem digitOf_hexChar {d : ℕ} (h : d < 16) : digitOf 16 (hexChar d) = some d := by
  interval_cases d <;> decide

theorem stops_crlf (rest : Bytes) : Stops 16 (crlf ++ rest) := by
  intro c hc
  obtain rfl : 13 = c := Option.some_inj.1 hc
  decide

theorem stops_nil (base : ℕ) : Stops base [] := fun _ hc => absurd hc (by simp)

theorem readDigits_hexadecimal (n : ℕ) {rest : Bytes} (hrest : Stops 16 rest) :
    readDigits 16 0 (hexadecimal n ++ rest) = (n, rest) := by
  by_cases hn : n = 0
  · subst hn
    exact @readDigits_digits 16 hexChar (fun _ => digitOf_hexChar) [0] (by simp) rest hrest 0
  · have hlt : ∀ d ∈ (Nat.digits 16 n).reverse, d < 16 := by
      intro d hd
      exact Nat.digits_lt_base (by omega) (List.mem_reverse.1 hd)
    rw [hexadecimal, if_neg hn, readDigits_digits (fun _ => digitOf_hexChar) hlt hrest,
      List.reverse_reverse, Nat.ofDigits_digits, Nat.zero_mul, Nat.zero_add]

theorem hexadecimal_ne_nil (n : ℕ) : hexadecimal n ≠ [] := by
  unfold hexadecimal
  split
  · exact List.cons_ne_nil _ _
  · next hn =>
    have hdigits : Nat.digits 16 n ≠ [] := Nat.digits_ne_nil_iff_ne_zero.2 hn
    simpa using hdigits

theorem sizeLine_hexadecimal (n : ℕ) : SizeLine (hexadecimal n) n := by
  refine ⟨hexadecimal_ne_nil n, ?_⟩
  have hread := readDigits_hexadecimal n (stops_nil 16)
  rwa [List.append_nil] at hread

/-- Reading goes on at the same number after digits that were read to their end. -/
theorem readDigits_append {base acc n : ℕ} {ds rest : Bytes}
    (h : readDigits base acc ds = (n, [])) :
    readDigits base acc (ds ++ rest) = readDigits base n rest := by
  induction ds generalizing acc with
  | nil =>
    cases h
    rfl
  | cons d ds ih =>
    rw [readDigits] at h
    rw [List.cons_append, readDigits]
    cases hd : digitOf base d with
    | none => simp [hd] at h
    | some e =>
      rw [hd] at h
      exact ih h

theorem SizeLine.read {size : Bytes} {n : ℕ} (h : SizeLine size n) (rest : Bytes) :
    readDigits 16 0 (size ++ (crlf ++ rest)) = (n, crlf ++ rest) := by
  rw [readDigits_append h.2]
  exact readDigits_stop (stops_crlf rest) n

theorem not_message_nil (content : Bytes) : ¬Message [] content := by
  intro h
  generalize hnil : ([] : Bytes) = message at h
  cases h with
  | last => simp [crlf] at hnil
  | chunk => simp [crlf] at hnil

theorem message_chunk_iff {data rest content : Bytes} (hdata : data ≠ []) :
    Message (chunk data ++ rest) content ↔ ∃ tail, content = data ++ tail ∧ Message rest tail := by
  have hfront : chunk data ++ rest =
      hexadecimal data.length ++ (crlf ++ (data ++ crlf ++ rest)) := by
    simp [chunk, List.append_assoc]
  constructor
  · intro h
    generalize hmessage : chunk data ++ rest = message at h
    rw [hfront] at hmessage
    have hread := (sizeLine_hexadecimal data.length).read (data ++ crlf ++ rest)
    rw [hmessage] at hread
    cases h with
    | @last size hsize =>
      rw [List.append_assoc, hsize.read] at hread
      have hlen : data.length = 0 := (Prod.mk.inj hread).1.symm
      exact absurd (List.length_eq_zero_iff.1 hlen) hdata
    | @chunk size data' rest' tail hsize hdata' htail =>
      have hassoc : size ++ crlf ++ data' ++ crlf ++ rest' =
          size ++ (crlf ++ (data' ++ crlf ++ rest')) := by simp [List.append_assoc]
      rw [hassoc, hsize.read] at hread
      obtain ⟨hlen, hrest⟩ := Prod.mk.inj hread
      have hbody : data' ++ (crlf ++ rest') = data ++ (crlf ++ rest) := by
        simpa [List.append_assoc] using List.append_cancel_left hrest
      obtain ⟨hsame, hrest'⟩ := List.append_inj hbody hlen
      rw [List.append_cancel_left hrest'] at htail
      exact ⟨tail, by rw [hsame], htail⟩
  · rintro ⟨tail, rfl, htail⟩
    rw [hfront]
    have hmessage := Message.chunk (sizeLine_hexadecimal data.length) hdata htail
    simpa [List.append_assoc] using hmessage

theorem message_chunks_iff {chunks : List Bytes} (hchunks : ∀ data ∈ chunks, data ≠ [])
    {rest : Bytes} : Message ((chunks.map chunk).flatten ++ rest) chunks.flatten ↔ Message rest [] := by
  induction chunks with
  | nil => exact Iff.rfl
  | cons data chunks ih =>
    simp only [List.mem_cons, forall_eq_or_imp] at hchunks
    simp only [List.map_cons, List.flatten_cons, List.append_assoc]
    rw [message_chunk_iff hchunks.1]
    constructor
    · rintro ⟨tail, htail, h⟩
      rw [← List.append_cancel_left htail] at h
      exact (ih hchunks.2).1 h
    · intro h
      exact ⟨_, rfl, (ih hchunks.2).2 h⟩

theorem message_last : Message (chunk []) [] := by
  have hlast := Message.last (sizeLine_hexadecimal 0)
  rwa [chunk, List.append_nil]

theorem message_last_iff {content : Bytes} : Message (chunk []) content ↔ content = [] := by
  constructor
  · intro h
    generalize hmessage : chunk [] = message at h
    have hread := (sizeLine_hexadecimal 0).read crlf
    have hfront : chunk [] = hexadecimal 0 ++ (crlf ++ crlf) := by simp [chunk]
    rw [← hfront, hmessage] at hread
    cases h with
    | last => rfl
    | @chunk size data rest tail hsize hdata htail =>
      have hassoc : size ++ crlf ++ data ++ crlf ++ rest = size ++ (crlf ++ (data ++ crlf ++ rest)) := by
        simp [List.append_assoc]
      rw [hassoc, hsize.read] at hread
      exact absurd (List.length_eq_zero_iff.1 (Prod.mk.inj hread).1) hdata
  · rintro rfl
    exact message_last

theorem message_content {chunks : List Bytes} (hchunks : ∀ data ∈ chunks, data ≠ []) {content : Bytes}
    (h : Message ((chunks.map chunk).flatten ++ chunk []) content) : content = chunks.flatten := by
  induction chunks generalizing content with
  | nil => exact message_last_iff.1 h
  | cons data chunks ih =>
    simp only [List.mem_cons, forall_eq_or_imp] at hchunks
    simp only [List.map_cons, List.flatten_cons, List.append_assoc] at h ⊢
    obtain ⟨tail, rfl, htail⟩ := (message_chunk_iff hchunks.1).1 h
    rw [ih hchunks.2 htail]

end Rcom.Lib.Chunked
