import Rcom.Lib.Json
import Rcom.Libc
import Mathlib.Tactic.Tauto

/-!
# Strings as JSON texts (util.c)

`escape_string` escapes five characters. A sender of a string puts what it returns between two
quotes.
-/

namespace Rcom
open Rcom.Lib Rcom.Lib.Json

/-- The `switch` over one character. -/
def escapeChar (c : UInt8) : Bytes :=
  if c = 9 then ascii "\\t"
  else if c = 10 then ascii "\\n"
  else if c = 13 then ascii "\\r"
  else if c = 34 then ascii "\\\""
  else if c = 92 then ascii "\\\\"
  else [c]

def escapeString : CStr → CStr
  | [] => []
  | c :: s => escapeChar c ++ escapeString s

/-- What `"\"%s\""` makes of the escaped string. -/
def quoted (value : CStr) : CStr := 34 :: (escapeString value ++ [34])

def RawControl (c : UInt8) : Prop := c < 32 ∧ c ≠ 9 ∧ c ≠ 10 ∧ c ≠ 13

instance (c : UInt8) : Decidable (RawControl c) := inferInstanceAs (Decidable (_ ∧ _))

theorem scanString_escape {e b : UInt8} (he : e ≠ 117) (hb : escapeOf e = some b) (x : Bytes) :
    scanString (92 :: e :: x) = (scanString x).map (prepend [b]) := by
  rw [scanString.eq_def]
  simp [he, hb]

theorem scanString_char {c : UInt8} (h34 : c ≠ 34) (h92 : c ≠ 92) (h32 : ¬ c < 32) (x : Bytes) :
    scanString (c :: x) = (scanString x).map (prepend [c]) := by
  rw [scanString.eq_def]
  simp [h34, h92, h32]

theorem scanString_escapeChar (c : UInt8) (x : Bytes) :
    scanString (escapeChar c ++ x) =
      if RawControl c then none else (scanString x).map (prepend [c]) := by
  have hescaped : ∀ e : UInt8, e ≠ 117 → escapeOf e = some c → ¬ RawControl c →
      escapeChar c = [92, e] → scanString (escapeChar c ++ x) =
        if RawControl c then none else (scanString x).map (prepend [c]) := by
    intro e he hc hraw heq
    rw [heq, if_neg hraw]
    exact scanString_escape he hc x
  by_cases h9 : c = 9
  · subst h9
    exact hescaped 116 (by decide) (by decide) (by decide) rfl
  by_cases h10 : c = 10
  · subst h10
    exact hescaped 110 (by decide) (by decide) (by decide) rfl
  by_cases h13 : c = 13
  · subst h13
    exact hescaped 114 (by decide) (by decide) (by decide) rfl
  by_cases h34 : c = 34
  · subst h34
    exact hescaped 34 (by decide) (by decide) (by decide) rfl
  by_cases h92 : c = 92
  · subst h92
    exact hescaped 92 (by decide) (by decide) (by decide) rfl
  -- any other character stands for itself
  have hself : escapeChar c = [c] := by simp [escapeChar, h9, h10, h13, h34, h92]
  rw [hself, List.singleton_append]
  by_cases h32 : c < 32
  · rw [if_pos ⟨h32, h9, h10, h13⟩, scanString.eq_def]
    simp [h34, h92, h32]
  · rw [if_neg fun h => h32 h.1]
    exact scanString_char h34 h92 h32 x

/-- The whole string is read back up to the closing quote, unless a control character is raw. -/
theorem scanString_escapeString (s : CStr) (r : Bytes) :
    scanString (escapeString s ++ 34 :: r) =
      if ∃ c ∈ s, RawControl c then none else some (s, r) := by
  induction s with
  | nil =>
    rw [escapeString, List.nil_append, scanString.eq_def]
    simp
  | cons c s ih =>
    rw [escapeString, List.append_assoc, scanString_escapeChar, ih]
    by_cases hc : RawControl c
    · rw [if_pos hc, if_pos ⟨c, by simp, hc⟩]
    · rw [if_neg hc]
      by_cases hs : ∃ d ∈ s, RawControl d
      · obtain ⟨d, hd, hraw⟩ := hs
        rw [if_pos ⟨d, hd, hraw⟩, if_pos ⟨d, List.mem_cons_of_mem c hd, hraw⟩]
        rfl
      · rw [if_neg hs, if_neg (by simpa [hc] using hs)]
        rfl

theorem decode_quoted (s : CStr) :
    decode (quoted s) = if ∃ c ∈ s, RawControl c then none else some (.str s) := by
  have hparse : parseValue (2 * (quoted s).length + 1) (quoted s) =
      (scanString (escapeString s ++ [34])).map fun p => (.str p.1, p.2) := by
    rw [parseValue, quoted, skipWs_cons (by decide)]
    rfl
  rw [decode, hparse, scanString_escapeString]
  by_cases hs : ∃ c ∈ s, RawControl c
  · rw [if_pos hs, if_pos hs]
    rfl
  · rw [if_neg hs, if_neg hs]
    rfl

/-- The text is a JSON string that stands for `s` exactly if `s` has no control characters but the
three that are escaped. -/
theorem quoted_is_string_iff (s : CStr) :
    decode (quoted s) = some (.str s) ↔ ∀ c ∈ s, c < 32 → c = 9 ∨ c = 10 ∨ c = 13 := by
  have hraw : (∀ c ∈ s, c < 32 → c = 9 ∨ c = 10 ∨ c = 13) ↔ ¬ ∃ c ∈ s, RawControl c := by
    simp only [RawControl, not_exists, not_and]
    refine forall_congr' fun c => forall_congr' fun _ => forall_congr' fun _ => ?_
    tauto
  rw [hraw, decode_quoted]
  by_cases hs : ∃ c ∈ s, RawControl c
  · simp [hs]
  · simp [hs]

/-- An escape character, as a terminal sends it. -/
theorem raw_control_is_refused : decode (quoted [27]) ≠ some (.str [27]) := by
  rw [decode_quoted, if_pos ⟨27, by simp, by decide⟩]
  exact (Option.some_ne_none _).symm

end Rcom
