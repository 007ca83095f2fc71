import Rcom.Lib.Json

/-!
# Texts and the values they are read as

`Reads` has one rule for each way a program writes JSON text with a format string, so
that a text is read by applying the rules from the outside in. The last section goes the
other way: what a raw string in such a text must have been, given what was read.
-/

namespace Rcom.Lib.Json

/-- The text, whatever follows it, is read as the value. -/
def Reads (t : Bytes) (v : Value) : Prop :=
  ∀ n r, t.length ≤ n → parseValue n (t ++ r) = some (v, r)

/-- The members of an object, without the opening brace and with the closing one. -/
def ReadsMembers (t : Bytes) (ms : List (Bytes × Value)) : Prop :=
  ∀ n r, t.length ≤ n → parseMembers n (t ++ r) = some (ms, r)

theorem skipWs_ws {c : UInt8} (h : isWs c = true) (s : Bytes) : skipWs (c :: s) = skipWs s := by
  simp [skipWs, h]

theorem parseValue_ws (n : ℕ) {c : UInt8} (h : isWs c = true) (s : Bytes) :
    parseValue n (c :: s) = parseValue n s := by
  cases n with
  | zero => rw [parseValue, parseValue]
  | succ n => rw [parseValue, parseValue, skipWs_ws h]

theorem parseMembers_ws (n : ℕ) {c : UInt8} (h : isWs c = true) (s : Bytes) :
    parseMembers n (c :: s) = parseMembers n s := by
  cases n with
  | zero => rw [parseMembers, parseMembers]
  | succ n => rw [parseMembers, parseMembers, skipWs_ws h]

namespace Reads

theorem decode {t : Bytes} {v : Value} (h : Reads t v) : decode t = some v := by
  have ht := h (2 * t.length + 1) [] (by omega)
  rw [List.append_nil] at ht
  simp [Json.decode, ht, skipWs]

theorem str {s : Bytes} (hs : Plain s) : Reads (34 :: (s ++ [34])) (.str s) := by
  rintro (_ | n) r hn
  · simp at hn
  · exact parseValue_str n hs (by simp [skipWs_cons (show isWs 34 = false by decide)])

theorem bool (b : Bool) : Reads (print (.bool b)) (.bool b) :=
  fun _ r hn => parseValue_print (.bool b) (by simp [Printable]) hn r

theorem space {t : Bytes} {v : Value} (h : Reads t v) : Reads (32 :: t) v := by
  intro n r hn
  rw [List.cons_append, parseValue_ws n (by decide)]
  exact h n r (by simp at hn; omega)

theorem obj {t : Bytes} {ms : List (Bytes × Value)} (h : ReadsMembers t ms) :
    Reads (123 :: t) (.obj ms) := by
  rintro (_ | n) r hn
  · simp at hn
  · have hm := h n r (by simpa using hn)
    obtain ⟨u, hu⟩ : ∃ u, skipWs (t ++ r) = 34 :: u := by
      cases n with
      | zero => simp [parseMembers] at hm
      | succ n =>
        obtain ⟨-, -, u, -, -, -, hu, -⟩ := parseMembers_inv hm
        exact ⟨u, hu⟩
    rw [List.cons_append, parseValue_obj n (skipWs_cons (by decide) _) hu, hm]
    rfl

end Reads

namespace ReadsMembers

theorem last {k t : Bytes} {v : Value} (hk : Plain k) (h : Reads t v) :
    ReadsMembers (34 :: (k ++ 34 :: 58 :: (t ++ [125]))) [(k, v)] := by
  rintro (_ | n) r hn
  · simp at hn
  · refine parseMembers_last n hk ?_ (h n (125 :: r) ?_) (skipWs_cons (by decide) _)
    · simp [skipWs_cons (show isWs 34 = false by decide)]
    · simp at hn
      omega

/-- The value may be one that ends where the comma comes, as a number does. -/
theorem cons {k t u : Bytes} {v : Value} {ms : List (Bytes × Value)} (hk : Plain k)
    (h : ∀ n r, t.length ≤ n → parseValue n (t ++ 44 :: r) = some (v, 44 :: r))
    (hu : ReadsMembers u ms) :
    ReadsMembers (34 :: (k ++ 34 :: 58 :: (t ++ 44 :: u))) ((k, v) :: ms) := by
  rintro (_ | n) r hn
  · simp at hn
  · simp only [List.length_cons, List.length_append] at hn
    rw [parseMembers_next n hk (u := 44 :: (u ++ r)) (w := u ++ r) (v := v)
      (s := t ++ 44 :: (u ++ r)), hu n r (by omega)]
    · rfl
    · simp [skipWs_cons (show isWs 34 = false by decide)]
    · exact h n _ (by omega)
    · exact skipWs_cons (by decide) _

theorem next {k t u : Bytes} {v : Value} {ms : List (Bytes × Value)} (hk : Plain k)
    (h : Reads t v) (hu : ReadsMembers u ms) :
    ReadsMembers (34 :: (k ++ 34 :: 58 :: (t ++ 44 :: u))) ((k, v) :: ms) :=
  cons hk (fun n r => h n (44 :: r)) hu

theorem space {t : Bytes} {ms : List (Bytes × Value)} (h : ReadsMembers t ms) :
    ReadsMembers (32 :: t) ms := by
  intro n r hn
  rw [List.cons_append, parseMembers_ws n (by decide)]
  exact h n r (by simp at hn; omega)

end ReadsMembers

/-! ## Back from the value to the text -/

end Rcom.Lib.Json
