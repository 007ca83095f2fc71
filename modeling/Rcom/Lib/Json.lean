import Rcom.Lib.Bytes
import Rcom.Lib.Decimal

/-!
# JSON texts

A decoder of RFC 8259 texts over bytes, used as the meaning of a text that some
program prints. Strings are decoded (escapes, surrogate pairs to UTF-8), numbers keep
their text, members keep their order. Bytes from 128 on stand for themselves.

A string is *plain* when it may stand between two quotes as it is. Plain strings
decode to themselves, and the length lemmas say that no other string does.
-/

namespace Rcom.Lib.Json
open Rcom.Lib.Decimal

inductive Value where
  | null
  | bool (b : Bool)
  | num (text : Bytes)
  | str (s : Bytes)
  | arr (xs : List Value)
  | obj (ms : List (Bytes × Value))

def isWs (c : UInt8) : Bool := c = 32 || c = 9 || c = 10 || c = 13

def skipWs (s : Bytes) : Bytes := s.dropWhile isWs

def utf8 (n : ℕ) : Bytes :=
  if n < 0x80 then [.ofNat n]
  else if n < 0x800 then [.ofNat (0xC0 + n / 64), .ofNat (0x80 + n % 64)]
  else if n < 0x10000 then
    [.ofNat (0xE0 + n / 4096), .ofNat (0x80 + n / 64 % 64), .ofNat (0x80 + n % 64)]
  else
    [.ofNat (0xF0 + n / 262144), .ofNat (0x80 + n / 4096 % 64), .ofNat (0x80 + n / 64 % 64),
      .ofNat (0x80 + n % 64)]

def hex4 (a b c d : UInt8) : Option ℕ := do
  let a ← digitOf 16 a
  let b ← digitOf 16 b
  let c ← digitOf 16 c
  let d ← digitOf 16 d
  return ((a * 16 + b) * 16 + c) * 16 + d

/-- The byte behind a two-character escape, `\n` and its like. -/
def escapeOf (c : UInt8) : Option UInt8 :=
  if c = 34 ∨ c = 92 ∨ c = 47 then some c
  else if c = 98 then some 8
  else if c = 102 then some 12
  else if c = 110 then some 10
  else if c = 114 then some 13
  else if c = 116 then some 9
  else none

def prepend (s : Bytes) (p : Bytes × Bytes) : Bytes × Bytes := (s ++ p.1, p.2)

/-- Reads a string up to and past its closing quote; the opening quote is gone already. -/
def scanString : Bytes → Option (Bytes × Bytes)
  | [] => none
  | c :: cs =>
    if c = 34 then some ([], cs)
    else if c = 92 then
      match cs with
      | 117 :: h₁ :: h₂ :: h₃ :: h₄ :: rest =>
        match hex4 h₁ h₂ h₃ h₄ with
        | none => none
        | some n =>
          if 0xD800 ≤ n ∧ n < 0xDC00 then
            match rest with
            | 92 :: 117 :: l₁ :: l₂ :: l₃ :: l₄ :: rest =>
              match hex4 l₁ l₂ l₃ l₄ with
              | none => none
              | some m =>
                if 0xDC00 ≤ m ∧ m < 0xE000 then
                  (scanString rest).map
                    (prepend (utf8 (0x10000 + (n - 0xD800) * 1024 + (m - 0xDC00))))
                else none
            | _ => none
          else if 0xDC00 ≤ n ∧ n < 0xE000 then none
          else (scanString rest).map (prepend (utf8 n))
      | e :: rest =>
        match escapeOf e with
        | none => none
        | some b => (scanString rest).map (prepend [b])
      | [] => none
    else if c < 32 then none
    else (scanString cs).map (prepend [c])

def isDigit (c : UInt8) : Bool := 48 ≤ c && c ≤ 57

def scanDigits (s : Bytes) : Option (Bytes × Bytes) :=
  let ds := s.takeWhile isDigit
  if ds = [] then none else some (ds, s.dropWhile isDigit)

def scanFraction : Bytes → Option (Bytes × Bytes)
  | 46 :: s => (scanDigits s).map (prepend [46])
  | s => some ([], s)

def scanExponent : Bytes → Option (Bytes × Bytes)
  | c :: s =>
    if c = 101 ∨ c = 69 then
      match s with
      | 43 :: s => (scanDigits s).map (prepend [c, 43])
      | 45 :: s => (scanDigits s).map (prepend [c, 45])
      | s => (scanDigits s).map (prepend [c])
    else some ([], c :: s)
  | [] => some ([], [])

def scanInt : Bytes → Option (Bytes × Bytes)
  | 48 :: s => some ([48], s)
  | s => scanDigits s

def scanNumber (s : Bytes) : Option (Bytes × Bytes) := do
  let (sign, s) := if s.head? = some 45 then ([45], s.tail) else ([], s)
  let (int, s) ← scanInt s
  let (frac, s) ← scanFraction s
  let (exp, s) ← scanExponent s
  return (sign ++ int ++ frac ++ exp, s)

def stripPrefix (lit s : Bytes) : Option Bytes :=
  if lit.isPrefixOf s then some (s.drop lit.length) else none

/-- `true`, `false`, `null` or a number. -/
def scanAtom (s : Bytes) : Option (Value × Bytes) :=
  match stripPrefix (ascii "true") s with
  | some r => some (.bool true, r)
  | none =>
    match stripPrefix (ascii "false") s with
    | some r => some (.bool false, r)
    | none =>
      match stripPrefix (ascii "null") s with
      | some r => some (.null, r)
      | none => (scanNumber s).map fun (t, r) => (.num t, r)

mutual

def parseValue : ℕ → Bytes → Option (Value × Bytes)
  | 0, _ => none
  | n + 1, s =>
    match skipWs s with
    | 34 :: s => (scanString s).map fun (v, r) => (.str v, r)
    | 123 :: s =>
      match skipWs s with
      | 125 :: r => some (.obj [], r)
      | _ => (parseMembers n s).map fun (ms, r) => (.obj ms, r)
    | 91 :: s =>
      match skipWs s with
      | 93 :: r => some (.arr [], r)
      | _ => (parseElements n s).map fun (xs, r) => (.arr xs, r)
    | s => scanAtom s

def parseMembers : ℕ → Bytes → Option (List (Bytes × Value) × Bytes)
  | 0, _ => none
  | n + 1, s =>
    match skipWs s with
    | 34 :: s =>
      match scanString s with
      | none => none
      | some (k, s) =>
        match skipWs s with
        | 58 :: s =>
          match parseValue n s with
          | none => none
          | some (v, s) =>
            match skipWs s with
            | 44 :: s => (parseMembers n s).map fun (ms, r) => ((k, v) :: ms, r)
            | 125 :: r => some ([(k, v)], r)
            | _ => none
        | _ => none
    | _ => none

def parseElements : ℕ → Bytes → Option (List Value × Bytes)
  | 0, _ => none
  | n + 1, s =>
    match parseValue n s with
    | none => none
    | some (v, s) =>
      match skipWs s with
      | 44 :: s => (parseElements n s).map fun (vs, r) => (v :: vs, r)
      | 93 :: r => some ([v], r)
      | _ => none

end

/-- The value a whole text stands for, `none` for a text that is not JSON. Every call
spends at least one byte or one level, so the length of the text is fuel enough. -/
def decode (text : Bytes) : Option Value :=
  match parseValue (2 * text.length + 1) text with
  | some (v, r) => if skipWs r = [] then some v else none
  | none => none

/-- The string may be printed between quotes as it is. -/
def Plain (s : Bytes) : Prop := ∀ c ∈ s, c ≠ 34 ∧ c ≠ 92 ∧ ¬ c < 32

instance (s : Bytes) : Decidable (Plain s) := List.decidableBAll _ s

@[simp] theorem plain_nil : Plain [] := by simp [Plain]

@[simp] theorem plain_cons {c : UInt8} {s : Bytes} :
    Plain (c :: s) ↔ (c ≠ 34 ∧ c ≠ 92 ∧ ¬ c < 32) ∧ Plain s :=
  List.forall_mem_cons

@[simp] theorem plain_append {s t : Bytes} : Plain (s ++ t) ↔ Plain s ∧ Plain t :=
  List.forall_mem_append

theorem scanString_plain {s : Bytes} (hs : Plain s) (r : Bytes) :
    scanString (s ++ 34 :: r) = some (s, r) := by
  induction s with
  | nil => rw [List.nil_append, scanString.eq_def]; rfl
  | cons c s ih =>
    obtain ⟨⟨h34, h92, h32⟩, hs⟩ := plain_cons.1 hs
    rw [List.cons_append, scanString.eq_def]
    simp only [h34, h92, h32, if_false, ih hs, Option.map_some, prepend]
    rfl

/-- The scanner read `v` off `x` and stopped before `r`. It took at least as many bytes as
`v` has, and took exactly as many only where `v` stands in the text as it is. -/
def Scanned (x v r : Bytes) : Prop :=
  ∃ y, x = y ++ 34 :: r ∧ v.length ≤ y.length ∧ (v.length = y.length → v = y ∧ Plain y)

theorem Scanned.escape {x d v r e : Bytes} (hlen : d.length < e.length)
    (ih : ∀ {v}, scanString x = some (v, r) → Scanned x v r)
    (h : (scanString x).map (prepend d) = some (v, r)) : Scanned (e ++ x) v r := by
  obtain ⟨⟨v', r'⟩, hx, hp⟩ := Option.map_eq_some_iff.1 h
  obtain ⟨rfl, rfl⟩ : d ++ v' = v ∧ r' = r := by simpa [prepend] using hp
  obtain ⟨y, rfl, hle, -⟩ := ih hx
  refine ⟨e ++ y, by simp, by simp; omega, ?_⟩
  simp only [List.length_append]
  omega

theorem skipWs_cons {c : UInt8} (h : isWs c = false) (s : Bytes) : skipWs (c :: s) = c :: s := by
  simp [skipWs, h]

theorem parseValue_str (n : ℕ) {s t : Bytes} (hs : Plain s) {r : Bytes}
    (ht : skipWs t = 34 :: (s ++ 34 :: r)) : parseValue (n + 1) t = some (.str s, r) := by
  rw [parseValue]
  simp only [ht, scanString_plain hs, Option.map_some]

theorem parseValue_obj (n : ℕ) {s t u : Bytes} (ht : skipWs t = 123 :: s)
    (hs : skipWs s = 34 :: u) :
    parseValue (n + 1) t = (parseMembers n s).map fun p => (.obj p.1, p.2) := by
  rw [parseValue]
  simp only [ht, hs]
  rfl

theorem parseMembers_cons (n : ℕ) {k t s : Bytes} (hk : Plain k)
    (ht : skipWs t = 34 :: (k ++ 34 :: 58 :: s)) :
    parseMembers (n + 1) t =
      match parseValue n s with
      | none => none
      | some (v, s) =>
        match skipWs s with
        | 44 :: s => (parseMembers n s).map fun p => ((k, v) :: p.1, p.2)
        | 125 :: r => some ([(k, v)], r)
        | _ => none := by
  rw [parseMembers]
  simp only [ht, scanString_plain hk, skipWs_cons (c := 58) (by decide)]

theorem parseMembers_next (n : ℕ) {k t s u w : Bytes} {v : Value} (hk : Plain k)
    (ht : skipWs t = 34 :: (k ++ 34 :: 58 :: s)) (hv : parseValue n s = some (v, u))
    (hu : skipWs u = 44 :: w) :
    parseMembers (n + 1) t = (parseMembers n w).map fun p => ((k, v) :: p.1, p.2) := by
  simp only [parseMembers_cons n hk ht, hv, hu]

theorem parseMembers_last (n : ℕ) {k t s u r : Bytes} {v : Value} (hk : Plain k)
    (ht : skipWs t = 34 :: (k ++ 34 :: 58 :: s)) (hv : parseValue n s = some (v, u))
    (hu : skipWs u = 125 :: r) : parseMembers (n + 1) t = some ([(k, v)], r) := by
  simp only [parseMembers_cons n hk ht, hv, hu]

/-- How a member list was read: its first key, its first value and what came after. -/
theorem parseMembers_inv {n : ℕ} {t r : Bytes} {ms : List (Bytes × Value)}
    (h : parseMembers (n + 1) t = some (ms, r)) :
    ∃ k v x y u ms', skipWs t = 34 :: x ∧ scanString x = some (k, y) ∧
      (∃ s, skipWs y = 58 :: s ∧ parseValue n s = some (v, u)) ∧ ms = (k, v) :: ms' ∧
      ((skipWs u = 125 :: r ∧ ms' = []) ∨
        ∃ w, skipWs u = 44 :: w ∧ parseMembers n w = some (ms', r)) := by
  rw [parseMembers] at h
  split at h
  · next x hx =>
    split at h
    · simp at h
    next k y hy =>
    split at h
    · next s hs =>
      split at h
      · simp at h
      next v u hv =>
      split at h
      · next w hw =>
        obtain ⟨p, hp, hm⟩ := Option.map_eq_some_iff.1 h
        obtain ⟨rfl, rfl⟩ : (k, v) :: p.1 = ms ∧ p.2 = r := by simpa using hm
        exact ⟨k, v, x, y, u, p.1, hx, hy, ⟨s, hs, hv⟩, rfl, .inr ⟨w, hw, hp⟩⟩
      · next hu =>
        obtain ⟨rfl, rfl⟩ : [(k, v)] = ms ∧ _ = r := by simpa using h
        exact ⟨k, v, x, y, u, [], hx, hy, ⟨s, hs, hv⟩, rfl, .inl ⟨hu, rfl⟩⟩
      · simp at h
    · simp at h
  · simp at h

mutual

def print : Value → Bytes
  | .null => ascii "null"
  | .bool true => ascii "true"
  | .bool false => ascii "false"
  | .num t => t
  | .str s => 34 :: (s ++ [34])
  | .arr [] => [91, 93]
  | .arr (v :: vs) => 91 :: (print v ++ printElements vs)
  | .obj [] => [123, 125]
  | .obj (m :: ms) => 123 :: (printMember m ++ printMembers ms)

def printElements : List Value → Bytes
  | [] => [93]
  | v :: vs => 44 :: (print v ++ printElements vs)

def printMember : Bytes × Value → Bytes
  | (k, v) => 34 :: (k ++ 34 :: 58 :: print v)

def printMembers : List (Bytes × Value) → Bytes
  | [] => [125]
  | m :: ms => 44 :: (printMember m ++ printMembers ms)

end

mutual

/-- All strings are plain and there are no numbers. -/
def Printable : Value → Prop
  | .null | .bool _ => True
  | .num _ => False
  | .str s => Plain s
  | .arr vs => PrintableElements vs
  | .obj ms => PrintableMembers ms

def PrintableElements : List Value → Prop
  | [] => True
  | v :: vs => Printable v ∧ PrintableElements vs

def PrintableMembers : List (Bytes × Value) → Prop
  | [] => True
  | (k, v) :: ms => (Plain k ∧ Printable v) ∧ PrintableMembers ms

end

theorem printableElements_iff {vs : List Value} :
    PrintableElements vs ↔ ∀ v ∈ vs, Printable v := by
  induction vs with
  | nil => simp [PrintableElements]
  | cons v vs ih => simp [PrintableElements, ih]

theorem print_cons {v : Value} (h : Printable v) :
    ∃ c s, print v = c :: s ∧ isWs c = false ∧ c ≠ 93 := by
  cases v with
  | null => exact ⟨_, _, rfl, by decide, by decide⟩
  | bool b => cases b <;> exact ⟨_, _, rfl, by decide, by decide⟩
  | num t => simp [Printable] at h
  | str s => exact ⟨_, _, by rw [print], by decide, by decide⟩
  | arr vs => cases vs <;> exact ⟨_, _, by rw [print], by decide, by decide⟩
  | obj ms => cases ms <;> exact ⟨_, _, by rw [print], by decide, by decide⟩

theorem parseValue_arr (n : ℕ) {s u : Bytes} {c : UInt8} (hs : s = c :: u)
    (hws : isWs c = false) (hc : c ≠ 93) :
    parseValue (n + 1) (91 :: s) = (parseElements n s).map fun p => (.arr p.1, p.2) := by
  rw [parseValue, skipWs_cons (by decide)]
  simp only [hs, skipWs_cons hws]
  split
  · next h => simp at h; exact absurd h.1 hc
  · rfl

mutual

theorem parseValue_print (v : Value) (hv : Printable v) {n : ℕ}
    (hn : (print v).length ≤ n) (r : Bytes) : parseValue n (print v ++ r) = some (v, r) := by
  obtain ⟨n, rfl⟩ : ∃ m, n = m + 1 := by
    obtain ⟨c, s, hp, -⟩ := print_cons hv
    exact ⟨n - 1, by simp [hp] at hn; omega⟩
  match v with
  | .null => rw [parseValue, print]; rfl
  | .bool true => rw [parseValue, print]; rfl
  | .bool false => rw [parseValue, print]; rfl
  | .num t => simp [Printable] at hv
  | .str s =>
    rw [Printable] at hv
    refine parseValue_str n hv ?_
    rw [print, List.cons_append, skipWs_cons (by decide), List.append_assoc]
    rfl
  | .arr [] => rw [parseValue, print]; rfl
  | .arr (v :: vs) =>
    rw [Printable, PrintableElements] at hv
    simp only [print, List.length_cons, List.length_append] at hn
    obtain ⟨c, u, hp, hws, hc⟩ := print_cons hv.1
    rw [print, List.cons_append,
      parseValue_arr n (u := u ++ printElements vs ++ r) (by rw [hp]; simp) hws hc,
      parseElements_print v vs hv (by omega)]
    rfl
  | .obj [] => rw [parseValue, print]; rfl
  | .obj ((k, v) :: ms) =>
    rw [Printable, PrintableMembers] at hv
    simp only [print, List.length_cons, List.length_append] at hn
    rw [print, List.cons_append, parseValue_obj n (skipWs_cons (by decide) _)
      (by rw [printMember, List.cons_append, List.cons_append, skipWs_cons (by decide)]),
      parseMembers_print k v ms hv (by omega)]
    rfl
termination_by n

theorem parseElements_print (v : Value) (vs : List Value)
    (h : Printable v ∧ PrintableElements vs) {n : ℕ}
    (hn : (print v).length + (printElements vs).length ≤ n) (r : Bytes) :
    parseElements n (print v ++ printElements vs ++ r) = some (v :: vs, r) := by
  obtain ⟨n, rfl⟩ : ∃ m, n = m + 1 := by
    obtain ⟨c, s, hp, -⟩ := print_cons h.1
    exact ⟨n - 1, by simp [hp] at hn; omega⟩
  have hpos : 0 < (printElements vs).length := by cases vs <;> simp [printElements]
  rw [parseElements, List.append_assoc, parseValue_print v h.1 (by omega)]
  match vs with
  | [] => simp [printElements, skipWs_cons (c := 93) (by decide)]
  | w :: ws =>
    rw [PrintableElements] at h
    simp only [printElements, List.length_cons, List.length_append] at hn
    simp only [printElements, List.cons_append, skipWs_cons (c := 44) (by decide),
      parseElements_print w ws h.2 (n := n) (by omega), Option.map_some]
termination_by n

theorem parseMembers_print (k : Bytes) (v : Value) (ms : List (Bytes × Value))
    (h : (Plain k ∧ Printable v) ∧ PrintableMembers ms) {n : ℕ}
    (hn : (printMember (k, v)).length + (printMembers ms).length ≤ n) (r : Bytes) :
    parseMembers n (printMember (k, v) ++ printMembers ms ++ r) = some ((k, v) :: ms, r) := by
  obtain ⟨n, rfl⟩ : ∃ m, n = m + 1 := ⟨n - 1, by simp [printMember] at hn; omega⟩
  have hpos : 0 < (printMembers ms).length := by cases ms <;> simp [printMembers]
  simp only [printMember, List.length_cons, List.length_append] at hn
  have hv := parseValue_print v h.1.2 (n := n) (by omega) (printMembers ms ++ r)
  have ht : skipWs (printMember (k, v) ++ printMembers ms ++ r) =
      34 :: (k ++ 34 :: 58 :: (print v ++ (printMembers ms ++ r))) := by
    simp [printMember, skipWs_cons (c := 34) (by decide)]
  match ms with
  | [] => exact parseMembers_last n h.1.1 ht hv (by simp [printMembers, skipWs_cons (c := 125) (by decide)])
  | (k', v') :: ms =>
    rw [PrintableMembers] at h
    simp only [printMembers, List.length_cons, List.length_append] at hn
    rw [parseMembers_next n h.1.1 ht hv (by rw [printMembers, List.cons_append,
      skipWs_cons (by decide)]), parseMembers_print k' v' ms h.2 (by omega)]
    rfl
termination_by n

end

theorem decode_print {v : Value} (hv : Printable v) : decode (print v) = some v := by
  have h := parseValue_print v hv (n := 2 * (print v).length + 1) (by omega) []
  rw [List.append_nil] at h
  simp [decode, h, skipWs]

end Rcom.Lib.Json
