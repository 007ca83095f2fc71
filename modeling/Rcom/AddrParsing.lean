import Rcom.Addr

/-!
# What addr_parse makes of a string

The host is copied into an array of the stack before anything is checked. The port goes from text
to `long` to `int`, and only the `int` is checked.
-/

namespace Rcom.Addr
open Rcom.Lib Rcom.Lib.Decimal Rcom.Libc

/-! ## The copy of the host -/

def strchr (s : CStr) (c : UInt8) : Option ℕ := if c ∈ s then some (s.idxOf c) else none

/-- The loop `for (q = ip, r = s; r < p; q++, r++) *q = *r` and the terminating zero: what is
written, with the index in `ip`. `n` is the distance from `r` to `p`. -/
def copyIp : ℕ → CStr → ℕ → List (ℕ × UInt8)
  | n + 1, c :: r, q => (q, c) :: copyIp n r (q + 1)
  | _, _, q => [(q, 0)]

/-- What `addr_parse` writes to `ip`. -/
def ipWrites (s : CStr) : List (ℕ × UInt8) :=
  match strchr s 58 with
  | none => []
  | some p => copyIp p s 0

def WritesInside (s : CStr) : Prop := ∀ w ∈ ipWrites s, w.1 < ipSize

theorem copyIp_eq (ip : CStr) {s : CStr} (q : ℕ) :
    copyIp ip.length (ip ++ s) q = (ip ++ [0]).mapIdx fun i c => (q + i, c) := by
  induction ip generalizing q with
  | nil => cases s <;> rfl
  | cons c ip ih =>
    rw [List.length_cons, List.cons_append, copyIp, ih (q + 1), List.cons_append, List.mapIdx_cons]
    simp [Nat.add_comm, Nat.add_left_comm]

theorem strchr_split {s ip p : CStr} (hs : s = ip ++ 58 :: p) (hip : 58 ∉ ip) :
    strchr s 58 = some ip.length := by
  rw [strchr, if_pos (by simp [hs]), hs, List.idxOf_append_of_notMem hip, List.idxOf_cons_self]
  rfl

/-- The part before the colon ends up in `ip`, with a zero behind it. -/
theorem ipWrites_split {s ip p : CStr} (hs : s = ip ++ 58 :: p) (hip : 58 ∉ ip) :
    ipWrites s = (ip ++ [0]).mapIdx fun i c => (i, c) := by
  rw [ipWrites, strchr_split hs hip]
  simp only [hs, copyIp_eq, Nat.zero_add]

theorem exists_split {s : CStr} (h : 58 ∈ s) : ∃ ip p, s = ip ++ 58 :: p ∧ 58 ∉ ip := by
  obtain ⟨ip, p, hs, hip⟩ := List.eq_append_cons_of_mem h
  exact ⟨ip, p, hs, hip⟩

theorem takeWhile_split {s ip p : CStr} (hs : s = ip ++ 58 :: p) (hip : 58 ∉ ip) :
    s.takeWhile (· != 58) = ip ∧ s.dropWhile (· != 58) = 58 :: p := by
  have hne : ∀ c ∈ ip, (c != 58) = true := fun c hc => by
    rw [bne_iff_ne]
    rintro rfl
    exact hip hc
  rw [hs, List.takeWhile_append_of_pos hne, List.dropWhile_append_of_pos hne]
  exact ⟨List.append_nil _, rfl⟩

theorem overlong_split {s ip p : CStr} (hs : s = ip ++ 58 :: p) (hip : 58 ∉ ip) :
    Overlong s ↔ ipSize ≤ ip.length := by
  rw [Overlong, (takeWhile_split hs hip).1]
  exact and_iff_right (by simp [hs])

theorem Overlong.escapes {s : CStr} (h : Overlong s) : ¬ WritesInside s := by
  obtain ⟨ip, p, hs, hip⟩ := exists_split h.1
  intro hw
  have hzero : (ip.length, (0 : UInt8)) ∈ ipWrites s := by
    rw [ipWrites_split hs hip]
    exact List.mem_mapIdx.2 ⟨ip.length, by simp, by simp⟩
  exact absurd ((overlong_split hs hip).1 h) (not_le.2 (hw _ hzero))

theorem writesInside_of_fits {s : CStr} (h : ¬ Overlong s) : WritesInside s := by
  by_cases hm : 58 ∈ s
  · obtain ⟨ip, p, hs, hip⟩ := exists_split hm
    rw [overlong_split hs hip, not_le] at h
    intro w hw
    rw [ipWrites_split hs hip] at hw
    obtain ⟨i, hi, rfl⟩ := List.mem_mapIdx.1 hw
    rw [List.length_append, List.length_singleton] at hi
    show i < ipSize
    omega
  · simp [WritesInside, ipWrites, strchr, hm]

/-- The copy stays inside the array unless 64 characters or more come before the first colon. -/
theorem writesInside_iff (s : CStr) : WritesInside s ↔ ¬ Overlong s :=
  ⟨fun hw h => h.escapes hw, writesInside_of_fits⟩

/-- 64 characters and a colon. -/
theorem long_host_escapes : ¬ WritesInside (List.replicate 64 49 ++ [58]) :=
  Overlong.escapes ⟨by decide, by decide⟩

/-- A write outside the array is what the parser has no result for. -/
theorem addrParse_undefined {s : CStr} : addrParse s = none ↔ ¬ WritesInside s := by
  rw [addrParse_eq_none_iff]
  exact ⟨Overlong.escapes, fun hw => by_contra fun h => hw (writesInside_of_fits h)⟩

/-! ## The port -/

/-- A host stands before the first colon of the text and a number after it. -/
def Names (s : CStr) (host : Ip) (port : ℤ) : Prop :=
  inetAton (s.takeWhile (· != 58)) = some host ∧
    ∃ p, s.dropWhile (· != 58) = 58 :: p ∧ strtol p = some (port, [])

def InRange (port : ℤ) : Prop := 0 ≤ port ∧ port < 65536

def ValidAddress (s : CStr) : Prop := ∃ host port, Names s host port ∧ InRange port

theorem addrSetPort_eq_some_iff {a b : Addr} {port : ℤ} :
    addrSetPort a port = some b ↔ InRange port ∧ b = ⟨a.ip, .ofNat port.toNat⟩ := by
  unfold addrSetPort InRange
  split_ifs with h
  · simp
    omega
  · simp only [Option.some.injEq, eq_comm (a := b)]
    exact ⟨fun hb => ⟨by omega, hb⟩, fun hb => hb.2⟩

theorem addrOfParts_eq_some_iff {ip p : CStr} {a : Addr} :
    addrOfParts ip p = some a ↔
      ∃ host port, inetAton ip = some host ∧ strtol p = some (port, []) ∧
        InRange (intOfLong port) ∧ a = ⟨host, .ofNat (intOfLong port).toNat⟩ := by
  unfold addrOfParts addrSetIp
  cases hip : inetAton ip with
  | none => simp
  | some host =>
    rcases hp : strtol p with _ | ⟨port, rest⟩
    · simp
    · cases rest with
      | nil => simp [addrSetPort_eq_some_iff]
      | cons c rest => simp

theorem dropWhile_eq_cons_colon {s p : CStr} {c : UInt8} (h : s.dropWhile (· != 58) = c :: p) :
    c = 58 := by
  have hc := List.head?_dropWhile_not (· != 58) s
  rw [h] at hc
  simpa using hc

/-- The parser takes the number for what is left of it in an `int`. -/
theorem addrParse_eq_some_iff {s : CStr} {a : Addr} :
    addrParse s = some (some a) ↔ ¬ Overlong s ∧ ∃ port, Names s a.ip port ∧
      InRange (intOfLong port) ∧ a.port = .ofNat (intOfLong port).toNat := by
  by_cases hover : Overlong s
  · simp [addrParse_eq_none_iff.2 hover, hover]
  unfold addrParse
  rcases hdrop : s.dropWhile (· != 58) with _ | ⟨c, p⟩
  · simp [Names, hdrop]
  · obtain rfl := dropWhile_eq_cons_colon hdrop
    have hlen : ¬ ipSize ≤ (s.takeWhile (· != 58)).length := by
      intro hlen
      refine hover ⟨?_, hlen⟩
      exact List.dropWhile_subset _ (hdrop ▸ List.mem_cons_self)
    simp only [if_neg hlen, Option.some.injEq, addrOfParts_eq_some_iff, hover, not_false_eq_true,
      true_and, Names, hdrop, List.cons.injEq]
    constructor
    · rintro ⟨host, port, hip, hp, hrange, rfl⟩
      exact ⟨port, ⟨hip, p, rfl, hp⟩, hrange, rfl⟩
    · rintro ⟨port, ⟨hip, q, rfl, hp⟩, hrange, hport⟩
      exact ⟨a.ip, port, hip, hp, hrange, by rw [← hport]⟩

theorem Names.unique {s : CStr} {host host' : Ip} {port port' : ℤ} (h : Names s host port)
    (h' : Names s host' port') : host = host' ∧ port = port' := by
  obtain ⟨hip, p, hdrop, hp⟩ := h
  obtain ⟨hip', p', hdrop', hp'⟩ := h'
  rw [hdrop] at hdrop'
  obtain rfl : p = p' := by simpa using hdrop'
  rw [hip] at hip'
  rw [hp] at hp'
  exact ⟨Option.some.inj hip', by simpa using hp'⟩


/-! ## The number that is written -/

/-- The port of the result is the number in the text, and a number that is no port is refused. -/
def TakesPortLiterally (s : CStr) : Prop :=
  ∀ ip p, s = ip ++ 58 :: p → 58 ∉ ip →
    (∀ a, addrParse s = some (some a) →
      ∃ n, readNumber p = some (n, []) ∧ InRange n ∧ n = addrPort a) ∧
    ∀ n, readNumber p = some (n, []) → ¬ InRange n → addrParse s = some none

/-- The number after the colon is no port, and the host does not fit, or it is one and what is left
of the number in a `long` and then in an `int` is a port. -/
def PortEscapes (s : CStr) : Prop :=
  ∃ ip p n, s = ip ++ 58 :: p ∧ 58 ∉ ip ∧ readNumber p = some (n, []) ∧ ¬ InRange n ∧
    (Overlong s ∨ (inetAton ip).isSome ∧ InRange (intOfLong (longOf n)))

theorem intOfLong_longOf {n : ℤ} (h : InRange n) : intOfLong (longOf n) = n := by
  obtain ⟨hlow, hhigh⟩ := h
  have hlong : longOf n = n := by
    unfold longOf longMax
    omega
  rw [hlong, intOfLong, Int.bmod_eq_of_le] <;> omega

theorem toNat_ofNat {n : ℤ} (h : InRange n) : ((UInt16.ofNat n.toNat).toNat : ℤ) = n := by
  obtain ⟨hlow, hhigh⟩ := h
  rw [UInt16.toNat_ofNat']
  omega

theorem addrParse_split {s ip p : CStr} (hs : s = ip ++ 58 :: p) (hip : 58 ∉ ip) {a : Addr} :
    addrParse s = some (some a) ↔ ¬ Overlong s ∧ inetAton ip = some a.ip ∧
      ∃ n, readNumber p = some (n, []) ∧ InRange (intOfLong (longOf n)) ∧
        (addrPort a : ℤ) = intOfLong (longOf n) := by
  obtain ⟨htake, hdrop⟩ := takeWhile_split hs hip
  have hport (m : ℤ) (hm : InRange m) : a.port = .ofNat m.toNat ↔ (addrPort a : ℤ) = m := by
    rw [addrPort, ← UInt16.toNat_inj]
    have := toNat_ofNat hm
    omega
  simp only [addrParse_eq_some_iff, Names, htake, hdrop, List.cons.injEq, true_and,
    exists_eq_left', strtol_eq_some]
  constructor
  · rintro ⟨hover, port, ⟨hhost, n, hn, rfl⟩, hrange, ha⟩
    exact ⟨hover, hhost, n, hn, hrange, (hport _ hrange).1 ha⟩
  · rintro ⟨hover, hhost, n, hn, hrange, ha⟩
    exact ⟨hover, _, ⟨hhost, n, hn, rfl⟩, hrange, (hport _ hrange).2 ha⟩

/-- The port is taken literally unless the narrowing to an `int` makes one of a number that is
none. -/
theorem takesPortLiterally_iff (s : CStr) : TakesPortLiterally s ↔ ¬ PortEscapes s := by
  constructor
  · rintro h ⟨ip, p, n, hs, hip, hn, hrange, hcases⟩
    have hrefused := (h ip p hs hip).2 n hn hrange
    by_cases hover : Overlong s
    · rw [addrParse_eq_none_iff.2 hover] at hrefused
      simp at hrefused
    · obtain ⟨hhost, hport⟩ := hcases.resolve_left hover
      obtain ⟨host, hhost⟩ := Option.isSome_iff_exists.1 hhost
      have haccepted : addrParse s = some (some ⟨host, .ofNat (intOfLong (longOf n)).toNat⟩) :=
        (addrParse_split hs hip).2 ⟨hover, hhost, n, hn, hport, toNat_ofNat hport⟩
      rw [haccepted] at hrefused
      simp at hrefused
  · intro h ip p hs hip
    have hout (n : ℤ) (hn : readNumber p = some (n, [])) (hrange : ¬ InRange n) :
        ¬ Overlong s ∧ ((inetAton ip).isSome → ¬ InRange (intOfLong (longOf n))) := by
      constructor
      · exact fun hover => h ⟨ip, p, n, hs, hip, hn, hrange, .inl hover⟩
      · exact fun hhost hport => h ⟨ip, p, n, hs, hip, hn, hrange, .inr ⟨hhost, hport⟩⟩
    refine ⟨fun a ha => ?_, fun n hn hrange => ?_⟩
    · obtain ⟨-, hhost, n, hn, hport, heq⟩ := (addrParse_split hs hip).1 ha
      have hrange : InRange n := by
        by_contra hrange
        exact (hout n hn hrange).2 (by simp [hhost]) hport
      rw [intOfLong_longOf hrange] at heq
      exact ⟨n, hn, hrange, heq.symm⟩
    · obtain ⟨hover, hnarrow⟩ := hout n hn hrange
      rcases hparse : addrParse s with _ | _ | a
      · exact absurd (addrParse_eq_none_iff.1 hparse) hover
      · rfl
      · obtain ⟨-, hhost, m, hm, hport, -⟩ := (addrParse_split hs hip).1 hparse
        rw [hn] at hm
        cases hm
        exact absurd hport (hnarrow (by simp [hhost]))

/-- A port of 2^32 + 80. -/
def farAddress : CStr := ascii "10.0.0.1:4294967376"

theorem names_farAddress : Names farAddress ⟨10, 0, 0, 1⟩ 4294967376 := by
  have hhost : farAddress.takeWhile (· != 58) = inetNtoa ⟨10, 0, 0, 1⟩ := by decide
  have hport : (4294967376 : ℤ) ≤ longMax := by
    rw [longMax]
    norm_num
  refine ⟨hhost ▸ inetAton_inetNtoa _, ascii "4294967376", by decide, ?_⟩
  exact strtol_decimal (n := 4294967376) hport

theorem inRange_wrapped : InRange (intOfLong 4294967376) := by
  simp [InRange, intOfLong, Int.bmod]

theorem addrParse_farAddress : addrParse farAddress = some (some ⟨⟨10, 0, 0, 1⟩, 80⟩) := by
  refine addrParse_eq_some_iff.2 ⟨?_, _, names_farAddress, inRange_wrapped, by decide⟩
  exact fun h => absurd h.2 (by decide)

theorem farAddress_is_accepted :
    addrParse farAddress = some (some ⟨⟨10, 0, 0, 1⟩, 80⟩) ∧ ¬ TakesPortLiterally farAddress := by
  refine ⟨addrParse_farAddress, fun h => ?_⟩
  have hsplit : farAddress = ascii "10.0.0.1" ++ 58 :: ascii "4294967376" := by decide
  have hnumber : readNumber (ascii "4294967376") = some (4294967376, []) := by decide
  have hrefused := (h _ _ hsplit (by decide)).2 _ hnumber (by simp [InRange])
  rw [addrParse_farAddress] at hrefused
  simp at hrefused

end Rcom.Addr
