import Rcom.Libc
import Mathlib.Data.Int.DivMod
import Mathlib.Data.List.TakeWhile
import Mathlib.Tactic.Linarith

/-!
# Addresses (addr.c)

The port is kept in host order and the constant address family is left out.
`addrParse` copies the part before the colon into `char ip[64]` without a bound, so a
longer one is undefined behaviour here.
-/

namespace Rcom
open Rcom.Lib Rcom.Lib.Decimal Rcom.Libc

structure Addr where
  ip : Ip
  port : UInt16
  deriving DecidableEq

namespace Addr

def newAddr0 : Addr := ⟨⟨0, 0, 0, 0⟩, 0⟩

def addrIp (addr : Addr) : CStr := inetNtoa addr.ip

def addrPort (addr : Addr) : ℕ := addr.port.toNat

/-- `snprintf(buf, 64, ..)`; no address needs more than 21 characters. -/
def addrString : Option Addr → CStr
  | none => ascii "(null)"
  | some addr => addrIp addr ++ 58 :: decimal (addrPort addr)

def addrEq (addr₁ addr₂ : Addr) : Bool :=
  addrPort addr₁ = addrPort addr₂ && addrIp addr₁ = addrIp addr₂

def addrSetIp (addr : Addr) (ip : CStr) : Option Addr :=
  (inetAton ip).map fun ip => { addr with ip := ip }

def addrSetPort (addr : Addr) (port : ℤ) : Option Addr :=
  if port < 0 ∨ 65536 ≤ port then none else some { addr with port := .ofNat port.toNat }

/-- The conversion of a `long` to `int`. -/
def intOfLong (n : ℤ) : ℤ := Int.bmod n (2 ^ 32)

/-- The size of `char ip[64]`. -/
def ipSize : ℕ := 64

/-- The checks of `addr_parse` once the string is cut at its first colon. -/
def addrOfParts (ip p : CStr) : Option Addr :=
  match addrSetIp newAddr0 ip with
  | none => none
  | some addr =>
    match strtol p with
    | some (port, []) => addrSetPort addr (intOfLong port)
    | _ => none

def addrParse (s : CStr) : Exec (Option Addr) :=
  match s.dropWhile (· != 58) with
  | [] => some none
  | _ :: p =>
    let ip := s.takeWhile (· != 58)
    if ipSize ≤ ip.length then none
    else some (addrOfParts ip p)

/-- A string whose part before the first colon does not fit the buffer. -/
def Overlong (s : CStr) : Prop := 58 ∈ s ∧ ipSize ≤ (s.takeWhile (· != 58)).length

theorem addrParse_eq_none_iff {s : CStr} : addrParse s = none ↔ Overlong s := by
  have hdrop : s.dropWhile (· != 58) = [] ↔ 58 ∉ s := by
    rw [List.dropWhile_eq_nil_iff]
    constructor
    · exact fun h hm => by simpa using h 58 hm
    · exact fun h c hc => by
        rw [bne_iff_ne]
        rintro rfl
        exact h hc
  unfold addrParse Overlong
  split
  · next h => simp [hdrop.1 h]
  · next c p h =>
    have hm : 58 ∈ s := by
      by_contra hm
      simp [hdrop.2 hm] at h
    simp [hm]

theorem addrEq_iff {a b : Addr} : addrEq a b = true ↔ a = b := by
  obtain ⟨ip, port⟩ := a
  obtain ⟨ip', port'⟩ := b
  simp [addrEq, addrPort, addrIp, inetNtoa_inj, UInt16.toNat_inj, and_comm]

theorem mem_addrIp_ne_colon {a : Addr} {c : UInt8} (hc : c ∈ addrIp a) : (c != 58) = true := by
  rw [bne_iff_ne]
  rintro rfl
  rcases mem_inetNtoa hc with h | h <;> exact absurd h (by decide)

theorem addrSetPort_addrPort (a b : Addr) :
    addrSetPort a (intOfLong (addrPort b)) = some { a with port := b.port } := by
  have hport : addrPort b < 65536 := b.port.toNat_lt
  have hint : intOfLong (addrPort b) = addrPort b := by
    rw [intOfLong, Int.bmod_eq_of_le] <;> omega
  rw [hint, addrSetPort, if_neg (by omega), Int.toNat_natCast, addrPort, UInt16.ofNat_toNat]

theorem addrParse_addrString (a : Addr) : addrParse (addrString (some a)) = some (some a) := by
  have hdrop : (addrString (some a)).dropWhile (· != 58) = 58 :: decimal (addrPort a) := by
    rw [addrString, List.dropWhile_append_of_pos fun c => mem_addrIp_ne_colon]
    rfl
  have htake : (addrString (some a)).takeWhile (· != 58) = addrIp a := by
    rw [addrString, List.takeWhile_append_of_pos fun c => mem_addrIp_ne_colon]
    exact List.append_nil _
  have hlen : ¬ ipSize ≤ (addrIp a).length := by
    have : (addrIp a).length ≤ 15 := inetNtoa_length a.ip
    rw [ipSize]
    omega
  have hport : ((addrPort a : ℕ) : ℤ) ≤ longMax := by
    have : addrPort a < 65536 := a.port.toNat_lt
    rw [longMax]
    omega
  have hip : addrSetIp newAddr0 (addrIp a) = some { newAddr0 with ip := a.ip } := by
    rw [addrSetIp, addrIp, inetAton_inetNtoa, Option.map_some]
  have hparts : addrOfParts (addrIp a) (decimal (addrPort a)) = some a := by
    simp only [addrOfParts, hip, strtol_decimal hport]
    exact addrSetPort_addrPort _ a
  rw [addrParse, hdrop]
  simp only [htake, if_neg hlen, hparts]

end Addr
end Rcom
