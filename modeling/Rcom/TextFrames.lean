import Rcom.Senders

/-!
# A text that is sent in blocks (messagelink.c)

`messagelink_send_text` does not put its frame together, as `frame_make` does: it sends the header
and then the payload in blocks. Each block may take many calls of `send`.
-/

namespace Rcom.Messagelink
open Rcom.Lib Rcom.Lib.Program

variable {J : Type} {isClient : Bool}

/-- What `send` took. -/
def taken : Event (Act.Answer (J := J)) → Bytes
  | ⟨.send _ _ data, (ret : ℤ)⟩ => data.take ret.toNat
  | _ => []

def bytesPut (es : List (Event (Act.Answer (J := J)))) : Bytes := es.flatMap taken

def drawnMask : Event (Act.Answer (J := J)) → Option Mask
  | ⟨.makeMask, mask⟩ => some mask
  | _ => none

def masksDrawn (es : List (Event (Act.Answer (J := J)))) : List Mask := es.filterMap drawnMask

/-- All bytes were put on the socket, or the first of them and the result is -1. No mask was drawn. -/
structure Puts (data : Bytes) (es : List (Event (Act.Answer (J := J)))) (ret : ℤ) : Prop where
  bytes : ret = 0 ∧ bytesPut es = data ∨ ret = -1 ∧ bytesPut es <+: data
  masks : masksDrawn es = []

section Does
variable {es es₁ es₂ : List (Event (Act.Answer (J := J)))} {ret : ℤ} {data rest : Bytes}

@[simp]
theorem bytesPut_nil : bytesPut (J := J) [] = [] := rfl

@[simp]
theorem bytesPut_cons (e : Event (Act.Answer (J := J))) : bytesPut (e :: es) = taken e ++ bytesPut es := rfl

@[simp]
theorem bytesPut_append : bytesPut (es₁ ++ es₂) = bytesPut es₁ ++ bytesPut es₂ := List.flatMap_append

@[simp]
theorem masksDrawn_append : masksDrawn (es₁ ++ es₂) = masksDrawn es₁ ++ masksDrawn es₂ :=
  List.filterMap_append

theorem Puts.nil : Puts (J := J) [] [] 0 := ⟨.inl ⟨rfl, rfl⟩, rfl⟩

theorem Puts.failed (data : Bytes) : Puts (J := J) data [] (-1) := ⟨.inr ⟨rfl, List.nil_prefix⟩, rfl⟩

theorem Puts.cons {e : Event (Act.Answer (J := J))} (htaken : taken e = []) (hmask : drawnMask e = none)
    (h : Puts data es ret) : Puts data (e :: es) ret := by
  obtain ⟨hbytes, hmasks⟩ := h
  refine ⟨?_, ?_⟩
  · rwa [bytesPut_cons, htaken, List.nil_append]
  · rw [masksDrawn, List.filterMap_cons_none hmask]
    exact hmasks

theorem Puts.concat {e : Event (Act.Answer (J := J))} (htaken : taken e = []) (hmask : drawnMask e = none)
    (h : Puts data es ret) : Puts data (es ++ [e]) ret := by
  obtain ⟨hbytes, hmasks⟩ := h
  refine ⟨?_, ?_⟩
  · rwa [bytesPut_append, bytesPut_cons, htaken, bytesPut_nil, List.append_nil, List.append_nil]
  · rw [masksDrawn_append, hmasks, masksDrawn, List.filterMap_cons_none hmask]
    rfl

theorem Puts.append (h₁ : Puts data es₁ 0) (h₂ : Puts rest es₂ ret) :
    Puts (data ++ rest) (es₁ ++ es₂) ret := by
  have hfirst : bytesPut es₁ = data := by
    obtain ⟨-, h⟩ | ⟨h, -⟩ := h₁.bytes
    · exact h
    · exact absurd h (by decide)
  refine ⟨?_, ?_⟩
  · rw [bytesPut_append, hfirst]
    exact h₂.bytes.imp (And.imp_right (congrArg _)) (And.imp_right (List.prefix_append_right_inj _).2)
  · rw [masksDrawn_append, h₁.masks, h₂.masks, List.append_nil]

theorem Puts.eq_zero_or (h : Puts data es ret) : ret = 0 ∨ ret = -1 := h.bytes.imp And.left And.left

theorem Puts.short (h : Puts data es (-1)) (rest : Bytes) : Puts (data ++ rest) es (-1) := by
  refine ⟨.inr ⟨rfl, ?_⟩, h.masks⟩
  obtain ⟨h, -⟩ | ⟨-, h⟩ := h.bytes
  · exact absurd h (by decide)
  · exact h.trans (List.prefix_append _ _)

theorem puts_send (fd opcode : ℕ) (data : Bytes) (r : ℤ) :
    Puts (J := J) (data.take r.toNat) [⟨.send fd opcode data, r⟩] 0 :=
  ⟨.inl ⟨rfl, List.append_nil _⟩, rfl⟩

theorem puts_send_failed (fd opcode : ℕ) (data : Bytes) (r : ℤ) :
    Puts (J := J) data [⟨.send fd opcode data, r⟩] (-1) := by
  refine ⟨.inr ⟨rfl, ?_⟩, rfl⟩
  rw [bytesPut_cons, bytesPut_nil, List.append_nil]
  exact List.take_prefix _ _

theorem puts_sendLoop {fd opcode : ℕ} (h : Lib.Program.Does (sendLoop (J := J) fd opcode data) es ret) :
    Puts data es ret := by
  fun_induction sendLoop (J := J) fd opcode data generalizing es with
  | case1 =>
    obtain ⟨rfl, rfl⟩ := h
    exact .nil
  | case2 data hdata ih =>
    obtain ⟨(r : ℤ), es', rfl, hrest⟩ := h
    dsimp only at hrest
    split_ifs at hrest with hneg hzero
    · obtain ⟨rfl, rfl⟩ := hrest
      exact puts_send_failed fd opcode data r
    · obtain ⟨rfl, rfl⟩ := hrest
      exact puts_send_failed fd opcode data r
    · have hsent := (puts_send fd opcode data r).append (ih r hneg hzero hrest)
      rwa [List.take_append_drop] at hsent

theorem puts_tcpSocketSend {opcode : ℕ} {socket : Option ℕ}
    (h : Lib.Program.Does (tcpSocketSend (J := J) opcode socket data) es ret) : Puts data es ret := by
  cases socket with
  | none =>
    obtain ⟨rfl, rfl⟩ := h
    exact .failed data
  | some fd => exact puts_sendLoop h

theorem puts_sendBlocks {masked : Bool} {mask : Mask} {j : Fin 4}
    (h : Lib.Program.Does (sendBlocks (J := J) masked mask j data) es ret) :
    Puts (bodyFrom masked mask j data) es ret := by
  fun_induction sendBlocks (J := J) masked mask j data generalizing es with
  | case1 =>
    obtain ⟨rfl, rfl⟩ := h
    rw [bodyFrom_nil]
    exact .nil
  | case2 j data hdata block =>
    rename_i next ih
    simp only [dite_eq_ite] at ih
    obtain ⟨socket, es', rfl, hrest⟩ := h
    obtain ⟨es₁, es₂, err, rfl, hsend, hnext⟩ := does_bind.1 hrest
    have hblock := puts_tcpSocketSend hsend
    rw [bodyFrom_block]
    refine Puts.cons rfl rfl ?_
    obtain rfl | rfl := hblock.eq_zero_or
    · exact hblock.append (ih hnext)
    · obtain ⟨rfl, rfl⟩ : es₂ = [] ∧ ret = -1 := hnext
      rw [List.append_nil]
      exact hblock.short _

theorem does_makeMask {masked : Bool} {mask : Mask}
    (h : Lib.Program.Does (makeMask (J := J) masked) es mask) :
    bytesPut es = [] ∧ (masked = true → masksDrawn es = [mask]) := by
  cases masked with
  | false =>
    obtain ⟨rfl, -⟩ := h
    exact ⟨rfl, by simp⟩
  | true =>
    obtain ⟨r, es', rfl, rfl, rfl⟩ := h
    exact ⟨rfl, fun _ => rfl⟩

theorem puts_unlock {p : Program J ℤ}
    (hp : ∀ es ret, Lib.Program.Does p es ret → Puts data es ret)
    (h : Lib.Program.Does (p >>= fun err => .act (.unlock .sendMutex) fun _ => .ret err) es ret) :
    Puts data es ret := by
  obtain ⟨es₁, es₂, err, rfl, hdoes, _, es₃, rfl, rfl, rfl⟩ := does_bind.1 h
  exact (hp es₁ _ hdoes).concat rfl rfl

/-- A text that is sent is the frame that `frame_make` builds with the same mask, or the start of it
when sending fails. -/
theorem sendText_agrees (h : Lib.Program.Does (messagelinkSendText (J := J) isClient data) es ret) :
    ret = -2 ∧ bytesPut es = [] ∨
      ∃ mask, (isClient = true → masksDrawn es = [mask]) ∧
        (ret = 0 ∧ bytesPut es = frameMake 1 isClient mask data ∨
          ret = -1 ∧ bytesPut es <+: frameMake 1 isClient mask data) := by
  simp only [messagelinkSendText, doing, perform_bind] at h
  obtain ⟨socket, es₁, rfl, hopen⟩ := h
  dsimp only at hopen
  split_ifs at hopen with hinvalid
  · obtain ⟨rfl, rfl⟩ := hopen
    exact .inl ⟨rfl, rfl⟩
  obtain ⟨state, es₂, rfl, hsends⟩ := hopen
  dsimp only at hsends
  split_ifs at hsends with hclosed
  · obtain ⟨rfl, rfl⟩ := hsends
    exact .inl ⟨rfl, rfl⟩
  obtain ⟨es₃, es₄, mask, rfl, hmask, hlocked⟩ := does_bind.1 hsends
  obtain ⟨_, es₅, rfl, socket', es₆, rfl, hrest⟩ := hlocked
  have hframe : Puts (frameMake 1 isClient mask data) es₆ ret := by
    obtain ⟨es₇, es₈, err, rfl, hsend, hblocks⟩ := does_bind.1 hrest
    have hheader := puts_tcpSocketSend hsend
    rw [frameMake_eq_body]
    obtain rfl | rfl := hheader.eq_zero_or
    · exact hheader.append (puts_unlock (fun _ _ => puts_sendBlocks) hblocks)
    · obtain ⟨_, es₉, rfl, rfl, rfl⟩ := hblocks
      exact (hheader.short _).concat rfl rfl
  obtain ⟨hnothing, hdrawn⟩ := does_makeMask hmask
  refine .inr ⟨mask, fun hclient => ?_, ?_⟩
  · change masksDrawn (es₃ ++ ([⟨.lock .sendMutex, _⟩, ⟨.socket, socket'⟩] ++ es₆)) = [mask]
    rw [masksDrawn_append, masksDrawn_append, hdrawn hclient, hframe.masks]
    rfl
  · have hput : bytesPut (es₃ ++ ([⟨.lock .sendMutex, ()⟩, ⟨.socket, socket'⟩] ++ es₆)) = bytesPut es₆ := by
      rw [bytesPut_append, bytesPut_append, hnothing]
      rfl
    exact hput.symm ▸ hframe.bytes

end Does

/-- A client sends two bytes; the second one takes a `send` of its own. -/
def helloLog : List (Event (Act.Answer (J := Unit))) :=
  [⟨.socket, some 3⟩, ⟨.state, .open⟩, ⟨.makeMask, fun _ => 5⟩, ⟨.lock .sendMutex, ()⟩,
    ⟨.socket, some 3⟩, ⟨.send 3 1 [129, 130, 5, 5, 5, 5], (6 : ℤ)⟩, ⟨.socket, some 3⟩,
    ⟨.send 3 1 [109, 108], (1 : ℤ)⟩, ⟨.send 3 1 [108], (1 : ℤ)⟩, ⟨.unlock .sendMutex, ()⟩]

theorem hello_sent : Lib.Program.Does (messagelinkSendText (J := Unit) true [104, 105]) helloLog 0 := by
  have hheader : frameMakeHeader 1 true (fun _ => 5) 2 = [129, 130, 5, 5, 5, 5] := rfl
  have hblock : (maskBlock (fun _ => 5) maskStart ([104, 105] : Bytes)).1 = [109, 108] := rfl
  simp only [messagelinkSendText, doing, perform_bind]
  refine ⟨_, _, rfl, _, _, rfl, _, _, rfl, _, _, rfl, _, _, rfl, ?_⟩
  simp [hheader, tcpSocketSend, sendLoop_cons, sendBlocks_cons, hblock, Lib.Program.Does]

theorem hello_agrees : ∃ mask, masksDrawn helloLog = [mask] ∧
    bytesPut helloLog = frameMake 1 true mask [104, 105] := by
  obtain ⟨h, -⟩ | ⟨mask, hmask, ⟨-, hbytes⟩ | ⟨h, -⟩⟩ := sendText_agrees hello_sent
  · exact absurd h (by decide)
  · exact ⟨mask, hmask rfl, hbytes⟩
  · exact absurd h (by decide)

end Rcom.Messagelink
