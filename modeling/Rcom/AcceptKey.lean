import Rcom.Base64Loop
import Rcom.HandshakeVerdicts
import Rcom.Sha1Digest

/-!
# The accept value (messagelink.c, messagehub.c, sha1.c, util.c)

The handshake with the digest and the encoding of the repository, on machines of either byte order:
what a hub answers and what a client asks for is the accept value of the WebSocket protocol.
-/

namespace Rcom.Http
open Rcom.Lib

/-- What the digest depends on besides its input: the byte order, and what the memory of the context
holds before it is initialized. -/
structure Machine where
  order : Sha1.Order
  memory : Sha1.Buffer

theorem sha1_of_machine (m : Machine) (s : CStr) :
    Sha1.sha1 m.order m.memory s = some (Fips180.sha1 (s.take (s.length % 2 ^ 32))) :=
  Sha1.sha1_eq m.order m.memory s

/-- `SHA1` of the repository. -/
def Machine.sha1 (m : Machine) (s : CStr) : Digest :=
  ⟨(Sha1.sha1 m.order m.memory s).getD [],  by
    rw [sha1_of_machine, Option.getD_some]
    exact Fips180.length_bytes _⟩

theorem machine_sha1 (m : Machine) {s : CStr} (h : s.length < 2 ^ 32) : (m.sha1 s).1 = Fips180.sha1 s := by
  show (Sha1.sha1 m.order m.memory s).getD [] = _
  rw [sha1_of_machine, Option.getD_some, Nat.mod_eq_of_lt h, List.take_length]

/-- The accept value for a key, in the words of the protocol. -/
def rfcAccept (key : Bytes) : Bytes :=
  base64.encode (Fips180.sha1 (key ++ ascii "258EAFA5-E914-47DA-95CA-C5AB0DC85B11"))

/-- Keys that leave room for the whole of the fixed text are not cut. -/
theorem makeAccept_eq (m : Machine) {key : CStr} (h : key.length ≤ 63) :
    makeAccept m.sha1 key = rfcAccept key := by
  have hguid : websocketGuid.length = 36 := by decide
  have hlen : (key ++ websocketGuid).length ≤ 99 := by
    rw [List.length_append, hguid]
    omega
  rw [makeAccept, snprintf, List.take_of_length_le hlen, encodeBase64_eq,
    machine_sha1 m (by show _ < 4294967296; omega)]
  rfl

example : makeAccept (Machine.sha1 ⟨.little, ⟨List.replicate 64 0, by decide⟩⟩)
    (makeKey ⟨ascii "the sample nonce", by decide⟩) = ascii "s3pPLMBiTxaQ9kYGzzhZRbK+xOo=" := by
  decide +kernel

theorem length_of_validWebsocketKey {key : CStr} (h : validWebsocketKey key = true) : key.length = 24 := by
  rw [validWebsocketKey] at h
  by_contra hne
  rw [if_pos hne] at h
  exact Bool.false_ne_true h

/-- Hub and client hold to the accept value of the protocol, whatever machines they run on: the hub
puts it in its answer to every valid request, and the client opens the link just when the answer has
it, with the other two headers. -/
theorem handshake_uses_rfc_accept (client hub : Machine) (nonce : Nonce) :
    (∀ request, requestIsValidWebsocket request = true →
      ∃ key, requestGetHeaderValue request (ascii "Sec-WebSocket-Key") = some key ∧
        messagehubUpgradeConnection hub.sha1 request =
          some (messageText (ascii "HTTP/1.1 101 Switching Protocols") (replyHeaders (rfcAccept key)))) ∧
      ∀ reads, (clientMessagelinkOpenWebsocket client.sha1 nonce 0 reads newLink).map Prod.fst = some 0 ↔
        ∃ cs, heard reads = some (some 101, cs) ∧
          ∀ h ∈ requiredHeaders (rfcAccept (base64.encode nonce.1)),
            getHeaderValue (HeaderReader.reported cs) h.name = some h.value := by
  classical
  refine ⟨fun request hvalid => ?_, fun reads => ?_⟩
  · rw [requestIsValidWebsocket] at hvalid
    cases hkey : requestGetHeaderValue request (ascii "Sec-WebSocket-Key") with
    | none =>
      rw [hkey] at hvalid
      exact absurd hvalid Bool.false_ne_true
    | some key =>
      have hvalidKey : validWebsocketKey key = true := by
        by_contra hno
        rw [hkey] at hvalid
        simp [hno] at hvalid
      have hlen := length_of_validWebsocketKey hvalidKey
      exact ⟨key, rfl, by rw [upgradeConnection_eq hkey, makeAccept_eq hub (by omega)]⟩
  · have hkey : (makeKey nonce).length ≤ 63 := by
      rw [makeKey, length_encodeBase64, nonce.2]
      decide
    rw [verdict_eq rfl, makeAccept_eq client hkey, makeKey, encodeBase64_eq]
    cases hheard : heard reads with
    | none => simp
    | some h =>
      obtain ⟨status, cs⟩ := h
      rw [Option.map_some, Option.some.injEq]
      constructor
      · intro hzero
        by_contra hno
        rw [if_neg fun hall => hno ⟨cs, congrArg (fun s => some (s, cs)) hall.1, hall.2⟩] at hzero
        exact absurd hzero (by decide)
      · rintro ⟨cs', hsome, hall⟩
        rw [Option.some.injEq, Prod.mk.injEq] at hsome
        rw [if_pos ⟨hsome.1, by rw [hsome.2]; exact hall⟩]

end Rcom.Http
