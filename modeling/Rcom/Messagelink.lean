import Rcom.ClientLink
import Rcom.Frame
import Rcom.JsonObject
import Rcom.Lib.Program

/-!
# The functions of a message link (messagelink.c)

They are programs over the accesses to the fields that threads share, the locks, the system
calls and the callbacks. The role of a link is fixed when it is used. `link->in` travels
with the message that was read into it. A program takes a number of rounds for its loops:
for every number it says what the function does in its first rounds.
-/

namespace Rcom.Messagelink
open Rcom.Lib Rcom.Lib.ByteOrder Rcom.Lib.Program
open Rcom.ClientLink (LinkState)

inductive Lock where
  | out
  | sendMutex
  | stateMutex
deriving DecidableEq

/-- What `messagelink_read_message` returns, the frame and `link->in`. -/
structure Message where
  err : ℤ
  frame : WsFrame
  input : Bytes

/-- A descriptor stands for itself, and `none` for an invalid socket. `send` names the opcode of
the frame that its bytes belong to. -/
inductive Act (J : Type) where
  | lock (l : Lock)
  | unlock (l : Lock)
  | appQuit
  | threadQuit
  | state
  | setState (state : LinkState)
  | socket
  | setSocket (socket : Option ℕ)
  | remoteAddr
  | setRemoteAddr (addr : Option Addr)
  | setIsClient
  | closeCode
  | setCloseCode (code : ℤ)
  | newSocket
  | connect (fd : ℕ) (addr : Addr)
  | closeTcpSocket (fd : ℕ)
  | openWebsocket
  | addrClone (addr : Addr)
  | waitData
  | readMessage
  | overdue
  | makeMask
  | clearOut
  | appendOut (data : Bytes)
  | out
  | send (fd : ℕ) (opcode : ℕ) (data : Bytes)
  | onmessage (message : J)
  | onpong (data : Bytes)
  | onclose

abbrev Act.Answer {J : Type} : Act J → Type
  | .appQuit | .threadQuit | .overdue | .openWebsocket => Bool
  | .state => LinkState
  | .socket | .newSocket => Option ℕ
  | .remoteAddr | .addrClone _ => Option Addr
  | .closeCode | .connect _ _ | .waitData | .send _ _ _ => ℤ
  | .readMessage => Message
  | .makeMask => Mask
  | .out => Bytes
  | _ => Unit

/-- An answer of no consequence. -/
def Act.idle {J : Type} : (a : Act J) → a.Answer
  | .appQuit | .threadQuit | .overdue | .openWebsocket => false
  | .state => .closed
  | .socket | .newSocket => none
  | .remoteAddr | .addrClone _ => none
  | .closeCode | .waitData => (0 : ℤ)
  | .connect _ _ | .send _ _ _ => (-1 : ℤ)
  | .readMessage => ⟨-1, ⟨0, 0, 0, 0⟩, []⟩
  | .makeMask => fun _ => 0
  | .out => []
  | .lock _ | .unlock _ | .setState _ | .setSocket _ | .setRemoteAddr _ | .setIsClient
  | .setCloseCode _ | .closeTcpSocket _ | .clearOut | .appendOut _ | .onmessage _ | .onpong _
  | .onclose => ()

abbrev Program (J α : Type) := Prog (Act.Answer (J := J)) α

variable {J : Type}

def doing (a : Act J) : Program J a.Answer := perform a

/-! ## Sending -/

/-- The loop of `tcp_socket_send` over what is left to send. -/
def sendLoop (fd opcode : ℕ) (data : Bytes) : Program J ℤ :=
  if data = [] then .ret 0
  else .act (.send fd opcode data) fun (ret : ℤ) =>
    if ret < 0 then .ret (-1)
    else if ret = 0 then .ret (-1)
    else sendLoop fd opcode (data.drop ret.toNat)
termination_by data.length
decreasing_by
  rw [List.length_drop]
  have hpos : 0 < data.length := List.length_pos_iff.2 ‹_›
  omega

@[simp] theorem sendLoop_nil (fd opcode : ℕ) : sendLoop (J := J) fd opcode [] = .ret 0 := by
  rw [sendLoop, if_pos rfl]

theorem sendLoop_cons (fd opcode : ℕ) (b : UInt8) (data : Bytes) :
    sendLoop (J := J) fd opcode (b :: data) =
      .act (.send fd opcode (b :: data)) fun (ret : ℤ) =>
        if ret < 0 then .ret (-1)
        else if ret = 0 then .ret (-1)
        else sendLoop fd opcode ((b :: data).drop ret.toNat) := by
  rw [sendLoop, if_neg (List.cons_ne_nil b data)]

def tcpSocketSend (opcode : ℕ) (socket : Option ℕ) (data : Bytes) : Program J ℤ :=
  match socket with
  | none => .ret (-1)
  | some fd => sendLoop fd opcode data

/-- A mask is only drawn where it is used. -/
def makeMask (masked : Bool) : Program J Mask :=
  if masked then doing .makeMask else .ret fun _ => 0

/-- A frame is put together in `link->out` and sent in one piece. -/
def sendFrame (isClient : Bool) (opcode : ℕ) (data : Bytes) : Program J ℤ := do
  doing (.lock .out)
  doing .clearOut
  let mask ← makeMask isClient
  doing (.appendOut (frameMake opcode isClient mask data))
  doing (.lock .sendMutex)
  let socket : Option ℕ ← doing .socket
  let out : Bytes ← doing .out
  let err ← tcpSocketSend opcode socket out
  doing (.unlock .sendMutex)
  doing (.unlock .out)
  return err

def closeData (code : ℤ) : Bytes :=
  let c := htons (code % 65536).toNat
  [UInt8.ofNat (c &&& 0x00ff), UInt8.ofNat ((c &&& 0xff00) >>> 8)]

def messagelinkSendClose (isClient : Bool) (code : ℤ) : Program J ℤ :=
  sendFrame isClient 8 (closeData code)

def messagelinkSendPing (isClient : Bool) (data : Bytes) : Program J ℤ := sendFrame isClient 9 data

def messagelinkSendPong (isClient : Bool) (payload : Bytes) : Program J ℤ :=
  sendFrame isClient 10 payload

/-- The blocks of a text; -1 is the jump to `return_error`. -/
def sendBlocks (masked : Bool) (mask : Mask) (j : Fin 4) (data : Bytes) : Program J ℤ :=
  if data = [] then .ret 0
  else
    let block := data.take 1024
    let turned := maskBlock mask j block
    .act .socket fun socket =>
      tcpSocketSend 1 socket (if masked then turned.1 else block) >>= fun err =>
        if err ≠ 0 then .ret (-1)
        else sendBlocks masked mask (if masked then turned.2 else j) (data.drop 1024)
termination_by data.length
decreasing_by
  rw [List.length_drop]
  have hpos : 0 < data.length := List.length_pos_iff.2 ‹_›
  omega

@[simp] theorem sendBlocks_nil (masked : Bool) (mask : Mask) (j : Fin 4) :
    sendBlocks (J := J) masked mask j [] = .ret 0 := by
  rw [sendBlocks, if_pos rfl]

theorem sendBlocks_cons (masked : Bool) (mask : Mask) (j : Fin 4) (b : UInt8) (data : Bytes) :
    sendBlocks (J := J) masked mask j (b :: data) =
      .act .socket fun socket =>
        tcpSocketSend 1 socket (if masked then (maskBlock mask j ((b :: data).take 1024)).1
          else (b :: data).take 1024) >>= fun err =>
          if err ≠ 0 then .ret (-1)
          else sendBlocks masked mask
            (if masked then (maskBlock mask j ((b :: data).take 1024)).2 else j)
            ((b :: data).drop 1024) := by
  rw [sendBlocks, if_neg (List.cons_ne_nil b data)]

def messagelinkSendText (isClient : Bool) (data : Bytes) : Program J ℤ := do
  let socket : Option ℕ ← doing .socket
  if socket = none then return -2
  else
    let state : LinkState ← doing .state
    if state ≠ .open then return -2
    else
      let mask ← makeMask isClient
      doing (.lock .sendMutex)
      let socket : Option ℕ ← doing .socket
      let err ← tcpSocketSend 1 socket (frameMakeHeader 1 isClient mask data.length)
      let err ← if err ≠ 0 then .ret (-1) else sendBlocks isClient mask maskStart data
      doing (.unlock .sendMutex)
      return err

/-! ## Closing -/

def messagelinkCloseSocket : Program J Unit := do
  let socket : Option ℕ ← doing .socket
  match socket with
  | none => return ()
  | some fd =>
    doing (.closeTcpSocket fd)
    doing (.setSocket none)
    doing (.setState .closed)

def ownerMessagelinkSendClose (isClient : Bool) (code : ℤ) : Program J ℤ := do
  doing (.setCloseCode code)
  messagelinkSendClose isClient code

/-- What `owner_messagelink_wait_close` returns in this round; `none` goes on. -/
def waitRound : Program J (Option ℤ) := do
  let wait : ℤ ← doing .waitData
  if wait = 1 then
    let message : Message ← doing .readMessage
    if message.err < 0 then return some (-1)
    else if message.frame.opcode = 8 then return some 0
    else return none
  else return none

def ownerMessagelinkWaitClose : ℕ → Program J ℤ
  | 0 => .stop
  | n + 1 => do
    let result ← waitRound
    match result with
    | some err => return err
    | none =>
      let overdue : Bool ← doing .overdue
      if overdue then return -2 else ownerMessagelinkWaitClose n

def ownerMessagelinkClose (isClient : Bool) (n : ℕ) (code : ℤ) : Program J Unit := do
  let state : LinkState ← doing .state
  if state = .closed ∨ state = .closing then return ()
  else
    let err ← ownerMessagelinkSendClose isClient code
    if err ≠ 0 then messagelinkCloseSocket
    else
      let _ ← ownerMessagelinkWaitClose n
      messagelinkCloseSocket

def ownerMessagelinkCloseOneway (isClient : Bool) (code : ℤ) : Program J Unit := do
  doing (.setState .closed)
  let _ ← messagelinkSendClose isClient code
  messagelinkCloseSocket

def remoteMessagelinkCloseCode (input : Bytes) : ℤ :=
  if 2 ≤ input.length then ntohs (ofLe (input.take 2)) else 1005

/-- The answer to a close message that the other side sent first. -/
def replyClose (isClient : Bool) (input : Bytes) : Program J ℤ := do
  doing (.setCloseCode (remoteMessagelinkCloseCode input))
  let code : ℤ ← doing .closeCode
  messagelinkSendClose isClient code

def remoteMessagelinkClose (isClient : Bool) (input : Bytes) : Program J ℤ := do
  let state : LinkState ← doing .state
  let _ ← if state = .open then replyClose isClient input else .ret 0
  doing (.setState .closed)
  messagelinkCloseSocket
  doing .onclose
  return 0

def clientMessagelinkDisconnect (isClient : Bool) (n : ℕ) : Program J ℤ := do
  doing (.lock .stateMutex)
  ownerMessagelinkClose isClient n 1001
  doing (.unlock .stateMutex)
  return 0

/-! ## Connecting -/

def openTcpSocket (addr : Addr) : Program J (Option ℕ) := do
  let s : Option ℕ ← doing .newSocket
  match s with
  | none => return none
  | some s =>
    let ret : ℤ ← doing (.connect s addr)
    if ret < 0 then return none else return some s

def clientMessagelinkOpenSocket (addr : Addr) : Program J ℤ := do
  let opened ← openTcpSocket addr
  doing (.setSocket opened)
  let socket : Option ℕ ← doing .socket
  if socket = none then return -1 else return 0

/-- The rest of `client_messagelink_connect`, once no socket is open. -/
def connectSocket (addr : Addr) : Program J ℤ := do
  let err ← clientMessagelinkOpenSocket addr
  if err ≠ 0 then
    doing (.unlock .stateMutex)
    return -1
  else
    doing (.setState .clientConnecting)
    let upgraded : Bool ← doing .openWebsocket
    if upgraded = false then
      messagelinkCloseSocket
      doing (.unlock .stateMutex)
      return -1
    else
      let clone : Option Addr ← doing (.addrClone addr)
      doing (.setRemoteAddr clone)
      let remoteAddr : Option Addr ← doing .remoteAddr
      if remoteAddr = none then
        messagelinkCloseSocket
        doing (.unlock .stateMutex)
        return -1
      else
        doing (.setState .open)
        doing (.unlock .stateMutex)
        return 0

/-- The thread that reads in the background is not started here. -/
def clientMessagelinkConnect (addr : Addr) : Program J ℤ := do
  doing .setIsClient
  doing (.lock .stateMutex)
  let remoteAddr : Option Addr ← doing .remoteAddr
  let state : LinkState ← doing .state
  if remoteAddr.any (·.addrEq addr) ∧ state = .open then
    doing (.unlock .stateMutex)
    return -2
  else
    let remoteAddr : Option Addr ← doing .remoteAddr
    let state : LinkState ← doing .state
    if remoteAddr.any (·.addrEq addr) ∧ state ≠ .open then messagelinkCloseSocket else .ret ()
    let remoteAddr : Option Addr ← doing .remoteAddr
    if remoteAddr.any (!·.addrEq addr) then messagelinkCloseSocket else .ret ()
    connectSocket addr

/-! ## Reading -/

/-- The error code alone; the frame is not looked at. -/
def noMessage (err : ℤ) : Message := ⟨err, ⟨0, 0, 0, 0⟩, []⟩

def messagelinkTryReadMessage : ℕ → Program J Message
  | 0 => .stop
  | n + 1 => do
    let state : LinkState ← doing .state
    if state ≠ .open then return noMessage (-3)
    else
      let quit : Bool ← doing .appQuit
      if quit then return noMessage (-4)
      else
        let quit : Bool ← doing .threadQuit
        if quit then return noMessage (-4)
        else
          let wait : ℤ ← doing .waitData
          if wait ≠ 0 then doing .readMessage else messagelinkTryReadMessage n

section Read
variable (L : JsonLib J)

/-- The C string in `link->in` as a message; `none` is `json_null`. -/
def parseText (input : Bytes) : Option J :=
  let message := L.jsonParse (input.takeWhile (· ≠ 0))
  if L.jsonIsnull message then none else some message

/-- The `switch` over the opcode; `none` goes around the loop again. -/
def handleMessage (isClient : Bool) (n : ℕ) (message : Message) : Program J (Option (Option J)) :=
  if message.frame.opcode = 1 then .ret (some (parseText L message.input))
  else if message.frame.opcode = 2 then do
    ownerMessagelinkClose isClient n 1003
    return some none
  else if message.frame.opcode = 8 then do
    let _ ← remoteMessagelinkClose isClient message.input
    return some none
  else if message.frame.opcode = 0 then do
    ownerMessagelinkClose isClient n 1003
    return none
  else if message.frame.opcode = 9 then do
    let _ ← messagelinkSendPong isClient message.input
    return none
  else if message.frame.opcode = 10 then do
    doing (.onpong message.input)
    return none
  else .ret none

/-- One round of the loop in `_messagelink_read`, after `messagelink_try_read_message`. -/
def readRound (isClient : Bool) (n : ℕ) (message : Message) : Program J (Option (Option J)) :=
  if message.err = -1 then do
    ownerMessagelinkCloseOneway isClient 1011
    return some none
  else if message.err = -2 then do
    ownerMessagelinkCloseOneway isClient 1009
    return some none
  else if message.err = -3 ∨ message.err = -4 then .ret (some none)
  else if isClient = false ∧ message.input.length > 0 ∧ message.frame.mask = 0 then do
    ownerMessagelinkClose isClient n 1002
    return some none
  else handleMessage L isClient n message

/-- The loop in `_messagelink_read`. -/
def readLoop (isClient : Bool) : ℕ → Program J (Option J)
  | 0 => .stop
  | n + 1 => do
    let state : LinkState ← doing .state
    if state ≠ .open then return none
    else
      let quit : Bool ← doing .appQuit
      if quit then return none
      else
        let message ← messagelinkTryReadMessage n
        let result ← readRound L isClient n message
        match result with
        | some message => return message
        | none => readLoop isClient n

/-- The function `_messagelink_read`. -/
def messagelinkReadOpen (isClient : Bool) (n : ℕ) : Program J (Option J) := do
  let state : LinkState ← doing .state
  if state ≠ .open then return none else readLoop L isClient n

def messagelinkLoop (isClient : Bool) : ℕ → Program J Unit
  | 0 => .stop
  | n + 1 => do
    let quit : Bool ← doing .threadQuit
    if quit then return ()
    else
      let state : LinkState ← doing .state
      if state ≠ .open then return ()
      else
        let quit : Bool ← doing .appQuit
        if quit then return ()
        else
          let message ← messagelinkReadOpen L isClient n
          deliver message
          messagelinkLoop isClient n
where deliver : Option J → Program J Unit
  | none => .ret ()
  | some message => doing (.onmessage message)

/-- `background` says that the link has an `onmessage` handler or a thread. -/
def messagelinkRead (isClient background : Bool) (n : ℕ) : Program J (Option J) :=
  if background then .ret none else messagelinkReadOpen L isClient n

/-! ## Commands -/

/-- The command as text, sent from `link->out` while it stays locked; `none` is a format that
could not be printed. -/
def sendCommand (isClient background : Bool) (n : ℕ) (text : Option Bytes) :
    Program J (Option J) := do
  doing (.lock .out)
  doing .clearOut
  let err ← match text with
    | none => .ret (-1)
    | some text => do
      doing (.appendOut text)
      let out : Bytes ← doing .out
      messagelinkSendText isClient out
  let reply ← if err = 0 then messagelinkRead L isClient background n else .ret none
  doing (.unlock .out)
  return reply

def messagelinkSendCommand (isClient background : Bool) (n : ℕ) (command : J) :
    Program J (Option J) :=
  sendCommand L isClient background n (some (L.jsonSerialise command))

def messagelinkSendCommandF (isClient background : Bool) (n : ℕ) (text : Option Bytes) :
    Program J (Option J) :=
  sendCommand L isClient background n text

end Read

end Rcom.Messagelink
