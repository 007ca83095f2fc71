import Rcom.Libc
import Rcom.Multipart

/-!
# The multipart parser (multipart_parser.c)

Where the C code has a buffer and an offset into it, the bytes from the offset on are
passed on. The two windows `_eol` and `_eoh` are static in C; `_eoh` is shared by all
parsers and may hold anything at first.
-/

namespace Rcom.MultipartParser
open Lib Lib.Decimal

variable {T : Type} (dt : DoubleText T)

inductive Status where
  | readHeader
  | headerComplete
  | readBody
  | bodyComplete
  | error
deriving DecidableEq, Repr

structure Fields (T : Type) where
  mimetype : Bytes
  timestamp : T
  length : ℤ

/-- A call of `onheaders` or `onpart`. -/
inductive Callback (T : Type) where
  | onheaders (len : ℤ) (mimetype : Bytes) (timestamp : T) (offset : UInt32)
  | onpart (data : Bytes) (mimetype : Bytes) (timestamp : T)

/-- What the callbacks return, by all calls up to the present one; `none` is a NULL pointer. -/
structure Callbacks (T : Type) where
  onheaders : Option (List (Callback T) → ℤ)
  onpart : Option (List (Callback T) → ℤ)

abbrev Window := UInt8 × UInt8 × UInt8 × UInt8

def Window.push (w : Window) (c : UInt8) : Window := (w.2.1, w.2.2.1, w.2.2.2, c)

def endOfHeader : Window := (13, 10, 13, 10)

/-- `calls` is history. -/
structure Parser (T : Type) where
  status : Status
  body : Bytes
  header : Bytes
  fields : Fields T
  filepos : UInt32
  eoh : Window
  calls : List (Callback T)

def newMultipartParser (zero : T) (eoh : Window) : Parser T where
  status := .readHeader
  body := []
  header := []
  fields := ⟨[], zero, 0⟩
  filepos := 0
  eoh := eoh
  calls := []

/-! ## The header -/

/-- The conversion of a `long` to an `int`. -/
def toInt (x : ℤ) : ℤ := (x + 2147483648) % 4294967296 - 2147483648

/-- One line of the header, from `s + start` to before its CR; `none` is the return of -1. -/
def parseLine (f : Fields T) (line : Bytes) : Option (Fields T) :=
  let s := line.takeWhile (· ≠ 0)
  if s = ascii "--nextimage" then some f
  else if (ascii "Content-Type: ").isPrefixOf s then
    -- `n = end - start - 14`, where `end` is the LF
    let n : ℤ := (line.length + 1 : ℤ) - 14
    if n < 128 then some { f with mimetype := s.drop 14 } else none
  else if (ascii "Content-Length: ").isPrefixOf s then
    let length := toInt ((Libc.strtol (s.drop 16)).elim 0 Prod.fst)
    if length = 0 then none else some { f with length }
  else if (ascii "X-LT-Timestamp: ").isPrefixOf s then
    let timestamp := dt.strtod (s.drop 16)
    if dt.isZero timestamp then none else some { f with timestamp }
  else some f

mutual

/-- The lines that the scanner finds. `line` is what it has of the present one and `last` is
`_eol[1]`. -/
def scanLines (line : Bytes) (last : UInt8) : Bytes → List Bytes
  | [] => []
  | c :: s => if last = 13 ∧ c = 10 then line.dropLast :: skipFirst s else scanLines (line ++ [c]) c s

/-- The first character of the next line does not go through `_eol`. -/
def skipFirst : Bytes → List Bytes
  | [] => []
  | c :: s => scanLines [c] 10 s

end

/-- What a rejected header leaves in the parser is not read any more. -/
def parseHeader (header : Bytes) (f : Fields T) : Option (Fields T) :=
  if (ascii "--nextimage").isPrefixOf header then
    (scanLines [] 0 header).foldlM (parseLine dt) f
  else none

namespace Parser

def append (m : Parser T) (c : UInt8) : Parser T :=
  { m with filepos := m.filepos + 1, header := m.header ++ [c], eoh := m.eoh.push c }

def finishHeader (m : Parser T) : Parser T :=
  match parseHeader dt m.header m.fields with
  | none => { m with status := .error }
  | some fields => { m with status := .headerComplete, eoh := (0, 0, 0, 0), header := [], fields }

/-- `multipart_parser_append_header`, with what is left of the buffer. -/
def appendHeader (m : Parser T) : Bytes → Parser T × Bytes
  | [] => (m, [])
  | c :: buf =>
    if (m.append c).eoh = endOfHeader then ((m.append c).finishHeader dt, buf)
    else (m.append c).appendHeader buf

/-- `multipart_parser_append_part`. A negative count given to `membuf_append` is undefined. -/
def appendPart (m : Parser T) (buf : Bytes) : Exec (Parser T × Bytes) :=
  let needed := m.fields.length - m.body.length
  if buf.length < needed then
    some ({ m with body := m.body ++ buf, filepos := m.filepos + .ofNat buf.length }, [])
  else if needed < 0 then none
  else
    some ({ m with
      body := m.body ++ buf.take needed.toNat
      status := .bodyComplete
      filepos := m.filepos + .ofNat needed.toNat }, buf.drop needed.toNat)

end Parser

/-! ## The loop -/

/-- `multipart_parser_process` on its way: `buf` is what is left of the buffer. -/
structure Processing (T : Type) where
  parser : Parser T
  err : ℤ
  buf : Bytes

def call (callback : Option (List (Callback T) → ℤ)) (c : Callback T) (s : Processing T) :
    Processing T :=
  match callback with
  | none => s
  | some f =>
    let calls := s.parser.calls ++ [c]
    { s with err := f calls, parser := { s.parser with calls } }

def Processing.step (cb : Callbacks T) (s : Processing T) : Exec (Processing T) :=
  let m := s.parser
  match m.status with
  | .readHeader =>
    let (m, buf) := m.appendHeader dt s.buf
    some { s with parser := m, buf }
  | .headerComplete =>
    let s := call cb.onheaders
      (.onheaders m.fields.length m.fields.mimetype m.fields.timestamp m.filepos) s
    some { s with parser := { s.parser with status := .readBody, header := [] } }
  | .readBody => do
    let (m, buf) ← m.appendPart s.buf
    some { s with parser := m, buf }
  | .bodyComplete =>
    let s := call cb.onpart (.onpart m.body m.fields.mimetype m.fields.timestamp) s
    some { s with parser := { s.parser with status := .readHeader, body := [] } }
  | .error => some { s with err := -1 }

inductive Outcome (T : Type) where
  | returned (err : ℤ) (m : Parser T)
  | undefined
  | running

/-- The loop, cut after a number of rounds. -/
def processLoop (cb : Callbacks T) (rounds : ℕ) (s : Processing T) : Outcome T :=
  if s.buf = [] then .returned s.err s.parser
  else
    match rounds with
    | 0 => .running
    | rounds + 1 =>
      match s.step dt cb with
      | none => .undefined
      | some s => processLoop cb rounds s

def Process (cb : Callbacks T) (m : Parser T) (buf : Bytes) (err : ℤ) (m' : Parser T) : Prop :=
  ∃ rounds, processLoop dt cb rounds ⟨m, 0, buf⟩ = .returned err m'

end Rcom.MultipartParser
