import Rcom.Lib.Bytes
import Rcom.Lib.Decimal

/-! Parts of a multipart stream as `streamer_send_multipart` writes them (streamer.c). -/

namespace Rcom
open Lib Lib.Decimal

/-- What C does with a `double` here: `%f`, `strtod` and the comparison with zero. -/
structure DoubleText (T : Type) where
  print : T → Bytes
  strtod : Bytes → T
  isZero : T → Bool

structure Part (T : Type) where
  data : Bytes
  mimetype : Bytes
  time : T

variable {T : Type} (dt : DoubleText T) (p : Part T)

def Part.header : Bytes :=
  ascii "--nextimage\r\n" ++
  ascii "Content-Type: " ++ p.mimetype ++ ascii "\r\n" ++
  ascii "Content-Length: " ++ decimal p.data.length ++ ascii "\r\n" ++
  ascii "X-LT-Timestamp: " ++ dt.print p.time ++ ascii "\r\n" ++
  ascii "\r\n"

def Part.encoding : Bytes := p.header dt ++ p.data

/-- The length of `char header[512]`. -/
def headerSize : ℕ := 512

def Part.Fits : Prop := (p.header dt).length < headerSize

end Rcom
