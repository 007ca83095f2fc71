import Mathlib.Data.List.Basic
import Mathlib.Data.Nat.Notation

/-! Byte strings. `ascii` writes the literals of a C program; it is meant for ASCII text only. -/

namespace Rcom.Lib

abbrev Bytes := List UInt8

def ascii (s : String) : Bytes := s.toList.map fun c => c.val.toUInt8

end Rcom.Lib
