import Rcom.RegistryRuns

/-!
# Responses of the central registry

A request should get one response, and the response should say whether the request took
effect (docs/protocol.md). The exact condition under which it does is a condition on the
request and on the ids the registry holds.
-/

namespace Rcom.RcRegistry
open Rcom.Lib Rcom.Lib.Json Rcom.Lib.Trace Rcom.Addr Rcom.RegistryEntry Rcom.Registry
variable {J : Type} (L : JsonLib J)

def Broadcasts (outs : List (Output J)) : Prop := ∃ link text, .broadcast link text ∈ outs

variable {L}

end Rcom.RcRegistry
