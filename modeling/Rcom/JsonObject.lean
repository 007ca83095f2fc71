import Rcom.Lib.Json
import Rcom.Libc

/-!
# json_object_t

The JSON objects come from libr, which is not part of the repository. The model takes
them as a parameter: the functions rcom calls, over any type of objects. `Lawful` is
what the library promises, with `denote` the object that stands for a JSON value; what
the objects do where the promise is silent (a missing field, a repeated key, a text
that is not JSON) stays open.
-/

namespace Rcom
open Rcom.Lib Rcom.Lib.Json

structure JsonLib (J : Type) where
  jsonParse : Bytes → J
  jsonSerialise : J → Bytes
  jsonIsnull : J → Bool
  jsonIsarray : J → Bool
  jsonTrue : J
  jsonArrayCreate : J
  jsonArrayPush : J → J → J
  jsonArrayLength : J → ℕ
  jsonArrayGet : J → ℕ → J
  jsonObjectCreate : J
  jsonObjectSet : J → CStr → J → J
  jsonObjectSetstr : J → CStr → CStr → J
  jsonObjectGet : J → CStr → J
  jsonObjectGetstr : J → CStr → Option CStr
  jsonObjectGetbool : J → CStr → Bool

namespace JsonLib

structure Lawful {J : Type} (L : JsonLib J) (denote : Value → J) : Prop where
  parse {t : Bytes} {v : Value} : decode t = some v → L.jsonParse t = denote v
  serialise {v : Value} : Printable v → decode (L.jsonSerialise (denote v)) = some v
  isnull_obj (ms : List (Bytes × Value)) : L.jsonIsnull (denote (.obj ms)) = false
  isnull_arr (vs : List Value) : L.jsonIsnull (denote (.arr vs)) = false
  isarray (vs : List Value) : L.jsonIsarray (denote (.arr vs)) = true
  true_eq : L.jsonTrue = denote (.bool true)
  arrayCreate : L.jsonArrayCreate = denote (.arr [])
  arrayPush (vs : List Value) (v : Value) :
    L.jsonArrayPush (denote (.arr vs)) (denote v) = denote (.arr (vs ++ [v]))
  arrayLength (vs : List Value) : L.jsonArrayLength (denote (.arr vs)) = vs.length
  arrayGet {vs : List Value} {i : ℕ} {v : Value} :
    vs[i]? = some v → L.jsonArrayGet (denote (.arr vs)) i = denote v
  objectCreate : L.jsonObjectCreate = denote (.obj [])
  objectSet {ms : List (Bytes × Value)} {k : CStr} (v : Value) : k ∉ ms.map Prod.fst →
    L.jsonObjectSet (denote (.obj ms)) k (denote v) = denote (.obj (ms ++ [(k, v)]))
  objectSetstr {ms : List (Bytes × Value)} {k : CStr} (s : CStr) : k ∉ ms.map Prod.fst →
    L.jsonObjectSetstr (denote (.obj ms)) k s = denote (.obj (ms ++ [(k, .str s)]))
  objectGet {ms : List (Bytes × Value)} {k : CStr} {v : Value} : (ms.map Prod.fst).Nodup →
    ms.lookup k = some v → L.jsonObjectGet (denote (.obj ms)) k = denote v
  objectGetstr {ms : List (Bytes × Value)} {k s : CStr} : (ms.map Prod.fst).Nodup →
    ms.lookup k = some (.str s) → L.jsonObjectGetstr (denote (.obj ms)) k = some s
  objectGetstr_none {ms : List (Bytes × Value)} {k : CStr} : k ∉ ms.map Prod.fst →
    L.jsonObjectGetstr (denote (.obj ms)) k = none
  objectGetbool {ms : List (Bytes × Value)} {k : CStr} {b : Bool} : (ms.map Prod.fst).Nodup →
    ms.lookup k = some (.bool b) → L.jsonObjectGetbool (denote (.obj ms)) k = b

end JsonLib

def valueLib : JsonLib Value where
  jsonParse t := (decode t).getD .null
  jsonSerialise := print
  jsonIsnull v := match v with | .null => true | _ => false
  jsonIsarray v := match v with | .arr _ => true | _ => false
  jsonTrue := .bool true
  jsonArrayCreate := .arr []
  jsonArrayPush a v := match a with | .arr vs => .arr (vs ++ [v]) | _ => a
  jsonArrayLength a := match a with | .arr vs => vs.length | _ => 0
  jsonArrayGet a i := match a with | .arr vs => vs[i]?.getD .null | _ => .null
  jsonObjectCreate := .obj []
  jsonObjectSet o k v := match o with | .obj ms => .obj (ms ++ [(k, v)]) | _ => o
  jsonObjectSetstr o k s := match o with | .obj ms => .obj (ms ++ [(k, .str s)]) | _ => o
  jsonObjectGet o k := match o with | .obj ms => (ms.lookup k).getD .null | _ => .null
  jsonObjectGetstr o k :=
    match o with
    | .obj ms => match ms.lookup k with | some (.str s) => some s | _ => none
    | _ => none
  jsonObjectGetbool o k :=
    match o with
    | .obj ms => match ms.lookup k with | some (.bool b) => b | _ => false
    | _ => false

theorem valueLib_lawful : valueLib.Lawful id where
  parse h := by simp [valueLib, h]
  serialise h := decode_print h
  isnull_obj _ := rfl
  isnull_arr _ := rfl
  isarray _ := rfl
  true_eq := rfl
  arrayCreate := rfl
  arrayPush _ _ := rfl
  arrayLength _ := rfl
  arrayGet h := by simp [valueLib, h]
  objectCreate := rfl
  objectSet _ _ := rfl
  objectSetstr _ _ := rfl
  objectGet _ h := by simp [valueLib, h]
  objectGetstr _ h := by simp [valueLib, h]
  objectGetstr_none {ms k} h := by
    have : ms.lookup k = none := List.lookup_eq_none_iff.2 fun p hp => by
      simpa using fun hk : k = p.1 => h (hk ▸ List.mem_map_of_mem hp)
    simp [valueLib, this]
  objectGetbool _ h := by simp [valueLib, h]

end Rcom
