import Rcom.Lib.Decimal
import Rcom.Lib.Scopes
import Rcom.Libc

/-!
# The code generator (rcgen.cpp)

`generate_code` prints a C program for a definition in four passes over its `com` array. Each piece of
the text goes with the token that it is; what comes from the definition is taken for the names and
expressions that it stands for. An error leaves nothing behind.
-/

namespace Rcom.Rcgen
open Rcom.Lib Rcom.Lib.Decimal Rcom.Lib.Scopes

/-- The functions of libr that rcgen uses. `none` is a number that is not one; a number is cut to an
integer. -/
structure CodeLib (J : Type) where
  jsonIsobject : J → Bool
  jsonIsnull : J → Bool
  jsonIsarray : J → Bool
  jsonArrayLength : J → ℕ
  jsonArrayGet : J → ℕ → J
  jsonObjectHas : J → CStr → Bool
  jsonObjectGet : J → CStr → J
  jsonObjectGetstr : J → CStr → Option CStr
  jsonObjectGetnum : J → CStr → Option ℤ
  jsonObjectGetbool : J → CStr → ℤ

structure Piece where
  token : Token CStr
  text : Bytes

/-- `printf` with texts for all conversions. -/
def format : Bytes → List CStr → Bytes
  | 37 :: 37 :: f, args => 37 :: format f args
  | 37 :: _ :: f, a :: args => a ++ format f args
  | c :: f, args => c :: format f args
  | [], _ => []

def piece (token : Token CStr) (f : String) (args : List CStr) : Piece := ⟨token, format (ascii f) args⟩

def decimalInt (n : ℤ) : CStr := if n < 0 then 45 :: decimal n.natAbs else decimal n.natAbs

def onconnectName (topic : CStr) : CStr := ascii "messagehub_" ++ topic ++ ascii "_onconnect"

def onmessageName (topic : CStr) : CStr := ascii "messagehub_" ++ topic ++ ascii "_onmessage"

def orNull (s : Option CStr) : CStr := s.getD (ascii "NULL")

/-- What `printf` makes of a NULL. -/
def printed (s : Option CStr) : CStr := s.getD (ascii "(null)")

abbrev Printing := Except ℤ (List Piece)

/-- A loop that stops at the first error. -/
def printEach {J : Type} (print : J → Printing) : List J → Printing
  | [] => .ok []
  | obj :: l => do
    let front ← print obj
    let back ← printEach print l
    return front ++ back

def printHeaders (name : CStr) (header : Option CStr) : List Piece :=
  [piece .other "#include <string.h>\n" [], piece .other "#include <rcom.h>\n" [],
    match header with
    | some header => piece .other "#include \"%s\"\n" [header]
    | none => piece .other "#include \"%s.h\"\n" [name],
    piece .other "\n" []]

def printMain : List Piece :=
  [piece (.define (ascii "main")) "int main(int argc, char** argv)\n\x7b\n" [],
    piece (.var (ascii "err")) "        int err = 0;\n\n" [],
    piece .other "        app_init(&argc, argv);\n\n        err = init(argc, argv);\n" [],
    piece .ifBranch "        if (err != 0) \x7b\n                r_err(\"init() failed\");\n                app_set_quit();\n        \x7d\n\n" [],
    piece .other "        while (!app_quit())\n                idle();\n\n        cleanup();\n\n        return err? 1 : 0;\n" [],
    piece .close "\x7d\n\n" []]

section Com
variable {J : Type} (L : CodeLib J) (name : CStr)

def items (array : J) : List J :=
  (List.range (L.jsonArrayLength array)).map (L.jsonArrayGet array)

def str (obj : J) (key : String) : Option CStr := L.jsonObjectGetstr obj (ascii key)

def typeOf (obj : J) : CStr := printed (str L obj "type")

def topicOf (obj : J) : CStr := printed (str L obj "topic")

/-! ## Checking -/

def comTypes : List CStr :=
  ["datahub", "datalink", "messagehub", "messagelink", "controller", "service", "streamer",
    "streamerlink"].map ascii

def checkComI (obj : J) : Bool :=
  if !L.jsonIsobject obj then false
  else if str L obj "type" = none then false
  else if str L obj "topic" = none then false
  else typeOf L obj ∈ comTypes

def checkCom (com : J) : Bool := (items L com).all (checkComI L)

/-! ## Declarations -/

def onconnectHead : String :=
  "static int messagehub_%s_onconnect(\n        void *userdata,\n        messagehub_t *hub,\n        request_t *request,\n        messagelink_t *link)"

def printComDeclI (obj : J) : List Piece :=
  let type := typeOf L obj
  let topic := topicOf L obj
  (if type = ascii "controller" then
    [piece .other "static messagehub_t *messagehub_%s = NULL;\n\n" [topic],
      piece (.define (ascii "get_messagehub_" ++ topic)) "messagehub_t *get_messagehub_%s()\n\x7b\n" [topic],
      piece .other "        return messagehub_%s;\n" [topic],
      piece .close "\x7d\n\n" []]
  else
    [piece .other "static %s_t *%s_%s = NULL;\n\n" [type, type, topic],
      piece (.define (ascii "get_" ++ type ++ ascii "_" ++ topic)) "%s_t *get_%s_%s() \x7b\n"
        [type, type, topic],
      piece .other "        return %s_%s;\n" [type, topic],
      piece .close "\x7d\n\n" []]) ++
  if type = ascii "controller" then
    [piece (.declare (onconnectName topic)) (onconnectHead ++ ";\n") [topic],
      piece (.declare (onmessageName topic)) "static void messagehub_%s_onmessage(void *userdata,\n        messagelink_t *link,\n        json_object_t message);\n\n" [topic]]
  else if type = ascii "messagehub" then
    match str L obj "onmessage" with
    | some _ => [piece (.declare (onconnectName topic)) (onconnectHead ++ ";\n") [topic]]
    | none => []
  else []

def printComDecl (com : J) : List Piece :=
  (items L com).flatMap (printComDeclI L) ++ [piece .other "\n" []]

/-! ## Initialisation -/

def portOf (obj : J) : Except ℤ ℤ :=
  if L.jsonObjectHas obj (ascii "port") then
    match L.jsonObjectGetnum obj (ascii "port") with
    | none => .error (-1)
    | some port => .ok port
  else .ok 0

/-- The end of each `print_new_...`. -/
def checkCreated (type what topic : CStr) (rest : String) : Piece :=
  piece .ifBranch ("        if (%s_%s == NULL) \x7b\n                r_err(\"Failed to create the %s\");\n                return -1;\n        \x7d;\n" ++ rest) [type, topic, what]

def printNewDatahub (topic : CStr) (obj : J) : Printing :=
  .ok [piece .other "        datahub_%s = registry_open_datahub(\"%s\", \"%s\",\n                (datahub_onbroadcast_t) %s,\n                (datahub_ondata_t) %s,\n                %s);\n"
      [topic, name, topic, orNull (str L obj "onbroadcast"), orNull (str L obj "ondata"),
        orNull (str L obj "userdata")],
    checkCreated (ascii "datahub") (ascii "datahub") topic ""]

def printNewDatalink (topic : CStr) (obj : J) : Printing :=
  .ok [piece .other "        datalink_%s = registry_open_datalink(\"%s\", \"%s\",\n                (datalink_ondata_t) %s, %s);\n"
      [topic, name, topic, orNull (str L obj "ondata"), orNull (str L obj "userdata")],
    checkCreated (ascii "datalink") (ascii "datalink") topic ""]

def openMessagehub : String :=
  "        messagehub_%s = registry_open_messagehub(\n                \"%s\",\n                \"%s\",\n"

def printNewMessagehub (topic : CStr) (obj : J) : Printing := do
  let onconnect := str L obj "onconnect"
  let onmessage := str L obj "onmessage"
  let userdata := orNull (str L obj "userdata")
  let port ← portOf L obj
  if onconnect ≠ none ∧ onmessage ≠ none then .error (-1)
  else
    .ok ((match onconnect, onmessage with
      | some onconnect, _ =>
        [piece .other (openMessagehub ++ "                %d, (messagehub_onconnect_t) %s,\n                %s);\n")
          [topic, name, topic, decimalInt port, onconnect, userdata]]
      | none, some _ =>
        [piece (.refer (onconnectName topic))
          (openMessagehub ++ "                %d, (messagehub_onconnect_t) messagehub_%s_onconnect,\n                %s);\n")
          [topic, name, topic, decimalInt port, topic, userdata]]
      | none, none =>
        [piece .other (openMessagehub ++ "                %d, (messagehub_onconnect_t) NULL,\n                %s);\n")
          [topic, name, topic, decimalInt port, userdata]]) ++
      checkCreated (ascii "messagehub") (ascii "messagehub") topic "" ::
      match str L obj "onrequest" with
      | some onrequest =>
        [piece .other "        messagehub_set_onrequest(messagehub_%s,                                  (messagehub_onrequest_t) %s);\n"
          [topic, onrequest]]
      | none => [])

def printNewMessagelink (topic : CStr) (obj : J) : Printing :=
  .ok [piece .other "        messagelink_%s = registry_open_messagelink(\"%s\", \"%s\",\n                (messagelink_onmessage_t) %s, %s);\n"
      [topic, name, topic, orNull (str L obj "onmessage"), orNull (str L obj "userdata")],
    checkCreated (ascii "messagelink") (ascii "messagelink") topic ""]

def printNewController (topic : CStr) (obj : J) : Printing := do
  let port ← portOf L obj
  .ok [piece (.refer (onconnectName topic)) (openMessagehub ++ "                %d, messagehub_%s_onconnect, %s);\n")
      [topic, name, topic, decimalInt port, topic, orNull (str L obj "userdata")],
    checkCreated (ascii "messagehub") (ascii "messagehub") topic "\n"]

def printResource (topic userdata : CStr) (d : J) : Printing :=
  if !L.jsonIsobject d then .error (-1)
  else
    match str L d "name", str L d "mimetype_out" with
    | some n, some mout =>
      .ok [piece .other "        err = service_export(service_%s,\n               \"%s\",\n" [topic, n],
        match str L d "mimetype_in" with
        | none => piece .other "               NULL,\n" []
        | some min => piece .other "               \"%s\",\n" [min],
        piece .other "               \"%s\",\n" [mout],
        piece .other "               %s,\n               %s);\n" [userdata, printed (str L d "onrequest")],
        piece .ifBranch "        if (err) return -1;\n" []]
    | _, _ => .error (-1)

def printNewService (topic : CStr) (obj : J) : Printing := do
  let port ← portOf L obj
  let resources := L.jsonObjectGet obj (ascii "resources")
  if L.jsonIsnull resources then .error (-1)
  else if !L.jsonIsarray resources then .error (-1)
  else do
    let exports ← printEach (printResource L topic (orNull (str L obj "userdata"))) (items L resources)
    .ok ([piece (.var (ascii "err")) "        int err;\n" [],
      piece .other "        service_%s = registry_open_service(\"%s\",\n                \"%s\",\n                %d);\n"
        [topic, name, topic, decimalInt port],
      checkCreated (ascii "service") (ascii "service") topic ""] ++ exports)

def printNewStreamer (topic : CStr) (obj : J) : Printing := do
  let port ← portOf L obj
  match str L obj "mimetype" with
  | none => .error (-1)
  | some mimetype =>
    .ok [piece .other "        streamer_%s = registry_open_streamer(\"%s\",\n                \"%s\",\n                %d,\n                \"%s\",\n                (streamer_onclient_t) %s,\n                (streamer_onbroadcast_t) %s,\n                %s);\n"
        [topic, name, topic, decimalInt port, mimetype, orNull (str L obj "onclient"),
          orNull (str L obj "onbroadcast"), orNull (str L obj "userdata")],
      checkCreated (ascii "streamer") (ascii "streamer") topic ""]

def printNewStreamerlink (topic : CStr) (obj : J) : Printing :=
  match str L obj "ondata" with
  | none => .error (-1)
  | some ondata =>
    let autoconnect := L.jsonObjectGetbool obj (ascii "autoconnect")
    .ok [piece .other "        streamerlink_%s = registry_open_streamerlink(\n                \"%s\",\n                \"%s\",\n                (streamerlink_ondata_t) %s,\n                (streamerlink_onresponse_t) %s,\n                %s, %d);\n"
        [topic, name, topic, ondata, orNull (str L obj "onresponse"), orNull (str L obj "userdata"),
          decimalInt (if autoconnect = -1 then 1 else autoconnect)],
      checkCreated (ascii "streamerlink") (ascii "streamerlink") topic ""]

def printComInitI (obj : J) : Printing :=
  let type := typeOf L obj
  let topic := topicOf L obj
  if type = ascii "datahub" then printNewDatahub L name topic obj
  else if type = ascii "datalink" then printNewDatalink L name topic obj
  else if type = ascii "messagehub" then printNewMessagehub L name topic obj
  else if type = ascii "messagelink" then printNewMessagelink L name topic obj
  else if type = ascii "controller" then printNewController L name topic obj
  else if type = ascii "service" then printNewService L name topic obj
  else if type = ascii "streamer" then printNewStreamer L name topic obj
  else if type = ascii "streamerlink" then printNewStreamerlink L name topic obj
  else .error (-1)

def printComInit (com : J) : Printing := do
  let body ← printEach (printComInitI L name) (items L com)
  .ok (piece (.define (ascii "init_com")) "static int init_com()\n\x7b\n" [] :: body ++
    [piece .other "        return 0;\n" [], piece .close "\x7d\n\n" []])

/-! ## Handlers -/

def onconnectBody (onmessage : Piece) (topic : CStr) : List Piece :=
  [piece (.define (onconnectName topic)) (onconnectHead ++ "\n\x7b\n") [topic],
    piece .other "        messagelink_set_userdata(link, userdata);\n" [],
    onmessage,
    piece .other "        return 0;\n" [],
    piece .close "\x7d\n\n" []]

/-- The loop over the commands; the first one begins with `if`. -/
def commandBranches : Bool → List J → Printing
  | _, [] => .ok []
  | first, d :: l =>
    if !L.jsonIsobject d then .error (-1)
    else
      match str L d "name" with
      | none => .error (-1)
      | some n => do
        let rest ← commandBranches false l
        .ok ((if first then
            piece .ifBranch "        if (strcmp(cmd, \"%s\") == 0)\n               status = %s(userdata, link, message, buffer);\n"
              [n, printed (str L d "oncommand")]
          else
            piece .elseIf "        else if (strcmp(cmd, \"%s\") == 0)\n               status = %s(userdata, link, message, buffer);\n"
              [n, printed (str L d "oncommand")]) :: rest)

/-- Missing commands are reported, but are no error. -/
def printComControllerHandlers (obj : J) : Printing :=
  let topic := topicOf L obj
  let commands := L.jsonObjectGet obj (ascii "commands")
  if L.jsonIsnull commands then .ok []
  else if !L.jsonIsarray commands then .error (-1)
  else do
    let branches ← commandBranches L true (items L commands)
    .ok ([piece (.define (onmessageName topic)) "static void messagehub_%s_onmessage(void *userdata,\n        messagelink_t *link,\n        json_object_t message)\n\x7b\n" [topic],
      piece (.var (ascii "buffer")) "        static membuf_t *buffer = NULL;\n" [],
      piece (.var (ascii "cmd")) "        const char *cmd = json_object_getstr(message, \"command\");\n" [],
      piece (.var (ascii "status")) "        int status = 0;\n" [],
      piece .ifBranch "        if (buffer == NULL) buffer = new_membuf();\n" [],
      piece .elseBranch "        else membuf_clear(buffer);\n" [],
      piece .ifBranch "        if (cmd == NULL) \x7b\n                r_warn(\"Message doesn't contain a command\");\n                messagelink_send_f(link, \"\x7b\\\"status\\\":\\\"error\\\", \\\"message\\\": \\\"no command given\\\"\x7d\");\n                return;\n        \x7d\n" []] ++
      branches ++
      [piece .elseBranch "        else \x7b\n                r_warn(\"Unknown command: %%s\", cmd);\n                messagelink_send_f(link, \"\x7b\\\"status\\\":\\\"error\\\", \\\"message\\\": \\\"unknown command: %%s\\\"\x7d\", cmd);\n                return;\n        \x7d\n" [],
        piece .ifBranch "        if (status == 0) \n                messagelink_send_f(link, \"\x7b\\\"status\\\":\\\"ok\\\"\x7d\");\n" [],
        piece .elseBranch "        else \x7b\n                membuf_append_zero(buffer);\n                messagelink_send_f(link, \"\x7b\\\"status\\\":\\\"error\\\", \\\"message\\\": \\\"%%s\\\"\x7d\", membuf_data(buffer));\n        \x7d\n" [],
        piece .close "\x7d\n\n" []] ++
      onconnectBody (piece (.refer (onmessageName topic))
        "        messagelink_set_onmessage(link, messagehub_%s_onmessage);\n" [topic]) topic)

def printComMessagehubHandlers (obj : J) : List Piece :=
  match str L obj "onmessage" with
  | none => []
  | some onmessage =>
    onconnectBody (piece .other "        messagelink_set_onmessage(link, (messagelink_onmessage_t) %s);\n"
      [onmessage]) (topicOf L obj)

def printComHandlersI (obj : J) : Printing :=
  if typeOf L obj = ascii "controller" then printComControllerHandlers L obj
  else if typeOf L obj = ascii "messagehub" then .ok (printComMessagehubHandlers L obj)
  else .ok []

def printComHandlers (com : J) : Printing := printEach (printComHandlersI L) (items L com)

/-! ## Cleaning up -/

def printComCleanupI (obj : J) : Piece :=
  let type := typeOf L obj
  let topic := topicOf L obj
  if type = ascii "controller" then
    piece .ifBranch "        if (messagehub_%s) \x7b\n                registry_close_messagehub(messagehub_%s);\n                messagehub_%s = NULL;\n        \x7d\n"
      [topic, topic, topic]
  else
    piece .ifBranch "        if (%s_%s) \x7b\n                registry_close_%s(%s_%s);\n                %s_%s = NULL;\n        \x7d\n"
      [type, topic, type, type, topic, type, topic]

def printComCleanup (com : J) : List Piece :=
  piece (.define (ascii "cleanup_com")) "static void cleanup_com()\n\x7b\n" [] ::
    (items L com).map (printComCleanupI L) ++ [piece .close "\x7d\n\n" []]

def printCom (com : J) : Printing :=
  match printComInit L name com, printComHandlers L com with
  | .ok init, .ok handlers => .ok (printComDecl L com ++ init ++ handlers ++ printComCleanup L com)
  | _, _ => .error (-1)

end Com

/-! ## The program -/

/-- `init` and `cleanup` of the definition: nothing given, given as null, or a name. -/
inductive Func where
  | default
  | null
  | given (f : CStr)

def printInit (name : CStr) (initFunc : Func) : List Piece :=
  [piece (.define (ascii "init")) "static int init(int argc, char **argv)\n\x7b\n" [],
    piece (.var (ascii "err")) "        int err = 0;\n        \n" []] ++
  (match initFunc with
    | .default => [piece .other "        err = %s_init(argc, argv);\n" [name],
        piece .ifBranch "        if (err != 0)\n                return err;\n\n" []]
    | .null => []
    | .given f => [piece .other "        err = %s(argc, argv);\n" [f],
        piece .ifBranch "        if (err != 0)\n                return err;\n\n" []]) ++
  [piece .other "        err = init_com();\n" [],
    piece .ifBranch "        if (err != 0)\n                return err;\n\n" [],
    piece .other "        return 0;\n" [],
    piece .close "\x7d\n\n" []]

def printCleanup (name : CStr) (cleanupFunc : Func) : List Piece :=
  [piece (.define (ascii "cleanup")) "static void cleanup()\n\x7b\n" [],
    match cleanupFunc with
    | .default => piece .other "        %s_cleanup();\n" [name]
    | .null => piece .other "" []
    | .given f => piece .other "        %s();\n" [f],
    piece .other "        cleanup_com();\n" [],
    piece .close "\x7d\n\n" []]

def printIdle (idleFunc : Option CStr) : List Piece :=
  [piece (.define (ascii "idle")) "static void idle()\n\x7b\n" [],
    match idleFunc with
    | some f => piece .other "        %s();\n" [f]
    | none => piece .other "        clock_sleep(1.0);\n" [],
    piece .close "\x7d\n\n" []]

section Generate
variable {J : Type} (L : CodeLib J)

/-- A name `null` counts as null, and what is no string as not given. -/
def funcOf (definition : J) (key : String) : Func :=
  if !L.jsonObjectHas definition (ascii key) then .default
  else if L.jsonIsnull (L.jsonObjectGet definition (ascii key)) then .null
  else
    match str L definition key with
    | none => .default
    | some f => if f = ascii "null" then .null else .given f

/-- What `generate_code` returns, or the file that it writes with its text. `loaded` is what `json_load`
makes of the input file, and `opens` says which files `fopen` opens. -/
def generateCode (loaded : Option J) (outputfile : Option CStr) (opens : CStr → Bool) :
    Except ℤ (CStr × List Piece) :=
  match loaded with
  | none => .error 1
  | some definition =>
    match outputfile.or (str L definition "output") with
    | none => .error 1
    | some codeOutput =>
      match str L definition "name" with
      | none => .error 1
      | some name =>
        let com := L.jsonObjectGet definition (ascii "com")
        if L.jsonIsnull com then .error 1
        else if !L.jsonIsarray com then .error 1
        else if L.jsonArrayLength com = 0 then .error 1
        else if !checkCom L com then .error (-1)
        else
          match printCom L name com with
          | .error e => .error e
          | .ok body =>
            if !opens codeOutput then .error (-1)
            else .ok (codeOutput, printHeaders name (str L definition "header") ++ body ++
              printInit name (funcOf L definition "init") ++
              printCleanup name (funcOf L definition "cleanup") ++
              printIdle (str L definition "idle") ++ printMain)

end Generate

end Rcom.Rcgen
