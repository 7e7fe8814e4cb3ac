import C3Api.Json.Tree

/-!
# The content model

Which shapes of a source's content a direction writes. The tables are data; a role that
a row does not name has no row at all.
-/

namespace C3Api.Protoconv

open JsonText JsonText.Tree

inductive Role where
  | invalid
  | system
  | developer
  | user
  | assistant
  | tool
deriving DecidableEq

/-- The role of a message; an unknown one is a role of its own. -/
def roleOf (role : Option Tree) : Role :=
  if isStr role "system" then .system
  else if isStr role "developer" then .developer
  else if isStr role "user" then .user
  else if isStr role "assistant" then .assistant
  else if isStr role "tool" || isStr role "function" then .tool
  else .invalid

inductive Policy where
  | unknown
  | map
  | drop
  | omit
  | empty
  | textDegrade
deriving DecidableEq

inductive ChatShape where
  | sysdevText
  | userText
  | userImgURL
  | userImgData
  | userImgBare64
  | userAudio
  | userFileData
  | userFileID
  | asstText
  | asstRefusal
  | asstOtherParts
  | asstToolFunction
  | asstToolCustom
  | toolMsg
  | functionMsg
  | tail
deriving DecidableEq

/-- One row of a table: a shape, the roles it is for and what is done with it. -/
structure Row where
  sh : ChatShape
  anyRole : Bool := false
  roles : List Role := []
  pol : Policy

def rowsChatToMess : List Row :=
  [{ sh := .sysdevText, roles := [.system, .developer], pol := .omit },
    { sh := .userText, roles := [.user], pol := .map },
    { sh := .userImgURL, roles := [.user], pol := .map },
    { sh := .userImgData, roles := [.user], pol := .map },
    { sh := .userImgBare64, roles := [.user], pol := .drop },
    { sh := .userAudio, roles := [.user], pol := .drop },
    { sh := .userFileData, roles := [.user], pol := .drop },
    { sh := .userFileID, roles := [.user], pol := .drop },
    { sh := .asstText, roles := [.assistant], pol := .map },
    { sh := .asstRefusal, roles := [.assistant], pol := .textDegrade },
    { sh := .asstOtherParts, roles := [.assistant], pol := .drop },
    { sh := .asstToolFunction, roles := [.assistant], pol := .map },
    { sh := .asstToolCustom, roles := [.assistant], pol := .drop },
    { sh := .toolMsg, roles := [.tool], pol := .map },
    { sh := .functionMsg, roles := [.tool], pol := .map },
    { sh := .tail, anyRole := true, pol := .drop }]

def lookup (table : List Row) (sh : ChatShape) (r : Role) : Option Row :=
  (table.find? fun row => row.sh = sh).filter fun row => row.anyRole || r ∈ row.roles

def mapsTo (table : List Row) (sh : ChatShape) (r : Role) : Bool :=
  (lookup table sh r).any fun row => row.pol = .map

def emits (table : List Row) (sh : ChatShape) (r : Role) : Bool :=
  (lookup table sh r).any fun row => row.pol = .map || row.pol = .textDegrade

end C3Api.Protoconv
