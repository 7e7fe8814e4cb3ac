import C3Api.Scheduler.Snapshot
import Mathlib.Data.Prod.Lex
import Mathlib.Data.String.Basic

/-!
# Identities of routes and candidates

Route references and the classes that statistics are kept under (`domain/routing.go`,
`routing_compiler_support.go`). The hash behind the classes and fingerprints is a
parameter, and so is the parser of origins.
-/

namespace C3Api.Scheduler

open FiniteMap

inductive OperationTag where
  | chatCompletions | responses | responsesWS | anthropicMessages
  | imagesGenerations | imagesEdits | search
  deriving DecidableEq

def OperationTag.name : OperationTag → String
  | .chatCompletions => "chat_completions"
  | .responses => "responses"
  | .responsesWS => "responses_ws"
  | .anthropicMessages => "anthropic_messages"
  | .imagesGenerations => "images_generations"
  | .imagesEdits => "images_edits"
  | .search => "search"

inductive CallerKind where
  | chat | responses | anthropic | images | search | ws
  deriving DecidableEq

structure FormatSpec where
  callerKind : CallerKind
  operation : OperationTag
  extraOperations : List OperationTag := []

def formatSpecs : RequestFormat → FormatSpec
  | .openAIChat => ⟨.chat, .chatCompletions, []⟩
  | .openAIResponses => ⟨.responses, .responses, []⟩
  | .openAIResponsesWS => ⟨.ws, .responsesWS, []⟩
  | .anthropic => ⟨.anthropic, .anthropicMessages, []⟩
  | .openAIImages => ⟨.images, .imagesGenerations, [.imagesEdits]⟩
  | .openAISearch => ⟨.search, .search, []⟩

def callerKindForFormat (f : RequestFormat) : CallerKind := (formatSpecs f).callerKind

structure CandidateIdentity where
  accountID : Int
  templateID : Int
  credType : CredentialType
  origin : String
  credential : String
  stripImageTools : Bool
  installationID : String
  codexAccountID : String

/-- The hashes of the identities, as hexadecimal texts, and the parser of origins. -/
structure Digests where
  routeClassID : Int → RequestFormat → String → OperationTag → String
  qualityClassID : CallerKind → RequestFormat → String → OperationTag → String
  fingerprint : CandidateIdentity → String
  canonicalOrigin : String → Option String

/-- The key of the statistics of a candidate. -/
inductive CandidateFingerprintVal where
  | fingerprint (hex : String)
  | account (id : Int)
  deriving DecidableEq

def qualityClassHexForWithOp (dg : Digests) (format : RequestFormat) (model : String)
    (op : OperationTag) : String :=
  dg.qualityClassID (callerKindForFormat format) format model op

structure RouteRef where
  groupID : Int
  format : RequestFormat
  model : String
  operationTag : OperationTag
  routeClassID : String := ""

end C3Api.Scheduler
