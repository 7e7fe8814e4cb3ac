import C3Api.FiniteMap.Basic
import Mathlib.Data.List.Sort

/-!
# Account snapshots

The static side of the scheduler: `buildSnapshots` and `buildRoutes` of
`scheduler.go` and the group reload of `invalidate_batch.go`. A leaf is an immutable
view of one account that shares the runtime of the leaf it replaces; `ref` is its
address. A digest of a list is the sorted list itself, and the digest of a map its
sorted pairs.
-/

namespace C3Api.Scheduler

open FiniteMap

inductive RequestFormat where
  | openAIChat | openAIResponses | openAIResponsesWS | anthropic | openAIImages | openAISearch
  deriving DecidableEq

/-- The empty type and an unregistered one can both stand in a template. -/
inductive CredentialType where
  | unset | apiKey | responsesSpecial | codexOAuth | codexPAT | custom
  | unregistered (name : String)
  deriving DecidableEq

def CredentialType.isCodex : CredentialType → Bool
  | .codexOAuth | .codexPAT => true
  | _ => false

inductive ModelMappingMode where
  | invalid | explicit | implicit
  deriving DecidableEq

structure ModelMappingEntry where
  mappedModel : String
  mode : ModelMappingMode
  deriving DecidableEq

structure Template where
  id : Int
  baseURL : String := ""
  credentialType : CredentialType := .apiKey
  supportedFormats : List RequestFormat := []
  models : List String := []
  formatModels : Map RequestFormat (List String) := ∅
  modelMapping : Map String ModelMappingEntry := ∅
  stripImageTools : Bool := false
  upstreamPaths : Map String String := ∅

namespace Template

def formatSupports (t : Template) (f : RequestFormat) (m : String) : Bool :=
  if t.supportedFormats.contains f then
    match t.formatModels.lookup f with
    | some list => list.contains m
    | none => true
  else false

def serves (t : Template) (m : String) : Bool :=
  t.models.contains m || (pairs t.formatModels).any (fun p => p.2.contains m) ||
    (t.modelMapping.lookup m).isSome

def hasModelSpace (t : Template) : Bool :=
  !t.models.isEmpty || !t.formatModels.keys.isEmpty || !t.modelMapping.keys.isEmpty

end Template

structure Proxy where
  scheme : String
  host : String
  port : Int
  username : String := ""
  password : String := ""
  enabled : Bool := true

structure AccountExt where
  codexInstallation : Option String := none
  codexOAuthToken : Option String := none
  codexOAuthRefreshToken : Option String := none
  codexOAuthExpiresAt : Option Int := none
  codexPATKey : Option String := none
  codexEmail : Option String := none
  codexAccountID : Option String := none

structure Account where
  id : Int
  name : String := ""
  templateID : Int := 0
  template : Option Template := none
  baseURL : Option String := none
  upstreamKey : String := ""
  maxConcurrency : Int := 1
  enabled : Bool := true
  identityRevision : Int := 0
  upstreamCostMultiplierBp : Option Int := none
  cacheDomain : Option String := none
  supplierUserID : Int := 0
  proxyID : Option Int := none
  proxy : Option Proxy := none
  ext : Option AccountExt := none

def multBp (v : Option Int) : Int := v.getD 10000

/-- The connection data of an egress; the direct one has none. -/
def specOfDomain (p : Option Proxy) : Option (String × String × Int × String × String) :=
  p.map fun p => (p.scheme, p.host, p.port, p.username, p.password)

def routableFor (enabled : Bool) (proxyID : Option Int) (px : Option Proxy) : Bool :=
  if !enabled then false
  else if proxyID.isNone then true
  else match px with
    | some p => p.enabled
    | none => false

structure SnapshotStatic where
  acc : Account
  tpl : Option Template
  groupIDs : List Int

def SnapshotStatic.routable (s : SnapshotStatic) : Bool :=
  routableFor s.acc.enabled s.acc.proxyID s.acc.proxy

/-- The base URL in effect: the one of the account where it has one. -/
def effectiveBaseURL (acc : Account) (tpl : Option Template) : String :=
  match acc.baseURL with
  | some url => if url = "" then (tpl.map (·.baseURL)).getD "" else url
  | none => (tpl.map (·.baseURL)).getD ""

def digestStrings (items : List String) : List String := items.insertionSort (· ≤ ·)

def digestInt64s (items : List Int) : List Int := items.insertionSort (· ≤ ·)

def formatOrder : List RequestFormat :=
  [.anthropic, .openAIChat, .openAIImages, .openAIResponses, .openAIResponsesWS, .openAISearch]

def digestFormats (items : List RequestFormat) : List Nat :=
  formatOrder.map fun f => items.count f

def digestFormatModels (m : Map RequestFormat (List String)) : List (Option (List String)) :=
  formatOrder.map fun f => (m.lookup f).map digestStrings

def digestMap {V : Type} (m : Map String V) : List (Option (String × V)) :=
  (digestStrings m.keys).map fun k => (m.lookup k).map fun v => (k, v)

structure TemplateKey where
  credentialType : CredentialType
  stripImageTools : Bool
  models : List String
  formatModels : List (Option (List String))
  supportedFormats : List Nat
  modelMapping : List (Option (String × ModelMappingEntry))
  upstreamPaths : List (Option (String × String))
  deriving DecidableEq

/-- The static inputs of a compiled plan. -/
structure PlanKey where
  accountID : Int
  name : String
  templateID : Int
  baseURL : String
  upstreamKey : String
  maxConcurrency : Int
  enabled : Bool
  cacheDomain : String
  upstreamCostMultiplierBp : Int
  identityRevision : Int
  supplierUserID : Int
  proxyDigest : Option (String × String × Int × String × String)
  routable : Bool
  codexAccountID : String
  codexInstallation : String
  codexEmail : String
  codexPATKey : String
  template : Option TemplateKey
  groupIDs : List Int
  deriving DecidableEq

def derefString (s : Option String) : String := s.getD ""

def templateKeyOf (t : Template) : TemplateKey where
  credentialType := t.credentialType
  stripImageTools := t.stripImageTools
  models := digestStrings t.models
  formatModels := digestFormatModels t.formatModels
  supportedFormats := digestFormats t.supportedFormats
  modelMapping := digestMap t.modelMapping
  upstreamPaths := digestMap t.upstreamPaths

def planKeyOf (s : SnapshotStatic) : PlanKey where
  accountID := s.acc.id
  name := s.acc.name
  templateID := s.acc.templateID
  baseURL := effectiveBaseURL s.acc s.tpl
  upstreamKey := s.acc.upstreamKey
  maxConcurrency := s.acc.maxConcurrency
  enabled := s.acc.enabled
  cacheDomain := derefString s.acc.cacheDomain
  upstreamCostMultiplierBp := multBp s.acc.upstreamCostMultiplierBp
  identityRevision := s.acc.identityRevision
  supplierUserID := s.acc.supplierUserID
  proxyDigest := specOfDomain s.acc.proxy
  routable := s.routable
  codexAccountID := derefString (s.acc.ext.bind (·.codexAccountID))
  codexInstallation := derefString (s.acc.ext.bind (·.codexInstallation))
  codexEmail := derefString (s.acc.ext.bind (·.codexEmail))
  codexPATKey := derefString (s.acc.ext.bind (·.codexPATKey))
  template := s.tpl.map templateKeyOf
  groupIDs := digestInt64s s.groupIDs

/-- Tokens that a new leaf must carry although no plan depends on them. -/
structure PayloadKey where
  codexOAuthToken : String
  codexOAuthRefresh : String
  codexOAuthExpires : Int
  deriving DecidableEq

def payloadKeyOf (s : SnapshotStatic) : PayloadKey where
  codexOAuthToken := derefString (s.acc.ext.bind (·.codexOAuthToken))
  codexOAuthRefresh := derefString (s.acc.ext.bind (·.codexOAuthRefreshToken))
  codexOAuthExpires := (s.acc.ext.bind (·.codexOAuthExpiresAt)).getD 0

def staticKeyOf (s : SnapshotStatic) : PlanKey × PayloadKey := (planKeyOf s, payloadKeyOf s)

/-- A runtime object, named by the account it was created for and a serial number. -/
structure RuntimeRef where
  account : Int
  serial : Nat
  deriving DecidableEq

/-- `accountSnapshot`: `ref` stands for its address. -/
structure Leaf where
  ref : Nat
  static : SnapshotStatic
  runtime : RuntimeRef

def Leaf.id (leaf : Leaf) : Int := leaf.static.acc.id

structure RouteKey where
  format : RequestFormat
  model : String
  deriving DecidableEq

structure GroupSnapshot where
  accounts : List Leaf
  routes : List RouteKey

/-- The static maps of a view, or of the working copy of a batch. -/
structure Root where
  groups : Map Int GroupSnapshot := ∅
  byID : Map Int Leaf := ∅

structure Created where
  leaves : Nat := 0
  runtimes : Nat := 0

def modelSet (accs : List Leaf) : List String :=
  (accs.flatMap fun a =>
    match a.static.tpl with
    | none => []
    | some tpl => tpl.models ++ (pairs tpl.formatModels).flatMap (·.2) ++ tpl.modelMapping.keys).dedup

/-- The formats that get routes; a search request never goes through one. -/
def routeFormats : List RequestFormat :=
  [.openAIChat, .openAIResponses, .openAIResponsesWS, .openAIImages, .anthropic]

/-- An account listed in the bucket of a model, in the first or in the second tier. -/
def bucketed (format : RequestFormat) (model : String) (a : Leaf) : Bool :=
  match a.static.tpl with
  | none => false
  | some tpl => tpl.formatSupports format model && (tpl.serves model || !tpl.hasModelSpace)

/-- An account of the default bucket, which serves models that no template names. -/
def defaulted (format : RequestFormat) (a : Leaf) : Bool :=
  match a.static.tpl with
  | none => false
  | some tpl => tpl.supportedFormats.contains format && !tpl.hasModelSpace

def buildRoutes (accs : List Leaf) : List RouteKey :=
  ((modelSet accs).flatMap (fun model =>
      (routeFormats.filter fun format => accs.any (bucketed format model)).map
        fun format => (⟨format, model⟩ : RouteKey)) ++
    (routeFormats.filter fun format => accs.any (defaulted format)).map
      fun format => (⟨format, ""⟩ : RouteKey)).dedup

def maxIdentityPoolSlots : Int := 1024

/-- The limit of a codex account is also the size of its slot pool and is capped. -/
def clampCodex (a : Account) : Account :=
  match a.template with
  | some tpl =>
    if tpl.credentialType.isCodex ∧ maxIdentityPoolSlots < a.maxConcurrency then
      { a with maxConcurrency := maxIdentityPoolSlots }
    else a
  | none => a

structure AccInfo where
  acc : Account
  groupIDs : List Int

def collectOne (gid : Int) (infos : Map Int AccInfo) (a : Account) : Map Int AccInfo :=
  match infos.lookup a.id with
  | some inf => infos.insert a.id { inf with groupIDs := inf.groupIDs ++ [gid] }
  | none => infos.insert a.id ⟨a, [gid]⟩

/-- The accounts of all groups, each with the groups that list it. -/
def collectInfo (m : List (Int × List Account)) : Map Int AccInfo :=
  m.foldl (fun infos g => g.2.foldl (collectOne g.1) infos) ∅

/-- The leaf of one account. It stays the old one while nothing static changed, and a
new one goes on with the runtime of the old one. -/
def buildLeaf (created : Created) (old : Option Leaf) (inf : AccInfo) : Created × Leaf :=
  let av : SnapshotStatic := ⟨clampCodex inf.acc, inf.acc.template, inf.groupIDs⟩
  match old with
  | some o =>
    if staticKeyOf o.static = staticKeyOf av then (created, o)
    else ({ created with leaves := created.leaves + 1 }, ⟨created.leaves, av, o.runtime⟩)
  | none =>
    (⟨created.leaves + 1, created.runtimes + 1⟩,
      ⟨created.leaves, av, ⟨inf.acc.id, created.runtimes⟩⟩)

def buildOne (oldByID : Map Int Leaf) (s : Created × Map Int Leaf) (e : Int × AccInfo) :
    Created × Map Int Leaf :=
  let built := buildLeaf s.1 (oldByID.lookup e.1) e.2
  (built.1, s.2.insert e.1 built.2)

def buildLeaves (created : Created) (oldByID : Map Int Leaf) (infos : List (Int × AccInfo)) :
    Created × Map Int Leaf :=
  infos.foldl (buildOne oldByID) (created, ∅)

def groupSnapshot (byID : Map Int Leaf) (accs : List Account) : GroupSnapshot :=
  let accounts := accs.filterMap fun a => byID.lookup a.id
  ⟨accounts, buildRoutes accounts⟩

def buildSnapshots (created : Created) (m : List (Int × List Account)) (oldByID : Map Int Leaf) :
    Created × Root :=
  let built := buildLeaves created oldByID (pairs (collectInfo m))
  (built.1, ⟨insertAll ∅ (m.map fun g => (g.1, groupSnapshot built.2 g.2)), built.2⟩)

def removeGid (gids : List Int) (gid : Int) : List Int := gids.filter (· ≠ gid)

/-- The leaves taken out of a group, for the other groups that still list them. -/
structure Removal where
  created : Created
  byID : Map Int Leaf
  otherRefs : List (Int × Leaf) := []

/-- One account of the old group: it is dropped from the index when no other group is
known for it, and otherwise gets a leaf without this group. -/
def removeOne (gid : Int) (newIDs : List Int) (s : Removal) (os : Leaf) : Removal :=
  if newIDs.contains os.id then s
  else
    match removeGid os.static.groupIDs gid with
    | [] => { s with byID := s.byID.erase os.id }
    | newGids =>
      let newLeaf : Leaf := ⟨s.created.leaves, { os.static with groupIDs := newGids }, os.runtime⟩
      { created := { s.created with leaves := s.created.leaves + 1 }
        byID := s.byID.insert os.id newLeaf
        otherRefs := s.otherRefs ++ newGids.map fun og => (og, newLeaf) }

/-- Puts the leaves in the place of those with the same account. -/
def replaceByID (leaves : List Leaf) (gs : GroupSnapshot) : GroupSnapshot :=
  let leafByID : Map Int Leaf := insertAll ∅ (leaves.map fun lf => (lf.id, lf))
  let repl := gs.accounts.map fun oas => (leafByID.lookup oas.id).getD oas
  ⟨repl, buildRoutes repl⟩

def rewriteOne (rewrite : Int → GroupSnapshot → GroupSnapshot) (m : Map Int GroupSnapshot)
    (og : Int) : Map Int GroupSnapshot :=
  match m.lookup og with
  | some gs => m.insert og (rewrite og gs)
  | none => m

def rewriteGroups (rewrite : Int → GroupSnapshot → GroupSnapshot) (gids : List Int)
    (m : Map Int GroupSnapshot) : Map Int GroupSnapshot :=
  gids.foldl (rewriteOne rewrite) m

structure Adoption where
  byID : Map Int Leaf
  leaves : List Leaf := []
  others : List Int := []

/-- The leaf of one reloaded account, and its other groups. It keeps the other groups
and the runtime that the index knows for the account. -/
def adopted (gid : Int) (byID : Map Int Leaf) (ns : Leaf) : Leaf × List Int :=
  match byID.lookup ns.id with
  | some oa =>
    let otherGids := removeGid oa.static.groupIDs gid
    (⟨ns.ref, { ns.static with groupIDs := gid :: otherGids }, oa.runtime⟩, otherGids)
  | none => (⟨ns.ref, { ns.static with groupIDs := [gid] }, ns.runtime⟩, [])

def adoptOne (gid : Int) (s : Adoption) (ns : Leaf) : Adoption :=
  let leaf := adopted gid s.byID ns
  ⟨s.byID.insert ns.id leaf.1, s.leaves ++ [leaf.1], s.others ++ leaf.2⟩

/-- The last position of every account in a group. -/
def positions (accs : List Leaf) : Map Int Nat :=
  insertAll ∅ (accs.zipIdx.map fun e => (e.1.id, e.2))

def placeOne (idx : Map Int Nat) (repl : List Leaf) (ns : Leaf) : List Leaf :=
  match idx.lookup ns.id with
  | some i => repl.set i ns
  | none => repl

/-- Puts the leaves at the position of their account. -/
def replaceAt (leaves : List Leaf) (gs : GroupSnapshot) : GroupSnapshot :=
  let repl := leaves.foldl (placeOne (positions gs.accounts)) gs.accounts
  ⟨repl, buildRoutes repl⟩

/-- The working copy of a batch, with the groups whose routes it has touched. -/
structure Working where
  created : Created
  root : Root
  scope : List Int := []

/-- `invalidateOneIntoLocked`: one group is reloaded into the working copy. -/
def invalidateOneInto (w : Working) (gid : Int) (accs : List Account) : Working :=
  let built := buildSnapshots w.created [(gid, accs)] w.root.byID
  let newAccs := ((built.2.groups.lookup gid).map (·.accounts)).getD []
  let oldAccs := ((w.root.groups.lookup gid).map (·.accounts)).getD []
  let removal := oldAccs.foldl (removeOne gid (newAccs.map Leaf.id)) ⟨built.1, w.root.byID, []⟩
  let removedFrom := (removal.otherRefs.map Prod.fst).dedup
  let groups := rewriteGroups
    (fun og => replaceByID ((removal.otherRefs.filter (·.1 = og)).map Prod.snd)) removedFrom
    w.root.groups
  let adoption := newAccs.foldl (adoptOne gid) ⟨removal.byID, [], []⟩
  let others := adoption.others.dedup.filter fun og => (groups.lookup og).isSome
  let groups := rewriteGroups (fun _ => replaceAt adoption.leaves) others groups
  { created := removal.created
    root := ⟨groups.insert gid ⟨adoption.leaves, buildRoutes newAccs⟩, adoption.byID⟩
    scope := w.scope ++ gid :: removedFrom ++ others }

/-- The groups of a batch in order; a group whose load fails is skipped. -/
def foldGroups (load : Int → Option (List Account)) : List Int → Working → Working
  | [], w => w
  | gid :: rest, w =>
    match load gid with
    | none => foldGroups load rest w
    | some accs => foldGroups load rest (invalidateOneInto w gid accs)

def sortedUniqueInt64 (ids : List Int) : List Int := (ids.dedup).insertionSort (· ≤ ·)

end C3Api.Scheduler
