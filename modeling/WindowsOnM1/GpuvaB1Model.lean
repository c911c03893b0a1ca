import Mathlib.Data.BitVec
import WindowsOnM1.CountedLoop
import WindowsOnM1.DrainLoop

/-!
The roots of `apple_agx_gpuva_b1_roots.c`: a page-table root is built by hundreds of requests
to the broker, each of which may be refused or get lost, and is undone in the reverse order
of its parts. The answers of the broker are an arbitrary sequence; no pointer is NULL.
-/
namespace WindowsOnM1.GpuvaB1
open CountedLoop DrainLoop

abbrev U32 := BitVec 32
abbrev U64 := BitVec 64

/-- `B1_PAGE`. -/
abbrev b1Page : U64 := 0x4000

/-- `B1_ROOT_INDEX`. -/
abbrev b1RootIndex : U64 := 1

/-- `B1_ALIAS_L1`. -/
abbrev b1AliasL1 : U64 := 128

/-- `B1_OUTPUT_L1`. -/
abbrev b1OutputL1 : U64 := 640

/-- `B1_BACKEND_L1`. -/
abbrev b1BackendL1 : U64 := 641

/-- `APPLE_AGX_GPUVA_B1_GRAPH_PAGES`. -/
abbrev graphPages : Nat := 302

/-- `APPLE_AGX_GPUVA_B1_MAX_GRANTS`. -/
abbrev maxGrants : Nat := 285

/-- The commands of the broker that a root needs. -/
inductive Command
  | create | registerTable | registerBacking | updateParent | updateLeaf | destroy | revokeBacking | revokeTable
  | registerSharedBacking
deriving DecidableEq

/-- `AGX_GPUVA_V5_REQUEST`, without what the client fills in. -/
structure Request where
  command : Command
  flags : U32 := 0
  processId : U64 := 0
  processGeneration : U64 := 0
  tableIpa : U64 := 0
  auxIpa : U64 := 0
  allocationGeneration : U64 := 0
  logicalIpa : List U64 := [0,0,0,0]
  index : U32 := 0
  validMask : U32 := 0
  writableMask : U32 := 0
deriving DecidableEq

/-- The part of `AGX_GPUVA_V5_RESPONSE` that is read. -/
structure Response where
  status : U32
  flags : U32
deriving DecidableEq

/-- `APPLE_AGX_GPUVA_B1_ROOT_INPUT`. -/
structure RootInput where
  processId : U64
  generation : U64
  rootIpa : U64
  l1Ipa : U64
  backendL2Ipa : U64
  aliasL2Ipa : U64
  outputL2Ipa : U64
  graphGeneration : U64
  outputGeneration : U64
  paging : U32
deriving DecidableEq

/-- `APPLE_AGX_GPUVA_B1_PAGE`. -/
structure Page where
  gpuVa : U64
  guestIpa : U64
  shared : U32
  objectIndex : U32
deriving DecidableEq

/-- `APPLE_AGX_GPUVA_B1_GRANT`. -/
structure Grant where
  ipa : U64
  generation : U64
  shared : U32
deriving DecidableEq

/-- `APPLE_AGX_GPUVA_B1_ROOT`. The lists are the arrays up to their counts. -/
structure Root where
  input : RootInput
  mapped : List Page
  grants : List Grant
  tableCount : Nat
  parentCount : Nat
  created : Bool
  lastStatus : U32
  cleanupStatus : U32
  uncertain : Bool
deriving DecidableEq

def noInput : RootInput := ⟨0,0,0,0,0,0,0,0,0,0⟩

/-- The root that `memset` leaves, with an input. -/
def emptyRoot (input : RootInput) : Root := ⟨input,[],[],0,0,false,0,0,false⟩

/-- A request that was sent, what came back, and the root when it was sent. -/
structure Exchange where
  request : Request
  answer : Option Response
  before : Root
deriving DecidableEq

def Exchange.acknowledged (exchange : Exchange) : Bool := exchange.answer == some ⟨0,0⟩

/-- No answer, or one that leaves open whether the broker has done it. -/
def Exchange.unsure (exchange : Exchange) : Bool :=
  match exchange.answer with
  | none => true
  | some r => r.flags != 0 || r.status == 6

/-- A root, how many requests the broker has seen, and those that were sent for this root. -/
structure World where
  root : Root
  asked : Nat
  trace : List Exchange

/-- The answers to all requests: none where `AppleAgxGpuvaV5ClientCall` returns false. -/
abbrev Broker := Nat → Option Response
def World.change (world : World) (update : Root → Root) : World := { world with root := update world.root }
def stamp (input : RootInput) (q : Request) : Request :=
  { q with processId := input.processId, processGeneration := input.generation }

/-- `request`. -/
def request (broker : Broker) (q : Request) (world : World) : Bool × World :=
  let q := stamp world.root.input q
  let sent := { world with asked := world.asked + 1, trace := world.trace ++ [Exchange.mk q (broker world.asked) world.root] }
  match broker world.asked with
  | none => (false,sent.change (fun root => { root with lastStatus := 0xffffffff, uncertain := true }))
  | some r =>
    (r.status == 0 && r.flags == 0, sent.change (fun root =>
        { root with lastStatus := r.status, uncertain := if r.flags ≠ 0 ∨ r.status = 6 then true else root.uncertain }))

/-- `table_for`. -/
def tableFor (input : RootInput) (va : U64) : U64 :=
  let index := (va >>> 25) &&& 2047
  if index = b1BackendL1 then input.backendL2Ipa
  else if index = b1AliasL1 then input.aliasL2Ipa
  else if index = b1OutputL1 then input.outputL2Ipa
  else 0

def l1Index (index : Nat) : U32 := [1,641,128,640].getD index 0

/-- The tables below the root, in the order of their numbers. -/
def childTable (input : RootInput) (index : Nat) : U64 :=
  [input.l1Ipa,input.backendL2Ipa,input.aliasL2Ipa,input.outputL2Ipa].getD index 0

def parentRequest (input : RootInput) (index : Nat) (link : Bool) : Request :=
  { command := .updateParent
    tableIpa := if index = 0 then input.rootIpa else input.l1Ipa
    index := l1Index index
    auxIpa := if link then childTable input index else 0 }

/-- `parent`. -/
def parent (broker : Broker) (index : Nat) (link : Bool) (world : World) : Bool × World :=
  if 4 ≤ index then (false,world) else request broker (parentRequest world.root.input index link) world
def tableRequest (input : RootInput) (index : Nat) (add : Bool) : Request :=
  { command := if add then .registerTable else .revokeTable
    auxIpa := childTable input index
    index := if index = 0 then 1 else 2 }

/-- `table`. -/
def table (broker : Broker) (index : Nat) (add : Bool) (world : World) : Bool × World :=
  if 4 ≤ index then (false,world) else request broker (tableRequest world.root.input index add) world

def leafRequest (input : RootInput) (page : Page) (map : Bool) : Request :=
  let empty : Request :=
    { command := .updateLeaf
      tableIpa := tableFor input page.gpuVa
      index := ((page.gpuVa >>> 14) &&& 2047).setWidth 32
      flags := 15 }
  if map then
    { empty with
      allocationGeneration := if page.shared ≠ 0 then input.graphGeneration else input.outputGeneration
      validMask := 15
      writableMask := 15
      logicalIpa := (List.range 4).map (fun i => page.guestIpa + BitVec.ofNat 64 i * 0x1000) }
  else empty

/-- What `leaf` checks before it sends a request. -/
def leafPlaced (input : RootInput) (page : Page) : Bool :=
  tableFor input page.gpuVa != 0 && (page.gpuVa >>> 36) &&& 7 == b1RootIndex

/-- `leaf`. -/
def leaf (broker : Broker) (page : Page) (map : Bool) (world : World) : Bool × World :=
  if leafPlaced world.root.input page = false then (false,world)
  else request broker (leafRequest world.root.input page map) world
def grantRequest (g : Grant) (add : Bool) : Request :=
  { command := if add then (if g.shared ≠ 0 then .registerSharedBacking else .registerBacking) else .revokeBacking
    auxIpa := g.ipa
    allocationGeneration := g.generation }

/-- `grant`. -/
def grant (broker : Broker) (g : Grant) (add : Bool) (world : World) : Bool × World := request broker (grantRequest g add) world

/-- `already_granted`. -/
def alreadyGranted (root : Root) (ipa : U64) : Bool := root.grants.any (fun g => g.ipa == ipa)

/-- What a removal does to the record of the root when the broker has acknowledged it. -/
def andThen (result : Bool × World) (update : Root → Root) : Bool × World :=
  match result with
  | (false,left) => (false,left)
  | (true,left) => (true,left.change update)

/-- The first loop of `AppleAgxGpuvaB1DestroyRoot`. -/
def unmapLeaves (broker : Broker) (world : World) : Bool × World :=
  drain (fun world => world.root.mapped.getLast?)
    (fun page world => andThen (leaf broker page false world) (fun root => { root with mapped := root.mapped.dropLast }))
    world.root.mapped.length world

def revokeGrants (broker : Broker) (world : World) : Bool × World :=
  drain (fun world => world.root.grants.getLast?)
    (fun g world => andThen (grant broker g false world) (fun root => { root with grants := root.grants.dropLast }))
    world.root.grants.length world
def lastIndex (count : Nat) : Option Nat := if count = 0 then none else some (count - 1)
def unlinkParents (broker : Broker) (world : World) : Bool × World :=
  drain (fun world => lastIndex world.root.parentCount)
    (fun index world => andThen (parent broker index false world) (fun root => { root with parentCount := root.parentCount - 1 }))
    world.root.parentCount world
def revokeTables (broker : Broker) (world : World) : Bool × World :=
  drain (fun world => lastIndex world.root.tableCount)
    (fun index world => andThen (table broker index false world) (fun root => { root with tableCount := root.tableCount - 1 }))
    world.root.tableCount world
def destroyCreated (broker : Broker) (world : World) : Bool × World :=
  if world.root.created = true then
    andThen (request broker { command := .destroy } world) (fun root => { root with created := false })
  else (true,world)

/-- One part of an undo after another one. -/
def after (first : Bool × World) (next : World → Bool × World) : Bool × World :=
  match first with
  | (false,left) => (false,left)
  | (true,left) => next left

/-- `AppleAgxGpuvaB1DestroyRoot`. -/
def destroyRoot (broker : Broker) (world : World) : Bool × World :=
  if world.root.uncertain = true then (false,world)
  else
    after (after (after (after (unmapLeaves broker world) (revokeGrants broker)) (unlinkParents broker)) (revokeTables broker))
      (destroyCreated broker)

def aligned (value : U64) : Bool := value &&& (b1Page - 1) == 0

/-- What `AppleAgxGpuvaB1BuildRoot` checks before it touches the root. -/
def inputValid (input : RootInput) (pages : List Page) : Bool :=
  let tables := [input.rootIpa,input.l1Ipa,input.backendL2Ipa,input.aliasL2Ipa,input.outputL2Ipa]
  input.processId != 0 && input.generation != 0 && input.graphGeneration != 0 && input.outputGeneration != 0 &&
    decide (input.paging ≤ 1) && pages.length == graphPages &&
    tables.all (fun ipa => ipa != 0 && aligned ipa) && decide tables.Nodup

/-- One turn of the loop over the pages. -/
def buildPage (broker : Broker) (input : RootInput) (page : Page) (world : World) : Bool × World :=
  let g : Grant := ⟨page.guestIpa,if page.shared ≠ 0 then input.graphGeneration else input.outputGeneration,page.shared⟩
  if aligned page.gpuVa = false ∨ aligned g.ipa = false ∨ tableFor world.root.input page.gpuVa = 0 ∨
      graphPages ≤ world.root.mapped.length then (false,world)
  else
    after
      (if alreadyGranted world.root g.ipa = true then (true,world)
        else if maxGrants ≤ world.root.grants.length then (false,world)
        else andThen (grant broker g true world) (fun root => { root with grants := root.grants ++ [g] }))
      (fun world => andThen (leaf broker page true world) (fun root => { root with mapped := root.mapped ++ [page] }))

def buildPages (broker : Broker) (input : RootInput) : List Page → World → Bool × World
  | [], world => (true,world)
  | page :: pages, world => after (buildPage broker input page world) (buildPages broker input pages)

/-- The requests of `AppleAgxGpuvaB1BuildRoot`, until one fails. -/
def buildParts (broker : Broker) (input : RootInput) (pages : List Page) (world : World) : Bool × World :=
  after
    (after
      (after
        (andThen (request broker { command := .create, tableIpa := input.rootIpa, flags := input.paging } world)
          (fun root => { root with created := true }))
        (countLoop (fun i world => andThen (table broker i true world) (fun root => { root with tableCount := root.tableCount + 1 })) 0 4))
      (countLoop (fun i world => andThen (parent broker i true world) (fun root => { root with parentCount := root.parentCount + 1 })) 0 4))
    (buildPages broker input pages)

/-- What stands behind the label `fail`. -/
def failBuild (broker : Broker) (world : World) : World :=
  let (cleaned,left) := if world.root.uncertain = true then (false,world) else destroyRoot broker world
  left.change (fun root =>
    { root with cleanupStatus := if cleaned then 0 else root.lastStatus, lastStatus := world.root.lastStatus })

/-- `AppleAgxGpuvaB1BuildRoot`. A build that passes the checks begins a new root. -/
def buildRoot (broker : Broker) (input : RootInput) (pages : List Page) (world : World) : Bool × World :=
  if inputValid input pages = false then (false,world)
  else
    match buildParts broker input pages { world with root := emptyRoot input, trace := [] } with
    | (true,left) => (true,left)
    | (false,left) => (false,failBuild broker left)

end WindowsOnM1.GpuvaB1
