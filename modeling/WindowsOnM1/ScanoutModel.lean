import WindowsOnM1.Attempts
import Mathlib.Data.BitVec

/-!
The scanout client of `apple_agx_scanout.c`. The registers, the clock and the pause answer
by what was accessed before; the pointers are given, and what a failed call stores through
them is left out.
-/
namespace WindowsOnM1.Scanout
open Attempts

abbrev U32 := BitVec 32
abbrev U64 := BitVec 64

inductive Register
  | magic | abiVersion | capabilities | state | result | irqStatus | receiptSequence | appliedSequence | latchedSequence
  | activeOffset | swapId | poolIpa | poolSize | surfaceOffset | surfaceSize | width | height | stride | format
  | requestSequence | command
  deriving DecidableEq

def Register.offset : Register → U32
  | magic => 0x00
  | abiVersion => 0x04
  | capabilities => 0x08
  | state => 0x0c
  | result => 0x10
  | irqStatus => 0x14
  | receiptSequence => 0x20
  | appliedSequence => 0x28
  | latchedSequence => 0x30
  | activeOffset => 0x38
  | swapId => 0x48
  | poolIpa => 0x60
  | poolSize => 0x68
  | surfaceOffset => 0x70
  | surfaceSize => 0x78
  | width => 0x80
  | height => 0x84
  | stride => 0x88
  | format => 0x8c
  | requestSequence => 0x90
  | command => 0x98

abbrev mmioOffset : U32 := 0x400

/-- `AppleAgxScanoutAddress`. -/
def Register.address (register : Register) : U32 := mmioOffset + register.offset
inductive Store
  | write32 (register : Register) (value : U32)
  | write64 (register : Register) (value : U64)
  deriving DecidableEq

inductive Access
  | nowMs (now : U64)
  | read32 (register : Register) (value : Option U32)
  | read64 (register : Register) (value : Option U64)
  | write (store : Store) (done : Bool)
  | pause (done : Bool)
  deriving DecidableEq

structure Io where
  nowMs : List Access → U64
  read32 : List Access → U32 → Option U32
  read64 : List Access → U32 → Option U64
  write32 : List Access → U32 → U32 → Bool
  write64 : List Access → U32 → U64 → Bool
  pause : Option (List Access → Bool)

inductive Result
  | invalidArgument | notQualified | incompatibleMagic | incompatibleVersion | missingCapabilities | transportFailed
  | timeout | clockRegression | pollLimit | staleSequence | brokerRejected | notQuiesced | inconsistentReceipt
  | sequenceExhausted | busy | noInterrupt
  deriving DecidableEq

structure Client where
  nextSequence : U64
  maxPolls : U32
  lastBrokerResult : U32
  abiVersion : U32
  capabilities : U32
  pendingPresentSequence : U64
  poolBytes : U64
  qualified : Bool
  presentPending : Bool

structure World where
  client : Client
  log : List Access
abbrev Op (α : Type) := Attempt Result World α

abbrev magicNumber : U32 := 0x53584741
abbrev requiredCapabilities : U32 := 0x0f
abbrev v2PresentCapabilities : U32 := 0x7f
abbrev surfaceSizeJ313 : U64 := 0xfa0000
abbrev poolMaxSize : U64 := 0x3b800000
abbrev alignment : U64 := 0x10000
abbrev irqLatched : U32 := 1
abbrev irqMask : U32 := 3
abbrev brokerOk : U32 := 0
abbrev brokerStaleSequence : U32 := 2
abbrev brokerBusy : U32 := 3
abbrev brokerNotQuiesced : U32 := 11
abbrev stateUnregistered : U32 := 0
abbrev stateReady : U32 := 1
abbrev stateActive : U32 := 3
abbrev commandRegisterPool : U32 := 1
abbrev commandPresent : U32 := 2
abbrev commandRelease : U32 := 3

section
variable (io : Io)

def record (access : Access) : Op PUnit := change (fun world => { world with log := world.log ++ [access] })
def setClient (update : Client → Client) : Op PUnit := change (fun world => { world with client := update world.client })
def nowMs : Op U64 := do
  let world ← current
  record (.nowMs (io.nowMs world.log))
  pure (io.nowMs world.log)

def read32 (register : Register) : Op U32 := do
  let world ← current
  record (.read32 register (io.read32 world.log register.address))
  match io.read32 world.log register.address with
  | some value => pure value
  | none => stop .transportFailed

def read64 (register : Register) : Op U64 := do
  let world ← current
  record (.read64 register (io.read64 world.log register.address))
  match io.read64 world.log register.address with
  | some value => pure value
  | none => stop .transportFailed

def Io.stores (log : List Access) : Store → Bool
  | .write32 register value => io.write32 log register.address value
  | .write64 register value => io.write64 log register.address value
def store (store : Store) : Op PUnit := do
  let world ← current
  record (.write store (io.stores world.log store))
  stopIf (io.stores world.log store = false) .transportFailed

/-- Writes in a row, up to one that fails. -/
def storeAll : List Store → Op PUnit
  | [] => pure ⟨⟩
  | first :: rest => do
    store io first
    storeAll rest

def pause : Op PUnit := do
  let world ← current
  match io.pause with
  | none => pure ⟨⟩
  | some pauses => do
    record (.pause (pauses world.log))
    stopIf (pauses world.log = false) .transportFailed

def takeSequence : Op U64 := do
  let world ← current
  stopIf (world.client.nextSequence = 0) .sequenceExhausted
  setClient (fun client => { client with
    nextSequence := if client.nextSequence = BitVec.allOnes 64 then 0 else client.nextSequence + 1 })
  pure world.client.nextSequence

def mapBrokerResult (result : U32) : Result :=
  if result = brokerStaleSequence then .staleSequence
  else if result = brokerNotQuiesced then .notQuiesced
  else .brokerRejected
inductive WaitKind
  | register | present | release
  deriving DecidableEq

/-- The state that a command leads to. -/
def WaitKind.state : WaitKind → U32
  | register => stateReady
  | present => stateActive
  | release => stateUnregistered

/-- The clock behind the reads of a poll. -/
def checkClock (start deadline : U64) : Op PUnit := do
  let now ← nowMs io
  stopIf (now < start) .clockRegression
  stopIf (now > deadline) .timeout

/-- One poll; without a receipt for the sequence there is another one. -/
def poll (sequence : U64) (kind : WaitKind) (surfaceOffset start deadline : U64) : Op (Option U32) := do
  let receipt ← read64 io .receiptSequence
  let result ← read32 io .result
  let state ← read32 io .state
  let applied ← read64 io .appliedSequence
  checkClock io start deadline
  setClient (fun client => { client with lastBrokerResult := result })
  stopIf (receipt > sequence) .inconsistentReceipt
  if receipt = sequence then
    stopIf (result ≠ brokerOk) (mapBrokerResult result)
    stopIf (applied ≠ sequence) .inconsistentReceipt
    stopIf (state ≠ kind.state) .inconsistentReceipt
    if kind = .present then
      let activeOffset ← read64 io .activeOffset
      let swapId ← read32 io .swapId
      checkClock io start deadline
      stopIf (activeOffset ≠ surfaceOffset ∨ swapId = 0) .inconsistentReceipt
      pure (some swapId)
    else pure (some 0)
  else
    stopIf (result = brokerStaleSequence ∨ result = brokerBusy) (mapBrokerResult result)
    pure none

def waitPolls (sequence : U64) (kind : WaitKind) (surfaceOffset start deadline : U64) : (polls : Nat) → Op U32
  | 0 => stop .pollLimit
  | polls+1 => do
    match ← poll io sequence kind surfaceOffset start deadline with
    | some swapId => pure swapId
    | none =>
      stopIf (polls = 0) .pollLimit
      pause io
      waitPolls sequence kind surfaceOffset start deadline polls

def waitForReceipt (sequence : U64) (kind : WaitKind) (surfaceOffset deadline : U64) : Op U32 := do
  let start ← nowMs io
  stopIf (start > deadline) .timeout
  let world ← current
  waitPolls io sequence kind surfaceOffset start deadline world.client.maxPolls.toNat

inductive Reply
  | done
  | applied (swapId : U32)
  | queued (sequence : U64)
  | interrupt (irqStatus : U32) (latchedSequence : U64)
  deriving DecidableEq

def qualify : Op Reply := do
  setClient (fun client => { client with qualified := false })
  let magic ← read32 io .magic
  let version ← read32 io .abiVersion
  let capabilities ← read32 io .capabilities
  stopIf (magic ≠ magicNumber) .incompatibleMagic
  stopIf (version ≠ 1 ∧ version ≠ 2) .incompatibleVersion
  stopIf (capabilities &&& requiredCapabilities ≠ requiredCapabilities) .missingCapabilities
  setClient (fun client => { client with abiVersion := version, capabilities := capabilities, qualified := true })
  pure .done

def registerPool (poolIpa poolBytes deadline : U64) : Op Reply := do
  stopIf (poolIpa = 0 ∨ poolIpa &&& (alignment - 1) ≠ 0 ∨ poolBytes < surfaceSizeJ313 ∨ poolBytes > poolMaxSize ∨
    poolBytes &&& (alignment - 1) ≠ 0) .invalidArgument
  let world ← current
  stopIf (world.client.qualified = false) .notQualified
  let sequence ← takeSequence
  storeAll io [.write64 .poolIpa poolIpa,.write64 .poolSize poolBytes,.write64 .requestSequence sequence,
    .write32 .command commandRegisterPool]
  setClient (fun client => { client with poolBytes := poolBytes })
  let _ ← waitForReceipt io sequence .register 0 deadline
  pure .done

/-- The checks of a surface against the pool, which stand before every present. -/
def OutsidePool (client : Client) (surfaceOffset : U64) : Prop :=
  surfaceOffset &&& (alignment - 1) ≠ 0 ∨ client.poolBytes < surfaceSizeJ313 ∨
    surfaceOffset > client.poolBytes - surfaceSizeJ313
instance (client : Client) (surfaceOffset : U64) : Decidable (OutsidePool client surfaceOffset) :=
  inferInstanceAs (Decidable (_ ∨ _ ∨ _))
def presentStores (surfaceOffset sequence : U64) : List Store :=
  [.write64 .surfaceOffset surfaceOffset,.write64 .surfaceSize surfaceSizeJ313,.write32 .width 2560,.write32 .height 1600,
    .write32 .stride 10240,.write32 .format 1,.write64 .requestSequence sequence,.write32 .command commandPresent]

def presentApplied (surfaceOffset deadline : U64) : Op Reply := do
  let world ← current
  stopIf (OutsidePool world.client surfaceOffset) .invalidArgument
  stopIf (world.client.qualified = false) .notQualified
  let sequence ← takeSequence
  storeAll io (presentStores surfaceOffset sequence)
  let swapId ← waitForReceipt io sequence .present surfaceOffset deadline
  pure (.applied swapId)

/-- Whether presents are queued and reported by interrupts. -/
def LacksV2 (client : Client) : Prop :=
  client.abiVersion ≠ 2 ∨ client.capabilities &&& v2PresentCapabilities ≠ v2PresentCapabilities
instance (client : Client) : Decidable (LacksV2 client) := inferInstanceAs (Decidable (_ ∨ _))

def queuePresent (surfaceOffset : U64) : Op Reply := do
  let world ← current
  stopIf (OutsidePool world.client surfaceOffset) .invalidArgument
  stopIf (world.client.qualified = false) .notQualified
  stopIf (LacksV2 world.client) .missingCapabilities
  stopIf (world.client.presentPending = true) .busy
  let sequence ← takeSequence
  storeAll io (presentStores surfaceOffset sequence)
  setClient (fun client => { client with pendingPresentSequence := sequence, presentPending := true })
  pure (.queued sequence)

/-- The end of `AppleAgxScanoutConsumeInterrupt`: what was reported is acknowledged. -/
def acknowledge (status : U32) (latched : U64) : Op Reply := do
  store io (.write32 .irqStatus status)
  stopIf (status &&& irqLatched ≠ 0 ∧ latched = 0) .inconsistentReceipt
  setClient (fun client =>
    if status &&& irqLatched ≠ 0 ∧ client.presentPending = true ∧ latched = client.pendingPresentSequence then
      { client with presentPending := false, pendingPresentSequence := 0 }
    else client)
  pure (.interrupt status latched)

def consumeInterrupt : Op Reply := do
  let world ← current
  stopIf (world.client.qualified = false) .notQualified
  stopIf (LacksV2 world.client) .missingCapabilities
  let irqStatus ← read32 io .irqStatus
  let status := irqStatus &&& irqMask
  stopIf (status = 0) .noInterrupt
  let latched ← if status &&& irqLatched ≠ 0 then read64 io .latchedSequence else pure 0
  acknowledge io status latched

def release (deadline : U64) : Op Reply := do
  let world ← current
  stopIf (world.client.qualified = false) .notQualified
  let sequence ← takeSequence
  storeAll io [.write64 .requestSequence sequence,.write32 .command commandRelease]
  let _ ← waitForReceipt io sequence .release 0 deadline
  pure .done

inductive Call
  | qualify
  | registerPool (poolIpa poolBytes deadline : U64)
  | presentApplied (surfaceOffset deadline : U64)
  | queuePresent (surfaceOffset : U64)
  | consumeInterrupt
  | release (deadline : U64)
  deriving DecidableEq

def act : Call → Op Reply
  | .qualify => qualify io
  | .registerPool poolIpa poolBytes deadline => registerPool io poolIpa poolBytes deadline
  | .presentApplied surfaceOffset deadline => presentApplied io surfaceOffset deadline
  | .queuePresent surfaceOffset => queuePresent io surfaceOffset
  | .consumeInterrupt => consumeInterrupt io
  | .release deadline => release io deadline

/-- A call of a run: what it answered, and what it accessed. -/
structure Step where
  call : Call
  answer : Except Result Reply
  accesses : List Access

def runCalls : List Call → World → List Step
  | [], _ => []
  | call :: rest, world =>
    ⟨call,(act io call world).1,(act io call world).2.log.drop world.log.length⟩ :: runCalls rest (act io call world).2

end

/-- `AppleAgxScanoutInitialize`. -/
def scanoutInitialize (firstSequence : U64) (maxPolls : U32) : Option Client :=
  if firstSequence = 0 ∨ maxPolls = 0 then none
  else some ⟨firstSequence,maxPolls,brokerOk,0,0,0,0,false,false⟩

end WindowsOnM1.Scanout
