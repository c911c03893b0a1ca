import WindowsOnM1.Attempts
import WindowsOnM1.BackendFirmware

/-!
The firmware coordinator of `apple_agx_firmware.c` over the callbacks that
`apple_agx_firmware_provider.c` installs, with the handoff of `apple_agx_gfx_handoff.c`
below them. The primitives, the handoff region and the clocks answer by the turn in which
they are asked; what they were asked is kept in a history, the newest first. The history
also keeps what the coordinator and the provider had recorded when a primitive was called.
-/
namespace WindowsOnM1.FirmwareProvider
open Attempts
open BackendFirmware (U32 U64 FirmwareStep Mask noSteps isZero setStep FirmwarePhase FirmwareResult Firmware
  firmwareInitialize firmwareFail observationBits initdataTimeoutMs ascBootTimeoutMs endpointTimeoutMs stopTimeoutMs
  firmwareEndpoint doorbellEndpoint initdataAddressMask)

/-- `APPLE_AGX_UAT_TTBR_PAIR`. -/
structure TtbrPair where
  ttbr0 : U64
  ttbr1 : U64
deriving DecidableEq

/-- The bits of the provider's `State`. -/
structure ProviderState where
  initialized : Bool
  powered : Bool
  uat : Bool
  asc : Bool
  fwEndpoint : Bool
  doorbellEndpoint : Bool
  published : Bool
deriving DecidableEq

/-- `APPLE_AGX_FIRMWARE_PROVIDER_INITIALIZED` alone. -/
def onlyInitialized : ProviderState := ⟨true,false,false,false,false,false,false⟩

/-- `APPLE_AGX_FIRMWARE_PROVIDER` without the primitives and the handoff. -/
structure Provider where
  pair : TtbrPair
  initdataAddress : U64
  state : ProviderState
deriving DecidableEq

/-- `APPLE_AGX_GFX_HANDOFF_STATE` without the region and its accesses. -/
structure Handoff where
  bound : Bool
  locked : Bool
  initialized : Bool
deriving DecidableEq

/-- The primitives that only answer whether they succeeded. -/
inductive Primitive
  | powerOn (deadlineMs : U64)
  | powerOff (deadlineMs : U64)
  | destroyFirmwareUat (deadlineMs : U64)
  | bootAsc (deadlineMs : U64)
  | completeManagementBootstrap (deadlineMs : U64)
  | stopAsc (deadlineMs : U64)
  | startEndpoint (endpoint : U32) (deadlineMs : U64)
  | stopEndpoint (endpoint : U32) (deadlineMs : U64)
  | publishUatRoots (pair : TtbrPair)
  | unpublishUatRoots
  | sendInitdata (initdataAddress deadlineMs : U64)
  | sendDeviceControlInit (deadlineMs : U64)
  | updateIdleTimestamp (deadlineMs : U64)
deriving DecidableEq

/-- `APPLE_AGX_FIRMWARE_PROVIDER_PRIMITIVES` and `APPLE_AGX_GFX_HANDOFF_IO`. A handoff loop is watched
    for a number of rounds; a loop that goes on for longer does not return. -/
structure Environment where
  isPassiveLevel : Nat → Bool
  nowMs : Nat → U64
  answer : Nat → Primitive → Bool
  createFirmwareUat : Nat → U64 → Bool × TtbrPair × U64
  completesManagementBootstrap : Bool
  recordsBootstrapPhase : Bool
  retireMappingsAfterAscStop : Bool
  read : Nat → (bits : Nat) → Nat → Option (BitVec bits)
  write : Nat → (bits : Nat) → Nat → BitVec bits → Bool
  now : Nat → U64
  rounds : Nat

/-- The callbacks of `APPLE_AGX_FIRMWARE_IO` that the coordinator runs against a deadline. -/
inductive Callback
  | powerOn | createFirmwareUat | bootAsc | startEndpoint (endpoint : U32) | publishInitdata | sendInitdata
  | sendDeviceControlInit | updateIdleTimestamp | unpublishInitdata | stopEndpoint (endpoint : U32) | stopAsc
  | destroyFirmwareUat | powerOff
deriving DecidableEq

/-- What happens between the parties. -/
inductive Event
  /-- A primitive was called and answered. -/
  | called (firmware : Firmware) (state : ProviderState) (primitive : Primitive) (answer : Bool)
  /-- `CreateFirmwareUat` was called and gave a root pair and an address. -/
  | created (deadlineMs : U64) (answer : Bool) (pair : TtbrPair) (initdataAddress : U64)
  | read (bits offset : Nat) (value : Option (BitVec bits))
  | wrote (bits offset : Nat) (value : BitVec bits) (answer : Bool)
  /-- The clock was read against the deadline of a handoff. -/
  | checked (deadlineMs nowMs : U64)
  | recorded (phase : Nat) (success : Bool) (state : ProviderState)
  /-- An operation has no deadline that the clock can reach. -/
  | overflowed (callback : Callback) (startMs : U64)
  /-- A callback answered, and the clock behind it. -/
  | finished (callback : Callback) (startMs deadlineMs endMs : U64) (transportResult : Bool)

structure World where
  firmware : Firmware
  provider : Provider
  handoff : Handoff
  turn : Nat
  history : List Event

/-- A world in which one more event has happened. -/
abbrev told (world : World) (turn : Nat) (event : Event) : World :=
  { world with turn := turn, history := event :: world.history }
inductive Hung
  | handoff
deriving DecidableEq
abbrev Action (α : Type) := Attempt Hung World α

/-- A question to the environment, which the history does not keep. -/
def ask {α : Type} (question : Nat → α) : Action α := fun world =>
  (.ok (question world.turn),{ world with turn := world.turn + 1 })

/-- A question to the environment and its receipt. -/
def asked {α : Type} (question : Nat → α) (receipt : World → α → Event) : Action α := fun world =>
  (.ok (question world.turn),
   { world with turn := world.turn + 1, history := receipt world (question world.turn) :: world.history })
def note (event : Event) : Action Unit := fun world => (.ok (),{ world with history := event :: world.history })
def changeFirmware (update : Firmware → Firmware) : Action Unit := fun world =>
  (.ok (),{ world with firmware := update world.firmware })
def changeProvider (update : Provider → Provider) : Action Unit := fun world =>
  (.ok (),{ world with provider := update world.provider })
def changeState (update : ProviderState → ProviderState) : Action Unit :=
  changeProvider (fun provider => { provider with state := update provider.state })
def changeHandoff (update : Handoff → Handoff) : Action Unit := fun world =>
  (.ok (),{ world with handoff := update world.handoff })
@[simp] theorem leaves_ask {α : Type} (question : Nat → α) (world : World) (post : Except Hung α → World → Prop) :
    Leaves (ask question) world post = post (.ok (question world.turn)) { world with turn := world.turn + 1 } := (rfl)
@[simp] theorem leaves_asked {α : Type} (question : Nat → α) (receipt : World → α → Event) (world : World)
    (post : Except Hung α → World → Prop) :
    Leaves (asked question receipt) world post = post (.ok (question world.turn))
      { world with turn := world.turn + 1, history := receipt world (question world.turn) :: world.history } := (rfl)
@[simp] theorem leaves_changeFirmware (update : Firmware → Firmware) (world : World) (post : Except Hung Unit → World → Prop) :
    Leaves (changeFirmware update) world post = post (.ok ()) { world with firmware := update world.firmware } := (rfl)
@[simp] theorem leaves_changeProvider (update : Provider → Provider) (world : World) (post : Except Hung Unit → World → Prop) :
    Leaves (changeProvider update) world post = post (.ok ()) { world with provider := update world.provider } := (rfl)
@[simp] theorem leaves_changeState (update : ProviderState → ProviderState) (world : World)
    (post : Except Hung Unit → World → Prop) : Leaves (changeState update) world post =
      post (.ok ()) { world with provider := { world.provider with state := update world.provider.state } } := (rfl)
@[simp] theorem leaves_changeHandoff (update : Handoff → Handoff) (world : World) (post : Except Hung Unit → World → Prop) :
    Leaves (changeHandoff update) world post = post (.ok ()) { world with handoff := update world.handoff } := (rfl)

section
variable {α β : Type} {next : α → Action β} {world : World} {post : Except Hung β → World → Prop}

theorem leaves_ask_then {question : Nat → α} (rest : ∀ turn value, Leaves (next value) { world with turn := turn } post) :
    Leaves (ask question >>= next) world post := rest _ _
theorem leaves_asked_then {question : Nat → α} {receipt : World → α → Event} (rest : ∀ turn value, Leaves (next value)
      { world with turn := turn, history := receipt world value :: world.history } post) :
    Leaves (asked question receipt >>= next) world post := rest _ _
theorem leaves_changeState_then {next : Unit → Action β} {update : ProviderState → ProviderState}
    (rest : Leaves (next ()) { world with provider := { world.provider with state := update world.provider.state } } post) :
    Leaves (changeState update >>= next) world post := rest
theorem leaves_changeFirmware_then {next : Unit → Action β} {update : Firmware → Firmware}
    (rest : Leaves (next ()) { world with firmware := update world.firmware } post) :
    Leaves (changeFirmware update >>= next) world post := rest

end

inductive HandoffResult
  | ok | invalidArgument | invalidGeometry | invalidState | accessFailed | timeout
deriving DecidableEq

abbrev magicApOffset : Nat := 0x000
abbrev magicFwOffset : Nat := 0x008
abbrev lockApOffset : Nat := 0x010
abbrev lockFwOffset : Nat := 0x011
abbrev turnOffset : Nat := 0x014
abbrev flushStateOffset : Nat := 0x020
abbrev flushAddrOffset : Nat := 0x028
abbrev flushSizeOffset : Nat := 0x030
abbrev flushStride : Nat := 0x018
abbrev flushCount : Nat := 0x041
abbrev pplMagic : U64 := 0x4b1d000000000002

def readRegion (env : Environment) (bits offset : Nat) : Action (Option (BitVec bits)) :=
  asked (fun turn => env.read turn bits offset) (fun _ value => .read bits offset value)
def writeRegion (env : Environment) (bits offset : Nat) (value : BitVec bits) : Action Bool :=
  asked (fun turn => env.write turn bits offset value) (fun _ answer => .wrote bits offset value answer)

abbrev read8 (env : Environment) (offset : Nat) : Action (Option (BitVec 8)) := readRegion env 8 offset
abbrev read32 (env : Environment) (offset : Nat) : Action (Option (BitVec 32)) := readRegion env 32 offset
abbrev read64 (env : Environment) (offset : Nat) : Action (Option (BitVec 64)) := readRegion env 64 offset
abbrev write8 (env : Environment) (offset : Nat) (value : BitVec 8) : Action Bool := writeRegion env 8 offset value
abbrev write32 (env : Environment) (offset : Nat) (value : BitVec 32) : Action Bool := writeRegion env 32 offset value
abbrev write64 (env : Environment) (offset : Nat) (value : BitVec 64) : Action Bool := writeRegion env 64 offset value

section
variable {β : Type} {env : Environment} {bits offset : Nat} {world : World} {post : Except Hung β → World → Prop}

theorem leaves_read_then {next : Option (BitVec bits) → Action β} (rest : ∀ turn value, Leaves (next value)
      { world with turn := turn, history := .read bits offset value :: world.history } post) :
    Leaves (readRegion env bits offset >>= next) world post := rest _ _
theorem leaves_write_then {value : BitVec bits} {next : Bool → Action β} (rest : ∀ turn answer, Leaves (next answer)
      { world with turn := turn, history := .wrote bits offset value answer :: world.history } post) :
    Leaves (writeRegion env bits offset value >>= next) world post := rest _ _

end

/-- `timed_out`. -/
def timedOut (env : Environment) (start timeout : U64) : Action Bool := do
  let now ← ask env.now
  pure (timeout ≤ now - start)
theorem leaves_timedOut_then {β : Type} {env : Environment} {start timeout : U64} {next : Bool → Action β} {world : World}
    {post : Except Hung β → World → Prop} (rest : ∀ turn out, Leaves (next out) { world with turn := turn } post) :
    Leaves (timedOut env start timeout >>= next) world post := rest _ _

/-- `relinquish`. -/
def relinquish (env : Environment) (result : HandoffResult) : Action HandoffResult := do
  if ← write8 env lockApOffset 0 then pure result else pure .accessFailed

/-- The inner loop of `AppleAgxGfxHandoffAcquire`; nothing when the turn is back. -/
def awaitTurn (env : Environment) (start timeout : U64) : Nat → Action (Option HandoffResult)
  | 0 => stop .handoff
  | rounds+1 => do
    match ← read32 env turnOffset with
    | none => pure (some .accessFailed)
    | some turn =>
      if turn = 0 then pure none
      else if ← timedOut env start timeout then pure (some .timeout)
      else awaitTurn env start timeout rounds

/-- A round of the outer loop of `AppleAgxGfxHandoffAcquire` in which the flag of the firmware is up. -/
def contend (env : Environment) (start timeout : U64) (again : Action HandoffResult) : Action HandoffResult := do
  match ← read32 env turnOffset with
  | none => relinquish env .accessFailed
  | some turn =>
    if turn ≠ 0 then
      if ← write8 env lockApOffset 0 then
        match ← awaitTurn env start timeout (env.rounds + 1) with
        | some result => pure result
        | none =>
          if ← write8 env lockApOffset 1 then again
          else pure .accessFailed
      else pure .accessFailed
    else if ← timedOut env start timeout then relinquish env .timeout
    else again

/-- The outer loop of `AppleAgxGfxHandoffAcquire`. -/
def acquireLoop (env : Environment) (start timeout : U64) : Nat → Action HandoffResult
  | 0 => stop .handoff
  | rounds+1 => do
    match ← read8 env lockFwOffset with
    | none => relinquish env .accessFailed
    | some fw =>
      if fw = 0 then
        changeHandoff (fun handoff => { handoff with locked := true })
        pure .ok
      else contend env start timeout (acquireLoop env start timeout rounds)

/-- `AppleAgxGfxHandoffAcquire`. -/
def handoffAcquire (env : Environment) (timeout : U64) : Action HandoffResult := do
  let world ← current
  if ¬ world.handoff.bound ∨ world.handoff.locked then pure .invalidState
  else
    let start ← ask env.now
    if ← write8 env lockApOffset 1 then acquireLoop env start timeout (env.rounds + 1)
    else pure .accessFailed

/-- `AppleAgxGfxHandoffRelease`. -/
def handoffRelease (env : Environment) : Action HandoffResult := do
  let world ← current
  if ¬ world.handoff.bound ∨ ¬ world.handoff.locked then pure .invalidState
  else if ← write32 env turnOffset 1 then
    if ← write8 env lockApOffset 0 then
      changeHandoff (fun handoff => { handoff with locked := false })
      pure .ok
    else pure .accessFailed
  else pure .accessFailed

/-- The loop of `AppleAgxGfxHandoffInitialize` that waits for the firmware's magic; nothing once it is there. -/
def awaitMagic (env : Environment) (deadline : U64) : Nat → Action (Option HandoffResult)
  | 0 => stop .handoff
  | rounds+1 => do
    match ← read64 env magicFwOffset with
    | none =>
      let _ ← handoffRelease env
      pure (some .accessFailed)
    | some magic =>
      if magic = pplMagic then pure none
      else
        let now ← ask env.now
        if deadline ≤ now then
          let _ ← handoffRelease env
          pure (some .timeout)
        else awaitMagic env deadline rounds

/-- The loop of `AppleAgxGfxHandoffInitialize` that clears the flush records: whether every write went through. -/
def clearFlushes (env : Environment) : List Nat → Action Bool
  | [] => pure true
  | index :: rest => do
    let offset := index * flushStride
    if ← write64 env (flushStateOffset + offset) 0 then
      if ← write64 env (flushAddrOffset + offset) 0 then
        if ← write64 env (flushSizeOffset + offset) 0 then clearFlushes env rest else pure false
      else pure false
    else pure false

/-- `AppleAgxGfxHandoffInitialize`. -/
def handoffInitialize (env : Environment) (deadline : U64) : Action HandoffResult := do
  let world ← current
  if ¬ world.handoff.bound ∨ world.handoff.locked then pure .invalidState
  else if world.handoff.initialized then pure .ok
  else
    let now ← ask env.now
    if deadline ≤ now then pure .timeout
    else if ← write64 env magicApOffset pplMagic then
      let acquired ← handoffAcquire env (deadline - now)
      if acquired ≠ .ok then pure acquired
      else
        match ← awaitMagic env deadline (env.rounds + 1) with
        | some result => pure result
        | none =>
          let released ← handoffRelease env
          if released ≠ .ok then pure released
          else if ← clearFlushes env (List.range flushCount) then
            changeHandoff (fun handoff => { handoff with initialized := true })
            pure .ok
          else pure .accessFailed
    else pure .accessFailed

def call (env : Environment) (primitive : Primitive) : Action Bool :=
  asked (fun turn => env.answer turn primitive) (fun world answer => .called world.firmware world.provider.state primitive answer)

/-- `provider_valid`: the primitives are there, since they were checked when they were installed. -/
def providerValid (world : World) : Bool := world.provider.state.initialized && world.handoff.bound

/-- `at_passive`. -/
def atPassive (env : Environment) : Action Bool := do
  let world ← current
  if providerValid world then ask env.isPassiveLevel else pure false

section
variable {β : Type} {env : Environment} {world : World} {post : Except Hung β → World → Prop}

variable {next : Bool → Action β}

theorem leaves_call_then {primitive : Primitive} (rest : ∀ turn answer, Leaves (next answer) { world with
      turn := turn, history := .called world.firmware world.provider.state primitive answer :: world.history } post) :
    Leaves (call env primitive >>= next) world post := rest _ _

theorem leaves_atPassive_then (rest : ∀ turn passive, Leaves (next passive) { world with turn := turn } post) :
    Leaves (atPassive env >>= next) world post := by
  unfold atPassive
  rw [leaves_bind,leaves_bind]
  simp only [leaves_current,Then]
  split
  · exact rest _ _
  exact rest world.turn false

end

/-- `provider_now_ms`. -/
def providerNowMs (env : Environment) : Action U64 := do
  if ← atPassive env then ask env.nowMs else pure 0

/-- `provider_power_on`. -/
def providerPowerOn (env : Environment) (deadline : U64) : Action Bool := do
  if ← atPassive env then
    let world ← current
    if world.provider.state ≠ onlyInitialized then pure false
    else if ← call env (.powerOn deadline) then
      changeState (fun state => { state with powered := true })
      pure true
    else pure false
  else pure false

/-- `provider_create_uat`. -/
def providerCreateUat (env : Environment) (deadline : U64) : Action Bool := do
  if ← atPassive env then
    let world ← current
    if world.provider.state ≠ { onlyInitialized with powered := true } then pure false
    else
      let (answer,pair,address) ← asked (fun turn => env.createFirmwareUat turn deadline)
        (fun _ given => .created deadline given.1 given.2.1 given.2.2)
      if ¬ answer ∨ pair.ttbr0 = 0 ∨ pair.ttbr1 = 0 ∨ address = 0 then pure false
      else
        changeProvider (fun provider => { provider with
          pair := pair, initdataAddress := address, state := { provider.state with uat := true } })
        pure true
  else pure false

/-- `acquire_handoff`. -/
def acquireHandoff (env : Environment) (deadline : U64) : Action Bool := do
  let now ← asked env.nowMs (fun _ now => .checked deadline now)
  if deadline < now then pure false
  else
    let result ← handoffAcquire env (deadline - now)
    pure (result = .ok)

/-- `release_handoff`. -/
def releaseHandoff (env : Environment) : Action Bool := do
  let result ← handoffRelease env
  pure (result = .ok)
abbrev bootCpuHandoff : Nat := 1
abbrev bootRoots : Nat := 2
abbrev bootManagement : Nat := 3
abbrev bootCleanup : Nat := 4

/-- `record_boot`. -/
def recordBoot (env : Environment) (phase : Nat) (success : Bool) : Action Unit := do
  let world ← current
  if env.recordsBootstrapPhase then note (.recorded phase success world.provider.state) else pure ()

/-- The publication of the roots between the boot and the management bootstrap. -/
def publishBootRoots (env : Environment) (deadline : U64) : Action Bool := do
  if ← acquireHandoff env deadline then
    let world ← current
    let success ← call env (.publishUatRoots world.provider.pair)
    if success then changeState (fun state => { state with published := true })
    if ← releaseHandoff env then pure success else pure false
  else pure false

/-- `provider_boot_asc` behind its guard. -/
def bootBehindGuard (env : Environment) (deadline : U64) : Action Bool := do
  if ← call env (.bootAsc deadline) then
    let handoffResult ← handoffInitialize env deadline
    recordBoot env bootCpuHandoff (handoffResult = .ok)
    if handoffResult ≠ .ok then pure false
    else if env.completesManagementBootstrap then
      let success ← publishBootRoots env deadline
      recordBoot env bootRoots success
      if ¬ success then pure false
      else
        let success ← call env (.completeManagementBootstrap deadline)
        recordBoot env bootManagement success
        pure success
    else pure true
  else
    recordBoot env bootCpuHandoff false
    pure false

/-- `provider_boot_asc`. -/
def providerBootAsc (env : Environment) (deadline : U64) : Action Bool := do
  if ← atPassive env then
    let world ← current
    if world.provider.state ≠ { onlyInitialized with powered := true, uat := true } then pure false
    else
      -- The cleanup is owed even when the start of the processor fails half-way.
      changeState (fun state => { state with asc := true })
      bootBehindGuard env deadline
  else pure false

def endpointStarted (endpoint : U32) (state : ProviderState) : Bool :=
  if endpoint = firmwareEndpoint then state.fwEndpoint else state.doorbellEndpoint
def setEndpoint (endpoint : U32) (value : Bool) (state : ProviderState) : ProviderState :=
  if endpoint = firmwareEndpoint then { state with fwEndpoint := value } else { state with doorbellEndpoint := value }

section
variable (endpoint : U32) (value : Bool) (state : ProviderState)

@[simp] theorem setEndpoint_uat : (setEndpoint endpoint value state).uat = state.uat := by
  unfold setEndpoint; split <;> rfl
@[simp] theorem setEndpoint_asc : (setEndpoint endpoint value state).asc = state.asc := by
  unfold setEndpoint; split <;> rfl
@[simp] theorem setEndpoint_published : (setEndpoint endpoint value state).published = state.published := by
  unfold setEndpoint; split <;> rfl

end

/-- What the start of an endpoint requires, the publication left open. -/
def endpointRequired (endpoint : U32) : ProviderState :=
  { onlyInitialized with powered := true, uat := true, asc := true, fwEndpoint := endpoint ≠ firmwareEndpoint }

/-- `provider_start_endpoint`. -/
def providerStartEndpoint (env : Environment) (endpoint : U32) (deadline : U64) : Action Bool := do
  if ← atPassive env then
    if endpoint ≠ firmwareEndpoint ∧ endpoint ≠ doorbellEndpoint then pure false
    else
      let world ← current
      if world.provider.state ≠ endpointRequired endpoint ∧
          world.provider.state ≠ { endpointRequired endpoint with published := true } then pure false
      else if ← call env (.startEndpoint endpoint deadline) then
        changeState (setEndpoint endpoint true)
        pure true
      else pure false
  else pure false

/-- What `provider_publish_initdata` requires. -/
def publishRequired : ProviderState := ⟨true,true,true,true,true,true,false⟩

/-- `provider_publish_initdata`: its answer and the address it stores. -/
def providerPublishInitdata (env : Environment) (deadline : U64) : Action (Bool × U64) := do
  if ← atPassive env then
    let world ← current
    if world.provider.state = { publishRequired with published := true } then pure (true,world.provider.initdataAddress)
    else if world.provider.state ≠ publishRequired then pure (false,0)
    else if ← acquireHandoff env deadline then
      if ← call env (.publishUatRoots world.provider.pair) then
        changeState (fun state => { state with published := true })
        if ← releaseHandoff env then pure (true,world.provider.initdataAddress)
        else
          -- The roots changed under the lock, so they are taken back before the failure.
          if ← call env .unpublishUatRoots then changeState (fun state => { state with published := false })
          let left ← current
          if left.handoff.locked then
            let _ ← releaseHandoff env
          pure (false,0)
      else
        let _ ← releaseHandoff env
        pure (false,0)
    else pure (false,0)
  else pure (false,0)

/-- `provider_send_initdata`. -/
def providerSendInitdata (env : Environment) (address deadline : U64) : Action Bool := do
  if ← atPassive env then
    let world ← current
    if ¬ world.provider.state.published ∨ address = 0 ∨ address ≠ world.provider.initdataAddress then pure false
    else call env (.sendInitdata address deadline)
  else pure false

/-- What `provider_device_control_init` and `provider_update_idle_timestamp` share. -/
def whilePublished (env : Environment) (primitive : Primitive) : Action Bool := do
  if ← atPassive env then
    let world ← current
    if ¬ world.provider.state.published then pure false else call env primitive
  else pure false

/-- `provider_device_control_init`. -/
def providerDeviceControlInit (env : Environment) (deadline : U64) : Action Bool :=
  whilePublished env (.sendDeviceControlInit deadline)

/-- `provider_update_idle_timestamp`. -/
def providerUpdateIdleTimestamp (env : Environment) (deadline : U64) : Action Bool :=
  whilePublished env (.updateIdleTimestamp deadline)

/-- `Handoff->Locked || acquire_handoff(...)`. -/
def holdHandoff (env : Environment) (deadline : U64) : Action Bool := do
  let world ← current
  if world.handoff.locked then pure true else acquireHandoff env deadline

/-- `provider_unpublish_initdata`. -/
def providerUnpublishInitdata (env : Environment) (deadline : U64) : Action Bool := do
  if ← atPassive env then
    let world ← current
    if env.retireMappingsAfterAscStop ∧ world.provider.state.asc then
      if world.handoff.locked then releaseHandoff env else pure true
    else if ¬ world.provider.state.published then
      if world.handoff.locked then releaseHandoff env else pure true
    else
      if ¬ (← holdHandoff env deadline) then pure false
      else if ← call env .unpublishUatRoots then
        changeState (fun state => { state with published := false })
        releaseHandoff env
      else
        let _ ← releaseHandoff env
        pure false
  else pure false

/-- `provider_stop_endpoint`. -/
def providerStopEndpoint (env : Environment) (endpoint : U32) (deadline : U64) : Action Bool := do
  if ← atPassive env then
    if endpoint ≠ doorbellEndpoint ∧ endpoint ≠ firmwareEndpoint then pure false
    else
      let world ← current
      if ¬ endpointStarted endpoint world.provider.state then pure false
      else if ← call env (.stopEndpoint endpoint deadline) then
        changeState (setEndpoint endpoint false)
        pure true
      else pure false
  else pure false

/-- The stop of a coprocessor that was booted. -/
def stopRunningAsc (env : Environment) (deadline : U64) : Action Bool := do
  let world ← current
  if world.provider.state.asc then call env (.stopAsc deadline) else pure true

/-- The roots that are kept until the coprocessor has stopped. -/
def retireMappings (env : Environment) (deadline : U64) : Action Bool :=
  if env.retireMappingsAfterAscStop then providerUnpublishInitdata env deadline else pure true

/-- `provider_stop_asc`. -/
def providerStopAsc (env : Environment) (deadline : U64) : Action Bool := do
  if ← atPassive env then
    if ← providerUnpublishInitdata env deadline then
      if ¬ (← stopRunningAsc env deadline) then
        recordBoot env bootCleanup false
        pure false
      else
        changeState (fun state => { state with asc := false, fwEndpoint := false, doorbellEndpoint := false })
        let retired ← retireMappings env deadline
        recordBoot env bootCleanup retired
        pure retired
    else
      recordBoot env bootCleanup false
      pure false
  else pure false

/-- `provider_destroy_uat`. -/
def providerDestroyUat (env : Environment) (deadline : U64) : Action Bool := do
  if ← atPassive env then
    let world ← current
    if ¬ world.provider.state.uat ∨ world.provider.state.asc ∨ world.provider.state.published then pure false
    else if ← call env (.destroyFirmwareUat deadline) then
      changeProvider (fun provider => ⟨⟨0,0⟩,0,{ provider.state with uat := false }⟩)
      pure true
    else pure false
  else pure false

/-- `provider_power_off`. -/
def providerPowerOff (env : Environment) (deadline : U64) : Action Bool := do
  if ← atPassive env then
    let world ← current
    if world.provider.state ≠ { onlyInitialized with powered := true } then pure false
    else if ← call env (.powerOff deadline) then
      changeState (fun _ => onlyInitialized)
      pure true
    else pure false
  else pure false

/-- `AppleAgxFirmwareBeginDeadline`: the start and the deadline. -/
def beginDeadline (env : Environment) (callback : Callback) (timeoutMs : U64) : Action (Option (U64 × U64)) := do
  let startMs ← providerNowMs env
  if ~~~(0 : U64) - timeoutMs < startMs then
    note (.overflowed callback startMs)
    pure none
  else pure (some (startMs,startMs + timeoutMs))

/-- `AppleAgxFirmwareFinishOperation`. -/
def finishOperation (env : Environment) (callback : Callback) (startMs deadlineMs : U64) (transportResult : Bool) :
    Action FirmwareResult := do
  let endMs ← providerNowMs env
  note (.finished callback startMs deadlineMs endMs transportResult)
  if endMs < startMs then pure .clockRegression
  else if deadlineMs < endMs then pure .timeout
  else if ¬ transportResult then pure .transportFailed
  else pure .ok

/-- A callback between its deadlines. -/
def operation (env : Environment) (callback : Callback) (timeoutMs : U64) (run : U64 → Action Bool) : Action FirmwareResult := do
  match ← beginDeadline env callback timeoutMs with
  | none => pure .deadlineOverflow
  | some (startMs,deadlineMs) =>
    let transportResult ← run deadlineMs
    finishOperation env callback startMs deadlineMs transportResult

/-- Both masks without the bit of a step. -/
def cleared (firmware : Firmware) (step : FirmwareStep) : Firmware := { firmware with
  completedMask := setStep firmware.completedMask step false, cleanupMask := setStep firmware.cleanupMask step false }

/-- What `AppleAgxFirmwareCleanupFinish` notes down; it is not reached without a deadline. -/
def noteCleanup (step : FirmwareStep) (result : FirmwareResult) (firmware : Firmware) : Firmware :=
  if result = .ok then cleared firmware step
  else if result = .deadlineOverflow then firmware
  else { firmware with lastResult := .cleanupFailed }

theorem noteCleanup_failed {step : FirmwareStep} {result : FirmwareResult} (fails : result ≠ .ok) (firmware : Firmware) :
    (noteCleanup step result firmware).completedMask = firmware.completedMask ∧
      (noteCleanup step result firmware).cleanupMask = firmware.cleanupMask ∧
      (noteCleanup step result firmware).phase = firmware.phase := by
  unfold noteCleanup
  rw [if_neg fails]
  split <;> exact ⟨rfl,rfl,rfl⟩

/-- `APPLE_AGX_CLEANUP_SIMPLE` with `AppleAgxFirmwareCleanupFinish`: whether the cleanup of a step failed. -/
def cleanup (env : Environment) (step : FirmwareStep) (callback : Callback) (run : U64 → Action Bool) : Action Bool := do
  let world ← current
  if world.firmware.completedMask step ∨ world.firmware.cleanupMask step then
    let result ← operation env callback stopTimeoutMs run
    changeFirmware (noteCleanup step result)
    pure (result ≠ .ok)
  else pure false

/-- The cleanups behind the one of the initdata, in their order. -/
def cleanupOrder (env : Environment) : List (FirmwareStep × Callback × (U64 → Action Bool)) :=
  [(.doorbellEndpoint,.stopEndpoint doorbellEndpoint,providerStopEndpoint env doorbellEndpoint),
   (.endpoint,.stopEndpoint firmwareEndpoint,providerStopEndpoint env firmwareEndpoint),
   (.ascRunning,.stopAsc,providerStopAsc env),
   (.uatReady,.destroyFirmwareUat,providerDestroyUat env),
   (.powered,.powerOff,providerPowerOff env)]

def cleanupAll (env : Environment) : List (FirmwareStep × Callback × (U64 → Action Bool)) → Action Bool
  | [] => pure false
  | (step,callback,run) :: rest => do
    let failed ← cleanup env step callback run
    let failed' ← cleanupAll env rest
    pure (failed || failed')

/-- What a rollback notes down before its first cleanup. -/
def beginRollback (firmware : Firmware) : Firmware := { firmware with
  phase := .rollingBack, lastResult := .ok
  completedMask := fun step => firmware.completedMask step && !observationBits step }

/-- The address goes with its publication. -/
def dropAddress (firmware : Firmware) : Firmware :=
  if firmware.completedMask .initdataPublished then firmware else { firmware with initdataAddress := 0 }
theorem dropAddress_masks (firmware : Firmware) : (dropAddress firmware).completedMask = firmware.completedMask ∧
    (dropAddress firmware).cleanupMask = firmware.cleanupMask := by
  unfold dropAddress
  split <;> exact ⟨rfl,rfl⟩

/-- `AppleAgxFirmwareRollback`. A mask has only the bits of the steps. -/
def firmwareRollback (env : Environment) : Action FirmwareResult := do
  let world ← current
  if ¬ isZero (setStep world.firmware.cleanupMask .ascRunning false) then
    changeFirmware (firmwareFail .invalid)
    pure .invalid
  else if isZero world.firmware.completedMask ∧ isZero world.firmware.cleanupMask then
    changeFirmware (fun firmware => { firmware with phase := .stopped, lastResult := .ok })
    pure .ok
  else
    changeFirmware beginRollback
    let failed ← cleanup env .initdataPublished .unpublishInitdata (providerUnpublishInitdata env)
    changeFirmware dropAddress
    let failed' ← cleanupAll env (cleanupOrder env)
    let left ← current
    if failed ∨ failed' ∨ ¬ isZero left.firmware.completedMask ∨ ¬ isZero left.firmware.cleanupMask then
      changeFirmware (fun firmware => { firmware with phase := .failed, lastResult := .cleanupFailed })
      pure .cleanupFailed
    else
      changeFirmware (fun firmware => { firmware with phase := .stopped, lastResult := .ok })
      pure .ok

/-- `AppleAgxFirmwareComplete`. -/
def complete (phase : FirmwarePhase) (step : FirmwareStep) (firmware : Firmware) : Firmware := { firmware with
  completedMask := setStep firmware.completedMask step true, phase := phase, lastResult := .ok }

/-- One step of `AppleAgxFirmwareStart`: its operation, and `AppleAgxFirmwareComplete` when that went through. -/
def startStep (step : FirmwareStep) (phase : FirmwarePhase) (run : Action FirmwareResult) :
    Action FirmwareResult := do
  let result ← run
  if result = .ok then changeFirmware (complete phase step)
  pure result

/-- The operation that publishes the initdata and checks its address. -/
def publishOperation (env : Environment) : Action FirmwareResult := do
  match ← beginDeadline env .publishInitdata initdataTimeoutMs with
  | none => pure .deadlineOverflow
  | some (startMs,deadlineMs) =>
    let (transportResult,address) ← providerPublishInitdata env deadlineMs
    changeFirmware (fun firmware => { firmware with initdataAddress := address })
    let result ← finishOperation env .publishInitdata startMs deadlineMs transportResult
    if result = .ok ∧ (address = 0 ∨ initdataAddressMask < address) then pure .invalid else pure result

/-- The operation that sends the published address. -/
def sendOperation (env : Environment) : Action FirmwareResult := do
  let world ← current
  operation env .sendInitdata initdataTimeoutMs (providerSendInitdata env world.firmware.initdataAddress)
def oweAsc (firmware : Firmware) : Firmware := { firmware with cleanupMask := setStep firmware.cleanupMask .ascRunning true }

/-- The boot, whose cleanup is owed before it runs. -/
def bootOperation (env : Environment) : Action FirmwareResult := do
  changeFirmware oweAsc
  operation env .bootAsc ascBootTimeoutMs (providerBootAsc env)

/-- The steps of `AppleAgxFirmwareStart`, in their order. -/
def startOrder (env : Environment) : List (FirmwareStep × FirmwarePhase × Action FirmwareResult) :=
  [(.powered,.powered,operation env .powerOn initdataTimeoutMs (providerPowerOn env)),
   (.uatReady,.uatReady,operation env .createFirmwareUat initdataTimeoutMs (providerCreateUat env)),
   (.ascRunning,.ascRunning,bootOperation env),
   (.endpoint,.endpointStarted,
    operation env (.startEndpoint firmwareEndpoint) endpointTimeoutMs (providerStartEndpoint env firmwareEndpoint)),
   (.doorbellEndpoint,.doorbellEndpointStarted,
    operation env (.startEndpoint doorbellEndpoint) endpointTimeoutMs (providerStartEndpoint env doorbellEndpoint)),
   (.initdataPublished,.initdataPublished,publishOperation env),
   (.initdataSent,.initdataSent,sendOperation env),
   (.deviceControl,.deviceControlInitialized,
    operation env .sendDeviceControlInit initdataTimeoutMs (providerDeviceControlInit env)),
   (.idleTimestamp,.idleTimestampUpdated,
    operation env .updateIdleTimestamp initdataTimeoutMs (providerUpdateIdleTimestamp env))]

/-- The steps until one fails; its failure. -/
def startSteps : List (FirmwareStep × FirmwarePhase × Action FirmwareResult) → Action FirmwareResult
  | [] => pure .ok
  | (step,phase,run) :: rest => do
    let result ← startStep step phase run
    if result ≠ .ok then pure result else startSteps rest

/-- `AppleAgxFirmwareValidateStart` and the steps, up to the call of `AppleAgxFirmwareAbortStart`; nothing when
    the start is refused. -/
def firmwareBringUp (env : Environment) : Action (Option FirmwareResult) := do
  let world ← current
  if (world.firmware.phase ≠ .off ∧ world.firmware.phase ≠ .stopped) ∨ ¬ isZero world.firmware.completedMask ∨
      ¬ isZero world.firmware.cleanupMask then pure none
  else
    changeFirmware (fun firmware => { firmware with phase := .off, initdataAddress := 0, lastResult := .ok })
    let result ← startSteps (startOrder env)
    pure (some result)

/-- `AppleAgxFirmwareAbortStart`. -/
def abortStart (env : Environment) (failure : FirmwareResult) : Action FirmwareResult := do
  changeFirmware (firmwareFail failure)
  let rollback ← firmwareRollback env
  if rollback ≠ .ok then pure rollback
  else
    changeFirmware (fun firmware => { firmware with lastResult := failure })
    pure failure

/-- `AppleAgxFirmwareStart`. -/
def firmwareStart (env : Environment) : Action FirmwareResult := do
  match ← firmwareBringUp env with
  | none => pure .invalid
  | some .ok => pure .ok
  | some failure => abortStart env failure

/-- `AppleAgxFirmwareInitialize` and `AppleAgxFirmwareProviderInitialize` over a handoff that is bound and not locked. -/
def initializedWorld (handoffInitialized : Bool) : World :=
  ⟨firmwareInitialize,⟨⟨0,0⟩,0,onlyInitialized⟩,⟨true,false,handoffInitialized⟩,0,[]⟩
inductive Request
  | start | rollback
deriving DecidableEq
def serve (env : Environment) : Request → Action FirmwareResult
  | .start => firmwareStart env
  | .rollback => firmwareRollback env

/-- The worlds between the calls of the owner, and those in which a failed start calls the rollback. -/
inductive Reached (env : Environment) : World → Prop
  | initialized (handoffInitialized : Bool) : Reached env (initializedWorld handoffInitialized)
  | served {world left : World} (request : Request) {result : FirmwareResult} (reached : Reached env world)
      (serves : serve env request world = (.ok result,left)) : Reached env left
  | aborted {world left : World} {failure : FirmwareResult} (reached : Reached env world) (fails : failure ≠ .ok)
      (rises : firmwareBringUp env world = (.ok (some failure),left)) :
      Reached env { left with firmware := firmwareFail failure left.firmware }

theorem Reached.after {env : Environment} {world : World} (reached : Reached env world) (request : Request)
    {result : FirmwareResult} (answers : (serve env request world).1 = .ok result) :
    Reached env (serve env request world).2 :=
  .served request reached (Prod.ext answers rfl)

end WindowsOnM1.FirmwareProvider
