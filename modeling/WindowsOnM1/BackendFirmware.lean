import WindowsOnM1.Actions
import Mathlib.Data.BitVec

/-!
The firmware coordinator of `apple_agx_firmware.c`. The callbacks answer by the turn in
which they are called; the host keeps the calls that matter to the owner of the firmware.
-/
namespace WindowsOnM1.BackendFirmware
open Actions

abbrev U32 := BitVec 32
abbrev U64 := BitVec 64

/-- The bits of `CompletedMask`. -/
inductive FirmwareStep
  | powered | uatReady | ascRunning | endpoint | doorbellEndpoint | initdataPublished | initdataSent | deviceControl
  | idleTimestamp
deriving DecidableEq

abbrev Mask := FirmwareStep → Bool
def noSteps : Mask := fun _ => false
def allSteps : List FirmwareStep :=
  [.powered,.uatReady,.ascRunning,.endpoint,.doorbellEndpoint,.initdataPublished,.initdataSent,.deviceControl,
   .idleTimestamp]
def isZero (mask : Mask) : Bool := allSteps.all (fun step => !mask step)
def setStep (mask : Mask) (step : FirmwareStep) (value : Bool) : Mask := fun other => if other = step then value else mask other
inductive FirmwarePhase
  | off | powered | uatReady | ascRunning | endpointStarted | doorbellEndpointStarted | initdataPublished | initdataSent
  | deviceControlInitialized | idleTimestampUpdated | rollingBack | stopped | failed
deriving DecidableEq
inductive FirmwareResult
  | ok | invalid | deadlineOverflow | timeout | clockRegression | transportFailed | cleanupFailed
deriving DecidableEq

/-- `APPLE_AGX_FIRMWARE`. -/
structure Firmware where
  phase : FirmwarePhase
  completedMask : Mask
  initdataAddress : U64
  lastResult : FirmwareResult
  cleanupMask : Mask

/-- `AppleAgxFirmwareInitialize`. -/
def firmwareInitialize : Firmware := ⟨.off,noSteps,0,.ok,noSteps⟩

/-- No step is completed and no cleanup is owed. -/
def rolledBack (firmware : Firmware) : Bool := isZero firmware.completedMask && isZero firmware.cleanupMask

/-- `APPLE_AGX_FIRMWARE_IO` without the receipts; a callback answers in each turn as it will. -/
structure FirmwareIo where
  nowMs : Nat → U64
  powerOn : Nat → U64 → Bool
  createFirmwareUat : Nat → U64 → Bool
  bootAsc : Nat → U64 → Bool
  startEndpoint : Nat → U32 → U64 → Bool
  publishInitdata : Nat → U64 → Bool × U64
  sendInitdata : Nat → U64 → U64 → Bool
  sendDeviceControlInit : Nat → U64 → Bool
  updateIdleTimestamp : Nat → U64 → Bool
  unpublishInitdata : Nat → U64 → Bool
  stopEndpoint : Nat → U32 → U64 → Bool
  stopAsc : Nat → U64 → Bool
  destroyFirmwareUat : Nat → U64 → Bool
  powerOff : Nat → U64 → Bool

/-- A cleanup of a step that had been completed or not, and whether it succeeded. -/
structure Cleanup where
  step : FirmwareStep
  completed : Bool
  done : Bool
deriving DecidableEq

/-- The firmware, the number of callbacks so far and the cleanups. -/
structure FirmwareHost where
  firmware : Firmware
  turn : Nat
  cleanups : List Cleanup

abbrev FirmwareAction (α : Type) := StateM FirmwareHost α
def ask {α : Type} (callback : Nat → α) : FirmwareAction α := fun host => (callback host.turn,{ host with turn := host.turn + 1 })
def changeFirmware (change : Firmware → Firmware) : FirmwareAction Unit :=
  modify (fun host => { host with firmware := change host.firmware })
@[simp] theorem gives_ask {α : Type} (callback : Nat → α) (host : FirmwareHost) (post : α → FirmwareHost → Prop) :
    Gives (ask callback) host post = post (callback host.turn) { host with turn := host.turn + 1 } := (rfl)
@[simp] theorem gives_changeFirmware (change : Firmware → Firmware) (host : FirmwareHost) (post : Unit → FirmwareHost → Prop) :
    Gives (changeFirmware change) host post = post () { host with firmware := change host.firmware } := (rfl)

abbrev initdataTimeoutMs : U64 := 500
abbrev ascBootTimeoutMs : U64 := 3000
abbrev endpointTimeoutMs : U64 := 500
abbrev stopTimeoutMs : U64 := 1000
abbrev firmwareEndpoint : U32 := 0x20
abbrev doorbellEndpoint : U32 := 0x21
abbrev initdataAddressMask : U64 := 0x00000fffffffffff

/-- `AppleAgxFirmwareBeginDeadline`: the start and the deadline. -/
def beginDeadline (io : FirmwareIo) (timeoutMs : U64) : FirmwareAction (Option (U64 × U64)) := do
  let startMs ← ask io.nowMs
  if ~~~(0 : U64) - timeoutMs < startMs then pure none else pure (some (startMs,startMs + timeoutMs))

/-- `AppleAgxFirmwareFinishOperation`. -/
def finishOperation (io : FirmwareIo) (startMs deadlineMs : U64) (transportResult : Bool) : FirmwareAction FirmwareResult := do
  let endMs ← ask io.nowMs
  if endMs < startMs then pure .clockRegression
  else if deadlineMs < endMs then pure .timeout
  else if ¬ transportResult then pure .transportFailed
  else pure .ok

/-- A callback between its deadlines. -/
def operation (io : FirmwareIo) (timeoutMs : U64) (callback : Nat → U64 → Bool) : FirmwareAction FirmwareResult := do
  match ← beginDeadline io timeoutMs with
  | none => pure .deadlineOverflow
  | some (startMs,deadlineMs) =>
    let transportResult ← ask (fun turn => callback turn deadlineMs)
    finishOperation io startMs deadlineMs transportResult

/-- `AppleAgxFirmwareFail`. -/
def firmwareFail (result : FirmwareResult) (firmware : Firmware) : Firmware :=
  { firmware with phase := .failed, lastResult := if result = .ok then .invalid else result }

/-- `APPLE_AGX_CLEANUP_SIMPLE`: whether the cleanup of a step failed. -/
def cleanup (io : FirmwareIo) (step : FirmwareStep) (callback : Nat → U64 → Bool) : FirmwareAction Bool := do
  let host ← get
  if host.firmware.completedMask step ∨ host.firmware.cleanupMask step then
    let result ← operation io stopTimeoutMs callback
    changeFirmware (fun firmware =>
      if result = .ok then { firmware with
        completedMask := setStep firmware.completedMask step false, cleanupMask := setStep firmware.cleanupMask step false }
      else if result = .deadlineOverflow then firmware
      else { firmware with lastResult := .cleanupFailed })
    modify (fun left => { left with cleanups := left.cleanups ++ [⟨step,host.firmware.completedMask step,result = .ok⟩] })
    pure (result ≠ .ok)
  else pure false

/-- The cleanups behind the one of the initdata, in their order. -/
def cleanupOrder (io : FirmwareIo) : List (FirmwareStep × (Nat → U64 → Bool)) :=
  [(.doorbellEndpoint,fun turn => io.stopEndpoint turn doorbellEndpoint),
   (.endpoint,fun turn => io.stopEndpoint turn firmwareEndpoint),
   (.ascRunning,io.stopAsc),
   (.uatReady,io.destroyFirmwareUat),
   (.powered,io.powerOff)]

def cleanupAll (io : FirmwareIo) : List (FirmwareStep × (Nat → U64 → Bool)) → FirmwareAction Bool
  | [] => pure false
  | (step,callback) :: rest => do
    let failed ← cleanup io step callback
    let failed' ← cleanupAll io rest
    pure (failed || failed')

/-- `APPLE_AGX_FIRMWARE_OBSERVATION_BITS`. -/
def observationBits : Mask := fun step => step = .initdataSent ∨ step = .deviceControl ∨ step = .idleTimestamp

/-- `AppleAgxFirmwareRollback`. A mask has only the bits of the steps. -/
def firmwareRollback (io : FirmwareIo) : FirmwareAction FirmwareResult := do
  let host ← get
  if ¬ isZero (setStep host.firmware.cleanupMask .ascRunning false) then
    changeFirmware (firmwareFail .invalid)
    pure .invalid
  else if isZero host.firmware.completedMask ∧ isZero host.firmware.cleanupMask then
    changeFirmware (fun firmware => { firmware with phase := .stopped, lastResult := .ok })
    pure .ok
  else
    changeFirmware (fun firmware => { firmware with
      phase := .rollingBack, lastResult := .ok
      completedMask := fun step => firmware.completedMask step && !observationBits step })
    let failed ← cleanup io .initdataPublished io.unpublishInitdata
    changeFirmware (fun firmware =>
      if firmware.completedMask .initdataPublished then firmware else { firmware with initdataAddress := 0 })
    let failed' ← cleanupAll io (cleanupOrder io)
    let left ← get
    if failed ∨ failed' ∨ ¬ isZero left.firmware.completedMask ∨ ¬ isZero left.firmware.cleanupMask then
      changeFirmware (fun firmware => { firmware with phase := .failed, lastResult := .cleanupFailed })
      pure .cleanupFailed
    else
      changeFirmware (fun firmware => { firmware with phase := .stopped, lastResult := .ok })
      pure .ok

/-- `AppleAgxFirmwareAbortStart`. -/
def abortStart (io : FirmwareIo) (failure : FirmwareResult) : FirmwareAction FirmwareResult := do
  changeFirmware (firmwareFail failure)
  let rollback ← firmwareRollback io
  if rollback ≠ .ok then pure rollback
  else
    changeFirmware (fun firmware => { firmware with lastResult := failure })
    pure failure

/-- What follows the operation of a step: `AppleAgxFirmwareComplete` and the rest, or the end of the start. -/
def finishStep (io : FirmwareIo) (phase : FirmwarePhase) (step : FirmwareStep) (result : FirmwareResult)
    (rest : FirmwareAction FirmwareResult) : FirmwareAction FirmwareResult :=
  if result ≠ .ok then abortStart io result
  else do
    changeFirmware (fun firmware => { firmware with
      completedMask := setStep firmware.completedMask step true, phase := phase, lastResult := .ok })
    rest

/-- `APPLE_AGX_START_SIMPLE`. -/
def startStep (io : FirmwareIo) (timeoutMs : U64) (callback : Nat → U64 → Bool) (phase : FirmwarePhase) (step : FirmwareStep)
    (rest : FirmwareAction FirmwareResult) : FirmwareAction FirmwareResult := do
  let result ← operation io timeoutMs callback
  finishStep io phase step result rest

/-- The operation that publishes the initdata and checks its address. -/
def publishOperation (io : FirmwareIo) : FirmwareAction FirmwareResult := do
  match ← beginDeadline io initdataTimeoutMs with
  | none => pure .deadlineOverflow
  | some (startMs,deadlineMs) =>
    let (transportResult,address) ← ask (fun turn => io.publishInitdata turn deadlineMs)
    changeFirmware (fun firmware => { firmware with initdataAddress := address })
    let result ← finishOperation io startMs deadlineMs transportResult
    if result = .ok ∧ (address = 0 ∨ initdataAddressMask < address) then pure .invalid else pure result

/-- The operation that sends the published address. -/
def sendOperation (io : FirmwareIo) : FirmwareAction FirmwareResult := do
  let host ← get
  operation io initdataTimeoutMs (fun turn => io.sendInitdata turn host.firmware.initdataAddress)

/-- `AppleAgxFirmwareStart`. -/
def firmwareStart (io : FirmwareIo) : FirmwareAction FirmwareResult := do
  let host ← get
  if (host.firmware.phase ≠ .off ∧ host.firmware.phase ≠ .stopped) ∨ ¬ isZero host.firmware.completedMask ∨
      ¬ isZero host.firmware.cleanupMask then pure .invalid
  else
    changeFirmware (fun firmware => { firmware with phase := .off, initdataAddress := 0, lastResult := .ok })
    startStep io initdataTimeoutMs io.powerOn .powered .powered <|
      startStep io initdataTimeoutMs io.createFirmwareUat .uatReady .uatReady do
        -- The boot may take ownership and then fail, so its cleanup is owed from here on.
        changeFirmware (fun firmware => { firmware with cleanupMask := setStep firmware.cleanupMask .ascRunning true })
        startStep io ascBootTimeoutMs io.bootAsc .ascRunning .ascRunning <|
          startStep io endpointTimeoutMs (fun turn => io.startEndpoint turn firmwareEndpoint) .endpointStarted .endpoint <|
          startStep io endpointTimeoutMs (fun turn => io.startEndpoint turn doorbellEndpoint) .doorbellEndpointStarted
            .doorbellEndpoint do
            let published ← publishOperation io
            finishStep io .initdataPublished .initdataPublished published do
              let sent ← sendOperation io
              finishStep io .initdataSent .initdataSent sent <|
                startStep io initdataTimeoutMs io.sendDeviceControlInit .deviceControlInitialized .deviceControl <|
                startStep io initdataTimeoutMs io.updateIdleTimestamp .idleTimestampUpdated .idleTimestamp <|
                pure .ok

end WindowsOnM1.BackendFirmware
