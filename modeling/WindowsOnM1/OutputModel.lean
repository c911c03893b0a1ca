import WindowsOnM1.Actions
import Mathlib.Data.BitVec

/-!
The completed outputs and display leases of `render_completed_output.c`, over any outputs,
leases and allocations. A pointer is an `Option`; `none` is NULL.
-/
namespace WindowsOnM1.OutputModel

abbrev U32 := BitVec 32
abbrev U64 := BitVec 64

/-- `ADMISSION_ALLOCATION_OBJECT_MAGIC`. -/
abbrev objectMagic : U32 := 0x4f4d4152

/-- `ADMISSION_COMPLETED_OUTPUT_VERSION`. -/
abbrev outputVersion : U32 := 1

/-- The fields of `ADMISSION_ALLOCATION_DESCRIPTION` that an output is compared with. -/
structure Description where
  format : U32
  width : U32
  height : U32
  pitch : U32
  size : U64
deriving DecidableEq

/-- `ADMISSION_ALLOCATION_OBJECT`. -/
structure Allocation where
  magic : U32
  openCount : U32
  description : Description
deriving DecidableEq

/-- `ADMISSION_BACKEND_OUTPUT_VIEW`. -/
structure View where
  allocationCpuAddress : U64
  allocationGpuAddress : U64
  allocationPhysicalAddress : U64
  allocationBytes : U32
  renderedCpuAddress : U64
  renderedGpuAddress : U64
  renderedPhysicalAddress : U64
  renderedOffset : U32
  renderedBytes : U32
  allocationWidth : U32
  allocationHeight : U32
  allocationPitch : U32
  allocationFormat : U32
  renderWidth : U32
  renderHeight : U32
  renderPitch : U32
  expectedColor : U32
  backgroundColor : U32
  verificationKind : U32
  framebuffer : BitVec 8
deriving DecidableEq

/-- `ADMISSION_COMPLETED_OUTPUT_PHASE`. -/
inductive Phase
  | empty | captured | backendReleased | packetRetired | notified | presenting | publishedPending | latched | ownershipUnknown
deriving DecidableEq

/-- `ADMISSION_COMPLETED_OUTPUT`. -/
structure Output (α : Type) where
  version : U32
  phase : Phase
  generation : U32
  fence : U32
  captureCount : U32
  releaseCount : U32
  notifyCount : U32
  presentCount : U32
  accessAttempted : U32
  accessStatus : U32
  presentationAttempted : U32
  presentationStatus : U32
  presentationSequence : U64
  view : View
  owner : Option α

/-- `ADMISSION_DISPLAY_OUTPUT_LEASE`. -/
structure Lease (α : Type) where
  version : U32
  active : Bool
  generation : U32
  fence : U32
  view : View
  owner : Option α

variable {ι κ α : Type}

structure World (ι κ α : Type) where
  outputs : ι → Output α
  leases : κ → Lease α
  allocations : α → Allocation
abbrev OutputAction (ι κ α β : Type) := StateM (World ι κ α) β
def noView : View := ⟨0,0,0,0,0,0,0,0,0,0,0,0,0,0,0,0,0,0,0,0⟩

/-- `AdmissionCompletedOutputInitialize`. -/
def noOutput : Output α := ⟨outputVersion,.empty,0,0,0,0,0,0,0,0,0,0,0,noView,none⟩

/-- `AdmissionDisplayOutputLeaseInitialize`. -/
def noLease : Lease α := ⟨outputVersion,false,0,0,noView,none⟩

/-- `AdmissionAllocationOpen`. -/
def allocationOpen (allocation : Allocation) : Option Allocation :=
  if allocation.magic ≠ objectMagic ∨ allocation.openCount = ~~~0 then none
  else some { allocation with openCount := allocation.openCount + 1 }

/-- `AdmissionAllocationClose`. -/
def allocationClose (allocation : Allocation) : Option Allocation :=
  if allocation.magic ≠ objectMagic ∨ allocation.openCount = 0 then none
  else some { allocation with openCount := allocation.openCount - 1 }

/-- `owner_valid`. -/
def ownerValid (owner : Allocation) (view : View) : Bool :=
  owner.magic = objectMagic ∧
  owner.description.size = view.allocationBytes.setWidth 64 ∧ owner.description.width = view.allocationWidth ∧
  owner.description.height = view.allocationHeight ∧ owner.description.pitch = view.allocationPitch ∧
  owner.description.format = view.allocationFormat ∧
  view.allocationCpuAddress ≠ 0 ∧ view.allocationGpuAddress ≠ 0 ∧ view.allocationPhysicalAddress ≠ 0 ∧
  view.allocationBytes ≠ 0 ∧ view.renderedCpuAddress ≠ 0 ∧ view.renderedBytes ≠ 0 ∧
  view.renderedOffset ≤ view.allocationBytes ∧ view.renderedBytes ≤ view.allocationBytes - view.renderedOffset

variable [DecidableEq ι] [DecidableEq κ] [DecidableEq α]

def changeOutput (state : ι) (change : Output α → Output α) : OutputAction ι κ α Unit :=
  modify (fun world => { world with outputs := Function.update world.outputs state (change (world.outputs state)) })
def changeLease (lease : κ) (change : Lease α → Lease α) : OutputAction ι κ α Unit :=
  modify (fun world => { world with leases := Function.update world.leases lease (change (world.leases lease)) })

def changeAllocation (owner : Option α) (change : Allocation → Option Allocation) : OutputAction ι κ α Bool := do
  match owner with
  | none => pure false
  | some owner =>
    let world ← get
    match change (world.allocations owner) with
    | none => pure false
    | some allocation =>
      set { world with allocations := Function.update world.allocations owner allocation }
      pure true

/-- `AdmissionCompletedOutputCapture`. -/
def capture (state : ι) (generation fence : U32) (view : Option View) (owner : Option α) : OutputAction ι κ α Bool := do
  let world ← get
  let output := world.outputs state
  match view,owner with
  | some view,some owner =>
    if generation = 0 ∨ fence = 0 ∨ ¬ ownerValid (world.allocations owner) view ∨ output.version ≠ outputVersion then pure false
    else if output.phase ≠ .empty then
      pure (decide (output.generation = generation ∧ output.fence = fence ∧ output.owner = some owner ∧ output.view = view))
    else
      let opened ← changeAllocation (some owner) allocationOpen
      if ¬ opened then pure false
      else
        changeOutput state (fun output => { output with
          phase := .captured, generation, fence, captureCount := 1, view, owner := some owner })
        pure true
  | _,_ => pure false

/-- An output whose fence is known goes on from a phase, or answers in another one. -/
def advance (state : ι) (fence : U32) (answer : Output α → Option Bool) (change : Output α → Output α) : OutputAction ι κ α Bool := do
  let world ← get
  let output := world.outputs state
  if output.fence ≠ fence then pure false
  else
    match answer output with
    | some answer => pure answer
    | none =>
      changeOutput state change
      pure true

/-- `AdmissionCompletedOutputMarkReleased`. -/
def markReleased (state : ι) (fence : U32) : OutputAction ι κ α Bool :=
  advance state fence
    (fun output =>
      if output.phase = .backendReleased then some (output.releaseCount = 1)
      else if output.phase ≠ .captured then some false
      else none)
    (fun output => { output with phase := .backendReleased, releaseCount := 1 })

/-- `AdmissionCompletedOutputMarkPacketRetired`. -/
def markPacketRetired (state : ι) (fence : U32) : OutputAction ι κ α Bool :=
  advance state fence
    (fun output =>
      if output.phase = .packetRetired then some true
      else if output.phase ≠ .backendReleased then some false
      else none)
    (fun output => { output with phase := .packetRetired })

/-- `AdmissionCompletedOutputMarkNotified`. -/
def markNotified (state : ι) (fence : U32) : OutputAction ι κ α Bool :=
  advance state fence
    (fun output =>
      if output.phase = .notified then some (output.notifyCount = 1)
      else if output.phase ≠ .packetRetired then some false
      else none)
    (fun output => { output with phase := .notified, notifyCount := 1 })

/-- `AdmissionCompletedOutputBeginPresent`. -/
def beginPresent (state : ι) (fence : U32) : OutputAction ι κ α Bool :=
  advance state fence
    (fun output =>
      if output.phase ≠ .notified ∨ output.presentCount ≠ 0 ∨ output.accessAttempted ≠ 1 ∨ output.accessStatus ≠ 0 then some false
      else none)
    (fun output => { output with phase := .presenting, presentCount := 1 })

/-- `AdmissionCompletedOutputMarkPublished`. -/
def markPublished (state : ι) (fence : U32) (sequence : U64) : OutputAction ι κ α Bool :=
  advance state fence
    (fun output =>
      if sequence = 0 ∨ output.phase ≠ .presenting ∨ output.presentationSequence ≠ 0 then some false else none)
    (fun output => { output with phase := .publishedPending, presentationSequence := sequence })

/-- `AdmissionCompletedOutputMarkLatched`. -/
def markLatched (state : ι) (fence : U32) (sequence : U64) : OutputAction ι κ α Bool :=
  advance state fence
    (fun output =>
      if sequence = 0 ∨ output.phase ≠ .publishedPending ∨ output.presentationSequence ≠ sequence then some false else none)
    (fun output => { output with phase := .latched })

/-- `AdmissionCompletedOutputMarkOwnershipUnknown`. -/
def markOwnershipUnknown (state : ι) (fence : U32) (sequence : U64) (status : U32) : OutputAction ι κ α Bool :=
  advance state fence
    (fun output =>
      if sequence = 0 ∨ status = 0 ∨
          (output.phase ≠ .presenting ∧ output.phase ≠ .publishedPending ∧ output.phase ≠ .latched) ∨
          (output.presentationSequence ≠ 0 ∧ output.presentationSequence ≠ sequence) then some false
      else none)
    (fun output => { output with
      phase := .ownershipUnknown, presentationSequence := sequence, presentationAttempted := 1, presentationStatus := status })

/-- `AdmissionCompletedOutputRecordAccess`. -/
def recordAccess (state : ι) (fence status : U32) : OutputAction ι κ α Bool :=
  advance state fence
    (fun output => if output.phase ≠ .notified ∨ output.accessAttempted ≠ 0 then some false else none)
    (fun output => { output with accessAttempted := 1, accessStatus := status })

/-- `AdmissionCompletedOutputRecordPresentation`. -/
def recordPresentation (state : ι) (fence status : U32) : OutputAction ι κ α Bool :=
  advance state fence
    (fun output =>
      if output.presentationAttempted ≠ 0 ∨ (if status = 0 then output.phase ≠ .latched else output.phase ≠ .presenting) then some false
      else none)
    (fun output => { output with presentationAttempted := 1, presentationStatus := status })

/-- An output that is given up closes its allocation. -/
def giveUp (state : ι) (refused : Output α → Bool) : OutputAction ι κ α Bool := do
  let world ← get
  let output := world.outputs state
  if refused output then pure false
  else
    let closed ← changeAllocation output.owner allocationClose
    if ¬ closed then pure false
    else
      changeOutput state (fun _ => noOutput)
      pure true

/-- `AdmissionCompletedOutputResolveUnknown`. -/
def resolveUnknown (state : ι) (fence : U32) (sequence : U64) : OutputAction ι κ α Bool :=
  giveUp state (fun output =>
    output.fence ≠ fence ∨ sequence = 0 ∨ output.phase ≠ .ownershipUnknown ∨ output.presentationSequence ≠ sequence)

/-- `AdmissionCompletedOutputAbort`. -/
def abort (state : ι) (fence : U32) : OutputAction ι κ α Bool :=
  giveUp state (fun output =>
    output.phase = .empty ∨ output.phase = .publishedPending ∨ output.phase = .latched ∨ output.phase = .ownershipUnknown ∨
    output.fence ≠ fence)

/-- An active lease that is replaced closes its allocation. -/
def closeActive (lease : κ) : OutputAction ι κ α Bool := do
  let world ← get
  if ¬ (world.leases lease).active then pure true
  else changeAllocation (world.leases lease).owner allocationClose

/-- `AdmissionCompletedOutputTransferToDisplay`. -/
def transferToDisplay (state : ι) (lease : κ) (fence : U32) : OutputAction ι κ α Bool := do
  let world ← get
  let output := world.outputs state
  let shown := world.leases lease
  if output.phase ≠ .latched ∨ output.fence ≠ fence ∨ output.owner = none ∨ output.presentationAttempted ≠ 1 ∨
      output.presentationStatus ≠ 0 ∨ shown.version ≠ outputVersion ∨ (shown.active ∧ shown.owner = output.owner) then pure false
  else
    let closed ← closeActive lease
    if ¬ closed then pure false
    else
      changeLease lease (fun _ => ⟨outputVersion,true,output.generation,output.fence,output.view,output.owner⟩)
      changeOutput state (fun _ => noOutput)
      pure true

/-- `AdmissionDisplayOutputLeaseRetire`. -/
def leaseRetire (lease : κ) : OutputAction ι κ α Bool := do
  let world ← get
  if ¬ (world.leases lease).active then pure false
  else
    let closed ← changeAllocation (world.leases lease).owner allocationClose
    if ¬ closed then pure false
    else
      changeLease lease (fun _ => noLease)
      pure true

/-- `AdmissionDisplayOutputLeaseCapture`. -/
def leaseCapture (lease : κ) (generation fence : U32) (view : Option View) (owner : Option α) : OutputAction ι κ α Bool := do
  let world ← get
  match view,owner with
  | some view,some owner =>
    if generation = 0 ∨ (world.leases lease).version ≠ outputVersion ∨ (world.leases lease).active ∨
        ¬ ownerValid (world.allocations owner) view then pure false
    else
      let opened ← changeAllocation (some owner) allocationOpen
      if ¬ opened then pure false
      else
        changeLease lease (fun lease => { lease with active := true, generation, fence, view, owner := some owner })
        pure true
  | _,_ => pure false

/-- `AdmissionDisplayOutputLeaseMove`. -/
def leaseMove (destination source : κ) : OutputAction ι κ α Bool := do
  let world ← get
  let next := world.leases source
  let shown := world.leases destination
  if destination = source ∨ ¬ next.active ∨ next.owner = none ∨ next.version ≠ outputVersion ∨ shown.version ≠ outputVersion ∨
      (shown.active ∧ shown.owner = next.owner) then pure false
  else
    let closed ← closeActive destination
    if ¬ closed then pure false
    else
      changeLease destination (fun _ => next)
      changeLease source (fun _ => noLease)
      pure true

inductive Request (ι κ α : Type)
  | capture (state : Option ι) (generation fence : U32) (view : Option View) (owner : Option α)
  | markReleased (state : Option ι) (fence : U32)
  | markPacketRetired (state : Option ι) (fence : U32)
  | markNotified (state : Option ι) (fence : U32)
  | recordAccess (state : Option ι) (fence status : U32)
  | beginPresent (state : Option ι) (fence : U32)
  | markPublished (state : Option ι) (fence : U32) (sequence : U64)
  | markLatched (state : Option ι) (fence : U32) (sequence : U64)
  | recordPresentation (state : Option ι) (fence status : U32)
  | markOwnershipUnknown (state : Option ι) (fence : U32) (sequence : U64) (status : U32)
  | resolveUnknown (state : Option ι) (fence : U32) (sequence : U64)
  | transferToDisplay (state : Option ι) (lease : Option κ) (fence : U32)
  | abort (state : Option ι) (fence : U32)
  | leaseCapture (lease : Option κ) (generation fence : U32) (view : Option View) (owner : Option α)
  | leaseMove (destination source : Option κ)
  | leaseRetire (lease : Option κ)

def given {β : Type} (pointer : Option β) (action : β → OutputAction ι κ α Bool) : OutputAction ι κ α Bool :=
  match pointer with
  | none => pure false
  | some target => action target

def act : Request ι κ α → OutputAction ι κ α Bool
  | .capture state generation fence view owner => given state (fun state => capture state generation fence view owner)
  | .markReleased state fence => given state (fun state => markReleased state fence)
  | .markPacketRetired state fence => given state (fun state => markPacketRetired state fence)
  | .markNotified state fence => given state (fun state => markNotified state fence)
  | .recordAccess state fence status => given state (fun state => recordAccess state fence status)
  | .beginPresent state fence => given state (fun state => beginPresent state fence)
  | .markPublished state fence sequence => given state (fun state => markPublished state fence sequence)
  | .markLatched state fence sequence => given state (fun state => markLatched state fence sequence)
  | .recordPresentation state fence status => given state (fun state => recordPresentation state fence status)
  | .markOwnershipUnknown state fence sequence status => given state (fun state => markOwnershipUnknown state fence sequence status)
  | .resolveUnknown state fence sequence => given state (fun state => resolveUnknown state fence sequence)
  | .transferToDisplay state lease fence => given state (fun state => given lease (fun lease => transferToDisplay state lease fence))
  | .abort state fence => given state (fun state => abort state fence)
  | .leaseCapture lease generation fence view owner => given lease (fun lease => leaseCapture lease generation fence view owner)
  | .leaseMove destination source => given destination (fun destination => given source (fun source => leaseMove destination source))
  | .leaseRetire lease => given lease leaseRetire

/-- Outputs and leases that are initialized, over any allocations. -/
def noOutputs (allocations : α → Allocation) : World ι κ α := ⟨fun _ => noOutput,fun _ => noLease,allocations⟩

end WindowsOnM1.OutputModel
