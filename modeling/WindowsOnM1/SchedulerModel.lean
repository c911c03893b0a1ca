import WindowsOnM1.ArrayCells
import WindowsOnM1.RingBuffer
import WindowsOnM1.SerialOrder

/-!
The portable WDDM scheduler state of `apple_agx_scheduler.c`: the fence ring, the
active fence, the boundary preemption and the fences discarded by a preemption or
an engine reset. An operation returns what the C function returns and the state it
leaves; a refused operation leaves the state as it was.
-/
namespace WindowsOnM1.SchedulerModel
open ArrayCells SerialOrder

abbrev U32 := BitVec 32

/-- `APPLE_AGX_SCHEDULER_QUEUE_CAPACITY`. -/
abbrev queueCapacity : Nat := 64

inductive PreemptionPhase
  | Idle
  | WaitCurrentBoundary
  | ReadyToNotify
  | NotificationClaimed
deriving DecidableEq

/-- `APPLE_AGX_SCHEDULER`; the two fence arrays are total functions of the index. -/
structure Scheduler where
  completedFence : U32
  lastSubmittedFence : U32
  queuedFence : U32
  queueHead : Nat
  queueCount : Nat
  fenceQueue : Nat → U32
  preemptedFenceQueue : Nat → U32
  preemptedFenceCount : Nat
  activeFence : U32
  pendingPreemptionFence : U32
  preemptionCutoffFence : U32
  preemptionActiveFence : U32
  preemptionLastCompletedFence : U32
  contextCount : U32
  preemptionPending : Bool
  responsive : Bool
  preemptionPhase : PreemptionPhase

structure SchedulerContext where
  nodeOrdinal : U32
  engineAffinity : U32
  active : Bool
structure Preemption where
  preemptionFence : U32
  lastCompletedFence : U32
deriving DecidableEq
def fenceAfter (candidate reference : U32) : Bool :=
  let distance := candidate - reference
  distance != 0 && distance < 0x80000000#32
def fenceAtOrAfter (candidate reference : U32) : Bool := candidate == reference || fenceAfter candidate reference

/-- `AppleAgxSchedulerInitialize`. -/
def schedulerInitialize : Scheduler where
  completedFence := 0
  lastSubmittedFence := 0
  queuedFence := 0
  queueHead := 0
  queueCount := 0
  fenceQueue _ := 0
  preemptedFenceQueue _ := 0
  preemptedFenceCount := 0
  activeFence := 0
  pendingPreemptionFence := 0
  preemptionCutoffFence := 0
  preemptionActiveFence := 0
  preemptionLastCompletedFence := 0
  contextCount := 0
  preemptionPending := false
  responsive := true
  preemptionPhase := .Idle

def validateEngine (nodeOrdinal engineOrdinal : U32) : Bool := nodeOrdinal < 1 && engineOrdinal < 1
def createContext (s : Scheduler) (context : SchedulerContext) (nodeOrdinal engineAffinity : U32) :
    Bool × Scheduler × SchedulerContext :=
  if context.active ∨ nodeOrdinal ≠ 0 ∨ engineAffinity ≠ 1 then (false,s,context)
  else (true,{ s with contextCount := s.contextCount + 1 },⟨nodeOrdinal,engineAffinity,true⟩)
def destroyContext (s : Scheduler) (context : SchedulerContext) : Bool × Scheduler × SchedulerContext :=
  if ¬ context.active ∨ s.contextCount = 0 then (false,s,context)
  else (true,{ s with contextCount := s.contextCount - 1 },⟨0,0,false⟩)

def canCompleteFence (s : Scheduler) (nodeOrdinal engineOrdinal fence : U32) : Bool :=
  if ¬ validateEngine nodeOrdinal engineOrdinal ∨ fence = 0 then false
  else if s.preemptionPhase = .WaitCurrentBoundary ∧ fence ≠ s.preemptionActiveFence then false
  else
    let distance := fence - s.completedFence
    distance != 0 && distance < 0x80000000#32

def completeFence (s : Scheduler) (nodeOrdinal engineOrdinal fence : U32) : Bool × Scheduler :=
  if ¬ canCompleteFence s nodeOrdinal engineOrdinal fence then (false,s)
  else (true,{ s with completedFence := fence })

/-- New work may be admitted while the preemption DPC is still on its way back. -/
def admissionBlocked (s : Scheduler) : Bool :=
  s.preemptionPhase != .Idle && s.preemptionPhase != .NotificationClaimed
def dispatchBlocked (s : Scheduler) : Bool := s.preemptionPhase != .Idle

def queueFence (s : Scheduler) (nodeOrdinal engineOrdinal fence : U32) : Bool × Scheduler :=
  if ¬ validateEngine nodeOrdinal engineOrdinal ∨ fence = 0 ∨ queueCapacity ≤ s.queueCount ∨
      admissionBlocked s ∨ ¬ fenceAfter fence s.lastSubmittedFence then (false,s)
  else (true,{ s with
    fenceQueue := Function.update s.fenceQueue (RingBuffer.slot queueCapacity s.queueHead s.queueCount) fence
    queuedFence := if s.queueCount = 0 then fence else s.queuedFence
    queueCount := s.queueCount + 1
    lastSubmittedFence := fence })

def queueTail (s : Scheduler) : U32 :=
  s.fenceQueue (RingBuffer.slot queueCapacity s.queueHead (s.queueCount - 1))

/-- The first place of a fence among the preempted fences. -/
def findPreempted (s : Scheduler) (fence : U32) : Option Nat :=
  (List.range s.preemptedFenceCount).find? (fun index => s.preemptedFenceQueue index == fence)

/-- `AppleAgxSchedulerQueueResubmittedPagingFence`: a fence discarded by a
    preemption or a reset comes back once, behind the ring. -/
def queueResubmittedPagingFence (s : Scheduler) (nodeOrdinal engineOrdinal fence : U32) : Bool × Scheduler :=
  if ¬ validateEngine nodeOrdinal engineOrdinal ∨ fence = 0 ∨ queueCapacity ≤ s.queueCount ∨
      admissionBlocked s ∨ ¬ fenceAfter fence s.completedFence ∨
      (s.activeFence ≠ 0 ∧ ¬ fenceAfter fence s.activeFence) then (false,s)
  else if s.queueCount ≠ 0 ∧ ¬ fenceAfter fence (queueTail s) then (false,s)
  else match findPreempted s fence with
    | none => (false,s)
    | some index => (true,{ s with
        preemptedFenceQueue :=
          closeGap (s.preemptedFenceCount - (index + 1)) index s.preemptedFenceQueue
        preemptedFenceCount := s.preemptedFenceCount - 1
        fenceQueue := Function.update s.fenceQueue (RingBuffer.slot queueCapacity s.queueHead s.queueCount) fence
        queuedFence := if s.queueCount = 0 then fence else s.queuedFence
        queueCount := s.queueCount + 1 })

def activateFence (s : Scheduler) (nodeOrdinal engineOrdinal fence : U32) : Bool × Scheduler :=
  if ¬ validateEngine nodeOrdinal engineOrdinal ∨ fence = 0 ∨ s.queueCount = 0 ∨ s.queuedFence ≠ fence ∨
      s.activeFence ≠ 0 ∨ dispatchBlocked s then (false,s)
  else
    let head := (s.queueHead + 1) % queueCapacity
    (true,{ s with
      queueHead := head
      queueCount := s.queueCount - 1
      queuedFence := if s.queueCount - 1 ≠ 0 then s.fenceQueue head else 0
      activeFence := fence })

def completeActiveFence (s : Scheduler) (nodeOrdinal engineOrdinal fence : U32) : Bool × Scheduler :=
  if ¬ validateEngine nodeOrdinal engineOrdinal ∨ fence = 0 ∨ s.activeFence ≠ fence then (false,s)
  else match completeFence s nodeOrdinal engineOrdinal fence with
    | (false,_) => (false,s)
    | (true,completed) => (true,{ completed with activeFence := 0 })

/-- `AppleAgxSchedulerBeginBoundaryPreemption`: the ring is discarded into the
    preempted fences and dispatch stops at the active fence. -/
def beginBoundaryPreemption (s : Scheduler)
    (nodeOrdinal engineOrdinal preemptionFence cutoffFence activeFence : U32) : Bool × Scheduler :=
  if ¬ validateEngine nodeOrdinal engineOrdinal ∨ preemptionFence = 0 ∨ s.preemptionPhase ≠ .Idle ∨
      cutoffFence ≠ s.lastSubmittedFence ∨ activeFence ≠ s.activeFence ∨
      ¬ fenceAtOrAfter cutoffFence s.completedFence ∨
      (activeFence ≠ 0 ∧ (¬ fenceAfter activeFence s.completedFence ∨
        ¬ fenceAtOrAfter cutoffFence activeFence)) then (false,s)
  else (true,{ s with
    preemptedFenceCount := s.queueCount
    preemptedFenceQueue := fill (fun index => s.fenceQueue (RingBuffer.slot queueCapacity s.queueHead index))
      s.queueCount s.preemptedFenceQueue
    queuedFence := 0
    queueHead := 0
    queueCount := 0
    pendingPreemptionFence := preemptionFence
    preemptionCutoffFence := cutoffFence
    preemptionActiveFence := activeFence
    preemptionLastCompletedFence := s.completedFence
    preemptionPending := true
    preemptionPhase := if activeFence = 0 then .ReadyToNotify else .WaitCurrentBoundary })

def observeBoundaryCompletion (s : Scheduler) (nodeOrdinal engineOrdinal completedFence : U32) :
    Bool × Scheduler :=
  if ¬ validateEngine nodeOrdinal engineOrdinal ∨ s.preemptionPhase ≠ .WaitCurrentBoundary ∨
      completedFence = 0 ∨ s.preemptionActiveFence ≠ completedFence ∨ s.completedFence ≠ completedFence then
    (false,s)
  else (true,{ s with
    preemptionActiveFence := 0
    preemptionLastCompletedFence := completedFence
    preemptionPhase := .ReadyToNotify })

/-- `AppleAgxSchedulerClaimBoundaryPreemption`, with the claimed notification. -/
def claimBoundaryPreemption (s : Scheduler) : Option Preemption × Scheduler :=
  if s.preemptionPhase ≠ .ReadyToNotify then (none,s)
  else (some ⟨s.pendingPreemptionFence,s.preemptionLastCompletedFence⟩, { s with preemptionPhase := .NotificationClaimed })

/-- The preemption fields of an idle scheduler. -/
def clearPreemption (s : Scheduler) : Scheduler := { s with
  pendingPreemptionFence := 0
  preemptionCutoffFence := 0
  preemptionActiveFence := 0
  preemptionLastCompletedFence := 0
  preemptionPending := false
  preemptionPhase := .Idle }

def commitBoundaryPreemption (s : Scheduler) (preemptionFence : U32) : Bool × Scheduler :=
  if s.preemptionPhase ≠ .NotificationClaimed ∨ s.pendingPreemptionFence ≠ preemptionFence then (false,s)
  else (true,clearPreemption s)

/-- `AppleAgxSchedulerBeginPreemption`: a preemption with no outstanding work, begun and claimed in one call. -/
def beginPreemption (s : Scheduler) (nodeOrdinal engineOrdinal preemptionFence : U32) :
    Option Preemption × Scheduler :=
  match beginBoundaryPreemption s nodeOrdinal engineOrdinal preemptionFence s.completedFence 0 with
  | (false,_) => (none,s)
  | (true,begun) => claimBoundaryPreemption begun

def acknowledgePreemption (s : Scheduler) (preemptionFence : U32) : Bool × Scheduler :=
  commitBoundaryPreemption s preemptionFence
def abortPreemption (s : Scheduler) (preemptionFence : U32) : Bool × Scheduler :=
  if ¬ s.preemptionPending ∨ s.pendingPreemptionFence ≠ preemptionFence ∨
      s.preemptionPhase = .NotificationClaimed then (false,s)
  else (true,{ clearPreemption s with preemptedFenceCount := 0 })

/-- The first loop of `AppleAgxSchedulerResetEngine`, which keeps in place the preempted fences that still wait behind
    `after`, while there is room for them: `turns` turns are left, `index` is the next fence and `kept` were kept. -/
def keepWaiting (room : Nat) : (turns index kept : Nat) → U32 → (Nat → U32) → Nat × (Nat → U32)
  | 0, _, kept, _, queue => (kept,queue)
  | turns+1, index, kept, after, queue =>
    if kept < room then
      if fenceAfter (queue index) after then
        keepWaiting room turns (index + 1) (kept + 1) (queue index) (Function.update queue kept (queue index))
      else keepWaiting room turns (index + 1) kept after queue
    else (kept,queue)

/-- The fence that `AppleAgxSchedulerResetEngine` reports as last aborted. -/
def lastAbortedFence (s : Scheduler) : U32 := if s.activeFence ≠ 0 then s.activeFence else s.completedFence

/-- `AppleAgxSchedulerResetEngine`, with the last aborted fence. -/
def resetEngine (s : Scheduler) (nodeOrdinal engineOrdinal : U32) : Option U32 × Scheduler :=
  if ¬ validateEngine nodeOrdinal engineOrdinal then (none,s)
  else
    let after := if s.queueCount ≠ 0 then queueTail s else lastAbortedFence s
    let (kept,queue) := keepWaiting (queueCapacity - s.queueCount) s.preemptedFenceCount 0 0 after
      s.preemptedFenceQueue
    (some (lastAbortedFence s),{ clearPreemption s with
      preemptedFenceQueue := fill (fun index => s.fenceQueue (RingBuffer.slot queueCapacity s.queueHead index))
        s.queueCount (shiftUp s.queueCount kept queue)
      preemptedFenceCount := s.queueCount + kept
      queuedFence := 0
      queueHead := 0
      queueCount := 0
      activeFence := 0
      responsive := true })

/-- The calls of the scheduler that change its state, except a direct `AppleAgxSchedulerCompleteFence`. -/
inductive Op
  | createContext (context : SchedulerContext) (nodeOrdinal engineAffinity : U32)
  | destroyContext (context : SchedulerContext)
  | queueFence (nodeOrdinal engineOrdinal fence : U32)
  | queueResubmittedPagingFence (nodeOrdinal engineOrdinal fence : U32)
  | activateFence (nodeOrdinal engineOrdinal fence : U32)
  | completeActiveFence (nodeOrdinal engineOrdinal fence : U32)
  | beginBoundaryPreemption (nodeOrdinal engineOrdinal preemptionFence cutoffFence activeFence : U32)
  | observeBoundaryCompletion (nodeOrdinal engineOrdinal completedFence : U32)
  | claimBoundaryPreemption
  | commitBoundaryPreemption (preemptionFence : U32)
  | beginPreemption (nodeOrdinal engineOrdinal preemptionFence : U32)
  | acknowledgePreemption (preemptionFence : U32)
  | abortPreemption (preemptionFence : U32)
  | resetEngine (nodeOrdinal engineOrdinal : U32)

/-- One call: whether it was accepted, and the state it leaves. -/
def step (s : Scheduler) : Op → Bool × Scheduler
  | .createContext context node affinity =>
    ((createContext s context node affinity).1,(createContext s context node affinity).2.1)
  | .destroyContext context => ((destroyContext s context).1,(destroyContext s context).2.1)
  | .queueFence node engine fence => queueFence s node engine fence
  | .queueResubmittedPagingFence node engine fence => queueResubmittedPagingFence s node engine fence
  | .activateFence node engine fence => activateFence s node engine fence
  | .completeActiveFence node engine fence => completeActiveFence s node engine fence
  | .beginBoundaryPreemption node engine fence cutoff active =>
    beginBoundaryPreemption s node engine fence cutoff active
  | .observeBoundaryCompletion node engine fence => observeBoundaryCompletion s node engine fence
  | .claimBoundaryPreemption =>
    ((claimBoundaryPreemption s).1.isSome,(claimBoundaryPreemption s).2)
  | .commitBoundaryPreemption fence => commitBoundaryPreemption s fence
  | .beginPreemption node engine fence =>
    ((beginPreemption s node engine fence).1.isSome,(beginPreemption s node engine fence).2)
  | .acknowledgePreemption fence => acknowledgePreemption s fence
  | .abortPreemption fence => abortPreemption s fence
  | .resetEngine node engine => ((resetEngine s node engine).1.isSome,(resetEngine s node engine).2)

/-- The state after a sequence of calls. -/
def run (s : Scheduler) : List Op → Scheduler
  | [] => s
  | op :: rest => run (step s op).2 rest

/-- The fences in the ring, from the head. -/
def ring (s : Scheduler) : List U32 := RingBuffer.contents s.fenceQueue queueCapacity s.queueHead s.queueCount

/-- The fences that a preemption or a reset discarded and that were not queued again. -/
def preempted (s : Scheduler) : List U32 := cells s.preemptedFenceQueue s.preemptedFenceCount

/-- Every fence id the scheduler holds, with its two watermarks. -/
def outstanding (s : Scheduler) : List U32 :=
  s.completedFence :: s.lastSubmittedFence ::
    ((if s.activeFence = 0 then [] else [s.activeFence]) ++ ring s ++ preempted s)

end WindowsOnM1.SchedulerModel
