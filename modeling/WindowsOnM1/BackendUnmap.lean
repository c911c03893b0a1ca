import WindowsOnM1.BackendShape

/-!
The arena of the backend is unmapped when nothing can reach it any more, in every run whose
starts undo what they have done.
-/
namespace WindowsOnM1.BackendUnmap
open Actions BackendFirmware BackendCleanups BackendModel List Bool
open BackendSteps BackendTeardown BackendShape

def lastCleanup (step : FirmwareStep) (cleanups : List Cleanup) : Option Cleanup :=
  (cleanups.filter (fun cleanup => cleanup.step = step)).getLast?

private theorem lastCleanup_append {step : FirmwareStep} {cleanup : Cleanup} (before : List Cleanup) {cleanups : List Cleanup}
    (last : lastCleanup step cleanups = some cleanup) : lastCleanup step (before ++ cleanups) = some cleanup := by
  rw [lastCleanup,filter_append,getLast?_append]
  rw [lastCleanup] at last
  rw [last,Option.some_or]

private theorem lastCleanup_map {step : FirmwareStep} {steps : List FirmwareStep} (nodup : steps.Nodup) (mem : step ∈ steps)
    (tried : FirmwareStep → Cleanup) (named : ∀ other, (tried other).step = other) :
    lastCleanup step (steps.map tried) = some (tried step) := by
  have only : (steps.filter (fun other => other = step)) = [step] := by
    rw [filter_eq_cons_iff]
    obtain ⟨before,after,rfl⟩ := append_of_mem mem
    obtain ⟨-,late,apart⟩ := nodup_append.mp nodup
    refine ⟨before,after,rfl,fun other early => ?_,decide_eq_true rfl,filter_eq_nil_iff.mpr (fun other later => ?_)⟩
    · exact fun same => apart other early step mem_cons_self (of_decide_eq_true same)
    intro same
    exact (nodup_cons.mp late).1 (of_decide_eq_true same ▸ later)
  rw [lastCleanup,filter_map]
  have same : ((fun cleanup : Cleanup => decide (cleanup.step = step)) ∘ tried) = fun other => decide (other = step) := by
    funext other
    simp only [Function.comp,named]
  rw [same,only]
  rfl

/-- The last cleanup of every step that is still owed has failed. -/
def OwedFailed (before : List Cleanup) (host : FirmwareHost) : Prop :=
  ∃ tries, host.cleanups = before ++ tries ∧
    ∀ step, owed host step = true → ∃ cleanup, lastCleanup step tries = some cleanup ∧ cleanup.done = false

variable {before : List Cleanup}

theorem rolledBack_owedFailed {tries : List Cleanup} {host left : FirmwareHost} {result : FirmwareResult}
    (rolledBack : RolledBack host left result) (onlyBoot : OnlyBoot host) (cleanups : host.cleanups = before ++ tries) :
    OwedFailed before left := by
  obtain ⟨done,cleaned,-⟩ := rolledBack.cleaned
  refine ⟨tries ++ (rollbackOrder.filter (owed (forgetObservations host))).map
      (fun step => ⟨step,(forgetObservations host).firmware.completedMask step,done step⟩),?_,fun step owes => ?_⟩
  · rw [cleaned.cleanups,← append_assoc,← cleanups]
    rfl
  -- What is owed was owed before, and its cleanup was not done.
  have owed' : owed (forgetObservations host) step = true ∧ (decide (step ∈ rollbackOrder) && done step) = false := by
    rw [owed,cleaned.completed,cleaned.cleanup,← and_or_distrib_right,and_eq_true] at owes
    exact ⟨owes.1,(not_eq_true' _).mp owes.2⟩
  have ordered : step ∈ rollbackOrder := by
    rcases mem_rollbackOrder step with mem | observes
    · exact mem
    have notBoot : step ≠ .ascRunning := by
      rintro rfl
      exact absurd observes (by decide)
    have free : owed (forgetObservations host) step = false := by
      simp [owed,forgetObservations,observes,onlyBoot step notBoot]
    exact absurd (owed'.1.symm.trans free) true_eq_false_eq_False
  have mem : step ∈ rollbackOrder.filter (owed (forgetObservations host)) := mem_filter.mpr ⟨ordered,owed'.1⟩
  have nodup : (rollbackOrder.filter (owed (forgetObservations host))).Nodup := List.Nodup.filter _ (by decide)
  refine ⟨_,lastCleanup_append _ (lastCleanup_map nodup mem _ (fun _ => rfl)),?_⟩
  have notDone := owed'.2
  rw [decide_eq_true ordered,Bool.true_and] at notDone
  exact notDone

private theorem owedFailed_alike {host left : FirmwareHost} (owes : OwedFailed before host)
    (firmware : left.firmware = host.firmware) (cleanups : left.cleanups = host.cleanups) : OwedFailed before left := by
  obtain ⟨tries,appended,failures⟩ := owes
  refine ⟨tries,cleanups.trans appended,fun step owes => failures step ?_⟩
  rw [owed,firmware] at owes
  exact owes

def stepCalls (io : BackendIo) (request : Request) (world : World) : List Call :=
  ((act io request).run world).2.calls.drop world.calls.length

/-- The cleanups of the firmware in a request. -/
def stepCleanups (io : BackendIo) (request : Request) (world : World) : List Cleanup :=
  ((act io request).run world).2.host.cleanups.drop world.host.cleanups.length

/-- The last cleanup of every step has succeeded. -/
def cleanedUp (cleanups : List Cleanup) : Bool :=
  allSteps.all (fun step => (lastCleanup step cleanups).all (fun cleanup => cleanup.done))

/-- A start undoes what it has done: its context is not left published, and the last cleanup
of no step of its firmware fails. -/
def Undoes (io : BackendIo) (request : Request) (world : World) : Prop :=
  request = .start → Call.unpublish false ∉ stepCalls io request world ∧ cleanedUp (stepCleanups io request world) = true

theorem cleanedUp_iff (cleanups : List Cleanup) :
    cleanedUp cleanups = true ↔ ∀ step cleanup, lastCleanup step cleanups = some cleanup → cleanup.done = true := by
  rw [cleanedUp,all_eq_true]
  refine ⟨fun all step cleanup last => ?_,fun all step _ => ?_⟩
  · have mem : step ∈ allSteps := by cases step <;> decide
    have here := all step mem
    rw [last] at here
    exact here
  cases last : lastCleanup step cleanups with
  | none => rfl
  | some cleanup => exact all step cleanup last

private theorem startEnds_cleanups {start host : FirmwareHost} {result : FirmwareResult}
    (ends : StartEnds start host result) (cleanups : start.cleanups = before) : ∃ tries, host.cleanups = before ++ tries := by
  by_cases ok : result = .ok
  · exact ⟨[],(ends.ok ok).1.trans (cleanups.trans (append_nil _).symm)⟩
  obtain ⟨middle,completed,cleanup,rollback,stage,-,onlyBoot,rolledBack⟩ := ends.failed ok
  obtain ⟨tries,here,-⟩ := rolledBack_owedFailed rolledBack onlyBoot (stage.cleanups.trans (cleanups.trans (append_nil _).symm))
  exact ⟨tries,here⟩

private theorem startEnds_owedFailed {start host : FirmwareHost} {result : FirmwareResult}
    (ends : StartEnds start host result) (cleanups : start.cleanups = before)
    (zero : isZero host.firmware.completedMask = true) : OwedFailed before host := by
  by_cases ok : result = .ok
  · obtain ⟨-,powered⟩ := ends.ok ok
    exact absurd (powered.symm.trans ((isZero_iff _).mp zero .powered)) true_eq_false_eq_False
  obtain ⟨middle,completed,cleanup,rollback,stage,-,onlyBoot,rolledBack⟩ := ends.failed ok
  exact rolledBack_owedFailed rolledBack onlyBoot (stage.cleanups.trans (cleanups.trans (append_nil _).symm))

variable {world left : World}

/-- A start that rolls back and undoes what it has done leaves no firmware. -/
private theorem rollback_allZero {middle : World} {failed : Bool} (was : AllZero world.host) (begun : Begun world middle)
    (ends : RollbackEnds middle left failed)
    (undoes : cleanedUp (left.host.cleanups.drop world.host.cleanups.length) = true) : AllZero left.host := by
  have settled : OwedFailed world.host.cleanups left.host → AllZero left.host := by
    rintro ⟨tries,cleanups,failures⟩ step
    rw [cleanups,drop_left] at undoes
    have free : owed left.host step = false := by
      by_contra owes
      obtain ⟨cleanup,last,notDone⟩ := failures step ((not_eq_false _).mp owes)
      have done := (cleanedUp_iff tries).mp undoes step cleanup last
      exact absurd (done.symm.trans notDone) true_eq_false_eq_False
    exact or_eq_false_iff.mp free
  rcases begun.firmware with ⟨same,-,-⟩ | ⟨-,start,result,cleanups,startEnds⟩
  · have zero : AllZero middle.host := by
      rw [AllZero,same]
      exact was
    rcases ends.firmware with ⟨-,same',-⟩ | ⟨some,-⟩
    · rw [AllZero,same']
      exact zero
    exact absurd (((allZero_iff _).mp zero).1.symm.trans some) true_eq_false_eq_False
  rcases ends.firmware with ⟨zero,same,cleanups'⟩ | ⟨-,rollback,rolledBack,-⟩
  · have owes := startEnds_owedFailed startEnds cleanups zero
    exact settled (owedFailed_alike owes same cleanups')
  obtain ⟨tries,before⟩ := startEnds_cleanups startEnds cleanups
  exact settled (rolledBack_owedFailed rolledBack begun.onlyBoot before)

/-- An unmap finds nothing that can reach the arena. -/
def Safe : Call → Prop
  | .unmap queuesCreated contextPublished firmwareRolledBack _ =>
    queuesCreated = false ∧ contextPublished = false ∧ firmwareRolledBack = true
  | _ => True

/-- The calls behind the earlier ones are safe. -/
def SafeSince (world left : World) : Prop := ∃ more, left.calls = world.calls ++ more ∧ ∀ call ∈ more, Safe call
theorem SafeSince.refl (world : World) : SafeSince world world := ⟨[],(append_nil _).symm,nofun⟩
theorem safeSince_of_eq (same : left.calls = world.calls) : SafeSince world left :=
  ⟨[],same.trans (append_nil _).symm,nofun⟩

variable {here : World}

theorem SafeSince.step (since : SafeSince world here) (last : List Call) (calls : left.calls = here.calls ++ last)
    (safe : ∀ call ∈ last, Safe call) : SafeSince world left := by
  obtain ⟨more,before,all⟩ := since
  refine ⟨more ++ last,?_,fun call mem => ?_⟩
  · rw [calls,before,append_assoc]
  rcases mem_append.mp mem with early | late
  · exact all call early
  exact safe call late

private theorem safe_endCall (runtime : Runtime) (done : Bool) : Safe (endCall runtime done) := by
  unfold endCall
  split <;> exact trivial

variable {result : RuntimeResult}

theorem SafeSince.acknowledged {middle : World} (since : SafeSince world here)
    (acknowledged : Acknowledged middle result left) (same : middle.calls = here.calls) : SafeSince world left := by
  have none : left.calls = middle.calls → SafeSince world left := fun calls =>
    since.step [] (calls.trans (same.trans (append_nil _).symm)) nofun
  have one : ∀ done, left.calls = middle.calls ++ [endCall middle.runtime done] → SafeSince world left := fun done calls =>
    since.step _ (same ▸ calls) (by simpa using safe_endCall middle.runtime done)
  rcases acknowledged.outcome with ⟨-,_,-,calls | ⟨-,calls⟩⟩ | ⟨-,-,-,calls⟩
  · exact none calls
  · exact one false calls
  exact one true calls

theorem safe_admitCall (job : JobImage) (fence : U32) (admitted : Bool) : Safe (admitCall job fence admitted) := by
  unfold admitCall
  split <;> exact trivial

private theorem safe_submit (ends : SubmitEnds world left) : SafeSince world left := by
  have start := SafeSince.refl world
  cases ends with
  | kept _ calls | prepared _ _ _ calls => exact safeSince_of_eq calls
  | refused _ _ job fence calls =>
    rcases calls with calls | calls
    · exact safeSince_of_eq calls
    exact start.step _ calls (by simpa using safe_admitCall job fence false)
  | admitted _ submission _ job _ calls =>
    refine start.step _ calls (fun call mem => ?_)
    rcases mem_cons.mp mem with rfl | later
    · exact safe_admitCall _ _ _
    split at later
    · exact absurd later not_mem_nil
    rw [mem_singleton.mp later]
    exact trivial
  | halted _ submission _ job _ _ calls =>
  exact start.step _ calls (by simpa [Safe] using safe_admitCall job submission.fence true)

private theorem safe_haltCall (status : ObservationStatus) (fence : U32) (done : Bool) : Safe (haltCall status fence done) := by
  unfold haltCall
  split <;> exact trivial

variable {observation : Observation}

private theorem safe_observe (ends : ObserveEnds world observation left) : SafeSince world left := by
  have start : SafeSince world (noted world observation) := (SafeSince.refl world).step _ rfl (by simp [Safe])
  cases ends with
  | kept _ calls | partly _ _ _ _ calls => exact start.step [] (calls.trans (append_nil _).symm) nofun
  | retried _ _ _ acknowledged | dropped _ _ _ acknowledged | completed _ _ _ _ _ acknowledged => exact start.acknowledged acknowledged rfl
  | unhalted _ _ _ calls | halted _ _ _ _ _ calls => exact start.step _ calls (by simpa using safe_haltCall _ _ _)

theorem SafeSince.completes (completes : Completes world here) : SafeSince world here := by
  cases completes with
  | none _ same => exact safeSince_of_eq (congrArg World.calls same)
  | made _ _ acknowledged => exact (SafeSince.refl world).acknowledged acknowledged rfl
theorem SafeSince.halts {there : World} (since : SafeSince world here) (halts : Halts here there) : SafeSince world there := by
  cases halts with
  | none _ same => exact since.step [] ((congrArg World.calls same).trans (append_nil _).symm) nofun
  | made _ calls => exact since.step _ calls (by simp [Safe])
private theorem safe_tearsDown {call : Call} (tearsDown : TearsDown call) : Safe call := by
  cases call with
  | unmap => exact tearsDown
  | _ => exact trivial

private theorem safe_stop (ends : StopEnds world result left) : SafeSince world left := by
  cases ends with
  | kept _ same => exact safeSince_of_eq (congrArg World.calls same)
  | uncompleted _ _ _ _ _ here acknowledged same =>
    exact ((SafeSince.refl world).acknowledged acknowledged rfl).step [] (by rw [same,append_nil]) nofun
  | unhalted _ here completes _ _ calls => exact (SafeSince.completes completes).step _ calls (by simp [Safe])
  | unretired _ here there last completes halts _ _ _ acknowledged same =>
    have since := ((SafeSince.completes completes).halts halts).acknowledged acknowledged rfl
    exact since.step [] (by rw [same,append_nil]) nofun
  | tornDown here there last completes halts retires ends =>
  have halted := (SafeSince.completes completes).halts halts
  have retired : SafeSince world last := by
    cases retires with
    | none _ same => exact halted.step [] ((congrArg World.calls same).trans (append_nil _).symm) nofun
    | made _ acknowledged => exact halted.acknowledged acknowledged rfl
  obtain ⟨more,calls,all⟩ := ends.calls
  exact retired.step more calls (fun call mem => safe_tearsDown (all call mem))

private theorem safe_start (shape : Shape world) (was : world.runtime.phase = .stopped → AllZero world.host) (ends : RuntimeStartEnds world left)
    (published : Call.unpublish false ∉ left.calls.drop world.calls.length)
    (undoes : cleanedUp (left.host.cleanups.drop world.host.cleanups.length) = true) :
    SafeSince world left ∧ (left.runtime.phase = .stopped → AllZero left.host) := by
  have started : ∀ {here : World}, Begun world here → SafeSince world here := by
    intro here begun
    obtain ⟨more,calls,all⟩ := begun.calls
    refine ⟨more,calls,fun call mem => ?_⟩
    have starts := all call mem
    cases call with
    | unmap => exact absurd starts id
    | _ => exact trivial
  cases ends with
  | kept same =>
    subst same
    exact ⟨SafeSince.refl left,was⟩
  | ready _ begun isReady => exact ⟨started begun,fun stopped => absurd (isReady.symm.trans stopped) nofun⟩
  | rolledBack stopped middle begun queues failed ends =>
  have zero := rollback_allZero (was stopped) begun ends undoes
  have unpublished : left.runtime.contextPublished = false := by
    by_contra still
    have still := (not_eq_false _).mp still
    obtain ⟨more,calls,-⟩ := begun.calls
    refine published ?_
    rw [ends.calls,calls,if_pos (ends.published still),still,append_assoc,append_assoc,drop_left]
    exact mem_append_right _ (mem_append_left _ (mem_singleton.mpr rfl))
  refine ⟨(started begun).step _ (ends.calls.trans (append_assoc _ _ _)) (fun call mem => ?_),fun _ => zero⟩
  rcases mem_append.mp mem with early | late
  · split at early
    · rw [mem_singleton.mp early]
      exact trivial
    exact absurd early not_mem_nil
  split at late
  · rw [mem_singleton.mp late]
    exact ⟨rfl,unpublished,(rolledBack_iff left.host).mpr zero⟩
  exact absurd late not_mem_nil

theorem acknowledged_phase (shape : Shape world) (acknowledged : Acknowledged world result left) :
    left.runtime.phase = world.runtime.phase ∨ stoppable left.runtime.phase = true ∨
      (left.runtime.phase = .stopping ∧ world.runtime.terminalPending = true ∧ world.runtime.terminalStatus = .cancelled ∧
        left.calls = world.calls ++ [endCall world.runtime true]) := by
  rcases acknowledged.outcome with ⟨-,flushed,runtime,-⟩ | ⟨-,pending,runtime,calls⟩
  · exact .inl (by rw [runtime])
  obtain ⟨fence,natural,cancelled,failed⟩ := shape.terminal pending.1
  rw [runtime]
  by_cases ends : completionEndsFence world.runtime.terminalStatus = true
  · exact .inr (.inl (by simp [natural ends,stoppable]))
  by_cases isCancelled : world.runtime.terminalStatus = .cancelled
  · exact .inr (.inr ⟨(cancelled isCancelled).1,pending.1,isCancelled,calls⟩)
  exact .inr (.inl (by simp [failed (eq_false_iff.mpr ends) isCancelled,stoppable]))

theorem submit_phase (ends : SubmitEnds world left) :
    left.runtime.phase = world.runtime.phase ∨ stoppable left.runtime.phase = true := by
  cases ends with
  | kept runtime | prepared _ _ runtime => exact .inl (by rw [runtime])
  | refused _ runtime | admitted _ _ _ _ runtime | halted _ _ _ _ _ runtime => exact .inr (by rw [runtime]; rfl)

theorem natural_phase {middle : World} (ready : middle.runtime.terminalNextPhase = .ready) {result : RuntimeResult}
    (acknowledged : Acknowledged middle result left) :
    left.runtime.phase = middle.runtime.phase ∨ stoppable left.runtime.phase = true := by
  rcases acknowledged.outcome with ⟨-,flushed,runtime,-⟩ | ⟨-,-,runtime,-⟩
  · exact .inl (by rw [runtime])
  rw [runtime,ready]
  exact .inr rfl

theorem observe_phase (shape : Shape world) (ends : ObserveEnds world observation left) :
    left.runtime.phase = world.runtime.phase ∨ stoppable left.runtime.phase = true := by
  cases ends with
  | kept runtime => exact .inl (by rw [runtime])
  | retried pending ends _ acknowledged =>
    have phase := @natural_phase left (noted world observation) ((shape.terminal pending).natural ends).1 _ acknowledged
    exact phase
  | dropped _ _ _ acknowledged =>
    have phase := natural_phase rfl acknowledged
    exact phase
  | unhalted _ _ runtime => exact .inr (by rw [runtime]; rfl)
  | halted _ _ _ _ runtime => exact .inl (by rw [runtime]; rfl)
  | partly _ _ _ runtime =>
    refine .inl ?_
    rw [runtime]
    cases observation.queue <;> rfl
  | completed _ _ _ _ _ acknowledged =>
  have phase := natural_phase rfl acknowledged
  have same : (withTerminal (withQueue world.runtime observation.queue) .success .ready .ok).phase = world.runtime.phase := by
    cases observation.queue <;> rfl
  rcases phase with phase | phase
  · exact .inl (phase.trans same)
  exact .inr phase

theorem stop_phase (ends : StopEnds world result left) :
    left = world ∨ stoppable left.runtime.phase = true ∨ Clean left := by
  cases ends with
  | kept _ same => exact .inl same
  | uncompleted _ _ _ _ _ here acknowledged same | unretired _ here there last completes halts _ _ _ acknowledged same => exact .inr (.inl (by rw [same]; rfl))
  | unhalted _ here completes _ runtime => exact .inr (.inl (by rw [runtime]; rfl))
  | tornDown here there last completes halts retires ends =>
  rcases ends.outcome with ⟨-,clean⟩ | ⟨-,failed⟩
  · exact .inr (.inr clean)
  exact .inr (.inl (by rw [failed]; rfl))

/-- A stopped runtime has no firmware, and every unmap so far was safe. -/
structure Orderly (world : World) : Prop where
  shape : Shape world
  stopped : world.runtime.phase = .stopped → AllZero world.host
  calls : ∀ call ∈ world.calls, Safe call

theorem stopped_kept (was : world.runtime.phase = .stopped → AllZero world.host) (firmware : left.host.firmware = world.host.firmware)
    (phase : left.runtime.phase = world.runtime.phase ∨ left.runtime.phase ≠ .stopped) (stopped : left.runtime.phase = .stopped) :
    AllZero left.host := by
  rcases phase with same | other
  · rw [AllZero,firmware]
    exact was (same.symm.trans stopped)
  exact absurd stopped other

theorem not_stopped {phase : Phase} (runs : stoppable phase = true) : phase ≠ .stopped := by
  rintro rfl
  exact absurd runs (by decide)

private theorem orderly_kept (orderly : Orderly world) {request : Request} (ends : RequestEnds world request result left)
    (undoes : request = .start → Call.unpublish false ∉ left.calls.drop world.calls.length ∧
      cleanedUp (left.host.cleanups.drop world.host.cleanups.length) = true) : Orderly left := by
  obtain ⟨shape,was,calls⟩ := orderly
  have shape' := shape_kept shape ends
  have safe : SafeSince world left ∧ (left.runtime.phase = .stopped → AllZero left.host) := by
    cases ends with
    | start _ _ _ ends => exact safe_start shape was ends (undoes rfl).1 (undoes rfl).2
    | submit _ _ _ kept ends =>
      exact ⟨safe_submit ends,stopped_kept was kept.firmware ((submit_phase ends).imp_right not_stopped)⟩
    | observe _ _ _ kept ends =>
      exact ⟨safe_observe ends,stopped_kept was kept.firmware ((observe_phase shape ends).imp_right not_stopped)⟩
    | acknowledge _ _ ends =>
      refine ⟨(SafeSince.refl world).acknowledged ends rfl,stopped_kept was ends.firmware ?_⟩
      rcases acknowledged_phase shape ends with same | runs | ⟨stopping,-⟩
      · exact .inl same
      · exact .inr (not_stopped runs)
      exact .inr (by rw [stopping]; nofun)
    | stop _ _ ends =>
    refine ⟨safe_stop ends,fun stopped => ?_⟩
    rcases stop_phase ends with same | runs | clean
    · exact same ▸ was (same ▸ stopped)
    · exact absurd stopped (not_stopped runs)
    exact clean.firmware
  obtain ⟨⟨more,appended,all⟩,stopped⟩ := safe
  refine ⟨shape',stopped,fun call mem => ?_⟩
  rw [appended] at mem
  rcases mem_append.mp mem with early | late
  · exact calls call early
  exact all call late

/-- The arena is unmapped only when there are no queues, the context is not published and the
firmware is rolled back, in every run whose starts undo what they have done. -/
theorem unmap_safe (io : BackendIo) (contextIdentity : U64) (requests : List Request)
    (undo : EveryStep (act io) (Undoes io) requests (runtimeInitialize contextIdentity))
    {queuesCreated contextPublished firmwareRolledBack done : Bool}
    (unmapped : Call.unmap queuesCreated contextPublished firmwareRolledBack done ∈
      (runAll (act io) requests (runtimeInitialize contextIdentity)).calls) :
    queuesCreated = false ∧ contextPublished = false ∧ firmwareRolledBack = true := by
  have start : Orderly (runtimeInitialize contextIdentity) :=
    ⟨shape_initial contextIdentity,fun _ _ => ⟨rfl,rfl⟩,nofun⟩
  have step : ∀ request world, Undoes io request world → Orderly world → Gives (act io request) world (fun _ left => Orderly left) :=
    fun request world undoes orderly => orderly_kept orderly (act_ends io orderly.shape request) undoes
  exact (runAll_keeps step undo start).calls _ unmapped

/-- A firmware that does all it is asked. -/
def obligingFirmware : FirmwareIo where
  nowMs := fun _ => 0
  powerOn := fun _ _ => true
  createFirmwareUat := fun _ _ => true
  bootAsc := fun _ _ => true
  startEndpoint := fun _ _ _ => true
  publishInitdata := fun _ _ => (true,0x4000)
  sendInitdata := fun _ _ _ => true
  sendDeviceControlInit := fun _ _ => true
  updateIdleTimestamp := fun _ _ => true
  unpublishInitdata := fun _ _ => true
  stopEndpoint := fun _ _ _ => true
  stopAsc := fun _ _ => true
  destroyFirmwareUat := fun _ _ => true
  powerOff := fun _ _ => true

def renderJob : JobImage := { noJob with
  taWorkAddresses := (1,1), d3WorkAddresses := (1,1), taWorkAddressCount := 2, d3WorkAddressCount := 2, taExpectedStamp := 1
  d3ExpectedStamp := 1 }

/-- A host that does all it is asked. -/
def obligingIo : BackendIo where
  firmware := obligingFirmware
  map := fun _ => (true,0x10000,0x20000,0x4000)
  unmap := fun _ _ _ => true
  resolve := fun _ _ => (true,1,4)
  flushForDevice := fun _ _ _ => true
  flushForCpu := fun _ _ _ => true
  acquirePrepared := fun _ _ _ => (true,⟨(1,1),(1,1)⟩)
  relocate := fun _ _ _ _ _ _ _ => (true,renderJob)
  publish := fun _ => true
  unpublish := fun _ => true
  create := fun _ => true
  destroy := fun _ => true
  run3d := fun _ _ _ => true
  runTa := fun _ _ _ => true
  runCompute := none
  stop := fun _ _ => true
  reset := fun _ _ => true
  complete := fun _ _ _ _ _ => true
  retire := fun _ _ _ _ => true

/-- A host that cannot create the queues. -/
def queueless : BackendIo := { obligingIo with create := fun _ => false }

/-- The context stays published, and the arena is unmapped under it. -/
theorem unmap_published : ¬ ∀ (io : BackendIo) (contextIdentity : U64) (requests : List Request)
    (queuesCreated contextPublished firmwareRolledBack done : Bool),
    Call.unmap queuesCreated contextPublished firmwareRolledBack done ∈
      (runAll (act io) requests (runtimeInitialize contextIdentity)).calls →
    queuesCreated = false ∧ contextPublished = false ∧ firmwareRolledBack = true := by
  intro all
  have unmapped : Call.unmap false true true true ∈
      (runAll (act { queueless with unpublish := fun _ => false }) [.start] (runtimeInitialize 1)).calls := by decide +kernel
  exact absurd (all _ _ _ _ _ _ _ unmapped).2.1 (by decide)

/-- A start that fails, is undone and is stopped. -/
theorem unmap_safe_queueless :
    Call.unmap false false true true ∈ (runAll (act queueless) [.start,.stop] (runtimeInitialize 1)).calls ∧
      Call.unmap false true true true ∉ (runAll (act queueless) [.start,.stop] (runtimeInitialize 1)).calls := by
  have undo : EveryStep (act queueless) (Undoes queueless) [.start,.stop] (runtimeInitialize 1) := by
    refine ⟨fun _ => ⟨?_,?_⟩,nofun,trivial⟩
    · decide +kernel
    · decide +kernel
  exact ⟨by decide +kernel,fun unmapped => absurd (unmap_safe queueless 1 [.start,.stop] undo unmapped).2.1 (by decide)⟩

end WindowsOnM1.BackendUnmap
