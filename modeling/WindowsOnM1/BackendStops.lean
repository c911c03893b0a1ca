import WindowsOnM1.BackendFences

/-!
A backend that can be stopped: when the callbacks of a stop all succeed, the stop succeeds and
nothing is left, in every run in which no teardown is left half way by another entry point.
-/
namespace WindowsOnM1.BackendStops
open Actions BackendFirmware BackendCleanups BackendModel List Bool
open BackendSteps BackendTeardown BackendShape BackendUnmap
open BackendFences

variable {world left : World}

theorem acknowledgeCompletion_succeeds {io : BackendIo} (succeeds : StopSucceeds io) (pending : Pending world.runtime) :
    Gives (acknowledgeCompletion io) world (fun result _ => result = world.runtime.terminalResult) := by
  unfold acknowledgeCompletion
  rw [gives_bind,gives_get,gives_ite]
  refine ⟨fun absent => ?_,fun _ => ?_⟩
  · rcases absent with none | zero
    · exact absurd pending.1 none
    exact absurd zero pending.2
  have flush : Gives (if world.runtime.terminalStatus = .success ∧ ¬ world.runtime.terminalCpuFlushed then
      query (fun turn => io.flushForCpu turn world.runtime.arenaCpuAddress world.runtime.arenaBytes) else pure true) world
      (fun flushed _ => flushed = true) := by
    rw [gives_ite,gives_query,gives_pure]
    exact ⟨fun _ => succeeds.flushForCpu _ _ _,fun _ => rfl⟩
  refine flush.bind (fun flushed left isFlushed => ?_)
  simp only [gives_bind,gives_changeRuntime,gives_ite,gives_call,gives_setPhase,gives_pure]
  refine ⟨fun fails => absurd isFlushed fails,fun _ => ⟨fun _ => ⟨fun refused => ?_,fun _ => trivial⟩,
    fun _ => ⟨fun refused => ?_,fun _ => trivial⟩⟩⟩
  · exact absurd (succeeds.retire _ _ _ _) refused
  exact absurd (succeeds.complete _ _ _ _ _) refused

variable {io : BackendIo}

section
variable (succeeds : StopSucceeds io)
include succeeds

private theorem completePending_succeeds (shape : Shape world) :
    Gives (completePending io) world (fun failed _ => failed = false) := by
  unfold completePending
  rw [gives_bind,gives_get,gives_ite]
  refine ⟨fun due => ?_,fun _ => rfl⟩
  have terminal := shape.terminal due.1
  refine (acknowledgeCompletion_succeeds succeeds ⟨due.1,terminal.fence⟩).bind (fun result _ isResult => ?_)
  rw [gives_pure,isResult,(terminal.natural due.2).2.1]
  rfl

private theorem quiesceQueues_succeeds (pendingFence : U32) (world : World) :
    Gives (quiesceQueues io pendingFence) world (fun failed _ => failed = false) := by
  unfold quiesceQueues
  simp only [gives_bind,gives_get,gives_ite,gives_call,gives_changeRuntime,gives_pure]
  exact ⟨fun _ => ⟨fun refused => absurd (succeeds.stop _ _) refused,fun _ => trivial⟩,fun _ => trivial⟩

private theorem retirePending_succeeds (world : World) :
    Gives (retirePending io world.runtime.pendingSubmission.fence) world (fun failed _ => failed = false) := by
  unfold retirePending
  rw [gives_ite]
  refine ⟨fun _ => rfl,fun present => ?_⟩
  rw [gives_bind,gives_changeRuntime]
  refine (@acknowledgeCompletion_succeeds (withCancel world) io succeeds ⟨rfl,present⟩).bind (fun result _ isResult => ?_)
  rw [gives_pure,isResult]
  rfl

private theorem runtimeStop_succeeds (shape : Shape world) (stops : world.runtime.phase ≠ .stopping) :
    Gives (runtimeStop io) world (fun result left => CleansUp world.host.cleanups left.host → result = .ok) := by
  unfold runtimeStop
  rw [gives_bind,gives_get,gives_ite,gives_ite]
  refine ⟨fun _ _ => rfl,fun running => ⟨fun other => ?_,fun _ => ?_⟩⟩
  · have settled := shape.settled
    revert running other stops settled
    cases world.runtime.phase <;> simp
  refine ((completePending_cases io world).both (completePending_succeeds succeeds shape)).bind (fun failed here completes => ?_)
  obtain ⟨completes,rfl⟩ := completes
  cases completes with
  | done completes => ?_
  rw [if_neg Bool.false_ne_true,gives_bind,gives_get,gives_bind,gives_setPhase]
  refine ((quiesceQueues_cases io here _ rfl).both (quiesceQueues_succeeds succeeds _ _)).bind (fun failed there halts => ?_)
  obtain ⟨halts,rfl⟩ := halts
  cases halts with
  | done halts => ?_
  rw [if_neg Bool.false_ne_true,← halts.submission]
  refine ((retirePending_cases io there).both (retirePending_succeeds succeeds there)).bind (fun failed last retires => ?_)
  obtain ⟨retires,rfl⟩ := retires
  cases retires with
  | done retires => ?_
  have onlyBoot : OnlyBoot last.host :=
    onlyBoot_kept retires.kept (onlyBoot_kept halts.kept (onlyBoot_kept completes.kept shape.onlyBoot))
  have cleanups : last.host.cleanups = world.host.cleanups :=
    retires.kept.cleanups.trans (halts.kept.cleanups.trans completes.kept.cleanups)
  rw [← cleanups]
  exact tearDown_succeeds succeeds onlyBoot

end

/-- Nothing is left that a start could trip over. -/
structure FullyStopped (world : World) : Prop where
  clean : Clean world
  fence : world.runtime.pendingSubmission.fence = 0
  terminal : world.runtime.terminalPending = false

/-- No teardown is under way, and a stopped runtime has no firmware. -/
structure Stoppable (world : World) : Prop where
  shape : Shape world
  idle : world.runtime.phase ≠ .stopping
  stopped : world.runtime.phase = .stopped → AllZero world.host

theorem Stoppable.stop (succeeds : StopSucceeds io) (stoppable : Stoppable world) :
    Gives (act io .stop) world (fun result left => CleansUp world.host.cleanups left.host → result = .ok ∧ FullyStopped left) := by
  obtain ⟨shape,idle,stopped⟩ := stoppable
  refine ((runtimeStop_ends io shape.onlyBoot).both (runtimeStop_succeeds succeeds shape idle)).mono (fun result left here cleansUp => ?_)
  obtain ⟨ends,succeeds⟩ := here
  have ok := succeeds cleansUp
  have shape' := shape_stop shape ends
  have clean : Clean left := by
    cases ends with
    | kept phase same =>
      subst same
      have isStopped : left.runtime.phase = .stopped := by
        have settled := shape.settled
        revert phase idle settled
        cases left.runtime.phase <;> simp [BackendTeardown.stoppable]
      obtain ⟨queues,context,arena,-,-⟩ := shape.stopped isStopped
      exact ⟨isStopped,queues,context,arena,stopped isStopped⟩
    | uncompleted failed | unhalted failed | unretired failed => exact absurd ok failed
    | tornDown here there last completes halts retires ends =>
    rcases ends.outcome with ⟨-,clean⟩ | ⟨failed,-⟩
    · exact clean
    exact absurd ok failed
  obtain ⟨-,-,-,-,fence⟩ := shape'.stopped clean.stopped
  exact ⟨ok,clean,fence,shape'.noTerminal fence⟩

/-- The cleanups of a start whose boot failed, when all but the boot could be undone. -/
def halfBooted : List Cleanup := [⟨.ascRunning,false,false⟩,⟨.uatReady,true,true⟩,⟨.powered,true,true⟩]

/-- The cleanups of the one way in which a start stops with an owed cleanup. -/
private theorem rolledBack_halfBooted {start host left : FirmwareHost} {completed cleanup : Mask} {result : FirmwareResult}
    (stage : AtStage completed cleanup start host) (boots : BootsLast completed cleanup) (onlyBoot : OnlyBoot host)
    (rolledBack : RolledBack host left result) (zero : isZero left.firmware.completedMask = true)
    (owes : left.firmware.cleanupMask .ascRunning = true) : left.cleanups = start.cleanups ++ halfBooted := by
  obtain ⟨done,cleaned,-⟩ := rolledBack.cleaned
  have cleared : ∀ step, step ∈ rollbackOrder → host.firmware.completedMask step = true → done step = true := by
    intro step mem was
    have observes : observationBits step = false := by
      revert mem
      cases step <;> decide
    have now := cleaned.completed step
    rw [(isZero_iff _).mp zero step,decide_eq_true mem,Bool.true_and] at now
    simpa [forgetObservations,was,observes] using now.symm
  have boot := cleaned.cleanup .ascRunning
  rw [owes] at boot
  have notDone : done .ascRunning = false ∧ host.firmware.cleanupMask .ascRunning = true := by
    have bits := and_eq_true_iff.mp boot.symm
    exact ⟨by simpa [rollbackOrder] using bits.2,bits.1⟩
  have notBooted : completed .ascRunning = false := by
    by_contra booted
    have done' := cleared .ascRunning (by decide) (by rw [stage.completed]; exact (not_eq_false _).mp booted)
    exact absurd (done'.symm.trans notDone.1) true_eq_false_eq_False
  have mask : completed = setStep (setStep noSteps .powered true) .uatReady true := by
    rcases boots (by rw [← stage.cleanup]; exact notDone.2) with booted | mask
    · exact absurd (booted.symm.trans notBooted) true_eq_false_eq_False
    exact mask
  have was : host.firmware.completedMask = setStep (setStep noSteps .powered true) .uatReady true := stage.completed.trans mask
  have uat : done .uatReady = true := cleared .uatReady (by decide) (by rw [was]; rfl)
  have power : done .powered = true := cleared .powered (by decide) (by rw [was]; rfl)
  have owing : rollbackOrder.filter (owed (forgetObservations host)) = [.ascRunning,.uatReady,.powered] := by
    have free : ∀ step, step ≠ .ascRunning → step ≠ .uatReady → step ≠ .powered → owed (forgetObservations host) step = false := by
      intro step notAsc notUat notPower
      simp [owed,forgetObservations,was,setStep,noSteps,notUat,notPower,onlyBoot step notAsc]
    have asc : owed (forgetObservations host) .ascRunning = true := by
      simp [owed,forgetObservations,notDone.2]
    have uat : owed (forgetObservations host) .uatReady = true := by
      simp [owed,forgetObservations,was,setStep,observationBits]
    have power : owed (forgetObservations host) .powered = true := by
      simp [owed,forgetObservations,was,setStep,observationBits]
    simp [rollbackOrder,filter,free,asc,uat,power]
  rw [cleaned.cleanups,owing]
  simp [forgetObservations,stage.cleanups,halfBooted,was,setStep,noSteps,observationBits,notDone.1,uat,power]

/-- Another entry point neither retires the fence of a stop that has failed nor stops with an owed boot. -/
def Stays (io : BackendIo) (request : Request) (world : World) : Prop :=
  (request = .acknowledgeCompletion → ∀ fence node engine, Call.retire fence node engine true ∉ stepCalls io request world) ∧
  (request = .start → ¬ (stepCleanups io request world = halfBooted ∧ Call.unmap false false false true ∈ stepCalls io request world))

/-- A start that stops has no firmware, unless its boot is still owed. -/
private theorem start_allZero (shape : Shape world) (was : world.runtime.phase = .stopped → AllZero world.host)
    (ends : RuntimeStartEnds world left) (whole : ¬ (left.host.cleanups.drop world.host.cleanups.length = halfBooted ∧
      Call.unmap false false false true ∈ left.calls.drop world.calls.length)) (stopped : left.runtime.phase = .stopped) :
    AllZero left.host := by
  cases ends with
  | kept same =>
    subst same
    exact was stopped
  | ready _ _ isReady => exact absurd (isReady.symm.trans stopped) nofun
  | rolledBack wasStopped middle begun queues failed ends =>
  obtain ⟨published,mapped,runtime⟩ := ends.runtime
  have succeeds : failed = false := by
    rw [runtime] at stopped
    cases failed
    · rfl
    exact absurd (show Phase.failed = Phase.stopped from stopped) nofun
  rcases ends.firmware with ⟨zero,same,cleanups⟩ | ⟨-,result,rolledBack,ok⟩
  · rcases begun.firmware with ⟨same',-,-⟩ | ⟨isMapped,start,result,before,startEnds⟩
    · rw [AllZero,same,same']
      exact was wasStopped
    by_cases ok : result = .ok
    · obtain ⟨-,powered⟩ := startEnds.ok ok
      exact absurd (powered.symm.trans ((isZero_iff _).mp zero .powered)) true_eq_false_eq_False
    obtain ⟨host,completed,cleanup,rollback,stage,boots,onlyBoot,rolledBack⟩ := startEnds.failed ok
    by_cases owes : middle.host.firmware.cleanupMask .ascRunning = true
    · refine absurd ⟨?_,?_⟩ whole
      · rw [cleanups,rolledBack_halfBooted stage boots onlyBoot rolledBack zero owes,before,drop_left]
      obtain ⟨unpublished,unmapped⟩ := ends.clean succeeds
      obtain ⟨more,calls,-⟩ := begun.calls
      have owes' : BackendFirmware.rolledBack left.host.firmware = false := by
        rw [same,BackendFirmware.rolledBack,and_eq_false_iff]
        refine .inr (eq_false_iff.mpr (fun none => ?_))
        exact absurd (owes.symm.trans ((isZero_iff _).mp none .ascRunning)) true_eq_false_eq_False
      rw [ends.calls,calls,if_pos isMapped,unpublished,unmapped,owes',append_assoc,append_assoc,drop_left]
      exact mem_append_right _ (mem_append_right _ (mem_singleton.mpr rfl))
    intro step
    rw [same]
    refine ⟨(isZero_iff _).mp zero step,?_⟩
    by_cases boot : step = .ascRunning
    · rw [boot]
      exact eq_false_iff.mpr owes
    exact begun.onlyBoot step boot
  exact (rolledBack.ok (ok succeeds)).1

theorem stoppable_idle {phase : Phase} (runs : BackendTeardown.stoppable phase = true) : phase ≠ .stopping ∧ phase ≠ .stopped := by
  revert runs
  cases phase <;> decide

private theorem stoppable_kept (here : Stoppable world) {request : Request} {result : RuntimeResult}
    (ends : RequestEnds world request result left)
    (retires : request = .acknowledgeCompletion → ∀ fence node engine, Call.retire fence node engine true ∉
      left.calls.drop world.calls.length)
    (boots : request = .start → ¬ (left.host.cleanups.drop world.host.cleanups.length = halfBooted ∧
      Call.unmap false false false true ∈ left.calls.drop world.calls.length)) : Stoppable left := by
  have shape' := shape_kept here.shape ends
  have same : ∀ {left : World}, left.runtime.phase = world.runtime.phase ∨ BackendTeardown.stoppable left.runtime.phase = true →
      left.host.firmware = world.host.firmware →
      left.runtime.phase ≠ .stopping ∧ (left.runtime.phase = .stopped → AllZero left.host) := by
    intro left phase firmware
    rcases phase with phase | runs
    · rw [phase,AllZero,firmware]
      exact ⟨here.idle,here.stopped⟩
    exact ⟨(stoppable_idle runs).1,fun stopped => absurd stopped (stoppable_idle runs).2⟩
  have rest : left.runtime.phase ≠ .stopping ∧ (left.runtime.phase = .stopped → AllZero left.host) := by
    cases ends with
    | start _ _ _ ends =>
      refine ⟨?_,start_allZero here.shape here.stopped ends (boots rfl)⟩
      cases ends with
      | kept same => exact same ▸ here.idle
      | ready _ _ isReady =>
        simp [isReady]
      | rolledBack _ middle _ _ failed ends =>
      obtain ⟨published,mapped,runtime⟩ := ends.runtime
      rw [runtime]
      cases failed <;> simp
    | submit _ _ _ kept ends => exact same (submit_phase ends) kept.firmware
    | observe _ _ _ kept ends => exact same (observe_phase here.shape ends) kept.firmware
    | acknowledge _ _ ends =>
      rcases acknowledged_phase here.shape ends with phase | runs | ⟨-,-,cancelled,calls⟩
      · exact same (.inl phase) ends.firmware
      · exact same (.inr runs) ends.firmware
      rw [endCall,if_pos cancelled] at calls
      have retired := retires rfl world.runtime.pendingSubmission.fence world.runtime.pendingSubmission.nodeOrdinal
        world.runtime.pendingSubmission.engineOrdinal
      rw [calls,drop_left] at retired
      exact absurd (mem_singleton.mpr rfl) retired
    | stop _ _ ends =>
    rcases stop_phase ends with unchanged | runs | clean
    · subst unchanged
      exact ⟨here.idle,here.stopped⟩
    · exact ⟨(stoppable_idle runs).1,fun stopped => absurd stopped (stoppable_idle runs).2⟩
    rw [clean.stopped]
    exact ⟨by simp,fun _ => clean.firmware⟩
  exact ⟨shape',rest.1,rest.2⟩

/-- A stop in which every callback succeeds leaves nothing behind, after every run in which no
other entry point leaves a teardown half way. A callback of the firmware succeeds when its
cleanup does, within its deadline. -/
theorem stop_succeeds (io io' : BackendIo) (contextIdentity : U64) (requests : List Request)
    (stays : EveryStep (act io) (Stays io) requests (runtimeInitialize contextIdentity)) (succeeds : StopSucceeds io')
    (cleansUp : ∀ cleanup ∈ stepCleanups io' .stop (runAll (act io) requests (runtimeInitialize contextIdentity)),
      cleanup.done = true) : Gives (act io' .stop) (runAll (act io) requests (runtimeInitialize contextIdentity))
      (fun result left => result = .ok ∧ FullyStopped left) := by
  have start : Stoppable (runtimeInitialize contextIdentity) :=
    ⟨shape_initial contextIdentity,nofun,fun _ _ => ⟨rfl,rfl⟩⟩
  have step : ∀ request world, Stays io request world → Stoppable world → Gives (act io request) world (fun _ left => Stoppable left) :=
    fun request world stays here => stoppable_kept here (act_ends io here.shape request) stays.1 stays.2
  exact (runAll_keeps step stays start).stop succeeds cleansUp

theorem obligingIo_succeeds : StopSucceeds obligingIo where
  unmap := fun _ _ _ => rfl
  flushForCpu := fun _ _ _ => rfl
  unpublish := fun _ => rfl
  destroy := fun _ => rfl
  stop := fun _ _ => rfl
  complete := fun _ _ _ _ _ => rfl
  retire := fun _ _ _ _ => rfl

/-- A host that at first does not retire the fence of a stop. -/
def unretiring : BackendIo := { obligingIo with retire := fun turn _ _ _ => decide (39 ≤ turn) }

/-- The fence of a stop that has failed is retired by an acknowledgement, and no stop gets through any more. -/
theorem stop_stuck : ¬ ∀ (io io' : BackendIo) (contextIdentity : U64) (requests : List Request), StopSucceeds io' →
    (∀ cleanup ∈ stepCleanups io' .stop (runAll (act io) requests (runtimeInitialize contextIdentity)), cleanup.done = true) →
    Gives (act io' .stop) (runAll (act io) requests (runtimeInitialize contextIdentity))
      (fun result left => result = .ok ∧ FullyStopped left) := by
  intro all
  have ok := (all unretiring obligingIo 1 [.start,.submit renderSubmission,.stop,.acknowledgeCompletion] obligingIo_succeeds
    (by decide +kernel)).1
  exact absurd ok (by decide +kernel)

/-- A stop that did not retire its fence is repeated. -/
theorem stop_succeeds_again : Gives (act obligingIo .stop)
    (runAll (act unretiring) [.start,.submit renderSubmission,.stop] (runtimeInitialize 1))
    (fun result left => result = .ok ∧ FullyStopped left) := by
  refine stop_succeeds unretiring obligingIo 1 _ ⟨⟨nofun,fun _ => ?_⟩,⟨nofun,nofun⟩,⟨nofun,nofun⟩,trivial⟩ obligingIo_succeeds
    (by decide +kernel)
  decide +kernel

end WindowsOnM1.BackendStops
