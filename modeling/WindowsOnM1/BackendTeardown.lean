import WindowsOnM1.BackendSteps

/-!
The two ends of the backend runtime, its start and its stop: what is left when a start rolls
back and when a stop tears everything down.
-/
namespace WindowsOnM1.BackendTeardown
open Actions BackendFirmware BackendCleanups BackendModel List Bool
open BackendSteps

/-- The pending job and its terminal result are as before. -/
structure PendingKept (runtime left : Runtime) : Prop where
  submission : left.pendingSubmission = runtime.pendingSubmission
  job : left.pendingJob = runtime.pendingJob
  taComplete : left.taComplete = runtime.taComplete
  d3Complete : left.d3Complete = runtime.d3Complete
  computeComplete : left.computeComplete = runtime.computeComplete
  terminal : left.terminalPending = runtime.terminalPending
  status : left.terminalStatus = runtime.terminalStatus
  nextPhase : left.terminalNextPhase = runtime.terminalNextPhase
  result : left.terminalResult = runtime.terminalResult

theorem PendingKept.refl (runtime : Runtime) : PendingKept runtime runtime := ⟨rfl,rfl,rfl,rfl,rfl,rfl,rfl,rfl,rfl⟩
theorem torn (runtime : Runtime) (created quiesced published mapped : Bool) : PendingKept runtime { runtime with
    queuesCreated := created, queuesQuiesced := quiesced, contextPublished := published, arenaMapped := mapped } :=
  ⟨rfl,rfl,rfl,rfl,rfl,rfl,rfl,rfl,rfl⟩
theorem rolledBack_iff (host : FirmwareHost) : rolledBack host.firmware = true ↔ AllZero host := by
  rw [rolledBack,and_eq_true,allZero_iff]

/-- Every callback of a stop succeeds that is not one of the firmware. -/
structure StopSucceeds (io : BackendIo) : Prop where
  unmap : ∀ turn cpuAddress bytes, io.unmap turn cpuAddress bytes = true
  flushForCpu : ∀ turn cpuAddress bytes, io.flushForCpu turn cpuAddress bytes = true
  unpublish : ∀ turn, io.unpublish turn = true
  destroy : ∀ turn, io.destroy turn = true
  stop : ∀ turn fence, io.stop turn fence = true
  complete : ∀ turn fence node engine status, io.complete turn fence node engine status = true
  retire : ∀ turn fence node engine, io.retire turn fence node engine = true

/-- The calls of a teardown; the arena is unmapped when nothing can reach it any more. -/
def TearsDown : Call → Prop
  | .destroy _ => True
  | .unpublish _ => True
  | .unmap queuesCreated contextPublished firmwareRolledBack _ =>
    queuesCreated = false ∧ contextPublished = false ∧ firmwareRolledBack = true
  | _ => False

/-- Nothing of a started runtime is left. -/
structure Clean (world : World) : Prop where
  stopped : world.runtime.phase = .stopped
  queues : world.runtime.queuesCreated = false
  context : world.runtime.contextPublished = false
  arena : world.runtime.arenaMapped = false
  firmware : AllZero world.host

structure TearDownEnds (world : World) (result : RuntimeResult) (left : World) : Prop where
  pending : PendingKept world.runtime left.runtime
  onlyBoot : OnlyBoot left.host
  calls : ∃ more, left.calls = world.calls ++ more ∧ ∀ call ∈ more, TearsDown call
  outcome : (result = .ok ∧ Clean left) ∨ (result ≠ .ok ∧ left.runtime.phase = .failed)

/-- A teardown that has got as far as here. -/
structure Underway (world here : World) : Prop where
  pending : PendingKept world.runtime here.runtime
  onlyBoot : OnlyBoot here.host
  calls : ∃ more, here.calls = world.calls ++ more ∧ ∀ call ∈ more, TearsDown call

variable {world here next : World}

theorem Underway.step (underway : Underway world here) (pending : PendingKept here.runtime next.runtime)
    (onlyBoot : OnlyBoot next.host) (last : List Call) (calls : next.calls = here.calls ++ last)
    (tearsDown : ∀ call ∈ last, TearsDown call) : Underway world next where
  pending := ⟨pending.submission.trans underway.pending.submission,pending.job.trans underway.pending.job,
    pending.taComplete.trans underway.pending.taComplete,pending.d3Complete.trans underway.pending.d3Complete,
    pending.computeComplete.trans underway.pending.computeComplete,pending.terminal.trans underway.pending.terminal,
    pending.status.trans underway.pending.status,pending.nextPhase.trans underway.pending.nextPhase,
    pending.result.trans underway.pending.result⟩
  onlyBoot := onlyBoot
  calls := by
    obtain ⟨more,before,all⟩ := underway.calls
    refine ⟨more ++ last,?_,fun call mem => ?_⟩
    · rw [calls,before,append_assoc]
    rcases mem_append.mp mem with early | late
    · exact all call early
    exact tearsDown call late

theorem stopFailed_ends (underway : Underway world here) : Gives stopFailed here (TearDownEnds world) := by
  obtain ⟨pending,onlyBoot,calls⟩ := underway
  exact ⟨⟨pending.1,pending.2,pending.3,pending.4,pending.5,pending.6,pending.7,pending.8,pending.9⟩,onlyBoot,calls,
    .inr ⟨nofun,rfl⟩⟩
theorem onlyBoot_kept (kept : Kept here next) (onlyBoot : OnlyBoot here.host) : OnlyBoot next.host := by
  intro step other
  rw [kept.firmware]
  exact onlyBoot step other

private theorem tearDown_ends (io : BackendIo) {world : World} (onlyBoot : OnlyBoot world.host) :
    Gives (tearDown io) world (TearDownEnds world) := by
  have start : Underway world world := ⟨.refl _,onlyBoot,[],(append_nil _).symm,nofun⟩
  refine (destroyQueues_cases io world).bind (fun queuesFailed first queues => ?_)
  have underway₁ : Underway world first := by
    have onlyBoot₁ : OnlyBoot first.host := onlyBoot_kept queues.kept onlyBoot
    rcases queues.outcome with ⟨-,-,runtime,calls⟩ | ⟨-,-,runtime,calls⟩ | ⟨-,-,runtime,calls⟩
    · exact start.step (by rw [runtime]; exact .refl _) onlyBoot₁ [] (by rw [calls,append_nil]) nofun
    · exact start.step (by rw [runtime]; exact torn _ _ _ _ _) onlyBoot₁ _ calls (by simp [TearsDown])
    exact start.step (by rw [runtime]; exact .refl _) onlyBoot₁ _ calls (by simp [TearsDown])
  rw [gives_ite]
  refine ⟨fun _ => stopFailed_ends underway₁,fun destroyed => ?_⟩
  have created : first.runtime.queuesCreated = false := by
    rcases queues.outcome with ⟨-,absent,runtime,-⟩ | ⟨-,-,runtime,-⟩ | ⟨failed,-⟩
    · rw [runtime,absent]
    · rw [runtime]
    exact absurd failed destroyed
  refine (unpublishContext_cases io first).bind (fun contextFailed second context => ?_)
  have underway₂ : Underway world second := by
    refine underway₁.step (by rw [context.runtime]; exact torn _ _ _ _ _) (onlyBoot_kept context.kept underway₁.onlyBoot) _ context.calls ?_
    split <;> simp [TearsDown]
  rw [gives_ite]
  refine ⟨fun _ => stopFailed_ends underway₂,fun unpublished => ?_⟩
  have published : second.runtime.contextPublished = false := by
    rw [context.runtime]
    exact eq_false_iff.mpr unpublished
  rw [gives_bind,gives_onFirmware]
  refine (firmwareRollback_spec io.firmware underway₂.onlyBoot).mono (fun result host rolledBack => ?_)
  have underway₃ : Underway world { second with host := host } :=
    underway₂.step (.refl _) (rolledBack.onlyBoot underway₂.onlyBoot) [] (append_nil _).symm nofun
  rw [gives_ite]
  refine ⟨fun _ => stopFailed_ends underway₃,fun ok => ?_⟩
  have zero : AllZero host := (rolledBack.ok (not_not.mp ok)).1
  refine (unmapArena_cases io _).bind (fun unmapFailed left unmap => ?_)
  have underway₄ : Underway world left := by
    refine underway₃.step (by rw [unmap.runtime]; exact torn _ _ _ _ _) (onlyBoot_kept unmap.kept underway₃.onlyBoot) _ unmap.calls ?_
    split
    · have created₂ : second.runtime.queuesCreated = false := by
        rw [context.runtime]
        exact created
      simpa [unmapCall,TearsDown] using ⟨created₂,published,(rolledBack_iff host).mpr zero⟩
    exact nofun
  rw [gives_ite]
  refine ⟨fun _ => stopFailed_ends underway₄,fun unmapped => ?_⟩
  simp only [gives_bind,gives_setPhase,gives_pure]
  obtain ⟨pending,onlyBoot₄,calls⟩ := underway₄
  refine ⟨⟨pending.1,pending.2,pending.3,pending.4,pending.5,pending.6,pending.7,pending.8,pending.9⟩,onlyBoot₄,calls,
    .inl ⟨rfl,rfl,?_,?_,?_,?_⟩⟩
  · rw [unmap.runtime,context.runtime]
    exact created
  · rw [unmap.runtime]
    exact published
  · rw [unmap.runtime]
    exact eq_false_iff.mpr unmapped
  have same : left.host.firmware = host.firmware := unmap.kept.firmware
  rw [AllZero,same]
  exact zero

variable {io : BackendIo}

private theorem destroyQueues_succeeds (succeeds : StopSucceeds io) (world : World) :
    Gives (destroyQueues io) world (fun failed _ => failed = false) := by
  unfold destroyQueues
  simp only [gives_bind,gives_get,gives_ite,gives_call,gives_changeRuntime,gives_pure]
  exact ⟨fun _ => ⟨fun _ => trivial,fun refused => absurd (succeeds.destroy _) refused⟩,fun _ => trivial⟩

private theorem unpublishContext_succeeds (succeeds : StopSucceeds io) (world : World) :
    Gives (unpublishContext io) world (fun failed _ => failed = false) := by
  unfold unpublishContext
  simp only [gives_bind,gives_get,gives_ite,gives_call,gives_changeRuntime,gives_pure]
  exact ⟨fun _ => ⟨fun _ => trivial,fun refused => absurd (succeeds.unpublish _) refused⟩,fun _ => trivial⟩

private theorem unmapArena_succeeds (succeeds : StopSucceeds io) (world : World) :
    Gives (unmapArena io) world (fun failed _ => failed = false) := by
  unfold unmapArena
  simp only [gives_bind,gives_get,gives_ite,gives_call,gives_changeRuntime,gives_pure]
  exact ⟨fun _ => ⟨fun _ => trivial,fun refused => absurd (succeeds.unmap _ _ _) refused⟩,fun _ => trivial⟩

/-- All cleanups behind the earlier ones have succeeded. -/
def CleansUp (before : List Cleanup) (host : FirmwareHost) : Prop := ∀ cleanup ∈ host.cleanups.drop before.length, cleanup.done = true

variable {result : FirmwareResult}

private theorem rollback_succeeds {host left : FirmwareHost} (rolledBack : RolledBack host left result)
    (cleansUp : CleansUp host.cleanups left) : result = .ok := by
  obtain ⟨done,cleaned,succeeds⟩ := rolledBack.cleaned
  refine succeeds (fun step mem owes => ?_)
  rw [CleansUp,cleaned.cleanups,show (forgetObservations host).cleanups = host.cleanups from rfl,drop_left] at cleansUp
  exact cleansUp _ (mem_map_of_mem (mem_filter.mpr ⟨mem,owes⟩))

theorem tearDown_succeeds (succeeds : StopSucceeds io) {world : World} (onlyBoot : OnlyBoot world.host) :
    Gives (tearDown io) world (fun result left => CleansUp world.host.cleanups left.host → result = .ok) := by
  refine ((destroyQueues_cases io world).both (destroyQueues_succeeds succeeds world)).bind (fun queuesFailed first here => ?_)
  rw [gives_ite]
  refine ⟨fun failed => absurd (failed.symm.trans here.2) true_eq_false_eq_False,fun _ => ?_⟩
  refine ((unpublishContext_cases io first).both (unpublishContext_succeeds succeeds first)).bind (fun contextFailed second there => ?_)
  rw [gives_ite]
  refine ⟨fun failed => absurd (failed.symm.trans there.2) true_eq_false_eq_False,fun _ => ?_⟩
  have onlyBoot₂ : OnlyBoot second.host := onlyBoot_kept there.1.kept (onlyBoot_kept here.1.kept onlyBoot)
  have cleanups : second.host.cleanups = world.host.cleanups := there.1.kept.cleanups.trans here.1.kept.cleanups
  rw [gives_bind,gives_onFirmware]
  refine (firmwareRollback_spec io.firmware onlyBoot₂).mono (fun result host rollback => ?_)
  rw [gives_ite]
  refine ⟨fun failed => ?_,fun _ => ?_⟩
  · intro cleansUp
    rw [← cleanups] at cleansUp
    exact absurd (rollback_succeeds rollback cleansUp) failed
  refine (unmapArena_succeeds succeeds _).bind (fun unmapFailed left unmapped => ?_)
  rw [gives_ite]
  refine ⟨fun failed => absurd (failed.symm.trans unmapped) true_eq_false_eq_False,fun _ => ?_⟩
  simp only [gives_bind,gives_setPhase,gives_pure]
  exact fun _ => trivial

/-- The calls of a start before it succeeds or rolls back. -/
def Starts : Call → Prop
  | .publish _ => True
  | .create _ => True
  | _ => False

/-- A start that has got as far as here. -/
structure Begun (world here : World) : Prop where
  pending : PendingKept world.runtime here.runtime
  calls : ∃ more, here.calls = world.calls ++ more ∧ ∀ call ∈ more, Starts call
  onlyBoot : OnlyBoot here.host
  firmware :
    (here.host.firmware = world.host.firmware ∧ here.host.cleanups = world.host.cleanups ∧
      here.runtime.contextPublished = world.runtime.contextPublished) ∨
    (here.runtime.arenaMapped = true ∧ ∃ start result, start.cleanups = world.host.cleanups ∧ StartEnds start here.host result)

inductive RuntimeStartEnds (world left : World) : Prop
  | kept (same : left = world)
  | ready (was : world.runtime.phase = .stopped) (begun : Begun world left) (isReady : left.runtime.phase = .ready)
      (created : left.runtime.queuesCreated = true) (quiesced : left.runtime.queuesQuiesced = false)
  | rolledBack (was : world.runtime.phase = .stopped) (middle : World) (begun : Begun world middle)
      (queues : middle.runtime.queuesCreated = false) (failed : Bool) (ends : RollbackEnds middle left failed)

private theorem rollbackEnds_onlyBoot {failed : Bool} (ends : RollbackEnds world here failed) (onlyBoot : OnlyBoot world.host) :
    OnlyBoot here.host := by
  rcases ends.firmware with ⟨-,same,-⟩ | ⟨-,result,rolledBack,-⟩
  · rw [OnlyBoot,same]
    exact onlyBoot
  exact rolledBack.onlyBoot onlyBoot

private theorem startEnds_later {start left left' : FirmwareHost} (ends : StartEnds start left result)
    (firmware : left'.firmware = left.firmware) (cleanups : left'.cleanups = left.cleanups) : StartEnds start left' result := by
  refine ⟨?_,fun ok => ?_,fun failed => ?_⟩
  · rw [OnlyBoot,firmware]
    exact ends.onlyBoot
  · rw [cleanups,firmware]
    exact ends.ok ok
  obtain ⟨host,completed,cleanup,rollback,stage,boots,onlyBoot,rolledBack⟩ := ends.failed failed
  exact ⟨host,completed,cleanup,rollback,stage,boots,onlyBoot,rolledBack.alike ⟨rfl,rfl,rfl⟩ firmware cleanups⟩

theorem runtimeStart_ends (io : BackendIo) {world : World} (onlyBoot : OnlyBoot world.host)
    (noQueues : world.runtime.phase = .stopped → world.runtime.queuesCreated = false) :
    Gives (runtimeStart io) world (fun _ left => OnlyBoot left.host ∧ RuntimeStartEnds world left) := by
  have rollsBack : ∀ failure middle, world.runtime.phase = .stopped → Begun world middle → middle.runtime.queuesCreated = false →
      Gives (startRollback io failure) middle (fun _ left => OnlyBoot left.host ∧ RuntimeStartEnds world left) := by
    intro failure middle was begun queues
    refine (startRollback_ends io failure begun.onlyBoot queues).mono (fun _ left here => ?_)
    obtain ⟨failed,ends⟩ := here
    exact ⟨rollbackEnds_onlyBoot ends begun.onlyBoot,.rolledBack was middle begun queues failed ends⟩
  have none : ∃ more, world.calls = world.calls ++ more ∧ ∀ call ∈ more, Starts call := ⟨[],(append_nil _).symm,nofun⟩
  unfold runtimeStart
  rw [gives_bind,gives_get,gives_ite,gives_ite]
  refine ⟨fun _ => ⟨onlyBoot,.kept rfl⟩,fun _ => ⟨fun _ => ⟨onlyBoot,.kept rfl⟩,fun phase => ?_⟩⟩
  have was : world.runtime.phase = .stopped := not_not.mp phase
  have noQueues := noQueues was
  have pending : ∀ phase cpuAddress gpuAddress bytes mapped roots published, PendingKept world.runtime { world.runtime with
      phase := phase, arenaCpuAddress := cpuAddress, arenaGpuAddress := gpuAddress, arenaBytes := bytes, arenaMapped := mapped,
      roots := roots, contextPublished := published } := fun _ _ _ _ _ _ _ => ⟨rfl,rfl,rfl,rfl,rfl,rfl,rfl,rfl,rfl⟩
  simp only [gives_bind,gives_setPhase,gives_query,gives_changeRuntime,gives_ite]
  refine ⟨fun _ => rollsBack _ _ was ⟨pending _ _ _ _ _ _ _,none,onlyBoot,.inl ⟨rfl,rfl,rfl⟩⟩ noQueues,fun _ => ?_⟩
  refine ⟨fun _ => rollsBack _ _ was ⟨pending _ _ _ _ _ _ _,none,onlyBoot,.inl ⟨rfl,rfl,rfl⟩⟩ noQueues,fun _ => ?_⟩
  refine ⟨fun _ => rollsBack _ _ was ⟨pending _ _ _ _ _ _ _,none,onlyBoot,.inl ⟨rfl,rfl,rfl⟩⟩ noQueues,fun _ => ?_⟩
  simp only [gives_onFirmware,gives_changeFirmware]
  refine (firmwareStart_ends io.firmware _ rfl).mono (fun result host firmware => ?_)
  have owns : ∀ turn, ∃ start result, start.cleanups = world.host.cleanups ∧ StartEnds start { host with turn := turn } result :=
    fun turn => ⟨⟨firmwareInitialize,_,_⟩,result,rfl,startEnds_later firmware rfl rfl⟩
  refine ⟨fun _ => rollsBack _ _ was ⟨pending _ _ _ _ _ _ _,none,firmware.onlyBoot,.inr ⟨rfl,owns _⟩⟩ noQueues,fun _ => ?_⟩
  refine ⟨fun _ => rollsBack _ _ was ⟨pending _ _ _ _ _ _ _,?_,firmware.onlyBoot,.inr ⟨rfl,owns _⟩⟩ noQueues,fun _ => ?_⟩
  · exact ⟨_,rfl,by simp [Starts]⟩
  refine ⟨fun _ => rollsBack _ _ was ⟨pending _ _ _ _ _ _ _,?_,firmware.onlyBoot,.inr ⟨rfl,owns _⟩⟩ noQueues,fun _ => ?_⟩
  · exact ⟨_,append_assoc _ _ _,by simp [Starts]⟩
  refine ⟨firmware.onlyBoot,.ready was ⟨⟨rfl,rfl,rfl,rfl,rfl,rfl,rfl,rfl,rfl⟩,?_,firmware.onlyBoot,.inr ⟨rfl,owns _⟩⟩ rfl rfl rfl⟩
  exact ⟨_,append_assoc _ _ _,by simp [Starts]⟩

/-- The phases in which a stop has something to do. -/
def stoppable (phase : Phase) : Bool := phase = .ready ∨ phase = .submitted ∨ phase = .failed

/-- A natural completion that was due has been made. -/
inductive Completes (world here : World) : Prop
  | none (absent : ¬ (world.runtime.terminalPending = true ∧ completionEndsFence world.runtime.terminalStatus = true))
      (same : here = world)
  | made (pending : world.runtime.terminalPending = true) (ends : completionEndsFence world.runtime.terminalStatus = true)
      (acked : Acknowledged world .ok here)

inductive Halts (here there : World) : Prop
  | none (absent : ¬ (here.runtime.queuesCreated = true ∧ here.runtime.queuesQuiesced = false))
      (same : there = { here with runtime := { here.runtime with phase := .stopping } })
  | made (runtime : there.runtime = { here.runtime with phase := .stopping, queuesQuiesced := true })
      (calls : there.calls = here.calls ++ [.stop here.runtime.pendingSubmission.fence true]) (kept : Kept here there)

/-- The runtime with a fence that is to be retired. -/
def withCancel (world : World) : World := { world with runtime := withTerminal world.runtime .cancelled .stopping .ok }
inductive Retires (there last : World) : Prop
  | none (absent : there.runtime.pendingSubmission.fence = 0) (same : last = there)
  | made (present : there.runtime.pendingSubmission.fence ≠ 0) (acked : Acknowledged (withCancel there) .ok last)

inductive StopEnds (world : World) (result : RuntimeResult) (left : World) : Prop
  | kept (phase : stoppable world.runtime.phase = false) (same : left = world)
      (ok : world.runtime.phase = .stopped → result = .ok)
  | uncompleted (failed : result ≠ .ok) (pending : world.runtime.terminalPending = true)
      (ends : completionEndsFence world.runtime.terminalStatus = true) (answer : RuntimeResult) (refused : answer ≠ .ok) (here : World)
      (acked : Acknowledged world answer here) (same : left = { here with runtime := { here.runtime with phase := .failed } })
  | unhalted (failed : result ≠ .ok) (here : World) (completes : Completes world here) (kept : Kept here left)
      (runtime : left.runtime = { here.runtime with phase := .failed })
      (calls : left.calls = here.calls ++ [.stop here.runtime.pendingSubmission.fence false])
  | unretired (failed : result ≠ .ok) (here there last : World) (completes : Completes world here) (halts : Halts here there)
      (present : there.runtime.pendingSubmission.fence ≠ 0) (answer : RuntimeResult) (refused : answer ≠ .ok)
      (acked : Acknowledged (withCancel there) answer last)
      (same : left = { last with runtime := { last.runtime with phase := .failed } })
  | tornDown (here there last : World) (completes : Completes world here) (halts : Halts here there)
      (retires : Retires there last) (ends : TearDownEnds last result left)

/-- What holds after a piece of a stop that says whether it failed. -/
inductive Tried (bad good : Prop) : Bool → Prop
  | failed : bad → Tried bad good true
  | done : good → Tried bad good false

theorem completePending_cases (io : BackendIo) (world : World) :
    Gives (completePending io) world (fun failed here => Tried
      (world.runtime.terminalPending = true ∧ completionEndsFence world.runtime.terminalStatus = true ∧
        ∃ answer, answer ≠ .ok ∧ Acknowledged world answer here) (Completes world here) failed) := by
  unfold completePending
  rw [gives_bind,gives_get,gives_ite]
  refine ⟨fun due => ?_,fun absent => ?_⟩
  · refine (acknowledgeCompletion_cases io world).bind (fun result here acked => ?_)
    by_cases ok : result = .ok
    · rw [ok]
      exact .done (.made due.1 due.2 (ok ▸ acked))
    rw [decide_eq_true ok]
    exact .failed ⟨due.1,due.2,result,ok,acked⟩
  exact .done (.none absent rfl)

theorem quiesceQueues_cases (io : BackendIo) (world here : World)
    (stopping : here = { world with runtime := { world.runtime with phase := .stopping } }) :
    Gives (quiesceQueues io world.runtime.pendingSubmission.fence) here (fun failed there => Tried
      (Kept world there ∧ there.runtime = { world.runtime with phase := .stopping } ∧
        there.calls = world.calls ++ [.stop world.runtime.pendingSubmission.fence false]) (Halts world there) failed) := by
  subst stopping
  unfold quiesceQueues
  simp only [gives_bind,gives_get,gives_ite,gives_call,gives_changeRuntime,gives_pure]
  refine ⟨fun runs => ⟨fun refused => .failed ⟨⟨rfl,rfl⟩,trivial,?_⟩,fun done => .done (.made rfl ?_ ⟨rfl,rfl⟩)⟩,
    fun quiet => .done (.none (fun runs => quiet ⟨runs.1,?_⟩) rfl)⟩
  · rw [eq_false_iff.mpr refused]
  · rw [not_not.mp done]
  rw [runs.2]
  exact Bool.false_ne_true

theorem retirePending_cases (io : BackendIo) (there : World) :
    Gives (retirePending io there.runtime.pendingSubmission.fence) there (fun failed last => Tried
      (there.runtime.pendingSubmission.fence ≠ 0 ∧ ∃ answer, answer ≠ .ok ∧ Acknowledged (withCancel there) answer last)
      (Retires there last) failed) := by
  unfold retirePending
  rw [gives_ite]
  refine ⟨fun absent => ?_,fun present => ?_⟩
  · exact .done (.none absent rfl)
  rw [gives_bind,gives_changeRuntime]
  refine (acknowledgeCompletion_cases io (withCancel there)).bind (fun result last acked => ?_)
  by_cases ok : result = .ok
  · rw [ok]
    exact .done (.made present (ok ▸ acked))
  rw [decide_eq_true ok]
  exact .failed ⟨present,result,ok,acked⟩

theorem Completes.kept {world here : World} (completes : Completes world here) : Kept world here := by
  cases completes with
  | none _ same => exact same ▸ ⟨rfl,rfl⟩
  | made _ _ acked => exact acked.kept rfl
theorem Halts.kept {here there : World} (halts : Halts here there) : Kept here there := by
  cases halts with
  | none _ same => exact same ▸ ⟨rfl,rfl⟩
  | made _ _ kept => exact kept

theorem Halts.submission {here there : World} (halts : Halts here there) :
    there.runtime.pendingSubmission = here.runtime.pendingSubmission := by
  cases halts with
  | none _ same => rw [same]
  | made runtime => rw [runtime]

theorem Retires.kept {there last : World} (retires : Retires there last) : Kept there last := by
  cases retires with
  | none _ same => exact same ▸ ⟨rfl,rfl⟩
  | made _ acked => exact acked.kept rfl

theorem runtimeStop_ends (io : BackendIo) {world : World} (onlyBoot : OnlyBoot world.host) :
    Gives (runtimeStop io) world (StopEnds world) := by
  unfold runtimeStop
  rw [gives_bind,gives_get,gives_ite,gives_ite]
  refine ⟨fun stopped => .kept ?_ rfl (fun _ => rfl),fun running => ⟨fun other => .kept ?_ rfl (fun stopped => absurd stopped running),
    fun _ => ?_⟩⟩
  · rw [stopped]
    rfl
  · simpa [stoppable] using other
  refine (completePending_cases io world).bind (fun failed here completes => ?_)
  cases completes with
  | failed bad =>
    obtain ⟨pending,ends,answer,refused,acked⟩ := bad
    exact .uncompleted nofun pending ends answer refused here acked rfl
  | done completes => ?_
  rw [if_neg Bool.false_ne_true,gives_bind,gives_get,gives_bind,gives_setPhase]
  refine (quiesceQueues_cases io here _ rfl).bind (fun failed there halts => ?_)
  cases halts with
  | failed bad =>
    obtain ⟨kept,runtime,calls⟩ := bad
    rw [if_pos rfl]
    simp only [stopFailed,gives_bind,gives_setPhase,gives_pure]
    refine .unhalted nofun here completes ⟨kept.firmware,kept.cleanups⟩ ?_ calls
    rw [runtime]
  | done halts => ?_
  rw [if_neg Bool.false_ne_true,← halts.submission]
  refine (retirePending_cases io there).bind (fun failed last retires => ?_)
  cases retires with
  | failed bad =>
    obtain ⟨present,answer,refused,acked⟩ := bad
    exact .unretired nofun here there last completes halts present answer refused acked rfl
  | done retires => ?_
  have onlyBoot' : OnlyBoot last.host := onlyBoot_kept retires.kept (onlyBoot_kept halts.kept (onlyBoot_kept completes.kept onlyBoot))
  exact (tearDown_ends io onlyBoot').mono (fun result left ends => .tornDown here there last completes halts retires ends)

end WindowsOnM1.BackendTeardown
