import WindowsOnM1.BackendTeardown

/-!
The shape of the backend runtime between its entry points. It holds in every state that a
run can reach, whatever the callbacks answer.
-/
namespace WindowsOnM1.BackendShape
open Actions BackendFirmware BackendCleanups BackendModel Bool
open BackendSteps BackendTeardown

/-- What a terminal result that is pending says about the queues and the next phase. -/
structure TerminalShape (runtime : Runtime) : Prop where
  fence : runtime.pendingSubmission.fence ≠ 0
  natural : completionEndsFence runtime.terminalStatus = true →
    runtime.terminalNextPhase = .ready ∧ runtime.terminalResult = .ok ∧ runtime.queuesQuiesced = false
  cancelled : runtime.terminalStatus = .cancelled →
    runtime.terminalNextPhase = .stopping ∧ runtime.terminalResult = .ok ∧ runtime.queuesQuiesced = true
  failed : completionEndsFence runtime.terminalStatus = false → runtime.terminalStatus ≠ .cancelled →
    runtime.terminalNextPhase = .failed ∧ runtime.queuesQuiesced = true

structure Shape (world : World) : Prop where
  onlyBoot : OnlyBoot world.host
  settled : world.runtime.phase ≠ .starting
  stopped : world.runtime.phase = .stopped → world.runtime.queuesCreated = false ∧ world.runtime.contextPublished = false ∧
    world.runtime.arenaMapped = false ∧ isZero world.host.firmware.completedMask = true ∧ world.runtime.pendingSubmission.fence = 0
  ready : world.runtime.phase = .ready →
    world.runtime.pendingSubmission.fence = 0 ∧ world.runtime.queuesCreated = true ∧ world.runtime.queuesQuiesced = false
  submitted : world.runtime.phase = .submitted → world.runtime.pendingSubmission.fence ≠ 0 ∧
    (world.runtime.terminalPending = false → world.runtime.queuesQuiesced = false)
  created : world.runtime.pendingSubmission.fence ≠ 0 → world.runtime.queuesCreated = true
  terminal : world.runtime.terminalPending = true → TerminalShape world.runtime

variable {world left : World}

theorem shape_initial (contextIdentity : U64) : Shape (runtimeInitialize contextIdentity) where
  onlyBoot := fun _ _ => rfl
  settled := nofun
  stopped := fun _ => ⟨rfl,rfl,rfl,rfl,rfl⟩
  ready := nofun
  submitted := nofun
  created := fun present => absurd rfl present
  terminal := nofun

theorem Shape.noTerminal (shape : Shape world) (fence : world.runtime.pendingSubmission.fence = 0) :
    world.runtime.terminalPending = false :=
  eq_false_iff.mpr (fun pending => (shape.terminal pending).fence fence)

theorem Shape.toPhase (shape : Shape world) {phase : Phase} (quiet : phase = .failed ∨ phase = .stopping) :
    Shape { world with runtime := { world.runtime with phase := phase } } := by
  obtain ⟨onlyBoot,-,-,-,-,created,terminal⟩ := shape
  refine ⟨onlyBoot,?_,?_,?_,?_,created,fun pending => ?_⟩
  · rcases quiet with rfl | rfl <;> nofun
  · rcases quiet with rfl | rfl <;> nofun
  · rcases quiet with rfl | rfl <;> nofun
  · rcases quiet with rfl | rfl <;> nofun
  obtain ⟨fence,natural,cancelled,failed⟩ := terminal pending
  exact ⟨fence,natural,cancelled,failed⟩

theorem Shape.alike (shape : Shape world) (runtime : left.runtime = world.runtime)
    (firmware : left.host.firmware = world.host.firmware) : Shape left := by
  obtain ⟨onlyBoot,settled,stopped,ready,submitted,created,terminal⟩ := shape
  rw [← runtime] at settled stopped ready submitted created terminal
  rw [OnlyBoot,← firmware] at onlyBoot
  rw [← firmware] at stopped
  exact ⟨onlyBoot,settled,stopped,ready,submitted,created,terminal⟩

variable {result : RuntimeResult}

theorem Shape.acknowledged (shape : Shape world) (acknowledged : Acknowledged world result left) : Shape left := by
  rcases acknowledged.outcome with ⟨-,flushed,runtime,-⟩ | ⟨-,pending,runtime,-⟩
  · have flushes : Shape { world with runtime := { world.runtime with terminalCpuFlushed := flushed } } := by
      obtain ⟨onlyBoot,settled,stopped,ready,submitted,created,terminal⟩ := shape
      refine ⟨onlyBoot,settled,stopped,ready,submitted,created,fun pending => ?_⟩
      obtain ⟨fence,natural,cancelled,failed⟩ := terminal pending
      exact ⟨fence,natural,cancelled,failed⟩
    exact flushes.alike runtime acknowledged.firmware
  obtain ⟨fence,natural,cancelled,failed⟩ := shape.terminal pending.1
  have created := shape.created fence
  have ended : Shape { world with runtime := { clearPending world.runtime with phase := world.runtime.terminalNextPhase } } := by
    refine ⟨shape.onlyBoot,?_,?_,?_,?_,fun present => absurd rfl present,nofun⟩
    all_goals
      by_cases ends : completionEndsFence world.runtime.terminalStatus = true
      · simp [natural ends,clearPending,noSubmission,created]
      by_cases isCancelled : world.runtime.terminalStatus = .cancelled
      · simp [cancelled isCancelled]
      simp [failed (eq_false_iff.mpr ends) isCancelled]
  exact ended.alike runtime acknowledged.firmware

variable {status : CompletionStatus} {nextPhase : Phase}

theorem Shape.withTerminal (shape : Shape world)
    (terminal : TerminalShape (withTerminal world.runtime status nextPhase result)) :
    Shape { world with runtime := withTerminal world.runtime status nextPhase result } := by
  obtain ⟨onlyBoot,settled,stopped,ready,submitted,created,-⟩ := shape
  exact ⟨onlyBoot,settled,stopped,ready,fun phase => ⟨(submitted phase).1,nofun⟩,created,fun _ => terminal⟩

private theorem shape_submit (shape : Shape world) (kept : Kept world left) (ends : SubmitEnds world left) : Shape left := by
  cases ends with
  | kept runtime => exact shape.alike runtime kept.firmware
  | prepared ready job runtime =>
    have prepares : Shape { world with runtime := { world.runtime with pendingJob := job } } := by
      obtain ⟨onlyBoot,settled,stopped,ready,submitted,created,terminal⟩ := shape
      refine ⟨onlyBoot,settled,stopped,ready,submitted,created,fun pending => ?_⟩
      obtain ⟨fence,natural,cancelled,failed⟩ := terminal pending
      exact ⟨fence,natural,cancelled,failed⟩
    exact prepares.alike runtime kept.firmware
  | refused ready runtime =>
    obtain ⟨-,created,running⟩ := shape.ready ready
    have refuses : Shape { world with runtime := { clearPending world.runtime with phase := .ready } } :=
      ⟨shape.onlyBoot,nofun,nofun,fun _ => ⟨rfl,created,running⟩,nofun,fun present => absurd rfl present,nofun⟩
    exact refuses.alike runtime kept.firmware
  | admitted ready submission fence job runtime =>
    obtain ⟨free,created,running⟩ := shape.ready ready
    have pending := shape.noTerminal free
    have admits : Shape { world with runtime := { withJob world.runtime submission job with phase := .submitted } } :=
      ⟨shape.onlyBoot,nofun,nofun,nofun,fun _ => ⟨fence,fun _ => running⟩,fun _ => created,
        fun present => absurd (present.symm.trans pending) true_eq_false_eq_False⟩
    exact admits.alike runtime kept.firmware
  | halted ready submission fence job stopped runtime =>
  obtain ⟨free,created,running⟩ := shape.ready ready
  have pending := shape.noTerminal free
  have halts : Shape { world with runtime := { withJob world.runtime submission job with
      queuesQuiesced := world.runtime.queuesQuiesced || stopped, phase := .failed } } :=
    ⟨shape.onlyBoot,nofun,nofun,nofun,nofun,fun _ => created,
      fun present => absurd (present.symm.trans pending) true_eq_false_eq_False⟩
  exact halts.alike runtime kept.firmware

theorem terminalShape_of {runtime : Runtime} (fence : runtime.pendingSubmission.fence ≠ 0)
    (natural : completionEndsFence status = true → nextPhase = .ready ∧ result = .ok ∧ runtime.queuesQuiesced = false)
    (cancelled : status = .cancelled → nextPhase = .stopping ∧ result = .ok ∧ runtime.queuesQuiesced = true)
    (failed : completionEndsFence status = false → status ≠ .cancelled → nextPhase = .failed ∧ runtime.queuesQuiesced = true) :
    TerminalShape (withTerminal runtime status nextPhase result) := ⟨fence,natural,cancelled,failed⟩

theorem failureStatus_lasts {observed : ObservationStatus} (failure : failureStatus observed = some status) :
    completionEndsFence status = false ∧ status ≠ .cancelled := by
  revert failure
  cases observed <;> simp only [failureStatus,Option.some.injEq,reduceCtorEq,false_implies] <;> rintro rfl <;> simp [completionEndsFence]

section
variable (shape : Shape world) (free : world.runtime.terminalPending = false)
include shape free

theorem Shape.flags (ta d3 compute : Bool) :
    Shape { world with runtime := { world.runtime with taComplete := ta, d3Complete := d3, computeComplete := compute } } := by
  obtain ⟨onlyBoot,settled,stopped,ready,submitted,created,-⟩ := shape
  exact ⟨onlyBoot,settled,stopped,ready,submitted,created,
    fun pending => absurd (pending.symm.trans free) true_eq_false_eq_False⟩

theorem Shape.queue (queue : Queue) : Shape { world with runtime := withQueue world.runtime queue } := by
  cases queue
  · exact shape.flags free true _ _
  · exact shape.flags free _ true _
  exact shape.flags free _ _ true

end

theorem withQueue_kept (runtime : Runtime) (queue : Queue) :
    (withQueue runtime queue).pendingSubmission = runtime.pendingSubmission ∧
      (withQueue runtime queue).queuesQuiesced = runtime.queuesQuiesced := by
  cases queue <;> exact ⟨rfl,rfl⟩

private theorem shape_observe (shape : Shape world) {observation : Observation} (kept : Kept world left)
    (ends : ObserveEnds world observation left) : Shape left := by
  have noted : Shape (noted world observation) := shape.alike rfl rfl
  cases ends with
  | kept runtime => exact shape.alike runtime kept.firmware
  | retried _ _ _ acknowledged => exact noted.acknowledged acknowledged
  | dropped runs free _ acknowledged =>
    obtain ⟨fence,running⟩ := shape.submitted runs
    have terminal : TerminalShape (withTerminal { world.runtime with taComplete := true, d3Complete := true, computeComplete := true }
        .dropped .ready .ok) := terminalShape_of fence (fun _ => ⟨rfl,rfl,running free⟩) nofun nofun
    exact ((noted.flags free true true true).withTerminal terminal).acknowledged acknowledged
  | unhalted runs free runtime => exact (shape.toPhase (.inl rfl)).alike runtime kept.firmware
  | halted runs free status failure runtime =>
    obtain ⟨fence,-⟩ := shape.submitted runs
    obtain ⟨lasts,notCancelled⟩ := failureStatus_lasts failure
    have terminal : TerminalShape (BackendSteps.withTerminal { world.runtime with queuesQuiesced := true } status .failed .faulted) :=
      terminalShape_of fence (fun natural => absurd (natural.symm.trans lasts) true_eq_false_eq_False)
        (fun cancelled => absurd cancelled notCancelled) (fun _ _ => ⟨rfl,rfl⟩)
    have halts : Shape { world with
        runtime := BackendSteps.withTerminal { world.runtime with queuesQuiesced := true } status .failed .faulted } := by
      obtain ⟨onlyBoot,settled,stopped,ready,submitted,created,-⟩ := shape
      refine ⟨onlyBoot,settled,stopped,fun isReady => ?_,fun _ => ⟨fence,nofun⟩,created,fun _ => terminal⟩
      exact absurd (ready isReady).1 fence
    exact halts.alike runtime kept.firmware
  | partly runs free isExpected runtime => exact (shape.queue free observation.queue).alike runtime kept.firmware
  | completed runs free isExpected all _ acknowledged =>
  obtain ⟨fence,running⟩ := shape.submitted runs
  obtain ⟨submission,quiesced⟩ := withQueue_kept world.runtime observation.queue
  have terminal : TerminalShape (withTerminal (withQueue world.runtime observation.queue) .success .ready .ok) := by
    refine terminalShape_of ?_ (fun _ => ⟨rfl,rfl,?_⟩) nofun nofun
    · rw [submission]
      exact fence
    rw [quiesced]
    exact running free
  exact ((noted.queue free observation.queue).withTerminal terminal).acknowledged acknowledged

variable {here : World}

section
variable (shape : Shape world)
include shape

theorem Shape.begun (was : world.runtime.phase = .stopped) (begun : Begun world here) :
    here.runtime.pendingSubmission.fence = 0 ∧ here.runtime.terminalPending = false := by
  obtain ⟨-,-,-,-,free⟩ := shape.stopped was
  rw [begun.pending.submission,begun.pending.terminal]
  exact ⟨free,shape.noTerminal free⟩

private theorem shape_start (onlyBoot : OnlyBoot left.host) (ends : RuntimeStartEnds world left) : Shape left := by
  cases ends with
  | kept same => exact same ▸ shape
  | ready was begun isReady created quiesced =>
    obtain ⟨free,pending⟩ := shape.begun was begun
    refine ⟨onlyBoot,?_,?_,fun _ => ⟨free,created,quiesced⟩,?_,fun present => absurd free present,?_⟩
    · rw [isReady]
      nofun
    · rw [isReady]
      nofun
    · rw [isReady]
      nofun
    rw [pending]
    nofun
  | rolledBack was middle begun queues failed ends =>
  obtain ⟨free,pending⟩ := shape.begun was begun
  obtain ⟨published,mapped,runtime⟩ := ends.runtime
  have phase : left.runtime.phase = if failed then .failed else .stopped := by rw [runtime]
  have free' : left.runtime.pendingSubmission.fence = 0 := by rw [runtime]; exact free
  have pending' : left.runtime.terminalPending = false := by rw [runtime]; exact pending
  have created : left.runtime.queuesCreated = false := by rw [runtime]; exact queues
  refine ⟨onlyBoot,?_,fun stopped => ?_,?_,?_,fun present => absurd free' present,?_⟩
  · rw [phase]
    cases failed <;> nofun
  · have succeeds : failed = false := by
      rw [phase] at stopped
      cases failed
      · rfl
      exact absurd stopped (by decide)
    refine ⟨created,(ends.clean succeeds).1,(ends.clean succeeds).2,?_,free'⟩
    rcases ends.firmware with ⟨zero,same,-⟩ | ⟨-,result,rolledBack,ok⟩
    · rw [same]
      exact zero
    exact (isZero_iff _).mpr (fun step => ((rolledBack.ok (ok succeeds)).1 step).1)
  · rw [phase]
    cases failed <;> nofun
  · rw [phase]
    cases failed <;> nofun
  rw [pending']
  nofun

theorem Shape.completes (completes : Completes world here) :
    Shape here ∧ ¬ (here.runtime.terminalPending = true ∧ completionEndsFence here.runtime.terminalStatus = true) := by
  cases completes with
  | none absent same => exact ⟨same ▸ shape,same ▸ absent⟩
  | made pending ends acknowledged =>
  refine ⟨shape.acknowledged acknowledged,fun natural => ?_⟩
  rcases acknowledged.outcome with ⟨failed,-⟩ | ⟨-,-,runtime,-⟩
  · exact absurd rfl failed
  rw [runtime] at natural
  exact absurd natural.1 nofun

theorem Shape.halts (absent : ¬ (world.runtime.terminalPending = true ∧
      completionEndsFence world.runtime.terminalStatus = true)) {there : World} (halts : Halts world there) :
    Shape there ∧ (there.runtime.queuesCreated = true → there.runtime.queuesQuiesced = true) := by
  cases halts with
  | none quiet same =>
    subst same
    refine ⟨shape.toPhase (.inr rfl),fun created => ?_⟩
    by_contra runs
    exact quiet ⟨created,eq_false_iff.mpr runs⟩
  | made runtime _ kept =>
  refine ⟨?_,fun _ => by rw [runtime]⟩
  have halted : Shape { world with runtime := { world.runtime with phase := .stopping, queuesQuiesced := true } } := by
    obtain ⟨onlyBoot,-,-,-,-,created,terminal⟩ := shape
    refine ⟨onlyBoot,nofun,nofun,nofun,nofun,created,fun pending => ?_⟩
    obtain ⟨fence,-,cancelled,failed⟩ := terminal pending
    exact ⟨fence,fun natural => absurd ⟨pending,natural⟩ absent,fun isCancelled => ⟨(cancelled isCancelled).1,(cancelled isCancelled).2.1,rfl⟩,
      fun lasts other => ⟨(failed lasts other).1,rfl⟩⟩
  exact halted.alike runtime kept.firmware

theorem Shape.cancels (quiesced : world.runtime.queuesCreated = true → world.runtime.queuesQuiesced = true)
    (present : world.runtime.pendingSubmission.fence ≠ 0) : Shape (withCancel world) :=
  shape.withTerminal (terminalShape_of present nofun (fun _ => ⟨rfl,rfl,quiesced (shape.created present)⟩) (fun _ other => absurd rfl other))

theorem Shape.retires (quiesced : world.runtime.queuesCreated = true → world.runtime.queuesQuiesced = true)
    {last : World} (retires : Retires world last) : Shape last ∧ last.runtime.pendingSubmission.fence = 0 := by
  cases retires with
  | none absent same => exact ⟨same ▸ shape,same ▸ absent⟩
  | made present acknowledged =>
  refine ⟨(shape.cancels quiesced present).acknowledged acknowledged,?_⟩
  rcases acknowledged.outcome with ⟨failed,-⟩ | ⟨-,-,runtime,-⟩
  · exact absurd rfl failed
  rw [runtime]
  rfl

theorem shape_stop (ends : StopEnds world result left) : Shape left := by
  cases ends with
  | kept _ same => exact same ▸ shape
  | uncompleted _ _ _ _ _ here acknowledged same => exact same ▸ (shape.acknowledged acknowledged).toPhase (.inl rfl)
  | unhalted _ here completes kept runtime =>
    exact ((shape.completes completes).1.toPhase (.inl rfl)).alike runtime kept.firmware
  | unretired _ here there last completes halts present _ _ acknowledged same =>
    obtain ⟨completed,absent⟩ := shape.completes completes
    obtain ⟨halted,quiesced⟩ := completed.halts absent halts
    exact same ▸ ((halted.cancels quiesced present).acknowledged acknowledged).toPhase (.inl rfl)
  | tornDown here there last completes halts retires ends =>
  obtain ⟨completed,absent⟩ := shape.completes completes
  obtain ⟨halted,quiesced⟩ := completed.halts absent halts
  obtain ⟨retired,free⟩ := halted.retires quiesced retires
  have free' : left.runtime.pendingSubmission.fence = 0 := by rw [ends.pending.submission]; exact free
  have pending : left.runtime.terminalPending = false := by rw [ends.pending.terminal]; exact retired.noTerminal free
  have phase : left.runtime.phase = .stopped ∨ left.runtime.phase = .failed := by
    rcases ends.outcome with ⟨-,clean⟩ | ⟨-,failed⟩
    · exact .inl clean.stopped
    exact .inr failed
  refine ⟨ends.onlyBoot,?_,fun stopped => ?_,?_,?_,fun present => absurd free' present,?_⟩
  · rcases phase with phase | phase <;> rw [phase] <;> nofun
  · rcases ends.outcome with ⟨-,clean⟩ | ⟨-,failed⟩
    · exact ⟨clean.queues,clean.context,clean.arena,(isZero_iff _).mpr (fun step => (clean.firmware step).1),free'⟩
    exact absurd (failed.symm.trans stopped) nofun
  · rcases phase with phase | phase <;> rw [phase] <;> nofun
  · rcases phase with phase | phase <;> rw [phase] <;> nofun
  rw [pending]
  nofun

end

inductive RequestEnds (world : World) : Request → RuntimeResult → World → Prop
  | start (result : RuntimeResult) (left : World) (onlyBoot : OnlyBoot left.host) (ends : RuntimeStartEnds world left) :
    RequestEnds world .start result left
  | submit (submission : Submission) (result : RuntimeResult) (left : World) (kept : Kept world left) (ends : SubmitEnds world left) :
    RequestEnds world (.submit submission) result left
  | observe (observation : Observation) (result : RuntimeResult) (left : World) (kept : Kept world left)
    (ends : ObserveEnds world observation left) : RequestEnds world (.observe observation) result left
  | acknowledge (result : RuntimeResult) (left : World) (ends : Acknowledged world result left) :
    RequestEnds world .acknowledgeCompletion result left
  | stop (result : RuntimeResult) (left : World) (ends : StopEnds world result left) : RequestEnds world .stop result left

theorem act_ends (io : BackendIo) (shape : Shape world) (request : Request) :
    Gives (act io request) world (RequestEnds world request) := by
  cases request with
  | start =>
    exact (runtimeStart_ends io shape.onlyBoot (fun stopped => (shape.stopped stopped).1)).mono
      (fun result left here => .start result left here.1 here.2)
  | submit submission =>
    exact (runtimeSubmit_ends io submission world).mono (fun result left here => .submit submission result left here.1 here.2)
  | observe observation =>
    exact (runtimeObserve_ends io observation (fun runs => (shape.submitted runs).1)).mono
      (fun result left here => .observe observation result left here.1 here.2)
  | acknowledgeCompletion => exact (acknowledgeCompletion_cases io world).mono (fun result left here => .acknowledge result left here)
  | stop => exact (runtimeStop_ends io shape.onlyBoot).mono (fun result left here => .stop result left here)

theorem shape_kept (shape : Shape world) {request : Request} (ends : RequestEnds world request result left) :
    Shape left := by
  cases ends with
  | start _ _ onlyBoot ends => exact shape_start shape onlyBoot ends
  | submit _ _ _ kept ends => exact shape_submit shape kept ends
  | observe _ _ _ kept ends => exact shape_observe shape kept ends
  | acknowledge _ _ ends => exact shape.acknowledged ends
  | stop _ _ ends => exact shape_stop shape ends

/-- **The phase says what there is.** In every state that calls lead to, whatever the callbacks answer. -/
theorem reached_shape (io : BackendIo) (contextIdentity : U64) (requests : List Request) :
    Shape (runAll (act io) requests (runtimeInitialize contextIdentity)) :=
  runAll_invariant (fun request _ shape => (act_ends io shape request).mono (fun _ _ ends => shape_kept shape ends))
    requests (shape_initial contextIdentity)

end WindowsOnM1.BackendShape
