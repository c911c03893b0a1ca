import WindowsOnM1.JobLedger
import WindowsOnM1.QueueRuntimeSteps

/-!
Runs of the queue runtime, with a ledger of the jobs that it accepted, the events that it
handled for them and the completions that it produced and gave out. One job is outstanding
at a time and has one completion, which says success only when every queue was observed.
-/
namespace WindowsOnM1.QueueRuntimeJobs
open JobLedger QueueRuntimeModel QueueRuntimeSteps List

/-- A call; each of them is refused with a `NULL` argument before anything is read. -/
inductive Call
  | nullArgument
  | submit (submission : Submission)
  | submitCompute (submission : Submission)
  | submitRenderWithCompute (submission : Submission)
  | handleEvent (message : List Byte)
  | checkTimeout (nowTicks : U64)
  | cancel (fence : U32)
  | takeCompletion
  | reset

def perform (io : Io) (runtime : Runtime) : Call → Outcome × Option Completion
  | .nullArgument => (refuse .invalidArgument runtime,none)
  | .submit submission => (queueRuntimeSubmit io submission runtime,none)
  | .submitCompute submission => (queueRuntimeSubmitCompute io submission runtime,none)
  | .submitRenderWithCompute submission => (queueRuntimeSubmitRenderWithCompute io submission runtime,none)
  | .handleEvent message => (queueRuntimeHandleEvent io message runtime,none)
  | .checkTimeout nowTicks => (queueRuntimeCheckTimeout nowTicks runtime,none)
  | .cancel fence => (queueRuntimeCancel io fence runtime,none)
  | .takeCompletion => (refuse .ok (queueRuntimeTakeCompletion runtime).2,(queueRuntimeTakeCompletion runtime).1)
  | .reset => (queueRuntimeReset io runtime,none)

/-- The submission of a call, and the queues that it is for. -/
def Call.submission : Call → Option (Submission × List Queue)
  | .submit submission => some (submission,[.d3,.ta])
  | .submitCompute submission => some (submission,[.compute])
  | .submitRenderWithCompute submission => some (submission,[.d3,.ta,.compute])
  | _ => none

abbrev JobEntry := Entry Job (Io × List Byte) Completion

/-- The completion that a call produced. -/
def produced (before after : Runtime) : List JobEntry :=
  if before.phase ≠ .completionPending ∧ after.phase = .completionPending then [.produced after.completion] else []

def entries (io : Io) (call : Call) (before : Runtime) (outcome : Outcome) (completion : Option Completion) : List JobEntry :=
  match call with
  | .handleEvent message =>
    (if before.phase = .submitted ∨ before.phase = .computeSubmitted then [.handled (io,message)] else []) ++
      produced before outcome.runtime
  | .cancel _ => produced before outcome.runtime
  | .takeCompletion => completion.toList.map .taken
  | .reset => if outcome.result = .ok then [.reset] else []
  | .checkTimeout _ => []
  | call =>
    if outcome.result = .ok then call.submission.toList.map (fun (submission,queues) =>
      .accepted (jobOf io before.config submission queues)) else []

structure Run where
  runtime : Runtime
  ledger : List JobEntry
def advance (run : Run) (step : Io × Call) : Run :=
  let (outcome,completion) := perform step.1 run.runtime step.2
  ⟨outcome.runtime,run.ledger ++ entries step.1 step.2 run.runtime outcome completion⟩

/-- The run of some calls, each with what its callbacks answer. -/
def runAll (runtime : Runtime) (steps : List (Io × Call)) : Run := steps.foldl advance ⟨runtime,[]⟩

/-- A completion is for its job, and says success only if every queue was observed. -/
def Sound (config : Config) (job : Job) (since : List (Io × List Byte)) (completion : Completion) : Prop :=
  completion.fence = job.fence ∧ (completion.status = .success → AllObserved config job since)

/-- Where the ledger of a runtime stands. A job that could not be stopped stays outstanding until the reset. -/
def Stands (runtime : Runtime) : Account Job (Io × List Byte) Completion → Prop
  | .free => runtime.phase = .ready ∨ runtime.phase = .faulted
  | .outstanding job since => Tracks runtime job since ∨ runtime.phase = .faulted
  | .completed _ _ completion => runtime.phase = .completionPending ∧ runtime.completionAvailable = true ∧
      runtime.completion = completion

structure Keeps (config : Config) (run : Run) : Prop where
  same : run.runtime.config = config
  valid : configValid config = true
  idle : Idle run.runtime
  ledger : ∃ account, Kept (Sound config) run.ledger account ∧ Stands run.runtime account

variable {runtime : Runtime}

theorem idle_of_phase (other : runtime.phase ≠ .ready) : Idle runtime :=
  fun ready => absurd ready other
private theorem idle_cleared (runtime : Runtime) : Idle (clearPending runtime) := fun _ => rfl

variable {job : Job} {since : List (Io × List Byte)}

section
variable (tracks : Tracks runtime job since)
include tracks

theorem tracks_phase : runtime.phase = .submitted ∨ runtime.phase = .computeSubmitted := by
  rcases tracks.kind with ⟨phase,_⟩ | ⟨phase,_⟩
  · exact .inr phase
  exact .inl phase

theorem tracks_not_ready : runtime.phase ≠ .ready := by
  rcases tracks_phase tracks with phase | phase
  · rw [phase]
    decide
  rw [phase]
  decide

theorem tracks_not_pending : runtime.phase ≠ .completionPending := by
  rcases tracks_phase tracks with phase | phase
  · rw [phase]
    decide
  rw [phase]
  decide

end

theorem stands_free {account : Account Job (Io × List Byte) Completion} (stands : Stands runtime account)
    (ready : runtime.phase = .ready) : account = .free := by
  cases account with
  | free => rfl
  | outstanding job since =>
    rcases stands with tracks | faulted
    · exact absurd ready (tracks_not_ready tracks)
    rw [ready] at faulted
    cases faulted
  | completed job since completion =>
  have pending := stands.1
  rw [ready] at pending
  cases pending

variable {config : Config} {run : Run}

variable {io : Io}

theorem keeps_submission (keeps : Keeps config run) {submission : Submission} {queues : List Queue} {outcome : Outcome}
    (submits : Submits io submission queues run.runtime outcome) :
    Keeps config ⟨outcome.runtime,run.ledger ++ (if outcome.result = .ok
      then [.accepted (jobOf io run.runtime.config submission queues)] else [])⟩ := by
  obtain ⟨account,kept,stands⟩ := keeps.ledger
  cases submits with
  | refused failed same =>
    rw [if_neg failed,append_nil,same]
    exact keeps
  | unpublished ready failed cleared =>
    obtain rfl := stands_free stands ready
    rw [if_neg failed,append_nil,cleared]
    exact ⟨keeps.same,keeps.valid,idle_cleared _,.free,kept,.inl rfl⟩
  | stopped ready failed faulted same published =>
    obtain rfl := stands_free stands ready
    rw [if_neg failed,append_nil]
    exact ⟨same.trans keeps.same,keeps.valid,idle_of_phase (by rw [faulted]; decide),.free,kept,.inr faulted⟩
  | accepted ready ok same tracks =>
  obtain rfl := stands_free stands ready
  rw [if_pos ok]
  exact ⟨same.trans keeps.same,keeps.valid,idle_of_phase (tracks_not_ready tracks),_,.accepted _ kept,.inl tracks⟩

theorem produced_none {before after : Runtime} (other : after.phase ≠ .completionPending) : produced before after = [] :=
  if_neg (fun both => other both.2)
theorem produced_one {before after : Runtime} (other : before.phase ≠ .completionPending)
    (pending : after.phase = .completionPending) : produced before after = [.produced after.completion] :=
  if_pos ⟨other,pending⟩

private theorem keeps_handleEvent (keeps : Keeps config run) (io : Io) (message : List Byte) :
    Keeps config (advance run (io,.handleEvent message)) := by
  obtain ⟨account,kept,stands⟩ := keeps.ledger
  unfold advance perform entries
  dsimp only
  by_cases awaited : run.runtime.phase = .submitted ∨ run.runtime.phase = .computeSubmitted
  · rw [if_pos awaited]
    cases account with
    | free =>
      rcases stands with ready | faulted
      · rw [ready] at awaited
        rcases awaited with bad | bad <;> cases bad
      rw [faulted] at awaited
      rcases awaited with bad | bad <;> cases bad
    | completed job since completion =>
      rw [stands.1] at awaited
      rcases awaited with bad | bad <;> cases bad
    | outstanding job since =>
    rcases stands with tracks | faulted
    swap
    · rw [faulted] at awaited
      rcases awaited with bad | bad <;> cases bad
    have handled := kept.handled (io,message)
    cases handleEvent_handles io message tracks with
    | waits same tracks' =>
      rw [produced_none (tracks_not_pending tracks'),append_nil]
      exact ⟨same.trans keeps.same,keeps.valid,idle_of_phase (tracks_not_ready tracks'),_,handled,.inl tracks'⟩
    | succeeds same phase available completion observed =>
      rw [produced_one (tracks_not_pending tracks) phase,← append_assoc]
      refine ⟨same.trans keeps.same,keeps.valid,idle_of_phase (by rw [phase]; decide),_,.produced _ handled ?_,phase,available,rfl⟩
      rw [completion]
      rw [keeps.same] at observed
      exact ⟨rfl,fun _ => observed⟩
    | fails same status other phase available completion cause =>
      rw [produced_one (tracks_not_pending tracks) phase,← append_assoc]
      refine ⟨same.trans keeps.same,keeps.valid,idle_of_phase (by rw [phase]; decide),_,.produced _ handled ?_,phase,available,rfl⟩
      rw [completion]
      exact ⟨rfl,fun success => absurd success other⟩
    | stops same phase cause =>
    rw [produced_none (by rw [phase]; decide),append_nil]
    exact ⟨same.trans keeps.same,keeps.valid,idle_of_phase (by rw [phase]; decide),_,handled,.inr phase⟩
  have same : queueRuntimeHandleEvent io message run.runtime = refuse .invalidState run.runtime :=
    if_pos (not_or.mp awaited)
  rw [if_neg awaited,same,refuse,produced,if_neg (fun both => both.1 both.2)]
  simp only [append_nil]
  exact keeps

private theorem keeps_cancel (keeps : Keeps config run) (io : Io) (fence : U32) : Keeps config (advance run (io,.cancel fence)) := by
  obtain ⟨account,kept,stands⟩ := keeps.ledger
  unfold advance perform entries queueRuntimeCancel
  dsimp only
  have refused : ∀ result, Keeps config ⟨(refuse result run.runtime).runtime,
      run.ledger ++ produced run.runtime (refuse result run.runtime).runtime⟩ := by
    intro result
    rw [refuse,produced,if_neg (fun both => both.1 both.2),append_nil]
    exact keeps
  split
  · exact refused _
  split
  · exact refused _
  rename_i wrong
  have awaited : ¬ (run.runtime.phase ≠ .submitted ∧ run.runtime.phase ≠ .computeSubmitted) := (not_or.mp wrong).1
  cases account with
  | free =>
    rcases stands with ready | faulted
    · rw [ready] at awaited
      exact absurd ⟨by decide,by decide⟩ awaited
    rw [faulted] at awaited
    exact absurd ⟨by decide,by decide⟩ awaited
  | completed job since completion =>
    rw [stands.1] at awaited
    exact absurd ⟨by decide,by decide⟩ awaited
  | outstanding job since =>
  rcases stands with tracks | faulted
  swap
  · rw [faulted] at awaited
    exact absurd ⟨by decide,by decide⟩ awaited
  unfold terminalFailure
  by_cases quiesced : io.quiesce = true
  · rw [if_neg (not_not.mpr quiesced)]
    rw [produced_one (tracks_not_pending tracks) rfl]
    exact ⟨keeps.same,keeps.valid,idle_of_phase nofun,_,.produced _ kept ⟨tracks.fence,nofun⟩,rfl,rfl,rfl⟩
  rw [if_pos quiesced]
  rw [produced_none (fun bad => by cases bad),append_nil]
  exact ⟨keeps.same,keeps.valid,idle_of_phase nofun,_,kept,.inr rfl⟩

private theorem keeps_takeCompletion (keeps : Keeps config run) (io : Io) : Keeps config (advance run (io,.takeCompletion)) := by
  obtain ⟨account,kept,stands⟩ := keeps.ledger
  unfold advance perform entries queueRuntimeTakeCompletion
  by_cases none : run.runtime.phase ≠ .completionPending ∨ ¬ run.runtime.completionAvailable
  · rw [if_pos none]
    simp only [refuse,Option.toList_none,map_nil,append_nil]
    exact keeps
  rw [if_neg none]
  have pending : run.runtime.phase = .completionPending := not_not.mp (not_or.mp none).1
  cases account with
  | free =>
    rcases stands with ready | faulted
    · rw [ready] at pending
      cases pending
    rw [faulted] at pending
    cases pending
  | outstanding job since =>
    rcases stands with tracks | faulted
    · exact absurd pending (tracks_not_pending tracks)
    rw [faulted] at pending
    cases pending
  | completed job since completion =>
  obtain ⟨_,_,rfl⟩ := stands
  refine ⟨keeps.same,keeps.valid,fun _ => rfl,.free,kept.taken,?_⟩
  show (if _ then _ else _) = Phase.ready ∨ (if _ then _ else _) = Phase.faulted
  split_ifs
  · exact .inl rfl
  exact .inr rfl

private theorem keeps_reset (keeps : Keeps config run) (io : Io) : Keeps config (advance run (io,.reset)) := by
  obtain ⟨account,kept,stands⟩ := keeps.ledger
  unfold advance perform entries queueRuntimeReset
  dsimp only
  split
  · rw [refuse,if_neg nofun,append_nil]
    exact keeps
  rename_i pending
  generalize (if run.runtime.phase = .submitted ∨ run.runtime.phase = .computeSubmitted
    then [Effect.quiesce run.runtime.pendingFence] else []) = stopped
  split
  · rw [if_neg nofun,append_nil]
    exact keeps
  -- what a reset that stops half-way leaves
  have faulted : ∀ effects : List Effect, Keeps config
      ⟨(Outcome.mk .resetFailed { run.runtime with phase := .faulted } effects).runtime,run.ledger ++
        (if (Outcome.mk .resetFailed { run.runtime with phase := .faulted } effects).result = .ok then [.reset] else [])⟩ := by
    intro effects
    rw [if_neg nofun,append_nil]
    refine ⟨keeps.same,keeps.valid,idle_of_phase nofun,account,kept,?_⟩
    cases account with
    | completed job since completion => exact absurd stands.1 pending
    | _ => exact .inr rfl
  split
  · exact faulted _
  rcases rebase io run.runtime.config.queues with ⟨_ | _,effects⟩
  · exact faulted _
  refine ⟨keeps.same,keeps.valid,fun _ => rfl,.free,?_,.inl rfl⟩
  cases account with
  | free => exact kept.resetFree
  | outstanding job since => exact kept.resetJob
  | completed job since completion => exact absurd stands.1 pending

private theorem keeps_checkTimeout (keeps : Keeps config run) (io : Io) (nowTicks : U64) :
    Keeps config (advance run (io,.checkTimeout nowTicks)) := by
  obtain ⟨account,kept,stands⟩ := keeps.ledger
  unfold advance perform entries queueRuntimeCheckTimeout
  dsimp only
  rw [append_nil]
  split
  · exact keeps
  split
  · exact keeps
  rename_i idle
  split_ifs
  · exact keeps
  · exact keeps
  refine ⟨keeps.same,keeps.valid,idle_of_phase (fun ready => idle ?_),account,kept,?_⟩
  · rw [show run.runtime.phase = Phase.ready from ready]
    exact ⟨by decide,by decide⟩
  cases account with
  | free | completed job since completion => exact stands
  | outstanding job since =>
  rcases stands with tracks | phase
  · exact .inl { tracks with }
  exact .inr phase

private theorem keeps_advance (keeps : Keeps config run) (step : Io × Call) : Keeps config (advance run step) := by
  have valid : configValid run.runtime.config = true := by
    rw [keeps.same]
    exact keeps.valid
  obtain ⟨io,call⟩ := step
  cases call with
  | nullArgument => simpa [advance,perform,entries,refuse] using keeps
  | submit submission => exact keeps_submission keeps (submit_submits run.runtime io submission valid keeps.idle)
  | submitCompute submission => exact keeps_submission keeps (submitCompute_submits run.runtime io submission valid keeps.idle)
  | submitRenderWithCompute submission =>
    exact keeps_submission keeps (submitRenderWithCompute_submits run.runtime io submission valid keeps.idle)
  | handleEvent message => exact keeps_handleEvent keeps io message
  | checkTimeout nowTicks => exact keeps_checkTimeout keeps io nowTicks
  | cancel fence => exact keeps_cancel keeps io fence
  | takeCompletion => exact keeps_takeCompletion keeps io
  | reset => exact keeps_reset keeps io

private theorem initialize_fresh {config : Config}
    (initialized : queueRuntimeInitialize io config = (.ok,some runtime)) : configValid config = true ∧ runtime = freshRuntime config := by
  unfold queueRuntimeInitialize at initialized
  split_ifs at initialized with valid
  · cases initialized
    exact ⟨valid,rfl⟩
  all_goals cases initialized

theorem keeps_runAll {config : Config}
    (initialized : queueRuntimeInitialize io config = (.ok,some runtime)) (steps : List (Io × Call)) :
    Keeps config (runAll runtime steps) := by
  obtain ⟨valid,rfl⟩ := initialize_fresh initialized
  have start : Keeps config ⟨freshRuntime config,[]⟩ := ⟨rfl,valid,fun _ => rfl,.free,.empty,.inl rfl⟩
  unfold runAll
  generalize (⟨freshRuntime config,[]⟩ : Run) = first at start
  induction steps generalizing first with
  | nil => exact start
  | cons step rest ih => exact ih _ (keeps_advance start step)

def Call.submits : Call → Prop
  | .submit _ | .submitCompute _ | .submitRenderWithCompute _ => True
  | _ => False

theorem perform_submits (valid : configValid runtime.config = true) (idle : Idle runtime) (io : Io) {call : Call}
    (isSubmission : call.submits) :
    ∃ submission queues, call.submission = some (submission,queues) ∧ Submits io submission queues runtime (perform io runtime call).1 := by
  cases call with
  | submit submission => exact ⟨_,_,rfl,submit_submits runtime io submission valid idle⟩
  | submitCompute submission => exact ⟨_,_,rfl,submitCompute_submits runtime io submission valid idle⟩
  | submitRenderWithCompute submission => exact ⟨_,_,rfl,submitRenderWithCompute_submits runtime io submission valid idle⟩
  | nullArgument | handleEvent | checkTimeout | cancel | takeCompletion | reset => exact isSubmission.elim

/-- One job is outstanding at a time: between two accepted submissions the completion of the first was taken or the runtime
    was reset. Every completion is for the job accepted before it, has its fence, and no other completion is between; it says
    success only after every queue of the job was observed. What is taken was just produced. A submission that fails before
    it publishes a write pointer changes nothing. -/
theorem one_job_one_completion (io : Io) (config : Config) (runtime : Runtime)
    (initialized : queueRuntimeInitialize io config = (.ok,some runtime)) (steps : List (Io × Call)) :
    (∀ before job between job' after,
      (runAll runtime steps).ledger = before ++ .accepted job :: between ++ .accepted job' :: after →
      (∃ completion, .taken completion ∈ between) ∨ .reset ∈ between) ∧
    (∀ before completion after, (runAll runtime steps).ledger = before ++ .produced completion :: after →
      ∃ earlier job, ∃ since : List (Io × List Byte),
        before = earlier ++ .accepted job :: since.map .handled ∧ completion.fence = job.fence ∧
        (completion.status = .success → AllObserved config job since)) ∧
    (∀ before completion between completion' after,
      (runAll runtime steps).ledger = before ++ .produced completion :: between ++ .produced completion' :: after →
      ∃ job, .accepted job ∈ between) ∧
    (∀ before completion after, (runAll runtime steps).ledger = before ++ .taken completion :: after →
      ∃ earlier job, ∃ since : List (Io × List Byte),
        before = earlier ++ .accepted job :: since.map .handled ++ [.produced completion] ∧
        completion.fence = job.fence) ∧
    (∀ io' call, call.submits ∨ call = .nullArgument → (perform io' (runAll runtime steps).runtime call).1.result ≠ .ok →
      (∀ queue pointer, .publish queue pointer ∉ (perform io' (runAll runtime steps).runtime call).1.effects) →
      (perform io' (runAll runtime steps).runtime call).1.runtime = (runAll runtime steps).runtime) := by
  have keeps := keeps_runAll initialized steps
  obtain ⟨account,kept,_⟩ := keeps.ledger
  have valid : configValid (runAll runtime steps).runtime.config = true := by
    rw [keeps.same]
    exact keeps.valid
  refine ⟨?_,?_,?_,?_,?_⟩
  · intro before job between job' after whole
    rw [whole] at kept
    exact kept.between_accepted
  · intro before completion after whole
    rw [whole] at kept
    obtain ⟨earlier,job,since,same,sound⟩ := kept.produced_for
    exact ⟨earlier,job,since,same,sound⟩
  · intro before completion between completion' after whole
    rw [whole] at kept
    exact kept.between_produced
  · intro before completion after whole
    rw [whole] at kept
    obtain ⟨earlier,job,since,same,sound⟩ := kept.taken_for
    exact ⟨earlier,job,since,same,sound.1⟩
  rintro io' call (isSubmission | rfl) failed unpublished
  swap
  · rfl
  obtain ⟨submission,queues,_,submits⟩ := perform_submits valid keeps.idle io' isSubmission
  cases submits with
  | refused _ same => exact same
  | unpublished ready _ cleared =>
    rw [cleared]
    refine Eq.trans ?_ (keeps.idle ready)
    rw [show (runAll runtime steps).runtime = { (runAll runtime steps).runtime with phase := .ready } by rw [← ready]]
    rfl
  | stopped _ _ _ _ published =>
    obtain ⟨queue,pointer,mem⟩ := published
    exact absurd mem (unpublished queue pointer)
  | accepted _ ok => exact absurd ok failed

/-- A binding of a ring of 16 entries. -/
def smallBinding (queue : Queue) (eventNumber : U32) : QueueBinding :=
  { queueType := queue.type, queueInfoGpuAddress := 0x1000, ringCpuAddress := 1, ringCapacity := 16, cpuWritePointer := 1
    gpuDonePointer := 1, stamp := 1, eventNumber := eventNumber }
def smallConfig : Config :=
  { ta := smallBinding .ta 0, d3 := smallBinding .d3 1, compute := smallBinding .compute 2, hasCompute := true, timeoutTicks := 1 }

/-- Callbacks that succeed, with the pointers and the stamp that every queue shows. -/
def showing (write done stamp : U32) : Io :=
  { read := fun _ field => match field with
      | .writePointer => some write
      | .donePointer => some done
      | .stamp => some stamp
    flushWork := fun _ _ => true, flushRing := fun _ _ => true, publish := fun _ => true, send := fun _ => true
    quiesce := true, recover := true }

def oneEntry : WorkPublication :=
  { preparedRanges := [(1,1)], preparedRangeCount := 1, source := 0, destination := 0, bytes := 0, gpuAddresses := [0x20]
    gpuAddressCount := 1, expectedStamp := 5 }
def computeSubmission : Submission :=
  { fence := 7, timestamp := 0, nowTicks := 1, ta := oneEntry, d3 := oneEntry, compute := oneEntry, computeOnly := true
    taLeadingBarrier := false }

/-- A flag event with the first word of its numbers. -/
def flagMessage (firing : U32) : List Byte := ByteMemory.wordBytes [1,firing,0,0,0,0,0,0,0,0,0,0,0,0]

/-- A compute job that was submitted, observed and taken, twice. -/
def twoJobs : List (Io × Call) :=
  [(showing 0 0 0,.submitCompute computeSubmission),(showing 1 1 5,.handleEvent (flagMessage 4)),(showing 1 1 5,.takeCompletion),
    (showing 1 1 5,.submitCompute computeSubmission)]

theorem one_job_one_completion_twoJobs :
    ∃ completion, (.taken completion : JobEntry) ∈ ((runAll (freshRuntime smallConfig) twoJobs).ledger.drop 1).take 3 := by
  have rules := one_job_one_completion (showing 0 0 0) smallConfig (freshRuntime smallConfig) (by decide +kernel) twoJobs
  have shape : (runAll (freshRuntime smallConfig) twoJobs).ledger.length = 5 := by decide +kernel
  refine (rules.1 [] (jobOf (showing 0 0 0) smallConfig computeSubmission [.compute])
    (((runAll (freshRuntime smallConfig) twoJobs).ledger.drop 1).take 3)
    (jobOf (showing 1 1 5) smallConfig computeSubmission [.compute]) [] rfl).resolve_right ?_
  intro reset
  have members : ((runAll (freshRuntime smallConfig) twoJobs).ledger.drop 1).take 3 =
      [.handled (showing 1 1 5,flagMessage 4),.produced ⟨7,.success⟩,.taken ⟨7,.success⟩] := rfl
  rw [members] at reset
  simp at reset

end WindowsOnM1.QueueRuntimeJobs
