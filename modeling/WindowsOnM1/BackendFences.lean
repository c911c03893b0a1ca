import WindowsOnM1.BackendUnmap

/-!
The life of a fence, seen from the calls of the backend: it is admitted alone, and it ends
once, by a completion of the finished or dropped job or, behind a halt, by its retirement.
-/
namespace WindowsOnM1.BackendFences
open Actions BackendFirmware BackendModel List Bool
open BackendSteps BackendTeardown BackendShape BackendUnmap

/-- A fence whose job has been admitted: the queues that were seen complete, whether a halt of
the queues was asked for and whether one was made. -/
structure OpenFence where
  fence : U32
  job : JobImage
  seen : Queue → Bool
  halting : Bool
  halted : Bool

def OpenFence.opened (job : JobImage) (fence : U32) : OpenFence := ⟨fence,job,fun _ => false,false,false⟩
def OpenFence.see (current : OpenFence) (observation : Observation) : OpenFence :=
  { current with seen := fun queue =>
      current.seen queue || (expected current.job observation && decide (observation.queue = queue)) }
def OpenFence.halt (current : OpenFence) (fence : U32) (done : Bool) : OpenFence :=
  if fence = current.fence then { current with halting := true, halted := current.halted || done } else current

/-- All queues of the job were seen complete. -/
def OpenFence.finished (current : OpenFence) : Bool :=
  if current.job.kind = jobCompute then current.seen .compute else current.seen .ta && current.seen .d3

/-- A completion is made for the open fence, of a job that was not to be halted and that has finished or was dropped. -/
def OpenFence.mayComplete (current : OpenFence) (fence : U32) (status : CompletionStatus) : Bool :=
  fence = current.fence ∧ ¬ current.halting ∧ (status = .success ∧ current.finished ∨ status = .dropped)

/-- A retirement is made for the open fence behind a halt. -/
def OpenFence.mayRetire (current : OpenFence) (fence : U32) : Bool := fence = current.fence ∧ current.halted

/-- The open fence behind a call; a call that is not allowed has no successor. -/
def follow : Option OpenFence → Call → Option (Option OpenFence)
  | none,.run3d job fence true => some (some (.opened job fence))
  | none,.runCompute job fence true => some (some (.opened job fence))
  | some _,.run3d _ _ true => none
  | some _,.runCompute _ _ true => none
  | some current,.observed observation => some (some (current.see observation))
  | some current,.stop fence done => some (some (current.halt fence done))
  | some current,.reset fence done => some (some (current.halt fence done))
  | none,.complete _ _ _ _ _ => none
  | none,.retire _ _ _ _ => none
  | some current,.complete fence _ _ status done =>
    if current.mayComplete fence status then some (if done then none else some current) else none
  | some current,.retire fence _ _ done => if current.mayRetire fence then some (if done then none else some current) else none
  | current,_ => some current

/-- The open fence behind the calls of a run, if all of them are allowed. -/
def followAll (calls : List Call) : Option (Option OpenFence) := calls.foldlM follow none

variable {calls : List Call} {current : Option OpenFence}

theorem followAll_append (followed : followAll calls = some current)
    (more : List Call) : followAll (calls ++ more) = more.foldlM follow current := by
  rw [followAll,foldlM_append,← followAll,followed]
  rfl

/-- The calls that no fence depends on. -/
def Neutral : Call → Prop
  | .unmap _ _ _ _ => True
  | .publish _ => True
  | .unpublish _ => True
  | .create _ => True
  | .destroy _ => True
  | .runTa _ _ => True
  | .run3d _ _ admitted => admitted = false
  | .runCompute _ _ admitted => admitted = false
  | _ => False

private theorem follow_neutral (current : Option OpenFence) {call : Call} (neutral : Neutral call) : follow current call = some current := by
  cases call with
  | run3d job fence admitted | runCompute job fence admitted =>
    obtain rfl : admitted = false := neutral
    cases current <;> rfl
  | stop | reset | complete | retire | observed => exact absurd neutral id
  | _ => cases current <;> rfl

theorem followAll_neutral (followed : followAll calls = some current)
    {more : List Call} (neutral : ∀ call ∈ more, Neutral call) : followAll (calls ++ more) = some current := by
  rw [followAll_append followed]
  induction more with
  | nil => rfl
  | cons call rest ih =>
  rw [foldlM_cons,follow_neutral current (neutral call mem_cons_self)]
  exact ih (fun other mem => neutral other (mem_cons_of_mem _ mem))

theorem followAll_one (followed : followAll calls = some current) (call : Call) :
    followAll (calls ++ [call]) = follow current call := by
  rw [followAll_append followed,foldlM_cons]
  cases follow current call <;> rfl

/-- The runtime and its open fence agree. -/
structure Agrees (runtime : Runtime) (current : OpenFence) : Prop where
  fence : current.fence = runtime.pendingSubmission.fence
  job : current.job = runtime.pendingJob
  seen : runtime.terminalPending = false → (runtime.taComplete = true → current.seen .ta = true) ∧
    (runtime.d3Complete = true → current.seen .d3 = true) ∧ (runtime.computeComplete = true → current.seen .compute = true)
  halted : runtime.queuesQuiesced = true → current.halted = true
  finished : runtime.terminalPending = true → runtime.terminalStatus = .success → current.finished = true
  halting : current.halting = true → if runtime.terminalPending then completionEndsFence runtime.terminalStatus = false
    else runtime.phase ≠ .submitted

/-- The open fence behind the calls is the one that the runtime waits for. -/
def Follows (runtime : Runtime) (calls : List Call) : Prop :=
  (runtime.pendingSubmission.fence = 0 ∧ followAll calls = some none) ∨
  (runtime.pendingSubmission.fence ≠ 0 ∧ ∃ current, followAll calls = some (some current) ∧ Agrees runtime current)

namespace Follows
variable {runtime runtime' : Runtime} {calls : List Call}

theorem imp (follows : Follows runtime calls) (fence : runtime'.pendingSubmission.fence = runtime.pendingSubmission.fence)
    (agrees : ∀ current, Agrees runtime current → Agrees runtime' current) : Follows runtime' calls := by
  rw [Follows,fence]
  exact follows.imp_right (fun ⟨present,current,followed,here⟩ => ⟨present,current,followed,agrees current here⟩)
theorem free (follows : Follows runtime calls) (free : runtime.pendingSubmission.fence = 0) : followAll calls = some none := by
  rcases follows with ⟨-,followed⟩ | ⟨present,-⟩
  · exact followed
  exact absurd free present
theorem of_free (free : runtime.pendingSubmission.fence = 0) (followed : followAll calls = some none) : Follows runtime calls :=
  .inl ⟨free,followed⟩

theorem observed (follows : Follows runtime calls) (observation : Observation) :
    Follows runtime (calls ++ [.observed observation]) := by
  rcases follows with ⟨free,followed⟩ | ⟨present,current,followed,agrees⟩
  · exact .inl ⟨free,followAll_one followed _⟩
  refine .inr ⟨present,current.see observation,followAll_one followed _,agrees.fence,agrees.job,fun none => ?_,agrees.halted,
    fun pending success => ?_,agrees.halting⟩
  · obtain ⟨ta,d3,compute⟩ := agrees.seen none
    exact ⟨fun complete => by simp [OpenFence.see,ta complete],fun complete => by simp [OpenFence.see,d3 complete],
      fun complete => by simp [OpenFence.see,compute complete]⟩
  have finished := agrees.finished pending success
  rw [OpenFence.finished] at finished ⊢
  split at finished
  · rename_i kind
    rw [if_pos (show (current.see observation).job.kind = jobCompute from kind)]
    simp [OpenFence.see,finished]
  rename_i kind
  rw [if_neg (show (current.see observation).job.kind ≠ jobCompute from kind)]
  rw [and_eq_true] at finished
  simp [OpenFence.see,finished.1,finished.2]

theorem halted (follows : Follows runtime calls) {call : Bool → Call} (isHalt : (∀ done, call done = .stop runtime.pendingSubmission.fence done) ∨
      ∀ done, call done = .reset runtime.pendingSubmission.fence done) (done : Bool)
    (fence : runtime'.pendingSubmission.fence = runtime.pendingSubmission.fence) (job : runtime'.pendingJob = runtime.pendingJob)
    (flags : runtime'.taComplete = runtime.taComplete ∧ runtime'.d3Complete = runtime.d3Complete ∧
      runtime'.computeComplete = runtime.computeComplete)
    (quiesced : runtime'.queuesQuiesced = true → runtime.queuesQuiesced = true ∨ done = true)
    (terminal : (runtime'.terminalPending = false ∧ runtime.terminalPending = false ∧ runtime'.phase ≠ .submitted) ∨
      (runtime'.terminalPending = true ∧ completionEndsFence runtime'.terminalStatus = false)) :
    Follows runtime' (calls ++ [call done]) := by
  have follow_halt : ∀ current, current.fence = runtime.pendingSubmission.fence →
      follow (some current) (call done) = some (some { current with halting := true, halted := current.halted || done }) := by
    intro current same
    rcases isHalt with stop | reset
    · rw [stop,follow,OpenFence.halt,if_pos same.symm]
    rw [reset,follow,OpenFence.halt,if_pos same.symm]
  have follow_none : follow none (call done) = some none := by
    rcases isHalt with stop | reset
    · rw [stop]
      rfl
    rw [reset]
    rfl
  rw [Follows,fence]
  rcases follows with ⟨free,followed⟩ | ⟨present,current,followed,agrees⟩
  · exact .inl ⟨free,(followAll_one followed _).trans follow_none⟩
  refine .inr ⟨present,_,(followAll_one followed _).trans (follow_halt current agrees.fence),agrees.fence.trans fence.symm,
    agrees.job.trans job.symm,fun none => ?_,fun quiet => ?_,fun pending success => ?_,fun _ => ?_⟩
  · rcases terminal with ⟨-,none',-⟩ | ⟨pending,-⟩
    · rw [flags.1,flags.2.1,flags.2.2]
      exact agrees.seen none'
    exact absurd (pending.symm.trans none) true_eq_false_eq_False
  · rcases quiesced quiet with already | now
    · simp [agrees.halted already]
    simp [now]
  · rcases terminal with ⟨none,-⟩ | ⟨-,lasts⟩
    · exact absurd (pending.symm.trans none) true_eq_false_eq_False
    rw [success] at lasts
    exact absurd lasts (by decide)
  rcases terminal with ⟨none,-,idle⟩ | ⟨pending,lasts⟩
  · rw [none]
    exact idle
  rw [if_pos pending]
  exact lasts

end Follows

/-- The terminal result, if there is one, is a natural completion or a cancellation. -/
def Endable (runtime : Runtime) : Prop := runtime.terminalPending = true →
  completionEndsFence runtime.terminalStatus = true ∨ runtime.terminalStatus = .cancelled
theorem completionEndsFence_iff (status : CompletionStatus) :
    completionEndsFence status = true ↔ status = .success ∨ status = .dropped := by
  cases status <;> decide

variable {runtime : Runtime} {current : OpenFence}

private theorem follow_endCall (terminal : TerminalShape runtime) (agrees : Agrees runtime current)
    (pending : runtime.terminalPending = true) (endable : Endable runtime) (done : Bool) :
    follow (some current) (endCall runtime done) = some (if done then none else some current) := by
  unfold endCall
  by_cases cancelled : runtime.terminalStatus = .cancelled
  · have may : current.mayRetire runtime.pendingSubmission.fence = true := by
      rw [OpenFence.mayRetire,decide_eq_true_eq]
      exact ⟨agrees.fence.symm,agrees.halted (terminal.cancelled cancelled).2.2⟩
    rw [if_pos cancelled,follow,if_pos may]
  have natural : completionEndsFence runtime.terminalStatus = true := (endable pending).resolve_right cancelled
  have free : current.halting = false := by
    by_contra halting
    have lasts := agrees.halting ((not_eq_false _).mp halting)
    rw [if_pos pending] at lasts
    exact absurd (natural.symm.trans lasts) true_eq_false_eq_False
  have may : current.mayComplete runtime.pendingSubmission.fence runtime.terminalStatus = true := by
    rw [OpenFence.mayComplete,decide_eq_true_eq]
    refine ⟨agrees.fence.symm,eq_false_iff.mp free,?_⟩
    rcases (completionEndsFence_iff _).mp natural with success | dropped
    · exact .inl ⟨success,agrees.finished pending success⟩
    exact .inr dropped
  rw [if_neg cancelled,follow,if_pos may]

variable {result : RuntimeResult}

theorem follows_acknowledged {world left : World} (acked : Acknowledged world result left)
    (follows : Follows world.runtime world.calls)
    (terminal : world.runtime.terminalPending = true → TerminalShape world.runtime) (endable : Endable world.runtime) :
    Follows left.runtime left.calls := by
  have called : ∀ done, Pending world.runtime → ∃ current, Agrees world.runtime current ∧
      followAll (world.calls ++ [endCall world.runtime done]) = some (if done then none else some current) := by
    intro done pending
    rcases follows with ⟨free,-⟩ | ⟨-,current,followed,agrees⟩
    · exact absurd free pending.2
    exact ⟨current,agrees,(followAll_one followed _).trans (follow_endCall (terminal pending.1) agrees pending.1 endable done)⟩
  rcases acked.outcome with ⟨-,flushed,runtime,calls⟩ | ⟨-,pending,runtime,calls⟩
  · have flushes : Follows left.runtime world.calls := by
      rw [runtime]
      exact follows.imp rfl (fun current agrees => ⟨agrees.1,agrees.2,agrees.3,agrees.4,agrees.5,agrees.6⟩)
    rcases calls with calls | ⟨pending,calls⟩
    · rw [calls]
      exact flushes
    obtain ⟨current,agrees,followed⟩ := called false pending
    rw [calls,runtime]
    exact .inr ⟨pending.2,current,followed,agrees.1,agrees.2,agrees.3,agrees.4,agrees.5,agrees.6⟩
  obtain ⟨current,-,followed⟩ := called true pending
  rw [calls,runtime]
  exact .inl ⟨rfl,followed⟩

variable {world left : World}

theorem follow_admitCall (job : JobImage) (fence : U32) : follow none (admitCall job fence true) = some (some (.opened job fence)) := by
  unfold admitCall
  split <;> rfl
private theorem neutral_admitCall (job : JobImage) (fence : U32) : Neutral (admitCall job fence false) := by
  unfold admitCall
  split <;> rfl

private theorem follows_submit (shape : Shape world) (follows : Follows world.runtime world.calls) (ends : SubmitEnds world left) :
    Follows left.runtime left.calls := by
  cases ends with
  | kept runtime calls =>
    rw [runtime,calls]
    exact follows
  | prepared ready job runtime calls =>
    obtain ⟨free,-⟩ := shape.ready ready
    rw [runtime,calls]
    exact .of_free free (follows.free free)
  | refused ready runtime job fence calls =>
    obtain ⟨free,-⟩ := shape.ready ready
    have followed := follows.free free
    rw [runtime]
    refine .of_free rfl ?_
    rcases calls with calls | calls
    · rw [calls]
      exact followed
    rw [calls]
    exact followAll_neutral followed (by simpa using neutral_admitCall job fence)
  | admitted ready submission fence job runtime calls =>
    obtain ⟨free,-,running⟩ := shape.ready ready
    have admitted : followAll (world.calls ++ [admitCall job submission.fence true]) = some (some (.opened job submission.fence)) :=
      (followAll_one (follows.free free) _).trans (follow_admitCall job submission.fence)
    rw [runtime,calls,append_cons]
    refine .inr ⟨fence,_,followAll_neutral admitted (fun call mem => ?_),rfl,rfl,fun _ => ⟨nofun,nofun,nofun⟩,
      fun quiesced => absurd (quiesced.symm.trans running) true_eq_false_eq_False,
      fun pending => absurd (pending.symm.trans (shape.noTerminal free)) true_eq_false_eq_False,nofun⟩
    split at mem
    · exact absurd mem not_mem_nil
    rw [mem_singleton.mp mem]
    exact trivial
  | halted ready submission fence job stopped runtime calls =>
  obtain ⟨free,-,running⟩ := shape.ready ready
  have pending := shape.noTerminal free
  have admitted : followAll (world.calls ++ [admitCall job submission.fence true]) = some (some (.opened job submission.fence)) :=
    (followAll_one (follows.free free) _).trans (follow_admitCall job submission.fence)
  have agrees : Follows (withJob world.runtime submission job)
      (world.calls ++ [admitCall job submission.fence true] ++ [.runTa submission.fence false]) := by
    refine .inr ⟨fence,_,followAll_neutral admitted (by simp [Neutral]),rfl,rfl,fun _ => ⟨nofun,nofun,nofun⟩,
      fun quiesced => absurd (quiesced.symm.trans running) true_eq_false_eq_False,
      fun present => absurd (present.symm.trans pending) true_eq_false_eq_False,nofun⟩
  have halts : Follows { withJob world.runtime submission job with
      queuesQuiesced := world.runtime.queuesQuiesced || stopped, phase := .failed } _ :=
    agrees.halted (.inl (fun _ => rfl : ∀ done, Call.stop submission.fence done = .stop submission.fence done)) stopped rfl rfl
      ⟨rfl,rfl,rfl⟩ (fun quiet => (or_eq_true _ _).mp quiet) (.inl ⟨pending,pending,nofun⟩)
  rw [runtime,calls]
  rw [append_assoc,append_assoc] at halts
  exact halts

theorem haltCall_isHalt (status : ObservationStatus) (fence : U32) :
    (∀ done, haltCall status fence done = .stop fence done) ∨ ∀ done, haltCall status fence done = .reset fence done := by
  by_cases reset : status = .reset
  · exact .inr (fun _ => if_pos reset)
  exact .inl (fun _ => if_neg reset)

variable {observation : Observation}

private theorem finished_of (agrees : Agrees runtime current)
    (free : runtime.terminalPending = false) (isExpected : expected runtime.pendingJob observation = true)
    (all : allComplete (withQueue runtime observation.queue) = true) : (current.see observation).finished = true := by
  obtain ⟨ta,d3,compute⟩ := agrees.seen free
  have here : expected current.job observation = true := agrees.job.symm ▸ isExpected
  rw [allComplete] at all
  rw [OpenFence.finished]
  have same : (withQueue runtime observation.queue).pendingJob.kind = current.job.kind := by
    rw [agrees.job]
    cases observation.queue <;> rfl
  rw [same] at all
  by_cases kind : current.job.kind = jobCompute
  · rw [if_pos kind] at all
    rw [if_pos (show (current.see observation).job.kind = jobCompute from kind)]
    cases queue : observation.queue with
    | compute => simp [OpenFence.see,here,queue]
    | _ => rw [queue] at all; simp [OpenFence.see,compute all]
  rw [if_neg kind,and_eq_true] at all
  rw [if_neg (show (current.see observation).job.kind ≠ jobCompute from kind)]
  cases queue : observation.queue with
  | compute => rw [queue] at all; simp [OpenFence.see,ta all.1,d3 all.2]
  | ta => rw [queue] at all; simp [OpenFence.see,here,queue,d3 all.2]
  | d3 => rw [queue] at all; simp [OpenFence.see,here,queue,ta all.1]

private theorem follows_observe (shape : Shape world) (follows : Follows world.runtime world.calls)
    (ends : ObserveEnds world observation left) : Follows left.runtime left.calls := by
  have noted : Follows world.runtime (noted world observation).calls := follows.observed observation
  -- A terminal result is set in a run that has none, on the open fence that was not halted.
  have present : world.runtime.phase = .submitted → world.runtime.terminalPending = false →
      ∃ current, followAll world.calls = some (some current) ∧ Agrees world.runtime current ∧ current.halting = false := by
    intro runs free
    rcases follows with ⟨none,-⟩ | ⟨-,current,followed,agrees⟩
    · exact absurd none (shape.submitted runs).1
    refine ⟨current,followed,agrees,eq_false_iff.mpr (fun halting => ?_)⟩
    have idle := agrees.halting halting
    rw [free] at idle
    exact idle runs
  cases ends with
  | kept runtime calls =>
    rw [runtime,calls]
    exact noted
  | retried pending ends result acked =>
    exact follows_acknowledged acked noted shape.terminal (fun _ => .inl ends)
  | dropped runs free result acked =>
    obtain ⟨current,followed,agrees,calm⟩ := present runs free
    obtain ⟨fence,running⟩ := shape.submitted runs
    refine follows_acknowledged acked (.inr ⟨fence,current.see observation,followAll_one followed _,agrees.fence,agrees.job,
      nofun,agrees.halted,nofun,fun halting => ?_⟩) (fun _ => ?_) (fun _ => .inl rfl)
    · exact absurd (halting.symm.trans calm) true_eq_false_eq_False
    exact terminalShape_of fence (fun _ => ⟨rfl,rfl,running free⟩) nofun nofun
  | unhalted runs free runtime calls =>
    rw [runtime,calls]
    exact noted.halted (haltCall_isHalt _ _) false rfl rfl ⟨rfl,rfl,rfl⟩ .inl (.inl ⟨free,free,nofun⟩)
  | halted runs free status failure runtime calls =>
    rw [runtime,calls]
    exact noted.halted (haltCall_isHalt _ _) true rfl rfl ⟨rfl,rfl,rfl⟩ (fun _ => .inr rfl)
      (.inr ⟨rfl,(failureStatus_lasts failure).1⟩)
  | partly runs free isExpected runtime calls =>
    obtain ⟨current,followed,agrees,calm⟩ := present runs free
    obtain ⟨ta,d3,compute⟩ := agrees.seen free
    have here : expected current.job observation = true := agrees.job.symm ▸ isExpected
    have seen : ∀ queue, current.seen queue = true → (current.see observation).seen queue = true := by
      intro queue already
      simp [OpenFence.see,already]
    have now : (current.see observation).seen observation.queue = true := by
      simp [OpenFence.see,here]
    have fence := (shape.submitted runs).1
    have halting' : (current.see observation).halting = true → if world.runtime.terminalPending then
        completionEndsFence world.runtime.terminalStatus = false else world.runtime.phase ≠ .submitted := agrees.halting
    have pending : ∀ {property : Prop}, world.runtime.terminalPending = true → property := fun pending =>
      absurd (pending.symm.trans free) true_eq_false_eq_False
    rw [runtime,calls]
    refine .inr ?_
    cases queue : observation.queue with
    | ta =>
      rw [queue] at now
      exact ⟨fence,current.see observation,followAll_one followed _,agrees.fence,agrees.job,
        fun _ => ⟨fun _ => now,fun complete => seen _ (d3 complete),fun complete => seen _ (compute complete)⟩,agrees.halted,
        fun is _ => pending is,halting'⟩
    | d3 =>
      rw [queue] at now
      exact ⟨fence,current.see observation,followAll_one followed _,agrees.fence,agrees.job,
        fun _ => ⟨fun complete => seen _ (ta complete),fun _ => now,fun complete => seen _ (compute complete)⟩,agrees.halted,
        fun is _ => pending is,halting'⟩
    | compute =>
    rw [queue] at now
    exact ⟨fence,current.see observation,followAll_one followed _,agrees.fence,agrees.job,
      fun _ => ⟨fun complete => seen _ (ta complete),fun complete => seen _ (d3 complete),fun _ => now⟩,agrees.halted,
      fun is _ => pending is,halting'⟩
  | completed runs free isExpected all result acked =>
  obtain ⟨current,followed,agrees,calm⟩ := present runs free
  obtain ⟨fence,running⟩ := shape.submitted runs
  obtain ⟨submission,quiesced⟩ := withQueue_kept world.runtime observation.queue
  have job : (withQueue world.runtime observation.queue).pendingJob = world.runtime.pendingJob := by
    cases observation.queue <;> rfl
  have fence' : (withQueue world.runtime observation.queue).pendingSubmission.fence ≠ 0 := by
    rw [submission]
    exact fence
  refine follows_acknowledged acked (.inr ⟨fence',current.see observation,followAll_one followed _,?_,?_,nofun,
    fun quiet => ?_,fun _ _ => finished_of agrees free isExpected all,fun halting => ?_⟩) (fun _ => ?_) (fun _ => .inl rfl)
  · exact agrees.fence.trans (congrArg Submission.fence submission.symm)
  · exact agrees.job.trans job.symm
  · exact agrees.halted (quiesced.symm.trans quiet)
  · exact absurd (halting.symm.trans calm) true_eq_false_eq_False
  exact terminalShape_of fence' (fun _ => ⟨rfl,rfl,quiesced.trans (running free)⟩) nofun nofun

theorem follows_completes (shape : Shape world) (follows : Follows world.runtime world.calls) {here : World}
    (completes : Completes world here) : Follows here.runtime here.calls := by
  cases completes with
  | none _ same => exact same ▸ follows
  | made _ ends acked => exact follows_acknowledged acked follows shape.terminal (fun _ => .inl ends)

theorem Follows.toPhase {calls : List Call} (follows : Follows runtime calls) {phase : Phase}
    (idle : phase ≠ .submitted) : Follows { runtime with phase := phase } calls := by
  refine follows.imp rfl (fun current agrees => ⟨agrees.1,agrees.2,agrees.3,agrees.4,agrees.5,fun halting => ?_⟩)
  have before := agrees.halting halting
  split at before
  · rename_i pending
    rw [if_pos pending]
    exact before
  rename_i none
  rw [if_neg none]
  exact idle

theorem lasting_of
    (absent : ¬ (runtime.terminalPending = true ∧ completionEndsFence runtime.terminalStatus = true)) (phase : Phase)
    (idle : phase ≠ .submitted) : (runtime.terminalPending = false ∧ runtime.terminalPending = false ∧ phase ≠ .submitted) ∨
      (runtime.terminalPending = true ∧ completionEndsFence runtime.terminalStatus = false) := by
  by_cases pending : runtime.terminalPending = true
  · exact .inr ⟨pending,eq_false_iff.mpr (fun natural => absent ⟨pending,natural⟩)⟩
  exact .inl ⟨eq_false_iff.mpr pending,eq_false_iff.mpr pending,idle⟩

theorem follows_halts {here there : World} (follows : Follows here.runtime here.calls)
    (absent : ¬ (here.runtime.terminalPending = true ∧ completionEndsFence here.runtime.terminalStatus = true))
    (halts : Halts here there) : Follows there.runtime there.calls := by
  cases halts with
  | none _ same =>
    rw [same]
    exact follows.toPhase nofun
  | made runtime calls =>
  rw [runtime,calls]
  exact follows.halted (.inl (fun _ => rfl)) true rfl rfl ⟨rfl,rfl,rfl⟩ (fun _ => .inr rfl) (lasting_of absent .stopping nofun)

theorem follows_cancel {there : World} (follows : Follows there.runtime there.calls) :
    Follows (withCancel there).runtime (withCancel there).calls :=
  follows.imp rfl (fun _ agrees => ⟨agrees.1,agrees.2,nofun,agrees.4,nofun,fun _ => rfl⟩)
private theorem neutral_tearsDown {call : Call} (tearsDown : TearsDown call) : Neutral call := by
  cases call with
  | unmap | unpublish | destroy => exact trivial
  | _ => exact absurd tearsDown id

private theorem follows_stop (shape : Shape world) (follows : Follows world.runtime world.calls)
    (ends : StopEnds world result left) : Follows left.runtime left.calls := by
  cases ends with
  | kept _ same => exact same ▸ follows
  | uncompleted _ _ ends _ _ here acked same =>
    rw [same]
    exact (follows_acknowledged acked follows shape.terminal (fun _ => .inl ends)).toPhase nofun
  | unhalted _ here completes kept runtime calls =>
    rw [runtime,calls]
    exact (follows_completes shape follows completes).halted (.inl (fun _ => rfl)) false rfl rfl ⟨rfl,rfl,rfl⟩ .inl
      (lasting_of (shape.completes completes).2 .failed nofun)
  | unretired _ here there last completes halts present _ _ acked same =>
    obtain ⟨completed,absent⟩ := shape.completes completes
    obtain ⟨halted,quiesced⟩ := completed.halts absent halts
    have cancels := follows_cancel (follows_halts (follows_completes shape follows completes) absent halts)
    rw [same]
    exact (follows_acknowledged acked cancels (halted.cancels quiesced present).terminal (fun _ => .inr rfl)).toPhase nofun
  | tornDown here there last completes halts retires ends =>
  obtain ⟨completed,absent⟩ := shape.completes completes
  obtain ⟨halted,quiesced⟩ := completed.halts absent halts
  have follows' := follows_halts (follows_completes shape follows completes) absent halts
  obtain ⟨-,free⟩ := halted.retires quiesced retires
  have retired : Follows last.runtime last.calls := by
    cases retires with
    | none _ same => exact same ▸ follows'
    | made present acked =>
    exact follows_acknowledged acked (follows_cancel follows') (halted.cancels quiesced present).terminal (fun _ => .inr rfl)
  obtain ⟨more,calls,all⟩ := ends.calls
  rw [calls]
  refine .of_free ?_ (followAll_neutral (retired.free free) (fun call mem => neutral_tearsDown (all call mem)))
  rw [ends.pending.submission]
  exact free

private theorem follows_start (shape : Shape world) (follows : Follows world.runtime world.calls) (ends : RuntimeStartEnds world left) :
    Follows left.runtime left.calls := by
  have started : ∀ {here : World}, world.runtime.phase = .stopped → Begun world here →
      here.runtime.pendingSubmission.fence = 0 ∧ followAll here.calls = some none := by
    intro here was begun
    obtain ⟨free,-⟩ := shape.begun was begun
    obtain ⟨more,calls,all⟩ := begun.calls
    obtain ⟨-,-,-,-,before⟩ := shape.stopped was
    refine ⟨free,?_⟩
    rw [calls]
    refine followAll_neutral (follows.free before) (fun call mem => ?_)
    have starts := all call mem
    cases call with
    | publish | create => exact trivial
    | _ => exact absurd starts id
  cases ends with
  | kept same => exact same ▸ follows
  | ready was begun =>
    obtain ⟨free,followed⟩ := started was begun
    exact .of_free free followed
  | rolledBack was middle begun queues failed ends =>
  obtain ⟨free,followed⟩ := started was begun
  obtain ⟨published,mapped,runtime⟩ := ends.runtime
  rw [ends.calls]
  refine .of_free ?_ (followAll_neutral (followAll_neutral followed (fun call mem => ?_)) (fun call mem => ?_))
  · rw [runtime]
    exact free
  · split at mem
    · rw [mem_singleton.mp mem]
      exact trivial
    exact absurd mem not_mem_nil
  split at mem
  · rw [mem_singleton.mp mem]
    exact trivial
  exact absurd mem not_mem_nil

/-- No acknowledgement is requested while a fault, a timeout or a reset is to be retired. -/
def AcknowledgesEndable (request : Request) (world : World) : Prop := request = .acknowledgeCompletion → Endable world.runtime

private theorem follows_kept (shape : Shape world) (follows : Follows world.runtime world.calls) {request : Request}
    (endable : AcknowledgesEndable request world) (ends : RequestEnds world request result left) : Follows left.runtime left.calls := by
  cases ends with
  | start _ _ _ ends => exact follows_start shape follows ends
  | submit _ _ _ _ ends => exact follows_submit shape follows ends
  | observe _ _ _ _ ends => exact follows_observe shape follows ends
  | acknowledge _ _ ends => exact follows_acknowledged ends follows shape.terminal (endable rfl)
  | stop _ _ ends => exact follows_stop shape follows ends

/-- Every fence that was admitted ends once and in the right way, in every run without an
acknowledgement of a failure. -/
theorem fences_followed (io : BackendIo) (contextIdentity : U64) (requests : List Request)
    (endable : EveryStep (act io) AcknowledgesEndable requests (runtimeInitialize contextIdentity)) :
    ∃ current, followAll (runAll (act io) requests (runtimeInitialize contextIdentity)).calls = some current := by
  have start : Shape (runtimeInitialize contextIdentity) ∧
      Follows (runtimeInitialize contextIdentity).runtime (runtimeInitialize contextIdentity).calls :=
    ⟨shape_initial contextIdentity,.inl ⟨rfl,rfl⟩⟩
  have step : ∀ request world, AcknowledgesEndable request world → Shape world ∧ Follows world.runtime world.calls →
      Gives (act io request) world (fun _ left => Shape left ∧ Follows left.runtime left.calls) :=
    fun request world endable here =>
      ⟨shape_kept here.1 (act_ends io here.1 request),follows_kept here.1 here.2 endable (act_ends io here.1 request)⟩
  obtain ⟨-,⟨-,followed⟩ | ⟨-,current,followed,-⟩⟩ := runAll_keeps step endable start
  · exact ⟨none,followed⟩
  · exact ⟨some current,followed⟩

def renderSubmission : Submission where
  kind := .gdi
  fence := 7
  nodeOrdinal := 0
  engineOrdinal := 0
  dmaBytes := 4
  contextIdentity := 1
  privateData := 0x1000
  privateDataBytes := 8
  privateDataStart := 0
  privateDataEnd := 8
  dmaSubmissionStart := 0
  dmaSubmissionEnd := 4

/-- The faulted fence is completed with the fault as its status. -/
theorem fences_faulted : ¬ ∀ (io : BackendIo) (contextIdentity : U64) (requests : List Request),
    ∃ current, followAll (runAll (act io) requests (runtimeInitialize contextIdentity)).calls = some current := by
  intro all
  obtain ⟨current,followed⟩ :=
    all obligingIo 1 [.start,.submit renderSubmission,.observe ⟨.ta,0,0,0,.fault⟩,.acknowledgeCompletion]
  have stuck : (followAll (runAll (act obligingIo) [.start,.submit renderSubmission,.observe ⟨.ta,0,0,0,.fault⟩,
      .acknowledgeCompletion] (runtimeInitialize 1)).calls).isNone = true := by decide +kernel
  rw [followed] at stuck
  exact absurd stuck nofun

/-- One fence is completed, the next one faults and is retired by the stop. -/
theorem fences_followed_stop : (∃ current, followAll (runAll (act obligingIo) [.start,.submit renderSubmission,
      .observe ⟨.ta,0,1,0,.complete⟩,.observe ⟨.d3,0,1,0,.complete⟩,.acknowledgeCompletion,.submit renderSubmission,
      .observe ⟨.ta,0,0,0,.fault⟩,.stop] (runtimeInitialize 1)).calls = some current) ∧
    Call.retire 7 0 0 true ∈ (runAll (act obligingIo) [.start,.submit renderSubmission,
      .observe ⟨.ta,0,1,0,.complete⟩,.observe ⟨.d3,0,1,0,.complete⟩,.acknowledgeCompletion,.submit renderSubmission,
      .observe ⟨.ta,0,0,0,.fault⟩,.stop] (runtimeInitialize 1)).calls := by
  refine ⟨fences_followed obligingIo 1 _ ⟨nofun,nofun,nofun,nofun,fun _ pending => ?_,nofun,nofun,nofun,trivial⟩,?_⟩
  · exact absurd pending (by decide +kernel)
  · decide +kernel

end WindowsOnM1.BackendFences
