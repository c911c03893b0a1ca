import WindowsOnM1.QueueRuntimeJobs

/-!
When a finished job is recognised. The runtime remembers that it saw the event of a queue, but
looks at the stamp only while an event fires that queue again.
-/
namespace WindowsOnM1.QueueRuntimeRecognised
open QueueRuntimeModel QueueRuntimeSteps QueueRuntimeJobs List

/-- Events handled one after another. -/
def handleAll (runtime : Runtime) (events : List (Io × List Byte)) : Runtime :=
  events.foldl (fun runtime event => (queueRuntimeHandleEvent event.1 event.2 runtime).runtime) runtime

/-- The completion that can be taken. -/
def available (runtime : Runtime) : Option Completion := (queueRuntimeTakeCompletion runtime).1

/-- A job that is outstanding, or whose completion says success. -/
def Unfailed (job : Job) (runtime : Runtime) : Prop :=
  runtime.phase = .submitted ∨ runtime.phase = .computeSubmitted ∨ available runtime = some ⟨job.fence,.success⟩

/-- What can have become of a job after some events. -/
inductive Follows (config : Config) (job : Job) (events : List (Io × List Byte)) (runtime : Runtime) : Prop
  | waits (tracks : Tracks runtime job events)
  | succeeded (phase : runtime.phase = .completionPending) (is : runtime.completionAvailable = true)
      (completion : runtime.completion = ⟨job.fence,.success⟩) (observed : AllObserved config job events)
  | failed (status : runtime.completion.status ≠ .success) (phase : runtime.phase = .completionPending)
  | stopped (phase : runtime.phase = .faulted)

variable {config : Config} {job : Job} {events : List (Io × List Byte)} {runtime : Runtime}

theorem handleEvent_elsewhere (phase : runtime.phase ≠ .submitted ∧ runtime.phase ≠ .computeSubmitted) (io : Io)
    (message : List Byte) : (queueRuntimeHandleEvent io message runtime).runtime = runtime := by
  unfold queueRuntimeHandleEvent
  rw [if_pos phase]
  rfl

theorem Follows.handle (follows : Follows config job events runtime) (same : runtime.config = config) (io : Io) (message : List Byte) :
    (queueRuntimeHandleEvent io message runtime).runtime.config = config ∧
      Follows config job (events ++ [(io,message)]) (queueRuntimeHandleEvent io message runtime).runtime := by
  cases follows with
  | waits tracks =>
    cases handleEvent_handles io message tracks with
    | waits same' tracks' => exact ⟨same'.trans same,.waits tracks'⟩
    | succeeds same' phase is completion observed =>
      rw [same] at observed
      exact ⟨same'.trans same,.succeeded phase is completion observed⟩
    | fails same' status other phase is completion cause => exact ⟨same'.trans same,.failed (by rw [completion]; exact other) phase⟩
    | stops same' phase cause => exact ⟨same'.trans same,.stopped phase⟩
  | succeeded phase is completion observed =>
    rw [handleEvent_elsewhere (by rw [phase]; exact ⟨by decide,by decide⟩)]
    refine ⟨same,.succeeded phase is completion (fun queue mem => ?_)⟩
    obtain ⟨event,inside,holds⟩ := observed queue mem
    exact ⟨event,mem_append_left _ inside,holds⟩
  | failed status phase =>
    rw [handleEvent_elsewhere (by rw [phase]; exact ⟨by decide,by decide⟩)]
    exact ⟨same,.failed status phase⟩
  | stopped phase =>
  rw [handleEvent_elsewhere (by rw [phase]; exact ⟨by decide,by decide⟩)]
  exact ⟨same,.stopped phase⟩

private theorem follows_handleAll (tracks : Tracks runtime job []) (events : List (Io × List Byte)) :
    (handleAll runtime events).config = runtime.config ∧ Follows runtime.config job events (handleAll runtime events) := by
  induction events using reverseRecOn with
  | nil => exact ⟨rfl,.waits tracks⟩
  | append_singleton events event ih =>
  obtain ⟨same,follows⟩ := ih
  have next := follows.handle same event.1 event.2
  rw [handleAll,foldl_append]
  exact next

theorem available_succeeded (phase : runtime.phase = .completionPending) (is : runtime.completionAvailable = true) :
    available runtime = some runtime.completion := by
  unfold available queueRuntimeTakeCompletion
  rw [if_neg (by rw [phase,is]; decide)]
theorem available_elsewhere (phase : runtime.phase ≠ .completionPending) : available runtime = none := by
  unfold available queueRuntimeTakeCompletion
  rw [if_pos (.inl phase)]

/-- A finished job is recognised at a flag event exactly when every queue of it had reached its
    stamp and its done pointer at some flag event that fired it. -/
theorem recognised_iff (io : Io) (config : Config) (start : Runtime)
    (initialized : queueRuntimeInitialize io config = (.ok,some start)) (steps : List (Io × Call)) (io' : Io) (call : Call)
    (submission : Submission) (queues : List Queue) (isSubmission : call.submission = some (submission,queues))
    (ok : (perform io' (runAll start steps).runtime call).1.result = .ok) (events : List (Io × List Byte)) (last : Io × List Byte)
    (flag : ∃ event, decodeEvent last.2 = some event ∧ event.kind = eventFlag)
    (unfailed : Unfailed (jobOf io' config submission queues)
      (handleAll (perform io' (runAll start steps).runtime call).1.runtime events))
    (reached : ∀ queue ∈ queues, Reached config (jobOf io' config submission queues) queue last.1) :
    available (handleAll (perform io' (runAll start steps).runtime call).1.runtime (events ++ [last])) =
        some ⟨submission.fence,.success⟩ ↔
      AllObserved config (jobOf io' config submission queues) (events ++ [last]) := by
  have keeps := keeps_runAll initialized steps
  have valid : configValid (runAll start steps).runtime.config = true := by
    rw [keeps.same]
    exact keeps.valid
  -- the accepted submission is tracked
  have accepted : Tracks (perform io' (runAll start steps).runtime call).1.runtime (jobOf io' config submission queues) [] ∧
      (perform io' (runAll start steps).runtime call).1.runtime.config = config := by
    have submits : call.submits := by
      cases call <;> trivial
    obtain ⟨submission',queues',same,cases'⟩ := perform_submits valid keeps.idle io' submits
    rw [isSubmission] at same
    cases same
    rw [← keeps.same]
    cases cases' with
    | refused failed | unpublished _ failed | stopped _ failed => exact absurd ok failed
    | accepted _ _ same' tracks => exact ⟨tracks,same'⟩
  generalize (perform io' (runAll start steps).runtime call).1.runtime = first at accepted unfailed ⊢
  obtain ⟨tracks,same⟩ := accepted
  obtain ⟨sameBefore,before⟩ := follows_handleAll tracks events
  rw [same] at sameBefore before
  obtain ⟨_,follows⟩ := before.handle sameBefore last.1 last.2
  have stepped : handleAll first (events ++ [last]) = (queueRuntimeHandleEvent last.1 last.2 (handleAll first events)).runtime := by
    rw [handleAll,handleAll,foldl_append]
    rfl
  rw [stepped]
  cases before with
  | stopped phase =>
    rcases unfailed with wrong | wrong | wrong
    · rw [phase] at wrong
      cases wrong
    · rw [phase] at wrong
      cases wrong
    · rw [available_elsewhere (by rw [phase]; decide)] at wrong
      cases wrong
  | failed status phase =>
    rcases unfailed with wrong | wrong | wrong
    · rw [phase] at wrong
      cases wrong
    · rw [phase] at wrong
      cases wrong
    by_cases is : (handleAll first events).completionAvailable = true
    · rw [available_succeeded phase is] at wrong
      rw [Option.some.inj wrong] at status
      exact absurd rfl status
    unfold available queueRuntimeTakeCompletion at wrong
    rw [if_pos (.inr is)] at wrong
    cases wrong
  | succeeded phase is completion observed =>
    rw [handleEvent_elsewhere (by rw [phase]; exact ⟨by decide,by decide⟩),available_succeeded phase is,completion]
    refine ⟨fun _ queue mem => ?_,fun _ => rfl⟩
    obtain ⟨event,inside,holds⟩ := observed queue mem
    exact ⟨event,mem_append_left _ inside,holds⟩
  | waits tracks' =>
  have noCause : ¬ ((∃ event, decodeEvent last.2 = some event ∧ event.terminalFault = true) ∨
      ∃ queue ∈ queues, ¬ Reached (handleAll first events).config (jobOf io' config submission queues) queue last.1) := by
    rintro (⟨event,decoded,fault⟩ | ⟨queue,mem,short⟩)
    · obtain ⟨event',decoded',isFlag⟩ := flag
      rw [decoded] at decoded'
      cases decoded'
      rw [decodeEvent_flag decoded isFlag] at fault
      cases fault
    · rw [sameBefore] at short
      exact short (reached queue mem)
  cases handleEvent_handles last.1 last.2 tracks' with
  | waits same' tracks'' =>
    rw [available_elsewhere (tracks_not_pending tracks'')]
    refine ⟨nofun,fun all => ?_⟩
    obtain ⟨queue,mem,waiting⟩ := tracks''.waits
    rw [(tracks''.complete queue mem).mpr (by rw [same',sameBefore]; exact all queue mem)] at waiting
    cases waiting
  | succeeds same' phase is completion observed =>
    rw [available_succeeded phase is,completion]
    rw [sameBefore] at observed
    exact ⟨fun _ => observed,fun _ => rfl⟩
  | fails _ _ _ _ _ _ cause | stops _ _ cause => exact absurd cause noCause

/-- A compute job whose event came with its stamp. -/
theorem recognised_together :
    available (handleAll (perform (showing 0 0 0) (freshRuntime smallConfig) (.submitCompute computeSubmission)).1.runtime
      ([] ++ [(showing 1 1 5,flagMessage 4)])) = some ⟨7,.success⟩ := by
  have reached : ∀ queue ∈ [Queue.compute],
      Reached smallConfig (jobOf (showing 0 0 0) smallConfig computeSubmission [.compute]) queue (showing 1 1 5) := by
    intro queue mem
    obtain rfl := mem_singleton.mp mem
    exact ⟨5,1,1,rfl,rfl,rfl,by decide,by decide,by decide,by decide +kernel⟩
  refine (recognised_iff (showing 0 0 0) smallConfig (freshRuntime smallConfig) (by decide +kernel) [] (showing 0 0 0)
    (.submitCompute computeSubmission) computeSubmission [.compute] rfl (by decide +kernel) [] (showing 1 1 5,flagMessage 4)
    ⟨⟨1,4,0,false⟩,by decide +kernel,rfl⟩ (.inr (.inl (by decide +kernel))) reached).mpr ?_
  intro queue mem
  refine ⟨(showing 1 1 5,flagMessage 4),mem_singleton.mpr rfl,⟨⟨1,4,0,false⟩,by decide +kernel,?_⟩,reached queue mem⟩
  obtain rfl := mem_singleton.mp mem
  decide +kernel

/-- A compute job whose event came before its stamp: at the next flag event the queue has
    reached everything, but the job is not recognised. -/
theorem unrecognised_late : Fires smallConfig .compute (flagMessage 4) ∧
    Reached smallConfig (jobOf (showing 0 0 0) smallConfig computeSubmission [.compute]) .compute (showing 1 1 5) ∧
    available (handleAll (perform (showing 0 0 0) (freshRuntime smallConfig) (.submitCompute computeSubmission)).1.runtime
      [(showing 1 0 0,flagMessage 4),(showing 1 1 5,flagMessage 1)]) = none :=
  ⟨⟨⟨1,4,0,false⟩,by decide +kernel,by decide +kernel⟩,⟨5,1,1,rfl,rfl,rfl,by decide,by decide,by decide,by decide +kernel⟩,
    by decide +kernel⟩

end WindowsOnM1.QueueRuntimeRecognised
