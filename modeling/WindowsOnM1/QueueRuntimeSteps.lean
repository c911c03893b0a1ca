import WindowsOnM1.QueueRuntimeModel

/-!
What a submission and an event do to the runtime. An accepted submission makes a job: its
fence, its queues, and the stamp and the done pointer that each of them has to reach. A flag
event marks the queues of the job that it fires and that have reached what is awaited.
-/
namespace WindowsOnM1.QueueRuntimeSteps
open QueueRuntimeModel List
open BitVec hiding not_not not_or

abbrev Byte := WindowsOnM1.ByteMemory.Byte

/-- What an accepted submission awaits. -/
structure Job where
  fence : U32
  queues : List Queue
  stamp : Queue → U32
  done : Queue → U32

/-- The write pointer of a queue behind the entries of a submission. -/
def behind (io : Io) (config : Config) (queue : Queue) (work : WorkPublication) : U32 :=
  BitVec.ofNat 32 ((((io.read queue .writePointer).getD 0).toNat + work.gpuAddressCount.toNat) %
    (config.binding queue).ringCapacity.toNat)

/-- The job of a submission to some queues. -/
def jobOf (io : Io) (config : Config) (submission : Submission) (queues : List Queue) : Job :=
  { fence := submission.fence, queues := queues, stamp := fun queue => (submission.work queue).expectedStamp
    done := fun queue => behind io config queue (submission.work queue) }

/-- A message that fires the number of a queue. -/
def Fires (config : Config) (queue : Queue) (message : List Byte) : Prop :=
  ∃ event, decodeEvent message = some event ∧ eventHasNumber event (config.binding queue).eventNumber = true

/-- How far it is around a ring from one place to another. -/
def around (capacity first last : U32) : Nat := (last.toNat + capacity.toNat - first.toNat) % capacity.toNat

/-- The stamp of a queue, read now, has reached the stamp of the job, and its done pointer lies
    between the pointer of the job and the write pointer. -/
def Reached (config : Config) (job : Job) (queue : Queue) (io : Io) : Prop :=
  ∃ stamp done write, io.read queue .stamp = some stamp ∧ io.read queue .donePointer = some done ∧
    io.read queue .writePointer = some write ∧ stamp - job.stamp queue < 0x80000000 ∧
    done < (config.binding queue).ringCapacity ∧ write < (config.binding queue).ringCapacity ∧
    around (config.binding queue).ringCapacity (job.done queue) done ≤ around (config.binding queue).ringCapacity (job.done queue) write

/-- An event that fires a queue which has reached what is awaited. -/
def Observed (config : Config) (job : Job) (queue : Queue) (event : Io × List Byte) : Prop :=
  Fires config queue event.2 ∧ Reached config job queue event.1

/-- A configuration whose queues of the job are bound, with awaited values that can be reached. -/
structure Awaitable (config : Config) (job : Job) : Prop where
  room : ∀ queue ∈ job.queues, 2 < (config.binding queue).ringCapacity ∧ (config.binding queue).ringCapacity ≤ ringCapacityMax
  stamp : ∀ queue ∈ job.queues, job.stamp queue ≠ 0
  done : ∀ queue ∈ job.queues, job.done queue < (config.binding queue).ringCapacity

/-- A queue's record awaits what the job says. -/
structure Awaits (config : Config) (job : Job) (queue : Queue) (pending : Pending) : Prop where
  number : pending.eventNumber = (config.binding queue).eventNumber
  stamp : pending.expectedStamp = job.stamp queue
  done : pending.expectedDonePointer = job.done queue

variable {capacity : U32}

section
variable (room : 2 < capacity ∧ capacity ≤ ringCapacityMax)
include room

theorem room_toNat : 2 < capacity.toNat ∧ capacity.toNat ≤ 0x500 :=
  ⟨lt_def.mp room.1,le_def.mp room.2⟩

theorem around_toNat {first last : U32} (inside : first < capacity)
    (inside' : last < capacity) : ((last + capacity - first) % capacity).toNat = around capacity first last := by
  obtain ⟨low,high⟩ := room_toNat room
  rw [lt_def] at inside inside'
  rw [toNat_umod,toNat_sub,toNat_add,around]
  congr 1
  omega

theorem satisfied_iff {event : Event} {number stamp expectedStamp done expectedDone write : U32} (real : expectedStamp ≠ 0) (inside : expectedDone < capacity) :
    completionSatisfiedWindow event number stamp expectedStamp done expectedDone write capacity = true ↔
      eventHasNumber event number = true ∧ stamp - expectedStamp < 0x80000000 ∧ done < capacity ∧ write < capacity ∧
        around capacity expectedDone done ≤ around capacity expectedDone write := by
  have positive : capacity ≠ 0 := by
    rintro rfl
    exact absurd room.1 (by decide)
  unfold completionSatisfiedWindow
  by_cases fired : eventHasNumber event number = true
  · by_cases insideDone : done < capacity
    · by_cases insideWrite : write < capacity
      · have window : ¬ (write + capacity - expectedDone) % capacity < (done + capacity - expectedDone) % capacity ↔
            around capacity expectedDone done ≤ around capacity expectedDone write := by
          rw [BitVec.not_lt,le_def,around_toNat room inside insideDone,around_toNat room inside insideWrite]
        simp only [real,positive,fired,BitVec.not_lt.mpr room.2,BitVec.not_le.mpr insideDone,BitVec.not_le.mpr inside,
          BitVec.not_le.mpr insideWrite,not_true_eq_false,false_or,true_and,insideDone,insideWrite,← window]
        split_ifs with above
        all_goals simp [above]
      simp [BitVec.not_lt.mp insideWrite,insideWrite]
    simp [BitVec.not_lt.mp insideDone,insideDone]
  simp [fired]

end

variable {config : Config} {queue : Queue}

/-- What an observation does to the record of a queue: it is complete when it was, or when the
    event fires the queue and the queue has reached what is awaited. -/
theorem observeQueue_spec {job : Job} (awaitable : Awaitable config job)
    (mem : queue ∈ job.queues) {pending : Pending} (awaits : Awaits config job queue pending) (io : Io) (event : Event) :
    Awaits config job queue (observeQueue io event config queue pending).2 ∧
    (Reached config job queue io → (observeQueue io event config queue pending).1 = true) ∧
    ((observeQueue io event config queue pending).1 = true →
      ((observeQueue io event config queue pending).2.complete = true ↔
        pending.complete = true ∨
          (eventHasNumber event (config.binding queue).eventNumber = true ∧ Reached config job queue io))) := by
  obtain ⟨number,stamp,done⟩ := awaits
  unfold observeQueue
  split
  · rename_i complete
    exact ⟨⟨number,stamp,done⟩,fun _ => rfl,fun _ => by simp [complete]⟩
  generalize isSeen : (if eventHasNumber event pending.eventNumber = true then { pending with eventSeen := true } else pending) = seen
  have same : seen.eventNumber = (config.binding queue).eventNumber ∧ seen.expectedStamp = job.stamp queue ∧
      seen.expectedDonePointer = job.done queue ∧ seen.complete = pending.complete := by
    rw [← isSeen]
    split_ifs <;> exact ⟨number,stamp,done,rfl⟩
  obtain ⟨number',stamp',done',complete'⟩ := same
  have fires : eventHasNumber event (config.binding queue).eventNumber = true → seen.eventSeen = true := by
    intro fired
    rw [← isSeen,number,if_pos fired]
  by_cases unseen : seen.eventSeen = true
  · rw [if_neg (not_not.mpr unseen)]
    cases isStamp : io.read queue .stamp with
    | none =>
      refine ⟨⟨number',stamp',done'⟩,?_,nofun⟩
      rintro ⟨_,_,_,read,_⟩
      rw [isStamp] at read
      cases read
    | some observedStamp =>
    cases isDone : io.read queue .donePointer with
    | none =>
      refine ⟨⟨number',stamp',done'⟩,?_,nofun⟩
      rintro ⟨_,_,_,_,read,_⟩
      rw [isDone] at read
      cases read
    | some observedDone =>
    cases isWrite : io.read queue .writePointer with
    | none =>
      refine ⟨⟨number',stamp',done'⟩,?_,nofun⟩
      rintro ⟨_,_,_,_,_,read,_⟩
      rw [isWrite] at read
      cases read
    | some write =>
    dsimp only
    have satisfied : completionSatisfiedWindow event seen.eventNumber observedStamp seen.expectedStamp observedDone
        seen.expectedDonePointer write (config.binding queue).ringCapacity = true ↔
        (eventHasNumber event (config.binding queue).eventNumber = true ∧ Reached config job queue io) := by
      rw [number',stamp',done',satisfied_iff (awaitable.room queue mem) (awaitable.stamp queue mem)
        (awaitable.done queue mem)]
      refine and_congr_right (fun _ => ⟨fun holds => ⟨observedStamp,observedDone,write,isStamp,isDone,isWrite,holds⟩,?_⟩)
      rintro ⟨stamp'',done'',write'',readStamp,readDone,readWrite,holds⟩
      rw [isStamp] at readStamp
      rw [isDone] at readDone
      rw [isWrite] at readWrite
      cases readStamp
      cases readDone
      cases readWrite
      exact holds
    split
    · rename_i window
      exact ⟨⟨number',stamp',done'⟩,fun _ => rfl,fun _ => ⟨fun _ => .inr (satisfied.mp window),fun _ => rfl⟩⟩
    rename_i window
    refine ⟨⟨number',stamp',done'⟩,fun _ => rfl,fun _ => ?_⟩
    rw [complete',← satisfied]
    simp [window]
  rw [if_pos unseen]
  refine ⟨⟨number',stamp',done'⟩,fun _ => rfl,fun _ => ?_⟩
  rw [complete']
  refine ⟨.inl,fun holds => holds.resolve_right (fun observed => unseen (fires observed.1))⟩

private theorem binding_room (valid : configValid config = true) (mem : queue ∈ config.queues) :
    2 < (config.binding queue).ringCapacity ∧ (config.binding queue).ringCapacity ≤ ringCapacityMax := by
  have one : ∀ {binding : QueueBinding} {expected : U32}, queueBindingValid binding expected = true →
      2 < binding.ringCapacity ∧ binding.ringCapacity ≤ ringCapacityMax := by
    intro binding expected bound
    simp only [queueBindingValid,Bool.and_eq_true,decide_eq_true_eq] at bound
    exact ⟨bound.1.1.1.1.1.2,bound.1.1.1.1.2⟩
  simp only [configValid,Bool.and_eq_true,Bool.or_eq_true,Bool.not_eq_true'] at valid
  obtain ⟨⟨⟨⟨⟨_,ta⟩,d3⟩,compute⟩,_⟩,_⟩ := valid
  unfold Config.queues at mem
  cases queue with
  | ta => exact one ta
  | d3 => exact one d3
  | compute =>
  cases has : config.hasCompute with
  | false => simp [has] at mem
  | true => exact one (compute.resolve_left (by simp [has]))

theorem ta_mem (config : Config) : Queue.ta ∈ config.queues := by
  unfold Config.queues
  split_ifs <;> exact mem_cons_self
theorem d3_mem (config : Config) : Queue.d3 ∈ config.queues := by
  unfold Config.queues
  split_ifs <;> exact mem_cons_of_mem _ mem_cons_self

private theorem prepareSlots_last {done : U32} (room : 2 < capacity ∧ capacity ≤ ringCapacityMax) {entries : Nat} {next last : U32}
    {slots : List U32} (inside : next < capacity) (prepared : prepareSlots capacity done entries next = some (slots,last)) :
    last < capacity ∧ last.toNat = (next.toNat + entries) % capacity.toNat := by
  obtain ⟨low,high⟩ := room_toNat room
  induction entries generalizing next slots with
  | zero =>
    cases prepared
    exact ⟨lt_def.mpr inside,(Nat.mod_eq_of_lt inside).symm⟩
  | succ entries ih =>
  unfold prepareSlots at prepared
  have next' : (if capacity ≤ next + 1 then 0 else next + 1 : U32).toNat = (next.toNat + 1) % capacity.toNat := by
    rw [lt_def] at inside
    have sum : (next + 1).toNat = next.toNat + 1 := by
      rw [toNat_add,show (1 : U32).toNat = 1 from rfl]
      omega
    split
    · rename_i wraps
      rw [le_def,sum] at wraps
      rw [show next.toNat + 1 = capacity.toNat by omega,Nat.mod_self]
      rfl
    rename_i wraps
    rw [BitVec.not_le,lt_def,sum] at wraps
    rw [sum,Nat.mod_eq_of_lt wraps]
  generalize (if capacity ≤ next + 1 then 0 else next + 1 : U32) = following at prepared next'
  by_cases met : following = done
  · rw [if_pos met] at prepared
    cases prepared
  rw [if_neg met] at prepared
  obtain ⟨⟨rest,last'⟩,prepared',same⟩ := Option.map_eq_some_iff.mp prepared
  cases same
  obtain ⟨below,isLast⟩ := ih (lt_def.mpr (by rw [next']; exact Nat.mod_lt _ (by omega))) prepared'
  refine ⟨below,?_⟩
  rw [isLast,next',Nat.mod_add_mod]
  congr 1
  omega

theorem prepareQueue_spec {io : Io} {work : WorkPublication} {firstRun : Bool} {timestamp : U64}
    {publication : BatchPublication} {run : RunCommand}
    (room : 2 < (config.binding queue).ringCapacity ∧ (config.binding queue).ringCapacity ≤ ringCapacityMax)
    (prepared : prepareQueue io config queue work firstRun timestamp = some (publication,run)) :
    publication.expectedDonePointer = behind io config queue work ∧
      behind io config queue work < (config.binding queue).ringCapacity := by
  unfold prepareQueue at prepared
  split at prepared
  · rename_i current done isCurrent isDone
    by_cases outside : (config.binding queue).ringCapacity ≤ current ∨ (config.binding queue).ringCapacity ≤ done
    · rw [if_pos outside] at prepared
      cases prepared
    rw [if_neg outside] at prepared
    split at prepared
    · cases prepared
    rename_i slots next isSlots
    cases prepared
    obtain ⟨below,isNext⟩ := prepareSlots_last room (BitVec.not_le.mp (not_or.mp outside).1) isSlots
    have same : next = behind io config queue work := by
      refine eq_of_toNat_eq ?_
      rw [behind,isCurrent,Option.getD_some,← isNext,ofNat_toNat,setWidth_eq]
    rw [← same]
    exact ⟨rfl,below⟩
  cases prepared

/-- The runtime awaits a job, and has seen the events that were handled since. -/
structure Tracks (runtime : Runtime) (job : Job) (since : List (Io × List Byte)) : Prop where
  fence : runtime.pendingFence = job.fence
  awaitable : Awaitable runtime.config job
  awaits : ∀ queue ∈ job.queues, Awaits runtime.config job queue (runtime.pending queue)
  complete : ∀ queue ∈ job.queues,
    ((runtime.pending queue).complete = true ↔ ∃ event ∈ since, Observed runtime.config job queue event)
  waits : ∃ queue ∈ job.queues, (runtime.pending queue).complete = false
  kind : (runtime.phase = .computeSubmitted ∧ job.queues = [.compute] ∧ runtime.computeTerminal = true) ∨
    (runtime.phase = .submitted ∧ job.queues = if runtime.computeInRender then [.d3,.ta,.compute] else [.d3,.ta])

inductive Submits (io : Io) (submission : Submission) (queues : List Queue) (before : Runtime) (outcome : Outcome) : Prop
  | refused (failed : outcome.result ≠ .ok) (same : outcome.runtime = before)
  | unpublished (ready : before.phase = .ready) (failed : outcome.result ≠ .ok)
      (cleared : outcome.runtime = clearPending { arm submission before with phase := .ready })
  | stopped (ready : before.phase = .ready) (failed : outcome.result ≠ .ok) (faulted : outcome.runtime.phase = .faulted)
      (config : outcome.runtime.config = before.config) (published : ∃ queue pointer, Effect.publish queue pointer ∈ outcome.effects)
  | accepted (ready : before.phase = .ready) (ok : outcome.result = .ok) (config : outcome.runtime.config = before.config)
      (tracks : Tracks outcome.runtime (jobOf io before.config submission queues) [])

section
variable {io : Io} {submission : Submission} {queues : List Queue} {before : Runtime}

variable {result : Result}

theorem submits_refuse (failed : result ≠ .ok) : Submits io submission queues before (refuse result before) :=
  .refused failed rfl

theorem submits_if {wrong : Prop} [Decidable wrong] {bad good : Outcome} (fails : Submits io submission queues before bad)
    (goes : ¬ wrong → Submits io submission queues before good) :
    Submits io submission queues before (if wrong then bad else good) := by
  split
  · exact fails
  exact goes ‹_›

theorem submits_unpublished (ready : before.phase = .ready) (failed : result ≠ .ok) (effects : List Effect) :
    Submits io submission queues before (submitFailure io (arm submission before) result false effects) :=
  .unpublished ready failed rfl

theorem submits_stopped (ready : before.phase = .ready) (failed : result ≠ .ok) {effects : List Effect}
    {queue : Queue} {pointer : U32} (published : Effect.publish queue pointer ∈ effects) :
    Submits io submission queues before (submitFailure io (arm submission before) result true effects) := by
  unfold submitFailure
  by_cases quiesced : io.quiesce = true
  · rw [if_neg (not_not.mpr quiesced)]
    exact .stopped ready failed rfl rfl ⟨queue,pointer,mem_append_left _ published⟩
  rw [if_pos quiesced]
  exact .stopped ready nofun rfl rfl ⟨queue,pointer,mem_append_left _ published⟩

private theorem workValid_stamp {work : WorkPublication} (valid : workValid work = true) : work.expectedStamp ≠ 0 := by
  unfold workValid at valid
  split_ifs at valid with wrong
  exact (not_or.mp (not_or.mp wrong).2).2

/-- A queue whose work fits its ring, and whose entries the runtime awaits. -/
structure Prepared (io : Io) (submission : Submission) (before runtime : Runtime) (queue : Queue) : Prop where
  room : 2 < (before.config.binding queue).ringCapacity ∧ (before.config.binding queue).ringCapacity ≤ ringCapacityMax
  valid : workValid (submission.work queue) = true
  inside : behind io before.config queue (submission.work queue) < (before.config.binding queue).ringCapacity
  pending : runtime.pending queue = ⟨(before.config.binding queue).eventNumber,(submission.work queue).expectedStamp,
    behind io before.config queue (submission.work queue),false,false⟩

/-- The runtime that awaits the entries of its queues tracks the job. -/
theorem tracks_fresh {runtime : Runtime} {first : Queue} (some' : first ∈ queues) (config : runtime.config = before.config) (fence : runtime.pendingFence = submission.fence)
    (each : ∀ queue ∈ queues, Prepared io submission before runtime queue)
    (kind : (runtime.phase = .computeSubmitted ∧ queues = [.compute] ∧ runtime.computeTerminal = true) ∨
      (runtime.phase = .submitted ∧ queues = if runtime.computeInRender then [.d3,.ta,.compute] else [.d3,.ta])) :
    Tracks runtime (jobOf io before.config submission queues) [] := by
  refine ⟨fence,⟨?_,?_,?_⟩,?_,?_,⟨first,some',by rw [(each first some').pending]⟩,kind⟩
  · intro queue mem
    rw [config]
    exact (each queue mem).room
  · intro queue mem
    exact workValid_stamp (each queue mem).valid
  · intro queue mem
    rw [config]
    exact (each queue mem).inside
  · intro queue mem
    rw [(each queue mem).pending,config]
    exact ⟨rfl,rfl,rfl⟩
  intro queue mem
  rw [(each queue mem).pending]
  simp

end

/-- In the ready phase nothing is left of a job. -/
def Idle (runtime : Runtime) : Prop := runtime.phase = .ready → clearPending runtime = runtime

variable {runtime : Runtime}

theorem Idle.pending (idle : Idle runtime) (ready : runtime.phase = .ready) (queue : Queue) :
    runtime.pending queue = Pending.zero := by
  rw [← idle ready]
  cases queue <;> rfl
theorem Idle.computeInRender (idle : Idle runtime) (ready : runtime.phase = .ready) : runtime.computeInRender = false := by
  rw [← idle ready]
  rfl

variable {io : Io} {submission : Submission}

theorem prepared_of {queue : Queue} {publication : BatchPublication} {run : RunCommand} {firstRun : Bool} {after : Runtime}
    (valid : configValid runtime.config = true) (idle : Idle runtime) (ready : runtime.phase = .ready)
    (mem : queue ∈ runtime.config.queues) (work : workValid (submission.work queue) = true)
    (prepared : prepareQueue io runtime.config queue (submission.work queue) firstRun submission.timestamp = some (publication,run))
    (awaits : after.pending queue = awaited (runtime.config.binding queue) (submission.work queue) publication (runtime.pending queue)) :
    Prepared io submission runtime after queue := by
  have room := binding_room valid mem
  obtain ⟨done,inside⟩ := prepareQueue_spec room prepared
  refine ⟨room,work,inside,awaits.trans ?_⟩
  rw [idle.pending ready,← done]
  rfl

variable (io submission)

section
variable (runtime) (valid : configValid runtime.config = true) (idle : Idle runtime)
include valid idle

theorem submitCompute_submits : Submits io submission [.compute] runtime (queueRuntimeSubmitCompute io submission runtime) := by
  unfold queueRuntimeSubmitCompute
  split
  · exact submits_refuse (by decide)
  rename_i wrong
  simp only [not_or,not_not] at wrong
  obtain ⟨has,ready,_,_,work,_,_,_⟩ := wrong
  have compute : Queue.compute ∈ runtime.config.queues := by simp [Config.queues,has]
  cases prepared : prepareQueue io runtime.config .compute submission.compute runtime.computeFirstRun submission.timestamp with
  | none => exact submits_refuse (by decide)
  | some result =>
  obtain ⟨publication,run⟩ := result
  dsimp only
  cases encodeRunCommand run with
  | none => exact submits_refuse (by decide)
  | some message =>
  dsimp only
  split
  · exact submits_unpublished ready (by decide) _
  rcases writeRings io [(.compute,ringEntries submission.compute publication)] with ⟨_ | _,effects⟩
  · exact submits_unpublished ready (by decide) _
  dsimp only
  split
  · exact submits_unpublished ready (by decide) _
  rcases sendRuns io [(.compute,message)] with ⟨_ | _,sent⟩
  · exact submits_stopped ready (by decide) (mem_append_left _ (mem_append_right _ (mem_singleton.mpr rfl)))
  refine .accepted ready rfl rfl (tracks_fresh mem_cons_self rfl rfl ?_ (.inl ⟨rfl,rfl,rfl⟩))
  exact forall_mem_singleton.mpr (prepared_of valid idle ready compute work prepared rfl)

theorem submit_submits : Submits io submission [.d3,.ta] runtime (queueRuntimeSubmit io submission runtime) := by
  refine submits_if (submits_refuse (by decide)) (fun wrong => ?_)
  simp only [not_or,not_not] at wrong
  obtain ⟨_,_,_,taWork,d3Work,_,_⟩ := wrong
  split
  · exact submits_refuse (by decide)
  split
  · exact submits_refuse (by decide)
  rename_i notReady
  have ready : runtime.phase = .ready := not_not.mp notReady
  cases taPrepared : prepareQueue io runtime.config .ta submission.ta runtime.taFirstRun submission.timestamp with
  | none => exact submits_refuse (by decide)
  | some taResult =>
  cases d3Prepared : prepareQueue io runtime.config .d3 submission.d3 runtime.d3FirstRun submission.timestamp with
  | none => exact submits_refuse (by decide)
  | some d3Result =>
  obtain ⟨ta,taRun⟩ := taResult
  obtain ⟨d3,d3Run⟩ := d3Result
  dsimp only
  rcases buildJoinedRun d3Run taRun with _ | ⟨d3Message,taMessage⟩
  · exact submits_refuse (by decide)
  dsimp only
  split
  · exact submits_unpublished ready (by decide) _
  rcases writeRings io [(.d3,ringEntries submission.d3 d3),(.ta,ringEntries submission.ta ta)] with ⟨_ | _,effects⟩
  · exact submits_unpublished ready (by decide) _
  dsimp only
  split
  · exact submits_unpublished ready (by decide) _
  split
  · exact submits_stopped ready (by decide) (mem_append_right _ (mem_singleton.mpr rfl))
  rcases sendRuns io [(.d3,d3Message),(.ta,taMessage)] with ⟨_ | _,sent⟩
  · exact submits_stopped ready (by decide)
      (mem_append_left _ (mem_append_right _ (mem_singleton.mpr rfl)))
  refine .accepted ready rfl rfl (tracks_fresh mem_cons_self rfl rfl (forall_mem_cons.mpr ⟨?_,forall_mem_singleton.mpr ?_⟩)
    (.inr ⟨rfl,?_⟩))
  · exact prepared_of valid idle ready (d3_mem runtime.config) d3Work d3Prepared rfl
  · exact prepared_of valid idle ready (ta_mem runtime.config) taWork taPrepared rfl
  exact (if_neg (by rw [show (arm submission runtime).computeInRender = false from idle.computeInRender ready]; decide)).symm

theorem submitRenderWithCompute_submits :
    Submits io submission [.d3,.ta,.compute] runtime (queueRuntimeSubmitRenderWithCompute io submission runtime) := by
  refine submits_if (submits_refuse (by decide)) (fun wrong => ?_)
  simp only [not_or,not_not] at wrong
  obtain ⟨has,_,_,_,_,taWork,d3Work,computeWork,_,_,_⟩ := wrong
  split
  · exact submits_refuse (by decide)
  split
  · exact submits_refuse (by decide)
  rename_i notReady
  have ready : runtime.phase = .ready := not_not.mp notReady
  have computeMem : Queue.compute ∈ runtime.config.queues := by simp [Config.queues,has]
  cases computePrepared : prepareQueue io runtime.config .compute submission.compute runtime.computeFirstRun
      submission.timestamp with
  | none => exact submits_refuse (by decide)
  | some computeResult =>
  cases taPrepared : prepareQueue io runtime.config .ta submission.ta runtime.taFirstRun submission.timestamp with
  | none => exact submits_refuse (by decide)
  | some taResult =>
  cases d3Prepared : prepareQueue io runtime.config .d3 submission.d3 runtime.d3FirstRun submission.timestamp with
  | none => exact submits_refuse (by decide)
  | some d3Result =>
  obtain ⟨compute,computeRun⟩ := computeResult
  obtain ⟨ta,taRun⟩ := taResult
  obtain ⟨d3,d3Run⟩ := d3Result
  dsimp only
  cases encodeRunCommand computeRun with
  | none => exact submits_refuse (by decide)
  | some computeMessage =>
  rcases buildJoinedRun d3Run taRun with _ | ⟨d3Message,taMessage⟩
  · exact submits_refuse (by decide)
  dsimp only
  split
  · exact submits_unpublished ready (by decide) _
  rcases writeRings io [(.compute,ringEntries submission.compute compute),(.d3,ringEntries submission.d3 d3),
      (.ta,ringEntries submission.ta ta)] with ⟨_ | _,effects⟩
  · exact submits_unpublished ready (by decide) _
  dsimp only
  split
  · exact submits_unpublished ready (by decide) _
  split
  · exact submits_stopped ready (by decide) (mem_append_right _ (mem_singleton.mpr rfl))
  split
  · exact submits_stopped ready (by decide) (mem_append_right _ (mem_singleton.mpr rfl))
  rcases sendRuns io [(.compute,computeMessage),(.d3,d3Message),(.ta,taMessage)] with ⟨_ | _,sent⟩
  · exact submits_stopped ready (by decide)
      (mem_append_left _ (mem_append_right _ (mem_cons_self)))
  refine .accepted ready rfl rfl (tracks_fresh mem_cons_self rfl rfl (forall_mem_cons.mpr ⟨?_,forall_mem_cons.mpr
    ⟨?_,forall_mem_singleton.mpr ?_⟩⟩) (.inr ⟨rfl,rfl⟩))
  · exact prepared_of valid idle ready (d3_mem runtime.config) d3Work d3Prepared rfl
  · exact prepared_of valid idle ready (ta_mem runtime.config) taWork taPrepared rfl
  exact prepared_of valid idle ready computeMem computeWork computePrepared rfl

end

/-! ### Events -/

variable {config : Config} {queue : Queue} {message : List Byte} {event : Event}

theorem fires_iff (decoded : decodeEvent message = some event) :
    Fires config queue message ↔ eventHasNumber event (config.binding queue).eventNumber = true := by
  constructor
  · rintro ⟨event',decoded',fires⟩
    rw [decoded] at decoded'
    cases decoded'
    exact fires
  exact fun fires => ⟨event,decoded,fires⟩

private theorem fires_flag (fires : Fires config queue message) :
    ∃ event, decodeEvent message = some event ∧ event.kind = eventFlag := by
  obtain ⟨event,decoded,number⟩ := fires
  refine ⟨event,decoded,?_⟩
  by_contra other
  unfold eventHasNumber at number
  rw [if_pos (.inl other)] at number
  cases number

theorem decodeEvent_flag (decoded : decodeEvent message = some event)
    (flag : event.kind = eventFlag) : event.terminalFault = false := by
  unfold decodeEvent at decoded
  dsimp only at decoded
  split_ifs at decoded with _ isFlag isTimeout isGrow isFault
  · cases decoded
    rfl
  · cases decoded
    exact absurd flag isFlag
  · cases decoded
    rfl
  cases decoded
  exact absurd flag isFlag

/-- Every queue of a job was observed by one of the events. -/
def AllObserved (config : Config) (job : Job) (events : List (Io × List Byte)) : Prop :=
  ∀ queue ∈ job.queues, ∃ event ∈ events, Observed config job queue event

/-- What the handling of an event can do to the job that is awaited. A failure has a cause:
    a terminal event, or a queue of which not everything can be read. -/
inductive Handles (io : Io) (message : List Byte) (before : Runtime) (job : Job) (since : List (Io × List Byte)) (outcome : Outcome) :
    Prop
  | waits (config : outcome.runtime.config = before.config) (tracks : Tracks outcome.runtime job (since ++ [(io,message)]))
  | succeeds (config : outcome.runtime.config = before.config) (phase : outcome.runtime.phase = .completionPending)
      (available : outcome.runtime.completionAvailable = true) (completion : outcome.runtime.completion = ⟨job.fence,.success⟩)
      (observed : AllObserved before.config job (since ++ [(io,message)]))
  | fails (config : outcome.runtime.config = before.config) (status : CompletionStatus)
      (other : status ≠ .success) (phase : outcome.runtime.phase = .completionPending)
      (available : outcome.runtime.completionAvailable = true) (completion : outcome.runtime.completion = ⟨job.fence,status⟩)
      (cause : (∃ event, decodeEvent message = some event ∧ event.terminalFault = true) ∨
        ∃ queue ∈ job.queues, ¬ Reached before.config job queue io)
  | stops (config : outcome.runtime.config = before.config) (phase : outcome.runtime.phase = .faulted)
      (cause : (∃ event, decodeEvent message = some event ∧ event.terminalFault = true) ∨
        ∃ queue ∈ job.queues, ¬ Reached before.config job queue io)

section
variable {io : Io} {message : List Byte} {before : Runtime} {job : Job} {since : List (Io × List Byte)}

/-- A failure that ends the job, of a runtime that differs from the one before only in what it observed. -/
theorem handles_failure {middle : Runtime} (config : middle.config = before.config) (fence : middle.pendingFence = job.fence)
    (status : CompletionStatus) (other : status ≠ .success) (result : Result) (effects : List Effect)
    (cause : (∃ event, decodeEvent message = some event ∧ event.terminalFault = true) ∨
      ∃ queue ∈ job.queues, ¬ Reached before.config job queue io) :
    Handles io message before job since (terminalFailure io middle status result effects) := by
  unfold terminalFailure
  by_cases quiesced : io.quiesce = true
  · rw [if_neg (not_not.mpr quiesced)]
    exact .fails config status other rfl rfl (by rw [← fence]; rfl) cause
  rw [if_pos quiesced]
  exact .stops config rfl cause

variable {event : Event}

private theorem handleFault_handles (tracks : Tracks before job since) (decoded : decodeEvent message = some event)
    (fault : event.terminalFault = true) : Handles io message before job since (handleFault io event before) := by
  unfold handleFault recoverFirmware
  by_cases refused : (event.kind ≠ eventTimeout ∧ event.kind ≠ eventFault) ∨ ¬ io.recover
  · rw [if_pos refused]
    exact handles_failure rfl tracks.fence .faulted (by decide) _ _ (.inl ⟨event,decoded,fault⟩)
  rw [if_neg refused]
  exact .fails rfl .recovered (by decide) rfl rfl (by rw [← tracks.fence]; rfl) (.inl ⟨event,decoded,fault⟩)

theorem Tracks.idle (tracks : Tracks before job since) (quiet : ∀ queue, ¬ Fires before.config queue message) :
    Tracks before job (since ++ [(io,message)]) := by
  refine { tracks with complete := fun queue mem => ?_ }
  rw [tracks.complete queue mem]
  constructor
  · rintro ⟨event,inside,observed⟩
    exact ⟨event,mem_append_left _ inside,observed⟩
  rintro ⟨event,inside,observed⟩
  rcases mem_append.mp inside with old | new
  · exact ⟨event,old,observed⟩
  rw [mem_singleton.mp new] at observed
  exact absurd observed.1 (quiet queue)

section
variable (tracks : Tracks before job since) (decoded : decodeEvent message = some event)
include tracks decoded

private theorem observed_snoc {queue : Queue} (mem : queue ∈ job.queues) {pending : Pending}
    (same : pending.complete = true ↔ (before.pending queue).complete = true ∨
      (eventHasNumber event (before.config.binding queue).eventNumber = true ∧ Reached before.config job queue io)) :
    pending.complete = true ↔ ∃ event ∈ since ++ [(io,message)], Observed before.config job queue event := by
  rw [same,tracks.complete queue mem,← fires_iff decoded]
  constructor
  · rintro (⟨event,inside,observed⟩ | observed)
    · exact ⟨event,mem_append_left _ inside,observed⟩
    exact ⟨(io,message),mem_append_right _ (mem_singleton.mpr rfl),observed⟩
  rintro ⟨event,inside,observed⟩
  rcases mem_append.mp inside with old | new
  · exact .inl ⟨event,old,observed⟩
  rw [mem_singleton.mp new] at observed
  exact .inr observed

/-- A runtime that observed an event for every queue of the job tracks it, or completes it. -/
theorem handles_observed
    {observed : Runtime} (config : observed.config = before.config) (fence : observed.pendingFence = before.pendingFence)
    (awaits : ∀ queue ∈ job.queues, Awaits before.config job queue (observed.pending queue))
    (complete : ∀ queue ∈ job.queues, ((observed.pending queue).complete = true ↔ (before.pending queue).complete = true ∨
      (eventHasNumber event (before.config.binding queue).eventNumber = true ∧ Reached before.config job queue io)))
    (kind : (observed.phase = .computeSubmitted ∧ job.queues = [.compute] ∧ observed.computeTerminal = true) ∨
      (observed.phase = .submitted ∧ job.queues = if observed.computeInRender then [.d3,.ta,.compute] else [.d3,.ta]))
    {finished : Prop} {decidable : Decidable finished} (all : finished ↔ ∀ queue ∈ job.queues, (observed.pending queue).complete = true) :
    Handles io message before job since
      (if finished then ⟨.ok,setCompletion .success observed,[]⟩ else ⟨.ok,observed,[]⟩) := by
  have each : ∀ queue ∈ job.queues, ((observed.pending queue).complete = true ↔
      ∃ event ∈ since ++ [(io,message)], Observed before.config job queue event) :=
    fun queue mem => observed_snoc tracks decoded mem (complete queue mem)
  split
  · rename_i finish
    refine .succeeds config rfl rfl ?_ (fun queue mem => (each queue mem).mp (all.mp finish queue mem))
    show Completion.mk observed.pendingFence _ = _
    rw [fence,tracks.fence]
  rename_i finish
  refine .waits config ⟨fence.trans tracks.fence,by dsimp only; rw [config]; exact tracks.awaitable,?_,?_,?_,kind⟩
  · intro queue mem
    rw [config]
    exact awaits queue mem
  · intro queue mem
    rw [config]
    exact each queue mem
  by_contra none
  refine finish (all.mpr (fun queue mem => ?_))
  by_contra waiting
  exact none ⟨queue,mem,Bool.eq_false_iff.mpr waiting⟩

private theorem handleComputeFlag_handles
    (queues : job.queues = [.compute]) (phase : before.phase = .computeSubmitted) (terminal : before.computeTerminal = true) :
    Handles io message before job since (handleComputeFlag io event before) := by
  have mem : Queue.compute ∈ job.queues := by
    rw [queues]
    exact mem_singleton.mpr rfl
  have only : ∀ queue ∈ job.queues, queue = .compute := by
    rw [queues]
    exact fun queue => mem_singleton.mp
  obtain ⟨awaits,readable,complete⟩ := observeQueue_spec tracks.awaitable mem (tracks.awaits _ mem) io event
  unfold handleComputeFlag
  rw [show before.pending Queue.compute = before.computePending from rfl] at awaits readable complete
  generalize observeQueue io event before.config .compute before.computePending = observation at awaits readable complete
  obtain ⟨could,pending⟩ := observation
  cases could with
  | false =>
    dsimp only
    refine handles_failure ?_ ?_ .faulted (by decide) _ _ (.inr ⟨.compute,mem,fun reached => by cases readable reached⟩)
    · rfl
    exact tracks.fence
  | true =>
  dsimp only
  refine handles_observed tracks decoded ?_ ?_ ?_ ?_ ?_ ?_
  · rfl
  · rfl
  · intro queue inside
    obtain rfl := only queue inside
    exact awaits
  · intro queue inside
    obtain rfl := only queue inside
    exact complete rfl
  · exact .inl ⟨phase,queues,terminal⟩
  constructor
  · rintro ⟨finished,_⟩ queue inside
    obtain rfl := only queue inside
    exact finished
  exact fun every => ⟨every _ mem,terminal⟩

private theorem handleRenderFlag_handles (phase : before.phase = .submitted)
    (queues : job.queues = if before.computeInRender then [.d3,.ta,.compute] else [.d3,.ta]) :
    Handles io message before job since (handleRenderFlag io event before) := by
  have d3Member : Queue.d3 ∈ job.queues := by
    rw [queues]
    split_ifs <;> simp
  have taMember : Queue.ta ∈ job.queues := by
    rw [queues]
    split_ifs <;> simp
  have computeMember : Queue.compute ∈ job.queues ↔ before.computeInRender = true := by
    rw [queues]
    split_ifs with within <;> simp [within]
  obtain ⟨d3Awaits,d3Readable,d3Complete⟩ := observeQueue_spec tracks.awaitable d3Member (tracks.awaits _ d3Member) io event
  obtain ⟨taAwaits,taReadable,taComplete⟩ := observeQueue_spec tracks.awaitable taMember (tracks.awaits _ taMember) io event
  unfold handleRenderFlag
  rw [show before.pending Queue.d3 = before.d3Pending from rfl] at d3Awaits d3Readable d3Complete
  rw [show before.pending Queue.ta = before.taPending from rfl] at taAwaits taReadable taComplete
  generalize observeQueue io event before.config .d3 before.d3Pending = d3Observation at d3Awaits d3Readable d3Complete
  obtain ⟨could,d3⟩ := d3Observation
  cases could with
  | false =>
    dsimp only
    refine handles_failure ?_ ?_ .faulted (by decide) _ _ (.inr ⟨.d3,d3Member,fun reached => by cases d3Readable reached⟩)
    · rfl
    exact tracks.fence
  | true =>
  dsimp only
  rw [if_neg (by decide)]
  generalize observeQueue io event before.config .ta before.taPending = taObservation at taAwaits taReadable taComplete
  obtain ⟨could,ta⟩ := taObservation
  cases could with
  | false =>
    dsimp only
    refine handles_failure ?_ ?_ .faulted (by decide) _ _ (.inr ⟨.ta,taMember,fun reached => by cases taReadable reached⟩)
    · rfl
    exact tracks.fence
  | true =>
  dsimp only
  rw [if_neg (by decide)]
  -- the compute queue is observed only where the job waits for it
  have third : ∀ observation : Bool × Pending, observation = (if before.computeInRender
      then observeQueue io event before.config .compute before.computePending else (true,before.computePending)) →
      (Queue.compute ∈ job.queues → Awaits before.config job .compute observation.2 ∧
        (Reached before.config job .compute io → observation.1 = true) ∧
        (observation.1 = true → (observation.2.complete = true ↔ (before.pending .compute).complete = true ∨
          (eventHasNumber event (before.config.binding .compute).eventNumber = true ∧ Reached before.config job .compute io)))) ∧
      (Queue.compute ∉ job.queues → observation.1 = true) := by
    rintro observation rfl
    refine ⟨fun inside => ?_,fun outside => ?_⟩
    · rw [if_pos (computeMember.mp inside)]
      exact observeQueue_spec tracks.awaitable inside (tracks.awaits _ inside) io event
    rw [if_neg (fun within => outside (computeMember.mpr within))]
  generalize isThird : (if before.computeInRender = true then observeQueue io event before.config .compute before.computePending
    else (true,before.computePending)) = observation
  obtain ⟨inJob,notInJob⟩ := third observation isThird.symm
  obtain ⟨could,compute⟩ := observation
  cases could with
  | false =>
    have inside : Queue.compute ∈ job.queues := by
      by_contra outside
      cases notInJob outside
    dsimp only
    refine handles_failure ?_ ?_ .faulted (by decide) _ _
      (.inr ⟨.compute,inside,fun reached => by cases (inJob inside).2.1 reached⟩)
    · rfl
    exact tracks.fence
  | true =>
  dsimp only
  refine handles_observed tracks decoded ?_ ?_ ?_ ?_ ?_ ?_
  · rfl
  · rfl
  · intro queue inside
    cases queue with
    | d3 => exact d3Awaits
    | ta => exact taAwaits
    | compute => exact (inJob inside).1
  · intro queue inside
    cases queue with
    | d3 => exact d3Complete rfl
    | ta => exact taComplete rfl
    | compute => exact (inJob inside).2.2 rfl
  · exact .inr ⟨phase,queues⟩
  constructor
  · rintro ⟨d3Finished,taFinished,computeFinished⟩ queue inside
    cases queue with
    | d3 => exact d3Finished
    | ta => exact taFinished
    | compute => exact computeFinished.resolve_left (not_not.mpr (computeMember.mp inside))
  intro every
  refine ⟨every .d3 d3Member,every .ta taMember,?_⟩
  by_cases within : before.computeInRender = true
  · exact .inr (every .compute (computeMember.mpr within))
  exact .inl within

end

theorem Tracks.awaitsEvents (tracks : Tracks before job since) : ¬ (before.phase ≠ .submitted ∧ before.phase ≠ .computeSubmitted) := by
  rcases tracks.kind with ⟨phase,_⟩ | ⟨phase,_⟩
  · exact fun wrong => wrong.2 phase
  exact fun wrong => wrong.1 phase

theorem handleEvent_handles (io : Io) (message : List Byte) (tracks : Tracks before job since) :
    Handles io message before job since (queueRuntimeHandleEvent io message before) := by
  unfold queueRuntimeHandleEvent
  rw [if_neg tracks.awaitsEvents]
  cases decoded : decodeEvent message with
  | none =>
    refine .waits rfl (tracks.idle (fun queue fires => ?_))
    obtain ⟨event,decoded',_⟩ := fires
    rw [decoded] at decoded'
    cases decoded'
  | some event =>
  dsimp only
  split
  · rename_i fault
    exact handleFault_handles tracks decoded fault
  by_cases flag : event.kind = eventFlag
  · rw [if_neg (not_not.mpr flag)]
    rcases tracks.kind with ⟨phase,queues,terminal⟩ | ⟨phase,queues⟩
    · rw [if_pos phase]
      exact handleComputeFlag_handles tracks decoded queues phase terminal
    rw [if_neg (by rw [phase]; decide)]
    exact handleRenderFlag_handles tracks decoded phase queues
  rw [if_pos flag]
  refine .waits rfl (tracks.idle (fun queue fires => ?_))
  obtain ⟨event',decoded',isFlag⟩ := fires_flag fires
  rw [decoded] at decoded'
  cases decoded'
  exact flag isFlag

end

end WindowsOnM1.QueueRuntimeSteps
