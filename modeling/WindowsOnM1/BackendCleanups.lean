import WindowsOnM1.BackendFirmware

/-!
What a rollback of the firmware leaves: each cleanup clears its step or stays owed, and all
that was tried is kept.
-/
namespace WindowsOnM1.BackendCleanups
open Actions BackendFirmware List
open Bool hiding not_not not_or

theorem isZero_iff (mask : Mask) : isZero mask = true ↔ ∀ step, mask step = false := by
  simp only [isZero,all_eq_true,not_eq_true']
  refine ⟨fun all step => all step ?_,fun zero step _ => zero step⟩
  cases step <;> decide

def Passes (host left : FirmwareHost) : Prop := left.firmware = host.firmware ∧ left.cleanups = host.cleanups

variable (io : FirmwareIo)

theorem finishOperation_passes (startMs deadlineMs : U64) (transportResult : Bool) (host : FirmwareHost) :
    Gives (finishOperation io startMs deadlineMs transportResult) host (fun _ left => Passes host left) := by
  unfold finishOperation
  simp only [gives_bind,gives_ask,gives_ite,gives_pure]
  exact ⟨fun _ => ⟨rfl,rfl⟩,fun _ => ⟨fun _ => ⟨rfl,rfl⟩,fun _ => ⟨fun _ => ⟨rfl,rfl⟩,fun _ => ⟨rfl,rfl⟩⟩⟩⟩

variable (timeoutMs : U64) (callback : Nat → U64 → Bool)

theorem operation_passes (host : FirmwareHost) :
    Gives (operation io timeoutMs callback) host (fun _ left => Passes host left) := by
  unfold operation beginDeadline
  simp only [gives_bind,gives_ask,gives_ite,gives_pure]
  exact ⟨fun _ => ⟨rfl,rfl⟩,fun _ => finishOperation_passes io _ _ _ _⟩

/-- The steps that a cleanup is owed for. -/
def owed (host : FirmwareHost) (step : FirmwareStep) : Bool := host.firmware.completedMask step || host.firmware.cleanupMask step

/-- The cleanups of some steps, of which those in `done` succeeded. -/
structure Cleaned (steps : List FirmwareStep) (done : Mask) (host left : FirmwareHost) : Prop where
  completed : ∀ step, left.firmware.completedMask step =
    (host.firmware.completedMask step && !(decide (step ∈ steps) && done step))
  cleanup : ∀ step, left.firmware.cleanupMask step =
    (host.firmware.cleanupMask step && !(decide (step ∈ steps) && done step))
  cleanups : left.cleanups =
    host.cleanups ++ (steps.filter (owed host)).map (fun step => ⟨step,host.firmware.completedMask step,done step⟩)

variable (step : FirmwareStep)

theorem cleanup_cleaned (callback : Nat → U64 → Bool) (host : FirmwareHost) :
    Gives (cleanup io step callback) host (fun failed left => ∃ done : Bool, Cleaned [step] (fun _ => done) host left ∧
      failed = (owed host step && !done)) := by
  unfold cleanup
  rw [gives_bind,gives_get,gives_ite]
  refine ⟨fun isOwed => ?_,fun notOwed => ?_⟩
  · have owes : owed host step = true := by
      rw [owed,or_eq_true]
      exact isOwed
    refine (operation_passes io stopTimeoutMs callback host).bind (fun result left passes => ?_)
    simp only [gives_bind,gives_changeFirmware,gives_modify,gives_pure]
    refine ⟨decide (result = .ok),⟨fun other => ?_,fun other => ?_,?_⟩,?_⟩
    · rw [← passes.1]
      by_cases ok : result = .ok
      · by_cases here : other = step <;> simp [ok,setStep,here]
      by_cases overflow : result = .deadlineOverflow <;> simp [ok,overflow]
    · rw [← passes.1]
      by_cases ok : result = .ok
      · by_cases here : other = step <;> simp [ok,setStep,here]
      by_cases overflow : result = .deadlineOverflow <;> simp [ok,overflow]
    · simp [passes.2,owes]
    simp [owes]
  have free : owed host step = false := by
    rw [owed,or_eq_false_iff]
    simpa using notOwed
  rw [gives_pure]
  refine ⟨true,⟨fun other => ?_,fun other => ?_,?_⟩,?_⟩
  · by_cases here : other = step
    · have : host.firmware.completedMask step = false := (or_eq_false_iff.mp free).1
      simp [here,this]
    simp [here]
  · by_cases here : other = step
    · have : host.firmware.cleanupMask step = false := (or_eq_false_iff.mp free).2
      simp [here,this]
    simp [here]
  · simp [free]
  simp [free]

theorem Cleaned.append {first second : List FirmwareStep} {done done' : Mask} {host middle left : FirmwareHost}
    (apart : ∀ step ∈ second, step ∉ first) (before : Cleaned first done host middle) (after : Cleaned second done' middle left) :
    Cleaned (first ++ second) (fun step => if step ∈ first then done step else done' step) host left := by
  have same : ∀ step ∈ second, middle.firmware.completedMask step = host.firmware.completedMask step ∧
      middle.firmware.cleanupMask step = host.firmware.cleanupMask step := by
    intro step mem
    rw [before.completed,before.cleanup]
    simp [apart step mem]
  refine ⟨fun step => ?_,fun step => ?_,?_⟩
  · rw [after.completed,before.completed]
    by_cases inFirst : step ∈ first
    · have : step ∉ second := fun mem => apart step mem inFirst
      simp [inFirst,this]
    simp [inFirst]
  · rw [after.cleanup,before.cleanup]
    by_cases inFirst : step ∈ first
    · have : step ∉ second := fun mem => apart step mem inFirst
      simp [inFirst,this]
    simp [inFirst]
  have firstPart : (first.filter (owed host)).map (fun step =>
      (⟨step,host.firmware.completedMask step,if step ∈ first then done step else done' step⟩ : Cleanup)) =
      (first.filter (owed host)).map (fun step => ⟨step,host.firmware.completedMask step,done step⟩) := by
    refine map_congr_left (fun step mem => ?_)
    rw [if_pos (mem_filter.mp mem).1]
  have secondPart : (second.filter (owed host)).map (fun step =>
      (⟨step,host.firmware.completedMask step,if step ∈ first then done step else done' step⟩ : Cleanup)) =
      (second.filter (owed middle)).map (fun step => ⟨step,middle.firmware.completedMask step,done' step⟩) := by
    have filters : second.filter (owed host) = second.filter (owed middle) := by
      refine filter_congr (fun step mem => ?_)
      rw [owed,owed,(same step mem).1,(same step mem).2]
    rw [filters]
    refine map_congr_left (fun step mem => ?_)
    have inSecond := (mem_filter.mp mem).1
    rw [if_neg (apart step inSecond),(same step inSecond).1]
  rw [after.cleanups,before.cleanups,filter_append,map_append,firstPart,secondPart,append_assoc]

/-- The masks and the cleanups are all that counts. -/
structure Alike (host other : FirmwareHost) : Prop where
  completed : host.firmware.completedMask = other.firmware.completedMask
  cleanup : host.firmware.cleanupMask = other.firmware.cleanupMask
  cleanups : host.cleanups = other.cleanups

variable {steps : List FirmwareStep} {done : Mask} {host : FirmwareHost}

theorem Cleaned.alike {host' left left' : FirmwareHost}
    (cleaned : Cleaned steps done host left) (before : Alike host host') (after : Alike left left') :
    Cleaned steps done host' left' := by
  have same : owed host = owed host' := by
    funext step
    rw [owed,owed,before.completed,before.cleanup]
  refine ⟨fun step => ?_,fun step => ?_,?_⟩
  · rw [← after.completed,← before.completed]
    exact cleaned.completed step
  · rw [← after.cleanup,← before.cleanup]
    exact cleaned.cleanup step
  rw [← after.cleanups,← before.cleanups,← before.completed,← same]
  exact cleaned.cleanups

theorem Cleaned.owed {left : FirmwareHost} (cleaned : Cleaned steps done host left)
    {step : FirmwareStep} (absent : step ∉ steps) : owed left step = owed host step := by
  rw [BackendCleanups.owed,BackendCleanups.owed,cleaned.completed,cleaned.cleanup,decide_eq_false absent]
  simp

private theorem cleanupAll_cleaned (list : List (FirmwareStep × (Nat → U64 → Bool))) (nodup : (list.map Prod.fst).Nodup)
    (host : FirmwareHost) : Gives (cleanupAll io list) host (fun failed left => ∃ done, Cleaned (list.map Prod.fst) done host left ∧
      (failed = true → ∃ step ∈ list.map Prod.fst, owed host step = true ∧ done step = false)) := by
  induction list generalizing host with
  | nil =>
    unfold cleanupAll
    rw [gives_pure]
    refine ⟨noSteps,⟨fun step => ?_,fun step => ?_,?_⟩,nofun⟩ <;> simp
  | cons first rest ih =>
  obtain ⟨step,callback⟩ := first
  rw [map_cons,nodup_cons] at nodup
  refine (cleanup_cleaned io step callback host).bind (fun failed middle here => ?_)
  obtain ⟨done,cleaned,isFailed⟩ := here
  refine (ih nodup.2 middle).bind (fun failed' left there => ?_)
  obtain ⟨done',cleaned',fails'⟩ := there
  have apart : ∀ other ∈ rest.map Prod.fst, other ∉ [step] := by
    intro other mem
    rw [mem_singleton]
    rintro rfl
    exact nodup.1 mem
  refine ⟨_,Cleaned.append apart cleaned cleaned',fun fails => ?_⟩
  rcases or_eq_true_iff.mp fails with fails | fails
  · rw [isFailed,and_eq_true,not_eq_true'] at fails
    exact ⟨step,mem_cons_self,fails.1,by simpa using fails.2⟩
  obtain ⟨other,mem,owes,notDone⟩ := fails' fails
  rw [cleaned.owed (apart other mem)] at owes
  exact ⟨other,mem_cons_of_mem _ mem,owes,by rw [if_neg (apart other mem)]; exact notDone⟩

def rollbackOrder : List FirmwareStep :=
  [.initdataPublished,.doorbellEndpoint,.endpoint,.ascRunning,.uatReady,.powered]

/-- The steps that only observe need no cleanup. -/
def forgetObservations (host : FirmwareHost) : FirmwareHost := { host with firmware := { host.firmware with
  completedMask := fun step => host.firmware.completedMask step && !observationBits step } }

/-- Only the boot owes a cleanup without having been completed. -/
def OnlyBoot (host : FirmwareHost) : Prop := ∀ step, step ≠ .ascRunning → host.firmware.cleanupMask step = false
def AllZero (host : FirmwareHost) : Prop :=
  ∀ step, host.firmware.completedMask step = false ∧ host.firmware.cleanupMask step = false

/-- A rollback that has cleaned up all that was owed succeeds, and it leaves nothing. -/
structure RolledBack (host left : FirmwareHost) (result : FirmwareResult) : Prop where
  cleaned : ∃ done, Cleaned rollbackOrder done (forgetObservations host) left ∧
    ((∀ step ∈ rollbackOrder, owed (forgetObservations host) step = true → done step = true) → result = .ok)
  ok : result = .ok → AllZero left ∧ left.firmware.phase = .stopped

theorem Alike.forget {host' : FirmwareHost} (alike : Alike host host') :
    Alike (forgetObservations host) (forgetObservations host') where
  completed := by
    unfold forgetObservations
    rw [alike.completed]
  cleanup := alike.cleanup
  cleanups := alike.cleanups

variable {result : FirmwareResult}

theorem RolledBack.alike {host' left left' : FirmwareHost}
    (rolledBack : RolledBack host left result) (before : Alike host host') (firmware : left'.firmware = left.firmware)
    (cleanups : left'.cleanups = left.cleanups) : RolledBack host' left' result := by
  obtain ⟨done,cleaned,succeeds⟩ := rolledBack.cleaned
  have after : Alike left left' := ⟨by rw [firmware],by rw [firmware],cleanups.symm⟩
  have same : owed (forgetObservations host') = owed (forgetObservations host) := by
    funext step
    rw [owed,owed,before.forget.completed,before.forget.cleanup]
  refine ⟨⟨done,cleaned.alike before.forget after,?_⟩,fun ok => ?_⟩
  · rw [same]
    exact succeeds
  rw [AllZero,firmware]
  exact rolledBack.ok ok

theorem allZero_iff (host : FirmwareHost) :
    AllZero host ↔ isZero host.firmware.completedMask = true ∧ isZero host.firmware.cleanupMask = true := by
  rw [isZero_iff,isZero_iff]
  exact forall_and
theorem mem_rollbackOrder : step ∈ rollbackOrder ∨ observationBits step = true := by
  cases step <;> decide

theorem Cleaned.allZero {left : FirmwareHost} (cleaned : Cleaned rollbackOrder done (forgetObservations host) left)
    (onlyBoot : OnlyBoot host)
    (all : ∀ step ∈ rollbackOrder, BackendCleanups.owed (forgetObservations host) step = true → done step = true) : AllZero left := by
  have clears : ∀ step, BackendCleanups.owed (forgetObservations host) step = true →
      (decide (step ∈ rollbackOrder) && done step) = true := by
    intro step owes
    have mem : step ∈ rollbackOrder := by
      rcases mem_rollbackOrder step with mem | observes
      · exact mem
      have notBoot : step ≠ .ascRunning := by
        rintro rfl
        exact absurd observes (by decide)
      simp [BackendCleanups.owed,forgetObservations,observes,onlyBoot step notBoot] at owes
    rw [decide_eq_true mem,Bool.true_and]
    exact all step mem owes
  intro step
  rw [cleaned.completed,cleaned.cleanup]
  by_cases owes : BackendCleanups.owed (forgetObservations host) step = true
  · rw [clears step owes]
    simp
  have free := or_eq_false_iff.mp (eq_false_iff.mpr owes)
  rw [free.1,free.2]
  simp

theorem firmwareRollback_spec (onlyBoot : OnlyBoot host) :
    Gives (firmwareRollback io) host (fun result left => RolledBack host left result) := by
  unfold firmwareRollback
  rw [gives_bind,gives_get,gives_ite,gives_ite]
  refine ⟨fun invalid => ?_,fun _ => ⟨fun clean => ?_,fun _ => ?_⟩⟩
  · refine absurd ((isZero_iff _).mpr (fun step => ?_)) invalid
    by_cases boot : step = .ascRunning
    · rw [setStep,if_pos boot]
    rw [setStep,if_neg boot]
    exact onlyBoot step boot
  · simp only [gives_bind,gives_changeFirmware,gives_pure]
    have zero : AllZero host := (allZero_iff host).mpr clean
    refine ⟨⟨noSteps,⟨fun step => ?_,fun step => ?_,?_⟩,fun _ => rfl⟩,fun _ => ⟨zero,rfl⟩⟩
    · simp [forgetObservations,zero step]
    · simp [forgetObservations,zero step]
    have free : ∀ step, owed (forgetObservations host) step = false := fun step => by
      simp [owed,forgetObservations,zero step]
    rw [filter_eq_nil_iff.mpr (fun step _ => eq_false_iff.mp (free step)),map_nil,append_nil]
    rfl
  simp only [gives_bind,gives_changeFirmware]
  refine (cleanup_cleaned io _ _ _).mono (fun failed middle here => ?_)
  obtain ⟨done,cleaned,isFailed⟩ := here
  refine (cleanupAll_cleaned io (cleanupOrder io) (by simp [cleanupOrder]) _).mono (fun failed' left there => ?_)
  obtain ⟨done',cleaned',fails'⟩ := there
  have published : Alike middle { middle with firmware := if middle.firmware.completedMask .initdataPublished then
      middle.firmware else { middle.firmware with initdataAddress := 0 } } := by
    split
    all_goals exact ⟨rfl,rfl,rfl⟩
  have first : Cleaned [.initdataPublished] (fun _ => done) (forgetObservations host) _ :=
    cleaned.alike ⟨rfl,rfl,rfl⟩ published
  have apart : ∀ step ∈ (cleanupOrder io).map Prod.fst, step ∉ [FirmwareStep.initdataPublished] := by
    simp [cleanupOrder]
  have whole := Cleaned.append apart first cleaned'
  simp only [gives_get,gives_ite,gives_bind,gives_changeFirmware,gives_pure]
  refine ⟨fun failure => ⟨⟨_,whole.alike ⟨rfl,rfl,rfl⟩ ⟨rfl,rfl,rfl⟩,fun all => ?_⟩,nofun⟩,
    fun success => ⟨⟨_,whole.alike ⟨rfl,rfl,rfl⟩ ⟨rfl,rfl,rfl⟩,fun _ => rfl⟩,fun _ => ?_⟩⟩
  · exfalso
    have zero := (allZero_iff left).mp (whole.allZero onlyBoot all)
    rcases failure with fails | fails | left' | left'
    · have first := all .initdataPublished (by decide)
      rw [isFailed,and_eq_true,not_eq_true'] at fails
      exact absurd ((first fails.1).symm.trans fails.2) true_eq_false_eq_False
    · obtain ⟨step,mem,owes,notDone⟩ := fails' fails
      rw [first.owed (apart step mem)] at owes
      have isDone := all step (mem_cons_of_mem _ mem) owes
      rw [if_neg (apart step mem)] at isDone
      exact absurd (isDone.symm.trans notDone) true_eq_false_eq_False
    · exact left' zero.1
    exact left' zero.2
  simp only [not_or,not_not] at success
  exact ⟨(allZero_iff left).mpr success.2.2,rfl⟩

/-- A boot that owes its cleanup was completed, or it is the first step that was not. -/
def BootsLast (completed cleanup : Mask) : Prop :=
  cleanup .ascRunning = true → completed .ascRunning = true ∨
    completed = setStep (setStep noSteps .powered true) .uatReady true

/-- How far a start has come; nothing had to be cleaned up. -/
structure AtStage (completed cleanup : Mask) (start host : FirmwareHost) : Prop where
  completed : host.firmware.completedMask = completed
  cleanup : host.firmware.cleanupMask = cleanup
  cleanups : host.cleanups = start.cleanups

/-- A start succeeds without a cleanup, or it ends with a rollback. -/
structure StartEnds (start left : FirmwareHost) (result : FirmwareResult) : Prop where
  onlyBoot : OnlyBoot left
  ok : result = .ok → left.cleanups = start.cleanups ∧ left.firmware.completedMask .powered = true
  failed : result ≠ .ok → ∃ host completed cleanup rollback, AtStage completed cleanup start host ∧
    BootsLast completed cleanup ∧ OnlyBoot host ∧ RolledBack host left rollback

theorem RolledBack.onlyBoot {left : FirmwareHost} (rolledBack : RolledBack host left result)
    (onlyBoot : OnlyBoot host) : OnlyBoot left := by
  obtain ⟨done,cleaned,-⟩ := rolledBack.cleaned
  intro step other
  rw [cleaned.cleanup]
  simp [forgetObservations,onlyBoot step other]

variable {start : FirmwareHost}

private theorem abortStart_ends {completed cleanup : Mask}
    (stage : AtStage completed cleanup start host) (boots : BootsLast completed cleanup) (onlyBoot : OnlyBoot host)
    {failure : FirmwareResult} (failed : failure ≠ .ok) :
    Gives (abortStart io failure) host (fun result left => StartEnds start left result) := by
  unfold abortStart
  rw [gives_bind,gives_changeFirmware]
  have stage' : AtStage completed cleanup start { host with firmware := firmwareFail failure host.firmware } :=
    { stage with }
  have onlyBoot' : OnlyBoot { host with firmware := firmwareFail failure host.firmware } := onlyBoot
  refine (firmwareRollback_spec io onlyBoot').bind (fun rollback left rolledBack => ?_)
  rw [gives_ite]
  refine ⟨fun notOk => ⟨rolledBack.onlyBoot onlyBoot',fun ok => absurd ok notOk,fun _ => ?_⟩,fun _ => ?_⟩
  · exact ⟨_,completed,cleanup,rollback,stage',boots,onlyBoot',rolledBack⟩
  refine ⟨rolledBack.onlyBoot onlyBoot',fun ok => absurd ok failed,fun _ => ?_⟩
  obtain ⟨done,cleaned,succeeds⟩ := rolledBack.cleaned
  exact ⟨_,completed,cleanup,rollback,stage',boots,onlyBoot',
    ⟨⟨done,cleaned.alike ⟨rfl,rfl,rfl⟩ ⟨rfl,rfl,rfl⟩,succeeds⟩,rolledBack.ok⟩⟩

/-- The rest of a start from a stage on. -/
abbrev Continues (rest : FirmwareAction FirmwareResult) (completed cleanup : Mask) (start : FirmwareHost) : Prop :=
  ∀ host, AtStage completed cleanup start host → Gives rest host (fun result left => StartEnds start left result)
theorem AtStage.onlyBoot {completed cleanup : Mask} (stage : AtStage completed cleanup start host)
    (only : ∀ step, step ≠ .ascRunning → cleanup step = false) : OnlyBoot host := fun step other => by
  rw [stage.cleanup]
  exact only step other

variable {completed cleanup : Mask} {start : FirmwareHost}

variable {rest : FirmwareAction FirmwareResult}

variable (phase : FirmwarePhase)

theorem finishStep_ends (step : FirmwareStep) (result : FirmwareResult)
    (only : ∀ step, step ≠ .ascRunning → cleanup step = false)
    (boots : BootsLast completed cleanup) (continues : Continues rest (setStep completed step true) cleanup start) :
    Continues (finishStep io phase step result rest) completed cleanup start := by
  intro host stage
  unfold finishStep
  rw [gives_ite]
  refine ⟨fun failed => abortStart_ends io stage boots (stage.onlyBoot only) failed,fun _ => ?_⟩
  refine continues _ ⟨?_,stage.cleanup,stage.cleanups⟩
  rw [← stage.completed]

theorem startStep_ends (step : FirmwareStep) (only : ∀ step, step ≠ .ascRunning → cleanup step = false)
    (boots : BootsLast completed cleanup) (continues : Continues rest (setStep completed step true) cleanup start) :
    Continues (startStep io timeoutMs callback phase step rest) completed cleanup start := by
  intro host stage
  refine (operation_passes io timeoutMs callback host).bind (fun result left passes => ?_)
  refine finishStep_ends io phase step result only boots continues left ⟨?_,?_,passes.2.trans stage.cleanups⟩
  · rw [passes.1]
    exact stage.completed
  rw [passes.1]
  exact stage.cleanup

private theorem publishOperation_keeps (host : FirmwareHost) :
    Gives (publishOperation io) host (fun _ left => Alike left host) := by
  unfold publishOperation beginDeadline
  simp only [gives_bind,gives_ask,gives_ite,gives_pure,gives_changeFirmware]
  refine ⟨fun _ => ⟨rfl,rfl,rfl⟩,fun _ => ?_⟩
  refine (finishOperation_passes io _ _ _ _).mono (fun result left passes => ?_)
  have alike : Alike left host := by
    refine ⟨?_,?_,passes.2⟩
    · rw [passes.1]
    rw [passes.1]
  exact ⟨fun _ => alike,fun _ => alike⟩

private theorem sendOperation_keeps (host : FirmwareHost) : Gives (sendOperation io) host (fun _ left => Alike left host) := by
  unfold sendOperation
  rw [gives_bind,gives_get]
  refine (operation_passes io _ _ host).mono (fun _ left passes => ?_)
  refine ⟨?_,?_,passes.2⟩
  · rw [passes.1]
  rw [passes.1]

theorem AtStage.alike {left : FirmwareHost} (stage : AtStage completed cleanup start host) (alike : Alike left host) :
    AtStage completed cleanup start left :=
  ⟨alike.completed.trans stage.completed,alike.cleanup.trans stage.cleanup,alike.cleanups.trans stage.cleanups⟩
theorem bootsLast_of_none (completed : Mask) : BootsLast completed noSteps := nofun
theorem bootsLast_of_completed {completed : Mask} (boots : completed .ascRunning = true) (cleanup : Mask) :
    BootsLast completed cleanup := fun _ => .inl boots

theorem firmwareStart_ends (host : FirmwareHost) (fresh : host.firmware = firmwareInitialize) :
    Gives (firmwareStart io) host (fun result left => StartEnds host left result) := by
  have completed : host.firmware.completedMask = noSteps := by rw [fresh]; rfl
  have cleanup : host.firmware.cleanupMask = noSteps := by rw [fresh]; rfl
  unfold firmwareStart
  rw [gives_bind,gives_get,gives_ite]
  refine ⟨fun invalid => ?_,fun _ => ?_⟩
  · rw [fresh] at invalid
    exact absurd invalid (by decide)
  have none : ∀ step, step ≠ .ascRunning → noSteps step = false := fun _ _ => rfl
  have only : ∀ step, step ≠ .ascRunning → setStep noSteps .ascRunning true step = false := fun step other => by
    rw [setStep,if_neg other]
    rfl
  refine startStep_ends io _ _ _ _ none (bootsLast_of_none _) ?_ _ ⟨completed,cleanup,rfl⟩
  refine startStep_ends io _ _ _ _ none (bootsLast_of_none _) (fun host stage => ?_)
  have owes : AtStage _ (setStep noSteps .ascRunning true) _ { host with firmware := { host.firmware with
      cleanupMask := setStep host.firmware.cleanupMask .ascRunning true } } :=
    ⟨stage.completed,by rw [stage.cleanup],stage.cleanups⟩
  refine startStep_ends io _ _ _ _ only (fun _ => .inr rfl) ?_ _ owes
  refine startStep_ends io _ _ _ _ only (bootsLast_of_completed rfl _) ?_
  refine startStep_ends io _ _ _ _ only (bootsLast_of_completed rfl _) (fun host stage => ?_)
  refine (publishOperation_keeps io host).bind (fun published left alike => ?_)
  refine finishStep_ends io _ _ _ only (bootsLast_of_completed rfl _) (fun host stage => ?_) _ (stage.alike alike)
  refine (sendOperation_keeps io host).bind (fun sent left alike => ?_)
  refine finishStep_ends io _ _ _ only (bootsLast_of_completed rfl _) ?_ _ (stage.alike alike)
  refine startStep_ends io _ _ _ _ only (bootsLast_of_completed rfl _) ?_
  refine startStep_ends io _ _ _ _ only (bootsLast_of_completed rfl _) (fun host stage => ?_)
  have powered : host.firmware.completedMask .powered = true := by
    rw [stage.completed]
    rfl
  exact ⟨stage.onlyBoot only,fun _ => ⟨stage.cleanups,powered⟩,fun failed => absurd rfl failed⟩

end WindowsOnM1.BackendCleanups
