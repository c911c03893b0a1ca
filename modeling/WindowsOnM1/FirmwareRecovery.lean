import WindowsOnM1.FirmwareSafety
import WindowsOnM1.BackendCleanups

/-!
Bringing up the firmware can be undone. The coordinator and the provider record the same
resources separately; `Balanced` says how the two records have to agree. A callback that
the provider refuses once it has gone through, and that went through too late for the
coordinator, parts them for good, and so does a stop of the coprocessor while an endpoint
is still to be stopped. In a run without such events every rollback that meets no failure
ends where the run began.
-/
namespace WindowsOnM1.FirmwareRecovery
open Attempts FirmwareProvider FirmwareSafety List
open BackendCleanups (isZero_iff)
open BackendFirmware (U32 U64 FirmwareStep Mask noSteps isZero setStep FirmwarePhase FirmwareResult Firmware
  firmwareFail observationBits ascBootTimeoutMs stopTimeoutMs firmwareEndpoint doorbellEndpoint)
open BitVec (not_lt)
open Prod (fst)

/-- What has happened since a world was good. -/
def Since (good : Event → Prop) (world left : World) : Prop :=
  ∃ later, left.history = later ++ world.history ∧ ∀ event ∈ later, good event
def Grown (world left : World) : Prop := world.history <:+ left.history

namespace Since

variable {good : Event → Prop} {first second third : World}

theorem refl (world : World) : Since good world world := ⟨[],rfl,by simp⟩
theorem of_eq (same : second.history = first.history) : Since good first second := ⟨[],same,by simp⟩
theorem grown (since : Since good first second) : Grown first second := by
  obtain ⟨later,grown,_⟩ := since
  exact ⟨later,grown.symm⟩

theorem trans (before : Since good first second) (after : Since good second third) : Since good first third := by
  obtain ⟨later,grown,fine⟩ := before
  obtain ⟨later',grown',fine'⟩ := after
  refine ⟨later' ++ later,by rw [grown',grown,append_assoc],?_⟩
  intro event mem
  rcases mem_append.mp mem with mem | mem
  · exact fine' event mem
  exact fine event mem

theorem event {event : Event} (history : second.history = event :: first.history) (fine : good event) :
    Since good first second := ⟨[event],history,by simpa using fine⟩

theorem split (before : Grown first second) (after : Grown second third) (since : Since good first third) :
    Since good first second ∧ Since good second third := by
  obtain ⟨later,grown⟩ := before
  obtain ⟨later',grown'⟩ := after
  obtain ⟨whole,grown'',fine⟩ := since
  have parts : whole = later' ++ later := by
    refine (append_left_inj first.history).mp ?_
    rw [← grown'',← grown',← grown,append_assoc]
  subst parts
  exact ⟨⟨later,grown.symm,fun event mem => fine event (mem_append.mpr (.inr mem))⟩,
    later',grown'.symm,fun event mem => fine event (mem_append.mpr (.inl mem))⟩

theorem of_quietly (implies : ∀ event, Quiet event → good event) (quiet : Quietly first second) : Since good first second := by
  obtain ⟨later,grown,calm⟩ := quiet.history
  exact ⟨later,grown,fun event mem => implies event (calm event mem)⟩

end Since

theorem Grown.trans {first second third : World} (before : Grown first second) (after : Grown second third) :
    Grown first third := List.IsSuffix.trans before after
theorem Grown.of_quietly {first second : World} (quiet : Quietly first second) : Grown first second := by
  obtain ⟨later,grown,_⟩ := quiet.history
  exact ⟨later,grown.symm⟩

/-- A primitive or an access that goes through, the firmware's flag down, and a clock that stays before its deadline. -/
def Smooth : Event → Prop
  | .called _ _ _ answer => answer = true
  | .created _ answer _ _ => answer = true
  | .read _ offset value => if offset = lockFwOffset then value = some 0 else value.isSome
  | .wrote _ _ _ answer => answer = true
  | .checked deadlineMs nowMs => nowMs ≤ deadlineMs
  | .recorded .. => True
  | .overflowed .. => False
  | .finished _ startMs deadlineMs endMs _ => startMs ≤ endMs ∧ endMs ≤ deadlineMs

/-- What holds as long as nothing has failed since a world. -/
def Smoothly (claim : Prop) (world left : World) : Prop := Grown world left ∧ (Since Smooth world left → claim)

namespace Smoothly

variable {claim claim' : Prop} {first second third : World}

theorem now (same : second.history = first.history) (holds : claim) : Smoothly claim first second :=
  ⟨⟨[],same.symm⟩,fun _ => holds⟩

theorem event {event : Event} (history : second.history = event :: first.history) : Smoothly (Smooth event) first second := by
  refine ⟨⟨[event],history.symm⟩,fun since => ?_⟩
  obtain ⟨later,grown,fine⟩ := since
  have one : later = [event] := (append_left_inj first.history).mp (by rw [← grown,history]; rfl)
  subst one
  exact fine event (by simp)

section
variable (before : Smoothly claim first second)
include before

theorem trans (after : Smoothly claim' second third) : Smoothly (claim ∧ claim') first third := by
  refine ⟨before.1.trans after.1,fun since => ?_⟩
  have parts := since.split before.1 after.1
  exact ⟨before.2 parts.1,after.2 parts.2⟩
theorem mono (implies : claim → claim') : Smoothly claim' first second :=
  ⟨before.1,fun since => implies (before.2 since)⟩
theorem failed (fails : ¬ claim) (after : Grown second third) : Smoothly claim' first third :=
  ⟨before.1.trans after,fun since => absurd (before.2 (since.split before.1 after).1) fails⟩

end

end Smoothly

theorem told_smooth (world : World) (turn : Nat) (event : Event) : Smoothly (Smooth event) world (told world turn event) :=
  .event rfl
theorem smooth_free {fw : Option (BitVec 8)} (smooth : Smooth (.read 8 lockFwOffset fw)) : fw = some 0 := by
  simpa [Smooth] using smooth

private theorem acquireLoop_smooth (env : Environment) (start timeout : U64) (rounds : Nat) (world : World)
    (free : world.handoff.locked = false) (flag : lock world.history = .asked) :
    Leaves (acquireLoop env start timeout (rounds + 1)) world (fun answer left => Smoothly (answer = .ok .ok) world left) := by
  refine leaves_read_then (fun turn value => ?_)
  have first := told_smooth world turn (.read 8 lockFwOffset value)
  cases value with
  | none =>
    refine Leaves.mono (acquiring.relinquish env ⟨.refl _,free,flag⟩ (by decide)) ?_
    intro answer left post
    exact first.failed (fun smooth => by cases smooth_free smooth) (.of_quietly post.1.1)
  | some fw =>
  dsimp only
  split
  · rw [leaves_bind]
    simp only [leaves_changeHandoff,Then,leaves_pure]
    exact ⟨first.1,fun _ => trivial⟩
  rename_i down
  refine Leaves.mono (acquiring.contend env start timeout (fun left raised => acquiring.acquireLoop env start timeout rounds raised)
    ⟨.refl _,free,(lock_read_up down).trans flag⟩) ?_
  intro answer left post
  exact first.failed (fun smooth => down (Option.some.inj (smooth_free smooth))) (.of_quietly post.1.1)

private theorem handoffAcquire_smooth (env : Environment) (timeout : U64) (world : World) (bound : world.handoff.bound = true)
    (free : world.handoff.locked = false) :
    Leaves (handoffAcquire env timeout) world (fun answer left => Smoothly (answer = .ok .ok) world left) := by
  refine leaves_current_then ?_
  rw [if_neg (by simp [bound,free])]
  refine leaves_ask_then (fun turn start => leaves_write_then (fun turn' answer => ?_))
  have first := told_smooth world turn' (.wrote 8 lockApOffset 1 answer)
  cases answer with
  | false => exact first.mono nofun
  | true =>
  exact Leaves.mono (acquireLoop_smooth env start timeout env.rounds _ free lock_flag_up)
    (fun _ _ post => (first.trans post).mono And.right)

private theorem acquireHandoff_smooth (env : Environment) (deadline : U64) (world : World) (bound : world.handoff.bound = true)
    (free : world.handoff.locked = false) :
    Leaves (acquireHandoff env deadline) world (fun answer left => Smoothly (answer = .ok true) world left) := by
  refine leaves_asked_then (fun turn now => ?_)
  have first := told_smooth world turn (.checked deadline now)
  split
  · rename_i late
    exact first.mono (fun smooth => absurd late (not_lt.mpr smooth))
  refine Leaves.bind (handoffAcquire_smooth env (deadline - now) _ bound free) ?_ ?_
  · exact fun reason left post => (first.trans post).mono (fun both => by cases both.2)
  exact fun result left post => (first.trans post).mono (fun both => by cases both.2; rfl)

private theorem releaseHandoff_smooth (env : Environment) (world : World) (bound : world.handoff.bound = true)
    (locked : world.handoff.locked = true) :
    Leaves (releaseHandoff env) world (fun answer left => Smoothly (answer = .ok true) world left) := by
  refine (releaseHandoff_releases env world).mono (fun answer left post => ?_)
  obtain ⟨result,releases,isAnswer⟩ := post
  subst isAnswer
  cases releases with
  | refused unusable => exact absurd ⟨bound,locked⟩ unusable
  | turn turn =>
    have first := told_smooth world turn (.wrote 32 turnOffset 1 false)
    exact first.mono nofun
  | flag turn =>
    have first := told_smooth world turn (.wrote 32 turnOffset 1 true)
    have second := told_smooth (told world turn (.wrote 32 turnOffset 1 true)) turn (.wrote 8 lockApOffset 0 false)
    exact (first.trans second).mono (fun both => by cases both.2)
  | released turn => exact ⟨⟨[_,_],rfl⟩,fun _ => rfl⟩

def owes (firmware : Firmware) (step : FirmwareStep) : Bool := firmware.completedMask step || firmware.cleanupMask step

/-- How the coordinator's masks, the provider's state and the lock agree. -/
structure Balanced (firmware : Firmware) (state : ProviderState) (locked : Bool) : Prop where
  initialized : state.initialized = true
  cleanup : ∀ step, firmware.cleanupMask step = true → step = .ascRunning
  powered : firmware.completedMask .powered = state.powered
  uat : firmware.completedMask .uatReady = state.uat
  running : state.asc = true ∨ state.published = true ∨ locked = true → owes firmware .ascRunning = true
  endpoint : firmware.completedMask .endpoint = true → state.fwEndpoint = true
  doorbell : firmware.completedMask .doorbellEndpoint = true → state.doorbellEndpoint = true
  started : state.fwEndpoint = true ∨ state.doorbellEndpoint = true → state.asc = true

/-- The two records of a world agree, and the handoff is the one that was bound. -/
structure Accounted (world : World) : Prop where
  balanced : Balanced world.firmware world.provider.state world.handoff.locked
  bound : world.handoff.bound = true
  known : LockKnown world

variable {firmware : Firmware} {state : ProviderState} {locked : Bool}

theorem Balanced.of_masks {firmware' : Firmware}
    (balanced : Balanced firmware state locked) (completed : firmware'.completedMask = firmware.completedMask)
    (cleanup : firmware'.cleanupMask = firmware.cleanupMask) : Balanced firmware' state locked := by
  obtain ⟨phase,mask,address,result,mask'⟩ := firmware'
  subst completed cleanup
  exact { balanced with }

theorem Balanced.empty (balanced : Balanced firmware state locked)
    (completed : ∀ step, firmware.completedMask step = false) (cleanup : ∀ step, firmware.cleanupMask step = false) :
    state = onlyInitialized ∧ locked = false := by
  have idle : ¬ (state.asc = true ∨ state.published = true ∨ locked = true) := by
    intro busy
    have owed := balanced.running busy
    simp [owes,completed,cleanup] at owed
  obtain ⟨asc,published,free⟩ : state.asc = false ∧ state.published = false ∧ locked = false := by simpa using idle
  have endpoints : ¬ (state.fwEndpoint = true ∨ state.doorbellEndpoint = true) := by
    intro endpoint
    rw [balanced.started endpoint] at asc
    cases asc
  obtain ⟨fw,doorbell⟩ : state.fwEndpoint = false ∧ state.doorbellEndpoint = false := by simpa using endpoints
  have powered : state.powered = false := balanced.powered.symm.trans (completed .powered)
  have uat : state.uat = false := balanced.uat.symm.trans (completed .uatReady)
  have initialized := balanced.initialized
  refine ⟨?_,free⟩
  cases state
  simp only at *
  subst initialized powered uat asc published fw doorbell
  rfl

/-- The provider refuses the callback once it has gone through. -/
def onceOnly : Callback → Bool
  | .powerOn | .createFirmwareUat | .stopEndpoint _ | .destroyFirmwareUat | .powerOff => true
  | _ => false

/-- An event that does not part the two records: a callback that can go through only once did so in time, and the
    coprocessor was not stopped while the coordinator still had an endpoint to stop. -/
def Harmless : Event → Prop
  | .finished callback startMs deadlineMs endMs transportResult =>
    onceOnly callback = true → transportResult = true → startMs ≤ endMs ∧ endMs ≤ deadlineMs
  | .called firmware _ (.stopAsc _) true =>
    firmware.completedMask .endpoint = false ∧ firmware.completedMask .doorbellEndpoint = false
  | _ => True

private theorem quiet_harmless (event : Event) (quiet : Quiet event) : Harmless event := by
  cases event with
  | read | wrote | checked | recorded => trivial
  | _ => exact quiet.elim

variable {world left : World}

theorem Since.of_quiet (quiet : Quietly world left) : Since Harmless world left :=
  .of_quietly quiet_harmless quiet

variable {env : Environment} {β : Type} {next otherwise : Action β}

theorem leaves_passive_then {post : Except Hung β → World → Prop} (passive : ∀ turn, env.isPassiveLevel turn = true)
    (valid : providerValid world = true) (rest : ∀ turn, Leaves next { world with turn := turn } post) :
    Leaves (do if ← atPassive env then next else otherwise) world post := by
  rw [leaves_bind]
  refine leaves_current_then ?_
  rw [if_pos valid,leaves_ask]
  rw [passive]
  exact rest _

theorem leaves_passive_at
    {leaves : World → Except Hung β → World → Prop} (before : World → Prop) (passive : ∀ turn, env.isPassiveLevel turn = true)
    (valid : providerValid world = true) (here : ∀ turn, before { world with turn := turn })
    (same : ∀ turn answer left, leaves { world with turn := turn } answer left → leaves world answer left)
    (rest : ∀ here, before here → Leaves next here (leaves here)) :
    Leaves (do if ← atPassive env then next else otherwise) world (leaves world) :=
  leaves_passive_then passive valid (fun turn => (rest _ (here turn)).mono (same turn))

theorem Accounted.valid (accounted : Accounted world) : providerValid world = true := by
  simp [providerValid,accounted.balanced.initialized,accounted.bound]

/-- What letting go of the lock leaves. -/
structure Drops (world : World) (answer : Except Hung Bool) (left : World) : Prop where
  quiet : Quietly world left
  known : LockKnown left
  released : answer = .ok true → left.handoff.locked = false
  before : left.handoff.locked = true → world.handoff.locked = true
  smooth : Smoothly (answer = .ok true) world left

section
variable (env) (bound : world.handoff.bound = true) (known : LockKnown world)
include bound known

theorem releaseHandoff_drops
    (locked : world.handoff.locked = true) : Leaves (releaseHandoff env) world (Drops world) := by
  refine ((releaseHandoff_releases env world).both (releaseHandoff_smooth env world bound locked)).mono (fun answer left post => ?_)
  obtain ⟨⟨result,releases,isAnswer⟩,smooth⟩ := post
  have handled := releases.handled (.refl world) known
  refine ⟨handled.1,handled.2,fun released => ?_,fun _ => locked,smooth⟩
  rw [isAnswer] at released
  have ok : result = .ok := by simpa using Except.ok.inj released
  subst ok
  cases releases
  rfl

theorem dropLock_drops :
    Leaves (if world.handoff.locked then releaseHandoff env else pure true) world (Drops world) := by
  split
  · rename_i locked
    exact releaseHandoff_drops env bound known locked
  rename_i free
  rw [leaves_pure]
  exact ⟨.refl world,known,fun _ => by simpa using free,fun locked => locked,.now rfl rfl⟩

end

/-- What getting hold of the lock leaves. -/
structure Holds (world : World) (answer : Except Hung Bool) (left : World) : Prop where
  quiet : Quietly world left
  known : LockKnown left
  held : answer = .ok true → left.handoff.locked = true
  kept : answer ≠ .ok true → left.handoff.locked = world.handoff.locked
  smooth : Smoothly (answer = .ok true) world left

private theorem holdHandoff_holds (env : Environment) (deadline : U64) (bound : world.handoff.bound = true)
    (known : LockKnown world) : Leaves (holdHandoff env deadline) world (Holds world) := by
  refine leaves_current_then ?_
  split
  · rename_i locked
    exact ⟨.refl world,known,fun _ => locked,fun fails => absurd rfl fails,.now rfl rfl⟩
  rename_i free
  refine ((acquireHandoff_acquires env deadline ⟨.refl world,known⟩).both
    (acquireHandoff_smooth env deadline world bound (by simpa using free))).mono (fun answer left post => ?_)
  exact ⟨post.1.1.1,post.1.1.2,post.1.2.1,post.1.2.2,post.2⟩

/-- What `provider_unpublish_initdata` leaves. -/
structure Unpublishes (retire : Bool) (world : World) (answer : Except Hung Bool) (left : World) : Prop where
  firmware : left.firmware = world.firmware
  bound : left.handoff.bound = world.handoff.bound
  known : LockKnown left
  state : left.provider.state = world.provider.state ∨ left.provider.state = { world.provider.state with published := false }
  before : left.handoff.locked = true → world.handoff.locked = true ∨ world.provider.state.published = true
  released : answer = .ok true → left.handoff.locked = false
  retired : answer = .ok true → left.provider.state.published = true → retire = true ∧ world.provider.state.asc = true
  harmless : Since Harmless world left
  smooth : Smoothly (answer = .ok true) world left

variable {retire : Bool} {answer : Except Hung Bool}

theorem Drops.unpublishes (drops : Drops world answer left)
    (stays : world.provider.state.published = true → retire = true ∧ world.provider.state.asc = true) :
    Unpublishes retire world answer left where
  firmware := drops.quiet.firmware
  bound := drops.quiet.bound
  known := drops.known
  state := .inl (by rw [drops.quiet.provider])
  before := fun locked => .inl (drops.before locked)
  released := drops.released
  retired := fun _ published => stays (by rw [← drops.quiet.provider]; exact published)
  harmless := .of_quiet drops.quiet
  smooth := drops.smooth

theorem unpublish_unpublishes (env : Environment) (passive : ∀ turn, env.isPassiveLevel turn = true) (deadline : U64)
    {world : World} (valid : providerValid world = true) (known : LockKnown world) :
    Leaves (providerUnpublishInitdata env deadline) world (Unpublishes env.retireMappingsAfterAscStop world) := by
  refine leaves_passive_at (fun here => here.handoff.bound = true ∧ LockKnown here) passive valid
    (fun turn => ⟨?_,known⟩) (fun turn answer left post => { post with }) ?_
  · have both : world.provider.state.initialized = true ∧ world.handoff.bound = true := by simpa [providerValid] using valid
    exact both.2
  rintro world ⟨bound,known⟩
  refine leaves_current_then ?_
  split
  · rename_i retires
    exact (dropLock_drops env bound known).mono (fun _ _ drops => drops.unpublishes (fun _ => retires))
  split
  · rename_i unpublished
    exact (dropLock_drops env bound known).mono
      (fun _ _ drops => drops.unpublishes (fun published => absurd published unpublished))
  rename_i stays
  have published : world.provider.state.published = true := by simpa using stays
  have unheld : ∀ answer left, Holds world answer left → answer ≠ .ok true →
      Unpublishes env.retireMappingsAfterAscStop world answer left := fun answer left holds fails =>
    ⟨holds.quiet.firmware,holds.quiet.bound,holds.known,.inl (by rw [holds.quiet.provider]),fun _ => .inr published,
      fun ok => absurd ok fails,fun ok => absurd ok fails,.of_quiet holds.quiet,holds.smooth⟩
  refine Leaves.bind (holdHandoff_holds env deadline bound known) (fun _ _ holds => unheld _ _ holds nofun) ?_
  intro held left holds
  cases held with
  | false => exact unheld _ _ holds nofun
  | true =>
  have bound' : left.handoff.bound = true := holds.quiet.bound.trans bound
  have sofar : Since Harmless world left := .of_quiet holds.quiet
  refine leaves_call_then (fun turn answer => ?_)
  have called : Since Harmless left
      (told left turn (.called left.firmware left.provider.state .unpublishUatRoots answer)) := .event rfl trivial
  have smooth := told_smooth left turn (.called left.firmware left.provider.state .unpublishUatRoots answer)
  cases answer with
  | false =>
    have refused : ∀ released last, Drops (told left turn (.called left.firmware left.provider.state .unpublishUatRoots false))
        released last → ∀ answer ≠ .ok true, Unpublishes env.retireMappingsAfterAscStop world answer last :=
      fun released last drops answer fails => ⟨drops.quiet.firmware.trans holds.quiet.firmware,
        drops.quiet.bound.trans holds.quiet.bound,drops.known,
        .inl (by rw [drops.quiet.provider]; exact congrArg _ holds.quiet.provider),fun _ => .inr published,
        fun ok => absurd ok fails,fun ok => absurd ok fails,(sofar.trans called).trans (.of_quiet drops.quiet),
        ((holds.smooth.trans smooth).trans drops.smooth).mono (fun all => by cases all.1.2)⟩
    exact Leaves.bind (releaseHandoff_drops env bound' holds.known (holds.held rfl))
      (fun _ last drops => refused _ last drops _ nofun) (fun _ last drops => refused _ last drops _ nofun)
  | true =>
  refine leaves_changeState_then ?_
  refine Leaves.mono (releaseHandoff_drops env bound' holds.known (holds.held rfl)) ?_
  intro answer last drops
  refine ⟨drops.quiet.firmware.trans holds.quiet.firmware,drops.quiet.bound.trans holds.quiet.bound,drops.known,
    .inr ?_,fun _ => .inr published,drops.released,fun _ still => ?_,?_,?_⟩
  · rw [drops.quiet.provider,holds.quiet.provider]
  · rw [drops.quiet.provider] at still
    cases still
  · have quiet := Since.of_quiet drops.quiet
    exact (sofar.trans called).trans ((Since.of_eq rfl).trans quiet)
  exact ((holds.smooth.trans smooth).trans ⟨drops.smooth.1,drops.smooth.2⟩).mono And.right

/-- A cleanup that can be repeated when the coordinator has not taken note of it. -/
def repeatable : FirmwareStep → Bool
  | .initdataPublished | .ascRunning => true
  | _ => false

/-- What a cleanup rests on: the steps that have to be cleaned up before it. -/
def restsOn : FirmwareStep → List FirmwareStep
  | .ascRunning => [.endpoint,.doorbellEndpoint]
  | .uatReady => [.ascRunning]
  | .powered => [.ascRunning,.uatReady]
  | _ => []

/-- What the callback of a cleanup leaves: the records agree behind it, with the step cleared once it went through. -/
structure Cleans (step : FirmwareStep) (world : World) (answer : Except Hung Bool) (left : World) : Prop where
  firmware : left.firmware = world.firmware
  bound : left.handoff.bound = world.handoff.bound
  known : LockKnown left
  stays : Since Harmless world left → (answer = .ok false ∨ repeatable step = true) →
    Balanced left.firmware left.provider.state left.handoff.locked
  done : Since Harmless world left → answer = .ok true →
    Balanced (cleared left.firmware step) left.provider.state left.handoff.locked
  smooth : Smoothly ((∀ before ∈ restsOn step, owes world.firmware before = false) →
    answer = .ok true ∧ Since Harmless world left) world left

theorem Unpublishes.balanced (post : Unpublishes retire world answer left)
    (balanced : Balanced world.firmware world.provider.state world.handoff.locked) :
    Balanced left.firmware left.provider.state left.handoff.locked := by
  have running : left.provider.state.asc = true ∨ left.provider.state.published = true ∨ left.handoff.locked = true →
      world.provider.state.asc = true ∨ world.provider.state.published = true ∨ world.handoff.locked = true := by
    rintro (asc | published | locked)
    · exact .inl (by rcases post.state with same | same <;> simpa [same] using asc)
    · refine .inr (.inl ?_)
      rcases post.state with same | same
      · simpa [same] using published
      simp [same] at published
    exact .inr (post.before locked).symm
  rw [post.firmware]
  rcases post.state with same | same
  all_goals
    rw [same] at running ⊢
    exact { balanced with running := fun busy => balanced.running (running busy) }

theorem Balanced.cleared_cleanup (balanced : Balanced firmware state locked) (step : FirmwareStep) :
    ∀ other, (cleared firmware step).cleanupMask other = true → other = .ascRunning := by
  intro other set
  simp only [cleared,setStep] at set
  split at set
  · cases set
  exact balanced.cleanup other set

variable {step : FirmwareStep}

theorem Balanced.completed_of_owes (balanced : Balanced firmware state locked) (other : step ≠ .ascRunning)
    (owed : owes firmware step = true) : firmware.completedMask step = true := by
  have kept : firmware.cleanupMask step = false := by
    by_contra set
    exact other (balanced.cleanup step (by simpa using set))
  simpa [owes,kept] using owed

private theorem unpublish_cleans (env : Environment) (passive : ∀ turn, env.isPassiveLevel turn = true) (deadline : U64)
    (accounted : Accounted world) :
    Leaves (providerUnpublishInitdata env deadline) world (Cleans .initdataPublished world) := by
  refine (unpublish_unpublishes env passive deadline accounted.valid accounted.known).mono (fun answer left post => ?_)
  have stays := post.balanced accounted.balanced
  exact ⟨post.firmware,post.bound,post.known,fun _ _ => stays, fun _ _ => { stays with cleanup := stays.cleared_cleanup _ },
    post.smooth.mono (fun ok _ => ⟨ok,post.harmless⟩)⟩

theorem called_cleans {primitive : Primitive} {update : Provider → Provider} (turn : Nat)
    (accounted : Accounted world) (once : repeatable step = false)
    (calm : ∀ answer, Harmless (.called world.firmware world.provider.state primitive answer))
    (done : Balanced (cleared world.firmware step) (update world.provider).state world.handoff.locked) : Leaves (do
      if ← call env primitive then
        changeProvider update
        pure true
      else pure false) { world with turn := turn } (Cleans step world) := by
  refine leaves_call_then (fun turn answer => ?_)
  have called : Since Harmless world (told world turn (.called world.firmware world.provider.state primitive answer)) :=
    .event rfl (calm answer)
  have smooth := told_smooth world turn (.called world.firmware world.provider.state primitive answer)
  cases answer with
  | false => exact ⟨rfl,rfl,accounted.known,fun _ _ => accounted.balanced,nofun,smooth.mono nofun⟩
  | true =>
  rw [if_pos rfl,leaves_bind]
  simp only [leaves_changeProvider,Then,leaves_pure]
  refine ⟨rfl,rfl,accounted.known,fun _ either => ?_,fun _ _ => done,smooth.1,fun _ _ => ⟨rfl,called⟩⟩
  simp [once] at either

section
variable (env) (passive : ∀ turn, env.isPassiveLevel turn = true) (deadline : U64)
include passive deadline

theorem stopEndpoint_cleans {endpoint : U32} (which : (endpoint = firmwareEndpoint ∧ step = .endpoint) ∨
      (endpoint = doorbellEndpoint ∧ step = .doorbellEndpoint))
    (accounted : Accounted world) (owed : owes world.firmware step = true) :
    Leaves (providerStopEndpoint env endpoint deadline) world (Cleans step world) := by
  have balanced := accounted.balanced
  have started : endpointStarted endpoint world.provider.state = true := by
    rcases which with ⟨rfl,rfl⟩ | ⟨rfl,rfl⟩
    · exact balanced.endpoint (balanced.completed_of_owes (by simp) owed)
    exact balanced.doorbell (balanced.completed_of_owes (by simp) owed)
  refine leaves_passive_then passive accounted.valid (fun turn => ?_)
  rw [if_neg (by rcases which with ⟨rfl,_⟩ | ⟨rfl,_⟩ <;> simp),leaves_bind]
  simp only [leaves_current,Then]
  rw [if_neg (by simp [started])]
  have cleanup := balanced.cleared_cleanup step
  rcases which with ⟨rfl,rfl⟩ | ⟨rfl,rfl⟩
  · exact called_cleans turn accounted rfl (fun _ => trivial) { balanced with
      cleanup := cleanup, endpoint := by rintro ⟨⟩, started := fun endpoint => balanced.started (endpoint.imp (by rintro ⟨⟩) id) }
  exact called_cleans turn accounted rfl (fun _ => trivial) { balanced with
    cleanup := cleanup, doorbell := by rintro ⟨⟩, started := fun endpoint => balanced.started (endpoint.imp id (by rintro ⟨⟩)) }

private theorem destroyUat_cleans (accounted : Accounted world) (owed : owes world.firmware .uatReady = true) :
    Leaves (providerDestroyUat env deadline) world (Cleans .uatReady world) := by
  have balanced := accounted.balanced
  refine leaves_passive_then passive accounted.valid (fun turn => leaves_current_then ?_)
  have unchanged : Since Harmless world { world with turn := turn } := .of_eq rfl
  split
  · rename_i refused
    refine ⟨rfl,rfl,accounted.known,fun _ _ => balanced,nofun,unchanged.grown,fun _ before => ?_⟩
    -- Without an owed coprocessor the guards of the callback are met.
    have idle := before .ascRunning (by simp [restsOn])
    have uat : world.provider.state.uat = true := by
      rw [← balanced.uat]
      exact balanced.completed_of_owes (by simp) owed
    rcases refused with none | asc | published
    · exact absurd uat none
    · rw [balanced.running (.inl asc)] at idle
      cases idle
    rw [balanced.running (.inr (.inl published))] at idle
    cases idle
  exact called_cleans turn accounted rfl (fun _ => trivial)
    { balanced with cleanup := balanced.cleared_cleanup _, uat := rfl }

private theorem powerOff_cleans (accounted : Accounted world) (owed : owes world.firmware .powered = true) :
    Leaves (providerPowerOff env deadline) world (Cleans .powered world) := by
  have balanced := accounted.balanced
  refine leaves_passive_then passive accounted.valid (fun turn => leaves_current_then ?_)
  have unchanged : Since Harmless world { world with turn := turn } := .of_eq rfl
  split
  · rename_i refused
    refine ⟨rfl,rfl,accounted.known,fun _ _ => balanced,nofun,unchanged.grown,fun _ before => ?_⟩
    -- Nothing but the power is left, so the guard of the callback is met.
    have idle := before .ascRunning (by simp [restsOn])
    have destroyed := before .uatReady (by simp [restsOn])
    have quiet : ¬ (world.provider.state.asc = true ∨ world.provider.state.published = true ∨ world.handoff.locked = true) := by
      intro busy
      rw [balanced.running busy] at idle
      cases idle
    have uat : world.provider.state.uat = false := by
      rw [← balanced.uat]
      by_contra set
      simp [owes,set] at destroyed
    have powered : world.provider.state.powered = true := by
      rw [← balanced.powered]
      exact balanced.completed_of_owes (by simp) owed
    have stopped : ¬ (world.provider.state.fwEndpoint = true ∨ world.provider.state.doorbellEndpoint = true) :=
      fun endpoint => quiet (.inl (balanced.started endpoint))
    have initialized := balanced.initialized
    refine absurd ?_ refused
    cases here : world.provider.state
    simp_all [onlyInitialized]
  rename_i powered
  have state : world.provider.state = { onlyInitialized with powered := true } := Classical.not_not.mp powered
  rw [state] at balanced
  exact called_cleans turn accounted rfl (fun _ => trivial) (by
    exact { balanced with cleanup := balanced.cleared_cleanup _, powered := rfl })

end

/-- What the stop of the coprocessor itself leaves. -/
structure Stops (world : World) (answer : Except Hung Bool) (left : World) : Prop where
  firmware : left.firmware = world.firmware
  provider : left.provider = world.provider
  handoff : left.handoff = world.handoff
  known : LockKnown left
  endpoints : Since Harmless world left → answer = .ok true →
    world.firmware.completedMask .endpoint = false ∧ world.firmware.completedMask .doorbellEndpoint = false
  grown : Grown world left
  harmless : answer = .ok false → Since Harmless world left
  smooth : Smoothly (world.firmware.completedMask .endpoint = false ∧ world.firmware.completedMask .doorbellEndpoint = false →
    answer = .ok true ∧ Since Harmless world left) world left

private theorem stopRunningAsc_stops (env : Environment) (deadline : U64) (known : LockKnown world)
    (balanced : Balanced world.firmware world.provider.state world.handoff.locked) :
    Leaves (stopRunningAsc env deadline) world (Stops world) := by
  refine leaves_current_then ?_
  split
  · unfold call
    rw [leaves_asked]
    have first := told_smooth world (world.turn + 1)
      (.called world.firmware world.provider.state (.stopAsc deadline) (env.answer world.turn (.stopAsc deadline)))
    cases answer : env.answer world.turn (.stopAsc deadline) with
    | false =>
      rw [answer] at first
      exact ⟨rfl,rfl,rfl,known,nofun,first.1,fun _ => .event rfl trivial,first.mono nofun⟩
    | true =>
    rw [answer] at first
    refine ⟨rfl,rfl,rfl,known,fun since _ => ?_,first.1,nofun,first.1,fun _ endpoints => ⟨rfl,.event rfl endpoints⟩⟩
    obtain ⟨later,grown,fine⟩ := since
    have one : later = [.called world.firmware world.provider.state (.stopAsc deadline) true] :=
      (append_left_inj world.history).mp (by rw [← grown]; rfl)
    subst one
    exact fine _ (mem_singleton_self _)
  rename_i idle
  have stopped : ¬ (world.provider.state.fwEndpoint = true ∨ world.provider.state.doorbellEndpoint = true) :=
    fun endpoint => idle (balanced.started endpoint)
  refine ⟨rfl,rfl,rfl,known,fun _ _ => ⟨?_,?_⟩,suffix_rfl,nofun,.now rfl (fun _ => ⟨rfl,.refl world⟩)⟩
  · by_contra set
    exact stopped (.inl (balanced.endpoint (by simpa using set)))
  by_contra set
  exact stopped (.inr (balanced.doorbell (by simpa using set)))

theorem recordBoot_quiet (env : Environment) (phase : Nat) (success : Bool) (world : World) :
    Leaves (recordBoot env phase success) world (fun answer left => answer = .ok () ∧ Quietly world left ∧
      left.handoff = world.handoff ∧ lock left.history = lock world.history) := by
  refine leaves_current_then ?_
  split
  · exact ⟨rfl,(Quietly.refl world).next (.recorded phase success world.provider.state) trivial world.turn,rfl,rfl⟩
  exact ⟨rfl,.refl world,rfl,rfl⟩

/-- The world behind a stopped coprocessor, whose endpoints are gone with it. -/
def ascGone (world : World) : World := { world with provider := { world.provider with
  state := { world.provider.state with asc := false, fwEndpoint := false, doorbellEndpoint := false } } }

theorem Stops.gone (stops : Stops world answer left)
    (balanced : Balanced world.firmware world.provider.state world.handoff.locked) (since : Since Harmless world left)
    (went : answer = .ok true) :
    Balanced (ascGone left).firmware (ascGone left).provider.state (ascGone left).handoff.locked := by
  have endpoints := stops.endpoints since went
  unfold ascGone
  rw [stops.firmware,stops.provider,stops.handoff]
  refine ⟨balanced.initialized,balanced.cleanup,balanced.powered,balanced.uat,fun busy => balanced.running ?_,
    fun set => ?_,fun set => ?_,?_⟩
  · rcases busy with asc | rest
    · cases asc
    exact .inr rest
  · rw [endpoints.1] at set
    cases set
  · rw [endpoints.2] at set
    cases set
  rintro (fw | doorbell)
  · cases fw
  cases doorbell

theorem Cleans.later {last : World} (cleans : Cleans step world answer left)
    (quiet : Quietly left last) (handoff : last.handoff = left.handoff) (same : lock last.history = lock left.history) :
    Cleans step world answer last := by
  have grown : Grown world left := cleans.smooth.1
  have after : Grown left last := .of_quietly quiet
  refine ⟨quiet.firmware.trans cleans.firmware,quiet.bound.trans cleans.bound,?_,fun since either => ?_,fun since went => ?_,
    grown.trans after,fun since before => ?_⟩
  · unfold LockKnown
    rw [handoff,same]
    exact cleans.known
  · rw [quiet.firmware,quiet.provider,handoff]
    exact cleans.stays (since.split grown after).1 either
  · rw [quiet.firmware,quiet.provider,handoff]
    exact cleans.done (since.split grown after).1 went
  have both := cleans.smooth.2 (since.split grown after).1 before
  exact ⟨both.1,both.2.trans (.of_quiet quiet)⟩

theorem recordBoot_cleans (env : Environment) (phase : Nat) (success value : Bool)
    (cleans : Cleans step world (.ok value) left) :
    Leaves (do recordBoot env phase success; pure value) left (Cleans step world) := by
  refine Leaves.bind (recordBoot_quiet env phase success left) ?_ ?_
  · rintro reason last ⟨bad,_⟩
    cases bad
  rintro _ last ⟨_,quiet,handoff,same⟩
  exact cleans.later quiet handoff same

theorem Cleans.refused
    (firmware : left.firmware = world.firmware) (bound : left.handoff.bound = world.handoff.bound) (known : LockKnown left)
    (balanced : Since Harmless world left → Balanced left.firmware left.provider.state left.handoff.locked)
    (fails : answer ≠ .ok true)
    (smooth : Smoothly (¬ ∀ before ∈ restsOn step, owes world.firmware before = false) world left) :
    Cleans step world answer left :=
  ⟨firmware,bound,known,fun since _ => balanced since,fun _ went => absurd went fails,
   smooth.mono (fun not before => absurd before not)⟩

section
variable (env) (passive : ∀ turn, env.isPassiveLevel turn = true) (deadline : U64)
include passive deadline

private theorem retireMappings_unpublishes (valid : providerValid world = true) (known : LockKnown world)
    (gone : env.retireMappingsAfterAscStop = false → world.provider.state.published = false ∧ world.handoff.locked = false) :
    Leaves (retireMappings env deadline) world (Unpublishes env.retireMappingsAfterAscStop world) := by
  unfold retireMappings
  split
  · exact unpublish_unpublishes env passive deadline valid known
  rename_i keeps
  have both := gone (by simpa using keeps)
  rw [leaves_pure]
  exact ⟨rfl,rfl,known,.inl rfl,.inl,fun _ => both.2,fun _ published => by simp [both.1] at published,.refl world,.now rfl rfl⟩

private theorem stopAsc_cleans
    {world : World} (accounted : Accounted world) : Leaves (providerStopAsc env deadline) world (Cleans .ascRunning world) := by
  refine leaves_passive_at Accounted passive accounted.valid
    (fun turn => { accounted with }) (fun turn answer left post => { post with }) ?_
  intro world accounted
  have endpoints : (∀ before ∈ restsOn .ascRunning, owes world.firmware before = false) →
      world.firmware.completedMask .endpoint = false ∧ world.firmware.completedMask .doorbellEndpoint = false := by
    intro before
    have first := before .endpoint (by simp [restsOn])
    have second := before .doorbellEndpoint (by simp [restsOn])
    simp only [owes,Bool.or_eq_false_iff] at first second
    exact ⟨first.1,second.1⟩
  refine Leaves.bind (unpublish_unpublishes env passive deadline accounted.valid accounted.known) ?_ ?_
  · intro reason left post
    exact .refused post.firmware post.bound post.known (fun _ => post.balanced accounted.balanced) (by simp)
      (post.smooth.mono (fun ok => by cases ok))
  intro unpublished left post
  have balanced := post.balanced accounted.balanced
  cases unpublished with
  | false =>
    exact recordBoot_cleans env _ _ _ (.refused post.firmware post.bound post.known (fun _ => balanced) (by simp)
      (post.smooth.mono (fun ok => by cases ok)))
  | true =>
  refine Leaves.bind (stopRunningAsc_stops env deadline post.known balanced) ?_ ?_
  · intro reason stopped stops
    refine .refused (stops.firmware.trans post.firmware) (by rw [stops.handoff]; exact post.bound) stops.known (fun _ => ?_)
      (by simp) ((post.smooth.trans stops.smooth).mono (fun both before => ?_))
    · rw [stops.firmware,stops.provider,stops.handoff]
      exact balanced
    have bad := (both.2 (by rw [post.firmware]; exact endpoints before)).1
    cases bad
  intro went stopped stops
  cases went with
  | false =>
    refine recordBoot_cleans env _ _ _ (.refused (stops.firmware.trans post.firmware) (by rw [stops.handoff]; exact post.bound)
      stops.known (fun _ => ?_) (by simp) ((post.smooth.trans stops.smooth).mono (fun both before => ?_)))
    · rw [stops.firmware,stops.provider,stops.handoff]
      exact balanced
    have bad := (both.2 (by rw [post.firmware]; exact endpoints before)).1
    cases bad
  | true =>
  rw [if_neg (by simp),leaves_bind]
  have free : (ascGone stopped).handoff.locked = false := by
    unfold ascGone
    rw [stops.handoff]
    exact post.released rfl
  have valid : providerValid (ascGone stopped) = true := by
    have bound : stopped.handoff.bound = true := by
      rw [stops.handoff]
      exact post.bound.trans accounted.bound
    have initialized : stopped.provider.state.initialized = true := by
      rw [stops.provider]
      exact balanced.initialized
    simp [providerValid,ascGone,initialized,bound]
  have finish : ∀ (answer : Except Hung Bool) (last : World),
      Unpublishes env.retireMappingsAfterAscStop (ascGone stopped) answer last → Cleans .ascRunning world answer last := by
    intro answer last retires
    have grown : Grown stopped last := retires.smooth.1
    have balancedLast : Since Harmless world last → Balanced last.firmware last.provider.state last.handoff.locked := by
      intro since
      have early := (since.split (post.smooth.1.trans stops.grown) grown).1
      exact retires.balanced (stops.gone balanced (early.split post.smooth.1 stops.grown).2 rfl)
    refine ⟨retires.firmware.trans (stops.firmware.trans post.firmware),?_,retires.known,fun since _ => balancedLast since,
      fun since went => ?_,?_⟩
    · rw [retires.bound]
      unfold ascGone
      rw [stops.handoff]
      exact post.bound
    · have agrees := balancedLast since
      have asc : last.provider.state.asc = false := by rcases retires.state with same | same <;> rw [same] <;> rfl
      have published : last.provider.state.published = false := by
        by_contra still
        have bad := (retires.retired went (by simpa using still)).2
        cases bad
      refine { agrees with cleanup := agrees.cleared_cleanup _, running := ?_ }
      rintro (running | still | locked)
      · rw [asc] at running
        cases running
      · rw [published] at still
        cases still
      rw [retires.released went] at locked
      cases locked
    have smooth : Smoothly (answer = .ok true) stopped last := retires.smooth
    have harmless : Since Harmless stopped last := retires.harmless
    refine ((post.smooth.trans stops.smooth).trans smooth).mono (fun all before => ?_)
    have both := all.1.2 (by rw [post.firmware]; exact endpoints before)
    exact ⟨all.2,(post.harmless.trans both.2).trans harmless⟩
  have retire := retireMappings_unpublishes env passive deadline valid stops.known (fun keeps => ?_)
  · refine Leaves.bind retire ?_ ?_
    · exact fun reason last retires => finish (.error reason) last retires
    exact fun retired last retires => recordBoot_cleans env _ _ _ (finish (.ok retired) last retires)
  refine ⟨?_,free⟩
  by_contra published
  have retired := post.retired rfl (by rw [← stops.provider]; simpa [ascGone] using published)
  rw [keeps] at retired
  cases retired.1

end

theorem nowMs_waits (env : Environment) (world : World) :
    Leaves (providerNowMs env) world (fun answer left => ∃ turn now, answer = .ok now ∧ left = { world with turn := turn }) := by
  refine leaves_atPassive_then (fun turn passive => ?_)
  cases passive with
  | false => exact ⟨turn,0,rfl,rfl⟩
  | true => exact ⟨turn + 1,_,rfl,rfl⟩

/-- An operation either has no deadline, and then nothing else happens, or it begins. -/
inductive Begins (callback : Callback) (world : World) : Except Hung (Option (U64 × U64)) → World → Prop
  | overflowed (turn : Nat) (startMs : U64) : Begins callback world (.ok none) (told world turn (.overflowed callback startMs))
  | begun (turn : Nat) (startMs deadlineMs : U64) :
    Begins callback world (.ok (some (startMs,deadlineMs))) { world with turn := turn }

theorem beginDeadline_begins (env : Environment) (callback : Callback) (timeoutMs : U64) (world : World) :
    Leaves (beginDeadline env callback timeoutMs) world (Begins callback world) := by
  refine Leaves.bind (nowMs_waits env world) ?_ ?_
  · rintro reason left ⟨turn,now,bad,_⟩
    cases bad
  rintro startMs left ⟨turn,now,same,rfl⟩
  split
  · exact .overflowed turn startMs
  exact .begun turn startMs _

/-- How an operation ends: it is fine exactly when the callback answered so before the deadline. -/
structure Finishes (callback : Callback) (startMs deadlineMs : U64) (transportResult : Bool) (world : World)
    (result : FirmwareResult) (turn : Nat) (endMs : U64) (left : World) : Prop where
  left_eq : left = told world turn (.finished callback startMs deadlineMs endMs transportResult)
  ok_iff : result = .ok ↔ transportResult = true ∧ startMs ≤ endMs ∧ endMs ≤ deadlineMs

theorem finishOperation_finishes (env : Environment) (callback : Callback) (startMs deadlineMs : U64) (transportResult : Bool)
    (world : World) : Leaves (finishOperation env callback startMs deadlineMs transportResult) world (fun answer left =>
      ∃ result turn endMs, answer = .ok result ∧ Finishes callback startMs deadlineMs transportResult world result turn endMs left) := by
  refine Leaves.bind (nowMs_waits env world) ?_ ?_
  · rintro reason left ⟨turn,now,bad,_⟩
    cases bad
  rintro endMs left ⟨turn,now,same,rfl⟩
  split
  · rename_i before
    exact ⟨_,turn,endMs,rfl,rfl,iff_of_false (by simp) (fun all => absurd before (not_lt.mpr all.2.1))⟩
  rename_i started
  split
  · rename_i late
    exact ⟨_,turn,endMs,rfl,rfl,iff_of_false (by simp) (fun all => absurd late (not_lt.mpr all.2.2))⟩
  rename_i inTime
  split
  · rename_i fails
    exact ⟨_,turn,endMs,rfl,rfl,iff_of_false (by simp) (fun all => fails all.1)⟩
  rename_i went
  exact ⟨_,turn,endMs,rfl,rfl,iff_of_true rfl ⟨Classical.not_not.mp went,not_lt.mp started,not_lt.mp inTime⟩⟩

private theorem told_since {good : Event → Prop} {turn : Nat} {event : Event}
    (since : Since good world (told world turn event)) : good event := by
  obtain ⟨later,grown,fine⟩ := since
  have one : later = [event] := (append_left_inj world.history).mp (by rw [← grown]; rfl)
  subst one
  exact fine event (mem_singleton_self _)

def Ending : Event → Prop
  | .overflowed .. | .finished .. => True
  | _ => False

/-- A property that the receipts of operations do not touch. -/
def Lasting (claim : World → Prop) : Prop := ∀ world turn event, Ending event → claim world → claim (told world turn event)

theorem lockKnown_lasting : Lasting LockKnown := by
  intro world turn event ending known
  cases event with
  | overflowed | finished => exact known
  | _ => exact ending.elim

/-- What an operation leaves: one property when it went through, and another when it did not. -/
structure Ends (frame done stays : World → Prop) (world : World) (answer : Except Hung FirmwareResult) (left : World) : Prop where
  grown : Grown world left
  frame : frame left
  went : Since Harmless world left → answer = .ok .ok → done left
  failed : Since Harmless world left → ∀ result, answer = .ok result → result ≠ .ok → stays left

variable {callback : Callback} {timeoutMs : U64} {run : U64 → Action Bool}

/-- An operation whose callback can go through only once went through in time, or a callback that did not count as
    having gone through can be repeated. -/
theorem operation_ends (env : Environment)
    {frame done stays : World → Prop} {again : Prop} (frameLasts : Lasting frame) (doneLasts : Lasting done)
    (staysLasts : Lasting stays) (kind : onceOnly callback = true ∨ again) (here : frame world) (now : stays world)
    (runs : ∀ turn deadline, Leaves (run deadline) { world with turn := turn } (fun answer left => Grown world left ∧ frame left ∧
      (Since Harmless world left → answer = .ok true → done left) ∧
      (Since Harmless world left → answer = .ok false ∨ again → stays left))) :
    Leaves (operation env callback timeoutMs run) world (Ends frame done stays world) := by
  refine Leaves.bind (beginDeadline_begins env callback timeoutMs world) ?_ ?_
  · intro reason left begins
    cases begins
  intro times left begins
  cases begins with
  | overflowed turn startMs =>
    exact ⟨⟨[_],rfl⟩,frameLasts _ _ _ trivial here,nofun,fun _ _ _ _ => staysLasts _ _ _ trivial now⟩
  | begun turn startMs deadlineMs =>
  refine Leaves.bind (runs turn deadlineMs) ?_ ?_
  · exact fun reason left post => ⟨post.1,post.2.1,nofun,nofun⟩
  intro transportResult left post
  refine (finishOperation_finishes env callback startMs deadlineMs transportResult left).mono ?_
  rintro answer last ⟨result,turn,endMs,rfl,finishes⟩
  have isLast := finishes.left_eq
  subst isLast
  have grown : Grown left (told left turn (.finished callback startMs deadlineMs endMs transportResult)) := ⟨[_],rfl⟩
  refine ⟨post.1.trans grown,frameLasts _ _ _ trivial post.2.1,fun since ok => ?_,fun since result' same fails => ?_⟩
  · have went := finishes.ok_iff.mp (Except.ok.inj ok)
    exact doneLasts _ _ _ trivial (post.2.2.1 (since.split post.1 grown).1 (by rw [went.1]))
  cases Except.ok.inj same
  refine staysLasts _ _ _ trivial (post.2.2.2 (since.split post.1 grown).1 ?_)
  rcases kind with once | again
  · -- A callback that went through would have been in time, and the operation fine.
    refine .inl ?_
    cases transportResult with
    | false => rfl
    | true =>
    have inTime : startMs ≤ endMs ∧ endMs ≤ deadlineMs := told_since (since.split post.1 grown).2 once rfl
    exact absurd (finishes.ok_iff.mpr ⟨rfl,inTime⟩) fails
  exact .inr again

/-- Without a failure an operation is fine when its callback is. -/
private theorem operation_smooth (env : Environment) {ready : Prop}
    (runs : ∀ turn deadline, Leaves (run deadline) { world with turn := turn } (fun answer left =>
      Smoothly (ready → answer = .ok true ∧ Since Harmless world left) world left)) :
    Leaves (operation env callback timeoutMs run) world (fun answer left =>
      Smoothly (ready → answer = .ok .ok ∧ Since Harmless world left) world left) := by
  refine Leaves.bind (beginDeadline_begins env callback timeoutMs world) ?_ ?_
  · intro reason left begins
    cases begins
  intro times left begins
  cases begins with
  | overflowed turn startMs => exact (told_smooth world turn _).mono (fun never => never.elim)
  | begun turn startMs deadlineMs =>
  refine Leaves.bind (runs turn deadlineMs) ?_ ?_
  · exact fun reason left post => post.mono (fun fine ready => by cases (fine ready).1)
  intro transportResult left post
  refine (finishOperation_finishes env callback startMs deadlineMs transportResult left).mono ?_
  rintro answer last ⟨result,turn,endMs,rfl,finishes⟩
  have isLast := finishes.left_eq
  subst isLast
  refine (post.trans (told_smooth left turn _)).mono (fun both ready => ?_)
  have fine := both.1 ready
  have went : transportResult = true := Except.ok.inj fine.1
  exact ⟨congrArg _ (finishes.ok_iff.mpr ⟨went,both.2⟩),fine.2.trans (.event rfl (fun _ _ => both.2))⟩

/-- What the cleanup of a step leaves. -/
structure Sweeps (step : FirmwareStep) (world : World) (answer : Except Hung Bool) (left : World) : Prop where
  grown : Grown world left
  accounted : Since Harmless world left → ∀ failed, answer = .ok failed → Accounted left
  less : Since Harmless world left → ∀ failed, answer = .ok failed → ∀ other, owes left.firmware other = true →
    owes world.firmware other = true
  smooth : Smoothly ((∀ before ∈ restsOn step, owes world.firmware before = false) →
    answer = .ok false ∧ owes left.firmware step = false ∧ Since Harmless world left) world left

theorem owes_cleared (firmware : Firmware) (step other : FirmwareStep) :
    owes (cleared firmware step) other = (if other = step then false else owes firmware other) := by
  unfold owes cleared setStep
  by_cases same : other = step <;> simp [same]

theorem cleanup_sweeps (env : Environment) (kind : onceOnly callback = true ∨ repeatable step = true)
    (cleans : ∀ here, Accounted here → owes here.firmware step = true → ∀ deadline, Leaves (run deadline) here (Cleans step here))
    (accounted : Accounted world) : Leaves (cleanup env step callback run) world (Sweeps step world) := by
  refine leaves_current_then ?_
  split
  swap
  · rename_i none
    have clear : owes world.firmware step = false := by simpa [owes] using none
    exact ⟨suffix_rfl,fun _ _ _ => accounted,fun _ _ _ _ owed => owed,.now rfl (fun _ => ⟨rfl,clear,.refl world⟩)⟩
  rename_i set
  have owed : owes world.firmware step = true := by simpa [owes] using set
  have runs : ∀ turn deadline, Leaves (run deadline) { world with turn := turn } (Cleans step world) := by
    intro turn deadline
    refine (cleans { world with turn := turn } { accounted with } owed deadline).mono ?_
    exact fun answer left post => { post with }
  have lasts : ∀ claim : Firmware → ProviderState → Bool → Prop, Lasting (fun left =>
      claim left.firmware left.provider.state left.handoff.locked ∧ left.handoff.bound = true ∧ LockKnown left) :=
    fun claim left turn event ending holds => ⟨holds.1,holds.2.1,lockKnown_lasting left turn event ending holds.2.2⟩
  have ends : Leaves (operation env callback stopTimeoutMs run) world (Ends (fun left => left.firmware = world.firmware)
      (fun left => Balanced (cleared left.firmware step) left.provider.state left.handoff.locked ∧ left.handoff.bound = true ∧
        LockKnown left)
      (fun left => Balanced left.firmware left.provider.state left.handoff.locked ∧ left.handoff.bound = true ∧ LockKnown left)
      world) := by
    refine operation_ends env (fun _ _ _ _ same => same) (lasts (fun firmware => Balanced (cleared firmware step)))
      (lasts Balanced) kind rfl ⟨accounted.balanced,accounted.bound,accounted.known⟩ (fun turn deadline => ?_)
    refine (runs turn deadline).mono (fun answer left post => ?_)
    have bound : left.handoff.bound = true := post.bound.trans accounted.bound
    exact ⟨post.smooth.1,post.firmware,fun since ok => ⟨post.done since ok,bound,post.known⟩,
      fun since either => ⟨post.stays since either,bound,post.known⟩⟩
  have smooth : Leaves (operation env callback stopTimeoutMs run) world (fun answer left => Smoothly
      ((∀ before ∈ restsOn step, owes world.firmware before = false) → answer = .ok .ok ∧ Since Harmless world left) world left) :=
    operation_smooth env (fun turn deadline => (runs turn deadline).mono (fun _ _ post => post.smooth))
  refine Leaves.bind (ends.both smooth) ?_ ?_
  · rintro reason left ⟨ends,fine⟩
    exact ⟨ends.grown,nofun,nofun,fine.mono (fun ok before => by cases (ok before).1)⟩
  rintro result left ⟨ends,fine⟩
  rw [leaves_bind]
  simp only [leaves_changeFirmware,Then,leaves_pure]
  by_cases ok : result = .ok
  · subst ok
    have same : left.firmware = world.firmware := ends.frame
    refine ⟨ends.grown,fun since _ _ => ?_,fun _ _ _ other owed => ?_,fine.1,fun since before => ?_⟩
    · have done := ends.went since rfl
      exact ⟨done.1,done.2.1,done.2.2⟩
    · have owed : owes (cleared left.firmware step) other = true := owed
      rw [owes_cleared] at owed
      split at owed
      · cases owed
      rw [← same]
      exact owed
    have both := fine.2 since before
    refine ⟨rfl,?_,both.2⟩
    change owes (cleared left.firmware step) step = false
    rw [owes_cleared,if_pos rfl]
  have same : left.firmware = world.firmware := ends.frame
  obtain ⟨completed,cleanup,_⟩ := @noteCleanup_failed step result ok left.firmware
  refine ⟨ends.grown,fun since _ _ => ?_,fun _ _ _ other owed => ?_,fine.1,
    fun since before => absurd (Except.ok.inj (fine.2 since before).1) ok⟩
  · have stays := ends.failed since result rfl ok
    refine ⟨stays.1.of_masks completed cleanup,stays.2.1,stays.2.2⟩
  simp only [owes,completed,cleanup] at owed
  rw [same] at owed
  exact owed

/-- Every cleanup of a list comes behind those it rests on. -/
def Orderly : List FirmwareStep → List FirmwareStep → Prop
  | _, [] => True
  | before, step :: rest => (∀ needed ∈ restsOn step, needed ∈ before) ∧ Orderly (step :: before) rest

/-- What the cleanups of a list leave, behind those of other steps. -/
structure SweepsAll (before steps : List FirmwareStep) (world : World) (answer : Except Hung Bool) (left : World) : Prop where
  grown : Grown world left
  accounted : Since Harmless world left → ∀ failed, answer = .ok failed → Accounted left
  less : Since Harmless world left → ∀ failed, answer = .ok failed → ∀ other, owes left.firmware other = true →
    owes world.firmware other = true
  smooth : Smoothly ((∀ step ∈ before, owes world.firmware step = false) →
    answer = .ok false ∧ (∀ step ∈ steps, owes left.firmware step = false) ∧ Since Harmless world left) world left

variable {origin : List Event}

theorem Tracked.extend {α : Type} {action : Action α}
    {before : Prop} {post : Except Hung α → World → Prop} (tracked : Tracked env.retireMappingsAfterAscStop origin world)
    (keeps : KeepsTrack env world.history action) (leaves : before → Leaves action world post) :
    Leaves action world (fun answer left => Tracked env.retireMappingsAfterAscStop world.history left ∧
      (before → post answer left)) := by
  refine (keeps world tracked.restart).mono (fun answer left kept => ?_) |>.both ?_ |>.mono (fun _ _ both => ⟨both.1,both.2⟩)
  · exact kept
  exact fun holds => leaves holds

private theorem cleanupAll_sweeps (env : Environment) (order : List (FirmwareStep × Callback × (U64 → Action Bool)))
    (before : List FirmwareStep) (orderly : Orderly before (order.map fst))
    (keep : ∀ entry ∈ order, ∀ origin deadline, KeepsTrack env origin (entry.2.2 deadline))
    (sweep : ∀ entry ∈ order, ∀ here, Accounted here →
      Leaves (cleanup env entry.1 entry.2.1 entry.2.2) here (Sweeps entry.1 here))
    (tracked : Tracked env.retireMappingsAfterAscStop origin world) (accounted : Accounted world) :
    Leaves (cleanupAll env order) world (SweepsAll before (order.map fst) world) := by
  induction order generalizing before origin world with
  | nil => exact ⟨suffix_rfl,fun _ _ _ => accounted,fun _ _ _ _ owed => owed,
      .now rfl (fun _ => ⟨rfl,by simp,.refl world⟩)⟩
  | cons entry rest ih =>
  obtain ⟨step,callback,run⟩ := entry
  have keepRest : ∀ entry ∈ rest, ∀ origin deadline, KeepsTrack env origin (entry.2.2 deadline) :=
    fun entry mem => keep entry (mem_cons_of_mem _ mem)
  have first := cleanup_tracks env step callback (keep _ mem_cons_self origin) world tracked
  refine Leaves.bind (first.both (sweep _ mem_cons_self world accounted)) ?_ ?_
  · rintro reason left ⟨_,sweeps⟩
    exact ⟨sweeps.grown,by rintro _ _ ⟨⟩,by rintro _ _ ⟨⟩,
      sweeps.smooth.mono (fun fine clear => by cases (fine (fun needed mem => clear needed (orderly.1 needed mem))).1)⟩
  rintro failed left ⟨kept,sweeps⟩
  have after := Tracked.extend kept (cleanupAll_tracks env rest (fun entry mem => keepRest entry mem _))
    (fun accounted' : Accounted left => ih (step :: before) orderly.2 keepRest
      (fun entry mem => sweep entry (mem_cons_of_mem _ mem)) kept accounted')
  -- Whether the rest fails or not, what it leaves is the same.
  have joined : ∀ (answer : Except Hung Bool) (last : World), Tracked env.retireMappingsAfterAscStop left.history last ∧
        (Accounted left → SweepsAll (step :: before) (rest.map fst) left answer last) →
      SweepsAll before (step :: rest.map fst) world (answer.map (failed || ·)) last := by
    rintro answer last ⟨tracked',sweepsAll⟩
    have grown : Grown left last := tracked'.past
    have both : ∀ since : Since Harmless world last, Since Harmless world left ∧ Since Harmless left last :=
      fun since => since.split sweeps.grown grown
    have all : Since Harmless world last → SweepsAll (step :: before) (rest.map fst) left answer last :=
      fun since => sweepsAll (sweeps.accounted (both since).1 failed rfl)
    refine ⟨sweeps.grown.trans grown,fun since failed' went => ?_,fun since failed' went other owed => ?_,
      sweeps.smooth.1.trans grown,fun since clear => ?_⟩
    · cases answer with
      | error reason => cases went
      | ok value => exact (all since).accounted (both since).2 value rfl
    · cases answer with
      | error reason => cases went
      | ok value =>
        exact sweeps.less (both since).1 failed rfl other ((all since).less (both since).2 value rfl other owed)
    have parts := since.split sweeps.smooth.1 grown
    have swept := sweeps.smooth.2 parts.1 (fun needed mem => clear needed (orderly.1 needed mem))
    have rests := sweepsAll (sweeps.accounted swept.2.2 failed rfl)
    have clear' : ∀ other ∈ step :: before, owes left.firmware other = false := by
      intro other mem
      rcases mem_cons.mp mem with rfl | mem
      · exact swept.2.1
      by_contra owed
      have still := sweeps.less swept.2.2 failed rfl other (by simpa using owed)
      rw [clear other mem] at still
      cases still
    have ended := rests.smooth.2 parts.2 clear'
    have isFalse : failed = false := Except.ok.inj swept.1
    subst isFalse
    rw [ended.1]
    refine ⟨rfl,fun other mem => ?_,swept.2.2.trans ended.2.2⟩
    rcases mem_cons.mp mem with rfl | mem
    · by_contra owed
      have still := rests.less ended.2.2 false ended.1 other (by simpa using owed)
      rw [swept.2.1] at still
      cases still
    exact ended.2.1 other mem
  refine Leaves.bind after ?_ ?_
  · exact fun reason last post => joined (.error reason) last post
  exact fun failed' last post => joined (.ok failed') last post

/-- Nothing is completed and nothing is owed. -/
def Empty (firmware : Firmware) : Prop := ∀ step, firmware.completedMask step = false ∧ firmware.cleanupMask step = false
private theorem empty_of_owes (none : ∀ step, owes firmware step = false) : Empty firmware := by
  intro step
  simpa [owes] using none step

/-- What `AppleAgxFirmwareRollback` leaves. -/
structure RollsBack (world : World) (answer : Except Hung FirmwareResult) (left : World) : Prop where
  grown : Grown world left
  accounted : Since Harmless world left → ∀ result, answer = .ok result → Accounted left
  stopped : ∀ result, answer = .ok result → left.firmware.phase = .stopped → Empty left.firmware
  smooth : Smoothly (answer = .ok .ok ∧ left.firmware.phase = .stopped ∧ Since Harmless world left) world left

private theorem cleanupOrder_sweeps (env : Environment) (passive : ∀ turn, env.isPassiveLevel turn = true) :
    ∀ entry ∈ cleanupOrder env, ∀ here, Accounted here →
      Leaves (cleanup env entry.1 entry.2.1 entry.2.2) here (Sweeps entry.1 here) := by
  intro entry mem here accounted
  simp only [cleanupOrder,mem_cons,not_mem_nil,or_false] at mem
  rcases mem with rfl | rfl | rfl | rfl | rfl
  · exact cleanup_sweeps env (.inl rfl)
      (fun here accounted owed deadline => stopEndpoint_cleans env passive deadline (.inr ⟨rfl,rfl⟩) accounted owed) accounted
  · exact cleanup_sweeps env (.inl rfl)
      (fun here accounted owed deadline => stopEndpoint_cleans env passive deadline (.inl ⟨rfl,rfl⟩) accounted owed) accounted
  · exact cleanup_sweeps env (.inr rfl) (fun here accounted _ deadline => stopAsc_cleans env passive deadline accounted) accounted
  · exact cleanup_sweeps env (.inl rfl)
      (fun here accounted owed deadline => destroyUat_cleans env passive deadline accounted owed) accounted
  exact cleanup_sweeps env (.inl rfl)
    (fun here accounted owed deadline => powerOff_cleans env passive deadline accounted owed) accounted

theorem Accounted.beginRollback (accounted : Accounted world) : Accounted { world with firmware := FirmwareProvider.beginRollback world.firmware } := by
  have balanced := accounted.balanced
  refine ⟨⟨balanced.initialized,balanced.cleanup,?_,?_,fun busy => ?_,?_,?_,balanced.started⟩,accounted.bound,accounted.known⟩
  · simpa [FirmwareProvider.beginRollback,observationBits] using balanced.powered
  · simpa [FirmwareProvider.beginRollback,observationBits] using balanced.uat
  · simpa [FirmwareProvider.beginRollback,owes,observationBits] using balanced.running busy
  · simpa [FirmwareProvider.beginRollback,observationBits] using balanced.endpoint
  simpa [FirmwareProvider.beginRollback,observationBits] using balanced.doorbell

theorem rollback_rolls (env : Environment) (passive : ∀ turn, env.isPassiveLevel turn = true)
    (tracked : Tracked env.retireMappingsAfterAscStop origin world) (accounted : Accounted world) :
    Leaves (firmwareRollback env) world (RollsBack world) := by
  have balanced := accounted.balanced
  refine leaves_current_then ?_
  rw [if_neg]
  swap
  · refine Classical.not_not.mpr ((isZero_iff _).mpr (fun step => ?_))
    unfold setStep
    split
    · rfl
    rename_i other
    by_contra set
    exact other (balanced.cleanup step (by simpa using set))
  split
  · rename_i zero
    exact ⟨suffix_rfl,fun _ _ _ => ⟨balanced.of_masks rfl rfl,accounted.bound,accounted.known⟩,
      fun _ _ _ step => ⟨(isZero_iff _).mp zero.1 step,(isZero_iff _).mp zero.2 step⟩,.now rfl ⟨rfl,rfl,.of_eq rfl⟩⟩
  refine leaves_changeFirmware_then ?_
  have begun := accounted.beginRollback
  have tracked1 : Tracked env.retireMappingsAfterAscStop origin { world with firmware := beginRollback world.firmware } :=
    tracked.same rfl rfl rfl
  have first : Leaves (cleanup env .initdataPublished .unpublishInitdata (providerUnpublishInitdata env)) _
      (Sweeps .initdataPublished { world with firmware := beginRollback world.firmware }) :=
    cleanup_sweeps env (.inr rfl) (fun here accounted _ deadline => unpublish_cleans env passive deadline accounted) begun
  refine Leaves.bind ((cleanup_tracks env .initdataPublished .unpublishInitdata (unpublish_tracks env) _ tracked1).both first) ?_ ?_
  · rintro reason left ⟨_,sweeps⟩
    exact ⟨sweeps.grown,by rintro _ _ ⟨⟩,by rintro _ ⟨⟩,
      sweeps.smooth.mono (fun fine => by cases (fine (by simp [restsOn])).1)⟩
  rintro failed left ⟨kept,sweeps⟩
  refine leaves_changeFirmware_then ?_
  obtain ⟨completed,cleanup⟩ := dropAddress_masks left.firmware
  have dropped : Accounted left → Accounted { left with firmware := dropAddress left.firmware } :=
    fun accounted => ⟨accounted.balanced.of_masks completed cleanup,accounted.bound,accounted.known⟩
  have kept' : Tracked env.retireMappingsAfterAscStop origin { left with firmware := dropAddress left.firmware } :=
    kept.same rfl rfl rfl
  have rest := Tracked.extend kept' (cleanupAll_tracks env _ (cleanupOrder_tracks env)) (fun accounted' =>
    cleanupAll_sweeps env (cleanupOrder env) [.initdataPublished] (by simp [cleanupOrder,Orderly,restsOn])
      (fun entry mem origin deadline => cleanupOrder_tracks env entry mem deadline) (cleanupOrder_sweeps env passive) kept' accounted')
  -- What is left once every cleanup has been tried.
  have tried : ∀ (answer : Except Hung Bool) (last : World), Tracked env.retireMappingsAfterAscStop left.history last ∧
      (Accounted { left with firmware := dropAddress left.firmware } → SweepsAll [.initdataPublished]
        ((cleanupOrder env).map fst) { left with firmware := dropAddress left.firmware } answer last) →
      Grown world last ∧ (Since Harmless world last → ∀ failed', answer = .ok failed' → Accounted last) ∧
      Smoothly (failed = false ∧ answer = .ok false ∧ Empty last.firmware ∧ Since Harmless world last) world last := by
    rintro answer last ⟨tracked',sweepsAll⟩
    have grown : Grown left last := tracked'.past
    have early : Grown world left := sweeps.grown
    refine ⟨early.trans grown,fun since failed' went => ?_,early.trans grown,fun since => ?_⟩
    · have parts := since.split early grown
      exact (sweepsAll (dropped (sweeps.accounted parts.1 failed rfl))).accounted parts.2 failed' went
    have parts := since.split early grown
    obtain ⟨went,clear,harmless⟩ := sweeps.smooth.2 parts.1 (by simp [restsOn])
    have all := sweepsAll (dropped (sweeps.accounted harmless failed rfl))
    have same : ∀ step, owes (dropAddress left.firmware) step = owes left.firmware step := by
      intro step
      unfold owes
      rw [completed,cleanup]
    obtain ⟨went',clear',harmless'⟩ := all.smooth.2 parts.2 (by simpa [same] using clear)
    refine ⟨Except.ok.inj went,went',empty_of_owes (fun step => ?_),harmless.trans harmless'⟩
    have less := fun owed => sweeps.less harmless failed rfl step
      ((same step).symm.trans (all.less harmless' false went' step owed))
    cases step with
    | powered | uatReady | ascRunning | endpoint | doorbellEndpoint => exact clear' _ (by simp [cleanupOrder])
    | initdataPublished =>
      by_contra owed
      have still := (same _).symm.trans (all.less harmless' false went' _ (by simpa using owed))
      rw [clear] at still
      cases still
    | initdataSent | deviceControl | idleTimestamp =>
    by_contra owed
    have still := less (by simpa using owed)
    simp only [owes,beginRollback,observationBits] at still
    have kept := balanced.cleanup _ (by simpa using still)
    cases kept
  refine Leaves.bind rest ?_ ?_
  · intro reason last post
    obtain ⟨grown,_,smooth⟩ := tried _ last post
    exact ⟨grown,by rintro _ _ ⟨⟩,by rintro _ ⟨⟩, smooth.mono (fun all => by cases all.2.1)⟩
  intro failed' last post
  obtain ⟨grown,accounted',smooth⟩ := tried _ last post
  refine leaves_current_then ?_
  split
  · rename_i left
    refine ⟨grown,fun since _ _ => ?_,(fun _ _ same => by cases same),grown,fun since => ?_⟩
    · have agrees := accounted' since failed' rfl
      exact ⟨agrees.balanced.of_masks rfl rfl,agrees.bound,agrees.known⟩
    obtain ⟨first,second,empty,_⟩ := smooth.2 since
    cases Except.ok.inj second
    simp [first,isZero_iff,fun step => (empty step).1,fun step => (empty step).2] at left
  rename_i done
  refine ⟨grown,fun since _ _ => ?_,fun _ _ _ step => ?_,grown,fun since => ⟨rfl,rfl,(smooth.2 since).2.2.2⟩⟩
  · have agrees := accounted' since failed' rfl
    exact ⟨agrees.balanced.of_masks rfl rfl,agrees.bound,agrees.known⟩
  simp only [not_or,not_not,isZero_iff] at done
  exact ⟨done.2.2.1 step,done.2.2.2 step⟩

/-- Nothing but the publication and the lock has moved. -/
structure Busy (origin left : World) : Prop where
  firmware : left.firmware = origin.firmware
  bound : left.handoff.bound = origin.handoff.bound
  known : LockKnown left
  state : ∃ published, left.provider.state = { origin.provider.state with published := published }
  harmless : Since Harmless origin left

theorem Busy.refl (known : LockKnown world) : Busy world world := ⟨rfl,rfl,known,⟨_,rfl⟩,.refl world⟩
theorem Busy.handled {origin : World} (busy : Busy origin world) (handled : Handled world left) : Busy origin left :=
  ⟨handled.1.firmware.trans busy.firmware,handled.1.bound.trans busy.bound,handled.2,
   by rw [handled.1.provider]; exact busy.state,busy.harmless.trans (.of_quiet handled.1)⟩

theorem Busy.balanced {origin : World} (busy : Busy origin left)
    (balanced : Balanced origin.firmware origin.provider.state origin.handoff.locked)
    (owed : owes origin.firmware .ascRunning = true) : Balanced left.firmware left.provider.state left.handoff.locked := by
  obtain ⟨published,state⟩ := busy.state
  rw [busy.firmware,state]
  exact { balanced with running := fun _ => owed }

section
variable (env : Environment) {origin : World}

theorem call_busy (primitive : Primitive) (other : ∀ deadline, primitive ≠ .stopAsc deadline) :
    Keeps (Busy origin) (call env primitive) := by
  intro world busy
  unfold call
  refine { busy with harmless := busy.harmless.trans (.event rfl ?_) }
  cases primitive with
  | stopAsc deadline => exact absurd rfl (other deadline)
  | _ => trivial

theorem setPublished_busy (published : Bool) :
    Keeps (Busy origin) (changeState (fun state => { state with published := published })) := by
  intro world busy
  obtain ⟨_,state⟩ := busy.state
  exact { busy with state := ⟨published,by dsimp only [changeState,changeProvider]; rw [state]⟩ }

variable (deadline : U64)

theorem acquireHandoff_busy : Keeps (Busy origin) (acquireHandoff env deadline) := fun world busy =>
  (acquireHandoff_acquires env deadline ⟨.refl world,busy.known⟩).mono (fun _ _ post => busy.handled post.1)
theorem releaseHandoff_busy : Keeps (Busy origin) (releaseHandoff env) := fun world busy =>
  (releaseHandoff_releases env world).mono (fun _ _ post => by
    obtain ⟨result,releases,_⟩ := post
    exact busy.handled (releases.handled (.refl world) busy.known))
private theorem handoffInitialize_busy : Keeps (Busy origin) (handoffInitialize env deadline) := fun world busy =>
  (handoffInitialize_handled env deadline ⟨.refl world,busy.known⟩).mono (fun _ _ post => busy.handled post)

theorem recordBoot_busy (phase : Nat) (success : Bool) : Keeps (Busy origin) (recordBoot env phase success) := fun world busy =>
  (recordBoot_quiet env phase success world).mono (fun _ _ post => by
    obtain ⟨_,quiet,handoff,same⟩ := post
    refine busy.handled ⟨quiet,?_⟩
    unfold LockKnown
    rw [handoff,same]
    exact busy.known)

private theorem publishBootRoots_busy : Keeps (Busy origin) (publishBootRoots env deadline) := by
  have ends : ∀ success : Bool, Keeps (Busy origin) (do if ← releaseHandoff env then pure success else pure false) := by
    intro success
    refine (releaseHandoff_busy env).bind (fun released => ?_)
    split
    all_goals exact Keeps.pure _
  refine (acquireHandoff_busy env deadline).bind (fun held => ?_)
  split
  swap
  · exact Keeps.pure _
  refine Keeps.current (fun world => (call_busy env _ (by simp)).bind (fun success => ?_))
  split
  · exact (setPublished_busy true).bind (fun _ => ends success)
  exact ends success

private theorem bootBehindGuard_busy : Keeps (Busy origin) (bootBehindGuard env deadline) := by
  refine (call_busy env _ (by simp)).bind (fun booted => ?_)
  split
  swap
  · exact (recordBoot_busy env _ _).bind (fun _ => Keeps.pure _)
  refine (handoffInitialize_busy env deadline).bind (fun result => (recordBoot_busy env _ _).bind (fun _ => ?_))
  split
  · exact Keeps.pure _
  split
  swap
  · exact Keeps.pure _
  refine (publishBootRoots_busy env deadline).bind (fun success => (recordBoot_busy env _ _).bind (fun _ => ?_))
  split
  · exact Keeps.pure _
  exact (call_busy env _ (by simp)).bind (fun success => (recordBoot_busy env _ _).bind (fun _ => Keeps.pure _))

private theorem atPassive_busy : Keeps (Busy origin) (atPassive env) := by
  refine Keeps.current (fun here => ?_)
  split
  · exact fun world busy => { busy with }
  exact Keeps.pure _

private theorem publish_busy : Keeps (Busy origin) (providerPublishInitdata env deadline) := by
  refine (atPassive_busy env).bind (fun passive => ?_)
  split
  swap
  · exact Keeps.pure _
  refine Keeps.current (fun world => ?_)
  split
  · exact Keeps.pure _
  split
  · exact Keeps.pure _
  refine (acquireHandoff_busy env deadline).bind (fun held => ?_)
  split
  swap
  · exact Keeps.pure _
  refine (call_busy env _ (by simp)).bind (fun published => ?_)
  split
  swap
  · exact (releaseHandoff_busy env).bind (fun _ => Keeps.pure _)
  refine (setPublished_busy true).bind (fun _ => (releaseHandoff_busy env).bind (fun released => ?_))
  split
  · exact Keeps.pure _
  have ends : Keeps (Busy origin) (do
      let left ← current
      if left.handoff.locked then
        let _ ← releaseHandoff env
        pure ((false,0) : Bool × U64)
      else pure (false,0)) := by
    refine Keeps.current (fun left => ?_)
    split
    · exact (releaseHandoff_busy env).bind (fun _ => Keeps.pure _)
    exact Keeps.pure _
  refine (call_busy env _ (by simp)).bind (fun unpublished => ?_)
  split
  · exact (setPublished_busy false).bind (fun _ => ends)
  exact ends

end

/-- The masks with the bit of a completed step. -/
def completed (firmware : Firmware) (step : FirmwareStep) : Firmware :=
  { firmware with completedMask := setStep firmware.completedMask step true }

/-- A step whose bit has no counterpart in the provider's state. -/
def Unmatched (step : FirmwareStep) : Prop :=
  step ≠ .powered ∧ step ≠ .uatReady ∧ step ≠ .endpoint ∧ step ≠ .doorbellEndpoint

variable {firmware : Firmware} {step : FirmwareStep}

theorem owes_completed {other : FirmwareStep} (owed : owes firmware other = true) :
    owes (completed firmware step) other = true := by
  simp only [owes,completed,setStep,Bool.or_eq_true] at owed ⊢
  rcases owed with set | set
  · left
    split
    · rfl
    exact set
  exact .inr set

theorem completed_other {other : FirmwareStep} (different : other ≠ step) :
    (completed firmware step).completedMask other = firmware.completedMask other := if_neg different

theorem Balanced.complete {state : ProviderState} {locked : Bool} (balanced : Balanced firmware state locked)
    (unmatched : Unmatched step) : Balanced (completed firmware step) state locked := by
  obtain ⟨powered,uat,endpoint,doorbell⟩ := unmatched
  refine ⟨balanced.initialized,balanced.cleanup,?_,?_,fun busy => owes_completed (balanced.running busy),?_,?_,balanced.started⟩
  · rw [completed_other powered.symm]
    exact balanced.powered
  · rw [completed_other uat.symm]
    exact balanced.uat
  · rw [completed_other endpoint.symm]
    exact balanced.endpoint
  rw [completed_other doorbell.symm]
  exact balanced.doorbell

/-- What the operation of a step leaves. -/
structure Takes (step : FirmwareStep) (world : World) (answer : Except Hung FirmwareResult) (left : World) : Prop where
  grown : Grown world left
  completedMask : left.firmware.completedMask = world.firmware.completedMask
  phase : left.firmware.phase = world.firmware.phase
  went : Since Harmless world left → answer = .ok .ok →
    Balanced (completed left.firmware step) left.provider.state left.handoff.locked ∧ left.handoff.bound = true ∧ LockKnown left
  failed : Since Harmless world left → ∀ result, answer = .ok result → result ≠ .ok → Accounted left

/-- What the callback of a step leaves. -/
structure Gains (step : FirmwareStep) (again : Prop) (world : World) (answer : Except Hung Bool) (left : World) : Prop where
  grown : Grown world left
  firmware : left.firmware = world.firmware
  went : Since Harmless world left → answer = .ok true →
    Balanced (completed left.firmware step) left.provider.state left.handoff.locked ∧ left.handoff.bound = true ∧ LockKnown left
  failed : Since Harmless world left → answer = .ok false ∨ again → Accounted left

variable {again : Prop} {world : World}

theorem operation_takes (env : Environment) {callback : Callback} {timeoutMs : U64} {run : U64 → Action Bool}
    (accounted : Accounted world) (kind : onceOnly callback = true ∨ again)
    (gains : ∀ turn deadline, Leaves (run deadline) { world with turn := turn } (Gains step again world)) :
    Leaves (operation env callback timeoutMs run) world (Takes step world) := by
  have ends : Leaves (operation env callback timeoutMs run) world (Ends (fun left => left.firmware = world.firmware)
      (fun left => Balanced (completed left.firmware step) left.provider.state left.handoff.locked ∧ left.handoff.bound = true ∧
        LockKnown left) Accounted world) := by
    refine operation_ends env (fun _ _ _ _ same => same) ?_ ?_ kind rfl accounted ?_
    · exact fun left turn event ending holds => ⟨holds.1,holds.2.1,lockKnown_lasting left turn event ending holds.2.2⟩
    · exact fun left turn event ending holds => ⟨holds.balanced,holds.bound,lockKnown_lasting left turn event ending holds.known⟩
    exact fun turn deadline => (gains turn deadline).mono (fun _ _ post => ⟨post.grown,post.firmware,post.went,post.failed⟩)
  refine ends.mono (fun answer left post => ⟨post.grown,?_,?_,post.went,post.failed⟩)
  · rw [post.frame]
  rw [post.frame]

theorem Accounted.waited (accounted : Accounted world) (turn : Nat) : Accounted { world with turn := turn } :=
  { accounted with }
theorem Busy.waited (known : LockKnown world) (turn : Nat) : Busy world { world with turn := turn } :=
  ⟨rfl,rfl,known,⟨_,rfl⟩,.of_eq rfl⟩
theorem Busy.accounted {left : World} (busy : Busy world left) (accounted : Accounted world)
    (owed : owes world.firmware .ascRunning = true) : Accounted left :=
  ⟨busy.balanced accounted.balanced owed,busy.bound.trans accounted.bound,busy.known⟩
theorem Gains.of_busy {left : World} {answer : Except Hung Bool} (busy : Busy world left)
    (accounted : Accounted left) (unmatched : Unmatched step) : Gains step True world answer left :=
  ⟨busy.harmless.grown,busy.firmware,fun _ _ => ⟨accounted.balanced.complete unmatched,accounted.bound,accounted.known⟩,
   fun _ _ => accounted⟩
theorem Gains.refused (accounted : Accounted world) (turn : Nat) :
    Gains step again world (.ok false) { world with turn := turn } :=
  ⟨suffix_rfl,rfl,nofun,fun _ _ => accounted.waited turn⟩

theorem passive_gains {env : Environment} {next : Action Bool} (accounted : Accounted world)
    (rest : ∀ turn, Leaves next { world with turn := turn } (Gains step again world)) :
    Leaves (do if ← atPassive env then next else pure false) world (Gains step again world) := by
  refine leaves_atPassive_then (fun turn passive => ?_)
  cases passive with
  | false => exact .refused accounted turn
  | true => exact rest turn

section
variable (env) (deadline : U64) (accounted : Accounted world)
include deadline accounted

private theorem powerOn_gains : Leaves (providerPowerOn env deadline) world (Gains .powered False world) := by
  have balanced := accounted.balanced
  refine passive_gains accounted (fun turn => leaves_current_then ?_)
  split
  · exact .refused accounted turn
  refine leaves_call_then (fun turn answer => ?_)
  cases answer with
  | false => exact ⟨⟨[_],rfl⟩,rfl,nofun,
      fun _ _ => ⟨balanced,accounted.bound,accounted.known⟩⟩
  | true =>
  refine ⟨⟨[_],rfl⟩,rfl,fun _ _ => ⟨?_,accounted.bound,accounted.known⟩,?_⟩
  · exact { balanced with powered := rfl, running := fun busy => owes_completed (balanced.running busy) }
  rintro _ (bad | bad) <;> cases bad

private theorem createUat_gains : Leaves (providerCreateUat env deadline) world (Gains .uatReady False world) := by
  have balanced := accounted.balanced
  refine passive_gains accounted (fun turn => leaves_current_then ?_)
  split
  · exact .refused accounted turn
  refine leaves_asked_then (fun turn given => ?_)
  dsimp only
  split
  · exact ⟨⟨[_],rfl⟩,rfl,nofun,fun _ _ => ⟨balanced,accounted.bound,accounted.known⟩⟩
  refine ⟨⟨[_],rfl⟩,rfl,fun _ _ => ⟨?_,accounted.bound,accounted.known⟩,?_⟩
  · exact { balanced with uat := rfl, running := fun busy => owes_completed (balanced.running busy) }
  rintro _ (bad | bad) <;> cases bad

private theorem bootAsc_gains (owed : owes world.firmware .ascRunning = true) :
    Leaves (providerBootAsc env deadline) world (Gains .ascRunning True world) := by
  have balanced := accounted.balanced
  refine passive_gains accounted (fun turn => leaves_current_then ?_)
  split
  · exact .refused accounted turn
  refine leaves_changeState_then ?_
  have running : Balanced world.firmware { world.provider.state with asc := true } world.handoff.locked :=
    { balanced with running := fun _ => owed, started := fun _ => rfl }
  refine Leaves.mono (bootBehindGuard_busy env deadline _ (Busy.refl accounted.known)) ?_
  intro answer left busy
  have agrees : Accounted left := ⟨busy.balanced running owed,busy.bound.trans accounted.bound,busy.known⟩
  have harmless : Since Harmless world left := busy.harmless
  exact ⟨harmless.grown,busy.firmware,fun _ _ => ⟨agrees.balanced.complete (by simp [Unmatched]),agrees.bound,agrees.known⟩,
    fun _ _ => agrees⟩

end

section
variable (env)

theorem startEndpoint_gains (deadline : U64) {endpoint : U32}
    (which : (endpoint = firmwareEndpoint ∧ step = .endpoint) ∨ (endpoint = doorbellEndpoint ∧ step = .doorbellEndpoint))
    (accounted : Accounted world) :
    Leaves (providerStartEndpoint env endpoint deadline) world (Gains step True world) := by
  have balanced := accounted.balanced
  refine passive_gains accounted (fun turn => ?_)
  split
  · exact .refused accounted turn
  refine leaves_current_then ?_
  split
  · exact .refused accounted turn
  rename_i guard
  have asc : world.provider.state.asc = true := by
    by_contra idle
    refine guard ⟨fun same => idle (by rw [same]; rfl),fun same => idle (by rw [same]; rfl)⟩
  refine leaves_call_then (fun turn answer => ?_)
  cases answer with
  | false => exact ⟨⟨[_],rfl⟩,rfl,nofun,
      fun _ _ => ⟨balanced,accounted.bound,accounted.known⟩⟩
  | true =>
  rcases which with ⟨rfl,rfl⟩ | ⟨rfl,rfl⟩
  · exact ⟨⟨[_],rfl⟩,rfl,fun _ _ => ⟨{ balanced with running := fun busy => owes_completed (balanced.running busy), endpoint := fun _ => rfl, started := fun _ => asc },
        accounted.bound,accounted.known⟩,
      fun _ _ => ⟨{ balanced with endpoint := fun _ => rfl, started := fun _ => asc },accounted.bound,accounted.known⟩⟩
  exact ⟨⟨[_],rfl⟩,rfl,fun _ _ => ⟨{ balanced with running := fun busy => owes_completed (balanced.running busy), doorbell := fun _ => rfl, started := fun _ => asc },
      accounted.bound,accounted.known⟩,
    fun _ _ => ⟨{ balanced with doorbell := fun _ => rfl, started := fun _ => asc },accounted.bound,accounted.known⟩⟩

private theorem whilePublished_gains (primitive : Primitive) (other : ∀ deadline, primitive ≠ .stopAsc deadline)
    (unmatched : Unmatched step) (accounted : Accounted world) :
    Leaves (whilePublished env primitive) world (Gains step True world) := by
  refine passive_gains accounted (fun turn => leaves_current_then ?_)
  split
  · exact .refused accounted turn
  rename_i published
  have owed := accounted.balanced.running (.inr (.inl (by simpa using published)))
  exact Leaves.mono (call_busy env primitive other _ (Busy.waited accounted.known turn))
    (fun _ _ busy => .of_busy busy (busy.accounted accounted owed) unmatched)

private theorem sendInitdata_gains (address deadline : U64) (accounted : Accounted world) :
    Leaves (providerSendInitdata env address deadline) world (Gains .initdataSent True world) := by
  refine passive_gains accounted (fun turn => leaves_current_then ?_)
  split
  · exact .refused accounted turn
  rename_i accepted
  have owed := accounted.balanced.running (.inr (.inl (by simpa using (not_or.mp accepted).1)))
  exact Leaves.mono (call_busy env _ (by simp) _ (Busy.waited accounted.known turn))
    (fun _ _ busy => .of_busy busy (busy.accounted accounted owed) (by simp [Unmatched]))

private theorem publish_accounted (deadline : U64) (accounted : Accounted world) :
    Leaves (providerPublishInitdata env deadline) world (fun _ left => Busy world left ∧ Accounted left) := by
  by_cases owed : owes world.firmware .ascRunning = true
  · exact (publish_busy env deadline world (Busy.refl accounted.known)).mono
      (fun _ _ busy => ⟨busy,busy.accounted accounted owed⟩)
  -- Without an owed coprocessor the provider is in no state in which it publishes.
  have idle : world.provider.state.asc ≠ true := fun running => owed (accounted.balanced.running (.inl running))
  refine leaves_atPassive_then (fun turn passive => ?_)
  have waited : Busy world { world with turn := turn } ∧ Accounted { world with turn := turn } :=
    ⟨Busy.waited accounted.known turn,accounted.waited turn⟩
  cases passive with
  | false => exact waited
  | true =>
  refine leaves_current_then ?_
  rw [if_neg (fun same => idle (by rw [same]; rfl)),if_pos (fun same => idle (by rw [same]; rfl))]
  exact waited

private theorem publishOperation_takes (accounted : Accounted world) :
    Leaves (publishOperation env) world (Takes .initdataPublished world) := by
  -- Nothing that happens here can part the records.
  have ends : ∀ {answer : Except Hung FirmwareResult} {left : World}, Grown world left →
      left.firmware.completedMask = world.firmware.completedMask → left.firmware.phase = world.firmware.phase → Accounted left →
      Takes .initdataPublished world answer left := fun grown masks phase agrees =>
    ⟨grown,masks,phase,fun _ _ => ⟨agrees.balanced.complete (by simp [Unmatched]),agrees.bound,agrees.known⟩,fun _ _ _ _ => agrees⟩
  refine Leaves.bind (beginDeadline_begins env .publishInitdata _ world) ?_ ?_
  · intro reason left begins
    cases begins
  intro times left begins
  cases begins with
  | overflowed turn startMs => exact ends ⟨[_],rfl⟩ rfl rfl { accounted with }
  | begun turn startMs deadlineMs =>
  have waited := accounted.waited turn
  refine Leaves.bind (publish_accounted env deadlineMs waited) ?_ ?_
  · rintro reason left ⟨busy,agrees⟩
    have grown : Grown world left := busy.harmless.grown
    exact ends grown (by rw [busy.firmware]) (by rw [busy.firmware]) agrees
  rintro ⟨transportResult,address⟩ left ⟨busy,agrees⟩
  have grown : Grown world left := busy.harmless.grown
  refine leaves_changeFirmware_then ?_
  have stored : Accounted { left with firmware := { left.firmware with initdataAddress := address } } :=
    ⟨agrees.balanced.of_masks rfl rfl,agrees.bound,agrees.known⟩
  refine Leaves.bind (finishOperation_finishes env .publishInitdata startMs deadlineMs transportResult _) ?_ ?_
  · rintro reason last ⟨result,turn,endMs,bad,_⟩
    cases bad
  rintro result last ⟨_,turn,endMs,_,finishes⟩
  have isLast := finishes.left_eq
  subst isLast
  have grown' : Grown left (told { left with firmware := { left.firmware with initdataAddress := address } } turn
    (.finished .publishInitdata startMs deadlineMs endMs transportResult)) := ⟨[_],rfl⟩
  have agrees' : Accounted (told { left with firmware := { left.firmware with initdataAddress := address } } turn
    (.finished .publishInitdata startMs deadlineMs endMs transportResult)) := { stored with }
  have masks := congrArg Firmware.completedMask busy.firmware
  have phase := congrArg Firmware.phase busy.firmware
  split
  all_goals exact ends (grown.trans grown') masks phase agrees'

private theorem bootOperation_takes (accounted : Accounted world) :
    Leaves (bootOperation env) world (Takes .ascRunning world) := by
  have balanced := accounted.balanced
  have owed : owes (oweAsc world.firmware) .ascRunning = true := by simp [owes,oweAsc,setStep]
  have owing : Accounted { world with firmware := oweAsc world.firmware } := by
    refine ⟨{ balanced with cleanup := fun step set => ?_, running := fun _ => owed },accounted.bound,accounted.known⟩
    simp only [oweAsc,setStep] at set
    split at set
    · assumption
    exact balanced.cleanup step set
  refine leaves_changeFirmware_then ?_
  have boots : ∀ turn deadline, Leaves (providerBootAsc env deadline)
      { world with firmware := oweAsc world.firmware, turn := turn }
      (Gains .ascRunning True { world with firmware := oweAsc world.firmware }) := fun turn deadline =>
    Leaves.mono (bootAsc_gains env deadline (owing.waited turn) owed)
      (fun _ _ post => { post with })
  have takes : Leaves (operation env .bootAsc ascBootTimeoutMs (providerBootAsc env)) _
      (Takes .ascRunning { world with firmware := oweAsc world.firmware }) := operation_takes env owing (.inr trivial) boots
  exact Leaves.mono takes (fun _ _ post => { post with })

private theorem startOrder_takes : ∀ entry ∈ startOrder env, ∀ here, Accounted here →
    Leaves entry.2.2 here (Takes entry.1 here) := by
  intro entry mem here accounted
  have moved : ∀ {step : FirmwareStep} {again : Prop} {turn : Nat} {answer : Except Hung Bool} {left : World},
      Gains step again { here with turn := turn } answer left → Gains step again here answer left :=
    fun post => { post with }
  simp only [startOrder,mem_cons,not_mem_nil,or_false] at mem
  rcases mem with rfl | rfl | rfl | rfl | rfl | rfl | rfl | rfl | rfl
  · exact operation_takes env accounted (.inl rfl) (fun turn deadline =>
      Leaves.mono (powerOn_gains env deadline (accounted.waited turn)) (fun _ _ => moved))
  · exact operation_takes env accounted (.inl rfl) (fun turn deadline =>
      Leaves.mono (createUat_gains env deadline (accounted.waited turn)) (fun _ _ => moved))
  · exact bootOperation_takes env accounted
  · exact operation_takes env accounted (.inr trivial) (fun turn deadline =>
      Leaves.mono (startEndpoint_gains env deadline (.inl ⟨rfl,rfl⟩) (accounted.waited turn)) (fun _ _ => moved))
  · exact operation_takes env accounted (.inr trivial) (fun turn deadline =>
      Leaves.mono (startEndpoint_gains env deadline (.inr ⟨rfl,rfl⟩) (accounted.waited turn)) (fun _ _ => moved))
  · exact publishOperation_takes env accounted
  · refine leaves_current_then ?_
    exact operation_takes env accounted (.inr trivial) (fun turn deadline =>
      Leaves.mono (sendInitdata_gains env _ deadline (accounted.waited turn)) (fun _ _ => moved))
  all_goals
    exact operation_takes env accounted (.inr trivial) (fun turn deadline =>
      Leaves.mono (whilePublished_gains env _ (by simp) (by simp [Unmatched]) (accounted.waited turn)) (fun _ _ => moved))

end

/-- What the steps of a start leave. -/
structure Rises (world : World) (answer : Except Hung FirmwareResult) (left : World) : Prop where
  grown : Grown world left
  accounted : Since Harmless world left → ∀ result, answer = .ok result → Accounted left
  phase : Since Harmless world left → ∀ result, answer = .ok result → left.firmware.phase ≠ .stopped

private theorem startStep_rises {phase : FirmwarePhase} {run : Action FirmwareResult} (moves : phase ≠ .stopped)
    (takes : Leaves run world (Takes step world)) (here : world.firmware.phase ≠ .stopped) :
    Leaves (startStep step phase run) world (Rises world) := by
  refine Leaves.bind takes ?_ ?_
  · exact fun reason left post => ⟨post.grown,nofun,nofun⟩
  intro result left post
  split
  · rename_i ok
    subst ok
    refine ⟨post.grown,fun since _ _ => ?_,fun _ _ _ => moves⟩
    have went := post.went since rfl
    exact ⟨went.1.of_masks rfl rfl,went.2.1,went.2.2⟩
  rename_i fails
  rw [leaves_pure]
  exact ⟨post.grown,fun since _ _ => post.failed since result rfl fails,fun _ _ _ => by rw [post.phase]; exact here⟩

variable {origin : List Event}

private theorem startSteps_rises (env : Environment) (order : List (FirmwareStep × FirmwarePhase × Action FirmwareResult))
    (keep : ∀ entry ∈ order, ∀ origin, KeepsTrack env origin entry.2.2)
    (take : ∀ entry ∈ order, ∀ here, Accounted here → Leaves entry.2.2 here (Takes entry.1 here))
    (phases : ∀ entry ∈ order, entry.2.1 ≠ .stopped) (tracked : Tracked env.retireMappingsAfterAscStop origin world)
    (accounted : Accounted world) (phase : world.firmware.phase ≠ .stopped) :
    Leaves (startSteps order) world (Rises world) := by
  induction order generalizing origin world with
  | nil => exact ⟨suffix_rfl,fun _ _ _ => accounted,fun _ _ _ => phase⟩
  | cons entry rest ih =>
  obtain ⟨step,next,run⟩ := entry
  have keepRest : ∀ entry ∈ rest, ∀ origin, KeepsTrack env origin entry.2.2 :=
    fun entry mem => keep entry (mem_cons_of_mem _ mem)
  have tracks := startStep_tracks env step next (keep _ mem_cons_self origin) world tracked
  have rises := startStep_rises (phases _ mem_cons_self) (take _ mem_cons_self world accounted) phase
  refine Leaves.bind (tracks.both rises) ?_ ?_
  · exact fun reason left post => ⟨post.2.grown,by rintro _ _ ⟨⟩, by rintro _ _ ⟨⟩⟩
  rintro result left ⟨kept,first⟩
  split
  · exact ⟨first.grown,fun since _ _ => first.accounted since result rfl,fun since _ _ => first.phase since result rfl⟩
  refine (Tracked.extend kept (startSteps_tracks env rest (fun entry mem => keepRest entry mem _))
    (fun fine : Accounted left ∧ left.firmware.phase ≠ .stopped => ih keepRest
      (fun entry mem => take entry (mem_cons_of_mem _ mem)) (fun entry mem => phases entry (mem_cons_of_mem _ mem))
      kept fine.1 fine.2)).mono ?_
  rintro answer last ⟨tracked',rest'⟩
  have grown : Grown left last := tracked'.past
  have early : Since Harmless world last → Rises left answer last := fun since =>
    rest' ⟨first.accounted (since.split first.grown grown).1 result rfl,first.phase (since.split first.grown grown).1 result rfl⟩
  exact ⟨first.grown.trans grown,fun since => (early since).accounted (since.split first.grown grown).2,
    fun since => (early since).phase (since.split first.grown grown).2⟩

/-- The two records agree, and nothing is owed once the coordinator has stopped. -/
structure Steady (world : World) : Prop where
  accounted : Accounted world
  stopped : world.firmware.phase = .stopped → Empty world.firmware

/-- What a call leaves of a steady world. -/
structure Settles {α : Type} (world : World) (answer : Except Hung α) (left : World) : Prop where
  grown : Grown world left
  steady : Since Harmless world left → ∀ result, answer = .ok result → Steady left

private theorem initialized_steady (handoffInitialized : Bool) : Steady (initializedWorld handoffInitialized) where
  accounted := {
    balanced := ⟨rfl,nofun,rfl,rfl,(by simp [initializedWorld,onlyInitialized]), nofun,nofun,
      (by simp [initializedWorld,onlyInitialized])⟩
    bound := rfl
    known := (initialized_tracked true handoffInitialized).lock }
  stopped := nofun

theorem rollback_settles (env : Environment) (passive : ∀ turn, env.isPassiveLevel turn = true)
    (tracked : Tracked env.retireMappingsAfterAscStop origin world) (accounted : Accounted world) :
    Leaves (firmwareRollback env) world (Settles world) :=
  (rollback_rolls env passive tracked accounted).mono (fun _ _ rolls =>
    ⟨rolls.grown,fun since result went => ⟨rolls.accounted since result went,rolls.stopped result went⟩⟩)

/-- What the steps of a start leave, the refusal included. -/
structure BringsUp (world : World) (answer : Except Hung (Option FirmwareResult)) (left : World) : Prop where
  grown : Grown world left
  refused : answer = .ok none → left = world
  accounted : Since Harmless world left → ∀ result, answer = .ok (some result) → Accounted left
  phase : Since Harmless world left → ∀ result, answer = .ok (some result) → left.firmware.phase ≠ .stopped

theorem bringUp_bringsUp (env : Environment)
    (tracked : Tracked env.retireMappingsAfterAscStop origin world) (accounted : Accounted world) :
    Leaves (firmwareBringUp env) world (BringsUp world) := by
  refine leaves_current_then ?_
  split
  · exact ⟨suffix_rfl,fun _ => rfl,by rintro _ _ ⟨⟩,by rintro _ _ ⟨⟩⟩
  refine leaves_changeFirmware_then ?_
  have begun : Accounted { world with
      firmware := { world.firmware with phase := .off, initdataAddress := 0, lastResult := .ok } } :=
    ⟨accounted.balanced.of_masks rfl rfl,accounted.bound,accounted.known⟩
  have tracked' : Tracked env.retireMappingsAfterAscStop origin { world with
      firmware := { world.firmware with phase := .off, initdataAddress := 0, lastResult := .ok } } := tracked.same rfl rfl rfl
  refine Leaves.bind (startSteps_rises env (startOrder env) (fun entry mem origin => startOrder_tracks env entry mem)
    (startOrder_takes env) (by simp [startOrder]) tracked' begun (by simp)) ?_ ?_
  · exact fun reason left post => ⟨post.grown,by rintro ⟨⟩, by rintro _ _ ⟨⟩,by rintro _ _ ⟨⟩⟩
  exact fun result left post => ⟨post.grown,by rintro ⟨⟩,
    fun since _ _ => post.accounted since result rfl,fun since _ _ => post.phase since result rfl⟩

theorem Accounted.failed (accounted : Accounted world) (failure : FirmwareResult) : Accounted { world with firmware := firmwareFail failure world.firmware } :=
  ⟨accounted.balanced.of_masks rfl rfl,accounted.bound,accounted.known⟩

section
variable (env) (passive : ∀ turn, env.isPassiveLevel turn = true)
include passive

private theorem abortStart_settles (failure : FirmwareResult) (tracked : Tracked env.retireMappingsAfterAscStop origin world)
    (accounted : Accounted world) : Leaves (abortStart env failure) world (Settles world) := by
  have failed : Tracked env.retireMappingsAfterAscStop origin { world with firmware := firmwareFail failure world.firmware } :=
    tracked.same rfl rfl rfl
  refine leaves_changeFirmware_then ?_
  refine Leaves.bind (rollback_settles env passive failed (accounted.failed failure)) ?_ ?_
  · exact fun reason left post => ⟨post.grown,nofun⟩
  intro result left post
  split
  · exact ⟨post.grown,fun since _ _ => post.steady since result rfl⟩
  refine ⟨post.grown,fun since _ _ => ?_⟩
  have steady := post.steady since result rfl
  exact ⟨⟨steady.accounted.balanced.of_masks rfl rfl,steady.accounted.bound,steady.accounted.known⟩,steady.stopped⟩

private theorem serve_settles (request : Request) (tracked : Tracked env.retireMappingsAfterAscStop origin world)
    (steady : Steady world) : Leaves (serve env request) world (Settles world) := by
  cases request with
  | rollback => exact rollback_settles env passive tracked steady.accounted
  | start =>
  have risen := Tracked.extend tracked (bringUp_tracks env) (fun _ : True => bringUp_bringsUp env tracked steady.accounted)
  refine Leaves.bind risen ?_ ?_
  · rintro reason left ⟨kept,post⟩
    exact ⟨kept.past,nofun⟩
  rintro risen left ⟨kept,post⟩
  have brings := post trivial
  have grown : Grown world left := kept.past
  split
  · rw [leaves_pure,brings.refused rfl]
    exact ⟨suffix_rfl,fun _ _ _ => steady⟩
  · exact ⟨grown,fun since _ _ => ⟨brings.accounted since _ rfl,fun stopped => absurd stopped (brings.phase since _ rfl)⟩⟩
  rename_i failure _
  have aborts := Tracked.extend kept (abortStart_tracks env failure)
    (fun accounted : Accounted left => abortStart_settles env passive failure kept accounted)
  refine aborts.mono ?_
  rintro answer last ⟨kept',settles⟩
  have grown' : Grown left last := kept'.past
  refine ⟨grown.trans grown',fun since result went => ?_⟩
  have parts := since.split grown grown'
  exact (settles (brings.accounted parts.1 _ rfl)).steady parts.2 result went

end

/-- A run in which nothing has parted the two records. -/
def Recoverable (world : World) : Prop := ∀ event ∈ world.history, Harmless event

theorem Recoverable.before {left : World} (recoverable : Recoverable left) (grown : Grown world left) :
    Recoverable world ∧ Since Harmless world left := by
  obtain ⟨later,grown⟩ := grown
  unfold Recoverable at *
  rw [← grown] at recoverable
  exact ⟨fun event mem => recoverable event (mem_append.mpr (.inr mem)),
    later,grown.symm,fun event mem => recoverable event (mem_append.mpr (.inl mem))⟩

theorem reached_steady {env : Environment} (passive : ∀ turn, env.isPassiveLevel turn = true)
    (reached : Reached env world) (recoverable : Recoverable world) : Steady world := by
  induction reached with
  | initialized handoffInitialized => exact initialized_steady handoffInitialized
  | @served world left request result reached serves ih =>
    have tracked := reached_tracked reached
    have kept : Tracked env.retireMappingsAfterAscStop world.history left := by
      have kept := serve_tracks env request world tracked.restart
      unfold Leaves at kept
      rw [serves] at kept
      exact kept
    obtain ⟨before,since⟩ := recoverable.before kept.past
    have settles := serve_settles env passive request tracked (ih before)
    unfold Leaves at settles
    rw [serves] at settles
    exact settles.steady since result rfl
  | @aborted world left failure reached fails rises ih =>
  have tracked := reached_tracked reached
  have kept : Tracked env.retireMappingsAfterAscStop world.history left := by
    have kept := bringUp_tracks env world tracked.restart
    unfold Leaves at kept
    rw [rises] at kept
    exact kept
  have recoverable' : Recoverable left := recoverable
  obtain ⟨before,since⟩ := recoverable'.before kept.past
  have brings := bringUp_bringsUp env tracked (ih before).accounted
  unfold Leaves at brings
  rw [rises] at brings
  exact ⟨(brings.accounted since _ rfl).failed failure,nofun⟩

/-- The bring-up is undone: nothing is recorded as held, and the next start is possible. -/
def Undone (world : World) : Prop :=
  world.firmware.phase = .stopped ∧ world.provider.state = onlyInitialized ∧ world.handoff.locked = false

/-- **The bring-up can be undone.** As long as no callback that can go through only once did so late, and the coprocessor
    is not stopped while an endpoint is still to be stopped, a stopped coordinator has left nothing behind, and a rollback
    without a failure stops it. -/
theorem firmware_recovers (env : Environment) (passive : ∀ turn, env.isPassiveLevel turn = true) {world : World}
    (reached : Reached env world) (recoverable : Recoverable world) : (world.firmware.phase = .stopped → Undone world) ∧
      Leaves (firmwareRollback env) world (fun answer left => Since Smooth world left → answer = .ok .ok ∧ Undone left) := by
  have steady := reached_steady passive reached recoverable
  have undone : ∀ {left : World}, Accounted left → Empty left.firmware → left.firmware.phase = .stopped → Undone left :=
    fun accounted empty stopped =>
      ⟨stopped,accounted.balanced.empty (fun step => (empty step).1) (fun step => (empty step).2)⟩
  refine ⟨fun stopped => undone steady.accounted (steady.stopped stopped) stopped,?_⟩
  refine (rollback_rolls env passive (reached_tracked reached) steady.accounted).mono (fun answer left rolls smooth => ?_)
  obtain ⟨ok,stopped,harmless⟩ := rolls.smooth.2 smooth
  exact ⟨ok,undone (rolls.accounted harmless _ ok) (rolls.stopped _ ok stopped) stopped⟩

/-- Everything goes well but the clock, which is past the deadline once the power is on. -/
def lateClock : Environment := { willing with nowMs := fun turn => if turn < 3 then 0 else 10000 }
private theorem lateClock_answers : (serve lateClock .start (initializedWorld false)).1 = .ok .timeout := by decide +kernel
theorem lateClock_leaves : (serve lateClock .start (initializedWorld false)).2.firmware.phase = .stopped ∧
    (serve lateClock .start (initializedWorld false)).2.provider.state.powered = true := by decide +kernel

/-- A power that comes up late stays up behind a coordinator that has stopped. -/
theorem late_power_stays_up : ¬ ∀ (env : Environment), (∀ turn, env.isPassiveLevel turn = true) →
    ∀ world, Reached env world → world.firmware.phase = .stopped → Undone world := by
  intro claim
  have undone := claim lateClock (fun _ => rfl) _ (Reached.after (.initialized false) .start lateClock_answers) lateClock_leaves.1
  have powered := lateClock_leaves.2
  rw [undone.2.1] at powered
  cases powered

def harmless : Event → Bool
  | .finished callback startMs deadlineMs endMs transportResult =>
    !(onceOnly callback && transportResult) || (decide (startMs ≤ endMs) && decide (endMs ≤ deadlineMs))
  | .called firmware _ (.stopAsc _) true => !firmware.completedMask .endpoint && !firmware.completedMask .doorbellEndpoint
  | _ => true

theorem harmless_iff (event : Event) : harmless event = true ↔ Harmless event := by
  cases event with
  | called firmware state primitive answer => cases primitive <;> cases answer <;> simp [harmless,Harmless]
  | finished callback startMs deadlineMs endMs transportResult =>
    cases transportResult <;> cases h : onceOnly callback <;> simp [harmless,Harmless,h]
  | _ => simp [harmless,Harmless]

theorem willing_recoverable : Recoverable (serve willing .start (initializedWorld false)).2 := by
  have all : (serve willing .start (initializedWorld false)).2.history.all harmless = true := by decide +kernel
  exact fun event mem => (harmless_iff event).mp (all_eq_true.mp all event mem)

/-- A start that goes well, and the rollback behind it. -/
theorem firmware_recovers_started : ((serve willing .start (initializedWorld false)).2.firmware.phase = .stopped →
        Undone (serve willing .start (initializedWorld false)).2) ∧
      Leaves (firmwareRollback willing) (serve willing .start (initializedWorld false)).2 (fun answer left =>
        Since Smooth (serve willing .start (initializedWorld false)).2 left → answer = .ok .ok ∧ Undone left) :=
  firmware_recovers willing (fun _ => rfl) (Reached.after (.initialized false) .start willing_started) willing_recoverable

/-- **The two records agree.** In every state of a recoverable run the steps that the coordinator completed are those that the
    provider holds. -/
theorem records_agree (env : Environment) (passive : ∀ turn, env.isPassiveLevel turn = true) {world : World}
    (reached : Reached env world) (recoverable : Recoverable world) :
    Balanced world.firmware world.provider.state world.handoff.locked :=
  (reached_steady passive reached recoverable).accounted.balanced

theorem records_agree_started : Balanced (serve willing .start (initializedWorld false)).2.firmware
    (serve willing .start (initializedWorld false)).2.provider.state (serve willing .start (initializedWorld false)).2.handoff.locked :=
  records_agree willing (fun _ => rfl) (Reached.after (.initialized false) .start willing_started) willing_recoverable

end WindowsOnM1.FirmwareRecovery
