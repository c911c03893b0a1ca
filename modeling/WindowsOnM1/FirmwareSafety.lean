import WindowsOnM1.FirmwareProvider

/-!
The firmware's memory outlives the coprocessor. What the primitives have been told is read
off the history: whether the coprocessor may run, which root pair is published, which
address space is in force, and who holds the handoff lock. Every call of the coordinator
keeps the provider's records in step with it, and so keeps the calls in order.
-/
namespace WindowsOnM1.FirmwareSafety
open Attempts FirmwareProvider List
open BackendFirmware (U32 U64 FirmwareStep Firmware FirmwarePhase FirmwareResult firmwareFail)

/-- What the calls of `BootAsc` and `StopAsc` mean for the coprocessor. -/
inductive AscLife
  | idle | started | stopped
deriving DecidableEq

/-- The coprocessor may run from a call of `BootAsc` on, whatever it answered, until a `StopAsc` succeeds. -/
def ascLife : List Event → AscLife
  | [] => .idle
  | .called _ _ (.bootAsc _) _ :: _ => .started
  | .called _ _ (.stopAsc _) true :: _ => .stopped
  | _ :: earlier => ascLife earlier

/-- The root pair that was published last and not taken back. -/
def roots : List Event → Option TtbrPair
  | [] => none
  | .called _ _ (.publishUatRoots pair) true :: _ => some pair
  | .called _ _ .unpublishUatRoots true :: _ => none
  | _ :: earlier => roots earlier

/-- The root pair and the address of the `CreateFirmwareUat` that is in force. -/
def uatInForce : List Event → Option (TtbrPair × U64)
  | [] => none
  | .created _ true pair address :: earlier =>
    if pair.ttbr0 = 0 ∨ pair.ttbr1 = 0 ∨ address = 0 then uatInForce earlier else some (pair,address)
  | .called _ _ (.destroyFirmwareUat _) true :: _ => none
  | _ :: earlier => uatInForce earlier

inductive Lock
  | free | asked | held
deriving DecidableEq

/-- The handoff lock: it is asked for by the flag of this side, and held once the flag of the firmware was down. -/
def lock : List Event → Lock
  | [] => .free
  | .wrote _ offset value true :: earlier =>
    if offset = lockApOffset then if value = 0 then .free else .asked else lock earlier
  | .read _ offset (some value) :: earlier =>
    if offset = lockFwOffset ∧ value = 0 ∧ lock earlier = .asked then .held else lock earlier
  | _ :: earlier => lock earlier

section
variable {bits offset : Nat} {earlier : List Event}

@[simp] theorem lock_wrote_failed {value : BitVec bits} : lock (.wrote bits offset value false :: earlier) = lock earlier := rfl
@[simp] theorem lock_read_failed : lock (.read bits offset none :: earlier) = lock earlier := rfl

theorem lock_wrote_other {value : BitVec bits} {answer : Bool} (other : offset ≠ lockApOffset) :
    lock (.wrote bits offset value answer :: earlier) = lock earlier := by
  cases answer with
  | false => rfl
  | true => exact if_neg other

theorem lock_read_other {value : Option (BitVec bits)} (other : offset ≠ lockFwOffset) :
    lock (.read bits offset value :: earlier) = lock earlier := by
  cases value with
  | none => rfl
  | some value => exact if_neg (fun both => other both.1)

theorem lock_flag_up : lock (.wrote 8 lockApOffset 1 true :: earlier) = .asked := rfl
theorem lock_flag_down : lock (.wrote 8 lockApOffset 0 true :: earlier) = .free := rfl
private theorem lock_read_down (flag : lock earlier = .asked) : lock (.read 8 lockFwOffset (some 0) :: earlier) = .held :=
  if_pos ⟨rfl,rfl,flag⟩
theorem lock_read_up {fw : BitVec 8} (up : fw ≠ 0) : lock (.read 8 lockFwOffset (some fw) :: earlier) = lock earlier :=
  if_neg (fun all => up all.2.1)

end

/-- A publication whose lock release failed at one of its two writes. -/
inductive ReleaseFailed : List Event → Prop
  | turn (firmware : Firmware) (state : ProviderState) (pair : TtbrPair) (earlier : List Event) :
    ReleaseFailed (.wrote 32 turnOffset 1 false :: .called firmware state (.publishUatRoots pair) true :: earlier)
  | flag (firmware : Firmware) (state : ProviderState) (pair : TtbrPair) (earlier : List Event) :
    ReleaseFailed (.wrote 8 lockApOffset 0 false :: .wrote 32 turnOffset 1 true ::
      .called firmware state (.publishUatRoots pair) true :: earlier)

/-- Whether a primitive may be called behind a history. -/
def Permitted (retire : Bool) (earlier : List Event) (state : ProviderState) : Primitive → Prop
  | .destroyFirmwareUat _ => ascLife earlier ≠ .started ∧ roots earlier = none
  | .powerOff _ => state.uat = false ∧ state.asc = false ∧ state.published = false ∧
      uatInForce earlier = none ∧ ascLife earlier ≠ .started ∧ roots earlier = none
  | .publishUatRoots pair => lock earlier = .held ∧ ∃ address, uatInForce earlier = some (pair,address)
  | .unpublishUatRoots => lock earlier = .held ∧ (retire → ascLife earlier = .stopped ∨ ReleaseFailed earlier)
  | .sendInitdata address _ => ∃ pair, uatInForce earlier = some (pair,address) ∧ roots earlier = some pair
  | _ => True

/-- Every call of a history was permitted where it was made. -/
def Ordered (retire : Bool) : List Event → Prop
  | [] => True
  | .called _ state primitive _ :: earlier => Permitted retire earlier state primitive ∧ Ordered retire earlier
  | _ :: earlier => Ordered retire earlier

/-- An access of the handoff or a receipt: no call of a primitive, and no end of an operation. -/
def Quiet : Event → Prop
  | .read .. | .wrote .. | .checked .. | .recorded .. => True
  | _ => False

/-- A stretch without calls: the provider and the coordinator have not recorded anything. -/
structure Quietly (world left : World) : Prop where
  firmware : left.firmware = world.firmware
  provider : left.provider = world.provider
  bound : left.handoff.bound = world.handoff.bound
  history : ∃ later, left.history = later ++ world.history ∧ ∀ event ∈ later, Quiet event

/-- The provider's flag of the lock and the lock itself agree. -/
def LockKnown (world : World) : Prop := world.handoff.locked = true ↔ lock world.history = .held

namespace Quietly

theorem refl (world : World) : Quietly world world := ⟨rfl,rfl,rfl,[],rfl,by simp⟩

theorem trans {first second third : World} (before : Quietly first second) (after : Quietly second third) :
    Quietly first third := by
  obtain ⟨later,grown,quiet⟩ := before.history
  obtain ⟨later',grown',quiet'⟩ := after.history
  refine ⟨after.firmware.trans before.firmware,after.provider.trans before.provider,after.bound.trans before.bound,
    later' ++ later,by rw [grown',grown,append_assoc],?_⟩
  intro event mem
  rcases mem_append.mp mem with mem | mem
  · exact quiet' event mem
  exact quiet event mem

theorem next {origin world : World} (before : Quietly origin world) (event : Event) (quiet : Quiet event) (turn : Nat) :
    Quietly origin { world with turn := turn, history := event :: world.history } :=
  before.trans ⟨rfl,rfl,rfl,[event],rfl,by simpa using quiet⟩
theorem read {origin world : World} (before : Quietly origin world) (bits offset : Nat) (value : Option (BitVec bits))
    (turn : Nat) : Quietly origin { world with turn := turn, history := .read bits offset value :: world.history } :=
  before.next (.read bits offset value) trivial turn
theorem wrote {origin world : World} (before : Quietly origin world) (bits offset : Nat) (value : BitVec bits)
    (answer : Bool) (turn : Nat) :
    Quietly origin { world with turn := turn, history := .wrote bits offset value answer :: world.history } :=
  before.next (.wrote bits offset value answer) trivial turn
theorem wait {origin world : World} (before : Quietly origin world) (turn : Nat) :
    Quietly origin { world with turn := turn } :=
  { before with }

end Quietly

private theorem quiet_folds {later : List Event} (quiet : ∀ event ∈ later, Quiet event) (earlier : List Event) (retire : Bool) :
    ascLife (later ++ earlier) = ascLife earlier ∧ roots (later ++ earlier) = roots earlier ∧
      uatInForce (later ++ earlier) = uatInForce earlier ∧ (Ordered retire (later ++ earlier) ↔ Ordered retire earlier) := by
  induction later with
  | nil => exact ⟨rfl,rfl,rfl,Iff.rfl⟩
  | cons event later ih =>
  have rest := ih (fun event mem => quiet event (mem_cons_of_mem _ mem))
  have first := quiet event mem_cons_self
  cases event with
  | read | wrote | checked | recorded => exact rest
  | _ => exact first.elim

/-- What an action on the handoff leaves: nothing but the lock has moved, and its flag is right. -/
def Handled (world left : World) : Prop := Quietly world left ∧ LockKnown left

variable {origin world : World}

variable (env : Environment) (start timeout : U64) (rounds : Nat)

/-- What holds in an attempt to get the lock while its flag is up, while it is down, and behind it. -/
structure Attempting (up down : World → Prop) (post : Except Hung HandoffResult → World → Prop) : Prop where
  looks : ∀ {world} turn (fw : Option (BitVec 8)), up world → fw ≠ some 0 → up (told world turn (.read 8 lockFwOffset fw))
  contends : ∀ {world} turn (value : Option (BitVec 32)), up world → up (told world turn (.read 32 turnOffset value))
  yields : ∀ {world} turn, up world → down (told world turn (.wrote 8 lockApOffset 0 true))
  waits : ∀ {world} turn (value : Option (BitVec 32)), down world → down (told world turn (.read 32 turnOffset value))
  returns : ∀ {world} turn, down world → up (told world turn (.wrote 8 lockApOffset 1 true))
  passes : ∀ {world : World} turn, (up world → up { world with turn := turn }) ∧ (down world → down { world with turn := turn })
  got : ∀ {world} turn, up world → post (.ok .ok)
    { told world turn (.read 8 lockFwOffset (some 0)) with handoff := { world.handoff with locked := true } }
  refused : ∀ {world result}, down world → result ≠ .ok → post (.ok result) world
  failed : ∀ {world} turn value, (value = 0 ∧ up world) ∨ (value = 1 ∧ down world) →
    post (.ok .accessFailed) (told world turn (.wrote 8 lockApOffset value false))
  hangs : ∀ {world}, up world ∨ down world → post (.error .handoff) world

namespace Attempting

variable {up down : World → Prop} {post : Except Hung HandoffResult → World → Prop}

section
variable (attempting : Attempting up down post)
include attempting

theorem relinquish {result : HandoffResult} (raised : up world) (fails : result ≠ .ok) :
    Leaves (FirmwareProvider.relinquish env result) world post := by
  refine leaves_write_then (fun turn answer => ?_)
  cases answer with
  | true => exact attempting.refused (attempting.yields turn raised) fails
  | false => exact attempting.failed turn 0 (.inl ⟨rfl,raised⟩)

theorem awaitTurn (lowered : down world) :
    Leaves (FirmwareProvider.awaitTurn env start timeout rounds) world (fun answer left => down left ∧ answer ≠ .ok (some .ok)) := by
  induction rounds generalizing world with
  | zero => exact ⟨lowered,nofun⟩
  | succ rounds ih =>
  refine leaves_read_then (fun turn value => ?_)
  have still := attempting.waits turn value lowered
  cases value with
  | none => exact ⟨still,nofun⟩
  | some back =>
  dsimp only
  split
  · exact ⟨still,nofun⟩
  refine leaves_timedOut_then (fun turn' out => ?_)
  have still := (attempting.passes turn').2 still
  split
  · exact ⟨still,nofun⟩
  exact ih still

/-- A round in which the flag of the firmware is up; the next round starts with the flag of this side up. -/
theorem contend {again : Action HandoffResult} (next : ∀ left, up left → Leaves again left post) (raised : up world) :
    Leaves (FirmwareProvider.contend env start timeout again) world post := by
  refine leaves_read_then (fun turn value => ?_)
  have still := attempting.contends turn value raised
  cases value with
  | none => exact attempting.relinquish env still (by decide)
  | some theirs =>
  dsimp only
  split
  · refine leaves_write_then (fun turn answer => ?_)
    cases answer with
    | false => exact attempting.failed turn 0 (.inl ⟨rfl,still⟩)
    | true =>
    refine Leaves.bind (attempting.awaitTurn env start timeout _ (attempting.yields turn still))
      (fun reason left post => by cases reason; exact attempting.hangs (.inr post.1)) (fun outcome left post => ?_)
    cases outcome with
    | some result => exact attempting.refused post.1 (by simpa using post.2)
    | none =>
    refine leaves_write_then (fun turn answer => ?_)
    cases answer with
    | false => exact attempting.failed turn 1 (.inr ⟨rfl,post.1⟩)
    | true => exact next _ (attempting.returns turn post.1)
  refine leaves_timedOut_then (fun turn out => ?_)
  have still := (attempting.passes turn).1 still
  split
  · exact attempting.relinquish env still (by decide)
  exact next _ still

theorem acquireLoop (raised : up world) :
    Leaves (FirmwareProvider.acquireLoop env start timeout rounds) world post := by
  induction rounds generalizing world with
  | zero => exact attempting.hangs (.inl raised)
  | succ rounds ih =>
  refine leaves_read_then (fun turn value => ?_)
  cases value with
  | none => exact attempting.relinquish env (attempting.looks turn none raised nofun) (by decide)
  | some fw =>
  dsimp only
  split
  · rename_i down
    subst down
    exact attempting.got turn raised
  rename_i other
  exact attempting.contend env start timeout (fun left raised => ih raised)
    (attempting.looks turn (some fw) raised (fun same => other (Option.some_inj.mp same)))

end

end Attempting

/-- What an attempt to get the lock leaves: it is held exactly when the attempt succeeds. -/
def Acquires (origin : World) (answer : Except Hung HandoffResult) (left : World) : Prop :=
  Handled origin left ∧ (left.handoff.locked = true ↔ answer = .ok .ok)

variable {answer : Except Hung HandoffResult}

theorem Acquires.refused {left : World} (quiet : Quietly origin left)
    (free : left.handoff.locked = false) (known : lock left.history ≠ .held) (fails : answer ≠ .ok .ok) :
    Acquires origin answer left := by
  refine ⟨⟨quiet,?_⟩,?_⟩
  · simpa [LockKnown,free] using known
  simpa [free] using fails

/-- An attempt that has got nowhere yet, with its flag up or down. -/
def Trying (origin : World) (flag : Lock) (world : World) : Prop :=
  Quietly origin world ∧ world.handoff.locked = false ∧ lock world.history = flag

theorem acquiring : Attempting (Trying origin .asked) (Trying origin .free) (Acquires origin) where
  looks := by
    refine fun turn fw trying up => ⟨trying.1.read _ _ _ _,trying.2.1,?_⟩
    cases fw with
    | none => exact trying.2.2
    | some fw => exact (lock_read_up (fun down => up (congrArg some down))).trans trying.2.2
  contends := fun turn value trying => ⟨trying.1.read _ _ _ _,trying.2.1,(lock_read_other (by decide)).trans trying.2.2⟩
  yields := fun turn trying => ⟨trying.1.wrote _ _ _ _ _,trying.2.1,lock_flag_down⟩
  waits := fun turn value trying => ⟨trying.1.read _ _ _ _,trying.2.1,(lock_read_other (by decide)).trans trying.2.2⟩
  returns := fun turn trying => ⟨trying.1.wrote _ _ _ _ _,trying.2.1,lock_flag_up⟩
  passes := fun turn => ⟨fun trying => ⟨trying.1.wait turn,trying.2⟩,fun trying => ⟨trying.1.wait turn,trying.2⟩⟩
  got := fun turn trying => ⟨⟨{ trying.1.read 8 lockFwOffset (some 0) turn with },iff_of_true rfl (lock_read_down trying.2.2)⟩,by simp⟩
  refused := fun trying fails => .refused trying.1 trying.2.1 (by simp [trying.2.2]) (fun ok => fails (Except.ok.inj ok))
  failed := by
    rintro world turn value (⟨-,trying⟩ | ⟨-,trying⟩)
    all_goals exact .refused (trying.1.wrote _ _ _ _ _) trying.2.1 (by simp [trying.2.2]) nofun
  hangs := by
    rintro world (trying | trying)
    all_goals exact .refused trying.1 trying.2.1 (by simp [trying.2.2]) nofun

theorem handoffAcquire_acquires (before : Quietly origin world) (known : LockKnown world) :
    Leaves (handoffAcquire env timeout) world (fun answer left => Handled origin left ∧
      (answer = .ok .ok → left.handoff.locked = true) ∧ (answer ≠ .ok .ok → left.handoff.locked = world.handoff.locked)) := by
  refine leaves_current_then ?_
  split
  · rw [leaves_pure]
    exact ⟨⟨before,known⟩,by simp,fun _ => rfl⟩
  rename_i usable
  have free : world.handoff.locked = false := by simpa using (not_or.mp usable).2
  have notHeld : lock world.history ≠ .held := by simpa [LockKnown,free] using known
  have enough : ∀ {answer : Except Hung HandoffResult} {left : World}, Acquires origin answer left →
      Handled origin left ∧ (answer = .ok .ok → left.handoff.locked = true) ∧
        (answer ≠ .ok .ok → left.handoff.locked = world.handoff.locked) := by
    intro answer left acquires
    refine ⟨acquires.1,acquires.2.mpr,fun fails => ?_⟩
    rw [free]
    simpa using fun locked => fails (acquires.2.mp locked)
  refine leaves_ask_then (fun turn start => leaves_write_then (fun turn' answer => ?_))
  have before := before.wait turn
  cases answer with
  | false =>
    rw [if_neg (by decide),leaves_pure]
    exact enough (.refused (before.wrote _ _ _ _ _) free notHeld (by simp))
  | true =>
  exact (acquiring.acquireLoop env start timeout _ ⟨before.wrote _ _ _ _ _,free,lock_flag_up⟩).mono (fun _ _ acquires => enough acquires)

/-- What a release leaves: the lock is free, or one of its two writes failed. -/
inductive Releases (world : World) : Except Hung HandoffResult → World → Prop
  | refused (unusable : ¬ (world.handoff.bound = true ∧ world.handoff.locked = true)) : Releases world (.ok .invalidState) world
  | turn (turn : Nat) (locked : world.handoff.locked = true) : Releases world (.ok .accessFailed)
      { world with turn := turn, history := .wrote 32 turnOffset 1 false :: world.history }
  | flag (turn : Nat) (locked : world.handoff.locked = true) : Releases world (.ok .accessFailed)
      { world with turn := turn, history := .wrote 8 lockApOffset 0 false :: .wrote 32 turnOffset 1 true :: world.history }
  | released (turn : Nat) (locked : world.handoff.locked = true) : Releases world (.ok .ok)
      { world with turn := turn, handoff := { world.handoff with locked := false },
                   history := .wrote 8 lockApOffset 0 true :: .wrote 32 turnOffset 1 true :: world.history }

theorem handoffRelease_releases (world : World) : Leaves (handoffRelease env) world (Releases world) := by
  refine leaves_current_then ?_
  split
  · rename_i unusable
    exact .refused (fun both => unusable.elim (fun unbound => unbound both.1) (fun free => free both.2))
  rename_i usable
  have locked : world.handoff.locked = true := by simpa using (not_or.mp usable).2
  refine leaves_write_then (fun turn answer => ?_)
  cases answer with
  | false => exact .turn turn locked
  | true =>
  refine leaves_write_then (fun turn' answer => ?_)
  cases answer with
  | false => exact .flag turn' locked
  | true => exact .released turn' locked

theorem Releases.handled {left : World} (before : Quietly origin world)
    (known : LockKnown world) (releases : Releases world answer left) : Handled origin left := by
  cases releases with
  | refused unusable => exact ⟨before,known⟩
  | turn turn locked => exact ⟨before.wrote _ _ _ _ _,known⟩
  | flag turn locked =>
    have other : lock (.wrote 32 turnOffset 1 true :: world.history) = lock world.history := lock_wrote_other (by decide)
    have quiet := (before.wrote 32 turnOffset 1 true turn).wrote 8 lockApOffset 0 false turn
    refine ⟨quiet,?_⟩
    unfold LockKnown
    exact known
  | released turn locked =>
  have quiet := (before.wrote 32 turnOffset 1 true turn).wrote 8 lockApOffset 0 true turn
  exact ⟨{ quiet with },iff_of_false (by simp) (by rw [lock_flag_down]; simp)⟩

variable (deadline : U64)

private theorem awaitMagic_handled (rounds : Nat)
    (before : Handled origin world) : Leaves (awaitMagic env deadline rounds) world (fun _ left => Handled origin left) := by
  induction rounds generalizing world with
  | zero => exact before
  | succ rounds ih =>
  refine leaves_read_then (fun turn value => ?_)
  have known : LockKnown { world with turn := turn, history := .read 64 magicFwOffset value :: world.history } := by
    unfold LockKnown
    rw [lock_read_other (by decide)]
    exact before.2
  have quiet := before.1.read 64 magicFwOffset value turn
  cases value with
  | none =>
    refine Leaves.bind (handoffRelease_releases env _) ?_ ?_
    all_goals exact fun _ _ releases => releases.handled quiet known
  | some magic =>
  dsimp only
  split
  · exact ⟨quiet,known⟩
  refine leaves_ask_then (fun turn' now => ?_)
  split
  · refine Leaves.bind (handoffRelease_releases env _) ?_ ?_
    all_goals exact fun _ _ releases => releases.handled (quiet.wait turn') known
  exact ih ⟨quiet.wait turn',known⟩

theorem Handled.wrote_other (before : Handled origin world) {bits : Nat} (offset : Nat)
    (value : BitVec bits) (answer : Bool) (turn : Nat) (other : offset ≠ lockApOffset) :
    Handled origin { world with turn := turn, history := .wrote bits offset value answer :: world.history } := by
  refine ⟨before.1.wrote _ _ _ _ _,?_⟩
  unfold LockKnown
  rw [lock_wrote_other other]
  exact before.2

private theorem clearFlushes_handled (indices : List Nat) (before : Handled origin world) :
    Leaves (clearFlushes env indices) world (fun _ left => Handled origin left) := by
  induction indices generalizing world with
  | nil => exact before
  | cons index rest ih =>
  refine leaves_write_then (fun turn answer => ?_)
  have first := before.wrote_other (flushStateOffset + index * flushStride) (0 : BitVec 64) answer turn (by simp only [flushStateOffset,flushStride,lockApOffset]; omega)
  cases answer with
  | false => exact first
  | true =>
  refine leaves_write_then (fun turn answer => ?_)
  have second := first.wrote_other (flushAddrOffset + index * flushStride) (0 : BitVec 64) answer turn (by simp only [flushAddrOffset,flushStride,lockApOffset]; omega)
  cases answer with
  | false => exact second
  | true =>
  rw [if_pos rfl]
  refine leaves_write_then (fun turn answer => ?_)
  have third := second.wrote_other (flushSizeOffset + index * flushStride) (0 : BitVec 64) answer turn (by simp only [flushSizeOffset,flushStride,lockApOffset]; omega)
  cases answer with
  | false => exact third
  | true => exact ih third

theorem handoffInitialize_handled (before : Handled origin world) :
    Leaves (handoffInitialize env deadline) world (fun _ left => Handled origin left) := by
  refine leaves_current_then ?_
  split
  · exact before
  split
  · exact before
  refine leaves_ask_then (fun turn now => ?_)
  have waited : Handled origin { world with turn := turn } := ⟨before.1.wait turn,before.2⟩
  split
  · exact waited
  refine leaves_write_then (fun turn answer => ?_)
  have wrote := waited.wrote_other magicApOffset pplMagic answer turn (by decide)
  cases answer with
  | false => exact wrote
  | true =>
  refine Leaves.bind (handoffAcquire_acquires env (deadline - now) wrote.1 wrote.2) (fun _ _ post => post.1) ?_
  intro acquired left post
  split
  · exact post.1
  refine Leaves.bind (awaitMagic_handled env deadline _ post.1) (fun _ _ handled => handled) ?_
  intro outcome left handled
  cases outcome with
  | some result => exact handled
  | none =>
  refine Leaves.bind (handoffRelease_releases env left) ?_ ?_
  · exact fun _ _ releases => releases.handled handled.1 handled.2
  intro released left releases
  have handled := releases.handled handled.1 handled.2
  split
  · exact handled
  refine Leaves.bind (clearFlushes_handled env _ handled) (fun _ _ handled => handled) ?_
  intro cleared left handled
  cases cleared with
  | false => exact handled
  | true => exact ⟨⟨handled.1.firmware,handled.1.provider,handled.1.bound,handled.1.history⟩,handled.2⟩

theorem acquireHandoff_acquires (before : Handled origin world) :
    Leaves (acquireHandoff env deadline) world (fun answer left => Handled origin left ∧
      (answer = .ok true → left.handoff.locked = true) ∧ (answer ≠ .ok true → left.handoff.locked = world.handoff.locked)) := by
  refine leaves_asked_then (fun turn now => ?_)
  have waited : Handled origin { world with turn := turn, history := .checked deadline now :: world.history } :=
    ⟨before.1.next (.checked deadline now) trivial turn,before.2⟩
  split
  · exact ⟨waited,nofun,fun _ => rfl⟩
  refine Leaves.bind (handoffAcquire_acquires env (deadline - now) waited.1 waited.2) ?_ ?_
  · exact fun reason left post => ⟨post.1,nofun,fun _ => post.2.2 (by simp)⟩
  intro result left post
  by_cases ok : result = .ok
  · subst ok
    exact ⟨post.1,fun _ => post.2.1 rfl,fun fails => absurd rfl fails⟩
  simp only [ok,decide_false]
  exact ⟨post.1,nofun,fun _ => post.2.2 (fun same => ok (Except.ok.inj same))⟩

/-- What `release_handoff` leaves, over the release of the handoff. -/
theorem releaseHandoff_releases (world : World) :
    Leaves (releaseHandoff env) world (fun answer left => ∃ result, Releases world (.ok result) left ∧
      answer = .ok (decide (result = .ok))) := by
  refine Leaves.bind (handoffRelease_releases env world) ?_ ?_
  · intro reason left releases
    cases releases
  exact fun result left releases => ⟨result,releases,rfl⟩

/-- What the provider has recorded is what its primitives were told, they were told it in order, and the history
    has grown from its origin. -/
structure Tracked (retire : Bool) (origin : List Event) (world : World) : Prop where
  ordered : Ordered retire world.history
  asc : world.provider.state.asc = true ↔ ascLife world.history = .started
  stopped : world.provider.state.published = true → world.provider.state.asc = false → ascLife world.history = .stopped
  roots : roots world.history = if world.provider.state.published then some world.provider.pair else none
  uat : uatInForce world.history =
    if world.provider.state.uat then some (world.provider.pair,world.provider.initdataAddress) else none
  used : world.provider.state.published = true → world.provider.state.uat = true
  lock : LockKnown world
  bound : world.handoff.bound = true
  past : origin <:+ world.history

variable {retire : Bool}

theorem Tracked.handled {origin : List Event} {left : World} (tracked : Tracked retire origin world) (handled : Handled world left) :
    Tracked retire origin left := by
  obtain ⟨quiet,known⟩ := handled
  obtain ⟨later,grown,calm⟩ := quiet.history
  obtain ⟨sameAsc,sameRoots,sameUat,sameOrder⟩ := quiet_folds calm world.history retire
  constructor
  · rw [grown]; exact sameOrder.mpr tracked.ordered
  · rw [grown,sameAsc,quiet.provider]; exact tracked.asc
  · rw [grown,sameAsc,quiet.provider]; exact tracked.stopped
  · rw [grown,sameRoots,quiet.provider]; exact tracked.roots
  · rw [grown,sameUat,quiet.provider]; exact tracked.uat
  · rw [quiet.provider]; exact tracked.used
  · exact known
  · rw [quiet.bound]; exact tracked.bound
  rw [grown]; exact tracked.past.trans (suffix_append _ _)

theorem Tracked.grows {origin : List Event} (tracked : Tracked retire origin world) {event : Event} :
    origin <:+ event :: world.history := tracked.past.trans (suffix_cons _ _)
theorem Tracked.restart {origin : List Event} (tracked : Tracked retire origin world) :
    Tracked retire world.history world := { tracked with past := suffix_rfl }

theorem Tracked.same {origin : List Event} {left : World} (tracked : Tracked retire origin world)
    (provider : left.provider = world.provider) (handoff : left.handoff = world.handoff)
    (history : left.history = world.history) : Tracked retire origin left := by
  obtain ⟨firmware,provider',handoff',turn,history'⟩ := left
  subst provider handoff history
  exact { tracked with }

theorem Tracked.idle {origin : List Event} (tracked : Tracked retire origin world)
    (stopped : world.provider.state.asc = false) (free : world.provider.state.published = false) :
    ascLife world.history ≠ .started ∧ FirmwareSafety.roots world.history = none := by
  refine ⟨fun started => ?_,?_⟩
  · rw [tracked.asc.mpr started] at stopped
    cases stopped
  rw [tracked.roots,free]
  rfl

/-- A primitive that tells nothing about the memory of the firmware. -/
def Neutral : Primitive → Prop
  | .powerOn _ | .completeManagementBootstrap _ | .startEndpoint _ _ | .stopEndpoint _ _ | .sendDeviceControlInit _
  | .updateIdleTimestamp _ => True
  | _ => False

theorem Tracked.called {origin : List Event} (tracked : Tracked retire origin world) (primitive : Primitive)
    (neutral : Neutral primitive) (turn : Nat) (answer : Bool) : Tracked retire origin { world with
      turn := turn, history := .called world.firmware world.provider.state primitive answer :: world.history } := by
  cases primitive <;>
    first
    | exact { tracked with ordered := ⟨trivial,tracked.ordered⟩, past := tracked.grows }
    | exact neutral.elim

theorem Tracked.setState {origin : List Event} (tracked : Tracked retire origin world) {state : ProviderState}
    (asc : state.asc = world.provider.state.asc) (uat : state.uat = world.provider.state.uat)
    (published : state.published = world.provider.state.published) :
    Tracked retire origin { world with provider := { world.provider with state := state } } := by
  constructor
  · exact tracked.ordered
  · simpa only [asc] using tracked.asc
  · simpa only [asc,published] using tracked.stopped
  · simpa only [published] using tracked.roots
  · simpa only [uat] using tracked.uat
  · simpa only [uat,published] using tracked.used
  · exact tracked.lock
  · exact tracked.bound
  exact tracked.past

theorem Tracked.publish {origin : List Event} (tracked : Tracked retire origin world)
    (held : world.handoff.locked = true) (uat : world.provider.state.uat = true) (asc : world.provider.state.asc = true)
    (turn : Nat) : Tracked retire origin { world with
      turn := turn, history := .called world.firmware world.provider.state (.publishUatRoots world.provider.pair) false :: world.history } ∧
    Tracked retire origin { world with
      turn := turn, provider := { world.provider with state := { world.provider.state with published := true } },
      history := .called world.firmware world.provider.state (.publishUatRoots world.provider.pair) true :: world.history } := by
  have permitted : Permitted retire world.history world.provider.state (.publishUatRoots world.provider.pair) :=
    ⟨tracked.lock.mp held,world.provider.initdataAddress,tracked.uat.trans (if_pos uat)⟩
  refine ⟨{ tracked with ordered := ⟨permitted,tracked.ordered⟩, past := tracked.grows },
    ⟨⟨permitted,tracked.ordered⟩,tracked.asc,?_,rfl,tracked.uat,fun _ => uat,tracked.lock,tracked.bound,tracked.grows⟩⟩
  intro _ stopped
  rw [asc] at stopped
  cases stopped

theorem Tracked.unpublish {origin : List Event} (tracked : Tracked retire origin world)
    (held : world.handoff.locked = true)
    (allowed : retire = true → ascLife world.history = .stopped ∨ ReleaseFailed world.history) (turn : Nat) :
    Tracked retire origin { world with
      turn := turn, history := .called world.firmware world.provider.state .unpublishUatRoots false :: world.history } ∧
    Tracked retire origin { world with
      turn := turn, provider := { world.provider with state := { world.provider.state with published := false } },
      history := .called world.firmware world.provider.state .unpublishUatRoots true :: world.history } := by
  have permitted : Permitted retire world.history world.provider.state .unpublishUatRoots :=
    ⟨tracked.lock.mp held,allowed⟩
  refine ⟨{ tracked with ordered := ⟨permitted,tracked.ordered⟩, past := tracked.grows },
    ⟨⟨permitted,tracked.ordered⟩,tracked.asc,?_,rfl,tracked.uat,?_,tracked.lock,tracked.bound,tracked.grows⟩⟩
  all_goals
    intro published
    cases published

section
variable (env : Environment) {origin : List Event}

abbrev KeepsTrack (origin : List Event) {α : Type} (action : Action α) : Prop :=
  Keeps (Tracked env.retireMappingsAfterAscStop origin) action

theorem passive_tracks {α : Type} {next : Action α} {value : α} (rest : KeepsTrack env origin next) :
    KeepsTrack env origin (do if ← atPassive env then next else pure value) := by
  intro world tracked
  refine leaves_atPassive_then (fun turn passive => ?_)
  have waited : Tracked env.retireMappingsAfterAscStop origin { world with turn := turn } := { tracked with }
  cases passive with
  | false => exact waited
  | true => exact rest _ waited

theorem providerNowMs_tracks : KeepsTrack env origin (providerNowMs env) := by
  exact passive_tracks env (fun world tracked => { tracked with })

variable (deadline : U64)

private theorem powerOn_tracks : KeepsTrack env origin (providerPowerOn env deadline) := by
  refine passive_tracks env (fun world tracked => leaves_current_then ?_)
  split
  · exact tracked
  refine leaves_call_then (fun turn answer => ?_)
  cases answer with
  | false => exact (tracked.called (.powerOn deadline) trivial turn false)
  | true => exact (tracked.called (.powerOn deadline) trivial turn true).setState rfl rfl rfl

private theorem createUat_tracks : KeepsTrack env origin (providerCreateUat env deadline) := by
  refine passive_tracks env (fun world tracked => leaves_current_then ?_)
  split
  · exact tracked
  rename_i powered
  have state : world.provider.state = { onlyInitialized with powered := true } := Classical.not_not.mp powered
  refine leaves_asked_then (fun turn given => ?_)
  obtain ⟨answer,pair,address⟩ := given
  dsimp only
  split
  · rename_i refused
    have same : uatInForce (.created deadline answer pair address :: world.history) = uatInForce world.history := by
      cases answer with
      | false => rfl
      | true => exact if_pos (by simpa using refused)
    exact { tracked with uat := same.trans tracked.uat, past := tracked.grows }
  rename_i accepted
  have created : uatInForce (.created deadline answer pair address :: world.history) = some (pair,address) := by
    cases answer with
    | false => simp at accepted
    | true => exact if_neg (by simpa using accepted)
  have free : world.provider.state.published = false := by rw [state]; rfl
  rw [leaves_bind]
  simp only [leaves_changeProvider,Then,leaves_pure]
  refine { tracked with roots := ?_, uat := created, used := fun _ => rfl, past := tracked.grows }
  have none := tracked.roots
  rw [free] at none
  rw [free]
  exact none

variable (endpoint : U32)

theorem startEndpoint_tracks (deadline : U64) : KeepsTrack env origin (providerStartEndpoint env endpoint deadline) := by
  refine passive_tracks env (fun world tracked => ?_)
  split
  · exact tracked
  refine leaves_current_then ?_
  split
  · exact tracked
  refine leaves_call_then (fun turn answer => ?_)
  have called := tracked.called (.startEndpoint endpoint deadline) trivial turn answer
  cases answer with
  | false => exact called
  | true => exact called.setState (by simp) (by simp) (by simp)

theorem stopEndpoint_tracks (deadline : U64) : KeepsTrack env origin (providerStopEndpoint env endpoint deadline) := by
  refine passive_tracks env (fun world tracked => ?_)
  split
  · exact tracked
  refine leaves_current_then ?_
  split
  · exact tracked
  refine leaves_call_then (fun turn answer => ?_)
  have called := tracked.called (.stopEndpoint endpoint deadline) trivial turn answer
  cases answer with
  | false => exact called
  | true => exact called.setState (by simp) (by simp) (by simp)

theorem whilePublished_tracks (primitive : Primitive) (neutral : Neutral primitive) :
    KeepsTrack env origin (whilePublished env primitive) := by
  refine passive_tracks env (fun world tracked => leaves_current_then ?_)
  split
  · exact tracked
  exact tracked.called _ neutral _ _

private theorem sendInitdata_tracks (address deadline : U64) : KeepsTrack env origin (providerSendInitdata env address deadline) := by
  refine passive_tracks env (fun world tracked => leaves_current_then ?_)
  split
  · exact tracked
  rename_i accepted
  have published : world.provider.state.published = true := by simpa using (not_or.mp accepted).1
  have address' : address = world.provider.initdataAddress := by
    simpa using (not_or.mp (not_or.mp accepted).2).2
  refine { tracked with ordered := ⟨⟨world.provider.pair,?_,?_⟩,tracked.ordered⟩, past := tracked.grows }
  · rw [address']
    exact tracked.uat.trans (if_pos (tracked.used published))
  exact tracked.roots.trans (if_pos published)

private theorem destroyUat_tracks : KeepsTrack env origin (providerDestroyUat env deadline) := by
  refine passive_tracks env (fun world tracked => leaves_current_then ?_)
  split
  · exact tracked
  rename_i accepted
  have stopped : world.provider.state.asc = false := by simpa using (not_or.mp (not_or.mp accepted).2).1
  have free : world.provider.state.published = false := by simpa using (not_or.mp (not_or.mp accepted).2).2
  have idle := tracked.idle stopped free
  refine leaves_call_then (fun turn answer => ?_)
  cases answer with
  | false =>
    exact { tracked with ordered := ⟨idle,tracked.ordered⟩, past := tracked.grows }
  | true =>
  rw [if_pos rfl,leaves_bind]
  simp only [leaves_changeProvider,Then,leaves_pure]
  refine ⟨⟨idle,tracked.ordered⟩,tracked.asc,tracked.stopped,?_,rfl,fun published => ?_,tracked.lock,tracked.bound,tracked.grows⟩
  · rw [free]
    exact idle.2
  exact absurd published (by simp [free])

private theorem powerOff_tracks : KeepsTrack env origin (providerPowerOff env deadline) := by
  refine passive_tracks env (fun world tracked => leaves_current_then ?_)
  split
  · exact tracked
  rename_i powered
  have state : world.provider.state = { onlyInitialized with powered := true } := Classical.not_not.mp powered
  have stopped : world.provider.state.asc = false := by rw [state]; rfl
  have free : world.provider.state.published = false := by rw [state]; rfl
  have unused : world.provider.state.uat = false := by rw [state]; rfl
  have idle := tracked.idle stopped free
  have none : uatInForce world.history = none := by rw [tracked.uat,unused]; rfl
  refine leaves_call_then (fun turn answer => ?_)
  have called : Tracked env.retireMappingsAfterAscStop origin { world with
      turn := turn, history := .called world.firmware world.provider.state (.powerOff deadline) answer :: world.history } :=
    { tracked with ordered := ⟨⟨unused,stopped,free,none,idle⟩,tracked.ordered⟩, past := tracked.grows }
  cases answer with
  | false => exact called
  | true => exact called.setState stopped.symm unused.symm free.symm
theorem releaseHandoff_tracks : KeepsTrack env origin (releaseHandoff env) := by
  intro world tracked
  refine (releaseHandoff_releases env world).mono (fun answer left post => ?_)
  obtain ⟨result,releases,_⟩ := post
  exact tracked.handled (releases.handled (.refl world) tracked.lock)

theorem acquireHandoff_tracks (world : World) (tracked : Tracked env.retireMappingsAfterAscStop origin world) :
    Leaves (acquireHandoff env deadline) world (fun answer left => Tracked env.retireMappingsAfterAscStop origin left ∧
      left.provider = world.provider ∧ (answer = .ok true → left.handoff.locked = true)) := by
  refine (acquireHandoff_acquires env deadline ⟨.refl world,tracked.lock⟩).mono (fun answer left post => ?_)
  exact ⟨tracked.handled post.1,post.1.1.provider,post.2.1⟩

variable (phase : Nat) (success : Bool)

theorem recordBoot_tracks : KeepsTrack env origin (recordBoot env phase success) := by
  intro world tracked
  refine leaves_current_then ?_
  split
  · exact { tracked with past := tracked.grows }
  exact tracked

private theorem recordBoot_provider (world : World) :
    Leaves (recordBoot env phase success) world (fun _ left => left.provider = world.provider) := by
  refine leaves_current_then ?_
  split <;> rfl
theorem recordBoot_end_tracks {α : Type} (answer : α) :
    KeepsTrack env origin (do recordBoot env phase success; pure answer) := by
  intro world tracked
  exact Leaves.bind (recordBoot_tracks env phase success world tracked) (fun _ _ kept => kept) (fun _ _ kept => kept)

private theorem holdHandoff_tracks (world : World) (tracked : Tracked env.retireMappingsAfterAscStop origin world) :
    Leaves (holdHandoff env deadline) world (fun answer left => Tracked env.retireMappingsAfterAscStop origin left ∧
      left.provider = world.provider ∧ (answer = .ok true → left.handoff.locked = true)) := by
  refine leaves_current_then ?_
  split
  · rename_i locked
    exact ⟨tracked,rfl,fun _ => locked⟩
  exact acquireHandoff_tracks env deadline _ tracked

theorem unpublish_tracks : KeepsTrack env origin (providerUnpublishInitdata env deadline) := by
  refine passive_tracks env (fun world tracked => leaves_current_then ?_)
  split
  · split
    · exact releaseHandoff_tracks env _ tracked
    exact tracked
  rename_i retires
  split
  · split
    · exact releaseHandoff_tracks env _ tracked
    exact tracked
  rename_i stays
  have published : world.provider.state.published = true := by simpa using stays
  have stops : env.retireMappingsAfterAscStop = true → world.provider.state.asc = false := by
    intro retire
    simpa [retire] using retires
  refine Leaves.bind (holdHandoff_tracks env deadline _ tracked) ?_ ?_
  · exact fun _ _ post => post.1
  intro held left post
  obtain ⟨kept,provider,locked⟩ := post
  split
  · exact kept
  rename_i holds
  have isHeld : held = true := by simpa using holds
  subst isHeld
  have back := kept.unpublish (locked rfl) (fun retire => .inl (kept.stopped (by rw [provider]; exact published)
    (by rw [provider]; exact stops retire)))
  refine leaves_call_then (fun turn answer => ?_)
  cases answer with
  | false =>
    exact Leaves.bind (releaseHandoff_tracks env _ (back turn).1) (fun _ _ kept => kept) (fun _ _ kept => kept)
  | true =>
  refine leaves_changeState_then ?_
  exact releaseHandoff_tracks env _ (back turn).2

/-- `if (Handoff->Locked) (void)release_handoff(...)` and an answer. -/
theorem releaseIfLocked_tracks {α : Type} (value : α) : KeepsTrack env origin (do
      let left ← current
      if left.handoff.locked then
        let _ ← releaseHandoff env
        pure value
      else pure value) := by
  intro world tracked
  refine leaves_current_then ?_
  split
  · exact Leaves.bind (releaseHandoff_tracks env world tracked) (fun _ _ kept => kept) (fun _ _ kept => kept)
  exact tracked

private theorem publish_tracks : KeepsTrack env origin (providerPublishInitdata env deadline) := by
  refine passive_tracks env (fun world tracked => leaves_current_then ?_)
  split
  · exact tracked
  split
  · exact tracked
  rename_i required
  have state : world.provider.state = publishRequired := Classical.not_not.mp required
  refine Leaves.bind (acquireHandoff_tracks env deadline _ tracked) ?_ ?_
  · exact fun _ _ post => post.1
  intro held left post
  obtain ⟨kept,provider,locked⟩ := post
  cases held with
  | false => exact kept
  | true =>
  have published := kept.publish (locked rfl) (by rw [provider,state]; rfl) (by rw [provider,state]; rfl)
  rw [← provider]
  refine leaves_call_then (fun turn answer => ?_)
  cases answer with
  | false =>
    exact Leaves.bind (releaseHandoff_tracks env _ (published turn).1) (fun _ _ kept => kept) (fun _ _ kept => kept)
  | true =>
  refine leaves_changeState_then ?_
  have there := (published turn).2
  refine Leaves.bind (releaseHandoff_releases env _) ?_ ?_
  · rintro reason left ⟨result,releases,fails⟩
    cases fails
  rintro released left ⟨result,releases,isReleased⟩
  have kept := there.handled (releases.handled (.refl _) there.lock)
  by_cases ok : result = .ok
  · subst ok
    cases Except.ok.inj isReleased
    exact kept
  have failed : released = false := by
    rw [Except.ok.inj isReleased]
    exact decide_eq_false ok
  subst failed
  -- The roots come back under the lock that could not be released.
  have still : left.handoff.locked = true ∧ ReleaseFailed left.history := by
    cases releases with
    | refused unusable => exact absurd ⟨there.bound,locked rfl⟩ unusable
    | turn turn locked => exact ⟨locked,.turn ..⟩
    | flag turn locked => exact ⟨locked,.flag ..⟩
    | released turn locked => exact absurd rfl ok
  have back := kept.unpublish still.1 (fun _ => .inr still.2)
  refine leaves_call_then (fun turn answer => ?_)
  cases answer with
  | false => exact releaseIfLocked_tracks env (false,0) _ (back turn).1
  | true =>
  rw [if_pos rfl]
  refine leaves_changeState_then ?_
  exact releaseIfLocked_tracks env (false,0) _ (back turn).2

private theorem publishBootRoots_tracks (world : World) (tracked : Tracked env.retireMappingsAfterAscStop origin world)
    (uat : world.provider.state.uat = true) (asc : world.provider.state.asc = true) :
    Leaves (publishBootRoots env deadline) world (fun _ left => Tracked env.retireMappingsAfterAscStop origin left) := by
  refine Leaves.bind (acquireHandoff_tracks env deadline _ tracked) ?_ ?_
  · exact fun _ _ post => post.1
  intro held left post
  obtain ⟨kept,provider,locked⟩ := post
  cases held with
  | false => exact kept
  | true =>
  refine leaves_current_then ?_
  have published := kept.publish (locked rfl) (by rw [provider]; exact uat) (by rw [provider]; exact asc)
  refine leaves_call_then (fun turn answer => ?_)
  have end_tracks : ∀ success : Bool, KeepsTrack env origin (do if ← releaseHandoff env then pure success else pure false) := by
    intro success world tracked
    refine Leaves.bind (releaseHandoff_tracks env world tracked) (fun _ _ kept => kept) ?_
    intro released left kept
    split
    · exact kept
    exact kept
  cases answer with
  | false => exact end_tracks false _ (published turn).1
  | true =>
  refine leaves_changeState_then ?_
  exact end_tracks true _ (published turn).2

private theorem bootAsc_tracks : KeepsTrack env origin (providerBootAsc env deadline) := by
  refine passive_tracks env (fun world tracked => leaves_current_then ?_)
  split
  · exact tracked
  rename_i required
  have state : world.provider.state = { onlyInitialized with powered := true, uat := true } := Classical.not_not.mp required
  refine leaves_changeState_then ?_
  refine leaves_call_then (fun turn answer => ?_)
  have booted : ∀ answer, Tracked env.retireMappingsAfterAscStop origin { world with
      turn := turn, provider := { world.provider with state := { world.provider.state with asc := true } },
      history := .called world.firmware { world.provider.state with asc := true } (.bootAsc deadline) answer :: world.history } := by
    intro answer
    refine { tracked with ordered := ⟨trivial,tracked.ordered⟩, asc := ⟨fun _ => rfl,fun _ => rfl⟩, stopped := ?_, past := tracked.grows }
    intro _ stopped
    cases stopped
  cases answer with
  | false => exact recordBoot_end_tracks env _ _ _ _ (booted false)
  | true =>
  refine Leaves.bind (handoffInitialize_handled env deadline ⟨.refl _,(booted true).lock⟩) ?_ ?_
  · exact fun _ _ handled => (booted true).handled handled
  intro result left handled
  have kept := (booted true).handled handled
  refine Leaves.bind ((recordBoot_provider env _ _ left).both (recordBoot_tracks env _ _ left kept)) ?_ ?_
  · exact fun _ _ post => post.2
  rintro _ left' ⟨same,kept⟩
  have uat : left'.provider.state.uat = true := by rw [same,handled.1.provider,state]
  have asc : left'.provider.state.asc = true := by rw [same,handled.1.provider]
  split
  · exact kept
  split
  · refine Leaves.bind (publishBootRoots_tracks env deadline left' kept uat asc) (fun _ _ kept => kept) ?_
    intro success left kept
    refine Leaves.bind (recordBoot_tracks env _ _ left kept) (fun _ _ kept => kept) ?_
    intro _ left kept
    split
    · exact kept
    refine leaves_call_then (fun turn answer => ?_)
    exact recordBoot_end_tracks env _ _ _ _ (kept.called (.completeManagementBootstrap deadline) trivial turn answer)
  exact kept

private theorem retireMappings_tracks : KeepsTrack env origin (retireMappings env deadline) := by
  intro world tracked
  unfold retireMappings
  split
  · exact unpublish_tracks env deadline world tracked
  exact tracked

private theorem stopAsc_tracks : KeepsTrack env origin (providerStopAsc env deadline) := by
  refine passive_tracks env (fun world tracked => ?_)
  refine Leaves.bind (unpublish_tracks env deadline _ tracked) (fun _ _ kept => kept) ?_
  intro unpublished left kept
  cases unpublished with
  | false => exact recordBoot_end_tracks env _ _ _ _ kept
  | true =>
  -- What is left once the coprocessor has stopped, or had not been booted.
  have stops : Leaves (stopRunningAsc env deadline) left (fun answer stopped =>
      Tracked env.retireMappingsAfterAscStop origin (if answer = .ok true then { stopped with provider := { stopped.provider with
        state := { stopped.provider.state with asc := false, fwEndpoint := false, doorbellEndpoint := false } } }
        else stopped)) := by
    refine leaves_current_then ?_
    split
    · unfold call
      rw [leaves_asked]
      cases env.answer left.turn (.stopAsc deadline) with
      | false =>
        exact { kept with ordered := ⟨trivial,kept.ordered⟩, past := kept.grows }
      | true =>
      exact { kept with ordered := ⟨trivial,kept.ordered⟩, asc := ⟨nofun,nofun⟩, stopped := fun _ _ => rfl, past := kept.grows }
    rename_i stopped
    exact kept.setState (by simpa using stopped) rfl rfl
  refine Leaves.bind stops ?_ ?_
  · intro reason left kept
    simpa using kept
  intro stopped left kept
  cases stopped with
  | false =>
    exact recordBoot_end_tracks env _ _ _ _ kept
  | true =>
  rw [if_neg (by simp),leaves_bind]
  simp only [leaves_changeState,Then]
  refine Leaves.bind (retireMappings_tracks env deadline _ kept) (fun _ _ kept => kept) ?_
  intro retired left kept
  exact recordBoot_end_tracks env _ _ _ _ kept

theorem changeFirmware_tracks (update : Firmware → Firmware) : KeepsTrack env origin (changeFirmware update) :=
  fun _ tracked => tracked.same rfl rfl rfl

variable (callback : Callback) (timeoutMs : U64)

theorem beginDeadline_tracks : KeepsTrack env origin (beginDeadline env callback timeoutMs) := by
  refine (providerNowMs_tracks env).bind (fun startMs => ?_)
  split
  · refine Keeps.bind ?_ (fun _ => Keeps.pure _)
    intro world tracked
    exact { tracked with past := tracked.grows }
  exact Keeps.pure _

theorem finishOperation_tracks (startMs deadlineMs : U64) (transportResult : Bool) :
    KeepsTrack env origin (finishOperation env callback startMs deadlineMs transportResult) := by
  refine (providerNowMs_tracks env).bind (fun endMs => ?_)
  have noted : KeepsTrack env origin (note (.finished callback startMs deadlineMs endMs transportResult)) := by
    intro world tracked
    exact { tracked with past := tracked.grows }
  refine noted.bind (fun _ => ?_)
  split
  · exact Keeps.pure _
  split
  · exact Keeps.pure _
  split
  all_goals exact Keeps.pure _

theorem operation_tracks {run : U64 → Action Bool}
    (keeps : ∀ deadline, KeepsTrack env origin (run deadline)) : KeepsTrack env origin (operation env callback timeoutMs run) := by
  refine (beginDeadline_tracks env callback timeoutMs).bind (fun begun => ?_)
  cases begun with
  | none => exact Keeps.pure _
  | some times =>
  exact (keeps times.2).bind (fun transportResult => finishOperation_tracks env callback times.1 times.2 transportResult)

variable (step : FirmwareStep)

theorem cleanup_tracks (callback : Callback) {run : U64 → Action Bool}
    (keeps : ∀ deadline, KeepsTrack env origin (run deadline)) : KeepsTrack env origin (cleanup env step callback run) := by
  refine Keeps.current (fun world => ?_)
  split
  · exact (operation_tracks env callback _ keeps).bind (fun result =>
      (changeFirmware_tracks env _).bind (fun _ => Keeps.pure _))
  exact Keeps.pure _

theorem cleanupAll_tracks (order : List (FirmwareStep × Callback × (U64 → Action Bool)))
    (keep : ∀ entry ∈ order, ∀ deadline, KeepsTrack env origin (entry.2.2 deadline)) : KeepsTrack env origin (cleanupAll env order) := by
  induction order with
  | nil => exact Keeps.pure _
  | cons entry rest ih =>
  obtain ⟨step,callback,run⟩ := entry
  refine (cleanup_tracks env step callback (keep _ mem_cons_self)).bind (fun failed => ?_)
  exact (ih (fun entry mem => keep entry (mem_cons_of_mem _ mem))).bind (fun failed' => Keeps.pure _)

theorem cleanupOrder_tracks : ∀ entry ∈ cleanupOrder env, ∀ deadline, KeepsTrack env origin (entry.2.2 deadline) := by
  intro entry mem deadline
  simp only [cleanupOrder,mem_cons,not_mem_nil,or_false] at mem
  rcases mem with rfl | rfl | rfl | rfl | rfl
  · exact stopEndpoint_tracks env _ deadline
  · exact stopEndpoint_tracks env _ deadline
  · exact stopAsc_tracks env deadline
  · exact destroyUat_tracks env deadline
  exact powerOff_tracks env deadline

theorem rollback_tracks : KeepsTrack env origin (firmwareRollback env) := by
  refine Keeps.current (fun world => ?_)
  split
  · exact (changeFirmware_tracks env _).bind (fun _ => Keeps.pure _)
  split
  · exact (changeFirmware_tracks env _).bind (fun _ => Keeps.pure _)
  refine (changeFirmware_tracks env _).bind (fun _ => ?_)
  refine (cleanup_tracks env _ _ (unpublish_tracks env)).bind (fun failed => ?_)
  refine (changeFirmware_tracks env _).bind (fun _ => ?_)
  refine (cleanupAll_tracks env _ (cleanupOrder_tracks env)).bind (fun failed' => Keeps.current (fun left => ?_))
  split
  all_goals exact (changeFirmware_tracks env _).bind (fun _ => Keeps.pure _)

theorem startStep_tracks (phase : FirmwarePhase) {run : Action FirmwareResult}
    (keeps : KeepsTrack env origin run) : KeepsTrack env origin (startStep step phase run) := by
  refine keeps.bind (fun result => ?_)
  split
  · exact (changeFirmware_tracks env _).bind (fun _ => Keeps.pure _)
  exact Keeps.pure _

theorem startSteps_tracks (order : List (FirmwareStep × FirmwarePhase × Action FirmwareResult))
    (keep : ∀ entry ∈ order, KeepsTrack env origin entry.2.2) : KeepsTrack env origin (startSteps order) := by
  induction order with
  | nil => exact Keeps.pure _
  | cons entry rest ih =>
  obtain ⟨step,phase,run⟩ := entry
  refine (startStep_tracks env step phase (keep _ mem_cons_self)).bind (fun result => ?_)
  split
  · exact Keeps.pure _
  exact ih (fun entry mem => keep entry (mem_cons_of_mem _ mem))

private theorem publishOperation_tracks : KeepsTrack env origin (publishOperation env) := by
  refine (beginDeadline_tracks env _ _).bind (fun begun => ?_)
  cases begun with
  | none => exact Keeps.pure _
  | some times =>
  refine (publish_tracks env times.2).bind (fun answer => (changeFirmware_tracks env _).bind (fun _ => ?_))
  refine (finishOperation_tracks env _ _ _ _).bind (fun result => ?_)
  split
  all_goals exact Keeps.pure _

theorem startOrder_tracks : ∀ entry ∈ startOrder env, KeepsTrack env origin entry.2.2 := by
  intro entry mem
  simp only [startOrder,mem_cons,not_mem_nil,or_false] at mem
  rcases mem with rfl | rfl | rfl | rfl | rfl | rfl | rfl | rfl | rfl
  · exact operation_tracks env _ _ (powerOn_tracks env)
  · exact operation_tracks env _ _ (createUat_tracks env)
  · exact (changeFirmware_tracks env _).bind (fun _ => operation_tracks env _ _ (bootAsc_tracks env))
  · exact operation_tracks env _ _ (startEndpoint_tracks env _)
  · exact operation_tracks env _ _ (startEndpoint_tracks env _)
  · exact publishOperation_tracks env
  · exact Keeps.current (fun world => operation_tracks env _ _ (sendInitdata_tracks env _))
  · exact operation_tracks env _ _ (fun deadline => whilePublished_tracks env (.sendDeviceControlInit deadline) trivial)
  exact operation_tracks env _ _ (fun deadline => whilePublished_tracks env (.updateIdleTimestamp deadline) trivial)

theorem bringUp_tracks : KeepsTrack env origin (firmwareBringUp env) := by
  refine Keeps.current (fun world => ?_)
  split
  · exact Keeps.pure _
  exact (changeFirmware_tracks env _).bind (fun _ =>
    (startSteps_tracks env _ (startOrder_tracks env)).bind (fun result => Keeps.pure _))

theorem abortStart_tracks (failure : FirmwareResult) : KeepsTrack env origin (abortStart env failure) := by
  refine (changeFirmware_tracks env _).bind (fun _ => (rollback_tracks env).bind (fun rollback => ?_))
  split
  · exact Keeps.pure _
  exact (changeFirmware_tracks env _).bind (fun _ => Keeps.pure _)

theorem serve_tracks (request : Request) : KeepsTrack env origin (serve env request) := by
  cases request with
  | rollback => exact rollback_tracks env
  | start =>
  refine (bringUp_tracks env).bind (fun risen => ?_)
  split
  · exact Keeps.pure _
  · exact Keeps.pure _
  exact abortStart_tracks env _

end

theorem initialized_tracked (retire handoffInitialized : Bool) : Tracked retire [] (initializedWorld handoffInitialized) where
  ordered := trivial
  asc := by simp [initializedWorld,onlyInitialized,ascLife]
  stopped := by simp [initializedWorld,onlyInitialized]
  roots := rfl
  uat := rfl
  used := by simp [initializedWorld,onlyInitialized]
  lock := by simp [LockKnown,initializedWorld,lock]
  bound := rfl
  past := nil_suffix

theorem reached_tracked {env : Environment} {world : World} (reached : Reached env world) :
    Tracked env.retireMappingsAfterAscStop [] world := by
  induction reached with
  | initialized handoffInitialized => exact initialized_tracked _ handoffInitialized
  | served request reached serves ih =>
    have kept := serve_tracks env request _ ih
    unfold Leaves at kept
    rw [serves] at kept
    exact kept
  | aborted reached fails rises ih =>
  have kept := bringUp_tracks env _ ih
  unfold Leaves at kept
  rw [rises] at kept
  exact kept.same rfl rfl rfl

/-- **The firmware's memory outlives the coprocessor.** In every run the calls of the primitives are in order, also
    in a call of the owner that does not return. -/
theorem memory_outlives_asc (env : Environment) {world : World} (reached : Reached env world) (request : Request) :
    Ordered env.retireMappingsAfterAscStop world.history ∧
      Leaves (serve env request) world (fun _ left => Ordered env.retireMappingsAfterAscStop left.history) :=
  ⟨(reached_tracked reached).ordered,
   (serve_tracks env request world (reached_tracked reached)).mono (fun _ _ kept => kept.ordered)⟩

/-- An environment in which everything goes well, with a management bootstrap and roots that are retired last. -/
def willing : Environment where
  isPassiveLevel := fun _ => true
  nowMs := fun _ => 100
  answer := fun _ _ => true
  createFirmwareUat := fun _ _ => (true,⟨0x80000,0x84000⟩,0xffffffa000)
  completesManagementBootstrap := true
  recordsBootstrapPhase := true
  retireMappingsAfterAscStop := true
  read := fun _ bits offset => some (if offset = magicFwOffset then BitVec.ofNat bits pplMagic.toNat else 0)
  write := fun _ _ _ _ => true
  now := fun _ => 0
  rounds := 4

theorem willing_started : (serve willing .start (initializedWorld false)).1 = .ok .ok := by decide +kernel

/-- A start and the rollback behind it. -/
theorem memory_outlives_asc_started :
    Ordered willing.retireMappingsAfterAscStop (serve willing .start (initializedWorld false)).2.history ∧
      Leaves (serve willing .rollback) (serve willing .start (initializedWorld false)).2
        (fun _ left => Ordered willing.retireMappingsAfterAscStop left.history) :=
  memory_outlives_asc willing (Reached.after (.initialized false) .start willing_started) .rollback

end WindowsOnM1.FirmwareSafety
