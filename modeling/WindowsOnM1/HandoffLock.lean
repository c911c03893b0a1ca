import WindowsOnM1.FirmwareSafety

/-!
What a run of the handoff records. The history tells which value the flag of this side was
given last, whether a write failed, and whether the magic of the firmware was read under the
lock; every call keeps the record of the lock in step with it.
-/
namespace WindowsOnM1.HandoffLock
open Attempts FirmwareProvider List
open FirmwareSafety (lock LockKnown Quietly Releases)
open BackendFirmware (U32 U64)

/-- The value that `LOCK_AP` was given last. -/
def flag : List Event → Option Nat
  | [] => none
  | .wrote _ offset value _ :: earlier => if offset = lockApOffset then some value.toNat else flag earlier
  | _ :: earlier => flag earlier

def Failed : Event → Prop
  | .wrote _ _ _ answer => answer = false
  | _ => False

/-- No write of a history has failed. -/
def Sure (history : List Event) : Prop := ∀ event ∈ history, ¬ Failed event

/-- The magic of the firmware was read under the lock. -/
def MagicSeen (history : List Event) : Prop :=
  ∃ later earlier, history = later ++ .read 64 magicFwOffset (some pplMagic) :: earlier ∧ lock earlier = .held

/-- What may be written behind a history: `TURN` becomes 1 under the lock, and the flush records
    become 0 once the magic was seen. -/
def Allowed (earlier : List Event) : Event → Prop
  | .wrote bits offset value _ =>
    (offset = turnOffset → bits = 32 ∧ value.toNat = 1 ∧ lock earlier = .held) ∧
      (flushStateOffset ≤ offset → value.toNat = 0 ∧ MagicSeen earlier)
  | _ => True

def Lawful : List Event → Prop
  | [] => True
  | event :: earlier => Allowed earlier event ∧ Lawful earlier
theorem MagicSeen.grow {earlier : List Event} (seen : MagicSeen earlier) (later : List Event) : MagicSeen (later ++ earlier) := by
  obtain ⟨between,before,grown,held⟩ := seen
  exact ⟨later ++ between,before,by rw [grown,append_assoc],held⟩

def Reads : Event → Prop
  | .read .. => True
  | _ => False

/-- What an attempt to get the lock does: it reads, and puts its flag up and down. -/
def Polls : Event → Prop
  | .read .. => True
  | .wrote bits offset value _ => bits = 8 ∧ offset = lockApOffset ∧ (value.toNat = 0 ∨ value.toNat = 1)
  | _ => False

def Adds (kind : Event → Prop) (earlier history : List Event) : Prop :=
  ∃ later, history = later ++ earlier ∧ ∀ event ∈ later, kind event

namespace Adds

variable {kind : Event → Prop} {first second third : List Event}

theorem refl (first : List Event) : Adds kind first first := ⟨[],rfl,by simp⟩
theorem next (before : Adds kind first second) {event : Event} (same : kind event) : Adds kind first (event :: second) := by
  obtain ⟨later,rfl,all⟩ := before
  exact ⟨event :: later,rfl,by simpa using ⟨same,all⟩⟩

theorem trans (before : Adds kind first second) (after : Adds kind second third) : Adds kind first third := by
  obtain ⟨later,rfl,all⟩ := before
  obtain ⟨later',rfl,all'⟩ := after
  refine ⟨later' ++ later,(append_assoc ..).symm,?_⟩
  intro event mem
  exact (mem_append.mp mem).elim (all' event) (all event)

theorem polls (reads : Adds Reads first second) : Adds Polls first second := by
  obtain ⟨later,rfl,all⟩ := reads
  refine ⟨later,rfl,fun event mem => ?_⟩
  have read := all event mem
  cases event with
  | read => trivial
  | _ => exact read.elim

theorem flag (reads : Adds Reads first second) : flag second = flag first := by
  obtain ⟨later,rfl,all⟩ := reads
  induction later with
  | nil => rfl
  | cons event later ih =>
  have rest := ih (fun event mem => all event (mem_cons_of_mem _ mem))
  have read := all event mem_cons_self
  cases event with
  | read => exact rest
  | _ => exact read.elim

theorem lawful (polls : Adds Polls first second) (before : Lawful first) : Lawful second := by
  obtain ⟨later,rfl,all⟩ := polls
  induction later with
  | nil => exact before
  | cons event later ih =>
  refine ⟨?_,ih (fun event mem => all event (mem_cons_of_mem _ mem))⟩
  have poll := all event mem_cons_self
  cases event with
  | wrote bits offset value answer =>
    obtain ⟨-,rfl,-⟩ := poll
    exact ⟨fun turn => absurd turn (by decide),fun high => absurd high (by decide)⟩
  | _ => trivial

end Adds

/-- The lock is being asked for: its flag went up, and only reads have followed. -/
def Asking (origin history : List Event) : Prop :=
  ∃ earlier, Adds Polls origin earlier ∧ Adds Reads (.wrote 8 lockApOffset 1 true :: earlier) history

/-- The lock was got: behind the flag of this side, which still is up, the other one was seen down. -/
def Granted (origin history : List Event) : Prop :=
  ∃ asking, Asking origin asking ∧ history = .read 8 lockFwOffset (some 0) :: asking

/-- What an attempt to get the lock leaves in the history. -/
structure Settles (origin : World) (answer : Except Hung HandoffResult) (left : World) : Prop where
  polls : Adds Polls origin.history left.history
  granted : answer = .ok .ok → Granted origin.history left.history
  withdrawn : ∀ result, answer = .ok result → result ≠ .ok → Sure left.history → flag left.history ≠ some 1
  initialized : left.handoff.initialized = origin.handoff.initialized

section
variable {origin world : World}

theorem Asking.polls {origin history : List Event} (asking : Asking origin history) : Adds Polls origin history := by
  obtain ⟨earlier,polls,reads⟩ := asking
  have up : Adds Polls origin (.wrote 8 lockApOffset 1 true :: earlier) := polls.next ⟨rfl,rfl,.inr rfl⟩
  exact up.trans reads.polls
theorem Asking.read {origin history : List Event} (asking : Asking origin history) (bits offset : Nat) (value : Option (BitVec bits)) :
    Asking origin (.read bits offset value :: history) := by
  obtain ⟨earlier,polls,reads⟩ := asking
  exact ⟨earlier,polls,reads.next trivial⟩

/-- An attempt that gave up: its flag was taken back, or a write failed. -/
theorem Settles.refused {left : World} {answer : Except Hung HandoffResult} (polls : Adds Polls origin.history left.history)
    (same : left.handoff.initialized = origin.handoff.initialized) (fails : answer ≠ .ok .ok)
    (down : Sure left.history → flag left.history ≠ some 1) : Settles origin answer left :=
  ⟨polls,fun ok => absurd ok fails,fun _ _ _ => down,same⟩

private theorem settling : FirmwareSafety.Attempting
    (fun world => Asking origin.history world.history ∧ world.handoff.initialized = origin.handoff.initialized)
    (fun world => Adds Polls origin.history world.history ∧ flag world.history = some 0 ∧
      world.handoff.initialized = origin.handoff.initialized) (Settles origin) where
  looks := fun turn fw raised up => ⟨raised.1.read _ _ _,raised.2⟩
  contends := fun turn value raised => ⟨raised.1.read _ _ _,raised.2⟩
  yields := fun turn raised => ⟨raised.1.polls.next ⟨rfl,rfl,.inl rfl⟩,rfl,raised.2⟩
  waits := fun turn value lowered => ⟨lowered.1.next trivial,lowered.2⟩
  returns := fun turn lowered => ⟨⟨_,lowered.1,.refl _⟩,lowered.2.2⟩
  passes := fun turn => ⟨id,id⟩
  got := fun turn raised =>
    ⟨(raised.1.read 8 lockFwOffset (some 0)).polls,fun _ => ⟨_,raised.1,rfl⟩,fun _ ok fails => absurd (Except.ok.inj ok).symm fails,raised.2⟩
  refused := fun lowered fails => .refused lowered.1 lowered.2.2 (fun ok => fails (Except.ok.inj ok)) (fun _ => by simp [lowered.2.1])
  failed := by
    have down (world : World) (turn : Nat) (value : BitVec 8) : ¬ Sure (told world turn (.wrote 8 lockApOffset value false)).history :=
      fun sure => absurd rfl (sure _ mem_cons_self)
    rintro world turn _ (⟨rfl,raised,same⟩ | ⟨rfl,polls,_,same⟩)
    · exact .refused (raised.polls.next ⟨rfl,rfl,.inl rfl⟩) same nofun (fun sure => absurd sure (down world turn 0))
    exact .refused (polls.next ⟨rfl,rfl,.inr rfl⟩) same nofun (fun sure => absurd sure (down world turn 1))
  hangs := fun either => ⟨either.elim (·.1.polls) (·.1),nofun,nofun,either.elim (·.2) (·.2.2)⟩

variable (env : Environment) (timeout : U64) (rounds : Nat)

/-- The record of the lock is in step with the history, where no call is under way. -/
structure Kept (world : World) : Prop where
  known : LockKnown world
  flagged : Sure world.history → (flag world.history = some 1 ↔ world.handoff.locked = true)
  lawful : Lawful world.history
  initialized : world.handoff.initialized = true → MagicSeen world.history

section
variable (kept : Kept world) (turn : Nat)
include kept turn

theorem Kept.wait : Kept { world with turn := turn } := { kept with }

theorem Kept.event {event : Event} (sameFlag : flag (event :: world.history) = flag world.history)
    (sameLock : lock (event :: world.history) = lock world.history) (allowed : Allowed world.history event) :
    Kept { world with turn := turn, history := event :: world.history } := by
  refine ⟨?_,fun sure => ?_,⟨allowed,kept.lawful⟩,fun done => (kept.initialized done).grow [event]⟩
  · unfold LockKnown
    rw [sameLock]
    exact kept.known
  rw [sameFlag]
  exact kept.flagged (fun event mem => sure event (mem_cons_of_mem _ mem))

theorem Kept.read {bits offset : Nat} {value : Option (BitVec bits)} (other : offset ≠ lockFwOffset) :
    Kept { world with turn := turn, history := .read bits offset value :: world.history } :=
  kept.event turn rfl (FirmwareSafety.lock_read_other other) trivial
theorem Kept.wrote {bits offset : Nat} {value : BitVec bits} {answer : Bool}
    (other : offset ≠ lockApOffset) (allowed : Allowed world.history (.wrote bits offset value answer)) :
    Kept { world with turn := turn, history := .wrote bits offset value answer :: world.history } :=
  kept.event turn (if_neg other) (FirmwareSafety.lock_wrote_other other) allowed

end

/-- What a call leaves, whether it returns or not. -/
def Keeps (answer : Except Hung HandoffResult) (left : World) : Prop :=
  Lawful left.history ∧ ∀ result, answer = .ok result → Kept left

theorem Granted.flag_up {origin history : List Event} (granted : Granted origin history) : flag history = some 1 := by
  obtain ⟨asking,⟨earlier,-,reads⟩,rfl⟩ := granted
  change flag asking = some 1
  rw [reads.flag]
  rfl

theorem handoffAcquire_settles (kept : Kept world) :
    Leaves (handoffAcquire env timeout) world (fun answer left => Keeps answer left ∧ Adds Polls world.history left.history ∧
      (answer = .ok .ok → Granted world.history left.history ∧ left.handoff.locked = true)) := by
  suffices settles : Leaves (handoffAcquire env timeout) world (fun answer left => (FirmwareSafety.Handled world left ∧
      (answer = .ok .ok → left.handoff.locked = true) ∧ (answer ≠ .ok .ok → left.handoff.locked = world.handoff.locked)) →
      Keeps answer left ∧ Adds Polls world.history left.history ∧
        (answer = .ok .ok → Granted world.history left.history ∧ left.handoff.locked = true)) from
    settles (FirmwareSafety.handoffAcquire_acquires env timeout (.refl world) kept.known)
  refine leaves_current_then ?_
  split
  · exact fun _ => ⟨⟨kept.lawful,fun _ _ => kept⟩,.refl _,nofun⟩
  rename_i usable
  have free : world.handoff.locked = false := by simpa using (not_or.mp usable).2
  have enough : ∀ {answer : Except Hung HandoffResult} {left : World}, Settles world answer left →
      (FirmwareSafety.Handled world left ∧ (answer = .ok .ok → left.handoff.locked = true) ∧
        (answer ≠ .ok .ok → left.handoff.locked = world.handoff.locked)) →
      Keeps answer left ∧ Adds Polls world.history left.history ∧
        (answer = .ok .ok → Granted world.history left.history ∧ left.handoff.locked = true) := by
    rintro answer left settles ⟨handled,gets,fails⟩
    have lawful := settles.polls.lawful kept.lawful
    refine ⟨⟨lawful,fun result returned => ⟨handled.2,fun sure => ?_,lawful,fun done => ?_⟩⟩,settles.polls,
      fun ok => ⟨settles.granted ok,gets ok⟩⟩
    · by_cases ok : answer = .ok .ok
      · exact iff_of_true (settles.granted ok).flag_up (gets ok)
      refine iff_of_false (settles.withdrawn result returned (fun same => ok (same ▸ returned)) sure) ?_
      rw [fails ok,free]
      decide
    obtain ⟨later,grown,-⟩ := settles.polls
    rw [grown]
    exact (kept.initialized (settles.initialized ▸ done)).grow later
  refine leaves_ask_then (fun turn start => leaves_write_then (fun turn' answer => ?_))
  cases answer with
  | false =>
    have polls : Adds Polls world.history (.wrote 8 lockApOffset 1 false :: world.history) := (Adds.refl _).next ⟨rfl,rfl,.inr rfl⟩
    exact enough (.refused polls rfl nofun (fun sure => absurd rfl (sure _ mem_cons_self)))
  | true =>
  refine Leaves.mono (?_ : Leaves _ _ (Settles world)) (fun _ _ settles => enough settles)
  exact settling.acquireLoop env start timeout _ ⟨⟨world.history,.refl _,.refl _⟩,rfl⟩

theorem handoffRelease_keeps (kept : Kept world) :
    Leaves (handoffRelease env) world (fun _ left => Kept left ∧ ∃ later, left.history = later ++ world.history) := by
  refine (FirmwareSafety.handoffRelease_releases env world).mono (fun answer left releases => ?_)
  have known := (releases.handled (.refl world) kept.known).2
  have turned {answer : Bool} (turn : Nat) (locked : world.handoff.locked = true) :
      Kept { world with turn := turn, history := .wrote 32 turnOffset 1 answer :: world.history } :=
    kept.wrote turn (by decide) ⟨fun _ => ⟨rfl,rfl,kept.known.mp locked⟩,fun high => absurd high (by decide)⟩
  have allowed (answer : Bool) (earlier : List Event) : Allowed earlier (.wrote 8 lockApOffset 0 answer) :=
    ⟨fun turn => absurd turn (by decide),fun high => absurd high (by decide)⟩
  cases releases with
  | refused => exact ⟨kept,[],rfl⟩
  | turn turn locked => exact ⟨turned turn locked,[_],rfl⟩
  | flag turn locked =>
    exact ⟨⟨known,fun sure => absurd rfl (sure _ mem_cons_self),⟨allowed _ _,(turned turn locked).lawful⟩,
      fun done => (kept.initialized done).grow [_,_]⟩,[_,_],rfl⟩
  | released turn locked =>
  exact ⟨⟨known,fun _ => iff_of_false (by simp [flag]) (by simp),⟨allowed _ _,(turned turn locked).lawful⟩,
    fun done => (kept.initialized done).grow [_,_]⟩,[_,_],rfl⟩

variable (deadline : U64)

private theorem awaitMagic_keeps (kept : Kept world) (locked : world.handoff.locked = true) :
    Leaves (awaitMagic env deadline rounds) world
      (fun answer left => Kept left ∧ (answer = .ok none → MagicSeen left.history)) := by
  induction rounds generalizing world with
  | zero => exact ⟨kept,by rintro ⟨⟩⟩
  | succ rounds ih =>
  refine leaves_read_then (fun turn value => ?_)
  have read : Kept { world with turn := turn, history := .read 64 magicFwOffset value :: world.history } := kept.read turn (by decide)
  have gives (world : World) (kept : Kept world) (result : HandoffResult) :
      Leaves (handoffRelease env >>= fun _ => pure (some result)) world
        (fun answer left => Kept left ∧ (answer = .ok none → MagicSeen left.history)) := by
    refine Leaves.bind (handoffRelease_keeps env kept) ?_ ?_
    all_goals exact fun _ _ post => ⟨post.1,by rintro ⟨⟩⟩
  cases value with
  | none => exact gives _ read _
  | some magic =>
  dsimp only
  split
  · rename_i seen
    subst seen
    exact ⟨read,fun _ => ⟨[],world.history,rfl,kept.known.mp locked⟩⟩
  refine leaves_ask_then (fun turn' now => ?_)
  split
  · exact gives _ (read.wait turn') _
  exact ih (read.wait turn') locked

private theorem clearFlushes_keeps (indices : List Nat) (kept : Kept world) (seen : MagicSeen world.history) :
    Leaves (clearFlushes env indices) world (fun _ left => Kept left ∧ MagicSeen left.history) := by
  have clears {world : World} (both : Kept world ∧ MagicSeen world.history) {offset : Nat} (high : flushStateOffset ≤ offset)
      {next : Bool → Action Bool} {post : Except Hung Bool → World → Prop}
      (rest : ∀ answer left, Kept left ∧ MagicSeen left.history → Leaves (next answer) left post) :
      Leaves (write64 env offset 0 >>= next) world post := by
    refine leaves_write_then (fun turn answer => rest answer _ ⟨both.1.wrote turn ?_ ⟨?_,fun _ => ⟨rfl,both.2⟩⟩,both.2.grow [_]⟩)
    all_goals
      rintro rfl
      exact absurd high (by decide)
  induction indices generalizing world with
  | nil => exact ⟨kept,seen⟩
  | cons index rest ih =>
  refine clears ⟨kept,seen⟩ (by simp only [flushStateOffset]; omega) (fun answer left both => ?_)
  cases answer with
  | false => exact both
  | true =>
  refine clears both (by simp only [flushStateOffset,flushAddrOffset]; omega) (fun answer left both => ?_)
  cases answer with
  | false => exact both
  | true =>
  refine clears both (by simp only [flushStateOffset,flushSizeOffset]; omega) (fun answer left both => ?_)
  cases answer with
  | false => exact both
  | true => exact ih both.1 both.2

theorem handoffInitialize_keeps (kept : Kept world) : Leaves (handoffInitialize env deadline) world Keeps := by
  have keeps {world : World} (kept : Kept world) (answer : Except Hung HandoffResult) : Keeps answer world :=
    ⟨kept.lawful,fun _ _ => kept⟩
  refine leaves_current_then ?_
  split
  · exact keeps kept _
  split
  · exact keeps kept _
  refine leaves_ask_then (fun turn now => ?_)
  split
  · exact keeps (kept.wait turn) _
  refine leaves_write_then (fun turn answer => ?_)
  have before : Kept { world with turn := turn, history := .wrote 64 magicApOffset pplMagic answer :: world.history } :=
    kept.wrote turn (by decide) ⟨fun same => absurd same (by decide),fun high => absurd high (by decide)⟩
  cases answer with
  | false => exact keeps before _
  | true =>
  refine Leaves.bind (handoffAcquire_settles env _ before) (fun _ _ post => ⟨post.1.1,nofun⟩) (fun acquired left post => ?_)
  split
  · exact ⟨post.1.1,fun _ _ => post.1.2 _ rfl⟩
  rename_i ok
  have ok : acquired = .ok := not_not.mp ok
  refine Leaves.bind (awaitMagic_keeps env _ deadline (post.1.2 _ rfl) (post.2.2 (by rw [ok])).2) (fun _ _ post => keeps post.1 _)
    (fun outcome left post => ?_)
  cases outcome with
  | some result => exact keeps post.1 _
  | none =>
  refine Leaves.bind (handoffRelease_keeps env post.1) (fun _ _ post => keeps post.1 _)
    (fun released left' post' => ?_)
  split
  · exact keeps post'.1 _
  have seen : MagicSeen left'.history := by
    obtain ⟨later,grown⟩ := post'.2
    rw [grown]
    exact (post.2 rfl).grow later
  refine Leaves.bind (clearFlushes_keeps env _ post'.1 seen) (fun _ _ post => keeps post.1 _) (fun cleared left post => ?_)
  cases cleared with
  | false => exact keeps post.1 _
  | true =>
  have done : Kept { left with handoff := { left.handoff with initialized := true } } := { post.1 with initialized := fun _ => post.2 }
  exact keeps done (.ok .ok)

end

end WindowsOnM1.HandoffLock
