import WindowsOnM1.HandoffLock

/-!
How long the calls of the handoff take. A round of an attempt that gives the turn to the
firmware and has it back at the first look never reads the clock; all other rounds that
begin once the time is up are the last ones.
-/
namespace WindowsOnM1.HandoffWaits
open Attempts FirmwareProvider HandoffLock List
open BackendFirmware (U32 U64)

/-- A round that begins in a turn, finds the flag of the firmware up, gives the turn away and has it back at once. -/
def HandsBack (env : Environment) (turn : Nat) : Prop :=
  (∃ fw, env.read turn 8 lockFwOffset = some fw ∧ fw ≠ 0) ∧
    (∃ theirs, env.read (turn + 1) 32 turnOffset = some theirs ∧ theirs ≠ 0) ∧
    env.write (turn + 2) 8 lockApOffset 0 = true ∧ env.read (turn + 3) 32 turnOffset = some 0 ∧
    env.write (turn + 4) 8 lockApOffset 1 = true

/-- The wait for the turn that begins in a turn is back in another one: `TURN` is 0 at last, and there was time before. -/
inductive Waited (env : Environment) (start timeout : U64) : Nat → Nat → Prop
  | back {turn : Nat} (home : env.read turn 32 turnOffset = some 0) : Waited env start timeout turn (turn + 1)
  | again {turn final : Nat} (away : ∃ theirs, env.read turn 32 turnOffset = some theirs ∧ theirs ≠ 0)
      (early : env.now (turn + 1) - start < timeout) (rest : Waited env start timeout (turn + 2) final) :
      Waited env start timeout turn final

/-- A round that begins in a turn is followed by one that begins in another. -/
inductive Follows (env : Environment) (start timeout : U64) : Nat → Nat → Prop
  | mine {turn : Nat} (up : ∃ fw, env.read turn 8 lockFwOffset = some fw ∧ fw ≠ 0)
      (home : env.read (turn + 1) 32 turnOffset = some 0) (early : env.now (turn + 2) - start < timeout) :
      Follows env start timeout turn (turn + 3)
  | given {turn back : Nat} (up : ∃ fw, env.read turn 8 lockFwOffset = some fw ∧ fw ≠ 0)
      (away : ∃ theirs, env.read (turn + 1) 32 turnOffset = some theirs ∧ theirs ≠ 0)
      (lowered : env.write (turn + 2) 8 lockApOffset 0 = true) (waited : Waited env start timeout (turn + 3) back)
      (raised : env.write back 8 lockApOffset 1 = true) : Follows env start timeout turn (back + 1)

/-- The turns in which the rounds of an attempt begin. -/
def Reached (env : Environment) (start timeout : U64) : Nat → Nat → Prop := Relation.ReflTransGen (Follows env start timeout)

/-- An answer is given between two turns. -/
def Ends {α : Type} (first bound : Nat) (answer : Except Hung α) (left : World) : Prop :=
  (∃ result, answer = .ok result) ∧ first ≤ left.turn ∧ left.turn ≤ bound
theorem Ends.within {α : Type} {answer : Except Hung α} {left : World} {first bound first' bound' : Nat}
    (ends : Ends first bound answer left) (low : first' ≤ first) (high : bound ≤ bound') : Ends first' bound' answer left :=
  ⟨ends.1,low.trans ends.2.1,ends.2.2.trans high⟩

section
variable {env : Environment} {world : World} {start timeout deadline : U64} {last horizon : Nat}

section
variable {α β : Type} {bits offset first bound : Nat} {post : Except Hung β → World → Prop}

private theorem leaves_read {next : Option (BitVec bits) → Action β} : Leaves (readRegion env bits offset >>= next) world post =
    Leaves (next (env.read world.turn bits offset)) { world with
      turn := world.turn + 1, history := .read bits offset (env.read world.turn bits offset) :: world.history } post := rfl
private theorem leaves_write {value : BitVec bits} {next : Bool → Action β} : Leaves (writeRegion env bits offset value >>= next) world post =
    Leaves (next (env.write world.turn bits offset value)) { world with
      turn := world.turn + 1, history := .wrote bits offset value (env.write world.turn bits offset value) :: world.history } post := rfl
private theorem leaves_now {next : U64 → Action β} : Leaves (ask env.now >>= next) world post =
    Leaves (next (env.now world.turn)) { world with turn := world.turn + 1 } post := rfl
private theorem leaves_timedOut {next : Bool → Action β} : Leaves (timedOut env start timeout >>= next) world post =
    Leaves (next (decide (timeout ≤ env.now world.turn - start))) { world with turn := world.turn + 1 } post := rfl
private theorem ends_pure {value : α} (room : first ≤ world.turn ∧ world.turn ≤ bound) :
    Leaves (pure value) world (Ends first bound) := ⟨⟨_,rfl⟩,room⟩

theorem Ends.then {action : Action α} {next : α → Action β} (ends : Leaves action world (Ends first bound))
    (rest : ∀ value left, first ≤ left.turn → left.turn ≤ bound → Leaves (next value) left post) :
    Leaves (action >>= next) world post := by
  refine Leaves.bind ends ?_ (fun value left post => rest value left post.2.1 post.2.2)
  rintro reason left ⟨⟨value,ok⟩,-⟩
  exact nomatch ok

end

private theorem relinquish_answers {result : HandoffResult} {post : Except Hung HandoffResult → World → Prop}
    (answers : ∀ result left, left.turn = world.turn + 1 → post (.ok result) left) : Leaves (relinquish env result) world post := by
  unfold relinquish
  rw [leaves_write]
  split
  all_goals exact answers _ _ rfl

private theorem handoffRelease_ends : Leaves (handoffRelease env) world (Ends world.turn (world.turn + 2)) := by
  refine leaves_current_then ?_
  split
  · exact ends_pure (by omega)
  rw [leaves_write]
  split
  swap
  · exact ends_pure (by simp only; omega)
  rw [leaves_write]
  split
  · exact ⟨⟨_,rfl⟩,Nat.le_add_right _ 2,Nat.le_refl _⟩
  exact ends_pure (by simp only; omega)

section
variable (late : ∀ turn, last ≤ turn → turn ≤ horizon → timeout ≤ env.now turn - start)
include late

/-- What the wait for the turn ends with: it is back at the first look, or while there is still time. -/
private theorem awaitTurn_ends {rounds : Nat} (soon : world.turn < horizon) (wide : last < horizon)
    (enough : last ≤ world.turn + rounds) (looks : 0 < rounds) :
    Leaves (awaitTurn env start timeout rounds) world (fun answer left => Ends world.turn (max (world.turn + 2) (last + 2)) answer left ∧
      (answer = .ok none → Waited env start timeout world.turn left.turn) ∧
      (answer = .ok none → (left.turn = world.turn + 1 ∧ env.read world.turn 32 turnOffset = some 0) ∨
        (world.turn < left.turn ∧ left.turn ≤ last + 1 ∧ world.turn < last))) := by
  induction rounds generalizing world with
  | zero => exact absurd looks (Nat.lt_irrefl 0)
  | succ rounds ih =>
  unfold awaitTurn
  rw [leaves_read]
  cases seen : env.read world.turn 32 turnOffset with
  | none => exact ⟨⟨⟨_,rfl⟩,by simp only [Pure.pure]; omega⟩,by rintro ⟨⟩,by rintro ⟨⟩⟩
  | some back =>
  dsimp only
  split
  · rename_i home
    subst home
    exact ⟨⟨⟨_,rfl⟩,by simp only [Pure.pure]; omega⟩,fun _ => .back seen,fun _ => .inl ⟨rfl,rfl⟩⟩
  rename_i away
  rw [leaves_timedOut]
  simp only [decide_eq_true_eq]
  split
  · exact ⟨⟨⟨_,rfl⟩,by simp only [Pure.pure]; omega⟩,by rintro ⟨⟩,by rintro ⟨⟩⟩
  rename_i early
  have before : world.turn + 1 < last := by
    by_contra far
    exact early (late _ (by omega) (by omega))
  refine (ih (by simp only; omega) (by simp only; omega) (by omega)).mono (fun answer left post => ?_)
  obtain ⟨⟨answers,by_⟩,waited,back⟩ := post
  simp only at by_ back
  refine ⟨⟨answers,by omega⟩,fun none => .again ⟨_,seen,away⟩ (BitVec.not_le.mp early) (waited none),fun none => .inr ?_⟩
  have := back none
  omega

/-- One round: the attempt ends, or the next round begins behind a round that gave the turn away and had it
    back at once, or while there is still time. -/
private theorem acquireLoop_round {rounds : Nat} {post : Except Hung HandoffResult → World → Prop} (soon : world.turn + 4 ≤ horizon)
    (wide : last < horizon) (enough : last ≤ world.turn + env.rounds)
    (answers : ∀ result left, world.turn ≤ left.turn ∧ left.turn ≤ max (world.turn + 5) (last + 2) → post (.ok result) left)
    (next : ∀ left, Follows env start timeout world.turn left.turn → (left.turn = world.turn + 5 ∧ HandsBack env world.turn) ∨
      (world.turn < left.turn ∧ left.turn ≤ last + 2 ∧ world.turn < last) → Leaves (acquireLoop env start timeout rounds) left post) :
    Leaves (acquireLoop env start timeout (rounds + 1)) world post := by
  unfold acquireLoop
  rw [leaves_read]
  cases flagged : env.read world.turn 8 lockFwOffset with
  | none => exact relinquish_answers (fun result left at_ => answers result left (by simp only at at_; omega))
  | some fw =>
  dsimp only
  split
  · rw [leaves_bind]
    simp only [leaves_changeHandoff,Then,leaves_pure]
    exact answers _ _ (by simp only; omega)
  rename_i up
  unfold contend
  rw [leaves_read]
  cases turned : env.read (world.turn + 1) 32 turnOffset with
  | none => exact relinquish_answers (fun result left at_ => answers result left (by simp only at at_; omega))
  | some theirs =>
  dsimp only
  split
  · rename_i away
    rw [leaves_write]
    cases taken : env.write (world.turn + 2) 8 lockApOffset 0 with
    | false =>
      rw [if_neg (by decide),leaves_pure]
      exact answers _ _ (by simp only; omega)
    | true =>
    refine Leaves.bind (awaitTurn_ends late (by simp only; omega) wide (by simp only; omega) (by omega)) ?_ ?_
    · rintro reason left ⟨⟨⟨result,ok⟩,-⟩,-⟩
      cases ok
    rintro outcome left ⟨⟨-,by_⟩,waited,back⟩
    simp only at by_ back
    cases outcome with
    | some result =>
      simp only [leaves_pure]
      exact answers _ _ (by omega)
    | none =>
    rw [leaves_write]
    cases given : env.write left.turn 8 lockApOffset 1 with
    | false =>
      rw [if_neg (by decide),leaves_pure]
      exact answers _ _ (by have := back rfl; simp only; omega)
    | true =>
    refine next _ (.given ⟨fw,flagged,up⟩ ⟨theirs,turned,away⟩ taken (waited rfl) given) ?_
    obtain ⟨at_,home⟩ | inTime := back rfl
    · rw [at_] at given
      exact .inl ⟨by simp only; omega,⟨fw,flagged,up⟩,⟨theirs,turned,away⟩,taken,home,given⟩
    exact .inr (by simp only; omega)
  rename_i mine
  rw [not_not.mp mine] at turned
  rw [leaves_timedOut]
  simp only [decide_eq_true_eq]
  split
  · exact relinquish_answers (fun result left at_ => answers result left (by simp only at at_; omega))
  rename_i early
  refine next _ (.mine ⟨fw,flagged,up⟩ turned (BitVec.not_le.mp early)) (.inr ?_)
  have before : world.turn + 2 < last := by
    by_contra far
    exact early (late _ (by omega) (by omega))
  simp only
  omega

end

/-- Of the rounds that begin in a turn and behind one another, not more than some hand the turn back. -/
def Stops (env : Environment) (overtime begun : Nat) : Prop := ∃ i ≤ overtime, ¬ HandsBack env (begun + 5 * i)

/-- Where a round may begin: while there is time, or behind rounds that handed the turn back and the first of which,
    one of a kind, began when the time was just up. -/
def Placed (env : Environment) (round : Nat → Prop) (last turn : Nat) : Prop :=
  turn < last ∨ ∃ begun count, round begun ∧ last ≤ begun ∧ begun ≤ last + 4 ∧ turn = begun + 5 * count ∧
    ∀ i < count, HandsBack env (begun + 5 * i)

variable {overtime origin : Nat} {round : Nat → Prop}

theorem Placed.bounded {turn : Nat} (placed : Placed env round last turn)
    (stops : ∀ begun, last ≤ begun → begun ≤ last + 4 → round begun → Stops env overtime begun) :
    turn ≤ last + 5 * overtime + 4 := by
  obtain early | ⟨begun,count,reached,from_,soon,here,backs⟩ := placed
  · omega
  obtain ⟨i,few,other⟩ := stops begun from_ soon reached
  have : count ≤ i := by
    by_contra far
    exact other (backs i (by omega))
  omega

private theorem acquireLoop_ends {rounds : Nat}
    (late : ∀ turn, last ≤ turn → turn ≤ last + 5 * overtime + 8 → timeout ≤ env.now turn - start)
    (stops : ∀ begun, last ≤ begun → begun ≤ last + 4 → Reached env start timeout origin begun → Stops env overtime begun)
    (reached : Reached env start timeout origin world.turn) (placed : Placed env (Reached env start timeout origin) last world.turn)
    (inner : last ≤ world.turn + env.rounds) (enough : last + 5 * overtime + 5 ≤ world.turn + rounds) :
    Leaves (acquireLoop env start timeout rounds) world (Ends world.turn (last + 5 * overtime + 9)) := by
  have bounded := placed.bounded stops
  induction rounds generalizing world with
  | zero => omega
  | succ rounds ih =>
  refine acquireLoop_round late (by omega) (by omega) inner (fun result left by_ => ⟨⟨_,rfl⟩,by omega⟩) (fun left follows goes => ?_)
  have reached' : Reached env start timeout origin left.turn := reached.tail follows
  have placed' : Placed env (Reached env start timeout origin) last left.turn := by
    by_cases early : left.turn < last
    · exact .inl early
    obtain ⟨next,back⟩ | inTime := goes
    · obtain before | ⟨begun,count,isRound,from_,soon,here,backs⟩ := placed
      · exact .inr ⟨left.turn,0,reached',by omega,by omega,rfl,nofun⟩
      refine .inr ⟨begun,count + 1,isRound,from_,soon,by omega,fun i below => ?_⟩
      obtain less | rfl := Nat.lt_succ_iff_lt_or_eq.mp below
      · exact backs i less
      rwa [← here]
    exact .inr ⟨left.turn,0,reached',by omega,by omega,rfl,nofun⟩
  exact (ih reached' placed' (by omega) (by omega) (placed'.bounded stops)).mono (fun _ _ post => post.within (by omega) (Nat.le_refl _))

/-- The loop of an initialization that waits for the magic. -/
private theorem awaitMagic_ends {rounds : Nat} (late : ∀ turn, last ≤ turn → turn ≤ horizon → deadline ≤ env.now turn)
    (soon : world.turn < horizon) (wide : last < horizon) (enough : last ≤ world.turn + rounds) (looks : 0 < rounds) :
    Leaves (awaitMagic env deadline rounds) world (Ends world.turn (max (world.turn + 4) (last + 4))) := by
  have releases (world : World) (result : HandoffResult) :
      Leaves (handoffRelease env >>= fun _ => pure (some result)) world (Ends world.turn (world.turn + 2)) := by
    exact Ends.then handoffRelease_ends (fun _ left low high => ends_pure ⟨low,high⟩)
  induction rounds generalizing world with
  | zero => exact absurd looks (Nat.lt_irrefl 0)
  | succ rounds ih =>
  unfold awaitMagic
  rw [leaves_read]
  cases env.read world.turn 64 magicFwOffset with
  | none => exact (releases _ _).mono (fun _ left post => post.within (by simp only; omega) (by simp only; omega))
  | some magic =>
  dsimp only
  split
  · exact ends_pure (by simp only; omega)
  rw [leaves_now]
  dsimp only
  split
  · exact (releases _ _).mono (fun _ left post => post.within (by simp only; omega) (by simp only; omega))
  rename_i early
  have before : world.turn + 1 < last := by
    by_contra far
    exact early (late _ (by omega) (by omega))
  exact (ih (by simp only; omega) (by simp only; omega) (by omega)).mono
    (fun answer left post => post.within (by simp only; omega) (by simp only; omega))

private theorem clearFlushes_ends (indices : List Nat) :
    Leaves (clearFlushes env indices) world (Ends world.turn (world.turn + 3 * indices.length)) := by
  induction indices generalizing world with
  | nil => exact ⟨⟨_,rfl⟩,Nat.le_refl _,Nat.le_refl _⟩
  | cons index rest ih =>
  have writes {world : World} {first bound offset : Nat} {next : Action Bool} (room : first ≤ world.turn ∧ world.turn < bound)
      (rest : ∀ left, left.turn = world.turn + 1 → Leaves next left (Ends first bound)) :
      Leaves (write64 env offset 0 >>= fun answer => if answer then next else pure false) world (Ends first bound) := by
    rw [leaves_write]
    split
    · exact rest _ rfl
    exact ⟨⟨_,rfl⟩,room.1.trans (Nat.le_succ _),room.2⟩
  simp only [length_cons]
  refine writes (by omega) (fun left first => writes (by omega) (fun left second => writes (by omega) (fun left third => ?_)))
  exact ih.mono (fun _ left post => post.within (by omega) (by omega))

/-- A clock over the turns of a call. Of two turns one at least is an access, or the loop relaxes between them. -/
structure Ticking (env : Environment) (clock : Nat → Nat) (first final : Nat) : Prop where
  reads : ∀ turn, first ≤ turn → turn ≤ final → env.now turn = BitVec.ofNat 64 (clock turn)
  grows : ∀ turn, first ≤ turn → turn < final → clock turn ≤ clock (turn + 1)
  ticks : ∀ turn, first ≤ turn → turn + 2 ≤ final → clock turn < clock (turn + 2)

variable {clock : Nat → Nat} {first final : Nat}

theorem Ticking.mono (ticking : Ticking env clock first final) {turn later : Nat} (from_ : first ≤ turn) (le : turn ≤ later)
    (by_ : later ≤ final) : clock turn ≤ clock later := by
  induction later, le using Nat.le_induction with
  | base => exact Nat.le_refl _
  | succ later le ih => exact (ih (by omega)).trans (ticking.grows later (by omega) (by omega))

theorem Ticking.elapsed (ticking : Ticking env clock first final) (count : Nat) {turn : Nat} (from_ : first + 2 * count ≤ turn)
    (by_ : turn ≤ final) : clock first + count ≤ clock turn := by
  induction count generalizing turn with
  | zero => exact ticking.mono (Nat.le_refl _) from_ by_
  | succ count ih =>
  have before := ih (Nat.le_refl _) (by omega)
  have tick := ticking.ticks (first + 2 * count) (by omega) (by omega)
  have after : clock (first + 2 * count + 2) ≤ clock turn := ticking.mono (by omega) (by omega) by_
  omega

/-- What an attempt that begins in a turn needs to end: the time that has passed fits the words of the clock, and of the
    rounds that it reaches not too many hand the turn back once the time is up. -/
structure Waits (env : Environment) (clock : Nat → Nat) (overtime first : Nat) (timeout : U64) : Prop where
  fits : clock (first + 2 * timeout.toNat + 5 * overtime + 8) < clock first + 2 ^ 64
  stops : ∀ begun, first + 2 * timeout.toNat ≤ begun → begun ≤ first + 2 * timeout.toNat + 4 →
    Reached env (env.now first) timeout (first + 2) begun → Stops env overtime begun

private theorem handoffAcquire_ends (ticking : Ticking env clock world.turn (world.turn + 2 * timeout.toNat + 5 * overtime + 8))
    (waits : Waits env clock overtime world.turn timeout) (enough : 2 * timeout.toNat + 5 * overtime + 5 ≤ env.rounds) :
    Leaves (handoffAcquire env timeout) world (Ends world.turn (world.turn + 2 * timeout.toNat + 5 * overtime + 9)) := by
  refine leaves_current_then ?_
  split
  · exact ends_pure (by omega)
  rw [leaves_now]
  rw [leaves_write]
  split
  swap
  · exact ends_pure (by simp only; omega)
  refine Leaves.mono (acquireLoop_ends (fun turn from_ by_ => ?_) waits.stops .refl ?_ (by simp only; omega) (by simp only; omega))
    (fun _ _ post => post.within (by simp only; omega) (by omega))
  · have passed := ticking.elapsed timeout.toNat from_ by_
    have fits := (ticking.mono (by omega) by_ (Nat.le_refl _)).trans_lt waits.fits
    rw [ticking.reads turn (by omega) by_,ticking.reads world.turn (Nat.le_refl _) (by omega),BitVec.le_def]
    simp only [BitVec.toNat_sub,BitVec.toNat_ofNat]
    omega
  by_cases early : world.turn + 2 < world.turn + 2 * timeout.toNat
  · exact .inl early
  exact .inr ⟨world.turn + 2,0,.refl,by omega,by omega,rfl,nofun⟩

private theorem handoffInitialize_ends {wait : Nat} (long : wait = (deadline - env.now world.turn).toNat)
    (ticking : Ticking env clock world.turn (world.turn + 2 * wait + 5 * overtime + 12))
    (waits : env.now world.turn < deadline → Waits env clock overtime (world.turn + 2) (deadline - env.now world.turn) ∧
      clock (world.turn + 2 * wait + 5 * overtime + 12) < 2 ^ 64) (enough : 2 * wait + 5 * overtime + 5 ≤ env.rounds) :
    Leaves (handoffInitialize env deadline) world (Ends world.turn (world.turn + 2 * wait + 5 * overtime + 215)) := by
  refine leaves_current_then ?_
  split
  · exact ends_pure (by omega)
  split
  · exact ends_pure (by omega)
  rw [leaves_now]
  split
  · exact ends_pure (by simp only; omega)
  rename_i ahead
  obtain ⟨waits,unwrapped⟩ := waits (BitVec.not_le.mp ahead)
  rw [leaves_write]
  split
  swap
  · exact ends_pure (by simp only; omega)
  have within : Ticking env clock (world.turn + 2) (world.turn + 2 + 2 * wait + 5 * overtime + 8) :=
    ⟨fun turn _ _ => ticking.reads turn (by omega) (by omega),fun turn _ _ => ticking.grows turn (by omega) (by omega),
      fun turn _ _ => ticking.ticks turn (by omega) (by omega)⟩
  rw [long] at within
  refine Ends.then (handoffAcquire_ends within waits (by omega)) (fun acquired left low high => ?_)
  simp only [← long] at low high
  split
  · exact ends_pure (by omega)
  have late : ∀ turn, world.turn + 2 * wait ≤ turn → turn ≤ world.turn + 2 * wait + 5 * overtime + 12 → deadline ≤ env.now turn := by
    intro turn from_ by_
    have passed := ticking.elapsed wait from_ by_
    have fits := (ticking.mono (by omega) by_ (Nat.le_refl _)).trans_lt unwrapped
    have now := ticking.reads world.turn (Nat.le_refl _) (by omega)
    rw [now] at long
    rw [ticking.reads turn (by omega) by_,BitVec.le_def]
    simp only [BitVec.toNat_sub,BitVec.toNat_ofNat] at long ⊢
    have : deadline.toNat < 2 ^ 64 := deadline.isLt
    omega
  refine Ends.then (awaitMagic_ends late (by omega) (by omega) (by omega) (by omega)) (fun outcome left' low' high' => ?_)
  cases outcome with
  | some result => exact ends_pure (by omega)
  | none =>
  refine Ends.then handoffRelease_ends (fun released left'' low'' high'' => ?_)
  split
  · exact ends_pure (by omega)
  refine Ends.then (clearFlushes_ends _) (fun cleared last low high => ?_)
  simp only [length_range,flushCount] at high
  have room : world.turn ≤ last.turn ∧ last.turn ≤ world.turn + 2 * wait + 5 * overtime + 215 := by omega
  split
  · exact ⟨⟨_,rfl⟩,room⟩
  exact ends_pure room

end

inductive Call
  | initializeBy (deadline : U64) | acquire (timeout : U64) | release
def perform (env : Environment) : Call → Action HandoffResult
  | .initializeBy deadline => handoffInitialize env deadline
  | .acquire timeout => handoffAcquire env timeout
  | .release => handoffRelease env

/-- How many accesses and looks at the clock a call may take that begins at a time. -/
def budget (overtime : Nat) (now : U64) : Call → Nat
  | .initializeBy deadline => 2 * (deadline - now).toNat + 5 * overtime + 215
  | .acquire timeout => 2 * timeout.toNat + 5 * overtime + 9
  | .release => 2

/-- What a call needs to end that begins in a turn; an initialization compares the readings themselves. -/
def Answered (env : Environment) (clock : Nat → Nat) (overtime first : Nat) : Call → Prop
  | .initializeBy deadline => env.now first < deadline → Waits env clock overtime (first + 2) (deadline - env.now first) ∧
      clock (first + 2 * (deadline - env.now first).toNat + 5 * overtime + 12) < 2 ^ 64
  | .acquire timeout => Waits env clock overtime first timeout
  | .release => True

/-- The worlds between the calls, from the binding of the region on. -/
inductive Between (env : Environment) : World → Prop
  | bound {world : World} (fresh : world.handoff = ⟨true,false,false⟩) (blank : world.history = []) : Between env world
  | called {world left : World} (call : Call) {result : HandoffResult} (between : Between env world)
      (performs : perform env call world = (.ok result,left)) : Between env left

private theorem perform_keeps (env : Environment) (call : Call) {world : World} (kept : Kept world) : Leaves (perform env call) world Keeps := by
  cases call with
  | initializeBy deadline => exact handoffInitialize_keeps env deadline kept
  | acquire timeout => exact (handoffAcquire_settles env timeout kept).mono (fun _ _ post => post.1)
  | release => exact (handoffRelease_keeps env kept).mono (fun _ _ post => ⟨post.1.lawful,fun _ _ => post.1⟩)

private theorem between_kept {env : Environment} {world : World} (between : Between env world) : Kept world := by
  induction between with
  | bound fresh blank =>
    refine ⟨?_,fun _ => ?_,by rw [blank]; trivial,fun done => by rw [fresh] at done; cases done⟩
    · exact iff_of_false (by rw [fresh]; decide) (by rw [blank]; decide)
    exact iff_of_false (by rw [blank]; decide) (by rw [fresh]; decide)
  | called call between performs ih =>
  have keeps := perform_keeps env call ih
  unfold Leaves at keeps
  rw [performs] at keeps
  exact keeps.2 _ rfl

private theorem perform_ends {env : Environment} {clock : Nat → Nat} {overtime : Nat} (call : Call) {world : World}
    (ticking : Ticking env clock world.turn (world.turn + budget overtime (env.now world.turn) call))
    (answered : Answered env clock overtime world.turn call) (enough : budget overtime (env.now world.turn) call ≤ env.rounds) :
    Leaves (perform env call) world (Ends world.turn (world.turn + budget overtime (env.now world.turn) call)) := by
  have within {final : Nat} (le : final ≤ world.turn + budget overtime (env.now world.turn) call) :
      Ticking env clock world.turn final :=
    ⟨fun turn low high => ticking.reads turn low (high.trans le),fun turn low high => ticking.grows turn low (high.trans_le le),
      fun turn low high => ticking.ticks turn low (high.trans le)⟩
  cases call with
  | initializeBy deadline =>
    simp only [budget] at within enough
    exact (handoffInitialize_ends rfl (within (by omega)) answered (by omega)).mono
      (fun _ _ post => post.within (Nat.le_refl _) (by simp only [budget]; omega))
  | acquire timeout =>
    simp only [budget] at within enough
    exact (handoffAcquire_ends (within (by omega)) answered (by omega)).mono
      (fun _ _ post => post.within (Nat.le_refl _) (by simp only [budget]; omega))
  | release => exact handoffRelease_ends

/-- Every call of the handoff ends within its budget where not too many rounds hand the turn back once the time is up.
    Whatever the firmware does, the flag of this side is up exactly when the lock is held, the lock is held only where
    the other flag was seen down behind it, `TURN` is written by a release alone, and the flush records are cleared and
    the handoff is initialized only behind the magic. -/
theorem handoff_ends_whole (env : Environment) :
    (∀ world call clock overtime, Ticking env clock world.turn (world.turn + budget overtime (env.now world.turn) call) →
      Answered env clock overtime world.turn call → budget overtime (env.now world.turn) call ≤ env.rounds →
      ∃ result left, perform env call world = (.ok result,left) ∧
        left.turn ≤ world.turn + budget overtime (env.now world.turn) call) ∧
    (∀ world, Between env world → Kept world ∧ ∀ call, Lawful (perform env call world).2.history) ∧
    (∀ world timeout, Kept world → Leaves (handoffAcquire env timeout) world (fun answer left =>
      Adds Polls world.history left.history ∧ (answer = .ok .ok → Granted world.history left.history))) := by
  refine ⟨fun world call clock overtime ticking answered enough => ?_,fun world between => ?_,fun world timeout kept => ?_⟩
  · have ends := perform_ends call ticking answered enough
    obtain ⟨⟨result,ok⟩,-,by_⟩ := ends
    exact ⟨result,_,Prod.ext ok rfl,by_⟩
  · have kept := between_kept between
    exact ⟨kept,fun call => (perform_keeps env call kept).1⟩
  · exact (handoffAcquire_settles env timeout kept).mono (fun _ _ post => ⟨post.2.1,fun ok => (post.2.2 ok).1⟩)

/-- The firmware asks for the turn with its flag up, hands it back at once and takes its flag down. -/
def contending : Environment :=
  { FirmwareSafety.willing with
    read := fun turn _ offset => some (if 7 ≤ turn ∨ offset = turnOffset ∧ turn = 5 then 0 else 1)
    now := fun turn => BitVec.ofNat 64 turn
    rounds := 16 }

theorem handoff_ends_whole_contending : HandsBack contending 2 ∧
    ∃ result left, perform contending (.acquire 1) (initializedWorld false) = (.ok result,left) ∧ left.turn ≤ 16 := by
  refine ⟨⟨⟨1,rfl,by decide⟩,⟨1,rfl,by decide⟩,rfl,rfl,rfl⟩,(handoff_ends_whole contending).1 (initializedWorld false) (.acquire 1)
    id 1 ?_ ⟨by decide,fun begun from_ by_ _ => ⟨1,Nat.le_refl 1,?_⟩⟩ (by decide)⟩
  · exact ⟨fun _ _ _ => rfl,fun turn _ _ => Nat.le_succ turn,fun turn _ _ => Nat.lt_add_of_pos_right (by decide)⟩
  rintro ⟨⟨fw,down,up⟩,-⟩
  have lowered : contending.read (begun + 5) 8 lockFwOffset = some 0 :=
    congrArg some (if_pos (.inl (Nat.add_le_add_right from_ 5)))
  rw [lowered] at down
  cases down
  exact up rfl

/-- The firmware keeps its flag up, asks for the turn and gives it back at once. -/
def handingBack (rounds : Nat) : Environment :=
  { FirmwareSafety.willing with
    read := fun turn _ offset => some (if offset = turnOffset ∧ turn % 5 = 0 then 0 else 1)
    now := fun turn => BitVec.ofNat 64 turn
    rounds := rounds }

private theorem handingBack_hangs (rounds count : Nat) (start timeout : U64) {world : World} (phase : world.turn % 5 = 2) :
    Leaves (acquireLoop (handingBack rounds) start timeout count) world (fun answer _ => answer = .error .handoff) := by
  induction count generalizing world with
  | zero => rfl
  | succ count ih =>
  have asks : (handingBack rounds).read (world.turn + 1) 32 turnOffset = some 1 :=
    congrArg some (if_neg (fun both => absurd both.2 (by omega)))
  have gives : (handingBack rounds).read (world.turn + 1 + 1 + 1) 32 turnOffset = some 0 := congrArg some (if_pos ⟨rfl,by omega⟩)
  unfold acquireLoop contend awaitTurn
  rw [leaves_read]
  change Leaves (readRegion _ _ _ >>= _) _ _
  rw [leaves_read,asks]
  change Leaves (writeRegion _ _ _ _ >>= _) _ _
  rw [leaves_write]
  change Leaves (readRegion _ _ _ >>= _ >>= _) _ _
  rw [leaves_bind,leaves_read,gives]
  dsimp only
  rw [if_pos rfl,leaves_pure]
  dsimp only [Then]
  exact ih (by simp only; omega)

/-- No bound in terms of the timeout holds for every firmware. -/
theorem handoff_waits_forever : ¬ ∃ bound : U64 → Nat, ∀ (env : Environment) (clock : Nat → Nat) (timeout : U64) (world : World),
    Between env world → (∀ final, Ticking env clock world.turn final) → bound timeout ≤ env.rounds →
    ∃ result left, handoffAcquire env timeout world = (.ok result,left) ∧ left.turn ≤ world.turn + bound timeout := by
  rintro ⟨bound,claim⟩
  obtain ⟨result,left,returns,-⟩ := claim (handingBack (bound 1)) id 1 (initializedWorld false) (.bound rfl rfl)
    (fun _ => ⟨fun _ _ _ => rfl,fun turn _ _ => Nat.le_succ turn,fun turn _ _ => Nat.lt_add_of_pos_right (by decide)⟩) (Nat.le_refl _)
  have hangs : Leaves (handoffAcquire (handingBack (bound 1)) 1) (initializedWorld false) (fun answer _ => answer = .error .handoff) := by
    unfold handoffAcquire
    refine leaves_current_then ?_
    rw [if_neg (by decide),leaves_bind]
    simp only [leaves_ask,Then]
    rw [leaves_write]
    change Leaves (if true = true then _ else _) _ _
    rw [if_pos rfl]
    exact handingBack_hangs _ _ _ _ rfl
  unfold Leaves at hangs
  rw [returns] at hangs
  cases hangs

end WindowsOnM1.HandoffWaits
