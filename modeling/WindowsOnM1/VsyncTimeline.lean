import Mathlib.Order.Bounds.Basic
import WindowsOnM1.CheckedWords

/-!
The vsync timeline of `apple_agx_vsync.h`: the periods of the panel since the last latch,
counted by a floor, and the deadline of the next one, found by a ceiling. Times are in
units of 100 ns.
-/
namespace WindowsOnM1.VsyncTimeline
open CheckedWords List
open BitVec hiding not_or

abbrev U64 := BitVec 64

/-- `APPLE_AGX_VSYNC_RATE_NUMERATOR`. -/
abbrev rateNumerator : U64 := 3932151

/-- `APPLE_AGX_VSYNC_PERIOD_NUMERATOR`. -/
abbrev periodNumerator : U64 := 655360000000

/-- `APPLE_AGX_VSYNC_MAX`. -/
abbrev vsyncMax : U64 := 0xffffffffffffffff

/-- `APPLE_AGX_VSYNC_TIMELINE`. -/
structure Timeline where
  phase100ns : U64
  lastPeriod : U64
  activeSequence : U64
  activeAddress : U64
  activeValid : Bool
  enabled : Bool
  running : Bool
deriving DecidableEq

/-- `AppleAgxVsyncLatch`. -/
def latch (sequence address now : U64) (timeline : Timeline) : Bool × Timeline :=
  if sequence = 0 ∨ address = 0 ∨ sequence ≤ timeline.activeSequence then (false,timeline)
  else
    (true, { timeline with
        phase100ns := now, lastPeriod := 0, activeSequence := sequence, activeAddress := address, activeValid := true })

section
variable {m : Type → Type} [Monad m] (arith : Arithmetic 64 m)

/-- The split product of `AppleAgxVsyncAdvance`. -/
def periodIn (elapsed : U64) : m U64 := do
  let whole ← arith.mul (elapsed / periodNumerator) rateNumerator
  let part ← arith.mul (elapsed % periodNumerator) rateNumerator
  arith.add whole (part / periodNumerator)

def advanceIn (now : U64) (timeline : Timeline) : m (Bool × Timeline) :=
  if timeline.running = false ∨ timeline.activeValid = false ∨ now < timeline.phase100ns then pure (false,timeline)
  else do
    let elapsed ← arith.sub now timeline.phase100ns
    let period ← periodIn arith elapsed
    if period ≤ timeline.lastPeriod then pure (false,timeline)
    else pure (timeline.enabled,{ timeline with lastPeriod := period })

/-- The split product of `AppleAgxVsyncDeadline`, which rounds up. -/
def fractionIn (n rem : U64) : m U64 := do
  let turns ← arith.mul (n / rateNumerator) rem
  let part ← arith.mul (n % rateNumerator) rem
  let above ← arith.add part rateNumerator
  let raised ← arith.sub above 1
  arith.add turns (raised / rateNumerator)

def deadlineIn (timeline : Timeline) : m (Option U64) :=
  if timeline.running = false ∨ timeline.enabled = false ∨ timeline.activeValid = false ∨ timeline.lastPeriod = vsyncMax then
    pure none
  else do
    let n ← arith.add timeline.lastPeriod 1
    let whole := periodNumerator / rateNumerator
    let rem := periodNumerator % rateNumerator
    if vsyncMax / whole < n then pure none
    else
      let delta ← arith.mul n whole
      let fraction ← fractionIn arith n rem
      let room ← arith.sub vsyncMax delta
      if room < fraction then pure none
      else
        let delta ← arith.add delta fraction
        let room ← arith.sub vsyncMax timeline.phase100ns
        if room < delta then pure none
        else
          let deadline ← arith.add timeline.phase100ns delta
          pure (some deadline)

end

/-- `AppleAgxVsyncAdvance`. -/
def advance (now : U64) (timeline : Timeline) : Bool × Timeline := (advanceIn (wrapping 64) now timeline).run

/-- `AppleAgxVsyncDeadline`: the deadline, when it returns TRUE. -/
def deadline (timeline : Timeline) : Option U64 := (deadlineIn (wrapping 64) timeline).run

/-- The periods that are complete after some time. -/
def periodsIn (elapsed : Nat) : Nat := elapsed * 3932151 / 655360000000

/-- The first time at which some number of periods is complete. -/
def dueAfter (periods : Nat) : Nat := (periods * 655360000000 + 3932150) / 3932151
private theorem dueAfter_le_iff (periods elapsed : Nat) : dueAfter periods ≤ elapsed ↔ periods ≤ periodsIn elapsed := by
  simp only [dueAfter,periodsIn]
  omega
private theorem periodsIn_split (elapsed : Nat) :
    elapsed / 655360000000 * 3932151 + elapsed % 655360000000 * 3932151 / 655360000000 = periodsIn elapsed := by
  simp only [periodsIn]
  omega
private theorem dueAfter_split (periods : Nat) :
    periods * 166667 + (periods / 3932151 * 189283 + (periods % 3932151 * 189283 + 3932151 - 1) / 3932151) = dueAfter periods := by
  simp only [dueAfter]
  omega

section
variable {m : Type → Type} [Monad m] [LawfulMonad m] {arith : Arithmetic 64 m}

private theorem periodIn_exact (exact : Exact arith) (elapsed : U64) :
    periodIn arith elapsed = pure (BitVec.ofNat 64 (periodsIn elapsed.toNat)) := by
  have whole := exact.mul_ofNat (a := elapsed / periodNumerator) (b := rateNumerator) (x := elapsed.toNat / 655360000000)
    (y := 3932151) toNat_udiv rfl (by omega)
  have part := exact.mul_ofNat (a := elapsed % periodNumerator) (b := rateNumerator) (x := elapsed.toNat % 655360000000)
    (y := 3932151) toNat_umod rfl (by omega)
  have quotient : (BitVec.ofNat 64 (elapsed.toNat % 655360000000 * 3932151) / periodNumerator).toNat =
      elapsed.toNat % 655360000000 * 3932151 / 655360000000 := by
    rw [toNat_udiv,toNat_ofNat_of_lt (by omega)]
    rfl
  have sum := exact.add_ofNat (toNat_ofNat_of_lt (w := 64) (x := elapsed.toNat / 655360000000 * 3932151) (by omega)) quotient
    (by omega)
  simp only [periodIn,whole,part,pure_bind,sum,periodsIn_split]

private theorem advanceIn_exact (exact : Exact arith) (now : U64) (timeline : Timeline) : advanceIn arith now timeline = pure
      (if timeline.running = false ∨ timeline.activeValid = false ∨ now < timeline.phase100ns ∨
          periodsIn (now.toNat - timeline.phase100ns.toNat) ≤ timeline.lastPeriod.toNat then (false,timeline)
        else (timeline.enabled,
          { timeline with lastPeriod := BitVec.ofNat 64 (periodsIn (now.toNat - timeline.phase100ns.toNat)) })) := by
  unfold advanceIn
  split
  · rw [if_pos]
    tauto
  rename_i idle
  obtain ⟨running,valid,reached⟩ : timeline.running = true ∧ timeline.activeValid = true ∧ timeline.phase100ns ≤ now := by
    simpa using idle
  have small : periodsIn (now.toNat - timeline.phase100ns.toNat) < 2 ^ 64 := by
    simp only [periodsIn]
    omega
  have le : BitVec.ofNat 64 (periodsIn (now.toNat - timeline.phase100ns.toNat)) ≤ timeline.lastPeriod ↔
      periodsIn (now.toNat - timeline.phase100ns.toNat) ≤ timeline.lastPeriod.toNat := by
    rw [le_def,toNat_ofNat_of_lt small]
  have whole : ¬ now < timeline.phase100ns := BitVec.not_lt.mpr reached
  simp only [exact.sub _ _ reached,pure_bind,periodIn_exact exact,toNat_sub_of_le reached,le,running,valid,whole,
    Bool.true_eq_false,false_or]
  split <;> rfl

private theorem fractionIn_exact (exact : Exact arith) {n : U64} (small : n.toNat ≤ 110680243081771) :
    fractionIn arith n (periodNumerator % rateNumerator) =
      pure (BitVec.ofNat 64 (n.toNat / 3932151 * 189283 + (n.toNat % 3932151 * 189283 + 3932151 - 1) / 3932151)) := by
  have turns := exact.mul_ofNat (a := n / rateNumerator) (b := periodNumerator % rateNumerator) (x := n.toNat / 3932151)
    (y := 189283) toNat_udiv rfl (by omega)
  have part := exact.mul_ofNat (a := n % rateNumerator) (b := periodNumerator % rateNumerator) (x := n.toNat % 3932151)
    (y := 189283) toNat_umod rfl (by omega)
  have above := exact.add_ofNat (toNat_ofNat_of_lt (w := 64) (x := n.toNat % 3932151 * 189283) (by omega))
    (b := rateNumerator) (y := 3932151) rfl (by omega)
  have raised := exact.sub_ofNat (toNat_ofNat_of_lt (w := 64) (x := n.toNat % 3932151 * 189283 + 3932151) (by omega))
    (b := 1) (y := 1) rfl (by omega)
  have quotient : (BitVec.ofNat 64 (n.toNat % 3932151 * 189283 + 3932151 - 1) / rateNumerator).toNat =
      (n.toNat % 3932151 * 189283 + 3932151 - 1) / 3932151 := by
    rw [toNat_udiv,toNat_ofNat_of_lt (by omega)]
    rfl
  have sum := exact.add_ofNat (toNat_ofNat_of_lt (w := 64) (x := n.toNat / 3932151 * 189283) (by omega)) quotient (by omega)
  simp only [fractionIn,turns,part,above,raised,pure_bind,sum]

/-- Whether the timeline has deadlines at all. -/
def Timeline.live (timeline : Timeline) : Prop :=
  timeline.running = true ∧ timeline.enabled = true ∧ timeline.activeValid = true
instance (timeline : Timeline) : Decidable timeline.live := by
  unfold Timeline.live
  infer_instance

/-- The time of the next vsync, which may lie behind the last time that there is. -/
def Timeline.due (timeline : Timeline) : Nat := timeline.phase100ns.toNat + dueAfter (timeline.lastPeriod.toNat + 1)

private theorem deadlineIn_exact (exact : Exact arith) (timeline : Timeline) : deadlineIn arith timeline =
      pure (if timeline.live ∧ timeline.due < 2 ^ 64 then some (BitVec.ofNat 64 timeline.due) else none) := by
  have split := dueAfter_split (timeline.lastPeriod.toNat + 1)
  unfold deadlineIn
  by_cases live : timeline.live
  swap
  · rw [if_pos (by simp only [Timeline.live] at live; grind),if_neg (fun both => live both.1)]
  by_cases last : timeline.lastPeriod = vsyncMax
  · have late : ¬ timeline.due < 2 ^ 64 := by
      simp only [Timeline.due,dueAfter,last]
      have : (vsyncMax).toNat = 18446744073709551615 := rfl
      omega
    rw [if_pos (.inr (.inr (.inr last))),if_neg (fun both => late both.2)]
  have next : timeline.lastPeriod.toNat + 1 < 2 ^ 64 := by
    have ne : timeline.lastPeriod.toNat ≠ 18446744073709551615 := fun same => last (eq_of_toNat_eq same)
    omega
  have n := exact.add_ofNat (a := timeline.lastPeriod) (b := 1) (y := 1) rfl rfl next
  rw [if_neg (by obtain ⟨running,enabled,valid⟩ := live; simpa [running,enabled,valid] using last)]
  simp only [n,pure_bind]
  have room : (vsyncMax / (periodNumerator / rateNumerator)).toNat = 110680243081771 := rfl
  by_cases far : vsyncMax / (periodNumerator / rateNumerator) < BitVec.ofNat 64 (timeline.lastPeriod.toNat + 1)
  · have late : ¬ timeline.due < 2 ^ 64 := by
      rw [lt_def,room,toNat_ofNat_of_lt next] at far
      simp only [Timeline.due,dueAfter]
      omega
    rw [if_pos far,if_neg (fun both => late both.2)]
  have near : timeline.lastPeriod.toNat + 1 ≤ 110680243081771 := by
    rw [lt_def,room,toNat_ofNat_of_lt next] at far
    omega
  have nextNat := toNat_ofNat_of_lt (w := 64) next
  have delta := exact.mul_ofNat (a := BitVec.ofNat 64 (timeline.lastPeriod.toNat + 1)) (b := periodNumerator / rateNumerator)
    (y := 166667) nextNat rfl (by omega)
  have fraction := fractionIn_exact exact (n := BitVec.ofNat 64 (timeline.lastPeriod.toNat + 1)) (by rw [nextNat]; exact near)
  rw [nextNat] at fraction
  obtain ⟨whole,wholeIs⟩ : ∃ whole, whole = (timeline.lastPeriod.toNat + 1) * 166667 := ⟨_,rfl⟩
  obtain ⟨part,partIs⟩ : ∃ part, part = (timeline.lastPeriod.toNat + 1) / 3932151 * 189283 +
    ((timeline.lastPeriod.toNat + 1) % 3932151 * 189283 + 3932151 - 1) / 3932151 := ⟨_,rfl⟩
  rw [← wholeIs] at split delta
  rw [← partIs] at split fraction
  simp only [if_neg far,delta,fraction,pure_bind]
  have wholeNat := toNat_ofNat_of_lt (w := 64) (x := whole) (by omega)
  have partNat := toNat_ofNat_of_lt (w := 64) (x := part) (by omega)
  have left := exact.sub_ofNat (a := vsyncMax) (b := BitVec.ofNat 64 whole) (x := 18446744073709551615) rfl wholeNat (by omega)
  simp only [left,pure_bind]
  by_cases above : BitVec.ofNat 64 (18446744073709551615 - whole) < BitVec.ofNat 64 part
  · have late : ¬ timeline.due < 2 ^ 64 := by
      rw [lt_def,toNat_ofNat_of_lt (by omega),partNat] at above
      simp only [Timeline.due]
      omega
    rw [if_pos above,if_neg (fun both => late both.2)]
  have fits : whole + part < 2 ^ 64 := by
    rw [lt_def,toNat_ofNat_of_lt (by omega),partNat] at above
    omega
  have sum := exact.add_ofNat wholeNat partNat fits
  have room := exact.sub_ofNat (a := vsyncMax) (b := timeline.phase100ns) (x := 18446744073709551615) rfl rfl (by omega)
  have reached : BitVec.ofNat 64 (18446744073709551615 - timeline.phase100ns.toNat) < BitVec.ofNat 64 (whole + part) ↔
      ¬ timeline.due < 2 ^ 64 := by
    rw [lt_def,toNat_ofNat_of_lt (by omega),toNat_ofNat_of_lt fits]
    simp only [Timeline.due]
    omega
  simp only [if_neg above,sum,room,pure_bind,reached]
  by_cases inside : timeline.due < 2 ^ 64
  · have deadline := exact.add_ofNat (a := timeline.phase100ns) rfl (toNat_ofNat_of_lt fits)
      (by simp only [Timeline.due] at inside; omega)
    rw [if_neg (not_not.mpr inside),if_pos ⟨live,inside⟩,deadline,pure_bind,Timeline.due,split]
  rw [if_pos inside,if_neg (fun both => inside both.2)]

end

section
variable (now : U64) (timeline : Timeline)

private theorem advance_checked : advanceIn (checked 64) now timeline = some (advance now timeline) := by
  rw [advance,advanceIn_exact checked_exact,advanceIn_exact wrapping_exact]
  rfl
private theorem deadline_checked : deadlineIn (checked 64) timeline = some (deadline timeline) := by
  rw [deadline,deadlineIn_exact checked_exact,deadlineIn_exact wrapping_exact]
  rfl
private theorem deadline_eq :
    deadline timeline = if timeline.live ∧ timeline.due < 2 ^ 64 then some (BitVec.ofNat 64 timeline.due) else none := by
  rw [deadline,deadlineIn_exact wrapping_exact]
  rfl

/-- A vsync has come by some time: more periods are complete than were counted. -/
def Timeline.Comes (time : U64) : Prop :=
  timeline.phase100ns ≤ time ∧ timeline.lastPeriod.toNat < periodsIn (time.toNat - timeline.phase100ns.toNat)
instance (time : U64) : Decidable (timeline.Comes time) := by
  unfold Timeline.Comes
  infer_instance

private theorem comes_iff (time : U64) : timeline.Comes time ↔ timeline.due ≤ time.toNat := by
  have due := dueAfter_le_iff (timeline.lastPeriod.toNat + 1) (time.toNat - timeline.phase100ns.toNat)
  simp only [Timeline.Comes,le_def,Timeline.due]
  constructor
  · intro comes
    have := due.mpr comes.2
    omega
  intro reached
  exact ⟨by omega,due.mp (by omega)⟩

private theorem periodsIn_small (time : U64) (start : Nat) : periodsIn (time.toNat - start) < 2 ^ 64 := by
  simp only [periodsIn]
  omega

private theorem advance_idle (idle : ¬ (timeline.running = true ∧ timeline.activeValid = true ∧ timeline.Comes now)) :
    advance now timeline = (false,timeline) := by
  rw [advance,advanceIn_exact wrapping_exact,if_pos]
  · rfl
  simp only [Timeline.Comes,le_def] at idle
  simp only [lt_def,← Bool.not_eq_true]
  by_contra none
  exact idle (by grind)

/-- The timeline after an advance that counts. -/
def Timeline.counted (period : U64) : Timeline := { timeline with lastPeriod := period }

private theorem advance_counts (running : timeline.running = true) (valid : timeline.activeValid = true)
    (comes : timeline.Comes now) : ∃ period : U64, period.toNat = periodsIn (now.toNat - timeline.phase100ns.toNat) ∧
      advance now timeline = (timeline.enabled,timeline.counted period) := by
  refine ⟨_,toNat_ofNat_of_lt (periodsIn_small now timeline.phase100ns.toNat),?_⟩
  rw [advance,advanceIn_exact wrapping_exact,if_neg]
  · rfl
  obtain ⟨reached,more⟩ := comes
  simp only [running,valid,Bool.true_eq_false,false_or,not_or,BitVec.not_lt,Nat.not_le]
  exact ⟨reached,more⟩

variable {timeline}

private theorem advance_iff (live : timeline.live) : (advance now timeline).1 = true ↔ timeline.Comes now := by
  obtain ⟨running,enabled,valid⟩ := live
  by_cases comes : timeline.Comes now
  · obtain ⟨period,_,counts⟩ := advance_counts now timeline running valid comes
    simp [counts,enabled,comes]
  simp [advance_idle now timeline (fun all => comes all.2.2),comes]

private theorem deadline_isLeast (live : timeline.live) (time : U64) :
    deadline timeline = some time ↔ IsLeast {time | timeline.Comes time} time := by
  rw [deadline_eq]
  constructor
  · intro found
    obtain ⟨both,is⟩ : (timeline.live ∧ timeline.due < 2 ^ 64) ∧ BitVec.ofNat 64 timeline.due = time := by
      simpa using found
    have timeNat : time.toNat = timeline.due := by rw [← is,toNat_ofNat_of_lt both.2]
    exact ⟨(comes_iff timeline time).mpr timeNat.ge,fun other comes =>
      le_def.mpr (timeNat.trans_le ((comes_iff timeline other).mp comes))⟩
  rintro ⟨comes,least⟩
  have reached := (comes_iff timeline time).mp comes
  have small : timeline.due < 2 ^ 64 := reached.trans_lt time.isLt
  have first : timeline.Comes (BitVec.ofNat 64 timeline.due) :=
    (comes_iff timeline _).mpr (toNat_ofNat_of_lt small).ge
  have below := le_def.mp (least first)
  rw [toNat_ofNat_of_lt small] at below
  rw [if_pos ⟨live,small⟩]
  refine congrArg some (eq_of_toNat_eq ?_)
  rw [toNat_ofNat_of_lt small]
  omega

end

/-- The calls on a timeline, and what the driver sets between them. -/
inductive Call
  | latch (sequence address now : U64)
  | advance (now : U64)
  | setEnabled (enabled : Bool)
  | setRunning (running : Bool)
deriving DecidableEq

/-- The timeline, the sequences that were latched, and the vsyncs that were reported: how
    many latches there were before, and the period. The newest come first. -/
structure World where
  timeline : Timeline
  latched : List U64
  reported : List (Nat × U64)

def step (world : World) : Call → World
  | .latch sequence address now =>
    match latch sequence address now world.timeline with
    | (true,left) => { world with timeline := left, latched := sequence :: world.latched }
    | (false,left) => { world with timeline := left }
  | .advance now =>
    match advance now world.timeline with
    | (true,left) => { world with timeline := left, reported := (world.latched.length,left.lastPeriod) :: world.reported }
    | (false,left) => { world with timeline := left }
  | .setEnabled enabled => { world with timeline := { world.timeline with enabled := enabled } }
  | .setRunning running => { world with timeline := { world.timeline with running := running } }

def run (timeline : Timeline) (calls : List Call) : World := calls.foldl step ⟨timeline,[],[]⟩

/-- What was reported is behind, and no two reports are the same. -/
structure Ordered (first : U64) (world : World) : Prop where
  sequences : world.latched.Pairwise (fun newer older => older < newer)
  started : ∀ sequence ∈ world.latched, first < sequence
  active : world.timeline.activeSequence = world.latched.headD first
  reports : world.reported.Nodup
  behind : ∀ report ∈ world.reported, report.1 < world.latched.length ∨
    (report.1 = world.latched.length ∧ report.2 ≤ world.timeline.lastPeriod)

private theorem below_of_le {a b c : U64} (le : a ≤ b) (lt : b < c) : a < c := by
  rw [le_def] at le
  rw [lt_def] at lt ⊢
  omega

variable {first : U64} {world : World}

theorem Ordered.latch (ordered : Ordered first world) (sequence address now : U64) :
    Ordered first (step world (.latch sequence address now)) := by
  by_cases refused : sequence = 0 ∨ address = 0 ∨ sequence ≤ world.timeline.activeSequence
  · simp only [step,VsyncTimeline.latch,if_pos refused]
    exact ordered
  obtain ⟨sequences,started,active,reports,behind⟩ := ordered
  have newer : world.timeline.activeSequence < sequence := BitVec.not_le.mp (fun le => refused (.inr (.inr le)))
  rw [active] at newer
  have newest : ∀ older ∈ world.latched, older ≤ world.latched.headD first := by
    intro older mem
    cases latched : world.latched with
    | nil => simp [latched] at mem
    | cons head rest =>
    rw [latched] at mem sequences
    rcases mem_cons.mp mem with rfl | later
    · exact BitVec.le_refl _
    exact BitVec.le_of_lt (rel_of_pairwise_cons sequences later)
  have above : first < sequence := by
    cases latched : world.latched with
    | nil => simpa [latched] using newer
    | cons head rest =>
    rw [latched] at started newer
    exact BitVec.lt_trans (started head mem_cons_self) newer
  simp only [step,VsyncTimeline.latch,if_neg refused]
  constructor
  · exact pairwise_cons.mpr ⟨fun older mem => below_of_le (newest older mem) newer,sequences⟩
  · simpa using ⟨above,started⟩
  · rfl
  · exact reports
  intro report mem
  have := behind report mem
  left
  simp only [length_cons]
  omega

theorem Ordered.advance (ordered : Ordered first world) (now : U64) : Ordered first (step world (.advance now)) := by
  by_cases counts : world.timeline.running = true ∧ world.timeline.activeValid = true ∧ world.timeline.Comes now
  swap
  · simpa [step,advance_idle now world.timeline counts] using ordered
  obtain ⟨running,valid,comes⟩ := counts
  obtain ⟨sequences,started,active,reports,behind⟩ := ordered
  obtain ⟨period,is,counts⟩ := advance_counts now world.timeline running valid comes
  have later : world.timeline.lastPeriod < period := by
    rw [lt_def,is]
    exact comes.2
  have passed : ∀ report ∈ world.reported, report.1 < world.latched.length ∨
      (report.1 = world.latched.length ∧ report.2 < period) := by
    intro report mem
    exact (behind report mem).imp_right (fun both => ⟨both.1,below_of_le both.2 later⟩)
  simp only [step,counts]
  cases world.timeline.enabled with
  | false =>
    exact ⟨sequences,started,active,reports,fun report mem =>
      (passed report mem).imp_right (fun both => ⟨both.1,BitVec.le_of_lt both.2⟩)⟩
  | true =>
  refine ⟨sequences,started,active,nodup_cons.mpr ⟨?_,reports⟩,?_⟩
  · intro mem
    rcases passed _ mem with before | ⟨_,before⟩
    · exact Nat.lt_irrefl _ before
    exact BitVec.lt_irrefl _ before
  intro report mem
  rcases mem_cons.mp mem with rfl | old
  · exact .inr ⟨rfl,BitVec.le_refl _⟩
  exact (passed report old).imp_right (fun both => ⟨both.1,BitVec.le_of_lt both.2⟩)

theorem Ordered.step (ordered : Ordered first world) (call : Call) : Ordered first (step world call) := by
  cases call with
  | latch sequence address now => exact ordered.latch sequence address now
  | advance now => exact ordered.advance now
  | _ => exact { ordered with }

private theorem run_ordered (timeline : Timeline) (calls : List Call) : Ordered timeline.activeSequence (run timeline calls) := by
  have start : Ordered timeline.activeSequence ⟨timeline,[],[]⟩ := ⟨.nil,by simp,rfl,.nil,by simp⟩
  unfold run
  generalize (⟨timeline,[],[]⟩ : World) = world at start
  induction calls generalizing world with
  | nil => exact start
  | cons call calls ih => exact ih _ (start.step call)

/-- The deadline is when the vsync comes: an advance at a time reports if and only if the deadline is not later. The periods
    are counted exactly and the deadline is the least time of the next one, no step of either computation wraps, and over any
    run no period is reported twice and the latched sequences ascend. -/
theorem vsync_deadline_exact (timeline : Timeline) (live : timeline.live) (now : U64) :
    ((advance now timeline).1 = true ↔ ∃ time, deadline timeline = some time ∧ time ≤ now) ∧
      ((advance now timeline).1 = true → ∀ time, deadline (advance now timeline).2 = some time → now < time) ∧
      (timeline.phase100ns ≤ now → (advance now timeline).2.lastPeriod.toNat =
        max timeline.lastPeriod.toNat (periodsIn (now.toNat - timeline.phase100ns.toNat))) ∧
      (∀ time, deadline timeline = some time ↔ IsLeast {time | timeline.Comes time} time) ∧
      advanceIn (checked 64) now timeline = some (advance now timeline) ∧
      deadlineIn (checked 64) timeline = some (deadline timeline) ∧
      ∀ calls, (run timeline calls).reported.Nodup ∧
        (run timeline calls).latched.Pairwise (fun newer older => older < newer) ∧
        ∀ sequence ∈ (run timeline calls).latched, timeline.activeSequence < sequence := by
  refine ⟨?_,?_,?_,deadline_isLeast live,advance_checked now timeline,deadline_checked timeline,fun calls => ?_⟩
  · rw [advance_iff now live,comes_iff]
    constructor
    · intro reached
      have small : timeline.due < 2 ^ 64 := reached.trans_lt now.isLt
      refine ⟨BitVec.ofNat 64 timeline.due,by rw [deadline_eq,if_pos ⟨live,small⟩],?_⟩
      rw [le_def,toNat_ofNat_of_lt small]
      exact reached
    rintro ⟨time,found,le⟩
    have least := (deadline_isLeast live time).mp found
    exact ((comes_iff timeline time).mp least.1).trans (le_def.mp le)
  · intro reported time found
    have comes := (advance_iff now live).mp reported
    obtain ⟨running,enabled,valid⟩ := live
    obtain ⟨period,is,counts⟩ := advance_counts now timeline running valid comes
    rw [counts] at found
    have stays : (timeline.counted period).live := ⟨running,enabled,valid⟩
    obtain ⟨_,more⟩ := ((deadline_isLeast stays time).mp found).1
    by_contra early
    have le := le_def.mp (BitVec.not_lt.mp early)
    have none : periodsIn (time.toNat - timeline.phase100ns.toNat) ≤ period.toNat := by
      rw [is]
      simp only [periodsIn]
      omega
    exact Nat.not_lt.mpr none more
  · intro reached
    by_cases comes : timeline.Comes now
    · obtain ⟨period,is,counts⟩ := advance_counts now timeline live.1 live.2.2 comes
      rw [counts,max_eq_right (Nat.le_of_lt comes.2)]
      exact is
    rw [advance_idle now timeline (fun all => comes all.2.2)]
    have none : periodsIn (now.toNat - timeline.phase100ns.toNat) ≤ timeline.lastPeriod.toNat :=
      Nat.not_lt.mp (fun more => comes ⟨reached,more⟩)
    exact (max_eq_left none).symm
  · have ordered := run_ordered timeline calls
    exact ⟨ordered.reports,ordered.sequences,ordered.started⟩

/-- A timeline that was latched at time 1000, asked just when its first period ends. -/
theorem vsync_deadline_exact_first_period :
    (advance 167668 ⟨1000,0,7,0x10000,true,true,true⟩).1 = true ∧ deadline ⟨1000,0,7,0x10000,true,true,true⟩ = some 167668 := by
  have live : (⟨1000,0,7,0x10000,true,true,true⟩ : Timeline).live := by decide
  have exact := vsync_deadline_exact ⟨1000,0,7,0x10000,true,true,true⟩ live 167668
  have found : deadline ⟨1000,0,7,0x10000,true,true,true⟩ = some 167668 := by decide
  exact ⟨exact.1.mpr ⟨_,found,by decide⟩,found⟩

/-- `ADMISSION_SCANOUT_TICK_MARGIN_100NS`: how long after its vsync a tick is armed. -/
abbrev tickMargin : U64 := 5000

/-- The timer of the driver is armed for a margin behind the deadline, comes late by some time and advances the timeline;
    the times that it was armed for, as long as every tick reports. -/
def timer : List U64 → Timeline → Option (List U64 × Timeline)
  | [], timeline => some ([],timeline)
  | late :: rest, timeline => do
    let next := (← deadline timeline) + tickMargin
    let (reported,left) := advance (next + late) timeline
    if reported then
      let (times,left) ← timer rest left
      some (next :: times,left)
    else none

/-- A tick that comes less than a period behind the deadline counts one period. -/
private theorem tick_counts {timeline : Timeline} (live : timeline.live) {late : U64} (prompt : late < 166667)
    (ends : timeline.due ≤ 2 ^ 64 - 166667) : ∃ period : U64, period.toNat = timeline.lastPeriod.toNat + 1 ∧
      deadline timeline = some (BitVec.ofNat 64 timeline.due) ∧
      advance (BitVec.ofNat 64 timeline.due + late) timeline = (true,timeline.counted period) := by
  have small : late.toNat < 166667 := lt_def.mp prompt
  have time : (BitVec.ofNat 64 timeline.due + late).toNat = timeline.due + late.toNat := by
    rw [toNat_add,toNat_ofNat_of_lt (by omega)]
    exact Nat.mod_eq_of_lt (by omega)
  have comes := (comes_iff timeline (BitVec.ofNat 64 timeline.due + late)).mpr (by omega)
  obtain ⟨period,is,counts⟩ := advance_counts _ timeline live.1 live.2.2 comes
  refine ⟨period,?_,by rw [deadline_eq,if_pos ⟨live,by omega⟩],by rw [counts,live.2.1]⟩
  rw [is,time]
  simp only [Timeline.due,dueAfter,periodsIn]
  omega

private theorem dueAfter_mono {before periods : Nat} (le : before ≤ periods) : dueAfter before ≤ dueAfter periods := by
  simp only [dueAfter]
  omega

/-- **The timer misses no vsync and does not drift.** If every tick comes less than a period behind its vsync, the margin
    included, every period is reported, one by one, and each tick is armed for the margin behind a deadline that is counted
    from the latch, however late ticks were. -/
theorem timer_misses_none (lates : List U64) (timeline : Timeline) (live : timeline.live)
    (prompt : ∀ late ∈ lates, late < 166667 - tickMargin)
    (ends : timeline.phase100ns.toNat + dueAfter (timeline.lastPeriod.toNat + lates.length) ≤ 2 ^ 64 - 166667) :
    timer lates timeline = some
      ((range lates.length).map (fun turn => BitVec.ofNat 64 (timeline.phase100ns.toNat + dueAfter (timeline.lastPeriod.toNat + turn + 1)) + tickMargin),
        timeline.counted (BitVec.ofNat 64 (timeline.lastPeriod.toNat + lates.length))) := by
  induction lates generalizing timeline with
  | nil =>
    rw [timer,length_nil,Nat.add_zero,ofNat_toNat,setWidth_eq]
    rfl
  | cons late lates ih =>
  rw [length_cons,← Nat.add_assoc,Nat.add_right_comm] at ends
  have first : timeline.due ≤ 2 ^ 64 - 166667 :=
    (Nat.add_le_add_left (dueAfter_mono (Nat.le_add_right _ _)) _).trans ends
  have behind : tickMargin + late < 166667 := by
    have inside := prompt late mem_cons_self
    bv_omega
  obtain ⟨period,next,found,counts⟩ := tick_counts live behind first
  rw [← next] at ends
  have rest := ih (timeline.counted period) live (fun other mem => prompt other (mem_cons_of_mem _ mem)) ends
  rw [timer,found,Option.bind_eq_bind,Option.bind_some]
  dsimp only
  rw [BitVec.add_assoc,counts]
  simp only [rest,↓reduceIte,Option.bind_eq_bind,Option.bind_some,length_cons,range_succ_eq_map,map_cons,map_map]
  simp only [Timeline.counted,next,Timeline.due,Function.comp_def,Nat.add_zero,Nat.succ_eq_add_one]
  simp only [Nat.add_assoc,Nat.add_comm 1]

/-- Two ticks, the second of them late. -/
theorem timer_misses_none_twice : timer [0,150000] ⟨1000,0,7,0x10000,true,true,true⟩ =
    some ([172668,339335],⟨1000,2,7,0x10000,true,true,true⟩) :=
  (timer_misses_none [0,150000] ⟨1000,0,7,0x10000,true,true,true⟩ (by decide) (by simp) (by decide)).trans (by decide)

end WindowsOnM1.VsyncTimeline
