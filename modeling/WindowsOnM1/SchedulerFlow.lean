import WindowsOnM1.SchedulerModel

/-!
The flow of fences through the scheduler, with the ring and the preempted fences
as lists. `Move` says what each action does to the flow, guards included; an accepted call
of the code is the move of its own action, and a refused one changes nothing (`step_moves`).
-/
namespace WindowsOnM1.SchedulerFlow
open SerialOrder SchedulerModel List

/-- What the scheduler knows about fences. -/
structure Flow where
  completed : U32
  last : U32
  active : U32
  ring : List U32
  preempted : List U32
  phase : PreemptionPhase
  /-- The fence at whose boundary a preemption waits. -/
  boundary : U32
  /-- The completed fence that a preemption will report. -/
  reported : U32

/-- Preempted fences that still wait behind `after`, at most `room` of them. -/
def keepBehind : (room : Nat) → U32 → List U32 → List U32
  | _, _, [] => []
  | room, after, fence :: rest =>
    if 0 < room then
      if After fence after then fence :: keepBehind (room - 1) fence rest else keepBehind room after rest
    else []

/-- The accepted fences that neither completed nor were discarded, in order. -/
def Flow.held (a : Flow) : List U32 := (if a.active = 0 then [] else [a.active]) ++ a.ring

/-- The fence behind which an engine reset looks for waiting fences. -/
def Flow.behind (a : Flow) : U32 := a.held.getLast?.getD a.completed
def Flow.idle (a : Flow) : Flow := { a with phase := .Idle, boundary := 0, reported := 0 }
def Admits (phase : PreemptionPhase) : Prop := phase = .Idle ∨ phase = .NotificationClaimed

/-- What a call can ask of the flow; a preemption may be claimed when it begins. -/
inductive Action
  | queue (fence : U32)
  | resubmit (fence : U32)
  | activate (fence : U32)
  | complete (fence : U32)
  | begin (claimed : Bool)
  | observe (fence : U32)
  | claim
  | commit
  | abort
  | reset

/-- What an action does to the flow of fences. -/
inductive Move : Flow → Action → Flow → Prop
  | queue (a : Flow) (fence : U32) (nonzero : fence ≠ 0) (room : a.ring.length < queueCapacity)
      (admits : Admits a.phase) (newer : After fence a.last) :
      Move a (.queue fence) { a with ring := a.ring ++ [fence], last := fence }
  | resubmit (a : Flow) (fence : U32) (nonzero : fence ≠ 0) (room : a.ring.length < queueCapacity)
      (admits : Admits a.phase) (open_ : After fence a.completed)
      (behindActive : a.active ≠ 0 → After fence a.active)
      (behindRing : ∀ tail ∈ a.ring.getLast?, After fence tail) (waiting : fence ∈ a.preempted) :
      Move a (.resubmit fence) { a with ring := a.ring ++ [fence], preempted := a.preempted.erase fence }
  | activate (a : Flow) (fence : U32) (rest : List U32) (head : a.ring = fence :: rest)
      (free : a.active = 0) (dispatching : a.phase = .Idle) :
      Move a (.activate fence) { a with ring := rest, active := fence }
  | complete (a : Flow) (running : a.active ≠ 0) (bounded : a.phase = .WaitCurrentBoundary → a.active = a.boundary)
      (later : After a.active a.completed) :
      Move a (.complete a.active) { a with completed := a.active, active := 0 }
  | begin (a : Flow) (claimed : Bool) (next : PreemptionPhase) (idle : a.phase = .Idle)
      (stops : if a.active = 0 then next = if claimed then .NotificationClaimed else .ReadyToNotify
        else next = .WaitCurrentBoundary ∧ claimed = false) :
      Move a (.begin claimed) { a with
        ring := [], preempted := a.ring, boundary := a.active, reported := a.completed, phase := next }
  | observe (a : Flow) (waiting : a.phase = .WaitCurrentBoundary) (reached : a.boundary = a.completed) :
      Move a (.observe a.completed) { a with boundary := 0, reported := a.completed, phase := .ReadyToNotify }
  | claim (a : Flow) (ready : a.phase = .ReadyToNotify) : Move a .claim { a with phase := .NotificationClaimed }
  | commit (a : Flow) (claimed : a.phase = .NotificationClaimed) : Move a .commit a.idle
  | abort (a : Flow) (unclaimed : a.phase ≠ .NotificationClaimed) :
      Move a .abort { a.idle with preempted := [] }
  | reset (a : Flow) :
      Move a .reset { a.idle with
        active := 0, ring := []
        preempted := a.ring ++ keepBehind (queueCapacity - a.ring.length) a.behind a.preempted }

/-- What a call asks of the flow; a call on a context asks nothing. -/
def action : Op → Option Action
  | .createContext .. | .destroyContext .. => none
  | .queueFence _ _ fence => some (.queue fence)
  | .queueResubmittedPagingFence _ _ fence => some (.resubmit fence)
  | .activateFence _ _ fence => some (.activate fence)
  | .completeActiveFence _ _ fence => some (.complete fence)
  | .beginBoundaryPreemption .. => some (.begin false)
  | .observeBoundaryCompletion _ _ fence => some (.observe fence)
  | .claimBoundaryPreemption => some .claim
  | .commitBoundaryPreemption _ | .acknowledgePreemption _ => some .commit
  | .beginPreemption .. => some (.begin true)
  | .abortPreemption _ => some .abort
  | .resetEngine .. => some .reset

/-- The effect of an accepted call. -/
def Moves (op : Op) (a b : Flow) : Prop :=
  match action op with
  | none => b = a
  | some own => Move a own b

/-- The flow of fences in a scheduler state. -/
def flow (s : Scheduler) : Flow where
  completed := s.completedFence
  last := s.lastSubmittedFence
  active := s.activeFence
  ring := ring s
  preempted := preempted s
  phase := s.preemptionPhase
  boundary := s.preemptionActiveFence
  reported := s.preemptionLastCompletedFence

/-- The indices are in their arrays and `QueuedFence` is the head of the ring. -/
structure Layout (s : Scheduler) : Prop where
  head : s.queueHead < queueCapacity
  count : s.queueCount ≤ queueCapacity
  preemptedCount : s.preemptedFenceCount ≤ queueCapacity
  queued : s.queuedFence = ((ring s).head?).getD 0

/-- A call is refused and leaves the state, or it answers `given`, keeps the layout and makes a move. -/
def Makes {α : Type} (s : Scheduler) (refused given : α) (own : Action) (result : α × Scheduler) : Prop :=
  result = (refused,s) ∨ ∃ s', result = (given,s') ∧ Layout s' ∧ Move (flow s) own (flow s')

theorem fenceAfter_iff (a b : U32) : fenceAfter a b = true ↔ After a b := after_iff_distance a b _ rfl
theorem ring_length (s : Scheduler) : (ring s).length = s.queueCount := RingBuffer.contents_length ..
private theorem admits_iff (s : Scheduler) : ¬ (admissionBlocked s = true) ↔ Admits s.preemptionPhase := by
  cases phase : s.preemptionPhase <;> simp [admissionBlocked,Admits,phase]

variable {s : Scheduler}

theorem ring_getLast? (some : s.queueCount ≠ 0) : (ring s).getLast? = .some (queueTail s) :=
  RingBuffer.contents_getLast? _ _ _ _ some
private theorem ring_empty : ring s = [] ↔ s.queueCount = 0 := by
  rw [← length_eq_zero_iff,ring_length]

variable (room : Nat)

/-- The in-place loop of the engine reset keeps the fences that `keepBehind` keeps. -/
private theorem keepWaiting_cells (turns : Nat) : ∀ (index kept : Nat) (after : U32) (queue : Nat → U32), kept ≤ index →
      ArrayCells.cells (keepWaiting room turns index kept after queue).2
          (keepWaiting room turns index kept after queue).1 = ArrayCells.cells queue kept ++
          keepBehind (room - kept) after ((List.range turns).map (fun j => queue (index + j))) := by
  induction turns with
  | zero => intro index kept after queue _; simp [keepWaiting,keepBehind]
  | succ turns ih =>
  intro index kept after queue behind
  rw [ArrayCells.map_range_add,keepWaiting,keepBehind]
  split
  · rw [if_pos (by omega : 0 < room - kept)]
    by_cases later : After (queue index) after
    · rw [if_pos ((fenceAfter_iff _ _).mpr later),if_pos later,ih _ _ _ _ (by omega),ArrayCells.cells_push]
      have ahead : (range turns).map (fun j => Function.update queue kept (queue index) (index + 1 + j)) =
          (range turns).map (fun j => queue (index + 1 + j)) := by
        apply map_congr_left
        intro j _
        rw [Function.update_of_ne (by omega)]
      rw [ahead,Nat.sub_sub]
      simp
    rw [if_neg (by rw [fenceAfter_iff]; exact later),if_neg later,ih _ _ _ _ (by omega)]
  rw [if_neg (by omega)]
  simp

variable (after : U32) (fences : List U32)

private theorem keepBehind_length : (keepBehind room after fences).length ≤ room := by
  induction fences generalizing room after with
  | nil => simp [keepBehind]
  | cons fence rest ih =>
  rw [keepBehind]
  split_ifs with open_ later
  · have := ih (room - 1) fence
    simp only [length_cons]
    omega
  · exact ih room after
  simp

theorem keepBehind_sublist : (keepBehind room after fences).Sublist fences := by
  induction fences generalizing room after with
  | nil => simp [keepBehind]
  | cons fence rest ih =>
  rw [keepBehind]
  split_ifs with open_ later
  · exact (ih (room - 1) fence).cons_cons fence
  · exact (ih room after).cons fence
  exact nil_sublist _

section
variable (layout : Layout s)
include layout

private theorem layout_pushed (fence : U32) : (if s.queueCount = 0 then fence else s.queuedFence) =
      ((ring s ++ [fence]).head?).getD 0 := by
  split_ifs with empty
  · simp [ring_empty.mpr empty]
  have some : ring s ≠ [] := fun none => empty (ring_empty.mp none)
  rw [layout.queued,List.head?_append_of_ne_nil _ some]

private theorem queueFence_makes (node engine fence : U32) :
    Makes s false true (.queue fence) (queueFence s node engine fence) := by
  unfold queueFence
  split
  · exact .inl rfl
  rename_i refused
  right
  simp only [not_or,not_not,not_le,fenceAfter_iff,admits_iff] at refused
  obtain ⟨_,nonzero,room,admits,newer⟩ := refused
  have pushed := RingBuffer.contents_push s.fenceQueue layout.head room fence
  refine ⟨_,rfl,⟨layout.head,room,layout.preemptedCount,?_⟩,?_⟩
  · refine (layout_pushed layout fence).trans ?_
    exact congrArg (fun fences : List U32 => fences.head?.getD 0) pushed.symm
  have move := Move.queue (flow s) fence nonzero ((ring_length s).trans_lt room) admits newer
  simpa only [flow,ring,pushed,preempted] using move

theorem queueResubmittedPagingFence_makes (node engine fence : U32) :
    Makes s false true (.resubmit fence) (queueResubmittedPagingFence s node engine fence) := by
  unfold queueResubmittedPagingFence
  split
  · exact .inl rfl
  rename_i refused
  split
  · exact .inl rfl
  rename_i tailed
  cases found : findPreempted s fence with
  | none => exact .inl rfl
  | some index =>
  right
  obtain ⟨inside,value,erased⟩ := ArrayCells.cells_eraseIdx_first found
  simp only [not_or,not_and,not_not,not_le,fenceAfter_iff,admits_iff] at refused tailed
  obtain ⟨_,nonzero,room,admits,openFence,behindActive⟩ := refused
  have pushed := RingBuffer.contents_push s.fenceQueue layout.head room fence
  have closed := ArrayCells.cells_closeGap s.preemptedFenceQueue inside
  refine ⟨_,rfl,⟨layout.head,room,?_,?_⟩,?_⟩
  · exact (Nat.sub_le _ _).trans layout.preemptedCount
  · refine (layout_pushed layout fence).trans ?_
    exact congrArg (fun fences : List U32 => fences.head?.getD 0) pushed.symm
  have behindRing : ∀ tail ∈ (ring s).getLast?, After fence tail := by
    intro tail isTail
    by_cases empty : s.queueCount = 0
    · simp [ring_empty.mpr empty] at isTail
    rw [ring_getLast? empty] at isTail
    cases isTail
    exact tailed empty
  have move := Move.resubmit (flow s) fence nonzero ((ring_length s).trans_lt room) admits openFence behindActive
    behindRing (ArrayCells.mem_cells.mpr ⟨index,inside,value⟩)
  simpa only [flow,ring,pushed,preempted,closed,erased] using move

private theorem activateFence_makes (node engine fence : U32) :
    Makes s false true (.activate fence) (activateFence s node engine fence) := by
  unfold activateFence
  split
  · exact .inl rfl
  rename_i refused
  right
  simp only [not_or,not_not] at refused
  obtain ⟨_,_,some,queued,free,dispatching⟩ := refused
  obtain ⟨n,count⟩ := Nat.exists_eq_succ_of_ne_zero some
  have bound : n < queueCapacity := by have := layout.count; omega
  have split := RingBuffer.contents_cons s.fenceQueue queueCapacity s.queueHead n
  have isRing : ring s = fence :: RingBuffer.contents s.fenceQueue queueCapacity
      ((s.queueHead + 1) % queueCapacity) n := by
    have whole : ring s = _ := (congrArg (RingBuffer.contents s.fenceQueue queueCapacity s.queueHead) count).trans split
    have first := layout.queued
    rw [queued,whole] at first
    rw [whole,first]
    rfl
  refine ⟨_,rfl,⟨Nat.mod_lt _ (by decide),?_,layout.preemptedCount,?_⟩,?_⟩
  · simp only [count]; omega
  · simp only [ring,count,Nat.succ_sub_one]
    by_cases last : n = 0
    · simp [last]
    rw [RingBuffer.contents_head? _ _ _ _ last]
    simp [last,RingBuffer.slot]
  have idle : s.preemptionPhase = .Idle := by simpa [dispatchBlocked] using dispatching
  have move := Move.activate (flow s) fence _ isRing free idle
  simpa only [flow,ring,count,Nat.succ_sub_one,preempted] using move

private theorem completeActiveFence_makes (node engine fence : U32) :
    Makes s false true (.complete fence) (completeActiveFence s node engine fence) := by
  unfold completeActiveFence completeFence canCompleteFence
  by_cases refused : ¬ validateEngine node engine ∨ fence = 0 ∨ s.activeFence ≠ fence
  · exact .inl (by rw [if_pos refused])
  have running := refused
  simp only [not_or,not_not] at running
  obtain ⟨valid,nonzero,isActive⟩ := running
  have open_ : ¬ (¬ validateEngine node engine = true ∨ fence = 0) := by
    rintro (invalid | zero)
    · exact invalid valid
    exact nonzero zero
  rw [if_neg refused,if_neg open_]
  by_cases other : s.preemptionPhase = .WaitCurrentBoundary ∧ fence ≠ s.preemptionActiveFence
  · left; simp [other]
  rw [if_neg other]
  by_cases later : fenceAfter fence s.completedFence = true
  · right
    have distance : (fence - s.completedFence != 0 &&
        decide (fence - s.completedFence < 0x80000000#32)) = true := later
    simp only [distance,not_true_eq_false,↓reduceIte]
    subst isActive
    refine ⟨_,rfl,{ layout with },.complete (flow s) nonzero (fun waiting => ?_) ((fenceAfter_iff _ _).mp later)⟩
    by_contra different
    exact other ⟨waiting,different⟩
  left
  have distance : (fence - s.completedFence != 0 &&
      decide (fence - s.completedFence < 0x80000000#32)) = false := Bool.eq_false_iff.mpr later
  simp only [distance]
  rfl

private theorem beginBoundaryPreemption_cases (node engine fence cutoff active : U32) :
    beginBoundaryPreemption s node engine fence cutoff active = (false,s) ∨
      ∃ s', beginBoundaryPreemption s node engine fence cutoff active = (true,s') ∧ Layout s' ∧
        s.preemptionPhase = .Idle ∧ s.activeFence = active ∧
        flow s' = { flow s with
          ring := [], preempted := ring s, boundary := s.activeFence, reported := s.completedFence
          phase := if s.activeFence = 0 then .ReadyToNotify else .WaitCurrentBoundary } := by
  unfold beginBoundaryPreemption
  split
  · exact .inl rfl
  rename_i refused
  right
  simp only [not_or,not_not] at refused
  obtain ⟨_,_,idle,_,same,_⟩ := refused
  subst same
  refine ⟨_,rfl,⟨by simp,by simp,layout.count,by simp [ring]⟩,idle,rfl,?_⟩
  simp only [flow,ring,preempted,RingBuffer.contents_zero,ArrayCells.cells_fill]
  rfl

private theorem beginBoundaryPreemption_makes (node engine fence cutoff active : U32) :
    Makes s false true (.begin false) (beginBoundaryPreemption s node engine fence cutoff active) := by
  rcases beginBoundaryPreemption_cases layout node engine fence cutoff active with
    refused | ⟨s',accepted,layout',idle,_,flowed⟩
  · exact .inl refused
  refine .inr ⟨s',accepted,layout',flowed ▸ .begin (flow s) false _ idle ?_⟩
  change if s.activeFence = 0 then _ else _
  by_cases free : s.activeFence = 0 <;> simp [free]

private theorem observeBoundaryCompletion_makes (node engine fence : U32) :
    Makes s false true (.observe fence) (observeBoundaryCompletion s node engine fence) := by
  unfold observeBoundaryCompletion
  split_ifs with refused
  · exact .inl rfl
  right
  simp only [not_or,not_not] at refused
  obtain ⟨_,waiting,_,boundary,completed⟩ := refused
  subst completed
  exact ⟨_,rfl,{ layout with },.observe (flow s) waiting boundary⟩

theorem claimBoundaryPreemption_makes : Makes s none (some ⟨s.pendingPreemptionFence,s.preemptionLastCompletedFence⟩)
    .claim (claimBoundaryPreemption s) := by
  unfold claimBoundaryPreemption
  split_ifs with refused
  · exact .inl rfl
  right
  exact ⟨_,rfl,{ layout with },.claim (flow s) (not_not.mp refused)⟩

private theorem commitBoundaryPreemption_makes (fence : U32) : Makes s false true .commit (commitBoundaryPreemption s fence) := by
  unfold commitBoundaryPreemption
  split_ifs with refused
  · exact .inl rfl
  right
  simp only [not_or,not_not] at refused
  exact ⟨_,rfl,{ layout with },.commit (flow s) refused.1⟩

private theorem abortPreemption_makes (fence : U32) : Makes s false true .abort (abortPreemption s fence) := by
  unfold abortPreemption
  split_ifs with refused
  · exact .inl rfl
  right
  simp only [not_or] at refused
  exact ⟨_,rfl,⟨layout.head,layout.count,by simp,layout.queued⟩,.abort (flow s) refused.2.2⟩

end

private theorem behind_eq (s : Scheduler) :
    (if s.queueCount ≠ 0 then queueTail s else lastAbortedFence s) = (flow s).behind := by
  unfold Flow.behind Flow.held
  by_cases empty : s.queueCount = 0
  · by_cases running : s.activeFence = 0
    · simp only [flow,ring_empty.mpr empty,lastAbortedFence,running]
      simp [empty]
    simp only [flow,ring_empty.mpr empty,lastAbortedFence,if_pos running,if_neg running]
    simp [empty]
  rw [if_pos empty]
  simp only [flow,getLast?_append,ring_getLast? empty,Option.some_or,Option.getD_some]

private theorem resetEngine_makes (layout : Layout s) (node engine : U32) :
    Makes s none (some (lastAbortedFence s)) .reset (resetEngine s node engine) := by
  unfold resetEngine
  split
  · exact .inl rfl
  right
  rw [behind_eq]
  have kept := keepWaiting_cells (queueCapacity - s.queueCount) s.preemptedFenceCount 0 0 (flow s).behind
    s.preemptedFenceQueue (le_refl _)
  have length := congrArg List.length kept
  simp only [Nat.zero_add,Nat.sub_zero,ArrayCells.cells_zero,nil_append,ArrayCells.cells_length]
    at kept length
  have bound := keepBehind_length (queueCapacity - s.queueCount) (flow s).behind (preempted s)
  change _ = (keepBehind _ _ (preempted s)).length at length
  have count := layout.count
  have discarded := ArrayCells.cells_prepend
    (fun index => s.fenceQueue (RingBuffer.slot queueCapacity s.queueHead index))
    (keepWaiting (queueCapacity - s.queueCount) s.preemptedFenceCount 0 0 (flow s).behind
      s.preemptedFenceQueue).2 s.queueCount
    (keepWaiting (queueCapacity - s.queueCount) s.preemptedFenceCount 0 0 (flow s).behind
      s.preemptedFenceQueue).1
  rw [kept] at discarded
  refine ⟨_,rfl,⟨by simp,by simp,?_,by simp [ring]⟩,?_⟩
  · change s.queueCount + _ ≤ queueCapacity
    omega
  have move := Move.reset (flow s)
  have known : (flow s).ring ++ keepBehind (queueCapacity - (flow s).ring.length) (flow s).behind (flow s).preempted = _ :=
    (congrArg (fun n => ring s ++ keepBehind (queueCapacity - n) _ _) (ring_length s)).trans discarded.symm
  rwa [known] at move

/-- `AppleAgxSchedulerBeginPreemption` begins at an idle engine and claims at once. -/
theorem beginPreemption_makes (layout : Layout s) (node engine fence : U32) :
    Makes s none (some ⟨fence,s.completedFence⟩) (.begin true) (beginPreemption s node engine fence) := by
  unfold beginPreemption
  rcases beginBoundaryPreemption_cases layout node engine fence s.completedFence 0 with
    refused | ⟨begun,accepted,layout',idle,free,flowed⟩
  · rw [refused]
    exact .inl rfl
  right
  rw [accepted]
  have ready : begun.preemptionPhase = .ReadyToNotify := by
    have phase := congrArg Flow.phase flowed
    simpa [flow,free] using phase
  have pending : begun.pendingPreemptionFence = fence ∧ begun.preemptionLastCompletedFence = s.completedFence := by
    unfold beginBoundaryPreemption at accepted
    split at accepted
    · cases accepted
    cases accepted
    exact ⟨rfl,rfl⟩
  have move : Move (flow s) (.begin true) { flow begun with phase := .NotificationClaimed } := by
    rw [flowed]
    exact .begin (flow s) true _ idle ((if_pos free).mpr rfl)
  refine ⟨{ begun with preemptionPhase := .NotificationClaimed },?_,{ layout' with },move⟩
  dsimp only [claimBoundaryPreemption]
  rw [if_neg (not_not.mpr ready),pending.1,pending.2]

private theorem Makes.isSome {α : Type} {given : α} {own : Action} {result : Option α × Scheduler}
    (makes : Makes s none (some given) own result) : Makes s false true own (result.1.isSome,result.2) := by
  rcases makes with refused | ⟨s',accepted,layout,move⟩
  · exact .inl (by rw [refused]; rfl)
  exact .inr ⟨s',by rw [accepted]; rfl,layout,move⟩

/-- Every call keeps the layout; it is refused and leaves the state, or it is accepted and makes its own move. -/
theorem step_moves (layout : Layout s) (op : Op) : Layout (step s op).2 ∧
    (step s op = (false,s) ∨ (step s op).1 = true ∧ Moves op (flow s) (flow (step s op).2)) := by
  have own : ∀ own, action op = some own → Makes s false true own (step s op) → Layout (step s op).2 ∧
      (step s op = (false,s) ∨ (step s op).1 = true ∧ Moves op (flow s) (flow (step s op).2)) := by
    rintro own isOwn (refused | ⟨s',accepted,layout',move⟩)
    · rw [refused]
      exact ⟨layout,.inl rfl⟩
    rw [accepted,Moves,isOwn]
    exact ⟨layout',.inr ⟨rfl,move⟩⟩
  cases op with
  | createContext context node affinity =>
    simp only [step,createContext]
    split_ifs
    · exact ⟨layout,.inl rfl⟩
    exact ⟨{ layout with },.inr ⟨rfl,rfl⟩⟩
  | destroyContext context =>
    simp only [step,destroyContext]
    split_ifs
    · exact ⟨layout,.inl rfl⟩
    exact ⟨{ layout with },.inr ⟨rfl,rfl⟩⟩
  | queueFence node engine fence => exact own _ rfl (queueFence_makes layout node engine fence)
  | queueResubmittedPagingFence node engine fence =>
    exact own _ rfl (queueResubmittedPagingFence_makes layout node engine fence)
  | activateFence node engine fence => exact own _ rfl (activateFence_makes layout node engine fence)
  | completeActiveFence node engine fence => exact own _ rfl (completeActiveFence_makes layout node engine fence)
  | beginBoundaryPreemption node engine fence cutoff active =>
    exact own _ rfl (beginBoundaryPreemption_makes layout node engine fence cutoff active)
  | observeBoundaryCompletion node engine fence =>
    exact own _ rfl (observeBoundaryCompletion_makes layout node engine fence)
  | claimBoundaryPreemption => exact own _ rfl (claimBoundaryPreemption_makes layout).isSome
  | commitBoundaryPreemption fence => exact own _ rfl (commitBoundaryPreemption_makes layout fence)
  | acknowledgePreemption fence => exact own _ rfl (commitBoundaryPreemption_makes layout fence)
  | beginPreemption node engine fence => exact own _ rfl (beginPreemption_makes layout node engine fence).isSome
  | abortPreemption fence => exact own _ rfl (abortPreemption_makes layout fence)
  | resetEngine node engine => exact own _ rfl (resetEngine_makes layout node engine).isSome

/-- A call leaves the flow or makes one move. -/
theorem step_flow (layout : Layout s) (op : Op) :
    flow (step s op).2 = flow s ∨ ∃ own, Move (flow s) own (flow (step s op).2) := by
  rcases (step_moves layout op).2 with refused | ⟨_,moves⟩
  · rw [refused]
    exact .inl rfl
  unfold Moves at moves
  cases asked : action op with
  | none =>
    rw [asked] at moves
    exact .inl moves
  | some own =>
    rw [asked] at moves
    exact .inr ⟨own,moves⟩

end WindowsOnM1.SchedulerFlow
