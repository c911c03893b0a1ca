import WindowsOnM1.SchedulerFlow

/-!
The order of fences in the scheduler. While the fence ids in use stay inside one
serial window, the completed fence, the active fence and the ring form one
ascending chain up to the last submitted fence, the discarded fences stay apart
from it, and a preemption is only claimed at an idle engine.
-/
namespace WindowsOnM1.SchedulerRing
open SerialOrder SchedulerModel SchedulerFlow List

def ids (a : Flow) : List U32 := a.completed :: a.last :: (a.held ++ a.preempted)

/-- The order that every call keeps. -/
structure Ordered (a : Flow) : Prop where
  window : OneWindow (ids a)
  chain : Ascending (a.completed :: a.held)
  submitted : ∀ f ∈ ids a, AtOrAfter a.last f
  discarded : Ascending a.preempted
  apart : a.held.Disjoint a.preempted
  nonzero : ∀ f ∈ a.held ++ a.preempted, f ≠ 0
  /-- A waiting preemption waits for the active fence, or that fence just completed. -/
  waits : a.phase = .WaitCurrentBoundary → a.boundary ≠ 0 ∧ (a.active = a.boundary ∨ a.active = 0 ∧ a.completed = a.boundary)
  ready : a.phase = .ReadyToNotify → a.active = 0 ∧ a.reported = a.completed
  claimed : a.phase = .NotificationClaimed → a.active = 0

variable {a : Flow} {f : U32}

@[simp] theorem mem_held : f ∈ a.held ↔ (a.active ≠ 0 ∧ f = a.active) ∨ f ∈ a.ring := by
  unfold Flow.held
  by_cases idle : a.active = 0
  · simp
  simp only [if_neg idle,cons_append,nil_append,mem_cons]
  simp only [ne_eq,idle,not_false_eq_true,true_and]

@[simp] theorem mem_ids : f ∈ ids a ↔ f = a.completed ∨ f = a.last ∨ f ∈ a.held ∨ f ∈ a.preempted := by
  simp only [ids,mem_cons,mem_append]
theorem held_idle (free : a.active = 0) : a.held = a.ring := by
  simp only [Flow.held,if_pos free,nil_append]
theorem held_running (running : a.active ≠ 0) : a.held = a.active :: a.ring := by
  simp only [Flow.held,if_neg running,cons_append,nil_append]

private theorem behind_chain (a : Flow) : (a.completed :: a.held).getLast? = some a.behind := by
  unfold Flow.behind
  cases held : a.held.getLast? with
  | none => simp [getLast?_eq_none_iff.mp held]
  | some tail => simp [getLast?_cons,held]

theorem behind_mem (a : Flow) : a.behind ∈ a.completed :: a.held := mem_of_getLast? (behind_chain a)
theorem chain_ids (mem : f ∈ a.completed :: a.held) : f ∈ ids a := by
  rcases mem_cons.mp mem with rfl | mem
  · simp
  exact mem_ids.mpr (.inr (.inr (.inl mem)))

namespace Ordered

variable {a : Flow} (ordered : Ordered a)
include ordered

theorem held_after {f : U32} (mem : f ∈ a.held) : After f a.completed :=
  (ascending_cons.mp ordered.chain).1 f mem
private theorem ring_ascending : Ascending a.ring := by
  have chain := ordered.chain
  rw [Flow.held,← cons_append] at chain
  exact (ascending_append.mp chain).2.1
theorem ring_behind_active (running : a.active ≠ 0) {f : U32} (mem : f ∈ a.ring) : After f a.active := by
  have chain := ordered.chain
  rw [held_running running] at chain
  exact (ascending_cons.mp (ascending_cons.mp chain).2).1 f mem

private theorem behind_atOrAfter {f : U32} (mem : f ∈ a.completed :: a.held) : AtOrAfter a.behind f := by
  obtain ⟨before,split⟩ := getLast?_eq_some_iff.mp (behind_chain a)
  have chain := ordered.chain
  rw [split] at chain mem
  rcases mem_append.mp mem with earlier | last
  · exact .inr ((ascending_append.mp chain).2.2 f earlier a.behind (by simp))
  exact .inl (mem_singleton.mp last).symm

theorem after_chain {f : U32} (inIds : f ∈ ids a) (later : After f a.behind) {g : U32}
    (mem : g ∈ a.completed :: a.held) : After f g :=
  ordered.window.after_trans (by decide) inIds (chain_ids (behind_mem a)) (chain_ids mem) later
    (ordered.behind_atOrAfter mem)

end Ordered

variable {a : Flow} {fence : U32}

theorem resubmitted_after (open_ : After fence a.completed) (behindActive : a.active ≠ 0 → After fence a.active)
    (behindRing : ∀ tail ∈ a.ring.getLast?, After fence tail) : After fence a.behind := by
  unfold Flow.behind
  by_cases empty : a.ring = []
  · by_cases free : a.active = 0
    · rw [held_idle free,empty]
      exact open_
    rw [held_running free,empty]
    exact behindActive free
  obtain ⟨tail,isTail⟩ := Option.isSome_iff_exists.mp (getLast?_isSome.mpr empty)
  rw [Flow.held,getLast?_append,isTail]
  exact behindRing tail isTail

/-- For an ascending list the reset loop keeps the fences after `after`, as far as there is room. -/
theorem keepBehind_eq (room : Nat) (after : U32) (fences : List U32) (ascending : Ascending fences)
    (window : OneWindow (after :: fences)) :
    keepBehind room after fences = (fences.filter (fun f => After f after)).take room := by
  induction fences generalizing room after with
  | nil => simp [keepBehind]
  | cons fence rest ih =>
  obtain ⟨later,ascendingRest⟩ := ascending_cons.mp ascending
  rw [keepBehind]
  by_cases open_ : 0 < room
  · rw [if_pos open_]
    obtain ⟨n,rfl⟩ := Nat.exists_eq_succ_of_ne_zero (Nat.pos_iff_ne_zero.mp open_)
    by_cases kept : After fence after
    · -- everything behind a kept fence is kept
      have all : ∀ f ∈ rest, After f after := fun f mem =>
        window.after_trans (by decide) (by simp [mem]) (by simp) (by simp) (later f mem) kept.atOrAfter
      rw [if_pos kept,ih _ _ ascendingRest (window.mono (by simp +contextual)),filter_cons_of_pos (by simpa using kept),
        filter_eq_self.mpr (by simpa using later),filter_eq_self.mpr (by simpa using all)]
      rfl
    rw [if_neg kept,ih _ _ ascendingRest (window.mono (by simp +contextual)), filter_cons_of_neg (by simpa using kept)]
  rw [if_neg open_,Nat.eq_zero_of_not_pos open_,take_zero]

section
variable (ordered : Ordered a)
include ordered

private theorem ordered_queue (window : OneWindow (fence :: ids a)) (nonzero : fence ≠ 0) (newer : After fence a.last) :
    Ordered { a with ring := a.ring ++ [fence], last := fence } := by
  have above : ∀ f ∈ ids a, After fence f := fun f mem =>
    window.after_trans (by decide) (by simp) (by simp) (mem_cons_of_mem _ mem) newer
      (ordered.submitted f mem)
  have held : Flow.held { a with ring := a.ring ++ [fence], last := fence } = a.held ++ [fence] := by
    simp only [Flow.held,append_assoc]
  refine ⟨?_,?_,?_,ordered.discarded,?_,?_,ordered.waits,ordered.ready,ordered.claimed⟩
  · refine window.mono (fun f mem => ?_)
    simp only [mem_ids,held,mem_append,mem_cons] at mem ⊢
    tauto
  · rw [held,← cons_append]
    refine ascending_append.mpr ⟨ordered.chain,pairwise_singleton _ _,fun f mem g isFence => ?_⟩
    rw [mem_singleton.mp isFence]
    exact above f (chain_ids mem)
  · intro f mem
    simp only [mem_ids,held,mem_append,mem_singleton] at mem
    by_cases same : f = fence
    · exact .inl same.symm
    exact .inr (above f (mem_ids.mpr (by tauto)))
  · rw [held]
    refine disjoint_append_left.mpr ⟨ordered.apart,?_⟩
    intro f isFence mem
    rw [mem_singleton.mp isFence] at mem
    exact not_after_self _ (above fence (mem_ids.mpr (.inr (.inr (.inr mem)))))
  intro f mem
  simp only [held,mem_append,mem_singleton] at mem
  by_cases same : f = fence
  · exact same ▸ nonzero
  exact ordered.nonzero f (mem_append.mpr (by tauto))

private theorem ordered_resubmit (later : After fence a.behind) (waiting : fence ∈ a.preempted) :
    Ordered { a with ring := a.ring ++ [fence], preempted := a.preempted.erase fence } := by
  have inIds : fence ∈ ids a := mem_ids.mpr (.inr (.inr (.inr waiting)))
  have held : Flow.held { a with ring := a.ring ++ [fence], preempted := a.preempted.erase fence } =
      a.held ++ [fence] := by simp only [Flow.held,append_assoc]
  have sub : ∀ f ∈ ids { a with ring := a.ring ++ [fence], preempted := a.preempted.erase fence }, f ∈ ids a := by
    intro f mem
    simp only [mem_ids,held,mem_append,mem_singleton] at mem
    rcases mem with rfl | rfl | (mem | rfl) | mem
    · simp
    · simp
    · exact mem_ids.mpr (.inr (.inr (.inl mem)))
    · exact inIds
    exact mem_ids.mpr (.inr (.inr (.inr (mem_of_mem_erase mem))))
  refine ⟨ordered.window.mono sub,?_,fun f mem => ordered.submitted f (sub f mem),
    ordered.discarded.sublist erase_sublist,?_,?_,ordered.waits,ordered.ready,ordered.claimed⟩
  · rw [held,← cons_append]
    refine ascending_append.mpr ⟨ordered.chain,pairwise_singleton _ _,fun f mem g isFence => ?_⟩
    rw [mem_singleton.mp isFence]
    exact ordered.after_chain inIds later mem
  · rw [held]
    refine disjoint_append_left.mpr ⟨?_,?_⟩
    · exact disjoint_of_subset_right erase_subset ordered.apart
    intro f isFence mem
    rw [mem_singleton.mp isFence] at mem
    exact ordered.discarded.nodup.not_mem_erase mem
  intro f mem
  simp only [held,mem_append,mem_singleton] at mem
  rcases mem with (mem | rfl) | mem
  · exact ordered.nonzero f (mem_append_left _ mem)
  · exact ordered.nonzero f (mem_append_right _ waiting)
  exact ordered.nonzero f (mem_append_right _ (mem_of_mem_erase mem))

private theorem ordered_activate {rest : List U32}
    (head : a.ring = fence :: rest) (free : a.active = 0) (dispatching : a.phase = .Idle) :
    Ordered { a with ring := rest, active := fence } := by
  have nonzero : fence ≠ 0 :=
    ordered.nonzero fence (mem_append_left _ (mem_held.mpr (.inr (by simp [head]))))
  have held : Flow.held { a with ring := rest, active := fence } = a.held := by
    rw [held_idle free,head,held_running nonzero]
  have same : ids { a with ring := rest, active := fence } = ids a := by simp only [ids,held]
  refine ⟨same ▸ ordered.window,?_,same ▸ ordered.submitted,ordered.discarded,?_,?_,?_,?_,?_⟩
  · rw [held]; exact ordered.chain
  · rw [held]; exact ordered.apart
  · rw [held]; exact ordered.nonzero
  all_goals intro other; simp [dispatching] at other

private theorem ordered_complete (running : a.active ≠ 0)
    (bounded : a.phase = .WaitCurrentBoundary → a.active = a.boundary) :
    Ordered { a with completed := a.active, active := 0 } := by
  have held := held_running running
  have rest : Flow.held { a with completed := a.active, active := 0 } = a.ring := held_idle rfl
  have sub : ∀ f ∈ ids { a with completed := a.active, active := 0 }, f ∈ ids a := by
    intro f mem
    simp only [mem_ids,rest,held,mem_cons] at mem ⊢
    tauto
  refine ⟨ordered.window.mono sub,?_,fun f mem => ordered.submitted f (sub f mem),ordered.discarded,?_,?_,?_,?_,?_⟩
  · have chain := ordered.chain
    rw [held] at chain
    exact (ascending_cons.mp chain).2
  · refine disjoint_of_subset_left ?_ ordered.apart
    rw [held]
    exact subset_cons_self _ _
  · intro f mem
    refine ordered.nonzero f ?_
    rw [held]
    exact mem_cons_of_mem _ mem
  · intro waiting
    have boundary := bounded waiting
    exact ⟨(ordered.waits waiting).1,.inr ⟨rfl,boundary⟩⟩
  · intro ready
    exact absurd (ordered.ready ready).1 running
  intro claimed
  exact absurd (ordered.claimed claimed) running

private theorem ordered_begin {next : PreemptionPhase}
    (stops : if a.active = 0 then next = .ReadyToNotify ∨ next = .NotificationClaimed
      else next = .WaitCurrentBoundary) : Ordered { a with
      ring := [], preempted := a.ring, boundary := a.active, reported := a.completed, phase := next } := by
  have sub : ∀ f ∈ Flow.held { a with
      ring := [], preempted := a.ring, boundary := a.active, reported := a.completed, phase := next },
      a.active ≠ 0 ∧ f = a.active := by
    intro f mem
    simpa using mem
  have idsSub : ∀ f ∈ ids { a with
      ring := [], preempted := a.ring, boundary := a.active, reported := a.completed, phase := next },
      f ∈ ids a := by
    intro f mem
    rcases mem_ids.mp mem with rfl | rfl | mem | mem
    · simp
    · simp
    · exact chain_ids (mem_cons_of_mem _ (mem_held.mpr (.inl (sub f mem))))
    exact chain_ids (mem_cons_of_mem _ (mem_held.mpr (.inr mem)))
  refine ⟨ordered.window.mono idsSub,?_,fun f mem => ordered.submitted f (idsSub f mem),
    ordered.ring_ascending,?_,?_,?_,?_,?_⟩
  · refine ordered.chain.sublist (List.Sublist.cons_cons _ ?_)
    exact List.Sublist.append_left (nil_sublist _) _
  · intro f mem discarded
    obtain ⟨running,rfl⟩ := sub f mem
    exact not_after_self _ (ordered.ring_behind_active running discarded)
  · intro f mem
    refine ordered.nonzero f (mem_append_left _ (mem_held.mpr ?_))
    exact (mem_append.mp mem).imp (sub f) id
  · rintro rfl
    by_cases free : a.active = 0
    · simp [free] at stops
    exact ⟨free,.inl rfl⟩
  · rintro rfl
    by_cases free : a.active = 0
    · exact ⟨free,rfl⟩
    simp only [if_neg free] at stops
    cases stops
  rintro rfl
  by_contra running
  simp only [if_neg running] at stops
  cases stops

private theorem ordered_dropped {active : U32} {ring preempted : List U32}
    (fewer : ((if active = 0 then [] else [active]) ++ ring).Sublist a.held)
    (discarded : Ascending preempted) (known : ∀ f ∈ preempted, f ∈ a.held ++ a.preempted)
    (apart : ∀ f ∈ (if active = 0 then [] else [active]) ++ ring, f ∉ preempted) :
    Ordered { a.idle with active, ring, preempted } := by
  have idsSub : ∀ f ∈ ids { a.idle with active, ring, preempted }, f ∈ ids a := by
    intro f mem
    rcases mem_ids.mp mem with rfl | rfl | mem | mem
    · exact chain_ids (mem_cons_self ..)
    · exact mem_ids.mpr (.inr (.inl rfl))
    · exact chain_ids (mem_cons_of_mem _ (fewer.subset mem))
    rcases mem_append.mp (known f mem) with mem | mem
    · exact chain_ids (mem_cons_of_mem _ mem)
    exact mem_ids.mpr (.inr (.inr (.inr mem)))
  refine ⟨ordered.window.mono idsSub,ordered.chain.sublist (fewer.cons_cons _),
    fun f mem => ordered.submitted f (idsSub f mem),discarded,apart,?_,?_,?_,?_⟩
  · intro f mem
    refine ordered.nonzero f ?_
    rcases mem_append.mp mem with mem | mem
    · exact mem_append_left _ (fewer.subset mem)
    exact known f mem
  all_goals intro phase; cases phase

private theorem ordered_reset : Ordered { a.idle with
      active := 0, ring := [], preempted := a.ring ++ keepBehind (queueCapacity - a.ring.length) a.behind a.preempted } := by
  have kept := keepBehind_sublist (queueCapacity - a.ring.length) a.behind a.preempted
  refine ordered_dropped ordered (by simp) ?_ ?_ (by simp)
  · refine ascending_append.mpr ⟨ordered.ring_ascending,ordered.discarded.sublist kept,?_⟩
    intro f mem g waiting
    have inIds : g ∈ ids a := mem_ids.mpr (.inr (.inr (.inr (kept.subset waiting))))
    have window : OneWindow (a.behind :: a.preempted) := ordered.window.mono (fun x mem => by
      rcases mem_cons.mp mem with rfl | mem
      · exact chain_ids (behind_mem a)
      exact mem_ids.mpr (.inr (.inr (.inr mem))))
    rw [keepBehind_eq _ _ _ ordered.discarded window] at waiting
    have later : After g a.behind := by simpa using (mem_filter.mp (mem_of_mem_take waiting)).2
    exact ordered.after_chain inIds later (mem_cons_of_mem _ (mem_held.mpr (.inr mem)))
  intro f mem
  rcases mem_append.mp mem with mem | mem
  · exact mem_append_left _ (mem_held.mpr (.inr mem))
  exact mem_append_right _ (kept.subset mem)

end

/-- One move keeps the order, as long as a newly submitted fence is in the window of the fences in use. -/
private theorem ordered_move {b : Flow} {own : Action} (move : Move a own b) (ordered : Ordered a)
    (window : OneWindow (b.last :: ids a)) : Ordered b := by
  cases move with
  | queue fence nonzero room admits newer => exact ordered_queue ordered window nonzero newer
  | resubmit fence nonzero room admits open_ behindActive behindRing waiting =>
    exact ordered_resubmit ordered (resubmitted_after open_ behindActive behindRing) waiting
  | activate fence rest head free dispatching => exact ordered_activate ordered head free dispatching
  | complete running bounded later => exact ordered_complete ordered running bounded
  | begin claimed next idle stops =>
    refine ordered_begin ordered ?_
    by_cases free : a.active = 0
    · rw [if_pos free] at stops ⊢
      cases claimed
      · exact .inl stops
      exact .inr stops
    rw [if_neg free] at stops ⊢
    exact stops.1
  | observe waiting reached =>
    refine { ordered with waits := fun other => by (cases other), ready := fun _ => ⟨?_,rfl⟩, claimed := fun other => by (cases other) }
    obtain ⟨nonzero,running | ⟨free,_⟩⟩ := ordered.waits waiting
    · -- an active fence is after the completed one, so the boundary is not reached
      have later := ordered.held_after (mem_held.mpr (.inl ⟨running ▸ nonzero,rfl⟩))
      rw [running,reached] at later
      exact absurd later (not_after_self _)
    exact free
  | claim ready =>
    exact { ordered with waits := fun other => by (cases other), ready := fun other => by (cases other), claimed := fun _ => (ordered.ready ready).1 }
  | commit claimed =>
    exact ordered_dropped ordered (List.Sublist.refl _) ordered.discarded (fun f => mem_append_right _)
      (fun f mem => ordered.apart mem)
  | abort unclaimed =>
    exact ordered_dropped ordered (List.Sublist.refl _) List.Pairwise.nil (by simp) (by simp)
  | reset => exact ordered_reset ordered

private theorem completed_move {b : Flow} {own : Action} (move : Move a own b) : AtOrAfter b.completed a.completed := by
  cases move with
  | complete running bounded later => exact later.atOrAfter
  | _ => exact atOrAfter_refl _

/-- The fence ids in use during each call of a run, with a newly submitted one, lie in one half of the number space. In use
    are also the preempted fences that a run skips and never queues again, until a later preemption or reset drops them. -/
def Windowed (s : Scheduler) : List Op → Prop
  | [] => True
  | op :: rest =>
    OneWindow ((step s op).2.lastSubmittedFence :: outstanding s) ∧ Windowed (step s op).2 rest

theorem ordered_initial : Ordered (flow schedulerInitialize) := by
  have known : ids (flow schedulerInitialize) = [0,0] := rfl
  refine ⟨oneWindow_low,by decide,fun f mem => ?_,List.Pairwise.nil,fun f mem => ?_,
    fun f mem => ?_,fun phase => ?_,fun phase => ?_,fun phase => ?_⟩
  · have zero : f = 0 := by simpa [known] using mem
    exact .inl zero.symm
  · simp [flow,ring,schedulerInitialize] at mem
  · simp [flow,ring,preempted,schedulerInitialize] at mem
  all_goals cases phase

theorem layout_initial : Layout schedulerInitialize := ⟨by decide,by decide,by decide,by decide⟩

variable {s : Scheduler}

theorem ordered_step (layout : Layout s) (ordered : Ordered (flow s)) (op : Op)
    (window : OneWindow ((step s op).2.lastSubmittedFence :: outstanding s)) : Ordered (flow (step s op).2) := by
  rcases step_flow layout op with same | ⟨_,move⟩
  · rw [same]; exact ordered
  exact ordered_move move ordered window

private theorem ordered_run (layout : Layout s) (ordered : Ordered (flow s)) (ops : List Op)
    (windowed : Windowed s ops) : Layout (run s ops) ∧ Ordered (flow (run s ops)) := by
  induction ops generalizing s with
  | nil => exact ⟨layout,ordered⟩
  | cons op rest ih =>
  exact ih (step_moves layout op).1 (ordered_step layout ordered op windowed.1) windowed.2

/-- A call that begins a preemption. -/
def begins : Op → Bool
  | .beginBoundaryPreemption .. => true
  | .beginPreemption .. => true
  | _ => false

def ends : Op → Bool
  | .commitBoundaryPreemption _ => true
  | .acknowledgePreemption _ => true
  | .abortPreemption _ => true
  | .resetEngine .. => true
  | _ => false

/-- No call of the run is accepted and ends a preemption. -/
def NeverEnds (s : Scheduler) : List Op → Prop
  | [] => True
  | op :: rest => ((step s op).1 = true → ends op = false) ∧ NeverEnds (step s op).2 rest

section
variable {b : Flow}

private theorem begin_stops {claimed : Bool} (move : Move a (.begin claimed) b) : b.phase ≠ .Idle := by
  cases move with
  | begin _ next idle stops =>
  by_cases free : a.active = 0
  · rw [if_pos free] at stops
    cases claimed <;> exact ne_of_eq_of_ne stops nofun
  rw [if_neg free] at stops
  exact ne_of_eq_of_ne stops.1 nofun

private theorem stopped_move {own : Action} (move : Move a own b) (stopped : a.phase ≠ .Idle)
    (uncommitted : own ≠ .commit) (unaborted : own ≠ .abort) (kept : own ≠ .reset) : b.phase ≠ .Idle := by
  cases move with
  | activate fence rest head free dispatching => exact absurd dispatching stopped
  | begin claimed next idle stops => exact absurd idle stopped
  | observe waiting reached => nofun
  | claim ready => nofun
  | commit claimed => exact absurd rfl uncommitted
  | abort unclaimed => exact absurd rfl unaborted
  | reset => exact absurd rfl kept
  | queue | resubmit | complete => exact stopped

end

private theorem activateFence_stopped (stopped : s.preemptionPhase ≠ .Idle) (node engine fence : U32) :
    activateFence s node engine fence = (false,s) := by
  simp [activateFence,dispatchBlocked,stopped]

section
variable (layout : Layout s)
include layout

private theorem begun_stops {op : Op} (begin : begins op = true) (accepted : (step s op).1 = true) :
    (step s op).2.preemptionPhase ≠ .Idle := by
  rcases (step_moves layout op).2 with refused | ⟨_,moves⟩
  · rw [refused] at accepted
    cases accepted
  cases op with
  | beginBoundaryPreemption | beginPreemption => exact begin_stops moves
  | _ => cases begin

section
variable (stopped : s.preemptionPhase ≠ .Idle)
include stopped

/-- Only a call that ends the preemption makes the scheduler idle again. -/
private theorem stopped_step (op : Op)
    (open_ : (step s op).1 = true → ends op = false) : (step s op).2.preemptionPhase ≠ .Idle := by
  rcases (step_moves layout op).2 with refused | ⟨accepted,moves⟩
  · rw [refused]
    exact stopped
  have lasts := open_ accepted
  cases op with
  | createContext | destroyContext => exact ne_of_eq_of_ne (congrArg Flow.phase moves) stopped
  | commitBoundaryPreemption | acknowledgePreemption | abortPreemption | resetEngine => cases lasts
  | _ => exact stopped_move moves stopped nofun nofun nofun

private theorem stopped_run (ops : List Op) (open_ : NeverEnds s ops) : (run s ops).preemptionPhase ≠ .Idle := by
  induction ops generalizing s with
  | nil => exact stopped
  | cons op rest ih => exact ih (step_moves layout op).1 (stopped_step layout stopped op open_.1) open_.2

end

/-- What holds of the fences in a reached state. -/
structure RingInvariant (s : Scheduler) : Prop where
  ascending : Ascending (ring s)
  bounds : ∀ f ∈ ring s, After f s.completedFence ∧ AtOrAfter s.lastSubmittedFence f
  active : s.activeFence ≠ 0 → After s.activeFence s.completedFence ∧ ∀ f ∈ ring s, After f s.activeFence
  queued : s.queuedFence = ((ring s).head?).getD 0
  activeApart : s.activeFence ≠ 0 → s.activeFence ∉ ring s ∧ s.activeFence ∉ preempted s
  ringApart : (ring s).Disjoint (preempted s)
  claimable : ∀ p, (claimBoundaryPreemption s).1 = some p → s.activeFence = 0 ∧ p.lastCompletedFence = s.completedFence
  claimableAtOnce : ∀ node engine fence p, (beginPreemption s node engine fence).1 = some p →
    s.activeFence = 0 ∧ p.lastCompletedFence = s.completedFence

private theorem ringInvariant_of_ordered (ordered : Ordered (flow s)) : RingInvariant s := by
  have inHeld : ∀ f ∈ ring s, f ∈ (flow s).held := fun f mem => mem_held.mpr (.inr mem)
  have activeHeld : s.activeFence ≠ 0 → s.activeFence ∈ (flow s).held := fun running =>
    mem_held.mpr (.inl ⟨running,rfl⟩)
  refine ⟨ordered.ring_ascending,fun f mem => ⟨ordered.held_after (inHeld f mem),
    ordered.submitted f (chain_ids (mem_cons_of_mem _ (inHeld f mem)))⟩,fun running =>
    ⟨ordered.held_after (activeHeld running),fun f => ordered.ring_behind_active running⟩,layout.queued,
    fun running => ⟨fun mem => not_after_self _ (ordered.ring_behind_active running mem),
      fun mem => ordered.apart (activeHeld running) mem⟩,
    fun f mem => ordered.apart (inHeld f mem),?_,?_⟩
  · intro p claims
    rcases claimBoundaryPreemption_makes layout with refused | ⟨s',accepted,_,move⟩
    · simp [refused] at claims
    rw [accepted] at claims
    cases claims
    generalize flow s' = claimed at move
    cases move with
    | claim ready => exact ordered.ready ready
  intro node engine fence p claims
  rcases beginPreemption_makes layout node engine fence with refused | ⟨s',accepted,_,move⟩
  · simp [refused] at claims
  rw [accepted] at claims
  cases claims
  generalize flow s' = begun at move
  cases move with
  | begin _ next idle stops =>
  refine ⟨?_,rfl⟩
  by_contra running
  change ¬ (flow s).active = 0 at running
  rw [if_neg running] at stops
  cases stops.2

end

/-- In every state reached by calls of the scheduler the ring is ordered and apart from the active and the discarded fences;
    no call moves the completed fence backward, and no fence is activated between the begin of a preemption and its end. -/
theorem run_ringInvariant (ops : List Op) (windowed : Windowed schedulerInitialize ops) :
    RingInvariant (run schedulerInitialize ops) ∧
      (∀ op, AtOrAfter (step (run schedulerInitialize ops) op).2.completedFence
        (run schedulerInitialize ops).completedFence) ∧
      ∀ op later, begins op = true → (step (run schedulerInitialize ops) op).1 = true →
        NeverEnds (step (run schedulerInitialize ops) op).2 later → ∀ node engine fence,
          activateFence (run (step (run schedulerInitialize ops) op).2 later) node engine fence =
            (false,run (step (run schedulerInitialize ops) op).2 later) := by
  obtain ⟨layout,ordered⟩ := ordered_run layout_initial ordered_initial ops windowed
  refine ⟨ringInvariant_of_ordered layout ordered,?_,?_⟩
  · intro op
    rcases step_flow layout op with same | ⟨_,move⟩
    · exact .inl (congrArg Flow.completed same)
    · exact completed_move move
  · intro op later begin accepted open_ node engine fence
    exact activateFence_stopped
      (stopped_run (step_moves layout op).1 (begun_stops layout begin accepted) later open_) node engine fence

/-- Two fences are submitted, one runs and completes at the boundary of a preemption. -/
def boundaryOps : List Op :=
  [.queueFence 0 0 1,.queueFence 0 0 2,.activateFence 0 0 1,.beginBoundaryPreemption 0 0 9 2 1,
    .completeActiveFence 0 0 1,.observeBoundaryCompletion 0 0 1]

theorem run_ringInvariant_boundary : (run schedulerInitialize boundaryOps).preemptionPhase = .ReadyToNotify ∧
      RingInvariant (run schedulerInitialize boundaryOps) :=
  ⟨by decide,(run_ringInvariant boundaryOps
    ⟨oneWindow_low,oneWindow_low,oneWindow_low,oneWindow_low,oneWindow_low,oneWindow_low,trivial⟩).1⟩

theorem run_append {s : Scheduler} (before after : List Op) : run s (before ++ after) = run (run s before) after := by
  induction before generalizing s with
  | nil => rfl
  | cons op before ih => exact ih

private theorem layout_run {s : Scheduler} (layout : Layout s) (ops : List Op) : Layout (run s ops) := by
  induction ops generalizing s with
  | nil => exact layout
  | cons op ops ih => exact ih (step_moves layout op).1

private theorem flows_run {s : Scheduler} (layout : Layout s) (ops : List Op) :
    Relation.ReflTransGen (fun a b => ∃ own, Move a own b) (flow s) (flow (run s ops)) := by
  induction ops generalizing s with
  | nil => exact .refl
  | cons op ops ih =>
  have layout' := (step_moves layout op).1
  rcases step_flow layout op with same | move
  · rw [← same]
    exact ih layout'
  · exact .head move (ih layout')

/-- **The scheduler refines the flow of fences.** Behind any calls, what the rings of the scheduler hold is reached by
    moves of the flow; each call of the run that was accepted made its own move, and each that was refused made none. -/
theorem scheduler_refines (ops : List Op) :
    Relation.ReflTransGen (fun a b => ∃ own, Move a own b) (flow schedulerInitialize) (flow (run schedulerInitialize ops)) ∧
      ∀ before op after, before ++ op :: after = ops →
        ((step (run schedulerInitialize before) op).1 = true →
          Moves op (flow (run schedulerInitialize before)) (flow (run schedulerInitialize (before ++ [op])))) ∧
        ((step (run schedulerInitialize before) op).1 = false →
          run schedulerInitialize (before ++ [op]) = run schedulerInitialize before) := by
  refine ⟨flows_run layout_initial ops,fun before op after _ => ?_⟩
  rw [run_append]
  rcases (step_moves (layout_run layout_initial before) op).2 with refused | ⟨accepted,moves⟩
  · rw [refused]
    exact ⟨nofun,fun _ => congrArg Prod.snd refused⟩
  rw [accepted]
  exact ⟨fun _ => moves,nofun⟩

end WindowsOnM1.SchedulerRing
