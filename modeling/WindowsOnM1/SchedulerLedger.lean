import WindowsOnM1.SchedulerRing

/-!
The fences that a preemption or an engine reset discards. `owed` is the history of
a run: the discarded fences that nobody ran, skipped or gave up. They are exactly
the preempted fences behind the end of the chain, and the ring has room for them.
-/
namespace WindowsOnM1.SchedulerLedger
open SerialOrder SchedulerModel SchedulerFlow SchedulerRing List

/-- What a call does to the fences that were discarded and neither ran nor were skipped
    by the resubmission of a later fence. -/
def unrunAfter (s : Scheduler) (unrun : List U32) (op : Op) : List U32 :=
  if (step s op).1 = true then
    match op with
    | .beginBoundaryPreemption .. => ring s ++ unrun
    | .beginPreemption .. => ring s ++ unrun
    | .resetEngine .. => ring s ++ unrun
    | .queueResubmittedPagingFence _ _ fence => unrun.filter (fun f => After f fence)
    | _ => unrun
  else unrun

/-- The same, where a new fence also skips the fences before it and the abort of a preemption gives up what was discarded. -/
def owedAfter (s : Scheduler) (owed : List U32) (op : Op) : List U32 :=
  if (step s op).1 = true then
    match op with
    | .queueFence _ _ fence => owed.filter (fun f => After f fence)
    | .abortPreemption _ => []
    | _ => unrunAfter s owed op
  else owed

def unrunRun (s : Scheduler) (unrun : List U32) : List Op → List U32
  | [] => unrun
  | op :: rest => unrunRun (step s op).2 (unrunAfter s unrun op) rest
def owedRun (s : Scheduler) (owed : List U32) : List Op → List U32
  | [] => owed
  | op :: rest => owedRun (step s op).2 (owedAfter s owed op) rest

/-- No preemption begins while a discarded fence is owed. -/
def BeginsSettled (s : Scheduler) (owed : List U32) : List Op → Prop
  | [] => True
  | op :: rest =>
    (begins op = true → (step s op).1 = true → owed = []) ∧ BeginsSettled (step s op).2 (owedAfter s owed op) rest

/-- A preemption that is aborted, and a new fence in front of an engine reset. -/
def abortedOps : List Op :=
  [.queueFence 0 0 1,.beginBoundaryPreemption 0 0 9 1 0,.abortPreemption 9]
def renamedOps : List Op :=
  [.queueFence 0 0 1,.beginBoundaryPreemption 0 0 9 1 0,.claimBoundaryPreemption,.commitBoundaryPreemption 9,
    .queueFence 0 0 2,.resetEngine 0 0]

/-- A discarded fence that nobody ran or resubmitted past is forgotten by an abort, and
    by an engine reset behind a new fence. -/
theorem unrun_forgotten : (Windowed schedulerInitialize abortedOps ∧ 1 ∈ unrunRun schedulerInitialize [] abortedOps ∧
      1 ∉ preempted (run schedulerInitialize abortedOps)) ∧
    (Windowed schedulerInitialize renamedOps ∧ 1 ∈ unrunRun schedulerInitialize [] renamedOps ∧
      1 ∉ preempted (run schedulerInitialize renamedOps)) := by
  refine ⟨⟨⟨?_,?_,?_,trivial⟩,by decide,by decide⟩,⟨⟨?_,?_,?_,?_,?_,?_,trivial⟩,by decide,by decide⟩⟩ <;>
    exact oneWindow_low

/-- The preempted fences behind the end of the chain. -/
def waiting (a : Flow) : List U32 := a.preempted.filter (fun f => After f a.behind)

/-- The owed fences are the waiting ones and fit into the ring. -/
structure Settled (a : Flow) (owed : List U32) : Prop where
  exactly : owed = waiting a
  room : a.ring.length + owed.length ≤ queueCapacity

variable {a : Flow}

private theorem mem_waiting {f : U32} : f ∈ waiting a ↔ f ∈ a.preempted ∧ After f a.behind := by
  simp [waiting]
private theorem waiting_eq_self (later : ∀ f ∈ a.preempted, After f a.behind) : waiting a = a.preempted :=
  filter_eq_self.mpr (by simpa using later)

variable {fence : U32}

private theorem behind_pushed {b : Flow} (active : b.active = a.active)
    (pushed : b.ring = a.ring ++ [fence]) : b.behind = fence := by
  simp only [Flow.behind,Flow.held,active,pushed,← append_assoc,getLast?_concat,Option.getD_some]
private theorem behind_empty (free : a.active = 0) (empty : a.ring = []) : a.behind = a.completed := by
  rw [Flow.behind,held_idle free,empty]
  rfl

private theorem waiting_pushed (window : OneWindow (fence :: ids a)) (later : After fence a.behind) :
    (waiting a).filter (fun f => After f fence) = a.preempted.filter (fun f => After f fence) := by
  rw [waiting,filter_filter]
  apply filter_congr
  intro f mem
  have onward : After f fence → After f a.behind := fun afterFence =>
    window.after_trans (by decide) (mem_cons_of_mem _ (mem_ids.mpr (.inr (.inr (.inr mem))))) (by simp)
      (mem_cons_of_mem _ (chain_ids (behind_mem a))) afterFence later.atOrAfter
  by_cases afterFence : After f fence
  · simp [afterFence,onward afterFence]
  simp [afterFence]

variable {owed : List U32}

private theorem settled_queue (ordered : Ordered a) (settled : Settled a owed)
    (window : OneWindow (fence :: ids a)) (room : a.ring.length < queueCapacity) (newer : After fence a.last) :
    Settled { a with ring := a.ring ++ [fence], last := fence } (owed.filter (fun f => After f fence)) := by
  have above : ∀ f ∈ ids a, After fence f := fun f mem =>
    window.after_trans (by decide) (by simp) (by simp) (mem_cons_of_mem _ mem) newer
      (ordered.submitted f mem)
  have behind : Flow.behind { a with ring := a.ring ++ [fence], last := fence } = fence :=
    behind_pushed (a := a) rfl rfl
  -- a new fence is after every discarded one
  have none : a.preempted.filter (fun f => After f fence) = [] := by
    refine filter_eq_nil_iff.mpr (fun f mem after => ?_)
    have inIds := mem_ids.mpr (.inr (.inr (.inr mem)))
    have back : After f fence := by simpa using after
    exact not_after_self f (window.after_trans (by decide) (mem_cons_of_mem _ inIds) (by simp)
      (mem_cons_of_mem _ inIds) back (above f inIds).atOrAfter)
  rw [settled.exactly,waiting_pushed window (above _ (chain_ids (behind_mem a))),none]
  refine ⟨?_,by simpa using Nat.succ_le_of_lt room⟩
  rw [waiting,behind]
  exact none.symm

private theorem settled_resubmit (ordered : Ordered a) (settled : Settled a owed)
    (later : After fence a.behind) (mem : fence ∈ a.preempted) :
    Settled { a with ring := a.ring ++ [fence], preempted := a.preempted.erase fence }
      (owed.filter (fun f => After f fence)) := by
  have behind : Flow.behind { a with ring := a.ring ++ [fence], preempted := a.preempted.erase fence } = fence :=
    behind_pushed (a := a) rfl rfl
  have inIds : fence ∈ ids a := mem_ids.mpr (.inr (.inr (.inr mem)))
  have window : OneWindow (fence :: ids a) := ordered.window.mono (fun f found => by
    rcases mem_cons.mp found with rfl | found
    · exact inIds
    exact found)
  constructor
  · rw [settled.exactly,waiting_pushed window later,waiting,behind]
    rw [ordered.discarded.nodup.erase_eq_filter,filter_filter]
    apply filter_congr
    intro f _
    by_cases after : After f fence
    · simp [after,after.ne]
    simp [after]
  -- the fence itself was owed and now stands in the ring
  have owedFence : fence ∈ owed := settled.exactly ▸ mem_waiting.mpr ⟨mem,later⟩
  have fewer : (owed.filter (fun f => After f fence)).length < owed.length :=
    length_filter_lt_length_iff_exists.mpr ⟨fence,owedFence,by simp [not_after_self]⟩
  have room := settled.room
  have bound : a.ring.length + 1 + (owed.filter (fun f => After f fence)).length ≤ queueCapacity := by omega
  rw [length_append]
  exact bound

private theorem settled_same {b : Flow} (settled : Settled a owed) (behind : b.behind = a.behind)
    (preempted : b.preempted = a.preempted) (shorter : b.ring.length ≤ a.ring.length) : Settled b owed := by
  refine ⟨?_,(Nat.add_le_add_right shorter _).trans settled.room⟩
  rw [settled.exactly,waiting,waiting,behind,preempted]

private theorem settled_begin {b : Flow} (ordered : Ordered a) (room : a.ring.length ≤ queueCapacity)
    (completed : b.completed = a.completed) (active : b.active = a.active) (ring : b.ring = [])
    (preempted : b.preempted = a.ring) : Settled b (a.ring ++ []) := by
  have behind : ∀ f ∈ b.preempted, After f b.behind := by
    intro f mem
    rw [preempted] at mem
    by_cases free : a.active = 0
    · rw [behind_empty (active.trans free) ring,completed]
      exact ordered.held_after (mem_held.mpr (.inr mem))
    have running : b.active ≠ 0 := active ▸ free
    rw [Flow.behind,held_running running,ring,active]
    exact ordered.ring_behind_active free mem
  rw [append_nil]
  refine ⟨?_,by simpa [ring] using room⟩
  rw [waiting_eq_self behind,preempted]

private theorem settled_reset (ordered : Ordered a) (settled : Settled a owed) : Settled { a.idle with
      active := 0, ring := []
      preempted := a.ring ++ keepBehind (queueCapacity - a.ring.length) a.behind a.preempted }
      (a.ring ++ owed) := by
  have window : OneWindow (a.behind :: a.preempted) := ordered.window.mono (fun f mem => by
    rcases mem_cons.mp mem with rfl | mem
    · exact chain_ids (behind_mem a)
    exact mem_ids.mpr (.inr (.inr (.inr mem))))
  have room := settled.room
  have kept : keepBehind (queueCapacity - a.ring.length) a.behind a.preempted = owed := by
    rw [keepBehind_eq _ _ _ ordered.discarded window,settled.exactly]
    refine take_of_length_le ?_
    rw [settled.exactly] at room
    change (waiting a).length ≤ _
    omega
  rw [kept]
  refine ⟨?_,by simpa using room⟩
  have behind : Flow.behind { a.idle with active := 0, ring := [], preempted := a.ring ++ owed } = a.completed :=
    behind_empty rfl rfl
  symm
  refine waiting_eq_self (fun f mem => ?_)
  rcases mem_append.mp mem with queued | discarded
  · exact ordered.held_after (mem_held.mpr (.inr queued))
  rw [settled.exactly] at discarded
  obtain ⟨found,later⟩ := mem_waiting.mp discarded
  exact ordered.after_chain (mem_ids.mpr (.inr (.inr (.inr found)))) later (mem_cons_self ..)

private theorem behind_completed {b : Flow} (running : a.active ≠ 0) (completed : b.completed = a.active)
    (free : b.active = 0) (ring : b.ring = a.ring) : b.behind = a.behind := by
  rw [Flow.behind,held_idle free,ring,completed,Flow.behind,held_running running]
  cases a.ring <;> rfl

/-- What the move of an accepted call does to the owed fences. -/
def owedBy (a : Flow) (owed : List U32) : Option Action → List U32
  | some (.queue fence) => owed.filter (fun f => After f fence)
  | some (.resubmit fence) => owed.filter (fun f => After f fence)
  | some (.begin _) => a.ring ++ owed
  | some .reset => a.ring ++ owed
  | some .abort => []
  | _ => owed

private theorem settled_move {b : Flow} {own : Action} (move : Move a own b) (ordered : Ordered a)
    (settled : Settled a owed) (window : OneWindow (b.last :: ids a)) (room : a.ring.length ≤ queueCapacity)
    (begin : ∀ claimed, own = .begin claimed → owed = []) : Settled b (owedBy a owed (some own)) := by
  cases move with
  | queue fence nonzero space admits newer => exact settled_queue ordered settled window space newer
  | resubmit fence nonzero space admits openFence behindActive behindRing mem =>
    exact settled_resubmit ordered settled (resubmitted_after openFence behindActive behindRing) mem
  | activate fence rest head free dispatching =>
    have nonzero : fence ≠ 0 :=
      ordered.nonzero fence (mem_append_left _ (mem_held.mpr (.inr (by simp [head]))))
    have idle : a.held = fence :: rest := (held_idle free).trans head
    refine settled_same settled ?_ rfl (by simp [head])
    rw [Flow.behind,Flow.behind,idle,held_running nonzero]
  | complete running bounded later =>
    exact settled_same settled (behind_completed running rfl rfl rfl) rfl (le_refl _)
  | begin claimed next idle stops =>
    rw [begin claimed rfl]
    exact settled_begin ordered room rfl rfl rfl rfl
  | observe waiting reached => exact settled_same settled rfl rfl (le_refl _)
  | claim ready => exact settled_same settled rfl rfl (le_refl _)
  | commit claimed => exact settled_same settled rfl rfl (le_refl _)
  | abort unclaimed => exact ⟨rfl,room⟩
  | reset => exact settled_reset ordered settled

variable {s : Scheduler} {op : Op}

private theorem owedAfter_accepted (owed : List U32) (accepted : (step s op).1 = true) :
    owedAfter s owed op = owedBy (flow s) owed (action op) := by
  cases op <;> simp only [owedAfter,unrunAfter,accepted,if_true] <;> rfl

section
variable (settled : Settled (flow s) owed) (layout : Layout s) (ordered : Ordered (flow s))
include settled layout ordered

private theorem settled_step (op : Op) (window : OneWindow ((step s op).2.lastSubmittedFence :: outstanding s))
    (begin : begins op = true → (step s op).1 = true → owed = []) :
    Settled (flow (step s op).2) (owedAfter s owed op) := by
  rcases (step_moves layout op).2 with refused | ⟨accepted,moves⟩
  · unfold owedAfter
    rw [refused]
    exact settled
  rw [owedAfter_accepted owed accepted]
  unfold Moves at moves
  cases asked : action op with
  | none =>
    rw [asked] at moves
    exact moves.symm ▸ settled
  | some own =>
  rw [asked] at moves
  refine settled_move moves ordered settled window ((ring_length s).trans_le layout.count) (fun claimed isBegin => ?_)
  subst isBegin
  refine begin ?_ accepted
  cases op with
  | beginBoundaryPreemption | beginPreemption => rfl
  | _ => cases asked

private theorem settled_run (ops : List Op) (windowed : Windowed s ops) (begin : BeginsSettled s owed ops) :
    Layout (run s ops) ∧ Ordered (flow (run s ops)) ∧ Settled (flow (run s ops)) (owedRun s owed ops) := by
  induction ops generalizing s owed with
  | nil => exact ⟨layout,ordered,settled⟩
  | cons op rest ih =>
  exact ih (settled_step settled layout ordered op windowed.1 begin.1) (step_moves layout op).1
    (ordered_step layout ordered op windowed.1) windowed.2 begin.2

end

private theorem findPreempted_mem (mem : fence ∈ preempted s) : ∃ index, findPreempted s fence = some index := by
  cases found : findPreempted s fence with
  | none => exact absurd mem (ArrayCells.cells_find_none found)
  | some index => exact ⟨index,rfl⟩

private theorem resubmit_accepted (room : s.queueCount < queueCapacity)
    (nonzero : fence ≠ 0) (admits : admissionBlocked s = false) (mem : fence ∈ preempted s)
    (later : ∀ f ∈ (flow s).completed :: (flow s).held, After fence f) :
    (queueResubmittedPagingFence s 0 0 fence).1 = true := by
  obtain ⟨index,found⟩ := findPreempted_mem mem
  have afterCompleted : fenceAfter fence s.completedFence = true :=
    (fenceAfter_iff _ _).mpr (later _ (mem_cons_self ..))
  have guards : ¬ (¬ validateEngine 0 0 ∨ fence = 0 ∨ queueCapacity ≤ s.queueCount ∨
      admissionBlocked s ∨ ¬ fenceAfter fence s.completedFence ∨
      (s.activeFence ≠ 0 ∧ ¬ fenceAfter fence s.activeFence)) := by
    rintro (invalid | zero | full | blocked | early | ⟨running,early⟩)
    · exact invalid rfl
    · exact nonzero zero
    · omega
    · simp [admits] at blocked
    · exact early afterCompleted
    exact early ((fenceAfter_iff _ _).mpr (later _ (mem_cons_of_mem _ (mem_held.mpr (.inl ⟨running,rfl⟩)))))
  have tailed : ¬ (s.queueCount ≠ 0 ∧ ¬ fenceAfter fence (queueTail s)) := by
    rintro ⟨some,early⟩
    have tail : queueTail s ∈ ring s := mem_of_getLast? (ring_getLast? some)
    exact early ((fenceAfter_iff _ _).mpr (later _ (mem_cons_of_mem _ (mem_held.mpr (.inr tail)))))
  rw [queueResubmittedPagingFence,if_neg guards,if_neg tailed,found]

/-- As long as no preemption begins while a discarded fence is owed, every owed fence is among the preempted fences exactly
    once and in serial order, and where fences may be queued at all its resubmission is accepted, once. -/
theorem owed_kept (ops : List Op) (windowed : Windowed schedulerInitialize ops)
    (begin : BeginsSettled schedulerInitialize [] ops) :
    (owedRun schedulerInitialize [] ops).Sublist (preempted (run schedulerInitialize ops)) ∧
      Ascending (owedRun schedulerInitialize [] ops) ∧
      ∀ fence ∈ owedRun schedulerInitialize [] ops, (preempted (run schedulerInitialize ops)).count fence = 1 ∧
        (admissionBlocked (run schedulerInitialize ops) = false →
          (queueResubmittedPagingFence (run schedulerInitialize ops) 0 0 fence).1 = true ∧
          fence ∉ preempted (queueResubmittedPagingFence (run schedulerInitialize ops) 0 0 fence).2) := by
  have initial : Settled (flow schedulerInitialize) [] := ⟨rfl,by decide⟩
  obtain ⟨layout,ordered,settled⟩ := settled_run initial layout_initial ordered_initial ops windowed begin
  clear initial
  generalize run schedulerInitialize ops = s at layout ordered settled ⊢
  generalize owedRun schedulerInitialize [] ops = owed at settled ⊢
  obtain rfl := settled.exactly
  have sub : (waiting (flow s)).Sublist (preempted s) := filter_sublist
  refine ⟨sub,ordered.discarded.sublist sub,fun fence isOwed => ?_⟩
  obtain ⟨mem,later⟩ := mem_waiting.mp isOwed
  have nodup : (preempted s).Nodup := ordered.discarded.nodup
  refine ⟨count_eq_one_of_mem nodup mem,fun admits => ?_⟩
  have some : 0 < (waiting (flow s)).length := length_pos_of_mem isOwed
  have room := settled.room
  have length : (flow s).ring.length = s.queueCount := ring_length s
  have accepted := resubmit_accepted (by omega) (ordered.nonzero fence (mem_append_right _ mem)) admits
    mem (fun f => ordered.after_chain (mem_ids.mpr (.inr (.inr (.inr mem)))) later)
  refine ⟨accepted,?_⟩
  rcases queueResubmittedPagingFence_makes layout 0 0 fence with refused | ⟨s',accepts,_,move⟩
  · rw [refused] at accepted
    cases accepted
  rw [accepts]
  change fence ∉ (flow s').preempted
  generalize flow s' = left at move
  cases move with
  | resubmit => exact nodup.not_mem_erase

/-- One of two discarded fences came back and the engine is reset. -/
def resetOps : List Op :=
  [.queueFence 0 0 1,.queueFence 0 0 2,.beginBoundaryPreemption 0 0 9 2 0,.claimBoundaryPreemption,
    .commitBoundaryPreemption 9,.queueResubmittedPagingFence 0 0 1,.resetEngine 0 0]

theorem owed_kept_reset : owedRun schedulerInitialize [] resetOps = [1,2] ∧
    (owedRun schedulerInitialize [] resetOps).Sublist (preempted (run schedulerInitialize resetOps)) :=
  ⟨by decide,(owed_kept resetOps
    ⟨oneWindow_low,oneWindow_low,oneWindow_low,oneWindow_low,oneWindow_low,oneWindow_low,oneWindow_low,trivial⟩
    ⟨by simp [begins],by simp [begins],fun _ _ => rfl,by simp [begins],by simp [begins],by simp [begins],
      by simp [begins],trivial⟩).1⟩

end WindowsOnM1.SchedulerLedger
