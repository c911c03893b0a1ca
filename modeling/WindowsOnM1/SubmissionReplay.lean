import WindowsOnM1.SubmissionRing

/-!
The replay ledger of the submission queue can be drained. As long as no completion
overtakes the ledger, its head is ahead of the completed fence and in no ring entry,
and the ring has a free slot for it, so that the next replay is accepted.
-/
namespace WindowsOnM1.SubmissionReplay
open SerialOrder SubmissionModel SubmissionLine SubmissionRing
open List hiding after

def completes (f : U32) : Op → Prop
  | .complete g => g = f
  | .commitCompletion g => g = f
  | _ => False

/-- A completed fence is before the head of the ledger. -/
def InTurn (q : Queue) (op : Op) : Prop :=
  (step q op).1 = true → ∀ f, completes f op → ∀ head ∈ (ledger q).head?, After head f
def AllInTurn (q : Queue) : List Op → Prop
  | [] => True
  | op :: rest => InTurn q op ∧ AllInTurn (step q op).2 rest

/-- Every owed fence is still ahead of the completed one. -/
def Ahead (a : Line) : Prop := ∀ f ∈ a.owed, After f a.completed

private theorem ahead_completed {a : Line} (ordered : Ordered a) {f : U32} (inIds : f ∈ ids a)
    (turn : ∀ head ∈ a.owed.head?, After head f) : ∀ g ∈ a.owed, After g f := by
  intro g owed
  have debt := ordered.debt
  have inOwed : ∀ x ∈ a.owed, x ∈ ids a := fun x mem => mem_ids.mpr (.inr (.inr (.inr mem)))
  cases split : a.owed with
  | nil => simp [split] at owed
  | cons first rest =>
  rw [split] at owed debt turn inOwed
  have head : After first f := turn first (by simp)
  rcases mem_cons.mp owed with rfl | later
  · exact head
  exact ordered.window.after_trans (by decide) (inOwed g owed) (inOwed first (mem_cons_self ..)) inIds
    ((ascending_cons.mp debt).1 g later) head.atOrAfter

private theorem ahead_step {q : Queue} {op : Op} (ordered : Ordered (line q)) (refines : Refines q op)
    (turn : InTurn q op) (ahead : Ahead (line q)) : Ahead (line (step q op).2) := by
  rcases refines with ⟨_,same⟩ | ⟨accepted,_,allowed,lined⟩
  · rw [same]; exact ahead
  rw [lined]
  have headIn : ∀ {f : U32}, ((line q).waiting.map fence).head? = some f → f ∈ ids (line q) := fun head =>
    mem_ids.mpr (.inr (.inr (.inl (mem_of_mem_head? head))))
  cases op with
  | accept submission token bytes start stop dmaStart dmaStop =>
    by_cases replay : pagingReplay submission = true
    · simp only [after,if_pos replay]
      exact fun f owed => ahead f (mem_of_mem_tail owed)
    simp only [after,if_neg replay]
    exact ahead
  | commitCompletion f | complete f => exact ahead_completed ordered (headIn allowed.2) (turn accepted f rfl)
  | discardPreemptedThrough cutoff =>
    intro f owed
    have sub : (pagingFences (discarded cutoff (line q).waiting)).Sublist ((line q).waiting.map fence) :=
      (filter_sublist.map fence).trans ((takeWhile_sublist _).map fence)
    exact (ascending_cons.mp ordered.chain).1 f (sub.subset owed)
  | resetPagingReplay quiesced => exact fun f owed => absurd owed (by simp [after])
  | _ => exact ahead

private theorem ahead_run {q : Queue} (layout : Layout q) (ordered : Ordered (line q)) (ahead : Ahead (line q))
    (ops : List Op) (windowed : Windowed q ops) (fit : AllFit q ops) (turns : AllInTurn q ops) :
    Layout (run q ops) ∧ Ordered (line (run q ops)) ∧ Ahead (line (run q ops)) := by
  induction ops generalizing q with
  | nil => exact ⟨layout,ordered,ahead⟩
  | cons op rest ih =>
  have refines := step_refines layout ordered op windowed.1 fit.1
  exact ih (layout_step layout refines) (ordered_step ordered refines windowed.1)
    (ahead_step ordered refines turns.1 ahead) windowed.2 fit.2 turns.2

private theorem replay_accepted {q : Queue} (layout : Layout q) (ordered : Ordered (line q)) (ahead : Ahead (line q))
    (owes : q.pagingReplayCount ≠ 0) :
    ∃ f, replayHeadFence q = some f ∧ After f q.completedFence ∧ ¬ After f q.lastSubmittedFence ∧
      (∀ e ∈ waiting q, fence e ≠ f) ∧ q.count < q.capacity ∧
      ∀ submission token bytes start stop dmaStart dmaStop, submission.fence = f → pagingReplay submission = true →
        acceptable submission token bytes start stop dmaStart dmaStop = true →
        (accept q submission token bytes start stop dmaStart dmaStop).1 = true := by
  have configured : q.pagingReplayFences ≠ none := fun none => owes (layout.unconfigured none)
  obtain ⟨fences,isFences⟩ := Option.ne_none_iff_exists'.mp configured
  have headIs : replayHeadFence q = some (fences q.pagingReplayHead) := by rw [replayHeadFence,isFences]; rfl
  have owed : fences q.pagingReplayHead ∈ ledger q := by
    rw [ledger_configured isFences]
    refine RingBuffer.mem_contents.mpr ⟨0,Nat.pos_of_ne_zero owes,?_⟩
    exact congrArg fences (Nat.mod_eq_of_lt (layout.configured configured).2)
  generalize fences q.pagingReplayHead = f at headIs owed
  have open_ : After f q.completedFence := ahead f owed
  have inIds : f ∈ ids (line q) := mem_ids.mpr (.inr (.inr (.inr owed)))
  have submitted : ¬ After f q.lastSubmittedFence :=
    (ordered.window.not_after_iff (by decide) inIds (mem_ids.mpr (.inr (.inl rfl)))).mpr (ordered.submitted f inIds)
  have new : ∀ e ∈ waiting q, fence e ≠ f := fun e mem same =>
    ordered.apart (mem_map_of_mem mem) (same ▸ owed)
  have room : q.count < q.capacity := by have := layout.room; omega
  refine ⟨f,headIs,open_,submitted,new,room,?_⟩
  rintro submission token bytes start stop dmaStart dmaStop rfl replay data
  have guards : ¬ (q.capacity = 0 ∨ q.capacity ≤ q.count ∨ ¬ fenceAdmitted q submission ∨
      ¬ acceptable submission token bytes start stop dmaStart dmaStop) := by
    have admitted : fenceAdmitted q submission = true := by
      simp only [fenceAdmitted,if_pos replay,Bool.and_eq_true,Bool.not_eq_true',← Bool.not_eq_true,fenceAfter_iff]
      exact ⟨open_,submitted⟩
    rintro (zero | full | refused | bad)
    · omega
    · omega
    · exact refused admitted
    exact bad data
  have ledgerHead : ¬ (q.pagingReplayCount = 0 ∨ replayHeadFence q ≠ some submission.fence) := by
    rintro (paid | other)
    · exact owes paid
    exact other headIs
  have absent : ¬ ∃ e ∈ waiting q, fence e = submission.fence := by
    rintro ⟨e,mem,same⟩
    exact new e mem same
  simp only [accept]
  rw [if_neg guards,if_pos replay,if_neg ledgerHead,scanReplay_waiting,if_neg absent]

/-- While completions stay in turn and ring positions fit into 32 bits, the head of a
    ledger that owes anything can be replayed at once. -/
theorem run_drainable (capacity head : Nat) (narrow : capacity < 2 ^ 32) (headIn : head < capacity)
    (replay : Option Nat) (ops : List Op) (windowed : Windowed (start capacity head replay) ops)
    (fit : AllFit (start capacity head replay) ops) (turns : AllInTurn (start capacity head replay) ops)
    (owes : (run (start capacity head replay) ops).pagingReplayCount ≠ 0) :
    ∃ f, replayHeadFence (run (start capacity head replay) ops) = some f ∧
      After f (run (start capacity head replay) ops).completedFence ∧
      ¬ After f (run (start capacity head replay) ops).lastSubmittedFence ∧
      (∀ e ∈ waiting (run (start capacity head replay) ops), fence e ≠ f) ∧
      (run (start capacity head replay) ops).count < (run (start capacity head replay) ops).capacity ∧
      ∀ submission token bytes start' stop dmaStart dmaStop, submission.fence = f → pagingReplay submission = true →
        acceptable submission token bytes start' stop dmaStart dmaStop = true →
        (accept (run (start capacity head replay) ops) submission token bytes start' stop dmaStart dmaStop).1 =
          true := by
  have initially : Ahead (line (start capacity head replay)) := by
    rw [start_line]
    exact fun f owed => absurd owed (by simp)
  obtain ⟨layout,ordered,ahead⟩ := ahead_run (start_layout narrow headIn replay)
    (start_ordered capacity head replay) initially ops windowed fit turns
  exact replay_accepted layout ordered ahead owes

/-- A paging fence is discarded while a later entry is preserved. -/
def discardOps : List Op := [acceptPaging 1 submissionFlagPaging,acceptNull 2,.discardPreemptedThrough 1]

theorem run_drainable_discard : (run (start 4 0 (some 4)) discardOps).pagingReplayCount = 1 ∧
    ∃ f, replayHeadFence (run (start 4 0 (some 4)) discardOps) = some f ∧
      After f (run (start 4 0 (some 4)) discardOps).completedFence := by
  refine ⟨by decide,?_⟩
  obtain ⟨f,head,later,_⟩ := run_drainable 4 0 (by decide) (by decide) (some 4) discardOps
    ⟨oneWindow_low,oneWindow_low,oneWindow_low,trivial⟩
    ⟨fun _ _ => by decide,fun _ _ => by decide,fun _ accept => by (cases accept),trivial⟩
    ⟨fun _ _ none => none.elim,fun _ _ none => none.elim,fun _ _ none => none.elim,trivial⟩ (by decide)
  exact ⟨f,head,later⟩

/-- The preserved entry completes before the discarded one is replayed: from then on the
    replay is refused, and so is every new submission. -/
theorem overtaken_ledger : Windowed (start 4 0 (some 4)) (discardOps ++ [.complete 2]) ∧
    (run (start 4 0 (some 4)) (discardOps ++ [.complete 2])).pagingReplayCount = 1 ∧
    replayHeadFence (run (start 4 0 (some 4)) (discardOps ++ [.complete 2])) = some 1 ∧
    ¬ After 1 (run (start 4 0 (some 4)) (discardOps ++ [.complete 2])).completedFence ∧
    (step (run (start 4 0 (some 4)) (discardOps ++ [.complete 2]))
      (acceptPaging 1 (submissionFlagPaging ||| submissionFlagResubmission))).1 = false ∧
    (step (run (start 4 0 (some 4)) (discardOps ++ [.complete 2])) (acceptNull 3)).1 = false :=
  ⟨⟨oneWindow_low,oneWindow_low,oneWindow_low,oneWindow_low,trivial⟩,by decide,by decide,by decide,by decide,by decide⟩

end WindowsOnM1.SubmissionReplay
