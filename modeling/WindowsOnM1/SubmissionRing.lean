import WindowsOnM1.SubmissionLine
import Mathlib.Data.List.Perm.Basic
import Mathlib.Data.List.TakeWhile

/-!
The submission ring refines the two lists of `SubmissionLine`. Every accepted call
does to the memory what `after` does to the lists, the waiting fences ascend from the
completed one, and every accepted entry either waits or has left. All of this rests
on ring positions that do not leave 32 bits when an entry is accepted.
-/
namespace WindowsOnM1.SubmissionRing
open SerialOrder SubmissionModel SubmissionLine
open List hiding after

def ids (a : Line) : List U32 := a.completed :: a.last :: (a.waiting.map fence ++ a.owed)

/-- The order that every call keeps. -/
structure Ordered (a : Line) : Prop where
  window : OneWindow (ids a)
  chain : Ascending (a.completed :: a.waiting.map fence)
  submitted : ∀ f ∈ ids a, AtOrAfter a.last f
  debt : Ascending a.owed
  apart : (a.waiting.map fence).Disjoint a.owed

/-- What an accepted call knows about the lists. -/
def Allowed (a : Line) : Op → Prop
  | .accept submission .. =>
    if pagingReplay submission then
      After submission.fence a.completed ∧ a.owed.head? = some submission.fence ∧ submission.fence ∉ a.waiting.map fence
    else a.owed = [] ∧ After submission.fence a.last
  | .markPublished f => a.owed = [] ∧ a.published = 0 ∧ (a.waiting.map fence).head? = some f
  | .claimCompletion f => a.claimed = 0 ∧ (a.waiting.map fence).head? = some f
  | .releaseCompletion f => a.claimed = f
  | .commitCompletion f => a.claimed = f ∧ (a.waiting.map fence).head? = some f
  | .commitRetirement f => a.claimed = f ∧ (a.waiting.map fence).head? = some f
  | .discardPreemptedThrough _ => a.owed = [] ∧ a.published = 0 ∧ a.claimed = 0
  | .resetPagingReplay _ => a.published = 0 ∧ a.claimed = 0
  | .complete f => a.claimed = 0 ∧ (a.waiting.map fence).head? = some f
  | .fault f => a.claimed = 0 ∧ (a.waiting.map fence).head? = some f

variable {a : Line} {f : U32}

@[simp] theorem mem_ids : f ∈ ids a ↔ f = a.completed ∨ f = a.last ∨ f ∈ a.waiting.map fence ∨ f ∈ a.owed := by
  simp only [ids,mem_cons,mem_append]
theorem insertOrdered_perm (entry : Entry) (entries : List Entry) :
    (insertOrdered entry entries).Perm (entry :: entries) := by
  refine perm_middle.trans (List.Perm.cons _ ?_)
  rw [takeWhile_append_dropWhile]

variable {entry : Entry} {entries : List Entry}

private theorem insertOrdered_last (earlier : ∀ e ∈ entries, fenceAfter (fence e) (fence entry) = false) :
    insertOrdered entry entries = entries ++ [entry] := by
  rw [insertOrdered,takeWhile_eq_self_iff.mpr (by simpa using earlier), dropWhile_eq_nil_iff.mpr (by simpa using earlier)]

/-- Ordered insertion of a new fence of the window keeps the list ascending. -/
theorem insertOrdered_ascending
    (ascending : Ascending (entries.map fence)) (window : OneWindow (fence entry :: entries.map fence))
    (new : fence entry ∉ entries.map fence) : Ascending ((insertOrdered entry entries).map fence) := by
  have whole := takeWhile_append_dropWhile (p := fun e => !fenceAfter (fence e) (fence entry)) (l := entries)
  have front : ∀ e ∈ entries.takeWhile (fun e => !fenceAfter (fence e) (fence entry)), After (fence entry) (fence e) := by
    intro e mem
    have here : fence e ∈ entries.map fence := mem_map_of_mem ((takeWhile_sublist _).subset mem)
    have early : ¬ After (fence e) (fence entry) := by
      have := mem_takeWhile_imp mem
      rw [← fenceAfter_iff]
      simpa using this
    rcases (window.not_after_iff (by decide) (mem_cons_of_mem _ here) (mem_cons_self ..)).mp early
      with same | later
    · exact absurd (same ▸ here) new
    exact later
  have back : ∀ e ∈ entries.dropWhile (fun e => !fenceAfter (fence e) (fence entry)), After (fence e) (fence entry) := by
    cases rest : entries.dropWhile (fun e => !fenceAfter (fence e) (fence entry)) with
    | nil => simp
    | cons first others =>
    have stops : After (fence first) (fence entry) := by
      rw [← fenceAfter_iff]
      have := List.head?_dropWhile_not (fun e => !fenceAfter (fence e) (fence entry)) entries
      simpa [rest] using this
    have sub : (first :: others).Sublist entries := rest ▸ dropWhile_sublist _
    have tail : Ascending ((first :: others).map fence) := ascending.sublist (sub.map fence)
    intro e mem
    rcases mem_cons.mp mem with rfl | mem
    · exact stops
    have inside : ∀ x ∈ first :: others, fence x ∈ fence entry :: entries.map fence := fun x found =>
      mem_cons_of_mem _ (mem_map_of_mem (sub.subset found))
    exact window.after_trans (by decide) (inside e (mem_cons_of_mem _ mem))
      (inside first (mem_cons_self ..)) (mem_cons_self ..)
      ((ascending_cons.mp tail).1 _ (mem_map_of_mem mem)) stops.atOrAfter
  rw [← whole,map_append] at ascending
  obtain ⟨frontAscending,backAscending,across⟩ := ascending_append.mp ascending
  rw [insertOrdered,map_append,map_cons]
  refine ascending_append.mpr ⟨frontAscending,ascending_cons.mpr ⟨?_,backAscending⟩,?_⟩
  · simpa using back
  intro f inFront g mem
  rcases mem_cons.mp mem with rfl | mem
  · obtain ⟨e,isFront,rfl⟩ := mem_map.mp inFront
    exact front e isFront
  exact across f inFront g mem

private theorem ordered_sub {b : Line} (ordered : Ordered a) (completed : b.completed = a.completed)
    (last : b.last = a.last) (sub : (b.waiting.map fence).Sublist (a.waiting.map fence))
    (debt : Ascending b.owed) (known : ∀ f ∈ b.owed, f ∈ ids a) (apart : (b.waiting.map fence).Disjoint b.owed) :
    Ordered b := by
  have idsSub : ∀ f ∈ ids b, f ∈ ids a := by
    intro f mem
    rcases mem_ids.mp mem with rfl | rfl | mem | mem
    · exact mem_ids.mpr (.inl completed)
    · exact mem_ids.mpr (.inr (.inl last))
    · exact mem_ids.mpr (.inr (.inr (.inl (sub.subset mem))))
    exact known f mem
  refine ⟨ordered.window.mono idsSub,?_,fun f mem => last ▸ ordered.submitted f (idsSub f mem),debt,apart⟩
  rw [completed]
  exact ordered.chain.sublist (sub.cons_cons _)

private theorem ordered_completed {b : Line} (ordered : Ordered a)
    (head : (a.waiting.map fence).head? = some f) (completed : b.completed = f) (last : b.last = a.last)
    (rest : b.waiting = a.waiting.tail) (owed : b.owed = a.owed) : Ordered b := by
  obtain ⟨first,others,split⟩ : ∃ first others, a.waiting = first :: others := by
    cases waiting : a.waiting with
    | nil => simp [waiting] at head
    | cons first others => exact ⟨first,others,rfl⟩
  have isFirst : fence first = f := by simpa [split] using head
  rw [split,tail_cons] at rest
  have chain := ordered.chain
  rw [split,map_cons] at chain
  have idsSub : ∀ g ∈ ids b, g ∈ ids a := by
    intro g mem
    simp only [mem_ids,rest,owed,last,completed,split,map_cons,mem_cons] at mem ⊢
    rcases mem with rfl | rfl | mem | mem
    · exact .inr (.inr (.inl (.inl isFirst.symm)))
    · exact .inr (.inl rfl)
    · exact .inr (.inr (.inl (.inr mem)))
    exact .inr (.inr (.inr mem))
  refine ⟨ordered.window.mono idsSub,?_,fun g mem => last ▸ ordered.submitted g (idsSub g mem), owed ▸ ordered.debt,?_⟩
  · rw [completed,rest,← isFirst]
    exact (ascending_cons.mp chain).2
  rw [rest,owed]
  refine disjoint_of_subset_left ?_ ordered.apart
  rw [split,map_cons]
  exact subset_cons_self _ _

variable {op : Op}

private theorem ordered_after (ordered : Ordered a) (allowed : Allowed a op)
    (window : OneWindow ((after a op).last :: ids a)) : Ordered (after a op) := by
  cases op with
  | accept submission token bytes start stop dmaStart dmaStop =>
    simp only [after] at window ⊢
    set entry : Entry := ⟨submission,token,bytes,start,stop,dmaStart,dmaStop⟩ with isEntry
    have perm : ∀ f, f ∈ (insertOrdered entry a.waiting).map fence ↔
        f = submission.fence ∨ f ∈ a.waiting.map fence := fun f => by
      rw [((insertOrdered_perm entry a.waiting).map fence).mem_iff,map_cons,mem_cons]
    have waitingAscending : Ascending (a.waiting.map fence) := (ascending_cons.mp ordered.chain).2
    by_cases replay : pagingReplay submission = true
    · simp only [Allowed,if_pos replay] at allowed
      simp only [if_pos replay] at window ⊢
      obtain ⟨open_,head,new⟩ := allowed
      obtain ⟨rest,split⟩ : ∃ rest, a.owed = submission.fence :: rest := by
        cases owed : a.owed with
        | nil => simp [owed] at head
        | cons first rest => exact ⟨rest,by simpa [owed] using head⟩
      have inIds : submission.fence ∈ ids a := mem_ids.mpr (.inr (.inr (.inr (by simp [split]))))
      have debt := ordered.debt
      rw [split] at debt
      have idsSub : ∀ f ∈ ids { a with waiting := insertOrdered entry a.waiting, owed := a.owed.tail }, f ∈ ids a := by
        intro f mem
        rcases mem_ids.mp mem with rfl | rfl | mem | mem
        · simp
        · simp
        · rcases (perm f).mp mem with rfl | mem
          · exact inIds
          exact mem_ids.mpr (.inr (.inr (.inl mem)))
        exact mem_ids.mpr (.inr (.inr (.inr (mem_of_mem_tail mem))))
      refine ⟨ordered.window.mono idsSub,?_,fun f mem => ordered.submitted f (idsSub f mem),?_,?_⟩
      · refine ascending_cons.mpr ⟨fun f mem => ?_,insertOrdered_ascending waitingAscending
          (ordered.window.mono (fun f mem => ?_)) new⟩
        · rcases (perm f).mp mem with rfl | mem
          · exact open_
          exact (ascending_cons.mp ordered.chain).1 f mem
        rcases mem_cons.mp mem with rfl | mem
        · exact inIds
        exact mem_ids.mpr (.inr (.inr (.inl mem)))
      · rw [split]
        exact (ascending_cons.mp debt).2
      intro f mem owed
      rw [split,tail_cons] at owed
      rcases (perm f).mp mem with rfl | mem
      · exact not_after_self _ ((ascending_cons.mp debt).1 _ owed)
      exact ordered.apart mem (split ▸ mem_cons_of_mem _ owed)
    simp only [Allowed,if_neg replay] at allowed
    simp only [if_neg replay] at window ⊢
    obtain ⟨paid,newer⟩ := allowed
    have above : ∀ f ∈ ids a, After submission.fence f := fun f mem =>
      window.after_trans (by decide) (by simp) (by simp) (mem_cons_of_mem _ mem) newer
        (ordered.submitted f mem)
    have new : submission.fence ∉ a.waiting.map fence := fun mem =>
      not_after_self _ (above _ (mem_ids.mpr (.inr (.inr (.inl mem)))))
    have idsSub : ∀ f ∈ ids { a with waiting := insertOrdered entry a.waiting, last := submission.fence },
        f = submission.fence ∨ f ∈ ids a := by
      intro f mem
      rcases mem_ids.mp mem with rfl | rfl | mem | mem
      · exact .inr (by simp)
      · exact .inl rfl
      · exact ((perm f).mp mem).imp id (fun mem => mem_ids.mpr (.inr (.inr (.inl mem))))
      exact .inr (mem_ids.mpr (.inr (.inr (.inr mem))))
    refine ⟨window.mono (fun f mem => mem_cons.mpr (idsSub f mem)),?_,fun f mem => ?_,ordered.debt,?_⟩
    · refine ascending_cons.mpr ⟨fun f mem => ?_,insertOrdered_ascending waitingAscending
        (window.mono (fun f mem => ?_)) new⟩
      · rcases (perm f).mp mem with rfl | mem
        · exact above _ (mem_ids.mpr (.inl rfl))
        exact (ascending_cons.mp ordered.chain).1 f mem
      rcases mem_cons.mp mem with rfl | mem
      · exact mem_cons_self ..
      exact mem_cons_of_mem _ (mem_ids.mpr (.inr (.inr (.inl mem))))
    · rcases idsSub f mem with same | mem
      · exact .inl same.symm
      exact .inr (above f mem)
    rw [paid]
    exact disjoint_nil_right _
  | markPublished f | claimCompletion f | releaseCompletion f => exact { ordered with }
  | commitCompletion f | complete f => exact ordered_completed ordered allowed.2 rfl rfl rfl rfl
  | discardPreemptedThrough cutoff =>
    have whole : discarded cutoff a.waiting ++ preserved cutoff a.waiting = a.waiting :=
      takeWhile_append_dropWhile
    have ascending : Ascending (a.waiting.map fence) := (ascending_cons.mp ordered.chain).2
    rw [← whole,map_append] at ascending
    obtain ⟨front,_,across⟩ := ascending_append.mp ascending
    have owedSub : (pagingFences (discarded cutoff a.waiting)).Sublist ((discarded cutoff a.waiting).map fence) :=
      filter_sublist.map fence
    refine ordered_sub ordered rfl rfl ((dropWhile_sublist _).map fence) (front.sublist owedSub) ?_ ?_
    · intro f mem
      exact mem_ids.mpr (.inr (.inr (.inl (((takeWhile_sublist _).map fence).subset (owedSub.subset mem)))))
    intro f kept owed
    exact not_after_self f (across f (owedSub.subset owed) f kept)
  | resetPagingReplay quiesced =>
    exact ordered_sub ordered rfl rfl (List.Sublist.refl _) List.Pairwise.nil (by simp [after])
      (disjoint_nil_right _)
  | _ =>
  have sub : (a.waiting.tail.map fence).Sublist (a.waiting.map fence) := (tail_sublist _).map fence
  exact ordered_sub ordered rfl rfl sub ordered.debt (fun g mem => mem_ids.mpr (.inr (.inr (.inr mem))))
    (disjoint_of_subset_left sub.subset ordered.apart)

/-- The call is refused, or it is accepted and does to the memory what `after` does to the lists. -/
def Refines (q : Queue) (op : Op) : Prop :=
  ((step q op).1 = false ∧ (step q op).2 = q) ∨
    ((step q op).1 = true ∧ Layout (step q op).2 ∧ Allowed (line q) op ∧ line (step q op).2 = after (line q) op)

variable {q : Queue}

theorem head_named (layout : Layout q) (some : q.count ≠ 0) (named : headFence q = f) :
    ((line q).waiting.map fence).head? = .some f := by
  change ((waiting q).map fence).head? = .some f
  rw [waiting_head layout some,map_cons,List.head?_cons]
  exact congrArg _ named

private theorem popped {p : Queue} (layout : Layout q) (some : q.count ≠ 0) (entries : p.entries = q.entries)
    (capacity : p.capacity = q.capacity) (head : p.head = q.head) (count : p.count = q.count)
    (fences : p.pagingReplayFences = q.pagingReplayFences)
    (replayCapacity : p.pagingReplayCapacity = q.pagingReplayCapacity)
    (replayHead : p.pagingReplayHead = q.pagingReplayHead) (replayCount : p.pagingReplayCount = q.pagingReplayCount) :
    Layout (popHead p) ∧ waiting (popHead p) = (waiting q).tail ∧ ledger (popHead p) = ledger q := by
  have same : Layout p := by
    obtain ⟨positive,headIn,narrow,room,configured,unconfigured,drained⟩ := layout
    exact ⟨by omega,by omega,by omega,by omega,by rwa [fences,capacity,replayCapacity,replayHead],
      by rwa [fences,replayCount],by rwa [replayCount,replayHead]⟩
  have someP : p.count ≠ 0 := count ▸ some
  refine ⟨pop_layout same someP,?_,?_⟩
  · rw [pop_waiting same someP]
    unfold waiting entryAt entrySlot
    rw [entries,capacity,head,count]
  unfold ledger popHead
  simp only [fences,replayCapacity,replayHead,replayCount]

private theorem accept_refines (layout : Layout q) (ordered : Ordered (line q)) (submission : Submission)
    (token : U64) (bytes start stop dmaStart dmaStop : U32)
    (fits : (accept q submission token bytes start stop dmaStart dmaStop).1 = true → q.head + q.count < 2 ^ 32)
    (window : OneWindow ((accept q submission token bytes start stop dmaStart dmaStop).2.lastSubmittedFence ::
      outstanding q)) : Refines q (.accept submission token bytes start stop dmaStart dmaStop) := by
  simp only [Refines,step]
  unfold accept at fits window ⊢
  simp only at fits window ⊢
  split
  · exact .inl ⟨rfl,rfl⟩
  rename_i refused
  rw [if_neg refused] at fits window
  simp only [not_or,not_not,not_le] at refused
  obtain ⟨_,room,admitted,_⟩ := refused
  have narrow := layout.narrow
  set entry : Entry := ⟨submission,token,bytes,start,stop,dmaStart,dmaStop⟩ with isEntry
  by_cases replay : pagingReplay submission = true
  · -- a replay pays the head of the ledger
    rw [if_pos replay] at fits ⊢
    simp only [fenceAdmitted,if_pos replay,Bool.and_eq_true,Bool.not_eq_true'] at admitted
    split
    · exact .inl ⟨rfl,rfl⟩
    rename_i ledgerHead
    rw [if_neg ledgerHead] at fits
    simp only [not_or,not_not] at ledgerHead
    obtain ⟨owes,headIs⟩ := ledgerHead
    obtain ⟨fences,configured,headFence⟩ := Option.map_eq_some_iff.mp headIs
    rw [scanReplay_waiting] at fits ⊢
    by_cases present : ∃ e ∈ waiting q, fence e = submission.fence
    · rw [if_pos present]
      exact .inl ⟨rfl,rfl⟩
    rw [if_neg present] at fits ⊢
    right
    have fits := fits rfl
    have place : (waiting q).findIdx (fun e => fenceAfter (fence e) submission.fence) ≤ q.count :=
      (waiting_length q) ▸ findIdx_le_length
    have stored := store_waiting layout fits room place entry
    have paidLedger := payReplay_ledger layout configured owes
    set offset := (waiting q).findIdx (fun e => fenceAfter (fence e) submission.fence)
    have layoutPaid := payReplay_layout layout (by simp [configured]) narrow
    have fitsRing := layout.room
    have head : (ledger q).head? = some submission.fence := by
      rw [ledger_configured configured,RingBuffer.contents_head? _ _ _ _ owes]
      have first : RingBuffer.slot q.pagingReplayCapacity q.pagingReplayHead 0 = q.pagingReplayHead :=
        Nat.mod_eq_of_lt (layout.configured (by simp [configured])).2
      rw [first,headFence]
    refine ⟨rfl,{ layoutPaid with positive := layout.positive, head := layout.head, narrow := ?_, room := ?_ },?_,?_⟩
    · simp only [payReplay,storeEntry]; omega
    · simp only [payReplay,storeEntry]; omega
    · simp only [Allowed,if_pos replay]
      refine ⟨(fenceAfter_iff _ _).mp admitted.1,head,?_⟩
      rintro mem
      obtain ⟨e,inRing,same⟩ := mem_map.mp mem
      exact present ⟨e,inRing,same⟩
    simp only [after,if_pos replay,line,Line.mk.injEq]
    refine ⟨?_,paidLedger,rfl,rfl,rfl,rfl⟩
    exact stored.trans (insertOrdered_eq entry (waiting q)).symm
  -- a new fence is after all waiting ones and goes to the end
  rw [if_neg replay] at fits window ⊢
  simp only [fenceAdmitted,if_neg replay,Bool.and_eq_true,beq_iff_eq] at admitted
  obtain ⟨paid,newer⟩ := admitted
  right
  have fits := fits rfl
  have stored := store_waiting layout fits room (le_refl _) entry
  rw [take_of_length_le (by simp),drop_eq_nil_of_le (by simp)] at stored
  have owed : ledger q = [] := length_eq_zero_iff.mp ((ledger_length layout).trans paid)
  have later : After submission.fence (line q).last := (fenceAfter_iff _ _).mp newer
  have earlier : ∀ e ∈ waiting q, fenceAfter (fence e) (fence entry) = false := by
    intro e mem
    have inIds : fence e ∈ ids (line q) := mem_ids.mpr (.inr (.inr (.inl (mem_map_of_mem mem))))
    have above : After submission.fence (fence e) := window.after_trans (by decide) (mem_cons_self ..)
      (mem_cons_of_mem _ (mem_ids.mpr (.inr (.inl rfl)))) (mem_cons_of_mem _ inIds) later
      (ordered.submitted _ inIds)
    rw [← Bool.not_eq_true,fenceAfter_iff]
    intro back
    exact not_after_self _ (window.after_trans (by decide) (mem_cons_of_mem _ inIds) (mem_cons_self ..)
      (mem_cons_of_mem _ inIds) back above.atOrAfter)
  refine ⟨rfl,{ layout with narrow := ?_, room := ?_ },?_,?_⟩
  · simp only [storeEntry]; omega
  · simp only [storeEntry]; omega
  · simp only [Allowed,if_neg replay]
    exact ⟨owed,later⟩
  simp only [after,if_neg replay,line,Line.mk.injEq]
  exact ⟨stored.trans (insertOrdered_last earlier).symm,rfl,rfl,trivial,rfl,rfl⟩

theorem discard_refines (layout : Layout q) (cutoff : U32) : Refines q (.discardPreemptedThrough cutoff) := by
  simp only [Refines,step,discardPreemptedThrough]
  split
  · exact .inl ⟨rfl,rfl⟩
  rename_i refused
  simp only [not_or,not_not] at refused
  obtain ⟨_,claimed,published,paid,_⟩ := refused
  split
  · exact .inl ⟨rfl,rfl⟩
  rename_i short
  right
  have start := layout.drained paid
  have owed : ledger q = [] := length_eq_zero_iff.mp ((ledger_length layout).trans paid)
  have paging := countPaging_eq q cutoff q.count 0 0
  simp only [Nat.zero_add] at paging
  have configured : ∀ e ∈ discarded cutoff (waiting q), e.submission.kind = .Paging → q.pagingReplayFences ≠ none := by
    intro e mem paged missing
    refine short ⟨?_,.inl missing⟩
    rw [paging]
    have : fence e ∈ pagingFences (discarded cutoff (waiting q)) :=
      mem_map_of_mem (mem_filter.mpr ⟨mem,by simp [paged]⟩)
    exact length_pos_iff.mpr (ne_nil_of_mem this) |>.ne'
  obtain ⟨layout',_,lined⟩ := discardLoop_line cutoff q.count q 0 layout start (le_refl _) configured
  refine ⟨rfl,layout',⟨owed,published,claimed⟩,?_⟩
  rw [lined,owed]
  rfl

def isAccept : Op → Bool
  | .accept .. => true
  | _ => false

/-- The ring position of an accepted entry fits into 32 bits. -/
def Fits (q : Queue) (op : Op) : Prop :=
  (step q op).1 = true → isAccept op = true → q.head + q.count < 2 ^ 32

theorem step_refines (layout : Layout q) (ordered : Ordered (line q)) (op : Op)
    (window : OneWindow ((step q op).2.lastSubmittedFence :: outstanding q)) (fits : Fits q op) : Refines q op := by
  cases op with
  | accept submission token bytes start stop dmaStart dmaStop =>
    exact accept_refines layout ordered submission token bytes start stop dmaStart dmaStop
      (fun accepted => fits accepted rfl) window
  | markPublished f =>
    simp only [Refines,step,markPublished]
    split
    · exact .inl ⟨rfl,rfl⟩
    rename_i refused
    simp only [not_or,not_not] at refused
    obtain ⟨_,_,some,unpublished,paid,named⟩ := refused
    have owed : ledger q = [] := length_eq_zero_iff.mp ((ledger_length layout).trans paid)
    exact .inr ⟨rfl,{ layout with },⟨owed,unpublished,head_named layout some named⟩,rfl⟩
  | claimCompletion f =>
    simp only [Refines,step,claimCompletion]
    split
    · exact .inl ⟨rfl,rfl⟩
    rename_i refused
    simp only [not_or,not_not] at refused
    obtain ⟨_,_,some,unclaimed,named⟩ := refused
    exact .inr ⟨rfl,{ layout with },⟨unclaimed,head_named layout some named⟩,rfl⟩
  | releaseCompletion f =>
    simp only [Refines,step,releaseCompletion]
    split
    · exact .inl ⟨rfl,rfl⟩
    rename_i refused
    simp only [not_or,not_not] at refused
    exact .inr ⟨rfl,{ layout with },refused.2,rfl⟩
  | commitCompletion f =>
    simp only [Refines,step,commitCompletion]
    split
    · exact .inl ⟨rfl,rfl⟩
    rename_i refused
    simp only [not_or,not_not] at refused
    obtain ⟨_,_,some,claimed⟩ := refused
    split
    · exact .inl ⟨rfl,rfl⟩
    rename_i named
    obtain ⟨layout',waits,owes⟩ := popped (p := { clearPublished q f with
      completedFence := f, claimedCompletionFence := 0 }) layout some rfl rfl rfl rfl rfl rfl rfl rfl
    refine .inr ⟨rfl,layout',⟨claimed,head_named layout some (not_not.mp named)⟩,?_⟩
    simp only [line,after,Line.pop,waits,owes]
    rfl
  | commitRetirement f =>
    simp only [Refines,step,commitRetirement]
    split
    · exact .inl ⟨rfl,rfl⟩
    rename_i refused
    simp only [not_or,not_not] at refused
    obtain ⟨_,_,some,claimed⟩ := refused
    split
    · exact .inl ⟨rfl,rfl⟩
    rename_i named
    obtain ⟨layout',waits,owes⟩ := popped (p := { clearPublished q f with claimedCompletionFence := 0 }) layout some
      rfl rfl rfl rfl rfl rfl rfl rfl
    refine .inr ⟨rfl,layout',⟨claimed,head_named layout some (not_not.mp named)⟩,?_⟩
    simp only [line,after,Line.pop,waits,owes]
    rfl
  | discardPreemptedThrough cutoff => exact discard_refines layout cutoff
  | resetPagingReplay quiesced =>
    simp only [Refines,step,resetPagingReplay]
    split
    · exact .inl ⟨rfl,rfl⟩
    rename_i refused
    simp only [not_or,not_not] at refused
    obtain ⟨_,configured,_,unpublished,unclaimed⟩ := refused
    obtain ⟨fences,isFences⟩ := Option.ne_none_iff_exists'.mp configured
    obtain ⟨wide,headIn⟩ := layout.configured configured
    have room := layout.room
    refine .inr ⟨rfl,⟨layout.positive,layout.head,layout.narrow,?_,fun _ => ⟨wide,?_⟩,fun none => ?_,
      fun _ => rfl⟩,⟨unpublished,unclaimed⟩,?_⟩
    · simp only; omega
    · simp only; omega
    · rfl
    simp [line,after,ledger,isFences,waiting,entryAt,entrySlot]
  | complete f =>
    simp only [Refines,step,complete]
    split
    · exact .inl ⟨rfl,rfl⟩
    rename_i refused
    simp only [not_or,not_not] at refused
    obtain ⟨_,some,unclaimed⟩ := refused
    split
    · exact .inl ⟨rfl,rfl⟩
    rename_i named
    obtain ⟨layout',waits,owes⟩ := popped (p := { clearPublished q f with completedFence := f }) layout some
      rfl rfl rfl rfl rfl rfl rfl rfl
    refine .inr ⟨rfl,layout',⟨unclaimed,head_named layout some (not_not.mp named).symm⟩,?_⟩
    simp only [line,after,Line.pop,waits,owes]
    rfl
  | fault f =>
  simp only [Refines,step,fault]
  split
  · exact .inl ⟨rfl,rfl⟩
  rename_i refused
  simp only [not_or,not_not] at refused
  obtain ⟨_,some,unclaimed⟩ := refused
  split
  · exact .inl ⟨rfl,rfl⟩
  rename_i named
  obtain ⟨layout',waits,owes⟩ := popped (p := clearPublished q f) layout some rfl rfl rfl rfl rfl rfl rfl rfl
  refine .inr ⟨rfl,layout',⟨unclaimed,head_named layout some (not_not.mp named).symm⟩,?_⟩
  simp only [line,after,Line.pop,waits,owes]
  rfl

/-- The entry that an accepted call brings into the ring. -/
def entered (q : Queue) (op : Op) : List Entry :=
  if (step q op).1 = true then
    match op with
    | .accept submission token bytes start stop dmaStart dmaStop =>
      [⟨submission,token,bytes,start,stop,dmaStart,dmaStop⟩]
    | _ => []
  else []

/-- The entries that an accepted call takes out of the ring. -/
def departed (q : Queue) (op : Op) : List Entry :=
  if (step q op).1 = true then
    match op with
    | .commitCompletion _ => (waiting q).take 1
    | .commitRetirement _ => (waiting q).take 1
    | .complete _ => (waiting q).take 1
    | .fault _ => (waiting q).take 1
    | .discardPreemptedThrough cutoff => discarded cutoff (waiting q)
    | _ => []
  else []

def enteredRun (q : Queue) : List Op → List Entry
  | [] => []
  | op :: rest => entered q op ++ enteredRun (step q op).2 rest
def departedRun (q : Queue) : List Op → List Entry
  | [] => []
  | op :: rest => departed q op ++ departedRun (step q op).2 rest

/-- The lists after the accepted calls of a run. -/
def lineRun (q : Queue) (a : Line) : List Op → Line
  | [] => a
  | op :: rest => lineRun (step q op).2 (if (step q op).1 = true then after a op else a) rest

/-- The fence ids in use during each call of a run, with a newly submitted one, lie in one half of the number space. -/
def Windowed (q : Queue) : List Op → Prop
  | [] => True
  | op :: rest => OneWindow ((step q op).2.lastSubmittedFence :: outstanding q) ∧ Windowed (step q op).2 rest

def AllFit (q : Queue) : List Op → Prop
  | [] => True
  | op :: rest => Fits q op ∧ AllFit (step q op).2 rest

/-- An initialised queue whose storage starts at any position, with or without a ledger. -/
def start (capacity head : Nat) : Option Nat → Queue
  | none => queueInitialize capacity head
  | some replayCapacity => (configurePagingReplay (queueInitialize capacity head) replayCapacity).2

theorem start_line (capacity head : Nat) (replay : Option Nat) :
    line (start capacity head replay) = ⟨[],[],0,0,0,0⟩ := by
  cases replay with
  | none => rfl
  | some replayCapacity =>
  simp only [start,configurePagingReplay]
  split <;> rfl

theorem start_ordered (capacity head : Nat) (replay : Option Nat) : Ordered (line (start capacity head replay)) := by
  rw [start_line]
  refine ⟨oneWindow_low,by decide,fun f mem => ?_,List.Pairwise.nil,disjoint_nil_right _⟩
  have zero : f = 0 := by simpa using mem
  exact .inl zero.symm

theorem start_layout {capacity head : Nat} (narrow : capacity < 2 ^ 32) (headIn : head < capacity)
    (replay : Option Nat) : Layout (start capacity head replay) := by
  have plain : Layout (queueInitialize capacity head) :=
    ⟨by simp only [queueInitialize]; omega,headIn,by simp only [queueInitialize]; omega,
      by simp [queueInitialize],by simp [queueInitialize],by simp [queueInitialize],by simp [queueInitialize]⟩
  cases replay with
  | none => exact plain
  | some replayCapacity =>
  simp only [start,configurePagingReplay]
  split
  · exact plain
  rename_i refused
  simp only [not_or,not_lt] at refused
  have wide : capacity ≤ replayCapacity := refused.2.2.2.2.2
  refine ⟨plain.positive,headIn,plain.narrow,plain.room,fun _ => ⟨wide,?_⟩,by simp,fun _ => rfl⟩
  simp only [queueInitialize]
  omega

theorem head_split {α : Type*} {entries : List α} {first : α} (head : entries.head? = some first) :
    entries = entries.take 1 ++ entries.tail := by
  cases entries with
  | nil => simp at head
  | cons => rfl

private theorem conserved_step (refines : Refines q op) :
    (waiting q ++ entered q op).Perm (departed q op ++ waiting (step q op).2) := by
  rcases refines with ⟨refused,same⟩ | ⟨accepted,_,allowed,lined⟩
  · simp [entered,departed,refused,same]
  have waits : waiting (step q op).2 = (after (line q) op).waiting := congrArg Line.waiting lined
  have popped : ∀ {f : U32}, ((line q).waiting.map fence).head? = some f →
      (waiting q).Perm ((waiting q).take 1 ++ (waiting q).tail) := fun {f} head => by
    obtain ⟨first,isHead,_⟩ := Option.map_eq_some_iff.mp ((List.head?_map ..).symm.trans head)
    exact List.Perm.of_eq (head_split isHead)
  simp only [entered,departed,accepted,if_true,waits]
  cases op with
  | accept submission token bytes start stop dmaStart dmaStop =>
    have inserted := (insertOrdered_perm ⟨submission,token,bytes,start,stop,dmaStart,dmaStop⟩ (waiting q)).symm
    simp only [after,nil_append]
    split <;> exact (perm_append_singleton _ _).trans inserted
  | markPublished f | claimCompletion f | releaseCompletion f | resetPagingReplay quiesced => simp [after,line]
  | discardPreemptedThrough cutoff =>
    simp only [after,line,append_nil,discarded,preserved,takeWhile_append_dropWhile]
    exact List.Perm.refl _
  | _ => simpa [after,line,Line.pop] using popped allowed.2

theorem ordered_step (ordered : Ordered (line q)) (refines : Refines q op)
    (window : OneWindow ((step q op).2.lastSubmittedFence :: outstanding q)) : Ordered (line (step q op).2) := by
  rcases refines with ⟨_,same⟩ | ⟨_,_,allowed,lined⟩
  · rw [same]; exact ordered
  rw [lined]
  have last : (step q op).2.lastSubmittedFence = (after (line q) op).last := congrArg Line.last lined
  exact ordered_after ordered allowed (last ▸ window)

theorem layout_step (layout : Layout q) (refines : Refines q op) : Layout (step q op).2 := by
  rcases refines with ⟨_,same⟩ | ⟨_,layout',_⟩
  · rw [same]; exact layout
  exact layout'

private theorem refines_run (layout : Layout q) (ordered : Ordered (line q)) (ops : List Op)
    (windowed : Windowed q ops) (fit : AllFit q ops) :
    Layout (run q ops) ∧ Ordered (line (run q ops)) ∧ line (run q ops) = lineRun q (line q) ops ∧
      (waiting q ++ enteredRun q ops).Perm (departedRun q ops ++ waiting (run q ops)) := by
  induction ops generalizing q with
  | nil => exact ⟨layout,ordered,rfl,by simp [enteredRun,departedRun,run]⟩
  | cons op rest ih =>
  have refines := step_refines layout ordered op windowed.1 fit.1
  obtain ⟨layout',ordered',lined,conserved⟩ :=
    ih (layout_step layout refines) (ordered_step ordered refines windowed.1) windowed.2 fit.2
  refine ⟨layout',ordered',?_,?_⟩
  · rw [run,lined,lineRun]
    rcases refines with ⟨refused,same⟩ | ⟨accepted,_,_,followed⟩
    · rw [refused,same]; rfl
    rw [accepted,followed]; rfl
  rw [enteredRun,departedRun,run,← append_assoc,append_assoc (departed q op)]
  refine ((conserved_step refines).append_right _).trans ?_
  rw [append_assoc]
  exact conserved.append_left _

private theorem last_call {ops : List Op} (windowed : Windowed q (ops ++ [op])) (fit : AllFit q (ops ++ [op])) :
    OneWindow ((step (run q ops) op).2.lastSubmittedFence :: outstanding (run q ops)) ∧ Fits (run q ops) op := by
  induction ops generalizing q with
  | nil => exact ⟨windowed.1,fit.1⟩
  | cons first rest ih => exact ih windowed.2 fit.2

/-- A call that accepts the fence again, or resets the ledger. -/
def Pays (f : U32) : Op → Prop
  | .accept submission .. => pagingReplay submission = true ∧ submission.fence = f
  | .resetPagingReplay _ => True
  | _ => False

private theorem paid_step (refines : Refines q op) (owed : f ∈ ledger q)
    (gone : f ∉ ledger (step q op).2) : (step q op).1 = true ∧ Pays f op := by
  rcases refines with ⟨_,same⟩ | ⟨accepted,_,allowed,lined⟩
  · rw [same] at gone
    exact absurd owed gone
  refine ⟨accepted,?_⟩
  have owes : ledger (step q op).2 = (after (line q) op).owed := congrArg Line.owed lined
  rw [owes] at gone
  cases op with
  | accept submission token bytes start stop dmaStart dmaStop =>
    by_cases replay : pagingReplay submission = true
    · simp only [Allowed,if_pos replay] at allowed
      simp only [after,if_pos replay] at gone
      refine ⟨replay,?_⟩
      have head : (ledger q).head? = some submission.fence := allowed.2.1
      rw [head_split head] at owed
      rcases mem_append.mp owed with first | rest
      · cases ledgerIs : ledger q with
        | nil => simp [ledgerIs] at first
        | cons g others => simp_all
      exact absurd rest gone
    simp only [Allowed,if_neg replay] at allowed
    have empty : ledger q = [] := allowed.1
    simp [empty] at owed
  | discardPreemptedThrough cutoff =>
    have empty : ledger q = [] := allowed.1
    simp [empty] at owed
  | resetPagingReplay quiesced => trivial
  | _ => exact absurd owed gone

/-- While ring positions fit into 32 bits, the ring read from its head is the ordered list of the accepted entries that did
    not leave; every accepted entry leaves once or waits, and the ledger takes the discarded paging fences once, in order,
    and gives them back only to the same fence or to a reset. -/
theorem run_refines (capacity head : Nat) (narrow : capacity < 2 ^ 32) (headIn : head < capacity)
    (replay : Option Nat) (ops : List Op) (windowed : Windowed (start capacity head replay) ops)
    (fit : AllFit (start capacity head replay) ops) :
    line (run (start capacity head replay) ops) = lineRun (start capacity head replay) ⟨[],[],0,0,0,0⟩ ops ∧
      Ascending ((waiting (run (start capacity head replay) ops)).map fence) ∧
      (enteredRun (start capacity head replay) ops).Perm
        (departedRun (start capacity head replay) ops ++ waiting (run (start capacity head replay) ops)) ∧
      Ascending (ledger (run (start capacity head replay) ops)) ∧
      (∀ cutoff, (step (run (start capacity head replay) ops) (.discardPreemptedThrough cutoff)).1 = true →
        ledger (run (start capacity head replay) ops) = [] ∧
        ledger (step (run (start capacity head replay) ops) (.discardPreemptedThrough cutoff)).2 =
          pagingFences (discarded cutoff (waiting (run (start capacity head replay) ops)))) ∧
      ∀ op f, Windowed (start capacity head replay) (ops ++ [op]) → AllFit (start capacity head replay) (ops ++ [op]) →
        f ∈ ledger (run (start capacity head replay) ops) →
        f ∉ ledger (step (run (start capacity head replay) ops) op).2 →
        (step (run (start capacity head replay) ops) op).1 = true ∧ Pays f op := by
  obtain ⟨layout,ordered,lined,conserved⟩ := refines_run (start_layout narrow headIn replay)
    (start_ordered capacity head replay) ops windowed fit
  rw [start_line] at lined
  have empty : waiting (start capacity head replay) = [] := congrArg Line.waiting (start_line capacity head replay)
  rw [empty,nil_append] at conserved
  refine ⟨lined,(ascending_cons.mp ordered.chain).2,conserved,ordered.debt,fun cutoff accepted => ?_,?_⟩
  · rcases discard_refines layout cutoff with ⟨refused,_⟩ | ⟨_,_,allowed,followed⟩
    · rw [refused] at accepted
      cases accepted
    · exact ⟨allowed.1,congrArg Line.owed followed⟩
  intro op f windowed' fit' owed gone
  obtain ⟨window,fits⟩ := last_call windowed' fit'
  exact paid_step (step_refines layout ordered op window fits) owed gone

/-- A submission without DMA bytes or private data. -/
def acceptNull (f : U32) : Op := .accept ⟨.Null,f,0,0,0,submissionFlagNullRendering,0,0,0⟩ 0 0 0 0 0 0

/-- A paging submission without private data, new or replayed. -/
def acceptPaging (f flags : U32) : Op := .accept ⟨.Paging,f,0,0,0,flags,0x1000,8,0⟩ 0 0 0 0 0 8

/-- A paging fence is discarded by a preemption and replayed before a preserved entry. -/
def replayOps : List Op :=
  [acceptPaging 1 submissionFlagPaging,acceptNull 2,.discardPreemptedThrough 1,
    acceptPaging 1 (submissionFlagPaging ||| submissionFlagResubmission),.complete 1]

theorem run_refines_replay : (waiting (run (start 2 1 (some 2)) replayOps)).map fence = [2] ∧
    line (run (start 2 1 (some 2)) replayOps) = lineRun (start 2 1 (some 2)) ⟨[],[],0,0,0,0⟩ replayOps :=
  ⟨by decide,(run_refines 2 1 (by decide) (by decide) (some 2) replayOps
    ⟨oneWindow_low,oneWindow_low,oneWindow_low,oneWindow_low,oneWindow_low,trivial⟩
    ⟨fun _ _ => by decide,fun _ _ => by decide,fun _ accept => by (cases accept),fun _ _ => by decide,
      fun _ accept => by (cases accept),trivial⟩).1⟩

/-- The third entry behind the last head of a ring of 2^32 - 1 slots: its position wraps
    around to the slot of the second one. -/
def wrapOps : List Op := [acceptNull 1,acceptNull 2,acceptNull 3]

/-- The second accepted entry is overwritten while it waits. -/
theorem wrapped_position : Windowed (start 4294967295 4294967294 none) wrapOps ∧
    (waiting (run (start 4294967295 4294967294 none) wrapOps)).map fence = [1,3,3] ∧
    ¬ (enteredRun (start 4294967295 4294967294 none) wrapOps).Perm
      (departedRun (start 4294967295 4294967294 none) wrapOps ++
        waiting (run (start 4294967295 4294967294 none) wrapOps)) := by
  have waits : (waiting (run (start 4294967295 4294967294 none) wrapOps)).map fence = [1,3,3] := by decide
  refine ⟨⟨oneWindow_low,oneWindow_low,oneWindow_low,trivial⟩,
    waits,fun perm => ?_⟩
  have fences := perm.map fence
  have accepted : (enteredRun (start 4294967295 4294967294 none) wrapOps).map fence = [1,2,3] := by decide
  have none : departedRun (start 4294967295 4294967294 none) wrapOps = [] := by decide
  rw [accepted,none,nil_append,waits] at fences
  exact absurd fences (by decide)

end WindowsOnM1.SubmissionRing
