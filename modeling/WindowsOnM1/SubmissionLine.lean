import WindowsOnM1.SubmissionModel

/-!
The submission queue as two lists: the entries that wait, in order, and the fences
that are owed a replay. `after` says what an accepted call does to the lists; the
lemmas here say when a call is accepted and that the ring and the ledger in memory
follow the lists, as long as ring positions do not leave 32 bits.
-/
namespace WindowsOnM1.SubmissionLine
open SerialOrder SubmissionModel List

structure Line where
  waiting : List Entry
  owed : List U32
  completed : U32
  last : U32
  published : U32
  claimed : U32

abbrev fence (entry : Entry) : U32 := entry.submission.fence

/-- The entry goes before the first entry that is after it. -/
def insertOrdered (entry : Entry) (entries : List Entry) : List Entry :=
  entries.takeWhile (fun e => !fenceAfter (fence e) (fence entry)) ++
    entry :: entries.dropWhile (fun e => !fenceAfter (fence e) (fence entry))

/-- The entries of a list that a discard through `cutoff` removes and keeps. -/
def discarded (cutoff : U32) (entries : List Entry) : List Entry :=
  entries.takeWhile (fun e => !fenceAfter (fence e) cutoff)
def preserved (cutoff : U32) (entries : List Entry) : List Entry :=
  entries.dropWhile (fun e => !fenceAfter (fence e) cutoff)

/-- The paging fences among some entries. -/
def pagingFences (entries : List Entry) : List U32 :=
  (entries.filter (fun e => e.submission.kind = .Paging)).map fence

/-- The head leaves, and is published no more. -/
def Line.pop (a : Line) (f : U32) : Line :=
  { a with waiting := a.waiting.tail, published := if a.published = f then 0 else a.published }

/-- What an accepted call does to the lists. -/
def after (a : Line) : Op → Line
  | .accept submission token bytes start stop dmaStart dmaStop =>
    let entry : Entry := ⟨submission,token,bytes,start,stop,dmaStart,dmaStop⟩
    if pagingReplay submission then { a with waiting := insertOrdered entry a.waiting, owed := a.owed.tail }
    else { a with waiting := insertOrdered entry a.waiting, last := submission.fence }
  | .markPublished f => { a with published := f }
  | .claimCompletion f => { a with claimed := f }
  | .releaseCompletion _ => { a with claimed := 0 }
  | .commitCompletion f => { a.pop f with completed := f, claimed := 0 }
  | .commitRetirement f => { a.pop f with claimed := 0 }
  | .discardPreemptedThrough cutoff => { a with
      waiting := preserved cutoff a.waiting, owed := pagingFences (discarded cutoff a.waiting) }
  | .resetPagingReplay _ => { a with owed := [] }
  | .complete f => { a.pop f with completed := f }
  | .fault f => a.pop f

def line (q : Queue) : Line where
  waiting := waiting q
  owed := ledger q
  completed := q.completedFence
  last := q.lastSubmittedFence
  published := q.publishedFence
  claimed := q.claimedCompletionFence

/-- The indices are in their arrays, ring positions fit into 32 bits, and the ring has room for every owed fence. -/
structure Layout (q : Queue) : Prop where
  positive : 0 < q.capacity
  head : q.head < q.capacity
  narrow : q.head + q.count ≤ 2 ^ 32
  room : q.count + q.pagingReplayCount ≤ q.capacity
  configured : q.pagingReplayFences ≠ none →
    q.capacity ≤ q.pagingReplayCapacity ∧ q.pagingReplayHead < q.pagingReplayCapacity
  unconfigured : q.pagingReplayFences = none → q.pagingReplayCount = 0
  drained : q.pagingReplayCount = 0 → q.pagingReplayHead = 0

theorem fenceAfter_iff (a b : U32) : fenceAfter a b = true ↔ After a b := after_iff_distance a b _ rfl

variable {q : Queue}

theorem entrySlot_eq {i : Nat} (fits : q.head + i < 2 ^ 32) : entrySlot q i = RingBuffer.slot q.capacity q.head i := by
  rw [entrySlot,Nat.mod_eq_of_lt fits,RingBuffer.slot]

theorem waiting_eq (narrow : q.head + q.count ≤ 2 ^ 32) :
    waiting q = RingBuffer.contents q.entries q.capacity q.head q.count := by
  apply map_congr_left
  intro i inside
  have below := mem_range.mp inside
  rw [entryAt,entrySlot_eq (by omega)]

@[simp] theorem waiting_length (q : Queue) : (waiting q).length = q.count := by simp [waiting]

theorem ledger_length (layout : Layout q) : (ledger q).length = q.pagingReplayCount := by
  unfold ledger
  cases fences : q.pagingReplayFences with
  | none => simp [layout.unconfigured fences]
  | some fences => simp

section
variable (layout : Layout q) (some : q.count ≠ 0)
include layout some

theorem waiting_head : waiting q = q.entries q.head :: (waiting q).tail := by
  obtain ⟨n,count⟩ := Nat.exists_eq_succ_of_ne_zero some
  have cons := RingBuffer.contents_cons q.entries q.capacity q.head n
  rw [waiting_eq layout.narrow,count,Nat.succ_eq_add_one,cons]
  simp [RingBuffer.slot,Nat.mod_eq_of_lt layout.head]

theorem pop_waiting : waiting (popHead q) = (waiting q).tail := by
  obtain ⟨n,count⟩ := Nat.exists_eq_succ_of_ne_zero some
  have narrow := layout.narrow
  have room := layout.room
  have advance : (q.head + 1) % q.capacity ≤ q.head + 1 := Nat.mod_le _ _
  have written := RingBuffer.contents_write_head q.entries layout.head (by omega : n < q.capacity) entryZero
  have head : RingBuffer.slot q.capacity q.head 0 = q.head := Nat.mod_eq_of_lt layout.head
  rw [head] at written
  rw [waiting_eq (q := popHead q) (by simp only [popHead]; omega),waiting_eq narrow]
  simp only [popHead,count,Nat.succ_eq_add_one,Nat.add_sub_cancel,written,
    RingBuffer.contents_cons q.entries q.capacity q.head n,tail_cons]

theorem pop_layout : Layout (popHead q) := by
  have narrow := layout.narrow
  have room := layout.room
  have advance : (q.head + 1) % q.capacity ≤ q.head + 1 := Nat.mod_le _ _
  refine { layout with head := Nat.mod_lt _ layout.positive, narrow := ?_, room := ?_ }
  all_goals simp only [popHead]; omega

private theorem pop_line : line (popHead q) = { line q with waiting := (waiting q).tail } := by
  rw [line,pop_waiting layout some]
  rfl

end

/-- The scan finds the place before the first entry after the fence, and refuses a fence that is in the ring. -/
private theorem scanReplay_eq (q : Queue) (f : U32) (turns index insertOffset : Nat) (whole : index + turns = q.count) :
    scanReplay q f turns index insertOffset =
      if ∃ e ∈ (List.range turns).map (fun j => entryAt q (index + j)), fence e = f then none
      else some (if insertOffset = q.count then
        index + ((List.range turns).map (fun j => entryAt q (index + j))).findIdx
          (fun e => fenceAfter (fence e) f) else insertOffset) := by
  induction turns generalizing index insertOffset with
  | zero => simp [scanReplay]; omega
  | succ turns ih =>
  rw [ArrayCells.map_range_add,scanReplay]
  split
  · rename_i same
    rw [if_pos ⟨_,mem_cons_self ..,same⟩]
  rename_i same
  rw [ih (index + 1) _ (by omega)]
  by_cases found : ∃ e ∈ (range turns).map (fun j => entryAt q (index + 1 + j)), fence e = f
  · obtain ⟨e,mem,isFence⟩ := found
    rw [if_pos ⟨e,mem,isFence⟩,if_pos ⟨e,mem_cons_of_mem _ mem,isFence⟩]
  have absent : ¬ ∃ e ∈ entryAt q index ::
      (range turns).map (fun j => entryAt q (index + 1 + j)), fence e = f := by
    rintro ⟨e,mem,isFence⟩
    rcases mem_cons.mp mem with rfl | mem
    · exact same isFence
    exact found ⟨e,mem,isFence⟩
  rw [if_neg found,if_neg absent,findIdx_cons]
  congr 1
  by_cases unset : insertOffset = q.count
  · by_cases later : fenceAfter (entryAt q index).submission.fence f = true
    · have early : index ≠ q.count := by omega
      simp [unset,later,early]
    simp [unset,later]
    omega
  simp [unset]

theorem scanReplay_waiting (q : Queue) (f : U32) : scanReplay q f q.count 0 q.count =
      if ∃ e ∈ waiting q, fence e = f then none else some ((waiting q).findIdx (fun e => fenceAfter (fence e) f)) := by
  rw [scanReplay_eq q f q.count 0 q.count (Nat.zero_add _),if_pos rfl]
  simp only [Nat.zero_add]
  rfl

theorem store_waiting (layout : Layout q) (fits : q.head + q.count < 2 ^ 32)
    (room : q.count < q.capacity) {place : Nat} (behind : place ≤ q.count) (entry : Entry) :
    waiting (storeEntry q place entry) = (waiting q).take place ++ entry :: (waiting q).drop place := by
  have slots : ∀ i ≤ q.count, entrySlot q i = RingBuffer.slot q.capacity q.head i := fun i below =>
    entrySlot_eq (by omega)
  have gap := RingBuffer.openGap_congr place (q.count - place) q.entries
    (fun i below => slots i (by omega))
  rw [waiting_eq (q := storeEntry q place entry) (by simp only [storeEntry]; omega),waiting_eq layout.narrow]
  simp only [storeEntry,shiftEntries,slots place behind,gap]
  exact RingBuffer.contents_insert layout.head room behind entry

theorem insertOrdered_eq (entry : Entry) (entries : List Entry) : insertOrdered entry entries =
      entries.take (entries.findIdx (fun e => fenceAfter (fence e) (fence entry))) ++
        entry :: entries.drop (entries.findIdx (fun e => fenceAfter (fence e) (fence entry))) := by
  rw [insertOrdered,takeWhile_eq_take_findIdx_not,dropWhile_eq_drop_findIdx_not]
  simp

variable {fences : Nat → U32}

theorem ledger_configured (configured : q.pagingReplayFences = some fences) :
    ledger q = RingBuffer.contents fences q.pagingReplayCapacity q.pagingReplayHead q.pagingReplayCount := by
  rw [ledger,configured]

theorem payReplay_ledger (layout : Layout q)
    (configured : q.pagingReplayFences = some fences) (some : q.pagingReplayCount ≠ 0) :
    ledger (payReplay q) = (ledger q).tail := by
  obtain ⟨n,count⟩ := Nat.exists_eq_succ_of_ne_zero some
  obtain ⟨wide,head⟩ := layout.configured (by simp [configured])
  have room := layout.room
  have pays : (payReplay q).pagingReplayFences = .some (Function.update fences q.pagingReplayHead 0) := by
    simp [payReplay,configured]
  rw [ledger_configured pays,ledger_configured configured]
  have first : RingBuffer.slot q.pagingReplayCapacity q.pagingReplayHead 0 = q.pagingReplayHead :=
    Nat.mod_eq_of_lt head
  have written := RingBuffer.contents_write_head fences head (by omega : n < q.pagingReplayCapacity) 0
  rw [first] at written
  simp only [payReplay,count,Nat.succ_eq_add_one,Nat.add_sub_cancel,RingBuffer.contents_cons,tail_cons]
  by_cases last : n = 0
  · simp [last]
  rw [if_neg last,written]

theorem payReplay_layout (layout : Layout q) (configured : q.pagingReplayFences ≠ none)
    (narrow : q.head + q.count ≤ 2 ^ 32) : Layout (payReplay q) := by
  obtain ⟨wide,head⟩ := layout.configured configured
  have room := layout.room
  refine ⟨layout.positive,layout.head,narrow,?_,fun _ => ⟨wide,?_⟩,fun none => ?_,fun drained => ?_⟩
  · simp only [payReplay]; omega
  · simp only [payReplay]
    split_ifs
    · omega
    exact Nat.mod_lt _ (by omega)
  · simp [payReplay,configured] at none
  simp only [payReplay] at drained ⊢
  rw [if_pos drained]

private theorem owePaging_ledger (layout : Layout q) (start : q.pagingReplayHead = 0) (entry : Entry)
    (room : q.count ≠ 0) (configured : entry.submission.kind = .Paging → q.pagingReplayFences ≠ none) :
    ledger (owePaging q entry) = ledger q ++ pagingFences [entry] := by
  unfold owePaging pagingFences
  by_cases paging : entry.submission.kind = .Paging
  · obtain ⟨fences,isFences⟩ := Option.ne_none_iff_exists'.mp (configured paging)
    obtain ⟨wide,head⟩ := layout.configured (configured paging)
    have fits := layout.room
    have pushed := RingBuffer.contents_push fences head
      (by omega : q.pagingReplayCount < q.pagingReplayCapacity) (fence entry)
    have slot : RingBuffer.slot q.pagingReplayCapacity q.pagingReplayHead q.pagingReplayCount =
        q.pagingReplayCount := by
      rw [RingBuffer.slot,start,Nat.zero_add,Nat.mod_eq_of_lt (by omega)]
    rw [slot] at pushed
    rw [if_pos paging,ledger_configured isFences]
    simp only [ledger,isFences,Option.map_some,pushed]
    simp [paging]
  simp [paging]

/-- One turn of the discard: the head goes to the ledger if it is a paging entry, and leaves the ring. -/
private theorem discardTurn (layout : Layout q) (start : q.pagingReplayHead = 0) (some : q.count ≠ 0)
    (configured : (q.entries q.head).submission.kind = .Paging → q.pagingReplayFences ≠ none) :
    Layout (popHead (owePaging q (q.entries q.head))) ∧ (popHead (owePaging q (q.entries q.head))).pagingReplayHead = 0 ∧
      ((popHead (owePaging q (q.entries q.head))).pagingReplayFences = none ↔ q.pagingReplayFences = none) ∧
      (popHead (owePaging q (q.entries q.head))).count = q.count - 1 ∧
      line (popHead (owePaging q (q.entries q.head))) = { line q with
        waiting := (waiting q).tail, owed := ledger q ++ pagingFences [q.entries q.head] } := by
  have owed := owePaging_ledger layout start (q.entries q.head) some configured
  have popped := pop_waiting layout some
  have rest := pop_layout layout some
  have room := layout.room
  generalize q.entries q.head = entry at configured owed ⊢
  by_cases paging : entry.submission.kind = .Paging
  · have wide := (layout.configured (configured paging))
    simp only [owePaging,if_pos paging] at owed ⊢
    have narrow : (q.head + 1) % q.capacity + (q.count - 1) ≤ 2 ^ 32 := rest.narrow
    refine ⟨⟨layout.positive,rest.head,narrow,?_,fun _ => wide,fun none => ?_,fun drained => ?_⟩,start,?_,rfl,?_⟩
    · simp only [popHead]; omega
    · simp [popHead,configured paging] at none
    · simp [popHead] at drained
    · simp [popHead]
    rw [← owed]
    simp only [line,Line.mk.injEq]
    exact ⟨popped,rfl,rfl,rfl,rfl,rfl⟩
  simp only [owePaging,if_neg paging] at owed ⊢
  refine ⟨rest,start,Iff.rfl,rfl,?_⟩
  rw [← owed,pop_line layout some]
  rfl

/-- The discard loop removes the entries up to the cutoff and owes their paging fences;
    the entries in the ring bound its turns. -/
theorem discardLoop_line (cutoff : U32) (turns : Nat) : ∀ (q : Queue) (count : Nat), Layout q →
    q.pagingReplayHead = 0 → q.count ≤ turns →
    (∀ e ∈ discarded cutoff (waiting q), e.submission.kind = .Paging → q.pagingReplayFences ≠ none) →
    Layout (discardLoop cutoff turns q count).2 ∧
      (discardLoop cutoff turns q count).1 = count + (discarded cutoff (waiting q)).length ∧
      line (discardLoop cutoff turns q count).2 = { line q with
        waiting := preserved cutoff (waiting q)
        owed := ledger q ++ pagingFences (discarded cutoff (waiting q)) } := by
  induction turns with
  | zero =>
    intro q count layout start enough configured
    have empty : waiting q = [] := length_eq_zero_iff.mp (by rw [waiting_length]; omega)
    refine ⟨layout,?_,?_⟩
    · simp [discardLoop,discarded,empty]
    simp [discardLoop,discarded,preserved,pagingFences,line,empty]
  | succ turns ih =>
  intro q count layout start enough configured
  rw [discardLoop]
  by_cases none : q.count = 0
  · have empty : waiting q = [] := length_eq_zero_iff.mp ((waiting_length q).trans none)
    rw [if_pos none]
    refine ⟨layout,by simp [discarded,empty],?_⟩
    simp [discarded,preserved,pagingFences,line,empty]
  rw [if_neg none]
  have split := waiting_head layout none
  by_cases later : fenceAfter (headFence q) cutoff = true
  · have stop : fenceAfter (fence (q.entries q.head)) cutoff = true := later
    rw [if_pos later,split]
    refine ⟨layout,by simp [discarded,stop],?_⟩
    simp only [discarded,preserved,takeWhile_cons,dropWhile_cons,stop,Bool.not_true,Bool.false_eq_true,if_false]
    rw [← split]
    simp [line,pagingFences]
  have goes : fenceAfter (fence (q.entries q.head)) cutoff = false := Bool.eq_false_iff.mpr later
  have taken : discarded cutoff (waiting q) = q.entries q.head :: discarded cutoff (waiting q).tail := by
    rw [split]
    simp [discarded,goes]
  have kept : preserved cutoff (waiting q) = preserved cutoff (waiting q).tail := by
    rw [split]
    simp [preserved,goes]
  rw [if_neg later]
  rw [taken] at configured
  obtain ⟨layout',start',same,fewer,flowed⟩ :=
    discardTurn layout start none (configured _ (mem_cons_self ..))
  have tail : waiting (popHead (owePaging q (q.entries q.head))) = (waiting q).tail :=
    congrArg Line.waiting flowed
  have owed : ledger (popHead (owePaging q (q.entries q.head))) =
      ledger q ++ pagingFences [q.entries q.head] := congrArg Line.owed flowed
  obtain ⟨layout'',counted,lined⟩ := ih _ (count + 1) layout' start' (by omega) (fun e mem paging => by
    rw [tail] at mem
    exact fun missing => configured e (mem_cons_of_mem _ mem) paging (same.mp missing))
  refine ⟨layout'',?_,?_⟩
  · rw [counted,tail,taken,length_cons]; omega
  rw [lined,flowed,tail,owed,taken,kept,append_assoc,pagingFences,pagingFences,pagingFences,← map_append,← filter_append]
  rfl

theorem countPaging_eq (q : Queue) (cutoff : U32) (turns index paging : Nat) : countPaging q cutoff turns index paging =
      paging + (pagingFences (discarded cutoff ((List.range turns).map (fun j => entryAt q (index + j))))).length := by
  induction turns generalizing index paging with
  | zero => simp [countPaging,discarded,pagingFences]
  | succ turns ih =>
  rw [ArrayCells.map_range_add,countPaging]
  by_cases later : fenceAfter (entryAt q index).submission.fence cutoff = true
  · simp [discarded,pagingFences,later]
  have goes : fenceAfter (entryAt q index).submission.fence cutoff = false := Bool.eq_false_iff.mpr later
  rw [if_neg later,ih]
  by_cases paged : (entryAt q index).submission.kind = .Paging
  · simp [discarded,pagingFences,goes,paged]; omega
  simp [discarded,pagingFences,goes,paged]

end WindowsOnM1.SubmissionLine
