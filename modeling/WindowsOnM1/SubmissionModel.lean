import WindowsOnM1.ArrayCells
import WindowsOnM1.RingBuffer
import WindowsOnM1.SerialOrder

/-!
The submission queue of `apple_agx_submission.c`: a ring of accepted entries in the
caller's storage and a ledger of the paging fences that a preemption discarded. Ring
positions are computed in 32-bit arithmetic, as in the code. An operation returns
what the C function returns and the queue it leaves; a refused operation leaves the
queue as it was.
-/
namespace WindowsOnM1.SubmissionModel

abbrev U32 := BitVec 32
abbrev U64 := BitVec 64

inductive SubmissionKind
  | Invalid
  | Gdi
  | Paging
  | ContextSwitch
  | Null
deriving DecidableEq

/-- `APPLE_AGX_SUBMISSION`. -/
structure Submission where
  kind : SubmissionKind
  fence : U32
  nodeOrdinal : U32
  engineOrdinal : U32
  segmentId : U32
  flags : U32
  dmaAddress : U64
  dmaBytes : U32
  reserved : U32
deriving DecidableEq

/-- `APPLE_AGX_SUBMISSION_ENTRY`. -/
structure Entry where
  submission : Submission
  privateDataToken : U64
  privateDataBytes : U32
  privateDataStart : U32
  privateDataEnd : U32
  dmaSubmissionStart : U32
  dmaSubmissionEnd : U32
deriving DecidableEq

def submissionFlagPaging : U32 := 0x001
def submissionFlagNullRendering : U32 := 0x008
def submissionFlagResubmission : U32 := 0x080

/-- `AppleAgxSubmissionEntryZero`. -/
def entryZero : Entry := ⟨⟨.Invalid,0,0,0,0,0,0,0,0⟩,0,0,0,0,0,0⟩

/-- `APPLE_AGX_SUBMISSION_QUEUE`; the ledger is `none` until it is configured. -/
structure Queue where
  entries : Nat → Entry
  capacity : Nat
  head : Nat
  count : Nat
  completedFence : U32
  lastSubmittedFence : U32
  publishedFence : U32
  claimedCompletionFence : U32
  pagingReplayFences : Option (Nat → U32)
  pagingReplayCapacity : Nat
  pagingReplayHead : Nat
  pagingReplayCount : Nat

def fenceAfter (candidate reference : U32) : Bool :=
  let distance := candidate - reference
  distance != 0 && distance < 0x80000000#32
def fenceAtOrAfter (candidate reference : U32) : Bool := candidate == reference || fenceAfter candidate reference

/-- `AppleAgxSubmissionQueueInitialize` over zeroed storage, with the head anywhere. -/
def queueInitialize (capacity head : Nat) : Queue where
  entries _ := entryZero
  capacity := capacity
  head := head
  count := 0
  completedFence := 0
  lastSubmittedFence := 0
  publishedFence := 0
  claimedCompletionFence := 0
  pagingReplayFences := none
  pagingReplayCapacity := 0
  pagingReplayHead := 0
  pagingReplayCount := 0

def configurePagingReplay (q : Queue) (replayCapacity : Nat) : Bool × Queue :=
  if q.capacity = 0 ∨ q.count ≠ 0 ∨ q.publishedFence ≠ 0 ∨ q.claimedCompletionFence ≠ 0 ∨
      q.pagingReplayFences.isSome ∨ replayCapacity < q.capacity then (false,q)
  else (true,{ q with pagingReplayFences := some (fun _ => 0), pagingReplayCapacity := replayCapacity })

/-- `(Head + index) % Capacity`. -/
def entrySlot (q : Queue) (index : Nat) : Nat := (q.head + index) % 2 ^ 32 % q.capacity
def entryAt (q : Queue) (index : Nat) : Entry := q.entries (entrySlot q index)

/-- The fence at the head of the ledger. -/
def replayHeadFence (q : Queue) : Option U32 := q.pagingReplayFences.map (fun fences => fences q.pagingReplayHead)

/-- A paging packet that carries RESUBMISSION. -/
def pagingReplay (submission : Submission) : Bool :=
  submission.kind == .Paging && submission.flags &&& submissionFlagResubmission != 0

/-- The first loop of a replay insertion: the place before the first entry after the
    fence, or `none` when the fence is in the ring. -/
def scanReplay (q : Queue) (fence : U32) : (turns index insertOffset : Nat) → Option Nat
  | 0, _, insertOffset => some insertOffset
  | turns+1, index, insertOffset =>
    if (entryAt q index).submission.fence = fence then none
    else scanReplay q fence turns (index + 1)
      (if insertOffset = q.count ∧ fenceAfter (entryAt q index).submission.fence fence then index else insertOffset)

/-- The second loop: the entries from `insertOffset` on move one slot back. -/
def shiftEntries (q : Queue) (insertOffset : Nat) : Nat → Entry :=
  RingBuffer.openGap (entrySlot q) insertOffset (q.count - insertOffset) q.entries

/-- The conditions on the data of a submission. -/
def acceptable (submission : Submission) (privateDataToken : U64)
    (privateDataBytes privateDataStart privateDataEnd dmaSubmissionStart dmaSubmissionEnd : U32) : Bool :=
  submission.kind != .Invalid && submission.reserved == 0 &&
    privateDataStart ≤ privateDataEnd && privateDataEnd ≤ privateDataBytes &&
    dmaSubmissionStart ≤ dmaSubmissionEnd && dmaSubmissionEnd - dmaSubmissionStart == submission.dmaBytes &&
    !(submission.kind == .Gdi && (privateDataToken == 0 || privateDataBytes == 0 ||
      privateDataStart != 0 || privateDataEnd == 0)) &&
    ((privateDataToken == 0) == (privateDataBytes == 0))

/-- The conditions on the fence of a submission. -/
def fenceAdmitted (q : Queue) (submission : Submission) : Bool :=
  if pagingReplay submission then
    fenceAfter submission.fence q.completedFence && !fenceAfter submission.fence q.lastSubmittedFence
  else q.pagingReplayCount == 0 && fenceAfter submission.fence q.lastSubmittedFence

/-- The entry is stored and counted. -/
def storeEntry (q : Queue) (insertOffset : Nat) (entry : Entry) : Queue := { q with
  entries := Function.update (shiftEntries q insertOffset) (entrySlot q insertOffset) entry
  count := q.count + 1 }

def payReplay (q : Queue) : Queue := { q with
  pagingReplayFences := q.pagingReplayFences.map (fun fences => Function.update fences q.pagingReplayHead 0)
  pagingReplayHead := if q.pagingReplayCount - 1 = 0 then 0
    else (q.pagingReplayHead + 1) % q.pagingReplayCapacity
  pagingReplayCount := q.pagingReplayCount - 1 }

def accept (q : Queue) (submission : Submission) (privateDataToken : U64)
    (privateDataBytes privateDataStart privateDataEnd dmaSubmissionStart dmaSubmissionEnd : U32) : Bool × Queue :=
  let entry : Entry := ⟨submission,privateDataToken,privateDataBytes,privateDataStart,privateDataEnd,
    dmaSubmissionStart,dmaSubmissionEnd⟩
  if q.capacity = 0 ∨ q.capacity ≤ q.count ∨ ¬ fenceAdmitted q submission ∨
      ¬ acceptable submission privateDataToken privateDataBytes privateDataStart privateDataEnd
        dmaSubmissionStart dmaSubmissionEnd then (false,q)
  else if pagingReplay submission then
    if q.pagingReplayCount = 0 ∨ replayHeadFence q ≠ some submission.fence then (false,q)
    else match scanReplay q submission.fence q.count 0 q.count with
      | none => (false,q)
      | some insertOffset => (true,payReplay (storeEntry q insertOffset entry))
  else (true,{ storeEntry q q.count entry with lastSubmittedFence := submission.fence })

def headFence (q : Queue) : U32 := (q.entries q.head).submission.fence
def markPublished (q : Queue) (fence : U32) : Bool × Queue :=
  if fence = 0 ∨ q.capacity = 0 ∨ q.count = 0 ∨ q.publishedFence ≠ 0 ∨ q.pagingReplayCount ≠ 0 ∨
      headFence q ≠ fence then (false,q)
  else (true,{ q with publishedFence := fence })
def claimCompletion (q : Queue) (fence : U32) : Bool × Queue :=
  if fence = 0 ∨ q.capacity = 0 ∨ q.count = 0 ∨ q.claimedCompletionFence ≠ 0 ∨ headFence q ≠ fence then (false,q)
  else (true,{ q with claimedCompletionFence := fence })
def releaseCompletion (q : Queue) (fence : U32) : Bool × Queue :=
  if fence = 0 ∨ q.claimedCompletionFence ≠ fence then (false,q)
  else (true,{ q with claimedCompletionFence := 0 })

/-- The head entry is zeroed and leaves the ring. -/
def popHead (q : Queue) : Queue := { q with
  entries := Function.update q.entries q.head entryZero
  head := (q.head + 1) % q.capacity
  count := q.count - 1 }

/-- The fence is no longer published. -/
def clearPublished (q : Queue) (fence : U32) : Queue :=
  { q with publishedFence := if q.publishedFence = fence then 0 else q.publishedFence }
def commitCompletion (q : Queue) (fence : U32) : Bool × Queue :=
  if fence = 0 ∨ q.capacity = 0 ∨ q.count = 0 ∨ q.claimedCompletionFence ≠ fence then (false,q)
  else if headFence q ≠ fence then (false,q)
  else (true,popHead { clearPublished q fence with completedFence := fence, claimedCompletionFence := 0 })
def commitRetirement (q : Queue) (fence : U32) : Bool × Queue :=
  if fence = 0 ∨ q.capacity = 0 ∨ q.count = 0 ∨ q.claimedCompletionFence ≠ fence then (false,q)
  else if headFence q ≠ fence then (false,q)
  else (true,popHead { clearPublished q fence with claimedCompletionFence := 0 })

/-- The first loop of a discard counts the paging entries up to the cutoff. -/
def countPaging (q : Queue) (cutoff : U32) : (turns index paging : Nat) → Nat
  | 0, _, paging => paging
  | turns+1, index, paging =>
    if fenceAfter (entryAt q index).submission.fence cutoff then paging
    else countPaging q cutoff turns (index + 1)
      (if (entryAt q index).submission.kind = .Paging then paging + 1 else paging)

/-- A paging fence goes to the end of the ledger. -/
def owePaging (q : Queue) (entry : Entry) : Queue :=
  if entry.submission.kind = .Paging then { q with
    pagingReplayFences := q.pagingReplayFences.map
      (fun fences => Function.update fences q.pagingReplayCount entry.submission.fence)
    pagingReplayCount := q.pagingReplayCount + 1 }
  else q

/-- The second loop of a discard, with the entries it discarded; `turns` bounds the
    turns and the entries in the ring are enough (`discardLoop_stops`). -/
def discardLoop (cutoff : U32) : (turns : Nat) → Queue → Nat → Nat × Queue
  | 0, q, discarded => (discarded,q)
  | turns+1, q, discarded =>
    if q.count = 0 then (discarded,q)
    else if fenceAfter (headFence q) cutoff then (discarded,q)
    else discardLoop cutoff turns (popHead (owePaging q (q.entries q.head))) (discarded + 1)

/-- `AppleAgxSubmissionQueueDiscardPreemptedThrough`, with the discarded count. -/
def discardPreemptedThrough (q : Queue) (cutoff : U32) : Option Nat × Queue :=
  if q.capacity = 0 ∨ q.claimedCompletionFence ≠ 0 ∨ q.publishedFence ≠ 0 ∨ q.pagingReplayCount ≠ 0 ∨
      ¬ fenceAtOrAfter cutoff q.completedFence then (none,q)
  else
    let paging := countPaging q cutoff q.count 0 0
    if paging ≠ 0 ∧ (q.pagingReplayFences = none ∨ q.pagingReplayCapacity < paging) then (none,q)
    else (some (discardLoop cutoff q.count q 0).1,(discardLoop cutoff q.count q 0).2)

def resetPagingReplay (q : Queue) (quiesced : Bool) : Bool × Queue :=
  if ¬ quiesced ∨ q.pagingReplayFences = none ∨ q.pagingReplayCapacity = 0 ∨ q.publishedFence ≠ 0 ∨
      q.claimedCompletionFence ≠ 0 then (false,q)
  else (true,{ q with
    pagingReplayFences := q.pagingReplayFences.map
      (fun fences index => if index < q.pagingReplayCapacity then 0 else fences index)
    pagingReplayHead := 0
    pagingReplayCount := 0 })

def complete (q : Queue) (fence : U32) : Bool × Queue :=
  if q.capacity = 0 ∨ q.count = 0 ∨ q.claimedCompletionFence ≠ 0 then (false,q)
  else if fence ≠ headFence q then (false,q)
  else (true,popHead { clearPublished q fence with completedFence := fence })
def fault (q : Queue) (fence : U32) : Bool × Queue :=
  if q.capacity = 0 ∨ q.count = 0 ∨ q.claimedCompletionFence ≠ 0 then (false,q)
  else if fence ≠ headFence q then (false,q)
  else (true,popHead (clearPublished q fence))

/-- The calls that work on an initialised queue. -/
inductive Op
  | accept (submission : Submission) (privateDataToken : U64)
      (privateDataBytes privateDataStart privateDataEnd dmaSubmissionStart dmaSubmissionEnd : U32)
  | markPublished (fence : U32)
  | claimCompletion (fence : U32)
  | releaseCompletion (fence : U32)
  | commitCompletion (fence : U32)
  | commitRetirement (fence : U32)
  | discardPreemptedThrough (cutoff : U32)
  | resetPagingReplay (quiesced : Bool)
  | complete (fence : U32)
  | fault (fence : U32)

/-- One call: whether it was accepted, and the queue it leaves. -/
def step (q : Queue) : Op → Bool × Queue
  | .accept submission token bytes start stop dmaStart dmaStop =>
    accept q submission token bytes start stop dmaStart dmaStop
  | .markPublished fence => markPublished q fence
  | .claimCompletion fence => claimCompletion q fence
  | .releaseCompletion fence => releaseCompletion q fence
  | .commitCompletion fence => commitCompletion q fence
  | .commitRetirement fence => commitRetirement q fence
  | .discardPreemptedThrough cutoff =>
    ((discardPreemptedThrough q cutoff).1.isSome,(discardPreemptedThrough q cutoff).2)
  | .resetPagingReplay quiesced => resetPagingReplay q quiesced
  | .complete fence => complete q fence
  | .fault fence => fault q fence

/-- The queue after a sequence of calls. -/
def run (q : Queue) : List Op → Queue
  | [] => q
  | op :: rest => run (step q op).2 rest
def waiting (q : Queue) : List Entry := (List.range q.count).map (entryAt q)

/-- The fences read from the head of the ledger. -/
def ledger (q : Queue) : List U32 :=
  match q.pagingReplayFences with
  | none => []
  | some fences => RingBuffer.contents fences q.pagingReplayCapacity q.pagingReplayHead q.pagingReplayCount

/-- Every fence id the queue holds, with its two watermarks. -/
def outstanding (q : Queue) : List U32 :=
  q.completedFence :: q.lastSubmittedFence :: ((waiting q).map (fun entry => entry.submission.fence) ++ ledger q)

end WindowsOnM1.SubmissionModel
