import WindowsOnM1.ScanoutModel

/-!
What waits for a receipt access, and what is known once a receipt is accepted.
-/
namespace WindowsOnM1.Scanout
open Attempts List

section
variable {io : Io} {client : Client} {log ext : List Access} {α : Type} {post : Except Result α → World → Prop}

private theorem nowMs_then {next : U64 → Op α} (goes : ∀ now, Leaves (next now) ⟨client,log ++ (ext ++ [.nowMs now])⟩ post) :
    Leaves (nowMs io >>= next) ⟨client,log ++ ext⟩ post := by
  have here := goes (io.nowMs (log ++ ext))
  rw [← append_assoc] at here
  exact here

theorem read32_then {next : U32 → Op α} (register : Register)
    (fails : post (.error .transportFailed) ⟨client,log ++ (ext ++ [.read32 register none])⟩)
    (goes : ∀ value, Leaves (next value) ⟨client,log ++ (ext ++ [.read32 register (some value)])⟩ post) :
    Leaves (read32 io register >>= next) ⟨client,log ++ ext⟩ post := by
  rw [← append_assoc] at fails
  have goes := fun value => append_assoc log ext [.read32 register (some value)] ▸ goes value
  unfold read32
  simp only [leaves_bind,record,leaves_current,leaves_change,Then]
  cases io.read32 (log ++ ext) register.address with
  | none => exact fails
  | some value => exact goes value

theorem read64_then {next : U64 → Op α} (register : Register)
    (fails : post (.error .transportFailed) ⟨client,log ++ (ext ++ [.read64 register none])⟩)
    (goes : ∀ value, Leaves (next value) ⟨client,log ++ (ext ++ [.read64 register (some value)])⟩ post) :
    Leaves (read64 io register >>= next) ⟨client,log ++ ext⟩ post := by
  rw [← append_assoc] at fails
  have goes := fun value => append_assoc log ext [.read64 register (some value)] ▸ goes value
  unfold read64
  simp only [leaves_bind,record,leaves_current,leaves_change,Then]
  cases io.read64 (log ++ ext) register.address with
  | none => exact fails
  | some value => exact goes value

variable {next : PUnit → Op α}

theorem setClient_then (update : Client → Client)
    (goes : Leaves (next ⟨⟩) ⟨update client,log ++ ext⟩ post) : Leaves (setClient update >>= next) ⟨client,log ++ ext⟩ post := by
  exact goes
theorem current_then {next : World → Op α} {world : World} (goes : Leaves (next world) world post) :
    Leaves (current >>= next) world post := by
  exact goes

private theorem pause_then (skips : Leaves (next ⟨⟩) ⟨client,log ++ ext⟩ post)
    (fails : post (.error .transportFailed) ⟨client,log ++ (ext ++ [.pause false])⟩)
    (goes : Leaves (next ⟨⟩) ⟨client,log ++ (ext ++ [.pause true])⟩ post) :
    Leaves (pause io >>= next) ⟨client,log ++ ext⟩ post := by
  rw [← append_assoc] at fails goes
  unfold pause
  simp only [leaves_bind,leaves_current,Then]
  cases io.pause with
  | none => exact skips
  | some pauses =>
  simp only [leaves_bind,record,leaves_change,Then,leaves_stopIf]
  cases pauses (log ++ ext) with
  | false => exact ⟨fun _ => fails,fun some => absurd rfl some⟩
  | true => exact ⟨nofun,fun _ => goes⟩

/-- The accesses of writes that are done, up to one that fails. -/
inductive Stored : List Store → Bool → List Access → Prop
  | none : Stored [] true []
  | fails (first : Store) (rest : List Store) : Stored (first :: rest) false [.write first false]
  | goes (first : Store) {rest : List Store} {all : Bool} {accesses : List Access} (stored : Stored rest all accesses) :
    Stored (first :: rest) all (.write first true :: accesses)

theorem store_leaves {post : Except Result PUnit → World → Prop} (first : Store)
    (fails : post (.error .transportFailed) ⟨client,log ++ [.write first false]⟩)
    (goes : post (.ok ⟨⟩) ⟨client,log ++ [.write first true]⟩) : Leaves (store io first) ⟨client,log⟩ post := by
  unfold store
  simp only [leaves_bind,record,leaves_current,leaves_change,Then,leaves_stopIf]
  cases io.stores log first with
  | false => exact ⟨fun _ => fails,fun some => absurd rfl some⟩
  | true => exact ⟨nofun,fun _ => goes⟩

private theorem storeAll_leaves {post : Except Result PUnit → World → Prop} (stores : List Store)
    (fails : ∀ accesses, Stored stores false accesses → post (.error .transportFailed) ⟨client,log ++ accesses⟩)
    (goes : post (.ok ⟨⟩) ⟨client,log ++ stores.map (Access.write · true)⟩) :
    Leaves (storeAll io stores) ⟨client,log⟩ post := by
  induction stores generalizing log with
  | nil =>
    rw [map_nil,append_nil] at goes
    exact goes
  | cons first rest ih =>
  rw [storeAll,leaves_bind]
  refine store_leaves first (fails _ (.fails first rest)) (ih (fun accesses stored => ?_) ?_)
  · rw [append_assoc]
    exact fails _ (.goes first stored)
  rw [append_assoc]
  exact goes

theorem storeAll_then (stores : List Store)
    (fails : ∀ accesses, Stored stores false accesses → post (.error .transportFailed) ⟨client,log ++ (ext ++ accesses)⟩)
    (goes : Leaves (next ⟨⟩) ⟨client,log ++ (ext ++ stores.map (Access.write · true))⟩ post) :
    Leaves (storeAll io stores >>= next) ⟨client,log ++ ext⟩ post := by
  rw [leaves_bind]
  refine storeAll_leaves stores (fun accesses stored => ?_) ?_
  · rw [append_assoc]
    exact fails accesses stored
  rw [append_assoc]
  exact goes

end

def Access.isWrite : Access → Bool
  | .write _ _ => true
  | _ => false
def Access.isReceipt : Access → Bool
  | .read64 .receiptSequence _ => true
  | _ => false

/-- A receipt for a sequence, with the state of its command, read before the deadline. -/
structure Received (sequence : U64) (kind : WaitKind) (surfaceOffset deadline : U64) (swapId : U32) (accesses : List Access) :
    Prop where
  reads : ∃ before now behind, accesses = before ++ [.read64 .receiptSequence (some sequence),.read32 .result (some brokerOk),
    .read32 .state (some kind.state),.read64 .appliedSequence (some sequence),.nowMs now] ++ behind ∧ now ≤ deadline
  surface : kind = .present → swapId ≠ 0 ∧ ∃ before now, accesses = before ++ [.read64 .activeOffset (some surfaceOffset),
    .read32 .swapId (some swapId),.nowMs now] ∧ now ≤ deadline

theorem Received.later {sequence surfaceOffset deadline : U64} {kind : WaitKind} {swapId : U32} {accesses : List Access}
    (received : Received sequence kind surfaceOffset deadline swapId accesses) (earlier : List Access) :
    Received sequence kind surfaceOffset deadline swapId (earlier ++ accesses) := by
  obtain ⟨⟨before,now,behind,same,early⟩,surface⟩ := received
  refine ⟨⟨earlier ++ before,now,behind,by rw [same]; simp,early⟩,fun present => ?_⟩
  obtain ⟨some,before,now,same,early⟩ := surface present
  exact ⟨some,earlier ++ before,now,by rw [same]; simp,early⟩

/-- What a wait leaves: it only reads, pauses and looks at the clock, and asks for a receipt a limited number of times. -/
structure Waited (client : Client) (log : List Access) (polls : Nat) (left : World) (accesses : List Access) : Prop where
  log : left.log = log ++ accesses
  quiet : ∀ access ∈ accesses, access.isWrite = false
  polls : accesses.countP Access.isReceipt ≤ polls
  client : ∃ result, left.client = { client with lastBrokerResult := result }

section
variable {io : Io} {client : Client} {log ext : List Access}

private theorem checkClock_then {α : Type} {post : Except Result α → World → Prop} {next : PUnit → Op α} {start deadline : U64}
    (fails : ∀ now reason, post (.error reason) ⟨client,log ++ (ext ++ [.nowMs now])⟩)
    (goes : ∀ now, now ≤ deadline → Leaves (next ⟨⟩) ⟨client,log ++ (ext ++ [.nowMs now])⟩ post) :
    Leaves (checkClock io start deadline >>= next) ⟨client,log ++ ext⟩ post := by
  rw [leaves_bind]
  apply nowMs_then
  intro now
  apply Leaves.check
  · intro back
    exact fails now _
  intro on
  rw [leaves_stopIf]
  constructor
  · intro late
    exact fails now _
  intro early
  exact goes now (BitVec.not_lt.mp early)

def Polled (client : Client) (log : List Access) (sequence : U64) (kind : WaitKind) (surfaceOffset deadline : U64)
    (answer : Except Result (Option U32)) (left : World) : Prop :=
  ∃ accesses, Waited client log 1 left accesses ∧
    ∀ swapId, answer = .ok (some swapId) → Received sequence kind surfaceOffset deadline swapId accesses

variable {kind : WaitKind} {left : World} {accesses : List Access}

private theorem polled_error {sequence surfaceOffset deadline : U64}
    (reason : Result) (waited : Waited client log 1 left accesses) :
    Polled client log sequence kind surfaceOffset deadline (.error reason) left :=
  ⟨accesses,waited,nofun⟩

private theorem waited_reads (same : left.log = log ++ ext) (kept : ∃ result, left.client = { client with lastBrokerResult := result })
    (quiet : ext.all (fun access => !access.isWrite) = true) (once : ext.countP Access.isReceipt ≤ 1) :
    Waited client log 1 left ext := by
  refine ⟨same,fun access mem => ?_,once,kept⟩
  have here := all_eq_true.mp quiet access mem
  simpa using here

private theorem poll_leaves (sequence : U64) (kind : WaitKind) (surfaceOffset start deadline : U64) :
    Leaves (poll io sequence kind surfaceOffset start deadline) ⟨client,log ++ []⟩
      (Polled client log sequence kind surfaceOffset deadline) := by
  apply read64_then
  · exact polled_error _ (waited_reads rfl ⟨_,rfl⟩ rfl (Nat.le_refl 1))
  intro receipt
  apply read32_then
  · exact polled_error _ (waited_reads rfl ⟨_,rfl⟩ rfl (Nat.le_refl 1))
  intro result
  apply read32_then
  · exact polled_error _ (waited_reads rfl ⟨_,rfl⟩ rfl (Nat.le_refl 1))
  intro state
  apply read64_then
  · exact polled_error _ (waited_reads rfl ⟨_,rfl⟩ rfl (Nat.le_refl 1))
  intro applied
  apply checkClock_then
  · intro now reason
    exact polled_error _ (waited_reads rfl ⟨_,rfl⟩ rfl (Nat.le_refl 1))
  intro now early
  apply setClient_then
  have waited : Waited client log 1 ⟨{ client with lastBrokerResult := result },log ++ [.read64 .receiptSequence (some receipt),
      .read32 .result (some result),.read32 .state (some state),.read64 .appliedSequence (some applied),.nowMs now]⟩ _ :=
    waited_reads rfl ⟨result,rfl⟩ rfl (Nat.le_refl 1)
  apply Leaves.check
  · intro ahead
    exact polled_error _ waited
  intro reached
  split
  · rename_i own
    apply Leaves.check
    · intro refused
      exact polled_error _ waited
    intro accepted
    apply Leaves.check
    · intro unapplied
      exact polled_error _ waited
    intro same
    apply Leaves.check
    · intro other
      exact polled_error _ waited
    intro settled
    rw [not_not] at accepted same settled
    subst own accepted same settled
    split
    · rename_i present
      apply read64_then
      · exact polled_error _ (waited_reads rfl ⟨_,rfl⟩ rfl (Nat.le_refl 1))
      intro active
      apply read32_then
      · exact polled_error _ (waited_reads rfl ⟨_,rfl⟩ rfl (Nat.le_refl 1))
      intro swapId
      apply checkClock_then
      · intro now' reason
        exact polled_error _ (waited_reads rfl ⟨_,rfl⟩ rfl (Nat.le_refl 1))
      intro now' early'
      apply Leaves.check
      · intro other
        exact polled_error _ (waited_reads rfl ⟨_,rfl⟩ rfl (Nat.le_refl 1))
      intro shown
      obtain ⟨shown,swapped⟩ := not_or.mp shown
      rw [not_not] at shown
      subst shown
      refine ⟨_,waited_reads rfl ⟨_,rfl⟩ rfl (Nat.le_refl 1),fun swapId' same => ?_⟩
      cases same
      exact ⟨⟨[],now,_,rfl,early⟩,fun _ => ⟨swapped,[_,_,_,_,_],now',rfl,early'⟩⟩
    rename_i other
    refine ⟨_,waited,fun swapId' same => ?_⟩
    exact ⟨⟨[],now,[],rfl,early⟩,fun present => absurd present other⟩
  apply Leaves.check
  · intro refused
    exact polled_error _ waited
  intro unanswered
  exact ⟨_,waited,nofun⟩

theorem Waited.append {polls : Nat} {between left : World} {accesses later : List Access} (first : Waited client log 1 between accesses)
    (rest : Waited between.client between.log polls left later) : Waited client log (polls + 1) left (accesses ++ later) := by
  obtain ⟨result,kept⟩ := first.client
  obtain ⟨result',kept'⟩ := rest.client
  constructor
  · rw [rest.log,first.log,append_assoc]
  · intro access mem
    rcases mem_append.mp mem with mem | mem
    · exact first.quiet access mem
    exact rest.quiet access mem
  · rw [countP_append]
    have one := first.polls
    have others := rest.polls
    omega
  exact ⟨result',by rw [kept',kept]⟩

theorem Waited.mono {fewer polls : Nat} (waited : Waited client log fewer left accesses)
    (le : fewer ≤ polls) : Waited client log polls left accesses := { waited with polls := waited.polls.trans le }

/-- What a wait leaves, with or without a receipt. -/
def Awaited (client : Client) (log : List Access) (polls : Nat) (sequence : U64) (kind : WaitKind) (surfaceOffset deadline : U64)
    (answer : Except Result U32) (left : World) : Prop :=
  ∃ accesses, Waited client log polls left accesses ∧
    ∀ swapId, answer = .ok swapId → Received sequence kind surfaceOffset deadline swapId accesses

private theorem awaited_error {polls : Nat} {sequence surfaceOffset deadline : U64}
    (reason : Result) (waited : Waited client log polls left accesses) :
    Awaited client log polls sequence kind surfaceOffset deadline (.error reason) left :=
  ⟨accesses,waited,nofun⟩

private theorem waited_pause (paused : Bool) (waited : Waited client log 1 left accesses) :
    Waited client log 1 ⟨left.client,left.log ++ [.pause paused]⟩ (accesses ++ [.pause paused]) := by
  constructor
  · rw [waited.log,append_assoc]
  · intro access mem
    rcases mem_append.mp mem with mem | mem
    · exact waited.quiet access mem
    rw [mem_singleton.mp mem]
    rfl
  · rw [countP_append]
    exact waited.polls
  exact waited.client

private theorem waitPolls_leaves (sequence : U64) (kind : WaitKind) (surfaceOffset start deadline : U64) (polls : Nat) :
    Leaves (waitPolls io sequence kind surfaceOffset start deadline polls) ⟨client,log⟩
      (Awaited client log polls sequence kind surfaceOffset deadline) := by
  induction polls generalizing client log with
  | zero => exact awaited_error _ ⟨(append_nil log).symm,fun _ mem => absurd mem not_mem_nil,Nat.le_refl 0,_,rfl⟩
  | succ polls ih =>
  have here := @poll_leaves io client log sequence kind surfaceOffset start deadline
  rw [append_nil] at here
  apply here.bind
  · intro reason left polled
    obtain ⟨accesses,waited,-⟩ := polled
    exact awaited_error _ (waited.mono (by omega))
  intro seen left polled
  obtain ⟨accesses,waited,received⟩ := polled
  cases seen with
  | some swapId =>
    refine ⟨accesses,waited.mono (by omega),fun swapId' same => ?_⟩
    cases same
    exact received swapId rfl
  | none =>
  have goes : ∀ between later, Waited client log 1 between later →
      Leaves (waitPolls io sequence kind surfaceOffset start deadline polls) between
        (Awaited client log (polls + 1) sequence kind surfaceOffset deadline) := by
    intro between later first
    refine ih.mono (fun answer left' awaited => ?_)
    obtain ⟨accesses',rest,received'⟩ := awaited
    exact ⟨_,first.append rest,fun swapId same => (received' swapId same).later later⟩
  apply Leaves.check
  · intro last
    exact awaited_error _ (waited.mono (by omega))
  intro more
  have kept : left = ⟨left.client,left.log ++ []⟩ := by rw [append_nil]
  rw [kept]
  apply pause_then
  · rw [← kept]
    exact goes left accesses waited
  · exact awaited_error _ ((waited_pause false waited).mono (by omega))
  exact goes _ _ (waited_pause true waited)

theorem waitForReceipt_leaves (sequence : U64) (kind : WaitKind) (surfaceOffset deadline : U64) :
    Leaves (waitForReceipt io sequence kind surfaceOffset deadline) ⟨client,log ++ ext⟩
      (Awaited client (log ++ ext) client.maxPolls.toNat sequence kind surfaceOffset deadline) := by
  apply nowMs_then
  intro now
  have quiet : ∀ access ∈ [Access.nowMs now], access.isWrite = false := by simp [Access.isWrite]
  apply Leaves.check
  · intro late
    exact awaited_error _ ⟨(append_assoc log ext _).symm,quiet,Nat.zero_le _,_,rfl⟩
  intro early
  apply current_then
  refine waitPolls_leaves sequence kind surfaceOffset now deadline _ |>.mono (fun answer left awaited => ?_)
  obtain ⟨accesses,waited,received⟩ := awaited
  refine ⟨[.nowMs now] ++ accesses,⟨by rw [waited.log]; simp,fun access mem => ?_,?_,waited.client⟩,
    fun swapId same => (received swapId same).later _⟩
  · rcases mem_append.mp mem with mem | mem
    · exact quiet access mem
    exact waited.quiet access mem
  have polls := waited.polls
  simpa [Access.isReceipt] using polls

end

end WindowsOnM1.Scanout
