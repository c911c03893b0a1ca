import WindowsOnM1.ScanoutReceipts

/-!
What one call of the scanout client may do, and what it keeps for the next one.
-/
namespace WindowsOnM1.Scanout
open Attempts List

def Access.request : Access → Option U64
  | .write (.write64 .requestSequence sequence) _ => some sequence
  | _ => none

/-- The sequences written to the request register, also by writes that failed. -/
def requests (accesses : List Access) : List U64 := accesses.filterMap Access.request

/-- The pool that the device was told last. -/
def pooledBy (poolBytes : U64) (step : Step) : U64 :=
  match step.call with
  | .registerPool _ bytes _ => if .write (.write32 .command commandRegisterPool) true ∈ step.accesses then bytes else poolBytes
  | _ => poolBytes

/-- The queued present that no interrupt has reported yet. -/
def pendingBy (pending : Option U64) (step : Step) : Option U64 :=
  match step.answer with
  | .ok (.queued sequence) => some sequence
  | .ok (.interrupt status latched) => if status &&& irqLatched ≠ 0 ∧ pending = some latched then none else pending
  | _ => pending

/-- A command that was written with a sequence of its own, and a receipt for it behind. -/
def Completed (stores : U64 → List Store) (kind : WaitKind) (surfaceOffset deadline : U64) (swapId : U32) (accesses : List Access) :
    Prop :=
  ∃ sequence behind, accesses = (stores sequence).map (Access.write · true) ++ behind ∧
    Received sequence kind surfaceOffset deadline swapId behind

def registerStores (poolIpa poolBytes sequence : U64) : List Store :=
  [.write64 .poolIpa poolIpa,.write64 .poolSize poolBytes,.write64 .requestSequence sequence,.write32 .command commandRegisterPool]
def releaseStores (sequence : U64) : List Store := [.write64 .requestSequence sequence,.write32 .command commandRelease]

/-- What a call that answers Ok has read. -/
def Confirmed (step : Step) : Prop :=
  match step.call, step.answer with
  | .registerPool poolIpa poolBytes deadline, .ok _ =>
    ∃ swapId, Completed (registerStores poolIpa poolBytes) .register 0 deadline swapId step.accesses
  | .presentApplied surfaceOffset deadline, .ok reply =>
    ∃ swapId, reply = .applied swapId ∧ Completed (presentStores surfaceOffset) .present surfaceOffset deadline swapId step.accesses
  | .release deadline, .ok _ => ∃ swapId, Completed releaseStores .release 0 deadline swapId step.accesses
  | _, _ => True

/-- A present command, which stands behind the writes of a surface inside the pool. -/
def Presented (poolBytes : U64) (done : Bool) (accesses : List Access) : Prop :=
  ∃ surfaceOffset sequence behind, surfaceOffset.toNat + surfaceSizeJ313.toNat ≤ poolBytes.toNat ∧
    accesses = (presentStores surfaceOffset sequence).dropLast.map (Access.write · true) ++
      .write (.write32 .command commandPresent) done :: behind

/-- The version and the capabilities that the last qualification read, while it was answered Ok. -/
def knownBy (known : Option (U32 × U32)) (step : Step) : Option (U32 × U32) :=
  match step.call,step.answer,step.accesses with
  | .qualify,.ok _,[_,.read32 _ (some version),.read32 _ (some capabilities)] => some (version,capabilities)
  | .qualify,_,_ => none
  | _,_,_ => known

/-- `AppleAgxScanoutTakeSequence` leaves it. -/
def following (sequence : U64) : U64 := if sequence = BitVec.allOnes 64 then 0 else sequence + 1

def Call.command : Call → Option U32
  | .registerPool _ _ _ => some commandRegisterPool
  | .presentApplied _ _ | .queuePresent _ => some commandPresent
  | .release _ => some commandRelease
  | .qualify | .consumeInterrupt => none

/-- The next sequence, 0 when none is left: a command takes one before its first write. -/
def nextBy (next : U64) (step : Step) : U64 :=
  if step.call.command.isSome ∧ step.accesses ≠ [] then following next else next

/-- What a run has come to by its calls. -/
structure Ledger where
  poolBytes : U64 := 0
  pending : Option U64 := none
  known : Option (U32 × U32) := none
  next : U64
def Ledger.after (ledger : Ledger) (step : Step) : Ledger :=
  ⟨pooledBy ledger.poolBytes step,pendingBy ledger.pending step,knownBy ledger.known step,nextBy ledger.next step⟩

/-- A present that can be queued: of an aligned surface inside the pool, on a device of the second version, while none
    is pending and a sequence is left. -/
structure Acceptable (ledger : Ledger) (surfaceOffset : U64) : Prop where
  aligned : surfaceOffset &&& (alignment - 1) = 0
  inside : surfaceOffset.toNat + surfaceSizeJ313.toNat ≤ ledger.poolBytes.toNat
  known : ∃ capabilities, ledger.known = some (2,capabilities) ∧ capabilities &&& v2PresentCapabilities = v2PresentCapabilities
  free : ledger.pending = none
  left : ledger.next ≠ 0

/-- The rules for one call, by what the calls before it came to. -/
structure Follows (maxPolls : U32) (ledger : Ledger) (step : Step) : Prop where
  confirmed : Confirmed step
  presented : ∀ done, .write (.write32 .command commandPresent) done ∈ step.accesses →
    Presented ledger.poolBytes done step.accesses
  busy : ∀ surfaceOffset, step.call = .queuePresent surfaceOffset → ledger.pending.isSome →
    (∃ reason, step.answer = .error reason) ∧ step.accesses = []
  accepted : ∀ surfaceOffset, step.call = .queuePresent surfaceOffset → Acceptable ledger surfaceOffset →
    (∀ store, .write store false ∉ step.accesses) → step.answer = .ok (.queued ledger.next)
  refused : ∀ surfaceOffset, step.call = .queuePresent surfaceOffset →
    (¬ Acceptable ledger surfaceOffset ∨ ∃ store, .write store false ∈ step.accesses) → ∃ reason, step.answer = .error reason
  polls : step.accesses.countP Access.isReceipt ≤ maxPolls.toNat

def pendingOf (client : Client) : Option U64 := if client.presentPending then some client.pendingPresentSequence else none
def knownOf (client : Client) : Option (U32 × U32) :=
  if client.qualified then some (client.abiVersion,client.capabilities) else none
def Client.ledger (client : Client) : Ledger := ⟨client.poolBytes,pendingOf client,knownOf client,client.nextSequence⟩

/-- Every sequence used so far is below it. -/
def bound (nextSequence : U64) : Nat := if nextSequence = 0 then 2^64 else nextSequence.toNat

private theorem bound_following {sequence : U64} (some : sequence ≠ 0) : bound sequence = sequence.toNat ∧ bound (following sequence) = sequence.toNat + 1 := by
  unfold bound following
  constructor
  · rw [if_neg some]
  split
  · rename_i last
    subst last
    decide
  rename_i inner
  have inner' : sequence.toNat ≠ 2^64 - 1 := fun same => inner (BitVec.eq_of_toNat_eq (by rw [same]; decide))
  have next : (sequence + 1).toNat = sequence.toNat + 1 := by
    exact Nat.mod_eq_of_lt (by simp; omega)
  rw [if_neg,next]
  intro zero
  rw [zero] at next
  simp at next

/-- What a call leaves for the next one. -/
structure Kept (client : Client) (step : Step) (left : Client) : Prop where
  follows : Follows client.maxPolls client.ledger step
  maxPolls : left.maxPolls = client.maxPolls
  ledger : left.ledger = client.ledger.after step
  fresh : ∀ sequence ∈ requests step.accesses, bound client.nextSequence ≤ sequence.toNat ∧ sequence.toNat < bound left.nextSequence
  single : (requests step.accesses).length ≤ 1
  later : bound client.nextSequence ≤ bound left.nextSequence

def Acts (call : Call) (client : Client) (log : List Access) (answer : Except Result Reply) (left : World) : Prop :=
  ∃ accesses, left.log = log ++ accesses ∧ Kept client ⟨call,answer,accesses⟩ left.client

/-- The writes of a call, without the command itself. -/
def Call.front (sequence : U64) : Call → List Store
  | .registerPool poolIpa poolBytes _ => (registerStores poolIpa poolBytes sequence).dropLast
  | .presentApplied surfaceOffset _ | .queuePresent surfaceOffset => (presentStores surfaceOffset sequence).dropLast
  | .release _ => (releaseStores sequence).dropLast
  | .qualify | .consumeInterrupt => []

def Call.surface : Call → Option U64
  | .presentApplied surfaceOffset _ | .queuePresent surfaceOffset => some surfaceOffset
  | _ => none

/-- The pool behind a command that was written. -/
def Call.pool (poolBytes : U64) : Call → U64
  | .registerPool _ bytes _ => bytes
  | _ => poolBytes

/-- What a call has checked before it writes. -/
structure Checked (call : Call) (client : Client) : Prop where
  inside : ∀ surfaceOffset, call.surface = some surfaceOffset → ¬ OutsidePool client surfaceOffset
  acceptable : ∀ surfaceOffset, call = .queuePresent surfaceOffset → Acceptable client.ledger surfaceOffset
  sequence : client.nextSequence ≠ 0

private theorem front_command (call : Call) (sequence : U64) (command : U32) : .write32 .command command ∉ call.front sequence := by
  cases call <;> simp [Call.front,registerStores,presentStores,releaseStores]

private theorem front_requests {call : Call} {command : U32} (sequence : U64) (commands : call.command = some command) :
    requests ((call.front sequence).map (Access.write · true)) = [sequence] := by
  cases call with
  | qualify | consumeInterrupt => cases commands
  | registerPool | presentApplied | queuePresent | release => rfl

theorem requests_append (first rest : List Access) : requests (first ++ rest) = requests first ++ requests rest :=
  filterMap_append
private theorem requests_cons (first : Access) (rest : List Access) : requests (first :: rest) = requests [first] ++ requests rest :=
  requests_append [first] rest

variable {accesses : List Access}

private theorem requests_quiet (quiet : ∀ access ∈ accesses, access.isWrite = false) : requests accesses = [] := by
  refine filterMap_eq_nil_iff.mpr (fun access mem => ?_)
  have here := quiet access mem
  cases access with
  | write => cases here
  | nowMs | read32 | read64 | pause => rfl

variable {first : Store} {done : Bool}

private theorem mem_quiet (quiet : ∀ access ∈ accesses, access.isWrite = false) :
    .write first done ∉ accesses := fun mem => by cases quiet _ mem

variable {stores : List Store} {all : Bool}

theorem Stored.requests (stored : Stored stores all accesses) :
    (requests accesses).Sublist (Scanout.requests (stores.map (Access.write · true))) := by
  induction stored with
  | none => exact List.Sublist.refl _
  | fails first rest =>
    rw [map_cons,requests_cons (.write first true)]
    have same : Scanout.requests [.write first false] = Scanout.requests [.write first true] := by
      cases first with
      | write32 => rfl
      | write64 register => cases register <;> rfl
    rw [same]
    exact sublist_append_left _ _
  | @goes first rest all accesses stored ih =>
  rw [map_cons,requests_cons _ accesses,requests_cons _ (rest.map _)]
  exact (List.Sublist.refl _).append ih

theorem Stored.mem (stored : Stored stores all accesses) (mem : .write first done ∈ accesses) : first ∈ stores := by
  induction stored with
  | none => cases mem
  | fails last rest =>
    cases mem_singleton.mp mem
    exact mem_cons_self
  | goes last stored ih =>
  rcases mem_cons.mp mem with mem | mem
  · cases mem
    exact mem_cons_self
  exact mem_cons_of_mem last (ih mem)

theorem Stored.last {front : List Store} {last : Store} (new : last ∉ front)
    (stored : Stored (front ++ [last]) false accesses) (mem : .write last done ∈ accesses) :
    done = false ∧ accesses = front.map (Access.write · true) ++ [.write last done] := by
  induction front generalizing accesses with
  | nil =>
    cases stored with
    | fails =>
      rw [mem_singleton] at mem
      cases mem
      exact ⟨rfl,rfl⟩
    | goes _ stored => cases stored
  | cons first rest ih =>
  obtain ⟨head,tail⟩ := not_or.mp (fun either => new (mem_cons.mpr either))
  cases stored with
  | fails =>
    rw [mem_singleton] at mem
    cases mem
    exact absurd rfl head
  | goes _ stored =>
  rcases mem_cons.mp mem with mem | mem
  · cases mem
    exact absurd rfl head
  obtain ⟨failed,shape⟩ := ih tail stored mem
  exact ⟨failed,by rw [shape]; rfl⟩

theorem Stored.receipts (stored : Stored stores all accesses) : accesses.countP Access.isReceipt = 0 := by
  induction stored with
  | goes _ _ ih => exact (countP_cons_of_neg (by simp [Access.isReceipt])).trans ih
  | _ => rfl
private theorem receipts_map (stores : List Store) : (stores.map (Access.write · true)).countP Access.isReceipt = 0 :=
  countP_eq_zero.mpr (fun access mem => by obtain ⟨_,_,rfl⟩ := mem_map.mp mem; simp [Access.isReceipt])

private theorem inside_pool {client : Client} {surfaceOffset : U64} (inside : ¬ OutsidePool client surfaceOffset) :
    surfaceOffset.toNat + surfaceSizeJ313.toNat ≤ client.poolBytes.toNat := by
  obtain ⟨-,room⟩ := not_or.mp inside
  obtain ⟨large,fits⟩ := not_or.mp room
  have large := BitVec.le_def.mp (BitVec.not_lt.mp large)
  have fits := BitVec.le_def.mp (BitVec.not_lt.mp fits)
  rw [BitVec.toNat_sub_of_le (BitVec.le_def.mpr large)] at fits
  omega

private theorem knownOf_eq {client : Client} {version capabilities : U32} :
    knownOf client = some (version,capabilities) ↔
      client.qualified = true ∧ client.abiVersion = version ∧ client.capabilities = capabilities := by
  unfold knownOf
  split <;> simp_all

/-- The checks of `AppleAgxScanoutQueuePresent`. -/
private theorem acceptable_iff {client : Client} {surfaceOffset : U64} : Acceptable client.ledger surfaceOffset ↔
    ¬ OutsidePool client surfaceOffset ∧ client.qualified = true ∧ ¬ LacksV2 client ∧ client.presentPending = false ∧
      client.nextSequence ≠ 0 := by
  constructor
  · rintro ⟨aligned,inside,⟨capabilities,known,has⟩,free,left⟩
    obtain ⟨qualified,version,rfl⟩ := knownOf_eq.mp known
    refine ⟨?_,qualified,fun lacks => lacks.elim (absurd version) (absurd has),?_,left⟩
    · have large : surfaceSizeJ313 ≤ client.poolBytes := BitVec.le_def.mpr ((Nat.le_add_left _ _).trans inside)
      rintro (other | small | beyond)
      · exact other aligned
      · exact absurd large (BitVec.not_le.mpr small)
      rw [gt_iff_lt,BitVec.lt_def,BitVec.toNat_sub_of_le large] at beyond
      exact absurd inside (by show ¬ _ ≤ client.poolBytes.toNat; omega)
    by_contra pending
    simp [Client.ledger,pendingOf,pending] at free
  rintro ⟨inside,qualified,has,free,left⟩
  obtain ⟨version,capable⟩ := not_or.mp has
  exact ⟨not_not.mp (not_or.mp inside).1,inside_pool inside,
    ⟨_,knownOf_eq.mpr ⟨qualified,not_not.mp version,rfl⟩,not_not.mp capable⟩,by simp [Client.ledger,pendingOf,free],left⟩

private theorem ledger_after {client left : Client} {step : Step} (pool : left.poolBytes = pooledBy client.poolBytes step)
    (pending : pendingOf left = pendingBy (pendingOf client) step) (known : knownOf left = knownBy (knownOf client) step)
    (next : left.nextSequence = nextBy client.nextSequence step) : left.ledger = client.ledger.after step := by
  rw [Client.ledger,pool,pending,known,next]
  rfl

theorem Stored.failed (stored : Stored stores all accesses) (failed : all = false) : ∃ store, .write store false ∈ accesses := by
  induction stored with
  | none => cases failed
  | fails first rest => exact ⟨first,mem_cons_self⟩
  | goes first stored ih =>
  obtain ⟨store,mem⟩ := ih failed
  exact ⟨store,mem_cons_of_mem _ mem⟩

private theorem known_command {call : Call} {command : U32} (commands : call.command = some command) (known : Option (U32 × U32))
    (answer : Except Result Reply) (accesses : List Access) : knownBy known ⟨call,answer,accesses⟩ = known := by
  cases call with
  | qualify | consumeInterrupt => cases commands
  | registerPool | presentApplied | queuePresent | release => rfl

section
variable {call : Call} {command : U32} {client : Client} {accesses : List Access}

variable {done : Bool} {behind : List Access}

private theorem presented_of (checked : Checked call client) (commands : call.command = some commandPresent) :
    Presented client.poolBytes done ((call.front client.nextSequence).map (Access.write · true) ++
      .write (.write32 .command commandPresent) done :: behind) := by
  cases call with
  | qualify | consumeInterrupt => cases commands
  | registerPool | release => exact absurd (Option.some.inj commands) (by decide)
  | presentApplied surfaceOffset deadline | queuePresent surfaceOffset =>
  exact ⟨surfaceOffset,client.nextSequence,behind,inside_pool (checked.inside surfaceOffset rfl),rfl⟩

private theorem fresh_of (sequence : client.nextSequence ≠ 0) {left : Client} (next : left.nextSequence = following client.nextSequence)
    (sub : (requests accesses).Sublist [client.nextSequence]) :
    (∀ sequence ∈ requests accesses, bound client.nextSequence ≤ sequence.toNat ∧ sequence.toNat < bound left.nextSequence) ∧
      (requests accesses).length ≤ 1 ∧ bound client.nextSequence ≤ bound left.nextSequence := by
  obtain ⟨here,there⟩ := bound_following sequence
  rw [next,here,there]
  refine ⟨fun used mem => ?_,sub.length_le,by omega⟩
  rw [mem_singleton.mp (sub.subset mem)]
  omega

variable {command' : U32}

private theorem command_of_mem (quiet : ∀ access ∈ behind, access.isWrite = false)
    (mem : .write (.write32 .command command') done ∈ (call.front client.nextSequence ++ [Store.write32 .command command]).map (Access.write · true) ++ behind) :
    command' = command ∧ done = true := by
  rcases mem_append.mp mem with mem | mem
  · obtain ⟨written,among,same⟩ := mem_map.mp mem
    cases same
    rcases mem_append.mp among with among | among
    · exact absurd among (front_command call _ _)
    cases mem_singleton.mp among
    exact ⟨rfl,rfl⟩
  exact absurd mem (mem_quiet quiet)

private theorem command_of_stored
    (stored : Stored (call.front client.nextSequence ++ [Store.write32 .command command]) false accesses)
    (mem : .write (.write32 .command command') done ∈ accesses) : command' = command ∧ done = false ∧
      accesses = (call.front client.nextSequence).map (Access.write · true) ++ [.write (.write32 .command command') done] := by
  have same : command' = command := by
    rcases mem_append.mp (stored.mem mem) with among | among
    · exact absurd among (front_command call _ _)
    cases mem_singleton.mp among
    rfl
  subst same
  exact ⟨rfl,stored.last (front_command call _ _) mem⟩

private theorem kept_failed (checked : Checked call client) (commands : call.command = some command)
    (stored : Stored (call.front client.nextSequence ++ [Store.write32 .command command]) false accesses) :
    Kept client ⟨call,.error .transportFailed,accesses⟩ { client with nextSequence := following client.nextSequence } := by
  have sub := stored.requests
  rw [map_append,requests_append,front_requests _ commands] at sub
  obtain ⟨fresh,single,later⟩ :=
    @fresh_of client accesses checked.sequence { client with nextSequence := following client.nextSequence } rfl sub
  constructor
  · constructor
    · cases call <;> trivial
    · intro done mem
      obtain ⟨rfl,-,shape⟩ := command_of_stored stored mem
      rw [shape]
      exact presented_of checked commands
    · intro surfaceOffset same pending
      rw [(checked.acceptable surfaceOffset same).free] at pending
      cases pending
    · intro surfaceOffset same acceptable all
      obtain ⟨store,mem⟩ := stored.failed rfl
      exact absurd mem (all store)
    · exact fun _ _ _ => ⟨_,rfl⟩
    rw [stored.receipts]
    exact Nat.zero_le _
  · rfl
  · refine ledger_after ?_ rfl (known_command commands _ _ _).symm ?_
    · unfold pooledBy
      split
      · rw [if_neg]
        intro mem
        cases (command_of_stored stored mem).2.1
      rfl
    obtain ⟨store,mem⟩ := stored.failed rfl
    exact (if_pos ⟨by rw [commands]; rfl,ne_nil_of_mem mem⟩).symm
  · exact fresh
  · exact single
  exact later

variable {answer : Except Result Reply} {left : Client}

private theorem kept_written (checked : Checked call client) (commands : call.command = some command)
    (shape : accesses = (call.front client.nextSequence ++ [Store.write32 .command command]).map (Access.write · true) ++ behind)
    (quiet : ∀ access ∈ behind, access.isWrite = false) (polls : behind.countP Access.isReceipt ≤ client.maxPolls.toNat)
    (confirmed : Confirmed ⟨call,answer,accesses⟩)
    (queued : ∀ surfaceOffset, call = .queuePresent surfaceOffset → answer = .ok (.queued client.nextSequence))
    (maxPolls : left.maxPolls = client.maxPolls) (next : left.nextSequence = following client.nextSequence)
    (pool : left.poolBytes = call.pool client.poolBytes) (known : knownOf left = knownOf client)
    (pending : pendingOf left = pendingBy (pendingOf client) ⟨call,answer,accesses⟩) : Kept client ⟨call,answer,accesses⟩ left := by
  have own : requests accesses = [client.nextSequence] := by
    rw [shape,requests_append,requests_quiet quiet,map_append,requests_append,front_requests _ commands]
    rfl
  obtain ⟨fresh,single,later⟩ := @fresh_of client accesses checked.sequence left next (by rw [own])
  constructor
  · constructor
    · exact confirmed
    · intro done mem
      rw [shape] at mem
      obtain ⟨rfl,rfl⟩ := command_of_mem quiet mem
      rw [shape,map_append,append_assoc]
      exact presented_of checked commands
    · intro surfaceOffset same pending
      rw [(checked.acceptable surfaceOffset same).free] at pending
      cases pending
    · exact fun surfaceOffset same _ _ => queued surfaceOffset same
    · rintro surfaceOffset same (other | ⟨store,mem⟩)
      · exact absurd (checked.acceptable surfaceOffset same) other
      rw [shape] at mem
      rcases mem_append.mp mem with mem | mem
      · obtain ⟨_,_,wrong⟩ := mem_map.mp mem
        cases wrong
      exact absurd mem (mem_quiet quiet)
    rw [shape,countP_append,receipts_map,Nat.zero_add]
    exact polls
  · exact maxPolls
  · have written : .write (.write32 .command command) true ∈ accesses := by
      rw [shape]
      exact mem_append_left _ (mem_map.mpr ⟨_,mem_append_right _ mem_cons_self,rfl⟩)
    refine ledger_after ?_ pending (known.trans (known_command commands _ _ _).symm) ?_
    · rw [pool]
      cases call with
      | registerPool poolIpa poolBytes deadline =>
        cases commands
        exact (if_pos written).symm
      | qualify | presentApplied | queuePresent | consumeInterrupt | release => rfl
    rw [next]
    exact (if_pos ⟨by rw [commands]; rfl,ne_nil_of_mem written⟩).symm
  · exact fresh
  · exact single
  exact later

/-- A call that writes nothing but what was checked, and answers no queued present. -/
private theorem kept_quiet (unsent : ∀ command done, .write (.write32 .command command) done ∉ accesses)
    (unasked : requests accesses = []) (polls : accesses.countP Access.isReceipt = 0) (confirmed : Confirmed ⟨call,answer,accesses⟩)
    (refused : ∀ surfaceOffset, call = .queuePresent surfaceOffset →
      (∃ reason, answer = .error reason) ∧ ¬ Acceptable client.ledger surfaceOffset)
    (untaken : call.command = none ∨ accesses = [])
    (maxPolls : left.maxPolls = client.maxPolls) (next : left.nextSequence = client.nextSequence)
    (pool : left.poolBytes = client.poolBytes) (known : knownOf left = knownBy (knownOf client) ⟨call,answer,accesses⟩)
    (pending : pendingOf left = pendingBy (pendingOf client) ⟨call,answer,accesses⟩) : Kept client ⟨call,answer,accesses⟩ left := by
  constructor
  · constructor
    · exact confirmed
    · intro done mem
      exact absurd mem (unsent _ _)
    · intro surfaceOffset same pending
      refine ⟨(refused surfaceOffset same).1,untaken.resolve_left ?_⟩
      rw [show call = _ from same]
      exact nofun
    · exact fun surfaceOffset same acceptable _ => absurd acceptable (refused surfaceOffset same).2
    · exact fun surfaceOffset same _ => (refused surfaceOffset same).1
    exact polls.le.trans (Nat.zero_le _)
  · exact maxPolls
  · refine ledger_after ?_ pending known ?_
    · rw [pool]
      unfold pooledBy
      split
      · rw [if_neg (unsent _ _)]
      rfl
    rw [next]
    refine (if_neg ?_).symm
    rintro ⟨commands,taken⟩
    rcases untaken with quiet | quiet
    · rw [show call.command = none from quiet] at commands
      cases commands
    exact taken quiet
  · intro sequence mem
    simp only [unasked] at mem
    cases mem
  · simp only [unasked]
    exact Nat.zero_le _
  rw [next]

end

/-! ### Calls -/

section
variable {io : Io} {client : Client} {log ext : List Access} {α : Type} {post : Except Result α → World → Prop}

private theorem takeSequence_then {next : U64 → Op α} (exhausted : client.nextSequence = 0 → post (.error .sequenceExhausted) ⟨client,log ++ ext⟩)
    (goes : client.nextSequence ≠ 0 →
      Leaves (next client.nextSequence) ⟨{ client with nextSequence := following client.nextSequence },log ++ ext⟩ post) :
    Leaves (takeSequence >>= next) ⟨client,log ++ ext⟩ post := by
  rw [leaves_bind]
  apply current_then
  apply Leaves.check
  · exact exhausted
  intro some
  apply setClient_then
  exact goes some

private theorem wait_then {next : U32 → Op α} {sequence surfaceOffset deadline : U64} {kind : WaitKind}
    (fails : ∀ reason left accesses, Waited client (log ++ ext) client.maxPolls.toNat left accesses → post (.error reason) left)
    (goes : ∀ swapId left accesses, Waited client (log ++ ext) client.maxPolls.toNat left accesses →
      Received sequence kind surfaceOffset deadline swapId accesses → Leaves (next swapId) left post) :
    Leaves (waitForReceipt io sequence kind surfaceOffset deadline >>= next) ⟨client,log ++ ext⟩ post := by
  refine (waitForReceipt_leaves sequence kind surfaceOffset deadline).bind (fun reason left awaited => ?_)
    (fun swapId left awaited => ?_)
  · obtain ⟨accesses,waited,-⟩ := awaited
    exact fails reason left accesses waited
  obtain ⟨accesses,waited,received⟩ := awaited
  exact goes swapId left accesses waited (received swapId rfl)

variable {call : Call}

private theorem acts_refused {reason : Result} (known : knownBy (knownOf client) ⟨call,.error reason,[]⟩ = knownOf client)
    (refused : ∀ surfaceOffset, call = .queuePresent surfaceOffset → ¬ Acceptable client.ledger surfaceOffset) :
    Acts call client log (.error reason) ⟨client,log ++ []⟩ := by
  refine ⟨[],rfl,kept_quiet (fun _ _ mem => nomatch mem) rfl rfl ?_ ?_ (.inr rfl) rfl rfl rfl known.symm rfl⟩
  · cases call <;> trivial
  intro surfaceOffset same
  exact ⟨⟨reason,rfl⟩,refused surfaceOffset same⟩

variable {stores : List Store}

private theorem command_then {command : U32} {next : PUnit → Op Reply} (checked : Checked call client)
    (commands : call.command = some command) (same : stores = call.front client.nextSequence ++ [Store.write32 .command command])
    (goes : Leaves (next ⟨⟩) ⟨{ client with nextSequence := following client.nextSequence },
      log ++ ([] ++ stores.map (Access.write · true))⟩ (Acts call client log)) :
    Leaves (storeAll io stores >>= next) ⟨{ client with nextSequence := following client.nextSequence },log ++ []⟩ (Acts call client log) := by
  apply storeAll_then
  · intro accesses stored
    subst same
    exact ⟨accesses,rfl,kept_failed checked commands stored⟩
  exact goes

variable {answer : Except Result Reply}

private theorem acts_waited {command : U32} {left : World}
    {behind : List Access} {sent : Client} (checked : Checked call client) (commands : call.command = some command)
    (same : stores = call.front client.nextSequence ++ [Store.write32 .command command])
    (client' : sent = { client with nextSequence := following client.nextSequence, poolBytes := call.pool client.poolBytes })
    (waited : Waited sent (log ++ ([] ++ stores.map (Access.write · true))) client.maxPolls.toNat left behind)
    (waits : ∀ surfaceOffset, call ≠ .queuePresent surfaceOffset)
    (confirmed : Confirmed ⟨call,answer,stores.map (Access.write · true) ++ behind⟩)
    (unqueued : ∀ accesses, pendingBy (pendingOf client) ⟨call,answer,accesses⟩ = pendingOf client) : Acts call client log answer left := by
  obtain ⟨result,kept⟩ := waited.client
  subst same client'
  refine ⟨_ ++ behind,waited.log.trans (append_assoc _ _ _),kept_written checked commands rfl waited.quiet waited.polls confirmed
    (fun surfaceOffset same => absurd same (waits surfaceOffset)) ?_ ?_ ?_ ?_ ?_⟩
  · rw [kept]
  · rw [kept]
  · rw [kept]
  · rw [kept]
    rfl
  rw [kept,unqueued]
  rfl

private theorem registerPool_acts (poolIpa poolBytes deadline : U64) :
    Leaves (registerPool io poolIpa poolBytes deadline) ⟨client,log ++ []⟩ (Acts (.registerPool poolIpa poolBytes deadline) client log) := by
  apply Leaves.check
  · intro bad
    exact acts_refused rfl nofun
  intro good
  apply current_then
  apply Leaves.check
  · intro unqualified
    exact acts_refused rfl nofun
  intro qualified
  apply takeSequence_then
  · intro exhausted
    exact acts_refused rfl nofun
  intro sequence
  have checked : Checked (.registerPool poolIpa poolBytes deadline) client := ⟨nofun,nofun,sequence⟩
  apply command_then checked rfl rfl
  apply setClient_then
  apply wait_then
  · intro reason left behind waited
    exact acts_waited checked rfl rfl rfl waited nofun trivial (fun _ => rfl)
  intro swapId left behind waited received
  exact acts_waited checked rfl rfl rfl waited nofun ⟨swapId,_,behind,rfl,received⟩ (fun _ => rfl)

private theorem release_acts (deadline : U64) : Leaves (release io deadline) ⟨client,log ++ []⟩ (Acts (.release deadline) client log) := by
  apply current_then
  apply Leaves.check
  · intro unqualified
    exact acts_refused rfl nofun
  intro qualified
  apply takeSequence_then
  · intro exhausted
    exact acts_refused rfl nofun
  intro sequence
  have checked : Checked (.release deadline) client := ⟨nofun,nofun,sequence⟩
  apply command_then checked rfl rfl
  apply wait_then
  · intro reason left behind waited
    exact acts_waited checked rfl rfl rfl waited nofun trivial (fun _ => rfl)
  intro swapId left behind waited received
  exact acts_waited checked rfl rfl rfl waited nofun ⟨swapId,_,behind,rfl,received⟩ (fun _ => rfl)

private theorem presentApplied_acts (surfaceOffset deadline : U64) :
    Leaves (presentApplied io surfaceOffset deadline) ⟨client,log ++ []⟩ (Acts (.presentApplied surfaceOffset deadline) client log) := by
  apply current_then
  apply Leaves.check
  · intro outside
    exact acts_refused rfl nofun
  intro inside
  apply Leaves.check
  · intro unqualified
    exact acts_refused rfl nofun
  intro qualified
  apply takeSequence_then
  · intro exhausted
    exact acts_refused rfl nofun
  intro sequence
  have checked : Checked (.presentApplied surfaceOffset deadline) client :=
    ⟨(fun _ same => by cases same; exact inside),nofun,sequence⟩
  apply command_then checked rfl rfl
  apply wait_then
  · intro reason left behind waited
    exact acts_waited checked rfl rfl rfl waited nofun trivial (fun _ => rfl)
  intro swapId left behind waited received
  exact acts_waited checked rfl rfl rfl waited nofun ⟨swapId,rfl,_,behind,rfl,received⟩ (fun _ => rfl)

private theorem queuePresent_acts (surfaceOffset : U64) :
    Leaves (queuePresent io surfaceOffset) ⟨client,log ++ []⟩ (Acts (.queuePresent surfaceOffset) client log) := by
  have refuses : ∀ reason, ¬ (¬ OutsidePool client surfaceOffset ∧ client.qualified = true ∧ ¬ LacksV2 client ∧
      client.presentPending = false ∧ client.nextSequence ≠ 0) →
      Acts (.queuePresent surfaceOffset) client log (.error reason) ⟨client,log ++ []⟩ := by
    refine fun reason fails => acts_refused rfl (fun _ same acceptable => ?_)
    cases same
    exact fails (acceptable_iff.mp acceptable)
  apply current_then
  apply Leaves.check
  · intro outside
    exact refuses _ (fun all => all.1 outside)
  intro inside
  apply Leaves.check
  · intro unqualified
    exact refuses _ (fun all => Bool.eq_false_iff.mp unqualified all.2.1)
  intro qualified
  apply Leaves.check
  · intro lacks
    exact refuses _ (fun all => all.2.2.1 lacks)
  intro has
  apply Leaves.check
  · intro full
    exact refuses _ (fun all => Bool.eq_false_iff.mp all.2.2.2.1 full)
  intro free
  apply takeSequence_then
  · intro exhausted
    exact refuses _ (fun all => all.2.2.2.2 exhausted)
  intro sequence
  have acceptable : Acceptable client.ledger surfaceOffset :=
    acceptable_iff.mpr ⟨inside,Bool.not_eq_false _ ▸ qualified,has,Bool.eq_false_iff.mpr free,sequence⟩
  have checked : Checked (.queuePresent surfaceOffset) client :=
    ⟨(fun _ same => by cases same; exact inside),(fun _ same => by cases same; exact acceptable),sequence⟩
  apply command_then checked rfl rfl
  apply setClient_then
  exact ⟨_,rfl,kept_written checked rfl (append_nil _).symm nofun (Nat.zero_le _) trivial (fun _ _ => rfl) rfl rfl rfl rfl rfl⟩

private theorem acts_reads {left : Client} (reads : call = .qualify ∨ call = .consumeInterrupt)
    (unsent : ∀ command done, .write (.write32 .command command) done ∉ ext) (unasked : requests ext = [])
    (polls : ext.countP Access.isReceipt = 0) (maxPolls : left.maxPolls = client.maxPolls)
    (next : left.nextSequence = client.nextSequence) (pool : left.poolBytes = client.poolBytes)
    (known : knownOf left = knownBy (knownOf client) ⟨call,answer,ext⟩)
    (pending : pendingOf left = pendingBy (pendingOf client) ⟨call,answer,ext⟩) :
    Acts call client log answer ⟨left,log ++ ext⟩ := by
  refine ⟨ext,rfl,kept_quiet unsent unasked polls ?_ ?_ (.inl ?_) maxPolls next pool known pending⟩
  · rcases reads with rfl | rfl <;> trivial
  · intro surfaceOffset same
    rcases reads with rfl | rfl <;> cases same
  rcases reads with rfl | rfl <;> rfl

private theorem qualify_acts : Leaves (qualify io) ⟨client,log ++ []⟩ (Acts .qualify client log) := by
  apply setClient_then
  apply read32_then
  · exact acts_reads (.inl rfl) (by simp) rfl rfl rfl rfl rfl rfl rfl
  intro magic
  apply read32_then
  · exact acts_reads (.inl rfl) (by simp) rfl rfl rfl rfl rfl rfl rfl
  intro version
  apply read32_then
  · exact acts_reads (.inl rfl) (by simp) rfl rfl rfl rfl rfl rfl rfl
  intro capabilities
  have reads : ∀ answer, (∀ pending accesses, pendingBy pending ⟨.qualify,answer,accesses⟩ = pending) → ∀ left : Client,
      left.maxPolls = client.maxPolls → left.nextSequence = client.nextSequence → left.poolBytes = client.poolBytes →
      knownOf left = knownBy (knownOf client) ⟨.qualify,answer,
        [.read32 .magic (some magic),.read32 .abiVersion (some version),.read32 .capabilities (some capabilities)]⟩ →
      pendingOf left = pendingOf client → Acts .qualify client log answer
        ⟨left,log ++ [.read32 .magic (some magic),.read32 .abiVersion (some version),.read32 .capabilities (some capabilities)]⟩ :=
    fun answer keeps left maxPolls next pool known pending =>
      acts_reads (.inl rfl) (by simp) rfl rfl maxPolls next pool known (pending.trans (keeps _ _).symm)
  apply Leaves.check
  · intro other
    exact reads _ (fun _ _ => rfl) _ rfl rfl rfl rfl rfl
  intro same
  apply Leaves.check
  · intro other
    exact reads _ (fun _ _ => rfl) _ rfl rfl rfl rfl rfl
  intro known
  apply Leaves.check
  · intro lacks
    exact reads _ (fun _ _ => rfl) _ rfl rfl rfl rfl rfl
  intro has
  apply setClient_then
  exact reads _ (fun _ _ => rfl) _ rfl rfl rfl rfl rfl

private theorem store_then {next : PUnit → Op α} (first : Store)
    (fails : post (.error .transportFailed) ⟨client,log ++ (ext ++ [.write first false])⟩)
    (goes : Leaves (next ⟨⟩) ⟨client,log ++ (ext ++ [.write first true])⟩ post) :
    Leaves (store io first >>= next) ⟨client,log ++ ext⟩ post := by
  rw [← append_assoc] at fails goes
  rw [leaves_bind]
  exact store_leaves first fails goes

private theorem pending_reported (client : Client) (status : U32) (latched : U64) :
    pendingOf (if status &&& irqLatched ≠ 0 ∧ client.presentPending = true ∧ latched = client.pendingPresentSequence then
      { client with presentPending := false, pendingPresentSequence := 0 } else client) =
      if status &&& irqLatched ≠ 0 ∧ pendingOf client = some latched then none else pendingOf client := by
  have same : pendingOf client = some latched ↔ client.presentPending = true ∧ latched = client.pendingPresentSequence := by
    unfold pendingOf
    cases client.presentPending with
    | false => simp
    | true => simp [eq_comm]
  simp only [same]
  split <;> rfl

private theorem acknowledge_acts (status : U32) (latched : U64) (quiet : ∀ access ∈ ext, access.isWrite = false)
    (polls : ext.countP Access.isReceipt = 0) :
    Leaves (acknowledge io status latched) ⟨client,log ++ ext⟩ (Acts .consumeInterrupt client log) := by
  have reads : ∀ answer done, ∀ left : Client, left.maxPolls = client.maxPolls → left.nextSequence = client.nextSequence →
      left.poolBytes = client.poolBytes → knownOf left = knownOf client → (∀ accesses, pendingOf left = pendingBy (pendingOf client) ⟨.consumeInterrupt,answer,accesses⟩) →
      Acts .consumeInterrupt client log answer ⟨left,log ++ (ext ++ [.write (.write32 .irqStatus status) done])⟩ := by
    intro answer done left maxPolls next pool known pending
    refine acts_reads (.inr rfl) (fun command done' mem => ?_) ?_ ?_ maxPolls next pool known (pending _)
    · rcases mem_append.mp mem with mem | mem
      · exact mem_quiet quiet mem
      simp at mem
    · rw [requests_append,requests_quiet quiet]
      rfl
    rw [countP_append,polls]
    rfl
  apply store_then
  · exact reads _ _ _ rfl rfl rfl rfl (fun _ => rfl)
  apply Leaves.check
  · intro zero
    exact reads _ _ _ rfl rfl rfl rfl (fun _ => rfl)
  intro told
  apply setClient_then
  apply reads
  · split <;> rfl
  · split <;> rfl
  · split <;> rfl
  · split <;> rfl
  intro accesses
  exact pending_reported client status latched

private theorem consumeInterrupt_acts : Leaves (consumeInterrupt io) ⟨client,log ++ []⟩ (Acts .consumeInterrupt client log) := by
  apply current_then
  apply Leaves.check
  · intro unqualified
    exact acts_refused rfl nofun
  intro qualified
  apply Leaves.check
  · intro lacks
    exact acts_refused rfl nofun
  intro has
  apply read32_then
  · exact acts_reads (.inr rfl) (by simp) rfl rfl rfl rfl rfl rfl rfl
  intro irqStatus
  apply Leaves.check
  · intro none
    exact acts_reads (.inr rfl) (by simp) rfl rfl rfl rfl rfl rfl rfl
  intro some
  split
  · apply read64_then
    · exact acts_reads (.inr rfl) (by simp) rfl rfl rfl rfl rfl rfl rfl
    intro latched
    exact acknowledge_acts _ latched (by simp [Access.isWrite]) rfl
  exact acknowledge_acts _ 0 (by simp [Access.isWrite]) rfl

theorem act_acts (call : Call) : Leaves (act io call) ⟨client,log⟩ (Acts call client log) := by
  have acts : Leaves (act io call) ⟨client,log ++ []⟩ (Acts call client log) := by
    cases call with
    | qualify => exact qualify_acts
    | registerPool poolIpa poolBytes deadline => exact registerPool_acts poolIpa poolBytes deadline
    | presentApplied surfaceOffset deadline => exact presentApplied_acts surfaceOffset deadline
    | queuePresent surfaceOffset => exact queuePresent_acts surfaceOffset
    | consumeInterrupt => exact consumeInterrupt_acts
    | release deadline => exact release_acts deadline
  simpa using acts

end

end WindowsOnM1.Scanout
