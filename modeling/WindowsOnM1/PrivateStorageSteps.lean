import WindowsOnM1.PrivatePoolSound
import WindowsOnM1.PrivateStorageModel

/-!
What a preparation and a growth of a heap do: the extents that they take stand in front of the
live ones, only their bytes change, and a preparation that fails gives them back.
-/
namespace WindowsOnM1.PrivateExtents
open ByteMemory CountedLoop Submit List

def PrivateExtent.Holds (extent : PrivateExtent) (x : Nat) : Prop := extent.offset ≤ x ∧ x < extent.offset + extent.bytes

variable {run : PoolRun}

/-- An extent that a call allocated. -/
structure Took (run run' : PoolRun) (owner : Nat) (extent : PrivateExtent) (fixed : Bool) : Prop where
  leased : Leased run'
  live : run'.live = ⟨owner,extent,fixed⟩ :: run.live
  generations : run'.generations = extent.generation :: run.generations
  fresh : extent.generation ∉ run.generations

variable {owner : Nat} {operation : PoolOperation} {fixed : Bool}

theorem Leased.took (leased : Leased run) {bytes first vaFirst : Nat} {vaUnit : Option Nat}
    (placed : Placed run owner bytes vaUnit first vaFirst) (general : fixed = false → vaUnit = none)
    (answer : operation.answer run.pool = (some (grantedExtent run bytes first vaFirst),grantedPool run owner bytes first vaFirst))
    (live : ∀ extent, operation.leases extent run.live = ⟨owner,extent,fixed⟩ :: run.live)
    (handed : ∀ extent, operation.handedOut extent run.generations = extent.generation :: run.generations) :
    ∃ extent run', run.call operation = (some extent,run') ∧ Took run run' owner extent fixed ∧
      extent.bytes = unitsOf bytes * privateUnit ∧ extent.vaOffset = vaFirst * privateUnit := by
  have after := leased.granted placed general
  refine ⟨grantedExtent run bytes first vaFirst,run.step operation,?_,?_,rfl,rfl⟩
  · rw [PoolRun.call,answer]
  unfold PoolRun.step
  rw [answer]
  dsimp only
  rw [live,handed]
  exact ⟨after,rfl,rfl,fun mem => leased.next_new _ mem rfl⟩

theorem Leased.call_refused (answer : operation.answer run.pool = (none,run.pool)) : run.call operation = (none,run) := by
  unfold PoolRun.call PoolRun.step
  rw [answer]

theorem Leased.call_allocate (leased : Leased run) (owner bytes : Nat) : run.call (.allocate owner bytes) = (none,run) ∨
    ∃ extent run', run.call (.allocate owner bytes) = (some extent,run') ∧ Took run run' owner extent false ∧
      extent.bytes = unitsOf bytes * privateUnit := by
  have same : (PoolOperation.allocate owner bytes).answer run.pool = privateAllocateVa run.pool owner bytes none := rfl
  rcases leased.allocateVa_spec owner bytes none with ⟨first,vaFirst,placed,result⟩ | ⟨_,result⟩
  · obtain ⟨extent,run',called,took,size,_⟩ := leased.took placed (fun _ => rfl) (same.trans result) (fun _ => rfl)
      (fun _ => rfl)
    exact Or.inr ⟨extent,run',called,took,size⟩
  exact Or.inl (Leased.call_refused result)

theorem Leased.call_allocateAt (leased : Leased run) (owner bytes vaOffset : Nat) :
    run.call (.allocateAt owner bytes vaOffset) = (none,run) ∨
    ∃ extent run', run.call (.allocateAt owner bytes vaOffset) = (some extent,run') ∧ Took run run' owner extent true ∧
      extent.bytes = unitsOf bytes * privateUnit ∧ extent.vaOffset = vaOffset := by
  by_cases unaligned : vaOffset &&& (privateUnit - 1) ≠ 0
  · exact Or.inl (Leased.call_refused (if_pos unaligned))
  have same : (PoolOperation.allocateAt owner bytes vaOffset).answer run.pool =
      privateAllocateVa run.pool owner bytes (some (vaOffset / privateUnit)) := if_neg unaligned
  rcases leased.allocateVa_spec owner bytes (some (vaOffset / privateUnit)) with ⟨first,vaFirst,placed,result⟩ | ⟨_,result⟩
  · obtain ⟨extent,run',called,took,size,place⟩ :=
      leased.took placed (fun bad => by cases bad) (same.trans result) (fun _ => rfl) (fun _ => rfl)
    refine Or.inr ⟨extent,run',called,took,size,?_⟩
    rw [low_bits_va,not_not] at unaligned
    rw [place,placed.within.1,Nat.div_mul_cancel (Nat.dvd_of_mod_eq_zero unaligned)]
  exact Or.inl (Leased.call_refused (same.trans result))

variable {lease : Lease} {x : Nat}

theorem Leased.holds_block (leased : Leased run) (mem : lease ∈ run.live) (holds : lease.extent.Holds x) :
    lease.extent.blocks.Covers (x / privateUnit) := by
  have owns := leased.owned lease mem
  obtain ⟨above,below⟩ := holds
  have offset := owns.offset
  have bytes := owns.bytes
  unfold privateUnit at *
  constructor <;> omega

theorem Leased.bytes_apart (leased : Leased run) {left right : Lease} (mem : left ∈ run.live) (mem' : right ∈ run.live)
    (apart : left ≠ right) (holds : left.extent.Holds x) : ¬ right.extent.Holds x :=
  fun holds' => apart (leased.blocks_meet mem mem' (leased.holds_block mem holds) (leased.holds_block mem' holds'))

variable {run' : PoolRun} {extent : PrivateExtent}

section
variable (leased : Leased run) (took : Took run run' owner extent fixed) (mem : lease ∈ run.live)
include leased took mem

theorem Took.other : lease ≠ ⟨owner,extent,fixed⟩ := by
  rintro rfl
  exact took.fresh (leased.known _ mem)

theorem Took.apart (holds : lease.extent.Holds x) : ¬ extent.Holds x := by
  refine took.leased.bytes_apart ?_ ?_ (took.other leased mem) holds
  · rw [took.live]
    exact mem_cons_of_mem _ mem
  rw [took.live]
  exact mem_cons_self

end

variable {cpu : Memory}

theorem zeroBytes_outside (apart : ¬ extent.Holds x) : zeroBytes cpu extent.offset extent.bytes x = cpu x := if_neg apart
theorem zeroBytes_inside (holds : extent.Holds x) : zeroBytes cpu extent.offset extent.bytes x = 0 := if_pos holds

theorem zeroBytes_zero {offset bytes : Nat} (zero : cpu x = 0) : zeroBytes cpu offset bytes x = 0 := by
  unfold zeroBytes
  split
  · rfl
  exact zero

theorem Leased.blocks_eq (leased : Leased run) (leased' : Leased run') (same : run'.live = run.live) :
    run'.pool.blocks = run.pool.blocks := by
  funext index
  rcases leased.covered index with empty | ⟨lease,mem,covers⟩
  · rcases leased'.covered index with empty' | ⟨lease,mem,covers⟩
    · rw [empty,empty']
    have record := (leased.owned lease (same ▸ mem)).recorded index covers
    rw [empty] at record
    exact absurd (congrArg PrivateBlock.owner record).symm (leased'.owned lease mem).someone
  rw [(leased.owned lease mem).recorded index covers,(leased'.owned lease (same.symm ▸ mem)).recorded index covers]

theorem Leased.free_first (leased : Leased run) {rest : List Lease} (live : run.live = lease :: rest) :
    (run.step (.free lease.owner lease.extent)).live = rest ∧
      (run.step (.free lease.owner lease.extent)).generations = run.generations := by
  have owns := leased.owned lease (by rw [live]; exact mem_cons_self)
  have answer : (PoolOperation.free lease.owner lease.extent).answer run.pool = (some lease.extent,freedPool run lease.extent) := by
    show ((if (privateFree run.pool lease.owner lease.extent).1 = true then some lease.extent else none),
      (privateFree run.pool lease.owner lease.extent).2) = _
    rw [privateFree_owned owns]
    rfl
  have distinct := leased.distinct
  rw [live] at distinct
  unfold PoolRun.step
  rw [answer]
  refine ⟨?_,rfl⟩
  show run.live.filter (fun other => ¬ other.Is lease.owner lease.extent) = rest
  have itself : lease.Is lease.owner lease.extent := ⟨rfl,rfl⟩
  rw [live,filter_cons,if_neg (by simp [itself]),filter_eq_self.mpr]
  intro other mem
  refine decide_eq_true (fun is => ?_)
  exact (pairwise_cons.mp distinct).1 other mem (congrArg PrivateExtent.generation is.2).symm

/-- The undo frees the extents that stand first, and zeroes them. -/
private theorem undo_frees (owner : Nat) {leases : List Lease} (own : ∀ lease ∈ leases, lease.owner = owner) {live : List Lease}
    (leased : Leased run) (before : run.live = leases ++ live) (cpu : Memory) :
    Leased (undo owner (leases.map Lease.extent) (run,cpu)).1 ∧
    (undo owner (leases.map Lease.extent) (run,cpu)).1.live = live ∧
    (undo owner (leases.map Lease.extent) (run,cpu)).1.generations = run.generations ∧
    (∀ x, (∃ lease ∈ leases, lease.extent.Holds x) ∨ cpu x = 0 → (undo owner (leases.map Lease.extent) (run,cpu)).2 x = 0) ∧
    ∀ x, (∀ lease ∈ leases, ¬ lease.extent.Holds x) → (undo owner (leases.map Lease.extent) (run,cpu)).2 x = cpu x := by
  induction leases generalizing run cpu with
  | nil => exact ⟨leased,before,rfl,fun x zero => zero.resolve_left (fun ⟨_,nobody,_⟩ => by cases nobody),fun _ _ => rfl⟩
  | cons lease rest ih =>
  have freed := leased.free_first before
  have mine := own lease mem_cons_self
  rw [mine] at freed
  have step := leased.step (.free owner lease.extent)
  rw [map_cons,undo]
  obtain ⟨leased',live',generations',zeroed,kept⟩ :=
    ih (fun other mem => own other (mem_cons_of_mem _ mem)) step freed.1 (zeroBytes cpu lease.extent.offset lease.extent.bytes)
  refine ⟨leased',live',generations'.trans freed.2,?_,?_⟩
  · rintro x (⟨other,mem,holds⟩ | zero)
    · rcases mem_cons.mp mem with rfl | mem
      · exact zeroed x (Or.inr (zeroBytes_inside holds))
      exact zeroed x (Or.inl ⟨other,mem,holds⟩)
    exact zeroed x (Or.inr (zeroBytes_zero zero))
  intro x apart
  rw [kept x (fun other mem => apart other (mem_cons_of_mem _ mem)),zeroBytes_outside (apart lease mem_cons_self)]

/-- The extent of range `j`. -/
def Construction.extentOf (state : Construction) (j : Nat) : PrivateExtent :=
  if j < 3 then state.manager.extents j else state.scene.extents (j - 3)

/-- A construction in which range `i` has got its extent. -/
structure Put (state state' : Construction) (run' : PoolRun) (extent : PrivateExtent) (i : Nat) (range : ProcessRange) : Prop where
  run : state'.run = run'
  cpu : state'.cpu = zeroBytes state.cpu extent.offset extent.bytes
  taken : state'.taken = extent :: state.taken
  extents : ∀ j, state'.extentOf j = if j = i then extent else state.extentOf j
  ranges : ∀ j : Fin processRangeCount, state'.scene.ranges j = if j.val = i then range else state.scene.ranges j
  manager : state'.manager = { state.manager with extents := state'.manager.extents }
  scratch : 3 ≤ i → state'.manager = state.manager

variable {owner va need : Nat} {required : Nat → Nat} {fresh : Bool} {i : Nat} {state : Construction}

/-- A turn that allocates either fails without a change or gives the range its extent. -/
private theorem prepareRange_allocates (wants : fresh = true ∨ 3 ≤ i) :
    (state.run.call (rangeCall owner need required i) = (none,state.run) →
      prepareRange owner va need required fresh i state = (false,state)) ∧
    ∀ extent run', state.run.call (rangeCall owner need required i) = (some extent,run') →
      ∃ state', prepareRange owner va need required fresh i state = (true,state') ∧
        Put state state' run' extent i (rangeOf va required extent i) := by
  have allocates : ¬ (i < 3 ∧ fresh = false) := by
    rintro ⟨below,old⟩
    rcases wants with new | above
    · rw [old] at new
      cases new
    omega
  refine ⟨fun refused => ?_,fun extent run' called => ?_⟩
  · unfold prepareRange
    rw [if_neg allocates,refused]
  unfold prepareRange
  rw [if_neg allocates,called]
  dsimp only
  split
  · refine ⟨_,rfl,rfl,rfl,rfl,fun j => ?_,fun _ => rfl,rfl,fun late => absurd late (by omega)⟩
    unfold Construction.extentOf
    by_cases same : j = i
    · rw [if_pos same,if_pos (by omega)]
      exact if_pos same
    rw [if_neg same]
    by_cases low : j < 3
    · rw [if_pos low,if_pos low]
      exact if_neg same
    rw [if_neg low,if_neg low]
    rfl
  refine ⟨_,rfl,rfl,rfl,rfl,fun j => ?_,fun _ => rfl,rfl,fun _ => rfl⟩
  unfold Construction.extentOf
  by_cases low : j < 3
  · rw [if_pos low,if_neg (by omega),if_pos low]
  rw [if_neg low,if_neg low]
  split
  · exact if_pos (by omega)
  exact if_neg (by omega)

/-- What the extents taken so far leave as it was. -/
structure Taking (run₀ : PoolRun) (cpu₀ : Memory) (owner : Nat) (state : Construction) : Prop where
  leased : Leased state.run
  front : ∃ leases : List Lease, leases.map Lease.extent = state.taken ∧ (∀ lease ∈ leases, lease.owner = owner) ∧
    (∀ lease ∈ leases, lease.extent.generation ∉ run₀.generations) ∧ state.run.live = leases ++ run₀.live
  older : ∀ generation ∈ run₀.generations, generation ∈ state.run.generations
  zeroed : ∀ extent ∈ state.taken, ∀ x, extent.Holds x → state.cpu x = 0
  kept : ∀ lease ∈ run₀.live, ∀ x, lease.extent.Holds x → state.cpu x = cpu₀ x

/-- The extent of range `j` was taken by this call. -/
structure Mine (run₀ : PoolRun) (owner need : Nat) (required : Nat → Nat) (state : Construction) (j : Nat) : Prop where
  live : ⟨owner,state.extentOf j,decide (j = 2)⟩ ∈ state.run.live
  fresh : (state.extentOf j).generation ∉ run₀.generations
  known : (state.extentOf j).generation ∈ state.run.generations
  taken : state.extentOf j ∈ state.taken
  size : j ≠ 2 → (state.extentOf j).bytes = unitsOf (required j) * privateUnit
  heap : j = 2 → (state.extentOf j).vaOffset = privateHeapVaOffset ∧ (state.extentOf j).bytes = unitsOf (need * heapBlock) * privateUnit

/-- The loop before range `i`. -/
structure Building (run₀ : PoolRun) (cpu₀ : Memory) (manager : PrivateManager) (owner va need : Nat) (required : Nat → Nat)
    (fresh : Bool) (i : Nat) (state : Construction) : Prop where
  taking : Taking run₀ cpu₀ owner state
  mine : ∀ j < i, (fresh = true ∨ 3 ≤ j) → Mine run₀ owner need required state j
  distinct : ∀ j k, j < k → k < i → (fresh = true ∨ 3 ≤ j) → (state.extentOf j).generation ≠ (state.extentOf k).generation
  ranges : ∀ j : Fin processRangeCount, j.val < i → state.scene.ranges j = rangeOf va required (state.extentOf j) j
  others : state.manager = { manager with extents := state.manager.extents }
  present : fresh = false → state.manager = manager

variable {run₀ : PoolRun} {cpu₀ : Memory} {manager : PrivateManager}

variable {state' : Construction}

theorem Taking.put {range : ProcessRange}
    (taking : Taking run₀ cpu₀ owner state) (took : Took state.run run' owner extent fixed) (put : Put state state' run' extent i range) :
    Taking run₀ cpu₀ owner state' := by
  obtain ⟨leases,names,own,new,live⟩ := taking.front
  constructor
  · rw [put.run]
    exact took.leased
  · refine ⟨⟨owner,extent,fixed⟩ :: leases,?_,?_,?_,?_⟩
    · rw [map_cons,names,put.taken]
    · intro lease mem
      rcases mem_cons.mp mem with rfl | mem
      · rfl
      exact own lease mem
    · intro lease mem
      rcases mem_cons.mp mem with rfl | mem
      · exact fun known => took.fresh (taking.older _ known)
      exact new lease mem
    rw [put.run,took.live,live]
    rfl
  · intro generation known
    rw [put.run,took.generations]
    exact mem_cons_of_mem _ (taking.older generation known)
  · intro other mem x holds
    rw [put.cpu]
    rw [put.taken] at mem
    rcases mem_cons.mp mem with rfl | mem
    · exact zeroBytes_inside holds
    exact zeroBytes_zero (taking.zeroed other mem x holds)
  intro lease mem x holds
  rw [put.cpu,zeroBytes_outside]
  · exact taking.kept lease mem x holds
  refine took.apart taking.leased ?_ holds
  rw [live]
  exact mem_append_right _ mem

theorem Leased.call_range (leased : Leased run) (owner need : Nat) (required : Nat → Nat) (i : Nat) :
    run.call (rangeCall owner need required i) = (none,run) ∨
    ∃ extent run', run.call (rangeCall owner need required i) = (some extent,run') ∧ Took run run' owner extent (decide (i = 2)) ∧
      (i ≠ 2 → extent.bytes = unitsOf (required i) * privateUnit) ∧
      (i = 2 → extent.vaOffset = privateHeapVaOffset ∧ extent.bytes = unitsOf (need * heapBlock) * privateUnit) := by
  unfold rangeCall
  by_cases heap : i = 2
  · rw [if_pos heap,decide_eq_true heap]
    rcases leased.call_allocateAt owner (need * heapBlock) privateHeapVaOffset with refused | ⟨extent,run',called,took,size,place⟩
    · exact Or.inl refused
    exact Or.inr ⟨extent,run',called,took,fun other => absurd heap other,fun _ => ⟨place,size⟩⟩
  rw [if_neg heap,decide_eq_false heap]
  rcases leased.call_allocate owner (required i) with refused | ⟨extent,run',called,took,size⟩
  · exact Or.inl refused
  exact Or.inr ⟨extent,run',called,took,fun _ => size,fun here => absurd here heap⟩

section
variable (building : Building run₀ cpu₀ manager owner va need required fresh i state)
include building

/-- A range that got its extent is taken, and the ranges before it still are. -/
theorem Building.put (wants : fresh = true ∨ 3 ≤ i)
    (took : Took state.run run' owner extent (decide (i = 2))) (put : Put state state' run' extent i (rangeOf va required extent i))
    (size : i ≠ 2 → extent.bytes = unitsOf (required i) * privateUnit)
    (heap : i = 2 → extent.vaOffset = privateHeapVaOffset ∧ extent.bytes = unitsOf (need * heapBlock) * privateUnit) :
    Building run₀ cpu₀ manager owner va need required fresh (i + 1) state' := by
  have here : state'.extentOf i = extent := by rw [put.extents,if_pos rfl]
  have before : ∀ j, j ≠ i → state'.extentOf j = state.extentOf j := fun j other => by rw [put.extents,if_neg other]
  constructor
  · exact building.taking.put took put
  · intro j below wants'
    by_cases same : j = i
    · subst same
      constructor
      · rw [here,put.run,took.live]
        exact mem_cons_self
      · rw [here]
        exact fun known => took.fresh (building.taking.older _ known)
      · rw [here,put.run,took.generations]
        exact mem_cons_self
      · rw [here,put.taken]
        exact mem_cons_self
      · rw [here]
        exact size
      rw [here]
      exact heap
    have mine := building.mine j (by omega) wants'
    constructor
    · rw [before j same,put.run,took.live]
      exact mem_cons_of_mem _ mine.live
    · rw [before j same]
      exact mine.fresh
    · rw [before j same,put.run,took.generations]
      exact mem_cons_of_mem _ mine.known
    · rw [before j same,put.taken]
      exact mem_cons_of_mem _ mine.taken
    · rw [before j same]
      exact mine.size
    rw [before j same]
    exact mine.heap
  · intro j k less below wants'
    have mine := building.mine j (by omega) wants'
    by_cases last : k = i
    · rw [last,here,before j (by omega)]
      exact fun same => took.fresh (same ▸ mine.known)
    rw [before j (by omega),before k last]
    exact building.distinct j k less (by omega) wants'
  · intro j below
    rw [put.ranges]
    by_cases same : j.val = i
    · rw [if_pos same,same,here]
    rw [if_neg same,before j.val same]
    exact building.ranges j (by omega)
  · rw [put.manager,building.others]
  intro old
  have late : 3 ≤ i := wants.resolve_left (by rw [old]; decide)
  rw [put.scratch late,building.present old]

theorem Building.turn : Ends (Building run₀ cpu₀ manager owner va need required fresh (i + 1)) (Taking run₀ cpu₀ owner)
      (prepareRange owner va need required fresh i state) := by
  by_cases wants : fresh = true ∨ 3 ≤ i
  · obtain ⟨refuses,takes⟩ := @prepareRange_allocates owner va need required fresh i state wants
    rcases building.taking.leased.call_range owner need required i with refused | ⟨extent,run',called,took,size,heap⟩
    · rw [refuses refused]
      exact ⟨nofun,fun _ => building.taking⟩
    obtain ⟨state',result,put⟩ := takes extent run' called
    rw [result]
    exact ⟨fun _ => building.put wants took put size heap,nofun⟩
  obtain ⟨old,early⟩ := not_or.mp wants
  have present : fresh = false := Bool.eq_false_iff.mpr old
  unfold prepareRange
  rw [if_pos ⟨by omega,present⟩]
  refine ⟨fun _ => ?_,nofun⟩
  refine ⟨⟨building.taking.leased,building.taking.front,building.taking.older,building.taking.zeroed,building.taking.kept⟩,
    fun j below wants' => ?_,fun j k less below wants' => ?_,fun j below => ?_,building.others,building.present⟩
  · have late : 3 ≤ j := wants'.resolve_left old
    omega
  · have late : 3 ≤ j := wants'.resolve_left old
    omega
  show (if j.val = i then _ else state.scene.ranges j) = _
  split
  · rename_i same
    rw [← same]
    unfold Construction.extentOf
    rw [if_pos (by omega)]
  exact building.ranges j (by omega)

end

private theorem prepareRange_loop (leased : Leased run₀) (cpu₀ : Memory) (manager : PrivateManager) (owner va need : Nat) (required : Nat → Nat)
    (fresh : Bool) : Ends (Building run₀ cpu₀ manager owner va need required fresh processRangeCount) (Taking run₀ cpu₀ owner)
      (countLoop (prepareRange owner va need required fresh) 0 processRangeCount ⟨run₀,cpu₀,manager,{},[]⟩) := by
  have start : Building run₀ cpu₀ manager owner va need required fresh 0 ⟨run₀,cpu₀,manager,{},[]⟩ := by
    refine ⟨⟨leased,⟨[],rfl,?_,?_,rfl⟩,fun _ known => known,?_,fun _ _ _ _ => rfl⟩,?_,?_,?_,rfl,fun _ => rfl⟩
    · exact fun _ bad => absurd bad not_mem_nil
    · exact fun _ bad => absurd bad not_mem_nil
    · exact fun _ bad => absurd bad not_mem_nil
    · exact fun _ bad => absurd bad (Nat.not_lt_zero _)
    · exact fun _ _ _ bad => absurd bad (Nat.not_lt_zero _)
    exact fun _ bad => absurd bad (Nat.not_lt_zero _)
  have ends : Ends (Building run₀ cpu₀ manager owner va need required fresh (0 + processRangeCount)) (Taking run₀ cpu₀ owner)
      (countLoop (prepareRange owner va need required fresh) 0 processRangeCount ⟨run₀,cpu₀,manager,{},[]⟩) :=
    countLoop_ends _ (fun i => Building run₀ cpu₀ manager owner va need required fresh i) _ start
      (fun i state _ _ building => building.turn)
  rwa [Nat.zero_add] at ends

/-- A call that changed nothing but the generations, and zeroed what it had taken. -/
structure Unchanged (run₀ : PoolRun) (cpu₀ : Memory) (run : PoolRun) (cpu : Memory) (taken : List PrivateExtent) : Prop where
  leased : Leased run
  live : run.live = run₀.live
  blocks : run.pool.blocks = run₀.pool.blocks
  older : ∀ generation ∈ run₀.generations, generation ∈ run.generations
  zeroed : ∀ extent ∈ taken, ∀ x, extent.Holds x → cpu x = 0
  kept : ∀ lease ∈ run₀.live, ∀ x, lease.extent.Holds x → cpu x = cpu₀ x

theorem Unchanged.refl (leased : Leased run₀) (cpu₀ : Memory) : Unchanged run₀ cpu₀ run₀ cpu₀ [] :=
  ⟨leased,rfl,rfl,fun _ known => known,fun _ bad => absurd bad not_mem_nil,fun _ _ _ _ => rfl⟩

theorem Taking.undone (leased : Leased run₀) (taking : Taking run₀ cpu₀ owner state) :
    Unchanged run₀ cpu₀ (undo owner state.taken (state.run,state.cpu)).1 (undo owner state.taken (state.run,state.cpu)).2 state.taken := by
  obtain ⟨leases,names,own,new,live⟩ := taking.front
  obtain ⟨leased',live',generations,zeroed,kept⟩ := undo_frees owner own taking.leased live state.cpu
  rw [names] at leased' live' generations zeroed kept
  refine ⟨leased',live',leased.blocks_eq leased' live',fun generation known => ?_,fun extent mem x holds => ?_,
    fun lease mem x holds => ?_⟩
  · rw [generations]
    exact taking.older generation known
  · exact zeroed x (Or.inr (taking.zeroed extent mem x holds))
  rw [kept x,taking.kept lease mem x holds]
  intro other mem'
  refine taking.leased.bytes_apart ?_ ?_ ?_ holds
  · rw [live]
    exact mem_append_right _ mem
  · rw [live]
    exact mem_append_left _ mem'
  rintro rfl
  exact new lease mem' (leased.known lease mem)

/-- What the arguments of a preparation that goes on satisfy. -/
structure Prepares (owner va : Nat) (render : NativeRender) (manager : PrivateManager) (required : Nat → Nat) : Prop where
  someone : owner ≠ 0
  place : 2 ^ 25 ≤ va ∧ va < 2 ^ 39 ∧ va % 0x2000000 = 0
  sizes : processRequiredBytes render = some required
  window : required 2 = heapBlocks * heapBlock
  blocks : 0 < minTvbBlocks render.widthPx.toNat render.heightPx.toNat ∧
    minTvbBlocks render.widthPx.toNat render.heightPx.toNat ≤ heapBlocks
  present : manager.generation ≠ 0 → manager.owner = owner ∧ manager.vaBase = va ∧
    minTvbBlocks render.widthPx.toNat render.heightPx.toNat ≤ manager.blocks

/-- The manager of a preparation that allocated it. -/
def freshManager (owner va need : Nat) (state : Construction) : PrivateManager :=
  { state.manager with
    owner := owner
    vaBase := va
    generation := (state.manager.extents 0).generation
    blocks := need }

/-- The page number of the first page of the heap window. -/
def heapPage (va : Nat) : Nat := (va + privateHeapVaOffset) / 0x8000

structure Built (run₀ : PoolRun) (cpu₀ : Memory) (owner va : Nat) (render : NativeRender) (manager : PrivateManager) (result : Prepared)
    (required : Nat → Nat) (state : Construction) : Prop where
  prepares : Prepares owner va render manager required
  building : Building run₀ cpu₀ manager owner va (minTvbBlocks render.widthPx.toNat render.heightPx.toNat) required
    (manager.generation = 0) processRangeCount state
  run : result.run = state.run
  scene : result.scene = { state.scene with generation := (state.scene.extents 0).generation }
  present : manager.generation ≠ 0 → result.manager = manager ∧ result.cpu = state.cpu
  fresh : manager.generation = 0 →
    result.manager = freshManager owner va (minTvbBlocks render.widthPx.toNat render.heightPx.toNat) state ∧
    result.cpu = writeLists (state.manager.extents 0).offset (state.manager.extents 1).offset (heapPage va) heapBlocks state.cpu

theorem privatePrepare_cases (leased : Leased run₀) (owner : Nat) (cpu₀ : Memory) (va : Nat) (render : NativeRender)
    (manager : PrivateManager) (scene : PrivateScene) :
    ((privatePrepare run₀ owner cpu₀ va render manager scene).done = false ∧
      (privatePrepare run₀ owner cpu₀ va render manager scene).manager = manager ∧
      (privatePrepare run₀ owner cpu₀ va render manager scene).scene = scene ∧
      Unchanged run₀ cpu₀ (privatePrepare run₀ owner cpu₀ va render manager scene).run
        (privatePrepare run₀ owner cpu₀ va render manager scene).cpu (privatePrepare run₀ owner cpu₀ va render manager scene).taken) ∨
    ((privatePrepare run₀ owner cpu₀ va render manager scene).done = true ∧
      ∃ required state, Built run₀ cpu₀ owner va render manager (privatePrepare run₀ owner cpu₀ va render manager scene)
        required state) := by
  have same := Unchanged.refl leased cpu₀
  unfold privatePrepare
  split
  · exact Or.inl ⟨rfl,rfl,rfl,same⟩
  rename_i arguments
  cases sizes : processRequiredBytes render with
  | none => exact Or.inl ⟨rfl,rfl,rfl,same⟩
  | some required =>
  dsimp only
  split
  · exact Or.inl ⟨rfl,rfl,rfl,same⟩
  rename_i shape
  split
  · exact Or.inl ⟨rfl,rfl,rfl,same⟩
  rename_i stranger
  split
  · exact Or.inl ⟨rfl,rfl,rfl,same⟩
  rename_i small
  have prepares : Prepares owner va render manager required := by
    simp only [decide_eq_false_iff_not,not_or,not_and,not_lt,ge_iff_le,not_le,not_not] at arguments shape stranger small
    exact ⟨arguments.1,⟨arguments.2.2.1,arguments.2.2.2.1,arguments.2.2.2.2⟩,sizes,shape.2.2,
      ⟨Nat.pos_of_ne_zero small.1,small.2.1⟩,fun present => ⟨(stranger present).1,(stranger present).2,small.2.2 present⟩⟩
  have loop := prepareRange_loop leased cpu₀ manager owner va (minTvbBlocks render.widthPx.toNat render.heightPx.toNat) required
    (decide (manager.generation = 0))
  cases result : countLoop (prepareRange owner va (minTvbBlocks render.widthPx.toNat render.heightPx.toNat) required
      (decide (manager.generation = 0))) 0 processRangeCount ⟨run₀,cpu₀,manager,{},[]⟩ with | mk done state =>
  rw [result] at loop
  cases done with
  | false => exact Or.inl ⟨rfl,rfl,rfl,(loop.2 rfl).undone leased⟩
  | true =>
  have building := loop.1 rfl
  dsimp only
  split
  · rename_i fresh
    have new : manager.generation = 0 := of_decide_eq_true fresh
    have number : (state.scene.ranges 2).va.toNat >>> 15 = heapPage va := by
      rw [building.ranges 2 (by decide)]
      show (BitVec.ofNat 64 (va + privateHeapVaOffset)).toNat >>> 15 = _
      rw [BitVec.toNat_ofNat,Nat.mod_eq_of_lt,Nat.shiftRight_eq_div_pow]
      · rfl
      unfold privateHeapVaOffset
      omega
    have blocks : required 2 / 0x20000 = heapBlocks := by
      rw [prepares.window]
      rfl
    rw [number,blocks]
    split
    · exact Or.inl ⟨rfl,rfl,rfl,building.taking.undone leased⟩
    exact Or.inr ⟨rfl,required,state,prepares,building,rfl,rfl,fun present => absurd new present,fun _ => ⟨rfl,rfl⟩⟩
  rename_i fresh
  have old : manager.generation ≠ 0 := fun new => fresh (decide_eq_true new)
  have present : state.manager = manager := building.present (decide_eq_false old)
  exact Or.inr ⟨rfl,required,state,prepares,building,rfl,rfl,fun _ => ⟨present,rfl⟩,fun new => absurd new old⟩

end WindowsOnM1.PrivateExtents
