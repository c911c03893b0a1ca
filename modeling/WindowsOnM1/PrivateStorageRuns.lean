import WindowsOnM1.PrivateStorageSound

/-!
Runs of preparations, of growths of a heap and of other calls on the pool: what holds of every
manager, and of every scene that is prepared on one.
-/
namespace WindowsOnM1.PrivateExtents
open ByteMemory Submit List Function

/-- The extents that are live after a call and were handed out before were live before, and the
    bytes of the extents that were live are the same. -/
structure Persists (run run' : PoolRun) (cpu cpu' : Memory) : Prop where
  leased : Leased run'
  back : ∀ lease ∈ run'.live, lease.extent.generation ∈ run.generations → lease ∈ run.live
  older : ∀ generation ∈ run.generations, generation ∈ run'.generations
  kept : ∀ lease ∈ run.live, ∀ x, lease.extent.Holds x → cpu' x = cpu x

variable {run run' : PoolRun} {cpu cpu' : Memory}

theorem Unchanged.persists {taken : List PrivateExtent} (unchanged : Unchanged run cpu run' cpu' taken) :
    Persists run run' cpu cpu' :=
  { unchanged with back := fun _ mem _ => unchanged.live ▸ mem }

theorem Leased.step_persists (leased : Leased run) (operation : PoolOperation) (cpu : Memory) :
    Persists run (run.step operation) cpu cpu := by
  have after := leased.step operation
  unfold PoolRun.step at after ⊢
  rcases leased.answers operation with refused | ⟨extent,pool,done,_⟩
  · rw [refused] at after ⊢
    exact ⟨after,fun _ mem _ => mem,fun _ known => known,fun _ _ _ _ => rfl⟩
  rw [done] at after ⊢
  refine ⟨after,fun lease mem known => ?_,fun generation known => ?_,fun _ _ _ _ => rfl⟩
  · cases operation with
    | free owner old => exact (mem_filter.mp mem).1
    | renew owner old =>
      obtain ⟨before,mem',rfl⟩ := mem_map.mp mem
      by_cases renewed : before.Is owner old
      · rw [if_pos renewed] at known
        exact absurd known (nodup_cons.mp after.nodup).1
      rw [if_neg renewed]
      exact mem'
    | _ =>
      rcases mem_cons.mp mem with rfl | mem
      · exact absurd known (nodup_cons.mp after.nodup).1
      exact mem
  cases operation with
  | free owner old => exact known
  | _ => exact mem_cons_of_mem _ known

theorem Took.persists (leased : Leased run) {owner : Nat} {extent : PrivateExtent} {fixed : Bool} (took : Took run run' owner extent fixed)
    (cpu : Memory) : Persists run run' cpu (zeroBytes cpu extent.offset extent.bytes) := by
  refine ⟨took.leased,fun lease mem known => ?_,fun generation known => ?_,fun lease mem x holds => ?_⟩
  · rw [took.live] at mem
    rcases mem_cons.mp mem with rfl | mem
    · exact absurd known took.fresh
    exact mem
  · rw [took.generations]
    exact mem_cons_of_mem _ known
  exact zeroBytes_outside (took.apart leased mem holds)

section Success
variable {owner va : Nat} {render : NativeRender} {manager : PrivateManager} {result : Prepared} {required : Nat → Nat}
  {state : Construction}

section
variable (built : Built run cpu owner va render manager result required state) (new : manager.generation = 0)
include built new

theorem Built.freshExtent {j : Nat} (below : j < 3) : state.manager.extents j = state.extentOf j ∧
      Mine run owner (minTvbBlocks render.widthPx.toNat render.heightPx.toNat) required state j := by
  refine ⟨?_,built.building.mine j (Nat.lt_of_lt_of_le below (by decide)) (Or.inl (decide_eq_true new))⟩
  unfold Construction.extentOf
  rw [if_pos below]

theorem Built.lists_apart : (state.manager.extents 0).offset + 16 * heapBlocks ≤ (state.manager.extents 1).offset ∨
      (state.manager.extents 1).offset + 8 * heapBlocks ≤ (state.manager.extents 0).offset := by
  obtain ⟨first,mine⟩ := built.freshExtent new (show 0 < 3 by omega)
  obtain ⟨second,mine'⟩ := built.freshExtent new (show 1 < 3 by omega)
  have leased := built.building.taking.leased
  have differ := built.building.distinct 0 1 (by omega) (by decide) (Or.inl (decide_eq_true new))
  have owns := leased.owned _ mine.live
  have owns' := leased.owned _ mine'.live
  have apart : (state.extentOf 0).blocks.Apart (state.extentOf 1).blocks := fun index covers covers' =>
    differ (congrArg (fun lease => lease.extent.generation) (leased.blocks_meet mine.live mine'.live covers covers'))
  have ordered := stretches_ordered apart owns.positive owns'.positive
  have start := owns.offset
  have start' := owns'.offset
  have positive := owns.positive
  have positive' := owns'.positive
  rw [first,second]
  dsimp only at start start' positive positive'
  unfold heapBlocks
  unfold privateUnit at start start'
  omega

theorem Built.freshList : ∀ j < 2, (state.extentOf j).bytes = privateUnit ∧
      (state.extentOf j).vaOffset + (state.extentOf j).bytes ≤ privateHeapVaOffset := by
  intro j below
  have after := built.building.taking.leased
  have mine := (built.freshExtent new (show j < 3 by omega)).2
  have sizes := processRequiredBytes_some built.prepares.sizes j (Nat.lt_of_lt_of_le below (by decide))
  have raw : requiredRaw render j ≤ 512 ∧ 0 < requiredRaw render j := by
    obtain rfl | rfl : j = 0 ∨ j = 1 := by omega
    · exact ⟨Nat.le_refl _,(by show 0 < 32 * 4 * 4; omega)⟩
    exact ⟨(by show 32 * 2 * 4 ≤ 512; omega),(by show 0 < 32 * 2 * 4; omega)⟩
  have size : (state.extentOf j).bytes = privateUnit := by
    rw [mine.size (by omega),unitsOf_whole sizes.2.1,sizes.2.2.2]
    unfold privateUnit
    omega
  have live := mine.live
  rw [decide_eq_false (show ¬ j = 2 by omega)] at live
  have low := Nat.mul_le_mul_right privateUnit (after.below _ live rfl)
  refine ⟨size,?_⟩
  rw [(after.owned _ live).vaOffset,(after.owned _ live).bytes,← Nat.add_mul]
  exact low

end

/-- The lists of a manager name the pages and the blocks of its heap window. -/
structure PageLists (cpu : Memory) (manager : PrivateManager) : Prop where
  pages : ∀ k < 4 * heapBlocks, (u32At cpu ((manager.extents 0).offset + 4 * k)).toNat * 0x8000 =
    manager.vaBase + privateHeapVaOffset + k * 0x8000
  blocks : ∀ k < heapBlocks, (u32At cpu ((manager.extents 1).offset + 8 * k)).toNat * 0x8000 =
    manager.vaBase + privateHeapVaOffset + k * heapBlock ∧ u32At cpu ((manager.extents 1).offset + 8 * k + 4) = 0

theorem page_address {va : Nat} (place : 2 ^ 25 ≤ va ∧ va < 2 ^ 39 ∧ va % 0x2000000 = 0) {k : Nat} (below : k < 4 * heapBlocks) :
    (BitVec.ofNat 32 (heapPage va + k)).toNat * 0x8000 = va + privateHeapVaOffset + k * 0x8000 := by
  unfold heapPage privateHeapVaOffset
  unfold heapBlocks at below
  rw [BitVec.toNat_ofNat,Nat.mod_eq_of_lt (by omega)]
  omega

private theorem u32At_zero {memory : Memory} {offset : Nat} (zero : ∀ k < 4, memory (offset + k) = 0) : u32At memory offset = 0 := by
  have same : u32At memory offset = u32At (fun _ => 0) offset := u32At_congr zero
  rw [same]
  show ((0 : Byte) ++ (0 : Byte)) ++ ((0 : Byte) ++ (0 : Byte)) = (0 : BitVec 32)
  decide

theorem Built.fresh_sound (built : Built run cpu owner va render manager result required state)
    (new : manager.generation = 0) (empty : manager.grownCount = 0) :
    result.manager.generation ≠ 0 ∧ ManagerSound result.manager ∧ PageLists result.cpu result.manager ∧
      (∀ j < 2, (result.manager.extents j).generation ∈ result.run.generations) ∧
      result.manager.blocks = minTvbBlocks render.widthPx.toNat render.heightPx.toNat := by
  obtain ⟨managerIs,cpuIs⟩ := built.fresh new
  have after := built.building.taking.leased
  have place := built.prepares.place
  have extents : ∀ j < 3, result.manager.extents j = state.extentOf j := by
    intro j below
    rw [managerIs]
    exact (built.freshExtent new below).1
  have lists := @Built.freshList run cpu owner va render manager result required state built new
  have first := (built.freshExtent new (show 0 < 3 by omega)).2
  have second := (built.freshExtent new (show 1 < 3 by omega)).2
  have third := (built.freshExtent new (show 2 < 3 by omega)).2
  have blocks : result.manager.blocks = minTvbBlocks render.widthPx.toNat render.heightPx.toNat := by
    rw [managerIs]
    rfl
  have known : ∀ j < 2, (result.manager.extents j).generation ∈ result.run.generations := by
    intro j below
    rw [extents j (by omega),built.run]
    exact (built.freshExtent new (by omega)).2.known
  have vaBase : result.manager.vaBase = va := by
    rw [managerIs]
    rfl
  refine ⟨?_,?_,?_,known,blocks⟩
  · rw [managerIs]
    show (state.manager.extents 0).generation ≠ 0
    exact (after.owned _ first.live).generation
  · constructor
    · rw [managerIs]
      exact built.prepares.someone
    · rw [vaBase]
      exact place
    · intro j below
      rw [extents j (by omega)]
      exact lists j below
    · rw [extents 0 (by omega),extents 1 (by omega)]
      exact built.building.distinct 0 1 (by omega) (by decide) (Or.inl (decide_eq_true new))
    · have none : result.manager.grownCount = 0 := by
        rw [managerIs]
        show state.manager.grownCount = 0
        rw [built.building.others]
        exact empty
      unfold PrivateManager.heapExtents
      rw [none,blocks,extents 2 (by omega)]
      obtain ⟨start,size⟩ := third.heap rfl
      refine ⟨_,built.prepares.blocks.1,?_,?_,rfl⟩
      · rw [start,Nat.zero_mul,Nat.add_zero]
      rw [size,Nat.sub_zero,unitsOf_whole]
      unfold heapBlock
      omega
    · rw [blocks]
      exact built.prepares.blocks.2
    rw [managerIs]
    show state.manager.grownCount ≤ heapGrows
    rw [built.building.others]
    rw [empty]
    exact Nat.zero_le _
  have listed : Listed (state.manager.extents 0).offset (state.manager.extents 1).offset (heapPage va) heapBlocks state.cpu
      (4 * heapBlocks) heapBlocks result.cpu := by
    rw [cpuIs]
    exact writeLists_listed (built.lists_apart new) state.cpu
  have same : ∀ j < 3, result.manager.extents j = state.manager.extents j := by
    intro j below
    rw [managerIs]
    rfl
  constructor
  · intro k below
    rw [same 0 (by omega),listed.pageOf k below,vaBase,page_address place below]
  intro k below
  rw [same 1 (by omega),listed.blockOf k below,vaBase,page_address place (by omega)]
  refine ⟨by unfold heapBlock; omega,u32At_zero (fun byte inside => ?_)⟩
  have apart := built.lists_apart new
  have room := lists 1 (by omega)
  rw [← (built.freshExtent new (show 1 < 3 by omega)).1] at room
  rw [listed.rest _ (by omega) (fun other within => by omega)]
  refine built.building.taking.zeroed _ second.taken _ ?_
  rw [← (built.freshExtent new (show 1 < 3 by omega)).1]
  unfold PrivateExtent.Holds
  rw [room.1]
  unfold heapBlocks at below
  unfold privateUnit
  omega

/-- A preparation that succeeded leaves the other extents as they were. -/
theorem Built.persists (leased : Leased run) (built : Built run cpu owner va render manager result required state) :
    Persists run result.run cpu result.cpu := by
  obtain ⟨leases,_,_,new,live⟩ := built.building.taking.front
  refine ⟨?_,fun lease mem known => ?_,fun generation known => ?_,fun lease mem x holds => ?_⟩
  · rw [built.run]
    exact built.building.taking.leased
  · rw [built.run,live] at mem
    exact (mem_append.mp mem).resolve_left (fun taken => new lease taken known)
  · rw [built.run]
    exact built.building.taking.older generation known
  have before := built.building.taking.kept lease mem x holds
  by_cases fresh : manager.generation = 0
  · have outside : ∀ j < 2, ¬ (state.manager.extents j).Holds x := by
      intro j below
      obtain ⟨same,mine⟩ := built.freshExtent fresh (show j < 3 by omega)
      rw [same]
      refine built.building.taking.leased.bytes_apart (built.live_old mem) mine.live ?_ holds
      rintro rfl
      exact mine.fresh (leased.known _ mem)
    have first := outside 0 (by omega)
    have second := outside 1 (by omega)
    have size : ∀ j < 2, (state.manager.extents j).bytes = privateUnit := by
      intro j below
      rw [(built.freshExtent fresh (show j < 3 by omega)).1]
      exact (built.freshList fresh j below).1
    unfold PrivateExtent.Holds at first second
    rw [size 0 (by omega)] at first
    rw [size 1 (by omega)] at second
    unfold privateUnit at first second
    rw [(built.fresh fresh).2,(writeLists_listed (built.lists_apart fresh) state.cpu).rest x,before]
    · unfold heapBlocks
      omega
    unfold heapBlocks
    intro k below
    omega
  rw [(built.present fresh).2,before]

end Success

/-- The manager after its heap grew. -/
def grownManager (manager : PrivateManager) (extent : PrivateExtent) (blocks : Nat) : PrivateManager :=
  { manager with
    grown := fun j => if j = manager.grownCount then extent else manager.grown j
    grownCount := manager.grownCount + 1
    blocks := blocks }

/-- A growth changes nothing, or takes the extent behind the last one. -/
private theorem privateGrowHeap_cases (leased : Leased run) (owner : Nat) (cpu : Memory) (manager : PrivateManager) (blocks : Nat) :
    (∃ done, privateGrowHeap run owner cpu manager blocks = ⟨done,run,cpu,manager⟩) ∨
    ∃ extent run', privateGrowHeap run owner cpu manager blocks =
        ⟨true,run',zeroBytes cpu extent.offset extent.bytes,grownManager manager extent blocks⟩ ∧
      Took run run' owner extent true ∧ manager.generation ≠ 0 ∧ manager.blocks < blocks ∧ blocks ≤ heapBlocks ∧
      manager.grownCount < heapGrows ∧ extent.vaOffset = privateHeapVaOffset + manager.blocks * heapBlock ∧
      extent.bytes = (blocks - manager.blocks) * heapBlock := by
  unfold privateGrowHeap
  split
  · exact Or.inl ⟨false,rfl⟩
  rename_i arguments
  split
  · exact Or.inl ⟨true,rfl⟩
  split
  · exact Or.inl ⟨false,rfl⟩
  rcases leased.call_allocateAt owner ((blocks - manager.blocks) * heapBlock) (privateHeapVaOffset + manager.blocks * heapBlock) with
    refused | ⟨extent,run',called,took,size,place⟩
  · rw [refused]
    exact Or.inl ⟨false,rfl⟩
  rw [called]
  simp only [not_or,not_lt,not_not] at arguments
  refine Or.inr ⟨extent,run',rfl,took,arguments.2.1,by omega,arguments.2.2.2.2,by omega,place,?_⟩
  rw [size,unitsOf_whole]
  unfold heapBlock
  omega

variable {manager : PrivateManager}

theorem ManagerSound.grown (sound : ManagerSound manager) {extent : PrivateExtent} {blocks : Nat}
    (more : manager.blocks < blocks) (bounded : blocks ≤ heapBlocks) (room : manager.grownCount < heapGrows)
    (place : extent.vaOffset = privateHeapVaOffset + manager.blocks * heapBlock)
    (size : extent.bytes = (blocks - manager.blocks) * heapBlock) : ManagerSound (grownManager manager extent blocks) := by
  refine ⟨sound.someone,sound.place,sound.lists,sound.differ,?_,bounded,room⟩
  have heap : (grownManager manager extent blocks).heapExtents = manager.heapExtents ++ [extent] := by
    unfold PrivateManager.heapExtents grownManager
    dsimp only
    rw [range_succ,map_append,map_singleton,if_pos rfl,cons_append]
    congr 2
    refine map_congr_left (fun j mem => if_neg ?_)
    exact Nat.ne_of_lt (mem_range.mp mem)
  rw [heap]
  exact sound.heap.snoc more place size

/-- What holds of a world that the calls reach. -/
structure WorldSound (world : World) : Prop where
  leased : Leased world.run
  absent : ∀ m, (world.managers m).generation = 0 → world.managers m = {} ∧ world.prepared m = []
  managers : ∀ m, (world.managers m).generation ≠ 0 → ManagerSound (world.managers m)
  known : ∀ m, (world.managers m).generation ≠ 0 → ∀ j < 2, ((world.managers m).extents j).generation ∈ world.run.generations
  lists : ∀ m, (world.managers m).generation ≠ 0 → ListsHeld world.run (world.managers m) → PageLists world.cpu (world.managers m)
  prepared : ∀ m, ∀ render ∈ world.prepared m,
    minTvbBlocks render.widthPx.toNat render.heightPx.toNat ≤ (world.managers m).blocks

theorem PageLists.persists (persists : Persists run run' cpu cpu') (sound : ManagerSound manager)
    (known : ∀ j < 2, (manager.extents j).generation ∈ run.generations)
    (lists : ListsHeld run manager → PageLists cpu manager) (held : ListsHeld run' manager) : PageLists cpu' manager := by
  have before : ListsHeld run manager := by
    intro j below
    obtain ⟨lease,mem,is⟩ := held j below
    exact ⟨lease,persists.back lease mem (by rw [is.2]; exact known j below),is⟩
  have kept : ∀ j < 2, ∀ x, (manager.extents j).offset ≤ x → x < (manager.extents j).offset + 0x10000 → cpu' x = cpu x := by
    intro j below x above inside
    obtain ⟨lease,mem,is⟩ := before j below
    refine persists.kept lease mem x ?_
    rw [is.2]
    refine ⟨above,?_⟩
    rw [(sound.lists j below).1]
    exact inside
  have old := lists before
  constructor
  · intro k below
    unfold heapBlocks at below
    rw [u32At_congr (fun byte inside => kept 0 (by omega) _ (by omega) (by omega))]
    exact old.pages k below
  intro k below
  unfold heapBlocks at below
  rw [u32At_congr (fun byte inside => kept 1 (by omega) _ (by omega) (by omega)),
    u32At_congr (fun byte inside => kept 1 (by omega) (_ + 4 + byte) (by omega) (by omega))]
  exact old.blocks k below

/-- A manager and the renders that were prepared on it, in a world. -/
structure ManagerAt (run : PoolRun) (cpu : Memory) (manager : PrivateManager) (prepared : List NativeRender) : Prop where
  absent : manager.generation = 0 → manager = {} ∧ prepared = []
  sound : manager.generation ≠ 0 → ManagerSound manager
  known : manager.generation ≠ 0 → ∀ j < 2, (manager.extents j).generation ∈ run.generations
  lists : manager.generation ≠ 0 → ListsHeld run manager → PageLists cpu manager
  prepared : ∀ render ∈ prepared, minTvbBlocks render.widthPx.toNat render.heightPx.toNat ≤ manager.blocks

variable {world : World}

theorem WorldSound.managerAt (sound : WorldSound world) (m : Nat) :
    ManagerAt world.run world.cpu (world.managers m) (world.prepared m) :=
  ⟨sound.absent m,sound.managers m,sound.known m,sound.lists m,sound.prepared m⟩

variable {prepared : List NativeRender}

theorem ManagerAt.persists (at' : ManagerAt run cpu manager prepared)
    (persists : Persists run run' cpu cpu') : ManagerAt run' cpu' manager prepared :=
  ⟨at'.absent,at'.sound,fun present j below => persists.older _ (at'.known present j below),
    fun present => (PageLists.persists persists (at'.sound present) (at'.known present) (at'.lists present)),at'.prepared⟩

theorem WorldSound.change (sound : WorldSound world) (persists : Persists world.run run' world.cpu cpu') (m : Nat)
    (at' : ManagerAt run' cpu' manager prepared) (scenes : Nat → PrivateScene) :
    WorldSound ⟨run',cpu',Function.update world.managers m manager,scenes,Function.update world.prepared m prepared⟩ := by
  have each : ∀ k, ManagerAt run' cpu' (update world.managers m manager k) (update world.prepared m prepared k) := by
    intro k
    by_cases same : k = m
    · rw [same,update_self,update_self]
      exact at'
    rw [update_of_ne same,update_of_ne same]
    exact (sound.managerAt k).persists persists
  exact ⟨persists.leased,fun k => (each k).absent,fun k => (each k).sound,fun k => (each k).known,fun k => (each k).lists,
    fun k => (each k).prepared⟩

theorem WorldSound.step (sound : WorldSound world) (call : StorageCall) : WorldSound (world.step call) := by
  cases call with
  | pool operation =>
    have persists := sound.leased.step_persists operation world.cpu
    have changed := sound.change persists 0 ((sound.managerAt 0).persists persists) world.scenes
    rw [update_eq_self,update_eq_self] at changed
    exact changed
  | prepare owner va render m s =>
    unfold World.step World.prepare
    rcases privatePrepare_cases sound.leased owner world.cpu va render (world.managers m) (world.scenes s) with
      ⟨failed,managerIs,_,unchanged⟩ | ⟨done,required,state,built⟩
    · dsimp only
      rw [failed,managerIs,if_neg Bool.false_ne_true]
      have changed := sound.change unchanged.persists m ((sound.managerAt m).persists unchanged.persists)
        (update world.scenes s (privatePrepare world.run owner world.cpu va render (world.managers m) (world.scenes s)).scene)
      rw [update_eq_self (f := world.prepared)] at changed
      exact changed
    dsimp only
    rw [done,if_pos rfl]
    have persists := built.persists sound.leased
    refine sound.change persists m ?_ _
    by_cases fresh : (world.managers m).generation = 0
    · obtain ⟨empty,none⟩ := sound.absent m fresh
      obtain ⟨present,managerSound,lists,known,blocks⟩ := built.fresh_sound fresh (by rw [empty])
      refine ⟨fun absent => absurd absent present,fun _ => managerSound,fun _ => known,fun _ _ => lists,fun other mem => ?_⟩
      rw [none] at mem
      rw [mem_singleton.mp mem,blocks]
    obtain ⟨managerIs,_⟩ := built.present fresh
    have before := (sound.managerAt m).persists persists
    rw [managerIs]
    refine ⟨fun absent => absurd absent fresh,before.sound,before.known,before.lists,fun other mem => ?_⟩
    rcases mem_cons.mp mem with rfl | mem
    · exact (built.prepares.present fresh).2.2
    exact sound.prepared m other mem
  | growHeap owner m blocks =>
  unfold World.step World.growHeap
  dsimp only
  rcases privateGrowHeap_cases sound.leased owner world.cpu (world.managers m) blocks with
    ⟨done,same⟩ | ⟨extent,run',result,took,present,more,bounded,room,place,size⟩
  · rw [same]
    rw [update_eq_self]
    exact sound
  rw [result]
  have persists := took.persists sound.leased world.cpu
  have before := (sound.managerAt m).persists persists
  have after : ManagerAt run' (zeroBytes world.cpu extent.offset extent.bytes) (grownManager (world.managers m) extent blocks)
      (world.prepared m) :=
    ⟨fun absent => absurd absent present,fun _ => (sound.managers m present).grown more bounded room place size,
      fun _ => before.known present,fun _ held => ⟨(before.lists present held).pages,(before.lists present held).blocks⟩,
      fun render mem => Nat.le_trans (sound.prepared m render mem) (Nat.le_of_lt more)⟩
  have changed := sound.change persists m after world.scenes
  rw [update_eq_self (f := world.prepared)] at changed
  exact changed

private theorem worldSound_start (cpu : Memory) : WorldSound { cpu := cpu } := by
  constructor
  · exact leased_start
  · exact fun _ _ => ⟨rfl,rfl⟩
  · exact fun _ present => absurd rfl present
  · exact fun _ present => absurd rfl present
  · exact fun _ present => absurd rfl present
  exact fun _ _ bad => absurd bad not_mem_nil

private theorem worldSound_run (cpu : Memory) (calls : List StorageCall) : WorldSound (runStorage cpu calls) := by
  have runs : ∀ world : World, WorldSound world → WorldSound (calls.foldl World.step world) := by
    induction calls with
    | nil => exact fun _ sound => sound
    | cons call rest ih => exact fun world sound => ih _ (sound.step call)
  exact runs _ (worldSound_start cpu)

/-- A call that does not free or renew a list of a manager that is present. -/
def World.Spares (world : World) : StorageCall → Prop
  | .pool (.free owner extent) | .pool (.renew owner extent) =>
    ∀ m, (world.managers m).generation ≠ 0 → ∀ j < 2, ¬ (owner = (world.managers m).owner ∧ extent = (world.managers m).extents j)
  | _ => True

/-- A run whose calls spare the lists of the managers. -/
def SparesLists : World → List StorageCall → Prop
  | _, [] => True
  | world, call :: rest => world.Spares call ∧ SparesLists (world.step call) rest

/-- The lists of every manager that is present are live. -/
def AllHeld (world : World) : Prop := ∀ m, (world.managers m).generation ≠ 0 → ListsHeld world.run (world.managers m)

theorem ListsHeld.mono (held : ListsHeld run manager) (live : ∀ lease ∈ run.live, lease ∈ run'.live) :
    ListsHeld run' manager := by
  intro j below
  obtain ⟨lease,mem,is⟩ := held j below
  exact ⟨lease,live lease mem,is⟩

theorem PoolRun.step_keeps (operation : PoolOperation) {lease : Lease} (mem : lease ∈ run.live)
    (other : ∀ owner extent, operation = .free owner extent ∨ operation = .renew owner extent → ¬ lease.Is owner extent) :
    lease ∈ (run.step operation).live := by
  unfold PoolRun.step
  rcases operation.answer run.pool with ⟨_ | extent,pool⟩
  · exact mem
  cases operation with
  | renew owner old =>
    refine mem_map.mpr ⟨lease,mem,if_neg (other owner old (Or.inr rfl))⟩
  | free owner old =>
    exact mem_filter.mpr ⟨mem,decide_eq_true (other owner old (Or.inl rfl))⟩
  | _ => exact mem_cons_of_mem _ mem

theorem AllHeld.step (sound : WorldSound world) (held : AllHeld world) {call : StorageCall} (spares : world.Spares call) :
    AllHeld (world.step call) := by
  intro k
  cases call with
  | pool operation =>
    intro present j below
    obtain ⟨lease,mem,is⟩ := held k present j below
    refine ⟨lease,PoolRun.step_keeps operation mem ?_,is⟩
    rintro owner extent (rfl | rfl) ⟨owned,same⟩
    all_goals exact spares k present j below ⟨owned.symm.trans is.1,same.symm.trans is.2⟩
  | prepare owner va render m s =>
    unfold World.step World.prepare
    dsimp only
    rcases privatePrepare_cases sound.leased owner world.cpu va render (world.managers m) (world.scenes s) with
      ⟨_,managerIs,_,unchanged⟩ | ⟨_,required,state,built⟩
    · rw [managerIs,update_eq_self]
      exact fun present => (held k present).mono (fun lease mem => by rw [unchanged.live]; exact mem)
    have older : ∀ lease ∈ world.run.live,
        lease ∈ (privatePrepare world.run owner world.cpu va render (world.managers m) (world.scenes s)).run.live := by
      intro lease mem
      rw [built.run]
      exact built.live_old mem
    by_cases same : k = m
    · rw [same,update_self]
      by_cases fresh : (world.managers m).generation = 0
      · intro _ j below
        obtain ⟨extentIs,mine⟩ := built.freshExtent fresh (show j < 3 by omega)
        rw [built.run,(built.fresh fresh).1]
        exact ⟨_,mine.live,rfl,extentIs.symm⟩
      rw [(built.present fresh).1]
      exact fun present => (held m present).mono older
    rw [update_of_ne same]
    exact fun present => (held k present).mono older
  | growHeap owner m blocks =>
  unfold World.step World.growHeap
  dsimp only
  rcases privateGrowHeap_cases sound.leased owner world.cpu (world.managers m) blocks with
    ⟨done,result⟩ | ⟨extent,run',result,took,grows,_⟩
  · rw [result]
    rw [update_eq_self]
    exact held k
  rw [result]
  have older : ∀ lease ∈ world.run.live, lease ∈ run'.live := by
    intro lease mem
    rw [took.live]
    exact mem_cons_of_mem _ mem
  by_cases same : k = m
  · rw [same]
    rw [update_self]
    exact fun _ => (held m grows).mono older
  rw [update_of_ne same]
  exact fun present => (held k present).mono older

private theorem allHeld_run (cpu : Memory) (calls : List StorageCall) (spares : SparesLists { cpu := cpu } calls) :
    AllHeld (runStorage cpu calls) := by
  have runs : ∀ world : World, WorldSound world → AllHeld world → SparesLists world calls → AllHeld (calls.foldl World.step world) := by
    clear spares
    induction calls with
    | nil => exact fun _ _ held _ => held
    | cons call rest ih => exact fun world sound held spares => ih _ (sound.step call) (held.step sound spares.1) spares.2
  exact runs _ (worldSound_start cpu) (fun _ present => absurd rfl present) spares

/-- What the calls do in a world, and what its managers have. -/
structure StorageSound (world : World) : Prop where
  prepare_fails : ∀ owner va render m s, (world.prepare owner va render m s).done = false →
    (world.prepare owner va render m s).run.pool.blocks = world.run.pool.blocks ∧
    (world.prepare owner va render m s).manager = world.managers m ∧ (world.prepare owner va render m s).scene = world.scenes s ∧
    ∀ extent ∈ (world.prepare owner va render m s).taken, ∀ x, extent.Holds x → (world.prepare owner va render m s).cpu x = 0
  grow_fails : ∀ owner m blocks, (world.growHeap owner m blocks).done = false →
    (world.growHeap owner m blocks).run.pool.blocks = world.run.pool.blocks ∧
    (world.growHeap owner m blocks).manager = world.managers m ∧ (world.growHeap owner m blocks).cpu = world.cpu
  backed : ∀ m, (world.managers m).generation ≠ 0 → ∀ x, (∃ extent ∈ (world.managers m).heapExtents, extent.HoldsVa x) ↔
    privateHeapVaOffset ≤ x ∧ x < privateHeapVaOffset + (world.managers m).blocks * heapBlock
  no_overlap : ∀ m, (world.managers m).generation ≠ 0 →
    (world.managers m).heapExtents.Pairwise (fun left right => left.vaOffset + left.bytes ≤ right.vaOffset)
  window : ∀ m, (world.managers m).generation ≠ 0 → (world.managers m).blocks ≤ heapBlocks
  enough : ∀ m, ∀ render ∈ world.prepared m, minTvbBlocks render.widthPx.toNat render.heightPx.toNat ≤ (world.managers m).blocks

/-- What a manager is good for: its scenes have usable ranges, a command outside the window composes with them,
    and its lists name the pages. -/
structure ManagerUsable (world : World) (m : Nat) : Prop where
  usable : ∀ owner va render s, (world.prepare owner va render m s).done = true →
    Usable va render (world.prepare owner va render m s).scene.ranges
  composes : ∀ owner va render s, (world.prepare owner va render m s).done = true →
    ∀ (commandVa : U64) (commandBytes colorFormat : U32), colorClassValid colorFormat = true →
      0x10000 ≤ commandVa.toNat ∧ commandVa.toNat < vaEnd ∧ commandBytes ≠ 0 ∧ commandBytes.toNat ≤ nativeMaxBytes ∧
        commandBytes.toNat ≤ vaEnd - commandVa.toNat →
      commandVa.toNat + commandBytes.toNat ≤ va ∨ va + privateVaBytes ≤ commandVa.toNat →
      (composeHeaderV2 render commandVa commandBytes colorFormat (world.prepare owner va render m s).scene.ranges).isSome = true
  lists : (world.managers m).generation ≠ 0 → PageLists world.cpu (world.managers m)

theorem WorldSound.storage (sound : WorldSound world) : StorageSound world := by
  constructor
  · intro owner va render m s failed
    rcases privatePrepare_cases sound.leased owner world.cpu va render (world.managers m) (world.scenes s) with
      ⟨_,managerIs,sceneIs,unchanged⟩ | ⟨done,_⟩
    · exact ⟨unchanged.blocks,managerIs,sceneIs,unchanged.zeroed⟩
    exact absurd (failed.symm.trans done) (by decide)
  · intro owner m blocks failed
    unfold World.growHeap at failed ⊢
    rcases privateGrowHeap_cases sound.leased owner world.cpu (world.managers m) blocks with ⟨done,same⟩ | ⟨extent,run',result,_⟩
    · rw [same]
      exact ⟨rfl,rfl,rfl⟩
    rw [result] at failed
    cases failed
  · intro m present x
    rw [(sound.managers m present).heap.covers,Nat.zero_mul,Nat.add_zero]
  · exact fun m present => (sound.managers m present).heap.apart
  · exact fun m present => (sound.managers m present).bounded
  exact sound.prepared

theorem WorldSound.usable (sound : WorldSound world) {m : Nat}
    (held : (world.managers m).generation ≠ 0 → ListsHeld world.run (world.managers m)) : ManagerUsable world m := by
  have both : (world.managers m).generation ≠ 0 → ManagerSound (world.managers m) ∧ ListsHeld world.run (world.managers m) :=
    fun present => ⟨sound.managers m present,held present⟩
  have usable : ∀ owner va render s, (world.prepare owner va render m s).done = true →
      Usable va render (world.prepare owner va render m s).scene.ranges ∧ 2 ^ 25 ≤ va ∧ va < 2 ^ 39 ∧ va % 0x2000000 = 0 := by
    intro owner va render s done
    rcases privatePrepare_cases sound.leased owner world.cpu va render (world.managers m) (world.scenes s) with
      ⟨failed,_⟩ | ⟨_,required,state,built⟩
    · exact absurd (failed.symm.trans done) (by decide)
    exact ⟨built.usable sound.leased both,built.prepares.place⟩
  refine ⟨fun owner va render s done => (usable owner va render s done).1,?_,fun present => sound.lists m present (held present)⟩
  intro owner va render s done commandVa commandBytes colorFormat color command outside
  obtain ⟨ranges,place⟩ := usable owner va render s done
  exact ranges.composes place color command outside

/-- Preparations and growths are all or nothing and the heap of a manager is backed without a gap, in every run.
    The ranges of a scene are usable and the lists of its manager name the pages while these lists are live: in
    every run that frees and renews no list of a manager that is present. -/
theorem private_storage (cpu : Memory) (calls : List StorageCall) : StorageSound (runStorage cpu calls) ∧
    (∀ m, (((runStorage cpu calls).managers m).generation ≠ 0 →
        ListsHeld (runStorage cpu calls).run ((runStorage cpu calls).managers m)) → ManagerUsable (runStorage cpu calls) m) ∧
    (SparesLists { cpu := cpu } calls → ∀ m, ManagerUsable (runStorage cpu calls) m) :=
  ⟨(worldSound_run cpu calls).storage,fun _ held => (worldSound_run cpu calls).usable held,
   fun spares m => (worldSound_run cpu calls).usable (allHeld_run cpu calls spares m)⟩

/-- A scene that is prepared, and an extent that its owner frees behind it. -/
def freeing (extent : PrivateExtent) : List StorageCall :=
  [.prepare 1 0x2000000 sampleRender 0 0,.pool (.free 1 extent)]

/-- The first extent of the scene is freed: the lists stay live, so its manager stays usable. -/
theorem private_storage_spared : ((runStorage (fun _ => 0) (freeing ⟨4,0x120000,0x20000,0x20000⟩)).managers 0).generation = 1 ∧
    ManagerUsable (runStorage (fun _ => 0) (freeing ⟨4,0x120000,0x20000,0x20000⟩)) 0 := by
  have manager : (((World.step { cpu := fun _ => 0 } (.prepare 1 0x2000000 sampleRender 0 0)).managers 0).generation = 1) ∧
      ∀ j < 2, (((World.step { cpu := fun _ => 0 } (.prepare 1 0x2000000 sampleRender 0 0)).managers 0).extents j).generation ≠ 4 := by
    decide +kernel
  refine ⟨manager.1,(private_storage (fun _ => 0) (freeing ⟨4,0x120000,0x20000,0x20000⟩)).2.2 ⟨trivial,?_,trivial⟩ 0⟩
  intro m present j below same
  by_cases first : m = 0
  · subst first
    exact manager.2 j below (congrArg PrivateExtent.generation same.2).symm
  have absent : (World.step { cpu := fun _ => 0 } (.prepare 1 0x2000000 sampleRender 0 0)).managers m = {} := update_of_ne first _ _
  exact present (by rw [absent])

/-- The next scene on a manager whose page list was freed. -/
def relisted : Prepared := (runStorage (fun _ => 0) (freeing ⟨1,0,0x10000,0⟩)).prepare 1 0x2000000 sampleRender 0 1

/-- The scene is prepared at the freed addresses, and its ranges are refused. -/
theorem freed_list_overlaps : relisted.done = true ∧ (relisted.scene.ranges 0).meets (relisted.scene.ranges 4) = true ∧
    (composeHeaderV2 sampleRender 0x10000 0x1000 colorBgra8 relisted.scene.ranges).isNone = true := by
  decide +kernel

end WindowsOnM1.PrivateExtents
