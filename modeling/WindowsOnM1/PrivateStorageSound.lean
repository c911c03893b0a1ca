import WindowsOnM1.PrivateStorageSteps

/-!
The ranges of a scene that was prepared do not meet and are large enough, the heap of every
manager is backed from its first block on, and its lists name the pages of the window.
-/
namespace WindowsOnM1.PrivateExtents
open ByteMemory CountedLoop FirstFit Submit List
open Bool hiding not_not not_or

theorem u32At_congr {memory memory' : Memory} {offset : Nat} (same : ∀ k < 4, memory (offset + k) = memory' (offset + k)) :
    u32At memory offset = u32At memory' offset := by
  have first : memory offset = memory' offset := same 0 (by omega)
  have last : memory (offset + 2 + 1) = memory' (offset + 2 + 1) := same 3 (by omega)
  unfold u32At u16At
  rw [first,same 1 (by omega),same 2 (by omega),last]

private theorem storeU32_outside {cpu : Memory} {offset x : Nat} {value : U32} (outside : ¬ (offset ≤ x ∧ x < offset + 4)) :
    storeU32 cpu offset value x = cpu x := copyTo_outside outside

private theorem u32At_storeU32 (cpu : Memory) (offset : Nat) (value : U32) : u32At (storeU32 cpu offset value) offset = value := by
  have inside : ∀ k < 4, storeU32 cpu offset value (offset + k) = contents (u32Bytes value) k := fun k below => copyTo_inside k below
  unfold u32At u16At
  rw [show offset + 2 + 1 = offset + 3 from rfl,inside 3 (by omega),inside 2 (by omega),inside 1 (by omega),
    show storeU32 cpu offset value offset = contents (u32Bytes value) 0 from inside 0 (by omega)]
  exact u32Bytes_joined value

private theorem u32At_storeU32_apart {cpu : Memory} {offset other : Nat} {value : U32} (apart : other + 4 ≤ offset ∨ offset + 4 ≤ other) :
    u32At (storeU32 cpu offset value) other = u32At cpu other :=
  u32At_congr (fun k below => storeU32_outside (by omega))

/-- The first `pages` pages and the first `blocks` blocks are listed, and the bytes behind the
    entries of `total` blocks are as before. -/
structure Listed (page block number total : Nat) (before : Memory) (pages blocks : Nat) (cpu : Memory) : Prop where
  pageOf : ∀ k < pages, u32At cpu (page + 4 * k) = BitVec.ofNat 32 (number + k)
  blockOf : ∀ k < blocks, u32At cpu (block + 8 * k) = BitVec.ofNat 32 (number + 4 * k)
  rest : ∀ x, ¬ (page ≤ x ∧ x < page + 16 * total) → (∀ k < total, ¬ (block + 8 * k ≤ x ∧ x < block + 8 * k + 4)) → cpu x = before x

section Lists
variable {page block number total pages blocks : Nat} {before cpu : Memory}

section
variable (apart : page + 16 * total ≤ block ∨ block + 8 * total ≤ page)
include apart

theorem Listed.storeBlock
    (listed : Listed page block number total before pages blocks cpu) (inside : blocks < total) (within : pages ≤ 4 * total) :
    Listed page block number total before pages (blocks + 1)
      (storeU32 cpu (block + 4 * (2 * blocks)) (BitVec.ofNat 32 (number + 4 * blocks))) := by
  constructor
  · intro k below
    rw [u32At_storeU32_apart (by omega)]
    exact listed.pageOf k below
  · intro k below
    by_cases last : k = blocks
    · rw [last,show block + 8 * blocks = block + 4 * (2 * blocks) by omega,u32At_storeU32]
    rw [u32At_storeU32_apart (by omega)]
    exact listed.blockOf k (by omega)
  intro x outside outside'
  rw [storeU32_outside]
  · exact listed.rest x outside outside'
  have other := outside' blocks inside
  omega

theorem Listed.storePage
    (listed : Listed page block number total before pages blocks cpu) (inside : pages < 4 * total) (within : blocks ≤ total) :
    Listed page block number total before (pages + 1) blocks (storeU32 cpu (page + 4 * pages) (BitVec.ofNat 32 (number + pages))) := by
  constructor
  · intro k below
    by_cases last : k = pages
    · rw [last,u32At_storeU32]
    rw [u32At_storeU32_apart (by omega)]
    exact listed.pageOf k (by omega)
  · intro k below
    rw [u32At_storeU32_apart (by omega)]
    exact listed.blockOf k below
  intro x outside outside'
  rw [storeU32_outside (by omega)]
  exact listed.rest x outside outside'

theorem writeLists_listed (cpu : Memory) :
    Listed page block number total cpu (4 * total) total (writeLists page block number total cpu) := by
  have loop : Listed page block number total cpu (4 * (0 + total)) (0 + total) (writeLists page block number total cpu) := by
    refine forRange_keeps _ (fun i after => Listed page block number total cpu (4 * i) i after) ?_ ?_
    · exact ⟨fun _ bad => absurd bad (Nat.not_lt_zero _),fun _ bad => absurd bad (Nat.not_lt_zero _),
        fun _ _ _ => rfl⟩
    intro i after _ below listed
    show Listed page block number total cpu (4 * i + (0 + 4)) (i + 1) _
    refine forRange_keeps _ (fun j after => Listed page block number total cpu (4 * i + j) (i + 1) after) ?_ ?_
    · exact listed.storeBlock apart (by omega) (by omega)
    intro j after' _ below' listed'
    have room : 4 * i + j < 4 * total := by omega
    rw [Nat.add_assoc number]
    exact listed'.storePage apart room (by omega)
  rwa [Nat.zero_add] at loop

end

end Lists

/-- Extents that back the heap blocks from `start` to `finish`, one behind the other. -/
def Backs : Nat → List PrivateExtent → Nat → Prop
  | start, [], finish => start = finish
  | start, extent :: rest, finish => ∃ middle, start < middle ∧ extent.vaOffset = privateHeapVaOffset + start * heapBlock ∧
      extent.bytes = (middle - start) * heapBlock ∧ Backs middle rest finish

variable {start finish : Nat} {extents : List PrivateExtent}

theorem Backs.le (backs : Backs start extents finish) : start ≤ finish := by
  induction extents generalizing start with
  | nil => exact Nat.le_of_eq backs
  | cons extent rest ih =>
  obtain ⟨middle,less,_,_,rest'⟩ := backs
  exact Nat.le_trans (Nat.le_of_lt less) (ih rest')

theorem Backs.snoc {middle : Nat} {extent : PrivateExtent}
    (backs : Backs start extents middle) (less : middle < finish) (place : extent.vaOffset = privateHeapVaOffset + middle * heapBlock)
    (size : extent.bytes = (finish - middle) * heapBlock) : Backs start (extents ++ [extent]) finish := by
  induction extents generalizing start with
  | nil =>
    cases backs
    exact ⟨finish,less,place,size,rfl⟩
  | cons first rest ih =>
  obtain ⟨next,less',place',size',rest'⟩ := backs
  exact ⟨next,less',place',size',ih rest'⟩

/-- An address of an extent in the window of its process. -/
def PrivateExtent.HoldsVa (extent : PrivateExtent) (x : Nat) : Prop := extent.vaOffset ≤ x ∧ x < extent.vaOffset + extent.bytes

section
variable (backs : Backs start extents finish)
include backs

theorem Backs.covers (x : Nat) : (∃ extent ∈ extents, extent.HoldsVa x) ↔
      privateHeapVaOffset + start * heapBlock ≤ x ∧ x < privateHeapVaOffset + finish * heapBlock := by
  induction extents generalizing start with
  | nil =>
    cases backs
    refine iff_of_false (fun ⟨_,nobody,_⟩ => by cases nobody) (fun ⟨above,below⟩ => ?_)
    omega
  | cons extent rest ih =>
  obtain ⟨middle,less,place,size,rest'⟩ := backs
  have le := rest'.le
  rw [exists_mem_cons_iff,ih rest']
  unfold PrivateExtent.HoldsVa
  rw [place,size]
  unfold heapBlock
  omega

theorem Backs.above : ∀ extent ∈ extents, privateHeapVaOffset + start * heapBlock ≤ extent.vaOffset := by
  induction extents generalizing start with
  | nil => exact fun _ bad => absurd bad not_mem_nil
  | cons first rest ih =>
  obtain ⟨next,less,place,_,rest'⟩ := backs
  intro extent mem
  rcases mem_cons.mp mem with rfl | mem
  · exact Nat.le_of_eq place.symm
  have later := Nat.mul_le_mul_right heapBlock (Nat.le_of_lt less)
  exact Nat.le_trans (Nat.add_le_add_left later _) (ih rest' extent mem)

theorem Backs.apart : extents.Pairwise (fun left right => left.vaOffset + left.bytes ≤ right.vaOffset) := by
  induction extents generalizing start with
  | nil => exact List.Pairwise.nil
  | cons extent rest ih =>
  obtain ⟨middle,less,place,size,rest'⟩ := backs
  refine pairwise_cons.mpr ⟨fun other mem => ?_,ih rest'⟩
  have later := rest'.above other mem
  have exactly : start * heapBlock + (middle - start) * heapBlock = middle * heapBlock := by
    rw [← Nat.add_mul,Nat.add_sub_cancel' (Nat.le_of_lt less)]
  omega

end

/-- The extents of the heap, in the order in which they were taken. -/
def PrivateManager.heapExtents (manager : PrivateManager) : List PrivateExtent :=
  manager.extents 2 :: (List.range manager.grownCount).map manager.grown

/-- A manager that is present: where its lists are, and the extents of its heap. -/
structure ManagerSound (manager : PrivateManager) : Prop where
  someone : manager.owner ≠ 0
  place : 2 ^ 25 ≤ manager.vaBase ∧ manager.vaBase < 2 ^ 39 ∧ manager.vaBase % 0x2000000 = 0
  lists : ∀ j < 2, (manager.extents j).bytes = privateUnit ∧
    (manager.extents j).vaOffset + (manager.extents j).bytes ≤ privateHeapVaOffset
  differ : (manager.extents 0).generation ≠ (manager.extents 1).generation
  heap : Backs 0 manager.heapExtents manager.blocks
  bounded : manager.blocks ≤ heapBlocks
  grows : manager.grownCount ≤ heapGrows

/-- The page list and the block list of the manager are live extents of its owner. -/
def ListsHeld (run : PoolRun) (manager : PrivateManager) : Prop :=
  ∀ j < 2, ∃ lease ∈ run.live, lease.Is manager.owner (manager.extents j)

/-- Nine ranges that do not meet, on whole units of the process window, of the sizes that the render needs. -/
structure Usable (va : Nat) (render : NativeRender) (ranges : Fin processRangeCount → ProcessRange) : Prop where
  reserved : ∀ i, (ranges i).reserved = 0
  aligned : ∀ i, (ranges i).va.toNat % 0x10000 = 0 ∧ (ranges i).bytes.toNat % 0x10000 = 0
  inside : ∀ i, va ≤ (ranges i).va.toNat ∧ (ranges i).va.toNat + (ranges i).bytes.toNat ≤ va + privateVaBytes
  enough : ∃ required, processRequiredBytes render = some required ∧ ∀ i, required i.val ≤ (ranges i).bytes.toNat
  apart : ∀ i j, i ≠ j → (ranges i).va.toNat + (ranges i).bytes.toNat ≤ (ranges j).va.toNat ∨
    (ranges j).va.toNat + (ranges j).bytes.toNat ≤ (ranges i).va.toNat

theorem stretches_ordered {left right : Stretch} (apart : left.Apart right) (positive : 0 < left.count) (positive' : 0 < right.count) :
    left.first + left.count ≤ right.first ∨ right.first + right.count ≤ left.first := by
  by_contra meets
  rw [not_or,Nat.not_le,Nat.not_le] at meets
  by_cases before : left.first ≤ right.first
  · exact apart right.first ⟨before,meets.1⟩ ⟨Nat.le_refl _,by omega⟩
  exact apart left.first ⟨Nat.le_refl _,by omega⟩ ⟨by omega,meets.2⟩

theorem unitsOf_whole {bytes : Nat} (whole : bytes % 0x10000 = 0) : unitsOf bytes * privateUnit = bytes := by
  unfold unitsOf privateUnit
  omega

/-- The extent of a range other than the heap: live, below the heap window, and large enough. -/
structure RangeExtent (run : PoolRun) (owner : Nat) (needed : Nat) (extent : PrivateExtent) : Prop where
  live : ∃ lease ∈ run.live, lease.Is owner extent
  below : extent.vaOffset + extent.bytes ≤ privateHeapVaOffset
  enough : needed ≤ extent.bytes

section Success
variable {run₀ : PoolRun} {cpu₀ : Memory} {owner va : Nat} {render : NativeRender} {manager : PrivateManager} {result : Prepared}
  {required : Nat → Nat} {state : Construction}

section
variable (built : Built run₀ cpu₀ owner va render manager result required state)
include built

theorem Built.live_old {lease : Lease} (mem : lease ∈ run₀.live) : lease ∈ state.run.live := by
  obtain ⟨leases,_,_,_,live⟩ := built.building.taking.front
  rw [live]
  exact mem_append_right _ mem

theorem Built.taken_or_list {j : Nat} (below : j < processRangeCount)
    (other : j ≠ 2) : Mine run₀ owner (minTvbBlocks render.widthPx.toNat render.heightPx.toNat) required state j ∨
      (manager.generation ≠ 0 ∧ j < 2 ∧ state.extentOf j = manager.extents j) := by
  by_cases wants : decide (manager.generation = 0) = true ∨ 3 ≤ j
  · exact Or.inl (built.building.mine j below wants)
  obtain ⟨old,early⟩ := not_or.mp wants
  refine Or.inr ⟨fun new => old (decide_eq_true new),by omega,?_⟩
  unfold Construction.extentOf
  rw [if_pos (by omega),built.building.present (eq_false_iff.mpr old)]

theorem Built.rangeExtent
    (sound : manager.generation ≠ 0 → ManagerSound manager ∧ ListsHeld run₀ manager) {j : Nat} (below : j < processRangeCount)
    (other : j ≠ 2) : RangeExtent state.run owner (required j) (state.extentOf j) := by
  have sizes := processRequiredBytes_some built.prepares.sizes j below
  rcases built.taken_or_list below other with mine | ⟨old,early,same⟩
  · have live := mine.live
    rw [decide_eq_false other] at live
    have owns := built.building.taking.leased.owned _ live
    have low := Nat.mul_le_mul_right privateUnit (built.building.taking.leased.below _ live rfl)
    refine ⟨⟨_,live,rfl,rfl⟩,?_,?_⟩
    · rw [owns.vaOffset,owns.bytes,← Nat.add_mul]
      exact low
    rw [mine.size other,unitsOf_whole sizes.2.1]
  obtain ⟨sound,held⟩ := sound old
  obtain ⟨lease,mem,is⟩ := held j early
  have lists := sound.lists j early
  rw [same]
  refine ⟨⟨lease,built.live_old mem,?_⟩,lists.2,?_⟩
  · rw [← (built.prepares.present old).1]
    exact is
  have small : requiredRaw render j ≤ 512 := by
    obtain rfl | rfl : j = 0 ∨ j = 1 := by omega
    · exact Nat.le_refl _
    show 32 * 2 * 4 ≤ 512
    omega
  rw [lists.1,sizes.2.2.2]
  unfold privateUnit
  omega

end

theorem Built.generations_differ (leased : Leased run₀) (built : Built run₀ cpu₀ owner va render manager result required state)
    (sound : manager.generation ≠ 0 → ManagerSound manager ∧ ListsHeld run₀ manager) {j k : Nat} (less : j < k)
    (below : k < processRangeCount) (other : j ≠ 2) (other' : k ≠ 2) :
    (state.extentOf j).generation ≠ (state.extentOf k).generation := by
  rcases built.taken_or_list (Nat.lt_trans less below) other with mine | ⟨old,early,same⟩
  · by_cases wants : decide (manager.generation = 0) = true ∨ 3 ≤ j
    · exact built.building.distinct j k less below wants
    obtain ⟨present,early⟩ := not_or.mp wants
    have old : manager.generation ≠ 0 := fun new => present (decide_eq_true new)
    obtain ⟨_,held⟩ := sound old
    obtain ⟨lease,mem,is⟩ := held j (by omega)
    have extent : state.extentOf j = manager.extents j := by
      unfold Construction.extentOf
      rw [if_pos (by omega),built.building.present (eq_false_iff.mpr present)]
    refine absurd ?_ mine.fresh
    rw [extent,← is.2]
    exact leased.known lease mem
  obtain ⟨sound,held⟩ := sound old
  obtain ⟨lease,mem,is⟩ := held j early
  have known : (state.extentOf j).generation ∈ run₀.generations := by
    rw [same,← is.2]
    exact leased.known lease mem
  rcases built.taken_or_list below other' with mine | ⟨_,early',same'⟩
  · exact fun equal => mine.fresh (equal ▸ known)
  obtain ⟨rfl,rfl⟩ : j = 0 ∧ k = 1 := by omega
  rw [same,same']
  exact sound.differ

theorem Built.extents_ordered (leased : Leased run₀) (built : Built run₀ cpu₀ owner va render manager result required state)
    (sound : manager.generation ≠ 0 → ManagerSound manager ∧ ListsHeld run₀ manager) {j k : Nat} (less : j < k)
    (below : k < processRangeCount) (other : j ≠ 2) (other' : k ≠ 2) :
    (state.extentOf j).vaOffset + (state.extentOf j).bytes ≤ (state.extentOf k).vaOffset ∨
      (state.extentOf k).vaOffset + (state.extentOf k).bytes ≤ (state.extentOf j).vaOffset := by
  obtain ⟨left,mem,owned,isLeft⟩ := (built.rangeExtent sound (Nat.lt_trans less below) other).live
  obtain ⟨right,mem',owned',isRight⟩ := (built.rangeExtent sound below other').live
  have differ := built.generations_differ leased sound less below other other'
  have run := built.building.taking.leased
  have owns := run.owned left mem
  have owns' := run.owned right mem'
  rw [← isLeft,← isRight] at differ ⊢
  have apart : left.extent.va.Apart right.extent.va := by
    intro address covers covers'
    exact differ (congrArg (fun lease => lease.extent.generation) (run.va_meet mem mem' (owned.trans owned'.symm) covers covers'))
  have ordered := stretches_ordered apart owns.positive owns'.positive
  rw [owns.vaOffset,owns.bytes,owns'.vaOffset,owns'.bytes,← Nat.add_mul,← Nat.add_mul]
  rcases ordered with first | second
  · exact Or.inl (Nat.mul_le_mul_right _ first)
  exact Or.inr (Nat.mul_le_mul_right _ second)

theorem Built.range (built : Built run₀ cpu₀ owner va render manager result required state)
    (sound : manager.generation ≠ 0 → ManagerSound manager ∧ ListsHeld run₀ manager) (i : Fin processRangeCount) :
    (result.scene.ranges i).reserved = 0 ∧
    ((i.val = 2 ∧ (result.scene.ranges i).va.toNat = va + privateHeapVaOffset ∧
      (result.scene.ranges i).bytes.toNat = heapBlocks * heapBlock) ∨
    (i.val ≠ 2 ∧ (result.scene.ranges i).va.toNat = va + (state.extentOf i).vaOffset ∧
      (result.scene.ranges i).bytes.toNat = (state.extentOf i).bytes)) := by
  have place := built.prepares.place
  have same : result.scene.ranges i = rangeOf va required (state.extentOf i) i := by
    rw [built.scene]
    exact built.building.ranges i i.isLt
  rw [same]
  unfold rangeOf
  by_cases heap : i.val = 2
  · rw [if_pos heap,built.prepares.window]
    refine ⟨rfl,Or.inl ⟨heap,?_,rfl⟩⟩
    rw [BitVec.toNat_ofNat,Nat.mod_eq_of_lt]
    unfold privateHeapVaOffset
    omega
  rw [if_neg heap]
  have extent := (built.rangeExtent sound i.isLt heap).below
  unfold privateHeapVaOffset at extent
  refine ⟨rfl,Or.inr ⟨heap,?_,?_⟩⟩
  · rw [BitVec.toNat_ofNat,Nat.mod_eq_of_lt]
    omega
  rw [BitVec.toNat_ofNat,Nat.mod_eq_of_lt]
  omega

theorem Built.usable (leased : Leased run₀) (built : Built run₀ cpu₀ owner va render manager result required state)
    (sound : manager.generation ≠ 0 → ManagerSound manager ∧ ListsHeld run₀ manager) : Usable va render result.scene.ranges := by
  have place := built.prepares.place
  have window : privateHeapVaOffset + heapBlocks * heapBlock = privateVaBytes := by decide
  have whole : privateHeapVaOffset % 0x10000 = 0 := by decide
  have units : heapBlocks * heapBlock % 0x10000 = 0 := by decide
  constructor
  · exact fun i => (built.range sound i).1
  · intro i
    obtain ⟨_,⟨_,vaIs,bytesIs⟩ | ⟨other,vaIs,bytesIs⟩⟩ := built.range sound i
    · omega
    obtain ⟨lease,mem,_,is⟩ := (built.rangeExtent sound i.isLt other).live
    have owns := built.building.taking.leased.owned lease mem
    have start := owns.vaOffset
    have size := owns.bytes
    rw [is] at start size
    rw [vaIs,bytesIs,start,size]
    unfold privateUnit
    omega
  · intro i
    obtain ⟨_,⟨_,vaIs,bytesIs⟩ | ⟨other,vaIs,bytesIs⟩⟩ := built.range sound i
    · rw [vaIs,bytesIs]
      omega
    have below := (built.rangeExtent sound i.isLt other).below
    omega
  · refine ⟨required,built.prepares.sizes,fun i => ?_⟩
    obtain ⟨_,⟨heap,_,bytesIs⟩ | ⟨other,_,bytesIs⟩⟩ := built.range sound i
    · rw [bytesIs,heap,built.prepares.window]
    rw [bytesIs]
    exact (built.rangeExtent sound i.isLt other).enough
  have ordered : ∀ i j : Fin processRangeCount, i.val < j.val →
      (result.scene.ranges i).va.toNat + (result.scene.ranges i).bytes.toNat ≤ (result.scene.ranges j).va.toNat ∨
      (result.scene.ranges j).va.toNat + (result.scene.ranges j).bytes.toNat ≤ (result.scene.ranges i).va.toNat := by
    intro i j less
    obtain ⟨_,⟨heap,vaIs,bytesIs⟩ | ⟨other,vaIs,bytesIs⟩⟩ := built.range sound i
    · obtain ⟨_,⟨heap',_,_⟩ | ⟨other',vaIs',bytesIs'⟩⟩ := built.range sound j
      · omega
      have below := (built.rangeExtent sound j.isLt other').below
      omega
    have below := (built.rangeExtent sound i.isLt other).below
    obtain ⟨_,⟨heap',vaIs',bytesIs'⟩ | ⟨other',vaIs',bytesIs'⟩⟩ := built.range sound j
    · omega
    have apart := built.extents_ordered leased sound less j.isLt other other'
    omega
  intro i j differ
  rcases Nat.lt_or_gt_of_ne (fun same => differ (Fin.ext same)) with less | more
  · exact ordered i j less
  exact (ordered j i more).symm

end Success

/-- The user mode driver composes a header of usable ranges for every command outside the window. -/
theorem Usable.composes {va : Nat} {render : NativeRender} {ranges : Fin processRangeCount → ProcessRange} (usable : Usable va render ranges)
    (place : 2 ^ 25 ≤ va ∧ va < 2 ^ 39 ∧ va % 0x2000000 = 0) {commandVa : U64} {commandBytes colorFormat : U32}
    (color : colorClassValid colorFormat = true) (command : 0x10000 ≤ commandVa.toNat ∧ commandVa.toNat < vaEnd ∧ commandBytes ≠ 0 ∧
      commandBytes.toNat ≤ nativeMaxBytes ∧ commandBytes.toNat ≤ vaEnd - commandVa.toNat)
    (outside : commandVa.toNat + commandBytes.toNat ≤ va ∨ va + privateVaBytes ≤ commandVa.toNat) :
    (composeHeaderV2 render commandVa commandBytes colorFormat ranges).isSome = true := by
  obtain ⟨required,sizes,enough⟩ := usable.enough
  unfold composeHeaderV2
  rw [sizes]
  dsimp only
  have valid : ¬ (colorClassValid colorFormat = false ∨ commandVa.toNat < 0x10000 ∨ commandVa.toNat ≥ vaEnd ∨ commandBytes = 0 ∨
      commandBytes.toNat > nativeMaxBytes ∨ commandBytes.toNat > vaEnd - commandVa.toNat) := by
    rw [color]
    obtain ⟨low,high,nonempty,small,fits⟩ := command
    simp only [not_or,not_lt,not_le,ge_iff_le]
    exact ⟨by decide,low,high,nonempty,small,fits⟩
  have accepted : (finRange processRangeCount).any (composeRangeRefused required commandVa.toNat commandBytes.toNat ranges) = false := by
    refine any_eq_false.mpr (fun i _ => ?_)
    have inside := usable.inside i
    have aligned := usable.aligned i
    have size := enough i
    have nonempty := (processRequiredBytes_some sizes i i.isLt).1
    have last : vaEnd = 2 ^ 39 := rfl
    unfold privateVaBytes at *
    rw [not_eq_true]
    unfold composeRangeRefused rangesOverlap
    rw [or_eq_false_iff,or_eq_false_iff]
    refine ⟨⟨?_,?_⟩,any_eq_false.mpr (fun j _ => ?_)⟩
    · refine decide_eq_false ?_
      simp only [not_or,not_lt,not_le,ge_iff_le,not_not]
      refine ⟨usable.reserved i,?_⟩
      omega
    · rw [and_eq_false_iff]
      simp only [decide_eq_false_iff_not]
      omega
    rw [not_eq_true,and_eq_false_iff,decide_eq_false_iff_not]
    by_cases less : j < i
    · refine Or.inr ?_
      have apart := usable.apart i j (Fin.ne_of_gt less)
      unfold ProcessRange.meets rangesOverlap
      rw [and_eq_false_iff]
      simp only [decide_eq_false_iff_not]
      omega
    exact Or.inl less
  rw [if_neg valid,if_neg (by rw [accepted]; decide)]
  rfl

end WindowsOnM1.PrivateExtents
