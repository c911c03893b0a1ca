import WindowsOnM1.PrivatePoolSteps

/-!
Every run of calls on a pool keeps the records and the leases together: the live extents never
meet, and a lease that is not live is refused.
-/
namespace WindowsOnM1.PrivateExtents
open FirstFit List

variable {state : PoolRun}

theorem Owns.of_same {pool pool' : PrivatePool} {owner : Nat} {extent : PrivateExtent} (owns : Owns pool owner extent)
    (same : ∀ index, extent.blocks.Covers index → pool'.blocks index = pool.blocks index) : Owns pool' owner extent :=
  { owns with recorded := fun index covers => (same index covers).trans (owns.recorded index covers) }
theorem ownedUnits_cons (lease : Lease) (live : List Lease) (owner : Nat) : ownedUnits (lease :: live) owner =
    (if lease.owner = owner then lease.extent.blocks.count else 0) + ownedUnits live owner := by
  unfold ownedUnits
  by_cases same : lease.owner = owner <;> simp [same]
private theorem grantedPool_inside {owner bytes first vaFirst index : Nat} (covers : (⟨first,unitsOf bytes⟩ : Stretch).Covers index) :
    (grantedPool state owner bytes first vaFirst).blocks index =
      ⟨owner,state.pool.nextGeneration + 1,first,unitsOf bytes,vaFirst⟩ :=
  if_pos covers
theorem grantedPool_outside {owner bytes first vaFirst index : Nat} (apart : ¬ (⟨first,unitsOf bytes⟩ : Stretch).Covers index) :
    (grantedPool state owner bytes first vaFirst).blocks index = state.pool.blocks index :=
  if_neg apart

private theorem grantedExtent_blocks (state : PoolRun) (bytes first vaFirst : Nat) :
    (grantedExtent state bytes first vaFirst).blocks = ⟨first,unitsOf bytes⟩ := by
  have positive : 0 < privateUnit := by decide
  unfold PrivateExtent.blocks grantedExtent
  rw [Nat.mul_div_cancel _ positive,Nat.mul_div_cancel _ positive]

private theorem grantedExtent_va (state : PoolRun) (bytes first vaFirst : Nat) :
    (grantedExtent state bytes first vaFirst).va = ⟨vaFirst,unitsOf bytes⟩ := by
  have positive : 0 < privateUnit := by decide
  unfold PrivateExtent.va grantedExtent
  rw [Nat.mul_div_cancel _ positive,Nat.mul_div_cancel _ positive]

section
variable (leased : Leased state)
include leased

theorem Leased.next_new : ∀ generation ∈ state.generations, generation ≠ state.pool.nextGeneration + 1 := by
  intro generation mem
  have le := leased.handed generation mem
  rw [leased.counted]
  omega

theorem Leased.handed_next : (∀ generation ∈ (state.pool.nextGeneration + 1) :: state.generations,
    generation ≤ ((state.pool.nextGeneration + 1) :: state.generations).length) ∧
    ((state.pool.nextGeneration + 1) :: state.generations).Nodup := by
  refine ⟨fun generation mem => ?_,nodup_cons.mpr ⟨fun mem => leased.next_new _ mem rfl,leased.nodup⟩⟩
  rcases mem_cons.mp mem with rfl | mem
  · rw [leased.counted]
    exact Nat.le_refl _
  exact Nat.le_succ_of_le (leased.handed generation mem)

/-- An allocation that is placed keeps the records and the leases together. -/
theorem Leased.granted {owner bytes first vaFirst : Nat} {vaUnit : Option Nat} {fixed : Bool}
    (placed : Placed state owner bytes vaUnit first vaFirst) (general : fixed = false → vaUnit = none) :
    Leased ⟨grantedPool state owner bytes first vaFirst,⟨owner,grantedExtent state bytes first vaFirst,fixed⟩ :: state.live,
      (state.pool.nextGeneration + 1) :: state.generations⟩ := by
  have blocks := grantedExtent_blocks state bytes first vaFirst
  have va := grantedExtent_va state bytes first vaFirst
  constructor
  · intro lease mem
    rcases mem_cons.mp mem with rfl | mem
    · refine ⟨placed.someone,Nat.succ_ne_zero _,?_,?_,?_,?_,?_,?_,?_⟩
      · rw [blocks]
        exact unitsOf_positive placed.nonempty
      · rw [blocks]
        rfl
      · rw [blocks]
        rfl
      · rw [va]
        rfl
      · rw [blocks]
        exact placed.inside
      · rw [blocks,va]
        exact placed.within.inside
      intro index covers
      rw [blocks] at covers
      unfold PrivateExtent.record
      rw [blocks,va]
      exact grantedPool_inside covers
    exact (leased.owned lease mem).of_same (fun index covers => grantedPool_outside (fun covers' =>
      placed.blocks lease mem index covers' covers))
  · intro index
    by_cases covers : (⟨first,unitsOf bytes⟩ : Stretch).Covers index
    · exact Or.inr ⟨_,mem_cons_self,by rw [blocks]; exact covers⟩
    rcases leased.covered index with empty | ⟨lease,mem,covers'⟩
    · exact Or.inl ((grantedPool_outside covers).trans empty)
    exact Or.inr ⟨lease,mem_cons_of_mem _ mem,covers'⟩
  · refine pairwise_cons.mpr ⟨fun lease mem => ?_,leased.distinct⟩
    exact (leased.next_new _ (leased.known lease mem)).symm
  · refine pairwise_cons.mpr ⟨fun lease mem same => ?_,leased.va_apart⟩
    rw [va]
    exact placed.addresses lease mem same.symm
  · intro other
    rw [ownedUnits_cons,blocks]
    split
    · rename_i same
      rw [← same,Nat.add_comm]
      exact placed.quota
    rw [Nat.zero_add]
    exact leased.quota other
  · intro lease mem unfixed
    rcases mem_cons.mp mem with rfl | mem
    · have within := placed.within
      rw [general unfixed] at within
      rw [blocks,va]
      exact within
    exact leased.below lease mem unfixed
  · intro lease mem
    rcases mem_cons.mp mem with rfl | mem
    · exact mem_cons_self
    exact mem_cons_of_mem _ (leased.known lease mem)
  · show state.pool.nextGeneration + 1 = state.generations.length + 1
    rw [leased.counted]
  · exact leased.handed_next.1
  exact leased.handed_next.2

theorem Leased.blocks_meet {left right : Lease} (mem : left ∈ state.live) (mem' : right ∈ state.live)
    {index : Nat} (covers : left.extent.blocks.Covers index) (covers' : right.extent.blocks.Covers index) : left = right := by
  have record := (leased.owned left mem).recorded index covers
  rw [(leased.owned right mem').recorded index covers'] at record
  exact leased.record_unique mem mem' (congrArg PrivateBlock.generation record).symm

end

/-- The change of a renewal: one lease gets a new generation. -/
def renewLease (owner : Nat) (extent : PrivateExtent) (generation : Nat) (lease : Lease) : Lease :=
  if lease.Is owner extent then { lease with extent := { extent with generation := generation } } else lease

section Renewed
variable {owner : Nat} {extent : PrivateExtent} {generation : Nat}

theorem renewLease_same (lease : Lease) : (renewLease owner extent generation lease).owner = lease.owner ∧
    (renewLease owner extent generation lease).fixed = lease.fixed ∧
    (renewLease owner extent generation lease).extent.blocks = lease.extent.blocks ∧
    (renewLease owner extent generation lease).extent.va = lease.extent.va := by
  unfold renewLease
  split
  · rename_i renewed
    obtain ⟨_,rfl⟩ := renewed
    exact ⟨rfl,rfl,rfl,rfl⟩
  exact ⟨rfl,rfl,rfl,rfl⟩

private theorem ownedUnits_renewed (live : List Lease) (other : Nat) :
    ownedUnits (live.map (renewLease owner extent generation)) other = ownedUnits live other := by
  induction live with
  | nil => rfl
  | cons lease rest ih =>
  obtain ⟨same,_,blocks,_⟩ := @renewLease_same owner extent generation lease
  rw [map_cons,ownedUnits_cons,ownedUnits_cons,ih,same,blocks]

def renewedPool (state : PoolRun) (extent : PrivateExtent) : PrivatePool :=
  state.pool.fill extent.blocks.first extent.blocks.count (state.pool.nextGeneration + 1)
    (fun block => { block with generation := state.pool.nextGeneration + 1 })
private theorem renewedPool_inside {index : Nat} (covers : extent.blocks.Covers index) :
    (renewedPool state extent).blocks index = { state.pool.blocks index with generation := state.pool.nextGeneration + 1 } :=
  if_pos covers
theorem renewedPool_outside {index : Nat} (apart : ¬ extent.blocks.Covers index) :
    (renewedPool state extent).blocks index = state.pool.blocks index :=
  if_neg apart

/-- A renewal of a live extent keeps the records and the leases together. -/
theorem Leased.renewed (leased : Leased state) (owns : Owns state.pool owner extent) :
    Leased ⟨renewedPool state extent,state.live.map (renewLease owner extent (state.pool.nextGeneration + 1)),
      (state.pool.nextGeneration + 1) :: state.generations⟩ := by
  obtain ⟨lease₀,member₀,is₀⟩ := leased.owns_iff.mp owns
  constructor
  · intro lease' listed
    obtain ⟨lease,mem,rfl⟩ := mem_map.mp listed
    have held := leased.owned lease mem
    unfold renewLease
    split
    · rename_i renewed
      obtain ⟨rfl,rfl⟩ := renewed
      refine { held with generation := Nat.succ_ne_zero _, recorded := ?_ }
      intro index covers
      have covers' : lease.extent.blocks.Covers index := covers
      exact (renewedPool_inside covers').trans (by rw [held.recorded index covers']; rfl)
    rename_i renewed
    refine held.of_same (fun index covers => renewedPool_outside (fun covers' => renewed ?_))
    obtain ⟨rfl,rfl⟩ := is₀
    rw [leased.blocks_meet mem member₀ covers covers']
    exact ⟨rfl,rfl⟩
  · intro index
    by_cases covers : extent.blocks.Covers index
    · refine Or.inr ⟨_,mem_map_of_mem member₀,?_⟩
      rw [(renewLease_same lease₀).2.2.1,is₀.2]
      exact covers
    rcases leased.covered index with empty | ⟨lease,mem,covers'⟩
    · exact Or.inl ((renewedPool_outside covers).trans empty)
    refine Or.inr ⟨_,mem_map_of_mem mem,?_⟩
    rw [(renewLease_same lease).2.2.1]
    exact covers'
  · refine pairwise_map.mpr (leased.distinct.imp_of_mem (fun {left right} mem mem' differ => ?_))
    have first := leased.next_new _ (leased.known left mem)
    have second := leased.next_new _ (leased.known right mem')
    unfold renewLease
    by_cases renewed : left.Is owner extent
    · by_cases renewed' : right.Is owner extent
      · exact absurd (congrArg PrivateExtent.generation (renewed.2.trans renewed'.2.symm)) differ
      rw [if_pos renewed,if_neg renewed']
      exact second.symm
    by_cases renewed' : right.Is owner extent
    · rw [if_neg renewed,if_pos renewed']
      exact first
    rw [if_neg renewed,if_neg renewed']
    exact differ
  · refine pairwise_map.mpr (leased.va_apart.imp (fun {left right} apart => ?_))
    rw [(renewLease_same left).1,(renewLease_same right).1,(renewLease_same left).2.2.2,(renewLease_same right).2.2.2]
    exact apart
  · intro other
    rw [ownedUnits_renewed]
    exact leased.quota other
  · intro lease' listed unfixed
    obtain ⟨lease,mem,rfl⟩ := mem_map.mp listed
    obtain ⟨_,same,blocks,va⟩ := @renewLease_same owner extent (state.pool.nextGeneration + 1) lease
    rw [blocks,va]
    exact leased.below lease mem (same.symm.trans unfixed)
  · intro lease' listed
    obtain ⟨lease,mem,rfl⟩ := mem_map.mp listed
    unfold renewLease
    split
    · exact mem_cons_self
    exact mem_cons_of_mem _ (leased.known lease mem)
  · show state.pool.nextGeneration + 1 = state.generations.length + 1
    rw [leased.counted]
  · exact leased.handed_next.1
  exact leased.handed_next.2

end Renewed

private theorem ownedUnits_filter (live : List Lease) (kept : Lease → Bool) (owner : Nat) :
    ownedUnits (live.filter kept) owner ≤ ownedUnits live owner := by
  induction live with
  | nil => exact Nat.le_refl _
  | cons lease rest ih =>
  rw [filter_cons,ownedUnits_cons]
  split
  · rw [ownedUnits_cons]
    exact Nat.add_le_add_left ih _
  exact Nat.le_add_left_of_le ih

/-- The pool after an extent was freed. -/
def freedPool (state : PoolRun) (extent : PrivateExtent) : PrivatePool :=
  state.pool.fill extent.blocks.first extent.blocks.count state.pool.nextGeneration (fun _ => {})

variable {owner : Nat} {extent : PrivateExtent}

/-- A free of a live extent keeps the records and the leases together. -/
theorem Leased.freed (leased : Leased state) (owns : Owns state.pool owner extent) :
    Leased ⟨freedPool state extent,state.live.filter (fun lease => ¬ lease.Is owner extent),state.generations⟩ := by
  have kept : ∀ lease ∈ state.live.filter (fun lease => ¬ lease.Is owner extent), lease ∈ state.live ∧ ¬ lease.Is owner extent :=
    fun lease mem => ⟨(mem_filter.mp mem).1,of_decide_eq_true (mem_filter.mp mem).2⟩
  obtain ⟨lease₀,member₀,is₀⟩ := leased.owns_iff.mp owns
  constructor
  · intro lease listed
    obtain ⟨mem,other⟩ := kept lease listed
    refine (leased.owned lease mem).of_same (fun index covers => if_neg (fun covers' => other ?_))
    obtain ⟨rfl,rfl⟩ := is₀
    rw [leased.blocks_meet mem member₀ covers covers']
    exact ⟨rfl,rfl⟩
  · intro index
    by_cases covers : extent.blocks.Covers index
    · exact Or.inl (if_pos covers)
    rcases leased.covered index with empty | ⟨lease,mem,covers'⟩
    · exact Or.inl ((if_neg covers).trans empty)
    refine Or.inr ⟨lease,mem_filter.mpr ⟨mem,decide_eq_true (fun is => covers ?_)⟩,covers'⟩
    rw [← is.2]
    exact covers'
  · exact leased.distinct.filter _
  · exact leased.va_apart.filter _
  · exact fun other => Nat.le_trans (ownedUnits_filter _ _ other) (leased.quota other)
  · exact fun lease listed => leased.below lease (kept lease listed).1
  · exact fun lease listed => leased.known lease (kept lease listed).1
  · exact leased.counted
  · exact leased.handed
  exact leased.nodup

variable {pool : PrivatePool}

theorem privateRenew_owned (owns : Owns pool owner extent)
    (fresh : pool.nextGeneration ≠ generationLimit) : privateRenew pool owner extent =
      (some { extent with generation := pool.nextGeneration + 1 },pool.fill extent.blocks.first extent.blocks.count
        (pool.nextGeneration + 1) (fun block => { block with generation := pool.nextGeneration + 1 })) := by
  unfold privateRenew
  rw [privateOwned_iff.mpr ⟨owns,rfl⟩]
  exact if_neg fresh

theorem privateRenew_refused (refused : ¬ Owns pool owner extent ∨ pool.nextGeneration = generationLimit) :
    privateRenew pool owner extent = (none,pool) := by
  unfold privateRenew
  rcases refused with stranger | exhausted
  · rw [privateOwned_none stranger]
  cases privateOwned pool owner extent with
  | none => rfl
  | some range => exact if_pos exhausted

theorem privateFree_owned (owns : Owns pool owner extent) : privateFree pool owner extent =
      (true,pool.fill extent.blocks.first extent.blocks.count pool.nextGeneration (fun _ => {})) := by
  unfold privateFree
  rw [privateOwned_iff.mpr ⟨owns,rfl⟩]
theorem privateFree_refused (stranger : ¬ Owns pool owner extent) : privateFree pool owner extent = (false,pool) := by
  unfold privateFree
  rw [privateOwned_none stranger]
theorem low_bits_va (vaOffset : Nat) : vaOffset &&& (privateUnit - 1) ≠ 0 ↔ vaOffset % privateUnit ≠ 0 :=
  not_congr (low_bits_zero vaOffset)

/-- Every call either succeeds on live extents or free places, or is refused and leaves the pool. -/
theorem Leased.answers (leased : Leased state) (operation : PoolOperation) :
    operation.answer state.pool = (none,state.pool) ∨ ∃ extent pool, operation.answer state.pool = (some extent,pool) ∧
      Leased ⟨pool,operation.leases extent state.live,operation.handedOut extent state.generations⟩ := by
  cases operation with
  | allocate owner bytes =>
    rcases leased.allocateVa_spec owner bytes none with ⟨first,vaFirst,placed,result⟩ | ⟨_,result⟩
    · exact Or.inr ⟨_,_,result,leased.granted placed (fun _ => rfl)⟩
    exact Or.inl result
  | allocateAt owner bytes vaOffset =>
    by_cases unaligned : vaOffset &&& (privateUnit - 1) ≠ 0
    · exact Or.inl (if_pos unaligned)
    have same : privateAllocateAt state.pool owner bytes vaOffset =
        privateAllocateVa state.pool owner bytes (some (vaOffset / privateUnit)) := if_neg unaligned
    rcases leased.allocateVa_spec owner bytes (some (vaOffset / privateUnit)) with ⟨first,vaFirst,placed,result⟩ | ⟨_,result⟩
    · exact Or.inr ⟨_,_,same.trans result,leased.granted placed nofun⟩
    exact Or.inl (same.trans result)
  | renew owner extent =>
    by_cases refused : ¬ Owns state.pool owner extent ∨ state.pool.nextGeneration = generationLimit
    · exact Or.inl (privateRenew_refused refused)
    rw [not_or,not_not] at refused
    exact Or.inr ⟨_,_,privateRenew_owned refused.1 refused.2,leased.renewed refused.1⟩
  | free owner extent =>
  have answer : (PoolOperation.free owner extent).answer state.pool = ((if (privateFree state.pool owner extent).1 = true then
      some extent else none),(privateFree state.pool owner extent).2) := rfl
  rw [answer]
  by_cases owns : Owns state.pool owner extent
  · rw [privateFree_owned owns]
    exact Or.inr ⟨_,_,rfl,leased.freed owns⟩
  rw [privateFree_refused owns]
  exact Or.inl rfl

theorem Leased.step (leased : Leased state) (operation : PoolOperation) : Leased (state.step operation) := by
  unfold PoolRun.step
  rcases leased.answers operation with refused | ⟨extent,pool,done,after⟩
  · rw [refused]
    exact leased
  rw [done]
  exact after

theorem leased_start : Leased {} := by
  constructor
  · exact fun _ bad => absurd bad not_mem_nil
  · exact fun _ => Or.inl rfl
  · exact List.Pairwise.nil
  · exact List.Pairwise.nil
  · exact fun _ => Nat.zero_le _
  · exact fun _ bad => absurd bad not_mem_nil
  · exact fun _ bad => absurd bad not_mem_nil
  · rfl
  · exact fun _ bad => absurd bad not_mem_nil
  exact nodup_nil

theorem leased_run (operations : List PoolOperation) : Leased (runPool operations) := by
  have runs : ∀ (state : PoolRun), Leased state → Leased (operations.foldl PoolRun.step state) := by
    induction operations with
    | nil => exact fun _ leased => leased
    | cons operation rest ih => exact fun state leased => ih _ (leased.step operation)
  exact runs {} leased_start

/-- The live extents, the blocks and the generations of a pool. -/
structure Separate (state : PoolRun) : Prop where
  whole : ∀ lease ∈ state.live, lease.extent.offset = lease.extent.blocks.first * privateUnit ∧
    lease.extent.bytes = lease.extent.blocks.count * privateUnit ∧ lease.extent.vaOffset = lease.extent.va.first * privateUnit ∧
    0 < lease.extent.bytes ∧ lease.extent.offset + lease.extent.bytes ≤ privateUnits * privateUnit ∧
    lease.extent.vaOffset + lease.extent.bytes ≤ privateVaBytes
  blocks_apart : state.live.Pairwise (fun left right => left.extent.blocks.Apart right.extent.blocks)
  va_apart : state.live.Pairwise (fun left right => left.owner = right.owner → left.extent.va.Apart right.extent.va)
  quota : ∀ owner, ownedUnits state.live owner ≤ processUnits
  below_heap : ∀ lease ∈ state.live, lease.fixed = false → lease.extent.vaOffset + lease.extent.bytes ≤ privateHeapVaOffset
  zero : ∀ index, (∀ lease ∈ state.live, ¬ lease.extent.blocks.Covers index) → state.pool.blocks index = {}
  current : ∀ lease ∈ state.live, lease.extent.generation ∈ state.generations
  once : state.generations.Nodup

/-- What keeps an allocation of `bytes` from an owner, wherever it is to stand. -/
def NoRoom (state : PoolRun) (owner bytes : Nat) : Prop :=
  owner = 0 ∨ bytes = 0 ∨ 8 <<< 20 < bytes ∨ state.generations.length = generationLimit ∨
    processUnits < ownedUnits state.live owner + unitsOf bytes ∨
    ∀ first, first + unitsOf bytes ≤ privateUnits → ¬ BlocksFree state.live ⟨first,unitsOf bytes⟩

/-- What the calls answer in a state. -/
structure Answers (state : PoolRun) : Prop where
  allocate : ∀ owner bytes, (privateAllocate state.pool owner bytes).1 = none ↔ NoRoom state owner bytes ∨
    ∀ vaFirst, vaFirst + unitsOf bytes ≤ privateGeneralVaUnits → ¬ VaFree state.live owner ⟨vaFirst,unitsOf bytes⟩
  allocateAt : ∀ owner bytes vaOffset, (privateAllocateAt state.pool owner bytes vaOffset).1 = none ↔ NoRoom state owner bytes ∨
    vaOffset % privateUnit ≠ 0 ∨ privateVaUnits < vaOffset / privateUnit + unitsOf bytes ∨
    ¬ VaFree state.live owner ⟨vaOffset / privateUnit,unitsOf bytes⟩
  renew : ∀ owner extent, (privateRenew state.pool owner extent).1.isSome = true ↔
    (∃ lease ∈ state.live, lease.Is owner extent) ∧ state.generations.length ≠ generationLimit
  free : ∀ owner extent, (privateFree state.pool owner extent).1 = true ↔ ∃ lease ∈ state.live, lease.Is owner extent
  refused : ∀ operation : PoolOperation, (operation.answer state.pool).1 = none → (operation.answer state.pool).2 = state.pool

theorem Leased.separate (leased : Leased state) : Separate state := by
  have unit : 0 < privateUnit := by decide
  constructor
  · intro lease mem
    have owns := leased.owned lease mem
    have inside := Nat.mul_le_mul_right privateUnit owns.inside
    have insideVa := Nat.mul_le_mul_right privateUnit owns.insideVa
    rw [Nat.add_mul,← owns.offset,← owns.bytes] at inside
    rw [Nat.add_mul,← owns.vaOffset,← owns.bytes] at insideVa
    refine ⟨owns.offset,owns.bytes,owns.vaOffset,?_,inside,insideVa⟩
    rw [owns.bytes]
    exact Nat.mul_pos owns.positive unit
  · exact leased.blocks_apart
  · exact leased.va_apart
  · exact leased.quota
  · intro lease mem unfixed
    have owns := leased.owned lease mem
    have below := Nat.mul_le_mul_right privateUnit (leased.below lease mem unfixed)
    rwa [Nat.add_mul,← owns.vaOffset,← owns.bytes] at below
  · intro index outside
    rcases leased.covered index with empty | ⟨lease,mem,covers⟩
    · exact empty
    exact absurd covers (outside lease mem)
  · exact leased.known
  exact leased.nodup

theorem Leased.unplaced_iff (leased : Leased state) (owner bytes : Nat) (vaUnit : Option Nat) :
    (privateAllocateVa state.pool owner bytes vaUnit).1 = none ↔ NoRoom state owner bytes ∨
      ∀ vaFirst, VaWithin (unitsOf bytes) vaUnit vaFirst → ¬ VaFree state.live owner ⟨vaFirst,unitsOf bytes⟩ := by
  rcases leased.allocateVa_spec owner bytes vaUnit with ⟨first,vaFirst,placed,result⟩ | ⟨unplaced,result⟩
  · rw [result]
    refine iff_of_false (by simp) (not_or.mpr ⟨?_,fun none => none vaFirst placed.within placed.addresses⟩)
    rintro (nobody | empty | large | exhausted | full | scattered)
    · exact placed.someone nobody
    · exact placed.nonempty empty
    · exact absurd placed.bounded (Nat.not_le.mpr large)
    · exact placed.fresh exhausted
    · exact absurd placed.quota (Nat.not_le.mpr full)
    exact scattered first placed.inside placed.blocks
  rw [result]
  refine iff_of_true rfl ?_
  by_contra room
  unfold NoRoom at room
  push Not at room
  obtain ⟨⟨someone,nonempty,bounded,fresh,quota,first,inside,blocks⟩,vaFirst,within,addresses⟩ := room
  exact unplaced first vaFirst ⟨someone,nonempty,bounded,fresh,quota,inside,blocks,within,addresses⟩

theorem Leased.answers_all (leased : Leased state) : Answers state := by
  constructor
  · exact fun owner bytes => leased.unplaced_iff owner bytes none
  · intro owner bytes vaOffset
    unfold privateAllocateAt
    split
    · rename_i unaligned
      exact iff_of_true rfl (Or.inr (Or.inl ((low_bits_va vaOffset).mp unaligned)))
    rename_i unaligned
    rw [leased.unplaced_iff]
    rw [low_bits_va,not_not] at unaligned
    refine or_congr Iff.rfl ?_
    constructor
    · intro unplaced
      by_cases outside : privateVaUnits < vaOffset / privateUnit + unitsOf bytes
      · exact Or.inr (Or.inl outside)
      exact Or.inr (Or.inr (unplaced _ ⟨rfl,Nat.not_lt.mp outside⟩))
    rintro (bad | outside | used) _ ⟨rfl,inside⟩
    · exact absurd unaligned bad
    · exact absurd inside (Nat.not_le.mpr outside)
    exact used
  · intro owner extent
    rw [← leased.owns_iff,← leased.counted]
    by_cases refused : ¬ Owns state.pool owner extent ∨ state.pool.nextGeneration = generationLimit
    · rw [privateRenew_refused refused]
      refine iff_of_false Bool.false_ne_true (fun ⟨owns,fresh⟩ => ?_)
      exact refused.elim (fun stranger => stranger owns) fresh
    rw [not_or,not_not] at refused
    rw [privateRenew_owned refused.1 refused.2]
    exact iff_of_true rfl refused
  · intro owner extent
    rw [← leased.owns_iff]
    by_cases owns : Owns state.pool owner extent
    · rw [privateFree_owned owns]
      exact iff_of_true rfl owns
    rw [privateFree_refused owns]
    exact iff_of_false Bool.false_ne_true owns
  intro operation nothing
  rcases leased.answers operation with refused | ⟨extent,pool,done,-⟩
  · rw [refused]
  rw [done] at nothing
  cases nothing

/-- Whatever the owners call, the live extents never meet, the generations never come back, a lease is good exactly while it
    is live, and an allocation is refused only for its arguments, the quota, or the lack of a place or of a generation. -/
theorem private_extents (operations : List PoolOperation) : Separate (runPool operations) ∧ Answers (runPool operations) :=
  ⟨(leased_run operations).separate,(leased_run operations).answers_all⟩

/-- One unit that owner 1 allocates and then renews over and over. -/
def renewals : Nat → List PoolOperation
  | 0 => [.allocate 1 0x10000]
  | turns+1 => renewals turns ++ [.renew 1 ⟨turns + 1,0,0x10000,0⟩]

private theorem renewals_state (turns : Nat) (below : turns < generationLimit) :
    (runPool (renewals turns)).live = [⟨1,⟨turns + 1,0,0x10000,0⟩,false⟩] ∧
      (runPool (renewals turns)).generations.length = turns + 1 := by
  induction turns with
  | zero => decide +kernel
  | succ turns ih =>
  obtain ⟨live,generations⟩ := ih (by omega)
  have leased := leased_run (renewals turns)
  have owns : Owns (runPool (renewals turns)).pool 1 ⟨turns + 1,0,0x10000,0⟩ :=
    leased.owned ⟨1,⟨turns + 1,0,0x10000,0⟩,false⟩ (by rw [live]; exact mem_cons_self)
  have fresh : (runPool (renewals turns)).pool.nextGeneration ≠ generationLimit := by
    rw [leased.counted,generations]
    exact Nat.ne_of_lt below
  have last : runPool (renewals (turns + 1)) = (runPool (renewals turns)).step (.renew 1 ⟨turns + 1,0,0x10000,0⟩) := by
    exact foldl_append
  have answer : (PoolOperation.renew 1 ⟨turns + 1,0,0x10000,0⟩).answer (runPool (renewals turns)).pool =
      _ := privateRenew_owned owns fresh
  rw [last]
  unfold PoolRun.step
  rw [answer]
  dsimp only [PoolOperation.leases,PoolOperation.handedOut]
  rw [live,leased.counted,generations]
  exact ⟨by simp [Lease.Is],by simp [generations]⟩

/-- A live extent that is not renewed, and a unit that is refused though it has blocks, addresses and quota. -/
def RefusesAll (state : PoolRun) : Prop :=
  (∃ lease ∈ state.live, lease.Is 1 ⟨generationLimit,0,0x10000,0⟩) ∧
    (privateRenew state.pool 1 ⟨generationLimit,0,0x10000,0⟩).1 = none ∧
    (privateAllocate state.pool 1 0x10000).1 = none ∧ ownedUnits state.live 1 + unitsOf 0x10000 ≤ processUnits ∧
    (∃ first, first + unitsOf 0x10000 ≤ privateUnits ∧ BlocksFree state.live ⟨first,unitsOf 0x10000⟩) ∧
    ∃ vaFirst, vaFirst + unitsOf 0x10000 ≤ privateGeneralVaUnits ∧ VaFree state.live 1 ⟨vaFirst,unitsOf 0x10000⟩

theorem Leased.refusesAll (leased : Leased state) (live : state.live = [⟨1,⟨generationLimit,0,0x10000,0⟩,false⟩])
    (generations : state.generations.length = generationLimit) : RefusesAll state := by
  have apart : (⟨1,1⟩ : Stretch).Apart ⟨0,1⟩ := fun index covers covers' => absurd covers.1 (Nat.not_le.mpr covers'.2)
  have unit : unitsOf 0x10000 = 1 := by decide
  refine ⟨⟨_,by rw [live]; exact mem_cons_self,rfl,rfl⟩,?_,?_,?_,⟨1,?_,?_⟩,⟨1,?_,?_⟩⟩
  · rw [privateRenew_refused (Or.inr (leased.counted.trans generations))]
  · exact (leased.unplaced_iff 1 0x10000 none).mpr (Or.inl (Or.inr (Or.inr (Or.inr (Or.inl generations)))))
  · rw [live]
    decide
  · decide
  · rw [live,unit]
    intro lease mem
    rw [mem_singleton.mp mem]
    exact apart
  · decide
  rw [live,unit]
  intro lease mem _
  rw [mem_singleton.mp mem]
  exact apart

/-- After 2^64 - 1 generations the pool refuses what it has room for. -/
theorem private_generations_end : RefusesAll (runPool (renewals (generationLimit - 1))) := by
  have last : generationLimit - 1 + 1 = generationLimit := Nat.sub_add_cancel (by decide)
  obtain ⟨live,generations⟩ := renewals_state (generationLimit - 1) (by decide)
  rw [last] at live generations
  exact (leased_run _).refusesAll live generations

end WindowsOnM1.PrivateExtents
