import WindowsOnM1.PrivatePoolModel

/-!
What the records of the pool say about the leases, and what each call does to both.
-/
namespace WindowsOnM1.PrivateExtents
open CountedLoop FirstFit Tallies List

def PrivateExtent.blocks (extent : PrivateExtent) : Stretch := ⟨extent.offset / privateUnit,extent.bytes / privateUnit⟩

/-- The process address units of an extent. -/
def PrivateExtent.va (extent : PrivateExtent) : Stretch := ⟨extent.vaOffset / privateUnit,extent.bytes / privateUnit⟩

/-- The record of an extent in each of its blocks. -/
def PrivateExtent.record (extent : PrivateExtent) (owner : Nat) : PrivateBlock :=
  ⟨owner,extent.generation,extent.blocks.first,extent.blocks.count,extent.va.first⟩

/-- An extent of whole units in the pool, in whose blocks its record stands. -/
structure Owns (pool : PrivatePool) (owner : Nat) (extent : PrivateExtent) : Prop where
  someone : owner ≠ 0
  generation : extent.generation ≠ 0
  positive : 0 < extent.blocks.count
  offset : extent.offset = extent.blocks.first * privateUnit
  bytes : extent.bytes = extent.blocks.count * privateUnit
  vaOffset : extent.vaOffset = extent.va.first * privateUnit
  inside : extent.blocks.first + extent.blocks.count ≤ privateUnits
  insideVa : extent.va.first + extent.blocks.count ≤ privateVaUnits
  recorded : ∀ index, extent.blocks.Covers index → pool.blocks index = extent.record owner

theorem low_bits_zero (value : Nat) : value &&& (privateUnit - 1) = 0 ↔ value % privateUnit = 0 := by
  rw [show privateUnit - 1 = 2 ^ 16 - 1 from rfl,Nat.and_two_pow_sub_one_eq_mod]
  rfl
theorem low_bits_or_zero (a b c : Nat) : (a ||| b ||| c) &&& (privateUnit - 1) = 0 ↔
    a % privateUnit = 0 ∧ b % privateUnit = 0 ∧ c % privateUnit = 0 := by
  rw [low_bits_zero,show privateUnit = 2 ^ 16 from rfl,Nat.or_mod_two_pow,Nat.or_mod_two_pow,Nat.or_eq_zero_iff,Nat.or_eq_zero_iff,
    and_assoc]

theorem matched_iff (pool : PrivatePool) (owner : Nat) (extent : PrivateExtent) :
    (List.range' (extent.offset / privateUnit) (extent.bytes / privateUnit)).any (fun index =>
        (pool.blocks index).owner ≠ owner || (pool.blocks index).generation ≠ extent.generation ||
        (pool.blocks index).first ≠ extent.offset / privateUnit || (pool.blocks index).count ≠ extent.bytes / privateUnit ||
        (pool.blocks index).vaFirst ≠ extent.vaOffset / privateUnit) = false ↔
      ∀ index, extent.blocks.Covers index → pool.blocks index = extent.record owner := by
  rw [any_eq_false]
  refine forall_congr' (fun index => ?_)
  rw [mem_range'_1]
  refine imp_congr Iff.rfl ?_
  simp [PrivateExtent.record,PrivateExtent.blocks,PrivateExtent.va,PrivateBlock.ext_iff,and_assoc]

variable {pool : PrivatePool} {owner : Nat} {extent : PrivateExtent}

/-- The check of a lease finds the extents whose records stand in their blocks. -/
theorem privateOwned_iff {range : Nat × Nat} : privateOwned pool owner extent = some range ↔
      Owns pool owner extent ∧ range = (extent.blocks.first,extent.blocks.count) := by
  constructor
  · intro found
    unfold privateOwned at found
    split at found
    · cases found
    rename_i refused
    dsimp only at found
    split at found
    · cases found
    split at found
    · cases found
    rename_i unmatched
    rw [Bool.not_eq_true] at unmatched
    simp only [not_or,not_le,not_lt,not_not,low_bits_or_zero] at refused
    obtain ⟨someone,generation,nonempty,⟨offset,bytes,vaOffset⟩,-,-,below,belowVa⟩ := refused
    have divides : extent.bytes = extent.bytes / privateUnit * privateUnit := (Nat.div_mul_cancel (Nat.dvd_of_mod_eq_zero bytes)).symm
    refine ⟨⟨someone,generation,?_,?_,divides,?_,?_,?_,(matched_iff pool owner extent).mp unmatched⟩,(Option.some.inj found).symm⟩
    · show 0 < extent.bytes / privateUnit
      refine Nat.pos_of_ne_zero (fun zero => nonempty ?_)
      rw [divides,zero,Nat.zero_mul]
    · exact (Nat.div_mul_cancel (Nat.dvd_of_mod_eq_zero offset)).symm
    · exact (Nat.div_mul_cancel (Nat.dvd_of_mod_eq_zero vaOffset)).symm
    · show extent.offset / privateUnit + extent.bytes / privateUnit ≤ privateUnits
      omega
    show extent.vaOffset / privateUnit + extent.bytes / privateUnit ≤ privateVaUnits
    unfold privateVaBytes privateUnit at *
    unfold privateVaUnits
    omega
  rintro ⟨owns,rfl⟩
  have positive : 0 < extent.bytes / privateUnit := owns.positive
  have inside : extent.offset / privateUnit + extent.bytes / privateUnit ≤ privateUnits := owns.inside
  have insideVa : extent.vaOffset / privateUnit + extent.bytes / privateUnit ≤ privateVaUnits := owns.insideVa
  have offset : extent.offset = extent.offset / privateUnit * privateUnit := owns.offset
  have bytes : extent.bytes = extent.bytes / privateUnit * privateUnit := owns.bytes
  have vaOffset : extent.vaOffset = extent.vaOffset / privateUnit * privateUnit := owns.vaOffset
  unfold privateOwned
  rw [if_neg,if_neg,if_neg]
  · rfl
  · rw [Bool.not_eq_true]
    exact (matched_iff pool owner extent).mpr owns.recorded
  · omega
  simp only [not_or,low_bits_or_zero,not_not]
  unfold privateVaBytes privateUnits privateUnit at *
  unfold privateVaUnits at insideVa
  exact ⟨owns.someone,owns.generation,by omega,by omega,by omega,by omega,by omega,by omega⟩

theorem privateOwned_none (stranger : ¬ Owns pool owner extent) : privateOwned pool owner extent = none := by
  cases found : privateOwned pool owner extent with
  | none => rfl
  | some range => exact absurd (privateOwned_iff.mp found).1 stranger

/-- The units of the live extents of an owner. -/
def ownedUnits (live : List Lease) (owner : Nat) : Nat :=
  ((live.filter (fun lease => lease.owner = owner)).map (fun lease => lease.extent.blocks.count)).sum

/-- The units that an allocation of `bytes` takes. -/
def unitsOf (bytes : Nat) : Nat := (bytes + privateUnit - 1) / privateUnit

/-- No live extent has a block of a stretch. -/
def BlocksFree (live : List Lease) (stretch : Stretch) : Prop := ∀ lease ∈ live, stretch.Apart lease.extent.blocks

/-- No live extent of the owner has an address of a stretch. -/
def VaFree (live : List Lease) (owner : Nat) (stretch : Stretch) : Prop :=
  ∀ lease ∈ live, lease.owner = owner → stretch.Apart lease.extent.va

/-- The records are the records of the live extents, and every generation was handed out once. -/
structure Leased (state : PoolRun) : Prop where
  owned : ∀ lease ∈ state.live, Owns state.pool lease.owner lease.extent
  covered : ∀ index, state.pool.blocks index = {} ∨ ∃ lease ∈ state.live, lease.extent.blocks.Covers index
  distinct : state.live.Pairwise (fun left right => left.extent.generation ≠ right.extent.generation)
  va_apart : state.live.Pairwise (fun left right => left.owner = right.owner → left.extent.va.Apart right.extent.va)
  quota : ∀ owner, ownedUnits state.live owner ≤ processUnits
  below : ∀ lease ∈ state.live, lease.fixed = false →
    lease.extent.va.first + lease.extent.blocks.count ≤ privateGeneralVaUnits
  known : ∀ lease ∈ state.live, lease.extent.generation ∈ state.generations
  counted : state.pool.nextGeneration = state.generations.length
  handed : ∀ generation ∈ state.generations, generation ≤ state.generations.length
  nodup : state.generations.Nodup

variable {state : PoolRun}

section
variable (leased : Leased state)
include leased

theorem Leased.record_unique {left right : Lease} (mem : left ∈ state.live)
    (mem' : right ∈ state.live) (same : left.extent.generation = right.extent.generation) : left = right := by
  by_contra apart
  have symmetric : Std.Symm (fun left right : Lease => left.extent.generation ≠ right.extent.generation) :=
    ⟨fun _ _ differ equal => differ equal.symm⟩
  exact leased.distinct.forall mem mem' apart same

theorem Leased.va_meet {left right : Lease} (mem : left ∈ state.live) (mem' : right ∈ state.live)
    (same : left.owner = right.owner) {address : Nat} (covers : left.extent.va.Covers address)
    (covers' : right.extent.va.Covers address) : left = right := by
  by_contra apart
  have symmetric : Std.Symm (fun left right : Lease => left.owner = right.owner → left.extent.va.Apart right.extent.va) :=
    ⟨fun _ _ free equal => (free equal.symm).symm⟩
  exact leased.va_apart.forall mem mem' apart same address covers covers'

theorem Leased.blocks_apart : state.live.Pairwise (fun left right => left.extent.blocks.Apart right.extent.blocks) := by
  refine leased.distinct.imp_of_mem (fun {left right} mem mem' differ index covers covers' => differ ?_)
  have first := (leased.owned left mem).recorded index covers
  rw [(leased.owned right mem').recorded index covers'] at first
  exact (congrArg PrivateBlock.generation first).symm

theorem Leased.lease_of_owner {index : Nat} (someone : owner ≠ 0) (names : (state.pool.blocks index).owner = owner) :
    ∃ lease ∈ state.live, lease.owner = owner ∧ lease.extent.blocks.Covers index := by
  rcases leased.covered index with empty | ⟨lease,mem,covers⟩
  · rw [empty] at names
    exact absurd names.symm someone
  refine ⟨lease,mem,?_,covers⟩
  rw [(leased.owned lease mem).recorded index covers] at names
  exact names

theorem Leased.owns_iff : Owns state.pool owner extent ↔ ∃ lease ∈ state.live, lease.Is owner extent := by
  constructor
  · intro owns
    have covers : extent.blocks.Covers extent.blocks.first := ⟨Nat.le_refl _,Nat.lt_add_of_pos_right owns.positive⟩
    have record := owns.recorded _ covers
    obtain ⟨lease,mem,owned,covers'⟩ := leased.lease_of_owner owns.someone (congrArg PrivateBlock.owner record)
    have held := leased.owned lease mem
    rw [held.recorded _ covers'] at record
    have generation : lease.extent.generation = extent.generation := congrArg PrivateBlock.generation record
    have first : lease.extent.blocks.first = extent.blocks.first := congrArg PrivateBlock.first record
    have count : lease.extent.blocks.count = extent.blocks.count := congrArg PrivateBlock.count record
    have vaFirst : lease.extent.va.first = extent.va.first := congrArg PrivateBlock.vaFirst record
    refine ⟨lease,mem,owned,?_⟩
    ext
    · exact generation
    · rw [held.offset,owns.offset,first]
    · rw [held.bytes,owns.bytes,count]
    rw [held.vaOffset,owns.vaOffset,vaFirst]
  rintro ⟨lease,mem,rfl,rfl⟩
  exact leased.owned lease mem

theorem Leased.occupied_iff (index : Nat) :
    state.pool.occupied index = true ↔ ∃ lease ∈ state.live, lease.extent.blocks.Covers index := by
  unfold PrivatePool.occupied
  rw [decide_eq_true_iff]
  constructor
  · intro someone
    obtain ⟨lease,mem,-,covers⟩ := leased.lease_of_owner someone rfl
    exact ⟨lease,mem,covers⟩
  rintro ⟨lease,mem,covers⟩
  rw [(leased.owned lease mem).recorded index covers]
  exact (leased.owned lease mem).someone

theorem Leased.blocksFree_iff (first count : Nat) :
    Free state.pool.occupied first count ↔ BlocksFree state.live ⟨first,count⟩ := by
  constructor
  · intro free lease mem index covers covers'
    have off := free index covers.1 covers.2
    rw [(leased.occupied_iff index).mpr ⟨lease,mem,covers'⟩] at off
    cases off
  intro free index above below
  rw [← Bool.not_eq_true,leased.occupied_iff]
  rintro ⟨lease,mem,covers⟩
  exact free lease mem index ⟨above,below⟩ covers

theorem Leased.tally_owner (someone : owner ≠ 0) :
    tally (fun index => decide ((state.pool.blocks index).owner = owner)) privateUnits = ownedUnits state.live owner := by
  rw [ownedUnits,show (fun lease : Lease => lease.extent.blocks.count) = Stretch.count ∘ (fun lease => lease.extent.blocks) from rfl,
    ← map_map]
  refine tally_stretches ?_ ?_ ?_
  · exact (leased.blocks_apart.filter _).map _ (fun _ _ apart => apart)
  · intro stretch listed
    obtain ⟨lease,mem,rfl⟩ := mem_map.mp listed
    exact (leased.owned lease (mem_filter.mp mem).1).inside
  intro index
  rw [decide_eq_true_iff]
  constructor
  · intro names
    obtain ⟨lease,mem,same,covers⟩ := leased.lease_of_owner someone names
    exact ⟨_,mem_map_of_mem (mem_filter.mpr ⟨mem,decide_eq_true same⟩),covers⟩
  rintro ⟨stretch,listed,covers⟩
  obtain ⟨lease,kept,rfl⟩ := mem_map.mp listed
  obtain ⟨mem,same⟩ := mem_filter.mp kept
  rw [(leased.owned lease mem).recorded index covers]
  exact of_decide_eq_true same

end

/-- The addresses that the blocks of the owner below `bound` stand for. -/
def VaOf (pool : PrivatePool) (owner bound address : Nat) : Prop :=
  ∃ index < bound, (pool.blocks index).owner = owner ∧
    address = (pool.blocks index).vaFirst + (index - (pool.blocks index).first)

theorem VaOf.succ_iff {bound address : Nat} : VaOf pool owner (bound + 1) address ↔
    VaOf pool owner bound address ∨ ((pool.blocks bound).owner = owner ∧
      address = (pool.blocks bound).vaFirst + (bound - (pool.blocks bound).first)) := by
  constructor
  · rintro ⟨index,below,names⟩
    rcases Nat.lt_succ_iff_lt_or_eq.mp below with below | rfl
    · exact Or.inl ⟨index,below,names⟩
    exact Or.inr names
  rintro (⟨index,below,names⟩ | names)
  · exact ⟨index,Nat.lt_succ_of_lt below,names⟩
  exact ⟨bound,Nat.lt_succ_self _,names⟩

section
variable (leased : Leased state) (someone : owner ≠ 0)
include leased someone

theorem Leased.va_injective {left right : Nat}
    (names : (state.pool.blocks left).owner = owner) (names' : (state.pool.blocks right).owner = owner)
    (same : (state.pool.blocks left).vaFirst + (left - (state.pool.blocks left).first) =
      (state.pool.blocks right).vaFirst + (right - (state.pool.blocks right).first)) : left = right := by
  obtain ⟨lease,mem,owned,covers⟩ := leased.lease_of_owner someone names
  obtain ⟨lease',mem',owned',covers'⟩ := leased.lease_of_owner someone names'
  rw [(leased.owned lease mem).recorded left covers,(leased.owned lease' mem').recorded right covers'] at same
  have inside := covers
  have inside' := covers'
  unfold Stretch.Covers at inside inside'
  simp only [PrivateExtent.record] at same
  have address : lease.extent.va.Covers (lease.extent.va.first + (left - lease.extent.blocks.first)) :=
    ⟨Nat.le_add_right _ _,Nat.add_lt_add_left (show left - lease.extent.blocks.first < lease.extent.blocks.count by omega) _⟩
  have address' : lease'.extent.va.Covers (lease'.extent.va.first + (right - lease'.extent.blocks.first)) :=
    ⟨Nat.le_add_right _ _,Nat.add_lt_add_left (show right - lease'.extent.blocks.first < lease'.extent.blocks.count by omega) _⟩
  rw [← same] at address'
  have one := leased.va_meet mem mem' (owned.trans owned'.symm) address address'
  subst one
  omega

theorem Leased.countBlock_owner {index used : Nat} {vaUsed : Nat → Bool}
    (names : (state.pool.blocks index).owner = owner)
    (unused : vaUsed ((state.pool.blocks index).vaFirst + (index - (state.pool.blocks index).first)) = false) :
    countBlock state.pool owner index (used,vaUsed) = (true,used + 1,fun other =>
      if other = (state.pool.blocks index).vaFirst + (index - (state.pool.blocks index).first) then true else vaUsed other) := by
  obtain ⟨lease,mem,owned,covers⟩ := leased.lease_of_owner someone names
  have owns := leased.owned lease mem
  have insideVa := owns.insideVa
  have record := owns.recorded index covers
  obtain ⟨above,inside⟩ := covers
  have first : (state.pool.blocks index).first = lease.extent.blocks.first := congrArg PrivateBlock.first record
  have count : (state.pool.blocks index).count = lease.extent.blocks.count := congrArg PrivateBlock.count record
  have vaFirst : (state.pool.blocks index).vaFirst = lease.extent.va.first := congrArg PrivateBlock.vaFirst record
  unfold countBlock
  dsimp only
  rw [if_pos names,if_neg (by omega),if_neg (by omega),if_neg (by omega),if_neg (by rw [unused]; decide)]

/-- The first loop of an allocation counts the units of the owner and finds its addresses. -/
theorem Leased.countBlocks :
    ∃ vaUsed : Nat → Bool, countLoop (countBlock state.pool owner) 0 privateUnits (0,fun _ => false) =
        (true,ownedUnits state.live owner,vaUsed) ∧
      ∀ address, vaUsed address = true ↔ VaOf state.pool owner privateUnits address := by
  let invariant : Nat → Nat × (Nat → Bool) → Prop := fun bound after =>
    after.1 = tally (fun index => decide ((state.pool.blocks index).owner = owner)) bound ∧
      ∀ address, after.2 address = true ↔ VaOf state.pool owner bound address
  have ends : Ends (invariant (0 + privateUnits)) (fun _ => False)
      (countLoop (countBlock state.pool owner) 0 privateUnits (0,fun _ => false)) := by
    refine countLoop_ends _ invariant _ ⟨rfl,fun address => ⟨fun bad => ?_,?_⟩⟩ ?_
    · cases bad
    · rintro ⟨index,below,-⟩
      exact absurd below (Nat.not_lt_zero _)
    rintro index ⟨used,vaUsed⟩ - - ⟨counted,addresses⟩
    by_cases names : (state.pool.blocks index).owner = owner
    · have unused : vaUsed ((state.pool.blocks index).vaFirst + (index - (state.pool.blocks index).first)) = false := by
        rw [← Bool.not_eq_true,addresses]
        rintro ⟨other,below,names',same⟩
        exact absurd (leased.va_injective someone names names' same) (Nat.ne_of_gt below)
      rw [leased.countBlock_owner someone names unused]
      refine ⟨fun _ => ⟨?_,fun address => ?_⟩,nofun⟩
      · rw [tally_succ,if_pos (decide_eq_true names),← counted]
      show (if address = _ then true else vaUsed address) = true ↔ _
      split
      · rename_i here
        exact iff_of_true rfl ⟨index,Nat.lt_succ_self _,names,here⟩
      rename_i here
      rw [addresses,VaOf.succ_iff]
      exact (or_iff_left (fun ⟨_,bad⟩ => here bad)).symm
    unfold countBlock
    rw [if_neg names]
    refine ⟨fun _ => ⟨?_,fun address => ?_⟩,nofun⟩
    · rw [tally_succ,if_neg (by rw [decide_eq_false names]; decide),← counted]
      rfl
    rw [addresses,VaOf.succ_iff]
    exact (or_iff_left (fun ⟨bad,_⟩ => names bad)).symm
  rw [Nat.zero_add] at ends
  cases result : countLoop (countBlock state.pool owner) 0 privateUnits (0,fun _ => false) with | mk done after =>
  rw [result] at ends
  cases done with
  | false => exact absurd (ends.2 rfl) not_false
  | true =>
  obtain ⟨counted,addresses⟩ := ends.1 rfl
  refine ⟨after.2,?_,addresses⟩
  rw [← leased.tally_owner someone,← counted]

theorem Leased.vaOf_iff (address : Nat) :
    VaOf state.pool owner privateUnits address ↔ ∃ lease ∈ state.live, lease.owner = owner ∧ lease.extent.va.Covers address := by
  constructor
  · rintro ⟨index,-,names,rfl⟩
    obtain ⟨lease,mem,owned,covers⟩ := leased.lease_of_owner someone names
    refine ⟨lease,mem,owned,?_⟩
    rw [(leased.owned lease mem).recorded index covers]
    obtain ⟨above,inside⟩ := covers
    exact ⟨Nat.le_add_right _ _,Nat.add_lt_add_left (show index - lease.extent.blocks.first < lease.extent.blocks.count by omega) _⟩
  rintro ⟨lease,mem,owned,above,inside⟩
  have owns := leased.owned lease mem
  have room : address < lease.extent.va.first + lease.extent.blocks.count := inside
  have covers : lease.extent.blocks.Covers (lease.extent.blocks.first + (address - lease.extent.va.first)) :=
    ⟨Nat.le_add_right _ _,by omega⟩
  have pool := owns.inside
  refine ⟨_,Nat.lt_of_lt_of_le covers.2 pool,?_⟩
  rw [owns.recorded _ covers]
  refine ⟨owned,?_⟩
  show address = lease.extent.va.first + (lease.extent.blocks.first + (address - lease.extent.va.first) - lease.extent.blocks.first)
  omega

end

/-- The addresses where an extent of `count` units may start: one unit, or below the heap window. -/
def VaWithin (count : Nat) : Option Nat → Nat → Prop
  | some vaUnit, vaFirst => vaFirst = vaUnit ∧ vaFirst + count ≤ privateVaUnits
  | none, vaFirst => vaFirst + count ≤ privateGeneralVaUnits

theorem VaWithin.inside {count vaFirst : Nat} {vaUnit : Option Nat} (within : VaWithin count vaUnit vaFirst) :
    vaFirst + count ≤ privateVaUnits := by
  cases vaUnit with
  | some vaUnit => exact within.2
  | none => exact Nat.le_trans within (by decide)

/-- The place of an extent is free, and there is none when it has no place. -/
theorem vaPlace_spec (vaUsed : Nat → Bool) {count : Nat} (positive : 0 < count) (vaUnit : Option Nat) :
    (∃ vaFirst, vaPlace vaUsed count vaUnit = some vaFirst ∧ VaWithin count vaUnit vaFirst ∧ Free vaUsed vaFirst count) ∨
    (vaPlace vaUsed count vaUnit = none ∧ ∀ vaFirst, VaWithin count vaUnit vaFirst → ¬ Free vaUsed vaFirst count) := by
  cases vaUnit with
  | some vaUnit =>
    unfold vaPlace
    dsimp only
    have free_iff : (range' vaUnit count).any vaUsed = false ↔ Free vaUsed vaUnit count := by
      rw [any_eq_false]
      refine forall_congr' (fun index => ?_)
      rw [mem_range'_1,and_imp,Bool.not_eq_true]
    split
    · refine Or.inr ⟨rfl,?_⟩
      rintro _ ⟨rfl,inside⟩
      omega
    split
    · rename_i used
      refine Or.inr ⟨rfl,?_⟩
      rintro _ ⟨rfl,-⟩ free
      rw [free_iff.mpr free] at used
      cases used
    rename_i used
    exact Or.inl ⟨vaUnit,rfl,⟨rfl,by omega⟩,free_iff.mp (Bool.not_eq_true _ ▸ used)⟩
  | none =>
  unfold vaPlace
  by_cases found : (firstFit vaUsed count 0 privateGeneralVaUnits 0).1 = count
  · have fits := firstFit_found (Nat.le_refl 0) positive (fun _ _ below => absurd below (by omega)) found
    rw [if_neg (not_not.mpr found)]
    exact Or.inl ⟨_,rfl,by have inside := fits.1; rwa [Nat.zero_add] at inside,fits.2⟩
  rw [if_pos found]
  exact Or.inr ⟨rfl,fun vaFirst inside free => found ((firstFit_iff positive _).mpr ⟨vaFirst,inside,free⟩)⟩

/-- The arguments, the generations, the quota, the blocks and the addresses allow an extent at
    the block `first` and the address unit `vaFirst`. -/
structure Placed (state : PoolRun) (owner bytes : Nat) (vaUnit : Option Nat) (first vaFirst : Nat) : Prop where
  someone : owner ≠ 0
  nonempty : bytes ≠ 0
  bounded : bytes ≤ 8 <<< 20
  fresh : state.generations.length ≠ generationLimit
  quota : ownedUnits state.live owner + unitsOf bytes ≤ processUnits
  inside : first + unitsOf bytes ≤ privateUnits
  blocks : BlocksFree state.live ⟨first,unitsOf bytes⟩
  within : VaWithin (unitsOf bytes) vaUnit vaFirst
  addresses : VaFree state.live owner ⟨vaFirst,unitsOf bytes⟩

theorem unitsOf_positive {bytes : Nat} (nonempty : bytes ≠ 0) : 0 < unitsOf bytes := by
  unfold unitsOf privateUnit
  omega

/-- The extent of an allocation that is placed. -/
def grantedExtent (state : PoolRun) (bytes first vaFirst : Nat) : PrivateExtent :=
  ⟨state.pool.nextGeneration + 1,first * privateUnit,unitsOf bytes * privateUnit,vaFirst * privateUnit⟩

/-- The pool after an allocation that is placed. -/
def grantedPool (state : PoolRun) (owner bytes first vaFirst : Nat) : PrivatePool :=
  state.pool.fill first (unitsOf bytes) (state.pool.nextGeneration + 1)
    (fun _ => ⟨owner,state.pool.nextGeneration + 1,first,unitsOf bytes,vaFirst⟩)

/-- An allocation succeeds exactly when there is a place for it, and else leaves the pool as it was. -/
theorem Leased.allocateVa_spec (leased : Leased state) (owner bytes : Nat) (vaUnit : Option Nat) :
    (∃ first vaFirst, Placed state owner bytes vaUnit first vaFirst ∧ privateAllocateVa state.pool owner bytes vaUnit =
        (some (grantedExtent state bytes first vaFirst),grantedPool state owner bytes first vaFirst)) ∨
    ((∀ first vaFirst, ¬ Placed state owner bytes vaUnit first vaFirst) ∧
      privateAllocateVa state.pool owner bytes vaUnit = (none,state.pool)) := by
  unfold privateAllocateVa
  split
  · rename_i refused
    refine Or.inr ⟨fun first vaFirst placed => ?_,rfl⟩
    rw [leased.counted] at refused
    rcases refused with nobody | empty | large | exhausted
    · exact placed.someone nobody
    · exact placed.nonempty empty
    · exact absurd placed.bounded (Nat.not_le.mpr large)
    exact placed.fresh exhausted
  rename_i refused
  rw [leased.counted] at refused
  simp only [not_or,not_lt] at refused
  obtain ⟨someone,nonempty,bounded,fresh⟩ := refused
  have positive := unitsOf_positive nonempty
  obtain ⟨vaUsed,counted,addresses⟩ := leased.countBlocks someone
  have free_iff : ∀ vaFirst, Free vaUsed vaFirst (unitsOf bytes) ↔ VaFree state.live owner ⟨vaFirst,unitsOf bytes⟩ := by
    intro vaFirst
    constructor
    · intro free lease mem owned index covers covers'
      have off := free index covers.1 covers.2
      rw [(addresses index).mpr ((leased.vaOf_iff someone index).mpr ⟨lease,mem,owned,covers'⟩)] at off
      cases off
    intro free index above below
    rw [← Bool.not_eq_true,addresses,leased.vaOf_iff someone]
    rintro ⟨lease,mem,owned,covers⟩
    exact free lease mem owned index ⟨above,below⟩ covers
  rw [counted]
  dsimp only
  rw [show (bytes + privateUnit - 1) / privateUnit = unitsOf bytes from rfl,if_neg (Nat.not_lt.mpr (leased.quota owner))]
  split
  · refine Or.inr ⟨fun first vaFirst placed => ?_,rfl⟩
    have needs := placed.quota
    omega
  by_cases found : (firstFit state.pool.occupied (unitsOf bytes) 0 privateUnits 0).1 = unitsOf bytes
  · rw [if_neg (not_not.mpr found)]
    have fits := firstFit_found (Nat.le_refl 0) positive (fun _ _ below => absurd below (by omega)) found
    rcases vaPlace_spec vaUsed positive vaUnit with ⟨vaFirst,place,within,free⟩ | ⟨place,none⟩
    · rw [place]
      exact Or.inl ⟨_,vaFirst,⟨someone,nonempty,bounded,fresh,by omega,fits.1,(leased.blocksFree_iff _ _).mp fits.2,within,
        (free_iff vaFirst).mp free⟩,rfl⟩
    rw [place]
    exact Or.inr ⟨fun first vaFirst placed => none vaFirst placed.within ((free_iff vaFirst).mpr placed.addresses),rfl⟩
  rw [if_pos found]
  refine Or.inr ⟨fun first vaFirst placed => found ?_,rfl⟩
  exact (firstFit_iff positive _).mpr ⟨first,placed.inside,(leased.blocksFree_iff _ _).mpr placed.blocks⟩

end WindowsOnM1.PrivateExtents
