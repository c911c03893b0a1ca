import WindowsOnM1.QueueRuntimeModel
import WindowsOnM1.RingBuffer

/-!
The publication of work in a ring of a queue: the slots it takes lie behind the write
pointer and before the done pointer, one slot stays empty, and the cyclic test of a
completion is the plain one as long as a single job is in flight.
-/
namespace WindowsOnM1.QueueRing
open List BitVec
open RingBuffer (slot slot_eq slot_advance)
open QueueRuntimeModel

/-- How far one slot of a ring is ahead of another one. -/
def ahead (capacity behind there : Nat) : Nat := (there + capacity - behind) % capacity

/-- The slots between the done pointer and the write pointer: entries that are not retired. -/
def Unretired (capacity done write there : Nat) : Prop := ahead capacity done there < ahead capacity done write

/-- The free slots, one of which is kept empty. -/
def freeSlots (capacity done write : Nat) : Nat := capacity - 1 - ahead capacity done write

private theorem ahead_eq {capacity behind there : Nat} (behindIn : behind < capacity) (thereIn : there < capacity) :
    ahead capacity behind there = if behind ≤ there then there - behind else there + capacity - behind := by
  unfold ahead
  split_ifs with order
  · rw [show there + capacity - behind = there - behind + capacity by omega,Nat.add_mod_right,Nat.mod_eq_of_lt (by omega)]
  exact Nat.mod_eq_of_lt (by omega)

private theorem freeSlots_advance {capacity done write : Nat} (doneIn : done < capacity) (writeIn : write < capacity) :
    (slot capacity write 1 = done ↔ freeSlots capacity done write = 0) ∧
      (slot capacity write 1 ≠ done → freeSlots capacity done (slot capacity write 1) + 1 = freeSlots capacity done write) := by
  have next : slot capacity write 1 = if write + 1 < capacity then write + 1 else 0 := by
    unfold slot
    split_ifs with below
    · exact Nat.mod_eq_of_lt below
    rw [show write + 1 = capacity by omega,Nat.mod_self]
  have nextIn : slot capacity write 1 < capacity := by
    rw [next]
    split_ifs <;> omega
  unfold freeSlots
  rw [ahead_eq doneIn writeIn,ahead_eq doneIn nextIn,next]
  constructor
  · split_ifs <;> omega
  intro apart
  split_ifs at apart ⊢ <;> omega

private theorem not_unretired {capacity done write index : Nat} (doneIn : done < capacity) (writeIn : write < capacity)
    (free : index < freeSlots capacity done write) : ¬ Unretired capacity done write (slot capacity write index) := by
  unfold freeSlots at free
  have inside : index < capacity := by omega
  have slotIn : slot capacity write index < capacity := by
    rw [slot_eq writeIn inside]
    split_ifs <;> omega
  unfold Unretired
  rw [ahead_eq doneIn writeIn] at free ⊢
  rw [ahead_eq doneIn slotIn,slot_eq writeIn inside]
  split_ifs at free ⊢ <;> omega

private theorem following_toNat {capacity next : U32} (inside : next < capacity) :
    (if capacity ≤ next + 1 then 0 else next + 1 : U32).toNat = slot capacity.toNat next.toNat 1 := by
  rw [lt_def] at inside
  have sum : (next + 1).toNat = next.toNat + 1 := toNat_add_of_lt (by
    rw [show (1 : U32).toNat = 1 from rfl]
    omega)
  unfold slot
  split
  · rename_i wraps
    rw [le_def,sum] at wraps
    rw [show next.toNat + 1 = capacity.toNat by omega,Nat.mod_self]
    rfl
  rename_i wraps
  rw [BitVec.not_le,lt_def,sum] at wraps
  rw [sum,Nat.mod_eq_of_lt wraps]

private theorem prepareSlots_spec {capacity done next : U32} (inside : next < capacity) (doneIn : done < capacity) (entries : Nat) :
    (∀ slots last, prepareSlots capacity done entries next = some (slots,last) →
      entries ≤ freeSlots capacity.toNat done.toNat next.toNat ∧
      slots.map BitVec.toNat = (List.range entries).map (slot capacity.toNat next.toNat) ∧
      last.toNat = slot capacity.toNat next.toNat entries ∧ (entries ≠ 0 → last ≠ done)) ∧
    (prepareSlots capacity done entries next = none → freeSlots capacity.toNat done.toNat next.toNat < entries) := by
  induction entries generalizing next with
  | zero =>
    refine ⟨fun slots last prepared => ?_,nofun⟩
    cases prepared
    exact ⟨Nat.zero_le _,rfl,(Nat.mod_eq_of_lt (lt_def.mp inside)).symm,fun bad => absurd rfl bad⟩
  | succ entries ih =>
  have isNext := following_toNat inside
  have advance := freeSlots_advance (lt_def.mp doneIn) (lt_def.mp inside)
  unfold prepareSlots
  dsimp only
  generalize (if capacity ≤ next + 1 then 0 else next + 1 : U32) = following at isNext ⊢
  have positive : 0 < capacity.toNat := Nat.lt_of_le_of_lt (Nat.zero_le _) (lt_def.mp inside)
  have followingIn : following < capacity := lt_def.mpr (by rw [isNext]; exact Nat.mod_lt _ positive)
  rw [← isNext] at advance
  by_cases met : following = done
  · subst met
    rw [if_pos rfl,advance.1.mp rfl]
    exact ⟨nofun,fun _ => Nat.succ_pos _⟩
  rw [if_neg met]
  have fewer := advance.2 (fun same => met (eq_of_toNat_eq same))
  have shift : ∀ i, slot capacity.toNat following.toNat i = slot capacity.toNat next.toNat (i + 1) := by
    intro i
    rw [isNext]
    exact slot_advance capacity.toNat next.toNat i
  obtain ⟨goes,stops⟩ := ih followingIn
  refine ⟨fun slots last prepared => ?_,fun none => ?_⟩
  · obtain ⟨⟨rest,last'⟩,prepared',same⟩ := Option.map_eq_some_iff.mp prepared
    cases same
    obtain ⟨enough,places,isLast,apart⟩ := goes rest last' prepared'
    refine ⟨by omega,?_,by rw [isLast,shift],fun _ => ?_⟩
    · rw [map_cons,places,range_succ_eq_map,map_cons,map_map]
      congr 1
      · exact (Nat.mod_eq_of_lt (lt_def.mp inside)).symm
      exact map_congr_left (fun i _ => shift i)
    cases entries with
    | zero =>
      cases prepared'
      exact met
    | succ entries => exact apart (Nat.succ_ne_zero _)
  have few := stops (Option.map_eq_none_iff.mp none)
  omega

/-- `AppleAgxG13CompletionSatisfied`. -/
def completionSatisfied (event : Event) (eventNumber observedStamp expectedStamp observedDone expectedDone : U32) : Bool :=
  if expectedStamp = 0 ∨ ¬ eventHasNumber event eventNumber ∨ ringCapacityMax ≤ observedDone ∨
      ringCapacityMax ≤ expectedDone ∨ observedDone ≠ expectedDone then false
  else observedStamp - expectedStamp < 0x80000000

/-- What a publication is that was prepared with these pointers. -/
structure Published (capacity write done count : U32) (publication : BatchPublication) (run : RunCommand) : Prop where
  inside : write < capacity ∧ done < capacity
  room : count.toNat ≤ freeSlots capacity.toNat done.toNat write.toNat
  indices : publication.ringIndices.map BitVec.toNat = (List.range count.toNat).map (slot capacity.toNat write.toNat)
  fresh : ∀ index ∈ publication.ringIndices, ¬ Unretired capacity.toNat done.toNat write.toNat index.toNat
  next : publication.nextWritePointer.toNat = slot capacity.toNat write.toNat count.toNat
  differs : count ≠ 0 → publication.nextWritePointer ≠ done
  expected : publication.expectedDonePointer = publication.nextWritePointer
  head : run.head = publication.nextWritePointer

private theorem workValid_count {work : WorkPublication} (valid : workValid work = true) :
    work.gpuAddressCount ≠ 0 ∧ work.gpuAddressCount ≤ publishMax := by
  unfold workValid at valid
  split_ifs at valid with refused
  obtain ⟨some,within,_⟩ := not_or.mp refused |>.imp_right not_or.mp
  exact ⟨some,BitVec.not_lt.mp within⟩

/-- The event and the stamp of a completion, without its pointers. -/
def stampReached (event : Event) (eventNumber observedStamp expectedStamp : U32) : Bool :=
  expectedStamp != 0 && eventHasNumber event eventNumber && decide (observedStamp - expectedStamp < 0x80000000)
private theorem ahead_self {capacity here : Nat} (inside : here < capacity) : ahead capacity here here = 0 := by
  rw [ahead_eq inside inside,if_pos (Nat.le_refl _),Nat.sub_self]

private theorem window_ahead {capacity behind there : U32} (small : capacity ≤ ringCapacityMax) (behindIn : behind < capacity)
    (thereIn : there < capacity) :
    ((there + capacity - behind) % capacity).toNat = ahead capacity.toNat behind.toNat there.toNat := by
  rw [le_def,show ringCapacityMax.toNat = 0x500 from rfl] at small
  rw [lt_def] at behindIn thereIn
  have sum : (there + capacity).toNat = there.toNat + capacity.toNat := toNat_add_of_lt (by omega)
  rw [toNat_umod,toNat_sub_of_le (le_def.mpr (by omega)),sum]
  rfl

/-- With a single job in flight the write pointer is the one that is expected. -/
private theorem window_single (event : Event) (eventNumber observedStamp expectedStamp observed : U32) {expected capacity : U32}
    (small : capacity ≤ ringCapacityMax) (expectedIn : expected < capacity) :
    completionSatisfiedWindow event eventNumber observedStamp expectedStamp observed expected expected capacity =
        completionSatisfied event eventNumber observedStamp expectedStamp observed expected ∧
      completionSatisfiedWindow event eventNumber observedStamp expectedStamp observed expected expected capacity =
        (observed == expected && stampReached event eventNumber observedStamp expectedStamp) := by
  have some : capacity ≠ 0 := by
    rintro rfl
    exact absurd (lt_def.mp expectedIn) (Nat.not_lt_zero _)
  have below : ¬ ringCapacityMax ≤ expected := by
    rw [lt_def] at expectedIn
    rw [le_def] at small ⊢
    omega
  have cyclic : ¬ capacity ≤ observed →
      ((expected + capacity - expected) % capacity < (observed + capacity - expected) % capacity ↔ observed ≠ expected) := by
    intro observedIn
    rw [BitVec.not_le] at observedIn
    have ahead := ahead_eq (lt_def.mp expectedIn) (lt_def.mp observedIn)
    rw [lt_def,window_ahead small expectedIn expectedIn,window_ahead small expectedIn observedIn,
      ahead_self (lt_def.mp expectedIn),ahead,ne_eq,← toNat_inj]
    rw [lt_def] at expectedIn observedIn
    split_ifs <;> omega
  unfold completionSatisfiedWindow completionSatisfied stampReached
  by_cases stamp : expectedStamp = 0
  · simp [stamp]
  by_cases number : eventHasNumber event eventNumber = true
  swap
  · simp [number]
  by_cases same : observed = expected
  · subst same
    have inside : ¬ capacity ≤ observed := BitVec.not_le.mpr expectedIn
    have fits : ¬ ringCapacityMax < capacity := BitVec.not_lt.mpr small
    rw [if_neg (by tauto),if_neg (by tauto)]
    simp only [beq_self_eq_true,Bool.true_and,bne_iff_ne.mpr stamp,number,true_and]
  rw [if_pos (by tauto),if_pos (by tauto),beq_eq_false_iff_ne.mpr same,Bool.false_and]
  exact ⟨rfl,rfl⟩

/-- **The publication never overwrites work that is not retired**, and fails only without room or with pointers outside
    the ring; the pointer it leaves differs from the done pointer as soon as something was published. The work that is
    valid has a cell for each of its entries, and one at least. With one job in flight the cyclic test accepts the done
    pointer that is expected and no other. -/
theorem ring_publication (io : Io) (config : Config) (queue : Queue) (work : WorkPublication) (firstRun : Bool)
    (timestamp : U64) :
    (∀ write done, work.gpuAddressCount ≤ publishMax →
      io.read queue .writePointer = some write → io.read queue .donePointer = some done →
      (∀ publication run, prepareQueue io config queue work firstRun timestamp = some (publication,run) →
        Published (config.binding queue).ringCapacity write done work.gpuAddressCount publication run) ∧
      (prepareQueue io config queue work firstRun timestamp = none →
        (config.binding queue).ringCapacity ≤ write ∨ (config.binding queue).ringCapacity ≤ done ∨
          freeSlots (config.binding queue).ringCapacity.toNat done.toNat write.toNat < work.gpuAddressCount.toNat)) ∧
    (workValid work = true → work.gpuAddressCount ≠ 0 ∧ work.gpuAddressCount ≤ publishMax) ∧
    (∀ event eventNumber observedStamp expectedStamp observed expected capacity,
      capacity ≤ ringCapacityMax → expected < capacity →
      completionSatisfiedWindow event eventNumber observedStamp expectedStamp observed expected expected capacity =
          completionSatisfied event eventNumber observedStamp expectedStamp observed expected ∧
        completionSatisfiedWindow event eventNumber observedStamp expectedStamp observed expected expected capacity =
          (observed == expected && stampReached event eventNumber observedStamp expectedStamp)) := by
  refine ⟨fun write done cells isWrite isDone => ?_,workValid_count,
    fun event eventNumber observedStamp expectedStamp observed _ _ small expectedIn =>
      window_single event eventNumber observedStamp expectedStamp observed small expectedIn⟩
  unfold prepareQueue
  rw [isWrite,isDone]
  dsimp only
  split
  · rename_i outside
    refine ⟨nofun,fun _ => ?_⟩
    rcases outside with above | above
    · exact .inl above
    exact .inr (.inl above)
  rename_i outside
  obtain ⟨writeIn,doneIn⟩ := not_or.mp outside
  rw [BitVec.not_le] at writeIn doneIn
  obtain ⟨goes,stops⟩ := prepareSlots_spec writeIn doneIn work.gpuAddressCount.toNat
  split
  · rename_i none
    exact ⟨nofun,fun _ => .inr (.inr (stops none))⟩
  rename_i slots next prepared
  obtain ⟨enough,places,isLast,apart⟩ := goes slots next prepared
  refine ⟨fun publication run same => ?_,nofun⟩
  cases same
  have all : slots.take publishMax.toNat = slots := by
    have length := congrArg List.length places
    rw [length_map,length_map,length_range] at length
    exact take_of_length_le (length ▸ le_def.mp cells)
  refine ⟨⟨writeIn,doneIn⟩,enough,(congrArg (List.map BitVec.toNat) all).trans places,fun index mem => ?_,isLast,
    fun some => apart (fun none => some (eq_of_toNat_eq none)),rfl,rfl⟩
  have isPlace : index.toNat ∈ (range work.gpuAddressCount.toNat).map
      (slot (config.binding queue).ringCapacity.toNat write.toNat) := by
    rw [← places]
    exact mem_map_of_mem (mem_of_mem_take mem)
  obtain ⟨i,below,same⟩ := mem_map.mp isPlace
  rw [← same]
  exact not_unretired (lt_def.mp doneIn) (lt_def.mp writeIn)
    (Nat.lt_of_lt_of_le (mem_range.mp below) enough)

/-- A publication of nothing in an empty ring leaves the write pointer at the done pointer. -/
theorem publishes_nothing : ¬ ∀ (io : Io) (config : Config) (queue : Queue) (work : WorkPublication) (write done : U32),
    io.read queue .writePointer = some write → io.read queue .donePointer = some done →
    ∀ publication run, prepareQueue io config queue work false 0 = some (publication,run) → publication.nextWritePointer ≠ done := by
  intro claim
  let binding : QueueBinding := ⟨0,8,8,8,8,8,8,0⟩
  exact claim ⟨fun _ _ => some 5,fun _ _ => true,fun _ _ => true,fun _ => true,fun _ => true,true,true⟩
    ⟨binding,binding,binding,false,1⟩ .ta ⟨[],0,0,0,0,[],0,1⟩ 5 5 rfl rfl _ _ rfl rfl

end WindowsOnM1.QueueRing
