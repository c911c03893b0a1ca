import WindowsOnM1.Tallies
import WindowsOnM1.WordBits

/-!
The event allocator of `apple_agx_event_allocator.c`: 128 events, handed out three at a
time under a lease. A run keeps the triples that were handed out and not taken back; the
bitmap and the table of leases say the same.
-/
namespace WindowsOnM1.EventAllocator
open Tallies Finset
open WordBits

abbrev U32 := BitVec 32

/-- `APPLE_AGX_EVENT_COUNT`. -/
abbrev eventCount : Nat := 128

/-- `APPLE_AGX_EVENT_PAIR`. -/
structure EventPair where
  ta : Nat
  d3 : Nat
  compute : Nat
  lease : U32
deriving DecidableEq

/-- `APPLE_AGX_EVENT_ALLOCATOR`. -/
structure Allocator where
  reserved : Nat → U32
  leases : Nat → U32
  nextLease : U32
  initialized : Bool

/-- `AppleAgxEventReserved`. -/
def eventReserved (allocator : Allocator) (event : Nat) : Bool := bit allocator.reserved event

/-- `AppleAgxEventSetReserved`. -/
def setReserved (event : Nat) (reserved : Bool) (allocator : Allocator) : Allocator :=
  { allocator with reserved := setBit allocator.reserved event reserved }
def setLease (event : Nat) (lease : U32) (allocator : Allocator) : Allocator :=
  { allocator with leases := Function.update allocator.leases event lease }

/-- `AppleAgxEventAllocatorInitialize`. -/
def allocatorInitialize : Allocator := ⟨fun _ => 0,fun _ => 0,1,true⟩

/-- The scan of `AppleAgxEventAllocatorReservePair` for `turns` events: the first three that are free. -/
def findFree (allocator : Allocator) : (turns event first second : Nat) → Nat × Nat × Nat
  | 0, _, first, second => (first,second,eventCount)
  | turns+1, event, first, second =>
    if eventReserved allocator event = true then findFree allocator turns (event + 1) first second
    else if first = eventCount then findFree allocator turns (event + 1) event second
    else if second = eventCount then findFree allocator turns (event + 1) first event
    else (first,second,event)

/-- What is written for one event of a triple. -/
def take (lease : U32) (event : Nat) (allocator : Allocator) : Allocator :=
  setLease event lease (setReserved event true allocator)
def giveBack (event : Nat) (allocator : Allocator) : Allocator := setLease event 0 (setReserved event false allocator)

/-- `AppleAgxEventAllocatorReservePair`: the triple, when it succeeds. -/
def reservePair (allocator : Allocator) : Option EventPair × Allocator :=
  if allocator.initialized = false then (none,allocator)
  else
    let (first,second,third) := findFree allocator eventCount 0 eventCount eventCount
    if third = eventCount then (none,allocator)
    else
      let lease := if allocator.nextLease = 0 then 1 else allocator.nextLease
      let advanced := { allocator with nextLease := lease + 1 }
      (some ⟨first,second,third,lease⟩,take lease third (take lease second (take lease first advanced)))

/-- What `AppleAgxEventAllocatorReleasePair` checks. -/
def accepted (allocator : Allocator) (pair : EventPair) : Prop :=
  allocator.initialized = true ∧ pair.ta < eventCount ∧ pair.d3 < eventCount ∧ pair.compute < eventCount ∧
    pair.ta ≠ pair.d3 ∧ pair.ta ≠ pair.compute ∧ pair.d3 ≠ pair.compute ∧ pair.lease ≠ 0 ∧
    eventReserved allocator pair.ta = true ∧ eventReserved allocator pair.d3 = true ∧
    allocator.leases pair.ta = pair.lease ∧ allocator.leases pair.d3 = pair.lease ∧
    eventReserved allocator pair.compute = true ∧ allocator.leases pair.compute = pair.lease

instance (allocator : Allocator) (pair : EventPair) : Decidable (accepted allocator pair) := by
  unfold accepted
  infer_instance

/-- `AppleAgxEventAllocatorReleasePair`. -/
def releasePair (allocator : Allocator) (pair : EventPair) : Bool × Allocator :=
  if accepted allocator pair then (true,giveBack pair.compute (giveBack pair.d3 (giveBack pair.ta allocator)))
  else (false,allocator)

def EventPair.events (pair : EventPair) : Finset Nat := {pair.ta,pair.d3,pair.compute}

/-- A triple names another one: the same events in any order, under the same lease. -/
def EventPair.Names (pair held : EventPair) : Prop := pair.lease = held.lease ∧ pair.events = held.events
instance (pair held : EventPair) : Decidable (pair.Names held) := by
  unfold EventPair.Names
  infer_instance
inductive Call
  | reserve
  | release (pair : EventPair)
deriving DecidableEq

/-- The allocator, the triples that are outstanding, and how many there have been. -/
structure World where
  allocator : Allocator
  outstanding : List EventPair
  reservations : Nat

def serve (world : World) : Call → World
  | .reserve =>
    match reservePair world.allocator with
    | (none,left) => { world with allocator := left }
    | (some pair,left) => ⟨left,pair :: world.outstanding,world.reservations + 1⟩
  | .release pair =>
    match releasePair world.allocator pair with
    | (false,left) => { world with allocator := left }
    | (true,left) => { world with allocator := left, outstanding := world.outstanding.filter (fun held => ¬ pair.Names held) }

def run (calls : List Call) : World := calls.foldl serve ⟨allocatorInitialize,[],0⟩

section
variable (allocator : Allocator) (event other : Nat) (lease : U32)

@[simp] theorem take_reserved :
    eventReserved (take lease event allocator) other = if other = event then true else eventReserved allocator other :=
  bit_setBit (by decide) allocator.reserved event true other
@[simp] theorem take_leases : (take lease event allocator).leases other = if other = event then lease else allocator.leases other := by
  simp only [take,setLease,setReserved,Function.update_apply]
@[simp] theorem take_nextLease : (take lease event allocator).nextLease = allocator.nextLease := rfl
@[simp] theorem take_initialized : (take lease event allocator).initialized = allocator.initialized := rfl
@[simp] theorem giveBack_reserved :
    eventReserved (giveBack event allocator) other = if other = event then false else eventReserved allocator other :=
  bit_setBit (by decide) allocator.reserved event false other
@[simp] theorem giveBack_leases : (giveBack event allocator).leases other = if other = event then 0 else allocator.leases other := by
  simp only [giveBack,setLease,setReserved,Function.update_apply]
@[simp] theorem giveBack_nextLease : (giveBack event allocator).nextLease = allocator.nextLease := rfl
@[simp] theorem giveBack_initialized : (giveBack event allocator).initialized = allocator.initialized := rfl

end

def free (allocator : Allocator) (event : Nat) : Bool := !eventReserved allocator event
def freeEvents (allocator : Allocator) : Nat := tally (free allocator) eventCount

/-- What the scan has found of the events before some one. -/
def Found (allocator : Allocator) (event first second : Nat) : Prop :=
  (first = eventCount ∧ second = eventCount ∧ tally (free allocator) event = 0) ∨
    (first < event ∧ free allocator first = true ∧ second = eventCount ∧ tally (free allocator) event = 1) ∨
    (first < second ∧ second < event ∧ free allocator first = true ∧ free allocator second = true ∧
      tally (free allocator) event = 2)

def FindsThree (allocator : Allocator) (found : Nat × Nat × Nat) : Prop :=
  (found.2.2 = eventCount ∧ freeEvents allocator < 3) ∨
    (found.1 < found.2.1 ∧ found.2.1 < found.2.2 ∧ found.2.2 < eventCount ∧ free allocator found.1 = true ∧
      free allocator found.2.1 = true ∧ free allocator found.2.2 = true ∧ 3 ≤ freeEvents allocator)

private theorem tally_mono {property : Nat → Bool} {bound bound' : Nat} (le : bound ≤ bound') :
    tally property bound ≤ tally property bound' := by
  induction le with
  | refl => exact Nat.le_refl _
  | step _ ih => exact ih.trans (by rw [tally_succ]; exact Nat.le_add_right _ _)

private theorem findFree_finds (allocator : Allocator) {turns event first second : Nat} (ends : event + turns = eventCount)
    (found : Found allocator event first second) : FindsThree allocator (findFree allocator turns event first second) := by
  induction turns generalizing event first second with
  | zero =>
    subst ends
    refine .inl ⟨rfl,?_⟩
    show tally (free allocator) eventCount < 3
    rcases found with ⟨_,_,count⟩ | ⟨_,_,_,count⟩ | ⟨_,_,_,_,count⟩ <;> omega
  | succ turns ih =>
  have inside : event < eventCount := by omega
  have next := tally_succ (free allocator) event
  unfold findFree
  by_cases reserved : eventReserved allocator event = true
  · have taken : free allocator event = false := by simp [free,reserved]
    rw [taken,if_neg Bool.false_ne_true,Nat.add_zero] at next
    rw [if_pos reserved]
    refine ih (by omega) ?_
    rcases found with ⟨none,none',count⟩ | ⟨before,here,none,count⟩ | ⟨order,before,here,here',count⟩
    · exact .inl ⟨none,none',next.trans count⟩
    · exact .inr (.inl ⟨by omega,here,none,next.trans count⟩)
    exact .inr (.inr ⟨order,by omega,here,here',next.trans count⟩)
  have isFree : free allocator event = true := by simp [free,reserved]
  rw [isFree,if_pos rfl] at next
  rw [if_neg reserved]
  rcases found with ⟨none,none',count⟩ | ⟨before,here,none,count⟩ | ⟨order,before,here,here',count⟩
  · rw [if_pos none]
    exact ih (by omega) (.inr (.inl ⟨by omega,isFree,none',by omega⟩))
  · rw [if_neg (by omega),if_pos none]
    exact ih (by omega) (.inr (.inr ⟨before,by omega,here,isFree,by omega⟩))
  rw [if_neg (by omega),if_neg (by omega)]
  have enough : tally (free allocator) (event + 1) ≤ freeEvents allocator := tally_mono (by omega)
  exact .inr ⟨order,before,inside,here,here',isFree,by omega⟩

theorem findFree_all (allocator : Allocator) : FindsThree allocator (findFree allocator eventCount 0 eventCount eventCount) :=
  findFree_finds allocator (by omega) (.inl ⟨rfl,rfl,rfl⟩)

/-- A triple of three different events. -/
def EventPair.Triple (pair : EventPair) : Prop :=
  pair.ta ≠ pair.d3 ∧ pair.ta ≠ pair.compute ∧ pair.d3 ≠ pair.compute ∧ ∀ event ∈ pair.events, event < eventCount

/-- The bitmap and the table of leases say what is outstanding. -/
structure Sound (world : World) : Prop where
  initialized : world.allocator.initialized = true
  triples : ∀ held ∈ world.outstanding, held.Triple
  apart : world.outstanding.Pairwise (fun held other => Disjoint held.events other.events)
  reserved : ∀ event < eventCount,
    eventReserved world.allocator event = true ↔ ∃ held ∈ world.outstanding, event ∈ held.events
  leased : ∀ held ∈ world.outstanding, ∀ event ∈ held.events, world.allocator.leases event = held.lease
  known : ∀ held ∈ world.outstanding, held.lease ≠ 0 ∧ held.lease.toNat ≤ world.reservations
  leases : world.outstanding.Pairwise (fun held other => held.lease ≠ other.lease)
  next : world.allocator.nextLease = BitVec.ofNat 32 (world.reservations + 1)

private theorem initialized_sound : Sound ⟨allocatorInitialize,[],0⟩ where
  initialized := rfl
  triples := by simp
  apart := .nil
  reserved := by simp [allocatorInitialize,eventReserved,bit]
  leased := by simp
  known := by simp
  leases := .nil
  next := rfl

variable {world : World}

theorem Sound.same_lease (sound : Sound world) {held other : EventPair} (mem : held ∈ world.outstanding)
    (mem' : other ∈ world.outstanding) (same : held.lease = other.lease) : held = other := by
  by_contra different
  have symmetric : Std.Symm (fun held other : EventPair => held.lease ≠ other.lease) := ⟨fun _ _ ne => ne.symm⟩
  exact sound.leases.forall mem mem' different same

variable {pair : EventPair}

theorem mem_events {event : Nat} : event ∈ pair.events ↔ event = pair.ta ∨ event = pair.d3 ∨ event = pair.compute := by
  simp [EventPair.events]
theorem EventPair.Triple.card (triple : pair.Triple) : pair.events.card = 3 :=
  card_eq_three.mpr ⟨_,_,_,triple.1,triple.2.1,triple.2.2.1,rfl⟩

private theorem distinct_of_card (card : pair.events.card = 3) :
    pair.ta ≠ pair.d3 ∧ pair.ta ≠ pair.compute ∧ pair.d3 ≠ pair.compute := by
  have few : ∀ left right : Nat, ({left,right} : Finset Nat).card ≤ 2 := fun _ _ => card_le_two
  refine ⟨fun same => ?_,fun same => ?_,fun same => ?_⟩
  · have small : pair.events = {pair.d3,pair.compute} := by simp [EventPair.events,same]
    have two := few pair.d3 pair.compute
    rw [← small,card] at two
    omega
  · have small : pair.events = {pair.d3,pair.compute} := by
      ext event
      simp [EventPair.events,same]
    have two := few pair.d3 pair.compute
    rw [← small,card] at two
    omega
  have small : pair.events = {pair.ta,pair.compute} := by simp [EventPair.events,same]
  have two := few pair.ta pair.compute
  rw [← small,card] at two
  omega

private theorem reservePair_cases {allocator : Allocator} (initialized : allocator.initialized = true) (live : allocator.nextLease ≠ 0) :
    (reservePair allocator = (none,allocator) ∧ freeEvents allocator < 3) ∨
      ∃ first second third, first < second ∧ second < third ∧ third < eventCount ∧ free allocator first = true ∧
        free allocator second = true ∧ free allocator third = true ∧ 3 ≤ freeEvents allocator ∧
        reservePair allocator = (some ⟨first,second,third,allocator.nextLease⟩,
          take allocator.nextLease third (take allocator.nextLease second (take allocator.nextLease first
            { allocator with nextLease := allocator.nextLease + 1 }))) := by
  have finds := findFree_all allocator
  unfold reservePair
  rw [if_neg (by simp [initialized])]
  generalize findFree allocator eventCount 0 eventCount eventCount = found at finds ⊢
  obtain ⟨first,second,third⟩ := found
  dsimp only
  rcases finds with ⟨none,few⟩ | ⟨order,order',inside,here,here',here'',enough⟩
  · exact .inl ⟨if_pos none,few⟩
  refine .inr ⟨first,second,third,order,order',inside,here,here',here'',enough,?_⟩
  rw [if_neg (Nat.ne_of_lt inside)]
  simp only [if_neg live]

section
variable (sound : Sound world) (few : world.reservations + 1 < 2 ^ 32)
include sound few

theorem Sound.next_toNat : world.allocator.nextLease.toNat = world.reservations + 1 := by
  rw [sound.next,BitVec.toNat_ofNat,Nat.mod_eq_of_lt few]

theorem Sound.next_ne_zero : world.allocator.nextLease ≠ 0 := by
  intro zero
  have value := sound.next_toNat few
  rw [zero] at value
  cases value

private theorem reserve_sound : Sound (serve world .reserve) := by
  have value := sound.next_toNat few
  have live := sound.next_ne_zero few
  unfold serve
  rcases reservePair_cases sound.initialized live with ⟨refused,_⟩ |
    ⟨first,second,third,order,order',inside,here,here',here'',_,taken⟩
  · rw [refused]
    exact sound
  rw [taken]
  -- Nothing that is free belongs to an outstanding triple.
  have unheld : ∀ event, event < eventCount → free world.allocator event = true →
      ∀ held ∈ world.outstanding, event ∉ held.events := by
    intro event below isFree held mem inEvents
    have reserved := (sound.reserved event below).mpr ⟨held,mem,inEvents⟩
    simp [free,reserved] at isFree
  have unheld' : ∀ held ∈ world.outstanding, first ∉ held.events ∧ second ∉ held.events ∧ third ∉ held.events :=
    fun held mem => ⟨unheld first (by omega) here held mem,unheld second (by omega) here' held mem,
      unheld third inside here'' held mem⟩
  refine ⟨sound.initialized,?_,?_,fun event below => ?_,?_,?_,?_,?_⟩
  · rintro held (_ | ⟨_,mem⟩)
    · refine ⟨?_,?_,?_,fun event mem => ?_⟩
      · exact Nat.ne_of_lt order
      · exact Nat.ne_of_lt (order.trans order')
      · exact Nat.ne_of_lt order'
      rcases mem_events.mp mem with rfl | rfl | rfl <;> omega
    exact sound.triples held mem
  · refine .cons (fun held mem => ?_) sound.apart
    rw [disjoint_left]
    intro event mine
    rcases mem_events.mp mine with rfl | rfl | rfl
    · exact (unheld' held mem).1
    · exact (unheld' held mem).2.1
    exact (unheld' held mem).2.2
  · have before := sound.reserved event below
    simp only [take_reserved,List.mem_cons,exists_eq_or_imp,mem_events]
    change (if event = third then true else if event = second then true else if event = first then true
      else eventReserved world.allocator event) = true ↔ _
    split
    · simp [*]
    split
    · simp [*]
    split
    · simp [*]
    simp [*,mem_events]
  · rintro held (_ | ⟨_,mem⟩) event inEvents
    · rcases mem_events.mp inEvents with rfl | rfl | rfl <;> simp
    obtain ⟨not1,not2,not3⟩ := unheld' held mem
    simp only [take_leases]
    rw [if_neg (by rintro rfl; exact not3 inEvents),if_neg (by rintro rfl; exact not2 inEvents),
      if_neg (by rintro rfl; exact not1 inEvents)]
    exact sound.leased held mem event inEvents
  · rintro held (_ | ⟨_,mem⟩)
    · exact ⟨live,by dsimp only; omega⟩
    exact ⟨(sound.known held mem).1,Nat.le_succ_of_le (sound.known held mem).2⟩
  · refine .cons (fun held mem same => ?_) sound.leases
    have old := (sound.known held mem).2
    rw [← same] at old
    dsimp only at old
    omega
  rw [sound.next]
  apply BitVec.eq_of_toNat_eq
  simp [BitVec.toNat_add]

end

private theorem reservePair_ends (sound : Sound world) :
    ((reservePair world.allocator).1 = none ↔ freeEvents world.allocator < 3) ∧
      ((reservePair world.allocator).1 = none → (reservePair world.allocator).2 = world.allocator) := by
  have finds := findFree_all world.allocator
  unfold reservePair
  rw [if_neg (by simp [sound.initialized])]
  generalize findFree world.allocator eventCount 0 eventCount eventCount = found at finds ⊢
  dsimp only
  rcases finds with ⟨none,few⟩ | ⟨_,_,inside,_,_,_,enough⟩
  · rw [if_pos none]
    exact ⟨⟨fun _ => few,fun _ => rfl⟩,fun _ => rfl⟩
  rw [if_neg (Nat.ne_of_lt inside)]
  exact ⟨⟨nofun,fun less => absurd less (by omega)⟩,nofun⟩

theorem accepted_iff (sound : Sound world) (pair : EventPair) :
    accepted world.allocator pair ↔ ∃ held ∈ world.outstanding, pair.Names held := by
  constructor
  · rintro ⟨_,taIn,d3In,computeIn,ne1,ne2,ne3,_,ta,d3,taLease,d3Lease,compute,computeLease⟩
    obtain ⟨held,mem,taHeld⟩ := (sound.reserved _ taIn).mp ta
    have lease : held.lease = pair.lease := (sound.leased held mem _ taHeld).symm.trans taLease
    have also : ∀ event < eventCount, eventReserved world.allocator event = true →
        world.allocator.leases event = pair.lease → event ∈ held.events := by
      intro event inside reserved leased
      obtain ⟨other,mem',inOther⟩ := (sound.reserved event inside).mp reserved
      have lease' : other.lease = pair.lease := (sound.leased other mem' _ inOther).symm.trans leased
      rwa [sound.same_lease mem mem' (lease.trans lease'.symm)]
    refine ⟨held,mem,lease.symm,eq_of_subset_of_card_le (fun event inPair => ?_) ?_⟩
    · rcases mem_events.mp inPair with rfl | rfl | rfl
      · exact taHeld
      · exact also _ d3In d3 d3Lease
      exact also _ computeIn compute computeLease
    rw [(sound.triples held mem).card]
    exact (card_eq_three.mpr ⟨_,_,_,ne1,ne2,ne3,rfl⟩).ge
  rintro ⟨held,mem,lease,events⟩
  have triple := sound.triples held mem
  obtain ⟨ne1,ne2,ne3⟩ := distinct_of_card (by rw [events,triple.card] : pair.events.card = 3)
  have each : ∀ event ∈ pair.events, event < eventCount ∧ eventReserved world.allocator event = true ∧
      world.allocator.leases event = pair.lease := by
    intro event inPair
    rw [events] at inPair
    have inside := triple.2.2.2 event inPair
    exact ⟨inside,(sound.reserved event inside).mpr ⟨held,mem,inPair⟩,(sound.leased held mem event inPair).trans lease.symm⟩
  have ta := each pair.ta (mem_events.mpr (.inl rfl))
  have d3 := each pair.d3 (mem_events.mpr (.inr (.inl rfl)))
  have compute := each pair.compute (mem_events.mpr (.inr (.inr rfl)))
  exact ⟨sound.initialized,ta.1,d3.1,compute.1,ne1,ne2,ne3,by rw [lease]; exact (sound.known held mem).1,ta.2.1,d3.2.1,
    ta.2.2,d3.2.2,compute.2.1,compute.2.2⟩

private theorem release_sound (sound : Sound world) (pair : EventPair) : Sound (serve world (.release pair)) := by
  unfold serve releasePair
  dsimp only
  by_cases ok : accepted world.allocator pair
  swap
  · rw [if_neg ok]
    exact sound
  rw [if_pos ok]
  obtain ⟨gone,mem,names⟩ := (accepted_iff sound pair).mp ok
  -- What is kept has none of the events that are given back.
  have kept : ∀ held, held ∈ world.outstanding.filter (fun held => ¬ pair.Names held) ↔
      held ∈ world.outstanding ∧ ¬ pair.Names held := by simp
  have apart : ∀ held ∈ world.outstanding, ¬ pair.Names held → ∀ event ∈ held.events, event ∉ pair.events := by
    intro held mem' notNamed event inHeld inPair
    have different : held ≠ gone := fun same => notNamed (same ▸ names)
    rw [names.2] at inPair
    exact disjoint_left.mp (sound.apart.forall mem' mem different) inHeld inPair
  have split : ∀ (event : Nat) {β : Type} (value old : β), (if event = pair.compute then value else if event = pair.d3 then value
      else if event = pair.ta then value else old) = if event ∈ pair.events then value else old := by
    intro event β value old
    simp only [mem_events]
    split_ifs <;> tauto
  refine ⟨sound.initialized,?_,?_,fun event below => ?_,?_,?_,?_,sound.next⟩
  · exact fun held mem' => sound.triples held ((kept held).mp mem').1
  · exact sound.apart.filter _
  · simp only [giveBack_reserved]
    rw [split]
    split
    · rename_i inPair
      refine ⟨nofun,fun ⟨held,mem',inHeld⟩ => ?_⟩
      exact absurd inPair (apart held ((kept held).mp mem').1 ((kept held).mp mem').2 event inHeld)
    rename_i inPair
    rw [sound.reserved event below]
    refine ⟨fun ⟨held,mem',inHeld⟩ => ⟨held,(kept held).mpr ⟨mem',fun named => ?_⟩,inHeld⟩,
      fun ⟨held,mem',inHeld⟩ => ⟨held,((kept held).mp mem').1,inHeld⟩⟩
    exact inPair (by rw [named.2]; exact inHeld)
  · intro held mem' event inHeld
    simp only [giveBack_leases]
    rw [split,if_neg (apart held ((kept held).mp mem').1 ((kept held).mp mem').2 event inHeld)]
    exact sound.leased held ((kept held).mp mem').1 event inHeld
  · exact fun held mem' => sound.known held ((kept held).mp mem').1
  exact sound.leases.filter _

private theorem serve_reservations (world : World) (call : Call) : world.reservations ≤ (serve world call).reservations := by
  unfold serve
  split
  · split
    · exact Nat.le_refl _
    exact Nat.le_succ _
  split <;> exact Nat.le_refl _

private theorem foldl_reservations (calls : List Call) (world : World) : world.reservations ≤ (calls.foldl serve world).reservations := by
  induction calls generalizing world with
  | nil => exact Nat.le_refl _
  | cons call rest ih => exact (serve_reservations world call).trans (ih _)

private theorem serve_sound (sound : Sound world) (call : Call) (few : (serve world call).reservations < 2 ^ 32) :
    Sound (serve world call) := by
  cases call with
  | release pair => exact release_sound sound pair
  | reserve =>
  by_cases room : world.reservations + 1 < 2 ^ 32
  · exact reserve_sound sound room
  -- A reservation now would be one too many, so this one is refused.
  unfold serve at few ⊢
  dsimp only at few ⊢
  split at few
  · rename_i left refused
    have same : left = world.allocator := by
      unfold reservePair at refused
      split at refused
      · exact (congrArg Prod.snd refused).symm
      dsimp only at refused
      split at refused
      · exact (congrArg Prod.snd refused).symm
      cases congrArg Prod.fst refused
    subst same
    exact sound
  exact absurd few room

theorem run_sound (calls : List Call) (few : (run calls).reservations < 2 ^ 32) : Sound (run calls) := by
  have runs : ∀ (calls : List Call) (world : World), Sound world → (calls.foldl serve world).reservations < 2 ^ 32 →
      Sound (calls.foldl serve world) := by
    intro calls
    induction calls with
    | nil => exact fun world sound _ => sound
    | cons call rest ih =>
    intro world sound few
    have here := Nat.lt_of_le_of_lt (foldl_reservations rest (serve world call)) few
    exact ih _ (serve_sound sound call here) few
  exact runs calls _ initialized_sound few

/-- **Event triples are exclusive.** After every run of calls with fewer than 2^32 reservations the outstanding triples
    are apart and make up what is reserved; a reservation fails only when fewer than three events are free, a release
    succeeds only for an outstanding triple under its own lease, and a call that fails changes nothing. -/
theorem triples_exclusive (calls : List Call) (few : (run calls).reservations < 2 ^ 32) :
    (∀ held ∈ (run calls).outstanding, held.Triple) ∧
      (run calls).outstanding.Pairwise (fun held other => Disjoint held.events other.events) ∧
      (∀ event < eventCount,
        eventReserved (run calls).allocator event = true ↔ ∃ held ∈ (run calls).outstanding, event ∈ held.events) ∧
      ((reservePair (run calls).allocator).1 = none ↔ freeEvents (run calls).allocator < 3) ∧
      ((reservePair (run calls).allocator).1 = none → (reservePair (run calls).allocator).2 = (run calls).allocator) ∧
      (∀ pair, (releasePair (run calls).allocator pair).1 = true ↔ ∃ held ∈ (run calls).outstanding, pair.Names held) ∧
      (∀ pair, (releasePair (run calls).allocator pair).1 = false →
        (releasePair (run calls).allocator pair).2 = (run calls).allocator) := by
  have sound := run_sound calls few
  have reserves := reservePair_ends sound
  refine ⟨sound.triples,sound.apart,sound.reserved,reserves.1,reserves.2,fun pair => ?_,fun pair refused => ?_⟩
  · rw [← accepted_iff sound]
    unfold releasePair
    split <;> simp [*]
  unfold releasePair at refused ⊢
  split
  · rename_i ok
    rw [if_pos ok] at refused
    cases refused
  · rfl

/-- Two triples, the first of which is given back in another order, and a stale release of it. -/
theorem triples_exclusive_stale :
    (run [.reserve,.reserve,.release ⟨1,0,2,1⟩,.release ⟨0,1,2,1⟩]).reservations < 2 ^ 32 ∧
      (∀ pair, (releasePair (run [.reserve,.reserve,.release ⟨1,0,2,1⟩,.release ⟨0,1,2,1⟩]).allocator pair).1 = true ↔
        ∃ held ∈ (run [.reserve,.reserve,.release ⟨1,0,2,1⟩,.release ⟨0,1,2,1⟩]).outstanding, pair.Names held) := by
  have few : (run [.reserve,.reserve,.release ⟨1,0,2,1⟩,.release ⟨0,1,2,1⟩]).reservations < 2 ^ 32 := by decide +kernel
  exact ⟨few,(triples_exclusive _ few).2.2.2.2.2.1⟩

end WindowsOnM1.EventAllocator
