import WindowsOnM1.PoolSlabReserved

/-!
A reservation that is refused keeps nothing: the slabs that were added for it stand at the
front of the list and are empty, so the trim that undoes it reaches them first and stops at
one of them only when no more slabs are empty than may be.
-/
namespace WindowsOnM1.PoolSlabRefused
open Actions PoolSlabModel PoolSlabSound PoolSlabReserved List Function

variable {out : List Place} {slabs : Slabs} {slab : U64} {world : World}

theorem withoutSlab_empty (allowed : mayFree slabs = true) :
    (withoutSlab slab slabs).empty.toNat + 1 = slabs.empty.toNat := by
  simp only [mayFree,decide_eq_true_eq] at allowed
  have more := BitVec.lt_def.mp allowed.1
  show (slabs.empty - 1).toNat + 1 = slabs.empty.toNat
  rw [BitVec.toNat_sub,show (1 : U64).toNat = 1 from rfl]
  omega

private theorem empty_le_spare (sound : Sound none out slabs) (covers : (promised slabs).toNat ≤ slabSlots * (slabs.list.length - 1))
    (some : slabs.list ≠ []) (refused : ¬ mayFree slabs = true) : slabs.empty.toNat ≤ slabs.spareLimit.toNat := by
  simp only [mayFree,decide_eq_true_eq,not_and_or] at refused
  have positive := length_pos_iff.mpr some
  have short := sound.short
  have counted := sound.counted
  have less : ((slabs.slabs - 1) * 32).toNat = (slabs.list.length - 1) * 32 := by
    have one : (slabs.slabs - 1).toNat = slabs.list.length - 1 := by
      rw [BitVec.toNat_sub,show (1 : U64).toNat = 1 from rfl]
      omega
    rw [BitVec.toNat_mul,one,show (32 : U64).toNat = 32 from rfl]
    exact Nat.mod_eq_of_lt (by omega)
  rcases refused with few | uncovered
  · exact BitVec.le_def.mp (BitVec.not_lt.mp few)
  refine absurd (BitVec.le_def.mpr ?_) uncovered
  unfold slabSlots at covers
  omega

private theorem trimLoop_empty (rest : List U64) (world : World) :
    Gives (trimLoop rest) world (fun _ left => left.slabs.empty.toNat ≤ world.slabs.empty.toNat) := by
  induction rest generalizing world with
  | nil => exact Nat.le_refl _
  | cons slab rest ih =>
  unfold trimLoop
  rw [gives_bind,gives_get,gives_ite,gives_pure]
  refine ⟨fun _ => Nat.le_refl _,fun allowed => ?_⟩
  unfold freeIfEmpty
  rw [gives_bind,gives_bind,gives_get,gives_ite,gives_pure]
  refine ⟨fun _ => ?_,fun _ => ih world⟩
  refine (gives_freeEmpty slab world).mono (fun _ middle freed => ?_)
  refine (ih middle).mono (fun _ left fewer => fewer.trans ?_)
  have one := @withoutSlab_empty world.slabs slab (not_not.mp allowed)
  rw [freed.1]
  omega

/-- Empty slabs at the front of the list, beyond those that cover the promise, are freed as long as there are too many. -/
private theorem trimLoop_front {front rest : List U64} (sound : Sound none out world.slabs) (list : world.slabs.list = front ++ rest)
    (unused : ∀ slab ∈ front, (world.slabs.record slab).live = 0)
    (covers : (promised world.slabs).toNat ≤ slabSlots * rest.length) :
    Gives (trimLoop (front ++ rest)) world (fun _ left =>
      left.slabs.empty.toNat ≤ max world.slabs.spareLimit.toNat (world.slabs.empty.toNat - front.length)) := by
  induction front generalizing world with
  | nil => exact (trimLoop_empty rest world).mono (fun _ _ fewer => fewer.trans (Nat.le_max_right _ _))
  | cons slab front ih =>
  have held : slab ∈ world.slabs.list := by simp [list]
  have empty := unused slab mem_cons_self
  rw [cons_append]
  unfold trimLoop
  rw [gives_bind,gives_get,gives_ite,gives_pure]
  refine ⟨fun refused => ?_,fun allowed => ?_⟩
  · refine Nat.le_trans (empty_le_spare sound ?_ (ne_nil_of_mem held) refused) (Nat.le_max_left _ _)
    refine covers.trans (Nat.mul_le_mul_left slabSlots ?_)
    rw [list]
    simp
  unfold freeIfEmpty
  rw [gives_bind,gives_bind,gives_get,gives_ite,gives_pure]
  refine ⟨fun _ => ?_,fun used => absurd empty used⟩
  refine (gives_freeEmpty slab world).mono (fun _ middle freed => ?_)
  have one := @withoutSlab_empty world.slabs slab (not_not.mp allowed)
  have list' : middle.slabs.list = front ++ rest := by
    rw [freed.1]
    show world.slabs.list.erase slab = front ++ rest
    rw [list,cons_append,erase_cons_head]
  refine (@ih middle ?_ list' ?_ ?_).mono (fun _ left fewer => ?_)
  · rw [freed.1]
    exact sound_withoutSlab sound held empty
  · rw [freed.1]
    exact fun other mem => unused other (mem_cons_of_mem _ mem)
  · rw [freed.1]
    exact covers
  have limit : middle.slabs.spareLimit = world.slabs.spareLimit := by rw [freed.1]; rfl
  rw [limit,freed.1] at fewer
  rw [length_cons]
  omega

/-- What a reservation has done so far: slabs were added at the front, and they are empty. -/
structure Adding (count : U64) (start : World) (added : List U64) (world : World) : Prop where
  handed : world.handed = start.handed
  reserved : world.slabs.reserved = start.slabs.reserved + count
  reserveCap : world.slabs.reserveCap = start.slabs.reserveCap
  spareLimit : world.slabs.spareLimit = start.slabs.spareLimit
  list : world.slabs.list = added ++ start.slabs.list
  unused : ∀ slab ∈ added, (world.slabs.record slab).live = 0
  empty : world.slabs.empty.toNat = start.slabs.empty.toNat + added.length

/-- What a refused reservation leaves. -/
structure Refused (out : List Place) (start left : World) : Prop where
  handed : left.handed = start.handed
  sound : Sound none out left.slabs
  reserved : left.slabs.reserved = start.slabs.reserved
  covered : Covered left.slabs
  empty : left.slabs.empty.toNat ≤ max start.slabs.spareLimit.toNat start.slabs.empty.toNat

variable {count : U64} {start : World} {added : List U64}

section
variable (adding : Adding count start added world) (sound : Sound none out world.slabs)
include adding sound

theorem Adding.refused (covered : Covered start.slabs) :
    Gives trim { world with slabs := withoutPromise count world.slabs } (fun _ left => Refused out start left) := by
  have undone : Sound none out (withoutPromise count world.slabs) := sound_withoutPromise sound count
  have reserved : (withoutPromise count world.slabs).reserved = start.slabs.reserved := by
    show world.slabs.reserved - count = _
    rw [adding.reserved]
    simp
  have promise : promised (withoutPromise count world.slabs) = promised start.slabs := by
    unfold promised
    rw [reserved,show (withoutPromise count world.slabs).reserveCap = start.slabs.reserveCap from adding.reserveCap]
  have trims : Gives trim { world with slabs := withoutPromise count world.slabs } (fun _ left => left.slabs.empty.toNat ≤
      max world.slabs.spareLimit.toNat (world.slabs.empty.toNat - added.length)) := by
    unfold trim
    rw [gives_bind,gives_get]
    have front := @trimLoop_front out { world with slabs := withoutPromise count world.slabs } added start.slabs.list undone
      adding.list adding.unused (by rw [promise]; exact covered)
    rw [show (withoutPromise count world.slabs).list = added ++ start.slabs.list from adding.list]
    exact front
  refine ((@shrunk_trim out { world with slabs := withoutPromise count world.slabs } undone).both trims).mono
    (fun _ left both => ?_)
  obtain ⟨shrunk,empty⟩ := both
  have limit := adding.spareLimit
  have counted := adding.empty
  refine ⟨shrunk.frame.handed.trans adding.handed,shrunk.sound,shrunk.frame.reserved.trans reserved,shrunk.covered ?_,?_⟩
  · show (promised (withoutPromise count world.slabs)).toNat ≤ slabSlots * world.slabs.list.length
    rw [promise,adding.list,length_append]
    refine Nat.le_trans covered (Nat.mul_le_mul_left slabSlots ?_)
    omega
  rw [limit] at empty
  omega

theorem Adding.more {left : World} (fresh : ∀ other ∈ world.slabs.list, Apart slab other)
    (grown : left.slabs = withSlab slab world.slabs) (handed : left.handed = world.handed) :
    Adding count start (slab :: added) left := by
  have absent : ∀ other ∈ world.slabs.list, other ≠ slab := fun other mem same =>
    not_apart_self slab (same ▸ fresh other mem)
  refine ⟨handed.trans adding.handed,by rw [grown]; exact adding.reserved,by rw [grown]; exact adding.reserveCap,
    by rw [grown]; exact adding.spareLimit,?_,fun other mem => ?_,?_⟩
  · rw [grown]
    show slab :: world.slabs.list = _
    rw [adding.list]
    rfl
  · rw [grown]
    show (update world.slabs.record slab ⟨~~~0,0⟩ other).live = 0
    by_cases same : other = slab
    · rw [same,update_self]
    rw [update_of_ne same]
    exact adding.unused other ((mem_cons.mp mem).resolve_left same)
  have short := sound.short
  have empties := sound.empties_le
  have counted := adding.empty
  rw [grown]
  show (world.slabs.empty + 1).toNat = _
  rw [BitVec.toNat_add,show (1 : U64).toNat = 1 from rfl,length_cons]
  omega

end

private theorem refused_reserveLoop (io : SlabIo) {turns : Nat}
    (adding : Adding count start added world) (sound : Sound none out world.slabs) (covered : Covered start.slabs) :
    Gives (reserveLoop io count turns) world (fun done left => done = false → Refused out start left) := by
  induction turns generalizing world added with
  | zero => exact nofun
  | succ turns ih =>
  unfold reserveLoop
  rw [gives_bind,gives_get,gives_ite,gives_pure]
  refine ⟨fun _ bad => absurd bad Bool.true_eq_false_eq_False,fun _ => ?_⟩
  refine (gives_mayGrow io world).bind (fun floor middle same => ?_)
  refine (grown_unlessFloor io floor same).bind (fun answer left grows => ?_)
  cases answer with
  | none =>
    have adding' : Adding count start added left := by
      refine ⟨grows.handed.trans adding.handed,?_,?_,?_,?_,?_,?_⟩ <;> rw [grows.refused rfl]
      · exact adding.reserved
      · exact adding.reserveCap
      · exact adding.spareLimit
      · exact adding.list
      · exact adding.unused
      exact adding.empty
    have sound' : Sound none out left.slabs := by
      rw [grows.refused rfl]
      exact sound
    exact (adding'.refused sound' covered).mono (fun _ last refused _ => refused)
  | some slab =>
  obtain ⟨grown,fresh⟩ := grows.granted slab rfl
  refine ih (adding.more sound fresh grown grows.handed) ?_
  rw [grown]
  exact sound_withSlab sound fresh

private theorem refused_reserve (io : SlabIo) (sound : Sound none out world.slabs) (covered : Covered world.slabs) :
    Gives (reserve io count) world (fun done left => done = false → Refused out world left) := by
  unfold reserve
  have start : Adding count world [] { world with slabs := { world.slabs with reserved := world.slabs.reserved + count } } :=
    ⟨rfl,rfl,rfl,rfl,rfl,nofun,rfl⟩
  exact refused_reserveLoop io start { sound with } covered

/-- Slots are given back to slabs that are held. -/
def GivesHeld (request : Request) (world : World) : Prop := ∀ slab slot, request = .give slab slot → slab ∈ world.slabs.list

private theorem give_untaken {slot : Nat} (sound : Sound none world.handed world.slabs) (held : slab ∈ world.slabs.list)
    (untaken : (slab,slot) ∉ world.handed) : Gives (give slab slot) world (fun _ left => left = world) := by
  have refused : slabSlots ≤ slot ∨ (world.slabs.record slab).freeMask &&& slotBit slot ≠ 0 := by
    by_contra taken
    rw [not_or,Nat.not_le,free_iff,Bool.not_eq_true] at taken
    exact untaken ((sound.taken _).mpr ⟨held,taken⟩)
  unfold give
  rw [gives_bind,gives_get,if_pos refused,gives_pure]

private theorem sound_actHeld (io : SlabIo) (request : Request) (allowed : GivesHeld request world)
    (sound : Sound none world.handed world.slabs) (covered : Covered world.slabs) :
    Gives (act io request) world (fun _ left => Sound none left.handed left.slabs ∧ Covered left.slabs) := by
  by_cases given : GivesTaken request world
  · exact sound_act io request given sound covered
  obtain ⟨slab,slot,isGive,untaken⟩ : ∃ slab slot, request = .give slab slot ∧ (slab,slot) ∉ world.handed := by
    unfold GivesTaken at given
    push Not at given
    exact given
  subst isGive
  unfold act
  rw [gives_bind]
  refine (give_untaken sound (allowed slab slot rfl) untaken).mono (fun _ left same => ?_)
  subst same
  rw [gives_changeHanded]
  rw [erase_of_not_mem untaken]
  exact ⟨sound,covered⟩

/-- How many slabs have no taken slot. -/
def emptySlabs (slabs : Slabs) : Nat := slabs.list.countP (fun slab => (slabs.record slab).live = 0)
theorem emptySlabs_eq (sound : Sound none out slabs) : slabs.empty.toNat = emptySlabs slabs :=
  sound.empties.trans (countP_change (fun slab _ => by simp [countsEmpty]))

/-- **A refused reservation keeps nothing.** Behind a reservation that is refused the reservations and the taken slots are
    as before, the held slots cover what is promised, and no more slabs are empty than before or than may be. -/
theorem refused_reservation (io : SlabIo) {spareLimit reserveCap : U64} {requests : List Request}
    (every : EveryStep (act io) GivesHeld requests (noSlabs spareLimit reserveCap)) (count : U64) :
    Gives (reserve io count) (runAll (act io) requests (noSlabs spareLimit reserveCap)) (fun done left => done = false →
      left.slabs.reserved = (runAll (act io) requests (noSlabs spareLimit reserveCap)).slabs.reserved ∧
      left.handed = (runAll (act io) requests (noSlabs spareLimit reserveCap)).handed ∧
      (∀ place, Taken left.slabs place ↔ Taken (runAll (act io) requests (noSlabs spareLimit reserveCap)).slabs place) ∧
      min left.slabs.reserved.toNat left.slabs.reserveCap.toNat ≤ slabSlots * left.slabs.list.length ∧
      left.slabs.empty.toNat = emptySlabs left.slabs ∧
      emptySlabs left.slabs ≤ max (runAll (act io) requests (noSlabs spareLimit reserveCap)).slabs.spareLimit.toNat
        (emptySlabs (runAll (act io) requests (noSlabs spareLimit reserveCap)).slabs)) := by
  have step : ∀ request world, GivesHeld request world → Sound none world.handed world.slabs ∧ Covered world.slabs →
      Gives (act io request) world (fun _ left => Sound none left.handed left.slabs ∧ Covered left.slabs) :=
    fun request world allowed both => sound_actHeld io request allowed both.1 both.2
  obtain ⟨sound,covered⟩ := runAll_keeps step every (noSlabs_sound spareLimit reserveCap)
  generalize runAll (act io) requests (noSlabs spareLimit reserveCap) = world at sound covered ⊢
  refine (refused_reserve io sound covered).mono (fun done left refuses failed => ?_)
  have refused := refuses failed
  refine ⟨refused.reserved,refused.handed,fun place => ?_,?_,emptySlabs_eq refused.sound,?_⟩
  · rw [← refused.sound.taken place,← sound.taken place]
  · rw [← promised_toNat]
    exact refused.covered
  · rw [← emptySlabs_eq refused.sound,← emptySlabs_eq sound]
    exact refused.empty

/-- One slab after the other, until three are held. -/
def threeSlabs : SlabIo where
  newSlab := fun held _ =>
    if held = [] then some 0x1000 else if held = [0x1000] then some 0x2000 else if held = [0x2000,0x1000] then some 0x3000 else none
  mayGrow := none
  fresh := fun held _ slab granted other member => by
    split at granted
    · rename_i none
      rw [none] at member
      cases member
    split at granted
    · rename_i one
      rw [one,List.mem_singleton] at member
      cases granted
      subst member
      exact .inr (by decide)
    split at granted
    · rename_i two
      cases granted
      rw [two] at member
      rcases List.mem_cons.mp member with rfl | member
      · exact .inr (by decide)
      rw [List.mem_singleton.mp member]
      exact .inr (by decide)
    cases granted

/-- A reservation for which two slabs are added before the next one is refused. -/
theorem refused_reservation_late :
    Gives (reserve threeSlabs 100) (runAll (act threeSlabs) [.reserve 20,.take 3] (noSlabs 1 1000)) (fun done left => done = false →
      left.slabs.reserved = (runAll (act threeSlabs) [.reserve 20,.take 3] (noSlabs 1 1000)).slabs.reserved ∧
      left.handed = (runAll (act threeSlabs) [.reserve 20,.take 3] (noSlabs 1 1000)).handed ∧
      (∀ place, Taken left.slabs place ↔ Taken (runAll (act threeSlabs) [.reserve 20,.take 3] (noSlabs 1 1000)).slabs place) ∧
      min left.slabs.reserved.toNat left.slabs.reserveCap.toNat ≤ slabSlots * left.slabs.list.length ∧
      left.slabs.empty.toNat = emptySlabs left.slabs ∧
      emptySlabs left.slabs ≤ max (runAll (act threeSlabs) [.reserve 20,.take 3] (noSlabs 1 1000)).slabs.spareLimit.toNat
        (emptySlabs (runAll (act threeSlabs) [.reserve 20,.take 3] (noSlabs 1 1000)).slabs)) := by
  have every : EveryStep (act threeSlabs) GivesHeld [.reserve 20,.take 3] (noSlabs 1 1000) := ⟨nofun,nofun,trivial⟩
  exact refused_reservation threeSlabs every 100

end WindowsOnM1.PoolSlabRefused
