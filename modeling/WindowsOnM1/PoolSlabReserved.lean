import WindowsOnM1.PoolSlabSound
import Mathlib.Data.List.ProdSigma

/-!
Every operation keeps the slabs in agreement with what is handed out, and the held slots
cover the promised ones.
-/
namespace WindowsOnM1.PoolSlabReserved
open Actions Tallies PoolSlabModel PoolSlabSound BitVec Function

/-- What an operation leaves as it was. -/
structure Frame (world left : World) : Prop where
  handed : left.handed = world.handed
  reserved : left.slabs.reserved = world.slabs.reserved
  reserveCap : left.slabs.reserveCap = world.slabs.reserveCap

theorem Frame.refl (world : World) : Frame world world := ⟨rfl,rfl,rfl⟩
theorem Frame.trans {world middle left : World} (first : Frame world middle) (second : Frame middle left) : Frame world left :=
  ⟨second.handed.trans first.handed,second.reserved.trans first.reserved,second.reserveCap.trans first.reserveCap⟩

variable {out : List Place} {slabs : Slabs} {slab : U64} {world : World}

/-- What `MayFree` allows leaves the promised slots covered. -/
theorem covered_withoutSlab (sound : Sound none out slabs) (held : slab ∈ slabs.list) (allowed : mayFree slabs = true) :
    Covered (withoutSlab slab slabs) := by
  simp only [mayFree,decide_eq_true_eq] at allowed
  have bound := le_def.mp allowed.2
  have length := List.length_erase_add_one held
  have counted := sound.counted
  have less : (slabs.slabs - 1).toNat = slabs.slabs.toNat - 1 := by
    rw [toNat_sub,show (1 : U64).toNat = 1 from rfl]
    omega
  rw [toNat_mul,less,counted,show (32 : U64).toNat = 32 from rfl] at bound
  have promise : promised (withoutSlab slab slabs) = promised slabs := rfl
  have list : (withoutSlab slab slabs).list.length = slabs.list.length - 1 := (Nat.sub_eq_of_eq_add length.symm).symm
  unfold Covered slabSlots
  rw [promise,list]
  omega

theorem gives_freeEmpty (slab : U64) (world : World) :
    Gives (freeEmpty slab) world (fun _ left => left.slabs = withoutSlab slab world.slabs ∧ left.handed = world.handed) := by
  unfold freeEmpty
  exact ⟨rfl,rfl⟩

/-- What a piece that may free slabs leaves. -/
structure Shrunk (out : List Place) (world left : World) : Prop where
  sound : Sound none out left.slabs
  covered : Covered world.slabs → Covered left.slabs
  frame : Frame world left

section
variable (sound : Sound none out world.slabs)
include sound

private theorem shrunk_freeEmpty (held : slab ∈ world.slabs.list)
    (empty : (world.slabs.record slab).live = 0) (allowed : mayFree world.slabs = true) :
    Gives (freeEmpty slab) world (fun _ left => Shrunk out world left ∧ left.slabs.list = world.slabs.list.erase slab) := by
  refine (gives_freeEmpty slab world).mono (fun _ left freed => ?_)
  obtain ⟨slabs,handed⟩ := freed
  refine ⟨⟨?_,fun _ => ?_,handed,?_,?_⟩,?_⟩
  · rw [slabs]
    exact sound_withoutSlab sound held empty
  · rw [slabs]
    exact covered_withoutSlab sound held allowed
  all_goals
    rw [slabs]
    rfl

private theorem shrunk_trimLoop {rest : List U64} (held : ∀ slab ∈ rest, slab ∈ world.slabs.list)
    (nodup : rest.Nodup) : Gives (trimLoop rest) world (fun _ left => Shrunk out world left) := by
  induction rest generalizing world with
  | nil => exact ⟨sound,id,.refl world⟩
  | cons slab rest ih =>
  obtain ⟨absent,nodup⟩ := List.nodup_cons.mp nodup
  have here := held slab List.mem_cons_self
  unfold trimLoop
  rw [gives_bind,gives_get,gives_ite,gives_pure]
  refine ⟨fun _ => ⟨sound,id,.refl world⟩,fun allowed => ?_⟩
  unfold freeIfEmpty
  rw [gives_bind,gives_bind,gives_get,gives_ite,gives_pure]
  refine ⟨fun empty => ?_,fun _ => ?_⟩
  · refine (shrunk_freeEmpty sound here empty (not_not.mp allowed)).mono (fun _ middle freed => ?_)
    obtain ⟨shrunk,list⟩ := freed
    refine (ih shrunk.sound (fun other mem => ?_) nodup).mono (fun _ left rest => ?_)
    · rw [list]
      exact sound.listNodup.mem_erase_iff.mpr ⟨fun same => absent (same ▸ mem),held other (List.mem_cons_of_mem slab mem)⟩
    exact ⟨rest.sound,fun covered => rest.covered (shrunk.covered covered),shrunk.frame.trans rest.frame⟩
  exact ih sound (fun other mem => held other (List.mem_cons_of_mem slab mem)) nodup

theorem shrunk_trim : Gives trim world (fun _ left => Shrunk out world left) := by
  unfold trim
  exact shrunk_trimLoop sound (fun _ mem => mem) sound.listNodup

end

/-- The slabs after a slot is given back. -/
def withGiven (slab : U64) (slot : Nat) (slabs : Slabs) : Slabs :=
  changeSlab slab (fun slab => ⟨slab.freeMask ||| slotBit slot,slab.live - 1⟩) slabs
theorem withGiven_same (slab : U64) (slot : Nat) (slabs : Slabs) : (withGiven slab slot slabs).record slab =
    ⟨(slabs.record slab).freeMask ||| slotBit slot,(slabs.record slab).live - 1⟩ := update_self _ _ _

variable {other : U64}

theorem withGiven_other (apart : other ≠ slab) (slot : Nat) (slabs : Slabs) :
    (withGiven slab slot slabs).record other = slabs.record other := update_of_ne apart _ _

variable {slot : Nat}

private theorem sound_withGiven (sound : Sound none out slabs) (mem : (slab,slot) ∈ out) :
    Sound (some slab) (out.erase (slab,slot)) (withGiven slab slot slabs) := by
  obtain ⟨held,inside,used⟩ : slab ∈ slabs.list ∧ slot < 32 ∧ (slabs.record slab).freeMask.getLsbD slot = false :=
    (sound.taken _).mp mem
  have lives := sound.lives slab held
  have fewer := usedSlots_give inside used
  have less : ((slabs.record slab).live - 1).toNat = (slabs.record slab).live.toNat - 1 := by
    rw [toNat_sub,show (1 : U32).toNat = 1 from rfl]
    omega
  have positive : (slabs.record slab).live ≠ 0 := by
    intro zero
    rw [zero,show (0 : U32).toNat = 0 from rfl] at lives
    omega
  refine ⟨sound.apart,sound.counted,?_,fun other held' => ?_,sound.nodup.erase _,fun place => ?_⟩
  · refine sound.empties.trans (countP_change (fun other _ => ?_))
    unfold countsEmpty
    by_cases same : other = slab
    · subst same
      exact decide_eq_decide.mpr ⟨fun both => absurd both.1 positive,fun both => absurd rfl both.2⟩
    rw [withGiven_other same]
    simp [Ne.symm same]
  · by_cases same : other = slab
    · rw [same,withGiven_same]
      exact less.trans (by rw [lives,fewer]; rfl)
    rw [withGiven_other same]
    exact sound.lives other held'
  rw [sound.nodup.mem_erase_iff,sound.taken place]
  obtain ⟨at_,number⟩ := place
  unfold Taken
  by_cases same : at_ = slab
  · subst same
    rw [withGiven_same]
    by_cases last : number = slot
    · subst last
      simp [inside]
    have other : ((slabs.record at_).freeMask ||| slotBit slot).getLsbD number = (slabs.record at_).freeMask.getLsbD number := by
      simp [Ne.symm last]
    rw [other]
    exact ⟨fun taken => taken.2,fun taken => ⟨fun equal => last (Prod.mk.inj equal).2,taken⟩⟩
  rw [withGiven_other same]
  exact ⟨fun taken => taken.2,fun taken => ⟨fun equal => same (Prod.mk.inj equal).1,taken⟩⟩

theorem sound_emptied (sound : Sound (some slab) out slabs) (held : slab ∈ slabs.list) (empty : (slabs.record slab).live = 0) :
    Sound none out { slabs with empty := slabs.empty + 1 } := by
  have short := sound.short
  have empties := sound.empties_le
  refine { sound with empties := ?_ }
  have more : (slabs.empty + 1).toNat = slabs.empty.toNat + 1 := by
    rw [toNat_add,show (1 : U64).toNat = 1 from rfl]
    omega
  have absent := sound.listNodup.not_mem_erase (a := slab)
  have here : countsEmpty none slabs slab = true := by simp [countsEmpty,empty]
  have there : ¬ countsEmpty (some slab) slabs slab = true := by simp [countsEmpty]
  have rest : (slabs.list.erase slab).countP (countsEmpty none slabs) = (slabs.list.erase slab).countP (countsEmpty (some slab) slabs) := by
    refine countP_change (fun other mem => ?_)
    have apart : slab ≠ other := fun same => absent (same ▸ mem)
    simp [countsEmpty,apart]
  have counts : slabs.list.countP (countsEmpty none slabs) = slabs.list.countP (countsEmpty (some slab) slabs) + 1 := by
    rw [(List.perm_cons_erase held).countP_eq,(List.perm_cons_erase held).countP_eq,List.countP_cons_of_pos here,
      List.countP_cons_of_neg there,rest]
  refine more.trans ?_
  rw [sound.empties]
  exact counts.symm

theorem sound_used (sound : Sound (some slab) out slabs) (used : (slabs.record slab).live ≠ 0) : Sound none out slabs := by
  refine { sound with empties := sound.empties.trans (countP_change (fun other _ => ?_)) }
  unfold countsEmpty
  by_cases same : slab = other
  · subst same
    exact decide_eq_decide.mpr ⟨fun both => absurd rfl both.2,fun both => absurd both.1 used⟩
  simp [same]

theorem shrunk_give (sound : Sound none out world.slabs) (mem : (slab,slot) ∈ out) :
    Gives (give slab slot) world (fun _ left => Shrunk (out.erase (slab,slot)) world left) := by
  obtain ⟨held,inside,used⟩ : slab ∈ world.slabs.list ∧ slot < 32 ∧ (world.slabs.record slab).freeMask.getLsbD slot = false :=
    (sound.taken _).mp mem
  have given := sound_withGiven sound mem
  unfold give
  simp only [gives_bind,gives_get,gives_ite,gives_pure,gives_changeSlabs]
  refine ⟨fun refused => ?_,fun _ => ⟨fun live => ?_,fun empty => ⟨fun allowed => ?_,fun _ => ?_⟩⟩⟩
  · rcases refused with outside | free
    · exact absurd inside (Nat.not_lt.mpr outside)
    exact absurd ((free_iff.mp free).symm.trans used) nofun
  · exact ⟨sound_used given live,id,rfl,rfl,rfl⟩
  · have emptied := sound_emptied given held (not_not.mp empty)
    refine (gives_freeEmpty slab _).mono (fun _ left freed => ?_)
    obtain ⟨slabs,handed⟩ := freed
    refine ⟨?_,fun _ => ?_,handed,by rw [slabs]; rfl,by rw [slabs]; rfl⟩
    · rw [slabs]
      exact sound_withoutSlab emptied held (not_not.mp empty)
    rw [slabs]
    exact covered_withoutSlab emptied held allowed
  exact ⟨sound_emptied given held (not_not.mp empty),id,rfl,rfl,rfl⟩

private theorem shrunk_giveBack {handed places : List Place} (sound : Sound none out world.slabs) (split : out.Perm (places ++ handed)) :
    Gives (giveBack places) world (fun _ left => Shrunk handed world left) := by
  induction places generalizing out world with
  | nil => exact ⟨sound.perm split.symm,id,.refl world⟩
  | cons place rest ih =>
  obtain ⟨slab,slot⟩ := place
  have mem : (slab,slot) ∈ out := split.mem_iff.mpr List.mem_cons_self
  have split' : (out.erase (slab,slot)).Perm (rest ++ handed) := by
    have erased := split.erase (slab,slot)
    rwa [List.cons_append,List.erase_cons_head] at erased
  refine (shrunk_give sound mem).bind (fun _ middle shrunk => ?_)
  refine (ih shrunk.sound split').mono (fun _ left rest => ?_)
  exact ⟨rest.sound,fun covered => rest.covered (shrunk.covered covered),shrunk.frame.trans rest.frame⟩

/-- Nothing is added, or a slab that shares no memory with those that are held. -/
structure Grown (world : World) (added : Option U64) (left : World) : Prop where
  handed : left.handed = world.handed
  refused : added = none → left.slabs = world.slabs
  granted : ∀ slab, added = some slab → left.slabs = withSlab slab world.slabs ∧ ∀ other ∈ world.slabs.list, Apart slab other

variable (io : SlabIo)

theorem grown_addSlab (world : World) : Gives (addSlab io) world (Grown world) := by
  unfold addSlab
  rw [gives_bind,gives_get,gives_bind,gives_call]
  cases answer : io.newSlab world.slabs.list world.turn with
  | none => exact ⟨rfl,fun _ => rfl,nofun⟩
  | some slab => exact ⟨rfl,nofun,fun slab' same => Option.some.inj same ▸ ⟨rfl,io.fresh _ _ slab answer⟩⟩

private theorem covered_withSlab (covered : Covered slabs) : Covered (withSlab slab slabs) := by
  refine Nat.le_trans covered ?_
  exact Nat.mul_le_mul_left slabSlots (Nat.le_succ _)

/-- The promise without what a reservation adds. -/
def withoutPromise (count : U64) (slabs : Slabs) : Slabs := { slabs with reserved := slabs.reserved - count }
theorem sound_withoutPromise (sound : Sound none out slabs) (count : U64) : Sound none out (withoutPromise count slabs) :=
  { sound with }

/-- What an operation leaves of the promise and of what is handed out. -/
structure Kept (out : List Place) (world left : World) : Prop where
  sound : Sound none out left.slabs
  covered : Covered left.slabs
  handed : left.handed = world.handed

theorem gives_mayGrow (world : World) : Gives (match io.mayGrow with | none => pure false | some mayGrow => do
      let allowed ← call mayGrow .mayGrow
      pure (!allowed)) world (fun _ left => left.slabs = world.slabs ∧ left.handed = world.handed) := by
  cases io.mayGrow with
  | _ => exact ⟨rfl,rfl⟩

theorem grown_unlessFloor (floor : Bool) {middle : World}
    (same : middle.slabs = world.slabs ∧ middle.handed = world.handed) :
    Gives (if floor then pure none else addSlab io) middle (Grown world) := by
  rw [gives_ite,gives_pure]
  refine ⟨fun _ => ⟨same.2,fun _ => same.1,nofun⟩,fun _ => (grown_addSlab io middle).mono (fun added left grows => ?_)⟩
  refine ⟨grows.handed.trans same.2,fun none => (grows.refused none).trans same.1,fun slab some => ?_⟩
  rw [← same.1]
  exact grows.granted slab some

private theorem kept_reserveLoop (io : SlabIo) {count : U64} {turns : Nat} (sound : Sound none out world.slabs)
    (before : Covered (withoutPromise count world.slabs))
    (enough : (promised world.slabs).toNat ≤ slabSlots * world.slabs.list.length + slabSlots * turns) :
    Gives (reserveLoop io count turns) world (fun _ left => Kept out world left) := by
  induction turns generalizing world with
  | zero => exact ⟨sound,enough,rfl⟩
  | succ turns ih =>
  unfold reserveLoop
  rw [gives_bind,gives_get,gives_ite,gives_pure]
  refine ⟨fun covers => ⟨sound,?_,rfl⟩,fun _ => ?_⟩
  · have bound := le_def.mp covers
    rw [toNat_mul,sound.counted,show (32 : U64).toNat = 32 from rfl] at bound
    unfold Covered slabSlots
    omega
  refine (gives_mayGrow io world).bind (fun floor middle same => ?_)
  refine (grown_unlessFloor io floor same).bind (fun added left grows => ?_)
  cases added with
  | none =>
    rw [gives_bind,gives_changeSlabs,gives_bind]
    have undone : Sound none out (withoutPromise count left.slabs) := by
      rw [grows.refused rfl]
      exact sound_withoutPromise sound count
    refine (@shrunk_trim out { left with slabs := withoutPromise count left.slabs } undone).mono (fun _ last shrunk => ?_)
    refine ⟨shrunk.sound,shrunk.covered ?_,shrunk.frame.handed.trans grows.handed⟩
    rw [grows.refused rfl]
    exact before
  | some slab =>
  obtain ⟨added,fresh⟩ := grows.granted slab rfl
  refine (ih ?_ ?_ ?_).mono (fun _ last kept => ⟨kept.sound,kept.covered,kept.handed.trans grows.handed⟩)
  · rw [added]
    exact sound_withSlab sound fresh
  · rw [added]
    exact Nat.le_trans before (Nat.mul_le_mul_left slabSlots (Nat.le_succ _))
  rw [added]
  have promise : promised (withSlab slab world.slabs) = promised world.slabs := rfl
  have longer : (withSlab slab world.slabs).list.length = world.slabs.list.length + 1 := rfl
  rw [promise,longer]
  unfold slabSlots at enough ⊢
  omega

theorem promised_toNat (slabs : Slabs) : (promised slabs).toNat = min slabs.reserved.toNat slabs.reserveCap.toNat := by
  unfold promised
  split
  · rename_i below
    have order := lt_def.mp below
    omega
  rename_i above
  have order := le_def.mp (BitVec.not_lt.mp above)
  omega

variable {count : U64}

private theorem kept_reserve (sound : Sound none out world.slabs) (covered : Covered world.slabs) :
    Gives (reserve io count) world (fun _ left => Kept out world left) := by
  unfold reserve
  rw [gives_bind,gives_changeSlabs,gives_bind,gives_get]
  refine (@kept_reserveLoop out { world with slabs := { world.slabs with reserved := world.slabs.reserved + count } } io count
    (promised { world.slabs with reserved := world.slabs.reserved + count }).toNat ?_ ?_ ?_).mono
    (fun _ left kept => { kept with })
  · exact { sound with }
  · have undone : withoutPromise count { world.slabs with reserved := world.slabs.reserved + count } = world.slabs := by
      unfold withoutPromise
      simp
    rw [undone]
    exact covered
  exact Nat.le_trans (Nat.le_mul_of_pos_left _ (by decide)) (Nat.le_add_left _ _)

private theorem kept_unreserve (sound : Sound none out world.slabs) (covered : Covered world.slabs) :
    Gives (unreserve count) world (fun _ left => Kept out world left) := by
  unfold unreserve
  rw [gives_bind,gives_changeSlabs]
  have sound' : Sound none out { world.slabs with reserved := if count < world.slabs.reserved then world.slabs.reserved - count else 0 } :=
    { sound with }
  refine (@shrunk_trim out { world with slabs := _ } sound').mono (fun _ left shrunk => ⟨shrunk.sound,shrunk.covered ?_,shrunk.frame.handed⟩)
  have less : (if count < world.slabs.reserved then world.slabs.reserved - count else 0).toNat ≤ world.slabs.reserved.toNat := by
    split
    · rename_i below
      rw [toNat_sub_of_le (BitVec.le_of_lt below)]
      omega
    exact Nat.zero_le _
  unfold Covered at covered ⊢
  rw [promised_toNat] at covered ⊢
  refine Nat.le_trans ?_ covered
  exact min_le_min_right _ less

private theorem bestSlab_cases (slabs : Slabs) (list : List U64) (best : Option U64) :
    (∀ slab, bestSlab slabs list best = some slab → slab ∈ list ∧ (slabs.record slab).freeMask ≠ 0 ∨ best = some slab) ∧
    (bestSlab slabs list best = none → best = none ∧ ∀ slab ∈ list, (slabs.record slab).freeMask = 0) := by
  induction list generalizing best with
  | nil => exact ⟨fun slab found => .inr found,fun none => ⟨none,nofun⟩⟩
  | cons first rest ih =>
  unfold bestSlab
  split
  · rename_i better
    obtain ⟨found,none⟩ := ih (some first)
    refine ⟨fun slab is => .inl ?_,fun is => absurd (none is).1 nofun⟩
    rcases found slab is with later | same
    · exact ⟨List.mem_cons_of_mem first later.1,later.2⟩
    exact Option.some.inj same ▸ ⟨List.mem_cons_self,better.1⟩
  rename_i worse
  obtain ⟨found,none⟩ := ih best
  refine ⟨fun slab is => (found slab is).imp_left (fun later => ⟨List.mem_cons_of_mem first later.1,later.2⟩),fun is => ?_⟩
  obtain ⟨rfl,full⟩ := none is
  refine ⟨rfl,fun slab mem => ?_⟩
  rcases List.mem_cons.mp mem with rfl | mem
  · by_contra free
    exact worse ⟨free,rfl⟩
  exact full slab mem

variable {busy : Option U64}

private theorem length_of_full (sound : Sound busy out slabs) (full : ∀ slab ∈ slabs.list, (slabs.record slab).freeMask = 0) :
    slabSlots * slabs.list.length ≤ out.length := by
  have all : slabs.list ×ˢ List.range slabSlots ⊆ out := by
    rintro ⟨slab,slot⟩ mem
    obtain ⟨held,inside⟩ := List.mem_product.mp mem
    refine (sound.taken _).mpr ⟨held,List.mem_range.mp inside,?_⟩
    rw [full slab held]
    exact getLsbD_zero
  have lengths := ((sound.listNodup.product List.nodup_range).subperm all).length_le
  rwa [List.length_product,List.length_range,Nat.mul_comm] at lengths

/-- The slabs after a slot is taken. -/
def withTaken (slab : U64) (slot : Nat) (slabs : Slabs) : Slabs :=
  changeSlab slab (fun slab => ⟨slab.freeMask &&& ~~~slotBit slot,slab.live + 1⟩) slabs
theorem withTaken_same (slab : U64) (slot : Nat) (slabs : Slabs) : (withTaken slab slot slabs).record slab =
    ⟨(slabs.record slab).freeMask &&& ~~~slotBit slot,(slabs.record slab).live + 1⟩ := update_self _ _ _
theorem withTaken_other (apart : other ≠ slab) (slot : Nat) (slabs : Slabs) :
    (withTaken slab slot slabs).record other = slabs.record other := update_of_ne apart _ _

theorem live_withTaken (sound : Sound busy out slabs) (held : slab ∈ slabs.list)
    (free : (slabs.record slab).freeMask.getLsbD slot = true) :
    ((withTaken slab slot slabs).record slab).live.toNat = (slabs.record slab).live.toNat + 1 := by
  have small := usedSlots_le ((slabs.record slab).freeMask &&& ~~~slotBit slot)
  rw [usedSlots_take free,← sound.lives slab held] at small
  rw [withTaken_same,toNat_add,show (1 : U32).toNat = 1 from rfl]
  exact Nat.mod_eq_of_lt (by omega)

private theorem sound_withTaken (sound : Sound (some slab) out slabs) (held : slab ∈ slabs.list)
    (free : (slabs.record slab).freeMask.getLsbD slot = true) :
    Sound (some slab) (out ++ [(slab,slot)]) (withTaken slab slot slabs) := by
  have inside : slot < 32 := lt_of_getLsbD free
  have absent : (slab,slot) ∉ out := by
    intro mem
    have used : (slabs.record slab).freeMask.getLsbD slot = false := ((sound.taken _).mp mem).2.2
    exact absurd (free.symm.trans used) nofun
  refine ⟨sound.apart,sound.counted,?_,fun other held' => ?_,?_,fun place => ?_⟩
  · refine sound.empties.trans (countP_change (fun other _ => ?_))
    unfold countsEmpty
    by_cases same : other = slab
    · subst same
      exact decide_eq_decide.mpr ⟨fun both => absurd rfl both.2,fun both => absurd rfl both.2⟩
    rw [withTaken_other same]
  · by_cases same : other = slab
    · rw [same,live_withTaken sound held free,sound.lives slab held,withTaken_same]
      exact (usedSlots_take free).symm
    rw [withTaken_other same]
    exact sound.lives other held'
  · exact List.Nodup.append sound.nodup (List.nodup_singleton _) (by simpa using absent)
  rw [List.mem_append,List.mem_singleton,sound.taken place]
  obtain ⟨at_,number⟩ := place
  unfold Taken
  by_cases same : at_ = slab
  · subst same
    rw [withTaken_same]
    by_cases last : number = slot
    · subst last
      refine ⟨fun _ => ⟨held,inside,?_⟩,fun _ => .inr rfl⟩
      simp [inside]
    have other : ∀ bound : number < 32, ((slabs.record at_).freeMask &&& ~~~slotBit slot).getLsbD number =
        (slabs.record at_).freeMask.getLsbD number := by
      intro bound
      rw [getLsbD_and,getLsbD_not,slotBit_get,decide_eq_false (Ne.symm last),Bool.and_false,decide_eq_true bound]
      simp
    refine ⟨fun taken => ?_,fun taken => .inl ⟨taken.1,taken.2.1,(other taken.2.1).symm.trans taken.2.2⟩⟩
    rcases taken with taken | equal
    · exact ⟨taken.1,taken.2.1,(other taken.2.1).trans taken.2.2⟩
    exact absurd (Prod.mk.inj equal).2 last
  rw [withTaken_other same]
  exact ⟨fun taken => taken.resolve_right (fun equal => same (Prod.mk.inj equal).1),fun taken => .inl taken⟩

/-- What the slots taken from a slab leave. -/
structure Gathered (out : List Place) (slab : U64) (turns : Nat) (taken : List Place) (world : World) (taken' : List Place)
    (left : World) : Prop where
  frame : Frame world left
  list : left.slabs.list = world.slabs.list
  calls : left.calls = world.calls
  order : taken.length ≤ taken'.length ∧ taken'.length ≤ taken.length + turns
  live : (world.slabs.record slab).live.toNat + (taken'.length - taken.length) = (left.slabs.record slab).live.toNat
  progress : (world.slabs.record slab).freeMask ≠ 0 → 0 < turns → taken.length < taken'.length
  sound : ∀ before, out = before ++ taken → Sound (some slab) (before ++ taken') left.slabs

variable {taken : List Place}

theorem gathered_nothing (turns : Nat) (sound : Sound (some slab) out world.slabs)
    (beyond : (world.slabs.record slab).freeMask ≠ 0 → ¬ 0 < turns) : Gathered out slab turns taken world taken world := by
  refine ⟨.refl world,rfl,rfl,⟨Nat.le_refl _,Nat.le_add_right _ _⟩,?_,fun free some => absurd some (beyond free),
    fun before split => split ▸ sound⟩
  rw [Nat.sub_self,Nat.add_zero]

private theorem gathered_takeSlots {turns : Nat} {taken : List Place} (sound : Sound (some slab) out world.slabs)
    (held : slab ∈ world.slabs.list) : Gives (takeSlots slab turns taken) world (Gathered out slab turns taken world) := by
  induction turns generalizing out taken world with
  | zero => exact gathered_nothing 0 sound (fun _ => Nat.lt_irrefl 0)
  | succ turns ih =>
  unfold takeSlots
  rw [gives_bind,gives_get,gives_ite,gives_pure]
  refine ⟨fun full => gathered_nothing _ sound (fun free => absurd full free),fun nonzero => ?_⟩
  obtain ⟨-,free⟩ := lowestSlot_free (mask_ne_zero.mp nonzero)
  generalize lowestSlot 32 (world.slabs.record slab).freeMask = slot at free ⊢
  have taken_ := sound_withTaken sound held free
  have live := live_withTaken sound held free
  have rest := @ih (out ++ [(slab,slot)]) { world with slabs := withTaken slab slot world.slabs } (taken ++ [(slab,slot)]) taken_ held
  refine rest.mono (fun taken' left gathered => ?_)
  obtain ⟨frame,list,calls,⟨longer,shorter⟩,lives,-,sounds⟩ := gathered
  rw [List.length_append,List.length_singleton] at longer shorter lives
  refine ⟨{ frame with },list,calls,⟨by omega,by omega⟩,?_,fun _ _ => by omega,fun before split => ?_⟩
  · simp only [live] at lives
    omega
  refine sounds before ?_
  rw [split,List.append_assoc]

/-- An empty slab is no longer counted when slots are taken from it. -/
def withBusy (best : U64) (slabs : Slabs) : Slabs :=
  if (slabs.record best).live = 0 then { slabs with empty := slabs.empty - 1 } else slabs

private theorem withBusy_kept (best : U64) (slabs : Slabs) : (withBusy best slabs).record = slabs.record ∧
    (withBusy best slabs).list = slabs.list ∧ (withBusy best slabs).slabs = slabs.slabs ∧
    (withBusy best slabs).reserved = slabs.reserved ∧ (withBusy best slabs).reserveCap = slabs.reserveCap := by
  unfold withBusy
  split
  all_goals exact ⟨rfl,rfl,rfl,rfl,rfl⟩

private theorem sound_withBusy (sound : Sound none out slabs) (held : slab ∈ slabs.list) : Sound (some slab) out (withBusy slab slabs) := by
  have absent := sound.listNodup.not_mem_erase (a := slab)
  have there : ¬ countsEmpty (some slab) slabs slab = true := by simp [countsEmpty]
  have rest : (slabs.list.erase slab).countP (countsEmpty (some slab) slabs) = (slabs.list.erase slab).countP (countsEmpty none slabs) := by
    refine countP_change (fun other mem => ?_)
    have apart : slab ≠ other := fun same => absent (same ▸ mem)
    simp [countsEmpty,apart]
  have before : slabs.list.countP (countsEmpty (some slab) slabs) = (slabs.list.erase slab).countP (countsEmpty none slabs) := by
    rw [(List.perm_cons_erase held).countP_eq,List.countP_cons_of_neg there,rest]
  unfold withBusy
  split
  · rename_i empty
    have here : countsEmpty none slabs slab = true := by simp [countsEmpty,empty]
    have counts : slabs.empty.toNat = (slabs.list.erase slab).countP (countsEmpty none slabs) + 1 := by
      rw [sound.empties,(List.perm_cons_erase held).countP_eq,List.countP_cons_of_pos here]
    have less : (slabs.empty - 1).toNat = slabs.empty.toNat - 1 := by
      rw [toNat_sub,show (1 : U64).toNat = 1 from rfl]
      omega
    refine { sound with empties := ?_ }
    refine less.trans ?_
    rw [counts]
    exact before.symm
  rename_i used
  have here : ¬ countsEmpty none slabs slab = true := by simpa [countsEmpty] using used
  refine { sound with empties := ?_ }
  rw [sound.empties,before,(List.perm_cons_erase held).countP_eq,List.countP_cons_of_neg here]

/-- What `AdmissionPoolSlabTake` leaves. -/
structure TakeEnds (count : Nat) (world : World) (result : Option (List Place)) (left : World) : Prop where
  handed : left.handed = world.handed
  covered : Covered world.slabs → Covered left.slabs
  sound : Sound none (world.handed ++ result.getD []) left.slabs
  length : ∀ places, result = some places → places.length = count
  promised : world.handed.length + count ≤ slabSlots * world.slabs.list.length → result.isSome = true ∧ left.calls = world.calls

private theorem takeEnds_takeLoop {count turns : Nat} (sound : Sound none (world.handed ++ taken) world.slabs)
    (most : taken.length ≤ count) (enough : count ≤ taken.length + turns) :
    Gives (takeLoop io count turns taken) world (TakeEnds count world) := by
  induction turns generalizing taken world with
  | zero => exact ⟨rfl,id,sound,fun places same => by rw [← Option.some.inj same]; omega,fun _ => ⟨rfl,rfl⟩⟩
  | succ turns ih =>
  unfold takeLoop
  rw [gives_ite,gives_pure]
  refine ⟨fun done => ⟨rfl,id,sound,fun places same => by rw [← Option.some.inj same]; omega,fun _ => ⟨rfl,rfl⟩⟩,fun more => ?_⟩
  have turn : ∀ (middle : World) (best : U64), Sound none (middle.handed ++ taken) middle.slabs → best ∈ middle.slabs.list →
      (middle.slabs.record best).freeMask ≠ 0 →
      Gives (do
        changeSlabs (withBusy best)
        let taken ← takeSlots best (count - taken.length) taken
        takeLoop io count turns taken) middle (TakeEnds count middle) := by
    intro middle best sound held free
    obtain ⟨record,list,-,reserved,reserveCap⟩ := withBusy_kept best middle.slabs
    have busy := sound_withBusy sound held
    have held' : best ∈ (withBusy best middle.slabs).list := by rw [list]; exact held
    refine (@gathered_takeSlots _ best { middle with slabs := withBusy best middle.slabs } (count - taken.length) taken busy held').bind
      (fun taken' left gathered => ?_)
    have longer : taken.length < taken'.length := by
      refine gathered.progress ?_ (by omega)
      simp only [record]
      exact free
    have order := gathered.order.2
    have used : (left.slabs.record best).live ≠ 0 := by
      intro zero
      have lives := gathered.live
      rw [zero,show (0 : U32).toNat = 0 from rfl] at lives
      omega
    have handed : left.handed = middle.handed := gathered.frame.handed
    have sound' : Sound none (left.handed ++ taken') left.slabs := by
      rw [handed]
      exact sound_used (gathered.sound middle.handed rfl) used
    have same : left.slabs.list = middle.slabs.list := gathered.list.trans list
    have promise : promised left.slabs = promised middle.slabs := by
      unfold promised
      rw [gathered.frame.reserved,gathered.frame.reserveCap]
      simp only [reserved,reserveCap]
    refine (ih sound' (by omega) (by omega)).mono (fun result last ends => ?_)
    refine ⟨ends.handed.trans handed,fun covered => ends.covered ?_,handed ▸ ends.sound,ends.length,fun covers => ?_⟩
    · unfold Covered at covered ⊢
      rw [promise,same]
      exact covered
    have finds := ends.promised
    rw [handed,same,gathered.calls] at finds
    exact finds covers
  rw [gives_bind,gives_get,gives_bind]
  obtain ⟨found,full⟩ := bestSlab_cases world.slabs world.slabs.list none
  cases chosen : bestSlab world.slabs world.slabs.list none with
  | some best =>
    obtain ⟨held,free⟩ := (found best chosen).resolve_right nofun
    exact turn world best sound held free
  | none =>
  have beyond : ¬ world.handed.length + count ≤ slabSlots * world.slabs.list.length := by
    intro covers
    have all := length_of_full sound (full chosen).2
    rw [List.length_append] at all
    omega
  refine (grown_addSlab io world).mono (fun added middle grows => ?_)
  have handed := grows.handed
  cases added with
  | none =>
    have same := grows.refused rfl
    have split : (middle.handed ++ taken).Perm (taken.reverse ++ middle.handed) :=
      List.perm_append_comm.trans (taken.reverse_perm.symm.append_right _)
    have sound' : Sound none (middle.handed ++ taken) middle.slabs := by
      rw [handed,same]
      exact sound
    rw [gives_bind]
    refine (shrunk_giveBack sound' split).mono (fun _ left shrunk => ?_)
    refine ⟨shrunk.frame.handed.trans handed,fun covered => shrunk.covered (same ▸ covered),?_,nofun,fun covers => absurd covers beyond⟩
    rw [← handed]
    refine shrunk.sound.perm ?_
    exact List.Perm.of_eq (List.append_nil _)
  | some best =>
  obtain ⟨grown,fresh⟩ := grows.granted best rfl
  have sound' : Sound none (middle.handed ++ taken) middle.slabs := by
    rw [handed,grown]
    exact sound_withSlab sound fresh
  have held : best ∈ middle.slabs.list := by
    rw [grown]
    exact List.mem_cons_self
  have free : (middle.slabs.record best).freeMask ≠ 0 := by
    have new : (withSlab best world.slabs).record best = ⟨~~~0,0⟩ := update_self best _ _
    rw [grown,new]
    decide
  refine (turn middle best sound' held free).mono (fun result left ends => ?_)
  refine ⟨ends.handed.trans handed,fun covered => ends.covered ?_,handed ▸ ends.sound,ends.length,fun covers => absurd covers beyond⟩
  rw [grown]
  exact covered_withSlab covered

theorem takeEnds_take (some : count ≠ 0) (sound : Sound none world.handed world.slabs) :
    Gives (take io count) world (TakeEnds count.toNat world) := by
  unfold take
  rw [if_neg some]
  have start : Sound none (world.handed ++ []) world.slabs := sound.perm (List.Perm.of_eq (List.append_nil _))
  exact takeEnds_takeLoop io start (Nat.zero_le _) (by rw [List.length_nil,Nat.zero_add])

structure SlotsKept (world : World) : Prop where
  handed : world.handed.Nodup
  taken : ∀ place, place ∈ world.handed ↔ Taken world.slabs place
  live : ∀ slab ∈ world.slabs.list, (world.slabs.record slab).live.toNat = tally (fun slot => (slab,slot) ∈ world.handed) slabSlots
  empty : world.slabs.empty.toNat =
    world.slabs.list.countP (fun slab => tally (fun slot => (slab,slot) ∈ world.handed) slabSlots = 0)
  list : world.slabs.list.Nodup
  slabs : world.slabs.slabs.toNat = world.slabs.list.length
  covered : min world.slabs.reserved.toNat world.slabs.reserveCap.toNat ≤ slabSlots * world.slabs.list.length

/-- A request for slots gives as many new ones as it asks for, or changes no slot. -/
def TakesAllOrNone (io : SlabIo) (count : U64) (world : World) : Prop := Gives (take io count) world (fun result left =>
  (∀ places, result = some places → places.length = count.toNat ∧ (world.handed ++ places).Nodup ∧
    ∀ place, Taken left.slabs place ↔ place ∈ world.handed ++ places) ∧
  (result = none → ∀ place, Taken left.slabs place ↔ Taken world.slabs place))

/-- A request within the promise is granted without a call of Windows. -/
def TakesPromised (io : SlabIo) (count : U64) (world : World) : Prop :=
  world.handed.length + count.toNat ≤ min world.slabs.reserved.toNat world.slabs.reserveCap.toNat →
    Gives (take io count) world (fun result left => result.isSome = true ∧ left.calls = world.calls)

/-- Only slots that are taken are given back. -/
def GivesTaken (request : Request) (world : World) : Prop := ∀ slab slot, request = .give slab slot → (slab,slot) ∈ world.handed

private theorem slotsKept_of_sound (sound : Sound none world.handed world.slabs) (covered : Covered world.slabs) : SlotsKept world := by
  have used : ∀ slab ∈ world.slabs.list, tally (fun slot => (slab,slot) ∈ world.handed) slabSlots =
      usedSlots (world.slabs.record slab).freeMask := by
    intro slab held
    refine tally_congr (fun slot inside => ?_)
    have taken : (slab,slot) ∈ world.handed ↔ (world.slabs.record slab).freeMask.getLsbD slot = false :=
      (sound.taken _).trans ⟨fun all => all.2.2,fun off => ⟨held,inside,off⟩⟩
    simp only [taken,Bool.decide_eq_false]
  refine ⟨sound.nodup,sound.taken,fun slab held => (sound.lives slab held).trans (used slab held).symm,?_,sound.listNodup,sound.counted,?_⟩
  · refine sound.empties.trans (countP_change (fun slab held => ?_))
    rw [used slab held,← sound.lives slab held]
    refine decide_eq_decide.mpr ⟨fun both => by rw [both.1]; rfl,fun zero => ⟨eq_of_toNat_eq zero,nofun⟩⟩
  rw [← promised_toNat]
  exact covered

theorem sound_act (request : Request) (allowed : GivesTaken request world) (sound : Sound none world.handed world.slabs)
    (covered : Covered world.slabs) :
    Gives (act io request) world (fun _ left => Sound none left.handed left.slabs ∧ Covered left.slabs) := by
  cases request with
  | reserve count =>
    unfold act
    rw [gives_bind]
    exact (kept_reserve io sound covered).mono (fun _ _ kept => ⟨kept.handed ▸ kept.sound,kept.covered⟩)
  | unreserve count => exact (kept_unreserve sound covered).mono (fun _ _ kept => ⟨kept.handed ▸ kept.sound,kept.covered⟩)
  | take count =>
    unfold act
    rw [gives_bind]
    by_cases some : count = 0
    · unfold take
      rw [if_pos some,gives_pure,gives_changeHanded]
      exact ⟨sound.perm (List.Perm.of_eq (List.append_nil _)),covered⟩
    refine (takeEnds_take io some sound).mono (fun result left ends => ?_)
    rw [gives_changeHanded]
    exact ⟨ends.handed ▸ ends.sound,ends.covered covered⟩
  | give slab slot =>
  unfold act
  rw [gives_bind]
  refine (shrunk_give sound (allowed slab slot rfl)).mono (fun _ left shrunk => ?_)
  rw [gives_changeHanded]
  exact ⟨shrunk.frame.handed ▸ shrunk.sound,shrunk.covered covered⟩

theorem noSlabs_sound (spareLimit reserveCap : U64) :
    Sound none (noSlabs spareLimit reserveCap).handed (noSlabs spareLimit reserveCap).slabs ∧
      Covered (noSlabs spareLimit reserveCap).slabs := by
  refine ⟨⟨.nil,rfl,rfl,nofun,.nil,fun place => ⟨nofun,fun taken => absurd taken.1 List.not_mem_nil⟩⟩,?_⟩
  unfold Covered
  rw [promised_toNat]
  exact Nat.min_le_left _ _

/-- In every run that gives back only what it took, reserved slots are available. -/
theorem slots_available (io : SlabIo) {spareLimit reserveCap : U64} {requests : List Request}
    (every : EveryStep (act io) GivesTaken requests (noSlabs spareLimit reserveCap)) :
    SlotsKept (runAll (act io) requests (noSlabs spareLimit reserveCap)) ∧
    ∀ count, TakesAllOrNone io count (runAll (act io) requests (noSlabs spareLimit reserveCap)) ∧
      (count ≠ 0 → TakesPromised io count (runAll (act io) requests (noSlabs spareLimit reserveCap))) := by
  have step : ∀ request world, GivesTaken request world → Sound none world.handed world.slabs ∧ Covered world.slabs →
      Gives (act io request) world (fun _ left => Sound none left.handed left.slabs ∧ Covered left.slabs) :=
    fun request world allowed both => sound_act io request allowed both.1 both.2
  obtain ⟨sound,covered⟩ := runAll_keeps step every (noSlabs_sound spareLimit reserveCap)
  generalize runAll (act io) requests (noSlabs spareLimit reserveCap) = world at sound covered ⊢
  have kept := slotsKept_of_sound sound covered
  refine ⟨kept,fun count => ⟨?_,fun some covers => ?_⟩⟩
  · unfold TakesAllOrNone
    by_cases some : count = 0
    · unfold take
      rw [if_pos some,gives_pure]
      exact ⟨nofun,fun _ _ => Iff.rfl⟩
    refine (takeEnds_take io some sound).mono (fun result left ends => ⟨fun places same => ?_,fun same place => ?_⟩)
    · subst same
      exact ⟨ends.length places rfl,ends.sound.nodup,fun place => (ends.sound.taken place).symm⟩
    subst same
    rw [← ends.sound.taken place,← sound.taken place]
    simp
  · exact (takeEnds_take io some sound).mono (fun result left ends => ends.promised (Nat.le_trans covers kept.covered))

def oneSlab : SlabIo := ⟨fun held _ => if held = [] then some slabSize else none,none,fun held _ slab granted other mem => by
  split at granted
  · rename_i none
    rw [none] at mem
    cases mem
  cases granted⟩

/-- A request for no slots is refused. -/
theorem take_nothing_refused : ¬ TakesPromised oneSlab 0 (noSlabs 1 32) := by
  intro takes
  have granted := (takes (by decide)).1
  revert granted
  decide

theorem slots_available_reserved : SlotsKept (runAll (act oneSlab) [.reserve 20,.take 20,.give slabSize 7,.take 40] (noSlabs 1 32)) ∧
    ∀ count, TakesAllOrNone oneSlab count (runAll (act oneSlab) [.reserve 20,.take 20,.give slabSize 7,.take 40] (noSlabs 1 32)) ∧
      (count ≠ 0 → TakesPromised oneSlab count
        (runAll (act oneSlab) [.reserve 20,.take 20,.give slabSize 7,.take 40] (noSlabs 1 32))) := by
  refine slots_available oneSlab ⟨nofun,nofun,?_,nofun,trivial⟩
  rintro slab slot same
  obtain ⟨rfl,rfl⟩ := Request.give.inj same
  decide +kernel

end WindowsOnM1.PoolSlabReserved
