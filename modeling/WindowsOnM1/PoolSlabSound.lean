import WindowsOnM1.PoolSlabModel
import WindowsOnM1.Tallies
import Mathlib.Data.List.Perm.Subperm

/-!
The slabs agree with the slots that are handed out, and their counts are right.
-/
namespace WindowsOnM1.PoolSlabSound
open Tallies PoolSlabModel List BitVec

@[simp] theorem slotBit_get (slot other : Nat) : (slotBit slot).getLsbD other = (decide (slot < 32) && decide (slot = other)) :=
  getLsbD_twoPow slot other

theorem free_iff {mask : U32} {slot : Nat} : mask &&& slotBit slot ≠ 0 ↔ mask.getLsbD slot = true := by
  have bit : mask &&& slotBit slot = if mask.getLsbD slot then slotBit slot else 0 := and_twoPow mask slot
  rw [bit]
  split
  · rename_i free
    refine ⟨fun _ => free,fun _ zero => ?_⟩
    have inside : slot < 32 := lt_of_getLsbD free
    have off := congrArg (fun mask => mask.getLsbD slot) zero
    simp only [slotBit_get,inside,decide_true,Bool.and_self,show (0 : U32) = 0#32 from rfl,getLsbD_zero] at off
    cases off
  rename_i taken
  exact ⟨fun nonzero => absurd rfl nonzero,fun free => absurd free taken⟩

variable {mask : U32}

theorem mask_ne_zero : mask ≠ 0 ↔ ∃ slot < 32, mask.getLsbD slot = true := by
  refine ⟨fun nonzero => ?_,fun free zero => ?_⟩
  · refine not_forall_not.mp (fun none => nonzero (eq_of_getLsbD_eq (fun slot inside => ?_)))
    rw [show (0 : U32) = 0#32 from rfl,getLsbD_zero]
    exact Bool.eq_false_iff.mpr (fun free => none slot ⟨inside,free⟩)
  obtain ⟨slot,-,free⟩ := free
  rw [zero,show (0 : U32) = 0#32 from rfl,getLsbD_zero] at free
  cases free

/-- `LowestSlot` finds a free slot. -/
theorem lowestSlot_free {turns : Nat} (some : ∃ slot < turns, mask.getLsbD slot = true) :
    lowestSlot turns mask < turns ∧ mask.getLsbD (lowestSlot turns mask) = true := by
  induction turns generalizing mask with
  | zero =>
    obtain ⟨slot,inside,-⟩ := some
    exact absurd inside (Nat.not_lt_zero slot)
  | succ turns ih =>
  have low : mask &&& 1 ≠ 0 ↔ mask.getLsbD 0 = true := @free_iff mask 0
  unfold lowestSlot
  split
  · rename_i first
    exact ⟨Nat.succ_pos turns,low.mp first⟩
  rename_i rest
  have shifted : ∀ slot, (mask >>> 1).getLsbD slot = mask.getLsbD (slot + 1) := by
    intro slot
    rw [getLsbD_ushiftRight,Nat.add_comm]
  have later : ∃ slot < turns, (mask >>> 1).getLsbD slot = true := by
    obtain ⟨slot,inside,free⟩ := some
    cases slot with
    | zero => exact absurd (low.mpr free) rest
    | succ slot => exact ⟨slot,by omega,(shifted slot).trans free⟩
  obtain ⟨inside,free⟩ := ih later
  exact ⟨Nat.succ_lt_succ inside,(shifted _).symm.trans free⟩

/-- The number of the slots that are not free. -/
def usedSlots (mask : U32) : Nat := tally (fun slot => !mask.getLsbD slot) slabSlots
theorem usedSlots_le (mask : U32) : usedSlots mask ≤ 32 := tally_le _ _

variable {slot : Nat}

theorem usedSlots_take (free : mask.getLsbD slot = true) : usedSlots (mask &&& ~~~slotBit slot) = usedSlots mask + 1 := by
  have inside : slot < 32 := lt_of_getLsbD free
  refine tally_set inside (by rw [free]; rfl) ?_ (fun other apart => ?_)
  · simp [inside]
  by_cases bound : other < 32
  · simp only [getLsbD_and,getLsbD_not,slotBit_get,bound,apart.symm,decide_true,decide_false,Bool.and_false,
      Bool.not_false,Bool.and_true]
  rw [getLsbD_of_ge _ _ (Nat.le_of_not_lt bound),getLsbD_of_ge _ _ (Nat.le_of_not_lt bound)]

theorem usedSlots_give (inside : slot < 32) (used : mask.getLsbD slot = false) :
    usedSlots mask = usedSlots (mask ||| slotBit slot) + 1 := by
  refine tally_set inside ?_ (by rw [used]; rfl) (fun other apart => ?_)
  · simp [inside]
  simp [apart.symm]

theorem usedSlots_zero : usedSlots mask = 0 ↔ ∀ slot < 32, mask.getLsbD slot = true := by
  unfold usedSlots tally
  simp [slabSlots]
theorem usedSlots_all : usedSlots (~~~0) = 0 := by
  decide

theorem not_apart_self (slab : U64) : ¬ Apart slab slab := by
  unfold Apart slabSize
  omega

variable {list : List U64}

private theorem nodup_of_apart (apart : list.Pairwise Apart) : list.Nodup := by
  refine (apart.imp ?_ : list.Pairwise (· ≠ ·))
  intro slab other away same
  subst same
  exact not_apart_self slab away

private theorem length_of_apart (apart : list.Pairwise Apart) : list.length < 2 ^ 57 := by
  have distinct : (list.map (fun slab => slab.toNat / slabSize)).Nodup := by
    refine pairwise_map.mpr (apart.imp (fun {slab other} away same => ?_))
    unfold Apart slabSize at away
    unfold slabSize at same
    omega
  have bound : list.map (fun slab => slab.toNat / slabSize) ⊆ List.range (2 ^ 64 / slabSize + 1) := by
    intro place mem
    obtain ⟨slab,-,rfl⟩ := mem_map.mp mem
    unfold slabSize
    exact mem_range.mpr (by omega)
  have lengths := (distinct.subperm bound).length_le
  rw [length_map,length_range] at lengths
  unfold slabSize at lengths
  omega

/-- A slot of a held slab that is not free. -/
def Taken (slabs : Slabs) (place : Place) : Prop :=
  place.1 ∈ slabs.list ∧ place.2 < slabSlots ∧ (slabs.record place.1).freeMask.getLsbD place.2 = false

/-- A slab that is counted as empty. -/
def countsEmpty (busy : Option U64) (slabs : Slabs) (slab : U64) : Bool := (slabs.record slab).live = 0 ∧ busy ≠ some slab

/-- The slabs agree with what is handed out; `busy` is a slab that is no longer counted as empty. -/
structure Sound (busy : Option U64) (out : List Place) (slabs : Slabs) : Prop where
  apart : slabs.list.Pairwise Apart
  counted : slabs.slabs.toNat = slabs.list.length
  empties : slabs.empty.toNat = slabs.list.countP (countsEmpty busy slabs)
  lives : ∀ slab ∈ slabs.list, (slabs.record slab).live.toNat = usedSlots (slabs.record slab).freeMask
  nodup : out.Nodup
  taken : ∀ place, place ∈ out ↔ Taken slabs place

/-- The held slots cover the promised ones. -/
def Covered (slabs : Slabs) : Prop := (promised slabs).toNat ≤ slabSlots * slabs.list.length

variable {busy : Option U64} {out : List Place} {slabs : Slabs} {slab : U64}

section
variable (sound : Sound busy out slabs)
include sound

theorem Sound.short : slabs.list.length < 2 ^ 57 := length_of_apart sound.apart
theorem Sound.listNodup : slabs.list.Nodup := nodup_of_apart sound.apart
theorem Sound.empties_le : slabs.empty.toNat ≤ slabs.list.length := by
  rw [sound.empties]
  exact countP_le_length
theorem Sound.perm {out' : List Place} (perm : out'.Perm out) : Sound busy out' slabs :=
  { sound with nodup := perm.nodup_iff.mpr sound.nodup, taken := fun place => perm.mem_iff.trans (sound.taken place) }

theorem Sound.unused (held : slab ∈ slabs.list) (empty : (slabs.record slab).live = 0) (slot : Nat) :
    (slab,slot) ∉ out := by
  intro mem
  obtain ⟨-,inside,used⟩ := (sound.taken _).mp mem
  have none : usedSlots (slabs.record slab).freeMask = 0 := by
    rw [← sound.lives slab held,empty]
    rfl
  have free := usedSlots_zero.mp none slot inside
  exact absurd (free.symm.trans used) nofun

end

def withSlab (slab : U64) (slabs : Slabs) : Slabs :=
  { changeSlab slab (fun _ => ⟨~~~0,0⟩) slabs with list := slab :: slabs.list, empty := slabs.empty + 1, slabs := slabs.slabs + 1 }
theorem countP_change {p q : U64 → Bool} (same : ∀ slab ∈ list, p slab = q slab) : list.countP p = list.countP q :=
  countP_congr (fun slab mem => by rw [same slab mem])

theorem sound_withSlab (sound : Sound none out slabs) (fresh : ∀ other ∈ slabs.list, Apart slab other) :
    Sound none out (withSlab slab slabs) := by
  have absent : slab ∉ slabs.list := fun mem => not_apart_self slab (fresh slab mem)
  have short := sound.short
  have empties := sound.empties_le
  have one : (1 : U64).toNat = 1 := rfl
  have here : (withSlab slab slabs).record slab = ⟨~~~0,0⟩ := Function.update_self slab _ _
  have others : ∀ other, other ≠ slab → (withSlab slab slabs).record other = slabs.record other :=
    fun other apart => Function.update_of_ne apart _ _
  have old : ∀ other ∈ slabs.list, (withSlab slab slabs).record other = slabs.record other :=
    fun other mem => others other (fun same => absent (same ▸ mem))
  refine ⟨pairwise_cons.mpr ⟨fresh,sound.apart⟩,?_,?_,fun other mem => ?_,sound.nodup,fun place => ?_⟩
  · have more : (slabs.slabs + 1).toNat = slabs.slabs.toNat + 1 := by
      rw [toNat_add,sound.counted,one]
      omega
    exact more.trans (congrArg (· + 1) sound.counted)
  · have more : (slabs.empty + 1).toNat = slabs.empty.toNat + 1 := by
      rw [toNat_add,one]
      omega
    have first : countsEmpty none (withSlab slab slabs) slab = true := by simp [countsEmpty,here]
    have rest : slabs.list.countP (countsEmpty none (withSlab slab slabs)) = slabs.list.countP (countsEmpty none slabs) :=
      countP_change (fun other mem => by rw [countsEmpty,old other mem]; rfl)
    refine more.trans ?_
    rw [sound.empties,← rest]
    exact (countP_cons_of_pos first).symm
  · rcases mem_cons.mp mem with rfl | mem
    · rw [here]
      exact usedSlots_all.symm
    rw [old other mem]
    exact sound.lives other mem
  rw [sound.taken place]
  unfold Taken
  by_cases same : place.1 = slab
  · rw [same,here]
    refine ⟨fun taken => absurd taken.1 absent,fun taken => ?_⟩
    have free := usedSlots_zero.mp usedSlots_all place.2 taken.2.1
    exact absurd (free.symm.trans taken.2.2) nofun
  rw [others place.1 same]
  have members : place.1 ∈ (withSlab slab slabs).list ↔ place.1 ∈ slabs.list := mem_cons.trans (or_iff_right same)
  rw [members]

def withoutSlab (slab : U64) (slabs : Slabs) : Slabs := { unlink slab slabs with empty := slabs.empty - 1 }

theorem sound_withoutSlab (sound : Sound none out slabs) (held : slab ∈ slabs.list) (empty : (slabs.record slab).live = 0) :
    Sound none out (withoutSlab slab slabs) := by
  have one : (1 : U64).toNat = 1 := rfl
  have length := length_erase_add_one held
  have counts : slabs.list.countP (countsEmpty none slabs) = (slabs.list.erase slab).countP (countsEmpty none slabs) + 1 := by
    rw [(perm_cons_erase held).countP_eq,countP_cons_of_pos (by simp [countsEmpty,empty])]
  refine ⟨sound.apart.sublist erase_sublist,?_,?_,fun other mem => sound.lives other (mem_of_mem_erase mem),
    sound.nodup,fun place => ?_⟩
  · have less : (slabs.slabs - 1).toNat = slabs.slabs.toNat - 1 := by
      have bound := sound.counted
      rw [toNat_sub,one]
      omega
    refine less.trans ?_
    rw [sound.counted]
    exact (Nat.eq_sub_of_add_eq length).symm
  · have less : (slabs.empty - 1).toNat = slabs.empty.toNat - 1 := by
      have bound := sound.empties
      rw [toNat_sub,one]
      omega
    refine less.trans ?_
    rw [sound.empties,counts]
    rfl
  rw [sound.taken place]
  have members : place.1 ∈ slabs.list.erase slab ↔ place.1 ≠ slab ∧ place.1 ∈ slabs.list := sound.listNodup.mem_erase_iff
  refine ⟨fun taken => ⟨members.mpr ⟨fun same => ?_,taken.1⟩,taken.2⟩,fun taken => ⟨(members.mp taken.1).2,taken.2⟩⟩
  have out := (sound.taken place).mpr taken
  exact sound.unused held empty place.2 (same ▸ out)

end WindowsOnM1.PoolSlabSound
