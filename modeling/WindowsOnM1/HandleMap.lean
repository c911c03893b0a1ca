import Mathlib.Data.BitVec
import Mathlib.Data.List.Nodup
import Mathlib.Data.Set.Card
import WindowsOnM1.ProbedTables

/-!
The buffer objects of a backend by handle: a table with linear probing, which is doubled before it is half full, and from
which what is removed leaves no mark. `Bo` are the pointers to the objects.
-/
namespace WindowsOnM1.HandleMap
open Function List ProbedTables

abbrev U32 := BitVec 32
abbrev Slots (Bo : Type) := Nat → Option Bo

/-- The fields of `AGX_WIN32_ASAHI_BACKEND` that are the map. -/
structure Backend (Bo : Type) where
  map : Slots Bo
  cap : U32
  count : U32

def handleSlot (handle : U32) (mask : Nat) : Nat := (handle * 2654435761).toNat &&& mask

variable {Bo : Type} (handle : Bo → U32)

/-- `(i+1)&mask`. -/
def after (mask i : Nat) : Nat := (i + 1) &&& mask

/-- `handle_map_place`. No loop goes on for more turns than there are slots. -/
def handleMapPlace (map : Slots Bo) (mask : Nat) (bo : Bo) : Option (Slots Bo) :=
  (probe (after mask) (fun _ => false) map (mask + 1) (handleSlot (handle bo) mask)).map (fun i => update map i (some bo))

/-- The loop of `handle_map_put` that places what lies in the first slots. -/
def rehash (old : Slots Bo) (mask : Nat) : Nat → Option (Slots Bo)
  | 0 => some (fun _ => none)
  | i + 1 => do
    let map ← rehash old mask i
    match old i with
    | some bo => handleMapPlace handle map mask bo
    | none => some map

/-- `handle_map_put`. -/
def handleMapPut (allocates : Bool) (bo : Bo) (b : Backend Bo) : Option (Bool × Backend Bo) :=
  if b.cap < (b.count + 1) * 2 then
    let cap := if b.cap ≠ 0 then b.cap * 2 else 256
    if cap < b.cap ∨ ¬ allocates then some (false,b)
    else do
      let map ← rehash handle b.map (cap - 1).toNat b.cap.toNat
      let map ← handleMapPlace handle map (cap - 1).toNat bo
      some (true,⟨map,cap,b.count + 1⟩)
  else do
    let map ← handleMapPlace handle b.map (b.cap - 1).toNat bo
    some (true,{ b with map := map, count := b.count + 1 })

/-- The second loop of `handle_map_remove`: an entry is moved back unless its home lies cyclically in `(i, j]`. -/
def moveBack (mask : Nat) : Nat → Slots Bo → Nat → Nat → Option (Slots Bo)
  | 0, _, _, _ => none
  | turns + 1, map, i, j =>
    match map j with
    | none => some map
    | some bo =>
      let home := handleSlot (handle bo) mask
      if if i ≤ j then home ≤ i ∨ j < home else home ≤ i ∧ j < home then
        moveBack mask turns (update (update map i (some bo)) j none) j (after mask j)
      else moveBack mask turns map i (after mask j)

/-- `handle_map_remove`. -/
def handleMapRemove [DecidableEq Bo] (bo : Bo) (b : Backend Bo) : Option (Backend Bo) :=
  if b.cap = 0 then some b
  else do
    let mask := (b.cap - 1).toNat
    let i ← probe (after mask) (fun other => other = bo) b.map (mask + 1) (handleSlot (handle bo) mask)
    if b.map i = none then some b
    else do
      let map ← moveBack handle mask (mask + 1) (update b.map i none) i (after mask i)
      some { b with map := map, count := b.count - 1 }

/-- `handle_map_get`. -/
def handleMapGet (wanted : U32) (b : Backend Bo) : Option (Option Bo) :=
  if b.cap = 0 then some none
  else (probe (after (b.cap - 1).toNat) (fun bo => handle bo = wanted) b.map ((b.cap - 1).toNat + 1)
    (handleSlot wanted (b.cap - 1).toNat)).map b.map

/-- The backends that calls lead to, with the buffer objects that were put and not removed since. -/
inductive Reached [DecidableEq Bo] : Backend Bo → List Bo → Prop
  | start : Reached ⟨fun _ => none,0,0⟩ []
  | put {b left : Backend Bo} {present : List Bo} {bo : Bo} (reached : Reached b present)
    (fresh : ∀ other ∈ present, handle other ≠ handle bo) (allocates : Bool) {done : Bool}
    (puts : handleMapPut handle allocates bo b = some (done,left)) : Reached left (if done then bo :: present else present)
  | remove {b left : Backend Bo} {present : List Bo} (reached : Reached b present) (bo : Bo)
    (removes : handleMapRemove handle bo b = some left) : Reached left (present.erase bo)

variable {handle} {mask : Nat} {map : Slots Bo} {present : List Bo}

/-- A table of the size of a mask in which every item is found. -/
structure Mapped (handle : Bo → U32) (mask : Nat) (map : Slots Bo) (present : List Bo) : Prop where
  holds : (contents (mask + 1) map).Perm present
  reachable : Reachable (fun bo => handleSlot (handle bo) mask) (mask + 1) map
theorem steps_lt {size i j : Nat} (below : j < size) : steps size i j < size := by
  unfold steps
  split_ifs <;> omega

variable (ring : ∃ k, mask + 1 = 2 ^ (k + 1))
include ring

theorem and_mask (n : Nat) : n &&& mask = n % (mask + 1) := by
  obtain ⟨k,is⟩ := ring
  rw [is,← Nat.and_two_pow_sub_one_eq_mod]
  congr
  omega

theorem handleSlot_lt (wanted : U32) : handleSlot wanted mask < mask + 1 := by
  rw [handleSlot,and_mask ring]
  exact Nat.mod_lt _ (Nat.succ_pos mask)

theorem after_turns : ∀ i < mask + 1, after mask i = if i + 1 < mask + 1 then i + 1 else 0 := by
  intro i inside
  rw [after,and_mask ring]
  split_ifs with more
  · exact Nat.mod_eq_of_lt more
  rw [show i + 1 = mask + 1 by omega,Nat.mod_self]

theorem Mapped.probe (mapped : Mapped handle mask map present) (room : present.length < mask + 1) (sought : Bo → Bool) (wanted : U32) :
    ∃ slot < mask + 1, ProbedTables.probe (after mask) sought map (mask + 1) (handleSlot wanted mask) = some slot ∧
      (∀ item, map slot = some item → sought item = true) ∧ ∀ way < mask + 1,
        steps (mask + 1) (handleSlot wanted mask) way < steps (mask + 1) (handleSlot wanted mask) slot →
        ∃ item, map way = some item ∧ sought item = false := by
  obtain ⟨free,below,isFree⟩ := exists_free (by rwa [mapped.holds.length_eq])
  obtain ⟨slot,inside,is,_,rest⟩ := probe_finds (after_turns ring) sought below isFree (mask + 1) _
    (handleSlot_lt ring wanted) (steps_lt below)
  exact ⟨slot,inside,is,rest⟩

theorem place_mapped (mapped : Mapped handle mask map present) (room : present.length < mask + 1) (bo : Bo) :
    ∃ map', handleMapPlace handle map mask bo = some map' ∧ Mapped handle mask map' (bo :: present) := by
  obtain ⟨slot,inside,is,stops,passed⟩ := mapped.probe ring room (fun _ => false) (handle bo)
  have free : map slot = none := by
    cases here : map slot with
    | none => rfl
    | some item => cases stops item here
  refine ⟨_,by rw [handleMapPlace,is]; rfl,(contents_put inside free).trans (mapped.holds.cons bo),
    mapped.reachable.put (fun way below before => ?_)⟩
  obtain ⟨item,full,_⟩ := passed way below before
  rw [full]
  nofun

private theorem rehash_mapped {old : Slots Bo} {size : Nat} (room : (contents size old).length < mask + 1) : ∀ turns ≤ size,
    ∃ map, rehash handle old mask turns = some map ∧ Mapped handle mask map (contents turns old) := by
  intro turns
  induction turns with
  | zero => exact fun _ => ⟨_,rfl,by simp [contents],fun _ _ _ full => by cases full⟩
  | succ turns ih =>
  intro le
  obtain ⟨map,is,mapped⟩ := ih (Nat.le_of_succ_le le)
  rw [contents_succ]
  unfold rehash
  rw [is]
  cases here : old turns with
  | none => exact ⟨map,rfl,by simpa using mapped⟩
  | some bo =>
  have few : (contents turns old).length ≤ (contents size old).length :=
    ((range_sublist.mpr (Nat.le_of_succ_le le)).filterMap old).length_le
  obtain ⟨map',places,mapped'⟩ := place_mapped ring mapped (Nat.lt_of_le_of_lt few room) bo
  exact ⟨map',places,mapped'.holds.trans (perm_append_singleton bo _).symm,mapped'.reachable⟩

private theorem moveBack_closes {spare : Nat} (spareIn : spare < mask + 1) :
    ∀ turns {map : Slots Bo} {i j : Nat}, i < mask + 1 → j < mask + 1 → spare ≠ i → map spare = none →
      steps (mask + 1) j spare < turns → Gapped (fun bo => handleSlot (handle bo) mask) (mask + 1) map i j →
      ∃ map', moveBack handle mask turns map i j = some map' ∧ Mapped handle mask map' (contents (mask + 1) map) := by
  intro turns
  induction turns with
  | zero => exact fun _ _ _ _ few => absurd few (Nat.not_lt_zero _)
  | succ turns ih =>
  intro map i j inside within other isFree few gapped
  have homes : ∀ bo, handleSlot (handle bo) mask < mask + 1 := fun bo => handleSlot_lt ring (handle bo)
  unfold moveBack
  cases here : map j with
  | none => exact ⟨map,rfl,.rfl,gapped.closed within inside homes here⟩
  | some bo =>
  have spared := ne_of_full isFree here
  obtain ⟨within',nearer⟩ := steps_step (after_turns ring) within spareIn spared.symm
  have home := homes bo
  have cut : (if i ≤ j then handleSlot (handle bo) mask ≤ i ∨ j < handleSlot (handle bo) mask
      else handleSlot (handle bo) mask ≤ i ∧ j < handleSlot (handle bo) mask) ↔
      steps (mask + 1) i j ≤ steps (mask + 1) (handleSlot (handle bo) mask) j := by
    unfold steps
    split_ifs <;> omega
  dsimp only
  by_cases moves : steps (mask + 1) i j ≤ steps (mask + 1) (handleSlot (handle bo) mask) j
  · rw [if_pos (cut.mpr moves)]
    have moved := gapped.move (after_turns ring) within inside homes here moves
    obtain ⟨map',is,mapped⟩ := ih within within' spared
      (by rw [update_of_ne spared,update_of_ne other]; exact isFree) (by omega) moved
    exact ⟨map',is,mapped.holds.trans (contents_move inside within gapped.free here),mapped.reachable⟩
  rw [if_neg (fun moves' => moves (cut.mp moves'))]
  exact ih inside within' other isFree (by omega)
    (gapped.skip (after_turns ring) within inside homes spareIn other isFree here (Nat.lt_of_not_le moves))

/-- What is found for a predicate that holds of items with one home only. -/
theorem Mapped.search (mapped : Mapped handle mask map present) (room : present.length < mask + 1) (sought : Bo → Bool) (wanted : U32)
    (homes : ∀ bo, sought bo = true → handle bo = wanted) :
    ∃ slot < mask + 1, ProbedTables.probe (after mask) sought map (mask + 1) (handleSlot wanted mask) = some slot ∧
      (∀ bo, map slot = some bo → sought bo = true ∧ bo ∈ present) ∧ (map slot = none → ∀ bo ∈ present, sought bo = false) := by
  obtain ⟨slot,inside,is,stops,passed⟩ := mapped.probe ring room sought wanted
  refine ⟨slot,inside,is,fun bo full => ⟨stops bo full,mapped.holds.mem_iff.mp (mem_contents.mpr ⟨slot,inside,full⟩)⟩,
    fun free bo mem => ?_⟩
  by_contra found
  rw [Bool.not_eq_false] at found
  obtain ⟨place,below,full⟩ := mem_contents.mp (mapped.holds.mem_iff.mpr mem)
  have home := homes bo found
  subst home
  rcases Nat.lt_trichotomy (steps (mask + 1) (handleSlot (handle bo) mask) slot)
    (steps (mask + 1) (handleSlot (handle bo) mask) place) with before | same | behind
  · exact mapped.reachable place below bo full slot inside before free
  · have here : slot = place := by
      have inside' := handleSlot_lt ring (handle bo)
      unfold steps at same
      split_ifs at same <;> omega
    rw [here,full] at free
    cases free
  obtain ⟨other,full',fails⟩ := passed place below behind
  rw [full] at full'
  cases full'
  rw [found] at fails
  cases fails

omit ring

/-- What the calls keep. -/
structure Kept (handle : Bo → U32) (b : Backend Bo) (present : List Bo) : Prop where
  keys : (present.map handle).Nodup
  count : b.count.toNat = present.length
  half : 2 * present.length ≤ b.cap.toNat
  ring : b.cap ≠ 0 → ∃ k, (b.cap - 1).toNat + 1 = 2 ^ (k + 1)
  mapped : b.cap ≠ 0 → Mapped handle (b.cap - 1).toNat b.map present

variable {b : Backend Bo}

theorem mask_of_cap {cap : U32} (some : cap ≠ 0) : (cap - 1).toNat + 1 = cap.toNat := by bv_omega
theorem Kept.room (kept : Kept handle b present) (some : b.cap ≠ 0) : present.length < (b.cap - 1).toNat + 1 := by
  have half := kept.half
  rw [mask_of_cap some]
  bv_omega
theorem Kept.none (kept : Kept handle b present) (zero : b.cap = 0) : present = [] := by
  have half := kept.half
  rw [zero,show (0 : U32).toNat = 0 from rfl] at half
  exact length_eq_zero_iff.mp (by omega)

theorem Kept.holds (kept : Kept handle b present) : (contents b.cap.toNat b.map).Perm present := by
  by_cases zero : b.cap = 0
  · rw [zero,kept.none zero]
    exact .rfl
  rw [← mask_of_cap zero]
  exact (kept.mapped zero).holds

private theorem find_iff (keys : (present.map handle).Nodup) {wanted : U32} {bo : Bo} :
    present.find? (fun bo => handle bo = wanted) = some bo ↔ handle bo = wanted ∧ bo ∈ present := by
  refine ⟨fun found => ⟨by simpa using find?_some found,mem_of_find?_eq_some found⟩,fun ⟨is,mem⟩ => ?_⟩
  cases first : present.find? (fun bo => handle bo = wanted) with
  | none => exact absurd (decide_eq_true is) (find?_eq_none.mp first bo mem)
  | some other =>
  have is' : handle other = wanted := by simpa using find?_some first
  rw [inj_on_of_nodup_map keys (mem_of_find?_eq_some first) mem (is'.trans is.symm)]

private theorem Kept.reachable (kept : Kept handle b present) :
    Reachable (fun bo => handleSlot (handle bo) (b.cap - 1).toNat) b.cap.toNat b.map := by
  by_cases zero : b.cap = 0
  · rw [zero]
    exact fun _ below => absurd below (Nat.not_lt_zero _)
  rw [← mask_of_cap zero]
  exact (kept.mapped zero).reachable

theorem Kept.get (kept : Kept handle b present) (wanted : U32) :
    handleMapGet handle wanted b = some (present.find? (fun bo => handle bo = wanted)) := by
  unfold handleMapGet
  by_cases zero : b.cap = 0
  · rw [if_pos zero,kept.none zero]
    rfl
  rw [if_neg zero]
  obtain ⟨slot,_,is,found,missed⟩ := (kept.mapped zero).search (kept.ring zero) (kept.room zero) (fun bo => handle bo = wanted) wanted
    (fun _ same => of_decide_eq_true same)
  rw [is,Option.map_some]
  congr 1
  cases here : b.map slot with
  | none => exact (find?_eq_none.mpr (fun bo mem => by rw [missed here bo mem]; nofun)).symm
  | some bo =>
  obtain ⟨same,mem⟩ := found bo here
  exact ((find_iff kept.keys).mpr ⟨of_decide_eq_true same,mem⟩).symm

theorem Kept.remove [DecidableEq Bo] (kept : Kept handle b present) (bo : Bo) :
    ∃ left, handleMapRemove handle bo b = some left ∧ Kept handle left (present.erase bo) := by
  unfold handleMapRemove
  by_cases zero : b.cap = 0
  · rw [if_pos zero]
    obtain rfl := kept.none zero
    exact ⟨b,rfl,kept⟩
  rw [if_neg zero]
  have ring := kept.ring zero
  have mapped := kept.mapped zero
  obtain ⟨slot,inside,is,found,missed⟩ := mapped.search ring (kept.room zero) (fun other => other = bo) (handle bo)
    (fun _ same => congrArg handle (of_decide_eq_true same))
  dsimp only
  rw [is]
  cases here : b.map slot with
  | none =>
    have absent : bo ∉ present := fun mem => by simpa using missed here bo mem
    rw [erase_of_not_mem absent]
    exact ⟨b,by simp [here],kept⟩
  | some other =>
  obtain ⟨same,mem⟩ := found other here
  rw [decide_eq_true_iff] at same
  subst same
  obtain ⟨spare,spareIn,isFree⟩ := exists_free (by rw [mapped.holds.length_eq]; exact kept.room zero)
  have apart := ne_of_full isFree here
  have gapped := mapped.reachable.gapped (after_turns ring) inside (by obtain ⟨k,is⟩ := ring; rw [is]; exact Nat.one_lt_two_pow (by omega))
  obtain ⟨within,_⟩ := steps_step (after_turns ring) inside spareIn apart.symm
  obtain ⟨map',moves,mapped'⟩ := moveBack_closes ring spareIn ((b.cap - 1).toNat + 1) inside within apart
    ((update_of_ne apart _ _).trans isFree) (steps_lt spareIn) gapped
  refine ⟨{ b with map := map', count := b.count - 1 },?_,kept.keys.sublist (erase_sublist.map _),?_,?_,kept.ring,
    fun _ => ⟨mapped'.holds.trans ?_,mapped'.reachable⟩⟩
  · rw [Option.bind_eq_bind,Option.bind_some,if_neg (by simp [here]),moves]
    rfl
  · have some := length_pos_of_mem mem
    have counted := kept.count
    rw [length_erase_of_mem mem]
    bv_omega
  · have half := kept.half
    have fewer := (erase_sublist (a := other) (l := present)).length_le
    change _ ≤ b.cap.toNat
    omega
  exact ((contents_take inside here).symm.trans (mapped.holds.trans (perm_cons_erase mem))).cons_inv

/-- What a table is before an item is placed in it. -/
structure Ready (handle : Bo → U32) (present : List Bo) (b : Backend Bo) : Prop where
  count : b.count.toNat = present.length
  room : 2 * (present.length + 1) ≤ b.cap.toNat
  ring : ∃ k, (b.cap - 1).toNat + 1 = 2 ^ (k + 1)
  mapped : Mapped handle (b.cap - 1).toNat b.map present

theorem Ready.place (ready : Ready handle present b) {bo : Bo} (keys : ((bo :: present).map handle).Nodup) :
    ∃ map, handleMapPlace handle b.map (b.cap - 1).toNat bo = some map ∧
      Kept handle { b with map := map, count := b.count + 1 } (bo :: present) := by
  have room := ready.room
  have counted := ready.count
  obtain ⟨map,is,mapped⟩ := place_mapped ready.ring ready.mapped (by bv_omega) bo
  refine ⟨map,is,keys,?_,room,fun _ => ready.ring,fun _ => mapped⟩
  change (b.count + 1).toNat = present.length + 1
  bv_omega

theorem Kept.put (kept : Kept handle b present) {bo : Bo} (fresh : ∀ other ∈ present, handle other ≠ handle bo) (allocates : Bool) :
    ∃ done left, handleMapPut handle allocates bo b = some (done,left) ∧
      Kept handle left (if done then bo :: present else present) := by
  have half := kept.half
  have counted := kept.count
  have keys : ((bo :: present).map handle).Nodup := by
    rw [map_cons,nodup_cons,mem_map]
    exact ⟨fun ⟨other,mem,same⟩ => fresh other mem same,kept.keys⟩
  have small : b.cap ≠ 0 → b.cap.toNat ≤ 2 ^ 31 := by
    intro some
    obtain ⟨k,is⟩ := kept.ring some
    rw [mask_of_cap some] at is
    have below : k + 1 < 32 := (Nat.pow_lt_pow_iff_right (by decide)).mp (is ▸ b.cap.isLt)
    rw [is]
    exact Nat.pow_le_pow_right (by decide) (by omega)
  unfold handleMapPut
  split
  · dsimp only
    generalize is : (if b.cap ≠ 0 then b.cap * 2 else 256) = cap
    split
    · exact ⟨false,b,rfl,kept⟩
    have larger : (∃ k, (cap - 1).toNat + 1 = 2 ^ (k + 1)) ∧ 2 * (present.length + 1) ≤ cap.toNat ∧ cap ≠ 0 := by
      split at is
      · rename_i some
        obtain ⟨k,even⟩ := kept.ring some
        refine ⟨⟨k + 1,?_⟩,?_⟩
        · bv_omega
        bv_omega
      subst is
      exact ⟨⟨7,rfl⟩,by bv_omega⟩
    have room : present.length < (cap - 1).toNat + 1 := by
      rw [mask_of_cap larger.2.2]
      omega
    have holds := kept.holds
    obtain ⟨map,moves,mapped⟩ := rehash_mapped larger.1 (by rwa [holds.length_eq]) b.cap.toNat (Nat.le_refl _)
    obtain ⟨map',is,kept'⟩ := Ready.place (b := ⟨map,cap,b.count⟩) ⟨counted,larger.2.1,larger.1,mapped.holds.trans holds,mapped.reachable⟩ keys
    exact ⟨true,_,by rw [moves,Option.bind_eq_bind,Option.bind_some,is]; rfl,kept'⟩
  have some : b.cap ≠ 0 := by bv_omega
  obtain ⟨map,is,kept'⟩ := Ready.place ⟨counted,by bv_omega,kept.ring some,kept.mapped some⟩ keys
  exact ⟨true,_,by rw [is]; rfl,kept'⟩

private theorem reached_kept [DecidableEq Bo] (reached : Reached handle b present) : Kept handle b present := by
  induction reached with
  | start => exact ⟨nodup_nil,rfl,Nat.le_refl 0,(absurd rfl ·),(absurd rfl ·)⟩
  | put reached fresh allocates puts ih =>
    obtain ⟨done,left,is,kept⟩ := ih.put fresh allocates
    rw [puts] at is
    cases is
    exact kept
  | remove reached bo removes ih =>
  obtain ⟨left,is,kept⟩ := ih.remove bo
  rw [removes] at is
  cases is
  exact kept

/-- **The handle map refines a finite map.** Behind any puts, removals and failed allocations every call ends; a search finds
    exactly what was put and not removed since; the count is the number of these, at most half of the slots; and no slot
    before an entry is free on the way from its home. -/
theorem handle_map_refines [DecidableEq Bo] (reached : Reached handle b present) :
    (∀ wanted, handleMapGet handle wanted b = some (present.find? (fun bo => handle bo = wanted))) ∧
    (present.map handle).Nodup ∧ b.count.toNat = present.length ∧ 2 * b.count.toNat ≤ b.cap.toNat ∧
    (contents b.cap.toNat b.map).Perm present ∧
    Reachable (fun bo => handleSlot (handle bo) (b.cap - 1).toNat) b.cap.toNat b.map ∧
    (∀ bo, ∃ left, handleMapRemove handle bo b = some left) ∧
    ∀ bo, (∀ other ∈ present, handle other ≠ handle bo) → ∀ allocates, ∃ answer, handleMapPut handle allocates bo b = some answer := by
  have kept := reached_kept reached
  refine ⟨kept.get,kept.keys,kept.count,kept.count ▸ kept.half,kept.holds,kept.reachable,fun bo => ?_,
    fun bo fresh allocates => ?_⟩
  · obtain ⟨left,is,_⟩ := kept.remove bo
    exact ⟨left,is⟩
  obtain ⟨done,left,is,_⟩ := kept.put fresh allocates
  exact ⟨_,is⟩

/-- Two buffer objects whose homes are one slot of 256, of which the first is removed. -/
theorem handle_map_refines_moved : ∃ b, Reached id b [257] ∧ handleMapGet id 257 b = some (some 257) ∧ handleMapGet id 1 b = some none := by
  have first : Reached id _ [1] := .put .start (by simp) true (rfl : handleMapPut id true 1 _ = some (true,_))
  have second : Reached id _ [257,1] := .put first (by simp) true (rfl : handleMapPut id true 257 _ = some (true,_))
  have third : Reached id _ [257] := .remove second 1 rfl
  exact ⟨_,third,(handle_map_refines third).1 257,(handle_map_refines third).1 1⟩

/-- A put with its success, or a removal. A search leaves the backend as it is. -/
inductive Event (Bo : Type) where
  | put (bo : Bo) (done : Bool)
  | remove (bo : Bo)

/-- A buffer object was put and not removed since, with the newest event first. -/
def Present : List (Event Bo) → Bo → Prop
  | [], _ => False
  | .put other done :: events, bo => (done = true ∧ bo = other) ∨ Present events bo
  | .remove other :: events, bo => bo ≠ other ∧ Present events bo

/-- The calls on one backend, where the buffer objects present have different handles. -/
inductive Runs [DecidableEq Bo] (handle : Bo → U32) : List (Event Bo) → Backend Bo → Prop
  | start : Runs handle [] ⟨fun _ => none,0,0⟩
  | put {events : List (Event Bo)} {b left : Backend Bo} {bo : Bo} (runs : Runs handle events b)
    (fresh : ∀ other, Present events other → handle other ≠ handle bo) (allocates : Bool) {done : Bool}
    (puts : handleMapPut handle allocates bo b = some (done,left)) : Runs handle (.put bo done :: events) left
  | remove {events : List (Event Bo)} {b left : Backend Bo} (runs : Runs handle events b) (bo : Bo)
    (removes : handleMapRemove handle bo b = some left) : Runs handle (.remove bo :: events) left

private theorem runs_reached [DecidableEq Bo] {events : List (Event Bo)} (runs : Runs handle events b) :
    ∃ present, Reached handle b present ∧ ∀ bo, bo ∈ present ↔ Present events bo := by
  induction runs with
  | start => exact ⟨[],.start,fun _ => by simp [Present]⟩
  | @put _ _ _ _ runs fresh allocates done puts ih =>
    obtain ⟨present,reached,same⟩ := ih
    refine ⟨_,.put reached (fun other mem => fresh other ((same other).mp mem)) allocates puts,fun bo => ?_⟩
    cases done <;> simp [Present,same]
  | remove runs bo removes ih =>
  obtain ⟨present,reached,same⟩ := ih
  refine ⟨_,.remove reached bo removes,fun other => ?_⟩
  rw [(Nodup.of_map handle (reached_kept reached).keys).mem_erase_iff,same,Present]

/-- **The map answers as its history says.** After any puts, removals and failed allocations a search finds exactly the buffer
    object with the handle that was put and not removed since; the count is the number of these, at most half of the slots;
    no slot before an entry is free on the way from its home; and every call ends. -/
theorem handle_map_exact [DecidableEq Bo] {events : List (Event Bo)} (runs : Runs handle events b) :
    (∀ wanted, ∃ found, handleMapGet handle wanted b = some found ∧
      ∀ bo, found = some bo ↔ handle bo = wanted ∧ Present events bo) ∧
    b.count.toNat = Set.ncard {bo | Present events bo} ∧ 2 * b.count.toNat ≤ b.cap.toNat ∧
    Reachable (fun bo => handleSlot (handle bo) (b.cap - 1).toNat) b.cap.toNat b.map ∧
    (∀ bo, ∃ left, handleMapRemove handle bo b = some left) ∧
    ∀ bo, (∀ other, Present events other → handle other ≠ handle bo) → ∀ allocates,
      ∃ answer, handleMapPut handle allocates bo b = some answer := by
  obtain ⟨present,reached,same⟩ := runs_reached runs
  have kept := reached_kept reached
  refine ⟨fun wanted => ⟨_,kept.get wanted,fun bo => ?_⟩,?_,kept.count ▸ kept.half,kept.reachable,fun bo => ?_,
    fun bo fresh allocates => ?_⟩
  · rw [← same]
    exact find_iff kept.keys
  · have objects : {bo | Present events bo} = (present.toFinset : Set Bo) := by
      ext bo
      simp [same]
    rw [objects,Set.ncard_coe_finset,toFinset_card_of_nodup (Nodup.of_map handle kept.keys)]
    exact kept.count
  · obtain ⟨left,is,_⟩ := kept.remove bo
    exact ⟨left,is⟩
  obtain ⟨done,left,is,_⟩ := kept.put (fun other mem => fresh other ((same other).mp mem)) allocates
  exact ⟨_,is⟩

/-- Two buffer objects whose homes are the last slot of 256, of which the first is removed behind one that was never put. -/
theorem handle_map_exact_wrapped : ∃ b, Runs id [.remove 175,.remove 7,.put 431 true,.put 175 true] b ∧
    handleMapGet id 431 b = some (some 431) := by
  have first : Runs id [.put 175 true] _ := .put .start (by simp [Present]) true (rfl : handleMapPut id true 175 _ = some (true,_))
  have second : Runs id _ _ := .put first (by simp [Present]) true (rfl : handleMapPut id true 431 _ = some (true,_))
  have third : Runs id _ _ := .remove (.remove second 7 rfl) 175 rfl
  obtain ⟨found,is,which⟩ := (handle_map_exact third).1 431
  exact ⟨_,third,is.trans (congrArg some ((which 431).mpr (by simp [Present])))⟩

end WindowsOnM1.HandleMap
