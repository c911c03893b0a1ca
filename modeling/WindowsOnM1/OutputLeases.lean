import WindowsOnM1.OutputModel
import WindowsOnM1.Holders

/-!
Outputs and leases hold references of allocations: no run loses or invents one, and what is
on the display is given up only by way of a lease or by an explicit resolution.
-/
namespace WindowsOnM1.OutputLeases
open Actions Holders OutputModel BitVec Function Bool

variable {ι κ α : Type}

/-- The allocation that a non-empty output owns. -/
def outputOwner (output : Output α) : Option α := if output.phase = .empty then none else output.owner

/-- The allocation that an active lease owns. -/
def leaseOwner (lease : Lease α) : Option α := if lease.active then lease.owner else none

/-- What is on the display, or may be. -/
def shown : Phase → Bool
  | .publishedPending | .latched | .ownershipUnknown => true
  | _ => false

section counts
variable [DecidableEq α]

/-- The open counts change as a holder goes from one allocation to another. -/
structure Counted (world : World ι κ α) (before after : Option α) (left : World ι κ α) : Prop where
  outputs : left.outputs = world.outputs
  leases : left.leases = world.leases
  counts : ∀ owner, (left.allocations owner).openCount.toNat + holds before owner =
    (world.allocations owner).openCount.toNat + holds after owner

/-- An allocation is refused, or its count changes. -/
structure Recounted (world : World ι κ α) (before after : Option α) (done : Bool) (left : World ι κ α) : Prop where
  refused : done = false → left = world
  counted : done = true → Counted world before after left

theorem recounted_change {world : World ι κ α} {owner : α} {change : Allocation → Option Allocation} {before after : Option α}
    (mine : ∀ allocation, change (world.allocations owner) = some allocation →
      allocation.openCount.toNat + holds before owner = (world.allocations owner).openCount.toNat + holds after owner)
    (others : ∀ other, other ≠ owner → holds before other = holds after other) :
    Gives (changeAllocation (some owner) change) world (Recounted world before after) := by
  unfold changeAllocation
  rw [gives_bind,gives_get]
  cases changed : change (world.allocations owner) with
  | none => exact ⟨fun _ => rfl,nofun⟩
  | some allocation =>
  refine ⟨nofun,fun _ => ⟨rfl,rfl,fun other => ?_⟩⟩
  show (update world.allocations owner allocation other).openCount.toNat + holds before other = _
  by_cases same : other = owner
  · rw [same,update_self]
    exact mine allocation changed
  rw [update_of_ne same,others other same]

theorem holds_other {owner other : α} (apart : other ≠ owner) : holds (some owner) other = 0 :=
  if_neg (fun same => apart (Option.some.inj same).symm)
theorem holds_self (owner : α) : holds (some owner) owner = 1 := if_pos rfl

theorem recounted_open (world : World ι κ α) (owner : α) :
    Gives (changeAllocation (some owner) allocationOpen) world (Recounted world none (some owner)) := by
  refine recounted_change (fun allocation opened => ?_) (fun other apart => (holds_other apart).symm)
  unfold allocationOpen at opened
  split at opened
  · cases opened
  rename_i valid
  have room : (world.allocations owner).openCount.toNat ≠ 2 ^ 32 - 1 :=
    fun full => (not_or.mp valid).2 (eq_of_toNat_eq full)
  rw [← Option.some.inj opened,holds_none,holds_self,toNat_add,show (1 : U32).toNat = 1 from rfl]
  rw [Nat.mod_eq_of_lt (by omega)]

theorem recounted_close (world : World ι κ α) (owner : Option α) :
    Gives (changeAllocation owner allocationClose) world (Recounted world owner none) := by
  cases owner with
  | none => exact ⟨fun _ => rfl,nofun⟩
  | some owner =>
  refine recounted_change (fun allocation closed => ?_) (fun other apart => holds_other apart)
  unfold allocationClose at closed
  split at closed
  · cases closed
  rename_i valid
  have opened : (world.allocations owner).openCount.toNat ≠ 0 := fun zero => (not_or.mp valid).2 (eq_of_toNat_eq zero)
  rw [← Option.some.inj closed,holds_none,holds_self,toNat_sub,show (1 : U32).toNat = 1 from rfl]
  omega

theorem recounted_then {world : World ι κ α} {before after : Option α} {change rest : OutputAction ι κ α Bool}
    {post : Bool → World ι κ α → Prop} (recounted : Gives change world (Recounted world before after)) (unchanged : post false world)
    (goes : ∀ middle, Counted world before after middle → Gives rest middle post) :
    Gives (do if ¬ (← change) then pure false else rest) world post := by
  refine recounted.bind (fun done middle recounted => ?_)
  rw [gives_ite,gives_pure]
  refine ⟨fun failed => ?_,fun succeeded => goes middle (recounted.counted (not_not.mp succeeded))⟩
  rw [recounted.refused (eq_false_iff.mpr failed)]
  exact unchanged

end counts

section held
variable [Fintype ι] [Fintype κ] [DecidableEq α]

/-- The number of outputs and leases that own an allocation. -/
def held (world : World ι κ α) (owner : α) : Nat :=
  holders (fun state => outputOwner (world.outputs state)) owner + holders (fun lease => leaseOwner (world.leases lease)) owner

theorem held_output [DecidableEq ι] (world : World ι κ α) (state : ι) (next : Output α) (owner : α) :
    held { world with outputs := Function.update world.outputs state next } owner + holds (outputOwner (world.outputs state)) owner =
      held world owner + holds (outputOwner next) owner := by
  have moved := holders_change outputOwner world.outputs state next owner
  unfold held
  dsimp only
  omega

theorem held_lease [DecidableEq κ] (world : World ι κ α) (lease : κ) (next : Lease α) (owner : α) :
    held { world with leases := Function.update world.leases lease next } owner + holds (leaseOwner (world.leases lease)) owner =
      held world owner + holds (leaseOwner next) owner := by
  have moved := holders_change leaseOwner world.leases lease next owner
  unfold held
  dsimp only
  omega

/-- The open counts change by as much as what is held. -/
def Conserves (world left : World ι κ α) : Prop := ∀ owner,
  (left.allocations owner).openCount.toNat + held world owner = (world.allocations owner).openCount.toNat + held left owner

/-- An operation that refuses changes nothing, and one that does not conserves the references. -/
structure Fair (world : World ι κ α) (done : Bool) (left : World ι κ α) : Prop where
  refused : done = false → left = world
  conserves : Conserves world left

/-- An output that is on the display, or may be, with its allocation. -/
def ShownBy (world : World ι κ α) (state : ι) (owner : Option α) : Prop :=
  shown (world.outputs state).phase = true ∧ (world.outputs state).owner = owner

/-- An operation that gives up nothing that is shown. -/
structure Steady (world : World ι κ α) (done : Bool) (left : World ι κ α) : Prop extends Fair world done left where
  shown : ∀ state owner, ShownBy world state owner → ShownBy left state owner
theorem steady_same (world : World ι κ α) (done : Bool) : Steady world done world := ⟨⟨fun _ => rfl,fun _ => rfl⟩,fun _ _ is => is⟩
theorem counted_held {world left : World ι κ α} {before after : Option α} (counted : Counted world before after left) (owner : α) :
    held left owner = held world owner := by
  unfold held
  rw [counted.outputs,counted.leases]

variable [DecidableEq ι]

omit [Fintype ι] [Fintype κ] [DecidableEq ι] [DecidableEq α] in
/-- A step of an output that stays with its owner; what is shown stays shown. -/
structure Advances (answer : Output α → Option Bool) (change : Output α → Output α) : Prop where
  live : ∀ output, answer output = none → output.phase ≠ .empty ∧ (change output).phase ≠ .empty
  owner : ∀ output, (change output).owner = output.owner
  shown : ∀ output, answer output = none → shown output.phase = true → shown (change output).phase = true

variable {answer : Output α → Option Bool} {change : Output α → Output α}

theorem steady_advance {state : ι} {fence : U32}
    (advances : Advances answer change) (world : World ι κ α) : Gives (advance state fence answer change) world (Steady world) := by
  unfold advance
  rw [gives_bind,gives_get,gives_ite,gives_pure]
  refine ⟨fun _ => steady_same world false,fun _ => ?_⟩
  cases answered : answer (world.outputs state) with
  | some answer => exact steady_same world answer
  | none =>
  refine ⟨⟨nofun,fun owner => ?_⟩,fun other owner is => ?_⟩
  · have same : outputOwner (change (world.outputs state)) = outputOwner (world.outputs state) := by
      obtain ⟨before,after⟩ := advances.live _ answered
      unfold outputOwner
      rw [if_neg before,if_neg after,advances.owner]
    have moved := held_output world state (change (world.outputs state)) owner
    rw [same] at moved
    exact (Nat.add_left_cancel_iff.mpr (Nat.add_right_cancel moved)).symm
  show shown (update world.outputs state _ other).phase = true ∧ (update world.outputs state _ other).owner = _
  by_cases same : other = state
  · subst same
    rw [update_self,advances.owner]
    exact ⟨advances.shown _ answered is.1,is.2⟩
  rw [update_of_ne same]
  exact is

omit [Fintype ι] [Fintype κ] [DecidableEq ι] [DecidableEq α] in
theorem advances_to (target : Phase) (live : target ≠ .empty)
    (starts : ∀ output, answer output = none → output.phase ≠ .empty ∧ (shown output.phase = true → shown target = true))
    (phase : ∀ output, (change output).phase = target) (owner : ∀ output, (change output).owner = output.owner) :
    Advances answer change :=
  ⟨fun output none => ⟨(starts output none).1,(phase output).symm ▸ live⟩,owner,
    fun output none is => (phase output).symm ▸ (starts output none).2 is⟩

omit [Fintype ι] [Fintype κ] [DecidableEq ι] [DecidableEq α] in
theorem advances_within
    (starts : ∀ output, answer output = none → output.phase ≠ .empty) (phase : ∀ output, (change output).phase = output.phase)
    (owner : ∀ output, (change output).owner = output.owner) : Advances answer change :=
  ⟨fun output none => ⟨starts output none,(phase output).symm ▸ starts output none⟩,owner,fun output _ is => (phase output).symm ▸ is⟩

omit [Fintype ι] [Fintype κ] [DecidableEq ι] [DecidableEq α] in
theorem if_some_none {condition : Prop} [Decidable condition] {answer : Bool} {rest : Option Bool}
    (none : (if condition then some answer else rest) = none) : ¬ condition ∧ rest = .none := by
  split at none
  · cases none
  rename_i fails
  exact ⟨fails,none⟩

variable (world : World ι κ α) (state : ι) (fence : U32)

private theorem steady_markReleased : Gives (markReleased state fence) world (Steady world) := by
  refine steady_advance ?_ world
  refine advances_to .backendReleased nofun (fun output none => ?_) (fun _ => rfl) (fun _ => rfl)
  have captured := not_not.mp (if_some_none (if_some_none none).2).1
  rw [captured]
  exact ⟨nofun,nofun⟩

private theorem steady_markPacketRetired : Gives (markPacketRetired state fence) world (Steady world) := by
  refine steady_advance ?_ world
  refine advances_to .packetRetired nofun (fun output none => ?_) (fun _ => rfl) (fun _ => rfl)
  have released := not_not.mp (if_some_none (if_some_none none).2).1
  rw [released]
  exact ⟨nofun,nofun⟩

private theorem steady_markNotified : Gives (markNotified state fence) world (Steady world) := by
  refine steady_advance ?_ world
  refine advances_to .notified nofun (fun output none => ?_) (fun _ => rfl) (fun _ => rfl)
  have retired := not_not.mp (if_some_none (if_some_none none).2).1
  rw [retired]
  exact ⟨nofun,nofun⟩

private theorem steady_beginPresent : Gives (beginPresent state fence) world (Steady world) := by
  refine steady_advance ?_ world
  refine advances_to .presenting nofun (fun output none => ?_) (fun _ => rfl) (fun _ => rfl)
  have notified := not_not.mp (not_or.mp (if_some_none none).1).1
  rw [notified]
  exact ⟨nofun,nofun⟩

private theorem steady_markPublished (sequence : U64) : Gives (markPublished state fence sequence) world (Steady world) := by
  refine steady_advance ?_ world
  refine advances_to .publishedPending nofun (fun output none => ?_) (fun _ => rfl) (fun _ => rfl)
  have presenting := not_not.mp (not_or.mp (not_or.mp (if_some_none none).1).2).1
  rw [presenting]
  exact ⟨nofun,nofun⟩

private theorem steady_markLatched (sequence : U64) : Gives (markLatched state fence sequence) world (Steady world) := by
  refine steady_advance ?_ world
  refine advances_to .latched nofun (fun output none => ?_) (fun _ => rfl) (fun _ => rfl)
  have published := not_not.mp (not_or.mp (not_or.mp (if_some_none none).1).2).1
  rw [published]
  exact ⟨nofun,fun _ => rfl⟩

private theorem steady_markOwnershipUnknown (sequence : U64) (status : U32) :
    Gives (markOwnershipUnknown state fence sequence status) world (Steady world) := by
  refine steady_advance ?_ world
  refine advances_to .ownershipUnknown nofun (fun output none => ?_) (fun _ => rfl) (fun _ => rfl)
  have presented := (not_or.mp (not_or.mp (not_or.mp (if_some_none none).1).2).2).1
  refine ⟨fun empty => presented ?_,fun _ => rfl⟩
  rw [empty]
  exact ⟨nofun,nofun,nofun⟩

private theorem steady_recordAccess (status : U32) : Gives (recordAccess state fence status) world (Steady world) := by
  refine steady_advance ?_ world
  refine advances_within (fun output none => ?_) (fun _ => rfl) (fun _ => rfl)
  have notified := not_not.mp (not_or.mp (if_some_none none).1).1
  rw [notified]
  exact nofun

private theorem steady_recordPresentation (status : U32) : Gives (recordPresentation state fence status) world (Steady world) := by
  refine steady_advance ?_ world
  refine advances_within (fun output none => ?_) (fun _ => rfl) (fun _ => rfl)
  have presented := (not_or.mp (if_some_none none).1).2
  intro empty
  refine presented ?_
  rw [empty]
  split
  · exact nofun
  exact nofun

omit [Fintype ι] [Fintype κ] [DecidableEq ι] [DecidableEq α] in
private theorem outputOwner_live {output : Output α} (live : output.phase ≠ .empty) : outputOwner output = output.owner := if_neg live

theorem conserves_output {world middle : World ι κ α} {state : ι} {next : Output α}
    (counted : Counted world (outputOwner (world.outputs state)) (outputOwner next) middle) :
    Conserves world { middle with outputs := Function.update middle.outputs state next } := by
  intro owner
  have counts := counted.counts owner
  have moved := held_output middle state next owner
  rw [counted_held counted owner,counted.outputs] at moved
  rw [counted.outputs]
  show (middle.allocations owner).openCount.toNat + held world owner = _
  omega

private theorem steady_capture (generation : U32) (view : Option View) (owner : Option α) :
    Gives (capture state generation fence view owner) world (Steady world) := by
  unfold capture
  rw [gives_bind,gives_get]
  cases view with
  | none => exact steady_same world false
  | some view =>
  cases owner with
  | none => exact steady_same world false
  | some owner =>
  simp only
  rw [gives_ite,gives_ite,gives_pure,gives_pure]
  refine ⟨fun _ => steady_same world false,fun _ => ⟨fun _ => steady_same world _,fun empty => ?_⟩⟩
  have vacant : (world.outputs state).phase = .empty := not_not.mp empty
  refine recounted_then (recounted_open world owner) (steady_same world false) (fun middle counted => ?_)
  refine ⟨⟨nofun,?_⟩,fun other owner' is => ?_⟩
  · refine conserves_output ?_
    rw [outputOwner,if_pos vacant]
    exact counted
  show shown (update middle.outputs state _ other).phase = true ∧ (update middle.outputs state _ other).owner = owner'
  by_cases same : other = state
  · have hidden := is.1
    rw [same,vacant] at hidden
    cases hidden
  rw [update_of_ne same,counted.outputs]
  exact is

/-- What an output that is given up leaves: the others stay shown. -/
theorem fair_giveUp {refused : Output α → Bool} (live : ∀ output, refused output = false → output.phase ≠ .empty) :
    Gives (giveUp state refused) world (fun done left => Fair world done left ∧ ∀ other owner,
      other ≠ state ∨ refused (world.outputs state) = true → ShownBy world other owner → ShownBy left other owner) := by
  have unchanged : Fair world false world ∧ ∀ other owner, other ≠ state ∨ refused (world.outputs state) = true →
      ShownBy world other owner → ShownBy world other owner := ⟨(steady_same world false).toFair,fun _ _ _ is => is⟩
  unfold giveUp
  rw [gives_bind,gives_get,gives_ite,gives_pure]
  refine ⟨fun _ => unchanged,fun goes => ?_⟩
  refine recounted_then (recounted_close world (world.outputs state).owner) unchanged (fun middle counted => ?_)
  refine ⟨⟨nofun,?_⟩,fun other owner apart is => ?_⟩
  · refine conserves_output ?_
    rw [outputOwner_live (live _ (eq_false_iff.mpr goes))]
    exact counted
  have other_ : other ≠ state := apart.resolve_right goes
  show shown (update middle.outputs state _ other).phase = true ∧ (update middle.outputs state _ other).owner = owner
  rw [update_of_ne other_,counted.outputs]
  exact is

private theorem steady_abort : Gives (abort state fence) world (Steady world) := by
  refine (fair_giveUp world state (fun output free empty => ?_)).mono (fun done left gives => ⟨gives.1,fun other owner is => ?_⟩)
  · rw [decide_eq_false_iff_not] at free
    exact free (.inl empty)
  refine gives.2 other owner ?_ is
  by_cases same : other = state
  · subst same
    refine .inr (decide_eq_true ?_)
    have visible := is.1
    cases phase : (world.outputs other).phase with
    | publishedPending => exact .inr (.inl rfl)
    | latched => exact .inr (.inr (.inl rfl))
    | ownershipUnknown => exact .inr (.inr (.inr (.inl rfl)))
    | _ => rw [phase] at visible; cases visible
  exact .inl same

private theorem fair_resolveUnknown (sequence : U64) : Gives (resolveUnknown state fence sequence) world (fun done left =>
    Fair world done left ∧ ∀ other owner, other ≠ state → ShownBy world other owner → ShownBy left other owner) := by
  refine (fair_giveUp world state (fun output free empty => ?_)).mono
    (fun done left gives => ⟨gives.1,fun other owner apart is => gives.2 other owner (.inl apart) is⟩)
  rw [decide_eq_false_iff_not] at free
  refine free (.inr (.inr (.inl ?_)))
  rw [empty]
  exact nofun

variable [DecidableEq κ] (lease : κ)

omit [DecidableEq ι] in
theorem conserves_lease {world middle : World ι κ α} {lease : κ} {next : Lease α}
    (counted : Counted world (leaseOwner (world.leases lease)) (leaseOwner next) middle) :
    Conserves world { middle with leases := Function.update middle.leases lease next } := by
  intro owner
  have counts := counted.counts owner
  have moved := held_lease middle lease next owner
  rw [counted_held counted owner,counted.leases] at moved
  rw [counted.leases]
  show (middle.allocations owner).openCount.toNat + held world owner = _
  omega

omit [Fintype ι] [Fintype κ] [DecidableEq α] [DecidableEq ι] [DecidableEq κ] in
theorem shownBy_outputs {world left : World ι κ α} (same : left.outputs = world.outputs) (state : ι) (owner : Option α)
    (is : ShownBy world state owner) : ShownBy left state owner := by
  unfold ShownBy
  rw [same]
  exact is

omit [Fintype ι] [Fintype κ] [DecidableEq ι] [DecidableEq κ] in
theorem recounted_closeActive : Gives (closeActive lease) world (Recounted world (leaseOwner (world.leases lease)) none) := by
  unfold closeActive
  rw [gives_bind,gives_get,gives_ite,gives_pure]
  refine ⟨fun idle => ⟨nofun,fun _ => ⟨rfl,rfl,fun owner => ?_⟩⟩,fun active => ?_⟩
  · rw [leaseOwner,if_neg idle]
  rw [leaseOwner,if_pos (not_not.mp active)]
  exact recounted_close world (world.leases lease).owner

omit [DecidableEq ι] in
private theorem steady_leaseRetire : Gives (leaseRetire lease) world (Steady world) := by
  unfold leaseRetire
  rw [gives_bind,gives_get,gives_ite,gives_pure]
  refine ⟨fun _ => steady_same world false,fun active => ?_⟩
  refine recounted_then (recounted_close world (world.leases lease).owner) (steady_same world false) (fun middle counted => ?_)
  refine ⟨⟨nofun,conserves_lease ?_⟩,fun other owner is => shownBy_outputs counted.outputs other owner is⟩
  rw [leaseOwner,if_pos (not_not.mp active)]
  exact counted

omit [DecidableEq ι] in
private theorem steady_leaseCapture (generation : U32) (view : Option View) (owner : Option α) :
    Gives (leaseCapture lease generation fence view owner) world (Steady world) := by
  unfold leaseCapture
  rw [gives_bind,gives_get]
  cases view with
  | none => exact steady_same world false
  | some view =>
  cases owner with
  | none => exact steady_same world false
  | some owner =>
  simp only
  rw [gives_ite,gives_pure]
  refine ⟨fun _ => steady_same world false,fun free => ?_⟩
  have idle := (not_or.mp (not_or.mp (not_or.mp free).2).2).1
  refine recounted_then (recounted_open world owner) (steady_same world false) (fun middle counted => ?_)
  refine ⟨⟨nofun,conserves_lease ?_⟩,fun other owner is => shownBy_outputs counted.outputs other owner is⟩
  rw [leaseOwner,if_neg idle]
  exact counted

omit [DecidableEq ι] in
theorem moved_lease {world middle : World ι κ α} {lease : κ} (next : Lease α)
    (counted : Counted world (leaseOwner (world.leases lease)) none middle) (owner : α) :
    (middle.allocations owner).openCount.toNat + held world owner + holds (leaseOwner next) owner =
      (world.allocations owner).openCount.toNat + held { middle with leases := Function.update middle.leases lease next } owner := by
  have counts := counted.counts owner
  have moved := held_lease middle lease next owner
  rw [counted_held counted owner,counted.leases] at moved
  rw [holds_none] at counts
  rw [counted.leases]
  omega

def next (output : Output α) : Lease α := ⟨outputVersion,true,output.generation,output.fence,output.view,output.owner⟩

/-- What a transfer leaves: the output is the lease's, and the other outputs stay shown. -/
private theorem fair_transferToDisplay : Gives (transferToDisplay state lease fence) world (fun done left => Fair world done left ∧
    ∀ other owner, ShownBy world other owner → ShownBy left other owner ∨
      other = state ∧ (left.leases lease).active = true ∧ (left.leases lease).owner = owner) := by
  have unchanged : Fair world false world ∧ ∀ other owner, ShownBy world other owner → ShownBy world other owner ∨
      other = state ∧ (world.leases lease).active = true ∧ (world.leases lease).owner = owner :=
    ⟨(steady_same world false).toFair,fun _ _ is => .inl is⟩
  unfold transferToDisplay
  rw [gives_bind,gives_get,gives_ite,gives_pure]
  refine ⟨fun _ => unchanged,fun goes => ?_⟩
  have latched := not_not.mp (not_or.mp goes).1
  refine recounted_then (recounted_closeActive world lease) unchanged (fun middle counted => ?_)
  refine ⟨⟨nofun,fun owner => ?_⟩,fun other owner is => ?_⟩
  · have live : outputOwner (world.outputs state) = (world.outputs state).owner := by
      rw [outputOwner,if_neg (by rw [latched]; exact nofun)]
    have given := moved_lease (next (world.outputs state)) counted owner
    have gone := held_output { middle with leases := update middle.leases lease (next (world.outputs state)) } state noOutput
      owner
    rw [show outputOwner (noOutput : Output α) = none from rfl,holds_none] at gone
    simp only [counted.outputs,live] at given gone
    show (middle.allocations owner).openCount.toNat + held world owner = (world.allocations owner).openCount.toNat +
      held { middle with
        leases := update middle.leases lease (next (world.outputs state))
        outputs := update middle.outputs state noOutput } owner
    rw [counted.outputs]
    have same : leaseOwner (next (world.outputs state)) = (world.outputs state).owner := rfl
    rw [same] at given
    omega
  by_cases same : other = state
  · subst same
    refine .inr ⟨rfl,?_,?_⟩
    · show (update middle.leases lease (next (world.outputs other)) lease).active = true
      rw [update_self]
      rfl
    show (update middle.leases lease (next (world.outputs other)) lease).owner = owner
    rw [update_self]
    exact is.2
  left
  show shown (update middle.outputs state noOutput other).phase = true ∧
    (update middle.outputs state noOutput other).owner = owner
  rw [update_of_ne same,counted.outputs]
  exact is

omit [DecidableEq ι] in
private theorem steady_leaseMove (source : κ) : Gives (leaseMove lease source) world (Steady world) := by
  unfold leaseMove
  rw [gives_bind,gives_get,gives_ite,gives_pure]
  refine ⟨fun _ => steady_same world false,fun goes => ?_⟩
  obtain ⟨apart,goes⟩ := not_or.mp goes
  refine recounted_then (recounted_closeActive world lease) (steady_same world false) (fun middle counted => ?_)
  refine ⟨⟨nofun,fun owner => ?_⟩,fun other owner is => shownBy_outputs counted.outputs other owner is⟩
  have given := moved_lease (world.leases source) counted owner
  have gone := held_lease { middle with leases := update middle.leases lease (world.leases source) } source noLease owner
  rw [show leaseOwner (noLease : Lease α) = none from rfl,holds_none] at gone
  have same : update middle.leases lease (world.leases source) source = world.leases source := by
    rw [update_of_ne (Ne.symm apart),counted.leases]
  simp only [same] at gone
  show (middle.allocations owner).openCount.toNat + held world owner = (world.allocations owner).openCount.toNat +
    held { middle with
      leases := update (update middle.leases lease (world.leases source)) source noLease } owner
  omega

omit [DecidableEq ι] [DecidableEq κ] in
theorem steady_given {β : Type} (pointer : Option β) {action : β → OutputAction ι κ α Bool}
    (steady : ∀ target, Gives (action target) world (Steady world)) : Gives (given pointer action) world (Steady world) := by
  cases pointer with
  | none => exact steady_same world false
  | some target => exact steady target

/-- What is shown is given up to a display lease, or resolved. -/
def Releases (state : ι) (owner : Option α) (request : Request ι κ α) (left : World ι κ α) : Prop :=
  (∃ lease fence, request = .transferToDisplay (some state) (some lease) fence ∧
    (left.leases lease).active = true ∧ (left.leases lease).owner = owner) ∨
  ∃ fence sequence, request = .resolveUnknown (some state) fence sequence

structure Leaves (request : Request ι κ α) (world : World ι κ α) (done : Bool) (left : World ι κ α) : Prop extends
    Fair world done left where
  shown : ∀ state owner, ShownBy world state owner → ShownBy left state owner ∨ done = true ∧ Releases state owner request left

omit [DecidableEq ι] [DecidableEq κ] in
theorem Steady.leaves {request : Request ι κ α} {world left : World ι κ α} {done : Bool} (steady : Steady world done left) :
    Leaves request world done left := ⟨steady.toFair,fun state owner is => .inl (steady.shown state owner is)⟩

omit [DecidableEq ι] [DecidableEq κ] in
theorem leaves_given {β : Type} {request : Request ι κ α} (pointer : Option β) {action : β → OutputAction ι κ α Bool}
    (steady : ∀ target, Gives (action target) world (Steady world)) : Gives (given pointer action) world (Leaves request world) :=
  (steady_given world pointer steady).mono (fun _ _ => Steady.leaves)

theorem leaves_act (request : Request ι κ α) : Gives (act request) world (Leaves request world) := by
  cases request with
  | capture state generation fence view owner =>
    exact leaves_given world state (fun state => steady_capture world state fence generation view owner)
  | markReleased state fence =>
    exact leaves_given world state (fun state => steady_markReleased world state fence)
  | markPacketRetired state fence =>
    exact leaves_given world state (fun state => steady_markPacketRetired world state fence)
  | markNotified state fence =>
    exact leaves_given world state (fun state => steady_markNotified world state fence)
  | recordAccess state fence status =>
    exact leaves_given world state (fun state => steady_recordAccess world state fence status)
  | beginPresent state fence =>
    exact leaves_given world state (fun state => steady_beginPresent world state fence)
  | markPublished state fence sequence =>
    exact leaves_given world state (fun state => steady_markPublished world state fence sequence)
  | markLatched state fence sequence =>
    exact leaves_given world state (fun state => steady_markLatched world state fence sequence)
  | recordPresentation state fence status =>
    exact leaves_given world state (fun state => steady_recordPresentation world state fence status)
  | markOwnershipUnknown state fence sequence status =>
    exact leaves_given world state (fun state => steady_markOwnershipUnknown world state fence sequence status)
  | resolveUnknown state fence sequence =>
    cases state with
    | none => exact (steady_same world false).leaves
    | some state =>
    refine (fair_resolveUnknown world state fence sequence).mono (fun done left gives => ⟨gives.1,fun other owner is => ?_⟩)
    by_cases same : other = state
    · cases done with
      | false => exact .inl (shownBy_outputs (congrArg World.outputs (gives.1.refused rfl)) other owner is)
      | true => exact .inr ⟨rfl,.inr ⟨fence,sequence,same ▸ rfl⟩⟩
    exact .inl (gives.2 other owner same is)
  | transferToDisplay state lease fence =>
    cases state with
    | none => exact (steady_same world false).leaves
    | some state =>
    cases lease with
    | none => exact (steady_same world false).leaves
    | some lease =>
    refine (fair_transferToDisplay world state fence lease).mono (fun done left gives => ⟨gives.1,fun other owner is => ?_⟩)
    cases done with
    | false => exact .inl (shownBy_outputs (congrArg World.outputs (gives.1.refused rfl)) other owner is)
    | true =>
    refine (gives.2 other owner is).imp_right (fun given => ⟨rfl,.inl ⟨lease,fence,?_,given.2⟩⟩)
    rw [given.1]
  | abort state fence =>
    exact leaves_given world state (fun state => steady_abort world state fence)
  | leaseCapture lease generation fence view owner =>
    exact leaves_given world lease (fun lease => steady_leaseCapture world fence lease generation view owner)
  | leaseMove destination source =>
    exact leaves_given world destination (fun destination => steady_given world source (fun source =>
      steady_leaseMove world destination source))
  | leaseRetire lease =>
  exact leaves_given world lease (fun lease => steady_leaseRetire world lease)

/-- An output stays with its owner until it is given to a display lease or resolved. -/
def StaysShown (state : ι) (owner : Option α) : List (Request ι κ α) → World ι κ α → Prop
  | [],world => ShownBy world state owner
  | request :: rest,world => ((act request).run world).1 = true ∧ Releases state owner request ((act request).run world).2 ∨
    StaysShown state owner rest ((act request).run world).2

private theorem staysShown {state : ι} {owner : Option α} (requests : List (Request ι κ α)) {world : World ι κ α}
    (is : ShownBy world state owner) : StaysShown state owner requests world := by
  induction requests generalizing world with
  | nil => exact is
  | cons request rest ih =>
  rcases (leaves_act world request).shown state owner is with stays | releases
  · exact .inr (ih stays)
  exact .inl releases

/-- What holds of outputs and leases in every run. -/
structure LeasesKept (allocations : α → Allocation) (world : World ι κ α) : Prop where
  counts : ∀ owner, (world.allocations owner).openCount.toNat = (allocations owner).openCount.toNat + held world owner
  refused : ∀ request, Gives (act request) world (fun done left => done = false → left = world)
  shown : ∀ state, (world.outputs state).phase = .publishedPending ∨ (world.outputs state).phase = .latched →
    ∀ requests, StaysShown state (world.outputs state).owner requests world

theorem leases_kept (allocations : α → Allocation) (requests : List (Request ι κ α)) :
    LeasesKept allocations (runAll act requests (noOutputs allocations)) := by
  have counts : ∀ owner, ((runAll act requests (noOutputs allocations : World ι κ α)).allocations owner).openCount.toNat =
      (allocations owner).openCount.toNat + held (runAll act requests (noOutputs allocations)) owner := by
    refine @runAll_invariant (World ι κ α) Bool (Request ι κ α) act (fun world => ∀ owner,
      (world.allocations owner).openCount.toNat = (allocations owner).openCount.toNat + held world owner)
      (fun request world before => ?_) requests (noOutputs allocations) (fun owner => ?_)
    · refine (leaves_act world request).mono (fun done left leaves owner => ?_)
      have now := leaves.conserves owner
      rw [before owner] at now
      omega
    have empty : held (noOutputs allocations : World ι κ α) owner = 0 := by
      simp [held,noOutputs,outputOwner,leaseOwner,noOutput,noLease,holders_none]
    rw [empty]
    rfl
  refine ⟨counts,fun request => (leaves_act _ request).refused,fun state visible rest => staysShown rest ⟨?_,rfl⟩⟩
  rcases visible with pending | latched
  · rw [pending]
    rfl
  · rw [latched]
    rfl

end held

end WindowsOnM1.OutputLeases
