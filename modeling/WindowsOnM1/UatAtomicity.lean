import WindowsOnM1.UatBatches

/-!
Batches that write all of their ranges or nothing. A replacement that its validation
accepts always goes through; a batch of unmaps stops where a range has lost a leaf to an
earlier one, which its validation does not look for.
-/
namespace WindowsOnM1.UatAtomicity
open UatModel UatEncoding UatTree UatMap
open UatOperations UatTranslation UatTables
open UatFailures UatBatches

/-- A replacement that its validation accepts. -/
structure Replaceable (context : Nat) (roots : UatRoots) (inventory : UatInventory) (replacement : UatReplacement)
    (half : UatHalf) : Prop where
  validated : validateRange context replacement.old.virtualAddress replacement.physicalAddress replacement.old.length
    replacement.protection = .ok half
  valid : Valid context roots replacement.old inventory half
  encoded : ∀ turn < pageTurns replacement.old.length,
    ∃ descriptor, encodePageDescriptor context (replacement.physicalAt turn) replacement.protection = .ok descriptor

variable {context : Nat} {replacement : UatReplacement}

theorem replacementDescriptor_ok {turn : Nat} {descriptor : U64}
    (encoded : encodePageDescriptor context (replacement.physicalAt turn) replacement.protection = .ok descriptor) :
    replacementDescriptor context replacement turn = descriptor := by
  rw [replacementDescriptor,encoded]

variable {roots : UatRoots} {inventory : UatInventory} {half : UatHalf}

theorem Replaceable.descriptor_ne_zero (ready : Replaceable context roots inventory replacement half) {turn : Nat}
    (inside : turn < pageTurns replacement.old.length) : replacementDescriptor context replacement turn ≠ 0 := by
  obtain ⟨descriptor,encoded⟩ := ready.encoded turn inside
  rw [replacementDescriptor_ok encoded]
  exact ne_zero_of_descriptor (encodePageDescriptor_spec encoded).2

/-- The inventory after one turn of a replacement. -/
def replacedBy (context mappingIndex root : Nat) (replacement : UatReplacement) (inventory : UatInventory) : UatInventory :=
  { inventory with
    pages := writeLeaves root replacement.old.virtualAddress (replacementDescriptor context replacement)
      (pageTurns replacement.old.length) 0 inventory.pages
    mappings := inventory.mappings.modify mappingIndex (fun mapping => { mapping with
      physicalAddress := replacement.physicalAddress, protection := replacement.protection
      physicalStride := replacement.stride, assigned := replacement.physicalAt }) }

/-- What it leaves: the leaves of the range hold the new descriptors, and no other one changes. -/
structure Replaced (context : Nat) (roots : UatRoots) (replacement : UatReplacement) (inventory left : UatInventory) : Prop where
  named : ∀ root va turn, NamesAt roots replacement.old turn root va →
    leafValue left.pages root va = replacementDescriptor context replacement turn
  others : ∀ root va, ¬ Names roots replacement.old root va → leafValue left.pages root va = leafValue inventory.pages root va
  records : ∀ range, ¬ (range.virtualAddress = replacement.old.virtualAddress ∧ range.length = replacement.old.length) →
    ∀ mapping ∈ inventory.mappings, exactMapping context range mapping = true → mapping ∈ left.mappings

theorem Replaceable.step (ready : Replaceable context roots inventory replacement half) (held : Held inventory)
    (rest : List UatReplacement) : ∃ left, replaceRanges context roots (replacement :: rest) inventory =
      replaceRanges context roots rest left ∧ Held left ∧ Replaced context roots replacement inventory left := by
  have tree := held.kept.linked.tree
  obtain ⟨_,valid⟩ := validateRange_spec ready.validated
  obtain ⟨root,page,found,here,address,isRoot⟩ := ready.valid.findPage tree
  obtain ⟨mapping,mem,exact⟩ := ready.valid.recorded
  have search : ∃ i, inventory.mappings.findIdx? (exactMapping context replacement.old) = some i := by
    rw [← Option.isSome_iff_exists,List.findIdx?_isSome,List.any_eq_true]
    exact ⟨mapping,mem,exact⟩
  obtain ⟨i,search⟩ := search
  have tables : ∀ turn, 0 ≤ turn → turn < 0 + pageTurns replacement.old.length →
      leafTable inventory.pages page.physicalAddress (pageAddress replacement.old.virtualAddress turn) ≠ 0 := by
    intro turn _ before
    rw [address]
    exact leafTable_ne_zero tree (ready.valid.mapped turn (by omega))
  have written := writeLeaves_spec valid (replacementDescriptor context replacement) _ 0 tree here isRoot
    (Nat.le_of_eq (Nat.zero_add _)) tables
  have linked := held.kept.linked.written valid written (Nat.le_refl _) (fun turn inside => ready.descriptor_ne_zero inside)
  have ranged : Ranged (replaceRanges context roots [replacement] inventory).2.mappings :=
    replaceRanges_ranged context roots held.ranged (fun other single => by
      rw [List.mem_singleton.mp single]
      exact ⟨half,ready.validated⟩)
  have turn_eq : ∀ list, replaceRanges context roots (replacement :: list) inventory =
      replaceRanges context roots list (replacedBy context i root replacement inventory) := by
    intro list
    rw [replaceRanges,ready.validated]
    rw [search,found]
    rfl
  rw [turn_eq] at ranged
  refine ⟨_,turn_eq rest,⟨⟨linked,held.kept.accounted.reshape written.shape⟩,ranged⟩,fun root' va turn names => ?_,
    fun root' va other => ?_,fun range different record among isExact => ?_⟩
  · have named := (names_iff valid).mp ⟨turn,names⟩
    obtain ⟨_,inside,same⟩ := names
    rw [valid.page_key inside] at same
    rw [replacedBy,written.leaf,address,if_pos named,← same,Nat.add_sub_cancel_left]
  · rw [replacedBy,written.leaf,address,if_neg (fun names => other ((names_iff valid).mpr names))]
  obtain ⟨j,there⟩ := List.getElem?_of_mem among
  have apart : i ≠ j := by
    rintro rfl
    obtain ⟨inside,isOld,_⟩ := List.findIdx?_eq_some_iff_getElem.mp search
    rw [Option.some.inj ((List.getElem?_eq_getElem inside).symm.trans there)] at isOld
    obtain ⟨_,start,_,length,_⟩ := exactMapping_iff.mp isOld
    obtain ⟨_,start',_,length',_⟩ := exactMapping_iff.mp isExact
    exact different ⟨start'.symm.trans start,length'.symm.trans length⟩
  refine List.mem_of_getElem? (i := j) ?_
  rw [replacedBy,List.getElem?_modify,there]
  simp [apart]

theorem Replaced.other {left : UatInventory} {other : UatReplacement}
    {half' : UatHalf} (ready : Replaceable context roots inventory replacement half)
    (replaced : Replaced context roots replacement inventory left) (ready' : Replaceable context roots inventory other half')
    (different : ¬ (other.old.virtualAddress = replacement.old.virtualAddress ∧ other.old.length = replacement.old.length)) :
    Replaceable context roots left other half' := by
  refine ⟨ready'.validated,⟨ready'.valid.validated,?_,fun turn inside => ?_⟩,ready'.encoded⟩
  · obtain ⟨record,mem,exact⟩ := ready'.valid.recorded
    exact ⟨record,replaced.records other.old different record mem exact,exact⟩
  by_cases names : Names roots replacement.old (roots.half half') (pageAddress other.old.virtualAddress turn)
  · obtain ⟨turn',names⟩ := names
    rw [replaced.named _ _ turn' names]
    exact ready.descriptor_ne_zero names.2.1
  rw [replaced.others _ _ names]
  exact ready'.valid.mapped turn inside

/-- A replacement of ranges goes through, and each leaf holds what one of its ranges wrote. -/
theorem replaceRanges_all : ∀ {replacements : List UatReplacement} {inventory : UatInventory},
    Held inventory → (∀ replacement ∈ replacements, ∃ half, Replaceable context roots inventory replacement half) →
    replacements.Pairwise (fun first second =>
      ¬ (second.old.virtualAddress = first.old.virtualAddress ∧ second.old.length = first.old.length)) →
    (replaceRanges context roots replacements inventory).1 = .Ok ∧ Held (replaceRanges context roots replacements inventory).2 ∧
      (∀ root va, (∃ replacement ∈ replacements, Names roots replacement.old root va) →
        ∃ replacement ∈ replacements, ∃ turn, NamesAt roots replacement.old turn root va ∧
          leafValue (replaceRanges context roots replacements inventory).2.pages root va =
            replacementDescriptor context replacement turn) ∧
      (∀ root va, (∀ replacement ∈ replacements, ¬ Names roots replacement.old root va) →
        leafValue (replaceRanges context roots replacements inventory).2.pages root va = leafValue inventory.pages root va) := by
  intro replacements
  induction replacements with
  | nil =>
    exact fun held _ _ => ⟨rfl,held,fun root va named => by
      obtain ⟨_,impossible,_⟩ := named
      exact absurd impossible List.not_mem_nil,fun _ _ _ => rfl⟩
  | cons replacement rest ih =>
  intro inventory held ready different
  obtain ⟨first,others⟩ := List.pairwise_cons.mp different
  obtain ⟨half,here⟩ := ready replacement List.mem_cons_self
  obtain ⟨left,step,held',replaced⟩ := here.step held rest
  rw [step]
  obtain ⟨isOk,kept,named,unnamed⟩ := ih held' (fun other later => by
    obtain ⟨half',ready'⟩ := ready other (List.mem_cons_of_mem _ later)
    exact ⟨half',replaced.other here ready' (first other later)⟩) others
  refine ⟨isOk,kept,fun root va among => ?_,fun root va absent => ?_⟩
  · by_cases again : ∃ second ∈ rest, Names roots second.old root va
    · obtain ⟨writer,later,turn,names,value⟩ := named root va again
      exact ⟨writer,List.mem_cons_of_mem _ later,turn,names,value⟩
    obtain ⟨writer,mem,turn,names⟩ := among
    rcases List.mem_cons.mp mem with rfl | later
    · refine ⟨writer,List.mem_cons_self,turn,names,?_⟩
      rw [unnamed root va (fun second later names' => again ⟨second,later,names'⟩)]
      exact replaced.named root va turn names
    exact absurd ⟨writer,later,turn,names⟩ again
  rw [unnamed root va (fun second later => absent second (List.mem_cons_of_mem _ later))]
  exact replaced.others root va (absent replacement List.mem_cons_self)

/-- What a replacement of ranges is for: each of their pages has the descriptor of its new
    page with the new protection, and all other addresses keep their entries. -/
structure ReplacesAll (context : Nat) (roots : UatRoots) (replacements : List UatReplacement) (inventory left : UatInventory) :
    Prop where
  named : ∀ replacement ∈ replacements, ∀ turn root va, NamesAt roots replacement.old turn root va →
    encodePageDescriptor context (replacement.physicalAt turn) replacement.protection = .ok (walk left root va)
  others : ∀ root va, (∀ replacement ∈ replacements, ¬ Names roots replacement.old root va) →
    walk left root va = walk inventory root va

/-- Ranges with a common leaf put the same descriptor there. -/
def Alike (context : Nat) (roots : UatRoots) (replacements : List UatReplacement) : Prop :=
  ∀ first ∈ replacements, ∀ second ∈ replacements, ∀ turn turn' root va,
    NamesAt roots first.old turn root va → NamesAt roots second.old turn' root va →
      encodePageDescriptor context (first.physicalAt turn) first.protection =
        encodePageDescriptor context (second.physicalAt turn') second.protection

variable {replacements : List UatReplacement}

theorem replacesAll_iff
    (held : Held inventory) (ready : ∀ replacement ∈ replacements, ∃ half, Replaceable context roots inventory replacement half)
    (different : replacements.Pairwise (fun first second =>
      ¬ (second.old.virtualAddress = first.old.virtualAddress ∧ second.old.length = first.old.length))) :
    ReplacesAll context roots replacements inventory (replaceRanges context roots replacements inventory).2 ↔
      Alike context roots replacements := by
  obtain ⟨_,held',named,unnamed⟩ := replaceRanges_all held ready different
  constructor
  · intro all first mem second mem' turn turn' root va names names'
    exact (all.named first mem turn root va names).trans (all.named second mem' turn' root va names').symm
  intro alike
  refine ⟨fun replacement mem turn root va names => ?_,fun root va absent => ?_⟩
  · obtain ⟨writer,among,turn',names',value⟩ := named root va ⟨replacement,mem,turn,names⟩
    obtain ⟨half,isReady⟩ := ready writer among
    obtain ⟨descriptor,encoded⟩ := isReady.encoded turn' names'.2.1
    rw [walk_eq held'.kept.linked.tree,value,replacementDescriptor_ok encoded,← encoded]
    exact alike replacement mem writer among turn turn' root va names names'
  rw [walk_eq held'.kept.linked.tree,walk_eq held.kept.linked.tree]
  exact unnamed root va absent

theorem Accepted.replaceable {earlier : List UatRange} (tree : Tree inventory.pages)
    (accepted : Accepted context roots inventory earlier replacements) (mem : replacement ∈ replacements)
    (aligned : ∀ {half}, ValidRange half replacement.old.virtualAddress replacement.physicalAddress replacement.old.length →
      ∀ turn < pageTurns replacement.old.length, replacement.physicalAt turn &&& pageMask = 0 ∧
        replacement.physicalAt turn < physicalLimit) : ∃ half, Replaceable context roots inventory replacement half := by
  obtain ⟨exact,half,validated⟩ := accepted.valid replacement mem
  obtain ⟨⟨bits,allowed⟩,valid⟩ := validateRange_spec validated
  obtain ⟨half',old⟩ := validateExactMapping_ok tree exact
  obtain rfl : half' = half := InHalf.unique old.range_valid.start valid.start
  refine ⟨half',validated,old,fun turn inside => ?_⟩
  obtain ⟨isAligned,small⟩ := aligned valid turn inside
  exact ⟨_,encodePageDescriptor_ok allowed isAligned small⟩

/-- A call that changes nothing unless it is successful, and then did what it is for. -/
structure AllOrNothing (inventory : UatInventory) (answer : UatResult × UatInventory) (done : UatInventory → Prop) : Prop where
  nothing : answer.1 ≠ .Ok → SameStorage inventory answer.2
  all : answer.1 = .Ok → done answer.2

/-- The batch of unmaps is refused before its first write. -/
def UnmapRefused (context : Nat) (roots : UatRoots) (ranges : List UatRange) (inventory : UatInventory) : Prop :=
  (ranges = [] ∨ ¬ checkOwnerArguments inventory) ∨ ∃ range ∈ ranges, validateExactMapping context roots range inventory ≠ .Ok

theorem firstFailure_ok {check : UatRange → UatResult} : ∀ {ranges : List UatRange},
    firstFailure check ranges = .Ok ↔ ∀ range ∈ ranges, check range = .Ok := by
  intro ranges
  induction ranges with
  | nil => simp [firstFailure]
  | cons range rest ih =>
  rw [firstFailure,List.forall_mem_cons]
  split
  · rename_i first
    rw [ih]
    exact ⟨fun later => ⟨first,later⟩,fun both => both.2⟩
  rename_i first
  exact ⟨fun isOk => absurd isOk first,fun both => absurd both.1 first⟩

theorem unmapBatch_iff (held : Held inventory) (context : Nat) (roots : UatRoots) (ranges : List UatRange) :
    AllOrNothing inventory (unmapBatch context roots ranges inventory) (UnmapsAll roots ranges inventory) ↔
      UnmapRefused context roots ranges inventory ∨ Separate roots ranges := by
  have unchanged : ∀ {result : UatResult}, result ≠ .Ok →
      AllOrNothing inventory (result,inventory) (UnmapsAll roots ranges inventory) :=
    fun failed => ⟨fun _ => .refl inventory,fun isOk => absurd isOk failed⟩
  unfold unmapBatch UnmapRefused
  split
  · rename_i arguments
    exact ⟨fun _ => .inl (.inl arguments),fun _ => unchanged (by decide)⟩
  rename_i arguments
  obtain ⟨nonempty,owner⟩ := not_or.mp arguments
  by_cases accepted : firstFailure (fun range => validateExactMapping context roots range inventory) ranges = .Ok
  · rw [accepted]
    have accepted := firstFailure_ok.mp accepted
    have valid : ∀ range ∈ ranges, ∃ half, Valid context roots range inventory half :=
      fun range mem => validateExactMapping_ok held.kept.linked.tree (accepted range mem)
    have notRefused : ¬ ((ranges = [] ∨ ¬ checkOwnerArguments inventory) ∨
        ∃ range ∈ ranges, validateExactMapping context roots range inventory ≠ .Ok) := by
      rintro (bad | ⟨range,mem,failed⟩)
      · exact arguments bad
      exact failed (accepted range mem)
    constructor
    · intro atomic
      refine .inr ?_
      by_cases isOk : (unmapRanges context roots ranges inventory).1 = .Ok
      · exact (unmapRanges_separate held isOk).1
      -- the first range was unmapped
      obtain ⟨range,rest,rfl⟩ := List.exists_cons_of_ne_nil nonempty
      obtain ⟨half,here⟩ := valid range List.mem_cons_self
      obtain ⟨mappingIndex,root,mapping,unmapping⟩ := here.unmapping held (not_not.mp owner)
      have same := (atomic.nothing isOk).mappings
      have shorter := unmapRanges_mappings context roots rest
        (unmappedTo range.virtualAddress range.length mappingIndex root inventory)
      rw [unmapRanges,unmapping.unmap_eq] at same
      rw [same] at shorter
      have inside := (List.getElem?_eq_some_iff.mp unmapping.here).1
      simp only [unmappedTo,List.length_eraseIdx,if_pos inside] at shorter
      omega
    rintro (refused | separate)
    · exact absurd refused notRefused
    obtain ⟨isOk,all⟩ := unmapRanges_all held (not_not.mp owner) valid separate
    exact ⟨fun failed => absurd isOk failed,fun _ => all⟩
  have refused : ∃ range ∈ ranges, validateExactMapping context roots range inventory ≠ .Ok := by
    rw [firstFailure_ok] at accepted
    simpa using accepted
  refine ⟨fun _ => .inl (.inr refused),fun _ => ?_⟩
  cases failed : firstFailure (fun range => validateExactMapping context roots range inventory) ranges <;>
    first | exact absurd failed accepted | exact unchanged (by decide)

/-- The replacements of `AppleAgxUatReplaceBatchWithPage`. -/
def pageReplacements (ranges : List UatRange) (page : U64) (protection : UatProtection) : List UatReplacement :=
  ranges.map (fun range => ⟨range,fun _ => page,page,protection,0⟩)

/-- The replacements of `AppleAgxUatReplaceBatch`. -/
def pairReplacements (pairs : List (UatRange × UatRange)) : List UatReplacement :=
  pairs.map (fun pair => ⟨pair.1,fun turn => pageAddress pair.2.physicalAddress turn,pair.2.physicalAddress,pair.2.protection,
    pageSize⟩)

private theorem replaceBatchWithPage_atomic (held : Held inventory) (context : Nat) (roots : UatRoots)
    (ranges : List UatRange) (page : U64) (protection : UatProtection) :
    AllOrNothing inventory (replaceBatchWithPage context roots ranges page protection inventory)
      (ReplacesAll context roots (pageReplacements ranges page protection) inventory) := by
  have unchanged : ∀ {result : UatResult}, result ≠ .Ok → AllOrNothing inventory (result,inventory)
      (ReplacesAll context roots (pageReplacements ranges page protection) inventory) :=
    fun failed => ⟨fun _ => .refl inventory,fun isOk => absurd isOk failed⟩
  unfold replaceBatchWithPage
  dsimp only
  split
  · exact unchanged (by decide)
  split
  · exact unchanged (by decide)
  split
  · rename_i valid
    have accepted := validateReplacements_accepted valid
    have ready : ∀ replacement ∈ pageReplacements ranges page protection,
        ∃ half, Replaceable context roots inventory replacement half := by
      intro replacement mem
      obtain ⟨range,_,rfl⟩ := List.mem_map.mp mem
      exact Accepted.replaceable held.kept.linked.tree accepted mem (fun validRange _ _ => ValidRange.page_aligned validRange)
    refine ⟨fun failed => absurd (replaceRanges_all held ready accepted.different).1 failed,fun _ => ?_⟩
    refine (replacesAll_iff held ready accepted.different).mpr (fun first mem second mem' _ _ _ _ _ _ => ?_)
    obtain ⟨_,_,rfl⟩ := List.mem_map.mp mem
    obtain ⟨_,_,rfl⟩ := List.mem_map.mp mem'
    rfl
  rename_i failed
  exact unchanged failed

/-- The batch of replacements is refused before its first write. -/
def ReplaceRefused (context : Nat) (roots : UatRoots) (pairs : List (UatRange × UatRange)) (inventory : UatInventory) : Prop :=
  (pairs = [] ∨ ¬ checkOwnerArguments inventory) ∨ validatePairs context roots inventory pairs [] ≠ .Ok

theorem replaceBatch_iff (held : Held inventory) (context : Nat) (roots : UatRoots)
    (pairs : List (UatRange × UatRange)) : AllOrNothing inventory (replaceBatch context roots pairs inventory)
        (ReplacesAll context roots (pairReplacements pairs) inventory) ↔
      ReplaceRefused context roots pairs inventory ∨ Alike context roots (pairReplacements pairs) := by
  have unchanged : ∀ {result : UatResult}, result ≠ .Ok → AllOrNothing inventory (result,inventory)
      (ReplacesAll context roots (pairReplacements pairs) inventory) :=
    fun failed => ⟨fun _ => .refl inventory,fun isOk => absurd isOk failed⟩
  unfold replaceBatch ReplaceRefused
  split
  · rename_i arguments
    exact ⟨fun _ => .inl (.inl arguments),fun _ => unchanged (by decide)⟩
  rename_i arguments
  by_cases valid : validatePairs context roots inventory pairs [] = .Ok
  · rw [valid]
    have accepted := validatePairs_accepted (fun range => pageAddress range.physicalAddress) valid
    have ready : ∀ replacement ∈ pairReplacements pairs, ∃ half, Replaceable context roots inventory replacement half := by
      intro replacement mem
      obtain ⟨pair,_,rfl⟩ := List.mem_map.mp mem
      exact Accepted.replaceable held.kept.linked.tree accepted mem (fun validRange turn inside =>
        validRange.physical_aligned inside)
    have isOk := (replaceRanges_all held ready accepted.different).1
    have all := replacesAll_iff held ready accepted.different
    constructor
    · exact fun atomic => .inr (all.mp (atomic.all isOk))
    rintro (refused | alike)
    · rcases refused with bad | failed
      · exact absurd bad arguments
      exact absurd rfl failed
    exact ⟨fun failed => absurd isOk failed,fun _ => all.mpr alike⟩
  refine ⟨fun _ => .inl (.inr valid),fun _ => ?_⟩
  cases failed : validatePairs context roots inventory pairs [] <;>
    first | exact absurd failed valid | exact unchanged (by decide)

/-- In every reachable inventory, a batch of unmaps is all or nothing exactly when it is refused or no two of its ranges have
    a common leaf; a replacement by one page always is; and a replacement by pages exactly when it is refused or its ranges
    write their common leaves alike. -/
theorem batches_all_or_nothing (allocator : UatAllocator) (pageCapacity mappingCapacity : Nat) (ops : List Op) :
    let inventory := (run allocator (initial pageCapacity mappingCapacity) ops).inventory
    (∀ context roots ranges,
      AllOrNothing inventory (unmapBatch context roots ranges inventory) (UnmapsAll roots ranges inventory) ↔
        UnmapRefused context roots ranges inventory ∨ Separate roots ranges) ∧
    (∀ context roots ranges page protection,
      AllOrNothing inventory (replaceBatchWithPage context roots ranges page protection inventory)
        (ReplacesAll context roots (pageReplacements ranges page protection) inventory)) ∧
    (∀ context roots pairs,
      AllOrNothing inventory (replaceBatch context roots pairs inventory)
          (ReplacesAll context roots (pairReplacements pairs) inventory) ↔
        ReplaceRefused context roots pairs inventory ∨ Alike context roots (pairReplacements pairs)) := by
  intro inventory
  have held : Held inventory := run_held (initial_held pageCapacity mappingCapacity)
  exact ⟨unmapBatch_iff held,replaceBatchWithPage_atomic held,replaceBatch_iff held⟩

/-- A batch that names one range twice unmaps it and then fails. -/
theorem repeated_range_half_unmapped : ¬ ∀ (allocator : UatAllocator) (pageCapacity mappingCapacity : Nat) (ops : List Op)
    (context : Nat) (roots : UatRoots) (ranges : List UatRange),
    AllOrNothing (run allocator (initial pageCapacity mappingCapacity) ops).inventory
      (unmapBatch context roots ranges (run allocator (initial pageCapacity mappingCapacity) ops).inventory)
      (UnmapsAll roots ranges (run allocator (initial pageCapacity mappingCapacity) ops).inventory) := by
  intro claimed
  let range : UatRange := ⟨0x8000,0x100000,0x4000,.GpuSharedReadWrite⟩
  let ops : List Op := [.createAddressSpace 1,.map 1 ⟨0x4000,0x8000⟩ 0x8000 0x100000 0x4000 .GpuSharedReadWrite]
  have atomic := claimed inTurn 8 4 ops 1 ⟨0x4000,0x8000⟩ [range,range]
  have same := congrArg List.length (atomic.nothing (by decide +kernel)).mappings
  have one : (run inTurn (initial 8 4) ops).inventory.mappings.length = 1 := by decide +kernel
  have none : (unmapBatch 1 ⟨0x4000,0x8000⟩ [range,range] (run inTurn (initial 8 4) ops).inventory).2.mappings.length = 0 := by
    decide +kernel
  rw [one,none] at same
  cases same

end WindowsOnM1.UatAtomicity
