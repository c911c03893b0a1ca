import WindowsOnM1.UatOperations

/-!
Runs of operations on one inventory. After every run whose calls name roots of their
own context, a page resolves exactly when a record of its root covers it, and then to
the page and the descriptor that the record assigns.
-/
namespace WindowsOnM1.UatTranslation
open UatModel UatEncoding UatTree UatMap UatPrune List
open BitVec hiding append_assoc cast
open UatRecords UatOperations

variable {pages : List UatPage}

variable {spaces : List Space} {context : Nat} {half : UatHalf}

theorem owns_append {new : Space} {root : U64} : Owns (spaces ++ [new]) context half root ↔
      Owns spaces context half root ∨ (new.1 = context ∧ new.2.half half = root) := by
  simp only [Owns,mem_append,mem_singleton]
  constructor
  · rintro ⟨space,old | rfl,context,root⟩
    · exact .inl ⟨space,old,context,root⟩
    exact .inr ⟨context,root⟩
  rintro (⟨space,old,context,root⟩ | ⟨context,root⟩)
  · exact ⟨space,.inl old,context,root⟩
  exact ⟨new,.inr rfl,context,root⟩

variable {inventory : UatInventory} {allocator : UatAllocator}

/-- What an answer of `createAddressSpace` leaves. -/
private theorem createAddressSpace_sound {left : UatInventory} (sound : Sound spaces inventory)
    {answer : Except UatResult UatRoots} (ran : createAddressSpace context allocator inventory = (answer,left)) :
    match answer with | .error _ => Sound spaces left | .ok roots => Sound (spaces ++ [(context,roots)]) left := by
  unfold createAddressSpace at ran
  split at ran
  · cases ran; exact sound
  split at ran
  · cases ran; exact sound
  split at ran
  · rename_i failed
    cases ran
    obtain ⟨accounted,_,pages,mappings⟩ := allocateRecordedPage_error sound.accounted failed
    refine ⟨?_,accounted⟩
    rw [pages,mappings]
    exact sound.agrees
  rename_i low first allocatedLow
  obtain ⟨accountedLow,rfl,lowPage,keepLow,freshLow,lowPages,lowMappings⟩ :=
    allocateRecordedPage_ok sound.accounted allocatedLow
  split at ran
  · rename_i failed
    cases ran
    obtain ⟨accounted,_,pages,mappings⟩ := allocateRecordedPage_error accountedLow failed
    refine ⟨?_,releaseFrom_accounted accounted _⟩
    simp only [releaseFrom,pages,mappings,lowPages,lowMappings,take_left]
    exact sound.agrees
  rename_i high second allocatedHigh
  obtain ⟨accountedHigh,rfl,highPage,keepHigh,freshHigh,highPages,highMappings⟩ :=
    allocateRecordedPage_ok accountedLow allocatedHigh
  cases ran
  obtain ⟨realLow,_,_,zeroLow⟩ := usable_spec keepLow
  obtain ⟨realHigh,_,_,zeroHigh⟩ := usable_spec keepHigh
  have isLow : addressOf left.pages inventory.pages.length = lowPage.physicalAddress := by
    rw [addressOf,highPages,lowPages,append_assoc,getElem?_append_right (Nat.le_refl _)]
    simp
  have isHigh : addressOf left.pages first.pages.length = highPage.physicalAddress := by
    rw [addressOf,highPages,getElem?_concat_length]
    rfl
  obtain ⟨tree1,leaf1⟩ := sound.tree.append { lowPage with level := 0 } ⟨freshLow,zeroLow,realLow⟩ (Nat.zero_le 2)
  rw [← lowPages] at tree1 leaf1
  obtain ⟨tree2,leaf2⟩ := tree1.append { highPage with level := 0 } ⟨freshHigh,zeroHigh,realHigh⟩ (Nat.zero_le 2)
  rw [← highPages] at tree2 leaf2
  have leaf : ∀ root va, leafValue left.pages root va = leafValue inventory.pages root va :=
    fun root va => (leaf2 root va).trans (leaf1 root va)
  have isRoot : ∀ address, IsRoot left.pages address ↔
      IsRoot inventory.pages address ∨ lowPage.physicalAddress = address ∨ highPage.physicalAddress = address := by
    intro address
    simp only [IsRoot,highPages,lowPages,mem_append,mem_singleton]
    constructor
    · rintro ⟨page,(old | rfl) | rfl,isAddress,level⟩
      · exact .inl ⟨page,old,isAddress,level⟩
      · exact .inr (.inl isAddress)
      exact .inr (.inr isAddress)
    rintro (⟨page,old,isAddress,level⟩ | isAddress | isAddress)
    · exact ⟨page,.inl (.inl old),isAddress,level⟩
    · exact ⟨_,.inl (.inr rfl),isAddress,rfl⟩
    exact ⟨_,.inr rfl,isAddress,rfl⟩
  have apart : lowPage.physicalAddress ≠ highPage.physicalAddress :=
    freshHigh { lowPage with level := 0 } (by rw [lowPages]; simp)
  -- a root that was there is neither of the two new ones
  have old_ne : ∀ {context' half' root}, Owns spaces context' half' root →
      root ≠ lowPage.physicalAddress ∧ root ≠ highPage.physicalAddress := by
    intro context' half' root owns
    obtain ⟨page,mem,rfl,_⟩ := (sound.roots root).mpr ⟨context',half',owns⟩
    exact ⟨freshLow page mem,freshHigh page (by rw [lowPages]; exact mem_append_left _ mem)⟩
  have new_half : ∀ half, (UatRoots.mk lowPage.physicalAddress highPage.physicalAddress).half half =
      lowPage.physicalAddress ∨
      (UatRoots.mk lowPage.physicalAddress highPage.physicalAddress).half half = highPage.physicalAddress := by
    rintro (_ | _)
    · exact .inl rfl
    exact .inr rfl
  simp only [isLow,isHigh]
  refine ⟨?_,accountedHigh⟩
  rw [highMappings,lowMappings]
  refine ⟨tree2,fun address => ?_,?_,fun mapping mem => ?_,sound.apart,fun mapping mem va covers => ?_,
    fun root va there => ?_⟩
  · rw [isRoot,sound.roots]
    constructor
    · rintro (⟨context',half,owns⟩ | isAddress | isAddress)
      · exact ⟨context',half,owns_append.mpr (.inl owns)⟩
      · exact ⟨context,.Ttbr0,owns_append.mpr (.inr ⟨rfl,isAddress⟩)⟩
      exact ⟨context,.Ttbr1,owns_append.mpr (.inr ⟨rfl,isAddress⟩)⟩
    rintro ⟨context',half,owns⟩
    rcases owns_append.mp owns with owns | ⟨_,isAddress⟩
    · exact .inl ⟨context',half,owns⟩
    cases half
    · exact .inr (.inl isAddress)
    exact .inr (.inr isAddress)
  · intro context1 context2 half1 half2 root owns1 owns2
    rcases owns_append.mp owns1 with old1 | ⟨here1,address1⟩ <;> rcases owns_append.mp owns2 with old2 | ⟨here2,address2⟩
    · exact sound.owner old1 old2
    · rcases new_half half2 with new | new <;> rw [new] at address2
      · exact absurd address2.symm (old_ne old1).1
      exact absurd address2.symm (old_ne old1).2
    · rcases new_half half1 with new | new <;> rw [new] at address1
      · exact absurd address1.symm (old_ne old2).1
      exact absurd address1.symm (old_ne old2).2
    refine ⟨here1.symm.trans here2,?_⟩
    cases half1 <;> cases half2
    · rfl
    · exact absurd (address1.trans address2.symm) apart
    · exact absurd (address2.trans address1.symm) apart
    rfl
  · obtain ⟨half,recorded⟩ := sound.records mapping mem
    exact ⟨half,{ recorded with owned := owns_append.mpr (.inl recorded.owned) }⟩
  · rw [leaf]; exact sound.leaves mapping mem va covers
  rw [leaf] at there; exact sound.covered root va there

inductive Op
  | createAddressSpace (context : Nat)
  | map (context : Nat) (roots : UatRoots) (virtualAddress physicalAddress length : U64) (protection : UatProtection)
  | mapPageList (context : Nat) (roots : UatRoots) (virtualAddress : U64) (physicalPages : List U64)
      (counted : physicalPages.length < 2 ^ 32) (protection : UatProtection)
  | unmap (context : Nat) (roots : UatRoots) (virtualAddress length : U64)
  | mapBatch (context : Nat) (roots : UatRoots) (ranges : List UatRange)
  | unmapBatch (context : Nat) (roots : UatRoots) (ranges : List UatRange)
  | replaceBatch (context : Nat) (roots : UatRoots) (pairs : List (UatRange × UatRange))
  | replaceBatchWithPage (context : Nat) (roots : UatRoots) (ranges : List UatRange) (physicalAddress : U64)
      (protection : UatProtection)

/-- The inventory with the address spaces that were created on it. -/
structure UatState where
  inventory : UatInventory
  spaces : List Space
def initial (pageCapacity mappingCapacity : Nat) : UatState := ⟨⟨[],pageCapacity,[],mappingCapacity,0,[],[]⟩,[]⟩

def step (allocator : UatAllocator) (state : UatState) : Op → UatState
  | .createAddressSpace context =>
    match createAddressSpace context allocator state.inventory with
    | (.error _,left) => { state with inventory := left }
    | (.ok roots,left) => ⟨left,state.spaces ++ [(context,roots)]⟩
  | .map context roots virtualAddress physicalAddress length protection => { state with
      inventory := (map context roots virtualAddress physicalAddress length protection allocator state.inventory).2 }
  | .mapPageList context roots virtualAddress physicalPages _ protection => { state with
      inventory := (mapPageList context roots virtualAddress physicalPages protection allocator state.inventory).2 }
  | .unmap context roots virtualAddress length => { state with
      inventory := (unmap context roots virtualAddress length state.inventory).2 }
  | .mapBatch context roots ranges => { state with
      inventory := (mapBatch context roots ranges allocator state.inventory).2 }
  | .unmapBatch context roots ranges => { state with
      inventory := (unmapBatch context roots ranges state.inventory).2 }
  | .replaceBatch context roots pairs => { state with
      inventory := (replaceBatch context roots pairs state.inventory).2 }
  | .replaceBatchWithPage context roots ranges physicalAddress protection => { state with
      inventory := (replaceBatchWithPage context roots ranges physicalAddress protection state.inventory).2 }

def run (allocator : UatAllocator) (state : UatState) (ops : List Op) : UatState := ops.foldl (step allocator) state

/-- The physical pages that a call maps are not zero. -/
def Op.MapsRealPages : Op → Prop
  | .map _ _ _ physicalAddress _ _ => physicalAddress ≠ 0
  | .mapPageList _ _ _ physicalPages _ _ => ∀ page ∈ physicalPages, page ≠ 0
  | .mapBatch _ _ ranges => ∀ range ∈ ranges, range.physicalAddress ≠ 0
  | .replaceBatch _ _ pairs => ∀ pair ∈ pairs, pair.2.physicalAddress ≠ 0
  | .replaceBatchWithPage _ _ _ physicalAddress _ => physicalAddress ≠ 0
  | _ => True

/-- The roots of a call belong to its context. -/
def Op.NamesItsRoots (spaces : List Space) : Op → Prop
  | .createAddressSpace _ => True
  | .map context roots _ _ _ _ => Called spaces context roots
  | .mapPageList context roots _ _ _ _ => Called spaces context roots
  | .unmap context roots _ _ => Called spaces context roots
  | .mapBatch context roots _ => Called spaces context roots
  | .unmapBatch context roots _ => Called spaces context roots
  | .replaceBatch context roots _ => Called spaces context roots
  | .replaceBatchWithPage context roots _ _ _ => Called spaces context roots

/-- A run in which every call is proper when it is made. -/
def Proper (allocator : UatAllocator) : UatState → List Op → Prop
  | _, [] => True
  | state, op :: rest =>
    op.MapsRealPages ∧ op.NamesItsRoots state.spaces ∧ Proper allocator (step allocator state op) rest

variable {state : UatState}

private theorem step_sound (sound : Sound state.spaces state.inventory) {op : Op}
    (real : op.MapsRealPages) (named : op.NamesItsRoots state.spaces) :
    Sound (step allocator state op).spaces (step allocator state op).inventory := by
  cases op with
  | createAddressSpace context =>
    cases ran : createAddressSpace context allocator state.inventory with
    | mk answer left =>
    have created := createAddressSpace_sound sound ran
    simp only [step,ran]
    cases answer with
    | _ => exact created
  | map context roots virtualAddress physicalAddress length protection => exact map_sound sound named _ _ _ real allocator
  | mapPageList context roots virtualAddress physicalPages counted protection =>
    exact mapPageList_sound sound named counted real allocator
  | unmap context roots virtualAddress length => exact unmap_sound sound named virtualAddress length
  | mapBatch context roots ranges => exact mapBatch_sound sound named real allocator
  | unmapBatch context roots ranges => exact unmapBatch_sound sound named ranges
  | replaceBatch context roots pairs => exact replaceBatch_sound sound named real
  | replaceBatchWithPage context roots ranges physicalAddress protection =>
  exact replaceBatchWithPage_sound sound named ranges real protection

theorem run_sound : ∀ {ops : List Op} {state : UatState}, Sound state.spaces state.inventory →
    Proper allocator state ops → Sound (run allocator state ops).spaces (run allocator state ops).inventory := by
  intro ops
  induction ops with
  | nil => exact fun sound _ => sound
  | cons op rest ih =>
  intro state sound proper
  obtain ⟨real,named,later⟩ := proper
  exact ih (step_sound sound real named) later

theorem initial_sound (pageCapacity mappingCapacity : Nat) :
    Sound (initial pageCapacity mappingCapacity).spaces (initial pageCapacity mappingCapacity).inventory := by
  have empty : ∀ address level index, entryAt [] address level index = 0 := fun _ _ _ => rfl
  refine ⟨⟨⟨nodup_nil,by simp [initial],by simp [initial],?_,?_⟩,fun address => ?_,?_,by simp [initial],.nil,
    by simp [initial],fun root va there => absurd rfl there⟩,.refl _⟩
  · exact fun address level index _ _ there => absurd (empty address level index) there
  · exact fun address _ level index _ _ _ _ there _ => absurd (empty address level index) there
  · simp [initial,IsRoot,Owns]
  rintro _ _ _ _ _ ⟨space,mem,_⟩
  exact absurd mem not_mem_nil

/-- The root that translates an address. -/
def rootOf (roots : UatRoots) (va : U64) : U64 :=
  if va < lowLimit then roots.ttbr0PhysicalAddress else roots.ttbr1PhysicalAddress

/-- The tables translate as the records say. -/
structure Translates (state : UatState) : Prop where
  resolves : ∀ space ∈ state.spaces, ∀ context < contextCount, ∀ va : U64, va &&& pageMask = 0 →
    ∀ physical descriptor, resolvePage context space.2 va state.inventory = .ok (physical,descriptor) ↔
      ∃ mapping ∈ state.inventory.mappings, ∃ turn < pageTurns mapping.length,
        mapping.root = rootOf space.2 va ∧ pageAddress mapping.virtualAddress turn = va ∧
        mapping.assigned turn = physical ∧
        encodePageDescriptor mapping.context physical mapping.protection = .ok descriptor
  apart : state.inventory.mappings.Pairwise (fun first second => first.root = second.root →
    first.virtualAddress.toNat + first.length.toNat ≤ second.virtualAddress.toNat ∨
      second.virtualAddress.toNat + second.length.toNat ≤ first.virtualAddress.toNat)
  assigns : ∀ mapping ∈ state.inventory.mappings, Assigns mapping

variable {va : U64}

theorem rootOf_half (inHalf : InHalf half va) (roots : UatRoots) : rootOf roots va = roots.half half := by
  have low : lowLimit.toNat = 2 ^ 39 := by decide
  rw [rootOf]
  cases half with
  | Ttbr0 => rw [if_pos (lt_def.mpr (by rw [low]; exact inHalf))]; rfl
  | Ttbr1 =>
  simp only [InHalf] at inHalf
  rw [if_neg (fun below => by rw [lt_def,low] at below; omega)]
  rfl

variable {roots : UatRoots}

theorem resolvePage_eq (isPages : inventory.pages = pages) (tree : Tree pages) (inside : context < contextCount)
    (aligned : va &&& pageMask = 0) (inHalf : InHalf half va) (root : IsRoot pages (roots.half half)) :
    resolvePage context roots va inventory =
      if leafValue pages (roots.half half) va &&& descriptorMask ≠ descriptorMask ∨
          leafValue pages (roots.half half) va &&& addressMask = 0 then .error .NotMapped
      else .ok (leafValue pages (roots.half half) va &&& addressMask,leafValue pages (roots.half half) va) := by
  have low : lowLimit.toNat = 2 ^ 39 := by decide
  have high : highBase.toNat = 2 ^ 64 - 2 ^ 39 := by decide
  have known : ¬ (lowLimit ≤ va ∧ va < highBase) := by
    rw [le_def,lt_def,low,high]
    cases half <;> simp only [InHalf] at inHalf <;> omega
  obtain ⟨j,page,found,here,address,isRoot⟩ := root.findPage
  have value := findExistingLeaf_value tree here isRoot va
  rw [address] at value
  unfold resolvePage
  rw [if_neg (Nat.not_le.mpr inside),if_neg (not_not.mpr aligned),if_neg known]
  have named := rootOf_half inHalf roots
  rw [rootOf] at named
  rw [named,isPages,found]
  simp only
  cases walk : findExistingLeaf pages j va with
  | none =>
    rw [walk] at value
    have zero : (0 : U64) &&& addressMask = 0 := by decide
    rw [if_pos (.inr (by rw [← value]; exact zero))]
  | some leaf =>
  rw [walk] at value
  simp only at value ⊢
  rw [value]

private theorem inHalf_of_resolve {answer : U64 × U64} (resolved : resolvePage context roots va inventory = .ok answer) :
    ∃ half, InHalf half va ∧ IsRoot inventory.pages (roots.half half) := by
  have low : lowLimit.toNat = 2 ^ 39 := by decide
  have high : highBase.toNat = 2 ^ 64 - 2 ^ 39 := by decide
  unfold resolvePage at resolved
  split at resolved
  · cases resolved
  split at resolved
  · cases resolved
  split at resolved
  · cases resolved
  rename_i known
  split at resolved
  · cases resolved
  rename_i j found
  have isRoot := isRoot_of_findPage found
  have named : IsRoot inventory.pages (rootOf roots va) := isRoot
  rw [le_def,lt_def,low,high] at known
  by_cases below : va.toNat < 2 ^ 39
  · have inHalf : InHalf .Ttbr0 va := below
    exact ⟨.Ttbr0,inHalf,rootOf_half inHalf roots ▸ named⟩
  have inHalf : InHalf .Ttbr1 va := by simp only [InHalf]; omega
  exact ⟨.Ttbr1,inHalf,rootOf_half inHalf roots ▸ named⟩

theorem Sound.translates (sound : Sound state.spaces state.inventory) : Translates state := by
  refine ⟨fun space created context inside va aligned physical descriptor => ⟨fun resolved => ?_,?_⟩,?_,fun mapping mem => ?_⟩
  · obtain ⟨half,inHalf,isRoot⟩ := inHalf_of_resolve resolved
    have owned : Owns state.spaces space.1 half (space.2.half half) := ⟨space,created,rfl,rfl⟩
    rw [resolvePage_eq rfl sound.tree inside aligned inHalf isRoot] at resolved
    split_ifs at resolved with missing
    simp only [Except.ok.injEq,Prod.mk.injEq] at resolved
    obtain ⟨isPhysical,isDescriptor⟩ := resolved
    have nonzero : leafValue state.inventory.pages (space.2.half half) va ≠ 0 :=
      ne_zero_of_descriptor (not_not.mp (not_or.mp missing).1)
    obtain ⟨mapping,mem,root,covers⟩ := sound.covered _ _ nonzero
    obtain ⟨_,recorded⟩ := sound.record_of_root mem (root ▸ owned)
    have turn : key va - key mapping.virtualAddress < pageTurns mapping.length := by
      have := covers.1
      have := covers.2
      omega
    obtain ⟨_,stored,encoded⟩ := recorded.encoded _ turn
    have value := sound.leaves mapping mem va covers
    rw [root,descriptorOf,descriptorAt_ok encoded] at value
    have fields := encodePageDescriptor_spec encoded
    have assigned : mapping.assigned (key va - key mapping.virtualAddress) = physical := by
      rw [← isPhysical,value,fields.1]
    refine ⟨mapping,mem,_,turn,root.trans (rootOf_half inHalf _).symm,?_,assigned,?_⟩
    · -- addresses of one half with one page number
      have here := address_of_key inHalf ((aligned_iff va).mp aligned)
      have there := address_of_key (recorded.valid.page_inHalf turn) (by
        rw [recorded.valid.page_toNat turn]
        have := recorded.valid.virtualAligned
        omega)
      rw [recorded.valid.inside covers.1 covers.2] at there
      exact eq_of_toNat_eq (there.trans here.symm)
    rw [← assigned,encoded,← isDescriptor,value]
  · rintro ⟨mapping,mem,turn,before,root,rfl,rfl,encoded⟩
    obtain ⟨half,recorded⟩ := sound.records mapping mem
    have inHalf := recorded.valid.page_inHalf before
    rw [rootOf_half inHalf] at root
    have isRoot : IsRoot state.inventory.pages (space.2.half half) :=
      (sound.roots _).mpr ⟨space.1,half,space,created,rfl,rfl⟩
    have number := recorded.valid.page_key before
    have value := sound.leaves mapping mem (pageAddress mapping.virtualAddress turn) ⟨by omega,by omega⟩
    have same : key (pageAddress mapping.virtualAddress turn) - key mapping.virtualAddress = turn := by omega
    rw [same,root,descriptorOf,descriptorAt_ok encoded] at value
    obtain ⟨address,valid⟩ := encodePageDescriptor_spec encoded
    rw [resolvePage_eq rfl sound.tree inside aligned inHalf isRoot,value,address,if_neg]
    exact not_or.mpr ⟨not_not.mpr valid,(recorded.encoded turn before).1⟩
  · refine sound.apart.imp_of_mem (fun {first second} here there apart root => apart ?_)
    obtain ⟨half,recorded⟩ := sound.records first here
    exact (sound.record_of_root there (root ▸ recorded.owned)).1.symm
  obtain ⟨half,recorded⟩ := sound.records mapping mem
  exact recorded.assigns

/-- After every proper run the tables translate as the records say. -/
theorem run_translates (allocator : UatAllocator) (pageCapacity mappingCapacity : Nat) (ops : List Op)
    (proper : Proper allocator (initial pageCapacity mappingCapacity) ops) :
    Translates (run allocator (initial pageCapacity mappingCapacity) ops) :=
  Sound.translates (run_sound (initial_sound pageCapacity mappingCapacity) proper)

theorem called_of_mem (created : (context,roots) ∈ spaces) : Called spaces context roots :=
  fun _ _ => ⟨(context,roots),created,rfl,rfl⟩

/-- An allocator that hands out the pages 0x4000, 0x8000, … in turn. -/
def inTurn : UatAllocator where
  allocatePage := fun turn live =>
    if BitVec.ofNat 64 ((turn + 1) * 0x4000) ∈ live then none
    else some ⟨BitVec.ofNat 64 ((turn + 1) * 0x4000),8,fun _ => 0⟩
  fresh := by
    intro turn live candidate answer
    split at answer
    · cases answer
    rename_i absent
    cases answer
    exact absent

/-- One address space, two pages mapped at its third page, the second of them replaced. -/
theorem run_translates_replaced : let roots : UatRoots := ⟨0x4000,0x8000⟩
    let first : UatRange := ⟨0x8000,0x100000,0x4000,.GpuSharedReadWrite⟩
    let second : UatRange := ⟨0xc000,0x200000,0x4000,.GpuSharedReadWrite⟩
    let ops : List Op := [.createAddressSpace 1,.mapBatch 1 roots [first,second],
      .replaceBatchWithPage 1 roots [second] 0x300000 .GpuSharedReadOnly]
    Translates (run inTurn (initial 8 4) ops) ∧
      (resolvePage 1 roots 0xc000 (run inTurn (initial 8 4) ops).inventory).toOption.map Prod.fst = some 0x300000 := by
  refine ⟨run_translates inTurn 8 4 _ ⟨trivial,trivial,?_,?_,?_,?_,trivial⟩,by decide +kernel⟩
  · intro range mem
    simp only [mem_cons,not_mem_nil,or_false] at mem
    rcases mem with rfl | rfl <;> exact by decide
  · exact called_of_mem (by decide +kernel)
  · exact (by decide : (0x300000 : U64) ≠ 0)
  · exact called_of_mem (by decide +kernel)

/-- The records name a context and no roots: a call of one context on the roots of another
    takes away a page that a record still covers. -/
theorem foreign_roots : ¬ ∀ (allocator : UatAllocator) (pageCapacity mappingCapacity : Nat) (ops : List Op),
    (∀ op ∈ ops, op.MapsRealPages) → Translates (run allocator (initial pageCapacity mappingCapacity) ops) := by
  intro claimed
  let ops : List Op := [.createAddressSpace 1,.createAddressSpace 2,
    .map 1 ⟨0x4000,0x8000⟩ 0x8000 0x100000 0x4000 .GpuSharedReadWrite,
    .map 2 ⟨0xc000,0x10000⟩ 0x8000 0x200000 0x4000 .GpuSharedReadWrite,
    .unmap 1 ⟨0xc000,0x10000⟩ 0x8000 0x4000]
  have translates := claimed inTurn 16 4 ops (by
    intro op mem
    simp only [ops,mem_cons,not_mem_nil,or_false] at mem
    rcases mem with rfl | rfl | rfl | rfl | rfl <;> simp only [Op.MapsRealPages] <;> decide)
  have created : ((2,⟨0xc000,0x10000⟩) : Space) ∈ (run inTurn (initial 16 4) ops).spaces := by decide +kernel
  -- the record of the second context is still there
  have recorded : (run inTurn (initial 16 4) ops).inventory.mappings.map (fun mapping =>
      (mapping.context,mapping.virtualAddress,mapping.length,mapping.root,mapping.assigned 0,
        mapping.protection)) = [(2,0x8000,0x4000,0xc000,0x200000,.GpuSharedReadWrite)] := by decide +kernel
  obtain ⟨mapping,rest,isList⟩ : ∃ mapping rest, (run inTurn (initial 16 4) ops).inventory.mappings = mapping :: rest := by
    cases list : (run inTurn (initial 16 4) ops).inventory.mappings with
    | nil => rw [list] at recorded; cases recorded
    | cons mapping rest => exact ⟨mapping,rest,rfl⟩
  simp only [isList,map_cons,List.cons.injEq,Prod.mk.injEq] at recorded
  obtain ⟨⟨context,start,length,root,assigned,protection⟩,_⟩ := recorded
  have resolved := (translates.resolves _ created 0 (by decide) 0x8000 (by decide) 0x200000 _).mpr
    ⟨mapping,by rw [isList]; exact mem_cons_self,0,by rw [length]; decide,by rw [root]; rfl,by rw [start]; rfl,
      assigned,by rw [context,protection]; rfl⟩
  have missing : (resolvePage 0 ⟨0xc000,0x10000⟩ 0x8000 (run inTurn (initial 16 4) ops).inventory).toOption = none := by
    decide +kernel
  rw [resolved] at missing
  cases missing

end WindowsOnM1.UatTranslation
