import WindowsOnM1.GpuvaWalk

/-!
Access to a range of addresses. The check walks page by page from the page of the first
address; it accepts exactly the ranges whose bytes all translate, and the record of its
failure names the first address that does not.
-/
namespace WindowsOnM1.GpuvaRange
open GpuvaModel GpuvaWorld
open BitVec hiding or_self

/-- The reasons that a walk gives for its failure. -/
inductive WalkReason
  | None
  | NoRoot
  | NoTable
  | LeafAbsent
  | LeafNotPublished
  | TailShort
  | LogicalShadowAbsent
deriving DecidableEq

/-- `APPLE_AGX_GPUVA_G3_WALK_FAILURE`. -/
structure WalkFailure where
  level : U32
  index : U32
  reason : WalkReason
  componentReason : WalkReason
  va : U64
deriving DecidableEq

def noFailure : WalkFailure := ⟨~~~0,~~~0,.None,.None,0⟩

/-- `missing_range`. -/
def missingRange (start page : U64) (level : U32) (index : Nat) (reason : WalkReason) : WalkFailure :=
  ⟨level,BitVec.ofNat 32 index,if start &&& ~~~pageMask < page then .TailShort else reason,reason,
    if page < start then start else page⟩

/-- A turn of the walk: what is missing for a page. -/
def inspectPage (graph : GpuvaGraph) (write : Bool) (start va : U64) : Option WalkFailure :=
  match (slot (tableAt graph graph.rootTable) (rootIndex va)).bind (nodeAt graph.parents) with
  | none => some (missingRange start va 0 (rootIndex va) .NoRoot)
  | some rootEdge =>
    match (slot (tableAt graph rootEdge.childTable) (middleIndex va)).bind (nodeAt graph.parents) with
    | none => some (missingRange start va 1 (middleIndex va) .NoTable)
    | some middleEdge =>
      match (slot (tableAt graph middleEdge.childTable) (leafIndex va)).bind (nodeAt graph.leaves) with
      | none => some (missingRange start va 2 (leafIndex va) .LeafAbsent)
      | some leaf =>
        if leaf.auxIpa = 0 ∨ (write ∧ ¬ leaf.writable) then some (missingRange start va 2 (leafIndex va) .LeafNotPublished)
        else none

/-- The walk over the pages from an address on. -/
def inspectPages (graph : GpuvaGraph) (write : Bool) (start : U64) : (turns : Nat) → U64 → Bool × WalkFailure
  | 0, _ => (true,noFailure)
  | turns+1, va =>
    match inspectPage graph write start va with
    | some failure => (false,failure)
    | none => inspectPages graph write start turns (va + 0x4000)

/-- The turns of the walk: the pages from the page of the first address up to the end. -/
def pagesOf (start : U64) (bytes : U32) : Nat :=
  ((start + bytes.setWidth 64).toNat - (start &&& ~~~pageMask).toNat + 0x3fff) / 0x4000

/-- `AppleAgxGpuvaG3GraphInspectRangeAccess`. -/
def inspectRangeAccess (start : U64) (bytes : U32) (write : Bool) (graph : GpuvaGraph) : Bool × WalkFailure :=
  if bytes = 0 ∨ 1 <<< 39 ≤ start ∨ 1 <<< 39 - start < bytes.setWidth 64 ∨ ¬ graph.created ∨ graph.uncertain then
    (false,noFailure)
  else inspectPages graph write start (pagesOf start bytes) (start &&& ~~~pageMask)

/-- `AppleAgxGpuvaG3GraphContainsRangeAccess`. -/
def containsRangeAccess (start : U64) (bytes : U32) (write : Bool) (graph : GpuvaGraph) : Bool :=
  (inspectRangeAccess start bytes write graph).1

def leafOf (graph : GpuvaGraph) (va : U64) : Option GpuvaNode :=
  (middleEdge graph va).bind (fun edge => (slot (tableAt graph edge.childTable) (leafIndex va)).bind (nodeAt graph.leaves))

/-- The number of the page of an address. -/
def pageNumber (va : U64) : Nat := va.toNat / 0x4000
theorem rootIndex_eq (va : U64) : rootIndex va = pageNumber va / 2 ^ 22 % 2 ^ 3 := by
  rw [rootIndex,toNat_and,toNat_ushiftRight,Nat.shiftRight_eq_div_pow,pageNumber,Nat.div_div_eq_div_mul]
  exact Nat.and_two_pow_sub_one_eq_mod _ 3
theorem middleIndex_eq (va : U64) : middleIndex va = pageNumber va / 2 ^ 11 % 2 ^ 11 := by
  rw [middleIndex,toNat_and,toNat_ushiftRight,Nat.shiftRight_eq_div_pow,pageNumber,Nat.div_div_eq_div_mul]
  exact Nat.and_two_pow_sub_one_eq_mod _ 11
theorem leafIndex_eq (va : U64) : leafIndex va = pageNumber va % 2 ^ 11 := by
  rw [leafIndex,toNat_and,toNat_ushiftRight,Nat.shiftRight_eq_div_pow,pageNumber]
  exact Nat.and_two_pow_sub_one_eq_mod _ 11
private theorem pageMask_bit : ∀ j : Fin 64, (0x3fff : U64)[j.val] = decide (j.val < 14) := by decide

theorem pageOf_toNat (va : U64) : (va &&& ~~~pageMask).toNat = pageNumber va * 0x4000 := by
  have split : va &&& ~~~pageMask = va >>> 14 <<< 14 := by
    ext i inside
    have bit := pageMask_bit ⟨i,inside⟩
    simp only [pageMask,getElem_and,getElem_not,getElem_shiftLeft] at bit ⊢
    rw [bit]
    by_cases low : i < 14
    · simp [low]
    simp [low,Nat.add_sub_cancel' (Nat.not_lt.mp low),getLsbD_eq_getElem inside]
  rw [split,toNat_shiftLeft,toNat_ushiftRight,Nat.shiftRight_eq_div_pow,Nat.shiftLeft_eq,pageNumber]
  exact Nat.mod_eq_of_lt (by have := va.isLt; omega)

private theorem middleEdge_page (graph : GpuvaGraph) {va va' : U64} (same : pageNumber va = pageNumber va') :
    rootEdge graph va = rootEdge graph va' ∧ middleEdge graph va = middleEdge graph va' := by
  have root : rootEdge graph va = rootEdge graph va' := by rw [rootEdge,rootEdge,rootIndex_eq,rootIndex_eq,same]
  exact ⟨root,by rw [middleEdge,middleEdge,root,middleIndex_eq,middleIndex_eq,same]⟩
theorem leafOf_page (graph : GpuvaGraph) {va va' : U64} (same : pageNumber va = pageNumber va') :
    leafOf graph va = leafOf graph va' := by
  rw [leafOf,leafOf,(middleEdge_page graph same).2,leafIndex_eq,leafIndex_eq,same]

/-- An address that translates, through a writable leaf when it is to be written. -/
def Accessible (graph : GpuvaGraph) (write : Bool) (va : U64) : Prop :=
  (translateVa graph va).isSome = true ∧ (write = true → ∃ leaf, leafOf graph va = some leaf ∧ leaf.writable = true)

variable {graph : GpuvaGraph} {write : Bool}

theorem accessible_iff (present : graph.created = true) (certain : graph.uncertain = false)
    {va : U64} (small : va < 1 <<< 39) : Accessible graph write va ↔
      ∃ leaf, leafOf graph va = some leaf ∧ leaf.auxIpa ≠ 0 ∧ (write = true → leaf.writable = true) := by
  have inside : ¬ (¬ graph.created = true ∨ graph.uncertain = true ∨ (1 <<< 39 : U64) ≤ va) := by
    simp only [present,certain,BitVec.not_le.mpr small,not_true_eq_false,or_self,Bool.false_eq_true,not_false_eq_true]
  rw [Accessible,translateVa,if_neg inside,← leafOf]
  cases leafOf graph va with
  | none => simp
  | some leaf => by_cases zero : leaf.auxIpa = 0 <;> simp [zero]

/-- What a failed turn says of its page. -/
structure Missing (graph : GpuvaGraph) (write : Bool) (start va : U64) (failure : WalkFailure) : Prop where
  address : failure.va = if va < start then start else va
  component : (failure.level = 0 ∧ failure.index = BitVec.ofNat 32 (rootIndex va) ∧ failure.componentReason = .NoRoot ∧
      rootEdge graph va = none) ∨
    (failure.level = 1 ∧ failure.index = BitVec.ofNat 32 (middleIndex va) ∧ failure.componentReason = .NoTable ∧
      (rootEdge graph va).isSome = true ∧ middleEdge graph va = none) ∨
    (failure.level = 2 ∧ failure.index = BitVec.ofNat 32 (leafIndex va) ∧ failure.componentReason = .LeafAbsent ∧
      (middleEdge graph va).isSome = true ∧ leafOf graph va = none) ∨
    (failure.level = 2 ∧ failure.index = BitVec.ofNat 32 (leafIndex va) ∧ failure.componentReason = .LeafNotPublished ∧
      ∃ leaf, leafOf graph va = some leaf ∧ (leaf.auxIpa = 0 ∨ (write = true ∧ leaf.writable = false)))
  tail : failure.reason = if start &&& ~~~pageMask < va then .TailShort else failure.componentReason

theorem inspectPage_spec (graph : GpuvaGraph) (write : Bool) (start va : U64) :
    match inspectPage graph write start va with
    | none => ∃ leaf, leafOf graph va = some leaf ∧ leaf.auxIpa ≠ 0 ∧ (write = true → leaf.writable = true)
    | some failure => Missing graph write start va failure := by
  unfold inspectPage
  rw [← rootEdge]
  cases first : rootEdge graph va with
  | none => exact ⟨rfl,.inl ⟨rfl,rfl,rfl,first⟩,rfl⟩
  | some edge =>
  have middle : middleEdge graph va =
      (slot (tableAt graph edge.childTable) (middleIndex va)).bind (nodeAt graph.parents) := by
    rw [middleEdge,first]
    rfl
  dsimp only
  rw [← middle]
  cases second : middleEdge graph va with
  | none => exact ⟨rfl,.inr (.inl ⟨rfl,rfl,rfl,by rw [first]; rfl,second⟩),rfl⟩
  | some edge' =>
  have last : leafOf graph va = (slot (tableAt graph edge'.childTable) (leafIndex va)).bind (nodeAt graph.leaves) := by
    rw [leafOf,second]
    rfl
  dsimp only
  rw [← last]
  cases third : leafOf graph va with
  | none => exact ⟨rfl,.inr (.inr (.inl ⟨rfl,rfl,rfl,by rw [second]; rfl,third⟩)),rfl⟩
  | some leaf =>
  dsimp only
  by_cases unfit : leaf.auxIpa = 0 ∨ (write = true ∧ ¬ leaf.writable = true)
  · rw [if_pos unfit]
    rw [Bool.not_eq_true] at unfit
    exact ⟨rfl,.inr (.inr (.inr ⟨rfl,rfl,rfl,leaf,third,unfit⟩)),rfl⟩
  rw [if_neg unfit]
  obtain ⟨published,allowed⟩ := not_or.mp unfit
  exact ⟨leaf,rfl,published,fun isWrite => by simpa [isWrite] using allowed⟩

theorem Missing.not_accessible {start va : U64} {failure : WalkFailure}
    (missing : Missing graph write start va failure) :
    ¬ ∃ leaf, leafOf graph va = some leaf ∧ leaf.auxIpa ≠ 0 ∧ (write = true → leaf.writable = true) := by
  rintro ⟨leaf,found,published,allowed⟩
  have middle : (middleEdge graph va).isSome = true := by
    obtain ⟨edge,isEdge,_⟩ := Option.bind_eq_some_iff.mp found
    rw [isEdge]
    rfl
  rcases missing.component with ⟨_,_,_,none⟩ | ⟨_,_,_,_,none⟩ | ⟨_,_,_,_,none⟩ | ⟨_,_,_,leaf',found',unfit⟩
  · rw [middleEdge,none] at middle
    cases middle
  · rw [none] at middle
    cases middle
  · rw [none] at found
    cases found
  rw [found] at found'
  cases found'
  rcases unfit with zero | ⟨isWrite,readOnly⟩
  · exact published zero
  rw [allowed isWrite] at readOnly
  cases readOnly

def pageAt (va : U64) (turn : Nat) : U64 := va + BitVec.ofNat 64 (turn * 0x4000)

/-- The walk accepts when no page is missing, and else tells of the first that is. -/
theorem inspectPages_spec (graph : GpuvaGraph) (write : Bool) (start : U64) : ∀ (turns : Nat) (va : U64),
    ((inspectPages graph write start turns va).1 = true ∧ ∀ turn < turns, inspectPage graph write start (pageAt va turn) = none) ∨
    ((inspectPages graph write start turns va).1 = false ∧ ∃ turn < turns,
      inspectPage graph write start (pageAt va turn) = some (inspectPages graph write start turns va).2 ∧
        ∀ earlier < turn, inspectPage graph write start (pageAt va earlier) = none) := by
  intro turns
  induction turns with
  | zero => exact fun va => .inl ⟨rfl,fun _ bad => absurd bad (Nat.not_lt_zero _)⟩
  | succ turns ih =>
  intro va
  have first : pageAt va 0 = va := by simp [pageAt]
  have next : ∀ turn, pageAt (va + 0x4000) turn = pageAt va (turn + 1) := by
    intro turn
    rw [pageAt,pageAt,BitVec.add_assoc,Nat.succ_mul,Nat.add_comm,ofNat_add]
    rfl
  unfold inspectPages
  cases here : inspectPage graph write start va with
  | some failure =>
    exact .inr ⟨rfl,0,Nat.succ_pos _,by rw [first]; exact here,fun _ bad => absurd bad (Nat.not_lt_zero _)⟩
  | none =>
  have before : ∀ {turn : Nat}, (∀ earlier < turn, inspectPage graph write start (pageAt (va + 0x4000) earlier) = none) →
      ∀ earlier < turn + 1, inspectPage graph write start (pageAt va earlier) = none := by
    intro turn rest earlier inside
    cases earlier with
    | zero => rw [first]; exact here
    | succ earlier => rw [← next]; exact rest earlier (by omega)
  rcases ih (va + 0x4000) with ⟨isOk,all⟩ | ⟨failed,turn,inside,missing,rest⟩
  · exact .inl ⟨isOk,before all⟩
  exact .inr ⟨failed,turn + 1,by omega,by rw [← next]; exact missing,before rest⟩

/-- The range has bytes and lies below the end of the address space. -/
def InRange (start : U64) (bytes : U32) : Prop := 0 < bytes.toNat ∧ start.toNat + bytes.toNat ≤ 2 ^ 39

/-- The first address of the range that is not accessible. -/
def FirstViolation (graph : GpuvaGraph) (write : Bool) (start : U64) (bytes : U32) (va : U64) : Prop :=
  start ≤ va ∧ va.toNat < start.toNat + bytes.toNat ∧ ¬ Accessible graph write va ∧
    ∀ earlier : U64, start ≤ earlier → earlier < va → Accessible graph write earlier

theorem bytes_toNat (bytes : U32) : (bytes.setWidth 64 : U64).toNat = bytes.toNat := by
  rw [toNat_setWidth]
  exact Nat.mod_eq_of_lt (by have := bytes.isLt; omega)

theorem inRange_iff {start : U64} {bytes : U32} : InRange start bytes ↔
    ¬ (bytes = 0 ∨ 1 <<< 39 ≤ start ∨ 1 <<< 39 - start < bytes.setWidth 64) := by
  have limit : (1 <<< 39 : U64).toNat = 2 ^ 39 := by decide
  have width := bytes_toNat bytes
  have zero : bytes = 0 ↔ bytes.toNat = 0 := by
    rw [← toNat_inj]
    rfl
  rw [InRange,zero,le_def,lt_def,limit,width,toNat_sub,limit]
  have := start.isLt
  have := bytes.isLt
  constructor
  · rintro ⟨positive,fits⟩
    omega
  intro fits
  omega

section Walk

variable {graph : GpuvaGraph} {start : U64} {bytes : U32} {write : Bool}

theorem finish_toNat (fits : InRange start bytes) : (start + bytes.setWidth 64).toNat = start.toNat + bytes.toNat := by
  have width := bytes_toNat bytes
  exact Nat.mod_eq_of_lt (by have := fits.2; omega)

theorem pageAt_number (fits : InRange start bytes) {turn : Nat} (inside : turn < pagesOf start bytes) :
    (pageAt (start &&& ~~~pageMask) turn).toNat = (pageNumber start + turn) * 0x4000 ∧
      pageNumber (pageAt (start &&& ~~~pageMask) turn) = pageNumber start + turn ∧
      (pageNumber start + turn) * 0x4000 < start.toNat + bytes.toNat := by
  have below := fits.2
  rw [pagesOf,finish_toNat fits,pageOf_toNat] at inside
  have address : (pageAt (start &&& ~~~pageMask) turn).toNat = (pageNumber start + turn) * 0x4000 := by
    rw [pageAt,toNat_add,pageOf_toNat,toNat_ofNat]
    omega
  refine ⟨address,?_,by omega⟩
  rw [pageNumber,address]
  omega

theorem turn_of_byte (fits : InRange start bytes) {va : U64} (after : start ≤ va) (before : va.toNat < start.toNat + bytes.toNat) :
    ∃ turn < pagesOf start bytes, pageNumber va = pageNumber start + turn := by
  rw [le_def] at after
  have number : pageNumber start = start.toNat / 0x4000 := rfl
  have number' : pageNumber va = va.toNat / 0x4000 := rfl
  refine ⟨pageNumber va - pageNumber start,?_,by omega⟩
  rw [pagesOf,finish_toNat fits,pageOf_toNat]
  omega

private theorem walk_cases {done : Bool} {failure : WalkFailure}
    (walked : inspectPages graph write start (pagesOf start bytes) (start &&& ~~~pageMask) = (done,failure))
    (present : graph.created = true) (certain : graph.uncertain = false) (fits : InRange start bytes) :
    (done = true ∧ ∀ va : U64, start ≤ va → va.toNat < start.toNat + bytes.toNat → Accessible graph write va) ∨
    (done = false ∧ FirstViolation graph write start bytes failure.va ∧
      ∃ page, pageNumber page = pageNumber failure.va ∧ Missing graph write start page failure) := by
  have limit : (1 <<< 39 : U64).toNat = 2 ^ 39 := by decide
  have low : ∀ {va : U64}, va.toNat < start.toNat + bytes.toNat → va < 1 <<< 39 := by
    intro va before
    rw [lt_def,limit]
    have := fits.2
    omega
  -- a page that is missing nothing gives access to its bytes
  have page_access : ∀ {turn : Nat} {va : U64}, turn < pagesOf start bytes → pageNumber va = pageNumber start + turn →
      va.toNat < start.toNat + bytes.toNat → inspectPage graph write start (pageAt (start &&& ~~~pageMask) turn) = none →
      Accessible graph write va := by
    intro turn va inside number before none
    have found := inspectPage_spec graph write start (pageAt (start &&& ~~~pageMask) turn)
    rw [none] at found
    rw [accessible_iff present certain (low before), leafOf_page graph (number.trans (pageAt_number fits inside).2.1.symm)]
    exact found
  have spec := inspectPages_spec graph write start (pagesOf start bytes) (start &&& ~~~pageMask)
  rw [walked] at spec
  rcases spec with ⟨isOk,all⟩ | ⟨failed,turn,inside,missing,earlier⟩
  · refine .inl ⟨isOk,fun va after before => ?_⟩
    obtain ⟨turn,inside,number⟩ := turn_of_byte fits after before
    exact page_access inside number before (all turn inside)
  dsimp only at missing
  obtain ⟨address,number,before⟩ := pageAt_number fits inside
  have told := inspectPage_spec graph write start (pageAt (start &&& ~~~pageMask) turn)
  rw [missing] at told
  have isStart : pageNumber start = start.toNat / 0x4000 := rfl
  have place : failure.va.toNat = max start.toNat ((pageNumber start + turn) * 0x4000) := by
    rw [told.address]
    split_ifs with short
    · rw [lt_def,address] at short
      omega
    rw [lt_def,address] at short
    omega
  have isVa : pageNumber failure.va = failure.va.toNat / 0x4000 := rfl
  have samePage : pageNumber failure.va = pageNumber start + turn := by omega
  have inRange : failure.va.toNat < start.toNat + bytes.toNat := by
    have := fits.1
    omega
  refine .inr ⟨failed,⟨?_,inRange,?_,fun va after sooner => ?_⟩,_,number.trans samePage.symm,told⟩
  · rw [le_def]
    omega
  · rw [accessible_iff present certain (low inRange),leafOf_page graph (samePage.trans number.symm)]
    exact told.not_accessible
  rw [lt_def] at sooner
  obtain ⟨turn',inside',number'⟩ := turn_of_byte fits after (sooner.trans inRange)
  have isVa' : pageNumber va = va.toNat / 0x4000 := rfl
  refine page_access inside' number' (sooner.trans inRange) (earlier turn' ?_)
  rw [le_def] at after
  omega

end Walk

/-- The check accepts exactly the ranges below the end of the address space whose bytes are all accessible. The record of a
    walk that fails names the first address that is not, with the level, the index and the reason of what it lacks; a range
    that is refused before the walk leaves no record. -/
theorem range_access {n : Nat} (env : Fin n → GpuvaEnv) (owners : Fin n → Owner) (script : List (Fin n × Call)) (who : Fin n)
    (start : U64) (bytes : U32) (write : Bool) : let graph := (run env (worldInit owners) script).graphs who
    let failure := (inspectRangeAccess start bytes write graph).2
    (containsRangeAccess start bytes write graph = true ↔ InRange start bytes ∧
      ∀ va : U64, start ≤ va → va.toNat < start.toNat + bytes.toNat → Accessible graph write va) ∧
    (containsRangeAccess start bytes write graph = false →
      (InRange start bytes ∧ graph.created = true ∧ graph.uncertain = false →
        FirstViolation graph write start bytes failure.va ∧
          ∃ page, pageNumber page = pageNumber failure.va ∧ Missing graph write start page failure) ∧
      (¬ (InRange start bytes ∧ graph.created = true ∧ graph.uncertain = false) → failure = noFailure)) := by
  intro graph failure
  have refusal : (bytes = 0 ∨ 1 <<< 39 ≤ start ∨ 1 <<< 39 - start < bytes.setWidth 64 ∨ ¬ graph.created ∨ graph.uncertain) ↔
      ¬ (InRange start bytes ∧ graph.created = true ∧ graph.uncertain = false) := by
    rw [inRange_iff]
    constructor
    · rintro (zero | outside | short | absent | uncertain) ⟨fits,present,certain⟩
      · exact fits (.inl zero)
      · exact fits (.inr (.inl outside))
      · exact fits (.inr (.inr short))
      · exact absent present
      · rw [certain] at uncertain
        cases uncertain
    intro missing
    by_contra fine
    obtain ⟨some,fine⟩ := not_or.mp fine
    obtain ⟨inside,fine⟩ := not_or.mp fine
    obtain ⟨long,fine⟩ := not_or.mp fine
    obtain ⟨present,certain⟩ := not_or.mp fine
    refine missing ⟨?_,not_not.mp present,by simpa using certain⟩
    rintro (zero | outside | short)
    · exact some zero
    · exact inside outside
    · exact long short
  by_cases walks : InRange start bytes ∧ graph.created = true ∧ graph.uncertain = false
  · obtain ⟨fits,present,certain⟩ := walks
    have walked : inspectPages graph write start (pagesOf start bytes) (start &&& ~~~pageMask) =
        (containsRangeAccess start bytes write graph,failure) := by
      show _ = inspectRangeAccess start bytes write graph
      rw [inspectRangeAccess,if_neg (fun refused => refusal.mp refused ⟨fits,present,certain⟩)]
    rcases walk_cases walked present certain fits with ⟨isOk,all⟩ | ⟨failed,first,told⟩
    · rw [isOk]
      exact ⟨⟨fun _ => ⟨fits,all⟩,fun _ => rfl⟩,nofun⟩
    rw [failed]
    refine ⟨⟨nofun,fun both => ?_⟩,fun _ => ⟨fun _ => ⟨first,told⟩,fun refused => ?_⟩⟩
    · exact absurd (both.2 _ first.1 first.2.1) first.2.2.1
    · exact absurd ⟨fits,present,certain⟩ refused
  have refused : inspectRangeAccess start bytes write graph = (false,noFailure) := by
    rw [inspectRangeAccess,if_pos (refusal.mpr walks)]
  have outcome : containsRangeAccess start bytes write graph = false := congrArg Prod.fst refused
  have record : failure = noFailure := congrArg Prod.snd refused
  rw [outcome,record]
  refine ⟨⟨nofun,fun both => ?_⟩,fun _ => ⟨fun all => absurd all walks,fun _ => rfl⟩⟩
  -- nothing translates in a graph that is not walked
  obtain ⟨fits,all⟩ := both
  have access := all start (BitVec.le_refl _) (by have := fits.1; omega)
  have gone : ¬ graph.created = true ∨ graph.uncertain = true := by
    by_contra there
    obtain ⟨present,certain⟩ := not_or.mp there
    exact walks ⟨fits,not_not.mp present,by simpa using certain⟩
  have nothing : translateVa graph start = none := by
    rw [translateVa,if_pos]
    rcases gone with absent | uncertain
    · exact .inl absent
    · exact .inr (.inl uncertain)
  rw [Accessible,nothing] at access
  cases access.1

/-- A range that is refused before the walk names no address, though it has a first one that does not translate. -/
theorem refused_range_not_named : ¬ ∀ (env : Fin 1 → GpuvaEnv) (owners : Fin 1 → Owner) (script : List (Fin 1 × Call))
    (start : U64) (bytes : U32) (write : Bool) (va : U64),
    FirstViolation ((run env (worldInit owners) script).graphs 0) write start bytes va →
    (inspectRangeAccess start bytes write ((run env (worldInit owners) script).graphs 0)).2.va = va := by
  intro claimed
  have named := claimed (fun _ => willing) oneOwner mapOnePage (1 <<< 39) 1 false (1 <<< 39) ⟨by decide,by decide,?_,?_⟩
  · exact absurd named (by decide +kernel)
  · rintro ⟨translated,_⟩
    exact absurd translated (by decide +kernel)
  intro earlier after before
  rw [le_def] at after
  rw [lt_def] at before
  omega

end WindowsOnM1.GpuvaRange
