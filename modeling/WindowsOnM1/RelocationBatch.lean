import WindowsOnM1.ByteWrites

/-!
The relocation writer of `apple_agx_relocation.c`: a batch is checked as a whole before the
first field is written. The pointers are not NULL, objects may share their bytes, and the
tables of objects and relocations are not among these bytes.
-/
namespace WindowsOnM1.RelocationBatch
open ByteMemory ByteWrites List
open BitVec hiding not_and not_not not_or

abbrev U32 := BitVec 32
abbrev U64 := BitVec 64

/-- `APPLE_AGX_BM_PAGE_SIZE`. -/
abbrev bmPageSize : U64 := 0x8000

/-- `APPLE_AGX_TA_FLAG_BIT63`. -/
abbrev taFlagBit63 : U64 := 0x8000000000000000

/-- `APPLE_AGX_TA_FLAG_BITS60_61`. -/
abbrev taFlagBits60And61 : U64 := 0x3000000000000000

/-- `APPLE_AGX_TA_FLAG_BIT50`. -/
abbrev taFlagBit50 : U64 := 0x0004000000000000

/-- `APPLE_AGX_RELOCATION_ENCODING`, as the records hold it. -/
abbrev exactU64 : U32 := 0
abbrev taFlaggedGpuVa : U32 := 1
abbrev gpuVaPage32kU32 : U32 := 2

/-- `APPLE_AGX_RELOCATION_SPACE`, as the records hold it. -/
abbrev spaceGpuVa : U32 := 0
abbrev spacePhysical : U32 := 1

/-- `APPLE_AGX_RELOCATION_OBJECT`. `data` is the address of its bytes, none for NULL. -/
structure RelocationObject where
  gpuVa : U64
  physicalAddress : U64
  size : U32
  data : Option Nat
deriving DecidableEq

/-- `APPLE_AGX_RELOCATION`. -/
structure Relocation where
  sourceObject : U32
  sourceOffset : U32
  targetObject : U32
  targetOffset : U32
  addressSpace : U32
  encoding : U32
  encodingBits : U64
deriving DecidableEq

def noObject : RelocationObject := ⟨0,0,0,none⟩
def objectAt (objects : List RelocationObject) (index : U32) : RelocationObject := objects.getD index.toNat noObject

/-- `AppleAgxRelocationEncodingBitsValid`. -/
def encodingBitsValid (encoding : U32) (encodingBits : U64) : Bool :=
  if encoding = exactU64 ∨ encoding = gpuVaPage32kU32 then encodingBits == 0
  else if encoding ≠ taFlaggedGpuVa then false
  else encodingBits == taFlagBit63 || encodingBits == taFlagBits60And61 || encodingBits == taFlagBit50

/-- The width that the check computes. -/
def widthOf (relocation : Relocation) : U32 := if relocation.encoding = gpuVaPage32kU32 then 4 else 8
def spaceAddress (relocation : Relocation) (target : RelocationObject) : U64 :=
  if relocation.addressSpace = spacePhysical then target.physicalAddress else target.gpuVa

/-- The address that is checked, and that is computed again for the write. -/
def addressOf (objects : List RelocationObject) (relocation : Relocation) : U64 :=
  spaceAddress relocation (objectAt objects relocation.targetObject) + relocation.targetOffset.setWidth 64

/-- One turn of the first loop of `AppleAgxApplyRelocations`. -/
def relocationValid (objects : List RelocationObject) (relocation : Relocation) : Bool :=
  if objects.length ≤ relocation.sourceObject.toNat ∨ objects.length ≤ relocation.targetObject.toNat ∨
      spacePhysical < relocation.addressSpace ∨ gpuVaPage32kU32 < relocation.encoding ∨
      encodingBitsValid relocation.encoding relocation.encodingBits = false then false
  else
    let source := objectAt objects relocation.sourceObject
    let target := objectAt objects relocation.targetObject
    if source.data = none ∨ source.size = 0 ∨ target.size = 0 ∨ source.size < relocation.sourceOffset ∨
        source.size - relocation.sourceOffset < widthOf relocation ∨ target.size ≤ relocation.targetOffset then false
    else if spaceAddress relocation target = 0 ∨ ~~~(relocation.targetOffset.setWidth 64) < spaceAddress relocation target then
      false
    else
      let address := spaceAddress relocation target + relocation.targetOffset.setWidth 64
      if relocation.encoding = taFlaggedGpuVa ∧
          (relocation.addressSpace ≠ spaceGpuVa ∨ address &&& relocation.encodingBits ≠ 0) then false
      else if relocation.encoding = gpuVaPage32kU32 ∧
          (relocation.addressSpace ≠ spaceGpuVa ∨ relocation.targetOffset.setWidth 64 &&& (bmPageSize - 1) ≠ 0 ∨
            address &&& (bmPageSize - 1) ≠ 0 ∨ 0xffffffff < address / bmPageSize) then false
      else true

/-- The bytes that the second loop writes for a relocation. -/
def fieldBytes (objects : List RelocationObject) (relocation : Relocation) : List Byte :=
  if relocation.encoding = gpuVaPage32kU32 then u32Bytes ((addressOf objects relocation / bmPageSize).setWidth 32)
  else u64Bytes (addressOf objects relocation ||| relocation.encodingBits)

/-- One turn of the second loop of `AppleAgxApplyRelocations`. -/
def fieldWrite (objects : List RelocationObject) (relocation : Relocation) : Write :=
  ⟨(objectAt objects relocation.sourceObject).data.getD 0 + relocation.sourceOffset.toNat,fieldBytes objects relocation⟩

/-- `AppleAgxApplyRelocations`. -/
def applyRelocations (objects : List RelocationObject) (relocations : List Relocation) (memory : Memory) : Bool × Memory :=
  if objects = [] then (false,memory)
  else if relocations.all (relocationValid objects) = false then (false,memory)
  else (true,applyAll (relocations.map (fieldWrite objects)) memory)

/-- The width of a field: a page number has 4 bytes and an address 8. -/
def fieldWidth (relocation : Relocation) : Nat := if relocation.encoding = gpuVaPage32kU32 then 4 else 8

/-- The field of a relocation begins at `Data + SourceOffset` and lies within `Data` and `Data + Size`. -/
def FieldAt (objects : List RelocationObject) (relocation : Relocation) (field : Nat) : Prop :=
  ∃ source data, objects[relocation.sourceObject.toNat]? = some source ∧ source.data = some data ∧
    field = data + relocation.sourceOffset.toNat ∧ field + fieldWidth relocation ≤ data + source.size.toNat

/-- The bytes of the field. -/
def InField (objects : List RelocationObject) (relocation : Relocation) (i : Nat) : Prop :=
  ∃ field, FieldAt objects relocation field ∧ field ≤ i ∧ i < field + fieldWidth relocation
def FieldsApart (objects : List RelocationObject) (relocation other : Relocation) : Prop :=
  ∀ i, InField objects relocation i → ¬ InField objects other i

/-- The target's address plus `TargetOffset`, none outside the target. -/
def targetAddress (objects : List RelocationObject) (relocation : Relocation) : Option Nat :=
  (objects[relocation.targetObject.toNat]?.filter (fun target => decide (relocation.targetOffset < target.size))).map
    (fun target => (spaceAddress relocation target).toNat + relocation.targetOffset.toNat)

/-- A field of a memory that says an address without loss: the address itself, the address with flag bits that
    are free in it, or the number of the page that begins there. -/
inductive Says (relocation : Relocation) (memory : Memory) (field address : Nat) : Prop
  | exact (encoding : relocation.encoding = exactU64) (value : (u64At memory field).toNat = address)
  | flagged (encoding : relocation.encoding = taFlaggedGpuVa) (bits : relocation.encodingBits ≠ 0)
      (value : u64At memory field = BitVec.ofNat 64 address ||| relocation.encodingBits)
      (free : (u64At memory field &&& ~~~relocation.encodingBits).toNat = address)
  | page (encoding : relocation.encoding = gpuVaPage32kU32) (value : (u32At memory field).toNat * 0x8000 = address)

section
variable {objects : List RelocationObject} {relocation : Relocation}

private theorem fieldBytes_length (objects : List RelocationObject) (relocation : Relocation) :
    (fieldBytes objects relocation).length = fieldWidth relocation := by
  simp only [fieldBytes,fieldWidth]
  split <;> rfl

private theorem widthOf_toNat (relocation : Relocation) : (widthOf relocation).toNat = fieldWidth relocation := by
  simp only [widthOf,fieldWidth]
  split <;> rfl

private theorem objectAt_get {index : U32} (inside : index.toNat < objects.length) :
    objects[index.toNat]? = some (objectAt objects index) := by
  rw [objectAt,getD_eq_getElem?_getD,List.getElem?_eq_getElem inside,Option.getD_some]

/-- A field has one beginning, which is where the relocation is written. -/
private theorem fieldAt_offset {field : Nat} (is : FieldAt objects relocation field) : field = (fieldWrite objects relocation).offset := by
  obtain ⟨source,data,get,mapped,begins,_⟩ := is
  have found : objectAt objects relocation.sourceObject = source := by
    rw [objectAt,getD_eq_getElem?_getD,get,Option.getD_some]
  rw [begins,fieldWrite,found,mapped,Option.getD_some]

section
variable (valid : relocationValid objects relocation = true)
include valid

private theorem fieldAt_of_valid : FieldAt objects relocation (fieldWrite objects relocation).offset := by
  simp only [relocationValid,Bool.if_false_left,Bool.and_eq_true,Bool.not_eq_true',decide_eq_false_iff_not,not_or] at valid
  obtain ⟨⟨inside,_⟩,⟨data,_,_,offset,room,_⟩,_⟩ := valid
  obtain ⟨start,mapped⟩ := Option.ne_none_iff_exists'.mp data
  refine ⟨_,start,objectAt_get (Nat.not_le.mp inside),mapped,?_,?_⟩
  · rw [fieldWrite,mapped,Option.getD_some]
  have le := BitVec.not_lt.mp offset
  rw [lt_def,toNat_sub_of_le le,widthOf_toNat] at room
  rw [le_def] at le
  simp only [fieldWrite,mapped,Option.getD_some]
  omega

theorem covers_iff {i : Nat} : (fieldWrite objects relocation).Covers i ↔ InField objects relocation i := by
  constructor
  · rintro ⟨above,below⟩
    exact ⟨_,fieldAt_of_valid valid,above,by rwa [← fieldBytes_length objects]⟩
  rintro ⟨field,is,above,below⟩
  rw [fieldAt_offset is] at above below
  exact ⟨above,by rwa [← fieldBytes_length objects] at below⟩

private theorem addressOf_toNat : (addressOf objects relocation).toNat =
      (spaceAddress relocation (objectAt objects relocation.targetObject)).toNat + relocation.targetOffset.toNat := by
  simp only [relocationValid,Bool.if_false_left,Bool.and_eq_true,Bool.not_eq_true',decide_eq_false_iff_not,not_or] at valid
  obtain ⟨_,_,⟨_,room⟩,_⟩ := valid
  have offset : (relocation.targetOffset.setWidth 64).toNat = relocation.targetOffset.toNat :=
    toNat_setWidth_of_le (by decide)
  rw [lt_def,toNat_not,offset] at room
  rw [addressOf,toNat_add,offset,Nat.mod_eq_of_lt (by omega)]

private theorem targetAddress_of_valid :
    targetAddress objects relocation = some (addressOf objects relocation).toNat := by
  have sum := addressOf_toNat valid
  simp only [relocationValid,Bool.if_false_left,Bool.and_eq_true,Bool.not_eq_true',decide_eq_false_iff_not,not_or] at valid
  obtain ⟨⟨_,inside,_⟩,⟨_,_,_,_,_,within⟩,_⟩ := valid
  rw [targetAddress,objectAt_get (Nat.not_le.mp inside),Option.filter_some,
    if_pos (decide_eq_true (BitVec.not_le.mp within)),Option.map_some,sum]

/-- The bits of each encoding: none, flags that are free in the address, or a page number that fits. -/
private theorem encoding_cases :
    (relocation.encoding = exactU64 ∧ relocation.encodingBits = 0) ∨
      (relocation.encoding = taFlaggedGpuVa ∧ relocation.encodingBits ≠ 0 ∧
        addressOf objects relocation &&& relocation.encodingBits = 0) ∨
      (relocation.encoding = gpuVaPage32kU32 ∧ (addressOf objects relocation).toNat % 0x8000 = 0 ∧
        (addressOf objects relocation).toNat / 0x8000 < 2 ^ 32) := by
  simp only [relocationValid,Bool.if_false_left,Bool.and_eq_true,Bool.not_eq_true',decide_eq_false_iff_not,not_or,
    not_and,not_not,Bool.if_true_right,Bool.or_false] at valid
  obtain ⟨⟨_,_,_,known,bits⟩,_,_,flagged,paged⟩ := valid
  by_cases page : relocation.encoding = gpuVaPage32kU32
  · obtain ⟨_,_,aligned,small⟩ := paged page
    have low := congrArg BitVec.toNat aligned
    rw [toNat_and,show (bmPageSize - 1).toNat = 2 ^ 15 - 1 from rfl,Nat.and_two_pow_sub_one_eq_mod] at low
    exact .inr (.inr ⟨page,low,by simpa [addressOf] using Nat.lt_succ_of_le (Nat.not_lt.mp small)⟩)
  by_cases ta : relocation.encoding = taFlaggedGpuVa
  · refine .inr (.inl ⟨ta,fun zero => ?_,(flagged ta).2⟩)
    rw [ta,zero] at bits
    exact bits rfl
  have exact : relocation.encoding = exactU64 := by
    have le : relocation.encoding.toNat ≤ 2 := le_def.mp (BitVec.not_lt.mp known)
    have ne : relocation.encoding.toNat ≠ 2 := fun same => page (eq_of_toNat_eq same)
    have ne' : relocation.encoding.toNat ≠ 1 := fun same => ta (eq_of_toNat_eq same)
    exact eq_of_toNat_eq (by show relocation.encoding.toNat = 0; omega)
  simp only [encodingBitsValid,exact,true_or,if_true,Bool.not_eq_false,beq_iff_eq] at bits
  exact .inl ⟨exact,bits⟩

private theorem says_written {memory : Memory} {field : Nat}
    (written : ∀ k < (fieldBytes objects relocation).length, memory (field + k) = contents (fieldBytes objects relocation) k) :
    Says relocation memory field (addressOf objects relocation).toNat := by
  rcases encoding_cases valid with ⟨exact,none⟩ | ⟨ta,some,free⟩ | ⟨page,aligned,small⟩
  · simp only [fieldBytes,exact,none,if_neg (show exactU64 ≠ gpuVaPage32kU32 by decide),u64Bytes_length] at written
    exact .exact exact (congrArg BitVec.toNat ((u64At_of_bytes written).trans BitVec.or_zero))
  · simp only [fieldBytes,ta,if_neg (show taFlaggedGpuVa ≠ gpuVaPage32kU32 by decide),u64Bytes_length] at written
    have value := u64At_of_bytes written
    refine .flagged ta some (by rw [value,ofNat_toNat,setWidth_eq]) (congrArg BitVec.toNat ?_)
    rw [value]
    refine eq_of_getLsbD_eq (fun i inside => ?_)
    have clear := congrArg (fun bits => bits.getLsbD i) free
    simp only [getLsbD_and] at clear
    cases address : (addressOf objects relocation).getLsbD i <;> cases flag : relocation.encodingBits.getLsbD i <;>
      simp_all
  simp only [fieldBytes,if_pos page,u32Bytes_length] at written
  have number : (addressOf objects relocation / bmPageSize).toNat = (addressOf objects relocation).toNat / 0x8000 := toNat_udiv
  refine .page page ?_
  rw [u32At_of_bytes written,toNat_setWidth,number]
  omega

end

end

section
variable (objects : List RelocationObject) (relocations : List Relocation) (memory : Memory)

private theorem applyRelocations_refused (refused : (applyRelocations objects relocations memory).1 = false) :
    (applyRelocations objects relocations memory).2 = memory := by
  simp only [applyRelocations] at refused ⊢
  split_ifs at refused ⊢ with empty checked
  · rfl
  rfl

variable {objects relocations memory}

private theorem applyRelocations_applied (applied : (applyRelocations objects relocations memory).1 = true) :
    (∀ relocation ∈ relocations, relocationValid objects relocation = true) ∧
      (applyRelocations objects relocations memory).2 = applyAll (relocations.map (fieldWrite objects)) memory := by
  simp only [applyRelocations] at applied ⊢
  split_ifs at applied ⊢ with empty checked
  exact ⟨all_eq_true.mp (Bool.not_eq_false _ ▸ checked),rfl⟩

/-- Where the relocations are valid, fields that do not meet are writes that do not. -/
private theorem writes_apart (valid : ∀ relocation ∈ relocations, relocationValid objects relocation = true)
    (apart : relocations.Pairwise (FieldsApart objects)) : (relocations.map (fieldWrite objects)).Pairwise Write.Apart := by
  rw [pairwise_map]
  refine apart.imp_of_mem (fun mem mem' fields i covers covers' => ?_)
  exact fields i ((covers_iff (valid _ mem)).mp covers) ((covers_iff (valid _ mem')).mp covers')

private theorem applyRelocations_perm {other : List Relocation} (perm : relocations.Perm other)
    (apart : relocations.Pairwise (FieldsApart objects)) :
    applyRelocations objects other memory = applyRelocations objects relocations memory := by
  have same : other.all (relocationValid objects) = relocations.all (relocationValid objects) := by
    rw [Bool.eq_iff_iff,all_eq_true,all_eq_true]
    exact ⟨fun all relocation mem => all relocation (perm.mem_iff.mp mem),fun all relocation mem =>
      all relocation (perm.mem_iff.mpr mem)⟩
  simp only [applyRelocations,same]
  by_cases checked : relocations.all (relocationValid objects) = false
  · simp only [if_pos checked]
  have apart' := writes_apart (all_eq_true.mp (Bool.not_eq_false _ ▸ checked)) apart
  rw [applyAll_perm (perm.map (fieldWrite objects)) apart']

end

/-- A batch is refused without a byte changed, or applied exactly: every write fills the field at
    `Data + SourceOffset` inside the source object, the field says the address of its target plus
    `TargetOffset` unless a later field meets it, no byte outside the fields changes, and where no
    two fields meet the order of the batch does not matter. -/
theorem relocations_all_or_nothing (objects : List RelocationObject) (relocations : List Relocation) (memory : Memory) :
    ((applyRelocations objects relocations memory).1 = false → (applyRelocations objects relocations memory).2 = memory) ∧
      ((applyRelocations objects relocations memory).1 = true →
        (applyRelocations objects relocations memory).2 = applyAll (relocations.map (fieldWrite objects)) memory ∧
        (∀ relocation ∈ relocations, FieldAt objects relocation (fieldWrite objects relocation).offset ∧
          (fieldWrite objects relocation).bytes.length = fieldWidth relocation) ∧
        (∀ before relocation after, relocations = before ++ relocation :: after →
          (∀ later ∈ after, FieldsApart objects relocation later) →
          ∃ field address, FieldAt objects relocation field ∧ targetAddress objects relocation = some address ∧
            Says relocation (applyRelocations objects relocations memory).2 field address) ∧
        (∀ i, (∀ relocation ∈ relocations, ¬ InField objects relocation i) →
          (applyRelocations objects relocations memory).2 i = memory i)) ∧
      (relocations.Pairwise (FieldsApart objects) → ∀ other, relocations.Perm other →
        applyRelocations objects other memory = applyRelocations objects relocations memory) := by
  refine ⟨applyRelocations_refused objects relocations memory,fun applied => ?_,fun apart other perm =>
    applyRelocations_perm perm apart⟩
  obtain ⟨valid,result⟩ := applyRelocations_applied applied
  rw [result]
  refine ⟨rfl,fun relocation mem =>
    ⟨fieldAt_of_valid (valid relocation mem),fieldBytes_length objects relocation⟩,?_,?_⟩
  · intro before relocation after is apart
    have checked : relocationValid objects relocation = true := valid relocation (by simp [is])
    refine ⟨_,_,fieldAt_of_valid checked,targetAddress_of_valid checked,says_written checked (fun k inside => ?_)⟩
    rw [is,map_append,map_cons]
    refine applyAll_last _ _ (fieldWrite objects relocation) memory (fun later mem i covers covers' => ?_) inside
    obtain ⟨source,mem',rfl⟩ := mem_map.mp mem
    have valid' : relocationValid objects source = true := valid source (by simp [is,mem'])
    exact apart source mem' i ((covers_iff checked).mp covers) ((covers_iff valid').mp covers')
  intro i none
  refine applyAll_outside (fun write mem covers => ?_)
  obtain ⟨relocation,mem',rfl⟩ := mem_map.mp mem
  exact none relocation mem' ((covers_iff (valid relocation mem')).mp covers)

/-- A batch of the three encodings, in an object of sixty-four bytes. -/
def threeEncodings : List RelocationObject × List Relocation :=
  ([⟨0x1100000000,0,64,some 0x1000⟩,⟨0x1500008000,0x800000000,0x20000,none⟩],
    [⟨0,8,1,0x40,spacePhysical,exactU64,0⟩,⟨0,16,1,0x80,spaceGpuVa,taFlaggedGpuVa,taFlagBit63⟩,
      ⟨0,60,1,0x8000,spaceGpuVa,gpuVaPage32kU32,0⟩])

theorem relocations_all_or_nothing_applied :
    (applyRelocations threeEncodings.1 threeEncodings.2 (fun _ => 0)).1 = true ∧
      u64At (applyRelocations threeEncodings.1 threeEncodings.2 (fun _ => 0)).2 0x1008 = 0x800000040 ∧
      u64At (applyRelocations threeEncodings.1 threeEncodings.2 (fun _ => 0)).2 0x1010 = 0x8000001500008080 ∧
      u32At (applyRelocations threeEncodings.1 threeEncodings.2 (fun _ => 0)).2 0x103c = 0x2a0002 ∧
      ∀ i, (∀ relocation ∈ threeEncodings.2, ¬ InField threeEncodings.1 relocation i) →
        (applyRelocations threeEncodings.1 threeEncodings.2 (fun _ => 0)).2 i = 0 := by
  have accepted : (applyRelocations threeEncodings.1 threeEncodings.2 (fun _ => 0)).1 = true := by decide
  exact ⟨accepted,by decide,by decide,by decide,
    ((relocations_all_or_nothing threeEncodings.1 threeEncodings.2 (fun _ => 0)).2.1 accepted).2.2.2⟩

end WindowsOnM1.RelocationBatch
