import WindowsOnM1.SubmitCompose

/-!
Composing and parsing are inverse to each other: the kernel mode driver accepts what the user
mode driver composes and sees what was composed, and what it accepts was composed.
-/
namespace WindowsOnM1.Submit
open AskParse ByteMemory RecordLayout List BitVec Option

def acceptsAll : Access := fun _ _ => true

/-- A header that the composers made for a command. A header of version 5 comes from one of
    version 3 for a command at the same address. -/
inductive Composed (command : NativeCommand) (va : U64) (bytes color : U32) (ranges : Fin processRangeCount → ProcessRange) :
    Option PrivateLease → Option ProcessRange → List Byte → Prop
  | v2 {header : PrivateHeaderV2} (plain : command.compute = none)
      (made : composeHeaderV2 command.render va bytes color ranges = some header) :
      Composed command va bytes color ranges none none (privateHeaderV2.write header)
  | v3 {header : PrivateHeaderV3} {lease : PrivateLease} (plain : command.compute = none)
      (made : composeHeaderV3 command.render va bytes color ranges lease = some header) :
      Composed command va bytes color ranges (some lease) none (privateHeaderV3.write header)
  | v5 {compute : NativeCompute} {bytes' : U32} {first : PrivateHeaderV3} {header : PrivateHeaderV5} {lease : PrivateLease}
      {preemption : ProcessRange} (carried : command.compute = some compute)
      (begun : composeHeaderV3 command.render va bytes' color ranges lease = some first)
      (made : composeHeaderV5 first va bytes preemption = some header) :
      Composed command va bytes color ranges (some lease) (some preemption) (privateHeaderV5.write header)

/-- The validators of the parser pass the parts of a command. -/
structure Admissible (command : NativeCommand) (preemption : Option ProcessRange) (preemptBytes : U32) (va : U64) (bytes : U32) : Prop where
  render : ∃ granted, validateRender acceptsAll command.render [] = .ok (⟨⟩,granted)
  attachments : ∀ attached, command.attachments = some attached → ∀ element ∈ attached, element.refused = false
  compute : ∀ compute range, command.compute = some compute → preemption = some range →
    validateComputeFields compute range preemptBytes va bytes = .ok

/-- The command lies in one page of 64 KiB. -/
def OnePage (va : U64) (bytes : U32) : Prop := va.toNat / 0x10000 = (va.toNat + bytes.toNat - 1) / 0x10000

/-- The private data starts with these bytes, and the call names the command after its header. -/
structure Placed (call : SubmitCall) (memory : Memory) (bytes : List Byte) (va : U64) (commandBytes : U32) : Prop where
  data : call.data = some memory
  view : call.hasView = true
  holds : Holds memory 0 bytes
  length : call.umdPrivateBytes.toNat = bytes.length
  capacity : call.umdPrivateBytes ≤ call.capacity
  va : call.dmaVa = va
  bytes : call.dmaBytes = commandBytes

structure Shows (memory : Memory) (view : SubmitView) (command : NativeCommand) (va : U64) (bytes color : U32)
    (ranges : Fin processRangeCount → ProcessRange) (lease : Option PrivateLease) (preemption : Option ProcessRange) : Prop where
  va : view.commandVa = va
  bytes : view.commandBytes = bytes
  color : view.colorFormat = color
  process : view.process = ranges
  lease : view.lease = lease.getD privateLease.zero
  render : view.renderBytes = 240 ∧ ∃ offset, view.render = some offset ∧ nativeRender.readAt memory offset = command.render
  attachments : ∀ attached, command.attachments = some attached → view.attachmentCount.toNat = attached.length ∧
    ∃ base, view.attachments = some base ∧ ∀ i element, attached[i]? = some element → attachmentAt memory base i = element
  no_attachments : command.attachments = none → view.attachments = none ∧ view.attachmentCount = 0
  has_compute : view.hasCompute = command.compute.isSome
  compute : view.compute = command.compute.getD nativeCompute.zero
  preemption : view.preemption = preemption.getD processRange.zero

private theorem does_ok {access : Access} {parser : Parser PUnit} {condition : Prop} {requests : List AccessRequest}
    (does : Does access parser condition ⟨⟩ requests) {granted : List AccessRequest} (passes : parser [] = .ok (⟨⟩,granted)) : condition :=
  ((does.gives [] ⟨⟩ granted).mp passes).1

variable {buffer : Buffer} {ranges : Fin processRangeCount → ProcessRange}

private theorem process_page {buffer' : Buffer} {i : Fin processRangeCount}
    (fits : ProcessFits buffer ranges i) (same : buffer'.dmaVa = buffer.dmaVa) (some : 0 < buffer.dmaBytes.toNat)
    (page : OnePage buffer'.dmaVa buffer'.dmaBytes) : ProcessFits buffer' ranges i := by
  have apart := rangesOverlap_iff.mp fits.command
  have aligned := fits.aligned
  refine { fits with command := rangesOverlap_iff.mpr ?_ }
  unfold OnePage at page
  rw [same] at page ⊢
  omega

/-- What a composed header reads as. -/
structure HeaderReads (memory : Memory) (version : U16) (va : U64) (bytes color : U32) (ranges : Fin processRangeCount → ProcessRange)
    (lease : Option PrivateLease) (preemption : Option ProcessRange) : Prop where
  base : privateHeader.readAt memory 0 = ⟨privateMagic,version,BitVec.ofNat 16 (headerSize version),bytes,color,va⟩
  process : (privateHeaderV2.readAt memory 0).process = ranges
  lease : leaseOf memory version = lease.getD privateLease.zero
  preemption : preemptionOf memory version = preemption.getD processRange.zero

variable {memory : Memory}

theorem reads_v2 {header : PrivateHeaderV2} (holds : Holds memory 0 (privateHeaderV2.write header)) :
    privateHeader.readAt memory 0 = header.base ∧ privateHeaderV2.readAt memory 0 = header := by
  have parts : Holds memory 0 (privateHeader.write header.base ++ (processRange.array processRangeCount).write header.process) := holds
  exact ⟨holds_write.mp (holds_append.mp parts).1,holds_write.mp holds⟩

theorem reads_v3 {header : PrivateHeaderV3} (holds : Holds memory 0 (privateHeaderV3.write header)) :
    privateHeader.readAt memory 0 = header.v2.base ∧ privateHeaderV2.readAt memory 0 = header.v2 ∧
      privateHeaderV3.readAt memory 0 = header := by
  have parts : Holds memory 0 (privateHeaderV2.write header.v2 ++ privateLease.write header.lease) := holds
  obtain ⟨base,v2⟩ := reads_v2 (holds_append.mp parts).1
  exact ⟨base,v2,holds_write.mp holds⟩

theorem reads_v5 {header : PrivateHeaderV5} (holds : Holds memory 0 (privateHeaderV5.write header)) :
    privateHeader.readAt memory 0 = header.v3.v2.base ∧ privateHeaderV2.readAt memory 0 = header.v3.v2 ∧
      privateHeaderV3.readAt memory 0 = header.v3 ∧ privateHeaderV5.readAt memory 0 = header := by
  have parts : Holds memory 0 (privateHeaderV3.write header.v3 ++ processRange.write header.preemption) := holds
  obtain ⟨base,v2,v3⟩ := reads_v3 (holds_append.mp parts).1
  exact ⟨base,v2,v3,holds_write.mp holds⟩

/-- A composed header at the start of a buffer reads as what was composed, and its ranges keep clear of the command. -/
private theorem composed_reads {command : NativeCommand} {buffer : Buffer} {color : U32} {ranges : Fin processRangeCount → ProcessRange}
    {lease : Option PrivateLease} {preemption : Option ProcessRange} {header : List Byte}
    (composed : Composed command buffer.dmaVa buffer.dmaBytes color ranges lease preemption header)
    (page : preemption.isSome = true → OnePage buffer.dmaVa buffer.dmaBytes) (holds : Holds buffer.memory 0 header) :
    ∃ version, header.length = headerSize version ∧ (version = versionProcessVa ∨ version = versionPrivateVa ∨
        version = versionRenderCompute) ∧
      HeaderReads buffer.memory version buffer.dmaVa buffer.dmaBytes color ranges lease preemption ∧
      (Leased version → (lease.getD privateLease.zero).named = true) ∧
      (version = versionRenderCompute ↔ command.compute.isSome = true) ∧ preemption.isSome = command.compute.isSome ∧
      colorClassValid color = true ∧ rangesTooSmall command.render ranges = false ∧ (∀ i, ProcessFits buffer ranges i) ∧
      0x10000 ≤ buffer.dmaVa.toNat ∧ buffer.dmaVa.toNat + buffer.dmaBytes.toNat ≤ vaEnd := by
  have last : vaEnd = 2 ^ 39 := rfl
  cases composed with
  | @v2 header plain made =>
    obtain ⟨rfl,fits⟩ := composeHeaderV2_iff.mp made
    obtain ⟨base,v2⟩ := reads_v2 holds
    obtain ⟨low,some,inside⟩ := validVa_iff.mp fits.command
    refine ⟨versionProcessVa,privateHeaderV2.write_length _,.inl rfl,⟨base,by rw [v2],rfl,rfl⟩,?_,?_,by rw [plain]; rfl,fits.colour,
      fits.large,fits.process,low,inside⟩
    · rintro (three | five)
      · cases three
      cases five
    rw [plain]
    exact iff_of_false (by decide) Bool.false_ne_true
  | @v3 header lease plain made =>
    obtain ⟨rfl,named,fits⟩ := composeHeaderV3_iff.mp made
    obtain ⟨base,v2,v3⟩ := reads_v3 holds
    obtain ⟨low,some,inside⟩ := validVa_iff.mp fits.command
    refine ⟨versionPrivateVa,privateHeaderV3.write_length _,.inr (.inl rfl),⟨base,by rw [v2],?_,rfl⟩,fun _ => named,?_,
      by rw [plain]; rfl,fits.colour,fits.large,fits.process,low,inside⟩
    · rw [leaseOf,if_pos (.inl rfl),v3]
      rfl
    rw [plain]
    exact iff_of_false (by decide) Bool.false_ne_true
  | @v5 compute bytes' first header lease preemption carried begun made =>
  obtain ⟨rfl,named,fits⟩ := (@composeHeaderV3_iff { buffer with dmaBytes := bytes' } _ _ _ _ _).mp begun
  obtain ⟨rfl,-,-⟩ := composeHeaderV5_iff.mp made
  obtain ⟨base,v2,v3,v5⟩ := reads_v5 holds
  obtain ⟨low,some,inside⟩ := validVa_iff.mp fits.command
  refine ⟨versionRenderCompute,privateHeaderV5.write_length _,.inr (.inr rfl),⟨base,by rw [v2],?_,?_⟩,fun _ => named,?_,
    by rw [carried]; rfl,fits.colour,fits.large,fun i => process_page (fits.process i) rfl some (page rfl),low,?_⟩
  · rw [leaseOf,if_pos (.inr rfl),v3]
    rfl
  · rw [preemptionOf,if_pos rfl,v5]
    rfl
  · rw [carried]
    exact iff_of_true rfl rfl
  have one := page rfl
  unfold OnePage at one
  dsimp only at inside some
  omega

variable {command : NativeCommand}

theorem command_few (small : command.bytes.length ≤ nativeMaxBytes) :
    ∀ attached, command.attachments = some attached → 24 * attached.length < 2 ^ 16 := by
  intro attached there
  have limit : nativeMaxBytes = 4096 := rfl
  rw [NativeCommand.bytes_length,NativeCommand.position,there] at small
  dsimp only [elim_some] at small
  omega

private theorem envelopeFits_of {buffer : Buffer} {preemptBytes : U32} {version : U16} {color : U32} {command : NativeCommand}
    {ranges : Fin processRangeCount → ProcessRange} {lease : Option PrivateLease} {preemption : Option ProcessRange}
    (known : version = versionProcessVa ∨ version = versionPrivateVa ∨ version = versionRenderCompute)
    (header : HeaderReads buffer.memory version buffer.dmaVa buffer.dmaBytes color ranges lease preemption)
    (named : Leased version → (lease.getD privateLease.zero).named = true)
    (five : version = versionRenderCompute ↔ command.compute.isSome = true) (together : preemption.isSome = command.compute.isSome)
    (colour : colorClassValid color = true) (large : rangesTooSmall command.render ranges = false)
    (process : ∀ i, ProcessFits buffer ranges i) (required : preemption.isSome = true → preemptBytes ≠ 0)
    (admissible : Admissible command preemption preemptBytes buffer.dmaVa buffer.dmaBytes)
    (filled : buffer.umd = headerSize version + buffer.dmaBytes.toNat) (framed : command.bytes.length = buffer.dmaBytes.toNat)
    (small : buffer.dmaBytes.toNat ≤ nativeMaxBytes) (reads : command.ReadsAs buffer.memory (headerSize version)) :
    EnvelopeFits buffer preemptBytes (privateHeader.readAt buffer.memory 0) ∧ startOf version = command.start := by
  have few := command_few (framed ▸ small)
  have sized : (BitVec.ofNat 16 (headerSize version)).toNat = headerSize version := by
    rcases known with rfl | rfl | rfl
    · rfl
    · rfl
    rfl
  have newer : version ≥ versionProcessVa := by
    rcases known with rfl | rfl | rfl
    all_goals decide
  have other : version ≠ versionRenderCompute → command.compute.isSome = false :=
    fun no => Bool.eq_false_iff.mpr (fun yes => no (five.mpr yes))
  have start : startOf version = command.start := by
    unfold startOf NativeCommand.start
    split
    · rename_i yes
      rw [if_pos (five.mp yes)]
    rename_i yes
    rw [other yes]
    rfl
  have isFive : command.compute.isSome = decide (version = versionRenderCompute) := by
    by_cases yes : version = versionRenderCompute
    · rw [five.mp yes,decide_eq_true yes]
    rw [other yes,decide_eq_false yes]
  have length := command.bytes_length
  have attached := attachedOf_reads reads few
  refine ⟨?_,start⟩
  rw [header.base]
  refine ⟨⟨rfl,.inr known,sized,?_,rfl,rfl,?_,fun yes => required (together ▸ five.mp yes)⟩,⟨fun _ => colour,?_,?_⟩,?_,?_,?_,?_⟩
  · rintro rfl
    exact absurd newer (by decide)
  · rw [sized]
    exact filled
  · intro leased
    rw [header.lease]
    exact named leased
  · intro _ i
    rw [header.process]
    exact process i
  · omega
  · intro yes
    obtain ⟨compute,there⟩ := isSome_iff_exists.mp (five.mp yes)
    obtain ⟨range,held⟩ := isSome_iff_exists.mp (together ▸ five.mp yes)
    obtain ⟨first,value⟩ := reads.compute compute there
    refine ⟨first,?_,by omega⟩
    rw [computeOf,if_pos yes,value,header.preemption,held]
    exact admissible.compute compute range there held
  · rw [start]
    intro typed
    cases there : command.attachments with
    | none =>
      have position : command.position = command.start := by
        rw [NativeCommand.position,there]
        rfl
      have first := reads.header
      rw [position] at first
      rw [first] at typed
      exact absurd typed (show ¬ nativeRenderType = fragmentAttachments by decide)
    | some listed =>
    obtain ⟨first,elements⟩ := reads.attachments listed there
    have size := attachmentsHeader_size (few listed there)
    have position : command.position = command.start + (8 + 24 * listed.length) := by
      rw [NativeCommand.position,there]
      rfl
    rw [first]
    refine ⟨rfl,rfl,?_,?_,?_⟩
    · rw [size]
      exact Nat.mul_mod_right _ _
    · omega
    intro i below
    rw [size,Nat.mul_div_cancel_left _ (by decide : 0 < 24)] at below
    rw [elements i _ (getElem?_eq_getElem below)]
    exact admissible.attachments listed there _ (getElem_mem below)
  rw [start,attached]
  have render : renderOf buffer.memory (headerSize version) (command.attached (headerSize version)) = command.render := reads.render
  obtain ⟨granted,passes⟩ := admissible.render
  refine ⟨?_,?_,?_,?_⟩
  · rw [← isFive]
    rfl
  · show command.position + 248 = _
    omega
  · rw [render]
    exact does_ok (validateRender_does acceptsAll command.render) passes
  intro _
  rw [render,tailOf,if_pos newer,header.process]
  exact large

theorem shows_viewOf {buffer : Buffer} {version : U16} {color : U32} {command : NativeCommand}
    {ranges : Fin processRangeCount → ProcessRange} {lease : Option PrivateLease} {preemption : Option ProcessRange}
    (newer : version ≥ versionProcessVa)
    (header : HeaderReads buffer.memory version buffer.dmaVa buffer.dmaBytes color ranges lease preemption)
    (five : version = versionRenderCompute ↔ command.compute.isSome = true) (together : preemption.isSome = command.compute.isSome)
    (few : ∀ attached, command.attachments = some attached → 24 * attached.length < 2 ^ 16) (start : startOf version = command.start)
    (reads : command.ReadsAs buffer.memory (headerSize version)) :
    Shows buffer.memory (viewOf buffer (privateHeader.readAt buffer.memory 0)) command buffer.dmaVa buffer.dmaBytes color ranges lease
      preemption := by
  have attached := attachedOf_reads reads few
  rw [header.base]
  have tail : tailOf buffer.memory version = ⟨ranges,lease.getD privateLease.zero,preemption.getD processRange.zero⟩ := by
    rw [tailOf,if_pos newer,header.process,header.lease,header.preemption]
  refine ⟨rfl,rfl,if_pos newer,?_,?_,?_,?_,?_,?_,?_,?_⟩
  · show (if version ≥ versionProcessVa then (tailOf buffer.memory version).process else _) = ranges
    rw [if_pos newer,tail]
  · show (tailOf buffer.memory version).lease = _
    rw [tail]
  · show (attachedOf buffer.memory (headerSize version) (startOf version)).header.size.setWidth 32 = 240 ∧
      ∃ offset, some (headerSize version + (attachedOf buffer.memory (headerSize version) (startOf version)).position + 8) = some offset ∧ _
    rw [start,attached]
    exact ⟨rfl,_,rfl,reads.render⟩
  · intro listed there
    show (BitVec.ofNat 32 (attachedOf buffer.memory (headerSize version) (startOf version)).count).toNat = _ ∧
      ∃ base, (attachedOf buffer.memory (headerSize version) (startOf version)).base = some base ∧ _
    have fewer := few listed there
    rw [start,attached]
    unfold NativeCommand.attached
    dsimp only
    rw [there]
    refine ⟨?_,_,rfl,(reads.attachments listed there).2⟩
    rw [elim_some,toNat_ofNat]
    exact Nat.mod_eq_of_lt (by omega)
  · intro none
    show (attachedOf buffer.memory (headerSize version) (startOf version)).base = Option.none ∧
      BitVec.ofNat 32 (attachedOf buffer.memory (headerSize version) (startOf version)).count = 0
    rw [start,attached]
    unfold NativeCommand.attached
    rw [none]
    exact ⟨rfl,rfl⟩
  · show decide (version = versionRenderCompute) = _
    by_cases yes : version = versionRenderCompute
    · rw [five.mp yes,decide_eq_true yes]
    rw [decide_eq_false yes]
    exact (Bool.eq_false_iff.mpr (fun some => yes (five.mpr some))).symm
  · show (if version = versionRenderCompute then computeOf buffer.memory version else nativeCompute.zero) = _
    by_cases yes : version = versionRenderCompute
    · obtain ⟨compute,there⟩ := isSome_iff_exists.mp (five.mp yes)
      rw [if_pos yes,computeOf,if_pos yes,(reads.compute compute there).2,there]
      rfl
    rw [if_neg yes,not_isSome_iff_eq_none.mp (fun some => yes (five.mpr some))]
    rfl
  show (if version = versionRenderCompute then (tailOf buffer.memory version).preemption else processRange.zero) = _
  rw [tail]
  by_cases yes : version = versionRenderCompute
  · rw [if_pos yes]
  rw [if_neg yes]
  have none : preemption = none := by
    rw [← not_isSome_iff_eq_none,together]
    exact fun some => yes (five.mpr some)
  rw [none]
  rfl

variable {va : U64} {bytes : U32} {lease : Option PrivateLease} {preemption : Option ProcessRange} {header : List Byte} {call : SubmitCall} {preemptBytes : U32}

/-- A composed header and its command parse to a view of what was composed. -/
theorem parse_composed {color : U32} (composed : Composed command va bytes color ranges lease preemption header)
    (page : preemption.isSome = true → OnePage va bytes) (framed : command.bytes.length = bytes.toNat)
    (small : bytes.toNat ≤ nativeMaxBytes) (admissible : Admissible command preemption preemptBytes va bytes)
    (required : preemption.isSome = true → preemptBytes ≠ 0) (placed : Placed call memory (header ++ command.bytes) va bytes)
    (accepts : call.access = some acceptsAll) (failure : Option Failure) :
    ∃ given, parse call preemptBytes failure = some given ∧ given.result = .ok ∧
      Shows memory given.view command va bytes color ranges lease preemption := by
  let buffer : Buffer := ⟨memory,call.umdPrivateBytes.toNat,va,bytes,acceptsAll⟩
  obtain ⟨held,kept⟩ := holds_append.mp placed.holds
  obtain ⟨version,size,known,reads,named,five,together,colour,large,process,low,high⟩ := @composed_reads _ buffer _ _ _ _ _ composed page held
  rw [Nat.zero_add,size] at kept
  have command_reads := NativeCommand.holds_iff.mp kept
  have filled : buffer.umd = headerSize version + buffer.dmaBytes.toNat := by
    show call.umdPrivateBytes.toNat = _ + bytes.toNat
    rw [placed.length,length_append,size,framed]
  have length := command.bytes_length
  have arguments : ArgumentsFit call 24 := by
    refine ⟨placed.view,?_,placed.capacity,placed.bytes ▸ small,validVa_iff.mpr ?_⟩
    · rw [placed.length,length_append]
      omega
    rw [placed.va,placed.bytes]
    exact ⟨low,by omega,high⟩
  obtain ⟨fits,start⟩ := @envelopeFits_of buffer preemptBytes version color command ranges lease preemption known reads named five together
    colour large process required admissible filled framed small command_reads
  have newer : version ≥ versionProcessVa := by
    rcases known with rfl | rfl | rfl
    all_goals decide
  have made : call.buffer 24 = some buffer :=
    buffer_some.mpr ⟨⟨placed.data,accepts,rfl,placed.va.symm,placed.bytes.symm⟩,argumentsRefused_iff.mpr arguments⟩
  have ends := ends_of_does (@parseEnvelope_does buffer preemptBytes arguments.long) SubmitView.zero failure
  obtain ⟨given,there,good⟩ := ends.complete fits (granted_all (fun _ _ => rfl) _ _)
  refine ⟨given,?_,good,?_⟩
  · rw [parse,made]
    exact there
  rw [(ends.sound given there good).2.1]
  exact @shows_viewOf buffer version color command ranges lease preemption newer reads five together (command_few (framed ▸ small)) start
    command_reads

variable {compute : NativeCompute}

private theorem preemption_nonempty {preemption : ProcessRange}
    (passes : validateComputeFields compute preemption preemptBytes va bytes = .ok) : preemption.bytes ≠ 0 :=
  zero_bytes_iff.mp (validVa_iff.mp (computeFieldsFit passes).valid).2.1

private theorem base_of_fits {header : PrivateHeader} (fits : HeaderFits buffer preemptBytes header) :
    header = ⟨privateMagic,header.version,BitVec.ofNat 16 (headerSize header.version),buffer.dmaBytes,header.reserved,buffer.dmaVa⟩ := by
  have sized := fits.sized
  rw [← sized,ofNat_toNat,setWidth_eq,PrivateHeader.mk.injEq]
  exact ⟨fits.magic,rfl,rfl,fits.counted,rfl,fits.placed⟩

/-- The header of a parsed buffer is composed of what the parser read. -/
private theorem composed_of_fits {version : U16} {color : U32} (base : privateHeader.readAt buffer.memory 0 =
      ⟨privateMagic,version,BitVec.ofNat 16 (headerSize version),buffer.dmaBytes,color,buffer.dmaVa⟩)
    (fits : EnvelopeFits buffer preemptBytes (privateHeader.readAt buffer.memory 0)) (newer : version ≠ privateVersion)
    (valid : validVa buffer.dmaVa.toNat buffer.dmaBytes.toNat = true) (small : buffer.dmaBytes.toNat ≤ nativeMaxBytes) :
    ∃ lease preemption header, Composed (commandOf buffer.memory version) buffer.dmaVa buffer.dmaBytes color
        (privateHeaderV2.readAt buffer.memory 0).process lease preemption header ∧
      HeaderReads buffer.memory version buffer.dmaVa buffer.dmaBytes color (privateHeaderV2.readAt buffer.memory 0).process lease
        preemption ∧
      Holds buffer.memory 0 header ∧ header.length = headerSize version ∧ version ≥ versionProcessVa ∧
      preemption.isSome = (commandOf buffer.memory version).compute.isSome := by
  have known := fits.head.known
  have tail := fits.tail
  have command := fits.command
  have computes := fits.compute
  rw [base] at known tail command computes
  have compose : version ≥ versionProcessVa → ComposeFits buffer (commandOf buffer.memory version).render color
      (privateHeaderV2.readAt buffer.memory 0).process := by
    intro later
    refine ⟨tail.colour later,valid,small,?_,tail.process later⟩
    have large := command.required later
    rw [tailOf,if_pos later] at large
    exact large
  rcases known with one | rfl | rfl | rfl
  · exact absurd one newer
  · have holds : Holds buffer.memory 0 (privateHeaderV2.write (privateHeaderV2.readAt buffer.memory 0)) := holds_write.mpr rfl
    have made := composeHeaderV2_iff.mpr ⟨rfl,compose (by decide)⟩
    have same : privateHeaderV2.readAt buffer.memory 0 =
        ⟨⟨privateMagic,versionProcessVa,168,buffer.dmaBytes,color,buffer.dmaVa⟩,(privateHeaderV2.readAt buffer.memory 0).process⟩ := by
      refine (congrArg (fun first => PrivateHeaderV2.mk first (privateHeaderV2.readAt buffer.memory 0).process) ?_ :)
      exact (reads_v2 holds).1.symm.trans base
    exact ⟨none,none,_,.v2 rfl made,⟨base,rfl,rfl,rfl⟩,holds_write.mpr same,privateHeaderV2.write_length _,by decide,rfl⟩
  · have holds : Holds buffer.memory 0 (privateHeaderV3.write (privateHeaderV3.readAt buffer.memory 0)) := holds_write.mpr rfl
    obtain ⟨first,second,-⟩ := reads_v3 holds
    have lease : leaseOf buffer.memory versionPrivateVa = (privateHeaderV3.readAt buffer.memory 0).lease := if_pos (.inl rfl)
    have made := composeHeaderV3_iff.mpr ⟨rfl,lease ▸ tail.lease (.inl rfl),compose (by decide)⟩
    have same : privateHeaderV3.readAt buffer.memory 0 =
        ⟨⟨⟨privateMagic,versionPrivateVa,200,buffer.dmaBytes,color,buffer.dmaVa⟩,(privateHeaderV2.readAt buffer.memory 0).process⟩,
          (privateHeaderV3.readAt buffer.memory 0).lease⟩ := by
      rw [second]
      exact congrArg (fun base => PrivateHeaderV3.mk ⟨base,(privateHeaderV3.readAt buffer.memory 0).v2.process⟩
        (privateHeaderV3.readAt buffer.memory 0).lease) (first.symm.trans base)
    exact ⟨some _,none,_,.v3 rfl made,⟨base,rfl,lease,rfl⟩,holds_write.mpr same,privateHeaderV3.write_length _,by decide,rfl⟩
  have holds : Holds buffer.memory 0 (privateHeaderV5.write (privateHeaderV5.readAt buffer.memory 0)) := holds_write.mpr rfl
  obtain ⟨first,second,third,-⟩ := reads_v5 holds
  have lease : leaseOf buffer.memory versionRenderCompute = (privateHeaderV3.readAt buffer.memory 0).lease := if_pos (.inr rfl)
  have preemption : preemptionOf buffer.memory versionRenderCompute = (privateHeaderV5.readAt buffer.memory 0).preemption := if_pos rfl
  have named : (privateHeaderV3.readAt buffer.memory 0).lease.named = true := lease ▸ tail.lease (.inr rfl)
  have begun := composeHeaderV3_iff.mpr ⟨rfl,named,compose (by decide)⟩
  have some : (privateHeaderV5.readAt buffer.memory 0).preemption.bytes ≠ 0 :=
    preemption ▸ preemption_nonempty (computes rfl).fields
  have made := (@composeHeaderV5_iff ⟨⟨⟨privateMagic,versionPrivateVa,200,buffer.dmaBytes,color,buffer.dmaVa⟩,
    (privateHeaderV2.readAt buffer.memory 0).process⟩,(privateHeaderV3.readAt buffer.memory 0).lease⟩ buffer.dmaVa buffer.dmaBytes
    (privateHeaderV5.readAt buffer.memory 0).preemption _).mpr ⟨rfl,some,named⟩
  have same : privateHeaderV5.readAt buffer.memory 0 =
      ⟨⟨⟨⟨privateMagic,versionRenderCompute,216,buffer.dmaBytes,color,buffer.dmaVa⟩,(privateHeaderV2.readAt buffer.memory 0).process⟩,
        (privateHeaderV3.readAt buffer.memory 0).lease⟩,(privateHeaderV5.readAt buffer.memory 0).preemption⟩ := by
    rw [second,third]
    exact congrArg (fun base => PrivateHeaderV5.mk ⟨⟨base,(privateHeaderV5.readAt buffer.memory 0).v3.v2.process⟩,
      (privateHeaderV5.readAt buffer.memory 0).v3.lease⟩ (privateHeaderV5.readAt buffer.memory 0).preemption) (first.symm.trans base)
  have carried : (commandOf buffer.memory versionRenderCompute).compute = Option.some (computeOf buffer.memory versionRenderCompute) := by
    show (if versionRenderCompute = versionRenderCompute then Option.some (computeOf buffer.memory versionRenderCompute) else none) = _
    rw [if_pos rfl]
  exact ⟨Option.some _,Option.some _,_,.v5 carried begun made,⟨base,rfl,lease,preemption⟩,holds_write.mpr same,
    privateHeaderV5.write_length _,by decide,rfl⟩

variable {failure : Option Failure} {given : Outcome SubmitView}

theorem parse_recomposed (parsed : parse call preemptBytes failure = some given) (good : given.result = .ok) :
    ∃ memory, call.data = some memory ∧ ((privateHeader.readAt memory 0).version ≠ privateVersion →
      ∃ command color ranges lease preemption header,
        Composed command call.dmaVa call.dmaBytes color ranges lease preemption header ∧
        Placed call memory (header ++ command.bytes) call.dmaVa call.dmaBytes ∧ command.bytes.length = call.dmaBytes.toNat ∧
        Shows memory given.view command call.dmaVa call.dmaBytes color ranges lease preemption) := by
  unfold parse at parsed
  match made : call.buffer 24 with
  | none =>
    rw [made] at parsed
    cases parsed
    cases good
  | some buffer =>
    rw [made] at parsed
    obtain ⟨⟨data,access,umd,va,bytes⟩,arguments⟩ := buffer_some.mp made
    have checked := argumentsRefused_iff.mp arguments
    have long : 24 ≤ buffer.umd := umd ▸ checked.long
    have ends := ends_of_does (parseEnvelope_does preemptBytes long) SubmitView.zero failure
    obtain ⟨fits,view,-,-⟩ := ends.sound given parsed good
    refine ⟨buffer.memory,data,fun newer => ?_⟩
    rw [← va,← bytes]
    have base := base_of_fits fits.head
    generalize found : (privateHeader.readAt buffer.memory 0).version = version at base newer
    generalize (privateHeader.readAt buffer.memory 0).reserved = color at base
    obtain ⟨lease,preemption,header,composed,reads,holds,size,later,together⟩ := composed_of_fits base fits newer
      (by rw [va,bytes]; exact checked.valid) (by rw [bytes]; exact checked.small)
    have command_reads := commandOf_reads fits
    have position := commandOf_position fits
    have ends := fits.command.ends
    have filled := fits.head.filled
    rw [fits.head.sized] at filled
    rw [found] at command_reads position ends filled
    have framed : (commandOf buffer.memory version).bytes.length = buffer.dmaBytes.toNat := by
      rw [NativeCommand.bytes_length,position]
      exact ends
    refine ⟨commandOf buffer.memory version,color,_,lease,preemption,header,composed,?_,framed,?_⟩
    · refine ⟨data,checked.view,holds_append.mpr ⟨holds,?_⟩,?_,checked.capacity,va.symm,bytes.symm⟩
      · rw [Nat.zero_add,size]
        exact NativeCommand.holds_iff.mpr command_reads
      rw [← umd,filled,length_append,size,framed]
    rw [view]
    refine shows_viewOf later reads ?_ together (command_few ?_) (commandOf_start _ _).symm command_reads
    · rw [commandOf_isSome]
      exact decide_eq_true_iff.symm
    rw [framed,bytes]
    exact checked.small

theorem computeFrame_length (compute : NativeCompute) : (computeFrame compute).length = 72 := by
  rfl

/-- A view of a composed compute envelope. -/
def computeShown (compute : NativeCompute) (preemption : ProcessRange) (va : U64) (bytes : U32) : ComputeView :=
  ⟨some 40,compute,preemption,bytes,va⟩

theorem holds_compute_iff {header : PrivateHeaderCompute} :
    Holds memory 0 (privateHeaderCompute.write header ++ computeFrame compute) ↔ privateHeaderCompute.readAt memory 0 = header ∧
      nativeHeader.readAt memory 40 = computeHeader ∧ nativeCompute.readAt memory 48 = compute := by
  rw [holds_append,holds_write,computeFrame,holds_append,holds_write,holds_write,privateHeaderCompute.write_length,
    nativeHeader.write_length]
  rfl

private theorem parse_composed_compute {preemption : ProcessRange} {header : PrivateHeaderCompute}
    (composed : composeHeaderCompute va bytes preemption = some header) (framed : (computeFrame compute).length = bytes.toNat)
    (fields : validateComputeFields compute preemption preemptBytes va bytes = .ok) (required : preemptBytes ≠ 0)
    (placed : Placed call memory (privateHeaderCompute.write header ++ computeFrame compute) va bytes)
    (accepts : call.access = some acceptsAll) (failure : Option Failure) :
    ∃ given, parseComputeEx call preemptBytes failure = some given ∧ given.result = .ok ∧
      given.view = computeShown compute preemption va bytes := by
  obtain ⟨rfl,valid,small,-⟩ := composeHeaderCompute_iff.mp composed
  obtain ⟨reads,first,value⟩ := holds_compute_iff.mp placed.holds
  have length : call.umdPrivateBytes.toNat = 40 + bytes.toNat := by
    rw [placed.length,length_append,privateHeaderCompute.write_length,framed]
    rfl
  have exactly : bytes.toNat = 72 := by rw [← framed,computeFrame_length]
  let buffer : Buffer := ⟨memory,call.umdPrivateBytes.toNat,va,bytes,acceptsAll⟩
  have arguments : ArgumentsFit call 40 :=
    ⟨placed.view,by omega,placed.capacity,placed.bytes ▸ small,by rw [placed.va,placed.bytes]; exact valid⟩
  have made : call.buffer 40 = some buffer :=
    buffer_some.mpr ⟨⟨placed.data,accepts,rfl,placed.va.symm,placed.bytes.symm⟩,argumentsRefused_iff.mpr arguments⟩
  have fits : ComputeEnvelopeFits buffer preemptBytes := by
    refine ⟨?_,length,exactly,first,?_⟩
    · rw [reads]
    rw [reads,value]
    exact fields
  have ends := ends_of_does (@parseComputeEnvelope_does buffer preemptBytes arguments.long) ComputeView.zero failure
  obtain ⟨given,there,good⟩ := ends.complete fits (granted_all (fun _ _ => rfl) _ _)
  refine ⟨given,?_,good,?_⟩
  · rw [parseComputeEx,made]
    dsimp only
    rw [if_neg required]
    exact there
  rw [(ends.sound given there good).2.1]
  show (⟨some 40,nativeCompute.readAt memory 48,(privateHeaderCompute.readAt memory 0).preemption,bytes,va⟩ : ComputeView) = _
  rw [reads,value]
  rfl

private theorem parse_recomposed_compute {given : Outcome ComputeView}
    (parsed : parseComputeEx call preemptBytes failure = some given) (good : given.result = .ok) :
    ∃ memory header, call.data = some memory ∧
      composeHeaderCompute call.dmaVa call.dmaBytes given.view.preemption = some header ∧
      Placed call memory (privateHeaderCompute.write header ++ computeFrame given.view.compute) call.dmaVa call.dmaBytes ∧
      (computeFrame given.view.compute).length = call.dmaBytes.toNat ∧
      given.view = computeShown given.view.compute given.view.preemption call.dmaVa call.dmaBytes := by
  unfold parseComputeEx at parsed
  match made : call.buffer 40 with
  | none =>
    rw [made] at parsed
    cases parsed
    cases good
  | some buffer =>
    rw [made] at parsed
    dsimp only at parsed
    by_cases zero : preemptBytes = 0
    · rw [if_pos zero] at parsed
      cases parsed
      cases good
    rw [if_neg zero] at parsed
    obtain ⟨⟨data,access,umd,va,bytes⟩,arguments⟩ := buffer_some.mp made
    have checked := argumentsRefused_iff.mp arguments
    have long : 40 ≤ buffer.umd := umd ▸ checked.long
    have ends := ends_of_does (parseComputeEnvelope_does preemptBytes long) ComputeView.zero failure
    obtain ⟨fits,view,-,-⟩ := ends.sound given parsed good
    have range := computeFieldsFit fits.fields
    have compute : given.view.compute = nativeCompute.readAt buffer.memory 48 := congrArg ComputeView.compute view
    have preemption : given.view.preemption = (privateHeaderCompute.readAt buffer.memory 0).preemption :=
      congrArg ComputeView.preemption view
    have framed : (computeFrame given.view.compute).length = call.dmaBytes.toNat := by
      rw [computeFrame_length,← bytes,fits.exact]
    have reads : privateHeaderCompute.readAt buffer.memory 0 =
        ⟨⟨privateMagic,versionCompute,40,call.dmaBytes,0,call.dmaVa⟩,given.view.preemption⟩ := by
      rw [preemption,← va,← bytes,← fits.base]
    refine ⟨buffer.memory,_,data,composeHeaderCompute_iff.mpr ⟨rfl,checked.valid,checked.small,?_⟩,?_,framed,?_⟩
    · rw [preemption,← va,← bytes]
      exact ⟨range.reserved,range.aligned,range.whole,range.valid,range.command⟩
    · refine ⟨data,checked.view,holds_compute_iff.mpr ⟨reads,fits.header,compute.symm⟩,?_,checked.capacity,rfl,rfl⟩
      rw [length_append,privateHeaderCompute.write_length,framed,← umd,← bytes,fits.filled]
      rfl
    rw [compute,preemption,view,← va,← bytes]
    rfl

private theorem composed_small {color : U32} (composed : Composed command va bytes color ranges lease preemption header)
    (small : preemption.isSome = true → bytes.toNat ≤ nativeMaxBytes) : bytes.toNat ≤ nativeMaxBytes := by
  cases composed with
  | v2 plain made => exact (((@composeHeaderV2_iff ⟨fun _ => 0,0,va,bytes,acceptsAll⟩ _ _ _ _).mp made).2).small
  | v3 plain made => exact (((@composeHeaderV3_iff ⟨fun _ => 0,0,va,bytes,acceptsAll⟩ _ _ _ _ _).mp made).2.2).small
  | v5 carried begun made => exact small rfl

/-- The part of a composed command of version 5 that the composers leave to the caller: it lies
    in one page, is not too long, and the parser knows what preemption it needs. -/
def Carried (preemption : Option ProcessRange) (preemptBytes : U32) (va : U64) (bytes : U32) : Prop :=
  preemption.isSome = true → OnePage va bytes ∧ bytes.toNat ≤ nativeMaxBytes ∧ preemptBytes ≠ 0

/-- The parser accepts the call and shows what was composed. -/
def AcceptedAs (result : Option (Outcome SubmitView)) (memory : Memory) (command : NativeCommand) (va : U64) (bytes color : U32)
    (ranges : Fin processRangeCount → ProcessRange) (lease : Option PrivateLease) (preemption : Option ProcessRange) : Prop :=
  ∃ given, result = some given ∧ given.result = .ok ∧ Shows memory given.view command va bytes color ranges lease preemption

/-- An accepted call of version 2, 3 or 5 is the composition of what its view shows. -/
def Recomposed (call : SubmitCall) (result : Option (Outcome SubmitView)) : Prop :=
  ∀ given, result = some given → given.result = .ok → ∃ memory, call.data = some memory ∧
    ((privateHeader.readAt memory 0).version ≠ privateVersion → ∃ command color ranges lease preemption header,
      Composed command call.dmaVa call.dmaBytes color ranges lease preemption header ∧
      Placed call memory (header ++ command.bytes) call.dmaVa call.dmaBytes ∧ command.bytes.length = call.dmaBytes.toNat ∧
      Shows memory given.view command call.dmaVa call.dmaBytes color ranges lease preemption)

def RecomposedCompute (call : SubmitCall) (result : Option (Outcome ComputeView)) : Prop :=
  ∀ given, result = some given → given.result = .ok → ∃ memory header, call.data = some memory ∧
    composeHeaderCompute call.dmaVa call.dmaBytes given.view.preemption = some header ∧
    Placed call memory (privateHeaderCompute.write header ++ computeFrame given.view.compute) call.dmaVa call.dmaBytes ∧
    (computeFrame given.view.compute).length = call.dmaBytes.toNat ∧
    given.view = computeShown given.view.compute given.view.preemption call.dmaVa call.dmaBytes

/-- Composing and parsing are inverse to each other. -/
theorem composed_iff_parsed : (∀ command va bytes color ranges lease preemption header call memory preemptBytes failure,
      Composed command va bytes color ranges lease preemption header → Carried preemption preemptBytes va bytes →
      command.bytes.length = bytes.toNat → Admissible command preemption preemptBytes va bytes →
      Placed call memory (header ++ command.bytes) va bytes → call.access = some acceptsAll →
      (preemptBytes ≠ 0 → AcceptedAs (parseSubmitComputeEx call preemptBytes failure) memory command va bytes color ranges lease preemption) ∧
      (preemption = none → AcceptedAs (parseSubmitEx call failure) memory command va bytes color ranges lease preemption ∧
        AcceptedAs (parseSubmit call (some (fun _ _ _ _ => true))) memory command va bytes color ranges lease preemption)) ∧
    (∀ compute preemption va bytes header call memory preemptBytes failure,
      composeHeaderCompute va bytes preemption = some header → (computeFrame compute).length = bytes.toNat →
      validateComputeFields compute preemption preemptBytes va bytes = .ok → preemptBytes ≠ 0 →
      Placed call memory (privateHeaderCompute.write header ++ computeFrame compute) va bytes → call.access = some acceptsAll →
      ∃ given, parseComputeEx call preemptBytes failure = some given ∧ given.result = .ok ∧
        given.view = computeShown compute preemption va bytes) ∧
    (∀ call access, Recomposed call (parseSubmit call access)) ∧ (∀ call failure, Recomposed call (parseSubmitEx call failure)) ∧
    (∀ call preemptBytes failure, Recomposed call (parseSubmitComputeEx call preemptBytes failure)) ∧
    (∀ call preemptBytes failure, RecomposedCompute call (parseComputeEx call preemptBytes failure)) := by
  refine ⟨?_,?_,?_,?_,?_,?_⟩
  · intro command va bytes color ranges lease preemption header call memory preemptBytes failure composed carried framed admissible placed
      accepts
    have small := composed_small composed (fun five => (carried five).2.1)
    refine ⟨fun required => ?_,fun none => ?_⟩
    · unfold parseSubmitComputeEx
      rw [if_neg required]
      exact parse_composed composed (fun five => (carried five).1) framed small admissible (fun _ => required) placed accepts failure
    subst none
    have plain : Admissible command Option.none 0 va bytes :=
      { admissible with compute := nofun }
    have placed' : Placed { call with access := some (OldAccess.typed (fun _ _ _ _ => true)) } memory (header ++ command.bytes) va bytes :=
      { placed with }
    exact ⟨parse_composed composed nofun framed small plain nofun
        placed accepts failure,
      parse_composed composed nofun framed small plain nofun
        placed' rfl Option.none⟩
  · intro compute preemption va bytes header call memory preemptBytes failure composed framed fields required placed accepts
    exact parse_composed_compute composed framed fields required placed accepts failure
  · intro call access given parsed good
    obtain ⟨memory,data,recomposed⟩ := parse_recomposed parsed good
    refine ⟨memory,data,fun newer => ?_⟩
    obtain ⟨command,color,ranges,lease,preemption,header,composed,placed,framed,shows⟩ := recomposed newer
    exact ⟨command,color,ranges,lease,preemption,header,composed,
      { placed with },framed,shows⟩
  · exact fun call failure given parsed good => parse_recomposed parsed good
  · intro call preemptBytes failure given parsed good
    unfold parseSubmitComputeEx at parsed
    by_cases zero : preemptBytes = 0
    · rw [if_pos zero] at parsed
      cases parsed
      cases good
    · rw [if_neg zero] at parsed
      exact parse_recomposed parsed good
  · exact fun call preemptBytes failure given parsed good => parse_recomposed_compute parsed good

instance (address : RenderAddress) : Decidable address.Fits := inferInstanceAs (Decidable (_ → _))
instance (va : U64) (bytes : U32) : Decidable (OnePage va bytes) := inferInstanceAs (Decidable (_ = _))
def sampleRanges (i : Fin processRangeCount) : ProcessRange := ⟨BitVec.ofNat 64 (0x10000000 + 0x400000 * i),0x400000,0⟩
def sampleLease : PrivateLease := ⟨1,1,1,1⟩
def sampleCompute : NativeCompute := ⟨0,0,0x10000,0x10100,0,⟨0,0,0⟩,⟨0,0,0,0⟩⟩
def samplePreemption : ProcessRange := ⟨0x30000000,0x10000,0⟩
def sampleAttachment (pad : U32) : Attachment := ⟨0x40000000,0x1000,pad,0⟩

/-- A compute command, attachments and a render. -/
def sampleCommand (count : Nat) : NativeCommand := ⟨some sampleCompute,some (List.replicate count (sampleAttachment 0)),sampleRender⟩
def sampleV3 (bytes : U32) : PrivateHeaderV3 :=
  ⟨⟨⟨privateMagic,versionPrivateVa,200,bytes,colorBgra8,0x20000000⟩,sampleRanges⟩,sampleLease⟩
def sampleV5 (bytes : U32) : PrivateHeaderV5 :=
  ⟨⟨⟨⟨privateMagic,versionRenderCompute,216,bytes,colorBgra8,0x20000000⟩,sampleRanges⟩,sampleLease⟩,samplePreemption⟩
def sampleCall (bytes : List Byte) (commandBytes : U32) : SubmitCall :=
  ⟨some (contents bytes),BitVec.ofNat 32 bytes.length,BitVec.ofNat 32 bytes.length,0x20000000,commandBytes,some acceptsAll,true⟩

private theorem sample_fits {bytes : U32} (some : 0 < bytes.toNat) (small : bytes.toNat ≤ nativeMaxBytes) :
    ComposeFits ⟨fun _ => 0,0,0x20000000,bytes,acceptsAll⟩ sampleRender colorBgra8 sampleRanges := by
  have last : vaEnd = 2 ^ 39 := rfl
  have va : (0x20000000 : U64).toNat = 0x20000000 := rfl
  refine ⟨rfl,validVa_iff.mpr ⟨?_,some,?_⟩,small,by decide,fun i => ⟨rfl,?_,?_,?_,?_,?_⟩⟩
  · dsimp only
    omega
  · dsimp only
    omega
  · revert i
    decide
  · revert i
    decide
  · revert i
    decide
  · refine rangesOverlap_iff.mpr (.inl ?_)
    dsimp only
    revert i
    decide
  revert i
  decide

theorem sample_composed (render : command.render = sampleRender)
    (compute : command.compute = some sampleCompute) : Composed command 0x20000000 bytes colorBgra8 sampleRanges (some sampleLease)
      (some samplePreemption) (privateHeaderV5.write (sampleV5 bytes)) := by
  have fits := @sample_fits 4048 (by decide) (by decide)
  have begun := (@composeHeaderV3_iff ⟨fun _ => 0,0,0x20000000,4048,acceptsAll⟩ _ _ _ sampleLease (sampleV3 4048)).mpr ⟨rfl,rfl,fits⟩
  rw [← render] at begun
  exact .v5 compute begun (composeHeaderV5_iff.mpr ⟨rfl,by decide,rfl⟩)

private theorem sample_render : ∃ granted, validateRender acceptsAll sampleRender [] = .ok (⟨⟩,granted) := by
  have fits : RenderFits sampleRender := ⟨by decide,by decide,by decide,by decide,by decide,by decide⟩
  exact ⟨_,((validateRender_does acceptsAll sampleRender).gives [] ⟨⟩ _).mpr ⟨fits,rfl,rfl,granted_all (fun _ _ => rfl) _ _⟩⟩

private theorem sample_placed {bytes : List Byte} (commandBytes : U32) (short : bytes.length < 2 ^ 32) :
    Placed (sampleCall bytes commandBytes) (contents bytes) bytes 0x20000000 commandBytes := by
  refine ⟨rfl,rfl,holds_contents,?_,BitVec.le_refl _,rfl,rfl⟩
  show (BitVec.ofNat 32 bytes.length).toNat = _
  exact Nat.mod_eq_of_lt short

theorem sample_length (count : Nat) : (sampleCommand count).bytes.length = 328 + 24 * count := by
  rw [NativeCommand.bytes_length]
  show 72 + (8 + 24 * (replicate count (sampleAttachment 0)).length) + 248 = _
  rw [length_replicate]
  omega

private theorem sample_v5_length (bytes : U32) (command : NativeCommand) :
    (privateHeaderV5.write (sampleV5 bytes) ++ command.bytes).length = 216 + command.bytes.length := by
  rw [length_append,privateHeaderV5.write_length]
  rfl

theorem sample_admissible (count : Nat) (preemptBytes bytes : U32)
    (fields : validateComputeFields sampleCompute samplePreemption preemptBytes 0x20000000 bytes = .ok) :
    Admissible (sampleCommand count) (some samplePreemption) preemptBytes 0x20000000 bytes := by
  refine ⟨sample_render,?_,?_⟩
  · intro attached there element mem
    cases there
    rw [eq_of_mem_replicate mem]
    decide
  intro compute range there held
  cases there
  cases held
  exact fields

/-- A submission of version 5 with one attachment is accepted. -/
theorem composed_v5_parses : ∃ given,
    parseSubmitComputeEx (sampleCall (privateHeaderV5.write (sampleV5 352) ++ (sampleCommand 1).bytes) 352) 0x1000 none = some given ∧
      given.result = .ok ∧ given.view.compute = sampleCompute ∧ given.view.process = sampleRanges := by
  have length := sample_length 1
  have total := sample_v5_length 352 (sampleCommand 1)
  obtain ⟨given,there,good,shows⟩ := (composed_iff_parsed.1 (sampleCommand 1) 0x20000000 352 colorBgra8 sampleRanges (some sampleLease)
    (some samplePreemption) _ _ _ 0x1000 none (sample_composed rfl rfl) (fun _ => ⟨by decide,by decide,by decide⟩) length
    (sample_admissible 1 0x1000 352 (by decide)) (sample_placed 352 (by rw [total,length]; decide)) rfl).1 (by decide)
  exact ⟨given,there,good,shows.compute,shows.process⟩

/-- A command with an attachment that says more than its range. -/
def paddedCommand : NativeCommand := ⟨some sampleCompute,some [sampleAttachment 1],sampleRender⟩

private theorem padded_refused
    (parsed : parseSubmitComputeEx (sampleCall (privateHeaderV5.write (sampleV5 352) ++ paddedCommand.bytes) 352) 0x1000 none = some given)
    (good : given.result = .ok) : False := by
  have sound := parse_sound (sampleCall (privateHeaderV5.write (sampleV5 352) ++ paddedCommand.bytes) 352) 0x1000 none
  rw [parseSubmitComputeEx,if_neg (by decide)] at parsed
  rw [parsed] at sound
  obtain ⟨same,eq,-,facts⟩ := sound
  cases eq
  obtain ⟨memory,access,version,render,data,-,sound⟩ := facts good
  cases data
  obtain ⟨held,kept⟩ := holds_append.mp (@holds_contents (privateHeaderV5.write (sampleV5 352) ++ paddedCommand.bytes))
  rw [privateHeaderV5.write_length] at kept
  have five : version = versionRenderCompute := by
    rw [← sound.version_is,(reads_v5 held).1]
    rfl
  subst five
  have reads := NativeCommand.holds_iff.mp kept
  obtain ⟨first,elements⟩ := reads.attachments _ rfl
  obtain ⟨start,position,tiled⟩ := sound.tiled
  obtain ⟨begins,-,-⟩ := tiled.compute (sound.has_compute.mpr rfl)
  subst begins
  match there : given.view.attachments with
  | none =>
    obtain ⟨rfl,-⟩ := tiled.no_attachments there
    have typed := (congrArg NativeHeader.type tiled.render_at.2).symm.trans (congrArg NativeHeader.type first)
    exact absurd typed (show ¬ nativeRenderType = fragmentAttachments by decide)
  | some base =>
    obtain ⟨rfl,-,size,counted,framed⟩ := tiled.attached base there
    have one : size = (attachmentsHeader 1).size := congrArg NativeHeader.size (framed.symm.trans first)
    have count : size.toNat = 24 := by
      rw [one]
      rfl
    have refused := (sound.attachments _ there 0 (by omega)).1
    have element : attachmentAt (contents (privateHeaderV5.write (sampleV5 352) ++ paddedCommand.bytes))
        (headerSize versionRenderCompute + (8 + 64) + 8) 0 = sampleAttachment 1 := elements 0 _ rfl
    exact absurd refused (by decide)

/-- Without the conditions that the composers leave to the caller a composed submission may be refused: the command of
    version 5 is too long, an attachment is not one, or the parser does not know what preemption it needs. -/
theorem composed_may_be_refused :
    (Composed (sampleCommand 158) 0x20000000 4120 colorBgra8 sampleRanges (some sampleLease) (some samplePreemption)
        (privateHeaderV5.write (sampleV5 4120)) ∧
      (sampleCommand 158).bytes.length = 4120 ∧ OnePage 0x20000000 4120 ∧
      Admissible (sampleCommand 158) (some samplePreemption) 0x1000 0x20000000 4120 ∧
      ∀ given, parseSubmitComputeEx (sampleCall (privateHeaderV5.write (sampleV5 4120) ++ (sampleCommand 158).bytes) 4120) 0x1000 none =
        some given → given.result ≠ .ok) ∧
    (Composed paddedCommand 0x20000000 352 colorBgra8 sampleRanges (some sampleLease) (some samplePreemption)
        (privateHeaderV5.write (sampleV5 352)) ∧
      paddedCommand.bytes.length = 352 ∧ OnePage 0x20000000 352 ∧
      validateComputeFields sampleCompute samplePreemption 0x1000 0x20000000 352 = .ok ∧
      ∀ given, parseSubmitComputeEx (sampleCall (privateHeaderV5.write (sampleV5 352) ++ paddedCommand.bytes) 352) 0x1000 none =
        some given → given.result ≠ .ok) ∧
    (Composed (sampleCommand 1) 0x20000000 352 colorBgra8 sampleRanges (some sampleLease) (some samplePreemption)
        (privateHeaderV5.write (sampleV5 352)) ∧
      (sampleCommand 1).bytes.length = 352 ∧ OnePage 0x20000000 352 ∧
      Admissible (sampleCommand 1) (some samplePreemption) 0 0x20000000 352 ∧
      ∀ given, parseSubmitComputeEx (sampleCall (privateHeaderV5.write (sampleV5 352) ++ (sampleCommand 1).bytes) 352) 0 none =
        some given → given.result ≠ .ok) := by
  refine ⟨⟨sample_composed rfl rfl,sample_length 158,by decide,sample_admissible 158 0x1000 4120 (by decide),?_⟩,
    ⟨sample_composed rfl rfl,paddedCommand.bytes_length,by decide,by decide,?_⟩,
    ⟨sample_composed rfl rfl,sample_length 1,by decide,sample_admissible 1 0 352 (by decide),?_⟩⟩
  · intro given parsed good
    rw [parseSubmitComputeEx,if_neg (by decide),parse] at parsed
    match made : (sampleCall (privateHeaderV5.write (sampleV5 4120) ++ (sampleCommand 158).bytes) 4120).buffer 24 with
    | none =>
      rw [made] at parsed
      cases parsed
      cases good
    | some buffer => exact absurd (argumentsRefused_iff.mp (buffer_some.mp made).2).small (by decide)
  · intro given parsed good
    exact padded_refused parsed good
  intro given parsed good
  rw [parseSubmitComputeEx,if_pos rfl] at parsed
  cases parsed
  cases good

end WindowsOnM1.Submit
