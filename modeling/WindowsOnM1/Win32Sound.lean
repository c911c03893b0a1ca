import WindowsOnM1.Win32Validate

/-!
What an accepted render command is: its tables lie in the buffer and apart, every index has
a reference of the role that is needed, and the relocations stay in their references and
reach what the hardware reads.
-/
namespace WindowsOnM1.Win32Sound
open ByteMemory Checks Propagation Win32Command Win32Validate Function
open BitVec hiding not_and not_not not_or or_assoc

/-- The first byte and the length of a record or table. -/
abbrev Region := Nat × Nat
def Apart (first second : Region) : Prop := first.1 + first.2 ≤ second.1 ∨ second.1 + second.2 ≤ first.1

/-- Where the records of a view lie in the command. -/
def regions (view : CommandView) : List Region :=
  [(0,headerSize),(view.header.referencesOffset.toNat,view.references.length * referenceSize)] ++
  (view.clear.map (fun _ => (view.header.payloadOffset.toNat,clearSize))).toList ++
  (view.draw.map (fun _ => (view.header.payloadOffset.toNat,drawSize))).toList ++
  (view.nativeBatch.map (fun _ => (view.header.payloadOffset.toNat + drawSize,nativeSize))).toList ++
  (view.draw.map (fun draw =>
    (view.header.payloadOffset.toNat + draw.relocationsOffset.toNat,view.relocations.length * relocationSize))).toList

/-- The view shows what its regions hold, and the regions lie in the buffer without overlap. -/
structure LaidOut (command : Memory) (commandBytes : U32) (view : CommandView) : Prop where
  header : view.header = headerAt command 0
  references : view.references =
    tableAt referenceAt referenceSize command view.header.referencesOffset.toNat view.header.referenceCount.toNat
  clear : ∀ clear ∈ view.clear, clear = clearAt command view.header.payloadOffset.toNat
  draw : ∀ draw ∈ view.draw, draw = drawAt command view.header.payloadOffset.toNat ∧ view.relocations =
    tableAt relocationAt relocationSize command (view.header.payloadOffset.toNat + draw.relocationsOffset.toNat)
      draw.relocationCount.toNat
  native : ∀ native ∈ view.nativeBatch, native = nativeAt command (view.header.payloadOffset.toNat + drawSize)
  inside : ∀ region ∈ regions view, region.1 + region.2 ≤ commandBytes.toNat
  apart : (regions view).Pairwise Apart

structure ReferenceFits (version : U16) (allocationCount : U32) (reference : AllocationReference) : Prop where
  allocation : reference.allocationIndex < allocationCount
  nonempty : reference.bytes ≠ 0
  range : reference.offset.toNat + reference.bytes.toNat < 2 ^ 64
  uniform : reference.role = roleUniform → isNative version = true

/-- An index names a reference of the role, or it is optional and names none. -/
def Fits (references : List AllocationReference) (named : Named) : Prop :=
  (named.isOptional = true ∧ named.index = optionalReference) ∨
    ∃ reference, references[named.index.toNat]? = some reference ∧ reference.role = named.role

/-- The reference that an index names. -/
def Names (named : Named) (index : Nat) : Prop :=
  ¬ (named.isOptional = true ∧ named.index = optionalReference) ∧ named.index.toNat = index

/-- Every index of the draw payload. -/
def drawNames (version : U16) (draw : DrawPayload) : List Named :=
  surfaceNames version draw ++ shaderNames draw ++ fragmentNames version draw ++ stateNames version draw
def nativeNames (version : U16) (native : NativeBatchMetadata) : List Named :=
  pipelineNames native ++ (if version = versionDepthBatch then depthNames native ++ stencilNames native else []) ++
    (if version = versionMixedBatch then computeNames native else [])

/-- The roots of the relocations: those of a native batch, or all that the payload names. -/
def rootNames (version : U16) (draw : DrawPayload) : Option NativeBatchMetadata → List Named
  | none => drawNames version draw
  | some native => nativeRoots version draw native
def Root (view : CommandView) (draw : DrawPayload) (index : Nat) : Prop :=
  ∃ named ∈ rootNames view.header.version draw view.nativeBatch, Names named index

structure RelocationFits (version : U16) (destination target : AllocationReference) (relocation : Relocation) : Prop where
  policy : relocationPolicy relocation.kind destination.role target.role version = true
  width : relocation.widthBytes = kindWidth relocation.kind
  aligned : ¬ misaligned relocation
  field : relocation.destinationOffset.toNat + relocation.widthBytes.toNat ≤ destination.bytes.toNat
  target : relocation.targetOffset.toNat < target.bytes.toNat

/-- The fields of two relocations do not meet in one reference. -/
def Separate (first second : Relocation) : Prop :=
  first.destinationReference = second.destinationReference →
    Apart (first.destinationOffset.toNat,first.widthBytes.toNat) (second.destinationOffset.toNat,second.widthBytes.toNat)

/-- What the index relocation of an indexed draw is about. -/
structure IndexFits (version : U16) (draw : DrawPayload) (target : AllocationReference) (relocation : Relocation) : Prop where
  indexed : hasIndex version = true
  encoder : relocation.destinationReference = draw.encoderReference
  index : relocation.targetReference = draw.indexReference
  start : version = versionIndexedBatch → 2 ≤ target.bytes.toNat ∧ relocation.targetOffset = 0
  room : version = versionMixedBatch → relocation.targetOffset.toNat + 16 ≤ target.bytes.toNat

/-- A relocation lies in its references and is of a kind for their roles. -/
def Placed (version : U16) (references : List AllocationReference) (draw : DrawPayload) (relocation : Relocation) : Prop :=
  ∃ destination target, references[relocation.destinationReference.toNat]? = some destination ∧
    references[relocation.targetReference.toNat]? = some target ∧
    RelocationFits version destination target relocation ∧
    (relocation.kind = kindVdmIndexBufferAddress40 → IndexFits version draw target relocation)

abbrev IndexRelocation (relocation : Relocation) : Bool := relocation.kind = kindVdmIndexBufferAddress40

structure DrawSound (view : CommandView) (draw : DrawPayload) : Prop where
  native : view.nativeBatch.isSome = isNative view.header.version
  draws : ∀ named ∈ drawNames view.header.version draw, Fits view.references named
  natives : ∀ native ∈ view.nativeBatch, ∀ named ∈ nativeNames view.header.version native, Fits view.references named
  relocations : ∀ relocation ∈ view.relocations, Placed view.header.version view.references draw relocation
  separate : view.relocations.Pairwise Separate
  indexCount : view.relocations.countP IndexRelocation = if hasIndex view.header.version then 1 else 0
  covered : ∀ index < view.references.length, Root view draw index ∨
    ∃ relocation ∈ view.relocations, relocation.destinationReference.toNat = index ∨ relocation.targetReference.toNat = index
  reachable : ∀ index reference, view.references[index]? = some reference → reference.role = rolePppState →
    ∃ root, Root view draw root ∧ Reaches (view.relocations.map edge) root index

structure Sound (command : Memory) (commandBytes allocationCount : U32) (view : CommandView) : Prop where
  layout : LaidOut command commandBytes view
  counts : view.references.length = view.header.referenceCount.toNat ∧ 0 < view.references.length ∧ view.references.length ≤ 69
  references : ∀ reference ∈ view.references, ReferenceFits view.header.version allocationCount reference
  payload : view.clear.isSome ≠ view.draw.isSome
  clear : ∀ clear ∈ view.clear, clear.destinationReference = 0 ∧
    view.references.map AllocationReference.role = [roleRenderTarget]
  draw : ∀ draw ∈ view.draw, DrawSound view draw

variable {α : Type} {decode : Memory → Nat → α} {command : Memory} {commandBytes : U32}

theorem fetch_meets {size offset : Nat} (inside : offset + size ≤ commandBytes.toNat) :
    Meets (fetch decode size command commandBytes offset) (fun record => record = decode command offset) := by
  unfold fetch
  rw [if_pos inside]
  exact Meets.pure rfl

theorem fetchTable_meets {size offset count : Nat} (inside : offset + count * size ≤ commandBytes.toNat) :
    Meets (fetchTable decode size command commandBytes offset count)
      (fun table => table = tableAt decode size command offset count) := by
  unfold fetchTable
  rw [if_pos inside]
  exact Meets.pure rfl

private theorem commandHash_meets (command : Memory) (commandBytes : U32) :
    Meets (commandHash command commandBytes) (fun _ => True) := by
  unfold commandHash
  split
  · exact Meets.pure trivial
  refine (Meets.scan (fun _ _ => True) trivial (fun before index after hash split _ => ?_)).mono (fun _ _ => trivial)
  have mem : index ∈ List.range commandBytes.toNat := by
    rw [List.nil_append] at split
    rw [split]
    exact List.mem_append_right _ List.mem_cons_self
  split
  · exact Meets.pure trivial
  exact (fetch_meets (List.mem_range.mp mem)).bind (fun _ _ => Meets.pure trivial)

/-- What the stages behind the header rely on. -/
structure HeaderFits (command : Memory) (commandBytes : U32) (header : CommandHeader) : Prop where
  decoded : header = headerAt command 0
  size : headerSize ≤ commandBytes.toNat
  count : 0 < header.referenceCount.toNat ∧ header.referenceCount.toNat ≤ 69
  opcode : header.opcode = opcodeClear ∨ header.opcode = opcodeDraw
  references : header.referencesOffset.toNat = headerSize
  payload : header.payloadOffset.toNat = headerSize + header.referenceCount.toNat * referenceSize
  total : header.payloadOffset.toNat + header.payloadBytes.toNat = commandBytes.toNat

private theorem checkHeader_meets (command : Memory) (commandBytes expectedGeneration allocationCount : U32) :
    Meets (checkHeader command commandBytes expectedGeneration allocationCount) (HeaderFits command commandBytes) := by
  refine Meets.passing (fun argument => ?_)
  have large : headerSize ≤ commandBytes.toNat := by
    have := fun small => argument (.inr (.inr (.inl small)))
    exact le_def.mp (BitVec.not_lt.mp this)
  refine (fetch_meets (by rwa [Nat.zero_add])).bind (fun header decoded => ?_)
  refine Meets.passing (fun _ => Meets.passing (fun _ => Meets.passing (fun _ => ?_)))
  refine Meets.passing (fun sizes => Meets.passing (fun _ => Meets.passing (fun _ => ?_)))
  refine Meets.passing (fun counts => Meets.passing (fun opcodes => Meets.passing (fun layout => ?_)))
  refine (commandHash_meets command commandBytes).bind (fun hash _ => Meets.passing (fun _ => Meets.pure ?_))
  simp only [not_or,not_not] at sizes counts layout
  obtain ⟨references,-,payload,-,above,room,total⟩ := layout
  have limit := referenceLimit_le header.version
  have count : header.referenceCount.toNat ≤ 69 := (le_def.mp (BitVec.not_lt.mp counts.2)).trans limit
  have offset : header.payloadOffset.toNat = 48 + header.referenceCount.toNat * 32 := by
    bv_omega
  refine ⟨decoded,large,⟨?_,count⟩,?_,?_,offset,?_⟩
  · have := counts.1
    bv_omega
  · rcases Decidable.em (header.opcode = opcodeClear) with clear | other
    · exact .inl clear
    by_contra neither
    exact opcodes ⟨other,fun draw => neither (.inr draw)⟩
  · rw [references]
    rfl
  bv_omega

private theorem checkReference_meets (version : U16) (allocationCount : U32) (reference : AllocationReference) :
    Meets (checkReference version allocationCount reference) (fun _ => ReferenceFits version allocationCount reference) := by
  refine Meets.passing (fun allocation => Meets.passing (fun _ => Meets.passing (fun _ => ?_)))
  refine Meets.passing (fun uniform => Meets.passing (fun _ => Meets.passing (fun _ => ?_)))
  refine Meets.rejectIf.mono (fun _ range => ?_)
  simp only [not_or] at range
  refine ⟨BitVec.not_le.mp allocation,range.1,?_,fun isUniform => ?_⟩
  · have := range.1
    have := range.2
    bv_omega
  by_contra legacy
  exact uniform ⟨isUniform,legacy⟩

variable {header : CommandHeader} {references : List AllocationReference}

private theorem checkClear_meets (fits : HeaderFits command commandBytes header)
    (counted : references.length = header.referenceCount.toNat) :
    Meets (checkClear command commandBytes header references) (fun clear =>
      clear = clearAt command header.payloadOffset.toNat ∧ header.payloadBytes.toNat = clearSize ∧
      clear.destinationReference = 0 ∧ references.map AllocationReference.role = [roleRenderTarget]) := by
  refine Meets.passing (fun _ => Meets.passing (fun single => Meets.passing (fun bytes => ?_)))
  have count : references.length = 1 := by
    rw [counted,not_not.mp single]
    rfl
  have payload : header.payloadBytes.toNat = clearSize := by
    rw [not_not.mp bytes]
    rfl
  refine (Meets.entry (by rw [count]; exact Nat.one_pos)).bind (fun first found => ?_)
  refine Meets.passing (fun _ => Meets.passing (fun role => ?_))
  have total := fits.total
  refine (fetch_meets (by omega)).bind (fun clear decoded => ?_)
  refine Meets.passing (fun _ => Meets.passing (fun _ => Meets.passing (fun bounds => Meets.pure ?_)))
  simp only [not_or,not_not] at bounds
  refine ⟨decoded,payload,bounds.2.2.2.2.2,?_⟩
  match references, count with
  | [only], _ =>
    cases found
    exact congrArg (fun role => [role]) (not_not.mp role)

structure DrawFits (command : Memory) (header : CommandHeader) (draw : DrawPayload) : Prop where
  decoded : draw = drawAt command header.payloadOffset.toNat
  offset : draw.relocationsOffset.toNat = drawSize + metadataBytes header.version
  count : draw.relocationCount.toNat ≤ 760
  bytes : header.payloadBytes.toNat =
    drawSize + metadataBytes header.version + draw.relocationCount.toNat * relocationSize

private theorem checkDraw_meets (fits : HeaderFits command commandBytes header) :
    Meets (checkDraw command commandBytes header references) (DrawFits command header) := by
  refine Meets.passing (fun bytes => ?_)
  refine (Meets.each (fun _ => True) (fun reference _ => Meets.rejectIf.mono (fun _ _ => trivial))).bind (fun _ _ => ?_)
  have large : drawSize ≤ header.payloadBytes.toNat := le_def.mp (BitVec.not_lt.mp bytes)
  have total := fits.total
  refine (fetch_meets (by omega)).bind (fun draw decoded => ?_)
  refine Meets.passing (fun _ => Meets.passing (fun _ => Meets.passing (fun _ => Meets.passing (fun _ => ?_))))
  refine Meets.passing (fun _ => Meets.passing (fun offset => Meets.passing (fun count => Meets.passing (fun exact' => ?_))))
  simp only [not_or] at count
  have limit := relocationLimit_le header.version
  have few := le_def.mp (BitVec.not_lt.mp count.2)
  exact Meets.pure ⟨decoded,not_not.mp offset,few.trans limit,not_not.mp exact'⟩

/-- The names fit, and they are what is marked in addition. -/
structure Used (references : List AllocationReference) (names : List Named) (start next : Marks) : Prop where
  fits : ∀ named ∈ names, Fits references named
  marked : ∀ node, next node = true ↔ start node = true ∨ ∃ named ∈ names, Names named node

theorem Used.append {references : List AllocationReference} {first second : List Named} {start middle next : Marks}
    (before : Used references first start middle) (after : Used references second middle next) :
    Used references (first ++ second) start next where
  fits := fun named mem => (List.mem_append.mp mem).elim (before.fits named) (after.fits named)
  marked := by
    intro node
    rw [after.marked,before.marked,or_assoc]
    refine or_congr_right ⟨?_,?_⟩
    · rintro (⟨named,mem,names⟩ | ⟨named,mem,names⟩)
      · exact ⟨named,List.mem_append_left _ mem,names⟩
      exact ⟨named,List.mem_append_right _ mem,names⟩
    rintro ⟨named,mem,names⟩
    exact (List.mem_append.mp mem).imp (fun here => ⟨named,here,names⟩) (fun here => ⟨named,here,names⟩)

theorem Used.refl (marks : Marks) : Used references [] marks marks where
  fits := fun _ bad => absurd bad List.not_mem_nil
  marked := fun node => ⟨.inl,fun found => found.elim id (by rintro ⟨_,bad,_⟩; cases bad)⟩

variable {references : List AllocationReference} {referenceCount : U32}

section
variable (counted : references.length = referenceCount.toNat)
include counted

private theorem drawReference_meets (named : Named) (reachable : Marks) :
    Meets (drawReference references referenceCount named reachable) (Used references [named] reachable) := by
  unfold drawReference
  split
  · rename_i absent
    refine Meets.pure ⟨fun other mem => ?_,fun node => ?_⟩
    · rw [List.mem_singleton.mp mem]
      exact .inl absent
    refine ⟨.inl,fun found => found.elim id ?_⟩
    rintro ⟨other,mem,names⟩
    rw [List.mem_singleton.mp mem] at names
    exact absurd absent names.1
  rename_i there
  refine Meets.passing (fun small => ?_)
  have inside : named.index.toNat < references.length := by
    rw [counted]
    exact lt_def.mp (BitVec.not_le.mp small)
  refine (Meets.entry inside).bind (fun reference found => Meets.passing (fun role => Meets.pure ⟨?_,fun node => ?_⟩))
  · intro other mem
    rw [List.mem_singleton.mp mem]
    exact .inr ⟨reference,found,not_not.mp role⟩
  by_cases here : node = named.index.toNat
  · rw [here,update_self]
    exact ⟨fun _ => .inr ⟨named,List.mem_singleton_self _,there,rfl⟩,fun _ => rfl⟩
  rw [update_of_ne here]
  refine ⟨.inl,fun found => found.elim id ?_⟩
  rintro ⟨other,mem,names⟩
  rw [List.mem_singleton.mp mem] at names
  exact absurd names.2.symm here

theorem drawReferences_meets (names : List Named) (reachable : Marks) :
    Meets (drawReferences references referenceCount names reachable) (Used references names reachable) := by
  refine Meets.scan (fun before next => Used references before reachable next) (Used.refl reachable) ?_
  intro before named after next _ used
  exact (drawReference_meets counted named next).mono (fun _ turn => used.append turn)

private theorem checkDepth_meets (native : NativeBatchMetadata)
    (reachable : Marks) : Meets (checkDepth references referenceCount native reachable)
      (Used references (depthNames native ++ stencilNames native) reachable) := by
  refine Meets.passing (fun _ => (drawReferences_meets counted _ _).bind (fun middle depth => Meets.passing (fun _ => ?_)))
  refine (drawReferences_meets counted _ _).bind (fun next stencil => Meets.passing (fun _ => Meets.pure ?_))
  exact depth.append stencil

private theorem checkCompute_meets (native : NativeBatchMetadata)
    (reachable : Marks) : Meets (checkCompute references referenceCount native reachable)
      (Used references (computeNames native) reachable) := by
  refine Meets.passing (fun _ => (drawReferences_meets counted _ _).bind (fun next used => ?_))
  have inside : native.computeEncoderReference.toNat < references.length := by
    rcases used.fits _ (List.mem_singleton_self _) with absent | ⟨reference,found,_⟩
    · exact absurd absent.1 Bool.false_ne_true
    exact (List.getElem?_eq_some_iff.mp found).1
  exact (Meets.entry inside).bind (fun _ _ => Meets.passing (fun _ => Meets.pure used))

end

private theorem checkNative_meets (version : U16) (counted : references.length = referenceCount.toNat) (native : NativeBatchMetadata)
    (reachable : Marks) : Meets (checkNative version references referenceCount native reachable)
      (Used references (nativeNames version native) reachable) := by
  refine Meets.passing (fun _ => (drawReferences_meets counted _ _).bind (fun marks pipelines => ?_))
  have depth : Meets (if version = versionDepthBatch then checkDepth references referenceCount native marks
      else checkNoDepth native marks)
      (Used references (if version = versionDepthBatch then depthNames native ++ stencilNames native else []) marks) := by
    split
    · exact checkDepth_meets counted native marks
    exact Meets.passing (fun _ => Meets.pure (Used.refl marks))
  refine depth.bind (fun next depths => ?_)
  have compute : Meets (if version = versionMixedBatch then checkCompute references referenceCount native next
      else checkNoCompute native next)
      (Used references (if version = versionMixedBatch then computeNames native else []) next) := by
    split
    · exact checkCompute_meets counted native next
    exact Meets.passing (fun _ => Meets.pure (Used.refl next))
  exact compute.mono (fun _ computes => (pipelines.append depths).append computes)

theorem checkDrawReferences_meets (version : U16) (counted : references.length = referenceCount.toNat) (draw : DrawPayload)
    (reachable : Marks) : Meets (checkDrawReferences version references referenceCount draw reachable)
      (Used references (drawNames version draw) reachable) := by
  refine (drawReferences_meets counted _ _).bind (fun _ surfaces => Meets.passing (fun _ => ?_))
  refine (drawReferences_meets counted _ _).bind (fun _ shaders => Meets.passing (fun _ => ?_))
  refine (drawReferences_meets counted _ _).bind (fun _ fragments => ?_)
  exact (drawReferences_meets counted _ _).mono (fun _ states => ((surfaces.append shaders).append fragments).append states)

variable {version : U16} {draw : DrawPayload}

section
variable (fits : ∀ named ∈ drawNames version draw, Fits references named) (relocation : Relocation)
include fits relocation

private theorem checkIndexRelocation_meets : Meets (checkIndexRelocation version references draw relocation) (fun _ => ∀ target,
      references[relocation.targetReference.toNat]? = some target → IndexFits version draw target relocation) := by
  refine Meets.passing (fun indexed => Meets.passing (fun sides => ?_))
  rw [not_not] at indexed
  simp only [not_or,not_not] at sides
  have inside : draw.indexReference.toNat < references.length := by
    have mem : (⟨draw.indexReference,if version = versionMixedBatch then roleSharedGeometry else roleIndex,
        !hasIndex version⟩ : Named) ∈ drawNames version draw := by
      simp [drawNames,surfaceNames]
    rcases fits _ mem with absent | ⟨reference,found,_⟩
    · rw [indexed] at absent
      exact absurd absent.1 Bool.false_ne_true
    exact (List.getElem?_eq_some_iff.mp found).1
  refine (Meets.entry inside).bind (fun found here => Meets.passing (fun start => Meets.rejectIf.mono (fun _ room => ?_)))
  intro target there
  rw [sides.2,here] at there
  cases there
  refine ⟨indexed,sides.1,sides.2,fun is => ?_,fun is => ?_⟩
  · simp only [is,true_and,not_or,not_not] at start
    exact ⟨le_def.mp (BitVec.not_lt.mp start.1),start.2⟩
  bv_omega

private theorem countIndexRelocation_meets (count : Nat) :
    Meets (countIndexRelocation version references draw relocation (BitVec.ofNat 32 count)) (fun next =>
      next = BitVec.ofNat 32 (count + [relocation].countP IndexRelocation) ∧
      (relocation.kind = kindVdmIndexBufferAddress40 → ∀ target,
        references[relocation.targetReference.toNat]? = some target → IndexFits version draw target relocation)) := by
  unfold countIndexRelocation
  split
  · rename_i isIndex
    refine (checkIndexRelocation_meets fits relocation).bind (fun _ index => Meets.pure ⟨?_,fun _ => index⟩)
    rw [List.countP_singleton,if_pos (decide_eq_true isIndex),ofNat_add]
    rfl
  rename_i other
  refine Meets.pure ⟨?_,fun isIndex => absurd isIndex other⟩
  rw [List.countP_singleton,if_neg (by simpa using other)]
  rfl

end

/-- What the loop over the relocations knows of those that it has passed. -/
structure Scanned (version : U16) (references : List AllocationReference) (draw : DrawPayload) (start : Marks)
    (before : List Relocation) (state : RelocationScan) : Prop where
  placed : ∀ relocation ∈ before, Placed version references draw relocation
  separate : before.Pairwise Separate
  count : state.indexRelocations = BitVec.ofNat 32 (before.countP IndexRelocation)
  reachable : ∀ node, state.reachable node = true ↔ start node = true ∨
    ∃ relocation ∈ before, relocation.destinationReference.toNat = node ∨ relocation.targetReference.toNat = node

theorem Placed.ends {relocation : Relocation} (placed : Placed version references draw relocation) :
    (relocation.destinationOffset + wide relocation.widthBytes).toNat =
      relocation.destinationOffset.toNat + relocation.widthBytes.toNat := by
  obtain ⟨destination,target,-,-,fits,-⟩ := placed
  have field := fits.field
  rw [toNat_add,wide,toNat_setWidth]
  omega

private theorem separate_of_not_collides {relocation other : Relocation}
    (placed : Placed version references draw relocation) (otherPlaced : Placed version references draw other)
    (free : ¬ collides relocation other) : Separate other relocation := by
  intro same
  by_contra meets
  simp only [Apart,not_or,not_le] at meets
  refine free ⟨same,?_,?_⟩
  · rw [lt_def,placed.ends]
    exact meets.2
  rw [lt_def,otherPlaced.ends]
  exact meets.1

private theorem mark_both (marks : Marks) (relocation : Relocation) (node : Nat) :
    Function.update (Function.update marks relocation.destinationReference.toNat true) relocation.targetReference.toNat true
      node = true ↔ marks node = true ∨ relocation.destinationReference.toNat = node ∨
        relocation.targetReference.toNat = node := by
  simp only [update_apply]
  split_ifs with target destination
  · simp [target]
  · simp [destination]
  simp [Ne.symm target,Ne.symm destination]

private theorem checkRelocation_meets {start : Marks}
    (counted : references.length = referenceCount.toNat) (fits : ∀ named ∈ drawNames version draw, Fits references named)
    {before : List Relocation} (relocation : Relocation) {state : RelocationScan}
    (scanned : Scanned version references draw start before state) :
    Meets (checkRelocation version references referenceCount draw before relocation state)
      (Scanned version references draw start (before ++ [relocation])) := by
  refine Meets.passing (fun _ => ?_)
  rw [scanned.count]
  refine (countIndexRelocation_meets fits relocation _).bind (fun indexRelocations index => ?_)
  refine Meets.passing (fun _ => Meets.passing (fun bounds => ?_))
  simp only [not_or,BitVec.not_le,lt_def,← counted] at bounds
  refine (Meets.entry bounds.2.1).bind (fun destination foundDestination => ?_)
  refine (Meets.entry bounds.2.2).bind (fun target foundTarget => ?_)
  refine Meets.passing (fun policy => Meets.passing (fun width => Meets.passing (fun range => Meets.passing (fun free => ?_))))
  simp only [not_or,not_not] at policy width range
  have placed : Placed version references draw relocation := by
    refine ⟨destination,target,foundDestination,foundTarget,⟨policy,width,range.1,?_,?_⟩,fun isIndex => ?_⟩
    · have field := range.2.2.1
      simp only [wide] at field
      bv_omega
    · exact lt_def.mp (BitVec.not_le.mp range.2.2.2)
    exact index.2 isIndex target foundTarget
  refine Meets.pure ⟨?_,?_,?_,?_⟩
  · intro other mem
    rcases List.mem_append.mp mem with passed | this
    · exact scanned.placed other passed
    rw [List.mem_singleton.mp this]
    exact placed
  · refine List.pairwise_append.mpr ⟨scanned.separate,List.pairwise_singleton _ _,fun other passed this here => ?_⟩
    rw [List.mem_singleton.mp here]
    exact separate_of_not_collides placed (scanned.placed other passed) (fun meets => free ⟨other,passed,meets⟩)
  · rw [List.countP_append]
    exact index.1
  intro node
  rw [mark_both,scanned.reachable,or_assoc]
  simp

/-- What an accepted table of relocations is; `start` marks the roots. -/
structure RelocationsFit (version : U16) (references : List AllocationReference) (draw : DrawPayload) (start : Marks)
    (relocations : List Relocation) : Prop where
  placed : ∀ relocation ∈ relocations, Placed version references draw relocation
  separate : relocations.Pairwise Separate
  count : relocations.countP IndexRelocation = if hasIndex version then 1 else 0
  covered : ∀ index < references.length, start index = true ∨
    ∃ relocation ∈ relocations, relocation.destinationReference.toNat = index ∨ relocation.targetReference.toNat = index
  reachable : ∀ index reference, references[index]? = some reference → reference.role = rolePppState →
    ∃ root, start root = true ∧ Reaches (relocations.map edge) root index

variable {relocations : List Relocation}

theorem directed_iff
    (placed : ∀ relocation ∈ relocations, Placed version references draw relocation) (start : Marks) (index : Nat) :
    rounds (relocations.map edge) references.length start index = true ↔
      ∃ root, start root = true ∧ Reaches (relocations.map edge) root index := by
  refine rounds_iff (fun pair mem => ?_) start index
  obtain ⟨relocation,isRelocation,rfl⟩ := List.mem_map.mp mem
  obtain ⟨_,target,_,found,_⟩ := placed relocation isRelocation
  exact (List.getElem?_eq_some_iff.mp found).1

private theorem checkRelocations_meets (start : Marks)
    (counted : references.length = referenceCount.toNat) (fits : ∀ named ∈ drawNames version draw, Fits references named)
    (few : relocations.length ≤ 760) : Meets (checkRelocations version references referenceCount draw relocations start)
      (fun _ => RelocationsFit version references draw start relocations) := by
  have empty : Scanned version references draw start [] ⟨start,0⟩ := by
    refine ⟨by simp,List.Pairwise.nil,rfl,fun node => ?_⟩
    simp
  refine (Meets.scan (Scanned version references draw start) empty
    (fun before relocation after state _ scanned => checkRelocation_meets counted fits relocation scanned)).bind
    (fun left scanned => ?_)
  rw [List.nil_append] at scanned
  refine Meets.passing (fun single => ?_)
  refine (Meets.each (fun index => left.reachable index = true)
    (fun index _ => Meets.rejectIf.mono (fun _ marked => not_not.mp marked))).bind (fun _ covered => ?_)
  refine (Meets.each (fun index => ∀ reference, references[index]? = some reference → reference.role = rolePppState →
    rounds (relocations.map edge) referenceCount.toNat start index = true) (fun index inside => ?_)).mono
    (fun _ directed => ⟨scanned.placed,scanned.separate,?_,?_,?_⟩)
  · rw [List.mem_range,← counted] at inside
    refine (Meets.entry inside).bind (fun reference found => Meets.rejectIf.mono (fun _ marked => ?_))
    intro other here isState
    rw [found] at here
    cases here
    by_contra unmarked
    exact marked ⟨isState,unmarked⟩
  · have most := (List.countP_le_length (p := IndexRelocation) (l := relocations)).trans few
    rw [scanned.count] at single
    simp only [not_or,not_and,not_not] at single
    split
    · rename_i indexed
      have := single.1 indexed
      bv_omega
    rename_i plain
    have := single.2 plain
    bv_omega
  · intro index inside
    exact (scanned.reachable index).mp (covered index (List.mem_range.mpr (counted ▸ inside)))
  intro index reference found isState
  have inside := (List.getElem?_eq_some_iff.mp found).1
  refine (directed_iff scanned.placed start index).mp ?_
  rw [counted] at inside ⊢
  exact directed index (List.mem_range.mpr inside) reference found isState

/-- The metadata of a draw, and the marks of its roots. -/
structure BatchFits (command : Memory) (header : CommandHeader) (references : List AllocationReference) (draw : DrawPayload)
    (batch : Option NativeBatchMetadata × Marks) : Prop where
  isSome : batch.1.isSome = isNative header.version
  decoded : ∀ native ∈ batch.1, native = nativeAt command (header.payloadOffset.toNat + drawSize)
  draws : ∀ named ∈ drawNames header.version draw, Fits references named
  natives : ∀ native ∈ batch.1, ∀ named ∈ nativeNames header.version native, Fits references named
  roots : ∀ node, batch.2 node = true ↔ ∃ named ∈ rootNames header.version draw batch.1, Names named node

section
variable (fits : HeaderFits command commandBytes header)
include fits

private theorem checkBatch_meets (drawFits : DrawFits command header draw)
    (counted : references.length = header.referenceCount.toNat) :
    Meets (checkBatch command commandBytes header references draw) (BatchFits command header references draw) := by
  have unmarked : ∀ node, noMarks node ≠ true := fun _ => Bool.false_ne_true
  unfold checkBatch
  split
  · rename_i native
    have inside : header.payloadOffset.toNat + drawSize + nativeSize ≤ commandBytes.toNat := by
      have total := fits.total
      have bytes := drawFits.bytes
      rw [metadataBytes,if_pos native] at bytes
      omega
    refine (fetch_meets inside).bind (fun metadata decoded => ?_)
    refine (checkNative_meets header.version counted metadata noMarks).bind (fun marks natives => ?_)
    refine (checkDrawReferences_meets header.version counted draw marks).bind (fun _ draws => ?_)
    refine (drawReferences_meets counted _ noMarks).bind (fun roots used => Meets.pure ?_)
    refine ⟨native.symm,?_,draws.fits,?_,fun node => (used.marked node).trans (or_iff_right (unmarked node))⟩
    · rintro _ ⟨⟩
      exact decoded
    rintro _ ⟨⟩
    exact natives.fits
  rename_i legacy
  refine (checkDrawReferences_meets header.version counted draw noMarks).bind (fun roots draws => Meets.pure ?_)
  refine ⟨(Bool.eq_false_iff.mpr legacy).symm,?_,draws.fits,?_,fun node => (draws.marked node).trans (or_iff_right (unmarked node))⟩
  · rintro _ ⟨⟩
  rintro _ ⟨⟩

private theorem clear_laidOut {clear : ClearPayload}
    (table : references = tableAt referenceAt referenceSize command header.referencesOffset.toNat header.referenceCount.toNat)
    (decoded : clear = clearAt command header.payloadOffset.toNat) (bytes : header.payloadBytes.toNat = clearSize) :
    LaidOut command commandBytes ⟨header,references,some clear,none,[],none⟩ := by
  have length : references.length = header.referenceCount.toNat := by
    rw [table,tableAt_length]
  have start := fits.references
  have payload := fits.payload
  have total := fits.total
  refine ⟨fits.decoded,table,?_,?_,?_,?_,?_⟩
  · rintro _ ⟨⟩
    exact decoded
  · rintro _ ⟨⟩
  · rintro _ ⟨⟩
  · simp only [regions,Option.map_some,Option.map_none,Option.toList_some,Option.toList_none,List.append_nil,
      List.cons_append,List.nil_append,List.forall_mem_cons,length]
    refine ⟨?_,?_,?_,List.forall_mem_nil _⟩ <;> omega
  simp only [regions,Option.map_some,Option.map_none,Option.toList_some,Option.toList_none,List.append_nil,
    List.cons_append,List.nil_append,List.pairwise_cons,List.forall_mem_cons,length,Apart]
  refine ⟨⟨?_,?_,List.forall_mem_nil _⟩,⟨?_,List.forall_mem_nil _⟩,List.forall_mem_nil _,List.Pairwise.nil⟩ <;> omega

private theorem draw_laidOut {native : Option NativeBatchMetadata} (drawFits : DrawFits command header draw)
    (table : references = tableAt referenceAt referenceSize command header.referencesOffset.toNat header.referenceCount.toNat)
    (relocationTable : relocations = tableAt relocationAt relocationSize command
      (header.payloadOffset.toNat + draw.relocationsOffset.toNat) draw.relocationCount.toNat)
    (isSome : native.isSome = isNative header.version)
    (decoded : ∀ metadata ∈ native, metadata = nativeAt command (header.payloadOffset.toNat + drawSize)) :
    LaidOut command commandBytes ⟨header,references,none,some draw,relocations,native⟩ := by
  have length : references.length = header.referenceCount.toNat := by
    rw [table,tableAt_length]
  have relocationLength : relocations.length = draw.relocationCount.toNat := by
    rw [relocationTable,tableAt_length]
  have start := fits.references
  have payload := fits.payload
  have total := fits.total
  have offset := drawFits.offset
  have bytes := drawFits.bytes
  have metadata : metadataBytes header.version = if native.isSome then nativeSize else 0 := by
    rw [isSome]
    rfl
  refine ⟨fits.decoded,table,?_,?_,decoded,?_,?_⟩
  · rintro _ ⟨⟩
  · rintro _ ⟨⟩
    exact ⟨drawFits.decoded,relocationTable⟩
  · rcases native with _ | native <;>
      simp only [Option.isSome_none,Option.isSome_some,Bool.false_eq_true,if_false,if_true] at metadata <;>
      simp only [regions,Option.map_some,Option.map_none,Option.toList_some,Option.toList_none,List.append_nil,
        List.cons_append,List.nil_append,List.forall_mem_cons,length,relocationLength]
    · refine ⟨?_,?_,?_,?_,List.forall_mem_nil _⟩ <;> omega
    refine ⟨?_,?_,?_,?_,?_,List.forall_mem_nil _⟩ <;> omega
  rcases native with _ | native <;>
    simp only [Option.isSome_none,Option.isSome_some,Bool.false_eq_true,if_false,if_true] at metadata <;>
    simp only [regions,Option.map_some,Option.map_none,Option.toList_some,Option.toList_none,List.append_nil,
      List.cons_append,List.nil_append,List.pairwise_cons,List.forall_mem_cons,length,relocationLength,Apart]
  · refine ⟨⟨?_,?_,?_,List.forall_mem_nil _⟩,⟨?_,?_,List.forall_mem_nil _⟩,⟨?_,List.forall_mem_nil _⟩,
      List.forall_mem_nil _,List.Pairwise.nil⟩ <;> omega
  refine ⟨⟨?_,?_,?_,?_,List.forall_mem_nil _⟩,⟨?_,?_,?_,List.forall_mem_nil _⟩,⟨?_,?_,List.forall_mem_nil _⟩,
    ⟨?_,List.forall_mem_nil _⟩,List.forall_mem_nil _,List.Pairwise.nil⟩ <;> omega

end

private theorem commandValidate_meets (command : Memory) (commandBytes expectedGeneration allocationCount : U32) :
    Meets (commandValidate command commandBytes expectedGeneration allocationCount)
      (Sound command commandBytes allocationCount) := by
  unfold commandValidate
  refine (checkHeader_meets command commandBytes expectedGeneration allocationCount).bind (fun header fits => ?_)
  have start := fits.references
  have payload := fits.payload
  have total := fits.total
  refine (fetchTable_meets (by omega)).bind (fun references table => ?_)
  have counted : references.length = header.referenceCount.toNat := by
    rw [table,tableAt_length]
  have counts : references.length = header.referenceCount.toNat ∧ 0 < references.length ∧ references.length ≤ 69 :=
    ⟨counted,counted ▸ fits.count.1,counted ▸ fits.count.2⟩
  refine (Meets.each (ReferenceFits header.version allocationCount)
    (fun reference _ => checkReference_meets header.version allocationCount reference)).bind (fun _ referenceFits => ?_)
  split
  · refine (checkClear_meets fits counted).bind (fun clear clearFits => Meets.pure ?_)
    obtain ⟨decoded,bytes,first,roles⟩ := clearFits
    refine ⟨clear_laidOut fits table decoded bytes,counts,referenceFits,nofun,?_,?_⟩
    · rintro _ ⟨⟩
      exact ⟨first,roles⟩
    rintro _ ⟨⟩
  refine (checkDraw_meets fits).bind (fun draw drawFits => ?_)
  refine (checkBatch_meets fits drawFits counted).bind (fun batch batchFits => ?_)
  obtain ⟨native,roots⟩ := batch
  have offset := drawFits.offset
  have bytes := drawFits.bytes
  refine (fetchTable_meets (by omega)).bind (fun relocations relocationTable => ?_)
  have few : relocations.length ≤ 760 := by
    rw [relocationTable,tableAt_length]
    exact drawFits.count
  refine (checkRelocations_meets roots counted batchFits.draws few).bind (fun _ relocationsFit => Meets.pure ?_)
  refine ⟨draw_laidOut fits drawFits table relocationTable batchFits.isSome batchFits.decoded,counts,referenceFits,
    nofun,?_,?_⟩
  · rintro _ ⟨⟩
  rintro _ ⟨⟩
  have isRoot : ∀ node, roots node = true ↔
      Root ⟨header,references,none,some draw,relocations,native⟩ draw node := batchFits.roots
  refine ⟨batchFits.isSome,batchFits.draws,batchFits.natives,relocationsFit.placed,relocationsFit.separate,
    relocationsFit.count,fun index inside => ?_,fun index reference found isState => ?_⟩
  · exact (relocationsFit.covered index inside).imp_left (isRoot index).mp
  obtain ⟨root,marked,path⟩ := relocationsFit.reachable index reference found isState
  exact ⟨root,(isRoot root).mp marked,path⟩

/-- Validation reads inside of every buffer, and what it accepts is sound. -/
theorem commandValidate_sound (command : Memory) (commandBytes expectedGeneration allocationCount : U32) :
    commandValidate command commandBytes expectedGeneration allocationCount ≠ .error .outside ∧
    ∀ view, commandValidate command commandBytes expectedGeneration allocationCount = .ok view →
      Sound command commandBytes allocationCount view :=
  have meets := commandValidate_meets command commandBytes expectedGeneration allocationCount
  ⟨meets.inside,fun _ => meets.ok⟩

end WindowsOnM1.Win32Sound
