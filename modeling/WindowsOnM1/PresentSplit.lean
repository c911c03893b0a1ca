import WindowsOnM1.PresentEncode

/-!
Splitting a blit does not change the picture. Every packet takes its own snapshot; the
encoder splits only where no packet overwrites what a later one reads, so that the packets
paint one after another what one packet with all rectangles paints.
-/
namespace WindowsOnM1.PresentSplit
open ByteMemory CountedLoop PresentModel PresentBlit PresentEncode List BitVec

variable {command : PresentBltCommand}

/-- Surfaces that are two memories or one like other surfaces, with the same source if they are two. -/
def Alike : Surfaces → Surfaces → Prop
  | .separate source _, .separate source' _ => source = source'
  | .shared _, .shared _ => True
  | _, _ => False

theorem Alike.refl (surfaces : Surfaces) : Alike surfaces surfaces := by
  cases surfaces
  · rfl
  trivial
theorem Alike.trans {first second third : Surfaces} (before : Alike first second) (after : Alike second third) :
    Alike first third := by
  cases first <;> cases second <;> cases third <;> simp only [Alike] at before after ⊢
  exact before.trans after
theorem Alike.symm {first second : Surfaces} (alike : Alike first second) : Alike second first := by
  cases first <;> cases second <;> simp only [Alike] at alike ⊢
  exact alike.symm

theorem Alike.ext {first second : Surfaces} (alike : Alike first second) (same : first.destination = second.destination) :
    first = second := by
  cases first <;> cases second <;> simp only [Alike,Surfaces.destination] at alike same
  · rw [alike,same]
  rw [same]

private theorem alike_write (surfaces : Surfaces) (offset : Nat) (bytes : Memory) (count : Nat) :
    Alike surfaces (surfaces.write offset bytes count) := by
  cases surfaces
  · rfl
  trivial

/-- The pixels of a set were painted: they hold what the source had at their places. -/
structure Painted (command : PresentBltCommand) (covered : Nat → Nat → Prop) (start left : Surfaces) : Prop where
  pixels : ∀ x y, covered x y → ∀ k < 4, left.destination (pixelOffset command x y k) = blitByte command start.source x y k
  others : ∀ i, (∀ x y k, covered x y → k < 4 → i ≠ pixelOffset command x y k) → left.destination i = start.destination i
  alike : Alike start left

variable {covered : Nat → Nat → Prop}

theorem Painted.unique {start left left' : Surfaces} (painted : Painted command covered start left)
    (painted' : Painted command covered start left') : left = left' := by
  refine (painted.alike.symm.trans painted'.alike).ext (funext fun i => ?_)
  by_cases pixel : ∃ x y k, covered x y ∧ k < 4 ∧ i = pixelOffset command x y k
  · obtain ⟨x,y,k,inside,small,rfl⟩ := pixel
    rw [painted.pixels x y inside k small,painted'.pixels x y inside k small]
  have apart : ∀ x y k, covered x y → k < 4 → i ≠ pixelOffset command x y k :=
    fun x y k inside small same => pixel ⟨x,y,k,inside,small,same⟩
  rw [painted.others i apart,painted'.others i apart]

theorem Painted.nothing (surfaces : Surfaces) : Painted command (fun _ _ => False) surfaces surfaces :=
  ⟨fun _ _ bad => bad.elim,fun _ _ => rfl,Alike.refl _⟩

private theorem pixel_unique (geometry : Geometry command) {x y k x' y' k' : Nat} (inside : InRect command.destinationRect x y)
    (inside' : InRect command.destinationRect x' y') (small : k < 4) (small' : k' < 4)
    (same : pixelOffset command x y k = pixelOffset command x' y' k') : x = x' ∧ y = y' ∧ k = k' := by
  have right := geometry.destinationRight
  have row := geometry.destination.row
  obtain ⟨_,narrow,_,_⟩ := inside
  obtain ⟨_,narrow',_,_⟩ := inside'
  rw [pixelOffset,pixelOffset,Nat.add_assoc,Nat.add_assoc] at same
  obtain ⟨rows,places⟩ := row_unique (by omega) (by omega) same
  exact ⟨by omega,rows,by omega⟩

/-- What a pixel of the destination rectangle reads did not change. -/
def Still (command : PresentBltCommand) (start left : Surfaces) : Prop :=
  ∀ x y, InRect command.destinationRect x y → ∀ k < 4, blitByte command left.source x y k = blitByte command start.source x y k

section
variable (geometry : Geometry command) (within : ∀ x y, covered x y → InRect command.destinationRect x y)
include geometry within

theorem Painted.then {covered' : Nat → Nat → Prop} {start middle left : Surfaces}
    (within' : ∀ x y, covered' x y → InRect command.destinationRect x y) (painted : Painted command covered start middle)
    (still : Still command start middle) (painted' : Painted command covered' middle left) :
    Painted command (fun x y => covered x y ∨ covered' x y) start left := by
  refine ⟨fun x y inside k small => ?_,fun i apart => ?_,painted.alike.trans painted'.alike⟩
  · by_cases later : covered' x y
    · rw [painted'.pixels x y later k small,still x y (within' x y later) k small]
    have earlier : covered x y := inside.resolve_right later
    rw [painted'.others _ ?_,painted.pixels x y earlier k small]
    intro x' y' k' inside' small' same
    obtain ⟨rfl,rfl,_⟩ := pixel_unique geometry (within x y earlier) (within' x' y' inside') small small' same
    exact later inside'
  rw [painted'.others i (fun x y k inside => apart x y k (.inr inside)),
    painted.others i (fun x y k inside => apart x y k (.inl inside))]

/-- Where the surfaces are two, or the rectangles do not overlap unless they are the same,
    no pixel that is read is overwritten by another value. -/
theorem Painted.still {start left : Surfaces} (painted : Painted command covered start left)
    (apart : ∀ memory, start = .shared memory →
      command.sourceDescription.pitch = command.destinationDescription.pitch ∧ shiftedOverlap command = false) :
    Still command start left := by
  intro x y inside k small
  cases start with
  | separate source destination =>
    cases left with
    | separate source' destination' =>
      have same : source = source' := painted.alike
      rw [same]
      rfl
    | shared memory => exact painted.alike.elim
  | shared memory =>
  cases left with
  | separate source destination => exact painted.alike.elim
  | shared memory' =>
  obtain ⟨pitch,overlap⟩ := apart memory rfl
  have width := geometry.width
  have height := geometry.height
  have sourceRight := geometry.sourceRight
  have row := geometry.source.row
  obtain ⟨left,right,top,bottom⟩ := inside
  rw [rectWidth,rectWidth] at width
  rw [rectHeight,rectHeight] at height
  by_cases written : ∃ x' y' k', covered x' y' ∧ k' < 4 ∧ (command.sourceRect.top.toNat + (y - command.destinationRect.top.toNat)) *
      command.sourceDescription.pitch.toNat + (command.sourceRect.left.toNat + (x - command.destinationRect.left.toNat)) * 4 + k =
        pixelOffset command x' y' k'
  · obtain ⟨x',y',k',covers,small',place⟩ := written
    obtain ⟨left',right',top',bottom'⟩ := within x' y' covers
    have destinationRight := geometry.destinationRight
    have destinationRow := geometry.destination.row
    have holds := painted.pixels x' y' covers k' small'
    rw [← place] at holds
    rw [pixelOffset,pitch,Nat.add_assoc,Nat.add_assoc] at place
    rw [pitch] at row
    obtain ⟨rows,places⟩ := row_unique (by omega) (by omega) place
    -- the pixel is in both rectangles, which are therefore the same
    have unshifted : command.sourceRect.left = command.destinationRect.left ∧ command.sourceRect.top = command.destinationRect.top := by
      simp only [shiftedOverlap,Bool.and_eq_false_iff,Bool.or_eq_false_iff,bne_eq_false_iff_eq,decide_eq_false_iff_not,
        lt_def] at overlap
      rcases overlap with (((same | notLeft) | notRight) | notTop) | notBottom
      · exact same
      all_goals omega
    obtain ⟨sameLeft,sameTop⟩ := unshifted
    rw [sameTop] at rows
    rw [sameLeft] at places
    have isX : x' = x := by omega
    have isY : y' = y := by omega
    have isK : k' = k := by omega
    subst isX isY isK
    exact holds
  refine painted.others _ (fun x' y' k' covers small' same => written ⟨x',y',k',covers,small',same⟩)

end

variable {answers : Nat → Bool} {scratchBytes : U32}

/-- The executions of a blit write to the memories they were given. -/
private theorem presentBltAccepted_alike (answers : Nat → Bool) (buffer : List Byte) (command : PresentBltCommand) (scratchBytes : U32)
    (state : BltState) : Alike state.surfaces (presentBltAccepted answers buffer command scratchBytes state).2.surfaces := by
  have loops : ∀ (body : Nat → BltState → Bool × BltState),
      (∀ i (before : BltState), Alike before.surfaces (body i before).2.surfaces) → ∀ first turns (before : BltState),
      Alike before.surfaces (countLoop body first turns before).2.surfaces := by
    intro body step first turns before
    have ends : Ends (fun after => Alike before.surfaces after.surfaces) (fun after => Alike before.surfaces after.surfaces)
        (countLoop body first turns before) :=
      countLoop_ends body (fun _ after => Alike before.surfaces after.surfaces) _ (Alike.refl before.surfaces)
        (fun i after _ _ alike => ⟨fun _ => alike.trans (step i after),fun _ => alike.trans (step i after)⟩)
    cases result : (countLoop body first turns before).1 with
    | true => exact ends.1 result
    | false => exact ends.2 result
  have reads : ∀ i (before : BltState), Alike before.surfaces (snapshotRow answers command i before).2.surfaces := by
    intro i before
    unfold snapshotRow readSource
    split_ifs <;> exact Alike.refl _
  have writes : ∀ rect i (before : BltState), Alike before.surfaces (writeRow answers command rect i before).2.surfaces := by
    intro rect i before
    unfold writeRow writeDestination
    dsimp only
    by_cases succeeds : answers before.accesses.length
    · rw [if_pos succeeds]
      exact alike_write _ _ _ _
    rw [if_neg succeeds]
    exact Alike.refl _
  unfold presentBltAccepted
  cases presentBltScratchBytes command with
  | none => exact Alike.refl _
  | some needed =>
  dsimp only
  split_ifs
  · exact Alike.refl _
  have first := loops _ reads 0 (command.sourceRect.bottom - command.sourceRect.top).toNat { state with bytesCopied := 0 }
  cases snapshot : countLoop (snapshotRow answers command) 0 (command.sourceRect.bottom - command.sourceRect.top).toNat
      { state with bytesCopied := 0 } with | mk done middle =>
  rw [snapshot] at first
  cases done with
  | false => exact first
  | true => exact first.trans (loops _ (fun index before => loops _ (writes _) _ _ before) 0 command.rectCount.toNat middle)

variable {needed : U32}

private theorem presentBltAccepted_succeeds (succeeds : ∀ i, answers i = true) (buffer : List Byte)
    (needs : presentBltScratchBytes command = some needed) (enough : needed ≤ scratchBytes) (state : BltState) :
    (presentBltAccepted answers buffer command scratchBytes state).1 = true := by
  have reads : ∀ i (before : BltState), (snapshotRow answers command i before).1 = true := by
    intro i before
    unfold snapshotRow readSource
    rw [if_pos (succeeds _)]
  have writes : ∀ rect i (before : BltState), (writeRow answers command rect i before).1 = true := by
    intro rect i before
    unfold writeRow writeDestination
    dsimp only
    rw [if_pos (succeeds _)]
  unfold presentBltAccepted
  rw [needs]
  dsimp only
  rw [if_neg (BitVec.not_lt.mpr enough)]
  have first := countLoop_succeeds reads 0 (command.sourceRect.bottom - command.sourceRect.top).toNat { state with bytesCopied := 0 }
  cases snapshot : countLoop (snapshotRow answers command) 0 (command.sourceRect.bottom - command.sourceRect.top).toNat
      { state with bytesCopied := 0 } with | mk done middle =>
  rw [snapshot] at first
  cases first
  exact countLoop_succeeds (fun index before => countLoop_succeeds (writes _) _ _ before) 0 command.rectCount.toNat middle

/-- A pixel of one of some rectangles. -/
def CoveredBy (rects : List GdiRect) (x y : Nat) : Prop := ∃ rect ∈ rects, InRect rect x y
private theorem coveredBy_append (rects rects' : List GdiRect) :
    CoveredBy (rects ++ rects') = fun x y => CoveredBy rects x y ∨ CoveredBy rects' x y := by
  funext x y
  simp only [CoveredBy,mem_append,or_and_right,exists_or]

variable {rects : List GdiRect}

private theorem coveredBy_within {outer : GdiRect} (contained : ∀ rect ∈ rects, rectContains outer rect = true)
    {x y : Nat} (covers : CoveredBy rects x y) : InRect outer x y := by
  obtain ⟨rect,mem,left,right,top,bottom⟩ := covers
  have within := within_of_contains (contained rect mem)
  exact ⟨within.left.trans left,right.trans_le within.right,within.top.trans top,bottom.trans_le within.bottom⟩

def packetOf (input : PresentBltInput) (rects : List GdiRect) : List Byte :=
  packetBytes (packetCommand input (BitVec.ofNat 32 rects.length)) rects

variable {input : PresentBltInput}

private theorem packet_paints (answers : Nat → Bool) (geometry : geometryValid input.command = true)
    (contained : ∀ rect ∈ rects, rectContains input.command.destinationRect rect = true) (counted : rects.length < 2 ^ 32)
    {start : BltState} (bounded : Bounded input.command scratchBytes start) :
    Ends (fun left => Bounded input.command scratchBytes left ∧
        Painted input.command (CoveredBy rects) start.surfaces left.surfaces) (Bounded input.command scratchBytes)
      (presentBltAccepted answers (packetOf input rects) (packetCommand input (BitVec.ofNat 32 rects.length)) scratchBytes
        start) := by
  have count : (packetCommand input (BitVec.ofNat 32 rects.length)).rectCount.toNat = rects.length := by
    rw [packetCommand,toNat_ofNat,Nat.mod_eq_of_lt counted]
  have rect : ∀ index, (below : index < rects.length) → bufferRect (contents (packetOf input rects)) index = rects[index] := by
    intro index below
    rw [packetOf,bufferRect_packetBytes _ _ below ⟨0,0,0,0⟩,getD_eq_getElem _ _ below]
  have within : ∀ index < (packetCommand input (BitVec.ofNat 32 rects.length)).rectCount.toNat,
      Within (packetCommand input (BitVec.ofNat 32 rects.length)).destinationRect
        (bufferRect (contents (packetOf input rects)) index) := by
    intro index below
    rw [count] at below
    rw [rect index below]
    exact within_of_contains (contained _ (getElem_mem below))
  have covers : Covered (packetOf input rects) rects.length = CoveredBy rects := by
    funext x y
    refine propext ⟨?_,?_⟩
    · rintro ⟨index,below,inside⟩
      rw [rect index below] at inside
      exact ⟨_,getElem_mem below,inside⟩
    rintro ⟨_,mem,inside⟩
    obtain ⟨index,below,rfl⟩ := mem_iff_getElem.mp mem
    exact ⟨index,below,by rw [rect index below]; exact inside⟩
  have isGeometry : Geometry (packetCommand input (BitVec.ofNat 32 rects.length)) := geometry_of_valid geometry
  obtain ⟨done,lost⟩ := presentBltAccepted_ends answers isGeometry within bounded
  refine ⟨fun success => ?_,lost⟩
  obtain ⟨inside,pixels,others,_,_⟩ := done success
  rw [count,covers] at pixels others
  exact ⟨inside,pixels,others,presentBltAccepted_alike _ _ _ _ _⟩

/-- The packets of a blit, executed one after another until one fails. -/
def executePackets (answers : Nat → Bool) (scratchBytes : U32) : List (List Byte) → BltState → Bool × BltState
  | [], state => (true,state)
  | packet :: rest, state =>
    match presentBltExecute answers packet scratchBytes state with
    | (false,left) => (false,left)
    | (true,left) => executePackets answers scratchBytes rest left

/-- The execution of one packet with all rectangles, as if packets of every size were valid. -/
def executeWhole (answers : Nat → Bool) (scratchBytes : U32) (input : PresentBltInput) (state : BltState) : Bool × BltState :=
  if locationsValid true (packetCommand input 0) then
    presentBltAccepted answers (packetOf input input.rects) (packetCommand input input.rectCount) scratchBytes state
  else (false,state)

/-- How the passes of a blit ended: with the last rectangle, with a refused call, or not yet. -/
inductive Progress
  | done | refused | pending
deriving DecidableEq
structure PresentRun where
  packets : List (List Byte)
  next : U32
  progress : Progress

/-- Calls of the encoder, at most so many, each with the next capacity and from the rectangle
    at which the previous one stopped. -/
def presentPasses (input : PresentBltInput) (capacities : Nat → U32) : (calls pass : Nat) → U32 → PresentRun
  | 0, _, offset => ⟨[],offset,.pending⟩
  | calls+1, pass, offset =>
    match presentBltEncode { input with multipassOffset := offset } (capacities pass) with
    | none => ⟨[],offset,.refused⟩
    | some (packet,next) =>
      if next = input.rectCount then ⟨[packet],next,.done⟩
      else
        let rest := presentPasses input capacities calls (pass + 1) next
        { rest with packets := packet :: rest.packets }

/-- The rectangles of some packet of a blit. -/
structure Chunk (input : PresentBltInput) (rects : List GdiRect) : Prop where
  positive : 0 < rects.length
  fits : commandBytes + rects.length * rectBytes ≤ 4096
  geometry : geometryValid input.command = true
  contained : ∀ rect ∈ rects, rectContains input.command.destinationRect rect = true

/-- What the passes from an offset on give. -/
structure Chunked (input : PresentBltInput) (offset : Nat) (run : PresentRun) (chunks : List (List GdiRect)) : Prop where
  packets : run.packets = chunks.map (packetOf input)
  rects : chunks.flatten = (input.rects.drop offset).take (run.next.toNat - offset)
  above : offset ≤ run.next.toNat
  below : run.next.toNat ≤ input.rects.length
  each : ∀ rects ∈ chunks, Chunk input rects
  done : run.progress = .done → chunks ≠ [] ∧ run.next.toNat = input.rects.length
  steady : chunks.length ≤ 1 ∨ input.sameAllocation = 0 ∨ shiftedOverlap input.command = false

variable {packet : List Byte} {count : Nat}

private theorem chunk_of_encoded {offset next : U32} (encoded : Encoded { input with multipassOffset := offset } packet next count) :
    Chunk input ((input.rects.drop offset.toNat).take count) ∧ packet = packetOf input ((input.rects.drop offset.toNat).take count) := by
  have room : offset.toNat + count ≤ input.rects.length := encoded.room
  have length : ((input.rects.drop offset.toNat).take count).length = count := by
    rw [length_take,length_drop]
    omega
  refine ⟨⟨by rw [length]; exact encoded.positive,by rw [length]; exact encoded.fits,encoded.geometry,fun rect mem => ?_⟩,?_⟩
  · exact encoded.contained rect (mem_of_mem_drop (mem_of_mem_take mem))
  rw [packetOf,length]
  exact encoded.packet

section
variable (input) (capacities : Nat → U32) (calls pass : Nat) (offset : U32) (inside : offset.toNat ≤ input.rects.length)
include capacities calls pass offset inside

private theorem presentPasses_chunked :
    ∃ chunks, Chunked input offset.toNat (presentPasses input capacities calls pass offset) chunks := by
  induction calls generalizing pass offset with
  | zero =>
    exact ⟨[],rfl,by simp [presentPasses],Nat.le_refl _,inside,fun _ bad => absurd bad not_mem_nil,
      nofun,.inl (Nat.zero_le _)⟩
  | succ calls ih =>
  unfold presentPasses
  cases call : presentBltEncode { input with multipassOffset := offset } (capacities pass) with
  | none =>
    exact ⟨[],rfl,by simp,Nat.le_refl _,inside,fun _ bad => absurd bad not_mem_nil, nofun,.inl (Nat.zero_le _)⟩
  | some result =>
  obtain ⟨packet,next⟩ := result
  obtain ⟨count,encoded⟩ := presentBltEncode_encoded call
  obtain ⟨chunk,isPacket⟩ := chunk_of_encoded encoded
  have isNext : next.toNat = offset.toNat + count := encoded.next
  have room : offset.toNat + count ≤ input.rects.length := encoded.room
  dsimp only
  split
  · rename_i last
    refine ⟨[(input.rects.drop offset.toNat).take count],by rw [isPacket]; rfl,?_,by dsimp only; omega,by dsimp only; omega,
      fun rects mem => ?_,fun _ => ?_,.inl (Nat.le_refl _)⟩
    · simp only [isNext,flatten_cons,flatten_nil,append_nil,Nat.add_sub_cancel_left]
    · rw [mem_singleton.mp mem]
      exact chunk
    exact ⟨cons_ne_nil _ _,(congrArg BitVec.toNat last).trans input.rectCount_toNat⟩
  rename_i last
  obtain ⟨chunks,rest⟩ := ih (pass + 1) next (by omega)
  have above := rest.above
  have rects := rest.rects
  refine ⟨(input.rects.drop offset.toNat).take count :: chunks,?_,?_,by dsimp only; omega,rest.below,fun rects mem => ?_,
    fun done => ⟨cons_ne_nil _ _,(rest.done done).2⟩,?_⟩
  · rw [rest.packets,isPacket]
    rfl
  · rw [flatten_cons,rects,show (presentPasses input capacities calls (pass + 1) next).next.toNat - offset.toNat =
      count + ((presentPasses input capacities calls (pass + 1) next).next.toNat - next.toNat) by omega,take_add,
      drop_drop,isNext]
  · rcases mem_cons.mp mem with same | later
    · rw [same]
      exact chunk
    exact rest.each rects later
  -- a packet with all rectangles is the last one
  rcases encoded.steady with separate | whole | still
  · exact .inr (.inl separate)
  · have all : count = input.rects.length := whole
    exact absurd (eq_of_toNat_eq (by rw [input.rectCount_toNat]; omega)) last
  exact .inr (.inr still)

private theorem presentPasses_ends (enough : input.rects.length ≤ offset.toNat + calls) (called : 0 < calls) :
    (presentPasses input capacities calls pass offset).progress ≠ .pending := by
  induction calls generalizing pass offset with
  | zero => omega
  | succ calls ih =>
  unfold presentPasses
  cases call : presentBltEncode { input with multipassOffset := offset } (capacities pass) with
  | none => exact nofun
  | some result =>
  obtain ⟨packet,next⟩ := result
  obtain ⟨count,encoded⟩ := presentBltEncode_encoded call
  have isNext : next.toNat = offset.toNat + count := encoded.next
  have room : offset.toNat + count ≤ input.rects.length := encoded.room
  have positive := encoded.positive
  dsimp only
  split_ifs with last
  · exact nofun
  have short : next.toNat ≠ input.rects.length :=
    fun same => last (eq_of_toNat_eq (same.trans input.rectCount_toNat.symm))
  exact ih (pass + 1) next (by omega) (by omega) (by omega)

end

private theorem presentPasses_finishes {capacities : Nat → U32} (enough : ∀ pass, 184 ≤ (capacities pass).toNat)
    {offset next : U32} (encoded : Encoded { input with multipassOffset := offset } packet next count)
    (more : next.toNat < input.rects.length) (calls pass : Nat) (suffices_ : input.rects.length ≤ next.toNat + calls) :
    (presentPasses input capacities calls pass next).progress = .done := by
  induction calls generalizing pass offset next packet count with
  | zero => omega
  | succ calls ih =>
  obtain ⟨packet',next',call⟩ := presentBltEncode_again encoded more (enough pass)
  have call' : presentBltEncode { input with multipassOffset := next } (capacities pass) = some (packet',next') := call
  obtain ⟨count',encoded'⟩ := presentBltEncode_encoded call'
  have isNext : next'.toNat = next.toNat + count' := encoded'.next
  have room : next.toNat + count' ≤ input.rects.length := encoded'.room
  have positive := encoded'.positive
  unfold presentPasses
  rw [call']
  dsimp only
  by_cases last : next' = input.rectCount
  · rw [if_pos last]
  rw [if_neg last]
  have short : next'.toNat ≠ input.rects.length :=
    fun same => last (eq_of_toNat_eq (same.trans input.rectCount_toNat.symm))
  exact ih encoded' (by omega) (pass + 1) (by omega)

/-- The rectangles that a packet lists. -/
def packetRects (packet : List Byte) : List GdiRect :=
  (List.range (commandAt (contents packet)).rectCount.toNat).map (bufferRect (contents packet))

private theorem packetRects_packetOf (counted : rects.length < 2 ^ 32) : packetRects (packetOf input rects) = rects := by
  have count : (packetCommand input (BitVec.ofNat 32 rects.length)).rectCount.toNat = rects.length := by
    rw [packetCommand,toNat_ofNat,Nat.mod_eq_of_lt counted]
  have isCount : (commandAt (contents (packetOf input rects))).rectCount.toNat = rects.length := by
    rw [packetOf,commandAt_packetBytes]
    exact count
  have isRects : packetRects (packetOf input rects) =
      (range rects.length).map (bufferRect (contents (packetOf input rects))) := by
    rw [packetRects,isCount]
  rw [isRects]
  refine ext_getElem (by simp) (fun index _ below => ?_)
  rw [getElem_map,getElem_range]
  exact (bufferRect_packetBytes _ _ below ⟨0,0,0,0⟩).trans (getD_eq_getElem _ _ below)

theorem Chunk.counted (chunk : Chunk input rects) : rects.length < 2 ^ 32 := by
  have fits := chunk.fits
  rw [commandBytes,rectBytes] at fits
  omega

theorem Chunk.validate (chunk : Chunk input rects) (requireResidency : Bool) :
    presentBltValidate (packetOf input rects) requireResidency =
      if locationsValid requireResidency (packetCommand input 0) then some (packetCommand input (BitVec.ofNat 32 rects.length))
      else none :=
  presentBltValidate_packet chunk.geometry chunk.contained chunk.positive chunk.fits requireResidency

/-- `SameAllocation` tells the truth: where the surfaces are one memory it is set, and the two
    descriptions are of that one allocation and have its pitch. -/
def Truthful (input : PresentBltInput) (surfaces : Surfaces) : Prop :=
  ∀ memory, surfaces = .shared memory →
    input.sameAllocation ≠ 0 ∧ input.command.sourceDescription.pitch = input.command.destinationDescription.pitch

theorem Truthful.alike {surfaces surfaces' : Surfaces} (truthful : Truthful input surfaces) (alike : Alike surfaces surfaces') :
    Truthful input surfaces' := by
  rintro memory rfl
  cases surfaces with
  | separate source destination => exact alike.elim
  | shared memory' => exact truthful memory' rfl

variable {chunks : List (List GdiRect)}

/-- Packets executed one after another paint all their rectangles. -/
private theorem executePackets_paints (answers : Nat → Bool) (each : ∀ rects ∈ chunks, Chunk input rects)
    (steady : chunks.length ≤ 1 ∨ input.sameAllocation = 0 ∨ shiftedOverlap input.command = false) {start : BltState}
    (truthful : Truthful input start.surfaces) (bounded : Bounded input.command scratchBytes start)
    (success : (executePackets answers scratchBytes (chunks.map (packetOf input)) start).1 = true) :
    Painted input.command (CoveredBy chunks.flatten) start.surfaces
      (executePackets answers scratchBytes (chunks.map (packetOf input)) start).2.surfaces := by
  induction chunks generalizing start with
  | nil =>
    have none : CoveredBy ([] : List (List GdiRect)).flatten = fun _ _ => False := by
      funext x y
      simp [CoveredBy]
    rw [none]
    exact Painted.nothing _
  | cons rects rest ih =>
  have chunk := each rects mem_cons_self
  have valid := chunk.validate true
  have ends := packet_paints answers chunk.geometry chunk.contained chunk.counted bounded
  rw [map_cons,executePackets] at success ⊢
  by_cases located : locationsValid true (packetCommand input 0)
  · rw [if_pos located] at valid
    rw [presentBltExecute_accepted valid] at success ⊢
    cases result : presentBltAccepted answers (packetOf input rects) (packetCommand input (BitVec.ofNat 32 rects.length))
        scratchBytes start with | mk done middle =>
    rw [result] at success ends
    cases done with
    | false => cases success
    | true =>
    obtain ⟨inside,painted⟩ := ends.1 rfl
    have geometry : Geometry input.command := geometry_of_valid chunk.geometry
    have steady' : rest.length ≤ 1 ∨ input.sameAllocation = 0 ∨ shiftedOverlap input.command = false := by
      rcases steady with one | still
      · rw [length_cons] at one
        exact .inl (by omega)
      exact .inr still
    have after := ih (fun rects' mem => each rects' (mem_cons_of_mem _ mem)) steady' (truthful.alike painted.alike)
      inside success
    have within : ∀ chunk' ∈ rest, ∀ rect ∈ chunk', rectContains input.command.destinationRect rect = true :=
      fun chunk' mem => (each chunk' (mem_cons_of_mem _ mem)).contained
    rw [flatten_cons,coveredBy_append]
    cases rest with
    | nil =>
      have none : CoveredBy ([] : List (List GdiRect)).flatten = fun _ _ => False := by
        funext x y
        simp [CoveredBy]
      simp only [none,or_false]
      exact painted
    | cons rects' rest =>
    refine painted.then geometry (fun x y => coveredBy_within chunk.contained) (fun x y => coveredBy_within ?_) ?_ after
    · intro rect mem
      obtain ⟨chunk',isChunk,isRect⟩ := mem_flatten.mp mem
      exact within chunk' isChunk rect isRect
    refine painted.still geometry (fun x y => coveredBy_within chunk.contained) (fun memory isShared => ?_)
    obtain ⟨marked,pitch⟩ := truthful memory isShared
    refine ⟨pitch,?_⟩
    rcases steady with one | separate | still
    · rw [length_cons,length_cons] at one
      omega
    · exact absurd separate marked
    exact still
  rw [if_neg located] at valid
  rw [presentBltExecute_refused valid] at success
  cases success

private theorem executePackets_succeeds (succeeds : ∀ i, answers i = true)
    (needs : presentBltScratchBytes input.command = some needed) (enough : needed ≤ scratchBytes)
    (located : locationsValid true (packetCommand input 0) = true)
    (each : ∀ rects ∈ chunks, Chunk input rects) (state : BltState) :
    (executePackets answers scratchBytes (chunks.map (packetOf input)) state).1 = true := by
  induction chunks generalizing state with
  | nil => rfl
  | cons rects rest ih =>
  have valid := (each rects mem_cons_self).validate true
  rw [if_pos located] at valid
  rw [map_cons,executePackets,presentBltExecute_accepted valid]
  have needs' : presentBltScratchBytes (packetCommand input (BitVec.ofNat 32 rects.length)) = some needed := needs
  have done := presentBltAccepted_succeeds succeeds (packetOf input rects) needs' enough state
  cases result : presentBltAccepted answers (packetOf input rects) (packetCommand input (BitVec.ofNat 32 rects.length))
      scratchBytes state with | mk success middle =>
  rw [result] at done
  cases done
  exact ih (fun rects' mem => each rects' (mem_cons_of_mem _ mem)) middle

/-- Splitting does not change the picture: at most one call for a rectangle ends them, at every capacity of every pass; a packet is valid exactly when the
    locations of the input are; the packets list the rectangles once and in order; and executed in order they leave what one
    packet with all rectangles leaves. -/
theorem split_keeps_picture (input : PresentBltInput) (capacities : Nat → U32) (more : Nat) :
    let run := presentPasses input capacities (max 1 input.rects.length + more) 0 0
    run.progress ≠ .pending ∧
    ((∀ pass, 184 ≤ (capacities pass).toNat) → run.packets ≠ [] → run.progress = .done) ∧
    (∀ packet ∈ run.packets, (presentBltValidate packet false).isSome = locationsValid false (packetCommand input 0)) ∧
    run.packets.flatMap packetRects = input.rects.take run.next.toNat ∧
    (run.progress = .done → run.packets.flatMap packetRects = input.rects ∧
      ∀ surfaces, Truthful input surfaces → ∀ answers answers' scratchBytes scratchBytes' scratch scratch' copied copied',
        ((∀ i, answers i = true) → (∀ i, answers' i = true) → (∃ needed, presentBltScratchBytes input.command = some needed ∧
            needed ≤ scratchBytes ∧ needed ≤ scratchBytes') → locationsValid true (packetCommand input 0) = true →
          (executePackets answers scratchBytes run.packets ⟨surfaces,scratch,[],copied⟩).1 = true ∧
          (executeWhole answers' scratchBytes' input ⟨surfaces,scratch',[],copied'⟩).1 = true) ∧
        ((executePackets answers scratchBytes run.packets ⟨surfaces,scratch,[],copied⟩).1 = true →
          (executeWhole answers' scratchBytes' input ⟨surfaces,scratch',[],copied'⟩).1 = true →
          (executePackets answers scratchBytes run.packets ⟨surfaces,scratch,[],copied⟩).2.surfaces =
            (executeWhole answers' scratchBytes' input ⟨surfaces,scratch',[],copied'⟩).2.surfaces)) := by
  intro run
  obtain ⟨chunks,chunked⟩ := presentPasses_chunked input capacities (max 1 input.rects.length + more) 0 0 (Nat.zero_le _)
  have packets : run.packets = chunks.map (packetOf input) := chunked.packets
  have rects : chunks.flatten = input.rects.take run.next.toNat := chunked.rects
  have listed : run.packets.flatMap packetRects = chunks.flatten := by
    rw [packets,flatMap_map,flatMap_def]
    congr 1
    refine (map_congr_left (fun rects mem => ?_)).trans (map_id chunks)
    exact packetRects_packetOf (chunked.each rects mem).counted
  refine ⟨presentPasses_ends input capacities _ 0 0 (Nat.zero_le _) (by simp; omega) (by omega),fun enough some' => ?_,?_,listed.trans rects,
    fun done => ?_⟩
  · -- the first call was accepted
    obtain ⟨calls,isCalls⟩ : ∃ calls, max 1 input.rects.length + more = calls + 1 := ⟨_,(Nat.sub_add_cancel (by omega)).symm⟩
    have unfolded : run = presentPasses input capacities (calls + 1) 0 0 := isCalls ▸ rfl
    rw [unfolded] at some' ⊢
    unfold presentPasses at some' ⊢
    cases call : presentBltEncode { input with multipassOffset := 0 } (capacities 0) with
    | none =>
      rw [call] at some'
      exact absurd rfl some'
    | some result =>
    obtain ⟨packet,next⟩ := result
    obtain ⟨count,encoded⟩ := presentBltEncode_encoded call
    have isNext : next.toNat = 0 + count := encoded.next
    have room : 0 + count ≤ input.rects.length := encoded.room
    have positive := encoded.positive
    dsimp only
    by_cases last : next = input.rectCount
    · rw [if_pos last]
    rw [if_neg last]
    have short : next.toNat ≠ input.rects.length :=
      fun same => last (eq_of_toNat_eq (same.trans input.rectCount_toNat.symm))
    exact presentPasses_finishes enough encoded (by omega) _ 1 (by omega)
  · intro packet mem
    rw [packets] at mem
    obtain ⟨rects,isChunk,rfl⟩ := mem_map.mp mem
    rw [(chunked.each rects isChunk).validate false]
    cases locationsValid false (packetCommand input 0) <;> rfl
  obtain ⟨nonempty,last⟩ := chunked.done done
  have all : chunks.flatten = input.rects := by
    rw [rects,show run.next.toNat = input.rects.length from last,take_length]
  refine ⟨listed.trans all,fun surfaces truthful answers answers' scratchBytes scratchBytes' scratch scratch' copied copied' => ⟨?_,?_⟩⟩
  · rintro succeeds succeeds' ⟨needed,needs,enough,enough'⟩ located
    refine ⟨by rw [packets]; exact executePackets_succeeds succeeds needs enough located chunked.each _,?_⟩
    rw [executeWhole,if_pos located]
    have needs' : presentBltScratchBytes (packetCommand input input.rectCount) = some needed := needs
    exact presentBltAccepted_succeeds succeeds' _ needs' enough' _
  intro success success'
  have nothing : ∀ scratchBytes scratch copied, Bounded input.command scratchBytes ⟨surfaces,scratch,[],copied⟩ :=
    fun _ _ _ _ bad => absurd bad not_mem_nil
  rw [packets] at success ⊢
  have split := executePackets_paints answers chunked.each chunked.steady truthful (nothing scratchBytes scratch copied) success
  rw [all] at split
  refine split.unique ?_
  -- a blit that is done has a packet, whose geometry is the geometry of the whole
  have geometry : geometryValid input.command = true ∧
      ∀ rect ∈ input.rects, rectContains input.command.destinationRect rect = true := by
    obtain ⟨first,mem⟩ := exists_mem_of_ne_nil chunks nonempty
    refine ⟨(chunked.each first mem).geometry,fun rect inside => ?_⟩
    rw [← all] at inside
    obtain ⟨chunk,isChunk,isRect⟩ := mem_flatten.mp inside
    exact (chunked.each chunk isChunk).contained rect isRect
  rw [executeWhole] at success' ⊢
  by_cases located : locationsValid true (packetCommand input 0)
  · rw [if_pos located] at success' ⊢
    exact ((packet_paints answers' geometry.1 geometry.2 input.counted (nothing scratchBytes' scratch' copied')).1 success').2
  · rw [if_neg located] at success'
    cases success'

/-- A column of pixels, one allocation with descriptions of two pitches. -/
def columnDescription (pitch : U32) : AllocationDescription :=
  { magic := allocationMagic, version := 1, type := 1, format := 21, width := 1, height := 3, pitch := pitch
    bytesPerPixel := 4, size := 96, cpuVisible := 1, reserved := 0 }

/-- Two pixels of the column, which is blitted onto itself. -/
def columnBlit (sourcePitch : U32) (sourceLocation : U64) : PresentBltInput :=
  { command := {
      magic := 0, version := presentGpuvaVersion, bytes := 0, rectCount := 0
      sourceDescription := columnDescription sourcePitch, destinationDescription := columnDescription 16
      sourceRect := ⟨0,0,1,3⟩, destinationRect := ⟨0,0,1,3⟩, sourceLocation := sourceLocation
      destinationLocation := 0x4000, contextToken := 1 }
    rects := [⟨0,2,1,3⟩,⟨0,1,1,2⟩], counted := by decide, multipassOffset := 0, sameAllocation := 1 }

/-- A memory whose bytes hold their offsets. -/
def offsets : Memory := fun i => BitVec.ofNat 8 i

/-- The packets of a low source address are not valid, and descriptions of two pitches split into another picture. -/
theorem split_changes_picture :
    (presentPasses (columnBlit 16 0x3000) (fun _ => 184) 3 0 0).packets.map (fun packet => (presentBltValidate packet false).isSome) =
      [false,false] ∧
    (presentPasses (columnBlit 32 0x4000) (fun _ => 184) 3 0 0).progress = .done ∧
    (executePackets (fun _ => true) 12 (presentPasses (columnBlit 32 0x4000) (fun _ => 184) 3 0 0).packets
      ⟨.shared offsets,fun _ => 0,[],0⟩).1 = true ∧
    (executeWhole (fun _ => true) 12 (columnBlit 32 0x4000) ⟨.shared offsets,fun _ => 0,[],0⟩).1 = true ∧
    (executePackets (fun _ => true) 12 (presentPasses (columnBlit 32 0x4000) (fun _ => 184) 3 0 0).packets
      ⟨.shared offsets,fun _ => 0,[],0⟩).2.surfaces.destination 16 = 64 ∧
    (executeWhole (fun _ => true) 12 (columnBlit 32 0x4000) ⟨.shared offsets,fun _ => 0,[],0⟩).2.surfaces.destination 16 = 32 := by
  refine ⟨by decide +kernel,by decide +kernel,by decide +kernel,by decide +kernel,by decide +kernel,by decide +kernel⟩

end WindowsOnM1.PresentSplit
