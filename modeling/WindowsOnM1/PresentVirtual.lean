import WindowsOnM1.PresentBlit
import WindowsOnM1.PresentGpuva

/-!
The blit through page tables does what the plain one does to the memories that the
translations show. A transfer that is split where pages end copies the same bytes, and the
probe has met every page that a row can reach.
-/
namespace WindowsOnM1.PresentVirtual
open ByteMemory CountedLoop PresentModel PresentBlit BitVec
open Option hiding min_eq_left

variable {σ τ : Type} {command : PresentBltCommand} {buffer : List Byte} {scratchBytes : U32}

/-- Two blits over related memories. -/
def Alongside (related : σ → τ → Prop) (blit : Blit σ) (blit' : Blit τ) : Prop :=
  related blit.world blit'.world ∧ blit.bytesCopied = blit'.bytesCopied

/-- Blits whose callbacks do alike on every range of a surface do alike. -/
private theorem presentBltExecuteWith_agrees {io : CopyIo σ} {io' : CopyIo τ} {reading writing lost : σ → τ → Prop}
    (accepted : presentBltValidate buffer true = some command)
    (reads : ∀ offset scratch count world world', offset.toNat + count.toNat ≤ command.sourceDescription.size.toNat →
      reading world world' →
      Agree reading lost (io.readSource offset scratch count world) (io'.readSource offset scratch count world'))
    (writes : ∀ offset scratch count world world', offset.toNat + count.toNat ≤ command.destinationDescription.size.toNat →
      writing world world' →
      Agree writing lost (io.writeDestination offset scratch count world) (io'.writeDestination offset scratch count world'))
    (turns : ∀ world world', reading world world' → writing world world')
    (stays : ∀ world world', reading world world' → lost world world') {blit : Blit σ} {blit' : Blit τ}
    (start : Alongside reading blit blit') :
    Agree (Alongside writing) (Alongside lost) (presentBltExecuteWith io buffer scratchBytes blit)
      (presentBltExecuteWith io' buffer scratchBytes blit') := by
  obtain ⟨geometry,within⟩ := validate_spec accepted
  unfold presentBltExecuteWith
  rw [accepted]
  dsimp only
  have refused : Agree (Alongside writing) (Alongside lost) (false,blit) (false,blit') :=
    ⟨rfl,nofun,fun _ => ⟨stays _ _ start.1,start.2⟩⟩
  cases needs : presentBltScratchBytes command with
  | none => exact refused
  | some needed =>
  dsimp only
  by_cases short : scratchBytes < needed
  · rw [if_pos short,if_pos short]
    exact refused
  rw [if_neg short,if_neg short]
  have enough := scratch_enough geometry needs short
  rw [geometry.rows]
  have snapshot : Agree (Alongside reading) (Alongside lost)
      (countLoop (snapshotRowWith io command) 0 (rectHeight command.sourceRect) ⟨blit.world,0⟩)
      (countLoop (snapshotRowWith io' command) 0 (rectHeight command.sourceRect) ⟨blit'.world,0⟩) := by
    refine countLoop_agrees ⟨start.1,rfl⟩ (fun row left left' _ below beside => ?_)
    have span := snapshot_span geometry (show row < rectHeight command.sourceRect by omega)
    rw [← (snapshot_offsets geometry (by omega) enough).1,← row_toNat geometry] at span
    obtain ⟨same,done,failed⟩ := reads _ (BitVec.ofNat 64 row *
      wide ((command.sourceRect.right - command.sourceRect.left) * 4) : U64).toNat _ _ _ span beside.1
    exact ⟨same,fun success => ⟨done success,beside.2⟩,fun failure => ⟨failed failure,beside.2⟩⟩
  cases isSnapshot : countLoop (snapshotRowWith io command) 0 (rectHeight command.sourceRect) ⟨blit.world,0⟩ with
  | mk done middle =>
  cases isSnapshot' : countLoop (snapshotRowWith io' command) 0 (rectHeight command.sourceRect) ⟨blit'.world,0⟩ with
  | mk done' middle' =>
  rw [isSnapshot,isSnapshot'] at snapshot
  obtain ⟨same,snapped,failed⟩ := snapshot
  obtain rfl : done = done' := same
  cases done with
  | false => exact ⟨rfl,nofun,failed⟩
  | true =>
  refine countLoop_agrees ⟨turns _ _ (snapped rfl).1,(snapped rfl).2⟩ (fun index left left' _ below beside => ?_)
  refine countLoop_agrees beside (fun row left left' above below beside => ?_)
  have inRect := within index (by omega)
  have span := write_span geometry inRect (show row < _ by have := inRect.high; omega)
  obtain ⟨place,-,count⟩ := write_offsets geometry enough inRect above (by have := inRect.high; omega)
  rw [← place,← count] at span
  have written := writes _ ((wide (BitVec.ofNat 32 row - command.destinationRect.top) *
    wide (command.sourceRect.right - command.sourceRect.left) + wide (bufferRect (contents buffer) index).left -
      wide command.destinationRect.left) * 4 : U64).toNat _ _ _ span beside.1
  unfold writeRowWith
  dsimp only
  split <;> rename_i world result <;> split <;> rename_i world' result' <;> rw [result,result'] at written <;>
    obtain ⟨same,done,failed⟩ := written
  · exact ⟨rfl,nofun,fun _ => ⟨failed rfl,beside.2⟩⟩
  · cases same
  · cases same
  exact ⟨rfl,fun _ => ⟨done rfl,congrArg (· + _) beside.2⟩,nofun⟩

theorem chunkOf_toNat {page : U32} {bits : Nat} (power : page.toNat = 2 ^ bits) (va left : U64) :
    (chunkOf page va left).toNat = min (2 ^ bits - va.toNat % 2 ^ bits) left.toNat := by
  have positive : 0 < 2 ^ bits := Nat.two_pow_pos bits
  have below : va.toNat % 2 ^ bits < 2 ^ bits := Nat.mod_lt _ positive
  have mask : (wide (page - 1)).toNat = 2 ^ bits - 1 := by
    rw [wide_toNat,sub_toNat (show (1 : U32).toNat ≤ page.toNat from by rw [power]; exact positive),power]
    rfl
  have place : ((va &&& wide (page - 1)).setWidth 32).toNat = va.toNat % 2 ^ bits := by
    rw [toNat_setWidth,toNat_and,mask,Nat.and_two_pow_sub_one_eq_mod,Nat.mod_eq_of_lt (by omega)]
  have chunk : (page - (va &&& wide (page - 1)).setWidth 32).toNat = 2 ^ bits - va.toNat % 2 ^ bits := by
    rw [sub_toNat (by rw [place,power]; exact below.le),power,place]
  unfold chunkOf
  dsimp only
  split_ifs with short
  · rw [lt_def,wide_toNat,chunk] at short
    rw [toNat_setWidth,Nat.mod_eq_of_lt (by omega),min_eq_right short.le]
  rw [lt_def,wide_toNat,chunk] at short
  rw [chunk,min_eq_left (by omega)]

variable {page : Nat}

theorem Translation.along (translation : Translation page) {va ipa : U64} {i : Nat}
    (translated : translation.translate va = some ipa) (inPage : va.toNat % page + i < page)
    (small : va.toNat + i < 2 ^ 64) :
    (translation.translate (va + BitVec.ofNat 64 i)).map BitVec.toNat = some (ipa.toNat + i) := by
  have there : (va + BitVec.ofNat 64 i).toNat = va.toNat + i := by
    rw [toNat_add,toNat_ofNat]
    omega
  have split := Nat.div_add_mod va.toNat page
  have samePage : (va.toNat + i) / page = va.toNat / page := by
    conv_lhs => rw [← split,Nat.add_assoc,Nat.mul_add_div (by omega),Nat.div_eq_of_lt inPage,Nat.add_zero]
  have samePlace : (va.toNat + i) % page = va.toNat % page + i := by
    conv_lhs => rw [← split,Nat.add_assoc,Nat.mul_add_mod,Nat.mod_eq_of_lt inPage]
  obtain ⟨ipa',translated',frame⟩ := translation.whole va (va + BitVec.ofNat 64 i) ipa (by rw [there,samePage]) translated
  have place := translation.place _ _ translated
  have place' := translation.place _ _ translated'
  rw [there,samePlace,← place] at place'
  rw [translated',map_some,← Nat.div_add_mod ipa'.toNat page,frame,place',← Nat.add_assoc,Nat.div_add_mod]

theorem transferPages_ends {page : U32} {bits : Nat} (power : page.toNat = 2 ^ bits) {translate : U64 → Option U64} {base : U64}
    {transfer : U64 → Nat → U32 → GpuvaState → Bool × GpuvaState} (invariant : Nat → GpuvaState → Prop)
    (failed : GpuvaState → Prop) {offset : U64} {scratch : Nat} {count : U32}
    (small : base.toNat + offset.toNat + count.toNat < 2 ^ 64)
    (untranslated : ∀ done state, done < count.toNat → translate (base + offset + BitVec.ofNat 64 done) = none →
      invariant done state → failed state) (turn : ∀ done (chunk : U32) ipa state, done + chunk.toNat ≤ count.toNat →
      translate (base + offset + BitVec.ofNat 64 done) = some ipa →
      (base.toNat + offset.toNat + done) % 2 ^ bits + chunk.toNat ≤ 2 ^ bits → invariant done state →
      Ends (invariant (done + chunk.toNat)) failed (transfer ipa (scratch + done) chunk state))
    {done turns : Nat} {left : U32} (still : done + left.toNat = count.toNat) (enough : left.toNat < turns)
    {state : GpuvaState} (start : invariant done state) : Ends (invariant count.toNat) failed
      (transferPages page translate base transfer turns (offset + BitVec.ofNat 64 done) (scratch + done) left state) := by
  induction turns generalizing done left state with
  | zero => exact absurd enough (Nat.not_lt_zero _)
  | succ turns ih =>
  unfold transferPages
  by_cases finished : left = 0
  · subst finished
    obtain rfl : done = count.toNat := still
    exact ⟨fun _ => start,nofun⟩
  have positive : 0 < left.toNat := Nat.pos_of_ne_zero (fun zero => finished (eq_of_toNat_eq zero))
  have place : (base + (offset + BitVec.ofNat 64 done)).toNat = base.toNat + offset.toNat + done := by
    rw [toNat_add,toNat_add,toNat_ofNat]
    omega
  have chunkIs := chunkOf_toNat power (base + (offset + BitVec.ofNat 64 done)) (wide left)
  rw [place,wide_toNat] at chunkIs
  rw [if_neg finished]
  dsimp only
  generalize chunkOf page (base + (offset + BitVec.ofNat 64 done)) (wide left) = chunk at chunkIs
  cases translated : translate (base + (offset + BitVec.ofNat 64 done)) with
  | none =>
    rw [← BitVec.add_assoc] at translated
    exact ⟨nofun,fun _ => untranslated done state (by omega) translated start⟩
  | some ipa =>
  rw [← BitVec.add_assoc] at translated
  have here := turn done chunk ipa state (by omega) translated (by omega) start
  dsimp only
  cases result : transfer ipa (scratch + done) chunk state with | mk success after =>
  rw [result] at here
  cases success with
  | false => exact ⟨nofun,here.2⟩
  | true =>
  have next : offset + BitVec.ofNat 64 done + wide chunk = offset + BitVec.ofNat 64 (done + chunk.toNat) := by
    rw [ofNat_add,BitVec.add_assoc]
    refine congrArg (fun step => offset + (BitVec.ofNat 64 done + step)) (eq_of_toNat_eq ?_)
    rw [wide_toNat,toNat_ofNat]
    omega
  have less : (left - chunk).toNat = left.toNat - chunk.toNat := sub_toNat (by omega)
  rw [next,Nat.add_assoc]
  exact ih (by omega) (by omega) (here.1 rfl)

/-- Where the bytes behind an address are. -/
def byteAt (translate : U64 → Option U64) (base : U64) (v : Nat) : Option Nat :=
  (translate (base + BitVec.ofNat 64 v)).map BitVec.toNat

/-- The bytes behind an address that can be reached. -/
def reachable (set : Nat → Bool) (translate : U64 → Option U64) (base : U64) (v : Nat) : Bool :=
  (byteAt translate base v).any set
def behind (memory : Memory) (translate : U64 → Option U64) (base : U64) : Memory :=
  fun v => ((byteAt translate base v).map memory).getD 0

theorem byteAt_chunk {bits : Nat} (translation : Translation (2 ^ bits)) {base offset ipa : U64} {done i : Nat}
    (translated : translation.translate (base + offset + BitVec.ofNat 64 done) = some ipa)
    (inPage : (base.toNat + offset.toNat + done) % 2 ^ bits + i < 2 ^ bits)
    (small : base.toNat + offset.toNat + done + i < 2 ^ 64) :
    byteAt translation.translate base (offset.toNat + done + i) = some (ipa.toNat + i) := by
  have place : (base + offset + BitVec.ofNat 64 done).toNat = base.toNat + offset.toNat + done := by
    rw [toNat_add,toNat_add,toNat_ofNat]
    omega
  have same : base + BitVec.ofNat 64 (offset.toNat + done + i) = base + offset + BitVec.ofNat 64 done + BitVec.ofNat 64 i := by
    rw [ofNat_add,ofNat_add,ofNat_toNat,setWidth_eq,BitVec.add_assoc,BitVec.add_assoc,BitVec.add_assoc]
  rw [byteAt,same]
  exact Translation.along translation translated (by rw [place]; exact inPage) (by rw [place]; exact small)

theorem reachable_chunk {bits : Nat} (translation : Translation (2 ^ bits)) {base offset ipa : U64} {done : Nat} {chunk : U32}
    (translated : translation.translate (base + offset + BitVec.ofNat 64 done) = some ipa)
    (inPage : (base.toNat + offset.toNat + done) % 2 ^ bits + chunk.toNat ≤ 2 ^ bits)
    (small : base.toNat + offset.toNat + done + chunk.toNat < 2 ^ 64) (set : Nat → Bool) :
    rangeIn set ipa.toNat chunk.toNat = rangeIn (reachable set translation.translate base) (offset.toNat + done) chunk.toNat := by
  refine Bool.eq_iff_iff.mpr ?_
  rw [rangeIn_iff,rangeIn_iff]
  refine forall_congr' (fun i => forall_congr' (fun inside => ?_))
  rw [reachable,byteAt_chunk translation translated (by omega) (by omega)]
  rfl

theorem rangeIn_add (set : Nat → Bool) (offset first second : Nat) :
    rangeIn set offset (first + second) = (rangeIn set offset first && rangeIn set (offset + first) second) := by
  simp only [rangeIn,List.range_add,List.all_append,List.all_map,Function.comp_def,Nat.add_assoc]

theorem rangeIn_false {set : Nat → Bool} {offset count i : Nat} (inside : i < count) (out : set (offset + i) = false) :
    rangeIn set offset count = false := by
  refine Bool.eq_false_iff.mpr (fun all => ?_)
  rw [rangeIn_iff.mp all i inside] at out
  cases out

private theorem gpuva_locations (accepted : presentBltValidate buffer true = some command) (version : command.version = 2) :
    command.sourceLocation.toNat + command.sourceDescription.size.toNat ≤ 2 ^ 39 ∧
      command.destinationLocation.toNat + command.destinationDescription.size.toNat ≤ 2 ^ 39 := by
  unfold presentBltValidate at accepted
  dsimp only at accepted
  split_ifs at accepted with _ _ located _
  cases accepted
  unfold locationsValid at located
  rw [if_pos version] at located
  simp only [Bool.not_eq_true',Bool.or_eq_false_iff,decide_eq_false_iff_not,lt_def,le_def] at located
  obtain ⟨⟨⟨⟨⟨_,_⟩,source⟩,destination⟩,sourceSize⟩,destinationSize⟩ := located
  have top : (1 <<< 39 : U64).toNat = 2 ^ 39 := rfl
  bv_omega

variable (io : GpuvaIo)

abbrev sourceReadable (command : PresentBltCommand) : Nat → Bool :=
  reachable io.readable io.sourceTranslate.translate command.sourceLocation
abbrev destinationWritable (command : PresentBltCommand) : Nat → Bool :=
  reachable io.writable io.destinationTranslate.translate command.destinationLocation
abbrev sourceBehind (command : PresentBltCommand) (memory : Memory) : Memory :=
  behind memory io.sourceTranslate.translate command.sourceLocation
abbrev destinationBehind (command : PresentBltCommand) (memory : Memory) : Memory :=
  behind memory io.destinationTranslate.translate command.destinationLocation

variable {offset : U64} {count : U32}

private theorem presentGpuvaRead_ends (located : command.sourceLocation.toNat + command.sourceDescription.size.toNat ≤ 2 ^ 39)
    (inside : offset.toNat + count.toNat ≤ command.sourceDescription.size.toNat) (scratch : Nat) (state : GpuvaState) :
    Ends (fun left => rangeIn (sourceReadable io command) offset.toNat count.toNat = true ∧ left.memory = state.memory ∧
        left.scratch = copyTo state.scratch scratch (fun i => sourceBehind io command state.memory (offset.toNat + i)) count.toNat)
      (fun left => rangeIn (sourceReadable io command) offset.toNat count.toNat = false ∧ left.memory = state.memory)
      (presentGpuvaRead io command offset scratch count state) := by
  have fits : ¬ (command.sourceDescription.size < offset ∨ command.sourceDescription.size - offset < wide count) := by
    rw [lt_def,lt_def,toNat_sub_of_le (le_def.mpr (by omega)),wide_toNat]
    omega
  unfold presentGpuvaRead
  rw [if_neg fits]
  have run := @transferPages_ends 0x1000 12 rfl io.sourceTranslate.translate command.sourceLocation io.read
    (fun done left => rangeIn (sourceReadable io command) offset.toNat done = true ∧ left.memory = state.memory ∧
      left.scratch = copyTo state.scratch scratch (fun i => sourceBehind io command state.memory (offset.toNat + i)) done)
    (fun left => rangeIn (sourceReadable io command) offset.toNat count.toNat = false ∧ left.memory = state.memory)
    offset scratch count (by omega) ?_ ?_ 0 (count.toNat + 1) count (Nat.zero_add _) (Nat.lt_succ_self _) state ⟨rfl,rfl,?_⟩
  · rw [show offset + BitVec.ofNat 64 0 = offset from BitVec.add_zero _] at run
    exact run
  · rintro done left below untranslated ⟨_,memory,_⟩
    refine ⟨rangeIn_false below ?_,memory⟩
    rw [sourceReadable,reachable,byteAt,ofNat_add,ofNat_toNat,setWidth_eq,← BitVec.add_assoc,untranslated]
    rfl
  · rintro done chunk ipa left upTo translated inPage ⟨readable,memory,copied⟩
    have reaches := @reachable_chunk 12 io.sourceTranslate _ _ _ _ _ translated inPage (by omega) io.readable
    unfold GpuvaIo.read
    split_ifs with read
    · refine ⟨fun _ => ⟨?_,memory,?_⟩,by rintro ⟨⟩⟩
      · rw [rangeIn_add,readable,← reaches,read]
        rfl
      dsimp only
      rw [copied,memory,← copyTo_split]
      funext i
      by_cases here : scratch + done ≤ i ∧ i < scratch + done + chunk.toNat
      · have there := @byteAt_chunk 12 io.sourceTranslate _ _ _ _ (i - (scratch + done)) translated (by omega) (by omega)
        rw [copyTo,if_pos here,copyTo,if_pos here,sourceBehind,behind,← Nat.add_assoc,there]
        rfl
      rw [copyTo_outside here,copyTo_outside here]
    refine ⟨by rintro ⟨⟩,fun _ => ⟨?_,memory⟩⟩
    obtain ⟨rest,same⟩ := Nat.exists_eq_add_of_le upTo
    rw [reaches] at read
    rw [same,rangeIn_add,rangeIn_add,Bool.eq_false_iff.mpr read,Bool.and_false,Bool.false_and]
  funext i
  rw [copyTo_outside (by omega)]

/-- Different pages of the destination are different pages of the memory. -/
def DistinctPages (command : PresentBltCommand) : Prop :=
  ∀ v < command.destinationDescription.size.toNat, ∀ w < command.destinationDescription.size.toNat, ∀ p q,
    byteAt io.destinationTranslate.translate command.destinationLocation v = some p →
    byteAt io.destinationTranslate.translate command.destinationLocation w = some q →
    p / destinationPage = q / destinationPage →
      (command.destinationLocation.toNat + v) / destinationPage = (command.destinationLocation.toNat + w) / destinationPage

variable {io}

theorem byteAt_place (translation : Translation page) {base : U64} {v p : Nat} (small : base.toNat + v < 2 ^ 64)
    (there : byteAt translation.translate base v = some p) : p % page = (base.toNat + v) % page := by
  obtain ⟨ipa,translated,rfl⟩ := map_eq_some_iff.mp there
  rw [translation.place _ _ translated,toNat_add,toNat_ofNat,Nat.mod_eq_of_lt (by omega : v < 2 ^ 64),
    Nat.mod_eq_of_lt small]

private theorem distinctBytes (located : command.destinationLocation.toNat + command.destinationDescription.size.toNat ≤ 2 ^ 39)
    (distinct : DistinctPages io command) {v w p : Nat} (inside : v < command.destinationDescription.size.toNat)
    (inside' : w < command.destinationDescription.size.toNat)
    (there : byteAt io.destinationTranslate.translate command.destinationLocation v = some p)
    (there' : byteAt io.destinationTranslate.translate command.destinationLocation w = some p) : v = w := by
  have frames := distinct v inside w inside' p p there there' rfl
  have place := byteAt_place io.destinationTranslate (by omega) there
  have place' := byteAt_place io.destinationTranslate (by omega) there'
  have same : command.destinationLocation.toNat + v = command.destinationLocation.toNat + w := by
    rw [← Nat.div_add_mod (command.destinationLocation.toNat + v) destinationPage,frames,← place,place',Nat.div_add_mod]
  omega

/-- A memory that shows a destination behind the translation, and is otherwise as it was. -/
structure Shown (io : GpuvaIo) (command : PresentBltCommand) (start memory destination : Memory) : Prop where
  inside : ∀ v < command.destinationDescription.size.toNat, destinationBehind io command memory v = destination v
  outside : ∀ p, (∀ v < command.destinationDescription.size.toNat,
    byteAt io.destinationTranslate.translate command.destinationLocation v ≠ some p) → memory p = start p

variable {start : Memory}

/-- A chunk that is written to the memory is written to the destination. -/
theorem Shown.chunk {memory destination : Memory} (shown : Shown io command start memory destination)
    (located : command.destinationLocation.toNat + command.destinationDescription.size.toNat ≤ 2 ^ 39)
    (distinct : DistinctPages io command) {first count ipa : Nat}
    (short : first + count ≤ command.destinationDescription.size.toNat)
    (there : ∀ i < count, byteAt io.destinationTranslate.translate command.destinationLocation (first + i) = some (ipa + i))
    (bytes : Memory) :
    Shown io command start (copyTo memory ipa bytes count) (copyTo destination first bytes count) := by
  constructor
  · intro v inside
    by_cases here : first ≤ v ∧ v < first + count
    · obtain ⟨i,rfl⟩ := Nat.exists_eq_add_of_le here.1
      rw [copyTo_inside i (by omega),destinationBehind,behind,there i (by omega),map_some,getD_some,
        copyTo_inside i (by omega)]
    rw [copyTo_outside here,← shown.inside v inside,destinationBehind,behind,destinationBehind,behind]
    cases place : byteAt io.destinationTranslate.translate command.destinationLocation v with
    | none => rfl
    | some p =>
    refine copyTo_outside (fun among => here ?_)
    obtain ⟨i,rfl⟩ := Nat.exists_eq_add_of_le among.1
    obtain rfl := distinctBytes located distinct inside (by omega) place (there i (by omega))
    omega
  intro p apart
  rw [copyTo_outside,shown.outside p apart]
  rintro ⟨above,below⟩
  obtain ⟨i,rfl⟩ := Nat.exists_eq_add_of_le above
  exact apart (first + i) (by omega) (there i (by omega))

section
variable (located : command.destinationLocation.toNat + command.destinationDescription.size.toNat ≤ 2 ^ 39)
include located

private theorem presentGpuvaWrite_ends (distinct : DistinctPages io command)
    (writable : ∀ v < command.destinationDescription.size.toNat, destinationWritable io command v = true)
    (inside : offset.toNat + count.toNat ≤ command.destinationDescription.size.toNat) (scratch : Nat)
    {destination : Memory} {state : GpuvaState} (shown : Shown io command start state.memory destination) :
    Ends (fun left => left.scratch = state.scratch ∧ Shown io command start left.memory
        (copyTo destination offset.toNat (fun i => state.scratch (scratch + i)) count.toNat))
      (fun _ => False) (presentGpuvaWrite io command offset scratch count state) := by
  have fits : ¬ (command.destinationDescription.size < offset ∨ command.destinationDescription.size - offset < wide count) := by
    rw [lt_def,lt_def,toNat_sub_of_le (le_def.mpr (by omega)),wide_toNat]
    omega
  unfold presentGpuvaWrite
  rw [if_neg fits]
  have run := @transferPages_ends 0x4000 14 rfl io.destinationTranslate.translate command.destinationLocation (io.write true)
    (fun done left => left.scratch = state.scratch ∧ Shown io command start left.memory
      (copyTo destination offset.toNat (fun i => state.scratch (scratch + i)) done))
    (fun _ => False) offset scratch count (by omega) ?_ ?_ 0 (count.toNat + 1) count (Nat.zero_add _) (Nat.lt_succ_self _) state
    ⟨rfl,?_⟩
  · rw [show offset + BitVec.ofNat 64 0 = offset from BitVec.add_zero _] at run
    exact run
  · rintro done left below untranslated -
    have reached := writable (offset.toNat + done) (by omega)
    rw [destinationWritable,reachable,byteAt,ofNat_add,ofNat_toNat,setWidth_eq,← BitVec.add_assoc, untranslated] at reached
    cases reached
  · rintro done chunk ipa left upTo translated inPage ⟨kept,before⟩
    have reaches := @reachable_chunk 14 io.destinationTranslate _ _ _ _ _ translated inPage (by omega) io.writable
    have write : rangeIn io.writable ipa.toNat chunk.toNat = true := by
      rw [reaches,rangeIn_iff]
      exact fun i small => writable _ (by omega)
    unfold GpuvaIo.write
    rw [if_pos write,if_pos rfl]
    refine ⟨fun _ => ⟨kept,?_⟩,nofun⟩
    have after := before.chunk located distinct (by omega : offset.toNat + done + chunk.toNat ≤ _)
      (fun i small => @byteAt_chunk 14 io.destinationTranslate _ _ _ _ i translated (by omega) (by omega))
      (fun i => left.scratch (scratch + done + i))
    simp only [kept,Nat.add_assoc scratch] at after ⊢
    rw [← copyTo_split]
    exact after
  have nothing : copyTo destination offset.toNat (fun i => state.scratch (scratch + i)) 0 = destination :=
    funext (fun i => copyTo_outside (by omega))
  rw [nothing]
  exact shown

private theorem probeDestination_eq
    (state : GpuvaState) {turns : Nat} (inside : offset.toNat ≤ command.destinationDescription.size.toNat)
    (enough : command.destinationDescription.size.toNat - offset.toNat < turns) :
    probeDestination io command state turns offset =
      rangeIn (destinationWritable io command) offset.toNat (command.destinationDescription.size.toNat - offset.toNat) := by
  induction turns generalizing offset with
  | zero => exact absurd enough (Nat.not_lt_zero _)
  | succ turns ih =>
  unfold probeDestination
  dsimp only
  by_cases finished : command.destinationDescription.size.toNat = offset.toNat
  · rw [if_neg (by rw [lt_def]; omega),finished,Nat.sub_self]
    rfl
  have more : offset < command.destinationDescription.size := lt_def.mpr (by omega)
  have place : (command.destinationLocation + offset).toNat = command.destinationLocation.toNat + offset.toNat := by
    rw [toNat_add]
    omega
  have chunkIs := chunkOf_toNat (show (0x4000 : U32).toNat = 2 ^ 14 from rfl) (command.destinationLocation + offset)
    (command.destinationDescription.size - offset)
  rw [place,toNat_sub_of_le (BitVec.le_of_lt more)] at chunkIs
  rw [if_pos more]
  generalize chunkOf 0x4000 (command.destinationLocation + offset) (command.destinationDescription.size - offset) = chunk
    at chunkIs
  have rest : command.destinationDescription.size.toNat - offset.toNat =
      chunk.toNat + (command.destinationDescription.size.toNat - (offset.toNat + chunk.toNat)) := by omega
  cases translated : io.destinationTranslate.translate (command.destinationLocation + offset) with
  | none =>
    refine (@rangeIn_false _ _ _ 0 (by omega) ?_).symm
    rw [destinationWritable,reachable,byteAt,Nat.add_zero,ofNat_toNat,setWidth_eq,translated]
    rfl
  | some ipa =>
  have first : command.destinationLocation + offset + BitVec.ofNat 64 0 = command.destinationLocation + offset :=
    BitVec.add_zero _
  have reaches := @reachable_chunk 14 io.destinationTranslate command.destinationLocation offset ipa 0 chunk
    (by rw [first]; exact translated) (by omega) (by omega) io.writable
  rw [Nat.add_zero] at reaches
  have next : (offset + wide chunk).toNat = offset.toNat + chunk.toNat := by
    rw [toNat_add,wide_toNat]
    omega
  dsimp only
  rw [rest,rangeIn_add,destinationWritable,← reaches,GpuvaIo.write]
  cases rangeIn io.writable ipa.toNat chunk.toNat with
  | false => rfl
  | true =>
  have after := ih (show (offset + wide chunk).toNat ≤ _ by rw [next]; omega) (by rw [next]; omega)
  rw [next] at after
  exact after

end

variable (io)

/-- The memories that the translations show, with the scratch buffer. -/
def plainBlit (command : PresentBltCommand) (blit : Blit GpuvaState) : Blit PlainState :=
  ⟨⟨sourceBehind io command blit.world.memory,destinationBehind io command blit.world.memory,blit.world.scratch⟩,blit.bytesCopied⟩

/-- What the memories are during the snapshot. -/
structure Reading (command : PresentBltCommand) (start : Memory) (world : GpuvaState) (plain : PlainState) : Prop where
  memory : world.memory = start
  source : plain.source = sourceBehind io command start
  destination : plain.destination = destinationBehind io command start
  scratch : world.scratch = plain.scratch

/-- What the memories are while rows are written, and after it. -/
def Writing (command : PresentBltCommand) (start : Memory) (world : GpuvaState) (plain : PlainState) : Prop :=
  Shown io command start world.memory plain.destination ∧ world.scratch = plain.scratch
def Left (command : PresentBltCommand) (start : Memory) (world : GpuvaState) (plain : PlainState) : Prop :=
  Shown io command start world.memory plain.destination

variable {io}

theorem shown_start (start : Memory) : Shown io command start start (destinationBehind io command start) :=
  ⟨fun _ _ => rfl,fun _ _ => rfl⟩

variable {world : GpuvaState} {plain : PlainState}

private theorem reading_agrees (located : command.sourceLocation.toNat + command.sourceDescription.size.toNat ≤ 2 ^ 39)
    (writable : Nat → Bool) (scratch : Nat)
    (inside : offset.toNat + count.toNat ≤ command.sourceDescription.size.toNat) (reading : Reading io command start world plain) :
    Agree (Reading io command start) (Left io command start) ((gpuvaCopy io command).readSource offset scratch count world)
      ((plainIo (sourceReadable io command) writable).readSource offset scratch count plain) := by
  obtain ⟨memory,source,destination,same⟩ := reading
  obtain ⟨done,failed⟩ := presentGpuvaRead_ends io located inside scratch world
  change Agree _ _ (presentGpuvaRead io command offset scratch count world) (if _ then _ else _)
  cases result : presentGpuvaRead io command offset scratch count world with | mk success left =>
  rw [result] at done failed
  cases success with
  | true =>
    obtain ⟨readable,kept,copied⟩ := done rfl
    rw [if_pos readable]
    refine ⟨rfl,fun _ => ⟨kept.trans memory,source,destination,?_⟩,nofun⟩
    rw [copied,same,source,memory]
  | false =>
  obtain ⟨unreadable,kept⟩ := failed rfl
  rw [if_neg (Bool.eq_false_iff.mp unreadable)]
  refine ⟨rfl,nofun,fun _ => ?_⟩
  rw [Left,kept,memory,destination]
  exact shown_start start

private theorem writing_agrees (located : command.destinationLocation.toNat + command.destinationDescription.size.toNat ≤ 2 ^ 39)
    (distinct : DistinctPages io command)
    (writable : ∀ v < command.destinationDescription.size.toNat, destinationWritable io command v = true)
    (readable : Nat → Bool) (scratch : Nat)
    (inside : offset.toNat + count.toNat ≤ command.destinationDescription.size.toNat) (writing : Writing io command start world plain) :
    Agree (Writing io command start) (Left io command start)
      ((gpuvaCopy io command).writeDestination offset scratch count world)
      ((plainIo readable (destinationWritable io command)).writeDestination offset scratch count plain) := by
  obtain ⟨shown,same⟩ := writing
  have reached : rangeIn (destinationWritable io command) offset.toNat count.toNat = true :=
    rangeIn_iff.mpr (fun i small => writable _ (by omega))
  obtain ⟨done,failed⟩ := presentGpuvaWrite_ends located distinct writable inside scratch shown
  change Agree _ _ (presentGpuvaWrite io command offset scratch count world) (if _ then _ else _)
  rw [if_pos reached]
  cases result : presentGpuvaWrite io command offset scratch count world with | mk success left =>
  rw [result] at done failed
  cases success with
  | true =>
    obtain ⟨kept,after⟩ := done rfl
    rw [same] at after kept
    exact ⟨rfl,fun _ => ⟨after,kept⟩,nofun⟩
  | false => exact (failed rfl).elim

/-- A blit through page tables succeeds where the plain one does, and leaves what it leaves behind the translation of the
    destination; where a byte of the destination cannot be written, it does nothing. -/
theorem presentGpuva_exact (io : GpuvaIo) (buffer : List Byte) (scratchBytes : U32) (blit : Blit GpuvaState)
    (command : PresentBltCommand) (accepted : presentBltValidate buffer true = some command) (version : command.version = 2)
    (distinct : DistinctPages io command) :
    ((∀ v < command.destinationDescription.size.toNat, destinationWritable io command v = true) →
      let left := presentBltExecuteGpuvaSeparate io buffer scratchBytes blit
      let plain := presentBltExecuteWith (plainIo (sourceReadable io command) (destinationWritable io command)) buffer scratchBytes
        (plainBlit io command blit)
      left.1 = plain.1 ∧ left.2.bytesCopied = plain.2.bytesCopied ∧
        Shown io command blit.world.memory left.2.world.memory plain.2.world.destination ∧
        (left.1 = true → left.2.world.scratch = plain.2.world.scratch)) ∧
    ((∃ v < command.destinationDescription.size.toNat, destinationWritable io command v = false) →
      presentBltExecuteGpuvaSeparate io buffer scratchBytes blit = (false,blit)) := by
  obtain ⟨source,destination⟩ := gpuva_locations accepted version
  have probe : presentBltExecuteGpuvaSeparate io buffer scratchBytes blit =
      if rangeIn (destinationWritable io command) 0 command.destinationDescription.size.toNat then
        presentBltExecuteWith (gpuvaCopy io command) buffer scratchBytes blit
      else (false,blit) := by
    unfold presentBltExecuteGpuvaSeparate
    rw [accepted]
    dsimp only
    rw [if_neg (not_not.mpr version),probeDestination_eq destination _ (Nat.zero_le _) (by exact Nat.lt_succ_self _)]
    rfl
  constructor
  · intro writable
    have all : rangeIn (destinationWritable io command) 0 command.destinationDescription.size.toNat = true :=
      rangeIn_iff.mpr (fun i inside => by rw [Nat.zero_add]; exact writable i inside)
    rw [probe,if_pos all]
    have beside : Alongside (Reading io command blit.world.memory) blit (plainBlit io command blit) := ⟨⟨rfl,rfl,rfl,rfl⟩,rfl⟩
    have start : ∀ world plain, Reading io command blit.world.memory world plain →
        Shown io command blit.world.memory world.memory plain.destination := by
      intro world plain reading
      rw [reading.memory,reading.destination]
      exact shown_start _
    obtain ⟨same,done,failed⟩ := presentBltExecuteWith_agrees accepted
      (fun offset scratch count _ _ inside reading => reading_agrees source (destinationWritable io command) scratch inside reading)
      (fun offset scratch count _ _ inside writing =>
        writing_agrees destination distinct writable (sourceReadable io command) scratch inside writing)
      (fun world plain reading => ⟨start world plain reading,reading.scratch⟩) start beside
    dsimp only
    cases success : (presentBltExecuteWith (gpuvaCopy io command) buffer scratchBytes blit).1 with
    | true =>
      obtain ⟨⟨shown,scratch⟩,copied⟩ := done success
      exact ⟨success.symm.trans same,copied,shown,fun _ => scratch⟩
    | false =>
      obtain ⟨shown,copied⟩ := failed success
      exact ⟨success.symm.trans same,copied,shown,nofun⟩
  · rintro ⟨v,inside,refused⟩
    rw [probe,if_neg (Bool.eq_false_iff.mp (rangeIn_false inside (by rw [Nat.zero_add]; exact refused)))]

/-- Two pixels in rows of which one lies across a page boundary of the source, and one across
    a boundary of the destination. -/
def straddling : List Byte :=
  [(presentMagic : U32),2,184,1,allocationMagic,1,1,21,1,3,16,4,48,0,0,0,allocationMagic,1,1,21,1,3,16,4,48,0,0,0,
    0,0,1,2,0,1,1,3,0x4ffe,0,0x7fee,0,1,0,0,1,1,3].flatMap
    (fun word : U32 => [word.setWidth 8,(word >>> 8).setWidth 8,(word >>> 16).setWidth 8,(word >>> 24).setWidth 8])

/-- The pages from `0x8000` on are below the ones before them. -/
def scatter (va : U64) : U64 := if va < 0x8000 then va + 0x80000 else va + 0x40000

theorem scatter_toNat (va : U64) : (scatter va).toNat =
    (va.toNat + (if va.toNat < 0x8000 then 0x80000 else 0x40000)) % 2 ^ 64 := by
  unfold scatter
  split_ifs with low high high
  · exact toNat_add _ _
  · exact absurd low high
  · exact absurd high low
  exact toNat_add _ _

def scattering (page : Nat) (known : page = 0x1000 ∨ page = 0x4000) : Translation page where
  translate va := some (scatter va)
  place va ipa same := by
    obtain rfl := Option.some.inj same
    rw [scatter_toNat]
    rcases known with rfl | rfl <;> split_ifs <;> omega
  whole va va' ipa same there := by
    obtain rfl := Option.some.inj there
    refine ⟨_,rfl,?_⟩
    rw [scatter_toNat,scatter_toNat]
    rcases known with rfl | rfl <;> split_ifs <;> omega

def scattered : GpuvaIo where
  sourceTranslate := scattering _ (.inl rfl)
  destinationTranslate := scattering _ (.inr rfl)
  readable := fun _ => true
  writable := fun _ => true

theorem presentGpuva_exact_straddling :
    (presentBltExecuteGpuvaSeparate scattered straddling 8 ⟨⟨fun i => BitVec.ofNat 8 (i / 0x1000),fun _ => 0⟩,0⟩).1 = true ∧
    destinationBehind scattered (commandAt (contents straddling)) (presentBltExecuteGpuvaSeparate scattered straddling 8
        ⟨⟨fun i => BitVec.ofNat 8 (i / 0x1000),fun _ => 0⟩,0⟩).2.world.memory 18 = 0x85 := by
  have distinct : DistinctPages scattered (commandAt (contents straddling)) := by
    intro v inside w inside' p q there there'
    have location : (commandAt (contents straddling)).destinationLocation.toNat = 0x7fee := by decide +kernel
    have size : (commandAt (contents straddling)).destinationDescription.size.toNat = 48 := by decide +kernel
    rw [size] at inside inside'
    obtain ⟨_,isHere,rfl⟩ := map_eq_some_iff.mp there
    obtain ⟨_,isHere',rfl⟩ := map_eq_some_iff.mp there'
    obtain rfl := Option.some.inj isHere
    obtain rfl := Option.some.inj isHere'
    rw [scatter_toNat,scatter_toNat,toNat_add,toNat_add,toNat_ofNat,toNat_ofNat,location,
      destinationPage]
    split_ifs <;> omega
  obtain ⟨same,-,shown,-⟩ := (presentGpuva_exact scattered straddling 8 ⟨⟨fun i => BitVec.ofNat 8 (i / 0x1000),fun _ => 0⟩,0⟩
    (commandAt (contents straddling)) (by decide +kernel) (by decide +kernel) distinct).1 (by decide +kernel)
  exact ⟨same.trans (by decide +kernel),(shown.inside 18 (by decide +kernel)).trans (by decide +kernel)⟩

end WindowsOnM1.PresentVirtual
