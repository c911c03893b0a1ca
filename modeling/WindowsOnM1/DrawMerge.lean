import WindowsOnM1.ByteWrites
import WindowsOnM1.CountedLoop

/-!
The merge of GL multi-draws of `agx_wgl_draw_merge.c`: consecutive draws become one indexed
draw. Strips and fans are separated by a restart index, polygons and quads are converted by
the index generator of Mesa, which is a parameter here. The type `size_t` has `w` bits: 32 in
the x86 driver.
-/
namespace WindowsOnM1.DrawMerge
open ByteMemory ByteWrites CountedLoop List
open BitVec hiding and_assoc append_assoc cast

abbrev U32 := BitVec 32

/-- `enum mesa_prim`. -/
inductive MesaPrim
  | points | lines | lineLoop | lineStrip | triangles | triangleStrip | triangleFan | quads | quadStrip | polygon
  | linesAdjacency | lineStripAdjacency | trianglesAdjacency | triangleStripAdjacency | patches
deriving DecidableEq

/-- `1u << mode`, in the order of the enumeration. -/
def MesaPrim.bit (mode : MesaPrim) : U32 := 1 <<< mode.ctorIdx

/-- What `u_index_generator` answers; `generate start outNr out dst` writes the indices. -/
structure Generated where
  prim : MesaPrim
  outSize : U32
  outNr : U32
  generate : (start outNr : U32) → (out : Memory) → (dst : Nat) → Memory

/-- The functions of Mesa that the merge calls. -/
structure IndexGenerator where
  /-- `u_trim_pipe_prim`: the trimmed count, when a whole primitive is left. -/
  trimPipePrim : MesaPrim → U32 → Option U32
  /-- `u_index_count_converted_indices`. -/
  countConvertedIndices : (hwMask : U32) → (primitiveRestart : Bool) → MesaPrim → (count : U32) → U32
  /-- `u_index_generator`. -/
  indexGenerator : (hwMask : U32) → MesaPrim → (start nr : U32) → (inPvFirst outPvFirst : Bool) → Generated

/-- `AGX_WGL_MERGED_DRAW`. -/
structure MergedDraw where
  prim : MesaPrim := .points
  indexSize : Nat := 0
  count : U32 := 0
  restart : Bool := false
  restartIndex : U32 := 0

section
variable (w : Nat) (draws : Memory) (stride : Nat)

/-- `draw_start`. -/
def drawStart (i : Nat) : U32 := u32At draws (stride * i % 2 ^ w)

/-- `draw_count`. -/
def drawCount (i : Nat) : U32 := u32At draws (stride * i % 2 ^ w + 4)

/-- `max_end`. -/
def maxEnd (numDraws : Nat) : U32 :=
  forRange (fun i ending =>
    if drawCount w draws stride i ≠ 0 ∧ ending < drawStart w draws stride i + drawCount w draws stride i then
      drawStart w draws stride i + drawCount w draws stride i
    else ending) 0 numDraws 0

/-- `generated_index_size`. -/
def generatedIndexSize (numDraws : Nat) : Nat := if 0xfffe < maxEnd w draws stride numDraws then 4 else 2

/-- `restart_index_size`. -/
def restartIndexSize (numDraws : Nat) : Nat := if 0xffff < maxEnd w draws stride numDraws then 4 else 2

end

/-- `generated_prim`. -/
def generatedPrim (hwMask : U32) (mode : MesaPrim) : Bool :=
  (mode == .polygon || mode == .quads) && hwMask &&& mode.bit == 0

/-- `restart_prim`. -/
def restartPrim (hwMask : U32) (mode : MesaPrim) : Bool :=
  (mode == .triangleFan || mode == .triangleStrip || mode == .lineStrip) && hwMask &&& mode.bit != 0

/-- `size_start`. -/
def sizeStart (indexSize : Nat) : U32 := if indexSize = 4 then 0xffff else 0

/-- `agx_wgl_merge_bytes`. The sums and the product are of the type `size_t`. -/
def mergeBytes (w : Nat) (mesa : IndexGenerator) (hwMask : U32) (mode : MesaPrim) (draws : Memory) (stride numDraws : Nat) : Nat :=
  if generatedPrim hwMask mode = true then
    forRange (fun i indices =>
      match mesa.trimPipePrim mode (drawCount w draws stride i) with
      | some count => (indices + (mesa.countConvertedIndices hwMask true mode count).toNat) % 2 ^ w
      | none => indices) 0 numDraws 0 * generatedIndexSize w draws stride numDraws % 2 ^ w
  else if restartPrim hwMask mode = true then
    forRange (fun i indices =>
      if drawCount w draws stride i ≠ 0 then (indices + (drawCount w draws stride i + 1).toNat) % 2 ^ w else indices) 0 numDraws 0 *
        restartIndexSize w draws stride numDraws % 2 ^ w
  else 0

/-- The bytes that are stored for an index. -/
def indexBytes (size : Nat) (value : U32) : List Byte := if size = 2 then u16Bytes (value.setWidth 16) else u32Bytes value

/-- `put_index`. -/
def putIndex (size : Nat) (position value : U32) (out : Memory) : Memory :=
  if size = 2 then Write.apply out ⟨2 * position.toNat,indexBytes size value⟩
  else Write.apply out ⟨4 * position.toNat,indexBytes size value⟩

/-- The variables of the loop over the draws that are separated by a restart index. -/
structure Progress where
  position : U32
  out : Memory

/-- `put_index(out, size, at++, value)`. -/
def Progress.put (size : Nat) (value : U32) (progress : Progress) : Progress :=
  ⟨progress.position + 1,putIndex size progress.position value progress.out⟩

/-- One turn of the loop of `agx_wgl_merge_build` over the draws that are separated by a restart index. -/
def mergeDraw (w : Nat) (draws : Memory) (stride size : Nat) (restartIndex : U32) (i : Nat) (progress : Progress) : Progress :=
  if drawCount w draws stride i = 0 then progress
  else
    forRange (fun v progress => progress.put size (drawStart w draws stride i + BitVec.ofNat 32 v)) 0
      (drawCount w draws stride i).toNat
      (if progress.position ≠ 0 then progress.put size restartIndex else progress)

/-- The variables of the loop over the draws that are converted. -/
structure Conversion where
  merged : MergedDraw
  out : Memory
  dst : Nat

/-- One turn of the loop of `agx_wgl_merge_build` over the draws that are converted. -/
def convertDraw (w : Nat) (mesa : IndexGenerator) (hwMask : U32) (mode : MesaPrim) (flatshadeFirst : Bool) (draws : Memory)
    (stride size : Nat) (i : Nat) (conversion : Conversion) : Conversion :=
  match mesa.trimPipePrim mode (drawCount w draws stride i) with
  | none => conversion
  | some count =>
    let generated := mesa.indexGenerator hwMask mode (sizeStart size) count flatshadeFirst flatshadeFirst
    if generated.outSize.toNat ≠ size ∨ generated.outNr = 0 then conversion
    else
      { merged := { conversion.merged with prim := generated.prim, count := conversion.merged.count + generated.outNr }
        out := generated.generate (drawStart w draws stride i) generated.outNr conversion.out conversion.dst
        dst := conversion.dst + generated.outNr.toNat * size % 2 ^ w }

/-- What `agx_wgl_merge_build` returns, the merged draw, and what it leaves in the buffer. -/
structure Built where
  drawn : Bool
  merged : MergedDraw
  out : Memory

/-- `agx_wgl_merge_build`. -/
def mergeBuild (w : Nat) (mesa : IndexGenerator) (hwMask : U32) (mode : MesaPrim) (flatshadeFirst : Bool) (draws : Memory)
    (stride numDraws : Nat) (out : Memory) : Built :=
  if generatedPrim hwMask mode = true then
    let size := generatedIndexSize w draws stride numDraws
    let conversion := forRange (convertDraw w mesa hwMask mode flatshadeFirst draws stride size) 0 numDraws
      ⟨{ indexSize := size, prim := .triangles },out,0⟩
    ⟨conversion.merged.count != 0,conversion.merged,conversion.out⟩
  else if restartPrim hwMask mode = true then
    let size := restartIndexSize w draws stride numDraws
    let restartIndex := if size = 2 then 0xffff else 0xffffffff
    let progress := forRange (mergeDraw w draws stride size restartIndex) 0 numDraws ⟨0,out⟩
    ⟨progress.position != 0,
      { indexSize := size, prim := mode, restart := true, restartIndex := restartIndex, count := progress.position },
      progress.out⟩
  else ⟨false,{},out⟩

section
variable (w : Nat) (draws : Memory) (stride : Nat)

def drawVertices (i : Nat) : List Nat := List.range' (drawStart w draws stride i).toNat (drawCount w draws stride i).toNat

/-- The vertices of the draws that are not empty. -/
def sequences (numDraws : Nat) : List (List Nat) :=
  ((List.range numDraws).filter (fun i => drawCount w draws stride i ≠ 0)).map (drawVertices w draws stride)

/-- How many indices the merged draw has, with those that separate its parts. -/
def indexTotal (numDraws : Nat) : Nat :=
  ((sequences w draws stride numDraws).map List.length).sum + ((sequences w draws stride numDraws).length - 1)

/-- The indices that a buffer holds. -/
def readIndices (size : Nat) (out : Memory) (count : Nat) : List Nat :=
  (List.range count).map (fun k => if size = 2 then (u16At out (2 * k)).toNat else (u32At out (4 * k)).toNat)

/-- The draws that may be merged: no vertex and no index number is beyond 32 bits. -/
structure Admitted (hwMask : U32) (mode : MesaPrim) (numDraws : Nat) : Prop where
  native : restartPrim hwMask mode = true
  ends : ∀ i < numDraws, drawCount w draws stride i ≠ 0 →
    (drawStart w draws stride i).toNat + (drawCount w draws stride i).toNat < 2 ^ 32
  total : indexTotal w draws stride numDraws < 2 ^ 32

/-- A merged draw that draws what the draws name, in a buffer of some bytes. -/
structure Faithful (before : Memory) (parts : List (List Nat)) (bytes : Nat) (built : Built) : Prop where
  written : built.merged.count.toNat * built.merged.indexSize + (if parts = [] then 0 else built.merged.indexSize) = bytes
  width : built.merged.indexSize = 2 ∨ built.merged.indexSize = 4
  rest : ∀ i, built.merged.count.toNat * built.merged.indexSize ≤ i → built.out i = before i
  drawn : built.drawn = true ↔ parts ≠ []
  vertices : ∀ part ∈ parts, ∀ vertex ∈ part,
    vertex ≠ built.merged.restartIndex.toNat ∧ vertex < 256 ^ built.merged.indexSize
  split : parts ≠ [] →
    (readIndices built.merged.indexSize built.out built.merged.count.toNat).splitOn built.merged.restartIndex.toNat = parts
  nothing : parts = [] → built.merged.count = 0

variable {w draws stride}

private theorem sequences_succ (numDraws : Nat) : sequences w draws stride (numDraws + 1) = sequences w draws stride numDraws ++
      (if drawCount w draws stride numDraws ≠ 0 then [drawVertices w draws stride numDraws] else []) := by
  simp only [sequences,range_succ,filter_append,map_append]
  simp only [filter_cons,filter_nil,decide_eq_true_eq]
  split <;> rfl

variable {numDraws : Nat} {part : List Nat}

private theorem mem_sequences : part ∈ sequences w draws stride numDraws ↔
      ∃ i < numDraws, drawCount w draws stride i ≠ 0 ∧ drawVertices w draws stride i = part := by
  simp [sequences,and_assoc]
@[simp] theorem drawVertices_length (i : Nat) : (drawVertices w draws stride i).length = (drawCount w draws stride i).toNat := by
  simp [drawVertices]

private theorem maxEnd_spec (ends : ∀ i < numDraws, drawCount w draws stride i ≠ 0 →
      (drawStart w draws stride i).toNat + (drawCount w draws stride i).toNat < 2 ^ 32) :
    ∀ i < numDraws, drawCount w draws stride i ≠ 0 →
      (drawStart w draws stride i).toNat + (drawCount w draws stride i).toNat ≤ (maxEnd w draws stride numDraws).toNat := by
  refine forRange_counts (fun turn (ending : U32) => ∀ i < turn, drawCount w draws stride i ≠ 0 →
    (drawStart w draws stride i).toNat + (drawCount w draws stride i).toNat ≤ ending.toNat) (fun i below => by omega) ?_
  intro turn ending inside kept i below nonempty
  have sum : ∀ i < numDraws, drawCount w draws stride i ≠ 0 → (drawStart w draws stride i + drawCount w draws stride i).toNat =
      (drawStart w draws stride i).toNat + (drawCount w draws stride i).toNat := fun i below nonempty => by
    rw [toNat_add,Nat.mod_eq_of_lt (ends i below nonempty)]
  rcases Nat.lt_succ_iff_lt_or_eq.mp below with earlier | rfl
  · have old := kept i earlier nonempty
    split
    · next both =>
      have above := lt_def.mp both.2
      omega
    exact old
  have here := sum i (by omega) nonempty
  split
  · exact here.ge
  next none =>
  have above := BitVec.not_lt.mp (fun lt => none ⟨nonempty,lt⟩)
  rw [le_def,here] at above
  exact above

private theorem restartIndexSize_cases (numDraws : Nat) :
    restartIndexSize w draws stride numDraws = 2 ∨ restartIndexSize w draws stride numDraws = 4 := by
  simp only [restartIndexSize]
  split
  · exact .inr rfl
  exact .inl rfl

/-- The restart index of an index size. -/
def restartOf (size : Nat) : U32 := if size = 2 then 0xffff else 0xffffffff

variable {hwMask : U32} {mode : MesaPrim}

private theorem vertex_fits (admitted : Admitted w draws stride hwMask mode numDraws) :
    ∀ part ∈ sequences w draws stride numDraws, ∀ vertex ∈ part,
      vertex < (restartOf (restartIndexSize w draws stride numDraws)).toNat ∧
        (restartOf (restartIndexSize w draws stride numDraws)).toNat < 256 ^ restartIndexSize w draws stride numDraws := by
  intro part mem vertex named
  obtain ⟨i,below,nonempty,rfl⟩ := mem_sequences.mp mem
  have last : vertex < (drawStart w draws stride i).toNat + (drawCount w draws stride i).toNat := by
    simpa [drawVertices] using (mem_range'_1.mp named).2
  have le := maxEnd_spec admitted.ends i below nonempty
  simp only [restartIndexSize]
  split
  · exact ⟨by show vertex < 4294967295; omega,by decide⟩
  next within =>
  have short : (maxEnd w draws stride numDraws).toNat ≤ 0xffff := le_def.mp (BitVec.not_lt.mp within)
  exact ⟨by show vertex < 65535; omega,by decide⟩

/-- The indices of parts that are separated by a restart index. -/
def joined (restart : Nat) (parts : List (List Nat)) : List Nat := [restart].intercalate parts

private theorem joined_snoc (restart : Nat) (parts : List (List Nat)) (part : List Nat) : joined restart (parts ++ [part]) =
      (if parts = [] then [] else joined restart parts ++ [restart]) ++ part := by
  simp only [joined]
  induction parts with
  | nil => simp
  | cons first rest ih =>
  have next : [restart].intercalate (first :: rest ++ [part]) = first ++ [restart] ++ [restart].intercalate (rest ++ [part]) :=
    intercalate_cons_of_ne_nil (by simp)
  rw [next,ih]
  cases rest with
  | nil => simp
  | cons second rest => simp [intercalate_cons_cons]

private theorem joined_length (restart : Nat) (parts : List (List Nat)) :
    (joined restart parts).length = (parts.map List.length).sum + (parts.length - 1) := by
  induction parts using reverseRecOn with
  | nil => rfl
  | append_singleton parts part ih =>
  rw [joined_snoc]
  by_cases none : parts = []
  · simp [none]
  have positive := length_pos_iff.mpr none
  simp only [if_neg none,length_append,ih,map_append,sum_append,length_cons,length_nil,map_cons,map_nil,sum_cons,sum_nil]
  omega

variable {parts : List (List Nat)}

private theorem mem_joined {restart index : Nat} (mem : index ∈ joined restart parts) :
    index = restart ∨ ∃ part ∈ parts, index ∈ part := by
  induction parts using reverseRecOn with
  | nil => simp [joined] at mem
  | append_singleton parts part ih =>
  rw [joined_snoc] at mem
  rcases mem_append.mp mem with before | here
  · split at before
    · simp at before
    rcases mem_append.mp before with earlier | separator
    · rcases ih earlier with same | ⟨other,mem,named⟩
      · exact .inl same
      exact .inr ⟨other,mem_append_left _ mem,named⟩
    exact .inl (mem_singleton.mp separator)
  exact .inr ⟨part,mem_append_right _ (mem_singleton_self part),here⟩

/-- The loop has written a list of indices into a buffer. -/
structure Holds (size : Nat) (before : Memory) (list : List U32) (progress : Progress) : Prop where
  position : progress.position = BitVec.ofNat 32 list.length
  out : progress.out = Write.apply before ⟨0,list.flatMap (indexBytes size)⟩

variable {size : Nat}

private theorem indexBytes_length (width : size = 2 ∨ size = 4) (value : U32) : (indexBytes size value).length = size := by
  rcases width with rfl | rfl <;> rfl

variable {before : Memory} {list : List U32} {progress : Progress}

section
variable (width : size = 2 ∨ size = 4) (holds : Holds size before list progress)
include width holds

theorem Holds.put (small : list.length < 2 ^ 32) (value : U32) :
    Holds size before (list ++ [value]) (progress.put size value) := by
  obtain ⟨position,out⟩ := holds
  have number : progress.position.toNat = list.length := by rw [position,toNat_ofNat,Nat.mod_eq_of_lt small]
  have length := flatMap_length (indexBytes_length width) list
  constructor
  · simp only [Progress.put,position,length_append,length_cons,length_nil]
    exact (ofNat_add _ _).symm
  have place : putIndex size progress.position value progress.out =
      Write.apply progress.out ⟨size * list.length,indexBytes size value⟩ := by
    rcases width with rfl | rfl <;> simp only [putIndex,number] <;> rfl
  have behind := Write.apply_append before 0 (list.flatMap (indexBytes size)) (indexBytes size value)
  rw [Nat.zero_add,length] at behind
  show putIndex size progress.position value progress.out = _
  rw [place,out,behind,flatMap_append,flatMap_singleton]

theorem Holds.putAll (value : Nat → U32) {count : Nat} (small : list.length + count < 2 ^ 32) :
    Holds size before (list ++ (List.range count).map value) (forRange (fun v progress => progress.put size (value v)) 0 count progress) := by
  refine forRange_counts (fun turn progress => turn ≤ count → Holds size before (list ++ (range turn).map value) progress)
    (fun _ => by simpa using holds) (fun turn progress below kept _ => ?_) (Nat.le_refl count)
  have next := (kept (by omega)).put width (by simp; omega) (value turn)
  rw [range_succ,map_append,← append_assoc]
  exact next

end

private theorem indexTotal_succ (numDraws : Nat) : indexTotal w draws stride (numDraws + 1) = indexTotal w draws stride numDraws +
      (if drawCount w draws stride numDraws ≠ 0 then
        (drawCount w draws stride numDraws).toNat + (if sequences w draws stride numDraws = [] then 0 else 1) else 0) := by
  simp only [indexTotal,sequences_succ]
  by_cases empty : drawCount w draws stride numDraws = 0
  · simp [empty]
  rw [if_pos empty,if_pos empty]
  by_cases none : sequences w draws stride numDraws = []
  · simp [none]
  have positive := length_pos_iff.mpr none
  simp only [if_neg none,map_append,sum_append,length_append,
    map_cons,map_nil,sum_cons,sum_nil,length_cons,length_nil,drawVertices_length]
  omega

private theorem indexTotal_mono {turn : Nat} (le : turn ≤ numDraws) :
    indexTotal w draws stride turn ≤ indexTotal w draws stride numDraws :=
  monotone_nat_of_le_succ (fun i => by rw [indexTotal_succ]; exact Nat.le_add_right _ _) le
private theorem length_le_sum (mem : part ∈ parts) : part.length ≤ (parts.map List.length).sum := by
  rw [← length_flatten]
  exact (sublist_flatten_of_mem mem).length_le

private theorem indexTotal_pos (some : sequences w draws stride numDraws ≠ []) : 0 < indexTotal w draws stride numDraws := by
  obtain ⟨part,mem⟩ := exists_mem_of_ne_nil _ some
  obtain ⟨i,_,nonempty,rfl⟩ := mem_sequences.mp mem
  have le := length_le_sum mem
  have positive : 0 < (drawCount w draws stride i).toNat := Nat.pos_of_ne_zero (fun zero => nonempty (eq_of_toNat_eq zero))
  rw [drawVertices_length] at le
  simp only [indexTotal]
  omega

private theorem mergeDraws_holds (admitted : Admitted w draws stride hwMask mode numDraws)
    (width : size = 2 ∨ size = 4) (out : Memory) :
    ∃ list : List U32, Holds size out list (forRange (mergeDraw w draws stride size (restartOf size)) 0 numDraws ⟨0,out⟩) ∧
      list.map BitVec.toNat = joined (restartOf size).toNat (sequences w draws stride numDraws) := by
  refine forRange_counts (fun turn progress => turn ≤ numDraws → ∃ list : List U32, Holds size out list progress ∧
    list.map BitVec.toNat = joined (restartOf size).toNat (sequences w draws stride turn)) (fun _ => ⟨[],⟨rfl,?_⟩,rfl⟩)
    (fun turn progress below kept _ => ?_) (Nat.le_refl numDraws)
  · funext i
    exact (Write.apply_outside (by simp)).symm
  obtain ⟨list,holds,is⟩ := kept (by omega)
  have length : list.length = indexTotal w draws stride turn := by
    rw [← length_map BitVec.toNat,is,joined_length]
    rfl
  have next : indexTotal w draws stride (turn + 1) = _ := indexTotal_succ turn
  have bound : indexTotal w draws stride (turn + 1) ≤ indexTotal w draws stride numDraws := indexTotal_mono below
  have total := admitted.total
  rw [sequences_succ]
  by_cases empty : drawCount w draws stride turn = 0
  · simp only [mergeDraw,empty,ne_eq,not_true_eq_false,if_true,if_false,append_nil]
    exact ⟨list,holds,is⟩
  have ends := admitted.ends turn below empty
  have values : ((range (drawCount w draws stride turn).toNat).map
      (fun v => drawStart w draws stride turn + BitVec.ofNat 32 v)).map BitVec.toNat = drawVertices w draws stride turn := by
    rw [drawVertices,range'_eq_map_range,map_map]
    refine map_congr_left (fun v mem => ?_)
    have inside := mem_range.mp mem
    simp only [Function.comp_apply,toNat_add,toNat_ofNat]
    omega
  rw [if_pos empty,joined_snoc]
  rw [if_pos empty] at next
  simp only [mergeDraw,if_neg empty]
  by_cases none : sequences w draws stride turn = []
  · have nothing : list = [] := by
      rw [none] at is
      exact map_eq_nil_iff.mp is
    subst nothing
    have start : progress.position = 0 := holds.position
    rw [if_pos none] at next ⊢
    rw [if_neg (not_not.mpr start)]
    refine ⟨_,holds.putAll width _ (by simp only [length_nil]; omega),?_⟩
    rw [nil_append,values,nil_append]
  have positive := indexTotal_pos none
  have started : progress.position ≠ 0 := by
    rw [holds.position,length]
    intro zero
    have := congrArg BitVec.toNat zero
    rw [toNat_ofNat,Nat.mod_eq_of_lt (by omega)] at this
    exact Nat.ne_of_gt positive this
  rw [if_neg none] at next ⊢
  rw [if_pos started]
  refine ⟨_,(holds.put width (by omega) (restartOf size)).putAll width _
    (by simp only [length_append,length_cons,length_nil]; omega),?_⟩
  rw [map_append,values,map_append,is]
  rfl

theorem Holds.read (width : size = 2 ∨ size = 4)
    (holds : Holds size before list progress) (small : ∀ value ∈ list, value.toNat < 256 ^ size) :
    readIndices size progress.out list.length = list.map BitVec.toNat := by
  have bytes : ∀ k (inside : k < list.length), ∀ j < size, progress.out (size * k + j) = contents (indexBytes size list[k]) j := by
    intro k inside j within
    have length := flatMap_length (indexBytes_length width) list
    have room : size * k + j < size * list.length := by
      have := Nat.mul_le_mul_left size (Nat.succ_le_of_lt inside)
      rw [Nat.mul_succ] at this
      omega
    rw [holds.out,Write.apply_covered (by simp only [Write.covers_mk,length]; omega),Nat.sub_zero]
    exact contents_flatMap (indexBytes_length width) list inside within
  refine ext_getElem (by simp [readIndices]) (fun k inside inside' => ?_)
  have here : k < list.length := by simpa using inside'
  have fits := small list[k] (getElem_mem here)
  simp only [readIndices,getElem_map,getElem_range]
  rcases width with rfl | rfl
  · rw [if_pos rfl,u16At_of_bytes (bytes k here),toNat_setWidth]
    exact Nat.mod_eq_of_lt fits
  rw [if_neg (by decide),u32At_of_bytes (bytes k here)]

/-- The number of indices that `agx_wgl_merge_bytes` counts: each part has one more than it has vertices, in 32 bits. -/
private theorem countedIndices (numDraws : Nat) : forRange (fun i indices =>
      if drawCount w draws stride i ≠ 0 then (indices + (drawCount w draws stride i + 1).toNat) % 2 ^ w else indices) 0 numDraws 0 =
      ((sequences w draws stride numDraws).map (fun part => (part.length + 1) % 2 ^ 32)).sum % 2 ^ w := by
  refine forRange_counts (fun turn (indices : Nat) =>
    indices = ((sequences w draws stride turn).map (fun part => (part.length + 1) % 2 ^ 32)).sum % 2 ^ w) rfl
    (fun turn indices _ kept => ?_)
  rw [sequences_succ,kept]
  by_cases empty : drawCount w draws stride turn = 0
  · simp [empty]
  rw [if_pos empty,if_pos empty,map_append,sum_append,Nat.mod_add_mod]
  simp [toNat_add]

private theorem sum_succ_length (parts : List (List Nat)) :
    (parts.map (fun part => part.length + 1)).sum = (parts.map List.length).sum + parts.length := by
  induction parts with
  | nil => rfl
  | cons part parts ih =>
  simp only [map_cons,sum_cons,ih,length_cons]
  omega

private theorem maxEnd_attained (wide : 0xffff < maxEnd w draws stride numDraws) :
    ∃ i < numDraws, drawCount w draws stride i ≠ 0 ∧
      0xffff < (drawStart w draws stride i).toNat + (drawCount w draws stride i).toNat := by
  refine forRange_counts (fun turn (ending : U32) => 0xffff < ending → ∃ i < turn, drawCount w draws stride i ≠ 0 ∧
    0xffff < (drawStart w draws stride i).toNat + (drawCount w draws stride i).toNat) (fun above => absurd above (by decide)) ?_ wide
  intro turn ending _ kept above
  split at above
  · next both =>
    have le := Nat.mod_le ((drawStart w draws stride turn).toNat + (drawCount w draws stride turn).toNat) (2 ^ 32)
    rw [← toNat_add] at le
    exact ⟨turn,Nat.lt_succ_self turn,both.1,(lt_def.mp above).trans_le le⟩
  obtain ⟨i,below,named⟩ := kept above
  exact ⟨i,Nat.lt_succ_of_lt below,named⟩

variable (w draws stride) in
/-- No draw has so many vertices that one more is none, and `size_t` counts the bytes of the indices and of one
    more: of two bytes each, of four where a vertex does not fit in two. -/
structure Countable (numDraws : Nat) : Prop where
  counts : ∀ i < numDraws, drawCount w draws stride i ≠ 0xffffffff
  narrow : ∀ i < numDraws, drawCount w draws stride i ≠ 0 → (indexTotal w draws stride numDraws + 1) * 2 < 2 ^ w
  wide : ∀ i < numDraws, drawCount w draws stride i ≠ 0 →
    0xffff < (drawStart w draws stride i).toNat + (drawCount w draws stride i).toNat →
    (indexTotal w draws stride numDraws + 1) * 4 < 2 ^ w

/-- The two bounds on the bytes are one on the size of an index. -/
private theorem bytes_fit (admitted : Admitted w draws stride hwMask mode numDraws) (some : sequences w draws stride numDraws ≠ []) :
    (indexTotal w draws stride numDraws + 1) * restartIndexSize w draws stride numDraws < 2 ^ w ↔
      (∀ i < numDraws, drawCount w draws stride i ≠ 0 → (indexTotal w draws stride numDraws + 1) * 2 < 2 ^ w) ∧
      (∀ i < numDraws, drawCount w draws stride i ≠ 0 →
        0xffff < (drawStart w draws stride i).toNat + (drawCount w draws stride i).toNat →
        (indexTotal w draws stride numDraws + 1) * 4 < 2 ^ w) := by
  obtain ⟨part,mem⟩ := exists_mem_of_ne_nil _ some
  obtain ⟨first,inside,nonempty,_⟩ := mem_sequences.mp mem
  simp only [restartIndexSize]
  split
  · next above =>
    constructor
    · intro fit
      exact ⟨fun _ _ _ => by omega,fun _ _ _ _ => fit⟩
    rintro ⟨_,wide⟩
    obtain ⟨i,below,some,named⟩ := maxEnd_attained above
    exact wide i below some named
  next within =>
  have short : (maxEnd w draws stride numDraws).toNat ≤ 0xffff := le_def.mp (BitVec.not_lt.mp within)
  constructor
  · intro fit
    refine ⟨fun _ _ _ => fit,fun i below some above => ?_⟩
    have le := maxEnd_spec admitted.ends i below some
    omega
  exact fun both => both.1 first inside nonempty

private theorem countedIndices_countable (counts : ∀ i < numDraws, drawCount w draws stride i ≠ 0xffffffff) :
    ((sequences w draws stride numDraws).map (fun part => (part.length + 1) % 2 ^ 32)).sum =
      indexTotal w draws stride numDraws + (if sequences w draws stride numDraws = [] then 0 else 1) := by
  have plain : (sequences w draws stride numDraws).map (fun part => (part.length + 1) % 2 ^ 32) =
      (sequences w draws stride numDraws).map (fun part => part.length + 1) := by
    refine map_congr_left (fun part mem => ?_)
    obtain ⟨i,below,_,rfl⟩ := mem_sequences.mp mem
    have ne : (drawCount w draws stride i).toNat ≠ 4294967295 := fun same => counts i below (eq_of_toNat_eq same)
    rw [drawVertices_length,Nat.mod_eq_of_lt (by omega)]
  rw [plain,sum_succ_length]
  simp only [indexTotal]
  by_cases none : sequences w draws stride numDraws = []
  · simp [none]
  have positive := length_pos_iff.mpr none
  rw [if_neg none]
  omega

private theorem countedIndices_uncountable
    (admitted : Admitted w draws stride hwMask mode numDraws) {i : Nat} (below : i < numDraws)
    (full : drawCount w draws stride i = 0xffffffff) : sequences w draws stride numDraws ≠ [] ∧
      ((sequences w draws stride numDraws).map (fun part => (part.length + 1) % 2 ^ 32)).sum = 0 := by
  have nonempty : drawCount w draws stride i ≠ 0 := by rw [full]; decide
  have mem := mem_sequences.mpr ⟨i,below,nonempty,rfl⟩
  have length : (drawVertices w draws stride i).length = 4294967295 := by rw [drawVertices_length,full]; rfl
  have total := admitted.total
  have le := length_le_sum mem
  simp only [indexTotal] at total
  have one : (sequences w draws stride numDraws).length = 1 := by
    have positive := length_pos_of_mem mem
    omega
  obtain ⟨part,is⟩ := length_eq_one_iff.mp one
  rw [is] at mem ⊢
  obtain rfl := mem_singleton.mp mem
  simp [length]

/-- What is returned behind the loop. -/
def ofProgress (mode : MesaPrim) (size : Nat) (progress : Progress) : Built :=
  ⟨progress.position != 0,
    { indexSize := size, prim := mode, restart := true, restartIndex := restartOf size, count := progress.position },
    progress.out⟩

private theorem mergeBuild_restart (w : Nat) (draws : Memory) (stride : Nat) (native : restartPrim hwMask mode = true) (mesa : IndexGenerator)
    (flatshadeFirst : Bool) (numDraws : Nat) (out : Memory) : generatedPrim hwMask mode = false ∧
      mergeBuild w mesa hwMask mode flatshadeFirst draws stride numDraws out =
        ofProgress mode (restartIndexSize w draws stride numDraws)
          (forRange (mergeDraw w draws stride (restartIndexSize w draws stride numDraws)
            (restartOf (restartIndexSize w draws stride numDraws))) 0 numDraws ⟨0,out⟩) := by
  have other : generatedPrim hwMask mode = false := by
    cases mode <;> first | rfl | (simp [restartPrim] at native)
  refine ⟨other,?_⟩
  simp only [mergeBuild,other,native,Bool.false_eq_true,if_false,if_true]
  rfl

end

/-- Merged draws draw the same vertices, exactly where the bytes of their indices are countable: elsewhere the
    size of the buffer wraps, of one draw in 32 bits or of all the indices in `size_t`. -/
theorem merged_draws_faithful (w : Nat) (mesa : IndexGenerator) (hwMask : U32) (mode : MesaPrim) (flatshadeFirst : Bool)
    (draws : Memory) (stride numDraws : Nat) (out : Memory) (admitted : Admitted w draws stride hwMask mode numDraws) :
    Faithful out (sequences w draws stride numDraws) (mergeBytes w mesa hwMask mode draws stride numDraws)
      (mergeBuild w mesa hwMask mode flatshadeFirst draws stride numDraws out) ↔ Countable w draws stride numDraws := by
  have width : restartIndexSize w draws stride numDraws = 2 ∨ restartIndexSize w draws stride numDraws = 4 := restartIndexSize_cases numDraws
  obtain ⟨other,built⟩ := mergeBuild_restart w draws stride admitted.native mesa flatshadeFirst numDraws out
  obtain ⟨list,holds,is⟩ := mergeDraws_holds admitted width out
  have length : list.length = indexTotal w draws stride numDraws := by
    rw [← length_map BitVec.toNat,is,joined_length]
    rfl
  have bytes : mergeBytes w mesa hwMask mode draws stride numDraws =
      ((sequences w draws stride numDraws).map (fun part => (part.length + 1) % 2 ^ 32)).sum % 2 ^ w *
        restartIndexSize w draws stride numDraws % 2 ^ w := by
    simp only [mergeBytes,other,admitted.native,Bool.false_eq_true,if_false,if_true,countedIndices]
  rw [built,bytes]
  have fits := vertex_fits admitted
  have fit := bytes_fit admitted
  generalize restartIndexSize w draws stride numDraws = size at *
  generalize forRange (mergeDraw w draws stride size (restartOf size)) 0 numDraws ⟨0,out⟩ = progress at *
  have total := admitted.total
  have count : progress.position.toNat = indexTotal w draws stride numDraws := by
    rw [holds.position,toNat_ofNat,Nat.mod_eq_of_lt (by omega),length]
  have started : progress.position ≠ 0 ↔ sequences w draws stride numDraws ≠ [] := by
    constructor
    · rintro started none
      refine started (eq_of_toNat_eq ?_)
      simp [count,indexTotal,none]
    intro some zero
    have positive := indexTotal_pos some
    rw [← count,zero] at positive
    exact Nat.lt_irrefl 0 positive
  constructor
  · intro faithful
    have written := faithful.written
    simp only [ofProgress,count] at written
    have counts : ∀ i < numDraws, drawCount w draws stride i ≠ 0xffffffff := by
      intro i below full
      obtain ⟨some,zero⟩ := countedIndices_uncountable admitted below full
      rw [zero,if_neg some,Nat.zero_mod,Nat.zero_mul,Nat.zero_mod] at written
      omega
    have bounds : ∀ i < numDraws, drawCount w draws stride i ≠ 0 → _ := fun i below nonempty => by
      have some := ne_nil_of_mem (mem_sequences.mpr ⟨i,below,nonempty,rfl⟩)
      rw [if_neg some] at written
      refine (fit some).mp ?_
      rw [Nat.succ_mul,written]
      exact Nat.mod_lt _ (Nat.two_pow_pos w)
    exact ⟨counts,fun i below nonempty => (bounds i below nonempty).1 i below nonempty,
      fun i below nonempty => (bounds i below nonempty).2 i below nonempty⟩
  rintro ⟨counts,narrow,wide⟩
  constructor
  · rw [countedIndices_countable counts,Nat.mod_mul_mod]
    simp only [ofProgress,count]
    by_cases none : sequences w draws stride numDraws = []
    · simp [none,indexTotal]
    rw [if_neg none,if_neg none,Nat.mod_eq_of_lt ((fit none).mpr ⟨narrow,wide⟩),Nat.succ_mul]
  · exact width
  · intro i behind
    have reach := flatMap_length (indexBytes_length width) list
    simp only [ofProgress,count,← length] at behind ⊢
    rw [holds.out]
    exact Write.apply_outside (by rw [Write.covers_mk,reach,Nat.mul_comm]; omega)
  · simpa [ofProgress] using started
  · intro part mem vertex named
    obtain ⟨below,room⟩ := fits part mem vertex named
    exact ⟨Nat.ne_of_lt below,below.trans room⟩
  · intro some
    have small : ∀ value ∈ list, value.toNat < 256 ^ size := by
      intro value mem
      have named := mem_map_of_mem (f := BitVec.toNat) mem
      rw [is] at named
      rcases mem_joined named with restart | ⟨part,mem,named⟩
      · rw [restart]
        rcases width with rfl | rfl <;> decide
      · exact (fits part mem _ named).1.trans (fits part mem _ named).2
    have read := holds.read width small
    simp only [ofProgress,count,← length,read,is]
    refine splitOn_intercalate _ (fun part mem named => ?_) some
    exact Nat.lt_irrefl _ (fits part mem _ named).1
  intro none
  by_contra some
  exact started.mp some none

/-- An index generator that converts nothing. -/
def noConversion : IndexGenerator :=
  ⟨fun _ _ => none,fun _ _ _ _ => 0,fun _ mode _ _ _ _ => ⟨mode,0,0,fun _ _ out _ => out⟩⟩

/-- The draws of a list, eight bytes each. -/
def drawTable (draws : List (U32 × U32)) : Memory := contents (draws.flatMap (fun draw => u32Bytes draw.1 ++ u32Bytes draw.2))

/-- Two strips of three and two vertices, with an empty one between them. -/
theorem merged_draws_faithful_strips : Faithful (fun _ => 0) [[5,6,7],[9,10]] 14
      (mergeBuild 32 noConversion (1 <<< 5) .triangleStrip false (drawTable [(5,3),(0,0),(9,2)]) 8 3 (fun _ => 0)) := by
  have admitted : Admitted 32 (drawTable [(5,3),(0,0),(9,2)]) 8 (1 <<< 5) .triangleStrip 3 :=
    ⟨by decide,by decide,by decide⟩
  exact (merged_draws_faithful 32 noConversion (1 <<< 5) .triangleStrip false (drawTable [(5,3),(0,0),(9,2)]) 8 3 (fun _ => 0)
    admitted).mpr ⟨by decide,by decide,by decide⟩

/-- One strip of 2^30 - 1 vertices in the x86 driver: the buffer has no byte, and all the indices are written. -/
theorem long_draw_not_counted : Admitted 32 (drawTable [(0,0x3fffffff)]) 8 (1 <<< 5) .triangleStrip 1 ∧
      mergeBytes 32 noConversion (1 <<< 5) .triangleStrip (drawTable [(0,0x3fffffff)]) 8 1 = 0 ∧
      ¬ Faithful (fun _ => 0) (sequences 32 (drawTable [(0,0x3fffffff)]) 8 1)
        (mergeBytes 32 noConversion (1 <<< 5) .triangleStrip (drawTable [(0,0x3fffffff)]) 8 1)
        (mergeBuild 32 noConversion (1 <<< 5) .triangleStrip false (drawTable [(0,0x3fffffff)]) 8 1 (fun _ => 0)) := by
  have long : drawCount 32 (drawTable [(0,0x3fffffff)]) 8 0 = 0x3fffffff := by decide
  have start : drawStart 32 (drawTable [(0,0x3fffffff)]) 8 0 = 0 := by decide
  have one : sequences 32 (drawTable [(0,0x3fffffff)]) 8 1 = [drawVertices 32 (drawTable [(0,0x3fffffff)]) 8 0] := by
    rw [sequences_succ,if_pos (by rw [long]; decide)]
    rfl
  have admitted : Admitted 32 (drawTable [(0,0x3fffffff)]) 8 (1 <<< 5) .triangleStrip 1 := by
    refine ⟨by decide,fun i below _ => ?_,?_⟩
    · obtain rfl : i = 0 := by omega
      rw [long,start]
      decide
    · rw [indexTotal,one,map_singleton,drawVertices_length,long]
      decide
  have none : mergeBytes 32 noConversion (1 <<< 5) .triangleStrip (drawTable [(0,0x3fffffff)]) 8 1 = 0 := by decide
  refine ⟨admitted,none,fun faithful => ?_⟩
  have written := faithful.written
  rw [none,if_neg (by rw [one]; exact cons_ne_nil _ _)] at written
  rcases faithful.width with width | width <;> omega

end WindowsOnM1.DrawMerge
