import WindowsOnM1.UatMap

/-!
Removing tables that hold only zeros. The entry that points to such a table is found
and cleared, and a table of zeros translates nothing, so that pruning changes no
translation and removes no root.
-/
namespace WindowsOnM1.UatPrune
open UatModel UatEncoding UatTree UatMap

/-- A page of level 0 has the address. -/
def IsRoot (pages : List UatPage) (address : U64) : Prop :=
  ∃ page ∈ pages, page.physicalAddress = address ∧ page.level = 0

variable {pages : List UatPage} {address : U64}

theorem IsRoot.findPage (root : IsRoot pages address) :
    ∃ j page, UatModel.findPage pages address 0 = some j ∧ pages[j]? = some page ∧ page.physicalAddress = address ∧
      page.level = 0 := by
  obtain ⟨page,mem,isAddress,isRoot⟩ := root
  cases found : UatModel.findPage pages address 0 with
  | none => exact absurd ⟨isAddress,isRoot⟩ (findPage_none found page mem)
  | some j =>
  obtain ⟨other,here,there⟩ := findPage_some found
  exact ⟨j,other,rfl,here,there⟩

variable {j : Nat}

theorem isRoot_of_findPage (found : UatModel.findPage pages address 0 = some j) : IsRoot pages address := by
  obtain ⟨page,here,there⟩ := findPage_some found
  exact ⟨page,List.mem_of_getElem? here,there⟩

/-- The pages changed, but no translation and no root did. -/
structure SameTranslation (pages pages' : List UatPage) : Prop where
  tree : Tree pages'
  leaf : ∀ root va, leafValue pages' root va = leafValue pages root va
  roots : ∀ address, IsRoot pages' address ↔ IsRoot pages address

theorem SameTranslation.refl (tree : Tree pages) : SameTranslation pages pages :=
  ⟨tree,fun _ _ => rfl,fun _ => Iff.rfl⟩
theorem SameTranslation.trans {a b c : List UatPage} (first : SameTranslation a b) (second : SameTranslation b c) :
    SameTranslation a c :=
  ⟨second.tree,fun root va => (second.leaf root va).trans (first.leaf root va),
    fun address => (second.roots address).trans (first.roots address)⟩

/-- The entry that is cleared points to the child; if none is, then none does. -/
theorem clearParentReference_spec (childLevel : Nat) (child : U64) (pages : List UatPage) :
    (clearParentReference childLevel child pages = pages ∧ ∀ page ∈ pages, page.level + 1 = childLevel →
      ∀ index < entryCount page.level, page.entries index &&& addressMask ≠ child) ∨
    ∃ j parent index, pages[j]? = some parent ∧ parent.level + 1 = childLevel ∧ index < entryCount parent.level ∧
      parent.entries index &&& addressMask = child ∧
      clearParentReference childLevel child pages = writeEntry pages j index 0 := by
  induction pages with
  | nil => exact .inl ⟨rfl,fun _ bad => absurd bad List.not_mem_nil⟩
  | cons page rest ih =>
  -- the rest is searched when the first page has no such entry
  have skip : (page.level + 1 = childLevel → ∀ index < entryCount page.level, page.entries index &&& addressMask ≠ child) →
      clearParentReference childLevel child (page :: rest) = page :: clearParentReference childLevel child rest →
      (clearParentReference childLevel child (page :: rest) = page :: rest ∧ ∀ p ∈ page :: rest,
        p.level + 1 = childLevel → ∀ index < entryCount p.level, p.entries index &&& addressMask ≠ child) ∨
      ∃ j parent index, (page :: rest)[j]? = some parent ∧ parent.level + 1 = childLevel ∧
        index < entryCount parent.level ∧ parent.entries index &&& addressMask = child ∧
        clearParentReference childLevel child (page :: rest) = writeEntry (page :: rest) j index 0 := by
    intro none next
    rw [next]
    rcases ih with ⟨same,absent⟩ | ⟨j,parent,index,here,level,inside,points,written⟩
    · refine .inl ⟨by rw [same],fun p mem => ?_⟩
      rcases List.mem_cons.mp mem with rfl | later
      · exact none
      exact absent p later
    exact .inr ⟨j + 1,parent,index,here,level,inside,points,by rw [written]; rfl⟩
  by_cases level : page.level + 1 = childLevel
  · cases found : (List.range (entryCount page.level)).find?
        (fun index => page.entries index &&& addressMask == child) with
    | none =>
      refine skip (fun _ index inside same => ?_) ?_
      · have absent := List.find?_eq_none.mp found index (List.mem_range.mpr inside)
        simp only [beq_iff_eq] at absent
        exact absent same
      simp only [clearParentReference,found,level]
      simp
    | some index =>
      have points := List.find?_some found
      have inside := List.mem_range.mp (List.mem_of_find?_eq_some found)
      refine .inr ⟨0,page,index,rfl,level,inside,by simpa using points,?_⟩
      simp only [clearParentReference,found,level]
      simp [writeEntry]
  refine skip (fun bad => absurd bad level) ?_
  simp only [clearParentReference]
  rw [if_pos level]

theorem releaseInventoryPage_perm (inside : j < pages.length) : (pages[j] :: releaseInventoryPage j pages).Perm pages := by
  refine List.Perm.trans ?_ (List.getElem_cons_eraseIdx_perm inside)
  refine List.Perm.cons _ ?_
  obtain ⟨init,last,rfl⟩ := List.eq_nil_or_concat pages |>.resolve_left (by rintro rfl; simp at inside)
  simp only [List.concat_eq_append] at inside ⊢
  simp only [releaseInventoryPage,List.getLast?_concat]
  by_cases final : j = init.length
  · subst final
    rw [List.eraseIdx_append_of_length_le (Nat.le_refl _)]
    simp
  have early : j < init.length := by simp at inside; omega
  rw [List.set_append_left _ _ early,List.dropLast_concat,List.eraseIdx_append_of_lt_length early]
  exact (List.set_perm_cons_eraseIdx early last).trans (List.perm_append_singleton last _).symm

/-- A table to which no entry points any more; nothing else changed. -/
structure Unlinked (pages cleared : List UatPage) (j : Nat) (child : UatPage) : Prop where
  shape : SameShape pages cleared
  there : cleared[j]? = some child
  entry : ∀ address level index, entryAt cleared address level index = entryAt pages address level index ∨
    (entryAt cleared address level index = 0 ∧ level + 1 = child.level ∧
      entryAt pages address level index &&& addressMask = child.physicalAddress)
  free : ∀ address level index, level < 2 → index < entryCount level →
    entryAt cleared address level index &&& addressMask ≠ child.physicalAddress

theorem clearParentReference_unlinked (tree : Tree pages) {child : UatPage} (here : pages[j]? = some child) :
    Unlinked pages (clearParentReference child.level child.physicalAddress pages) j child := by
  have real := tree.real child (List.mem_of_getElem? here)
  -- only entries of the level above can point to the child
  have above : ∀ address level index, level < 2 → index < entryCount level →
      entryAt pages address level index &&& addressMask = child.physicalAddress → level + 1 = child.level := by
    intro address level index below inside points
    have nonzero : entryAt pages address level index ≠ 0 := by
      intro zero
      rw [zero,masked_zero] at points
      exact real.1 points.symm
    obtain ⟨page,mem,isLevel,entry⟩ := tree.child address level index below inside nonzero
    rw [entry,table_masked (tree.real page mem).2] at points
    rw [← isLevel,tree.distinct.eq_of_address mem (List.mem_of_getElem? here) points]
  rcases clearParentReference_spec child.level child.physicalAddress pages with
    ⟨same,absent⟩ | ⟨k,parent,slot,there,level,inside,points,written⟩
  · rw [same]
    refine ⟨rfl,here,fun _ _ _ => .inl rfl,fun address level index below inside points => ?_⟩
    have nonzero : entryAt pages address level index ≠ 0 := by
      intro zero
      rw [zero,masked_zero] at points
      exact real.1 points.symm
    obtain ⟨page,mem,isAddress,isLevel⟩ := exists_of_entryAt nonzero
    have isAbove := above address level index below inside points
    subst isAddress isLevel
    rw [entryAt_mem tree.distinct mem] at points
    exact absent page mem isAbove index inside points
  rw [written]
  have read : entryAt pages parent.physicalAddress parent.level slot &&& addressMask = child.physicalAddress := by
    rw [entryAt_mem tree.distinct (List.mem_of_getElem? there)]
    exact points
  refine ⟨writeEntry_shape pages k slot 0,?_,fun address level' index => ?_,fun address level' index below walk => ?_⟩
  · rw [writeEntry,List.getElem?_modify,here]
    have apart : k ≠ j := by
      rintro rfl
      rw [here] at there
      cases there
      omega
    simp [apart]
  · rw [entryAt_write tree.distinct there]
    split_ifs with atSlot
    · obtain ⟨rfl,rfl,rfl⟩ := atSlot
      exact .inr ⟨rfl,level,read⟩
    exact .inl rfl
  rw [entryAt_write tree.distinct there]
  split_ifs with atSlot
  · exact real.1.symm
  intro points'
  have isLevel : level' = parent.level := by
    have := above address level' index below walk points'
    omega
  subst isLevel
  have nonzero : entryAt pages address parent.level index &&& addressMask ≠ 0 := by rw [points']; exact real.1
  obtain ⟨sameAddress,sameIndex⟩ := tree.entry_of_masked below walk inside nonzero (points'.trans read.symm)
  exact atSlot ⟨sameAddress,rfl,sameIndex⟩

namespace Unlinked

variable {pages cleared : List UatPage} {j : Nat} {child : UatPage} (tree : Tree pages)
  (unlinked : Unlinked pages cleared j child)
include tree unlinked

theorem left : Distinct (releaseInventoryPage j cleared) ∧
    ∀ page, page ∈ releaseInventoryPage j cleared ↔ page ∈ cleared ∧ page.physicalAddress ≠ child.physicalAddress := by
  obtain ⟨inside,isChild⟩ := List.getElem?_eq_some_iff.mp unlinked.there
  have perm := releaseInventoryPage_perm inside
  rw [isChild] at perm
  have distinct : Distinct cleared := unlinked.shape.distinct tree.distinct
  have nodup : ((child :: releaseInventoryPage j cleared).map (fun page => page.physicalAddress)).Nodup :=
    (perm.map _).nodup_iff.mpr distinct
  rw [List.map_cons,List.nodup_cons] at nodup
  refine ⟨nodup.2,fun page => ⟨fun there => ⟨perm.mem_iff.mp (List.mem_cons_of_mem _ there),fun same => ?_⟩,?_⟩⟩
  · exact nodup.1 (same ▸ List.mem_map_of_mem there)
  rintro ⟨there,apart⟩
  rcases List.mem_cons.mp (perm.mem_iff.mpr there) with rfl | found
  · exact absurd rfl apart
  exact found

theorem entries (zero : pageIsZero child.entries = true) (address : U64) (level : Nat) {index : Nat} (small : index < 2048) :
    entryAt (releaseInventoryPage j cleared) address level index = entryAt cleared address level index := by
  have distinct : Distinct cleared := unlinked.shape.distinct tree.distinct
  have mem := List.mem_of_getElem? unlinked.there
  obtain ⟨distinct',mem_iff⟩ := left tree unlinked
  by_cases atChild : address = child.physicalAddress
  · subst atChild
    rw [entryAt_absent (fun page there here => ((mem_iff page).mp there).2 here.1)]
    by_cases sameLevel : level = child.level
    · rw [sameLevel,entryAt_mem distinct mem,pageIsZero_apply zero small]
    refine (entryAt_absent (fun page there here => ?_) index).symm
    rw [distinct.eq_of_address there mem here.1] at here
    exact sameLevel here.2.symm
  refine entryAt_of_mem_iff distinct distinct' (fun page isAddress _ => ?_) index
  exact (mem_iff page).trans ⟨And.left,fun there => ⟨there,isAddress ▸ atChild⟩⟩

end Unlinked

variable {pages : List UatPage} {j : Nat}

theorem Unlinked.release {cleared : List UatPage} {child : UatPage} (tree : Tree pages)
    (unlinked : Unlinked pages cleared j child) (table : 0 < child.level) (zero : pageIsZero child.entries = true) :
    SameTranslation pages (releaseInventoryPage j cleared) := by
  have distinct : Distinct cleared := unlinked.shape.distinct tree.distinct
  have mem := List.mem_of_getElem? unlinked.there
  obtain ⟨distinct',left⟩ := Unlinked.left tree unlinked
  have mem_iff : ∀ page, page.physicalAddress ≠ child.physicalAddress →
      (page ∈ releaseInventoryPage j cleared ↔ page ∈ cleared) :=
    fun page away => (left page).trans ⟨And.left,fun there => ⟨there,away⟩⟩
  have apart : ∀ page ∈ releaseInventoryPage j cleared, page.physicalAddress ≠ child.physicalAddress :=
    fun page there => ((left page).mp there).2
  have entries : ∀ address level index, index < 2048 →
      entryAt (releaseInventoryPage j cleared) address level index = entryAt cleared address level index :=
    fun address level _ => Unlinked.entries tree unlinked zero address level
  have walked : ∀ level index, index < entryCount level → index < 2048 :=
    fun level index bound => bound.trans_le (entryCount_le level)
  -- an entry that is left is as it was
  have kept : ∀ address level index, index < 2048 → entryAt (releaseInventoryPage j cleared) address level index ≠ 0 →
      entryAt (releaseInventoryPage j cleared) address level index = entryAt pages address level index := by
    intro address level index small nonzero
    rw [entries address level index small] at nonzero ⊢
    rcases unlinked.entry address level index with same | ⟨isZero,_⟩
    · exact same
    exact absurd isZero nonzero
  have exists_page : ∀ page ∈ pages, page.physicalAddress ≠ child.physicalAddress →
      ∃ page' ∈ releaseInventoryPage j cleared, page'.physicalAddress = page.physicalAddress ∧ page'.level = page.level := by
    intro page there away
    obtain ⟨page',found,same,sameLevel⟩ := unlinked.shape.exists there
    exact ⟨page',(mem_iff page' (same ▸ away)).mpr found,same,sameLevel⟩
  have exists_old : ∀ page ∈ releaseInventoryPage j cleared,
      ∃ old ∈ pages, old.physicalAddress = page.physicalAddress ∧ old.level = page.level := by
    intro page there
    exact unlinked.shape.symm.exists ((mem_iff page (apart page there)).mp there)
  have tree' : Tree (releaseInventoryPage j cleared) := by
    refine ⟨distinct',?_,?_,?_,?_⟩
    · intro page there
      obtain ⟨old,found,address,_⟩ := exists_old page there
      rw [← address]
      exact tree.real old found
    · intro page there
      obtain ⟨old,found,_,level⟩ := exists_old page there
      rw [← level]
      exact tree.levels old found
    · intro address level index below walk nonzero
      have same := kept address level index (walked level index walk) nonzero
      obtain ⟨page,found,isLevel,entry⟩ := tree.child address level index below walk (same ▸ nonzero)
      have away : page.physicalAddress ≠ child.physicalAddress := by
        intro points
        have free := unlinked.free address level index below walk
        rw [← entries address level index (walked level index walk),same,entry,
          table_masked (tree.real page found).2] at free
        exact free points
      obtain ⟨page',there,sameAddress,sameLevel⟩ := exists_page page found away
      exact ⟨page',there,sameLevel.trans isLevel,by rw [same,entry,sameAddress]⟩
    intro address address' level index index' below walk walk' nonzero same
    have first := kept address level index (walked level index walk) nonzero
    have second := kept address' level index' (walked level index' walk') (same ▸ nonzero)
    exact tree.parent address address' level index index' below walk walk' (first ▸ nonzero)
      (first.symm.trans (same.trans second))
  refine ⟨tree',fun root va => ?_,fun address => ?_⟩
  · have small := level0Index_lt va
    have mid := level1Index_lt va
    have last := level2Index_lt va
    have childZero : ∀ level index, index < 2048 → entryAt pages child.physicalAddress level index = 0 := by
      intro level index bound
      rcases unlinked.entry child.physicalAddress level index with same | ⟨_,above,points⟩
      · rw [← same,← entries _ _ _ bound]
        exact entryAt_absent (fun page there here => apart page there here.1) index
      -- the child is not a page of the level above
      refine entryAt_absent (fun page there here => ?_) index
      obtain ⟨page',found,same,sameLevel⟩ := unlinked.shape.exists there
      have isChild := distinct.eq_of_address found mem (same.trans here.1)
      rw [isChild] at sameLevel
      omega
    unfold leafValue UatTree.leafTable
    rw [entries _ 0 _ (by omega)]
    rcases unlinked.entry root 0 (level0Index va) with same | ⟨isZero,_,points⟩
    · rw [same,entries _ 1 _ mid]
      rcases unlinked.entry (entryAt pages root 0 (level0Index va) &&& addressMask) 1 (level1Index va) with
        same | ⟨isZero,above,points⟩
      · rw [same,entries _ 2 _ last]
        rcases unlinked.entry (entryAt pages (entryAt pages root 0 (level0Index va) &&& addressMask) 1
          (level1Index va) &&& addressMask) 2 (level2Index va) with same | ⟨_,above,_⟩
        · exact same
        obtain ⟨old,found,_,level⟩ := unlinked.shape.symm.exists mem
        have := tree.levels old found
        omega
      rw [isZero,masked_zero,points,tree'.entryAt_zero,childZero _ _ last]
    rw [isZero,masked_zero,points,tree'.entryAt_zero,masked_zero,tree'.entryAt_zero,childZero _ _ mid,masked_zero,
      tree.entryAt_zero]
  constructor
  · rintro ⟨page,there,isAddress,isRoot⟩
    obtain ⟨old,found,same,sameLevel⟩ := exists_old page there
    exact ⟨old,found,same.trans isAddress,sameLevel.trans isRoot⟩
  rintro ⟨page,there,isAddress,isRoot⟩
  have away : page.physicalAddress ≠ child.physicalAddress := by
    intro same
    obtain ⟨page',found,same',sameLevel⟩ := unlinked.shape.exists there
    rw [distinct.eq_of_address found mem (same'.trans same)] at sameLevel
    omega
  obtain ⟨page',found,same,sameLevel⟩ := exists_page page there away
  exact ⟨page',found,same.trans isAddress,sameLevel.trans isRoot⟩

theorem pruneLevel_spec {level : Nat} (table : 0 < level) : ∀ (turns : Nat) {pages : List UatPage}, Tree pages →
    SameTranslation pages (pruneLevel level turns pages) := by
  intro turns
  induction turns with
  | zero => exact fun tree => .refl tree
  | succ turns ih =>
  intro pages tree
  unfold pruneLevel
  split
  · exact .refl tree
  rename_i j found
  obtain ⟨inside,here,_⟩ := List.findIdx?_eq_some_iff_getElem.mp found
  simp only [Bool.and_eq_true,beq_iff_eq] at here
  obtain ⟨rfl,zero⟩ := here
  have there := List.getElem?_eq_getElem inside
  have address : addressOf pages j = pages[j].physicalAddress := by rw [addressOf,there]; rfl
  rw [address]
  have step := (clearParentReference_unlinked tree there).release tree table zero
  exact step.trans (ih step.tree)

theorem clearParentReference_shape (childLevel : Nat) (child : U64) (pages : List UatPage) :
    SameShape pages (clearParentReference childLevel child pages) := by
  rcases clearParentReference_spec childLevel child pages with ⟨same,_⟩ | ⟨_,_,_,_,_,_,_,written⟩
  · rw [same]
    rfl
  rw [written]
  exact writeEntry_shape ..

theorem SameShape.length_eq {pages' : List UatPage} (shape : SameShape pages pages') : pages'.length = pages.length := by
  have lengths := congrArg List.length shape
  simpa only [List.length_map] using lengths

theorem release_addresses (level : Nat) (inside : j < pages.length) :
    (addressOf pages j :: addresses (releaseInventoryPage j (clearParentReference level (addressOf pages j) pages))).Perm
      (addresses pages) := by
  have shape := clearParentReference_shape level (addressOf pages j) pages
  have inside' : j < (clearParentReference level (addressOf pages j) pages).length := by
    rw [SameShape.length_eq shape]
    exact inside
  have perm := (releaseInventoryPage_perm inside').map (fun page => page.physicalAddress)
  rw [shape.addresses,List.map_cons] at perm
  have same : (clearParentReference level (addressOf pages j) pages)[j].physicalAddress = addressOf pages j := by
    have there := congrArg (fun list : List U64 => list[j]?) shape.addresses
    simp only [List.getElem?_map,List.getElem?_eq_getElem inside,List.getElem?_eq_getElem inside',Option.map_some,
      Option.some.injEq] at there
    rw [there,addressOf,List.getElem?_eq_getElem inside]
    rfl
  rwa [same] at perm

theorem levelReturns_perm (level : Nat) : ∀ (turns : Nat) (pages : List UatPage),
    (addresses (pruneLevel level turns pages) ++ levelReturns level turns pages).Perm (addresses pages) := by
  intro turns
  induction turns with
  | zero =>
    intro pages
    rw [pruneLevel,levelReturns,List.append_nil]
  | succ turns ih =>
  intro pages
  unfold pruneLevel levelReturns
  split
  · rw [List.append_nil]
  rename_i j found
  obtain ⟨inside,_⟩ := List.findIdx?_eq_some_iff_getElem.mp found
  exact List.perm_middle.trans (((ih _).cons _).trans (release_addresses level inside))

theorem pruneReturns_perm (pages : List UatPage) :
    (addresses (pruneEmptyTables pages) ++ pruneReturns pages).Perm (addresses pages) := by
  have leaves := levelReturns_perm 2 pages.length pages
  have tables := levelReturns_perm 1 (pruneLevel 2 pages.length pages).length (pruneLevel 2 pages.length pages)
  refine List.perm_iff_count.mpr (fun address => ?_)
  have countLeaves := leaves.count_eq address
  have countTables := tables.count_eq address
  simp only [pruneEmptyTables,pruneReturns,List.count_append] at countLeaves countTables ⊢
  omega

theorem pruneEmptyTables_spec (tree : Tree pages) : SameTranslation pages (pruneEmptyTables pages) := by
  have first := pruneLevel_spec (by decide : 0 < 2) pages.length tree
  exact first.trans (pruneLevel_spec (by decide) _ first.tree)

end WindowsOnM1.UatPrune
