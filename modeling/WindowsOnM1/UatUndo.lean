import WindowsOnM1.UatTables

/-!
Unmapping what was just mapped. The tables that a map made are emptied again and are
exactly the ones that the pruning takes away, so the pages are the list that the map
started from.
-/
namespace WindowsOnM1.UatUndo
open UatModel UatEncoding UatTree UatMap UatPrune
open UatOperations UatTables

/-- The first pages stay in their places, with the entries that no walk reads. -/
def Stays (n : Nat) (pages pages' : List UatPage) : Prop :=
  ∀ j < n, ∀ page, pages[j]? = some page → ∃ page', pages'[j]? = some page' ∧ page'.physicalAddress = page.physicalAddress ∧
    page'.level = page.level ∧ ∀ index, entryCount page.level ≤ index → page'.entries index = page.entries index
theorem Stays.refl (n : Nat) (pages : List UatPage) : Stays n pages pages :=
  fun _ _ page here => ⟨page,here,rfl,rfl,fun _ _ => rfl⟩

theorem Stays.trans {n : Nat} {a b c : List UatPage} (first : Stays n a b) (second : Stays n b c) : Stays n a c := by
  intro j inside page here
  obtain ⟨page',here',address,level,entries⟩ := first j inside page here
  obtain ⟨page'',here'',address',level',entries'⟩ := second j inside page' here'
  refine ⟨page'',here'',address'.trans address,level'.trans level,fun index beyond => ?_⟩
  rw [entries' index (by rw [level]; exact beyond),entries index beyond]

private theorem writeEntry_stays (n : Nat) {pages : List UatPage} {k index : Nat} {parent : UatPage} {value : U64}
    (there : pages[k]? = some parent) (inside : index < entryCount parent.level) : Stays n pages (writeEntry pages k index value) := by
  intro j _ page here
  by_cases same : k = j
  · subst same
    obtain rfl : page = parent := Option.some.inj (here.symm.trans there)
    refine ⟨{ page with entries := Function.update page.entries index value },?_,rfl,rfl,fun other beyond => ?_⟩
    · rw [writeEntry,List.getElem?_modify,here]
      simp
    exact Function.update_of_ne (by omega) _ _
  refine ⟨page,?_,rfl,rfl,fun _ _ => rfl⟩
  rw [writeEntry,List.getElem?_modify,here]
  simp [same]

private theorem clearParentReference_stays (n childLevel : Nat) (child : U64) (pages : List UatPage) :
    Stays n pages (clearParentReference childLevel child pages) := by
  rcases clearParentReference_spec childLevel child pages with ⟨same,_⟩ | ⟨j,parent,index,there,_,inside,_,written⟩
  · rw [same]
    exact .refl n pages
  rw [written]
  exact writeEntry_stays n there inside

private theorem releaseInventoryPage_stays {n j : Nat} {pages : List UatPage} (late : n ≤ j) (inside : j < pages.length) :
    Stays n pages (releaseInventoryPage j pages) := by
  intro i early page here
  refine ⟨page,?_,rfl,rfl,fun _ _ => rfl⟩
  unfold releaseInventoryPage
  split
  · exact here
  rw [List.getElem?_dropLast,List.length_set,if_pos (by omega),List.getElem?_set_ne (by omega)]
  exact here

/-- A level whose first pages all hold an entry loses none of them. -/
theorem pruneLevel_stays {level n : Nat} (table : 0 < level) : ∀ {turns : Nat} {pages : List UatPage}, Tree pages →
    (∀ j < n, ∀ page, pages[j]? = some page → page.level = level → ¬ Idle pages page.physicalAddress level) →
    Stays n pages (pruneLevel level turns pages) := by
  intro turns
  induction turns with
  | zero => exact fun _ _ => .refl n _
  | succ turns ih =>
  intro pages tree busy
  cases found : emptyTable level pages with
  | none =>
    have missing := found
    rw [emptyTable] at missing
    rw [pruneLevel,missing]
    exact .refl n pages
  | some j =>
  obtain ⟨inside,_,idle,cut⟩ := emptyTable_some tree found
  have cut : Cut level (addressOf pages j) pages
      (releaseInventoryPage j (clearParentReference level (addressOf pages j) pages)) := cut table
  rw [emptyTable] at found
  have isLevel : pages[j].level = level := by
    obtain ⟨_,here,_⟩ := List.findIdx?_eq_some_iff_getElem.mp found
    simp only [Bool.and_eq_true,beq_iff_eq] at here
    exact here.1
  have address : addressOf pages j = pages[j].physicalAddress := by
    rw [addressOf,List.getElem?_eq_getElem inside]
    rfl
  have late : n ≤ j := by
    by_contra early
    exact busy j (Nat.not_le.mp early) _ (List.getElem?_eq_getElem inside) isLevel (address ▸ idle)
  rw [pruneLevel,found]
  have stays : Stays n pages (releaseInventoryPage j (clearParentReference level (addressOf pages j) pages)) := by
    refine (clearParentReference_stays n level (addressOf pages j) pages).trans (releaseInventoryPage_stays late ?_)
    rw [SameShape.length_eq (clearParentReference_shape level (addressOf pages j) pages)]
    exact inside
  refine stays.trans (ih cut.tree (fun i early page' here' isLevel' idle' => ?_))
  obtain ⟨page,here⟩ : ∃ page, pages[i]? = some page := ⟨_,List.getElem?_eq_getElem (by omega)⟩
  obtain ⟨page'',here'',sameAddress,sameLevel,_⟩ := stays i early page here
  obtain rfl : page'' = page' := Option.some.inj (here''.symm.trans here')
  refine busy i early page here (sameLevel.symm.trans isLevel') (fun index small => ?_)
  have zero := idle' index small
  rw [cut.entry _ _ _ (by rw [entryCount_pos table]; exact small),if_neg (by omega),sameAddress] at zero
  exact zero

/-- Pages whose first ones are those of a start; the entries that differ from it were
    empty and point to the tables behind. -/
structure Emptying (start pages : List UatPage) : Prop where
  linked : Linked start 0
  hung : Hung pages
  shape : SameShape start (pages.take start.length)
  tables : ∀ page ∈ pages.drop start.length, page.level ≠ 0
  entry : ∀ address level index, (index < 2048 ∨ ∃ old ∈ start, old.physicalAddress = address ∧ old.level = level) →
    entryAt pages address level index ≠ entryAt start address level index →
    entryAt start address level index = 0 ∧ level < 2 ∧ index < entryCount level ∧
      ∃ page ∈ pages.drop start.length, page.physicalAddress = entryAt pages address level index &&& addressMask

theorem emptying_of_filled {start pages cleared : List UatPage} {root va : U64} {value : Nat → U64} {turns : Nat} {half : UatHalf}
    {physical length : U64} (valid : ValidRange half va physical length) (fits : turns ≤ pageTurns length)
    (linked : Linked start 0) (hung : Hung cleared) (filled : Filled start root va value turns pages)
    (written : Written root va (fun _ => 0) 0 turns pages cleared) : Emptying start cleared := by
  refine ⟨linked,hung,filled.shape.trans_take written.shape.take,fun page member => ?_,fun address level index known changed =>
    filled.cleared valid fits written known changed⟩
  obtain ⟨j,here⟩ := List.getElem?_of_mem member
  rw [List.getElem?_drop] at here
  obtain ⟨page',there,_,level⟩ := written.shape.symm.take.getElem here
  rw [← level]
  exact filled.tables page' (List.mem_of_getElem? (i := j) (by rw [List.getElem?_drop]; exact there))

namespace Emptying

variable {start pages : List UatPage} (emptying : Emptying start pages)
include emptying

variable {page : UatPage}

theorem old_or_new (member : page ∈ pages) :
    (∃ old ∈ start, old.physicalAddress = page.physicalAddress ∧ old.level = page.level) ∨ page ∈ pages.drop start.length := by
  rw [← List.take_append_drop start.length pages] at member
  rcases List.mem_append.mp member with early | late
  · obtain ⟨old,found,same⟩ := emptying.shape.symm.exists early
    exact .inl ⟨old,found,same⟩
  exact .inr late

variable {old : UatPage}

theorem apart (member : old ∈ start) (late : page ∈ pages.drop start.length) :
    old.physicalAddress ≠ page.physicalAddress := by
  obtain ⟨now,early,same,_⟩ := emptying.shape.exists member
  have nodup := emptying.hung.tree.distinct
  rw [Distinct,← List.take_append_drop start.length pages,List.map_append] at nodup
  rw [← same]
  exact (List.nodup_append.mp nodup).2.2 _ (List.mem_map_of_mem early) _ (List.mem_map_of_mem late)

theorem unwritten (late : page ∈ pages.drop start.length) (level index : Nat) :
    entryAt start page.physicalAddress level index = 0 :=
  entryAt_absent (fun _ member here => emptying.apart member late here.1) index

variable {address : U64} {level index : Nat}

theorem stays (known : index < 2048 ∨ ∃ old ∈ start, old.physicalAddress = address ∧ old.level = level)
    (nonzero : entryAt start address level index ≠ 0) : entryAt pages address level index = entryAt start address level index := by
  by_contra changed
  exact nonzero (emptying.entry _ _ _ known changed).1

theorem busy (member : old ∈ start) (isLevel : old.level = level + 1) :
    ∃ index < 2048, entryAt start old.physicalAddress (level + 1) index ≠ 0 := by
  have holds := emptying.linked.busy _ level ⟨old,member,rfl,isLevel⟩ (emptying.linked.tree.real old member).1
  simp only [Idle,not_forall] at holds
  obtain ⟨index,small,nonzero⟩ := holds
  exact ⟨index,small,nonzero⟩

theorem idle_leaves : IsPage pages address 2 ∧ Idle pages address 2 ↔
    ∃ page ∈ pages.drop start.length, page.physicalAddress = address ∧ page.level = 2 := by
  constructor
  · rintro ⟨⟨page,member,rfl,isLevel⟩,idle⟩
    rcases emptying.old_or_new member with ⟨old,found,same,sameLevel⟩ | late
    · obtain ⟨index,small,nonzero⟩ := emptying.busy found (sameLevel.trans isLevel)
      have stays := emptying.stays (.inl small) nonzero
      rw [same] at nonzero stays
      exact absurd (stays.symm.trans (idle index small)) nonzero
    exact ⟨page,late,rfl,isLevel⟩
  rintro ⟨page,late,rfl,isLevel⟩
  refine ⟨⟨page,List.mem_of_mem_drop late,rfl,isLevel⟩,fun index small => ?_⟩
  by_contra nonzero
  have changed : entryAt pages page.physicalAddress 2 index ≠ entryAt start page.physicalAddress 2 index := by
    rw [emptying.unwritten late]
    exact nonzero
  have below := (emptying.entry _ _ _ (.inl small) changed).2.1
  omega

theorem child (below : level < 2) (inside : index < entryCount level)
    (nonzero : entryAt pages address level index ≠ 0) :
    ∃ page ∈ pages, page.level = level + 1 ∧ entryAt pages address level index &&& addressMask = page.physicalAddress := by
  obtain ⟨page,member,isLevel,entry⟩ := emptying.hung.tree.child _ _ _ below inside nonzero
  exact ⟨page,member,isLevel,by rw [entry,table_masked (emptying.hung.tree.real page member).2]⟩

theorem new_child (known : index < 2048 ∨ ∃ old ∈ start, old.physicalAddress = address ∧ old.level = level)
    (changed : entryAt pages address level index ≠ entryAt start address level index) :
    ∃ page ∈ pages.drop start.length, page.physicalAddress = entryAt pages address level index &&& addressMask ∧ page.level = level + 1 := by
  obtain ⟨zero,below,inside,page,late,points⟩ := emptying.entry _ _ _ known changed
  obtain ⟨page',member,isLevel,points'⟩ := emptying.child below inside (fun none => changed (none.trans zero.symm))
  have same := emptying.hung.tree.distinct.eq_of_address (List.mem_of_mem_drop late) member (points.trans points')
  exact ⟨page,late,points,by rw [same]; exact isLevel⟩

theorem old_child (below : level < 2) (inside : index < entryCount level)
    (nonzero : entryAt start address level index ≠ 0) :
    ∃ old ∈ start, entryAt start address level index &&& addressMask = old.physicalAddress := by
  obtain ⟨old,member,_,entry⟩ := emptying.linked.tree.child _ _ _ below inside nonzero
  exact ⟨old,member,by rw [entry,table_masked (emptying.linked.tree.real old member).2]⟩

/-- With the empty leaf tables gone, the tables of level 1 without an entry are the new ones. -/
theorem idle_tables {returned : List U64} {left : List UatPage} (leaves : LevelPruned 2 returned pages left) :
    IsPage left address 1 ∧ Idle left address 1 ↔ ∃ page ∈ pages.drop start.length, page.physicalAddress = address ∧ page.level = 1 := by
  have count : entryCount 1 = 2048 := by decide
  have gone : ∀ address, address ∈ returned ↔ ∃ page ∈ pages.drop start.length, page.physicalAddress = address ∧ page.level = 2 :=
    fun address => (leaves.gone address).trans emptying.idle_leaves
  constructor
  · rintro ⟨isPage,idle⟩
    obtain ⟨⟨page,member,rfl,isLevel⟩,-⟩ := (leaves.left _ _).mp isPage
    rcases emptying.old_or_new member with ⟨old,found,same,sameLevel⟩ | late
    · obtain ⟨index,small,nonzero⟩ := emptying.busy found (sameLevel.trans isLevel)
      have stays := emptying.stays (.inl small) nonzero
      rw [same] at nonzero stays
      obtain ⟨below,found',points⟩ := emptying.old_child (by decide) (by rw [count]; exact small) nonzero
      have zero := idle index small
      rw [leaves.entry _ _ _ (by rw [count]; exact small),if_neg,stays] at zero
      · exact absurd zero nonzero
      rintro ⟨-,mem⟩
      obtain ⟨page',late,address,-⟩ := (gone _).mp mem
      rw [stays,points] at address
      exact emptying.apart found' late address.symm
    exact ⟨page,late,rfl,isLevel⟩
  rintro ⟨page,late,rfl,isLevel⟩
  refine ⟨(leaves.left _ _).mpr ⟨⟨page,List.mem_of_mem_drop late,rfl,isLevel⟩,fun mem => ?_⟩,fun index small => ?_⟩
  · obtain ⟨page',late',address,isLevel'⟩ := (gone _).mp mem
    have same := emptying.hung.tree.distinct.eq_of_address (List.mem_of_mem_drop late') (List.mem_of_mem_drop late) address
    rw [same,isLevel] at isLevel'
    cases isLevel'
  rw [leaves.entry _ _ _ (by rw [count]; exact small)]
  split_ifs with named
  · rfl
  by_contra nonzero
  have changed : entryAt pages page.physicalAddress 1 index ≠ entryAt start page.physicalAddress 1 index := by
    rw [emptying.unwritten late]
    exact nonzero
  obtain ⟨page',late',points,isLevel'⟩ := emptying.new_child (.inl small) changed
  exact named ⟨rfl,points ▸ (gone _).mpr ⟨page',late',rfl,isLevel'⟩⟩

private theorem restored_entry {returned returned' : List U64} {left left' : List UatPage} (leaves : LevelPruned 2 returned pages left)
    (tables : LevelPruned 1 returned' left left') (member : old ∈ start) (walked : index < entryCount old.level) :
    entryAt left' old.physicalAddress old.level index = entryAt start old.physicalAddress old.level index := by
  have gone : ∀ address, address ∈ returned ↔ ∃ page ∈ pages.drop start.length, page.physicalAddress = address ∧ page.level = 2 :=
    fun address => (leaves.gone address).trans emptying.idle_leaves
  have gone' : ∀ address, address ∈ returned' ↔ ∃ page ∈ pages.drop start.length, page.physicalAddress = address ∧ page.level = 1 :=
    fun address => (tables.gone address).trans (emptying.idle_tables leaves)
  have known : index < 2048 ∨ ∃ page ∈ start, page.physicalAddress = old.physicalAddress ∧ page.level = old.level :=
    .inr ⟨old,member,rfl,rfl⟩
  rw [tables.entry _ _ _ walked,leaves.entry _ _ _ walked]
  by_cases same : entryAt pages old.physicalAddress old.level index = entryAt start old.physicalAddress old.level index
  · rw [same]
    by_cases zero : entryAt start old.physicalAddress old.level index = 0
    · rw [zero,ite_self,ite_self]
    -- it points to no new table
    have old_points : old.level < 2 → ∀ page ∈ pages.drop start.length,
        page.physicalAddress ≠ entryAt start old.physicalAddress old.level index &&& addressMask := by
      intro below page late points
      obtain ⟨other,found,points'⟩ := emptying.old_child below walked zero
      exact emptying.apart found late (points'.symm.trans points.symm)
    rw [if_neg,if_neg]
    · rintro ⟨above,mem⟩
      obtain ⟨page,late,points,-⟩ := (gone _).mp mem
      exact old_points (by omega) page late points
    rintro ⟨above,mem⟩
    rw [if_neg (by omega)] at mem
    obtain ⟨page,late,points,-⟩ := (gone' _).mp mem
    exact old_points (by omega) page late points
  obtain ⟨zero,below,-,-⟩ := emptying.entry _ _ _ known same
  obtain ⟨page,late,points,isLevel⟩ := emptying.new_child known same
  rw [zero]
  by_cases bottom : old.level + 1 = 2
  · rw [if_pos (c := old.level + 1 = 2 ∧ _) ⟨bottom,points ▸ (gone _).mpr ⟨page,late,rfl,isLevel.trans bottom⟩⟩,ite_self]
  have top : old.level + 1 = 1 := by omega
  rw [if_neg (c := old.level + 1 = 2 ∧ _) (fun both => bottom both.1),
    if_pos ⟨top,points ▸ (gone' _).mpr ⟨page,late,rfl,isLevel.trans top⟩⟩]

theorem restores : pruneEmptyTables pages = start := by
  have leaves := pruneLevel_pruned (by decide : 0 < 2) emptying.hung.tree (Nat.le_refl pages.length)
  have tables : LevelPruned 1 _ (pruneLevel 2 pages.length pages) (pruneEmptyTables pages) :=
    pruneLevel_pruned (by decide) leaves.tree (Nat.le_refl _)
  have firstStays : Stays start.length pages (pruneLevel 2 pages.length pages) := by
    refine pruneLevel_stays (by decide) emptying.hung.tree (fun j inside page here isLevel idle => ?_)
    obtain ⟨page',late,address,-⟩ := emptying.idle_leaves.mp ⟨⟨page,List.mem_of_getElem? here,rfl,isLevel⟩,idle⟩
    obtain ⟨now,here',same,-⟩ := emptying.shape.getElem (List.getElem?_eq_getElem inside)
    obtain rfl : now = page := Option.some.inj (here'.symm.trans here)
    exact emptying.apart (List.getElem_mem inside) late (same.symm.trans address.symm)
  have secondStays : Stays start.length (pruneLevel 2 pages.length pages) (pruneEmptyTables pages) := by
    refine pruneLevel_stays (by decide) leaves.tree (fun j inside page here isLevel idle => ?_)
    obtain ⟨page',late,address,-⟩ :=
      (emptying.idle_tables leaves).mp ⟨⟨page,List.mem_of_getElem? here,rfl,isLevel⟩,idle⟩
    obtain ⟨now,here',same,-⟩ := emptying.shape.getElem (List.getElem?_eq_getElem inside)
    obtain ⟨now',here'',same',-⟩ := firstStays j inside now here'
    obtain rfl : now' = page := Option.some.inj (here''.symm.trans here)
    exact emptying.apart (List.getElem_mem inside) late (same.symm.trans (same'.symm.trans address.symm))
  have stays := firstStays.trans secondStays
  apply List.ext_getElem?
  intro j
  by_cases inside : j < start.length
  · have here := List.getElem?_eq_getElem inside
    have member := List.getElem_mem inside
    obtain ⟨now,there,address,level⟩ := emptying.shape.getElem here
    obtain ⟨last,behind,address',level',beyond⟩ := stays j inside now there
    rw [behind,here]
    have read : ∀ index, last.entries index = entryAt (pruneEmptyTables pages) start[j].physicalAddress start[j].level index := by
      intro index
      rw [← address,← level,← address',← level',entryAt_mem tables.tree.distinct (List.mem_of_getElem? behind)]
    have entries : ∀ index, last.entries index = start[j].entries index := by
      intro index
      rw [← entryAt_mem emptying.linked.tree.distinct member]
      by_cases walked : index < entryCount start[j].level
      · rw [read]
        exact emptying.restored_entry leaves tables member walked
      rw [beyond index (by rw [level]; omega),← entryAt_mem emptying.hung.tree.distinct (List.mem_of_getElem? there),address,level]
      by_contra changed
      exact walked (emptying.entry _ _ _ (.inr ⟨_,member,rfl,rfl⟩) changed).2.2.1
    exact congrArg some (UatPage.ext (address'.trans address) (funext entries) (level'.trans level))
  rw [List.getElem?_eq_none (Nat.le_of_not_lt inside)]
  cases more : (pruneEmptyTables pages)[j]? with
  | none => rfl
  | some page =>
  have member := List.mem_of_getElem? more
  obtain ⟨remains,unlisted⟩ := (tables.left _ _).mp ⟨page,member,rfl,rfl⟩
  obtain ⟨⟨before,found,isAddress,isLevel⟩,unlisted'⟩ := (leaves.left _ _).mp remains
  rcases emptying.old_or_new found with ⟨old,among,sameAddress,_⟩ | late
  · obtain ⟨k,place⟩ := List.getElem?_of_mem among
    have early := (List.getElem?_eq_some_iff.mp place).1
    obtain ⟨now,there,address,_⟩ := emptying.shape.getElem place
    obtain ⟨last,behind,address',_⟩ := stays k early now there
    have both := tables.tree.distinct.eq_of_address (List.mem_of_getElem? behind) member
      (address'.trans (address.trans (sameAddress.trans isAddress)))
    rw [both] at behind
    have sameKey := findPage_getElem tables.tree.distinct behind
    rw [findPage_getElem tables.tree.distinct more] at sameKey
    cases sameKey
    exact absurd early inside
  have levels := emptying.hung.tree.levels before found
  have real := emptying.tables before late
  rcases Nat.lt_or_eq_of_le levels with low | high
  · have first : before.level = 1 := by omega
    exact absurd ((tables.gone _).mpr ((emptying.idle_tables leaves).mpr ⟨before,late,isAddress,first⟩)) unlisted
  exact absurd ((leaves.gone _).mpr (emptying.idle_leaves.mpr ⟨before,late,isAddress,high⟩)) unlisted'

end Emptying

end WindowsOnM1.UatUndo
