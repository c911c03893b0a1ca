import WindowsOnM1.GpuvaMappings

/-!
The accounts of a graph and of the registry. A backing counts the leaves that name its
page, a frame counts the backings of all graphs that were granted on it, and what has no
references is kept in a bounded set. Every move keeps the accounts as long as no count of
references allows.
-/
namespace WindowsOnM1.GpuvaAccounts
open SerialCounts HashChains GpuvaModel GpuvaLists GpuvaMoves List
open GpuvaLinked GpuvaWorld GpuvaGrants
open GpuvaMappings

def naming (leaves : List GpuvaNode) (ipa : U64) : Nat := leaves.countP (fun leaf => leaf.auxIpa == ipa)

/-- The backings that are kept without references. -/
def keptCount (backings : List GpuvaNode) : Nat := backings.countP (fun backing => backing.retained)

/-- The references of the backings are what a function of their pages says, and a backing
    without references is kept or loose. -/
structure Counted (count : U64 → Nat) (loose : Nat → Prop) (graph : GpuvaGraph) : Prop where
  references : ∀ backing ∈ graph.backings, backing.references.toNat = count backing.ipa
  idle : ∀ backing ∈ graph.backings, backing.retained = true → backing.references = 0
  kept : ∀ backing ∈ graph.backings, backing.references = 0 → backing.retained = true ∨ loose backing.id
  retained : graph.retainedLocal.toNat = keptCount graph.backings
  limit : graph.retainedLocal ≤ retainedLocalLimit

/-- Every leaf names a backing of its kind and generation. -/
def Names (graph : GpuvaGraph) : Prop :=
  ∀ leaf ∈ graph.leaves, ∃ backing ∈ graph.backings,
    backing.ipa = leaf.auxIpa ∧ backing.kind = leaf.kind ∧ backing.generation = leaf.generation

/-- The accounts of one graph, of which one backing may be loose. -/
structure Accounts (loose : Option Nat) (graph : GpuvaGraph) : Prop where
  counted : Counted (naming graph.leaves) (fun id => loose = some id) graph
  names : Names graph

variable {x : U32}

theorem toNat_succ (room : x ≠ ~~~0) : (x + 1).toNat = x.toNat + 1 := by bv_omega
theorem toNat_pred (used : x ≠ 0) : (x - 1).toNat + 1 = x.toNat := by bv_omega
theorem toNat_zero : x = 0 ↔ x.toNat = 0 := by bv_omega

variable {count : U64 → Nat} {loose : Nat → Prop} {graph : GpuvaGraph}

theorem Counted.imp {count' : U64 → Nat} {loose' : Nat → Prop}
    (counted : Counted count loose graph) (same : ∀ backing ∈ graph.backings, count backing.ipa = count' backing.ipa)
    (looser : ∀ backing ∈ graph.backings, backing.references = 0 → loose backing.id → backing.retained = true ∨ loose' backing.id) :
    Counted count' loose' graph where
  references := fun backing mem => (counted.references backing mem).trans (same backing mem)
  idle := counted.idle
  kept := fun backing mem unused => (counted.kept backing mem unused).elim .inl (looser backing mem unused)
  retained := counted.retained
  limit := counted.limit

theorem Counted.of_same {graph' : GpuvaGraph} (counted : Counted count loose graph)
    (backings : graph'.backings = graph.backings) (retained : graph'.retainedLocal = graph.retainedLocal) :
    Counted count loose graph' where
  references := backings ▸ counted.references
  idle := backings ▸ counted.idle
  kept := backings ▸ counted.kept
  retained := by rw [retained,backings,counted.retained]
  limit := retained ▸ counted.limit

variable {backing : GpuvaNode}

private theorem other_page (linked : BackingsLinked graph) (mem : backing ∈ graph.backings) {other : GpuvaNode}
    (there : other ∈ graph.backings) (apart : other.id ≠ backing.id) : (backing.ipa == other.ipa) = false :=
  beq_eq_false_iff_ne.mpr (fun same => apart (congrArg GpuvaNode.id (linked.chains.eq_of_key there mem same.symm)))

theorem Counted.add (counted : Counted count loose graph)
    (linked : BackingsLinked graph) (mem : backing ∈ graph.backings) (room : backing.references ≠ ~~~0) :
    Counted (fun ipa => count ipa + one (backing.ipa == ipa)) (fun id => loose id ∧ id ≠ backing.id)
      (addReference backing graph) := by
  have change := countP_change (fun item : GpuvaNode => item.retained)
    (fun item => { item with retained := false, references := item.references + 1 }) linked.chains.serials mem
  have kept := counted.retained
  have limit := counted.limit
  simp only [one_false] at change
  refine ⟨fun other there => ?_,fun other there => ?_,fun other there => ?_,?_,?_⟩
  · obtain ⟨old,inside,rfl⟩ := mem_modifyNode.mp there
    split_ifs with here
    · have same := linked.chains.eq_of_serial inside mem here
      subst same
      rw [toNat_succ room,counted.references old mem,beq_self_eq_true,one_true]
    rw [counted.references old inside,other_page linked mem inside here,one_false,Nat.add_zero]
  · obtain ⟨old,inside,rfl⟩ := mem_modifyNode.mp there
    split_ifs with here
    · rintro ⟨⟩
    exact counted.idle old inside
  · obtain ⟨old,inside,rfl⟩ := mem_modifyNode.mp there
    split_ifs with here
    · have same := linked.chains.eq_of_serial inside mem here
      subst same
      intro wrapped
      have more := toNat_succ room
      have none : (old.references + 1).toNat = 0 := toNat_zero.mp wrapped
      omega
    exact fun unused => (counted.kept old inside unused).imp_right (fun isLoose => ⟨isLoose,here⟩)
  · rw [keptCount,show (addReference backing graph).backings = graph.backings.map (changeAt (fun item => item.id) backing.id
      (fun item => { item with retained := false, references := item.references + 1 })) from rfl]
    simp only [addReference]
    split_ifs with wasKept
    · rw [wasKept,one_true] at change
      have used : graph.retainedLocal ≠ 0 := by
        rw [Ne,toNat_zero,kept,keptCount]
        omega
      have less := toNat_pred used
      rw [keptCount] at kept
      omega
    rw [Bool.not_eq_true] at wasKept
    rw [wasKept,one_false] at change
    rw [kept,keptCount]
    omega
  simp only [addReference]
  split_ifs with wasKept
  · have some : 0 < keptCount graph.backings := countP_pos_iff.mpr ⟨backing,mem,wasKept⟩
    bv_omega
  exact limit

theorem Counted.drop
    (counted : Counted (fun ipa => count ipa + one (backing.ipa == ipa)) loose graph) (linked : BackingsLinked graph)
    (mem : backing ∈ graph.backings) (used : backing.references ≠ 0) :
    Counted count (fun id => loose id ∨ id = backing.id) (dropReference backing graph) := by
  refine ⟨fun other there => ?_,fun other there => ?_,fun other there => ?_,?_,counted.limit⟩
  · obtain ⟨old,inside,rfl⟩ := mem_modifyNode.mp there
    have before := counted.references old inside
    split_ifs with here
    · have same := linked.chains.eq_of_serial inside mem here
      subst same
      have less := toNat_pred used
      rw [beq_self_eq_true,one_true] at before
      dsimp only
      omega
    rw [other_page linked mem inside here,one_false,Nat.add_zero] at before
    exact before
  · obtain ⟨old,inside,rfl⟩ := mem_modifyNode.mp there
    split_ifs with here
    · have same := linked.chains.eq_of_serial inside mem here
      subst same
      exact fun isKept => absurd (counted.idle old mem isKept) used
    exact counted.idle old inside
  · obtain ⟨old,inside,rfl⟩ := mem_modifyNode.mp there
    split_ifs with here
    · exact fun _ => .inr (.inr here)
    exact fun unused => (counted.kept old inside unused).imp_right .inl
  have same : keptCount (dropReference backing graph).backings = keptCount graph.backings := by
    have change := countP_change (fun item : GpuvaNode => item.retained)
      (fun item => { item with references := item.references - 1 }) linked.chains.serials mem
    exact Nat.add_right_cancel change
  rw [same]
  exact counted.retained

variable {registry : GpuvaRegistry}

theorem Counted.grant (counted : Counted count loose graph) (unnamed : count backing.ipa = 0)
    (unused : backing.references = 0) (unkept : backing.retained = false) :
    Counted count (fun id => loose id ∨ id = graph.linked) (linkBacking backing ⟨graph,registry⟩).graph where
  references := by
    intro other there
    rcases mem_cons.mp there with rfl | old
    · rw [unnamed]
      exact toNat_zero.mp unused
    exact counted.references other old
  idle := by
    intro other there isKept
    rcases mem_cons.mp there with rfl | old
    · exact unused
    exact counted.idle other old isKept
  kept := by
    intro other there isUnused
    rcases mem_cons.mp there with rfl | old
    · exact .inr (.inr rfl)
    exact (counted.kept other old isUnused).imp_right .inl
  retained := by
    rw [show (linkBacking backing ⟨graph,registry⟩).graph.backings = { backing with id := graph.linked } :: graph.backings
      from rfl,keptCount,countP_push,unkept]
    exact counted.retained
  limit := counted.limit

section
variable (counted : Counted count loose graph) (linked : BackingsLinked graph) (mem : backing ∈ graph.backings)
include counted linked mem

theorem Counted.release :
    Counted count (fun id => loose id ∧ id ≠ backing.id) (releaseGrant backing ⟨graph,registry⟩).graph where
  references := fun other there => counted.references other (mem_without.mp there).1
  idle := fun other there => counted.idle other (mem_without.mp there).1
  kept := by
    intro other there unused
    obtain ⟨there,apart⟩ := mem_without.mp there
    exact (counted.kept other there unused).imp_right (fun isLoose => ⟨isLoose,apart⟩)
  retained := by
    have less := countP_remove (fun item : GpuvaNode => item.retained) linked.chains.serials mem
    have kept := counted.retained
    rw [keptCount] at kept
    simp only [releaseGrant,keptCount,without]
    split_ifs with wasKept
    · rw [wasKept,one_true] at less
      have used : graph.retainedLocal ≠ 0 := by
        rw [Ne,toNat_zero]
        omega
      have pred := toNat_pred used
      omega
    rw [Bool.not_eq_true] at wasKept
    rw [wasKept,one_false] at less
    omega
  limit := by
    have limit := counted.limit
    simp only [releaseGrant]
    split_ifs with wasKept
    · have some : 0 < keptCount graph.backings := countP_pos_iff.mpr ⟨backing,mem,wasKept⟩
      have kept := counted.retained
      bv_omega
    exact limit

theorem Counted.retain (unused : backing.references = 0)
    (unkept : backing.retained = false) (room : graph.retainedLocal < retainedLocalLimit) :
    Counted count (fun id => loose id ∧ id ≠ backing.id) (retain backing graph) := by
  have more := countP_change (fun item : GpuvaNode => item.retained) (fun item => { item with retained := true })
    linked.chains.serials mem
  have kept := counted.retained
  rw [unkept,one_true,one_false] at more
  refine ⟨fun other there => ?_,fun other there => ?_,fun other there => ?_,?_,?_⟩
  · obtain ⟨old,inside,rfl⟩ := mem_modifyNode.mp there
    split_ifs <;> exact counted.references old inside
  · obtain ⟨old,inside,rfl⟩ := mem_modifyNode.mp there
    split_ifs with here
    · rw [linked.chains.eq_of_serial inside mem here]
      exact fun _ => unused
    exact counted.idle old inside
  · obtain ⟨old,inside,rfl⟩ := mem_modifyNode.mp there
    split_ifs with here
    · exact fun _ => .inl rfl
    exact fun unused => (counted.kept old inside unused).imp_right (fun isLoose => ⟨isLoose,here⟩)
  · rw [keptCount,show (GpuvaMoves.retain backing graph).backings = graph.backings.map (changeAt (fun item => item.id) backing.id
      (fun item => { item with retained := true })) from rfl]
    have count : (graph.retainedLocal + 1).toNat = graph.retainedLocal.toNat + 1 := by bv_omega
    rw [keptCount] at kept
    simp only [GpuvaMoves.retain]
    omega
  simp only [GpuvaMoves.retain]
  bv_omega

end

private theorem naming_push (leaf : GpuvaNode) (leaves : List GpuvaNode) (ipa : U64) :
    naming (leaf :: leaves) ipa = naming leaves ipa + one (leaf.auxIpa == ipa) := countP_push _ leaf leaves

variable {leaves : List GpuvaNode} {leaf : GpuvaNode}

private theorem naming_without (ids : Ids leaves) (mem : leaf ∈ leaves) (ipa : U64) :
    naming (without leaves leaf.id) ipa + one (leaf.auxIpa == ipa) = naming leaves ipa := countP_remove _ ids mem
private theorem naming_modify (ids : Ids leaves) (mem : leaf ∈ leaves) (change : GpuvaNode → GpuvaNode) (ipa : U64) :
    naming (modifyNode leaves leaf.id change) ipa + one (leaf.auxIpa == ipa) =
      naming leaves ipa + one ((change leaf).auxIpa == ipa) := countP_change _ change ids mem
theorem naming_pos (mem : leaf ∈ leaves) : 0 < naming leaves leaf.auxIpa :=
  countP_pos_iff.mpr ⟨leaf,mem,beq_self_eq_true _⟩

theorem Names.unnamed (names : Names graph) {ipa : U64} (free : ∀ backing ∈ graph.backings, backing.ipa ≠ ipa) :
    naming graph.leaves ipa = 0 := by
  rw [naming,countP_eq_zero]
  intro leaf mem same
  obtain ⟨backing,there,isIpa,_⟩ := names leaf mem
  exact free backing there (isIpa.trans (eq_of_beq same))

/-- Backings that keep their pages, kinds and generations. -/
def SamePages (backings backings' : List GpuvaNode) : Prop :=
  ∀ backing ∈ backings, ∃ backing' ∈ backings',
    backing'.ipa = backing.ipa ∧ backing'.kind = backing.kind ∧ backing'.generation = backing.generation

private theorem modify_samePages (backings : List GpuvaNode) (id : Nat) {change : GpuvaNode → GpuvaNode}
    (keeps : ∀ item, (change item).ipa = item.ipa ∧ (change item).kind = item.kind ∧ (change item).generation = item.generation) :
    SamePages backings (modifyNode backings id change) := by
  intro backing mem
  refine ⟨_,mem_modifyNode.mpr ⟨backing,mem,rfl⟩,?_⟩
  split_ifs
  · exact keeps backing
  exact ⟨rfl,rfl,rfl⟩

theorem SamePages.trans {a b c : List GpuvaNode} (first : SamePages a b) (second : SamePages b c) : SamePages a c := by
  intro backing mem
  obtain ⟨middle,there,ipa,kind,generation⟩ := first backing mem
  obtain ⟨last,here,ipa',kind',generation'⟩ := second middle there
  exact ⟨last,here,ipa'.trans ipa,kind'.trans kind,generation'.trans generation⟩

theorem Names.mono {graph' : GpuvaGraph} (names : Names graph) (pages : SamePages graph.backings graph'.backings)
    (leaves : ∀ leaf ∈ graph'.leaves, leaf ∈ graph.leaves ∨ ∃ backing ∈ graph'.backings,
      backing.ipa = leaf.auxIpa ∧ backing.kind = leaf.kind ∧ backing.generation = leaf.generation) : Names graph' := by
  intro leaf mem
  rcases leaves leaf mem with old | named
  · obtain ⟨backing,there,ipa,kind,generation⟩ := names leaf old
    obtain ⟨backing',here,ipa',kind',generation'⟩ := pages backing there
    exact ⟨backing',here,ipa'.trans ipa,kind'.trans kind,generation'.trans generation⟩
  exact named

variable {l : Option Nat}

theorem Accounts.of_same {graph' : GpuvaGraph} (accounts : Accounts l graph)
    (leaves : graph'.leaves = graph.leaves) (backings : graph'.backings = graph.backings)
    (retained : graph'.retainedLocal = graph.retainedLocal) : Accounts l graph' := by
  refine ⟨leaves ▸ accounts.counted.of_same backings retained,fun leaf mem => ?_⟩
  rw [backings]
  exact accounts.names leaf (leaves ▸ mem)

variable {target : LeafTarget}

theorem Accounts.link (accounts : Accounts l graph) (linked : BackingsLinked graph)
    {table : GpuvaNode} {index : Nat} (mem : backing ∈ graph.backings)
    (names : backing.ipa = target.guestIpa) (kind : backing.kind = target.kind) (room : backing.references ≠ ~~~0)
    (loose : ∀ id, l = some id → id = backing.id) :
    Accounts none (addReference backing (linkLeaf table backing index target graph)) := by
  have counted : Counted (naming graph.leaves) (fun id => l = some id) (linkLeaf table backing index target graph) :=
    accounts.counted.of_same rfl rfl
  have chains : BackingsLinked (linkLeaf table backing index target graph) :=
    ⟨linked.chains,fun item there => (linked.old item there).trans (Nat.lt_succ_self _),linked.gone⟩
  refine ⟨(counted.add chains mem room).imp (fun other _ => ?_) (fun other _ _ isLoose => ?_),
    accounts.names.mono (modify_samePages _ _ (fun _ => ⟨rfl,rfl,rfl⟩)) (fun leaf there => ?_)⟩
  · rw [show (addReference backing (linkLeaf table backing index target graph)).leaves = _ :: graph.leaves from rfl,naming_push,
      names]
  · exact absurd (loose _ isLoose.1) isLoose.2
  rcases mem_cons.mp there with rfl | old
  · exact .inr ⟨_,mem_modifyNode_self mem,names,kind,rfl⟩
  exact .inl old

theorem Accounts.rewrite (accounts : Accounts none graph) (linked : Linked graph)
    (leafIn : leaf ∈ graph.leaves) (mem : backing ∈ graph.backings)
    (names : backing.ipa = target.guestIpa) (kind : backing.kind = target.kind) (same : leaf.auxIpa = target.guestIpa) :
    Accounts none (relinkLeaf leaf backing target graph) := by
  have counted : Counted (naming graph.leaves) (fun id => none = some id) (relinkLeaf leaf backing target graph) :=
    accounts.counted.of_same rfl rfl
  refine ⟨counted.imp (fun other _ => ?_) (fun _ _ _ => .inr),fun item there => ?_⟩
  · have change := naming_modify linked.tree.leafIds leafIn (fun item => { item with
      auxIpa := target.guestIpa, kind := target.kind, generation := backing.generation
      writable := target.writable }) other.ipa
    rw [same] at change
    exact (Nat.add_right_cancel change).symm
  obtain ⟨old,inside,rfl⟩ := mem_modifyNode.mp there
  split_ifs with here
  · exact ⟨backing,mem,names,kind,rfl⟩
  exact accounts.names old inside

theorem Accounts.move (accounts : Accounts l graph) (linked : Linked graph)
    {old : GpuvaNode} (leafIn : leaf ∈ graph.leaves) (mem : backing ∈ graph.backings)
    (oldIn : old ∈ graph.backings) (names : backing.ipa = target.guestIpa) (kind : backing.kind = target.kind)
    (oldNames : old.ipa = leaf.auxIpa) (different : old.id ≠ backing.id) (used : old.references ≠ 0)
    (room : backing.references ≠ ~~~0) (loose : ∀ id, l = some id → id = backing.id) :
    Accounts (some old.id) (relinkLeaf leaf backing target (addReference backing (dropReference old graph))) := by
  have less := naming_without linked.tree.leafIds leafIn
  have counted : Counted (fun ipa => naming (without graph.leaves leaf.id) ipa + one (old.ipa == ipa)) (fun id => l = some id)
      graph := accounts.counted.imp (fun other _ => by rw [oldNames,less]) (fun _ _ _ => .inr)
  have chains : BackingsLinked (dropReference old graph) :=
    ⟨linked.backings.chains.map (fun item => by split_ifs <;> exact ⟨rfl,rfl⟩), fun item there => by
        obtain ⟨other,inside,rfl⟩ := mem_modifyNode.mp there
        split_ifs <;> exact linked.backings.old other inside,
      fun absent => by rw [dropReference,linked.backings.gone absent]; rfl⟩
  have still : backing ∈ (dropReference old graph).backings := mem_modifyNode_other mem (Ne.symm different)
  have added := (counted.drop linked.backings oldIn used).add chains still room
  have moved : Counted _ _ (relinkLeaf leaf backing target (addReference backing (dropReference old graph))) :=
    added.of_same rfl rfl
  refine ⟨moved.imp (fun other _ => ?_) (fun other _ _ isLoose => ?_),fun item there => ?_⟩
  · have change := naming_modify linked.tree.leafIds leafIn (fun item => { item with
      auxIpa := target.guestIpa, kind := target.kind, generation := backing.generation
      writable := target.writable }) other.ipa
    have before := less other.ipa
    rw [names]
    exact Nat.add_right_cancel (by rw [Nat.add_right_comm,before]; exact change.symm)
  · rcases isLoose.1 with isLoose' | isOld
    · exact absurd (loose _ isLoose') isLoose.2
    exact .inr (congrArg some isOld.symm)
  have dropped : SamePages graph.backings (dropReference old graph).backings :=
    modify_samePages _ _ (fun _ => ⟨rfl,rfl,rfl⟩)
  have pages : SamePages graph.backings (addReference backing (dropReference old graph)).backings :=
    dropped.trans (modify_samePages _ _ (fun _ => ⟨rfl,rfl,rfl⟩))
  obtain ⟨other,inside,rfl⟩ := mem_modifyNode.mp there
  split_ifs with here
  · obtain ⟨last,there,ipa,isKind,generation⟩ := pages backing mem
    exact ⟨last,there,ipa.trans names,isKind.trans kind,generation⟩
  obtain ⟨named,there,ipa,isKind,generation⟩ := accounts.names other inside
  obtain ⟨last,there,ipa',isKind',generation'⟩ := pages named there
  exact ⟨last,there,ipa'.trans ipa,isKind'.trans isKind,generation'.trans generation⟩

theorem Accounts.unlink (accounts : Accounts none graph) (linked : Linked graph)
    {table old : GpuvaNode} (leafIn : leaf ∈ graph.leaves) (oldIn : old ∈ graph.backings)
    (oldNames : old.ipa = leaf.auxIpa) (used : old.references ≠ 0) :
    Accounts (some old.id) (dropReference old (unlinkLeaf table leaf leaf.index graph)) := by
  have less := naming_without linked.tree.leafIds leafIn
  have counted : Counted (fun ipa => naming (without graph.leaves leaf.id) ipa + one (old.ipa == ipa)) (fun id => none = some id)
      (unlinkLeaf table leaf leaf.index graph) :=
    (accounts.counted.imp (fun other _ => by rw [oldNames,less]) (fun _ _ _ => .inr)).of_same rfl rfl
  have chains : BackingsLinked (unlinkLeaf table leaf leaf.index graph) :=
    ⟨linked.backings.chains,linked.backings.old,linked.backings.gone⟩
  refine ⟨(counted.drop chains oldIn used).imp (fun _ _ => rfl) (fun other _ _ isLoose => ?_),
    accounts.names.mono (modify_samePages _ _ (fun _ => ⟨rfl,rfl,rfl⟩)) (fun item there => .inl (mem_without.mp there).1)⟩
  rcases isLoose with bad | isOld
  · cases bad
  exact .inr (congrArg some isOld.symm)

theorem Accounts.revoke (accounts : Accounts l graph)
    (linked : BackingsLinked graph) (mem : backing ∈ graph.backings)
    (unused : backing.references = 0 ∨ graph.leaves = []) (loose : ∀ id, l = some id → id = backing.id) :
    Accounts none (releaseGrant backing ⟨graph,registry⟩).graph := by
  refine ⟨((accounts.counted.release linked mem).imp (fun _ _ => rfl) fun other _ _ isLoose =>
    absurd (loose _ isLoose.1) isLoose.2).of_same rfl rfl,fun leaf there => ?_⟩
  obtain ⟨named,inside,ipa,rest⟩ := accounts.names leaf there
  refine ⟨named,mem_without.mpr ⟨inside,fun same => ?_⟩,ipa,rest⟩
  have isNamed := linked.chains.eq_of_serial inside mem same
  subst isNamed
  rcases unused with zero | none
  · have some := naming_pos there
    have count := accounts.counted.references named mem
    rw [toNat_zero] at zero
    rw [ipa] at count
    exact absurd (zero.symm.trans count) (Nat.ne_of_lt some)
  rw [show (releaseGrant named ⟨graph,registry⟩).graph.leaves = graph.leaves from rfl,none] at there
  exact absurd there not_mem_nil

variable {allows : Allows}

private theorem accounts_change (fits : ¬ allows.wraps) {before after : Option Nat × GpuvaState}
    (change : Change allows before after)
    (linked : Linked before.2.graph) (accounts : Accounts before.1 before.2.graph) : Accounts after.1 after.2.graph := by
  have links := fun request answer => linked_sent linked request answer
  have same : ∀ request answer, Accounts before.1 (sent before.2.graph request answer) :=
    fun request answer => accounts.of_same rfl rfl rfl
  cases change with
  | granted request acked present isGrant free unused unkept system framed =>
    refine ⟨(((same _ _).counted.grant (accounts.names.unnamed free) unused unkept).imp (fun _ _ => rfl)
      fun other _ _ isLoose => ?_),accounts.names.mono (fun other there => ⟨other,mem_cons_of_mem _ there,rfl,rfl,rfl⟩)
        (fun _ => .inl)⟩
    rcases isLoose with bad | isNew
    · cases bad
    exact .inr (congrArg some isNew.symm)
  | leafLinked acked present idle tableIn level inside backingIn names kind nonzero free room loose =>
    exact (same _ _).link (links _ _).backings backingIn names kind (room.resolve_right fits) loose
  | leafRewritten acked present idle leafIn backingIn names kind nonzero same' =>
    exact (same _ _).rewrite (links _ _) leafIn backingIn names kind same'
  | leafMoved acked present idle leafIn backingIn oldIn names kind nonzero oldNames different used room loose =>
    exact (same _ _).move (links _ _) leafIn backingIn oldIn names kind oldNames different used
      (room.resolve_right fits) loose
  | leafUnlinked acked present idle tableIn level leafIn under oldIn oldNames used =>
    exact (same _ _).unlink (links _ _) leafIn oldIn oldNames used
  | revoked acked present mem unused loose => exact (same _ _).revoke (links _ _).backings mem unused loose
  | retained mem unused unkept room loose =>
    refine ⟨(accounts.counted.retain linked.backings mem unused unkept room).imp (fun _ _ => rfl)
      fun other _ _ isLoose => absurd (loose _ isLoose.1) isLoose.2,
      accounts.names.mono (modify_samePages _ _ (fun _ => ⟨rfl,rfl,rfl⟩)) (fun _ => .inl)⟩
  | settled fine =>
    exact ⟨accounts.counted.imp (fun _ _ => rfl) fun other there unused isLoose =>
      .inl ((fine other there isLoose).resolve_left (fun nonzero => nonzero unused)),accounts.names⟩
  | frameLinked | frameMapped => exact accounts
  | _ => exact accounts.of_same rfl rfl rfl

/-- The accounts of a graph; once it is uncertain, any one of its backings may be loose. -/
def Accounted (l : Option Nat) (graph : GpuvaGraph) : Prop :=
  ∃ l', Accounts l' graph ∧ (graph.uncertain = false → l' = l)

private theorem accounted_move (fits : ¬ allows.wraps) {before after : Option Nat × GpuvaState}
    (move : Move allows before after) (linked : Linked before.2.graph) (accounted : Accounted before.1 before.2.graph) :
    Accounted after.1 after.2.graph := by
  obtain ⟨l,accounts,same⟩ := accounted
  cases move with
  | quiet quiet =>
    obtain ⟨_,_,_,_,_,_,_,_,rfl,_⟩ := quiet
    exact ⟨l,accounts.of_same rfl rfl rfl,same⟩
  | unmapped => exact ⟨l,accounts,same⟩
  | poisoned certain request answer poisons | lost => exact ⟨l,accounts.of_same rfl rfl rfl,nofun⟩
  | change certain change =>
  have isSame := same certain
  subst isSame
  exact ⟨_,accounts_change fits change linked accounts,fun _ => rfl⟩

theorem accounted_moves (fits : ¬ allows.wraps) {before after : Option Nat × GpuvaState}
    (moves : Moves allows before after) (linked : Linked before.2.graph) (accounted : Accounted before.1 before.2.graph) :
    Accounted after.1 after.2.graph := by
  induction moves with
  | refl => exact accounted
  | tail earlier move ih => exact accounted_move fits move (moves_linked earlier linked) ih

variable {n : Nat}

/-- No call of a run stores a leaf with which a full count of references would wrap. -/
def Fits (env : Fin n → GpuvaEnv) : World n → List (Fin n × Call) → Prop
  | _, [] => True
  | world, entry :: rest => ¬ entry.2.Wraps (world.graphs entry.1) ∧ Fits env (step env world entry) rest
instance decidableFits (env : Fin n → GpuvaEnv) : (world : World n) → (script : List (Fin n × Call)) → Decidable (Fits env world script)
  | _, [] => .isTrue trivial
  | world, entry :: rest =>
    have := decidableFits env (step env world entry) rest
    inferInstanceAs (Decidable (¬ entry.2.Wraps (world.graphs entry.1) ∧ Fits env (step env world entry) rest))
theorem graphInit_accounted (owner : Owner) : Accounted none (graphInit owner) := by
  refine ⟨none,⟨⟨?_,?_,?_,rfl,BitVec.le_def.mpr (Nat.zero_le _)⟩,?_⟩,fun _ => rfl⟩
  all_goals exact fun _ bad => absurd bad not_mem_nil

theorem run_accounted (env : Fin n → GpuvaEnv) {world : World n} (linked : WorldLinked world)
    (accounted : ∀ who, Accounted none (world.graphs who)) (script : List (Fin n × Call)) (fits : Fits env world script) :
    ∀ who, Accounted none ((run env world script).graphs who) := by
  induction script generalizing world with
  | nil => exact accounted
  | cons entry rest ih =>
  have graph : Linked (world.at entry.1).graph := linked.graphs entry.1
  exact ih (step_linked env linked entry)
    (step_graph accounted (accounted_moves fits.1 (step_moves env linked entry) graph (accounted entry.1))) fits.2

structure GraphBooks (graph : GpuvaGraph) : Prop where
  references : ∀ backing ∈ graph.backings, backing.references.toNat = naming graph.leaves backing.ipa
  names : Names graph
  retained : ∀ backing ∈ graph.backings, backing.references = 0 → backing.retained = true
  retainedLocal : graph.retainedLocal.toNat =
    graph.backings.countP (fun backing => backing.references == 0 && backing.retained)
  limit : graph.retainedLocal.toNat ≤ 4096
  index : Chained (fun item : GpuvaNode => item.id) (fun item => item.ipa) bucket graph.backings graph.backingBuckets

/-- The books of the frames; `mappings` are the mappings of the pages. -/
structure FrameBooks (world : World n) (mappings : U64 → Int) : Prop where
  grants : ∀ frame ∈ world.registry.frames, frame.grants.toNat = totalGrants world frame.id
  mapped : ∀ frame ∈ world.registry.frames, (frame.mappings.toNat : Int) = mappings frame.ipa
  used : ∀ frame ∈ world.registry.frames, frame.mappings ≠ 0 ∨ frame.grants ≠ 0
  granted : ∀ id, totalGrants world id ≠ 0 → ∃ frame ∈ world.registry.frames, frame.id = id
  listed : ∀ page, mappings page ≠ 0 → ∃ frame ∈ world.registry.frames, frame.ipa = page
  index : Chained (fun frame : GpuvaFrame => frame.id) (fun frame => frame.ipa) bucket world.registry.frames
    world.registry.frameBuckets

theorem Accounts.books (accounts : Accounts none graph) (linked : Linked graph) : GraphBooks graph := by
  have kept : ∀ backing ∈ graph.backings, backing.references = 0 → backing.retained = true :=
    fun backing mem unused => (accounts.counted.kept backing mem unused).resolve_right nofun
  refine ⟨accounts.counted.references,accounts.names,kept,?_,BitVec.le_def.mp accounts.counted.limit,linked.backings.chains⟩
  rw [accounts.counted.retained]
  refine countP_congr (fun backing mem => ?_)
  rw [Bool.and_eq_true,beq_iff_eq]
  exact ⟨fun isKept => ⟨accounts.counted.idle backing mem isKept,isKept⟩,And.right⟩

/-- The books of every state in which no graph is uncertain, in a run in which no count of references wraps. -/
theorem run_books (env : Fin n → GpuvaEnv) (owners : Fin n → Owner) (script : List (Fin n × Call))
    (fits : Fits env (worldInit owners) script)
    (certain : ∀ who, ((run env (worldInit owners) script).graphs who).uncertain = false) :
    (∀ who, GraphBooks ((run env (worldInit owners) script).graphs who)) ∧
      FrameBooks (run env (worldInit owners) script) (mapped env (worldInit owners) script) := by
  have linked := run_linked env (worldInit_linked owners) script
  have frames := (run_frames env (worldInit_linked owners) (worldInit_frames owners) script).1
  have mappings := runs_mapped env owners script
  refine ⟨fun who => ?_,⟨frames.counted.grants,fun frame mem => (mappings.mappings frame mem).symm,
    linked.registry.used,frames.counted.listed,mappings.listed,linked.registry.chains⟩⟩
  obtain ⟨l,accounts,same⟩ := run_accounted env (worldInit_linked owners) (fun who => graphInit_accounted (owners who)) script
    fits who
  rw [same (certain who)] at accounts
  exact accounts.books (linked.graphs who)

theorem mapOnePage_fits : Fits (fun _ => willing) (worldInit oneOwner) mapOnePage := by decide +kernel
theorem remapPage_fits : Fits (fun _ => willing) (worldInit oneOwner) remapPage := by decide +kernel

theorem run_books_remapped :
    (∃ frame ∈ (willingRun remapPage).registry.frames, frame.mappings = 1 ∧ frame.grants = 1) ∧
      (∀ who, GraphBooks ((willingRun remapPage).graphs who)) ∧
      FrameBooks (willingRun remapPage) (mapped (fun _ => willing) (worldInit oneOwner) remapPage) :=
  ⟨by decide +kernel,run_books (fun _ => willing) oneOwner remapPage remapPage_fits (by decide +kernel)⟩

end WindowsOnM1.GpuvaAccounts
