import WindowsOnM1.GpuvaB1Roots

/-!
A root is built completely or not at all. While it is built nothing is removed, so a build
that fails leaves the acknowledged creations in its record, and the undo behind it takes
them back from the last kind to the first.
-/
namespace WindowsOnM1.GpuvaB1
open CountedLoop List

/-- A root that is being built: the requests so far were creations. -/
structure Growing (input : RootInput) (world : World) : Prop where
  booked : Booked world
  input : world.root.input = input
  creations : ∀ exchange ∈ world.trace, exchange.request.creates = true

structure Stage (created : Bool) (tables parents : Nat) (pages : List Page) (root : Root) : Prop where
  created : root.created = created
  tables : root.tableCount = tables
  parents : root.parentCount = parents
  mapped : root.mapped = pages
  granted : ∀ page ∈ pages, alreadyGranted root page.guestIpa = true

/-- A root that is built up to some stage by requests that all came back. -/
structure Grown (input : RootInput) (stage : Root → Prop) (world : World) : Prop where
  growing : Growing input world
  certain : world.root.uncertain = false
  stage : stage world.root

theorem ends_after {first : Bool × World} {next : World → Bool × World} {m succeeded failed : World → Prop}
    (one : Ends m failed first) (two : ∀ world, m world → Ends succeeded failed (next world)) :
    Ends succeeded failed (after first next) := by
  obtain ⟨done,left⟩ := first
  cases done with
  | false => exact ⟨nofun,one.2⟩
  | true => exact two left (one.1 rfl)

theorem Grown.create {input : RootInput} {stage stage' : Root → Prop} {world : World} (grown : Grown input stage world) {q : Request}
    {update : Root → Root} (fits : Fits world.root q update) (creates : q.creates = true) (keeps : (update world.root).input = world.root.input)
    (next : ∀ lastStatus, stage' ((update world.root).noted lastStatus world.root.cleanupStatus false)) (broker : Broker) :
    Ends (Grown input stage') (Growing input) (andThen (request broker q world) update) := by
  obtain ⟨exchange,asked⟩ := grown.growing.booked.ask grown.certain fits broker
  have creations : ∀ other ∈ (andThen (request broker q world) update).2.trace, other.request.creates = true := by
    intro other mem
    rw [asked.trace,mem_append,mem_singleton] at mem
    rcases mem with earlier | rfl
    · exact grown.growing.creations other earlier
    rw [asked.request,stamp_creates,creates]
  refine ⟨fun done => ?_,fun refused => ?_⟩
  · obtain ⟨lastStatus,same⟩ := asked.taken done
    refine ⟨⟨asked.booked,?_,creations⟩,?_,?_⟩
    · rw [same]
      exact keeps.trans grown.growing.input
    · rw [same]
      rfl
    rw [same]
    exact next lastStatus
  obtain ⟨lastStatus,uncertain,same⟩ := asked.kept refused
  refine ⟨asked.booked,?_,creations⟩
  rw [same]
  exact grown.growing.input

private theorem inputValid_tables {input : RootInput} {pages : List Page} (valid : inputValid input pages = true) {i : Nat} (below : i < 4) :
    childTable input i ≠ 0 := by
  simp only [inputValid,Bool.and_eq_true,all_eq_true] at valid
  have table : childTable input i ∈ [input.rootIpa,input.l1Ipa,input.backendL2Ipa,input.aliasL2Ipa,input.outputL2Ipa] := by
    obtain rfl | rfl | rfl | rfl : i = 0 ∨ i = 1 ∨ i = 2 ∨ i = 3 := by omega
    all_goals simp [childTable]
  exact bne_iff_ne.mp (valid.1.2 _ table).1

section
variable {input : RootInput} {world : World} (broker : Broker)

private theorem create_grows (grown : Grown input (Stage false 0 0 []) world) :
    Ends (Grown input (Stage true 0 0 [])) (Growing input)
      (andThen (request broker { command := .create, tableIpa := input.rootIpa, flags := input.paging } world)
        (fun root => { root with created := true })) := by
  have stage := grown.stage
  refine grown.create (fits_creation rfl ?_ { grown.growing.booked with }) rfl rfl
    (fun _ => ⟨rfl,stage.tables,stage.parents,stage.mapped,nofun⟩) broker
  show (Root.parts { world.root with created := true } .root).map _ = (Root.parts world.root .root).map _ ++ [_]
  simp [Root.parts,stage.created,grown.growing.input]

variable {i : Nat}

private theorem table_grows (below : i < 4) (grown : Grown input (Stage true i 0 []) world) :
    Ends (Grown input (Stage true (i + 1) 0 [])) (Growing input)
      (andThen (table broker i true world) (fun root => { root with tableCount := root.tableCount + 1 })) := by
  have stage := grown.stage
  simp only [table,if_neg (show ¬4 ≤ i by omega)]
  refine grown.create (fits_creation rfl ?_ { grown.growing.booked with tables := ?_ }) rfl rfl (fun _ => ⟨stage.created,?_,stage.parents,stage.mapped,forall_mem_nil _⟩) broker
  · show ((range (world.root.tableCount + 1)).map _).map _ = ((range world.root.tableCount).map _).map _ ++ [_]
    simp [range_succ,stage.tables]
  · rw [stage.tables]
    exact below
  show world.root.tableCount + 1 = i + 1
  rw [stage.tables]

private theorem parent_grows (below : i < 4) (linked : childTable input i ≠ 0) (grown : Grown input (Stage true 4 i []) world) :
    Ends (Grown input (Stage true 4 (i + 1) [])) (Growing input)
      (andThen (parent broker i true world) (fun root => { root with parentCount := root.parentCount + 1 })) := by
  have stage := grown.stage
  simp only [parent,if_neg (show ¬4 ≤ i by omega)]
  refine grown.create (fits_creation ?_ ?_ { grown.growing.booked with parents := ?_ }) ?_ rfl (fun _ => ⟨stage.created,stage.tables,?_,stage.mapped,forall_mem_nil _⟩) broker
  · simpa [parentRequest,Request.creates,grown.growing.input] using linked
  · show ((range (world.root.parentCount + 1)).map _).map _ = ((range world.root.parentCount).map _).map _ ++ [_]
    simp [range_succ,stage.parents]
  · rw [stage.parents]
    exact below
  · simpa [parentRequest,Request.creates,grown.growing.input] using linked
  show world.root.parentCount + 1 = i + 1
  rw [stage.parents]

/-- A page that is granted, and what is mapped already. -/
structure Granted (input : RootInput) (pages : List Page) (page : Page) (root : Root) : Prop where
  stage : Stage true 4 4 pages root
  granted : alreadyGranted root page.guestIpa = true
private theorem alreadyGranted_append {root : Root} {g : Grant} {ipa : U64} (granted : alreadyGranted root ipa = true) :
    alreadyGranted { root with grants := root.grants ++ [g] } ipa = true := by
  simp only [alreadyGranted,any_append] at granted ⊢
  simp [granted]

variable {page : Page} {pages : List Page}

private theorem grant_grows {generation : U64} (grown : Grown input (Stage true 4 4 pages) world) :
    Ends (Grown input (Granted input pages page)) (Growing input)
      (andThen (grant broker ⟨page.guestIpa,generation,page.shared⟩ true world)
        (fun root => { root with grants := root.grants ++ [⟨page.guestIpa,generation,page.shared⟩] })) := by
  have stage := grown.stage
  have kind (shared : U32) : (grantRequest ⟨page.guestIpa,generation,shared⟩ true).kind = .grant ∧
      (grantRequest ⟨page.guestIpa,generation,shared⟩ true).creates = true := by
    by_cases none : shared ≠ 0
    · simp only [grantRequest,Request.kind,Request.creates,if_pos none,if_true,and_self]
    simp only [grantRequest,Request.kind,Request.creates,if_neg none,if_true,and_self]
  refine grown.create (fits_creation (kind page.shared).2 ?_ { grown.growing.booked with others := ?_ }) (kind page.shared).2 rfl
    (fun _ => ⟨⟨stage.created,stage.tables,stage.parents,stage.mapped,fun other mem =>
      alreadyGranted_append (stage.granted other mem)⟩,?_⟩) broker
  · rw [(kind page.shared).1]
    show ((world.root.grants ++ [_]).map _).map _ = (world.root.grants.map _).map _ ++ [_]
    simp
  · intro other different
    rw [(kind page.shared).1] at different
    cases other with
    | grant => exact absurd rfl different
    | _ => rfl
  show alreadyGranted { world.root with grants := world.root.grants ++ [⟨page.guestIpa,generation,page.shared⟩] } page.guestIpa = true
  simp [alreadyGranted]

private theorem leaf_grows (grown : Grown input (Granted input pages page) world) :
    Ends (Grown input (Stage true 4 4 (pages ++ [page]))) (Growing input)
      (andThen (leaf broker page true world) (fun root => { root with mapped := root.mapped ++ [page] })) := by
  have stage := grown.stage.stage
  unfold leaf
  split
  · exact ⟨nofun,fun _ => grown.growing⟩
  rename_i placed
  refine grown.create (fits_creation rfl ?_ { grown.growing.booked with placed := ?_ }) rfl rfl
    (fun _ => ⟨stage.created,stage.tables,stage.parents,?_,?_⟩) broker
  · show ((world.root.mapped ++ [page]).map _).map _ = (world.root.mapped.map _).map _ ++ [_]
    simp
  · intro other mem
    rcases mem_append.mp mem with earlier | here
    · exact grown.growing.booked.placed other earlier
    rw [mem_singleton.mp here]
    exact Bool.not_eq_false _ ▸ placed
  · show world.root.mapped ++ [page] = pages ++ [page]
    rw [stage.mapped]
  intro other mem
  rcases mem_append.mp mem with earlier | here
  · exact stage.granted other earlier
  rw [mem_singleton.mp here]
  exact grown.stage.granted

private theorem buildPage_grows (grown : Grown input (Stage true 4 4 pages) world) :
    Ends (Grown input (Stage true 4 4 (pages ++ [page]))) (Growing input) (buildPage broker input page world) := by
  unfold buildPage
  dsimp only
  split
  · exact ⟨nofun,fun _ => grown.growing⟩
  refine ends_after (m := Grown input (Granted input pages page)) ?_ (fun world grown => leaf_grows broker grown)
  split
  · rename_i granted
    exact ⟨fun _ => ⟨grown.growing,grown.certain,grown.stage,granted⟩,nofun⟩
  split
  · exact ⟨nofun,fun _ => grown.growing⟩
  exact grant_grows broker grown

private theorem buildPages_grows {f : List Page} (rest : List Page) (grown : Grown input (Stage true 4 4 f) world) :
    Ends (Grown input (Stage true 4 4 (f ++ rest))) (Growing input) (buildPages broker input rest world) := by
  induction rest generalizing f world with
  | nil =>
    rw [append_nil]
    exact ⟨fun _ => grown,nofun⟩
  | cons page rest ih =>
  refine ends_after (buildPage_grows broker grown) (fun world grown => ?_)
  rw [show f ++ page :: rest = (f ++ [page]) ++ rest by simp]
  exact ih grown

private theorem buildParts_grows (valid : inputValid input pages = true) (grown : Grown input (Stage false 0 0 []) world) :
    Ends (Grown input (Stage true 4 4 pages)) (Growing input) (buildParts broker input pages world) := by
  have created := create_grows broker grown
  have tables (world : World) (grown : Grown input (Stage true 0 0 []) world) :
      Ends (Grown input (Stage true 4 0 [])) (Growing input)
        (countLoop (fun i world => andThen (table broker i true world) (fun root => { root with tableCount := root.tableCount + 1 })) 0 4 world) :=
    countLoop_ends _ (fun i => Grown input (Stage true i 0 [])) (Growing input) grown
      (fun i world _ below grown => table_grows broker (by omega) grown)
  have parents (world : World) (grown : Grown input (Stage true 4 0 []) world) :
      Ends (Grown input (Stage true 4 4 [])) (Growing input)
        (countLoop (fun i world => andThen (parent broker i true world) (fun root => { root with parentCount := root.parentCount + 1 })) 0 4 world) :=
    countLoop_ends _ (fun i => Grown input (Stage true 4 i [])) (Growing input) grown
      (fun i world _ below grown => parent_grows broker (by omega) (inputValid_tables valid (by omega)) grown)
  exact ends_after (ends_after (ends_after created tables) parents) (fun world grown => buildPages_grows (f := []) broker pages grown)

end

/-- The requests that were acknowledged. -/
def acked (trace : List Exchange) : List Request := (trace.filter Exchange.acknowledged).map Exchange.request
@[simp] theorem acked_append (trace more : List Exchange) : acked (trace ++ more) = acked trace ++ acked more := by
  simp [acked]

private theorem ledger_creations {trace : List Exchange} (creations : ∀ exchange ∈ trace, exchange.request.creates = true) (kind : Kind) :
    ledger trace kind = (acked trace).filter (fun q => q.kind = kind) := by
  induction trace using reverseRecOn with
  | nil => rfl
  | append_singleton trace exchange ih =>
  have earlier := ih (fun other mem => creations other (mem_append_left _ mem))
  have here : exchange.request.creates = true := creations exchange (mem_append_right _ (mem_singleton_self _))
  rw [ledger_snoc,acked_append,filter_append,← earlier]
  cases answered : exchange.acknowledged with
  | false => simp [settle,acked,answered]
  | true =>
  by_cases same : kind = exchange.request.kind
  · simp [settle,acked,answered,here,same]
  simp [settle,acked,answered,same,Ne.symm same]

theorem named_alike {ι : Type} (input : RootInput) (parts : List ι) (add remove : ι → Request)
    (alike : ∀ part, (stamp input (remove part)).name = (stamp input (add part)).name) :
    (((parts.reverse.map remove).map (stamp input)).map Request.name) =
      (((parts.map add).map (stamp input)).map Request.name).reverse := by
  simp only [map_map,map_reverse]
  exact congrArg reverse (map_congr_left (fun part _ => alike part))

theorem undo_names (root : Root) : root.undoList.map Request.name = (Kind.all.flatMap root.listed).reverse.map Request.name := by
  have leaves := named_alike root.input root.mapped (fun page => leafRequest root.input page true) (fun page => leafRequest root.input page false)
    (fun _ => rfl)
  have grants := named_alike root.input root.grants (fun g => grantRequest g true) (fun g => grantRequest g false)
    (fun g => (grantRequest_name _ g false).trans (grantRequest_name _ g true).symm)
  have parents := named_alike root.input (range root.parentCount) (fun i => parentRequest root.input i true)
    (fun i => parentRequest root.input i false) (fun _ => rfl)
  have tables := named_alike root.input (range root.tableCount) (fun i => tableRequest root.input i true)
    (fun i => tableRequest root.input i false) (fun _ => rfl)
  have created : ((if root.created then [({ command := .destroy } : Request)] else []).map (stamp root.input)).map Request.name =
      (((Root.parts root .root).map (stamp root.input)).map Request.name).reverse := by
    by_cases created : root.created = true
    · simp only [Root.parts,created,if_true]
      rfl
    simp only [Root.parts,created,Bool.false_eq_true,if_false]
    rfl
  simp only [Root.undoList,Root.undoParts,Kind.all,flatMap_cons,flatMap_nil,append_nil,map_append,
    reverse_append,append_assoc,leaves,grants,parents,tables,created]
  simp only [map_reverse]
  rfl

variable {root : Root} {q : Request}

private theorem undo_removes (mem : q ∈ root.undoList) : q.creates = false := by
  simp only [Root.undoList,Root.undoParts,mem_map,mem_append] at mem
  obtain ⟨_,⟨_,_,rfl⟩ | ⟨_,_,rfl⟩ | ⟨_,_,rfl⟩ | ⟨_,_,rfl⟩ | created,rfl⟩ := mem
  · rfl
  · rfl
  · rfl
  · rfl
  split at created
  · rw [mem_singleton.mp created]
    rfl
  cases created

theorem listed_empty (undone : root.undoList = []) (kind : Kind) : root.listed kind = [] := by
  have names := undo_names root
  rw [undone,map_nil,eq_comm,map_eq_nil_iff,reverse_eq_nil_iff,flatMap_eq_nil_iff] at names
  exact names kind (by cases kind <;> decide)

/-- The acknowledged creations are all removed again, those of the last kind first and of each kind the last one first. -/
structure TakenBack (trace : List Exchange) : Prop where
  reversed : ∃ creations removals, acked trace = creations ++ removals ∧ (∀ q ∈ creations, q.creates = true) ∧
    (∀ q ∈ removals, q.creates = false) ∧
    removals.map Request.name = (Kind.all.flatMap (fun kind => creations.filter (fun q => q.kind = kind))).reverse.map Request.name
  nothing : ∀ kind, ledger trace kind = []

variable {input : RootInput} {world : World}

theorem Growing.takenBack {left : World} (growing : Growing input world) (undoes : Undoes world left true)
    (undone : left.root.undoList = []) : TakenBack left.trace where
  reversed := by
    obtain ⟨taken,refused,trace,acknowledged,list,none,_⟩ := undoes.sent
    obtain rfl := none rfl
    rw [undone,append_nil] at list
    have removals : acked taken = world.root.undoList := by
      rw [acked,filter_eq_self.mpr acknowledged,list]
    refine ⟨acked world.trace,world.root.undoList,?_,?_,fun q mem => undo_removes mem,?_⟩
    · rw [trace,append_nil,acked_append,removals]
    · intro q mem
      obtain ⟨exchange,kept,rfl⟩ := mem_map.mp mem
      exact growing.creations exchange (mem_of_mem_filter kept)
    rw [undo_names,← growing.booked.listed,funext (ledger_creations growing.creations)]
  nothing kind := by rw [undoes.booked.listed,listed_empty undone]

theorem Booked.record (booked : Booked world) (lastStatus cleanupStatus : U32) :
    Booked (world.change (fun root => { root with cleanupStatus := cleanupStatus, lastStatus := lastStatus })) :=
  { booked with }

variable (broker : Broker)

theorem destroyRoot_booked (booked : Booked world) : Booked (destroyRoot broker world).2 := by
  cases uncertain : world.root.uncertain with
  | false => exact (destroyRoot_cleans broker booked uncertain).undoes.booked
  | true =>
  unfold destroyRoot
  rw [if_pos uncertain]
  exact booked

private theorem failBuild_takesBack (growing : Growing input world) :
    Booked (failBuild broker world) ∧ ((failBuild broker world).root.uncertain = false → (failBuild broker world).root.cleanupStatus = 0 →
      TakenBack (failBuild broker world).trace) := by
  unfold failBuild
  by_cases uncertain : world.root.uncertain = true
  · rw [if_pos uncertain]
    refine ⟨growing.booked.record _ _,fun certain _ => ?_⟩
    rw [show world.root.uncertain = false from certain] at uncertain
    cases uncertain
  rw [if_neg uncertain]
  have cleaned := destroyRoot_cleans broker growing.booked (Bool.not_eq_true _ ▸ uncertain)
  generalize destroyRoot broker world = result at cleaned
  obtain ⟨done,left⟩ := result
  refine ⟨cleaned.undoes.booked.record _ _,fun certain clean => ?_⟩
  cases done with
  | true =>
    have back : TakenBack left.trace := growing.takenBack cleaned.undoes (cleaned.gone rfl)
    exact back
  | false =>
  have same : left.root.lastStatus = 0 := clean
  rcases cleaned.undoes.refused rfl with unsure | status
  · rw [show left.root.uncertain = false from certain] at unsure
    cases unsure
  exact absurd same status

inductive Call
  | build (input : RootInput) (pages : List Page)
  | destroy
def perform (broker : Broker) (world : World) : Call → World
  | .build input pages => (buildRoot broker input pages world).2
  | .destroy => (destroyRoot broker world).2

/-- A run of builds and undos on one record. -/
def performAll (broker : Broker) (calls : List Call) (world : World) : World := calls.foldl (perform broker) world
def blank : World := ⟨emptyRoot noInput,0,[]⟩

theorem empty_grown (input : RootInput) (asked : Nat) : Grown input (Stage false 0 0 []) ⟨emptyRoot input,asked,[]⟩ where
  growing :=
    { booked :=
        { listed := by
            funext kind
            cases kind <;> rfl
          timely := fun before exchange after is => by simp at is
          unsure := rfl
          placed := fun page mem => by cases mem
          tables := Nat.zero_le _
          parents := Nat.zero_le _ }
      input := rfl
      creations := fun exchange mem => by cases mem }
  certain := rfl
  stage := ⟨rfl,rfl,rfl,rfl,fun page mem => by cases mem⟩

/-- A build that is not refused by its checks leaves a whole root or, where the broker's answers
    leave nothing open, none of it. -/
theorem buildRoot_ends {pages : List Page} (world : World) (valid : inputValid input pages = true) :
    Booked (buildRoot broker input pages world).2 ∧
      ((buildRoot broker input pages world).1 = true → Stage true 4 4 pages (buildRoot broker input pages world).2.root) ∧
      ((buildRoot broker input pages world).1 = false → (buildRoot broker input pages world).2.root.uncertain = false →
        (buildRoot broker input pages world).2.root.cleanupStatus = 0 → TakenBack (buildRoot broker input pages world).2.trace) := by
  have ends := buildParts_grows broker valid (empty_grown input world.asked)
  unfold buildRoot
  rw [if_neg (by simp [valid])]
  generalize buildParts broker input pages { world with root := emptyRoot input, trace := [] } = result at ends
  obtain ⟨done,left⟩ := result
  cases done with
  | true =>
    obtain ⟨growing,_,stage⟩ := ends.1 rfl
    exact ⟨growing.booked,fun _ => stage,nofun⟩
  | false =>
  obtain ⟨booked,back⟩ := failBuild_takesBack broker (ends.2 rfl)
  exact ⟨booked,nofun,fun _ => back⟩

private theorem perform_booked (booked : Booked world) (call : Call) : Booked (perform broker world call) := by
  cases call with
  | destroy => exact destroyRoot_booked broker booked
  | build input pages =>
  show Booked (buildRoot broker input pages world).2
  cases valid : inputValid input pages with
  | true => exact (buildRoot_ends broker world valid).1
  | false =>
  unfold buildRoot
  rw [if_pos valid]
  exact booked

private theorem performAll_booked (calls : List Call) (booked : Booked world) : Booked (performAll broker calls world) := by
  induction calls generalizing world with
  | nil => exact booked
  | cons call calls ih => exact ih (perform_booked broker booked call)

variable {done : Bool}

theorem Undoes.resumes {start left : World} (undoes : Undoes start left done) :
    ∃ more, left.trace = start.trace ++ more ∧ acked more ++ left.root.undoList = start.root.undoList := by
  obtain ⟨taken,refused,trace,acknowledged,list,none,one⟩ := undoes.sent
  refine ⟨taken ++ refused,trace,?_⟩
  have lost : acked refused = [] := by
    cases done with
    | true => rw [none rfl]; rfl
    | false =>
    obtain ⟨exchange,rfl,unanswered,_⟩ := one rfl
    simp [acked,unanswered]
  rw [acked_append,lost,append_nil,acked,filter_eq_self.mpr acknowledged,list]

private theorem destroys_resume (times : Nat) (booked : Booked world) :
    ∃ more, (performAll broker (List.replicate times .destroy) world).trace = world.trace ++ more ∧
      acked more ++ (performAll broker (List.replicate times .destroy) world).root.undoList = world.root.undoList := by
  induction times generalizing world with
  | zero => exact ⟨[],by simp [performAll],by simp [performAll,acked]⟩
  | succ times ih =>
  obtain ⟨more,trace,list⟩ := ih (destroyRoot_booked broker booked)
  have first : ∃ more, (destroyRoot broker world).2.trace = world.trace ++ more ∧
      acked more ++ (destroyRoot broker world).2.root.undoList = world.root.undoList := by
    cases uncertain : world.root.uncertain with
    | false => exact (destroyRoot_cleans broker booked uncertain).undoes.resumes
    | true =>
    unfold destroyRoot
    rw [if_pos uncertain]
    exact ⟨[],by simp,by simp [acked]⟩
  obtain ⟨more',trace',list'⟩ := first
  refine ⟨more' ++ more,?_,?_⟩
  · rw [← append_assoc,← trace']
    exact trace
  rw [acked_append,append_assoc,← list',← list]
  rfl

theorem Undoes.goesOn {start left : World} (undoes : Undoes start left done) (gone : done = true → left.root.undoList = [])
    {rest : List Request} (next : start.root.undoList = q :: rest) :
    ∃ exchange more, left.trace = start.trace ++ exchange :: more ∧ exchange.request = q := by
  obtain ⟨taken,refused,trace,_,list,_,one⟩ := undoes.sent
  rw [next] at list
  cases taken with
  | cons exchange taken =>
    exact ⟨exchange,taken ++ refused,trace,head_eq_of_cons_eq list⟩
  | nil =>
  have same : left.root.undoList = q :: rest := list
  cases done with
  | true =>
    rw [gone rfl] at same
    cases same
  | false =>
  obtain ⟨exchange,rfl,_,head⟩ := one rfl
  rw [same,List.head?_cons,Option.some.injEq] at head
  exact ⟨exchange,[],trace,head.symm⟩

/-- A root is built completely or not at all. In any run of builds and undos, and for any answers: the record is what the
    broker holds, now and when any request was sent; no request follows an answer that leaves something open; a build that
    begins leaves a whole root or, where nothing is left open and the clean-up succeeded, takes back what was acknowledged;
    an undo that was refused goes on where it stopped, and repeats nothing. -/
theorem root_whole_or_none (broker : Broker) (calls : List Call) : let world := performAll broker calls blank
    (ledger world.trace = world.root.listed ∧
      (∀ before exchange after, world.trace = before ++ exchange :: after → Timely before exchange)) ∧
    (∀ input pages,
      (inputValid input pages = false → buildRoot broker input pages world = (false,world)) ∧
      (inputValid input pages = true →
        ((buildRoot broker input pages world).1 = true → Stage true 4 4 pages (buildRoot broker input pages world).2.root) ∧
        ((buildRoot broker input pages world).1 = false → (buildRoot broker input pages world).2.root.uncertain = false →
          (buildRoot broker input pages world).2.root.cleanupStatus = 0 → TakenBack (buildRoot broker input pages world).2.trace))) ∧
    (world.root.uncertain = true → destroyRoot broker world = (false,world)) ∧
    (world.root.uncertain = false →
      ((destroyRoot broker world).1 = true → ∀ kind, ledger (destroyRoot broker world).2.trace kind = []) ∧
      (∀ q rest, world.root.undoList = q :: rest →
        ∃ exchange more, (destroyRoot broker world).2.trace = world.trace ++ exchange :: more ∧ exchange.request = q)) ∧
    (∀ times, ∃ more, (performAll broker (replicate times .destroy) world).trace = world.trace ++ more ∧
      acked more ++ (performAll broker (replicate times .destroy) world).root.undoList = world.root.undoList) := by
  intro world
  have booked : Booked world := performAll_booked broker calls (empty_grown noInput 0).growing.booked
  refine ⟨⟨booked.listed,booked.timely⟩,fun input pages => ⟨?_,?_⟩,?_,?_,fun times => destroys_resume broker times booked⟩
  · intro refused
    unfold buildRoot
    rw [if_pos refused]
  · intro valid
    exact (buildRoot_ends broker world valid).2
  · intro uncertain
    unfold destroyRoot
    rw [if_pos uncertain]
  intro certain
  have cleaned := destroyRoot_cleans broker booked certain
  refine ⟨fun done kind => ?_,fun q rest next => cleaned.undoes.goesOn cleaned.gone next⟩
  rw [cleaned.undoes.booked.listed,listed_empty (cleaned.gone done)]

end WindowsOnM1.GpuvaB1
