import WindowsOnM1.GpuvaB1Model

/-!
The record of a root against the acknowledgements of the broker. Every request is sent when
the record says what the broker holds, a removal names the last thing of its kind, and an
undo that was refused goes on where it stopped.
-/
namespace WindowsOnM1.GpuvaB1
open DrainLoop List

/-- The five kinds of parts of a root, in the order in which they are created. -/
inductive Kind
  | root | table | parent | grant | leaf
deriving DecidableEq
def Kind.all : List Kind := [.root,.table,.parent,.grant,.leaf]

namespace Request

def kind (q : Request) : Kind :=
  match q.command with
  | .create | .destroy => .root
  | .registerTable | .revokeTable => .table
  | .updateParent => .parent
  | .registerBacking | .registerSharedBacking | .revokeBacking => .grant
  | .updateLeaf => .leaf

/-- Whether a request asks for a part; otherwise it asks for its removal. -/
def creates (q : Request) : Bool :=
  match q.command with
  | .create | .registerTable | .registerBacking | .registerSharedBacking => true
  | .updateParent => q.auxIpa != 0
  | .updateLeaf => q.validMask != 0
  | .destroy | .revokeTable | .revokeBacking => false

/-- The part that a request is about. -/
def name (q : Request) : Kind × U64 × U64 × U32 :=
  match q.kind with
  | .root => (.root,q.processId,q.processGeneration,0)
  | .table => (.table,q.auxIpa,0,q.index)
  | .parent => (.parent,q.tableIpa,0,q.index)
  | .grant => (.grant,q.auxIpa,q.allocationGeneration,0)
  | .leaf => (.leaf,q.tableIpa,0,q.index)

end Request

/-- A list without the last of the requests that are about some part. -/
def eraseLast (part : Kind × U64 × U64 × U32) (held : List Request) : List Request :=
  (held.reverse.eraseP (fun q => q.name == part)).reverse

/-- The creations that are in force, of each kind, behind one exchange. -/
def settle (held : Kind → List Request) (exchange : Exchange) : Kind → List Request :=
  let q := exchange.request
  if exchange.acknowledged = false then held
  else fun kind =>
    if kind ≠ q.kind then held kind else if q.creates = true then held kind ++ [q] else eraseLast q.name (held kind)

/-- The creations that the broker has acknowledged and whose removal it has not. -/
def ledger (trace : List Exchange) : Kind → List Request := trace.foldl settle (fun _ => [])
theorem ledger_snoc (trace : List Exchange) (exchange : Exchange) : ledger (trace ++ [exchange]) = settle (ledger trace) exchange := by
  simp [ledger]
private theorem eraseLast_snoc {part : Kind × U64 × U64 × U32} {q : Request} (held : List Request) (names : q.name = part) :
    eraseLast part (held ++ [q]) = held := by
  simp [eraseLast,names]

/-- The creations that the record of a root stands for. -/
def Root.parts (root : Root) : Kind → List Request
  | .root => if root.created then [{ command := .create, tableIpa := root.input.rootIpa, flags := root.input.paging }] else []
  | .table => (List.range root.tableCount).map (fun i => tableRequest root.input i true)
  | .parent => (List.range root.parentCount).map (fun i => parentRequest root.input i true)
  | .grant => root.grants.map (fun g => grantRequest g true)
  | .leaf => root.mapped.map (fun page => leafRequest root.input page true)

def Root.listed (root : Root) (kind : Kind) : List Request := (root.parts kind).map (stamp root.input)

/-- The removals that undo a root, in their order. -/
def Root.undoParts (root : Root) : List Request :=
  root.mapped.reverse.map (fun page => leafRequest root.input page false) ++
    (root.grants.reverse.map (fun g => grantRequest g false) ++
      ((List.range root.parentCount).reverse.map (fun i => parentRequest root.input i false) ++
        ((List.range root.tableCount).reverse.map (fun i => tableRequest root.input i false) ++
          if root.created then [{ command := .destroy }] else [])))

def Root.undoList (root : Root) : List Request := root.undoParts.map (stamp root.input)

/-- A root with other words about the last requests. -/
def Root.noted (root : Root) (lastStatus cleanupStatus : U32) (uncertain : Bool) : Root :=
  { root with lastStatus := lastStatus, cleanupStatus := cleanupStatus, uncertain := uncertain }

/-- A request is sent at a time when the record is what the broker holds. -/
structure Timely (before : List Exchange) (exchange : Exchange) : Prop where
  listed : ledger before = exchange.before.listed
  certain : exchange.before.uncertain = false
  sure : before.any Exchange.unsure = false
  last : exchange.request.creates = false →
    ∃ creation, (ledger before exchange.request.kind).getLast? = some creation ∧ creation.name = exchange.request.name

/-- The record of a root that is what the broker holds, now and whenever a request was sent. -/
structure Booked (world : World) : Prop where
  listed : ledger world.trace = world.root.listed
  timely : ∀ before exchange after, world.trace = before ++ exchange :: after → Timely before exchange
  unsure : world.root.uncertain = world.trace.any Exchange.unsure
  placed : ∀ page ∈ world.root.mapped, leafPlaced world.root.input page = true
  tables : world.root.tableCount ≤ 4
  parents : world.root.parentCount ≤ 4

structure Sent (start : World) (q : Request) (result : Bool × World) (exchange : Exchange) : Prop where
  trace : result.2.trace = start.trace ++ [exchange]
  request : exchange.request = stamp start.root.input q
  before : exchange.before = start.root
  answered : exchange.acknowledged = result.1
  root : result.2.root = start.root.noted result.2.root.lastStatus start.root.cleanupStatus result.2.root.uncertain
  refused : result.1 = false → result.2.root.uncertain = true ∨ result.2.root.lastStatus ≠ 0
  unsure : result.2.root.uncertain = (start.root.uncertain || exchange.unsure)
  certain : result.1 = true → result.2.root.uncertain = start.root.uncertain

private theorem request_sent (broker : Broker) (q : Request) (world : World) :
    ∃ exchange, Sent world q (request broker q world) exchange := by
  refine ⟨⟨stamp world.root.input q,broker world.asked,world.root⟩,?_⟩
  unfold request
  cases answer : broker world.asked with
  | none =>
    exact ⟨rfl,rfl,rfl,rfl,rfl,fun _ => .inl rfl,(Bool.or_true _).symm,nofun⟩
  | some r =>
  refine ⟨rfl,rfl,rfl,?_,rfl,fun refused => ?_,?_,fun accepted => ?_⟩
  · obtain ⟨status,flags⟩ := r
    rw [Bool.eq_iff_iff]
    simp [Exchange.acknowledged]
  · have left : r.status ≠ 0 ∨ r.flags ≠ 0 := by
      by_contra none
      simp only [not_or,not_not] at none
      simp [none.1,none.2] at refused
    rcases left with status | flags
    · exact .inr status
    exact .inl (if_pos (.inl flags))
  · show (if r.flags ≠ 0 ∨ r.status = 6 then true else world.root.uncertain) = (world.root.uncertain || (r.flags != 0 || r.status == 6))
    have same : (r.flags != 0 || r.status == 6) = decide (r.flags ≠ 0 ∨ r.status = 6) := by
      rw [Bool.eq_iff_iff]
      simp
    rw [same]
    split
    · rename_i left
      rw [decide_eq_true left,Bool.or_true]
    rename_i left
    rw [decide_eq_false left,Bool.or_false]
  obtain ⟨status,flags⟩ : r.status = 0 ∧ r.flags = 0 := by simpa using accepted
  exact if_neg (by rw [status,flags]; decide)

@[simp] theorem stamp_kind (input : RootInput) (q : Request) : (stamp input q).kind = q.kind := rfl
@[simp] theorem stamp_creates (input : RootInput) (q : Request) : (stamp input q).creates = q.creates := rfl
@[simp] theorem noted_listed (root : Root) (lastStatus cleanupStatus : U32) (uncertain : Bool) :
    (root.noted lastStatus cleanupStatus uncertain).listed = root.listed := rfl
@[simp] theorem noted_undoList (root : Root) (lastStatus cleanupStatus : U32) (uncertain : Bool) :
    (root.noted lastStatus cleanupStatus uncertain).undoList = root.undoList := rfl

/-- What the broker holds behind an acknowledged request. -/
def settled (root : Root) (q : Request) : Kind → List Request :=
  settle root.listed ⟨stamp root.input q,some ⟨0,0⟩,root⟩

/-- A request may be sent: what it removes is the last part of its kind, and the record that
    is written when it is acknowledged is what the broker holds then. -/
structure Fits (root : Root) (q : Request) (update : Root → Root) : Prop where
  natural : ∀ (root : Root) lastStatus cleanupStatus uncertain,
    update (root.noted lastStatus cleanupStatus uncertain) = (update root).noted lastStatus cleanupStatus uncertain
  last : q.creates = false →
    ∃ creation, (root.listed q.kind).getLast? = some creation ∧ creation.name = (stamp root.input q).name
  effect : (update root).listed = settled root q
  placed : ∀ page ∈ (update root).mapped, leafPlaced (update root).input page = true
  tables : (update root).tableCount ≤ 4
  parents : (update root).parentCount ≤ 4

/-- A request, and the record behind it. -/
structure Asked (start : World) (q : Request) (update : Root → Root) (result : Bool × World) (exchange : Exchange) : Prop where
  booked : Booked result.2
  trace : result.2.trace = start.trace ++ [exchange]
  request : exchange.request = stamp start.root.input q
  answered : exchange.acknowledged = result.1
  taken : result.1 = true → ∃ lastStatus, result.2.root = (update start.root).noted lastStatus start.root.cleanupStatus false
  refused : result.1 = false → result.2.root.uncertain = true ∨ result.2.root.lastStatus ≠ 0
  kept : result.1 = false → ∃ lastStatus uncertain, result.2.root = start.root.noted lastStatus start.root.cleanupStatus uncertain

theorem Booked.ask {world : World} (booked : Booked world) (certain : world.root.uncertain = false) {q : Request}
    {update : Root → Root} (fits : Fits world.root q update) (broker : Broker) :
    ∃ exchange, Asked world q update (andThen (GpuvaB1.request broker q world) update) exchange := by
  obtain ⟨exchange,sent⟩ := request_sent broker q world
  refine ⟨exchange,?_⟩
  have timely : ∀ before other after, world.trace ++ [exchange] = before ++ other :: after → Timely before other := by
    intro before other after is
    rcases eq_nil_or_concat after with rfl | ⟨rest,last,rfl⟩
    · obtain ⟨rfl,same⟩ := append_inj' is rfl
      obtain rfl : exchange = other := head_eq_of_cons_eq same
      refine ⟨?_,?_,?_,fun removal => ?_⟩
      · rw [sent.before,booked.listed]
      · rw [sent.before,certain]
      · rw [← booked.unsure,certain]
      rw [sent.request,stamp_creates] at removal
      rw [sent.request,stamp_kind,booked.listed]
      exact fits.last removal
    rw [concat_eq_append,← cons_append,← append_assoc] at is
    obtain ⟨earlier,_⟩ := append_inj' is rfl
    exact booked.timely before other rest earlier
  generalize GpuvaB1.request broker q world = result at sent
  obtain ⟨done,left⟩ := result
  have root := sent.root
  have trace := sent.trace
  have unsure : left.root.uncertain = left.trace.any Exchange.unsure := by
    rw [trace,any_append,← booked.unsure,sent.unsure]
    simp
  cases done with
  | false =>
    refine ⟨⟨?_,?_,unsure,?_,?_,?_⟩,trace,sent.request,sent.answered,nofun,sent.refused,fun _ => ⟨_,_,root⟩⟩
    · show ledger left.trace = left.root.listed
      have none : exchange.acknowledged = false := sent.answered
      rw [trace,ledger_snoc,root,noted_listed,← booked.listed]
      simp [settle,none]
    · intro before other after is
      exact timely before other after (trace.symm.trans is)
    · show ∀ page ∈ left.root.mapped, leafPlaced left.root.input page = true
      rw [root]
      exact booked.placed
    · show left.root.tableCount ≤ 4
      rw [root]
      exact booked.tables
    show left.root.parentCount ≤ 4
    rw [root]
    exact booked.parents
  | true =>
  have same := sent.certain rfl
  rw [certain] at same
  have next : (update left.root) = (update world.root).noted left.root.lastStatus world.root.cleanupStatus false := by
    rw [root,fits.natural,same]
    rfl
  refine ⟨⟨?_,?_,?_,?_,?_,?_⟩,trace,sent.request,sent.answered,fun _ => ⟨_,next⟩,nofun,nofun⟩
  · show ledger left.trace = (update left.root).listed
    have some : exchange.acknowledged = true := sent.answered
    rw [trace,ledger_snoc,next,noted_listed,fits.effect,booked.listed]
    simp only [settled,settle,some,sent.request]
    rfl
  · intro before other after is
    exact timely before other after (trace.symm.trans is)
  · show (update left.root).uncertain = left.trace.any Exchange.unsure
    rw [next,← unsure,same]
    rfl
  · show ∀ page ∈ (update left.root).mapped, leafPlaced (update left.root).input page = true
    rw [next]
    exact fits.placed
  · show (update left.root).tableCount ≤ 4
    rw [next]
    exact fits.tables
  show (update left.root).parentCount ≤ 4
  rw [next]
  exact fits.parents

section
variable {root : Root} {q : Request} {update : Root → Root}

/-- What an update leaves alone: the parts of the other kinds and the bounds of the record. -/
structure Minds (root : Root) (q : Request) (update : Root → Root) : Prop where
  placed : ∀ page ∈ (update root).mapped, leafPlaced (update root).input page = true
  tables : (update root).tableCount ≤ 4
  parents : (update root).parentCount ≤ 4
  others : ∀ kind, kind ≠ q.kind → (update root).listed kind = root.listed kind := by
    intro kind other; cases kind <;> first | rfl | exact absurd rfl other
  natural : ∀ (root : Root) lastStatus cleanupStatus uncertain,
    update (root.noted lastStatus cleanupStatus uncertain) = (update root).noted lastStatus cleanupStatus uncertain := by intros; rfl

theorem Minds.fits (minds : Minds root q update)
    (last : q.creates = false → ∃ creation, (root.listed q.kind).getLast? = some creation ∧ creation.name = (stamp root.input q).name)
    (here : (update root).listed q.kind = settled root q q.kind) : Fits root q update := by
  refine { minds with last := last, effect := funext fun kind => ?_ }
  by_cases same : kind = q.kind
  · subst same
    exact here
  simp [settled,settle,Exchange.acknowledged,same,minds.others kind same]

theorem fits_creation (creates : q.creates = true) (here : (update root).listed q.kind = root.listed q.kind ++ [stamp root.input q])
    (minds : Minds root q update) : Fits root q update := by
  refine minds.fits (fun bad => ?_) (by simp [settled,settle,Exchange.acknowledged,creates,here])
  rw [creates] at bad
  cases bad

theorem fits_removal (creation : Request) (removes : q.creates = false)
    (here : root.listed q.kind = (update root).listed q.kind ++ [creation])
    (names : creation.name = (stamp root.input q).name) (minds : Minds root q update) : Fits root q update :=
  minds.fits (fun _ => ⟨creation,by rw [here,getLast?_concat],names⟩)
    (by simp [settled,settle,Exchange.acknowledged,removes,here,eraseLast_snoc _ names])

end

/-- An undo, or a part of it: the removals are sent in the order of the list, each once the one
    before it is acknowledged, and those that are left are the removals of the record. -/
structure Undoes (start left : World) (done : Bool) : Prop where
  booked : Booked left
  sent : ∃ taken refused, left.trace = start.trace ++ (taken ++ refused) ∧ (∀ exchange ∈ taken, exchange.acknowledged = true) ∧
    taken.map Exchange.request ++ left.root.undoList = start.root.undoList ∧
    (done = true → refused = []) ∧
    (done = false → ∃ exchange, refused = [exchange] ∧ exchange.acknowledged = false ∧
      left.root.undoList.head? = some exchange.request)
  certain : done = true → left.root.uncertain = false
  refused : done = false → left.root.uncertain = true ∨ left.root.lastStatus ≠ 0

variable {world : World}

theorem Undoes.refl (booked : Booked world) (certain : world.root.uncertain = false) : Undoes world world true where
  booked := booked
  sent := ⟨[],[],by simp,by simp,by simp,fun _ => rfl,nofun⟩
  certain _ := certain
  refused bad := by cases bad

theorem Undoes.trans {start middle left : World} {done : Bool} (first : Undoes start middle true)
    (second : Undoes middle left done) : Undoes start left done := by
  obtain ⟨taken,none,trace,acknowledged,list,finished,_⟩ := first.sent
  obtain rfl := finished rfl
  obtain ⟨taken',refused,trace',acknowledged',list',finished',stopped⟩ := second.sent
  refine { second with sent := ⟨taken ++ taken',refused,?_,?_,?_,finished',stopped⟩ }
  · rw [trace',trace,append_nil,append_assoc,append_assoc]
  · intro exchange mem
    exact (mem_append.mp mem).elim (acknowledged exchange) (acknowledged' exchange)
  rw [map_append,append_assoc,list',list]

theorem Booked.undo (booked : Booked world) (certain : world.root.uncertain = false) {q : Request}
    {update : Root → Root} (fits : Fits world.root q update)
    (next : world.root.undoList = stamp world.root.input q :: (update world.root).undoList) (broker : Broker) :
    Undoes world (andThen (request broker q world) update).2 (andThen (request broker q world) update).1 ∧
      ((andThen (request broker q world) update).1 = true → ∃ lastStatus,
        (andThen (request broker q world) update).2.root = (update world.root).noted lastStatus world.root.cleanupStatus false) := by
  obtain ⟨exchange,asked⟩ := booked.ask certain fits broker
  generalize andThen (request broker q world) update = result at asked
  obtain ⟨done,left⟩ := result
  refine ⟨?_,asked.taken⟩
  cases done with
  | false =>
    obtain ⟨lastStatus,uncertain,same⟩ := asked.kept rfl
    refine ⟨asked.booked,⟨[],[exchange],asked.trace,by simp,?_,nofun,fun _ =>
      ⟨exchange,rfl,asked.answered,?_⟩⟩,nofun,asked.refused⟩
    · show [] ++ left.root.undoList = _
      rw [same,noted_undoList,nil_append]
    rw [same,noted_undoList,next,asked.request]
    rfl
  | true =>
  obtain ⟨lastStatus,same⟩ := asked.taken rfl
  refine ⟨asked.booked,⟨[exchange],[],asked.trace,?_,?_,fun _ => rfl,nofun⟩,fun _ => ?_,nofun⟩
  · simpa using asked.answered
  · show [exchange.request] ++ left.root.undoList = _
    rw [same,noted_undoList,next,asked.request]
    rfl
  rw [same]
  rfl

variable {ι : Type}

private theorem drain_undoes (pick : World → Option ι) (clear : ι → World → Bool × World) (good : World → Prop)
    (size : World → Nat) (fine : ∀ world, good world → Booked world ∧ world.root.uncertain = false)
    (empty : ∀ world, size world = 0 → pick world = none) (one : ∀ world entry, good world → pick world = some entry →
      Undoes world (clear entry world).2 (clear entry world).1 ∧
        ((clear entry world).1 = true → good (clear entry world).2 ∧ size (clear entry world).2 < size world))
    (turns : Nat) (start : good world) (enough : size world ≤ turns) :
    Undoes world (drain pick clear turns world).2 (drain pick clear turns world).1 ∧
      ((drain pick clear turns world).1 = true →
        good (drain pick clear turns world).2 ∧ pick (drain pick clear turns world).2 = none) := by
  induction turns generalizing world with
  | zero => exact ⟨.refl (fine world start).1 (fine world start).2,fun _ => ⟨start,empty world (Nat.le_zero.mp enough)⟩⟩
  | succ turns ih =>
  unfold drain
  cases found : pick world with
  | none => exact ⟨.refl (fine world start).1 (fine world start).2,fun _ => ⟨start,found⟩⟩
  | some entry =>
  obtain ⟨undoes,goes⟩ := one world entry start found
  dsimp only
  cases cleared : clear entry world with | mk done left =>
  rw [cleared] at undoes goes
  cases done with
  | false => exact ⟨undoes,by rintro ⟨⟩⟩
  | true =>
  obtain ⟨good',smaller⟩ := goes rfl
  obtain ⟨rest,finished⟩ := ih good' (by show size left ≤ turns; have := smaller; dsimp only at this; omega)
  exact ⟨undoes.trans rest,finished⟩

/-- An undo, or a part of it, and what is gone when it succeeds. -/
structure Cleaned (start : World) (result : Bool × World) (gone : Root → Prop) : Prop where
  undoes : Undoes start result.2 result.1
  gone : result.1 = true → gone result.2.root

theorem Cleaned.andAlso {start : World} {result : Bool × World} {gone gone' : Root → Prop} {next : World → Bool × World}
    (first : Cleaned start result gone) (second : ∀ world, Booked world → world.root.uncertain = false → gone world.root →
      Cleaned world (next world) gone') : Cleaned start (after result next) gone' := by
  obtain ⟨done,left⟩ := result
  cases done with
  | false => exact ⟨first.undoes,nofun⟩
  | true =>
  have rest := second left first.undoes.booked (first.undoes.certain rfl) (first.gone rfl)
  exact ⟨first.undoes.trans rest.undoes,rest.gone⟩

variable (broker : Broker)

theorem loop_cleans (pick : Root → Option ι) (clear : ι → World → Bool × World)
    (q : Root → ι → Request) (update : Root → Root) (gone : Root → Prop) (size : Root → Nat)
    (sends : ∀ world entry, Booked world → pick world.root = some entry →
      clear entry world = andThen (request broker (q world.root entry) world) update)
    (fits : ∀ world entry, Booked world → gone world.root → pick world.root = some entry → Fits world.root (q world.root entry) update ∧
      world.root.undoList = stamp world.root.input (q world.root entry) :: (update world.root).undoList ∧
      gone (update world.root) ∧ size (update world.root) < size world.root)
    (goneNoted : ∀ (root : Root) lastStatus cleanupStatus uncertain, gone root → gone (root.noted lastStatus cleanupStatus uncertain))
    (sizeNoted : ∀ (root : Root) lastStatus cleanupStatus uncertain, size (root.noted lastStatus cleanupStatus uncertain) = size root)
    (empty : ∀ root, size root = 0 → pick root = none) (booked : Booked world)
    (certain : world.root.uncertain = false) (start : gone world.root) :
    Cleaned world (drain (fun world => pick world.root) clear (size world.root) world)
      (fun root => gone root ∧ pick root = none) := by
  have loop := drain_undoes (fun world => pick world.root) clear
    (fun world => Booked world ∧ world.root.uncertain = false ∧ gone world.root) (fun world => size world.root)
    (fun _ good => ⟨good.1,good.2.1⟩) (fun world => empty world.root) ?_ (size world.root) ⟨booked,certain,start⟩ (Nat.le_refl _)
  · exact ⟨loop.1,fun done => ⟨(loop.2 done).1.2.2,(loop.2 done).2⟩⟩
  intro world entry ⟨booked,certain,kept⟩ found
  obtain ⟨fit,next,kept',smaller⟩ := fits world entry booked kept found
  obtain ⟨undoes,taken⟩ := booked.undo certain fit next broker
  rw [← sends world entry booked found] at undoes taken
  refine ⟨undoes,fun done => ?_⟩
  obtain ⟨lastStatus,same⟩ := taken done
  refine ⟨⟨undoes.booked,undoes.certain done,?_⟩,?_⟩
  · rw [same]
    exact goneNoted _ _ _ _ kept'
  rw [same,sizeNoted]
  exact smaller

private theorem unmapLeaves_cleans (booked : Booked world) (certain : world.root.uncertain = false) :
    Cleaned world (unmapLeaves broker world) (fun root => root.mapped = []) := by
  have loop := loop_cleans broker (fun root => root.mapped.getLast?)
    (fun page world => andThen (leaf broker page false world) (fun root => { root with mapped := root.mapped.dropLast }))
    (fun root page => leafRequest root.input page false) (fun root => { root with mapped := root.mapped.dropLast })
    (fun _ => True) (fun root => root.mapped.length) ?_ ?_ (fun _ _ _ _ kept => kept) (fun _ _ _ _ => rfl)
    (fun root none => by simpa using none) booked certain trivial
  · exact ⟨loop.undoes,fun done => getLast?_eq_none_iff.mp (loop.gone done).2⟩
  · intro world page booked found
    have placed := booked.placed page (mem_of_getLast? found)
    simp [leaf,placed]
  intro world page booked _ found
  obtain ⟨rest,is⟩ := getLast?_eq_some_iff.mp found
  refine ⟨fits_removal (stamp world.root.input (leafRequest world.root.input page true)) rfl ?_ rfl
    { booked with placed := fun other mem => booked.placed other (mem_of_mem_dropLast mem) },?_,trivial,?_⟩
  · show (world.root.mapped.map _).map _ = (world.root.mapped.dropLast.map _).map _ ++ [_]
    simp [is]
  · simp [Root.undoList,Root.undoParts,is]
  simp [is]

theorem grantRequest_name (input : RootInput) (g : Grant) (add : Bool) :
    (stamp input (grantRequest g add)).name = (.grant,g.ipa,g.generation,0) := by
  have kind : (grantRequest g add).kind = .grant := by
    cases add with
    | false => rfl
    | true =>
    by_cases shared : g.shared ≠ 0
    · simp only [grantRequest,Request.kind,if_pos shared,if_true]
    simp only [grantRequest,Request.kind,if_neg shared,if_true]
  simp only [Request.name,stamp_kind,kind]
  rfl

private theorem revokeGrants_cleans (booked : Booked world) (certain : world.root.uncertain = false)
    (unmapped : world.root.mapped = []) :
    Cleaned world (revokeGrants broker world) (fun root => root.mapped = [] ∧ root.grants = []) := by
  have loop := loop_cleans broker (fun root => root.grants.getLast?)
    (fun g world => andThen (grant broker g false world) (fun root => { root with grants := root.grants.dropLast }))
    (fun _ g => grantRequest g false) (fun root => { root with grants := root.grants.dropLast })
    (fun root => root.mapped = []) (fun root => root.grants.length) (fun _ _ _ _ => rfl) ?_
    (fun _ _ _ _ kept => kept) (fun _ _ _ _ => rfl) (fun root none => by simpa using none) booked certain unmapped
  · exact ⟨loop.undoes,fun done => ⟨(loop.gone done).1,getLast?_eq_none_iff.mp (loop.gone done).2⟩⟩
  intro world g booked unmapped found
  obtain ⟨rest,is⟩ := getLast?_eq_some_iff.mp found
  have here : world.root.listed .grant = Root.listed { world.root with grants := world.root.grants.dropLast } .grant ++
      [stamp world.root.input (grantRequest g true)] := by
    show (world.root.grants.map _).map _ = (world.root.grants.dropLast.map _).map _ ++ [_]
    simp [is]
  refine ⟨fits_removal (stamp world.root.input (grantRequest g true)) rfl here
    ((grantRequest_name _ g true).trans (grantRequest_name _ g false).symm) { booked with },?_,unmapped,?_⟩
  · simp [Root.undoList,Root.undoParts,unmapped,is]
  simp [is]

variable {count : Nat}

theorem range_last (some : 0 < count) : List.range count = List.range (count - 1) ++ [count - 1] := by
  obtain ⟨before,rfl⟩ := Nat.exists_eq_succ_of_ne_zero (Nat.ne_of_gt some)
  exact range_succ

theorem lastIndex_some {index : Nat} (found : lastIndex count = some index) : 0 < count ∧ index = count - 1 := by
  unfold lastIndex at found
  split at found
  · cases found
  cases found
  exact ⟨by omega,rfl⟩

theorem lastIndex_none (none : lastIndex count = none) : count = 0 := by
  unfold lastIndex at none
  split at none
  · assumption
  cases none

section
variable (booked : Booked world) (certain : world.root.uncertain = false)
include booked certain

private theorem unlinkParents_cleans (revoked : world.root.mapped = [] ∧ world.root.grants = []) :
    Cleaned world (unlinkParents broker world) (fun root => (root.mapped = [] ∧ root.grants = []) ∧ root.parentCount = 0) := by
  have loop := loop_cleans broker (fun root => lastIndex root.parentCount)
    (fun index world => andThen (parent broker index false world) (fun root => { root with parentCount := root.parentCount - 1 }))
    (fun root index => parentRequest root.input index false) (fun root => { root with parentCount := root.parentCount - 1 })
    (fun root => root.mapped = [] ∧ root.grants = []) (fun root => root.parentCount) ?_ ?_
    (fun _ _ _ _ kept => kept) (fun _ _ _ _ => rfl) (fun root none => by simp [lastIndex,none]) booked certain revoked
  · exact ⟨loop.undoes,fun done => ⟨(loop.gone done).1,lastIndex_none (loop.gone done).2⟩⟩
  · intro world index booked found
    have bound := booked.parents
    obtain ⟨some,is⟩ := lastIndex_some found
    have below : ¬4 ≤ index := by omega
    simp only [parent,if_neg below]
  intro world index booked revoked found
  obtain ⟨some,rfl⟩ := lastIndex_some found
  have counted := range_last some
  have here : world.root.listed .parent = Root.listed { world.root with parentCount := world.root.parentCount - 1 } .parent ++
      [stamp world.root.input (parentRequest world.root.input (world.root.parentCount - 1) true)] := by
    show ((range world.root.parentCount).map _).map _ = ((range (world.root.parentCount - 1)).map _).map _ ++ [_]
    rw [counted]
    simp
  refine ⟨fits_removal (stamp world.root.input (parentRequest world.root.input (world.root.parentCount - 1) true)) rfl here rfl
    { booked with parents := (Nat.sub_le _ _).trans booked.parents },?_,revoked,?_⟩
  · simp only [Root.undoList,Root.undoParts,revoked.1,revoked.2]
    rw [counted]
    simp
  exact Nat.sub_lt some Nat.one_pos

private theorem revokeTables_cleans
    (unlinked : (world.root.mapped = [] ∧ world.root.grants = []) ∧ world.root.parentCount = 0) :
    Cleaned world (revokeTables broker world)
      (fun root => ((root.mapped = [] ∧ root.grants = []) ∧ root.parentCount = 0) ∧ root.tableCount = 0) := by
  have loop := loop_cleans broker (fun root => lastIndex root.tableCount)
    (fun index world => andThen (table broker index false world) (fun root => { root with tableCount := root.tableCount - 1 }))
    (fun root index => tableRequest root.input index false) (fun root => { root with tableCount := root.tableCount - 1 })
    (fun root => (root.mapped = [] ∧ root.grants = []) ∧ root.parentCount = 0) (fun root => root.tableCount) ?_ ?_
    (fun _ _ _ _ kept => kept) (fun _ _ _ _ => rfl) (fun root none => by simp [lastIndex,none]) booked certain unlinked
  · exact ⟨loop.undoes,fun done => ⟨(loop.gone done).1,lastIndex_none (loop.gone done).2⟩⟩
  · intro world index booked found
    have bound := booked.tables
    obtain ⟨some,is⟩ := lastIndex_some found
    have below : ¬4 ≤ index := by omega
    simp only [table,if_neg below]
  intro world index booked unlinked found
  obtain ⟨some,rfl⟩ := lastIndex_some found
  have counted := range_last some
  have here : world.root.listed .table = Root.listed { world.root with tableCount := world.root.tableCount - 1 } .table ++
      [stamp world.root.input (tableRequest world.root.input (world.root.tableCount - 1) true)] := by
    show ((range world.root.tableCount).map _).map _ = ((range (world.root.tableCount - 1)).map _).map _ ++ [_]
    rw [counted]
    simp
  refine ⟨fits_removal (stamp world.root.input (tableRequest world.root.input (world.root.tableCount - 1) true)) rfl here rfl
    { booked with tables := (Nat.sub_le _ _).trans booked.tables },?_,unlinked,?_⟩
  · simp only [Root.undoList,Root.undoParts,unlinked.1.1,unlinked.1.2,unlinked.2]
    rw [counted]
    simp
  exact Nat.sub_lt some Nat.one_pos

private theorem destroyCreated_cleans
    (revoked : ((world.root.mapped = [] ∧ world.root.grants = []) ∧ world.root.parentCount = 0) ∧ world.root.tableCount = 0) :
    Cleaned world (destroyCreated broker world) (fun root => root.undoList = []) := by
  obtain ⟨⟨⟨unmapped,ungranted⟩,unlinked⟩,untabled⟩ := revoked
  unfold destroyCreated
  split
  · rename_i created
    have fits : Fits world.root { command := .destroy } (fun root => { root with created := false }) := by
      refine fits_removal
        (stamp world.root.input { command := .create, tableIpa := world.root.input.rootIpa, flags := world.root.input.paging })
        rfl ?_ rfl { booked with }
      show (Root.parts world.root .root).map _ = (Root.parts { world.root with created := false } .root).map _ ++ [_]
      simp [Root.parts,created]
    have empty : Root.undoList { world.root with created := false } = [] := by
      simp [Root.undoList,Root.undoParts,unmapped,ungranted,unlinked,untabled]
    have next : world.root.undoList = stamp world.root.input { command := .destroy } :: Root.undoList { world.root with created := false } := by
      simp [Root.undoList,Root.undoParts,unmapped,ungranted,unlinked,untabled,created]
    obtain ⟨undoes,taken⟩ := booked.undo certain fits next broker
    refine ⟨undoes,fun done => ?_⟩
    obtain ⟨lastStatus,same⟩ := taken done
    rw [same,noted_undoList,empty]
  rename_i created
  refine ⟨.refl booked certain,fun _ => ?_⟩
  simp [Root.undoList,Root.undoParts,unmapped,ungranted,unlinked,untabled,created]

/-- An undo of a root whose requests all came back sends its removals, in their order, until one
    is refused; a root that is undone has no part left. -/
theorem destroyRoot_cleans : Cleaned world (destroyRoot broker world) (fun root => root.undoList = []) := by
  unfold destroyRoot
  rw [if_neg (by simp [certain])]
  exact ((((unmapLeaves_cleans broker booked certain).andAlso (fun _ booked certain unmapped =>
    revokeGrants_cleans broker booked certain unmapped)).andAlso (fun _ booked certain revoked =>
    unlinkParents_cleans broker booked certain revoked)).andAlso (fun _ booked certain unlinked =>
    revokeTables_cleans broker booked certain unlinked)).andAlso (fun _ booked certain untabled =>
    destroyCreated_cleans broker booked certain untabled)

end

end WindowsOnM1.GpuvaB1
