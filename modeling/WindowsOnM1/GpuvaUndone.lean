import WindowsOnM1.GpuvaBroker

/-!
What the broker is owed. A request that registers a table or a backing or that stores an
entry is undone by the later request that revokes or clears the same; until then what it
registered is in the acknowledged view.
-/
namespace WindowsOnM1.GpuvaUndone
open GpuvaModel GpuvaMoves GpuvaLinked GpuvaWorld List Function
open GpuvaBroker

/-- A request that was answered with Status 0 and Flags 0. -/
def wasAcknowledged (call : Request × Option Response) : Bool :=
  call.2.any (fun response => response.status == 0 && response.flags == 0)

/-- The requests after the last creation of the process. -/
def sinceCreation (calls : List (Request × Option Response)) : List (Request × Option Response) :=
  calls.foldl (fun since call => if wasAcknowledged call && call.1.command == .Create then [] else since ++ [call]) []

/-- A request that gives the broker something to hold. -/
def Registers (request : Request) : Prop :=
  match request.command with
  | .RegisterTable => True
  | .RegisterBacking => True
  | .RegisterSharedBacking => True
  | .UpdateParent => request.auxIpa ≠ 0
  | .UpdateLeaf => request.validMask ≠ 0
  | _ => False

/-- A request that takes back what another one registered. -/
def Undoes (undo request : Request) : Prop :=
  match request.command with
  | .RegisterTable => undo.command = .RevokeTable ∧ undo.tableIpa = request.auxIpa ∧ undo.index = request.index
  | .RegisterBacking => undo.command = .RevokeBacking ∧ undo.auxIpa = request.auxIpa ∧
      undo.allocationGeneration = request.allocationGeneration
  | .RegisterSharedBacking => undo.command = .RevokeBacking ∧ undo.auxIpa = request.auxIpa ∧
      undo.allocationGeneration = request.allocationGeneration
  | .UpdateParent => undo.command = .UpdateParent ∧ undo.tableIpa = request.tableIpa ∧ undo.index = request.index ∧ undo.auxIpa = 0
  | .UpdateLeaf => undo.command = .UpdateLeaf ∧ undo.tableIpa = request.tableIpa ∧ undo.index = request.index ∧ undo.validMask = 0
  | _ => False

/-- What a request registered is in a view; an entry may have been stored again. -/
def Stands (view : View) (request : Request) : Prop :=
  match request.command with
  | .RegisterTable => view.tables request.auxIpa = some request.index
  | .RegisterBacking => view.backings request.auxIpa = some request.allocationGeneration
  | .RegisterSharedBacking => view.backings request.auxIpa = some request.allocationGeneration
  | .UpdateParent => view.parents (request.tableIpa,request.index) ≠ none
  | .UpdateLeaf => view.leaves (request.tableIpa,request.index) ≠ none
  | _ => False

/-- Every request that registered something since the creation was undone by a later one,
    or what it registered is in the view. -/
def Owed (calls : List (Request × Option Response)) : Prop :=
  ∀ earlier call later, sinceCreation calls = earlier ++ call :: later → wasAcknowledged call = true → Registers call.1 →
    (∃ undo ∈ later, wasAcknowledged undo = true ∧ Undoes undo.1 call.1) ∨ Stands (acknowledged calls) call.1

variable {response : Response}

theorem wasAcknowledged_some {request : Request} (acknowledges : Acknowledges response) :
    wasAcknowledged (request,some response) = true := by
  simp [wasAcknowledged,acknowledges.1,acknowledges.2]

variable {call : Request × Option Response}

theorem wasAcknowledged_answer (was : wasAcknowledged call = true) :
    ∃ response, call.2 = some response ∧ Acknowledges response := by
  obtain ⟨response,isAnswer,fine⟩ := (Option.any_eq_true ..).mp was
  simp only [Bool.and_eq_true,beq_iff_eq] at fine
  exact ⟨response,isAnswer,fine⟩

section
variable (calls : List (Request × Option Response)) (call)
include calls

theorem sinceCreation_append : sinceCreation (calls ++ [call]) =
      if wasAcknowledged call && call.1.command == .Create then [] else sinceCreation calls ++ [call] := by
  rw [sinceCreation,foldl_append]
  rfl
private theorem acknowledged_append : acknowledged (calls ++ [call]) = (acknowledged calls).answer call := by
  rw [acknowledged,foldl_append]
  rfl

end

theorem answer_received (view : View)
    (answered : call.2 = some response) (acknowledges : Acknowledges response) : view.answer call = view.receive call.1 response := by
  obtain ⟨request,answer⟩ := call
  cases answered
  exact answer_acknowledged view request acknowledges

/-- A request that registers what is not there or revokes what is there, within the life of the process. -/
def Proper (view : View) (request : Request) : Prop :=
  match request.command with
  | .Create => False
  | .Destroy => False
  | .RegisterTable => view.tables request.auxIpa = none
  | .RevokeTable => view.tables request.tableIpa = some request.index
  | .RegisterBacking => view.backings request.auxIpa = none
  | .RegisterSharedBacking => view.backings request.auxIpa = none
  | .RevokeBacking => view.backings request.auxIpa = some request.allocationGeneration
  | _ => True

variable {view : View} {request : Request}

theorem update_stays {κ β : Type*} [DecidableEq κ] {map : κ → Option β} {key here : κ} {value : β} (new : Option β)
    (stands : map here = some value) : Function.update map key new here = some value ∨ key = here := by
  by_cases same : key = here
  · exact .inr same
  exact .inl (by rw [update_of_ne (Ne.symm same),stands])

private theorem receive_tables {ipa : U64} {level : Nat} (response : Response) (proper : Proper view request)
    (stands : view.tables ipa = some level) : (view.receive request response).tables ipa = some level ∨
      (request.command = .RevokeTable ∧ request.tableIpa = ipa ∧ request.index = level) := by
  unfold Proper at proper
  unfold View.receive
  cases isCommand : request.command with
  | Create | Destroy => simp only [isCommand] at proper
  | RegisterTable =>
    simp only [isCommand] at proper
    refine (update_stays _ stands).imp_right (fun same => ?_)
    rw [same,stands] at proper
    cases proper
  | RevokeTable =>
    simp only [isCommand] at proper
    refine (update_stays _ stands).imp_right (fun same => ⟨rfl,same,?_⟩)
    rw [same,stands] at proper
    exact (Option.some.inj proper).symm
  | _ => exact .inl stands

private theorem receive_backings {ipa generation : U64} (response : Response) (proper : Proper view request)
    (stands : view.backings ipa = some generation) : (view.receive request response).backings ipa = some generation ∨
      (request.command = .RevokeBacking ∧ request.auxIpa = ipa ∧ request.allocationGeneration = generation) := by
  unfold Proper at proper
  unfold View.receive
  cases isCommand : request.command with
  | Create | Destroy => simp only [isCommand] at proper
  | RegisterBacking | RegisterSharedBacking =>
    simp only [isCommand] at proper
    refine (update_stays _ stands).imp_right (fun same => ?_)
    rw [same,stands] at proper
    cases proper
  | RevokeBacking =>
    simp only [isCommand] at proper
    refine (update_stays _ stands).imp_right (fun same => ⟨rfl,same,?_⟩)
    rw [same,stands] at proper
    exact (Option.some.inj proper).symm
  | _ => exact .inl stands

variable {key : U64 × Nat}

section
variable (response) (proper : Proper view request)
include proper

private theorem receive_parents (stands : view.parents key ≠ none) : (view.receive request response).parents key ≠ none ∨
      (request.command = .UpdateParent ∧ (request.tableIpa,request.index) = key ∧ request.auxIpa = 0) := by
  unfold Proper at proper
  unfold View.receive
  cases isCommand : request.command with
  | Create | Destroy => simp only [isCommand] at proper
  | UpdateParent =>
    by_cases same : (request.tableIpa,request.index) = key
    · subst same
      by_cases clear : request.auxIpa = 0
      · exact .inr ⟨rfl,rfl,clear⟩
      left
      simp only [update_self,if_neg clear]
      exact Option.some_ne_none _
    left
    simp only [update_of_ne (Ne.symm same)]
    exact stands
  | _ => exact .inl stands

private theorem receive_leaves (stands : view.leaves key ≠ none) : (view.receive request response).leaves key ≠ none ∨
      (request.command = .UpdateLeaf ∧ (request.tableIpa,request.index) = key ∧ request.validMask = 0) := by
  unfold Proper at proper
  unfold View.receive
  cases isCommand : request.command with
  | Create | Destroy => simp only [isCommand] at proper
  | UpdateLeaf =>
    by_cases same : (request.tableIpa,request.index) = key
    · subst same
      by_cases clear : request.validMask = 0
      · exact .inr ⟨rfl,rfl,clear⟩
      left
      simp only [update_self,if_neg clear]
      exact Option.some_ne_none _
    left
    simp only [update_of_ne (Ne.symm same)]
    exact stands
  | _ => exact .inl stands

private theorem receive_stands {old : Request} (stands : Stands view old) :
    Stands (view.receive request response) old ∨ Undoes request old := by
  unfold Stands at stands ⊢
  unfold Undoes
  cases isCommand : old.command with
  | RegisterTable =>
    simp only [isCommand] at stands ⊢
    exact receive_tables response proper stands
  | RegisterBacking | RegisterSharedBacking =>
    simp only [isCommand] at stands ⊢
    exact receive_backings response proper stands
  | UpdateParent =>
    simp only [isCommand] at stands ⊢
    refine (receive_parents response proper stands).imp_right (fun undone => ?_)
    exact ⟨undone.1,congrArg Prod.fst undone.2.1,congrArg Prod.snd undone.2.1,undone.2.2⟩
  | UpdateLeaf =>
    simp only [isCommand] at stands ⊢
    refine (receive_leaves response proper stands).imp_right (fun undone => ?_)
    exact ⟨undone.1,congrArg Prod.fst undone.2.1,congrArg Prod.snd undone.2.1,undone.2.2⟩
  | _ => simp only [isCommand] at stands

end

private theorem receive_registers (view : View) (response : Response) (registers : Registers request) :
    Stands (view.receive request response) request := by
  unfold Registers at registers
  unfold Stands View.receive
  cases isCommand : request.command with
  | RegisterTable | RegisterBacking | RegisterSharedBacking => exact update_self ..
  | UpdateParent | UpdateLeaf =>
    simp only [isCommand] at registers ⊢
    rw [update_self,if_neg registers]
    exact Option.some_ne_none _
  | _ => simp only [isCommand] at registers

theorem Owed.append {calls : List (Request × Option Response)} {call : Request × Option Response} (owed : Owed calls)
    (proper : wasAcknowledged call = true → Proper (acknowledged calls) call.1) : Owed (calls ++ [call]) := by
  have living : (wasAcknowledged call && call.1.command == .Create) = false := by
    cases was : wasAcknowledged call with
    | false => rfl
    | true =>
    rw [Bool.true_and,beq_eq_false_iff_ne]
    intro isCreate
    have bad := proper was
    simp only [Proper,isCreate] at bad
  intro earlier other later same was registers
  rw [sinceCreation_append,living,if_neg (by decide)] at same
  rw [acknowledged_append]
  rcases eq_nil_or_concat later with none | ⟨rest,last,isLast⟩
  · subst none
    obtain ⟨_,isCall⟩ := append_inj' same rfl
    obtain ⟨rfl,_⟩ := isCall
    obtain ⟨response,answered,acknowledges⟩ := wasAcknowledged_answer was
    right
    rw [answer_received _ answered acknowledges]
    exact receive_registers _ response registers
  subst isLast
  rw [concat_eq_append,← cons_append,← append_assoc] at same
  obtain ⟨before,isCall⟩ := append_inj' same rfl
  obtain ⟨rfl,_⟩ := isCall
  have inside : ∀ undo ∈ rest, undo ∈ rest.concat call := fun undo mem => by simp [mem]
  rcases owed earlier other rest before was registers with ⟨undo,mem,undone⟩ | stands
  · exact .inl ⟨undo,inside undo mem,undone⟩
  cases isAcknowledged : wasAcknowledged call with
  | false =>
    have refused : (acknowledged calls).answer call = acknowledged calls := by
      refine answer_refused _ _ (fun response answered acknowledges => ?_)
      rw [show call = (call.1,some response) from Prod.ext rfl answered,wasAcknowledged_some acknowledges] at isAcknowledged
      cases isAcknowledged
    rw [refused]
    exact .inr stands
  | true =>
  obtain ⟨response,answered,acknowledges⟩ := wasAcknowledged_answer isAcknowledged
  rw [answer_received _ answered acknowledges]
  rcases receive_stands response (proper isAcknowledged) stands with still | undoes
  · exact .inr still
  exact .inl ⟨call,by simp,isAcknowledged,undoes⟩

variable {allows : Allows}

theorem tracks_none {κ β : Type*} {map : κ → Option β} {entries : List GpuvaNode} {key : GpuvaNode → κ}
    {value : GpuvaNode → β} (tracks : Tracks map entries key value) {here : κ} (free : ∀ entry ∈ entries, key entry ≠ here) :
    map here = none := by
  cases found : map here with
  | none => rfl
  | some v =>
  obtain ⟨entry,mem,isKey,_⟩ := (tracks here v).mp found
  exact absurd isKey (free entry mem)

/-- A change of a process sends nothing, or a request that is proper. -/
private theorem change_proper {before after : Option Nat × GpuvaState} (change : Change allows before after)
    (agrees : Agrees before.2.graph (acknowledged before.2.graph.calls)) (was : before.2.graph.created = true)
    (stays : after.2.graph.created = true) : after.2.graph.calls = before.2.graph.calls ∨
      ∃ call, after.2.graph.calls = before.2.graph.calls ++ [call] ∧
        (wasAcknowledged call = true → Proper (acknowledged before.2.graph.calls) call.1) := by
  cases change with
  | refused request answer unanswered =>
    refine .inr ⟨_,rfl,fun acked => ?_⟩
    obtain ⟨response,answered,acknowledges⟩ := wasAcknowledged_answer acked
    exact absurd acknowledges (unanswered response answered)
  | created _ _ _ absent => exact absurd (absent.symm.trans was) (by decide)
  | tableLinked ipa level _ _ _ _ free => exact .inr ⟨_,rfl,fun _ => tracks_none agrees.tables free⟩
  | tableRemoved _ _ mem => exact .inr ⟨_,rfl,fun _ => (agrees.tables _ _).mpr ⟨_,mem,rfl,rfl⟩⟩
  | @granted graph _ _ backing request _ _ isGrant free =>
    refine .inr ⟨_,rfl,fun _ => ?_⟩
    have unknown : (acknowledged graph.calls).backings backing.ipa = none := tracks_none agrees.backings free
    rw [isGrant,Proper,grantRequest]
    split_ifs <;> exact unknown
  | revoked _ _ mem => exact .inr ⟨_,rfl,fun _ => (agrees.backings _ _).mpr ⟨_,mem,rfl,rfl⟩⟩
  | jobBegun request isBegin => exact .inr ⟨_,rfl,fun _ => by simp only [Proper,isBegin]⟩
  | jobEnded _ request isEnd => exact .inr ⟨_,rfl,fun _ => by simp only [Proper,isEnd]⟩
  | leaseReleased request isRelease => exact .inr ⟨_,rfl,fun _ => by simp only [Proper,isRelease]⟩
  | flushed request isFlush => exact .inr ⟨_,rfl,fun _ => by simp only [Proper,isFlush]⟩
  | destroyed => cases stays
  | retained | settled | frameLinked | frameMapped => exact .inl rfl
  | _ => exact .inr ⟨_,rfl,fun _ => trivial⟩

private theorem change_creates {before after : Option Nat × GpuvaState} (change : Change allows before after)
    (was : before.2.graph.created = false) (now : after.2.graph.created = true) : sinceCreation after.2.graph.calls = [] := by
  cases change with
  | created ipa flags acknowledges =>
    simp only [linkRoot,sent,sinceCreation_append,wasAcknowledged_some acknowledges]
    rfl
  | destroyed => cases now
  | _ => exact absurd (was.symm.trans now) (by decide)

/-- What a process that is not uncertain owes its broker. -/
structure Owing (graph : GpuvaGraph) : Prop where
  broker : Broker graph
  owed : graph.created = true → graph.uncertain = false → Owed graph.calls

theorem owing_move (allows : Allows) (before after : Option Nat × GpuvaState) (move : Move allows before after)
    (linked : Linked before.2.graph) (owing : Owing before.2.graph) : Owing after.2.graph := by
  refine ⟨broker_move allows before after move linked owing.broker,fun now sure => ?_⟩
  cases move with
  | quiet quiet =>
    obtain ⟨_,_,_,_,_,_,_,_,rfl,_⟩ := quiet
    exact owing.owed now sure
  | unmapped => exact owing.owed now sure
  | poisoned | lost => cases sure
  | change certain change =>
  cases was : before.2.graph.created with
  | false =>
    intro earlier call later same
    rw [change_creates change was now] at same
    simp at same
  | true =>
  have owed := owing.owed was certain
  rcases change_proper change (owing.broker.agrees certain) was now with same | ⟨call,appended,proper⟩
  · rw [same]
    exact owed
  rw [appended]
  exact owed.append proper

theorem graphInit_owing (owner : Owner) : Owing (graphInit owner) :=
  ⟨graphInit_broker owner,nofun⟩

theorem moves_owing {before after : Option Nat × GpuvaState} (moves : Moves allows before after)
    (linked : Linked before.2.graph) (owing : Owing before.2.graph) : Owing after.2.graph := by
  induction moves with
  | refl => exact owing
  | tail earlier move ih => exact owing_move _ _ _ move (moves_linked earlier linked) ih

end WindowsOnM1.GpuvaUndone
