import WindowsOnM1.ScanoutSteps

/-!
What the scanout client writes and accepts in every run after `AppleAgxScanoutInitialize`.
-/
namespace WindowsOnM1.Scanout
open List

def accessesOf (steps : List Step) : List Access := steps.flatMap Step.accesses

section
variable {io : Io}

private theorem runCalls_cons (call : Call) (rest : List Call) (client : Client) (log : List Access) :
    ∃ (step : Step) (left : World), step.call = call ∧ Kept client step left.client ∧
      runCalls io (call :: rest) ⟨client,log⟩ = step :: runCalls io rest left := by
  obtain ⟨accesses,grown,kept⟩ := @act_acts io client log call
  refine ⟨⟨call,_,accesses⟩,_,rfl,kept,?_⟩
  rw [runCalls,grown]
  congr 2
  exact drop_left

variable (calls : List Call) (client : Client) (log : List Access)

private theorem run_follows (before after : List Step) (step : Step)
    (parts : runCalls io calls ⟨client,log⟩ = before ++ step :: after) :
    Follows client.maxPolls (before.foldl Ledger.after client.ledger) step := by
  induction calls generalizing client log before with
  | nil => exact absurd parts.symm (by simp [runCalls])
  | cons call rest ih =>
  obtain ⟨first,left,-,kept,run⟩ := @runCalls_cons io call rest client log
  rw [run] at parts
  cases before with
  | nil =>
    cases (List.cons.inj parts).1
    exact kept.follows
  | cons first' before =>
  obtain ⟨same,parts⟩ := List.cons.inj parts
  have later := ih left.client left.log before parts
  rw [kept.maxPolls,kept.ledger,same] at later
  exact later

private theorem run_requests :
    (∀ sequence ∈ requests (accessesOf (runCalls io calls ⟨client,log⟩)), bound client.nextSequence ≤ sequence.toNat) ∧
      (requests (accessesOf (runCalls io calls ⟨client,log⟩))).Pairwise (· < ·) := by
  induction calls generalizing client log with
  | nil => exact ⟨nofun,List.Pairwise.nil⟩
  | cons call rest ih =>
  obtain ⟨first,left,-,kept,run⟩ := @runCalls_cons io call rest client log
  obtain ⟨later,ordered⟩ := ih left.client left.log
  rw [run,accessesOf,flatMap_cons,requests_append]
  constructor
  · intro sequence mem
    rcases mem_append.mp mem with mem | mem
    · exact (kept.fresh sequence mem).1
    exact kept.later.trans (later sequence mem)
  refine pairwise_append.mpr ⟨?_,ordered,fun earlier here next mem => ?_⟩
  · have single := kept.single
    generalize requests first.accesses = used at single
    match used,single with
    | [],_ => exact List.Pairwise.nil
    | [_],_ => exact pairwise_singleton _ _
  have below := (kept.fresh earlier here).2
  exact BitVec.lt_def.mpr (lt_of_lt_of_le below (later next mem))

end

/-- In every run the requests grow, and each call follows the rules: it answers Ok only with a receipt
for its own sequence, presents only surfaces inside the pool that the device was told last, queues one
present at a time and every present that can be queued unless a write fails, and polls a limited number
of times. -/
theorem scanout_follows_protocol (io : Io) (firstSequence : U64) (maxPolls : U32) (client : Client)
    (initialized : scanoutInitialize firstSequence maxPolls = some client) (calls : List Call) :
    (requests (accessesOf (runCalls io calls ⟨client,[]⟩))).Pairwise (· < ·) ∧
      ∀ before step after, runCalls io calls ⟨client,[]⟩ = before ++ step :: after →
        Follows maxPolls (before.foldl Ledger.after { next := firstSequence }) step := by
  unfold scanoutInitialize at initialized
  split at initialized
  · cases initialized
  cases initialized
  refine ⟨(run_requests calls _ []).2,fun before step after parts => ?_⟩
  exact run_follows calls _ [] before after step parts

def lastCommand (log : List Access) : U32 :=
  (log.filterMap (fun access => match access with | .write (.write32 .command command) _ => some command | _ => none)).getLastD 0

/-- A device that carries out every command at once, at the same time of day. -/
def promptIo : Io where
  nowMs := fun _ => 5
  read32 := fun log address => some <|
    if address = Register.magic.address then magicNumber
    else if address = Register.abiVersion.address then 2
    else if address = Register.capabilities.address then v2PresentCapabilities
    else if address = Register.swapId.address then 1
    else if address = Register.irqStatus.address then irqLatched
    else if address = Register.state.address then
      if lastCommand log = commandRegisterPool then stateReady
      else if lastCommand log = commandPresent then stateActive else stateUnregistered
    else 0
  read64 := fun log address => some <|
    if address = Register.receiptSequence.address ∨ address = Register.appliedSequence.address ∨
      address = Register.latchedSequence.address then (requests log).getLastD 0 else 0
  write32 := fun _ _ _ => true
  write64 := fun _ _ _ => true
  pause := none

/-- A present is queued, latched, and the next one is accepted. -/
theorem scanout_follows_protocol_prompt : ∃ (before : List Step) (step : Step),
    before.map Step.answer = [.ok .done,.ok .done,.ok (.queued 2),.ok (.interrupt 1 2)] ∧ step.answer = .ok (.queued 3) ∧
    Follows 1 (before.foldl Ledger.after { next := 1 }) step := by
  refine ⟨[_,_,_,_],_,?_,?_,(scanout_follows_protocol promptIo 1 1 _ rfl
    [.qualify,.registerPool 0x10000 0xfa0000 9,.queuePresent 0,.consumeInterrupt,.queuePresent 0]).2 [_,_,_,_] _ [] rfl⟩
  · rfl
  rfl

/-- A present is applied though no registration was answered Ok, and after a release that was
answered Ok a queued present is still in the way. -/
theorem release_and_registration_not_awaited : ∃ client, scanoutInitialize 1 1 = some client ∧
      (∃ before step after, runCalls promptIo [.qualify,.registerPool 0x10000 0xfa0000 0,.presentApplied 0 9] ⟨client,[]⟩ =
        before ++ step :: after ∧ .write (.write32 .command commandPresent) true ∈ step.accesses ∧
        ∀ earlier ∈ before, earlier.call = .qualify ∨ earlier.answer = .error .timeout) ∧
      (runCalls promptIo [.qualify,.registerPool 0x10000 0xfa0000 9,.queuePresent 0,.release 9,.queuePresent 0] ⟨client,[]⟩).map
        Step.answer = [.ok .done,.ok .done,.ok (.queued 2),.ok .done,.error .busy] := by
  refine ⟨_,rfl,⟨[_,_],_,[],rfl,?_,?_⟩,?_⟩
  · decide
  · intro earlier mem
    rcases mem_cons.mp mem with rfl | mem
    · exact .inl rfl
    · rw [mem_singleton.mp mem]
      exact .inr rfl
  · rfl

end WindowsOnM1.Scanout
