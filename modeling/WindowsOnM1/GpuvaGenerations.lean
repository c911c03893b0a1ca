import WindowsOnM1.GpuvaAccounts

/-!
The lives of a system page. A frame keeps its generation as long as a mapping or a grant
of its page is left in any graph, a page that is mapped again gets a generation above all
that were given out, and what is live carries the generation of its frame.
-/
namespace WindowsOnM1.GpuvaGenerations
open GpuvaModel List
open GpuvaWorld GpuvaGrants GpuvaMappings GpuvaAccounts

variable {n : Nat}

/-- The world after the calls of a run. -/
def after (env : Fin n → GpuvaEnv) (owners : Fin n → Owner) (script : List (Fin n × Call)) : World n :=
  run env (worldInit owners) script

/-- A mapping or a system backing of a page is left. -/
def Held (env : Fin n → GpuvaEnv) (owners : Fin n → Owner) (script : List (Fin n × Call)) (page : U64) : Prop :=
  mapped env (worldInit owners) script page ≠ 0 ∨
    ∃ who, ∃ backing ∈ ((after env owners script).graphs who).backings, backing.kind = .System ∧ backing.ipa = page

/-- What is system memory carries the generation of its frame. -/
def Carries (registry : GpuvaRegistry) (kind : BackingKind) (page generation : U64) : Prop :=
  kind = .System → ∃ frame ∈ registry.frames, frame.ipa = page ∧ frame.generation = generation

/-- The generations of the frames in a run. -/
structure Generations (env : Fin n → GpuvaEnv) (owners : Fin n → Owner) (script : List (Fin n × Call)) : Prop where
  same : ∀ early late, early ++ late = script → ∀ frame ∈ (after env owners early).registry.frames,
    (∀ middle, middle <+: late → Held env owners (early ++ middle) frame.ipa) →
    ∃ frame' ∈ (after env owners script).registry.frames, frame'.ipa = frame.ipa ∧ frame'.generation = frame.generation
  fresh : ∀ early entry late, early ++ entry :: late = script →
    ∀ frame ∈ (after env owners (early ++ [entry])).registry.frames, ¬ Held env owners early frame.ipa →
    ∀ past, past <+: early → ∀ old ∈ (after env owners past).registry.frames, old.generation < frame.generation
  backings : ∀ who, ∀ backing ∈ ((after env owners script).graphs who).backings,
    Carries (after env owners script).registry backing.kind backing.ipa backing.generation
  leaves : ∀ who, ∀ leaf ∈ ((after env owners script).graphs who).leaves,
    Carries (after env owners script).registry leaf.kind leaf.auxIpa leaf.generation

section

variable (env : Fin n → GpuvaEnv) (owners : Fin n → Owner) (script : List (Fin n × Call))

private theorem after_linked : WorldLinked (after env owners script) := run_linked env (worldInit_linked owners) script
private theorem after_frames : WorldFrames (after env owners script) :=
  (run_frames env (worldInit_linked owners) (worldInit_frames owners) script).1
private theorem after_append (later : List (Fin n × Call)) :
    after env owners (script ++ later) = run env (after env owners script) later := run_append env _ script later
private theorem after_later (later : List (Fin n × Call)) :
    Later (after env owners script).registry (after env owners (script ++ later)).registry := by
  rw [after_append]
  exact (run_frames env (after_linked env owners script) (after_frames env owners script) later).2

private theorem backings_carry : ∀ who, ∀ backing ∈ ((after env owners script).graphs who).backings,
    Carries (after env owners script).registry backing.kind backing.ipa backing.generation := by
  intro who backing mem isSystem
  have frames := after_frames env owners script
  obtain ⟨id,isFrame⟩ := Option.isSome_iff_exists.mp ((frames.system who backing mem).mp isSystem)
  obtain ⟨frame,there,_,ipa,generation⟩ := frames.framed who backing mem id isFrame
  exact ⟨frame,there,ipa,generation⟩

private theorem held_iff (page : U64) : Held env owners script page ↔ ∃ frame ∈ (after env owners script).registry.frames, frame.ipa = page := by
  have frames := after_frames env owners script
  have mappings := runs_mapped env owners script
  constructor
  · rintro (isMapped | ⟨who,backing,mem,isSystem,rfl⟩)
    · exact mappings.listed page isMapped
    obtain ⟨frame,there,ipa,_⟩ := backings_carry env owners script who backing mem isSystem
    exact ⟨frame,there,ipa⟩
  rintro ⟨frame,mem,rfl⟩
  rcases (after_linked env owners script).registry.used frame mem with isMapped | isGranted
  · refine .inl (fun none => isMapped (BitVec.eq_of_toNat_eq ?_))
    have count := mappings.mappings frame mem
    rw [none] at count
    exact_mod_cast count.symm
  have some : totalGrants (after env owners script) frame.id ≠ 0 := by
    rw [← frames.counted.grants frame mem]
    exact fun zero => isGranted (BitVec.eq_of_toNat_eq zero)
  obtain ⟨who,_,granted⟩ := Finset.exists_ne_zero_of_sum_ne_zero some
  obtain ⟨backing,there,holds⟩ := countP_pos_iff.mp (Nat.pos_of_ne_zero granted)
  have isFrame := eq_of_beq holds
  obtain ⟨other,inside,isId,ipa,_⟩ := frames.framed who backing there frame.id isFrame
  have same := (after_linked env owners script).registry.chains.eq_of_serial inside mem isId
  subst same
  exact .inr ⟨who,backing,there,(frames.system who backing there).mpr (by rw [isFrame]; rfl),ipa.symm⟩

private theorem same_generation (late : List (Fin n × Call)) {frame : GpuvaFrame}
    (mem : frame ∈ (after env owners script).registry.frames)
    (held : ∀ middle, middle <+: late → Held env owners (script ++ middle) frame.ipa) :
    ∃ frame' ∈ (after env owners (script ++ late)).registry.frames, frame'.ipa = frame.ipa ∧ frame'.generation = frame.generation := by
  induction late using reverseRecOn with
  | nil =>
    rw [append_nil]
    exact ⟨frame,mem,rfl,rfl⟩
  | append_singleton late entry ih =>
  obtain ⟨before,there,ipa,generation⟩ := ih (fun middle isMiddle => held middle (isMiddle.trans (prefix_append _ _)))
  obtain ⟨last,here,ipa'⟩ := (held_iff env owners _ _).mp (held _ (prefix_rfl))
  refine ⟨last,here,ipa',?_⟩
  rw [← generation]
  have lives := (step_mapped env (after_linked env owners (script ++ late)) (after_frames env owners (script ++ late)) entry
    (runs_mapped env owners (script ++ late))).2
  rw [← append_assoc,after_append] at here
  exact lives before there last here (ipa'.trans ipa.symm)

private theorem fresh_generation (entry : Fin n × Call) {frame : GpuvaFrame}
    (mem : frame ∈ (after env owners (script ++ [entry])).registry.frames) (unheld : ¬ Held env owners script frame.ipa) :
    ∀ past, past <+: script → ∀ old ∈ (after env owners past).registry.frames, old.generation < frame.generation := by
  rintro past ⟨rest,rfl⟩ old there
  have given := (after_frames env owners past).given old there
  have later := after_later env owners past rest
  have last := after_later env owners (past ++ rest) [entry]
  rw [held_iff] at unheld
  have isNew : (after env owners (past ++ rest)).registry.linked ≤ frame.id := by
    refine Nat.le_of_not_lt (fun below => unheld ?_)
    obtain ⟨same,inside,_,ipa,_⟩ := last.old frame mem below
    exact ⟨same,inside,ipa⟩
  have above := (last.new frame mem isNew).1
  exact BitVec.lt_def.mpr ((BitVec.le_def.mp (BitVec.le_trans given later.given)).trans_lt (BitVec.lt_def.mp above))

/-- In a run in which no count of references wraps, generations are never used again. -/
theorem run_generations (fits : Fits env (worldInit owners) script) : Generations env owners script where
  same := by
    rintro early late rfl frame mem held
    exact same_generation env owners early late mem held
  fresh := by
    rintro early entry late rfl frame mem unheld
    exact fresh_generation env owners early entry mem unheld
  backings := backings_carry env owners script
  leaves := by
    intro who leaf mem isSystem
    obtain ⟨_,accounts,_⟩ := run_accounted env (worldInit_linked owners) (fun who => graphInit_accounted (owners who)) script
      fits who
    obtain ⟨backing,there,ipa,kind,generation⟩ := accounts.names leaf mem
    obtain ⟨frame,inside,here,life⟩ := backings_carry env owners script who backing there (kind.trans isSystem)
    exact ⟨frame,inside,here.trans ipa,life.trans generation⟩

end

theorem run_generations_remapped :
    (∃ frame ∈ (after (fun _ => willing) oneOwner (remapPage.take 7)).registry.frames, frame.ipa = 0x20000 ∧ frame.generation = 1) ∧
      (∃ leaf ∈ ((after (fun _ => willing) oneOwner remapPage).graphs 0).leaves,
        leaf.kind = .System ∧ leaf.auxIpa = 0x20000 ∧ leaf.generation = 2) ∧
      Generations (fun _ => willing) oneOwner remapPage :=
  ⟨by decide +kernel,by decide +kernel,run_generations (fun _ => willing) oneOwner remapPage remapPage_fits⟩

end WindowsOnM1.GpuvaGenerations
