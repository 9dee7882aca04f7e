import BadgeOS.Harmonia.SingleFlight

/-!
# Job slots

A permit is taken by a creation task, moves into the job's fan-out with `Job::spawn`, and is
given back by `drop(slot)` right after `produce`, whatever `produce` returned.  So free
permits, creations holding one and jobs holding one always add up to `max_jobs`; the count of
acquisitions and releases of a whole run follows from the same step lemma.
-/

namespace BadgeOS.Harmonia

open Function Transition

variable {cfg : Config} {fs : SpoolFs} {s s' : Server}
  {store : String → Option ValidPathInfo} {free : ℕ} {as : List Action} {a : Action}

/-! ### Holders -/

/-- The creation has its permit and no job yet. -/
def Creation.holdsPermit (cr : Creation) : Bool :=
  match cr.phase with
  | .slotWon _ => true
  | _ => false

/-- The fan-out task has not dropped its slot. -/
def Job.holdsSlot (job : Job) : Bool :=
  match job.phase with
  | .spawned | .producing _ | .writing _ _ | .discarding _ | .produceEnded _ _ => true
  | _ => false

/-- The permits in use. -/
def Server.slotHolders (s : Server) : ℕ :=
  s.creations.countP Creation.holdsPermit + s.jobs.countP Job.holdsSlot

theorem Job.holdsSlot_of_inProduce {job : Job} (h : job.inProduce = true) :
    job.holdsSlot = true := by
  unfold Job.inProduce at h
  unfold Job.holdsSlot
  split at h
  · rename_i hp
    rw [hp]
  · rename_i hp
    rw [hp]
  · rename_i hp
    rw [hp]
  · cases h

/-- A fan-out task holds its slot until it releases it. -/
theorem Job.Move.slot {job job' : Job} {act : JobAct} {effect : Effect}
    (h : Job.Move cfg fs free job act job' effect) :
    (if job'.holdsSlot then 1 else 0) + (if effect = .release then 1 else 0) =
      if job.holdsSlot then 1 else 0 := by
  cases h with
  | chunkStreamed hp _ _ | chunkSpooled hp _ _ | writeFails hp _ | eof hp _ | flushed hp _ =>
      simp [Job.holdsSlot, hp]
  | writeback hsp _ =>
      cases hp : job.phase <;>
        simp_all [Job.holdsSlot, FanoutPhase.spool, FanoutPhase.withSpool]
  | createSpool hp | produceFails hp | writeOk hp | discard hp | dropSlot hp | failedBare hp
  | failedSpooled hp | producedBare hp | producedSpooled hp | flushFailed hp
  | imported hp | importRefused hp | unspool hp | publish hp | evict hp | uncache hp
  | dropJob hp =>
      simp [Job.holdsSlot, hp]

/-- A creation that moves from `cr.phase` to `p` changes the holders by its own part. -/
theorem slotHolders_setCreation {c : ℕ} {cr : Creation} (p : CreationPhase)
    (hc : s.creations[c]? = some cr) :
    (s.setCreation c cr p).slotHolders + (if cr.holdsPermit then 1 else 0) =
      s.slotHolders + if Creation.holdsPermit { cr with phase := p } then 1 else 0 := by
  have hcount := Table.countP_set (b := { cr with phase := p }) Creation.holdsPermit hc
  show (s.creations.set c { cr with phase := p }).countP _ + s.jobs.countP Job.holdsSlot + _ = _
  unfold Server.slotHolders
  omega

/-- **Conservation.**  No step makes or loses a permit. -/
theorem slots_step (h : s.step cfg fs a = some s') :
    s'.permits + s'.slotHolders = s.permits + s.slotHolders := by
  cases step_cases h with
  | create hr hp hplan =>
      simp [Server.slotHolders, Creation.holdsPermit]
  | @creation c cr _ p hc hm =>
      have hcount := slotHolders_setCreation p hc
      have hkeep : Creation.holdsPermit { cr with phase := p } = cr.holdsPermit := by
        cases hm with
        | hit hp _ | miss hp _ | unresolved hp | slotTimeout hp =>
            simp [Creation.holdsPermit, hp]
      rw [hkeep] at hcount
      show s.permits + (s.setCreation c cr p).slotHolders = _
      omega
  | @fetched c cr up hc hp =>
      have hcount := slotHolders_setCreation (.waiting up) hc
      simp only [Creation.holdsPermit, hp, Bool.false_eq_true, if_false] at hcount
      show s.permits + (s.setCreation c cr (.waiting up)).slotHolders = _
      omega
  | @acquire c cr up hc hp hpos =>
      have hcount := slotHolders_setCreation (.slotWon up) hc
      simp only [Creation.holdsPermit, hp, Bool.false_eq_true, if_true, if_false] at hcount
      show s.permits - 1 + (s.setCreation c cr (.slotWon up)).slotHolders = _
      omega
  | @spawn c cr up hc hp =>
      have hcount := slotHolders_setCreation (.finalizing (some s.jobs.length)) hc
      simp only [Creation.holdsPermit, hp, Bool.false_eq_true, if_true, if_false] at hcount
      have hjob : (s.jobs ++ [Job.new cr.hash up]).countP Job.holdsSlot =
          s.jobs.countP Job.holdsSlot + 1 := by
        simp [Job.new, Job.holdsSlot]
      unfold Server.slotHolders at hcount ⊢
      rw [hjob]
      simp only [Server.setCreation] at hcount ⊢
      omega
  | @finalize c cr result hc hp =>
      have hcount := slotHolders_setCreation (.ended result) hc
      simp only [Creation.holdsPermit, hp, Bool.false_eq_true, if_false] at hcount
      show s.permits + (s.setCreation c cr (.ended result)).slotHolders = _
      omega
  | @job j job job' act effect _ hj hm ha =>
      have hcount := Table.countP_set (b := job') Job.holdsSlot hj
      have hslot := hm.slot
      have hpermits := apply_permits ha
      obtain ⟨hcr, hjobs, -, -⟩ := apply_tables ha
      rw [Server.slotHolders, hcr, hjobs, hpermits, Server.slotHolders]
      dsimp only
      omega
  | _ => rfl

theorem slots_conserved (h : Run (Server.step cfg fs) (Server.init cfg store free) as s) :
    s.permits + s.slotHolders = cfg.maxJobs := by
  refine h.invariant (I := fun s => s.permits + s.slotHolders = cfg.maxJobs) ?_ ?_
  · intro s a s' hs _ hstep
    rw [slots_step hstep, hs]
  · rfl

/-! ### Acquisitions and releases of a run -/

/-- A creation takes a permit. -/
def Action.isAcquire : Action → Bool
  | .acquire _ => true
  | _ => false

/-- Job `j` drops its slot. -/
def Action.isDropSlot (j : ℕ) : Action → Bool
  | .job i .dropSlot => i == j
  | _ => false

/-- A fan-out gives its permit back in exactly one action. -/
theorem Job.Move.releases {job job' : Job} {act : JobAct} {effect : Effect} {j : ℕ}
    (h : Job.Move cfg fs free job act job' effect) :
    (if job'.holdsSlot then 0 else 1) =
      (if job.holdsSlot then 0 else 1) + if (Action.job j act).isDropSlot j then 1 else 0 := by
  cases h with
  | chunkStreamed hp _ _ | chunkSpooled hp _ _ | writeFails hp _ | eof hp _ | flushed hp _ =>
      simp [Job.holdsSlot, Action.isDropSlot, hp]
  | writeback hsp _ =>
      cases hp : job.phase <;>
        simp_all [Job.holdsSlot, Action.isDropSlot, FanoutPhase.spool, FanoutPhase.withSpool]
  | createSpool hp | produceFails hp | writeOk hp | discard hp | dropSlot hp | failedBare hp
  | failedSpooled hp | producedBare hp | producedSpooled hp | flushFailed hp
  | imported hp | importRefused hp | unspool hp | publish hp | evict hp | uncache hp
  | dropJob hp =>
      simp [Job.holdsSlot, Action.isDropSlot, hp]

theorem isDropSlot_ne {i j : ℕ} {act : JobAct} (h : i ≠ j) :
    (Action.job i act).isDropSlot j = false := by
  cases act <;> simp [Action.isDropSlot, h]

theorem isDropSlot_other (h : ∀ j act, a ≠ .job j act) (j : ℕ) : a.isDropSlot j = false := by
  cases a with
  | job i act => exact absurd rfl (h i act)
  | _ => rfl

theorem countP_snoc (p : Action → Bool) (as : List Action) (a : Action) :
    (as ++ [a]).countP p = as.countP p + if p a then 1 else 0 := by
  simp [List.countP_append, List.countP_cons]

/-- Every permit taken is in the hands of a creation or went to a job. -/
theorem acquired_step (h : s.step cfg fs a = some s') :
    s'.jobs.length + s'.creations.countP Creation.holdsPermit =
      s.jobs.length + s.creations.countP Creation.holdsPermit + if a.isAcquire then 1 else 0 := by
  have hset {c : ℕ} {cr : Creation} (p : CreationPhase) (hc : s.creations[c]? = some cr) :=
    Table.countP_set (b := { cr with phase := p }) Creation.holdsPermit hc
  cases step_cases h with
  | create hr hp hplan => simp [Creation.holdsPermit, Action.isAcquire]
  | @creation c cr _ p hc hm =>
      have hcount := hset p hc
      show s.jobs.length + (s.creations.set c { cr with phase := p }).countP _ = _
      cases hm with
      | hit hp _ | miss hp _ | unresolved hp | slotTimeout hp =>
          simp only [Creation.holdsPermit, hp, Bool.false_eq_true, if_false] at hcount
          simp only [Action.isAcquire, Bool.false_eq_true, if_false]
          omega
  | @fetched c cr up hc hp =>
      have hcount := hset (.waiting up) hc
      simp only [Creation.holdsPermit, hp, Bool.false_eq_true, if_false] at hcount
      show s.jobs.length + (s.creations.set c { cr with phase := .waiting up }).countP _ = _
      simp only [Action.isAcquire, Bool.false_eq_true, if_false]
      omega
  | @acquire c cr up hc hp hpos =>
      have hcount := hset (.slotWon up) hc
      simp only [Creation.holdsPermit, hp, Bool.false_eq_true, if_true, if_false] at hcount
      show s.jobs.length + (s.creations.set c { cr with phase := .slotWon up }).countP _ = _
      simp only [Action.isAcquire, if_true]
      omega
  | @spawn c cr up hc hp =>
      have hcount := hset (.finalizing (some s.jobs.length)) hc
      simp only [Creation.holdsPermit, hp, Bool.false_eq_true, if_true, if_false] at hcount
      show (s.jobs ++ [Job.new cr.hash up]).length +
        (s.creations.set c { cr with phase := .finalizing _ }).countP _ = _
      simp only [Action.isAcquire, Bool.false_eq_true, if_false, List.length_append,
        List.length_singleton]
      omega
  | @finalize c cr result hc hp =>
      have hcount := hset (.ended result) hc
      simp only [Creation.holdsPermit, hp, Bool.false_eq_true, if_false] at hcount
      show s.jobs.length + (s.creations.set c { cr with phase := .ended result }).countP _ = _
      simp only [Action.isAcquire, Bool.false_eq_true, if_false]
      omega
  | job hj hm ha =>
      obtain ⟨hcr, hjobs, -, -⟩ := apply_tables ha
      rw [hcr, hjobs]
      simp [Action.isAcquire]
  | request hr hm => cases hm <;> simp [Action.isAcquire, Server.setRequest]
  | narinfo hn hm => cases hm <;> simp [Action.isAcquire, Server.setNarinfo]
  | _ => simp [Action.isAcquire, Server.setNarinfo]

/-- What a run has done with its permits: every acquisition went to one job, or is still in
the hands of its creation; a job has released its slot once if it does not hold it, and never
if it does. -/
structure SlotLedger (as : List Action) (s : Server) : Prop where
  acquired : s.jobs.length + s.creations.countP Creation.holdsPermit = as.countP Action.isAcquire
  released : ∀ (j : ℕ) (job : Job), s.jobs[j]? = some job →
    as.countP (Action.isDropSlot j) = if job.holdsSlot then 0 else 1
  unborn : ∀ j, s.jobs.length ≤ j → as.countP (Action.isDropSlot j) = 0

theorem SlotLedger.step (hl : SlotLedger as s) (h : s.step cfg fs a = some s') :
    SlotLedger (as ++ [a]) s' := by
  have hacq : s'.jobs.length + s'.creations.countP Creation.holdsPermit =
      (as ++ [a]).countP Action.isAcquire := by
    rw [acquired_step h, hl.acquired, countP_snoc]
  rcases step_jobs h with
    ⟨i, old, new, act, effect, rfl, hi, hm, hjobs⟩ | ⟨hother, hjobs | ⟨hash, up, hjobs⟩⟩
  · refine ⟨hacq, ?_, ?_⟩
    · intro j job hj
      rw [countP_snoc]
      rw [hjobs, Table.get_set hi] at hj
      split at hj
      · rename_i hij
        subst hij
        cases hj
        rw [hl.released i old hi, hm.releases]
      · rename_i hij
        rw [isDropSlot_ne hij, hl.released j job hj]
        rfl
    · intro j hj
      rw [hjobs, List.length_set] at hj
      have hne : i ≠ j := by
        have := Table.lt_of_get hi
        omega
      rw [countP_snoc, isDropSlot_ne hne, hl.unborn j hj]
      rfl
  · refine ⟨hacq, ?_, ?_⟩
    · intro j job hj
      rw [hjobs] at hj
      rw [countP_snoc, isDropSlot_other hother, hl.released j job hj]
      rfl
    · intro j hj
      rw [hjobs] at hj
      rw [countP_snoc, isDropSlot_other hother, hl.unborn j hj]
      rfl
  · refine ⟨hacq, ?_, ?_⟩
    · intro j job hj
      rw [countP_snoc, isDropSlot_other hother]
      rw [hjobs, Table.get_push] at hj
      split at hj
      · -- a new job has released nothing
        rename_i hlen
        cases hj
        rw [hl.unborn j (by omega)]
        rfl
      · rw [hl.released j job hj]
        rfl
    · intro j hj
      rw [hjobs, List.length_append] at hj
      rw [countP_snoc, isDropSlot_other hother, hl.unborn j (by omega)]
      rfl

theorem slotLedger_of_run (h : Run (Server.step cfg fs) (Server.init cfg store free) as s) :
    SlotLedger as s := by
  refine h.traceInvariant (I := SlotLedger) ?_ ?_
  · refine ⟨rfl, ?_, fun _ _ => rfl⟩
    intro j job hj
    simp [Server.init] at hj
  · intro as s a s' hl _ hstep
    exact hl.step hstep

/-! ### The slots of every run -/

/-- Nothing holds a permit: every creation has passed its own on, and every fan-out task has
dropped its slot. -/
def Server.SlotsIdle (s : Server) : Prop :=
  (∀ cr ∈ s.creations, cr.holdsPermit = false) ∧ ∀ job ∈ s.jobs, job.holdsSlot = false

/-- **Job slots.**  In every run: at most `max_jobs` jobs are inside `produce`; every permit
taken went to one job or is held by its creation; a job has dropped its slot at most once,
and exactly once when its import starts; and with no holder every permit is available. -/
theorem job_slots (h : Run (Server.step cfg fs) (Server.init cfg store free) as s) :
    s.jobs.countP Job.inProduce ≤ cfg.maxJobs ∧
    as.countP Action.isAcquire = s.jobs.length + s.creations.countP Creation.holdsPermit ∧
    (∀ (j : ℕ) job, s.jobs[j]? = some job →
      as.countP (Action.isDropSlot j) = if job.holdsSlot then 0 else 1) ∧
    (∀ (j : ℕ) job spool, s.jobs[j]? = some job → job.phase = .importing spool →
      as.countP (Action.isDropSlot j) = 1) ∧
    (s.SlotsIdle → s.permits = cfg.maxJobs) := by
  have hsum := slots_conserved h
  have hl := slotLedger_of_run h
  refine ⟨?_, hl.acquired.symm, hl.released, ?_, ?_⟩
  · have hle : s.jobs.countP Job.inProduce ≤ s.jobs.countP Job.holdsSlot :=
      List.countP_mono_left fun job _ hp => Job.holdsSlot_of_inProduce hp
    unfold Server.slotHolders at hsum
    omega
  · intro j job spool hj hp
    rw [hl.released j job hj]
    simp [Job.holdsSlot, hp]
  · intro hboth
    obtain ⟨hcr, hjobs⟩ := hboth
    have hc0 : s.creations.countP Creation.holdsPermit = 0 := by
      rw [List.countP_eq_zero]
      intro cr hmem
      simp [hcr cr hmem]
    have hj0 : s.jobs.countP Job.holdsSlot = 0 := by
      rw [List.countP_eq_zero]
      intro job hmem
      simp [hjobs job hmem]
    unfold Server.slotHolders at hsum
    omega

/-- One streaming job of one slot: it is the one in `produce`, and has released nothing. -/
theorem job_slots_streaming :
    ∃ s : Server, Run (Server.step ⟨1, 10⟩ .exact) (Server.init ⟨1, 10⟩ (fun _ => none) 100) firstChunk s ∧
      s.jobs.countP Job.inProduce = 1 ∧ s.jobs.countP Job.inProduce ≤ Config.maxJobs ⟨1, 10⟩ := by
  have hreplay : ∃ s,
      Run (Server.step ⟨1, 10⟩ .exact) (Server.init ⟨1, 10⟩ (fun _ => none) 100) firstChunk s ∧
      (s.jobs.countP Job.inProduce == 1) = true :=
    run_exists_of_check (by decide +kernel)
  obtain ⟨s, hrun, hs⟩ := hreplay
  exact ⟨s, hrun, by simpa using hs, (job_slots hrun).1⟩

/-- A job that is made and not yet polled: none is inside `produce`, no creation is under
way, and a permit is out. -/
theorem slot_held_before_produce :
    ¬ ∀ (cfg : Config) (fs : SpoolFs) (store : String → Option ValidPathInfo) (free : ℕ)
      (as : List Action) (s : Server),
      Run (Server.step cfg fs) (Server.init cfg store free) as s →
      (∀ job ∈ s.jobs, job.inProduce = false) →
      (∀ cr ∈ s.creations, ∃ result, cr.phase = .ended result) →
      s.permits = cfg.maxJobs := by
  have hreplay : ∃ s,
      Run (Server.step ⟨1, 10⟩ .exact) (Server.init ⟨1, 10⟩ (fun _ => none) 100)
        [.arrive "a" "n", .attach 0, .cacheGet 0, .fetched 0 (some ⟨"a", "n", 3, "xz"⟩),
          .acquire 0, .spawn 0, .finalize 0] s ∧
      (s.jobs.all (fun job => !job.inProduce) && s.creations.all (fun cr => cr.result.isSome) &&
        s.permits == 0) = true :=
    run_exists_of_check (by decide +kernel)
  obtain ⟨s, hrun, hs⟩ := hreplay
  simp only [Bool.and_eq_true, List.all_eq_true, beq_iff_eq] at hs
  intro hclaim
  have hfull := hclaim _ _ _ _ _ s hrun (fun job hj => by simpa using hs.1.1 job hj) (by
    intro cr hmem
    have hsome := hs.1.2 cr hmem
    unfold Creation.result at hsome
    split at hsome
    · exact ⟨_, by assumption⟩
    · cases hsome)
  rw [hs.2] at hfull
  exact absurd hfull (by decide)

end BadgeOS.Harmonia
