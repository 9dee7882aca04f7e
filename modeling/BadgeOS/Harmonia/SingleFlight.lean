import BadgeOS.Harmonia.Registry

/-!
# Single flight per path

`registry` keeps at most one job per store-path hash between its creation and its terminal
state, whatever the interleaving of requests, creations and ends of jobs.  The invariant of
the registry speaks of fan-outs that have not called `registry.remove`; what is added here is
that a job publishes its terminal state before that call, so a running job is registered.
-/

namespace BadgeOS.Harmonia

open Function Transition

variable {cfg : Config} {fs : SpoolFs} {s s' : Server}
  {store : String → Option ValidPathInfo} {free : ℕ} {as : List Action}

/-! ### The terminal state -/

theorem publishedState_ne_running (res : Except String Bool) :
    publishedState res ≠ .running := by
  cases res <;> simp [publishedState]

/-- `done` is `Running` exactly up to `done_tx.send`, which sends something else. -/
def Job.Settled (job : Job) : Prop :=
  match job.phase with
  | .unspooling _ state | .returned state => job.done = .running ∧ state ≠ .running
  | .published | .evicted | .uncached | .ended => job.done ≠ .running
  | _ => job.done = .running

theorem Job.Move.settled {job job' : Job} {act : JobAct} {effect : Effect}
    (h : Job.Move cfg fs free job act job' effect) (hs : job.Settled) : job'.Settled := by
  cases h with
  | importRefused hp =>
      simp only [Job.Settled, hp] at hs
      exact ⟨hs, publishedState_ne_running _⟩
  | publish hp =>
      simp only [Job.Settled, hp] at hs
      exact hs.2
  | failedBare hp | failedSpooled hp | producedBare hp | flushFailed hp | imported hp =>
      simp only [Job.Settled, hp] at hs
      exact ⟨hs, by decide⟩
  | chunkStreamed hp _ _ | chunkSpooled hp _ _ | writeFails hp _ | eof hp _ | flushed hp _ =>
      simpa only [Job.Settled, hp] using hs
  | writeback hsp _ =>
      cases hp : job.phase <;>
        simp_all [Job.Settled, FanoutPhase.spool, FanoutPhase.withSpool]
  | createSpool hp | produceFails hp | writeOk hp | discard hp | dropSlot hp
  | producedSpooled hp | unspool hp | evict hp | uncache hp | dropJob hp =>
      simpa only [Job.Settled, hp] using hs

theorem settled_of_run (h : Run (Server.step cfg fs) (Server.init cfg store free) as s) :
    s.EachJob Job.Settled :=
  .of_run (fun _ _ => rfl) Job.Move.settled h

theorem Job.Settled.registered {job : Job} (hs : job.Settled) (hrun : job.done = .running) :
    job.Registered := by
  refine ⟨?_, ?_, ?_⟩ <;> intro hp <;> simp only [Job.Settled, hp] at hs <;> exact hs hrun

/-! ### Flights -/

/-- What can be under way for a path: a creation task, or the job it made. -/
inductive Flight
  | creation (c : ℕ)
  | job (j : ℕ)
  deriving DecidableEq, Repr

/-- The creation task has neither made its job nor failed. -/
def Creation.Starting (cr : Creation) : Prop :=
  cr.Open ∧ ∀ result, cr.phase ≠ .finalizing result

/-- What is between its creation and its terminal state for `hash`. -/
def Server.Flying (s : Server) (hash : String) : Flight → Prop
  | .creation c => ∃ cr, s.creations[c]? = some cr ∧ cr.hash = hash ∧ cr.Starting
  | .job j => ∃ job, s.jobs[j]? = some job ∧ job.hash = hash ∧ job.done = .running

/-- The job is inside `produce`, which holds its upstream GET. -/
def Job.inProduce (job : Job) : Bool :=
  match job.phase with
  | .producing _ | .writing _ _ | .discarding _ => true
  | _ => false

theorem Job.Settled.running_of_inProduce {job : Job} (hs : job.Settled)
    (hp : job.inProduce = true) : job.done = .running := by
  unfold Job.inProduce at hp
  unfold Job.Settled at hs
  split at hp
  · rename_i hph
    rwa [hph] at hs
  · rename_i hph
    rwa [hph] at hs
  · rename_i hph
    rwa [hph] at hs
  · cases hp

theorem registryInv_of_run
    (h : Run (Server.step cfg fs) (Server.init cfg store free) as s) : RegistryInv s :=
  h.invariant (fun _ _ _ hI _ hstep => hI.step hstep) (.init store free)

/-- A starting creation and a running job are never of one path. -/
theorem RegistryInv.not_both (hI : RegistryInv s) {c j : ℕ} {cr : Creation} {job : Job}
    (hc : s.creations[c]? = some cr) (hcs : cr.Starting) (hj : s.jobs[j]? = some job)
    (hr : job.Registered) : cr.hash ≠ job.hash := by
  intro heq
  have hslot := hI.creation c cr hc hcs.1
  rw [heq] at hslot
  rcases hI.job j job hj hr with hlive | ⟨d, dr, hd, hph, hdh⟩
  · rw [hlive] at hslot
    cases hslot
  · have hslot' := hI.creation d dr hd (.of_finalizing hph)
    rw [hdh, hslot] at hslot'
    cases hslot'
    rw [hc] at hd
    cases hd
    exact hcs.2 _ hph

theorem flying_unique (hI : RegistryInv s) (hset : s.EachJob Job.Settled) {hash : String}
    {f g : Flight} (hf : s.Flying hash f) (hg : s.Flying hash g) : f = g := by
  cases f with
  | creation c =>
      obtain ⟨cr, hc, rfl, hcs⟩ := hf
      cases g with
      | creation d =>
          obtain ⟨dr, hd, hdh, hds⟩ := hg
          have hslot := hI.creation c cr hc hcs.1
          have hslot' := hI.creation d dr hd hds.1
          rw [hdh, hslot] at hslot'
          cases hslot'
          rfl
      | job j =>
          obtain ⟨job, hj, hjh, hrun⟩ := hg
          exact absurd hjh.symm (hI.not_both hc hcs hj ((hset j job hj).registered hrun))
  | job i =>
      obtain ⟨a, hi, rfl, hrun⟩ := hf
      have ha := (hset i a hi).registered hrun
      cases g with
      | creation d =>
          obtain ⟨dr, hd, hdh, hds⟩ := hg
          exact absurd hdh (hI.not_both hd hds hi ha)
      | job j =>
          obtain ⟨b, hj, hjh, hrunb⟩ := hg
          have hb := (hset j b hj).registered hrunb
          rw [hI.unique hi hj ha hb hjh.symm]

/-- `registry.remove` at the end of job `j` takes at most the `Live` slot of `j`. -/
theorem evict_own (hI : RegistryInv s) {j : ℕ}
    (h : s.step cfg fs (.job j .evict) = some s') {hash : String}
    (hne : s'.registry hash ≠ s.registry hash) : s.registry hash = some (.live j) := by
  cases step_cases h with
  | @job j job _ act effect _ hj hm ha =>
      obtain ⟨hp, rfl⟩ : job.phase = .published ∧ effect = .evict := by
        cases hm with
        | evict hp => exact ⟨hp, rfl⟩
      have hreged : job.Registered := by simp [Job.Registered, hp]
      have hreg : s'.registry = registryRemove s.registry job.hash := by
        simpa using apply_registry ha
      rcases hI.job j job hj hreged with hslot | ⟨c, cr, hc, hph, hhash⟩
      · by_cases hh : hash = job.hash
        · rw [hh]
          exact hslot
        · have hsame : s'.registry hash = s.registry hash := by
            rw [hreg]
            simp [registryRemove, hslot, update_of_ne hh]
          exact absurd hsame hne
      · -- its creation has not installed it: `remove` meets a slot in progress
        have hslot := hI.creation c cr hc (.of_finalizing hph)
        rw [hhash] at hslot
        have hsame : s'.registry = s.registry := by
          rw [hreg]
          simp [registryRemove, hslot]
        exact absurd (congrFun hsame hash) hne
  | request _ hm => cases hm
  | narinfo _ hm => cases hm
  | creation _ hm => cases hm

/-- **Single flight.**  In every run: one flight per path, one upstream GET per path,
`remove` takes no slot but the job's own, and no slot in progress outlives its creation
task. -/
theorem single_flight (h : Run (Server.step cfg fs) (Server.init cfg store free) as s) :
    (∀ hash f g, s.Flying hash f → s.Flying hash g → f = g) ∧
    (∀ (i j : ℕ) a b, s.jobs[i]? = some a → s.jobs[j]? = some b → a.hash = b.hash →
      a.inProduce = true → b.inProduce = true → i = j) ∧
    (∀ j s', s.step cfg fs (.job j .evict) = some s' →
      ∀ hash, s'.registry hash ≠ s.registry hash → s.registry hash = some (.live j)) ∧
    (∀ hash c, s.registry hash = some (.inProgress c) →
      ∃ cr, s.creations[c]? = some cr ∧ cr.hash = hash ∧ ∀ result, cr.phase ≠ .ended result) := by
  have hI := registryInv_of_run h
  have hset := settled_of_run h
  refine ⟨?_, ?_, ?_, hI.inProgress⟩
  · intro hash f g hf hg
    exact flying_unique hI hset hf hg
  · intro i j a b hi hj hash hpa hpb
    have ha := (hset i a hi).registered ((hset i a hi).running_of_inProduce hpa)
    have hb := (hset j b hj).registered ((hset j b hj).running_of_inProduce hpb)
    exact hI.unique hi hj ha hb hash
  · intro j s' hstep hash hne
    exact evict_own hI hstep hne

/-- One request, up to the first chunk of its job. -/
def firstChunk : List Action :=
  [.arrive "a" "n", .attach 0, .cacheGet 0, .fetched 0 (some ⟨"a", "n", 3, "xz"⟩), .acquire 0,
    .spawn 0, .finalize 0, .job 0 (.createSpool true true), .job 0 (.chunk [1, 2, 3])]

/-- A job that streams is the only flight of its path. -/
theorem single_flight_streaming :
    ∃ s : Server, Run (Server.step ⟨1, 10⟩ .exact) (Server.init ⟨1, 10⟩ (fun _ => none) 100) firstChunk s ∧
      s.Flying "a" (.job 0) ∧ ∀ f, s.Flying "a" f → f = .job 0 := by
  have hreplay : ∃ s,
      Run (Server.step ⟨1, 10⟩ .exact) (Server.init ⟨1, 10⟩ (fun _ => none) 100) firstChunk s ∧
      (s.jobs[0]?.any fun job => job.hash == "a" && job.done == .running) = true :=
    run_exists_of_check (by decide +kernel)
  obtain ⟨s, hrun, hs⟩ := hreplay
  have hfly : s.Flying "a" (.job 0) := by
    obtain ⟨job, hj, hp⟩ := (Option.any_eq_true _ _).1 hs
    exact ⟨job, hj, by simpa using hp⟩
  exact ⟨s, hrun, hfly, fun f hf => (single_flight hrun).1 "a" f (.job 0) hf hfly⟩

end BadgeOS.Harmonia
