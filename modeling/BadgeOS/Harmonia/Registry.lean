import BadgeOS.Harmonia.Moves

/-!
# The registry: one job per path in flight

A registry slot passes through `InProgress`, `Live`, a dead `Live` and absence under three
writers: `attach`, the finalizer of a creation, and the end of a fan-out.  `RegistryInv` says
what each slot stands for:

* a slot in progress belongs to exactly the creation that has not been finalized;
* a job whose fan-out has not called `registry.remove` holds its slot, or is about to get it
  from the creation that made it.

So no second creation starts for a path while a job of it runs, even when a fan-out is
through before the finalizer of its own creation.
-/

namespace BadgeOS.Harmonia

open Function Transition

variable {cfg : Config} {fs : SpoolFs} {s s' : Server}

/-! ### The invariant -/

/-- The creation's finalizer has not run. -/
def Creation.Open (cr : Creation) : Prop := ∀ result, cr.phase ≠ .ended result

/-- The job's fan-out has not called `registry.remove`. -/
def Job.Registered (job : Job) : Prop :=
  job.phase ≠ .evicted ∧ job.phase ≠ .uncached ∧ job.phase ≠ .ended

structure RegistryInv (s : Server) : Prop where
  /-- A slot in progress is the slot of an open creation. -/
  inProgress : ∀ hash c, s.registry hash = some (.inProgress c) →
    ∃ cr, s.creations[c]? = some cr ∧ cr.hash = hash ∧ cr.Open
  /-- An open creation holds its slot. -/
  creation : ∀ (c : ℕ) (cr : Creation), s.creations[c]? = some cr → cr.Open →
    s.registry cr.hash = some (.inProgress c)
  /-- A registered job holds its slot, or is about to. -/
  job : ∀ (j : ℕ) (job : Job), s.jobs[j]? = some job → job.Registered →
    s.registry job.hash = some (.live j) ∨
      ∃ (c : ℕ) (cr : Creation), s.creations[c]? = some cr ∧
        cr.phase = .finalizing (some j) ∧ cr.hash = job.hash

theorem Creation.Open.of_finalizing {cr : Creation} {result : Option ℕ}
    (h : cr.phase = .finalizing result) : cr.Open := by
  intro result' h'
  rw [h] at h'
  cases h'

/-- A slot whose plan is to create belongs to no open creation. -/
theorem RegistryInv.noCreation (hI : RegistryInv s) {hash : String}
    (hplan : s.plan hash = .create) {c : ℕ} {cr : Creation} (hc : s.creations[c]? = some cr)
    (ho : cr.Open) : cr.hash ≠ hash := by
  intro heq
  subst heq
  have hslot := hI.creation c cr hc ho
  simp [Server.plan, hslot] at hplan

/-- ... and to no registered job: the `Weak` of one can be upgraded. -/
theorem RegistryInv.noJob (hI : RegistryInv s) {hash : String} (hplan : s.plan hash = .create)
    {j : ℕ} {job : Job} (hj : s.jobs[j]? = some job) (hr : job.Registered) :
    job.hash ≠ hash := by
  intro heq
  subst heq
  rcases hI.job j job hj hr with hslot | ⟨c, cr, hc, hph, hhash⟩
  · have halive : s.alive j = true := by simp [Server.alive, hj, hr.2.2]
    simp only [Server.plan, hslot, halive, if_true] at hplan
    split at hplan <;> cases hplan
  · exact hI.noCreation hplan hc (.of_finalizing hph) hhash

/-- Two registered jobs of one path are one job. -/
theorem RegistryInv.unique (hI : RegistryInv s) {i j : ℕ} {a b : Job}
    (hi : s.jobs[i]? = some a) (hj : s.jobs[j]? = some b) (ha : a.Registered)
    (hb : b.Registered) (hash : a.hash = b.hash) : i = j := by
  rcases hI.job i a hi ha with hsa | ⟨c, cr, hc, hph, hcr⟩
  · rcases hI.job j b hj hb with hsb | ⟨d, dr, hd, hqh, hdr⟩
    · rw [← hash, hsa] at hsb
      cases hsb
      rfl
    · have hslot := hI.creation d dr hd (.of_finalizing hqh)
      rw [hdr, ← hash, hsa] at hslot
      cases hslot
  · have hslot := hI.creation c cr hc (.of_finalizing hph)
    rcases hI.job j b hj hb with hsb | ⟨d, dr, hd, hqh, hdr⟩
    · rw [hcr, hash, hsb] at hslot
      cases hslot
    · have hslot' := hI.creation d dr hd (.of_finalizing hqh)
      -- one slot, so one creation, so one result
      rw [hcr, hash, ← hdr, hslot'] at hslot
      cases hslot
      rw [hc] at hd
      cases hd
      rw [hph] at hqh
      cases hqh
      rfl

/-! ### Preservation -/

theorem RegistryInv.congr (hI : RegistryInv s) (hreg : s'.registry = s.registry)
    (hcr : s'.creations = s.creations) (hjobs : s'.jobs = s.jobs) : RegistryInv s' := by
  obtain ⟨h1, h2, h3⟩ := hI
  refine ⟨?_, ?_, ?_⟩
  · rw [hreg, hcr]; exact h1
  · rw [hreg, hcr]; exact h2
  · rw [hreg, hcr, hjobs]; exact h3

/-- A creation that stays open and has not made a job moves on. -/
theorem RegistryInv.setCreation (hI : RegistryInv s) {c : ℕ} {cr : Creation}
    {p : CreationPhase} (hc : s.creations[c]? = some cr) (hopen : cr.Open)
    (hnone : ∀ j, cr.phase ≠ .finalizing (some j)) (hp : ∀ result, p ≠ .ended result) :
    RegistryInv (s.setCreation c cr p) := by
  refine ⟨?_, ?_, ?_⟩
  · intro hash d hslot
    obtain ⟨dr, hd, hhash, ho⟩ := hI.inProgress hash d hslot
    show ∃ dr', (s.creations.set c { cr with phase := p })[d]? = some dr' ∧ _
    rw [Table.get_set hc]
    by_cases hcd : c = d
    · subst hcd
      rw [hc] at hd
      cases hd
      exact ⟨_, if_pos rfl, hhash, hp⟩
    · exact ⟨dr, (if_neg hcd).trans hd, hhash, ho⟩
  · intro d dr hd ho
    have hd' : (s.creations.set c { cr with phase := p })[d]? = some dr := hd
    rw [Table.get_set hc] at hd'
    split at hd'
    · rename_i hcd
      subst hcd
      cases hd'
      exact hI.creation c cr hc hopen
    · exact hI.creation d dr hd' ho
  · intro j job hj hr
    rcases hI.job j job hj hr with hslot | ⟨d, dr, hd, hph, hhash⟩
    · exact .inl hslot
    · refine .inr ⟨d, dr, ?_, hph, hhash⟩
      show (s.creations.set c { cr with phase := p })[d]? = some dr
      rw [Table.get_set hc, if_neg]
      · exact hd
      · intro heq
        subst heq
        rw [hc] at hd
        cases hd
        exact hnone j hph

theorem RegistryInv.create (hI : RegistryInv s) {r : ℕ} {req : Request} {phase : RequestPhase}
    (hplan : s.plan req.hash = .create) :
    RegistryInv { s with
      registry := update s.registry req.hash (some (.inProgress s.creations.length))
      creations := s.creations ++ [{ hash := req.hash, phase := .resolving }]
      requests := s.requests.set r { req with phase } } := by
  have hold {c : ℕ} {cr : Creation} (hc : s.creations[c]? = some cr) :
      (s.creations ++ [{ hash := req.hash, phase := .resolving }])[c]? = some cr := by
    rw [Table.get_push, if_neg]
    · exact hc
    · exact (Table.lt_of_get hc).ne
  refine ⟨?_, ?_, ?_⟩
  · intro hash c hslot
    by_cases hh : hash = req.hash
    · subst hh
      obtain rfl : s.creations.length = c := by simpa using hslot
      refine ⟨{ hash := req.hash, phase := .resolving }, by simp, rfl, ?_⟩
      intro result hr
      cases hr
    · have hslot' : s.registry hash = some (.inProgress c) := by
        simpa [update_of_ne hh] using hslot
      obtain ⟨cr, hc, hhash, ho⟩ := hI.inProgress hash c hslot'
      exact ⟨cr, hold hc, hhash, ho⟩
  · intro c cr hc ho
    have hc' : (s.creations ++ [{ hash := req.hash, phase := .resolving }])[c]? = some cr := hc
    rw [Table.get_push] at hc'
    split at hc'
    · rename_i hlen
      subst hlen
      cases hc'
      exact update_self ..
    · have hne := hI.noCreation hplan hc' ho
      show update s.registry _ _ cr.hash = _
      rw [update_of_ne hne]
      exact hI.creation c cr hc' ho
  · intro j job hj hr
    have hne := hI.noJob hplan hj hr
    rcases hI.job j job hj hr with hslot | ⟨c, cr, hc, hph, hhash⟩
    · refine .inl ?_
      show update s.registry _ _ job.hash = _
      rw [update_of_ne hne]
      exact hslot
    · exact .inr ⟨c, cr, hold hc, hph, hhash⟩

theorem RegistryInv.spawn (hI : RegistryInv s) {c : ℕ} {cr : Creation} {up : UpstreamNarInfo}
    (hc : s.creations[c]? = some cr) (hph : cr.phase = .slotWon up) :
    RegistryInv { s.setCreation c cr (.finalizing (some s.jobs.length)) with
      jobs := s.jobs ++ [Job.new cr.hash up] } := by
  have hopen : cr.Open := fun result h => by rw [hph] at h; cases h
  have hI' : RegistryInv (s.setCreation c cr (.finalizing (some s.jobs.length))) :=
    hI.setCreation hc hopen (fun j h => by rw [hph] at h; cases h) (fun result h => by cases h)
  refine ⟨hI'.inProgress, hI'.creation, ?_⟩
  intro j job hj hr
  have hj' : (s.jobs ++ [Job.new cr.hash up])[j]? = some job := hj
  rw [Table.get_push] at hj'
  split at hj'
  · -- the new job: its creation is the one about to be finalized
    rename_i hlen
    subst hlen
    cases hj'
    refine .inr ⟨c, { cr with phase := .finalizing (some s.jobs.length) }, ?_, rfl, rfl⟩
    show (s.creations.set c _)[c]? = _
    rw [Table.get_set hc, if_pos rfl]
  · exact hI'.job j job hj' hr

theorem RegistryInv.finalize (hI : RegistryInv s) {c : ℕ} {cr : Creation} {result : Option ℕ}
    (hc : s.creations[c]? = some cr) (hph : cr.phase = .finalizing result) :
    RegistryInv { s.setCreation c cr (.ended result) with
      registry := registryFinalize s.registry cr.hash result } := by
  have hslot := hI.creation c cr hc (.of_finalizing hph)
  have hreg : registryFinalize s.registry cr.hash result =
      update s.registry cr.hash (result.map .live) := by
    simp [registryFinalize, hslot]
  have hother {d : ℕ} {dr : Creation} (hd : s.creations[d]? = some dr) (hne : c ≠ d) :
      (s.creations.set c { cr with phase := .ended result })[d]? = some dr := by
    rw [Table.get_set hc, if_neg hne]
    exact hd
  -- another open creation is one of another path
  have hhash {d : ℕ} {dr : Creation} (hd : s.creations[d]? = some dr) (ho : dr.Open)
      (hne : c ≠ d) : dr.hash ≠ cr.hash := by
    intro heq
    have h := hI.creation d dr hd ho
    rw [heq, hslot] at h
    cases h
    exact hne rfl
  refine ⟨?_, ?_, ?_⟩
  · intro hash d h
    have h' : registryFinalize s.registry cr.hash result hash = some (.inProgress d) := h
    rw [hreg] at h'
    by_cases hh : hash = cr.hash
    · subst hh
      cases result <;> simp at h'
    · rw [update_of_ne hh] at h'
      obtain ⟨dr, hd, hdh, ho⟩ := hI.inProgress hash d h'
      refine ⟨dr, hother hd ?_, hdh, ho⟩
      intro heq
      subst heq
      rw [hc] at hd
      cases hd
      exact hh hdh.symm
  · intro d dr hd ho
    have hd' : (s.creations.set c { cr with phase := .ended result })[d]? = some dr := hd
    rw [Table.get_set hc] at hd'
    split at hd'
    · cases hd'
      exact absurd rfl (ho result)
    · rename_i hne
      show registryFinalize s.registry cr.hash result dr.hash = _
      rw [hreg, update_of_ne (hhash hd' ho hne)]
      exact hI.creation d dr hd' ho
  · intro j job hj hr
    rcases hI.job j job hj hr with h | ⟨d, dr, hd, hdp, hdh⟩
    · refine .inl ?_
      show registryFinalize s.registry cr.hash result job.hash = _
      rw [hreg, update_of_ne]
      · exact h
      · intro heq
        rw [heq, hslot] at h
        cases h
    · by_cases hcd : c = d
      · -- its own creation: the slot becomes `Live`
        subst hcd
        rw [hc] at hd
        cases hd
        rw [hph] at hdp
        cases hdp
        refine .inl ?_
        show registryFinalize s.registry cr.hash (some j) job.hash = _
        rw [hreg, ← hdh, update_self]
        rfl
      · exact .inr ⟨d, dr, hother hd hcd, hdp, hdh⟩

/-- A move of a fan-out task other than its `registry.remove` leaves it as registered as it
was. -/
theorem Job.Move.registered {free : ℕ} {job job' : Job} {act : JobAct} {effect : Effect}
    (h : Job.Move cfg fs free job act job' effect) (hr : job'.Registered) : job.Registered := by
  cases h with
  | evict => exact absurd rfl hr.1
  | uncache => exact absurd rfl hr.2.1
  | dropJob => exact absurd rfl hr.2.2
  | chunkStreamed hp _ _ | chunkSpooled hp _ _ => simp [Job.Registered, hp]
  | writeFails hp _ | eof hp _ | flushed hp _ => simp [Job.Registered, hp]
  | writeback hsp _ =>
      cases hp : job.phase <;> simp [Job.Registered, FanoutPhase.spool, hp] at hsp ⊢
  | _ => rename_i hp; simp [Job.Registered, hp]

theorem RegistryInv.moveJob (hI : RegistryInv s) {j : ℕ} {job job' : Job} {act : JobAct}
    {effect : Effect} (hj : s.jobs[j]? = some job)
    (hm : Job.Move cfg fs s.free job act job' effect)
    (ha : Server.apply { s with jobs := s.jobs.set j job' } job effect = some s') :
    RegistryInv s' := by
  obtain ⟨hcr, hjobs, -, -⟩ := apply_tables ha
  have hreg := apply_registry ha
  -- what a registered job of the new table was before the move
  have hback {i : ℕ} {b : Job} (hb : (s.jobs.set j job')[i]? = some b) (hr : b.Registered) :
      ∃ a, s.jobs[i]? = some a ∧ a.Registered ∧ a.hash = b.hash := by
    rw [Table.get_set hj] at hb
    split at hb
    · rename_i hij
      subst hij
      cases hb
      exact ⟨job, hj, hm.registered hr, hm.keeps.1.symm⟩
    · exact ⟨b, hb, hr, rfl⟩
  by_cases he : effect = .evict
  · rw [if_pos he] at hreg
    have hpub : job.phase = .published ∧ job' = { job with phase := .evicted } := by
      cases hm with
      | evict hp => exact ⟨hp, rfl⟩
      | _ => cases he
    have hreged : job.Registered := by simp [Job.Registered, hpub.1]
    -- the slot is the job's own, or its creation's
    rcases hI.job j job hj hreged with hslot | ⟨c, cr, hc, hph, hhash⟩
    · have hreg' : s'.registry = update s.registry job.hash none := by
        rw [hreg]
        simp [registryRemove, hslot]
      refine ⟨?_, ?_, ?_⟩
      · intro hash d h
        rw [hreg'] at h
        rw [hcr]
        by_cases hh : hash = job.hash
        · subst hh
          simp at h
        · rw [update_of_ne hh] at h
          exact hI.inProgress hash d h
      · intro d dr hd ho
        rw [hcr] at hd
        have h := hI.creation d dr hd ho
        rw [hreg', update_of_ne]
        · exact h
        · intro heq
          rw [heq, hslot] at h
          cases h
      · intro i b hb hr
        rw [hjobs] at hb
        obtain ⟨a, ha', hra, hash⟩ := hback hb hr
        have hne : a.hash ≠ job.hash := by
          intro heq
          have hij := hI.unique ha' hj hra hreged heq
          subst hij
          -- the job itself is not registered any more
          rw [Table.get_set hj, if_pos rfl] at hb
          cases hb
          rw [hpub.2] at hr
          exact hr.1 rfl
        rw [hreg', hcr, ← hash, update_of_ne hne]
        exact hI.job i a ha' hra
    · have hslot := hI.creation c cr hc (.of_finalizing hph)
      rw [hhash] at hslot
      have hreg' : s'.registry = s.registry := by
        rw [hreg]
        simp [registryRemove, hslot]
      refine ⟨?_, ?_, ?_⟩
      · rw [hreg', hcr]; exact hI.inProgress
      · rw [hreg', hcr]; exact hI.creation
      · intro i b hb hr
        rw [hjobs] at hb
        obtain ⟨a, ha', hra, hash⟩ := hback hb hr
        rw [hreg', hcr, ← hash]
        exact hI.job i a ha' hra
  · rw [if_neg he] at hreg
    refine ⟨?_, ?_, ?_⟩
    · rw [hreg, hcr]; exact hI.inProgress
    · rw [hreg, hcr]; exact hI.creation
    · intro i b hb hr
      rw [hjobs] at hb
      obtain ⟨a, ha', hra, hash⟩ := hback hb hr
      rw [hreg, hcr, ← hash]
      exact hI.job i a ha' hra

theorem RegistryInv.step {a : Action} (hI : RegistryInv s) (h : s.step cfg fs a = some s') :
    RegistryInv s' := by
  cases step_cases h with
  | create hr hp hplan => exact hI.create hplan
  | creation hc hm =>
      cases hm with
      | hit hp _ | miss hp _ | unresolved hp | slotTimeout hp =>
          exact hI.setCreation hc (fun result h => by rw [hp] at h; cases h)
            (fun j h => by rw [hp] at h; cases h) (fun result h => by cases h)
  | @fetched _ _ up hc hp =>
      have h' := hI.setCreation (p := .waiting up) hc (fun result h => by rw [hp] at h; cases h)
        (fun j h => by rw [hp] at h; cases h) (fun result h => by cases h)
      exact h'.congr rfl rfl rfl
  | @acquire _ _ up hc hp _ =>
      have h' := hI.setCreation (p := .slotWon up) hc (fun result h => by rw [hp] at h; cases h)
        (fun j h => by rw [hp] at h; cases h) (fun result h => by cases h)
      exact h'.congr rfl rfl rfl
  | spawn hc hp => exact hI.spawn hc hp
  | finalize hc hp => exact hI.finalize hc hp
  | job hj hm ha => exact hI.moveJob hj hm ha
  | _ => exact hI.congr rfl rfl rfl

theorem RegistryInv.init (store : String → Option ValidPathInfo) (free : ℕ) :
    RegistryInv (Server.init cfg store free) := by
  refine ⟨?_, ?_, ?_⟩
  · intro hash c h; cases h
  · intro c cr h; simp [Server.init] at h
  · intro j job h; simp [Server.init] at h

end BadgeOS.Harmonia
