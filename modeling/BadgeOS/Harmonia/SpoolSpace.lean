import BadgeOS.Harmonia.Moves

/-!
# The free space a spool leaves

`Spool::create` looks at the free space once, before a byte is written, and at its own NAR
only.  What it would have to look at is what the spools already open may still take: their
`reserve`.  While every accepted check leaves room for all reserves, and no stream is longer
than its `NarSize`, the floor and the reserves together stay within the free space; without
either, the floor is broken.
-/

namespace BadgeOS.Harmonia

open Function Transition

variable {cfg : Config} {fs : SpoolFs} {s s' : Server}
  {store : String → Option ValidPathInfo} {free : ℕ} {as : List Action} {a : Action}

/-! ### Reserves -/

/-- The length a spool may reach: the whole NAR while chunks may come, then what is written.
A job whose NAR can't be decoded broadcasts nothing. -/
def Job.spoolLimit (job : Job) (sp : Spool) : ℕ :=
  match job.phase with
  | .producing _ | .writing _ _ => if job.up.decodable then job.up.narSize else 0
  | _ => sp.written

/-- The space an open spool may still take. -/
def Job.reserve (fs : SpoolFs) (job : Job) : ℕ :=
  match job.phase.spool with
  | some sp => fs.occupied (job.spoolLimit sp) - fs.occupied sp.disk
  | none => 0

/-- The space all open spools may still take. -/
def Server.reserved (fs : SpoolFs) (s : Server) : ℕ := (s.jobs.map (Job.reserve fs)).sum

/-- The chunk broadcast and not yet written. -/
def FanoutPhase.pending : FanoutPhase → ℕ
  | .writing _ c => c.length
  | _ => 0

/-- A spool holds at most what was decoded, and that is at most `NarSize`. -/
structure Job.SpoolBounded (job : Job) : Prop where
  fresh : job.phase = .spawned → job.total = 0
  undecodable : job.up.decodable = false → job.total = 0
  flushed : ∀ sp, job.phase.spool = some sp → sp.disk ≤ sp.written
  written : ∀ sp, job.phase.spool = some sp → sp.written + job.phase.pending ≤ job.total
  total : ∀ sp, job.phase.spool = some sp → job.total ≤ job.up.narSize

/-- The condition on one action: a check that is passed leaves room for every reserve and the
new spool, and a spooled stream is no longer than its `NarSize`. -/
def roomForAll (cfg : Config) (fs : SpoolFs) (s : Server) : Action → Bool
  | .job j (.createSpool statvfsOk opened) =>
      s.jobs[j]?.all fun job =>
        !(job.up.decodable &&
          (Spool.create cfg (if statvfsOk then some s.free else none) job.up opened).isSome) ||
        cfg.missMinFreeBytes + s.reserved fs + fs.occupied job.up.narSize ≤ s.free
  | .job j (.chunk c) =>
      s.jobs[j]?.all fun job =>
        !job.phase.spool.isSome || job.total + c.length ≤ job.up.narSize
  | _ => true

theorem roomForAll_create {j : ℕ} {job : Job} {v o : Bool} (hj : s.jobs[j]? = some job)
    (h : roomForAll cfg fs s (.job j (.createSpool v o)) = true)
    (hd : job.up.decodable = true)
    (hsome : (Spool.create cfg (if v then some s.free else none) job.up o).isSome) :
    cfg.missMinFreeBytes + s.reserved fs + fs.occupied job.up.narSize ≤ s.free := by
  simp only [roomForAll, hj, Option.all_some, hd, hsome] at h
  exact of_decide_eq_true (by simpa using h)

theorem roomForAll_chunk {j : ℕ} {job : Job} {c : Chunk} (hj : s.jobs[j]? = some job)
    (h : roomForAll cfg fs s (.job j (.chunk c)) = true) (hsome : job.phase.spool.isSome) :
    job.total + c.length ≤ job.up.narSize := by
  simp only [roomForAll, hj, Option.all_some, hsome] at h
  exact of_decide_eq_true (by simpa using h)

theorem Job.SpoolBounded.new (hash : String) (up : UpstreamNarInfo) :
    (Job.new hash up).SpoolBounded := by
  refine ⟨fun _ => rfl, fun _ => rfl, ?_, ?_, ?_⟩ <;> intro sp h <;> cases h

theorem Spool.create_eq {statvfs : Option ℕ} {up : UpstreamNarInfo} {opened : Bool} {sp : Spool}
    (h : Spool.create cfg statvfs up opened = some sp) : sp = ⟨0, 0⟩ := by
  unfold Spool.create at h
  split at h
  · cases h
  · split at h
    · cases h
    · split at h
      · cases h
        rfl
      · cases h

theorem withSpool_spool {phase : FanoutPhase} {sp : Spool} (sp' : Spool)
    (h : phase.spool = some sp) :
    (phase.withSpool sp').spool = some sp' := by
  cases phase <;> first | rfl | cases h

theorem withSpool_pending (phase : FanoutPhase) (sp : Spool) :
    (phase.withSpool sp).pending = phase.pending := by
  cases phase <;> rfl

theorem Job.Move.spoolBounded {job job' : Job} {act : JobAct} {effect : Effect}
    (h : Job.Move cfg fs free job act job' effect) (hb : job.SpoolBounded)
    (hchunk : ∀ c, act = .chunk c → job.phase.spool.isSome →
      job.total + c.length ≤ job.up.narSize) : job'.SpoolBounded := by
  obtain ⟨h1, h2, h3, h4, h5⟩ := hb
  cases h with
  | createSpool hp =>
      refine ⟨(fun h => by cases h), h2, ?_, ?_, ?_⟩ <;> intro sp hsp <;>
        obtain rfl := Spool.create_eq hsp
      · rfl
      · exact Nat.zero_le _
      · show job.total ≤ job.up.narSize
        rw [h1 hp]
        exact Nat.zero_le _
  | chunkStreamed hp hc hd =>
      refine ⟨(fun h => by cases h), fun h => ?_, ?_, ?_, ?_⟩
      · rw [hd] at h
        cases h
      all_goals
        intro sp hsp
        cases hsp
  | @chunkSpooled c sp hp hc hd =>
      have hsp : job.phase.spool = some sp := by rw [hp]; rfl
      have hlen := hchunk c rfl (by rw [hsp]; rfl)
      have hw := h4 sp hsp
      rw [hp] at hw
      refine ⟨(fun h => by cases h), fun h => ?_, ?_, ?_, ?_⟩
      · rw [hd] at h
        cases h
      all_goals
        intro sp' hsp'
        cases hsp'
      · exact h3 sp hsp
      · show sp.written + c.length ≤ job.total + c.length
        exact Nat.add_le_add_right hw _
      · exact hlen
  | @writeOk sp c hp =>
      have hsp : job.phase.spool = some sp := by rw [hp]; rfl
      have hw := h4 sp hsp
      have hd := h3 sp hsp
      rw [hp] at hw
      refine ⟨(fun h => by cases h), h2, ?_, ?_, ?_⟩ <;> intro sp' hsp' <;> cases hsp'
      · exact hd.trans (Nat.le_add_right _ _)
      · exact hw
      · exact h5 sp hsp
  | @writeFails sp c bytes hp hle =>
      have hsp : job.phase.spool = some sp := by rw [hp]; rfl
      have hw := h4 sp hsp
      have hd := h3 sp hsp
      rw [hp] at hw
      refine ⟨(fun h => by cases h), h2, ?_, ?_, ?_⟩ <;> intro sp' hsp' <;> cases hsp'
      · exact hd.trans (Nat.le_add_right _ _)
      · show sp.written + bytes + 0 ≤ job.total
        have hw' : sp.written + c.length ≤ job.total := hw
        omega
      · exact h5 sp hsp
  | @writeback sp bytes hsp hle =>
      have hnew := withSpool_spool { sp with disk := sp.disk + bytes } hsp
      refine ⟨?_, h2, ?_, ?_, ?_⟩
      · intro hp
        rw [show job.phase.withSpool _ = .spawned from hp] at hnew
        cases hnew
      all_goals
        intro sp' hsp'
        obtain rfl := Option.some.inj (hnew.symm.trans hsp')
      · exact hle
      · show sp.written + (job.phase.withSpool _).pending ≤ job.total
        rw [withSpool_pending]
        exact h4 sp hsp
      · exact h5 sp hsp
  | produceFails hp | eof hp _ | dropSlot hp | producedSpooled hp =>
      simp only [hp] at h3 h4 h5
      exact ⟨(fun h => by cases h), h2, h3, h4, h5⟩
  | discard hp | failedBare hp | failedSpooled hp | producedBare hp | flushed hp _
  | flushFailed hp | imported hp | importRefused hp | unspool hp | publish hp | evict hp
  | uncache hp | dropJob hp =>
      refine ⟨(fun h => by cases h), h2, ?_, ?_, ?_⟩ <;> intro sp hsp <;> cases hsp

/-! ### One move of a fan-out task -/

theorem spoolLimit_withSpool {job : Job} {sp : Spool} {disk : ℕ} :
    Job.spoolLimit { job with phase := job.phase.withSpool { sp with disk } } { sp with disk } =
      job.spoolLimit sp := by
  cases hp : job.phase <;> simp [Job.spoolLimit, FanoutPhase.withSpool, hp]

/-- What is written, or is about to be, is within the limit. -/
theorem Job.SpoolBounded.le_limit {job : Job} {sp : Spool} (hb : job.SpoolBounded)
    (hsp : job.phase.spool = some sp) :
    sp.written + job.phase.pending ≤ job.spoolLimit sp := by
  have hw := hb.written sp hsp
  have ht := hb.total sp hsp
  have hall : job.total ≤ if job.up.decodable then job.up.narSize else 0 := by
    split
    · exact ht
    · rename_i hd
      rw [hb.undecodable (by simpa using hd)]
  cases hp : job.phase <;> rw [hp] at hw <;> simp only [Job.spoolLimit, hp] <;>
    first
    | exact hw.trans hall
    | exact le_rfl

/-- No move but `Spool::create` makes the floor and the reserves outgrow the free space: what
it takes from the filesystem it takes from its own reserve. -/
theorem Job.Move.reserve {job job' : Job} {act : JobAct} {effect : Effect}
    (h : Job.Move cfg fs free job act job' effect) (hb : job.SpoolBounded)
    (hcreate : ∀ v o, act ≠ .createSpool v o) :
    job'.reserve fs + effect.allocated ≤ job.reserve fs + effect.freed := by
  cases h with
  | createSpool hp => exact absurd rfl (hcreate _ _)
  | @writeback sp bytes hsp hle =>
      have hnew := withSpool_spool { sp with disk := sp.disk + bytes } hsp
      have hlimit := (Nat.le_add_right _ _).trans (hb.le_limit hsp)
      have h1 : fs.occupied sp.disk ≤ fs.occupied (sp.disk + bytes) := fs.occupied_mono (by omega)
      have h2 : fs.occupied (sp.disk + bytes) ≤ fs.occupied (job.spoolLimit sp) :=
        fs.occupied_mono (hle.trans hlimit)
      simp only [Job.reserve, hnew, hsp, spoolLimit_withSpool, Effect.allocated, Effect.freed]
      omega
  | @produceFails spool hp | @eof spool hp _ =>
      cases spool with
      | none => simp [Job.reserve, FanoutPhase.spool, hp, Effect.allocated]
      | some sp =>
          -- from here on only what is written can still reach the filesystem
          have hsp : job.phase.spool = some sp := by rw [hp]; rfl
          have hlimit := hb.le_limit hsp
          have hocc : fs.occupied sp.written ≤ fs.occupied (job.spoolLimit sp) :=
            fs.occupied_mono ((Nat.le_add_right _ _).trans hlimit)
          simp only [Job.spoolLimit, hp] at hocc
          simp only [Job.reserve, Job.spoolLimit, FanoutPhase.spool, hp, Effect.allocated,
            Effect.freed]
          omega
  | @writeFails sp c bytes hp hle =>
      have hsp : job.phase.spool = some sp := by rw [hp]; rfl
      have hlimit := hb.le_limit hsp
      rw [hp] at hlimit
      have hocc : fs.occupied (sp.written + bytes) ≤ fs.occupied (job.spoolLimit sp) :=
        fs.occupied_mono ((Nat.add_le_add_left hle _).trans hlimit)
      simp only [Job.spoolLimit, hp] at hocc
      simp only [Job.reserve, Job.spoolLimit, FanoutPhase.spool, hp, Effect.allocated,
        Effect.freed]
      omega
  | chunkStreamed hp _ _ | chunkSpooled hp _ _ | writeOk hp | failedBare hp | producedBare hp
  | producedSpooled hp | imported hp | importRefused hp | publish hp | evict hp | uncache hp
  | dropJob hp =>
      simp [Job.reserve, Job.spoolLimit, FanoutPhase.spool, hp, Effect.allocated]
  | @dropSlot success spool hp =>
      cases spool <;>
        simp [Job.reserve, Job.spoolLimit, FanoutPhase.spool, hp, Effect.allocated]
  | discard hp | failedSpooled hp | flushed hp _ | flushFailed hp | unspool hp =>
      simp [Job.reserve, FanoutPhase.spool, hp, Effect.allocated]

/-- The reserve that `Spool::create` opens fits when its room was there. -/
theorem reserve_created {job : Job} {statvfs : Option ℕ} {opened : Bool} {n : ℕ} (hn : n ≤ free)
    (hroom : job.up.decodable = true → (Spool.create cfg statvfs job.up opened).isSome →
      n + fs.occupied job.up.narSize ≤ free) :
    n + Job.reserve fs { job with phase := .producing (Spool.create cfg statvfs job.up opened) } ≤
      free := by
  cases hc : Spool.create cfg statvfs job.up opened with
  | none => simpa [Job.reserve, FanoutPhase.spool] using hn
  | some sp =>
      obtain rfl := Spool.create_eq hc
      by_cases hd : job.up.decodable = true
      · have := hroom hd (by rw [hc]; rfl)
        simpa [Job.reserve, Job.spoolLimit, FanoutPhase.spool, hd, fs.occupied_zero] using this
      · simpa [Job.reserve, Job.spoolLimit, FanoutPhase.spool, hd, fs.occupied_zero] using hn

/-! ### Runs -/

/-- The floor and every reserve fit into the free space, over bounded spools. -/
structure SpoolsFit (cfg : Config) (fs : SpoolFs) (s : Server) : Prop where
  bounded : s.EachJob Job.SpoolBounded
  fit : cfg.missMinFreeBytes + s.reserved fs ≤ s.free

theorem SpoolsFit.step (hI : SpoolsFit cfg fs s) (hG : roomForAll cfg fs s a = true)
    (h : s.step cfg fs a = some s') : SpoolsFit cfg fs s' := by
  refine ⟨?_, ?_⟩
  · refine hI.bounded.step h Job.SpoolBounded.new ?_
    rintro j job act job' effect rfl hj hm hb
    refine hm.spoolBounded hb ?_
    rintro c rfl hsome
    exact roomForAll_chunk hj hG hsome
  · have hfit := hI.fit
    cases step_cases h with
    | @job j job job' act effect _ hj hm ha =>
        have hb := hI.bounded j job hj
        have hsum := Table.sum_map_set (b := job') (Job.reserve fs) hj
        have hfree := apply_free ha
        dsimp only at hfree
        rw [Server.reserved] at hfit ⊢
        rw [(apply_tables ha).2.1]
        by_cases hact : ∀ v o, act ≠ .createSpool v o
        · have hmove := hm.reserve hb hact
          dsimp only at hmove ⊢
          omega
        · push Not at hact
          obtain ⟨v, o, rfl⟩ := hact
          cases hm with
          | createSpool hp =>
              have hzero : job.reserve fs = 0 := by simp [Job.reserve, FanoutPhase.spool, hp]
              have hcreated := reserve_created hfit (roomForAll_create hj hG)
              simp only [Effect.allocated, Effect.freed] at hfree
              dsimp only
              omega
    | @spawn c cr up hc hp =>
        show cfg.missMinFreeBytes +
          ((s.jobs ++ [Job.new cr.hash up]).map (Job.reserve fs)).sum ≤ s.free
        have hnew : (Job.new cr.hash up).reserve fs = 0 := rfl
        simp only [List.map_append, List.sum_append, List.map_singleton, List.sum_singleton, hnew]
        exact hfit
    | _ => exact hfit

/-- **The floor.**  When the filesystem starts above `miss_min_free_bytes`, every check that
is passed leaves room for all spools, and no spooled stream is longer than its `NarSize`, no
state of the run has less than `miss_min_free_bytes` free. -/
theorem spool_floor
    (h : RunWith (Server.step cfg fs) (fun s a => roomForAll cfg fs s a = true)
      (Server.init cfg store free) as s)
    (hfree : cfg.missMinFreeBytes ≤ free) : cfg.missMinFreeBytes ≤ s.free := by
  have hI : SpoolsFit cfg fs s := by
    refine h.invariant (fun _ _ _ hI hG hstep => hI.step hG hstep) ⟨.init _ store free, ?_⟩
    show cfg.missMinFreeBytes + ([].map (Job.reserve fs)).sum ≤ free
    simpa using hfree
  have := hI.fit
  omega

/-- Two jobs that have both made their spools when the first chunk comes; the chunk of each is
its whole NAR of 5 bytes. -/
def twoSpools : List Action :=
  [.arrive "a" "n", .arrive "b" "m", .attach 0, .attach 1, .cacheGet 0, .cacheGet 1,
    .fetched 0 (some ⟨"a", "n", 5, "xz"⟩), .fetched 1 (some ⟨"b", "m", 5, "xz"⟩),
    .acquire 0, .acquire 1, .spawn 0, .spawn 1, .finalize 0, .finalize 1,
    .job 0 (.createSpool true true), .job 1 (.createSpool true true),
    .job 0 (.chunk [1, 2, 3, 4, 5]), .job 1 (.chunk [6, 7, 8, 9, 10]),
    .job 0 .writeOk, .job 1 .writeOk, .job 0 (.writeback 5), .job 1 (.writeback 5)]

/-- Two NARs of 5 bytes, spooled at the same time over a floor of 10 bytes and 20 bytes free. -/
theorem spool_floor_two_jobs :
    ∃ s : Server, RunWith (Server.step ⟨2, 10⟩ .exact) (fun s a => roomForAll ⟨2, 10⟩ .exact s a = true)
        (Server.init ⟨2, 10⟩ (fun _ => none) 20) twoSpools s ∧
      s.free = 10 ∧ 10 ≤ s.free := by
  have hreplay : ∃ s : Server, RunWith (Server.step ⟨2, 10⟩ .exact)
      (fun s a => roomForAll ⟨2, 10⟩ .exact s a = true)
      (Server.init ⟨2, 10⟩ (fun _ => none) 20) twoSpools s ∧ (s.free == 10) = true :=
    runWith_exists_of_check (by decide +kernel)
  obtain ⟨s, hrun, hs⟩ := hreplay
  exact ⟨s, hrun, by simpa using hs, spool_floor hrun (by decide)⟩

/-- With 16 bytes free each check passes, and together the spools leave 6. -/
theorem spools_overcommit :
    ¬ ∀ (cfg : Config) (fs : SpoolFs) (store : String → Option ValidPathInfo) (free : ℕ)
      (as : List Action) (s : Server),
      Run (Server.step cfg fs) (Server.init cfg store free) as s →
      cfg.missMinFreeBytes ≤ free → cfg.missMinFreeBytes ≤ s.free := by
  have hreplay : ∃ s : Server, Run (Server.step ⟨2, 10⟩ .exact) (Server.init ⟨2, 10⟩ (fun _ => none) 16)
      twoSpools s ∧ (s.free == 6) = true :=
    run_exists_of_check (by decide +kernel)
  obtain ⟨s, hrun, hs⟩ := hreplay
  intro hclaim
  have hfloor := hclaim _ _ _ _ _ s hrun (by decide)
  simp only [beq_iff_eq] at hs
  rw [hs] at hfloor
  exact absurd hfloor (by decide)

end BadgeOS.Harmonia
