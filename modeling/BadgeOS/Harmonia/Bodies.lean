import BadgeOS.Harmonia.Moves

/-!
# Live bodies

A client that is let in while a job streams gets a broadcast receiver, which starts at the
chunk after its `subscribe`.  So a body is the decoded NAR from its head when nothing was
sent before that, and it ends cleanly after the whole NAR when the decoded stream keeps to
its `NarSize`.  Neither is checked: `streaming` lets a client in between two chunks, and the
body counts bytes against a size the upstream announced.

* `fromHead` — the condition on a step: no client joins after the first chunk, no stream
  outgrows its `NarSize`, and none fails once that many bytes are out;
* `serves_from_head` — what every body of such a run is.
-/

namespace BadgeOS.Harmonia

open Function Transition

variable {cfg : Config} {fs : SpoolFs} {s s' : Server}
  {store : String → Option ValidPathInfo} {free : ℕ} {as : List Action} {a : Action}

/-! ### What a body should be -/

/-- What `produce` returned, once it did. -/
def Job.produceResult (job : Job) : Option Bool :=
  match job.phase with
  | .spawned | .producing _ | .writing _ _ | .discarding _ => none
  | .produceEnded success _ | .slotDropped success _ => some success
  | _ => some job.produced

/-- A body is at every point a prefix of the decoded NAR; a clean end comes after exactly
`nar_size` bytes that are all of it, from a job whose `produce` does not fail; an end before
that is an error. -/
structure BroadcastBody.Serves (job : Job) (b : BroadcastBody) : Prop where
  head : b.delivered.flatten <+: job.decoded
  clean : b.ended = some .clean → b.delivered.flatten.length = job.up.narSize ∧
    b.delivered.flatten = job.decoded ∧ job.produceResult ≠ some false
  error : ∀ why, b.ended = some (.error why) → b.delivered.flatten.length < job.up.narSize

/-- Every body returned as `Attach::Live` serves its job's NAR. -/
def Server.ServesFromHead (s : Server) : Prop :=
  ∀ (r : ℕ) req j body, s.requests[r]? = some req → req.phase = .live j body →
    ∃ job, s.jobs[j]? = some job ∧ body.Serves job

/-- The condition on one action. -/
def fromHead (s : Server) : Action → Bool
  | .subscribe r =>
      s.requests[r]?.all fun req =>
        match req.phase with
        | .subscribing j => s.jobs[j]?.all fun job => job.sent == []
        | _ => true
  | .job j (.chunk c) => s.jobs[j]?.all fun job => job.total + c.length ≤ job.up.narSize
  | .job j .produceFails => s.jobs[j]?.all fun job => job.total < job.up.narSize
  | _ => true

theorem fromHead_subscribe {r j : ℕ} {req : Request} {job : Job} (hr : s.requests[r]? = some req)
    (hp : req.phase = .subscribing j) (hj : s.jobs[j]? = some job)
    (h : fromHead s (.subscribe r) = true) : job.sent = [] := by
  simpa [fromHead, hr, hp, hj] using h

theorem fromHead_chunk {j : ℕ} {job : Job} {c : Chunk} (hj : s.jobs[j]? = some job)
    (h : fromHead s (.job j (.chunk c)) = true) : job.total + c.length ≤ job.up.narSize := by
  simpa [fromHead, hj] using h

theorem fromHead_fails {j : ℕ} {job : Job} (hj : s.jobs[j]? = some job)
    (h : fromHead s (.job j .produceFails) = true) : job.total < job.up.narSize := by
  simpa [fromHead, hj] using h

/-! ### Streams -/

/-- A stream counted in `total`, within its `NarSize`, that fails only short of it. -/
structure Job.Streams (job : Job) : Prop where
  total : job.total = job.decoded.length
  bounded : job.total ≤ job.up.narSize
  failed : job.produceResult = some false → job.total < job.up.narSize
  produced : job.produced = true → job.produceResult = some true

theorem Job.Streams.new (hash : String) (up : UpstreamNarInfo) : (Job.new hash up).Streams :=
  ⟨rfl, Nat.zero_le _, (fun h => by cases h), (fun h => by cases h)⟩

theorem withSpool_produceResult {job : Job} {sp : Spool} (sp' : Spool)
    (h : job.phase.spool = some sp) :
    Job.produceResult { job with phase := job.phase.withSpool sp' } = job.produceResult := by
  cases hp : job.phase <;>
    simp_all [Job.produceResult, FanoutPhase.withSpool, FanoutPhase.spool]

theorem Job.Move.streams {job job' : Job} {act : JobAct} {effect : Effect}
    (h : Job.Move cfg fs free job act job' effect) (hs : job.Streams)
    (hchunk : ∀ c, act = .chunk c → job.total + c.length ≤ job.up.narSize)
    (hfails : act = .produceFails → job.total < job.up.narSize) : job'.Streams := by
  obtain ⟨h1, h2, h3, h4⟩ := hs
  cases h with
  | @chunkStreamed c hp _ _ | @chunkSpooled c _ hp _ _ =>
      simp only [Job.produceResult, hp] at h4
      refine ⟨?_, hchunk c rfl, (fun h => by cases h), fun h => absurd (h4 h) (by simp)⟩
      show job.total + c.length = (job.sent ++ [c]).flatten.length
      rw [h1]
      simp [Job.decoded]
  | produceFails hp =>
      simp only [Job.produceResult, hp] at h4
      exact ⟨h1, h2, fun _ => hfails rfl, fun h => absurd (h4 h) (by simp)⟩
  | eof hp _ =>
      simp only [Job.produceResult, hp] at h4
      refine ⟨h1, h2, ?_, fun h => absurd (h4 h) (by simp)⟩
      intro hfail
      have hne : job.total ≠ job.up.narSize := by simpa [Job.produceResult] using hfail
      exact lt_of_le_of_ne h2 hne
  | @writeback sp bytes hsp _ =>
      have hres := withSpool_produceResult { sp with disk := sp.disk + bytes } hsp
      refine ⟨h1, h2, ?_, ?_⟩
      · rw [hres]
        exact h3
      · rw [hres]
        exact h4
  | producedBare hp | producedSpooled hp =>
      exact ⟨h1, h2, (fun h => by cases h), fun _ => rfl⟩
  | failedBare hp | failedSpooled hp =>
      simp only [Job.produceResult, hp] at h3 h4
      refine ⟨h1, h2, fun _ => h3 trivial, fun h => absurd (h4 h) (by simp)⟩
  | createSpool hp | writeOk hp | writeFails hp _ | discard hp | dropSlot hp | flushed hp _
  | flushFailed hp | imported hp | importRefused hp | unspool hp | publish hp | evict hp
  | uncache hp | dropJob hp =>
      simp only [Job.produceResult, hp] at h3 h4
      exact ⟨h1, h2, h3, h4⟩

/-- No move takes back what was sent. -/
theorem Job.Move.sent_prefix {job job' : Job} {act : JobAct} {effect : Effect}
    (h : Job.Move cfg fs free job act job' effect) : job.sent <+: job'.sent := by
  cases h with
  | chunkStreamed _ _ _ | chunkSpooled _ _ _ => exact List.prefix_append _ _
  | _ => exact List.prefix_rfl

/-! ### Bodies -/

/-- What a body has when its receiver was there before the first chunk: the first chunks of
the stream, up to the receiver's position while it goes on. -/
structure BroadcastBody.Follows (job : Job) (b : BroadcastBody) : Prop where
  head : b.delivered <+: job.sent
  next : b.ended = none → b.next = b.delivered.length
  received : b.received = b.delivered.flatten.length
  clean : b.ended = some .clean → job.up.narSize ≤ b.received
  error : ∀ why, b.ended = some (.error why) → b.received < job.up.narSize

theorem BroadcastBody.Follows.new (job : Job) (h : job.sent = []) :
    (BroadcastBody.new job.sent).Follows job := by
  rw [h]
  exact ⟨List.nil_prefix, fun _ => rfl, rfl, (fun h => by cases h), (fun _ h => by cases h)⟩

/-- More chunks, and whatever else the job does. -/
theorem BroadcastBody.Follows.mono {job job' : Job} {b : BroadcastBody} (hb : b.Follows job)
    (hsent : job.sent <+: job'.sent) (hup : job'.up = job.up) : b.Follows job' := by
  refine ⟨hb.head.trans hsent, hb.next, hb.received, ?_, ?_⟩
  · rw [hup]
    exact hb.clean
  · rw [hup]
    exact hb.error

theorem recv_value {sent : List Chunk} {closed : Bool} {next : ℕ} {c : Chunk}
    (h : recv sent closed next = .value c) : sent[next]? = some c := by
  unfold recv at h
  split at h
  · cases h
  · split at h
    · rename_i hget
      cases h
      exact hget
    · split at h <;> cases h

/-- **One poll.** -/
theorem BroadcastBody.Follows.pollNext {job : Job} {closed : Bool} {b b' : BroadcastBody}
    (hb : b.Follows job) (h : b.pollNext job closed = some b') : b'.Follows job := by
  unfold BroadcastBody.pollNext at h
  split at h
  · cases h
  · rename_i hopen
    split at h
    · rename_i hfull
      cases h
      exact ⟨hb.head, (fun h => by cases h), hb.received, fun _ => hfull, (fun _ h => by cases h)⟩
    · rename_i hshort
      split at h
      · rename_i c hrecv
        cases h
        have hget := recv_value hrecv
        rw [hb.next hopen] at hget
        refine ⟨?_, fun _ => ?_, ?_, fun h => ?_, fun _ h => ?_⟩
        · -- the next chunk extends the prefix
          obtain ⟨rest, hrest⟩ := hb.head
          rw [← hrest, List.getElem?_append_right le_rfl, Nat.sub_self] at hget
          cases rest with
          | nil => simp at hget
          | cons d ds =>
              obtain rfl : d = c := by simpa using hget
              exact ⟨ds, by rw [← hrest]; simp⟩
        · show b.next + 1 = (b.delivered ++ [c]).length
          rw [hb.next hopen, List.length_append, List.length_singleton]
        · show b.received + c.length = (b.delivered ++ [c]).flatten.length
          rw [hb.received]
          simp
        · rw [show b.ended = some .clean from h] at hopen
          cases hopen
        · rw [show b.ended = some _ from h] at hopen
          cases hopen
      · cases h
        exact ⟨hb.head, (fun h => by cases h), hb.received, (fun h => by cases h),
          fun _ _ => by simpa using hshort⟩
      · cases h
        exact ⟨hb.head, (fun h => by cases h), hb.received, (fun h => by cases h),
          fun _ _ => by simpa using hshort⟩
      · cases h

/-- Over a stream within its `NarSize`, such a body is what it should be. -/
theorem BroadcastBody.Follows.serves {job : Job} {b : BroadcastBody} (hb : b.Follows job)
    (hs : job.Streams) : b.Serves job := by
  have hhead : b.delivered.flatten <+: job.decoded := by
    obtain ⟨rest, hrest⟩ := hb.head
    exact ⟨rest.flatten, by rw [Job.decoded, ← hrest, List.flatten_append]⟩
  have hlen := hhead.length_le
  rw [← hs.total] at hlen
  refine ⟨hhead, ?_, ?_⟩
  · intro hclean
    have hfull := hb.clean hclean
    rw [hb.received] at hfull
    have hbound := hs.bounded
    have hsize : b.delivered.flatten.length = job.up.narSize := by omega
    refine ⟨hsize, hhead.eq_of_length ?_, ?_⟩
    · rw [← hs.total]
      omega
    · intro hfail
      have := hs.failed hfail
      omega
  · intro why herr
    rw [← hb.received]
    exact hb.error why herr

/-! ### Runs -/

/-- Every body of the server follows its job, and every job streams within its `NarSize`. -/
structure BodiesInv (s : Server) : Prop where
  jobs : s.EachJob Job.Streams
  bodies : ∀ (r : ℕ) req j body, s.requests[r]? = some req → req.phase = .live j body →
    ∃ job, s.jobs[j]? = some job ∧ body.Follows job

theorem afterAwait_ne_live {round j : ℕ} {result : Option ℕ} {body : BroadcastBody} :
    s.afterAwait round result ≠ .live j body := by
  unfold Server.afterAwait
  intro h
  split at h
  · split at h <;> cases h
  · cases h

theorem afterQuery_ne_live {round j : ℕ} {state : Option JobState} {info : Option ValidPathInfo}
    {body : BroadcastBody} : afterQuery round state info ≠ .live j body := by
  unfold afterQuery
  intro h
  split at h
  · cases h
  · split at h <;> cases h

/-- A body of the next state: an old one, or one that its request made or polled. -/
theorem BodiesInv.bodies_step (hI : BodiesInv s) (hG : fromHead s a = true)
    (h : s.step cfg fs a = some s') {r j : ℕ} {req : Request} {body : BroadcastBody}
    (hr : s'.requests[r]? = some req) (hp : req.phase = .live j body) :
    ∃ job, s.jobs[j]? = some job ∧ body.Follows job := by
  cases step_requests h hr with
  | kept hold => exact hI.bodies r req j body hold hp
  | arrived _ _ hreq =>
      rw [hreq] at hp
      cases hp
  | creates _ _ _ _ hreq =>
      rw [hreq] at hp
      cases hp
  | moved hold hm hreq =>
      rw [hreq] at hp
      cases hm with
      | subscribe hsub hj =>
          cases hp
          exact ⟨_, hj, .new _ (fromHead_subscribe hold hsub hj hG)⟩
      | poll hlive hj hpoll =>
          cases hp
          obtain ⟨job, hj', hb⟩ := hI.bodies r _ _ _ hold hlive
          rw [hj] at hj'
          cases hj'
          exact ⟨_, hj, hb.pollNext hpoll⟩
      | awaited _ _ _ => exact absurd hp afterAwait_ne_live
      | query _ => exact absurd hp afterQuery_ne_live
      | _ => cases hp

theorem BodiesInv.step (hI : BodiesInv s) (hG : fromHead s a = true)
    (h : s.step cfg fs a = some s') : BodiesInv s' := by
  refine ⟨?_, ?_⟩
  · refine hI.jobs.step h Job.Streams.new ?_
    rintro j job act job' effect rfl hj hm hs
    refine hm.streams hs ?_ ?_
    · rintro c rfl
      exact fromHead_chunk hj hG
    · rintro rfl
      exact fromHead_fails hj hG
  · intro r req j body hr hp
    obtain ⟨job, hj, hb⟩ := hI.bodies_step hG h hr hp
    rcases step_jobs h with
      ⟨i, old, new, act, effect, -, hi, hm, hjobs⟩ | ⟨-, hjobs | ⟨hash, up, hjobs⟩⟩
    · rw [hjobs]
      by_cases hij : i = j
      · subst hij
        rw [hi] at hj
        cases hj
        refine ⟨new, ?_, hb.mono hm.sent_prefix hm.keeps.2⟩
        rw [Table.get_set hi, if_pos rfl]
      · refine ⟨job, ?_, hb⟩
        rw [Table.get_set hi, if_neg hij]
        exact hj
    · rw [hjobs]
      exact ⟨job, hj, hb⟩
    · refine ⟨job, ?_, hb⟩
      rw [hjobs, Table.get_push, if_neg]
      · exact hj
      · exact (Table.lt_of_get hj).ne

/-- **Bodies.**  In every run in which no client subscribes after the first chunk of its job,
no stream outgrows its `NarSize` and none fails once that many bytes are out, every live body
is at every point a prefix of the decoded NAR, ends cleanly only with the whole NAR of a job
whose `produce` does not fail, and otherwise with an error. -/
theorem serves_from_head
    (h : RunWith (Server.step cfg fs) (fun s a => fromHead s a = true)
      (Server.init cfg store free) as s) : s.ServesFromHead := by
  have hI : BodiesInv s := by
    refine h.invariant (fun _ _ _ hI hG hstep => hI.step hG hstep) ⟨.init _ store free, ?_⟩
    intro r req j body hr
    simp [Server.init] at hr
  intro r req j body hr hp
  obtain ⟨job, hj, hb⟩ := hI.bodies r req j body hr hp
  exact ⟨job, hj, hb.serves (hI.jobs j job hj)⟩

/-- A job of 6 bytes that no chunk of has been sent, with its creator as the only client. -/
def oneClient : List Action :=
  [.arrive "a" "n", .attach 0, .cacheGet 0, .fetched 0 (some ⟨"a", "n", 6, "xz"⟩), .acquire 0,
    .spawn 0, .finalize 0, .awaited 0, .subscribe 0, .job 0 (.createSpool true true)]

/-- A client that is there before the first chunk reads the NAR to its clean end. -/
theorem serves_from_head_creator :
    ∃ s body, RunWith (Server.step ⟨1, 10⟩ .exact) (fun s a => fromHead s a = true)
        (Server.init ⟨1, 10⟩ (fun _ => none) 100)
        (oneClient ++ [Action.job 0 (.chunk [1, 2, 3]), .poll 0, .job 0 .writeOk,
          .job 0 (.chunk [4, 5, 6]), .poll 0, .job 0 .writeOk, .job 0 .eof, .poll 0]) s ∧
      s.requests[0]?.map Request.phase = some (.live 0 body) ∧ body.ended = some .clean ∧
      ∃ job, s.jobs[0]? = some job ∧ body.Serves job := by
  have hreplay : ∃ s : Server, RunWith (Server.step ⟨1, 10⟩ .exact) (fun s a => fromHead s a = true)
      (Server.init ⟨1, 10⟩ (fun _ => none) 100)
      (oneClient ++ [Action.job 0 (.chunk [1, 2, 3]), .poll 0, .job 0 .writeOk,
          .job 0 (.chunk [4, 5, 6]), .poll 0, .job 0 .writeOk, .job 0 .eof, .poll 0]) s ∧
      (s.requests[0]?.any fun req => req.phase ==
        .live 0 ⟨2, 6, [[1, 2, 3], [4, 5, 6]], some .clean⟩) = true :=
    runWith_exists_of_check (by decide +kernel)
  obtain ⟨s, hrun, hs⟩ := hreplay
  obtain ⟨req, hr, hp⟩ := (Option.any_eq_true _ _).1 hs
  rw [beq_iff_eq] at hp
  exact ⟨s, _, hrun, by rw [hr, Option.map_some, hp], rfl, serves_from_head hrun 0 req 0 _ hr hp⟩

/-- A client that attaches after the first chunk is let in, and its first bytes are not the
head of the NAR. -/
theorem joins_mid_stream :
    ¬ ∀ (cfg : Config) (fs : SpoolFs) (store : String → Option ValidPathInfo) (free : ℕ)
      (as : List Action) (s : Server),
      Run (Server.step cfg fs) (Server.init cfg store free) as s → s.ServesFromHead := by
  have hreplay : ∃ s : Server, Run (Server.step ⟨1, 10⟩ .exact) (Server.init ⟨1, 10⟩ (fun _ => none) 100)
      (oneClient ++ [Action.job 0 (.chunk [1, 2, 3]), .job 0 .writeOk, .arrive "a" "n", .attach 1,
        .subscribe 1, .job 0 (.chunk [4, 5, 6]), .poll 1]) s ∧
      ((s.requests[1]?.any fun req => req.phase == .live 0 ⟨2, 3, [[4, 5, 6]], none⟩) &&
        s.jobs[0]?.any fun job => job.sent == [[1, 2, 3], [4, 5, 6]]) = true :=
    run_exists_of_check (by decide +kernel)
  obtain ⟨s, hrun, hs⟩ := hreplay
  simp only [Bool.and_eq_true, Option.any_eq_true, beq_iff_eq] at hs
  obtain ⟨⟨req, hr, hp⟩, job, hj, hsent⟩ := hs
  intro hclaim
  obtain ⟨job', hj', hserves⟩ := hclaim _ _ _ _ _ s hrun 1 req 0 _ hr hp
  rw [hj] at hj'
  cases hj'
  have hhead := hserves.head
  rw [Job.decoded, hsent] at hhead
  exact absurd hhead (by decide)

end BadgeOS.Harmonia
