import BadgeOS.Harmonia.References

/-!
# The miss loop of `nar::get`

A request that is parked on a job which serves without caching asks the store, finds nothing
and goes round again, three times.  The job it meets in the next round can be the same one:
`done_tx.send` wakes the request before `registry.remove` takes the slot, and parking on a job
that is done is over at once.  So all three rounds can pass in that window.

* `servesPath` — jobs of the path end `Ok` in time, its creations get a slot and a narinfo;
* `thirdLookFinds` — the condition that is missing: the third round is not one of these;
* `never_not_found` — with both, no request for the path is answered 404.
-/

namespace BadgeOS.Harmonia

open Function Transition

variable {cfg : Config} {fs : SpoolFs} {s s' : Server}
  {store : String → Option ValidPathInfo} {free : ℕ} {as : List Action} {a : Action}
  {hash : String}

/-! ### Conditions -/

/-- Every job for `hash` ends `Ok` within `miss_slot_wait_secs`, a job slot is free for it and
the upstream keeps serving it. -/
def servesPath (hash : String) (s : Server) : Action → Bool
  | .job j .publish =>
      s.jobs[j]?.all fun job => job.hash != hash || job.phase == .returned .ok
  | .waitExpired r => s.requests[r]?.all fun req => req.hash != hash
  | .fetched c up => s.creations[c]?.all fun cr => cr.hash != hash || up.isSome
  | .slotTimeout c => s.creations[c]?.all fun cr => cr.hash != hash
  | _ => true

/-- A request for `hash` that asks the store at the end of its third round finds the path. -/
def thirdLookFinds (hash : String) (s : Server) : Action → Bool
  | .query r _ =>
      s.requests[r]?.all fun req =>
        match req.phase with
        | .querying round _ => req.hash != hash || round + 1 < 3 || (s.store hash).isSome
        | _ => true
  | _ => true

/-! ### The invariant -/

/-- The phases a request goes through without a miss. -/
def RequestPhase.Hopeful : RequestPhase → Prop
  | .parked _ none | .notFound => False
  | .querying _ state => state = some .ok
  | _ => True

/-- No creation or job of the path has failed, and no request for it has seen a miss. -/
structure PathServed (hash : String) (s : Server) : Prop where
  refs : References s
  creation : ∀ (c : ℕ) cr, s.creations[c]? = some cr → cr.hash = hash →
    cr.phase ≠ .finalizing none ∧ cr.phase ≠ .ended none
  job : ∀ (j : ℕ) job, s.jobs[j]? = some job → job.hash = hash → job.done ≠ .failed
  request : ∀ (r : ℕ) req, s.requests[r]? = some req → req.hash = hash → req.phase.Hopeful

theorem PathServed.creation_step (hI : PathServed hash s) (hG : servesPath hash s a = true)
    (h : s.step cfg fs a = some s') {c : ℕ} {cr' : Creation}
    (hc : s'.creations[c]? = some cr') (hh : cr'.hash = hash) :
    cr'.phase ≠ .finalizing none ∧ cr'.phase ≠ .ended none := by
  cases step_creations h hc with
  | kept hold => exact hI.creation c cr' hold hh
  | created _ _ hcr | fetched _ _ _ hcr | acquired _ _ _ hcr | spawned _ _ _ hcr =>
      rw [hcr]
      exact ⟨nofun, nofun⟩
  | @moved cr p hold hm hcr =>
      rw [hcr] at hh ⊢
      have hcrh : cr.hash = hash := hh
      cases hm with
      | hit _ _ | miss _ _ => exact ⟨nofun, nofun⟩
      | unresolved _ | slotTimeout _ => simp [servesPath, hold, hcrh] at hG
  | @finalized cr result hold hp _ hcr =>
      rw [hcr] at hh ⊢
      have hold' := (hI.creation c cr hold hh).1
      rw [hp] at hold'
      refine ⟨nofun, ?_⟩
      intro h
      cases h
      exact hold' rfl

theorem PathServed.job_step (hI : PathServed hash s) (hG : servesPath hash s a = true)
    (h : s.step cfg fs a = some s') :
    s'.EachJob fun job => job.hash = hash → job.done ≠ .failed := by
  refine Server.EachJob.step hI.job h (fun _ _ _ => nofun) ?_
  rintro j job act job' effect rfl hj hm hP hh
  have hhash : job.hash = hash := hm.keeps.1 ▸ hh
  cases hm with
  | @publish state hp =>
      have hok : state = .ok := by simpa [servesPath, hj, hhash, hp] using hG
      rw [hok]
      exact nofun
  | _ => exact hP hh

theorem PathServed.request_step (hI : PathServed hash s) (hG : servesPath hash s a = true)
    (hL : thirdLookFinds hash s a = true) (h : s.step cfg fs a = some s') {r : ℕ}
    {req' : Request} (hr : s'.requests[r]? = some req') (hh : req'.hash = hash) :
    req'.phase.Hopeful := by
  cases step_requests h hr with
  | kept hold => exact hI.request r req' hold hh
  | arrived _ _ hreq | creates _ _ _ _ hreq =>
      rw [hreq]
      trivial
  | @moved req p hold hm hreq =>
      have hash_eq : req.hash = hash := by
        rw [hreq] at hh
        exact hh
      have href := hI.refs.request r req hold
      have hhope := hI.request r req hold hash_eq
      rw [hreq]
      show p.Hopeful
      cases hm with
      | letIn _ _ | park _ _ | coalesce _ _ | subscribe _ _ | poll _ _ _ | queryFails _ | drop =>
          trivial
      | @awaited round c cr result hp hc hended =>
          rw [hp] at href
          obtain ⟨cr', hc', hcr⟩ := href
          rw [hc] at hc'
          cases hc'
          cases result with
          | none => exact absurd hended (hI.creation c cr hc (hcr.trans hash_eq)).2
          | some j =>
              unfold Server.afterAwait
              dsimp only
              split <;> trivial
      | @wake round j job hp hj hdone =>
          rw [hp] at href
          obtain ⟨job', hj', hjob⟩ := href
          rw [hj] at hj'
          cases hj'
          have hfail := hI.job j job hj (hjob.trans hash_eq)
          show some job.done = some .ok
          cases hd : job.done with
          | running => exact absurd hd hdone
          | failed => exact absurd hd hfail
          | ok => rfl
      | wakeFailed hp =>
          rw [hp] at hhope
          exact hhope.elim
      | waitExpired hp hj hrun => simp [servesPath, hold, hash_eq] at hG
      | @query round state hp =>
          rw [hp] at hhope
          have hstate : state = some .ok := hhope
          unfold afterQuery
          cases hs : s.store req.hash with
          | some info => trivial
          | none =>
              -- an empty store: the third round is not over
              have hround : round + 1 < 3 := by
                rw [hash_eq] at hs
                simpa [thirdLookFinds, hold, hp, hash_eq, hs] using hL
              simp only [hstate, hround, and_self, if_true]
              trivial

theorem PathServed.step (hI : PathServed hash s) (hG : servesPath hash s a = true)
    (hL : thirdLookFinds hash s a = true) (h : s.step cfg fs a = some s') :
    PathServed hash s' :=
  ⟨hI.refs.step h, fun _ _ hc hh => hI.creation_step hG h hc hh, hI.job_step hG h,
    fun _ _ hr hh => hI.request_step hG hL h hr hh⟩

/-! ### A request that has not ended goes on -/

/-- The request has its answer, or its client is gone. -/
def RequestPhase.hasEnded : RequestPhase → Bool
  | .live _ _ | .served _ | .notFound | .errored | .dropped => true
  | _ => false

/-- The request waits for a creation task, or for a running job. -/
def Server.Waits (s : Server) (req : Request) : Prop :=
  (∃ round c cr, req.phase = .awaiting round c ∧ s.creations[c]? = some cr ∧
    ∀ result, cr.phase ≠ .ended result) ∨
  ∃ round j job, req.phase = .parked round (some j) ∧ s.jobs[j]? = some job ∧ job.done = .running

/-- A request that has not ended waits for a task that has not, or can move. -/
theorem References.goes_on (hI : References s) {r : ℕ} {req : Request}
    (hr : s.requests[r]? = some req) (hend : req.phase.hasEnded = false) :
    s.Waits req ∨ ∃ a, a.request = some r ∧ a ≠ .dropRequest r ∧
      (s.step cfg fs a).isSome = true := by
  have href := hI.request r req hr
  cases hp : req.phase with
  | looping round =>
      refine .inr ⟨.attach r, rfl, by simp, ?_⟩
      simp [Server.step, Server.stepRequest, hr, hp]
  | awaiting round c =>
      rw [hp] at href
      obtain ⟨cr, hc, -⟩ := href
      by_cases hopen : ∃ result, cr.phase = .ended result
      · obtain ⟨result, hended⟩ := hopen
        refine .inr ⟨.awaited r, rfl, by simp, ?_⟩
        simp [Server.step, Server.stepRequest, hr, hp, hc, Creation.result, hended]
      · exact .inl (.inl ⟨round, c, cr, hp, hc, fun result h => hopen ⟨result, h⟩⟩)
  | subscribing j =>
      rw [hp] at href
      obtain ⟨job, hj, -⟩ := href
      refine .inr ⟨.subscribe r, rfl, by simp, ?_⟩
      simp [Server.step, Server.stepRequest, hr, hp, hj]
  | parked round j =>
      cases j with
      | none =>
          refine .inr ⟨.wake r, rfl, by simp, ?_⟩
          simp [Server.step, Server.stepRequest, hr, hp]
      | some j =>
          rw [hp] at href
          obtain ⟨job, hj, -⟩ := href
          by_cases hrun : job.done = .running
          · exact .inl (.inr ⟨round, j, job, hp, hj, hrun⟩)
          · refine .inr ⟨.wake r, rfl, by simp, ?_⟩
            simp [Server.step, Server.stepRequest, hr, hp, hj, hrun]
  | querying round state =>
      refine .inr ⟨.query r true, rfl, by simp, ?_⟩
      simp [Server.step, Server.stepRequest, hr, hp]
  | live _ _ | served _ | notFound | errored | dropped =>
      rw [hp] at hend
      cases hend

/-- A job that serves its creator without a spool; a second request comes when all is sent, is
parked, and is woken by `done_tx.send`. -/
def parkedOnce : List Action :=
  [.arrive "a" "n", .attach 0, .cacheGet 0, .fetched 0 (some ⟨"a", "n", 3, "xz"⟩), .acquire 0,
    .spawn 0, .finalize 0, .awaited 0, .subscribe 0, .job 0 (.createSpool false true),
    .job 0 (.chunk [1, 2, 3]), .job 0 .eof, .job 0 .dropSlot, .job 0 .afterProduce,
    .arrive "a" "n", .attach 1, .job 0 .publish, .wake 1, .query 1 true]

end BadgeOS.Harmonia
