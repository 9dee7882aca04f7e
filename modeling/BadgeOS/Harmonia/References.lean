import BadgeOS.Harmonia.Moves

/-!
# What the tasks refer to

Requests, creations and registry slots name jobs and creations by their position.  Tables
only grow and an entry keeps its path, so a reference stays good: it is to a job or a creation
of the path it was taken for.
-/

namespace BadgeOS.Harmonia

open Function Transition

variable {cfg : Config} {fs : SpoolFs} {s s' : Server}
  {store : String → Option ValidPathInfo} {free : ℕ} {as : List Action} {a : Action}

/-- Job `j` exists and is for `hash`. -/
def Server.JobOf (s : Server) (hash : String) (j : ℕ) : Prop :=
  ∃ job, s.jobs[j]? = some job ∧ job.hash = hash

/-- Creation `c` exists and is for `hash`. -/
def Server.CreationOf (s : Server) (hash : String) (c : ℕ) : Prop :=
  ∃ cr, s.creations[c]? = some cr ∧ cr.hash = hash

/-- What the phase of a request for `hash` refers to. -/
def RequestPhase.Refers (s : Server) (hash : String) : RequestPhase → Prop
  | .awaiting _ c => s.CreationOf hash c
  | .subscribing j | .live j _ | .parked _ (some j) => s.JobOf hash j
  | _ => True

/-- What the phase of a creation for `hash` refers to. -/
def CreationPhase.Refers (s : Server) (hash : String) : CreationPhase → Prop
  | .finalizing (some j) | .ended (some j) => s.JobOf hash j
  | _ => True

/-- What a registry slot of `hash` refers to. -/
def CreationState.Refers (s : Server) (hash : String) : CreationState → Prop
  | .inProgress c => s.CreationOf hash c
  | .live j => s.JobOf hash j

structure References (s : Server) : Prop where
  slot : ∀ hash state, s.registry hash = some state → state.Refers s hash
  creation : ∀ (c : ℕ) cr, s.creations[c]? = some cr → cr.phase.Refers s cr.hash
  request : ∀ (r : ℕ) req, s.requests[r]? = some req → req.phase.Refers s req.hash

/-! ### References stay good -/

theorem jobOf_step (h : s.step cfg fs a = some s') {hash : String} {j : ℕ}
    (hj : s.JobOf hash j) : s'.JobOf hash j := by
  obtain ⟨job, hj, rfl⟩ := hj
  rcases step_jobs h with
    ⟨i, old, new, act, effect, -, hi, hm, hjobs⟩ | ⟨-, hjobs | ⟨hash, up, hjobs⟩⟩
  · unfold Server.JobOf
    rw [hjobs]
    by_cases hij : i = j
    · subst hij
      rw [hi] at hj
      cases hj
      exact ⟨new, by rw [Table.get_set hi, if_pos rfl], hm.keeps.1⟩
    · exact ⟨job, by rw [Table.get_set hi, if_neg hij, hj], rfl⟩
  · exact ⟨job, by rw [hjobs, hj], rfl⟩
  · refine ⟨job, ?_, rfl⟩
    rw [hjobs, Table.get_push, if_neg (Table.lt_of_get hj).ne, hj]

/-- How a creation of the next state comes about. -/
inductive CreationOrigin (s : Server) (a : Action) (c : ℕ) (cr' : Creation) : Prop
  | kept : s.creations[c]? = some cr' → CreationOrigin s a c cr'
  | created {r req} : a = .attach r → s.requests[r]? = some req →
      cr' = ⟨req.hash, .resolving⟩ → CreationOrigin s a c cr'
  | moved {cr p} : s.creations[c]? = some cr → CreationMove s c cr a p →
      cr' = { cr with phase := p } → CreationOrigin s a c cr'
  | fetched {cr up} : s.creations[c]? = some cr → cr.phase = .fetching → a = .fetched c (some up) →
      cr' = { cr with phase := .waiting up } → CreationOrigin s a c cr'
  | acquired {cr up} : s.creations[c]? = some cr → cr.phase = .waiting up → a = .acquire c →
      cr' = { cr with phase := .slotWon up } → CreationOrigin s a c cr'
  | spawned {cr up} : s.creations[c]? = some cr → cr.phase = .slotWon up → a = .spawn c →
      cr' = { cr with phase := .finalizing (some s.jobs.length) } → CreationOrigin s a c cr'
  | finalized {cr result} : s.creations[c]? = some cr → cr.phase = .finalizing result →
      a = .finalize c → cr' = { cr with phase := .ended result } → CreationOrigin s a c cr'

theorem step_creations (h : s.step cfg fs a = some s') {c : ℕ} {cr' : Creation}
    (hc : s'.creations[c]? = some cr') : CreationOrigin s a c cr' := by
  -- an entry that was replaced is the one that moved
  have hset {i : ℕ} {cr : Creation} {p : CreationPhase} (hi : s.creations[i]? = some cr)
      (hc : (s.setCreation i cr p).creations[c]? = some cr') :
      (i = c ∧ cr' = { cr with phase := p }) ∨ s.creations[c]? = some cr' := by
    have hc' : (s.creations.set i { cr with phase := p })[c]? = some cr' := hc
    rw [Table.get_set hi] at hc'
    split at hc'
    · cases hc'
      exact .inl ⟨by assumption, rfl⟩
    · exact .inr hc'
  cases step_cases h with
  | create hr hp hplan =>
      have hc' : (s.creations ++ [_])[c]? = some cr' := hc
      rw [Table.get_push] at hc'
      split at hc'
      · cases hc'
        exact .created rfl hr rfl
      · exact .kept hc'
  | creation hi hm =>
      rcases hset hi hc with ⟨rfl, hcr⟩ | hold
      · exact .moved hi hm hcr
      · exact .kept hold
  | fetched hi hp =>
      rcases hset hi hc with ⟨rfl, hcr⟩ | hold
      · exact .fetched hi hp rfl hcr
      · exact .kept hold
  | acquire hi hp _ =>
      rcases hset hi hc with ⟨rfl, hcr⟩ | hold
      · exact .acquired hi hp rfl hcr
      · exact .kept hold
  | spawn hi hp =>
      rcases hset hi hc with ⟨rfl, hcr⟩ | hold
      · exact .spawned hi hp rfl hcr
      · exact .kept hold
  | finalize hi hp =>
      rcases hset hi hc with ⟨rfl, hcr⟩ | hold
      · exact .finalized hi hp rfl hcr
      · exact .kept hold
  | job hj hm ha =>
      rw [(apply_tables ha).1] at hc
      exact .kept hc
  | _ => exact .kept hc

theorem creationOf_set {i c : ℕ} {cr : Creation} {p : CreationPhase} {hash : String}
    (hi : s.creations[i]? = some cr) (hc : s.CreationOf hash c) :
    ∃ cr', (s.creations.set i { cr with phase := p })[c]? = some cr' ∧ cr'.hash = hash := by
  obtain ⟨cr', hc, rfl⟩ := hc
  by_cases hic : i = c
  · subst hic
    rw [hi] at hc
    cases hc
    exact ⟨{ cr with phase := p }, by rw [Table.get_set hi, if_pos rfl], rfl⟩
  · exact ⟨cr', by rw [Table.get_set hi, if_neg hic, hc], rfl⟩

theorem creationOf_step (h : s.step cfg fs a = some s') {hash : String} {c : ℕ}
    (hc : s.CreationOf hash c) : s'.CreationOf hash c := by
  cases step_cases h with
  | create hr hp hplan =>
      obtain ⟨cr, hc, rfl⟩ := hc
      refine ⟨cr, ?_, rfl⟩
      show (s.creations ++ [_])[c]? = _
      rw [Table.get_push, if_neg (Table.lt_of_get hc).ne, hc]
  | creation hi _ | fetched hi _ | acquire hi _ _ | spawn hi _ | finalize hi _ =>
      exact creationOf_set hi hc
  | job hj hm ha =>
      unfold Server.CreationOf
      rw [(apply_tables ha).1]
      exact hc
  | _ => exact hc

theorem RequestPhase.Refers.step {hash : String} {p : RequestPhase} (hp : p.Refers s hash)
    (h : s.step cfg fs a = some s') : p.Refers s' hash := by
  cases p with
  | awaiting round c => exact creationOf_step h hp
  | parked round j =>
      cases j with
      | none => trivial
      | some j => exact jobOf_step h hp
  | subscribing j => exact jobOf_step h hp
  | live j body => exact jobOf_step h hp
  | _ => trivial

theorem CreationPhase.Refers.step {hash : String} {p : CreationPhase} (hp : p.Refers s hash)
    (h : s.step cfg fs a = some s') : p.Refers s' hash := by
  cases p with
  | finalizing result | ended result =>
      cases result with
      | none => trivial
      | some j => exact jobOf_step h hp
  | _ => trivial

theorem CreationState.Refers.step {hash : String} {state : CreationState}
    (hp : state.Refers s hash) (h : s.step cfg fs a = some s') : state.Refers s' hash := by
  cases state with
  | inProgress c => exact creationOf_step h hp
  | live j => exact jobOf_step h hp

/-! ### New references -/

theorem registryRemove_some {registry : String → Option CreationState} {hash h : String}
    {state : CreationState} (hs : registryRemove registry hash h = some state) :
    registry h = some state := by
  by_cases hh : h = hash
  · subst hh
    cases hslot : registry h with
    | none => simp [registryRemove, hslot] at hs
    | some old => cases old <;> simp_all [registryRemove]
  · cases hslot : registry hash with
    | none => simpa [registryRemove, hslot] using hs
    | some old => cases old <;> simpa [registryRemove, hslot, update_of_ne hh] using hs

theorem registryFinalize_some {registry : String → Option CreationState} {hash h : String}
    {result : Option ℕ} {state : CreationState}
    (hs : registryFinalize registry hash result h = some state) :
    registry h = some state ∨ (h = hash ∧ ∃ j, result = some j ∧ state = .live j) := by
  cases hslot : registry hash with
  | none => exact .inl (by simpa [registryFinalize, hslot] using hs)
  | some old =>
      cases old with
      | live i => exact .inl (by simpa [registryFinalize, hslot] using hs)
      | inProgress c =>
          simp only [registryFinalize, hslot] at hs
          by_cases hh : h = hash
          · subst hh
            rw [update_self] at hs
            obtain ⟨j, hj, rfl⟩ := Option.map_eq_some_iff.1 hs
            exact .inr ⟨rfl, j, hj, rfl⟩
          · rw [update_of_ne hh] at hs
            exact .inl hs

/-! ### Plans -/

/-- A job that `attach` lets a client into holds its slot, can be upgraded and streams. -/
theorem plan_live {hash : String} {j : ℕ} (h : s.plan hash = .live j) :
    s.registry hash = some (.live j) ∧ s.alive j = true ∧ s.jobs[j]?.any Job.streaming = true := by
  unfold Server.plan at h
  split at h
  · rename_i i hslot
    split at h
    · rename_i halive
      split at h
      · rename_i hstream
        cases h
        exact ⟨hslot, halive, hstream⟩
      · cases h
    · cases h
  · cases h
  · cases h

/-- ... and one it parks a client on does not stream. -/
theorem plan_parked {hash : String} {j : ℕ} (h : s.plan hash = .parked j) :
    s.registry hash = some (.live j) ∧ s.alive j = true ∧ s.jobs[j]?.any Job.streaming = false := by
  unfold Server.plan at h
  split at h
  · rename_i i hslot
    split at h
    · rename_i halive
      split at h
      · cases h
      · rename_i hstream
        cases h
        exact ⟨hslot, halive, by simpa using hstream⟩
    · cases h
  · cases h
  · cases h

theorem plan_await {hash : String} {c : ℕ} (h : s.plan hash = .await c) :
    s.registry hash = some (.inProgress c) := by
  unfold Server.plan at h
  split at h
  · split at h
    · split at h <;> cases h
    · cases h
  · rename_i hslot
    cases h
    exact hslot
  · cases h

/-! ### Preservation -/

theorem afterAwait_refers {hash : String} {round : ℕ} {result : Option ℕ}
    (h : ∀ j, result = some j → s.JobOf hash j) : (s.afterAwait round result).Refers s hash := by
  unfold Server.afterAwait
  split
  · split
    · exact h _ rfl
    · exact h _ rfl
  · trivial

theorem afterQuery_refers {hash : String} {round : ℕ} {state : Option JobState}
    {info : Option ValidPathInfo} : (afterQuery round state info).Refers s hash := by
  unfold afterQuery
  split
  · trivial
  · split <;> trivial

theorem References.requestMove (hI : References s) {r : ℕ} {req : Request} {p : RequestPhase}
    (hr : s.requests[r]? = some req) (hm : RequestMove s r req a p) : p.Refers s req.hash := by
  have hreq := hI.request r req hr
  cases hm with
  | letIn hp hplan => exact hI.slot _ _ (plan_live hplan).1
  | park hp hplan => exact hI.slot _ _ (plan_parked hplan).1
  | coalesce hp hplan => exact hI.slot _ _ (plan_await hplan)
  | awaited hp hc hended =>
      apply afterAwait_refers
      intro j hj
      subst hj
      rw [hp] at hreq
      obtain ⟨cr, hc', hhash⟩ := hreq
      rw [hc] at hc'
      cases hc'
      have hcr := hI.creation _ _ hc
      rw [hended] at hcr
      rw [← hhash]
      exact hcr
  | subscribe hp hj | poll hp hj _ =>
      rw [hp] at hreq
      exact hreq
  | query hp => exact afterQuery_refers
  | wake _ _ _ | wakeFailed _ | waitExpired _ _ _ | queryFails _ | drop => trivial

/-- The creation that a request starts is one of its path. -/
theorem creationOf_create {r : ℕ} {req : Request} (h : s.step cfg fs (.attach r) = some s')
    (hr : s.requests[r]? = some req) (hplan : s.plan req.hash = .create) :
    s'.CreationOf req.hash s.creations.length := by
  cases step_cases h with
  | create hr' _ _ =>
      rw [hr] at hr'
      cases hr'
      exact ⟨_, List.getElem?_concat_length, rfl⟩
  | request hr' hm =>
      cases hm with
      | letIn _ hplan' | park _ hplan' | coalesce _ hplan' =>
          rw [hr] at hr'
          cases hr'
          rw [hplan] at hplan'
          cases hplan'
  | creation _ hm => cases hm
  | narinfo _ hm => cases hm

/-- The job that a creation makes is one of its path. -/
theorem jobOf_spawn {c : ℕ} {cr : Creation} (h : s.step cfg fs (.spawn c) = some s')
    (hc : s.creations[c]? = some cr) : s'.JobOf cr.hash s.jobs.length := by
  cases step_cases h with
  | spawn hc' _ =>
      rw [hc] at hc'
      cases hc'
      exact ⟨_, List.getElem?_concat_length, rfl⟩
  | request _ hm => cases hm
  | creation _ hm => cases hm
  | narinfo _ hm => cases hm

theorem References.step (hI : References s) (h : s.step cfg fs a = some s') : References s' := by
  refine ⟨?_, ?_, ?_⟩
  · intro hash state hslot
    cases step_cases h with
    | @create r req round hr hp hplan =>
        by_cases hh : hash = req.hash
        · subst hh
          have hnew : update s.registry req.hash (some (.inProgress s.creations.length)) req.hash =
              some state := hslot
          rw [update_self] at hnew
          cases hnew
          exact creationOf_create h hr hplan
        · have hold : update s.registry req.hash (some (.inProgress s.creations.length)) hash =
              some state := hslot
          rw [update_of_ne hh] at hold
          exact (hI.slot hash state hold).step h
    | @finalize c cr result hc hp =>
        rcases registryFinalize_some hslot with hold | ⟨rfl, j, rfl, rfl⟩
        · exact (hI.slot hash state hold).step h
        · have href := hI.creation c cr hc
          rw [hp] at href
          exact jobOf_step h href
    | job hj hm ha =>
        refine CreationState.Refers.step (hI.slot hash state ?_) h
        rw [apply_registry ha] at hslot
        split at hslot
        · exact registryRemove_some hslot
        · exact hslot
    | _ => exact (hI.slot hash state hslot).step h
  · intro c cr' hc
    cases step_creations h hc with
    | kept hold => exact (hI.creation c cr' hold).step h
    | created _ _ hcr =>
        rw [hcr]
        trivial
    | moved hold hm hcr =>
        rw [hcr]
        cases hm <;> trivial
    | fetched _ _ _ hcr | acquired _ _ _ hcr =>
        rw [hcr]
        trivial
    | @spawned cr _ hold hp ha hcr =>
        subst ha
        rw [hcr]
        show s'.JobOf cr.hash s.jobs.length
        exact jobOf_spawn h hold
    | @finalized cr result hold hp _ hcr =>
        have href := hI.creation c _ hold
        rw [hp] at href
        rw [hcr]
        cases result with
        | none => trivial
        | some j => exact jobOf_step h href
  · intro r req' hr
    cases step_requests h hr with
    | kept hold => exact (hI.request r req' hold).step h
    | arrived _ _ hreq =>
        rw [hreq]
        trivial
    | moved hold hm hreq =>
        rw [hreq]
        exact (hI.requestMove hold hm).step h
    | @creates req _ hold ha hp hplan hreq =>
        subst ha
        rw [hreq]
        show s'.CreationOf req.hash s.creations.length
        exact creationOf_create h hold hplan

theorem References.init : References (Server.init cfg store free) := by
  refine ⟨?_, ?_, ?_⟩
  · intro hash state h
    cases h
  · intro c cr h
    simp [Server.init] at h
  · intro r req h
    simp [Server.init] at h

theorem references_of_run (h : Run (Server.step cfg fs) (Server.init cfg store free) as s) :
    References s :=
  h.invariant (fun _ _ _ hI _ hstep => hI.step hstep) .init

end BadgeOS.Harmonia
