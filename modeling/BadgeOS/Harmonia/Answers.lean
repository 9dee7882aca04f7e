import BadgeOS.Harmonia.References

/-!
# What the answers are of

The narinfo handler, the creation of a job and the NAR handler each ask the upstreams on
their own, and none of them compares the answer with the question: the handler caches what it
got under the hash that was asked for, a job is made for whatever its narinfo names, and the
miss path of `nar::get` does not look at the NarHash in its URL.  What is served is then right
exactly as far as the upstreams' answers are: `good` answers in, `good` entries and answers
out.

* `Answers good` — the invariant, for any property of a narinfo asked for under a hash;
* `answers_match` — the instances: the hash part, and the NarHash.
-/

namespace BadgeOS.Harmonia

open Function Transition

variable {cfg : Config} {fs : SpoolFs} {s s' : Server}
  {store : String → Option ValidPathInfo} {free : ℕ} {as : List Action} {a : Action}
  {good : String → UpstreamNarInfo → Bool} {nh : String → String}

/-! ### Conditions -/

/-- What the upstreams answer for a hash is `good` for that hash. -/
def upstreamsAnswer (good : String → UpstreamNarInfo → Bool) (s : Server) : Action → Bool
  | .narinfoAnswered n (some up) => s.narinfos[n]?.all fun nr => good nr.hash up
  | .fetched c (some up) => s.creations[c]?.all fun cr => good cr.hash up
  | _ => true

/-- A narinfo for `hash` names a path with that hash part. -/
def namesPath (hash : String) (up : UpstreamNarInfo) : Bool := up.storePathHash == hash

/-- ... and the NarHash that `nh` has for it. -/
def namesNar (nh : String → String) (hash : String) (up : UpstreamNarInfo) : Bool :=
  namesPath hash up && up.narHashBare == nh hash

/-- NARs are asked for, and enter the store from elsewhere, with the NarHash of `nh`. -/
def knowsNar (nh : String → String) : Action → Bool
  | .arrive hash narhash => narhash == nh hash
  | .storeSet hash (some info) => info.narHash == nh hash
  | _ => true

/-! ### Narinfos -/

/-- The narinfo a creation holds. -/
def CreationPhase.narinfo : CreationPhase → Option UpstreamNarInfo
  | .waiting up | .slotWon up => some up
  | _ => none

/-- Every narinfo in the server is `good` for the hash it is held under. -/
structure Answers (good : String → UpstreamNarInfo → Bool) (s : Server) : Prop where
  cache : ∀ hash up, s.cache hash = some up → good hash up = true
  creation : ∀ (c : ℕ) cr up, s.creations[c]? = some cr → cr.phase.narinfo = some up →
    good cr.hash up = true
  job : s.EachJob fun job => good job.hash job.up = true
  narinfo : ∀ (n : ℕ) nr up, s.narinfos[n]? = some nr → nr.phase = .answered up →
    good nr.hash up = true

/-- A `good` answer put into the cache where it should go. -/
theorem cache_update {cache : String → Option UpstreamNarInfo} {hash : String}
    {up : UpstreamNarInfo} (hcache : ∀ h up, cache h = some up → good h up = true)
    (hup : good hash up = true) {h : String} {up' : UpstreamNarInfo}
    (hs : update cache hash (some up) h = some up') : good h up' = true := by
  by_cases hh : h = hash
  · subst hh
    rw [update_self] at hs
    cases hs
    exact hup
  · rw [update_of_ne hh] at hs
    exact hcache h up' hs

theorem cache_remove {cache : String → Option UpstreamNarInfo} {hash : String}
    (hcache : ∀ h up, cache h = some up → good h up = true) {h : String} {up' : UpstreamNarInfo}
    (hs : update cache hash none h = some up') : good h up' = true := by
  by_cases hh : h = hash
  · subst hh
    rw [update_self] at hs
    cases hs
  · rw [update_of_ne hh] at hs
    exact hcache h up' hs

theorem Answers.cache_step (hI : Answers good s)
    (hkey : ∀ hash up, good hash up = true → up.storePathHash = hash)
    (hG : upstreamsAnswer good s a = true) (h : s.step cfg fs a = some s') {hash : String}
    {up : UpstreamNarInfo} (hc : s'.cache hash = some up) : good hash up = true := by
  cases step_cases h with
  | narinfoFetched hn _ =>
      exact cache_update hI.cache (by simpa [upstreamsAnswer, hn] using hG) hc
  | @fetched c cr up' hcr _ =>
      have hup : good cr.hash up' = true := by simpa [upstreamsAnswer, hcr] using hG
      have hc' : update s.cache up'.storePathHash (some up') hash = some up := hc
      -- the key of the entry is the hash its narinfo names
      rw [hkey _ _ hup] at hc'
      exact cache_update hI.cache hup hc'
  | cacheDrop => exact cache_remove hI.cache hc
  | job hj hm ha =>
      rw [apply_cache ha] at hc
      split at hc
      · exact cache_remove hI.cache hc
      · exact hI.cache hash up hc
  | _ => exact hI.cache hash up hc

theorem Answers.creation_step (hI : Answers good s)
    (hG : upstreamsAnswer good s a = true) (h : s.step cfg fs a = some s') {c : ℕ}
    {cr' : Creation} {up : UpstreamNarInfo} (hc : s'.creations[c]? = some cr')
    (hup : cr'.phase.narinfo = some up) : good cr'.hash up = true := by
  cases step_creations h hc with
  | kept hold => exact hI.creation c cr' up hold hup
  | created _ _ hcr | spawned _ _ _ hcr | finalized _ _ _ hcr =>
      rw [hcr] at hup
      cases hup
  | moved hold hm hcr =>
      rw [hcr] at hup ⊢
      cases hm with
      | hit _ hcache =>
          cases hup
          exact hI.cache _ _ hcache
      | miss _ _ | unresolved _ | slotTimeout _ => cases hup
  | fetched hold _ ha hcr =>
      subst ha
      rw [hcr] at hup ⊢
      cases hup
      simpa [upstreamsAnswer, hold] using hG
  | @acquired cr _ hold hp _ hcr =>
      rw [hcr] at hup ⊢
      cases hup
      show good cr.hash up = true
      exact hI.creation c cr up hold (by rw [hp]; rfl)

theorem Answers.narinfo_step (hI : Answers good s)
    (hG : upstreamsAnswer good s a = true) (h : s.step cfg fs a = some s') {n : ℕ}
    {nr' : NarinfoRequest} {up : UpstreamNarInfo} (hn : s'.narinfos[n]? = some nr')
    (hup : nr'.phase = .answered up) : good nr'.hash up = true := by
  cases step_cases h with
  | narinfoArrive _ =>
      have hn' : (s.narinfos ++ [_])[n]? = some nr' := hn
      rw [Table.get_push] at hn'
      split at hn'
      · cases hn'
        cases hup
      · exact hI.narinfo n nr' up hn' hup
  | @narinfo i nr _ p hi hm =>
      have hn' : (s.narinfos.set i { nr with phase := p })[n]? = some nr' := hn
      rw [Table.get_set hi] at hn'
      split at hn'
      · cases hn'
        cases hm with
        | hit _ hcache =>
            cases hup
            exact hI.cache _ _ hcache
        | miss _ _ | notFound _ => cases hup
      · exact hI.narinfo n nr' up hn' hup
  | @narinfoFetched i nr up' hi _ =>
      have hn' : (s.narinfos.set i { nr with phase := _ })[n]? = some nr' := hn
      rw [Table.get_set hi] at hn'
      split at hn'
      · cases hn'
        cases hup
        simpa [upstreamsAnswer, hi] using hG
      · exact hI.narinfo n nr' up hn' hup
  | job hj hm ha =>
      rw [(apply_tables ha).2.2.2] at hn
      exact hI.narinfo n nr' up hn hup
  | _ => exact hI.narinfo n nr' up hn hup

theorem Answers.job_step (hI : Answers good s) (h : s.step cfg fs a = some s') :
    s'.EachJob fun job => good job.hash job.up = true := by
  intro j job hj
  cases step_cases h with
  | @spawn c cr up hc hp =>
      have hj' : (s.jobs ++ [Job.new cr.hash up])[j]? = some job := hj
      rw [Table.get_push] at hj'
      split at hj'
      · cases hj'
        exact hI.creation c cr up hc (by rw [hp]; rfl)
      · exact hI.job j job hj'
  | @job i old new _ _ _ hi hm ha =>
      rw [(apply_tables ha).2.1, Table.get_set hi] at hj
      split at hj
      · cases hj
        rw [hm.keeps.1, hm.keeps.2]
        exact hI.job i old hi
      · exact hI.job j job hj
  | _ => exact hI.job j job hj

theorem Answers.step (hI : Answers good s)
    (hkey : ∀ hash up, good hash up = true → up.storePathHash = hash)
    (hG : upstreamsAnswer good s a = true) (h : s.step cfg fs a = some s') : Answers good s' :=
  ⟨fun _ _ hc => hI.cache_step hkey hG h hc, fun _ _ _ hc hup => hI.creation_step hG h hc hup,
    hI.job_step h, fun _ _ _ hn hup => hI.narinfo_step hG h hn hup⟩

theorem Answers.init : Answers good (Server.init cfg store free) := by
  refine ⟨?_, ?_, .init _ store free, ?_⟩
  · intro hash up h
    cases h
  · intro c cr up h
    simp [Server.init] at h
  · intro n nr up h
    simp [Server.init] at h

theorem answers_of_run (hkey : ∀ hash up, good hash up = true → up.storePathHash = hash)
    (h : RunWith (Server.step cfg fs) (fun s a => upstreamsAnswer good s a = true)
      (Server.init cfg store free) as s) : Answers good s :=
  h.invariant (fun _ _ _ hI hG hstep => hI.step hkey hG hstep) .init

/-! ### NARs -/

/-- The store and the requests agree with `nh`. -/
structure KnowsNar (nh : String → String) (s : Server) : Prop where
  store : ∀ hash info, s.store hash = some info → info.narHash = nh hash
  request : ∀ (r : ℕ) req, s.requests[r]? = some req → req.narhash = nh req.hash
  served : ∀ (r : ℕ) req info, s.requests[r]? = some req → req.phase = .served info →
    info.narHash = nh req.hash

theorem KnowsNar.store_step (hI : KnowsNar nh s) (hA : Answers (namesNar nh) s)
    (hG : knowsNar nh a = true) (h : s.step cfg fs a = some s') {hash : String}
    {info : ValidPathInfo} (hs : s'.store hash = some info) : info.narHash = nh hash := by
  cases step_cases h with
  | @storeSet hash' info' =>
      have hs' : update s.store hash' info' hash = some info := hs
      by_cases hh : hash = hash'
      · subst hh
        rw [update_self] at hs'
        subst hs'
        simpa [knowsNar] using hG
      · rw [update_of_ne hh] at hs'
        exact hI.store hash info hs'
  | @job j job _ _ effect _ hj hm ha =>
      rw [apply_store ha] at hs
      split at hs
      · -- an import makes the job's path valid, with the job's NarHash
        have hgood := hA.job j job hj
        simp only [namesNar, namesPath, Bool.and_eq_true, beq_iff_eq] at hgood
        by_cases hh : hash = job.up.storePathHash
        · subst hh
          rw [update_self] at hs
          cases hs
          rw [hgood.1]
          exact hgood.2
        · rw [update_of_ne hh] at hs
          exact hI.store hash info hs
      · exact hI.store hash info hs
  | _ => exact hI.store hash info hs

theorem afterQuery_served {round : ℕ} {state : Option JobState} {found : Option ValidPathInfo}
    {info : ValidPathInfo} (h : afterQuery round state found = .served info) :
    found = some info := by
  unfold afterQuery at h
  split at h
  · cases h
    rfl
  · split at h <;> cases h

theorem KnowsNar.request_step (hI : KnowsNar nh s) (hG : knowsNar nh a = true)
    (h : s.step cfg fs a = some s') {r : ℕ} {req' : Request}
    (hr : s'.requests[r]? = some req') :
    req'.narhash = nh req'.hash ∧
      ∀ info, req'.phase = .served info → info.narHash = nh req'.hash := by
  cases step_requests h hr with
  | kept hold => exact ⟨hI.request r req' hold, fun info => hI.served r req' info hold⟩
  | arrived ha _ hreq =>
      subst ha
      rw [hreq]
      exact ⟨by simpa [knowsNar] using hG, nofun⟩
  | @creates req _ hold _ _ _ hreq =>
      rw [hreq]
      have hnar : req.narhash = nh req.hash := hI.request r req hold
      exact ⟨hnar, nofun⟩
  | @moved req p hold hm hreq =>
      rw [hreq]
      refine ⟨hI.request r req hold, ?_⟩
      intro info hp
      have hp' : p = .served info := hp
      cases hm with
      | @query round state hq => exact hI.store _ _ (afterQuery_served hp')
      | @awaited round c cr result _ _ _ =>
          unfold Server.afterAwait at hp'
          split at hp'
          · split at hp' <;> cases hp'
          · cases hp'
      | _ => cases hp'

theorem knowsNar_of_run (hstore : ∀ hash info, store hash = some info → info.narHash = nh hash)
    (h : RunWith (Server.step cfg fs)
      (fun s a => upstreamsAnswer (namesNar nh) s a = true ∧ knowsNar nh a = true)
      (Server.init cfg store free) as s) : Answers (namesNar nh) s ∧ KnowsNar nh s := by
  have hkey : ∀ hash up, namesNar nh hash up = true → up.storePathHash = hash := by
    intro hash up hgood
    simp only [namesNar, namesPath, Bool.and_eq_true, beq_iff_eq] at hgood
    exact hgood.1
  refine h.invariant (I := fun s => Answers (namesNar nh) s ∧ KnowsNar nh s) ?_ ?_
  · rintro s a s' ⟨hA, hI⟩ ⟨hG, hK⟩ hstep
    refine ⟨hA.step hkey hG hstep, ?_, ?_, ?_⟩
    · exact fun _ _ hs => hI.store_step hA hK hstep hs
    · exact fun _ _ hr => (hI.request_step hK hstep hr).1
    · exact fun _ _ info hr => (hI.request_step hK hstep hr).2 info
  · refine ⟨.init, hstore, ?_, ?_⟩
    · intro r req hr
      simp [Server.init] at hr
    · intro r req info hr
      simp [Server.init] at hr

/-- Every 200 answer on the miss path is of the path and the NarHash of its URL: the job of a
live body is for that narinfo, and the path served from the store has that NarHash. -/
def Server.ServesAsked (s : Server) : Prop :=
  ∀ (r : ℕ) req, s.requests[r]? = some req →
    (∀ j body, req.phase = .live j body → ∃ job, s.jobs[j]? = some job ∧
      job.up.storePathHash = req.hash ∧ job.up.narHashBare = req.narhash) ∧
    ∀ info, req.phase = .served info → info.narHash = req.narhash

/-- Every cached narinfo, and every narinfo answered, names the path it is kept or answered
for. -/
def Server.NamesAsked (s : Server) : Prop :=
  (∀ hash up, s.cache hash = some up → up.storePathHash = hash) ∧
  ∀ (n : ℕ) nr up, s.narinfos[n]? = some nr → nr.phase = .answered up →
    up.storePathHash = nr.hash

/-- **Answers.**  In every run in which each narinfo of an upstream names a path of the hash
it was asked for, every cached and every answered narinfo names the path asked for; and if
for each path the upstreams, the store and the requests go by one NarHash, every NAR served
on the miss path is the one its URL names. -/
theorem answers_match
    (h : RunWith (Server.step cfg fs) (fun s a => upstreamsAnswer namesPath s a = true)
      (Server.init cfg store free) as s) :
    s.NamesAsked ∧
    ∀ nh : String → String, (∀ hash info, store hash = some info → info.narHash = nh hash) →
      RunWith (Server.step cfg fs)
        (fun s a => upstreamsAnswer (namesNar nh) s a = true ∧ knowsNar nh a = true)
        (Server.init cfg store free) as s → s.ServesAsked := by
  have hA := answers_of_run (fun hash up hgood => by simpa [namesPath] using hgood) h
  refine ⟨⟨?_, ?_⟩, ?_⟩
  · intro hash up hc
    simpa [namesPath] using hA.cache hash up hc
  · intro n nr up hn hp
    simpa [namesPath] using hA.narinfo n nr up hn hp
  · intro nh hstore hrun
    obtain ⟨hN, hK⟩ := knowsNar_of_run hstore hrun
    have hrefs := references_of_run hrun.run
    intro r req hr
    refine ⟨?_, ?_⟩
    · intro j body hp
      have href := hrefs.request r req hr
      rw [hp] at href
      obtain ⟨job, hj, hhash⟩ := href
      have hgood := hN.job j job hj
      simp only [namesNar, namesPath, Bool.and_eq_true, beq_iff_eq] at hgood
      refine ⟨job, hj, hgood.1.trans hhash, ?_⟩
      rw [hK.request r req hr, hgood.2, hhash]
    · intro info hp
      rw [hK.served r req info hr hp, hK.request r req hr]

/-- A narinfo request for `asked` that is answered with `up`, then a request for a NAR of
another path that is streamed. -/
def narinfoThenNar (asked : String) (up : UpstreamNarInfo) (narhash : String) : List Action :=
  [.narinfoArrive asked, .narinfoLookup 0, .narinfoAnswered 0 (some up), .arrive "b" narhash,
    .attach 0, .cacheGet 0, .fetched 0 (some ⟨"b", "m", 3, "xz"⟩), .acquire 0, .spawn 0,
    .finalize 0, .awaited 0, .subscribe 0]

/-- Two paths, asked for by their hash parts and NarHashes. -/
theorem answers_match_two_paths :
    ∃ s req body, Run (Server.step ⟨1, 10⟩ .exact) (Server.init ⟨1, 10⟩ (fun _ => none) 100)
        (narinfoThenNar "a" ⟨"a", "n", 3, "xz"⟩ "m") s ∧
      s.requests[0]? = some req ∧ req.phase = .live 0 body ∧ s.NamesAsked ∧ s.ServesAsked := by
  have hreplay : ∃ s : Server, RunWith (Server.step ⟨1, 10⟩ .exact)
      (fun s a => (upstreamsAnswer namesPath s a &&
        (upstreamsAnswer (namesNar fun hash => if hash = "a" then "n" else "m") s a &&
          knowsNar (fun hash => if hash = "a" then "n" else "m") a)) = true)
      (Server.init ⟨1, 10⟩ (fun _ => none) 100) (narinfoThenNar "a" ⟨"a", "n", 3, "xz"⟩ "m") s ∧
      (s.requests[0]?.any fun req => req.phase == .live 0 (.new [])) = true :=
    runWith_exists_of_check (by decide +kernel)
  obtain ⟨s, hrun, hs⟩ := hreplay
  obtain ⟨req, hr, hp⟩ := (Option.any_eq_true _ _).1 hs
  have hmatch := answers_match (hrun.mono fun s a h => (Bool.and_eq_true_iff.1 h).1)
  have hserves := hmatch.2 _ (fun _ _ h => by cases h) (hrun.mono fun s a h =>
    Bool.and_eq_true_iff.1 (Bool.and_eq_true_iff.1 h).2)
  exact ⟨s, req, _, hrun.run, hr, by simpa using hp, hmatch.1, hserves⟩

/-- The handler answers and caches, under the hash it was asked for, a narinfo of another path;
and a NAR asked for by a NarHash that is not its own is streamed. -/
theorem answers_unchecked :
    (¬ ∀ (cfg : Config) (fs : SpoolFs) (store : String → Option ValidPathInfo) (free : ℕ)
      (as : List Action) (s : Server),
      Run (Server.step cfg fs) (Server.init cfg store free) as s → s.NamesAsked) ∧
    ¬ ∀ (cfg : Config) (fs : SpoolFs) (store : String → Option ValidPathInfo) (free : ℕ)
      (as : List Action) (s : Server),
      Run (Server.step cfg fs) (Server.init cfg store free) as s → s.ServesAsked := by
  have hreplay : ∃ s : Server, Run (Server.step ⟨1, 10⟩ .exact) (Server.init ⟨1, 10⟩ (fun _ => none) 100)
      (narinfoThenNar "a" ⟨"z", "n", 3, "xz"⟩ "x") s ∧
      (s.cache "a" == some ⟨"z", "n", 3, "xz"⟩ &&
        (s.requests[0]?.any fun req => req.narhash == "x" && req.phase == .live 0 (.new [])) &&
        s.jobs[0]?.any fun job => job.up.narHashBare == "m") = true :=
    run_exists_of_check (by decide +kernel)
  obtain ⟨s, hrun, hs⟩ := hreplay
  simp only [Bool.and_eq_true, Option.any_eq_true, beq_iff_eq] at hs
  obtain ⟨⟨hcache, req, hr, hx, hp⟩, job, hj, hm⟩ := hs
  constructor
  · intro hclaim
    have hkey := (hclaim _ _ _ _ _ s hrun).1 "a" _ hcache
    exact absurd hkey (by decide)
  · intro hclaim
    obtain ⟨job', hj', -, hnar⟩ := (hclaim _ _ _ _ _ s hrun 0 req hr).1 0 _ hp
    rw [hj] at hj'
    cases hj'
    rw [hm, hx] at hnar
    exact absurd hnar (by decide)

end BadgeOS.Harmonia
