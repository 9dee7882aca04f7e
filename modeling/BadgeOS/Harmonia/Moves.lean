import BadgeOS.Harmonia.Server

/-!
# What a step of the server can do

`Job.step` and `Server.step` once inverted: every step of the system, with the guard it
passed and the state it leads to.  The invariants of the registry, the slots, the spool, the
bodies and the narinfo cache all start from `step_cases`, so no later proof unfolds the step
functions.

* `Job.Move` — the moves of a fan-out task;
* `RequestMove`, `CreationMove` — the moves that change nothing but their own task's phase;
* `Server.Step` — the moves of the system.
-/

namespace BadgeOS.Harmonia

open Function Transition

variable {cfg : Config} {fs : SpoolFs}

/-! ### Fan-out tasks -/

/-- The moves of the fan-out task of `job`: the action, the job after it and its effect. -/
inductive Job.Move (cfg : Config) (fs : SpoolFs) (free : ℕ) (job : Job) :
    JobAct → Job → Effect → Prop
  | createSpool {statvfsOk opened} : job.phase = .spawned →
      Move cfg fs free job (.createSpool statvfsOk opened)
        { job with phase := .producing (Spool.create cfg
            (if statvfsOk then some free else none) job.up opened) } .none
  | produceFails {spool} : job.phase = .producing spool →
      Move cfg fs free job .produceFails { job with phase := .produceEnded false spool } .none
  | chunkStreamed {c} : job.phase = .producing none → c ≠ [] → job.up.decodable →
      Move cfg fs free job (.chunk c)
        { job with sent := job.sent ++ [c], total := job.total + c.length,
                   phase := .producing none } .none
  | chunkSpooled {c sp} : job.phase = .producing (some sp) → c ≠ [] → job.up.decodable →
      Move cfg fs free job (.chunk c)
        { job with sent := job.sent ++ [c], total := job.total + c.length,
                   phase := .writing sp c } .none
  | writeOk {sp c} : job.phase = .writing sp c →
      Move cfg fs free job .writeOk
        { job with phase := .producing (some { sp with written := sp.written + c.length }) } .none
  | writeback {sp bytes} : job.phase.spool = some sp → sp.disk + bytes ≤ sp.written →
      Move cfg fs free job (.writeback bytes)
        { job with phase := job.phase.withSpool { sp with disk := sp.disk + bytes } }
        (.alloc (fs.occupied (sp.disk + bytes) - fs.occupied sp.disk))
  | writeFails {sp c bytes} : job.phase = .writing sp c → bytes ≤ c.length →
      Move cfg fs free job (.writeFails bytes)
        { job with phase := .discarding { sp with written := sp.written + bytes } } .none
  | discard {sp} : job.phase = .discarding sp →
      Move cfg fs free job .discard { job with phase := .producing none }
        (.dealloc (fs.occupied sp.disk))
  | eof {spool} : job.phase = .producing spool → job.up.decodable →
      Move cfg fs free job .eof
        { job with phase := .produceEnded (job.total == job.up.narSize) spool } .none
  | dropSlot {success spool} : job.phase = .produceEnded success spool →
      Move cfg fs free job .dropSlot { job with phase := .slotDropped success spool } .release
  | failedBare : job.phase = .slotDropped false none →
      Move cfg fs free job .afterProduce { job with phase := .returned .failed } .none
  | failedSpooled {sp} : job.phase = .slotDropped false (some sp) →
      Move cfg fs free job .afterProduce { job with phase := .returned .failed }
        (.dealloc (fs.occupied sp.disk))
  | producedBare : job.phase = .slotDropped true none →
      Move cfg fs free job .afterProduce
        { job with produced := true, phase := .returned .ok } .none
  | producedSpooled {sp} : job.phase = .slotDropped true (some sp) →
      Move cfg fs free job .afterProduce
        { job with produced := true, phase := .finishing sp } .none
  | flushed {sp} : job.phase = .finishing sp → sp.disk = sp.written →
      Move cfg fs free job (.finish true) { job with phase := .importing sp.disk } .none
  | flushFailed {sp} : job.phase = .finishing sp →
      Move cfg fs free job (.finish false) { job with phase := .returned .ok }
        (.dealloc (fs.occupied sp.disk))
  | imported {n} : job.phase = .importing n →
      Move cfg fs free job (.importEnds (.ok ())) { job with phase := .unspooling n .ok }
        .imported
  | importRefused {n e} : job.phase = .importing n →
      Move cfg fs free job (.importEnds (.error e))
        { job with phase := .unspooling n (publishedState (classifyImport (.error e))) } .none
  | unspool {n state} : job.phase = .unspooling n state →
      Move cfg fs free job .unspool { job with phase := .returned state }
        (.dealloc (fs.occupied n))
  | publish {state} : job.phase = .returned state →
      Move cfg fs free job .publish { job with done := state, phase := .published } .none
  | evict : job.phase = .published →
      Move cfg fs free job .evict { job with phase := .evicted } .evict
  | uncache : job.phase = .evicted →
      Move cfg fs free job .uncache { job with phase := .uncached } .uncache
  | dropJob : job.phase = .uncached →
      Move cfg fs free job .dropJob { job with phase := .ended } .none

theorem Job.move_of_step {free : ℕ} {job job' : Job} {act : JobAct} {effect : Effect}
    (h : job.step cfg fs free act = some (job', effect)) :
    Job.Move cfg fs free job act job' effect := by
  cases act with
  | createSpool statvfsOk opened =>
      simp only [Job.step] at h
      split at h
      · rename_i hp
        cases h
        exact .createSpool hp
      · cases h
  | produceFails =>
      simp only [Job.step] at h
      split at h
      · rename_i hp
        cases h
        exact .produceFails hp
      · cases h
  | chunk c =>
      simp only [Job.step] at h
      split at h
      · rename_i spool hp
        split at h
        · rename_i hc
          cases h
          cases spool with
          | none => exact .chunkStreamed hp hc.1 hc.2
          | some n => exact .chunkSpooled hp hc.1 hc.2
        · cases h
      · cases h
  | writeOk =>
      simp only [Job.step] at h
      split at h
      · rename_i hp
        cases h
        exact .writeOk hp
      · cases h
  | writeback bytes =>
      simp only [Job.step] at h
      split at h
      · rename_i sp hsp
        split at h
        · rename_i hle
          cases h
          exact .writeback hsp hle
        · cases h
      · cases h
  | writeFails bytes =>
      simp only [Job.step] at h
      split at h
      · rename_i hp
        split at h
        · rename_i hb
          cases h
          exact .writeFails hp hb
        · cases h
      · cases h
  | discard =>
      simp only [Job.step] at h
      split at h
      · rename_i hp
        cases h
        exact .discard hp
      · cases h
  | eof =>
      simp only [Job.step] at h
      split at h
      · rename_i hp
        split at h
        · rename_i hd
          cases h
          exact .eof hp hd
        · cases h
      · cases h
  | dropSlot =>
      simp only [Job.step] at h
      split at h
      · rename_i hp
        cases h
        exact .dropSlot hp
      · cases h
  | afterProduce =>
      simp only [Job.step] at h
      split at h
      · rename_i hp
        cases h
        exact .failedBare hp
      · rename_i hp
        cases h
        exact .failedSpooled hp
      · rename_i hp
        cases h
        exact .producedBare hp
      · rename_i hp
        cases h
        exact .producedSpooled hp
      · cases h
  | finish flushed =>
      simp only [Job.step] at h
      split at h
      · rename_i hp
        split at h
        · rename_i hf
          cases hf
          split at h
          · rename_i hdisk
            cases h
            exact .flushed hp hdisk
          · cases h
        · rename_i hf
          cases h
          obtain rfl : flushed = false := by simpa using hf
          exact .flushFailed hp
      · cases h
  | importEnds res =>
      simp only [Job.step] at h
      split at h
      · rename_i hp
        cases h
        cases res with
        | ok u => exact .imported hp
        | error e => exact .importRefused hp
      · cases h
  | unspool =>
      simp only [Job.step] at h
      split at h
      · rename_i hp
        cases h
        exact .unspool hp
      · cases h
  | publish =>
      simp only [Job.step] at h
      split at h
      · rename_i hp
        cases h
        exact .publish hp
      · cases h
  | evict =>
      simp only [Job.step] at h
      split at h
      · rename_i hp
        cases h
        exact .evict hp
      · cases h
  | uncache =>
      simp only [Job.step] at h
      split at h
      · rename_i hp
        cases h
        exact .uncache hp
      · cases h
  | dropJob =>
      simp only [Job.step] at h
      split at h
      · rename_i hp
        cases h
        exact .dropJob hp
      · cases h

/-- A job keeps the path it is for. -/
theorem Job.Move.keeps {free : ℕ} {job job' : Job} {act : JobAct} {effect : Effect}
    (h : Job.Move cfg fs free job act job' effect) : job'.hash = job.hash ∧ job'.up = job.up := by
  cases h <;> exact ⟨rfl, rfl⟩

/-! ### Requests and creations -/

/-- The moves of a request that change only its phase. -/
inductive RequestMove (s : Server) (r : ℕ) (req : Request) : Action → RequestPhase → Prop
  | letIn {round j} : req.phase = .looping round → s.plan req.hash = .live j →
      RequestMove s r req (.attach r) (.subscribing j)
  | park {round j} : req.phase = .looping round → s.plan req.hash = .parked j →
      RequestMove s r req (.attach r) (.parked round (some j))
  | coalesce {round c} : req.phase = .looping round → s.plan req.hash = .await c →
      RequestMove s r req (.attach r) (.awaiting round c)
  | awaited {round c cr result} : req.phase = .awaiting round c →
      s.creations[c]? = some cr → cr.phase = .ended result →
      RequestMove s r req (.awaited r) (s.afterAwait round result)
  | subscribe {j job} : req.phase = .subscribing j → s.jobs[j]? = some job →
      RequestMove s r req (.subscribe r) (.live j (.new job.sent))
  | wake {round j job} : req.phase = .parked round (some j) → s.jobs[j]? = some job →
      job.done ≠ .running → RequestMove s r req (.wake r) (.querying round (some job.done))
  | wakeFailed {round} : req.phase = .parked round none →
      RequestMove s r req (.wake r) (.querying round (some .failed))
  | waitExpired {round j job} : req.phase = .parked round (some j) → s.jobs[j]? = some job →
      job.done = .running → RequestMove s r req (.waitExpired r) (.querying round none)
  | query {round state} : req.phase = .querying round state →
      RequestMove s r req (.query r true) (afterQuery round state (s.store req.hash))
  | queryFails {round state} : req.phase = .querying round state →
      RequestMove s r req (.query r false) .errored
  | poll {j body body' job} : req.phase = .live j body → s.jobs[j]? = some job →
      body.pollNext job (!s.alive j) = some body' →
      RequestMove s r req (.poll r) (.live j body')
  | drop : RequestMove s r req (.dropRequest r) .dropped

/-- The moves of a creation task that change only its phase. -/
inductive CreationMove (s : Server) (c : ℕ) (cr : Creation) : Action → CreationPhase → Prop
  | hit {up} : cr.phase = .resolving → s.cache cr.hash = some up →
      CreationMove s c cr (.cacheGet c) (.waiting up)
  | miss : cr.phase = .resolving → s.cache cr.hash = none →
      CreationMove s c cr (.cacheGet c) .fetching
  | unresolved : cr.phase = .fetching →
      CreationMove s c cr (.fetched c none) (.finalizing none)
  | slotTimeout {up} : cr.phase = .waiting up →
      CreationMove s c cr (.slotTimeout c) (.finalizing none)

/-- The moves of a narinfo request that change only its phase. -/
inductive NarinfoMove (s : Server) (n : ℕ) (nr : NarinfoRequest) : Action → NarinfoPhase → Prop
  | hit {up} : nr.phase = .lookup → s.cache nr.hash = some up →
      NarinfoMove s n nr (.narinfoLookup n) (.answered up)
  | miss : nr.phase = .lookup → s.cache nr.hash = none →
      NarinfoMove s n nr (.narinfoLookup n) .fetching
  | notFound : nr.phase = .fetching →
      NarinfoMove s n nr (.narinfoAnswered n none) .notFound

/-! ### The system -/

/-- The moves of the whole system. -/
inductive Server.Step (cfg : Config) (fs : SpoolFs) (s : Server) : Action → Server → Prop
  | arrive {hash narhash} : s.store hash = none →
      Step cfg fs s (.arrive hash narhash)
        { s with requests := s.requests ++ [⟨hash, narhash, .looping 0⟩] }
  | request {r : ℕ} {req a p} : s.requests[r]? = some req → RequestMove s r req a p →
      Step cfg fs s a (s.setRequest r req p)
  | create {r : ℕ} {req round} : s.requests[r]? = some req → req.phase = .looping round →
      s.plan req.hash = .create →
      Step cfg fs s (.attach r)
        { s with
          registry := update s.registry req.hash (some (.inProgress s.creations.length))
          creations := s.creations ++ [{ hash := req.hash, phase := .resolving }]
          requests := s.requests.set r { req with phase := .awaiting round s.creations.length } }
  | narinfoArrive {hash} : s.store hash = none →
      Step cfg fs s (.narinfoArrive hash) { s with narinfos := s.narinfos ++ [⟨hash, .lookup⟩] }
  | narinfo {n : ℕ} {nr a p} : s.narinfos[n]? = some nr → NarinfoMove s n nr a p →
      Step cfg fs s a (s.setNarinfo n nr p)
  | narinfoFetched {n : ℕ} {nr up} : s.narinfos[n]? = some nr → nr.phase = .fetching →
      Step cfg fs s (.narinfoAnswered n (some up))
        { s.setNarinfo n nr (.answered up) with cache := update s.cache nr.hash (some up) }
  | creation {c : ℕ} {cr a p} : s.creations[c]? = some cr → CreationMove s c cr a p →
      Step cfg fs s a (s.setCreation c cr p)
  | fetched {c : ℕ} {cr up} : s.creations[c]? = some cr → cr.phase = .fetching →
      Step cfg fs s (.fetched c (some up))
        { s.setCreation c cr (.waiting up) with
          cache := update s.cache up.storePathHash (some up) }
  | acquire {c : ℕ} {cr up} : s.creations[c]? = some cr → cr.phase = .waiting up →
      0 < s.permits →
      Step cfg fs s (.acquire c)
        { s.setCreation c cr (.slotWon up) with permits := s.permits - 1 }
  | spawn {c : ℕ} {cr up} : s.creations[c]? = some cr → cr.phase = .slotWon up →
      Step cfg fs s (.spawn c)
        { s.setCreation c cr (.finalizing (some s.jobs.length)) with
          jobs := s.jobs ++ [Job.new cr.hash up] }
  | finalize {c : ℕ} {cr result} : s.creations[c]? = some cr → cr.phase = .finalizing result →
      Step cfg fs s (.finalize c)
        { s.setCreation c cr (.ended result) with
          registry := registryFinalize s.registry cr.hash result }
  | job {j : ℕ} {job job' act effect s'} : s.jobs[j]? = some job →
      Job.Move cfg fs s.free job act job' effect →
      Server.apply { s with jobs := s.jobs.set j job' } job effect = some s' →
      Step cfg fs s (.job j act) s'
  | cacheDrop {hash} : Step cfg fs s (.cacheDrop hash) { s with cache := update s.cache hash none }
  | storeSet {hash info} :
      Step cfg fs s (.storeSet hash info) { s with store := update s.store hash info }

/-- The request an action belongs to. -/
def Action.request : Action → Option ℕ
  | .attach r | .awaited r | .subscribe r | .wake r | .waitExpired r | .query r _ | .poll r
  | .dropRequest r => some r
  | _ => none

/-- The narinfo request an action belongs to. -/
def Action.narinfo : Action → Option ℕ
  | .narinfoLookup n | .narinfoAnswered n _ => some n
  | _ => none

/-- The creation an action belongs to. -/
def Action.creation : Action → Option ℕ
  | .cacheGet c | .fetched c _ | .acquire c | .slotTimeout c | .spawn c | .finalize c => some c
  | _ => none

theorem stepRequest_cases {s s' : Server} {r : ℕ} {req : Request} {a : Action}
    (hr : s.requests[r]? = some req) (hown : a.request = some r)
    (h : s.stepRequest r req a = some s') : Server.Step cfg fs s a s' := by
  cases a with
  | attach r' =>
      obtain rfl : r' = r := by simpa [Action.request] using hown
      simp only [Server.stepRequest] at h
      split at h
      · rename_i round hp
        cases h
        unfold Server.attach
        split
        · rename_i j hplan
          exact .request hr (.letIn hp hplan)
        · rename_i j hplan
          exact .request hr (.park hp hplan)
        · rename_i c hplan
          exact .request hr (.coalesce hp hplan)
        · rename_i hplan
          exact .create hr hp hplan
      · cases h
  | awaited r' =>
      obtain rfl : r' = r := by simpa [Action.request] using hown
      simp only [Server.stepRequest] at h
      split at h
      · rename_i round c hp
        simp only [Option.map_eq_some_iff, Option.bind_eq_some_iff] at h
        obtain ⟨result, ⟨cr, hcr, hres⟩, rfl⟩ := h
        have hended : cr.phase = .ended result := by
          unfold Creation.result at hres
          split at hres
          · rename_i hph
            cases hres
            exact hph
          · cases hres
        exact .request hr (.awaited hp hcr hended)
      · cases h
  | subscribe r' =>
      obtain rfl : r' = r := by simpa [Action.request] using hown
      simp only [Server.stepRequest] at h
      split at h
      · rename_i j hp
        simp only [Option.map_eq_some_iff] at h
        obtain ⟨job, hjob, rfl⟩ := h
        exact .request hr (.subscribe hp hjob)
      · cases h
  | wake r' =>
      obtain rfl : r' = r := by simpa [Action.request] using hown
      simp only [Server.stepRequest] at h
      split at h
      · rename_i round j hp
        simp only [Option.bind_eq_some_iff] at h
        obtain ⟨job, hjob, h⟩ := h
        split at h
        · cases h
        · rename_i hdone
          cases h
          exact .request hr (.wake hp hjob hdone)
      · rename_i round hp
        cases h
        exact .request hr (.wakeFailed hp)
      · cases h
  | waitExpired r' =>
      obtain rfl : r' = r := by simpa [Action.request] using hown
      simp only [Server.stepRequest] at h
      split at h
      · rename_i round j hp
        simp only [Option.bind_eq_some_iff] at h
        obtain ⟨job, hjob, h⟩ := h
        split at h
        · rename_i hdone
          cases h
          exact .request hr (.waitExpired hp hjob hdone)
        · cases h
      · cases h
  | query r' ok =>
      obtain rfl : r' = r := by simpa [Action.request] using hown
      simp only [Server.stepRequest] at h
      split at h
      · rename_i round state hp
        cases h
        cases ok with
        | true => exact .request hr (.query hp)
        | false => exact .request hr (.queryFails hp)
      · cases h
  | poll r' =>
      obtain rfl : r' = r := by simpa [Action.request] using hown
      simp only [Server.stepRequest] at h
      split at h
      · rename_i j body hp
        simp only [Option.bind_eq_some_iff, Option.map_eq_some_iff] at h
        obtain ⟨job, hjob, body', hpoll, rfl⟩ := h
        exact .request hr (.poll hp hjob hpoll)
      · cases h
  | dropRequest r' =>
      obtain rfl : r' = r := by simpa [Action.request] using hown
      cases h
      exact .request hr .drop
  | _ => cases h

theorem stepNarinfo_cases {s s' : Server} {n : ℕ} {nr : NarinfoRequest} {a : Action}
    (hn : s.narinfos[n]? = some nr) (hown : a.narinfo = some n)
    (h : s.stepNarinfo n nr a = some s') : Server.Step cfg fs s a s' := by
  cases a with
  | narinfoLookup n' =>
      obtain rfl : n' = n := by simpa [Action.narinfo] using hown
      simp only [Server.stepNarinfo] at h
      split at h
      · rename_i hp
        cases h
        cases hc : s.cache nr.hash with
        | some up => exact .narinfo hn (.hit hp hc)
        | none => exact .narinfo hn (.miss hp hc)
      · cases h
  | narinfoAnswered n' up =>
      obtain rfl : n' = n := by simpa [Action.narinfo] using hown
      simp only [Server.stepNarinfo] at h
      split at h
      · rename_i up hp
        cases h
        exact .narinfoFetched hn hp
      · rename_i hp
        cases h
        exact .narinfo hn (.notFound hp)
      · cases h
  | _ => cases h

theorem stepCreation_cases {s s' : Server} {c : ℕ} {cr : Creation} {a : Action}
    (hc : s.creations[c]? = some cr) (hown : a.creation = some c)
    (h : s.stepCreation c cr a = some s') : Server.Step cfg fs s a s' := by
  cases a with
  | cacheGet c' =>
      obtain rfl : c' = c := by simpa [Action.creation] using hown
      simp only [Server.stepCreation] at h
      split at h
      · rename_i hp
        cases h
        cases hcache : s.cache cr.hash with
        | some up => exact .creation hc (.hit hp hcache)
        | none => exact .creation hc (.miss hp hcache)
      · cases h
  | fetched c' up =>
      obtain rfl : c' = c := by simpa [Action.creation] using hown
      simp only [Server.stepCreation] at h
      split at h
      · rename_i up hp
        cases h
        exact .fetched hc hp
      · rename_i hp
        cases h
        exact .creation hc (.unresolved hp)
      · cases h
  | acquire c' =>
      obtain rfl : c' = c := by simpa [Action.creation] using hown
      simp only [Server.stepCreation] at h
      split at h
      · rename_i up hp
        split at h
        · rename_i hpos
          cases h
          exact .acquire hc hp hpos
        · cases h
      · cases h
  | slotTimeout c' =>
      obtain rfl : c' = c := by simpa [Action.creation] using hown
      simp only [Server.stepCreation] at h
      split at h
      · rename_i up hp
        cases h
        exact .creation hc (.slotTimeout hp)
      · cases h
  | spawn c' =>
      obtain rfl : c' = c := by simpa [Action.creation] using hown
      simp only [Server.stepCreation] at h
      split at h
      · rename_i up hp
        cases h
        exact .spawn hc hp
      · cases h
  | finalize c' =>
      obtain rfl : c' = c := by simpa [Action.creation] using hown
      simp only [Server.stepCreation] at h
      split at h
      · rename_i result hp
        cases h
        exact .finalize hc hp
      · cases h
  | _ => cases h

/-- **The inversion of `Server.step`.** -/
theorem step_cases {s s' : Server} {a : Action} (h : s.step cfg fs a = some s') :
    Server.Step cfg fs s a s' := by
  cases a with
  | arrive hash narhash =>
      simp only [Server.step] at h
      split at h
      · rename_i hs
        cases h
        exact .arrive hs
      · cases h
  | narinfoArrive hash =>
      simp only [Server.step] at h
      split at h
      · rename_i hs
        cases h
        exact .narinfoArrive hs
      · cases h
  | job j act =>
      simp only [Server.step, Option.bind_eq_some_iff] at h
      obtain ⟨job, hjob, ⟨job', effect⟩, hstep, happly⟩ := h
      exact .job hjob (Job.move_of_step hstep) happly
  | cacheDrop hash =>
      cases h
      exact .cacheDrop
  | storeSet hash info =>
      cases h
      exact .storeSet
  | attach r | awaited r | subscribe r | wake r | waitExpired r | query r ok | poll r
  | dropRequest r =>
      simp only [Server.step, Option.bind_eq_some_iff] at h
      obtain ⟨req, hr, h⟩ := h
      exact stepRequest_cases hr rfl h
  | narinfoLookup n | narinfoAnswered n up =>
      simp only [Server.step, Option.bind_eq_some_iff] at h
      obtain ⟨nr, hn, h⟩ := h
      exact stepNarinfo_cases hn rfl h
  | cacheGet c | fetched c up | acquire c | slotTimeout c | spawn c | finalize c =>
      simp only [Server.step, Option.bind_eq_some_iff] at h
      obtain ⟨cr, hc, h⟩ := h
      exact stepCreation_cases hc rfl h

/-! ### What effects leave alone -/

section Apply

variable {s s' : Server} {job : Job} {effect : Effect} (h : s.apply job effect = some s')
include h

theorem apply_tables : s'.creations = s.creations ∧ s'.jobs = s.jobs ∧
    s'.requests = s.requests ∧ s'.narinfos = s.narinfos := by
  cases effect with
  | alloc n =>
      simp only [Server.apply] at h
      split at h
      · cases h
        exact ⟨rfl, rfl, rfl, rfl⟩
      · cases h
  | none | release | dealloc n | imported | evict | uncache =>
      cases h
      exact ⟨rfl, rfl, rfl, rfl⟩

theorem apply_registry :
    s'.registry = if effect = .evict then registryRemove s.registry job.hash
      else s.registry := by
  cases effect with
  | alloc n =>
      simp only [Server.apply] at h
      split at h
      · cases h
        rfl
      · cases h
  | none | release | dealloc n | imported | evict | uncache =>
      cases h
      rfl

theorem apply_permits :
    s'.permits = s.permits + if effect = .release then 1 else 0 := by
  cases effect with
  | alloc n =>
      simp only [Server.apply] at h
      split at h
      · cases h
        rfl
      · cases h
  | none | release | dealloc n | imported | evict | uncache =>
      cases h
      rfl

theorem apply_cache :
    s'.cache = if effect = .uncache then update s.cache job.hash none else s.cache := by
  cases effect with
  | alloc n =>
      simp only [Server.apply] at h
      split at h
      · cases h
        rfl
      · cases h
  | none | release | dealloc n | imported | evict | uncache =>
      cases h
      rfl

theorem apply_store :
    s'.store = if effect = .imported then
      update s.store job.up.storePathHash (some ⟨job.up.narHashBare⟩) else s.store := by
  cases effect with
  | alloc n =>
      simp only [Server.apply] at h
      split at h
      · cases h
        rfl
      · cases h
  | none | release | dealloc n | imported | evict | uncache =>
      cases h
      rfl

theorem apply_free : s'.free + effect.allocated = s.free + effect.freed := by
  cases effect with
  | alloc n =>
      simp only [Server.apply] at h
      split at h
      · rename_i hle
        cases h
        exact Nat.sub_add_cancel hle
      · cases h
  | none | release | dealloc n | imported | evict | uncache =>
      cases h
      rfl

end Apply

/-! ### The requests of a step -/

/-- How a request of the next state comes about. -/
inductive RequestOrigin (s : Server) (a : Action) (r : ℕ) (req' : Request) : Prop
  /-- It is as it was. -/
  | kept : s.requests[r]? = some req' → RequestOrigin s a r req'
  | arrived {hash narhash} : a = .arrive hash narhash → s.store hash = none →
      req' = ⟨hash, narhash, .looping 0⟩ → RequestOrigin s a r req'
  /-- It moved alone. -/
  | moved {req p} : s.requests[r]? = some req → RequestMove s r req a p →
      req' = { req with phase := p } → RequestOrigin s a r req'
  /-- It became the creator of a job. -/
  | creates {req round} : s.requests[r]? = some req → a = .attach r → req.phase = .looping round →
      s.plan req.hash = .create →
      req' = { req with phase := .awaiting round s.creations.length } → RequestOrigin s a r req'

theorem step_requests {s s' : Server} {a : Action} (h : s.step cfg fs a = some s') {r : ℕ}
    {req' : Request} (hr : s'.requests[r]? = some req') : RequestOrigin s a r req' := by
  cases step_cases h with
  | arrive hs =>
      have hr' : (s.requests ++ [_])[r]? = some req' := hr
      rw [Table.get_push] at hr'
      split at hr'
      · cases hr'
        exact .arrived rfl hs rfl
      · exact .kept hr'
  | @request i req _ p hi hm =>
      have hr' : (s.requests.set i { req with phase := p })[r]? = some req' := hr
      rw [Table.get_set hi] at hr'
      split at hr'
      · rename_i hir
        subst hir
        cases hr'
        exact .moved hi hm rfl
      · exact .kept hr'
  | @create i req round hi hp hplan =>
      have hr' : (s.requests.set i { req with phase := _ })[r]? = some req' := hr
      rw [Table.get_set hi] at hr'
      split at hr'
      · rename_i hir
        subst hir
        cases hr'
        exact .creates hi rfl hp hplan rfl
      · exact .kept hr'
  | job hj hm ha =>
      rw [(apply_tables ha).2.2.1] at hr
      exact .kept hr
  | _ => exact .kept hr

/-! ### The jobs of a run -/

/-- What a step does to the table of jobs: one fan-out task moves, a creation adds its job,
or nothing. -/
theorem step_jobs {s s' : Server} {a : Action} (h : s.step cfg fs a = some s') :
    (∃ j job job' act effect, a = .job j act ∧ s.jobs[j]? = some job ∧
      Job.Move cfg fs s.free job act job' effect ∧ s'.jobs = s.jobs.set j job') ∨
    ((∀ j act, a ≠ .job j act) ∧
      (s'.jobs = s.jobs ∨ ∃ hash up, s'.jobs = s.jobs ++ [Job.new hash up])) := by
  cases step_cases h with
  | job hj hm ha => exact .inl ⟨_, _, _, _, _, rfl, hj, hm, (apply_tables ha).2.1⟩
  | @spawn c cr up hc hp => exact .inr ⟨by simp, .inr ⟨cr.hash, up, rfl⟩⟩
  | request hr hm => exact .inr ⟨by cases hm <;> simp, .inl rfl⟩
  | creation hc hm => exact .inr ⟨by cases hm <;> simp, .inl rfl⟩
  | narinfo hn hm => exact .inr ⟨by cases hm <;> simp, .inl rfl⟩
  | _ => exact .inr ⟨by simp, .inl rfl⟩

/-- A property of every job of the server. -/
def Server.EachJob (P : Job → Prop) (s : Server) : Prop :=
  ∀ (j : ℕ) (job : Job), s.jobs[j]? = some job → P job

/-- What a new job has and each enabled move of a fan-out task keeps, a step keeps. -/
theorem Server.EachJob.step {P : Job → Prop} {s s' : Server} {a : Action} (hs : s.EachJob P)
    (h : s.step cfg fs a = some s') (hnew : ∀ hash up, P (Job.new hash up))
    (hmove : ∀ j job act job' effect, a = .job j act → s.jobs[j]? = some job →
      Job.Move cfg fs s.free job act job' effect → P job → P job') :
    s'.EachJob P := by
  intro j job hj
  rcases step_jobs h with
    ⟨i, old, new, act, effect, ha, hi, hm, hjobs⟩ | ⟨-, hjobs | ⟨hash, up, hjobs⟩⟩
  · rw [hjobs, Table.get_set hi] at hj
    split at hj
    · cases hj
      exact hmove i old act _ effect ha hi hm (hs i old hi)
    · exact hs j job hj
  · rw [hjobs] at hj
    exact hs j job hj
  · rw [hjobs, Table.get_push] at hj
    split at hj
    · cases hj
      exact hnew hash up
    · exact hs j job hj

theorem Server.EachJob.init (P : Job → Prop) (store : String → Option ValidPathInfo)
    (free : ℕ) : (Server.init cfg store free).EachJob P := by
  intro j job hj
  simp [Server.init] at hj

/-- **The job rule.**  What a new job has and every move of a fan-out task keeps, every job
of every run has. -/
theorem Server.EachJob.of_run {P : Job → Prop} {store : String → Option ValidPathInfo}
    {free : ℕ} {as : List Action} {s : Server} (hnew : ∀ hash up, P (Job.new hash up))
    (hmove : ∀ {free job act job' effect}, Job.Move cfg fs free job act job' effect →
      P job → P job')
    (h : Run (Server.step cfg fs) (Server.init cfg store free) as s) : s.EachJob P := by
  refine h.invariant (I := Server.EachJob P) ?_ (.init P store free)
  intro s a s' hs _ hstep
  exact hs.step hstep hnew fun _ _ _ _ _ _ _ hm hP => hmove hm hP

end BadgeOS.Harmonia
