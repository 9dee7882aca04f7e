import BadgeOS.Harmonia.SpoolSpace

/-!
# What the spool file holds

The spool of one job, with its bytes.  `Job.step` counts what a spool took and what reached
the disk; here the same actions move the bytes themselves, from a chunk into the writer's
buffer, from the buffer into the file, and the file away when the task removes it.  Beside the
task runs `import`: the request it queues for the reference fetcher, and `import_one` with
every answer the daemon and the filesystem can give.

* `SpoolFile.step` — the task's own actions, and those of the fetcher on its request;
* `SpoolFile.InPhase` — what the file and the buffer hold in each phase of the task;
* `spool_imported_once_whole` — the file is imported at most once, whole, is there until that
  call has returned, and is gone when `run_fanout` returns.

The file's name is its own (`create_new`, and a counter in the name), so no other job's
actions touch it; removals succeed.
-/

namespace BadgeOS.Harmonia

open Transition

/-- Where the import of a spool stands, from `import` to what `import_one` answered. -/
inductive ImportStage
  /-- `import` has not sent its request. -/
  | idle
  /-- The request is in the fetcher's queue. -/
  | queued
  /-- `import_one` has a connection to the daemon. -/
  | connected
  /-- The daemon lacks some of the path's references. -/
  | fetching
  /-- The references are dealt with, the spool is not open yet. -/
  | referenced
  /-- In `add_to_store_nar`. -/
  | adding
  /-- The result is on its way back to `import`. -/
  | answered (res : Except String Unit)
  /-- `import` returned. -/
  | received

/-- A job, its spool file and the import of that file. -/
structure SpoolFile where
  job : Job
  /-- The contents of the file, while it exists. -/
  file : Option (List UInt8)
  /-- What the `BufWriter` holds and the file does not. -/
  buffer : List UInt8
  stage : ImportStage
  /-- What each call of `add_to_store_nar` was given, oldest first. -/
  imports : List (List UInt8)

/-- A job just spawned: no file yet. -/
def SpoolFile.new (hash : String) (up : UpstreamNarInfo) : SpoolFile :=
  { job := Job.new hash up, file := none, buffer := [], stage := .idle, imports := [] }

/-- `Spool::remove`, and the `remove_file` after the import. -/
def SpoolFile.remove (s : SpoolFile) : SpoolFile := { s with file := none, buffer := [] }

/-- The file and the buffer after an action of the task, whose job is then `job'`. -/
def SpoolFile.written (s : SpoolFile) (job' : Job) (act : JobAct) : SpoolFile :=
  match act, s.job.phase with
  | .createSpool _ _, _ =>
      if job'.phase.spool.isSome then { s with file := some [], buffer := [] } else s
  | .writeOk, .writing _ c => { s with buffer := s.buffer ++ c }
  | .writeFails bytes, .writing _ c => { s with buffer := s.buffer ++ c.take bytes }
  | .writeback bytes, _ =>
      { s with file := s.file.map (· ++ s.buffer.take bytes), buffer := s.buffer.drop bytes }
  | .discard, _ => s.remove
  | .afterProduce, .slotDropped false (some _) => s.remove
  | .finish false, _ => s.remove
  | .unspool, _ => s.remove
  | _, _ => s

/-- The task takes an action of its own. -/
def SpoolFile.jobStep (cfg : Config) (fs : SpoolFs) (free : ℕ) (s : SpoolFile) (act : JobAct) :
    Option SpoolFile :=
  (s.job.step cfg fs free act).map fun (job', _) => { s.written job' act with job := job' }

/-- The actions of a job and of the fetcher on its request, with the answers they got. -/
inductive SpoolAct
  /-- Any action of the task but the import's return. -/
  | job (free : ℕ) (act : JobAct)
  /-- `registry.fetcher().send`, once the jobs of the references ended or took too long. -/
  | request (alive : Bool)
  /-- The fetcher takes the request and connects, or has its connection still. -/
  | connect (res : Except String Unit)
  /-- `query_valid_paths`: which of the references the daemon has. -/
  | queryValidPaths (res : Except String (List String))
  /-- `query_valid_paths` with substitution, for the missing ones. -/
  | fetchReferences (res : Except String Unit)
  /-- `File::open`; when it opens, `add_to_store_nar` starts on it. -/
  | openSpool (res : Except String Unit)
  /-- `add_to_store_nar` returned. -/
  | added (res : Except String Unit)
  /-- The fetcher drops a request it has not taken. -/
  | fetcherGone
  /-- `import` returns to the task. -/
  | importReturns (free : ℕ)

/-- The stage after a call of `import_one` that fails with `label: error`. -/
def ImportStage.after (label : String) (next : ImportStage) : Except String Unit → ImportStage
  | .ok () => next
  | .error e => .answered (.error s!"{label}: {e}")

/-- One action.  `refs` are the references of the path, without itself. -/
def SpoolFile.step (cfg : Config) (fs : SpoolFs) (refs : List String) (s : SpoolFile) :
    SpoolAct → Option SpoolFile
  | .job free act =>
      match act with
      | .importEnds _ => none
      | act => s.jobStep cfg fs free act
  | .request alive =>
      match s.job.phase, s.stage with
      | .importing _, .idle =>
          some { s with stage := if alive then .queued
                                 else .answered (.error "reference fetcher gone") }
      | _, _ => none
  | .connect res =>
      match s.stage with
      | .queued => some { s with stage := .after "daemon connect" .connected res }
      | _ => none
  | .queryValidPaths res =>
      match s.stage with
      | .connected =>
          match res with
          | .ok valid => some { s with stage := if refs ⊆ valid then .referenced else .fetching }
          | .error e =>
              -- with no references the daemon is not asked
              if refs = [] then none
              else some { s with stage := .answered (.error s!"query_valid_paths: {e}") }
      | _ => none
  | .fetchReferences res =>
      match s.stage with
      | .fetching => some { s with stage := .after "fetching references" .referenced res }
      | _ => none
  | .openSpool res =>
      match s.stage, res, s.file with
      | .referenced, .ok (), some contents =>
          some { s with stage := .adding, imports := s.imports ++ [contents] }
      | .referenced, .error e, _ => some { s with stage := .answered (.error s!"spool: {e}") }
      | _, _, _ => none
  | .added res =>
      match s.stage with
      | .adding => some { s with stage := .after "add_to_store_nar" (.answered (.ok ())) res }
      | _ => none
  | .fetcherGone =>
      match s.stage with
      | .queued => some { s with stage := .answered (.error "reference fetcher gone") }
      | _ => none
  | .importReturns free =>
      match s.stage with
      | .answered res =>
          (s.jobStep cfg fs free (.importEnds res)).map fun s' => { s' with stage := .received }
      | _ => none

variable {cfg : Config} {fs : SpoolFs} {refs : List String} {free : ℕ} {s s' : SpoolFile}

/-! ### What holds between two actions -/

/-- `run_fanout` has returned. -/
def FanoutPhase.hasReturned : FanoutPhase → Bool
  | .returned _ | .published | .evicted | .uncached | .ended => true
  | _ => false

/-- The import is done with. -/
def FanoutPhase.pastImport : FanoutPhase → Bool
  | .unspooling _ _ => true
  | phase => phase.hasReturned

/-- `spool` took `bytes`: they are in the file, as far as they reached the disk, and in the
buffer.  Without a spool there is no file. -/
def SpoolFile.Holds (s : SpoolFile) (bytes : List UInt8) : Option Spool → Prop
  | none => s.file = none
  | some sp => ∃ disk, s.file = some disk ∧ disk ++ s.buffer = bytes ∧ disk.length = sp.disk ∧
      bytes.length = sp.written

/-- What the file and the buffer hold in each phase. -/
def SpoolFile.InPhase (s : SpoolFile) : FanoutPhase → Prop
  | .spawned => s.file = none ∧ s.job.decoded = []
  | .producing spool => s.Holds s.job.decoded spool
  | .writing sp c => ∃ before, s.job.decoded = before ++ c ∧ s.Holds before (some sp)
  | .discarding sp => ∃ taken, s.Holds taken (some sp)
  | .produceEnded success spool | .slotDropped success spool =>
      s.Holds s.job.decoded spool ∧ (success = true → s.job.decoded.length = s.job.up.narSize)
  | .finishing sp => s.Holds s.job.decoded (some sp) ∧
      s.job.decoded.length = s.job.up.narSize ∧ s.job.produced = true
  | .importing _ => s.file = some s.job.decoded ∧
      s.job.decoded.length = s.job.up.narSize ∧ s.job.produced = true
  | .unspooling _ _ => True
  | _ => s.file = none

/-- What the daemon was given at each stage of the import. -/
def SpoolFile.InStage (s : SpoolFile) : ImportStage → Prop
  | .idle => s.imports = []
  | .queued | .connected | .fetching | .referenced =>
      (∃ n, s.job.phase = .importing n) ∧ s.imports = []
  | .adding => (∃ n, s.job.phase = .importing n) ∧ s.imports = [s.job.decoded]
  | .answered _ => (∃ n, s.job.phase = .importing n) ∧
      (s.imports = [] ∨ s.imports = [s.job.decoded])
  | .received => s.job.phase.pastImport = true ∧ (s.imports = [] ∨ s.imports = [s.job.decoded] ∧
      s.job.decoded.length = s.job.up.narSize ∧ s.job.produced = true)

/-- The invariant of a job with its spool file. -/
structure SpoolFile.Inv (up : UpstreamNarInfo) (s : SpoolFile) : Prop where
  up_eq : s.job.up = up
  total : s.job.total = s.job.decoded.length
  phase : s.InPhase s.job.phase
  stage : s.InStage s.stage

theorem SpoolFile.Inv.new (hash : String) (up : UpstreamNarInfo) :
    (SpoolFile.new hash up).Inv up where
  up_eq := rfl
  total := rfl
  phase := ⟨rfl, rfl⟩
  stage := rfl

/-! ### The task's own actions -/

theorem SpoolFile.jobStep_cases {act : JobAct} (h : s.jobStep cfg fs free act = some s') :
    ∃ job' effect, Job.Move cfg fs free s.job act job' effect ∧
      s' = { s.written job' act with job := job' } := by
  unfold SpoolFile.jobStep at h
  obtain ⟨⟨job', effect⟩, hstep, rfl⟩ := Option.map_eq_some_iff.mp h
  exact ⟨job', effect, Job.move_of_step hstep, rfl⟩

/-- Writing touches neither the import nor what the daemon was given. -/
theorem SpoolFile.written_frame (s : SpoolFile) (job' : Job) (act : JobAct) :
    (s.written job' act).stage = s.stage ∧ (s.written job' act).imports = s.imports := by
  unfold SpoolFile.written SpoolFile.remove
  split
  · split <;> exact ⟨rfl, rfl⟩
  all_goals exact ⟨rfl, rfl⟩

/-- `total` counts the decoded bytes. -/
theorem Job.Move.total {job job' : Job} {act : JobAct} {effect : Effect}
    (h : Job.Move cfg fs free job act job' effect) (ht : job.total = job.decoded.length) :
    job'.total = job'.decoded.length := by
  cases h with
  | chunkStreamed _ _ _ | chunkSpooled _ _ _ =>
      show _ + _ = (job.sent ++ [_]).flatten.length
      rw [List.flatten_append, List.length_append, List.flatten_singleton, ht]
      rfl
  | _ => exact ht

/-- The bytes on disk and in the buffer after a part of the buffer was written back. -/
theorem SpoolFile.Holds.writeback {bytes : List UInt8} {sp : Spool} {n : ℕ}
    (h : s.Holds bytes (some sp)) (hn : sp.disk + n ≤ sp.written) (job' : Job) :
    SpoolFile.Holds { s.written job' (.writeback n) with job := job' } bytes
      (some { sp with disk := sp.disk + n }) := by
  obtain ⟨disk, hfile, hbytes, hdisk, hwritten⟩ := h
  have hlen : disk.length + s.buffer.length = bytes.length := by
    rw [← hbytes, List.length_append]
  refine ⟨disk ++ s.buffer.take n, ?_, ?_, ?_, hwritten⟩
  · show s.file.map (· ++ s.buffer.take n) = _
    rw [hfile]
    rfl
  · show disk ++ s.buffer.take n ++ s.buffer.drop n = bytes
    rw [List.append_assoc, List.take_append_drop, hbytes]
  · rw [List.length_append, List.length_take, hdisk]
    show sp.disk + min n s.buffer.length = sp.disk + n
    omega

/-- The bytes after a part of a chunk was taken into the buffer. -/
theorem SpoolFile.Holds.buffered {bytes more : List UInt8} {sp : Spool} {t : SpoolFile}
    (h : s.Holds bytes (some sp)) (hfile : t.file = s.file) (hbuffer : t.buffer = s.buffer ++ more) :
    t.Holds (bytes ++ more) (some { sp with written := sp.written + more.length }) := by
  obtain ⟨disk, hd, hbytes, hdisk, hwritten⟩ := h
  refine ⟨disk, hfile.trans hd, ?_, hdisk, ?_⟩
  · rw [hbuffer, ← List.append_assoc, hbytes]
  · rw [List.length_append, hwritten]

/-- What the file and the buffer hold follows the task from phase to phase. -/
theorem SpoolFile.inPhase_step {job' : Job} {act : JobAct} {effect : Effect}
    (h : Job.Move cfg fs free s.job act job' effect) (hi : s.InPhase s.job.phase)
    (ht : s.job.total = s.job.decoded.length) :
    SpoolFile.InPhase { s.written job' act with job := job' } job'.phase := by
  cases h with
  | @createSpool v o hp =>
      rw [hp] at hi
      obtain ⟨hfile, hdec⟩ := hi
      generalize hsp : Spool.create cfg (if v then some free else none) s.job.up o = spool
      cases spool with
      | none =>
          show (s.written _ _).file = none
          simpa [SpoolFile.written, FanoutPhase.spool] using hfile
      | some sp =>
          obtain rfl := Spool.create_eq hsp
          have hlen : s.job.decoded.length = 0 := by rw [hdec]; rfl
          exact ⟨[], rfl, hdec.symm, rfl, hlen⟩
  | @produceFails spool hp =>
      rw [hp] at hi
      refine ⟨hi, ?_⟩
      intro hsome
      cases hsome
  | chunkStreamed hp _ _ =>
      rw [hp] at hi
      exact hi
  | @chunkSpooled c sp hp _ _ =>
      rw [hp] at hi
      refine ⟨s.job.decoded, ?_, hi⟩
      show (s.job.sent ++ [c]).flatten = s.job.sent.flatten ++ c
      simp
  | @writeOk sp c hp =>
      rw [hp] at hi
      obtain ⟨before, hdec, hholds⟩ := hi
      have htaken : ∀ t : SpoolFile, t.file = s.file → t.buffer = s.buffer ++ c →
          t.Holds s.job.decoded (some { sp with written := sp.written + c.length }) := by
        intro t hfile hbuffer
        rw [hdec]
        exact hholds.buffered hfile hbuffer
      exact htaken _ (by simp [SpoolFile.written, hp]) (by simp [SpoolFile.written, hp])
  | @writeFails sp c n hp hn =>
      rw [hp] at hi
      obtain ⟨before, hdec, hholds⟩ := hi
      have hlen : (c.take n).length = n := by rw [List.length_take]; omega
      have htaken : ∀ t : SpoolFile, t.file = s.file → t.buffer = s.buffer ++ c.take n →
          t.Holds (before ++ c.take n) (some { sp with written := sp.written + n }) := by
        intro t hfile hbuffer
        rw [← hlen]
        simpa [hlen] using hholds.buffered hfile hbuffer
      exact ⟨before ++ c.take n,
        htaken _ (by simp [SpoolFile.written, hp]) (by simp [SpoolFile.written, hp])⟩
  | @writeback sp n hsp hn =>
      generalize hph : s.job.phase = ph at hsp hi ⊢
      cases ph with
      | producing spool =>
          obtain rfl : spool = some sp := hsp
          exact hi.writeback hn _
      | writing sp' c =>
          obtain rfl : sp' = sp := Option.some.inj hsp
          obtain ⟨before, hdec, hholds⟩ := hi
          exact ⟨before, hdec, hholds.writeback hn _⟩
      | discarding sp' =>
          obtain rfl : sp' = sp := Option.some.inj hsp
          obtain ⟨taken, hholds⟩ := hi
          exact ⟨taken, hholds.writeback hn _⟩
      | produceEnded success spool =>
          obtain rfl : spool = some sp := hsp
          exact ⟨hi.1.writeback hn _, hi.2⟩
      | slotDropped success spool =>
          obtain rfl : spool = some sp := hsp
          exact ⟨hi.1.writeback hn _, hi.2⟩
      | finishing sp' =>
          obtain rfl : sp' = sp := Option.some.inj hsp
          exact ⟨hi.1.writeback hn _, hi.2⟩
      | _ => cases hsp
  | discard hp => exact rfl
  | @eof spool hp _ =>
      rw [hp] at hi
      refine ⟨hi, fun hend => ?_⟩
      show s.job.decoded.length = s.job.up.narSize
      rw [← ht]
      exact of_decide_eq_true hend
  | dropSlot hp =>
      rw [hp] at hi
      exact hi
  | producedBare hp | failedBare hp =>
      rw [hp] at hi
      have hnone : s.file = none := hi.1
      show (s.written _ _).file = none
      simpa [SpoolFile.written, hp] using hnone
  | failedSpooled hp =>
      show (s.written _ _).file = none
      simp [SpoolFile.written, SpoolFile.remove, hp]
  | producedSpooled hp =>
      rw [hp] at hi
      refine ⟨?_, hi.2 rfl, rfl⟩
      rw [show s.written _ .afterProduce = s by simp [SpoolFile.written, hp]]
      exact hi.1
  | @flushed sp hp hdisk =>
      rw [hp] at hi
      obtain ⟨⟨disk, hfile, hbytes, hlen, hwritten⟩, hsize, hprod⟩ := hi
      -- the file has as many bytes as the spool took, so the buffer is empty
      have hempty : s.buffer = [] := by
        have hsum : disk.length + s.buffer.length = s.job.decoded.length := by
          rw [← hbytes, List.length_append]
        apply List.eq_nil_of_length_eq_zero
        omega
      refine ⟨?_, hsize, hprod⟩
      show s.file = some s.job.decoded
      rw [hfile, ← hbytes, hempty, List.append_nil]
  | flushFailed hp | unspool hp => exact rfl
  | imported hp | importRefused hp => trivial
  | publish hp | evict hp | uncache hp | dropJob hp =>
      rw [hp] at hi
      exact hi

/-- An action of the task in the middle of the import is the import's return. -/
theorem Job.Move.importing {job job' : Job} {act : JobAct} {effect : Effect} {n : ℕ}
    (h : Job.Move cfg fs free job act job' effect) (hp : job.phase = .importing n) :
    (∃ res, act = .importEnds res) ∧ job'.phase.pastImport = true ∧
      job'.decoded = job.decoded ∧ job'.up = job.up ∧ job'.produced = job.produced := by
  cases h with
  | imported _ => exact ⟨⟨_, rfl⟩, rfl, rfl, rfl, rfl⟩
  | importRefused _ => exact ⟨⟨_, rfl⟩, rfl, rfl, rfl, rfl⟩
  | writeback hsp _ =>
      rw [hp] at hsp
      cases hsp
  | _ hph => simp [hp] at hph

theorem spool_of_pastImport {phase : FanoutPhase} (h : phase.pastImport = true) :
    phase.spool = none := by
  cases phase <;> first | rfl | cases h

/-- Past the import, the task only winds up. -/
theorem Job.Move.pastImport {job job' : Job} {act : JobAct} {effect : Effect}
    (h : Job.Move cfg fs free job act job' effect) (hp : job.phase.pastImport = true) :
    job'.phase.pastImport = true ∧ job'.decoded = job.decoded ∧ job'.up = job.up ∧
      job'.produced = job.produced := by
  cases h with
  | writeback hsp _ =>
      rw [spool_of_pastImport hp] at hsp
      cases hsp
  | unspool _ | publish _ | evict _ | uncache _ | dropJob _ => exact ⟨rfl, rfl, rfl, rfl⟩
  | _ hph => rw [hph] at hp; cases hp

/-- The task's own actions keep the invariant. -/
theorem SpoolFile.Inv.jobStep {up : UpstreamNarInfo} {act : JobAct} (hi : s.Inv up)
    (h : s.jobStep cfg fs free act = some s') (hact : ∀ res, act ≠ .importEnds res) :
    s'.Inv up := by
  obtain ⟨job', effect, hmove, rfl⟩ := SpoolFile.jobStep_cases h
  obtain ⟨hstage, himports⟩ := s.written_frame job' act
  refine ⟨hmove.keeps.2.trans hi.up_eq, hmove.total hi.total,
    s.inPhase_step hmove hi.phase hi.total, ?_⟩
  have hnot : ∀ n, s.job.phase ≠ .importing n := by
    intro n hp
    obtain ⟨⟨res, hres⟩, _⟩ := hmove.importing hp
    exact hact res hres
  have hst := hi.stage
  show SpoolFile.InStage _ (s.written job' act).stage
  rw [hstage]
  generalize s.stage = stage at hst
  cases stage with
  | idle => exact himports.trans hst
  | received =>
      obtain ⟨hpast, hgiven⟩ := hst
      obtain ⟨hpast', hdec, hup, hprod⟩ := hmove.pastImport hpast
      refine ⟨hpast', ?_⟩
      show (s.written job' act).imports = [] ∨ (s.written job' act).imports = [job'.decoded] ∧
        job'.decoded.length = job'.up.narSize ∧ job'.produced = true
      rw [himports, hdec, hup, hprod]
      exact hgiven
  | queued | connected | fetching | referenced | adding | answered res =>
      obtain ⟨⟨n, hp⟩, _⟩ := hst
      exact absurd hp (hnot n)

/-! ### The fetcher's actions -/

/-- The fetcher moves the import on and leaves the job and its file alone. -/
theorem SpoolFile.Inv.restage {up : UpstreamNarInfo} (hi : s.Inv up) {stage : ImportStage}
    (h : s.InStage stage) : SpoolFile.Inv up { s with stage := stage } := by
  refine ⟨hi.up_eq, hi.total, hi.phase, ?_⟩
  cases stage <;> exact h

/-- A call of `import_one` that succeeds or fails. -/
theorem SpoolFile.inStage_after {next : ImportStage} (hnext : s.InStage next)
    (hanswered : ∀ res, s.InStage (.answered res)) (label : String) (res : Except String Unit) :
    s.InStage (.after label next res) := by
  cases res with
  | ok u => exact hnext
  | error e => exact hanswered _

/-- While the task waits for the import, the file is whole. -/
theorem SpoolFile.Inv.importing {up : UpstreamNarInfo} (hi : s.Inv up) {n : ℕ}
    (hp : s.job.phase = .importing n) :
    s.file = some s.job.decoded ∧ s.job.decoded.length = up.narSize ∧ s.job.produced = true := by
  have hph := hi.phase
  rw [hp] at hph
  rw [← hi.up_eq]
  exact hph

/-- The spool is open, and `add_to_store_nar` starts on it. -/
theorem SpoolFile.Inv.openSpool {up : UpstreamNarInfo} (hi : s.Inv up) {contents : List UInt8}
    (hq : s.stage = .referenced) (hfile : s.file = some contents) :
    SpoolFile.Inv up { s with stage := .adding, imports := s.imports ++ [contents] } := by
  have hst := hi.stage
  rw [hq] at hst
  obtain ⟨⟨n, hp⟩, hnone⟩ := hst
  have hwhole := (hi.importing hp).1
  obtain rfl : contents = s.job.decoded := Option.some.inj (hfile.symm.trans hwhole)
  refine ⟨hi.up_eq, hi.total, hi.phase, ⟨n, hp⟩, ?_⟩
  show s.imports ++ [s.job.decoded] = [s.job.decoded]
  rw [hnone, List.nil_append]

/-- The import's return. -/
theorem SpoolFile.Inv.importReturns {up : UpstreamNarInfo} {res : Except String Unit}
    (hi : s.Inv up) (hq : s.stage = .answered res)
    (h : s.jobStep cfg fs free (.importEnds res) = some s') :
    SpoolFile.Inv up { s' with stage := .received } := by
  obtain ⟨job', effect, hmove, rfl⟩ := SpoolFile.jobStep_cases h
  have hst := hi.stage
  rw [hq] at hst
  obtain ⟨⟨n, hp⟩, hgiven⟩ := hst
  obtain ⟨_, hpast, hdec, hup, hprod⟩ := hmove.importing hp
  obtain ⟨hstage, himports⟩ := s.written_frame job' (.importEnds res)
  have hwhole := s.inPhase_step hmove hi.phase hi.total
  obtain ⟨_, hsize, hproduced⟩ := hi.importing hp
  refine ⟨hmove.keeps.2.trans hi.up_eq, hmove.total hi.total, hwhole, hpast, ?_⟩
  show (s.written job' _).imports = [] ∨ (s.written job' _).imports = [job'.decoded] ∧
    job'.decoded.length = job'.up.narSize ∧ job'.produced = true
  rw [himports, hdec, hup, hprod, hi.up_eq]
  rcases hgiven with hnone | hone
  · exact .inl hnone
  · exact .inr ⟨hone, hsize, hproduced⟩

/-- **One action keeps the invariant.** -/
theorem SpoolFile.Inv.step {up : UpstreamNarInfo} {a : SpoolAct} (hi : s.Inv up)
    (h : s.step cfg fs refs a = some s') : s'.Inv up := by
  have hst := hi.stage
  cases a with
  | job free act =>
      cases act with
      | importEnds res => cases h
      | _ => exact hi.jobStep h (by simp)
  | request alive =>
      simp only [SpoolFile.step] at h
      split at h
      · rename_i n hp hidle
        cases h
        rw [hidle] at hst
        apply hi.restage
        cases alive with
        | true => exact ⟨⟨n, hp⟩, hst⟩
        | false => exact ⟨⟨n, hp⟩, .inl hst⟩
      · cases h
  | connect res =>
      simp only [SpoolFile.step] at h
      split at h
      · rename_i hq
        cases h
        rw [hq] at hst
        have hnext : s.InStage .connected := hst
        exact hi.restage (s.inStage_after hnext (fun _ => ⟨hst.1, .inl hst.2⟩) _ res)
      · cases h
  | queryValidPaths res =>
      simp only [SpoolFile.step] at h
      split at h
      · rename_i hq
        rw [hq] at hst
        cases res with
        | ok valid =>
            cases h
            apply hi.restage
            split <;> exact hst
        | error e =>
            simp only at h
            split at h
            · cases h
            · cases h
              exact hi.restage ⟨hst.1, .inl hst.2⟩
      · cases h
  | fetchReferences res =>
      simp only [SpoolFile.step] at h
      split at h
      · rename_i hq
        cases h
        rw [hq] at hst
        have hnext : s.InStage .referenced := hst
        exact hi.restage (s.inStage_after hnext (fun _ => ⟨hst.1, .inl hst.2⟩) _ res)
      · cases h
  | openSpool res =>
      simp only [SpoolFile.step] at h
      split at h
      · rename_i contents hq hfile
        cases h
        exact hi.openSpool hq hfile
      · rename_i hq
        cases h
        rw [hq] at hst
        exact hi.restage ⟨hst.1, .inl hst.2⟩
      · cases h
  | added res =>
      simp only [SpoolFile.step] at h
      split at h
      · rename_i hq
        cases h
        rw [hq] at hst
        have hgiven (r : Except String Unit) : s.InStage (.answered r) := ⟨hst.1, .inr hst.2⟩
        exact hi.restage (s.inStage_after (hgiven _) hgiven _ res)
      · cases h
  | fetcherGone =>
      simp only [SpoolFile.step] at h
      split at h
      · rename_i hq
        cases h
        rw [hq] at hst
        exact hi.restage ⟨hst.1, .inl hst.2⟩
      · cases h
  | importReturns free =>
      simp only [SpoolFile.step] at h
      split at h
      · rename_i res hq
        obtain ⟨t, hjob, rfl⟩ := Option.map_eq_some_iff.mp h
        exact hi.importReturns hq hjob
      · cases h

/-- The daemon was given nothing, or the decoded NAR of a job that had ended well. -/
theorem SpoolFile.Inv.given {up : UpstreamNarInfo} (hi : s.Inv up) :
    s.imports = [] ∨ s.imports = [s.job.decoded] ∧ s.job.decoded.length = up.narSize ∧
      s.job.produced = true := by
  have hst := hi.stage
  generalize hstage : s.stage = stage at hst
  cases stage with
  | idle => exact .inl hst
  | queued | connected | fetching | referenced => exact .inl hst.2
  | adding =>
      obtain ⟨⟨n, hp⟩, hone⟩ := hst
      exact .inr ⟨hone, (hi.importing hp).2⟩
  | answered res =>
      obtain ⟨⟨n, hp⟩, hnone | hone⟩ := hst
      · exact .inl hnone
      · exact .inr ⟨hone, (hi.importing hp).2⟩
  | received =>
      rw [← hi.up_eq]
      exact hst.2

/-- Once `run_fanout` has returned there is no file. -/
theorem SpoolFile.Inv.gone {up : UpstreamNarInfo} (hi : s.Inv up)
    (hret : s.job.phase.hasReturned = true) : s.file = none := by
  have hph := hi.phase
  generalize s.job.phase = phase at hph hret
  cases phase with
  | returned state => exact hph
  | published => exact hph
  | evicted => exact hph
  | uncached => exact hph
  | ended => exact hph
  | _ => cases hret

/-! ### Every run -/

/-- **A spool file is imported at most once, whole, and never left behind.**  In every run of
a job, whatever the chunks and the answers, the daemon is given the file at most once; what it
is given is the decoded NAR of `NarSize` bytes; while it reads, the file is there with just
that; and once `run_fanout` has returned there is no file. -/
theorem spool_imported_once_whole {hash : String} {up : UpstreamNarInfo} {as : List SpoolAct}
    (h : Run (SpoolFile.step cfg fs refs) (SpoolFile.new hash up) as s) :
    s.imports.length ≤ 1 ∧
    (∀ nar ∈ s.imports, nar = s.job.decoded ∧ nar.length = up.narSize ∧
      s.job.produced = true) ∧
    (s.stage = .adding → s.file = some s.job.decoded) ∧
    (s.job.phase.hasReturned = true → s.file = none) := by
  have hI : s.Inv up := h.invariant (fun _ _ _ hI _ hstep => hI.step hstep) (.new hash up)
  refine ⟨?_, ?_, ?_, hI.gone⟩
  · rcases hI.given with hnone | ⟨hone, _⟩
    · simp [hnone]
    · simp [hone]
  · intro nar hnar
    rcases hI.given with hnone | ⟨hone, hsize, hprod⟩
    · simp [hnone] at hnar
    · obtain rfl : nar = s.job.decoded := by simpa [hone] using hnar
      exact ⟨rfl, hsize, hprod⟩
  · intro hadding
    have hst := hI.stage
    rw [hadding] at hst
    obtain ⟨⟨n, hp⟩, _⟩ := hst
    exact (hI.importing hp).1

/-- A NAR of three bytes whose spool is written back in two pieces, imported after the daemon
fetched its reference, and removed. -/
def spoolAndImport : List SpoolAct :=
  [SpoolAct.job 100 (.createSpool true true), .job 100 (.chunk [1, 2, 3]), .job 100 .writeOk,
    .job 100 (.writeback 2), .job 100 .eof, .job 100 .dropSlot, .job 100 .afterProduce,
    .job 100 (.writeback 1), .job 100 (.finish true), .request true, .connect (.ok ()),
    .queryValidPaths (.ok []), .fetchReferences (.ok ()), .openSpool (.ok ()), .added (.ok ()),
    .importReturns 100, .job 100 .unspool]

/-- The run ends with one import of the three bytes and no file. -/
theorem spool_imported_once_whole_small :
    ∃ s, Run (SpoolFile.step ⟨1, 10⟩ .exact ["b"]) (SpoolFile.new "a" ⟨"a", "n", 3, "xz"⟩)
        spoolAndImport s ∧ s.imports = [[1, 2, 3]] ∧ s.file = none ∧
      s.imports.length ≤ 1 ∧ ∀ nar ∈ s.imports, nar.length = 3 := by
  have hreplay : ∃ s, Run (SpoolFile.step ⟨1, 10⟩ .exact ["b"])
      (SpoolFile.new "a" ⟨"a", "n", 3, "xz"⟩) spoolAndImport s ∧
      (s.imports == [[1, 2, 3]] && s.job.phase.hasReturned) = true :=
    run_exists_of_check (by decide +kernel)
  obtain ⟨s, hrun, hs⟩ := hreplay
  rw [Bool.and_eq_true, beq_iff_eq] at hs
  obtain ⟨hone, hwhole, _, hgone⟩ := spool_imported_once_whole hrun
  exact ⟨s, hrun, hs.1, hgone hs.2, hone, fun nar hnar => (hwhole nar hnar).2.1⟩

end BadgeOS.Harmonia
