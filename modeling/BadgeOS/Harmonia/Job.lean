import Mathlib

/-!
# A streaming NAR job and its fan-out task

`Job::spawn` makes a job and hands it to a task that runs `fanout`: it spools and broadcasts
the decoded NAR (`produce`), gives its slot back, imports the spool, publishes the job's
terminal state, and then frees the registry slot, the narinfo-cache entry and the job itself.
Everything between two awaits is one action here; what the job does to the rest of the
server is the action's `Effect`.

What the upstream, the decoder, the filesystem and the daemon answer is part of the action,
so an interleaving fixes it and a theorem about every interleaving covers every answer.
-/

namespace BadgeOS.Harmonia

/-- A decoded piece of a NAR, as one `read_buf` returned it. -/
abbrev Chunk := List UInt8

/-- What parked waiters see of a job (`JobState`). -/
inductive JobState
  | running
  | ok
  | failed
  deriving DecidableEq, Repr

/-- The fields of `UpstreamNarInfo` the handlers and the jobs use. -/
structure UpstreamNarInfo where
  /-- Hash part of the narinfo's `StorePath`. -/
  storePathHash : String
  /-- `NarHash`, bare base32. -/
  narHashBare : String
  /-- `NarSize`. -/
  narSize : ℕ
  /-- `Compression` of the upstream's NAR. -/
  upstreamCompression : String
  deriving DecidableEq, Repr

/-- A decoder exists for the upstream's compression; `produce` fails on any other. -/
def UpstreamNarInfo.decodable (up : UpstreamNarInfo) : Bool :=
  up.upstreamCompression ∈ ["none", "xz", "zstd", "bzip2"]

/-- The miss settings of the server's `Config` that bound its jobs. -/
structure Config where
  missMaxJobs : ℕ
  missMinFreeBytes : ℕ

/-- The spool's filesystem: the space a file of a given length takes. -/
structure SpoolFs where
  occupied : ℕ → ℕ
  occupied_zero : occupied 0 = 0
  occupied_mono : Monotone occupied

/-- A filesystem with files of exact length. -/
def SpoolFs.exact : SpoolFs := ⟨id, rfl, monotone_id⟩

/-- `u64::saturating_add`. -/
def saturatingAdd (a b : ℕ) : ℕ := min (a + b) (2 ^ 64 - 1)

/-- An open spool: the bytes `Spool::write` took, and those of them that the buffered file
has handed to the filesystem. -/
structure Spool where
  written : ℕ
  disk : ℕ
  deriving DecidableEq, Repr

/-- `Spool::create`: an empty spool file, or `none` when `statvfs` fails, when it reports too
little free space for the whole NAR beside the floor, or when the file can't be made. -/
def Spool.create (cfg : Config) (statvfs : Option ℕ) (up : UpstreamNarInfo) (opened : Bool) :
    Option Spool :=
  match statvfs with
  | none => none
  | some free =>
      if free < saturatingAdd cfg.missMinFreeBytes up.narSize then none
      else if opened then some ⟨0, 0⟩ else none

/-- `classify_import`: imported, served but not cached, or a real failure. -/
def classifyImport : Except String Unit → Except String Bool
  | .ok () => .ok true
  | .error e => if "is not valid".toList <:+: e.toList then .ok false else .error e

/-- The state `fanout` publishes for a result of `run_fanout`. -/
def publishedState : Except String Bool → JobState
  | .ok _ => .ok
  | .error _ => .failed

/-- Where the fan-out task stands.  A spool that is closed is the length of its file. -/
inductive FanoutPhase
  /-- Spawned, not yet polled. -/
  | spawned
  /-- In `produce`, between two chunks. -/
  | producing (spool : Option Spool)
  /-- The chunk is broadcast, its write to the spool is not done. -/
  | writing (spool : Spool) (chunk : Chunk)
  /-- A write failed: the spool is being removed, the NAR goes on without it. -/
  | discarding (spool : Spool)
  /-- `produce` returned; the slot is still held. -/
  | produceEnded (success : Bool) (spool : Option Spool)
  /-- After `drop(slot)`. -/
  | slotDropped (success : Bool) (spool : Option Spool)
  /-- In `Spool::finish`. -/
  | finishing (spool : Spool)
  /-- In `import`. -/
  | importing (length : ℕ)
  /-- The import returned, the spool file is being removed. -/
  | unspooling (length : ℕ) (state : JobState)
  /-- `run_fanout` returned. -/
  | returned (state : JobState)
  /-- After `done_tx.send`. -/
  | published
  /-- After `registry.remove`. -/
  | evicted
  /-- After `registry.cache.remove`. -/
  | uncached
  /-- The senders and the task's `Arc<Job>` are dropped. -/
  | ended
  deriving DecidableEq, Repr

/-- The open spool of a phase. -/
def FanoutPhase.spool : FanoutPhase → Option Spool
  | .producing spool | .produceEnded _ spool | .slotDropped _ spool => spool
  | .writing spool _ | .discarding spool | .finishing spool => some spool
  | _ => none

/-- The phase with its open spool replaced. -/
def FanoutPhase.withSpool (phase : FanoutPhase) (spool : Spool) : FanoutPhase :=
  match phase with
  | .producing _ => .producing (some spool)
  | .writing _ c => .writing spool c
  | .discarding _ => .discarding spool
  | .produceEnded success _ => .produceEnded success (some spool)
  | .slotDropped success _ => .slotDropped success (some spool)
  | .finishing _ => .finishing spool
  | phase => phase

/-- A job and its fan-out task. -/
structure Job where
  /-- The registry key. -/
  hash : String
  up : UpstreamNarInfo
  /-- Every chunk broadcast so far, oldest first. -/
  sent : List Chunk
  /-- `produce`'s running total of decoded bytes. -/
  total : ℕ
  /-- Set once the last chunk is broadcast. -/
  produced : Bool
  done : JobState
  phase : FanoutPhase
  deriving DecidableEq, Repr

/-- `Job::streaming`: still sending chunks, so a new client is let in. -/
def Job.streaming (job : Job) : Bool := job.done == .running && !job.produced

/-- The job `Job::spawn` makes. -/
def Job.new (hash : String) (up : UpstreamNarInfo) : Job :=
  { hash, up, sent := [], total := 0, produced := false, done := .running, phase := .spawned }

/-- The decoded NAR as far as it got. -/
def Job.decoded (job : Job) : List UInt8 := job.sent.flatten

/-- What an action of the fan-out task does to the rest of the server. -/
inductive Effect
  | none
  /-- The job's slot permit is dropped. -/
  | release
  /-- The spool's filesystem loses free space. -/
  | alloc (bytes : ℕ)
  /-- ... or gains it. -/
  | dealloc (bytes : ℕ)
  /-- The daemon made the job's path valid. -/
  | imported
  /-- `registry.remove`. -/
  | evict
  /-- `registry.cache.remove`. -/
  | uncache
  deriving DecidableEq, Repr

/-- The space an effect takes from the spool's filesystem. -/
def Effect.allocated : Effect → ℕ
  | .alloc bytes => bytes
  | _ => 0

/-- ... and the space it gives back. -/
def Effect.freed : Effect → ℕ
  | .dealloc bytes => bytes
  | _ => 0

/-- The actions of a fan-out task, with the answers it got. -/
inductive JobAct
  | createSpool (statvfsOk opened : Bool)
  /-- The GET, the choice of a decoder or a read failed. -/
  | produceFails
  | chunk (c : Chunk)
  | writeOk
  /-- The filesystem took `bytes` more of what was written. -/
  | writeback (bytes : ℕ)
  /-- The write failed after `bytes` of the chunk. -/
  | writeFails (bytes : ℕ)
  | discard
  /-- The decoder reported the end of the NAR. -/
  | eof
  | dropSlot
  | afterProduce
  | finish (flushed : Bool)
  | importEnds (res : Except String Unit)
  | unspool
  | publish
  | evict
  | uncache
  | dropJob

/-- One action of the fan-out task of `job`, with `free` bytes free for the spool. -/
def Job.step (cfg : Config) (fs : SpoolFs) (free : ℕ) (job : Job) :
    JobAct → Option (Job × Effect)
  | .createSpool statvfsOk opened =>
      match job.phase with
      | .spawned =>
          let spool := Spool.create cfg (if statvfsOk then some free else none) job.up opened
          some ({ job with phase := .producing spool }, .none)
      | _ => none
  | .produceFails =>
      match job.phase with
      | .producing spool => some ({ job with phase := .produceEnded false spool }, .none)
      | _ => none
  | .chunk c =>
      match job.phase with
      | .producing spool =>
          if c ≠ [] ∧ job.up.decodable then
            let phase := match spool with
              | none => .producing none
              | some sp => .writing sp c
            some ({ job with sent := job.sent ++ [c], total := job.total + c.length, phase }, .none)
          else none
      | _ => none
  | .writeOk =>
      match job.phase with
      | .writing sp c =>
          let sp' := { sp with written := sp.written + c.length }
          some ({ job with phase := .producing (some sp') }, .none)
      | _ => none
  | .writeback bytes =>
      match job.phase.spool with
      | some sp =>
          if sp.disk + bytes ≤ sp.written then
            some ({ job with phase := job.phase.withSpool { sp with disk := sp.disk + bytes } },
              .alloc (fs.occupied (sp.disk + bytes) - fs.occupied sp.disk))
          else none
      | none => none
  | .writeFails bytes =>
      match job.phase with
      | .writing sp c =>
          if bytes ≤ c.length then
            let sp' := { sp with written := sp.written + bytes }
            some ({ job with phase := .discarding sp' }, .none)
          else none
      | _ => none
  | .discard =>
      match job.phase with
      | .discarding sp =>
          some ({ job with phase := .producing none }, .dealloc (fs.occupied sp.disk))
      | _ => none
  | .eof =>
      match job.phase with
      | .producing spool =>
          if job.up.decodable then
            some ({ job with phase := .produceEnded (job.total == job.up.narSize) spool }, .none)
          else none
      | _ => none
  | .dropSlot =>
      match job.phase with
      | .produceEnded success spool =>
          some ({ job with phase := .slotDropped success spool }, .release)
      | _ => none
  | .afterProduce =>
      match job.phase with
      | .slotDropped false none => some ({ job with phase := .returned .failed }, .none)
      | .slotDropped false (some sp) =>
          some ({ job with phase := .returned .failed }, .dealloc (fs.occupied sp.disk))
      -- no spool: served but not cached
      | .slotDropped true none =>
          some ({ job with produced := true, phase := .returned .ok }, .none)
      | .slotDropped true (some sp) =>
          some ({ job with produced := true, phase := .finishing sp }, .none)
      | _ => none
  | .finish flushed =>
      match job.phase with
      | .finishing sp =>
          if flushed then
            -- the flush returns once the whole buffer is written
            if sp.disk = sp.written then some ({ job with phase := .importing sp.disk }, .none)
            else none
          else some ({ job with phase := .returned .ok }, .dealloc (fs.occupied sp.disk))
      | _ => none
  | .importEnds res =>
      match job.phase with
      | .importing n =>
          some ({ job with phase := .unspooling n (publishedState (classifyImport res)) },
            match res with
            | .ok () => .imported
            | .error _ => .none)
      | _ => none
  | .unspool =>
      match job.phase with
      | .unspooling n state =>
          some ({ job with phase := .returned state }, .dealloc (fs.occupied n))
      | _ => none
  | .publish =>
      match job.phase with
      | .returned state => some ({ job with done := state, phase := .published }, .none)
      | _ => none
  | .evict =>
      match job.phase with
      | .published => some ({ job with phase := .evicted }, .evict)
      | _ => none
  | .uncache =>
      match job.phase with
      | .evicted => some ({ job with phase := .uncached }, .uncache)
      | _ => none
  | .dropJob =>
      match job.phase with
      | .uncached => some ({ job with phase := .ended }, .none)
      | _ => none

end BadgeOS.Harmonia
