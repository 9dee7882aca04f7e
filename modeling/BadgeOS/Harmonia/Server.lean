import BadgeOS.Harmonia.Job
import BadgeOS.Lib.Table
import BadgeOS.Lib.Transition
import Mathlib

/-!
# The stream-through cache as one transition system

The server's state is the job registry, the job slots, the narinfo cache, the local store,
the spool's free space, and the tasks: creation tasks (`make_creation_fut`), fan-out tasks
(one per job), NAR requests in the miss loop of `nar::get`, and narinfo requests on the miss
path of `narinfo::get`.  A task is named by its position in its table.

An action is one stretch of one task between two points where another thread may run: a
lookup under the registry lock, a semaphore operation, a channel operation, the answer of
an awaited future.  `Server.step` is the whole system; every interleaving of every number of
tasks is a list of actions, and the answers of the upstreams, the daemon and the filesystem
are part of the actions.
-/

namespace BadgeOS.Harmonia

open Function Transition

/-! ### Client bodies -/

/-- Broadcast channel capacity, in chunks (`BROADCAST_CAP`). -/
def broadcastCap : ℕ := 64

/-- What `broadcast::Receiver::recv` gives a receiver whose next message is number `next`:
everything sent after its subscribe, in order, unless the channel has dropped it. -/
inductive Recv
  | value (c : Chunk)
  /-- The next message is gone; the oldest one kept is `oldest`. -/
  | lagged (oldest : ℕ)
  | closed
  | pending
  deriving DecidableEq, Repr

def recv (sent : List Chunk) (closed : Bool) (next : ℕ) : Recv :=
  if next + broadcastCap < sent.length then .lagged (sent.length - broadcastCap)
  else
    match sent[next]? with
    | some c => .value c
    | none => if closed then .closed else .pending

/-- How a body's stream ended: `None`, or an `Err` item. -/
inductive BodyEnd
  | clean
  | error (why : String)
  deriving DecidableEq, Repr

/-- A `BroadcastBody` and what its consumer got.  The consumer polls until the stream ends
or an item is an error. -/
structure BroadcastBody where
  /-- The receiver: number of its next message. -/
  next : ℕ
  received : ℕ
  /-- The `Ok` items so far. -/
  delivered : List Chunk
  ended : Option BodyEnd
  deriving DecidableEq, Repr

/-- `BroadcastBody::new` over a receiver subscribed after `sent`. -/
def BroadcastBody.new (sent : List Chunk) : BroadcastBody :=
  { next := sent.length, received := 0, delivered := [], ended := none }

/-- `poll_next`, or `none` when it is `Poll::Pending` or the body has ended. -/
def BroadcastBody.pollNext (job : Job) (closed : Bool) (b : BroadcastBody) :
    Option BroadcastBody :=
  match b.ended with
  | some _ => none
  | none =>
      if b.received ≥ job.up.narSize then some { b with ended := some .clean }
      else
        match recv job.sent closed b.next with
        | .value c =>
            some { b with next := b.next + 1, received := b.received + c.length,
                          delivered := b.delivered ++ [c] }
        | .lagged oldest => some { b with next := oldest, ended := some (.error "lagged") }
        | .closed =>
            let why := if job.done = .failed then "nar job failed" else "nar job ended early"
            some { b with ended := some (.error why) }
        | .pending => none

/-! ### Tasks -/

/-- A registry slot (`CreationState`): a creation in flight, or a `Weak<Job>`. -/
inductive CreationState
  | inProgress (creation : ℕ)
  | live (job : ℕ)
  deriving DecidableEq, Repr

/-- Where a creation task stands; its result is a job, or `none` for an error. -/
inductive CreationPhase
  /-- In `get_or_fetch_upstream`, before the cache lookup. -/
  | resolving
  /-- The cache missed; the upstreams are asked. -/
  | fetching
  /-- Waiting for a job slot. -/
  | waiting (up : UpstreamNarInfo)
  /-- The permit is taken, the job not made yet. -/
  | slotWon (up : UpstreamNarInfo)
  /-- `Job::spawn` returned; the finalizer is next. -/
  | finalizing (result : Option ℕ)
  | ended (result : Option ℕ)
  deriving DecidableEq, Repr

/-- A creation task of `make_creation_fut`. -/
structure Creation where
  hash : String
  phase : CreationPhase
  deriving DecidableEq, Repr

/-- A path in the local store, as far as a request looks at it. -/
structure ValidPathInfo where
  narHash : String
  deriving DecidableEq, Repr

/-- Where a NAR request stands.  `round` counts the rounds of the miss loop before this one;
a parked request's job is `none` when its creation failed. -/
inductive RequestPhase
  /-- About to call `attach`. -/
  | looping (round : ℕ)
  /-- Awaiting a shared creation. -/
  | awaiting (round creation : ℕ)
  /-- Let in, holding the `Arc<Job>`, not subscribed yet. -/
  | subscribing (job : ℕ)
  /-- Answered 200 with the live body. -/
  | live (job : ℕ) (body : BroadcastBody)
  /-- Waiting for the job's terminal state. -/
  | parked (round : ℕ) (job : Option ℕ)
  /-- The wait is over, with the state seen (`none`: it expired). -/
  | querying (round : ℕ) (state : Option JobState)
  /-- Answered 200 from the store. -/
  | served (info : ValidPathInfo)
  /-- Answered 404. -/
  | notFound
  /-- Answered with an error of the store lookup. -/
  | errored
  /-- The request future was dropped. -/
  | dropped
  deriving DecidableEq, Repr

/-- A request for `nar/<hash>-<narhash>.nar` that reached the miss loop. -/
structure Request where
  hash : String
  narhash : String
  phase : RequestPhase
  deriving DecidableEq, Repr

inductive NarinfoPhase
  | lookup
  | fetching
  | answered (up : UpstreamNarInfo)
  | notFound
  deriving DecidableEq, Repr

/-- A request for `<hash>.narinfo` that missed the store. -/
structure NarinfoRequest where
  hash : String
  phase : NarinfoPhase
  deriving DecidableEq, Repr

/-! ### The server -/

structure Server where
  /-- `JobRegistry::jobs`. -/
  registry : String → Option CreationState
  /-- `available_permits` of `JobRegistry::slots`. -/
  permits : ℕ
  cache : String → Option UpstreamNarInfo
  store : String → Option ValidPathInfo
  /-- Free bytes of the spool's filesystem. -/
  free : ℕ
  creations : List Creation
  jobs : List Job
  requests : List Request
  narinfos : List NarinfoRequest

/-- `JobRegistry::new`: at least one slot. -/
def Config.maxJobs (cfg : Config) : ℕ := max cfg.missMaxJobs 1

/-- The server at its start, over a store and a spool filesystem. -/
def Server.init (cfg : Config) (store : String → Option ValidPathInfo) (free : ℕ) : Server :=
  { registry := fun _ => none, permits := cfg.maxJobs, cache := fun _ => none, store, free,
    creations := [], jobs := [], requests := [], narinfos := [] }

/-- The result of a creation task, once its shared future resolved. -/
def Creation.result (c : Creation) : Option (Option ℕ) :=
  match c.phase with
  | .ended result => some result
  | _ => none

/-- Whether a request holds an `Arc` of job `j`, itself or through a resolved creation. -/
def Server.requestHolds (s : Server) (j : ℕ) (r : Request) : Bool :=
  match r.phase with
  | .subscribing i => i == j
  | .awaiting _ c => (s.creations[c]?.bind Creation.result) == some (some j)
  | _ => false

/-- Whether a `Weak` of job `j` can be upgraded: its fan-out task, the creation task about to
install it, or a request still holds it. -/
def Server.alive (s : Server) (j : ℕ) : Bool :=
  s.jobs[j]?.any (fun job => job.phase != .ended)
    || s.creations.any (fun c => c.phase == .finalizing (some j))
    || s.requests.any (s.requestHolds j)

/-- What `attach` decides under the registry lock. -/
inductive Plan
  | live (job : ℕ)
  | parked (job : ℕ)
  | await (creation : ℕ)
  | create
  deriving DecidableEq, Repr

def Server.plan (s : Server) (hash : String) : Plan :=
  match s.registry hash with
  | some (.live j) =>
      if s.alive j then
        if s.jobs[j]?.any Job.streaming then .live j else .parked j
      -- a dead `Weak`: as if there were no job
      else .create
  | some (.inProgress c) => .await c
  | none => .create

/-- `JobRegistry::remove`: only a `Live` slot goes. -/
def registryRemove (registry : String → Option CreationState) (hash : String) :
    String → Option CreationState :=
  match registry hash with
  | some (.live _) => update registry hash none
  | _ => registry

/-- The finalizer of `make_creation_fut`: only a slot in progress is touched. -/
def registryFinalize (registry : String → Option CreationState) (hash : String)
    (result : Option ℕ) : String → Option CreationState :=
  match registry hash with
  | some (.inProgress _) => update registry hash (result.map .live)
  | _ => registry

inductive Action
  /-- A request for `nar/<hash>-<narhash>.nar` finds no such path in the store. -/
  | arrive (hash narhash : String)
  | attach (r : ℕ)
  /-- The awaited creation resolved. -/
  | awaited (r : ℕ)
  | subscribe (r : ℕ)
  /-- A parked request sees a terminal state. -/
  | wake (r : ℕ)
  /-- ... or waited `miss_slot_wait_secs`. -/
  | waitExpired (r : ℕ)
  | query (r : ℕ) (lookupOk : Bool)
  | poll (r : ℕ)
  | dropRequest (r : ℕ)
  | narinfoArrive (hash : String)
  | narinfoLookup (n : ℕ)
  /-- `first_narinfo` and the parser answered. -/
  | narinfoAnswered (n : ℕ) (up : Option UpstreamNarInfo)
  | cacheGet (c : ℕ)
  | fetched (c : ℕ) (up : Option UpstreamNarInfo)
  | acquire (c : ℕ)
  | slotTimeout (c : ℕ)
  | spawn (c : ℕ)
  | finalize (c : ℕ)
  | job (j : ℕ) (act : JobAct)
  /-- An eviction or expiry of the narinfo cache. -/
  | cacheDrop (hash : String)
  /-- Another change of the local store. -/
  | storeSet (hash : String) (info : Option ValidPathInfo)

/-! ### The steps -/

def Server.setRequest (s : Server) (r : ℕ) (req : Request) (phase : RequestPhase) : Server :=
  { s with requests := s.requests.set r { req with phase } }

def Server.setCreation (s : Server) (c : ℕ) (cr : Creation) (phase : CreationPhase) : Server :=
  { s with creations := s.creations.set c { cr with phase } }

def Server.setNarinfo (s : Server) (n : ℕ) (nr : NarinfoRequest) (phase : NarinfoPhase) :
    Server :=
  { s with narinfos := s.narinfos.set n { nr with phase } }

/-- One round of the miss loop in `nar::get`, up to where it waits. -/
def Server.attach (s : Server) (r : ℕ) (req : Request) (round : ℕ) : Server :=
  match s.plan req.hash with
  | .live j => s.setRequest r req (.subscribing j)
  | .parked j => s.setRequest r req (.parked round (some j))
  | .await c => s.setRequest r req (.awaiting round c)
  | .create =>
      let c := s.creations.length
      { s with
        registry := update s.registry req.hash (some (.inProgress c))
        creations := s.creations ++ [{ hash := req.hash, phase := .resolving }]
        requests := s.requests.set r { req with phase := .awaiting round c } }

/-- `subscribe_after_await`, or the miss a failed creation becomes. -/
def Server.afterAwait (s : Server) (round : ℕ) : Option ℕ → RequestPhase
  | some j => if s.jobs[j]?.any Job.streaming then .subscribing j else .parked round (some j)
  | none => .parked round none

/-- The end of a round: serve from the store, give up, or go round again (three rounds). -/
def afterQuery (round : ℕ) (state : Option JobState) : Option ValidPathInfo → RequestPhase
  | some info => .served info
  | none => if state = some .ok ∧ round + 1 < 3 then .looping (round + 1) else .notFound

def Server.stepRequest (s : Server) (r : ℕ) (req : Request) : Action → Option Server
  | .attach _ =>
      match req.phase with
      | .looping round => some (s.attach r req round)
      | _ => none
  | .awaited _ =>
      match req.phase with
      | .awaiting round c =>
          (s.creations[c]?.bind Creation.result).map fun result =>
            s.setRequest r req (s.afterAwait round result)
      | _ => none
  | .subscribe _ =>
      match req.phase with
      | .subscribing j =>
          s.jobs[j]?.map fun job => s.setRequest r req (.live j (.new job.sent))
      | _ => none
  | .wake _ =>
      match req.phase with
      | .parked round (some j) =>
          s.jobs[j]?.bind fun job =>
            if job.done = .running then none
            else some (s.setRequest r req (.querying round (some job.done)))
      | .parked round none => some (s.setRequest r req (.querying round (some .failed)))
      | _ => none
  | .waitExpired _ =>
      match req.phase with
      | .parked round (some j) =>
          s.jobs[j]?.bind fun job =>
            if job.done = .running then some (s.setRequest r req (.querying round none))
            else none
      | _ => none
  | .query _ lookupOk =>
      match req.phase with
      | .querying round state =>
          some (s.setRequest r req
            (if lookupOk then afterQuery round state (s.store req.hash) else .errored))
      | _ => none
  | .poll _ =>
      match req.phase with
      | .live j body =>
          s.jobs[j]?.bind fun job =>
            (body.pollNext job (!s.alive j)).map fun body => s.setRequest r req (.live j body)
      | _ => none
  | .dropRequest _ => some (s.setRequest r req .dropped)
  | _ => none

def Server.stepNarinfo (s : Server) (n : ℕ) (nr : NarinfoRequest) : Action → Option Server
  | .narinfoLookup _ =>
      match nr.phase with
      | .lookup =>
          some (s.setNarinfo n nr
            (match s.cache nr.hash with
            | some up => .answered up
            | none => .fetching))
      | _ => none
  | .narinfoAnswered _ up =>
      match nr.phase, up with
      | .fetching, some up =>
          -- the entry goes under the hash that was asked for
          some { s.setNarinfo n nr (.answered up) with
                  cache := update s.cache nr.hash (some up) }
      | .fetching, none => some (s.setNarinfo n nr .notFound)
      | _, _ => none
  | _ => none

def Server.stepCreation (s : Server) (c : ℕ) (cr : Creation) : Action → Option Server
  | .cacheGet _ =>
      match cr.phase with
      | .resolving =>
          some (s.setCreation c cr
            (match s.cache cr.hash with
            | some up => .waiting up
            | none => .fetching))
      | _ => none
  | .fetched _ up =>
      match cr.phase, up with
      | .fetching, some up =>
          -- the entry goes under the hash the narinfo names
          some { s.setCreation c cr (.waiting up) with
                  cache := update s.cache up.storePathHash (some up) }
      | .fetching, none => some (s.setCreation c cr (.finalizing none))
      | _, _ => none
  | .acquire _ =>
      match cr.phase with
      | .waiting up =>
          if 0 < s.permits then
            some { s.setCreation c cr (.slotWon up) with permits := s.permits - 1 }
          else none
      | _ => none
  | .slotTimeout _ =>
      match cr.phase with
      | .waiting _ => some (s.setCreation c cr (.finalizing none))
      | _ => none
  | .spawn _ =>
      match cr.phase with
      | .slotWon up =>
          some { s.setCreation c cr (.finalizing (some s.jobs.length)) with
                  jobs := s.jobs ++ [Job.new cr.hash up] }
      | _ => none
  | .finalize _ =>
      match cr.phase with
      | .finalizing result =>
          some { s.setCreation c cr (.ended result) with
                  registry := registryFinalize s.registry cr.hash result }
      | _ => none
  | _ => none

/-- What an effect of a fan-out task of `job` does to the rest of the server. -/
def Server.apply (s : Server) (job : Job) : Effect → Option Server
  | .none => some s
  | .release => some { s with permits := s.permits + 1 }
  | .alloc n => if n ≤ s.free then some { s with free := s.free - n } else none
  | .dealloc n => some { s with free := s.free + n }
  | .imported =>
      some { s with
        store := update s.store job.up.storePathHash (some ⟨job.up.narHashBare⟩) }
  | .evict => some { s with registry := registryRemove s.registry job.hash }
  | .uncache => some { s with cache := update s.cache job.hash none }

/-- The whole system, one action at a time. -/
def Server.step (cfg : Config) (fs : SpoolFs) (s : Server) : Action → Option Server
  | .arrive hash narhash =>
      match s.store hash with
      | none => some { s with requests := s.requests ++ [⟨hash, narhash, .looping 0⟩] }
      | some _ => none
  | .attach r => s.requests[r]?.bind fun req => s.stepRequest r req (.attach r)
  | .awaited r => s.requests[r]?.bind fun req => s.stepRequest r req (.awaited r)
  | .subscribe r => s.requests[r]?.bind fun req => s.stepRequest r req (.subscribe r)
  | .wake r => s.requests[r]?.bind fun req => s.stepRequest r req (.wake r)
  | .waitExpired r => s.requests[r]?.bind fun req => s.stepRequest r req (.waitExpired r)
  | .query r ok => s.requests[r]?.bind fun req => s.stepRequest r req (.query r ok)
  | .poll r => s.requests[r]?.bind fun req => s.stepRequest r req (.poll r)
  | .dropRequest r => s.requests[r]?.bind fun req => s.stepRequest r req (.dropRequest r)
  | .narinfoArrive hash =>
      match s.store hash with
      | none => some { s with narinfos := s.narinfos ++ [⟨hash, .lookup⟩] }
      | some _ => none
  | .narinfoLookup n => s.narinfos[n]?.bind fun nr => s.stepNarinfo n nr (.narinfoLookup n)
  | .narinfoAnswered n up =>
      s.narinfos[n]?.bind fun nr => s.stepNarinfo n nr (.narinfoAnswered n up)
  | .cacheGet c => s.creations[c]?.bind fun cr => s.stepCreation c cr (.cacheGet c)
  | .fetched c up => s.creations[c]?.bind fun cr => s.stepCreation c cr (.fetched c up)
  | .acquire c => s.creations[c]?.bind fun cr => s.stepCreation c cr (.acquire c)
  | .slotTimeout c => s.creations[c]?.bind fun cr => s.stepCreation c cr (.slotTimeout c)
  | .spawn c => s.creations[c]?.bind fun cr => s.stepCreation c cr (.spawn c)
  | .finalize c => s.creations[c]?.bind fun cr => s.stepCreation c cr (.finalize c)
  | .job j act =>
      s.jobs[j]?.bind fun job =>
        (job.step cfg fs s.free act).bind fun (job', effect) =>
          { s with jobs := s.jobs.set j job' }.apply job effect
  | .cacheDrop hash => some { s with cache := update s.cache hash none }
  | .storeSet hash info => some { s with store := update s.store hash info }

end BadgeOS.Harmonia
