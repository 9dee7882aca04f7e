import BadgeOS.CodaCube.Pictures
import BadgeOS.Lib.Lending
import BadgeOS.Lib.Transition
import Mathlib

/-!
# The pictures on their way to the screen

The pages and the frame loop of `coda-cube.c`, as far as they get pictures from the decoder and give
them back: `main`, the worker of `--pipeline`, and the compositor with the decoder's own frame
buffers (`--zero-copy`).  A thread that is at an ioctl is inside it until the decoder answers.

* `DecodeAus`, `Main`, `Worker`, `State` — how far each thread is, and what they share;
* `relPush`, `zcReleased`, `zcGet`, `workerSubmit` — the release queue and the buffers;
* `Act`, `step` — the answers of the decoder and of everything else that may fail, the compositor's
  releases and the stop, in any order.
-/

namespace BadgeOS.CodaCube.Playback

open Lending
open Pictures (Smooth)

/-- `MAX_HELD` -/
def maxHeld : ℕ := 32

/-- A picture that GET_FRAME has returned. -/
structure Picture where
  serial : ℕ
  /-- Its frame buffer, `u64PhyAddr[0]`. -/
  buffer : ℕ
  deriving DecidableEq, Repr

structure Config where
  pipeline : Bool
  /-- Otherwise a picture is converted, or copied to a dumb buffer. -/
  zeroCopy : Bool
  smooth : Smooth
  /-- `K` -/
  pages : ℕ

/-- `nau` of `gen_frame` -/
def Config.nau (c : Config) : ℕ := c.smooth.value + 1

theorem length_genFrame {c : Config} (o : Pictures.Options) (n : ℕ) (r : References.Refs)
    (h : o.smooth = c.smooth) : (Pictures.genFrame o n r).length = c.nau := by
  rw [Config.nau, ← h, Pictures.genFrame]
  cases hsmooth : o.smooth <;> rfl

/-! ### The decoder -/

/-- What an ioctl returns. -/
inductive Answer
  | done
  | failed
  /-- GET_FRAME, with a picture in this frame buffer. -/
  | picture (buffer : ℕ)
  deriving DecidableEq, Repr

/-- The decoder does not decode into a frame buffer that was not given back. -/
def newPicture (vdec : Book Picture) (buffer : ℕ) : Option Picture :=
  if ∀ fi ∈ vdec.lent, fi ∉ vdec.returned → fi.buffer ≠ buffer then
    some ⟨vdec.lent.length, buffer⟩
  else none

/-- The ioctls of `decode_aus`, for access unit `a`. -/
inductive DecodeAus
  | send (a : ℕ)
  /-- GET_FRAME, without waiting and then for 200 ms. -/
  | get (a : ℕ)
  | getLate (a : ℕ)
  /-- GET_FRAME into `nx`. -/
  | drain (a : ℕ) (fi : Picture)
  /-- RELEASE_FRAME of `fi`, with a newer picture behind it. -/
  | stale (a : ℕ) (fi nx : Picture)
  /-- RELEASE_FRAME of `fi`, with another access unit to come. -/
  | release (a : ℕ) (fi : Picture)
  deriving DecidableEq, Repr

/-- `decode_aus` goes on, or returns `ok` and `fi`. -/
inductive Progress
  | goes (d : DecodeAus)
  | ends (r : Option Picture)
  deriving DecidableEq, Repr

/-- `decode_aus` -/
def DecodeAus.step (nau : ℕ) (vdec : Book Picture) :
    DecodeAus → Answer → Option (Progress × Book Picture)
  | .send a, .done => some (.goes (.get a), vdec)
  | .send _, .failed => some (.ends none, vdec)
  | .send _, .picture _ => none
  | .get a, .picture buffer =>
      (newPicture vdec buffer).map fun fi => (.goes (.drain a fi), vdec.lend fi)
  | .get a, _ => some (.goes (.getLate a), vdec)
  | .getLate a, .picture buffer =>
      (newPicture vdec buffer).map fun fi => (.goes (.drain a fi), vdec.lend fi)
  | .getLate _, _ => some (.ends none, vdec)
  | .drain a fi, .picture buffer =>
      (newPicture vdec buffer).map fun nx => (.goes (.stale a fi nx), vdec.lend nx)
  | .drain a fi, _ =>
      some (if a + 1 < nau then .goes (.release a fi) else .ends (some fi), vdec)
  | .stale a fi nx, _ => some (.goes (.drain a nx), vdec.giveBack fi)
  | .release a fi, _ => some (.goes (.send (a + 1)), vdec.giveBack fi)

/-! ### The threads -/

/-- `worker_main` -/
inductive Worker
  /-- There is none yet, or without `--pipeline`. -/
  | off
  /-- Not `busy`. -/
  | idle
  /-- RELEASE_FRAME of the first of `rel`. -/
  | releasing (fi : Picture) (rest : List Picture)
  | decode (d : DecodeAus)
  | joined
  deriving DecidableEq, Repr

/-- What is left of `rel`, then the decode. -/
def Worker.run : List Picture → Worker
  | [] => .decode (.send 0)
  | fi :: rest => .releasing fi rest

/-- `main`, from the pages on. -/
inductive Main
  /-- The loop of the pages, at page `k`. -/
  | page (k : ℕ)
  | pageSend (k : ℕ)
  | pageGet (k : ℕ)
  | pageRelease (k : ℕ) (fi : Picture)
  | pageDrain (k : ℕ)
  /-- `while (!g_stop)` -/
  | top
  /-- `rel_flush` before a decode, at its first. -/
  | flush (fi : Picture) (rest : List Picture)
  | decode (d : DecodeAus)
  /-- `worker_wait` -/
  | wait
  /-- `ok` and `fi` are there. -/
  | taken (r : Option Picture)
  /-- Reading `fi`, to convert or to copy it. -/
  | copy (fi : Picture)
  /-- RELEASE_FRAME behind the copy. -/
  | giveBack (fi : Picture)
  /-- RELEASE_FRAME before a `break`. -/
  | drop (fi : Picture)
  /-- Before `worker_submit`, with `ok`, `fi` and `zc`. -/
  | submit (r : Option Picture) (zc : Option ℕ)
  /-- `dmabuf_presenter_wait_frame`, and then the present of `zc`. -/
  | pace (zc : ℕ) (fi : Picture)
  /-- `dmabuf_presenter_dispatch` -/
  | pump
  | bottom
  /-- `worker_wait` behind the loop. -/
  | close
  /-- RELEASE_FRAME of the worker's `fi`. -/
  | closing (fi : Picture)
  /-- The last `rel_flush`, at its first. -/
  | last (fi : Picture) (rest : List Picture)
  | ended
  deriving DecidableEq, Repr

/-- What is left of the queue, then the decode. -/
def Main.flushed : List Picture → Main
  | [] => .decode (.send 0)
  | fi :: rest => .flush fi rest

/-- What is left of the last `rel_flush`. -/
def Main.lastFlush : List Picture → Main
  | [] => .ended
  | fi :: rest => .last fi rest

/-- `ZcBuf` -/
structure ZcBuf where
  pa : ℕ
  /-- The frame on it, while `busy`. -/
  fi : Option Picture
  deriving DecidableEq, Repr

structure State where
  main : Main
  worker : Worker
  /-- `ok` and `fi` of the worker. -/
  result : Option Picture
  /-- `g_rel` -/
  rel : List Picture
  /-- What `rel_push` had no room for. -/
  lost : List Picture
  /-- `g_zc` -/
  zc : List ZcBuf
  /-- The buffers that the compositor holds, and those whose release is on its way to `main`. -/
  held : List ℕ
  releases : List ℕ
  /-- The connection to the compositor is gone. -/
  dead : Bool
  /-- `g_stop` -/
  stop : Bool
  dry : ℕ
  vdec : Book Picture
  deriving DecidableEq, Repr

/-- Behind `vd_open`. -/
def start : State := ⟨.page 0, .off, none, [], [], [], [], [], false, false, 0, ⟨[], []⟩⟩

/-! ### The release queue and the buffers -/

/-- `rel_push` -/
def relPush (fi : Picture) (s : State) : State :=
  if s.rel.length = maxHeld then { s with lost := fi :: s.lost }
  else { s with rel := s.rel ++ [fi] }

/-- `zc_released` -/
def zcReleased (i : ℕ) (s : State) : State :=
  match s.zc[i]? with
  | some ⟨pa, some fi⟩ => relPush fi { s with zc := s.zc.set i ⟨pa, none⟩ }
  | _ => s

/-- What `zc_get` finds of a frame: it refuses it or the export fails; it is exported, but not where
it can be presented; or nothing is wrong. -/
inductive Export
  | refused
  | unusable
  | good
  deriving DecidableEq, Repr

/-- `zc_get` -/
def zcGet (fi : Picture) (e : Export) (zc : List ZcBuf) : List ZcBuf × Option ℕ :=
  match zc.findIdx? fun z => z.pa == fi.buffer with
  | some i => (zc, if e = .good ∧ (zc[i]?.bind ZcBuf.fi) = none then some i else none)
  | none =>
      if zc.length = maxHeld then (zc, none)
      else match e with
        | .refused => (zc, none)
        | .unusable => (zc ++ [⟨fi.buffer, none⟩], none)
        | .good => (zc ++ [⟨fi.buffer, none⟩], some zc.length)

/-- `worker_submit` -/
def workerSubmit (s : State) : State := { s with worker := .run s.rel, rel := [] }

/-! ### The steps -/

inductive Act
  /-- A signal, the window closed, or Escape. -/
  | stop
  /-- The decoder answers `main`, or the worker. -/
  | main (answer : Answer)
  | worker (answer : Answer)
  /-- The condition of a loop of `main`. -/
  | loop
  /-- `worker_wait` returns. -/
  | waited
  /-- What `main` needs for the picture it has is there, or is not. -/
  | take (e : Export)
  | copied
  | submit
  /-- The compositor gives a buffer back; `main` reads such a release; the connection breaks. -/
  | giveUp (i : ℕ)
  | dispatch
  | disconnect
  /-- The present, with a flush that goes through or does not. -/
  | present (flushed : Bool)
  | dispatched
  /-- The end of the loop's body, with the time over or not. -/
  | next (late : Bool)
  deriving DecidableEq, Repr

/-- Behind the loop. -/
def leave (c : Config) (s : State) : State :=
  if c.pipeline then { s with main := .close }
  else { s with main := .lastFlush s.rel, rel := [] }

/-- The worker has quit. -/
def join (s : State) : State := { s with main := .lastFlush s.rel, rel := [], worker := .joined }

/-- The decoder has answered `main`. -/
def mainAnswered (c : Config) (answer : Answer) (s : State) : Option State :=
  match s.main with
  | .pageSend k => some { s with main := .pageGet k }
  | .pageGet k | .pageDrain k =>
      match answer with
      | .picture buffer => (newPicture s.vdec buffer).map fun fi =>
          { s with main := .pageRelease k fi, vdec := s.vdec.lend fi }
      | _ => some { s with main := .page (k + 1) }
  | .pageRelease k fi => some { s with main := .pageDrain k, vdec := s.vdec.giveBack fi }
  | .flush fi rest => some { s with main := .flushed rest, vdec := s.vdec.giveBack fi }
  | .decode d => (d.step c.nau s.vdec answer).map fun
      | (.goes d, vdec) => { s with main := .decode d, vdec := vdec }
      | (.ends r, vdec) => { s with main := .taken r, vdec := vdec }
  | .giveBack fi => some { s with main := .bottom, vdec := s.vdec.giveBack fi }
  | .drop fi => some (leave c { s with vdec := s.vdec.giveBack fi })
  | .closing fi => some (join { s with vdec := s.vdec.giveBack fi })
  | .last fi rest => some { s with main := .lastFlush rest, vdec := s.vdec.giveBack fi }
  | _ => none

/-- The decoder has answered the worker. -/
def workerAnswered (c : Config) (answer : Answer) (s : State) : Option State :=
  match s.worker with
  | .releasing fi rest => some { s with worker := .run rest, vdec := s.vdec.giveBack fi }
  | .decode d => (d.step c.nau s.vdec answer).map fun
      | (.goes d, vdec) => { s with worker := .decode d, vdec := vdec }
      | (.ends r, vdec) => { s with worker := .idle, result := r, vdec := vdec }
  | _ => none

/-- The condition of the loop of the pages, and that of the frame loop. -/
def loop (c : Config) (s : State) : Option State :=
  match s.main with
  | .page k =>
      if k ≤ c.pages ∧ s.stop = false then some { s with main := .pageSend k }
      else if c.pipeline then some (workerSubmit { s with main := .top })
      else some { s with main := .top }
  | .top =>
      if s.stop then some (leave c s)
      else if c.pipeline then some { s with main := .wait }
      else some { s with main := .flushed s.rel, rel := [] }
  | _ => none

def waited (s : State) : Option State :=
  if s.worker = .idle then
    match s.main with
    | .wait => some { s with main := .taken s.result }
    | .close =>
        match s.result with
        | some fi => some { s with main := .closing fi }
        | none => some (join s)
    | _ => none
  else none

/-- A `break` of the loop with the picture in hand. -/
def breakWith (c : Config) (fi : Picture) (s : State) : State :=
  -- pipelined, the worker's last picture (this one) is released below
  if c.pipeline then leave c s else { s with main := .drop fi }

/-- What is dispatched once a frame is shown, or was not there. -/
def shown (c : Config) : Main := if c.zeroCopy then .pump else .bottom

/-- What `main` does with the picture it has. -/
def take (c : Config) (e : Export) (s : State) : Option State :=
  match s.main with
  | .taken none =>
      let s := { s with dry := s.dry + 1 }
      if s.dry ≥ 8 then some (leave c s)
      else some { s with main := if c.pipeline then .submit none none else shown c }
  | .taken (some fi) =>
      let s := { s with dry := 0 }
      if c.zeroCopy then
        match zcGet fi e s.zc with
        | (zc, none) => some (breakWith c fi { s with zc := zc })
        | (zc, some i) =>
            some { s with
              zc := zc, main := if c.pipeline then .submit (some fi) (some i) else .pace i fi }
      else if e = .good then some { s with main := .copy fi }
      else some (breakWith c fi s)
  | _ => none

/-- The picture is read. -/
def copied (c : Config) (s : State) : Option State :=
  match s.main with
  | .copy fi =>
      some { s with main := if c.pipeline then .submit (some fi) none else .giveBack fi }
  | _ => none

/-- The release of the picture, but with `--zero-copy`, and the next decode. -/
def submit (c : Config) (s : State) : Option State :=
  match s.main with
  | .submit (some fi) zc =>
      let s := if c.zeroCopy then s else relPush fi s
      some (workerSubmit { s with main := (zc.map fun i => Main.pace i fi).getD (shown c) })
  | .submit none _ => some (workerSubmit { s with main := shown c })
  | _ => none

/-- The compositor has read a buffer and no longer uses it. -/
def giveUp (i : ℕ) (s : State) : Option State :=
  if i ∈ s.held then some { s with held := s.held.erase i, releases := s.releases ++ [i] }
  else none

/-- `main` reads the first release. -/
def dispatch (s : State) : Option State :=
  match s.main, s.dead, s.releases with
  | .pace _ _, false, i :: rest | .pump, false, i :: rest =>
      some (zcReleased i { s with releases := rest })
  | _, _, _ => none

/-- The connection is gone; `dmabuf_presenter_wait_frame` says so, `dmabuf_presenter_dispatch` does
not. -/
def disconnect (s : State) : Option State :=
  match s.main with
  | .pace _ _ => some { s with dead := true, stop := true }
  | .pump => some { s with dead := true }
  | _ => none

/-- `dmabuf_presenter_present`: on a connection that is gone nothing is handed over. -/
def present (flushed : Bool) (s : State) : Option State :=
  match s.main with
  | .pace i fi =>
      let s := { s with main := .pump, zc := s.zc.set i ⟨fi.buffer, some fi⟩ }
      if s.dead = false ∧ flushed then some { s with held := i :: s.held }
      else some { s with dead := true, stop := true }
  | _ => none

/-- **One step.** -/
def step (c : Config) (s : State) : Act → Option State
  | .stop => some { s with stop := true }
  | .main answer => mainAnswered c answer s
  | .worker answer => workerAnswered c answer s
  | .loop => loop c s
  | .waited => waited s
  | .take e => take c e s
  | .copied => copied c s
  | .submit => submit c s
  | .giveUp i => giveUp i s
  | .dispatch => dispatch s
  | .disconnect => disconnect s
  | .present flushed => present flushed s
  | .dispatched => if s.main = .pump then some { s with main := .bottom } else none
  | .next late =>
      if s.main = .bottom then some (if late then leave c s else { s with main := .top }) else none

/-! ### What is asked of it -/

/-- A picture whose RELEASE_FRAME a decode is in. -/
def DecodeAus.givesBack : DecodeAus → Option Picture
  | .stale _ fi _ | .release _ fi => some fi
  | _ => none

def Main.givesBack : Main → Option Picture
  | .pageRelease _ fi | .flush fi _ | .giveBack fi | .drop fi | .closing fi | .last fi _ => some fi
  | .decode d => d.givesBack
  | _ => none

def Worker.givesBack : Worker → Option Picture
  | .releasing fi _ => some fi
  | .decode d => d.givesBack
  | _ => none

/-- `main` is in an ioctl of the decoder. -/
def Main.InDecoder : Main → Prop
  | .pageSend _ | .pageGet _ | .pageRelease _ _ | .pageDrain _ => True
  | .flush _ _ | .decode _ | .giveBack _ | .drop _ | .closing _ | .last _ _ => True
  | _ => False

def Worker.InDecoder : Worker → Prop
  | .releasing _ _ | .decode _ => True
  | _ => False

/-- A picture is on its way into RELEASE_FRAME. -/
def State.GivesBack (s : State) (fi : Picture) : Prop :=
  s.main.givesBack = some fi ∨ s.worker.givesBack = some fi

/-- The compositor holds a frame buffer. -/
def State.OnScreen (s : State) (buffer : ℕ) : Prop :=
  ∃ i ∈ s.held, ∃ z, s.zc[i]? = some z ∧ z.pa = buffer

end BadgeOS.CodaCube.Playback
