import BadgeOS.Lib.Rectangle
import BadgeOS.Lib.Transition
import Mathlib

/-!
# The window framebuffer

`SDL_waylandframebuffer.c`: up to four buffers of shared memory that are committed to a surface
in turn.  An update is cut where it reads the releases of the compositor, so that releases fall
between its parts in any order; the rectangle operations are parameters, since SDL's own files
have them.

* `Buffer`, `State` — the buffers, the window surface, the releases on their way, and what was
  written and committed so far;
* `copyFramebufferRect`, `getUpdateArea`, `markBuffersStale` — the parts of an update;
* `step` — drawing, the three parts of an update, and a release;
* `create` — the state that `Wayland_CreateWindowFramebuffer` leaves.
-/

namespace BadgeOS.Sdl

open Rectangle

inductive PixelFormat
  | xrgb8888
  | bgr24
  | rgb24
  deriving DecidableEq, Repr

/-- `SDL_BYTESPERPIXEL`. -/
def PixelFormat.bytesPerPixel : PixelFormat → ℕ
  | .xrgb8888 => 4
  | .bgr24 => 3
  | .rgb24 => 3

def getFramebufferPitch (width bytesPerPixel : ℕ) : ℕ :=
  let align := if bytesPerPixel = 3 then 12 else 4
  (width * bytesPerPixel + align - 1) / align * align

/-- The fields of `SDL_WaylandFramebuffer` that stay. -/
structure Framebuffer where
  width : ℕ
  height : ℕ
  format : PixelFormat
  noCopy : Bool
  deriving DecidableEq, Repr

namespace Framebuffer

def bytesPerPixel (fb : Framebuffer) : ℕ := fb.format.bytesPerPixel

def pitch (fb : Framebuffer) : ℕ := getFramebufferPitch fb.width fb.bytesPerPixel

/-- `bounds`. -/
def bounds (fb : Framebuffer) : Rect := ⟨0, 0, fb.width, fb.height⟩

/-- The bytes of the pixel at `x`, `y`. -/
def At (fb : Framebuffer) (x y o : ℕ) : Prop :=
  y * fb.pitch + x * fb.bytesPerPixel ≤ o ∧ o < y * fb.pitch + (x + 1) * fb.bytesPerPixel

instance (fb : Framebuffer) (x y o : ℕ) : Decidable (fb.At x y o) :=
  inferInstanceAs (Decidable (_ ∧ _))

end Framebuffer

/-- The memory of a buffer. -/
abbrev Pixels := ℕ → UInt8

/-- `SDL_WaylandFramebufferBuffer`. -/
structure Buffer where
  pixels : Pixels
  stale : Rect
  busy : Bool

/-- What happened to the buffers: a write to one, a commit with the bytes of the buffer and of
the window surface and the damage, and the compositor's release. -/
inductive Event
  | wrote (i : ℕ)
  | committed (i : ℕ) (shown surface : Pixels) (damage : List Rect)
  | released (i : ℕ)

/-- The compositor holds buffer `i`; the newest event stands first. -/
def heldIn : List Event → ℕ → Bool
  | [], _ => false
  | .wrote _ :: log, i => heldIn log i
  | .committed j _ _ _ :: log, i => j == i || heldIn log i
  | .released j :: log, i => j != i && heldIn log i

/-- Where an update stands: none runs, before `ReadFramebufferReleases`, or in the loop that waits
for a release. -/
inductive Call
  | idle
  | reading (rects : List Rect)
  | waiting (rects : List Rect)
  deriving DecidableEq

structure State where
  buffers : List Buffer
  /-- `surface_pixels`. -/
  surface : Option Pixels
  /-- The buffer that the window surface's pixels are, in no-copy mode. -/
  current : ℕ
  call : Call
  /-- The releases that were sent and not dispatched. -/
  pending : List ℕ
  /-- The pixels drawn since the last update. -/
  drawn : List Pixel
  log : List Event

inductive Act
  /-- The application writes `v` as the pixel at `x`, `y` of the window surface. -/
  | draw (x y : ℕ) (v : Pixels)
  /-- `Wayland_UpdateWindowFramebuffer`, to its first read; `canCommit` is `CanCommit`. -/
  | update (rects : List Rect) (canCommit : Bool)
  /-- `ReadFramebufferReleases`, which dispatches `n` releases and succeeds if `ok`, and what
  follows it; `fresh` is the memory of a new buffer, if one can be had. -/
  | read (n : ℕ) (ok : Bool) (fresh : Option Pixels)
  /-- One round of the loop that waits for a release. -/
  | dispatch (n : ℕ) (ok : Bool)
  /-- The compositor releases a buffer. -/
  | release (i : ℕ)

/-- A Wayland call fails. -/
def Act.fails : Act → Bool
  | .read _ ok _ => !ok
  | .dispatch _ ok => !ok
  | _ => false

/-! ### The parts of an update -/

/-- `SDL_memcpy` of `n` bytes at one offset of two buffers. -/
def memcpy (dst src : Pixels) (off n : ℕ) : Pixels :=
  fun o => if off ≤ o ∧ o < off + n then src o else dst o

def copyFramebufferRect (fb : Framebuffer) (src dst : Pixels) (rect : Rect) : Pixels :=
  let offset := rect.y.toNat * fb.pitch + rect.x.toNat * fb.bytesPerPixel
  if rect.x = 0 ∧ rect.w = fb.width then memcpy dst src offset (rect.h.toNat * fb.pitch)
  else
    let length := rect.w.toNat * fb.bytesPerPixel
    (List.range rect.h.toNat).foldl (fun dst y => memcpy dst src (offset + y * fb.pitch) length) dst

section Update

variable (ops : Ops) (fb : Framebuffer)

def clipUpdateRect (rect : Rect) : Option Rect := ops.intersection rect fb.bounds

/-- The bounding box of the update rects, within the framebuffer. -/
def getUpdateArea (rects : List Rect) : Rect :=
  (rects.filterMap (clipUpdateRect ops fb)).foldl ops.union ⟨0, 0, 0, 0⟩

/-- `MarkBuffersStale`; `current` is `none` for `NULL`. -/
def markBuffersStale (current : Option ℕ) (area : Rect) (buffers : List Buffer) : List Buffer :=
  buffers.mapIdx fun i b =>
    if current = some i then b else { b with stale := ops.union b.stale area }

/-- The damage of a commit, on a surface of a version with `damage_buffer`. -/
def damage (rects : List Rect) : List Rect := rects.filterMap (clipUpdateRect ops fb)

/-- `FindFreeBuffer`. -/
def findFreeBuffer (buffers : List Buffer) : Option ℕ := buffers.findIdx? fun b => !b.busy

/-- `AllocFramebufferBuffer`: a new buffer of this memory. -/
def allocFramebufferBuffer (pixels : Pixels) : Buffer := ⟨pixels, fb.bounds, false⟩

/-- The releases of `is`, dispatched: `framebuffer_buffer_handle_release`. -/
def handleReleases (is : List ℕ) (buffers : List Buffer) : List Buffer :=
  is.foldl (fun buffers i => buffers.modify i fun b => { b with busy := false }) buffers

/-- A buffer brought up to date with the window surface. -/
def upToDate (surface : Pixels) (rects : List Rect) (b : Buffer) : Pixels :=
  if b.stale.IsEmpty then
    (rects.filterMap (clipUpdateRect ops fb)).foldl (copyFramebufferRect fb surface) b.pixels
  else
    copyFramebufferRect fb surface b.pixels (ops.union b.stale (getUpdateArea ops fb rects))

/-- The rest of an update once `GetFreeBuffer` found buffer `i`. -/
def finish (rects : List Rect) (s : State) (i : ℕ) : State :=
  match s.surface, s.buffers[i]? with
  | some surface, some b =>
      let pixels := upToDate ops fb surface rects b
      { s with
        buffers := (markBuffersStale ops (some i) (getUpdateArea ops fb rects) s.buffers).set i
          ⟨pixels, ⟨0, 0, 0, 0⟩, true⟩
        call := .idle
        log := .committed i pixels surface (damage ops fb rects) :: .wrote i :: s.log }
  | _, _ => { s with current := i, call := .idle }

/-- The commit of the window surface's own buffer, in no-copy mode. -/
def commitCurrent (rects : List Rect) (s : State) (b : Buffer) : State :=
  { s with
    buffers := s.buffers.set s.current { b with busy := true }
    call := .reading rects
    log := .committed s.current b.pixels b.pixels (damage ops fb rects) :: s.log }

/-- `Wayland_UpdateWindowFramebuffer` up to `GetFreeBuffer`. -/
def startUpdate (rects : List Rect) (canCommit : Bool) (s : State) : State :=
  let area := getUpdateArea ops fb rects
  let s := { s with drawn := [] }
  if area.IsEmpty then s
  else if !canCommit then
    if s.surface.isSome then { s with buffers := markBuffersStale ops none area s.buffers } else s
  else if s.surface.isSome then { s with call := .reading rects }
  else
    match s.buffers[s.current]? with
    | some b => commitCurrent ops fb rects s b
    | none => s

/-- Buffers whose first releases were dispatched. -/
def dispatched (n : ℕ) (s : State) : State :=
  { s with
    buffers := handleReleases (s.pending.take n) s.buffers
    pending := s.pending.drop n }

/-- `GetFreeBuffer` after its read: a free buffer, a new one, or the loop. -/
def afterRead (rects : List Rect) (fresh : Option Pixels) (s : State) : State :=
  match findFreeBuffer s.buffers with
  | some i => finish ops fb rects s i
  | none =>
      match if s.buffers.length < 4 then fresh else none with
      | some pixels =>
          finish ops fb rects { s with buffers := s.buffers ++ [allocFramebufferBuffer fb pixels] }
            s.buffers.length
      | none => { s with call := .waiting rects }

/-- One round of the loop. -/
def afterDispatch (rects : List Rect) (s : State) : State :=
  match findFreeBuffer s.buffers with
  | some i => finish ops fb rects s i
  | none => s

/-- The pixel at `x`, `y`, drawn. -/
def drawPixel (x y : ℕ) (v pixels : Pixels) : Pixels :=
  fun o => if fb.At x y o then v o else pixels o

/-- A write of the application to the window surface. -/
def drawn (x y : ℕ) (v : Pixels) (s : State) : State :=
  let s := { s with drawn := ((x : ℤ), (y : ℤ)) :: s.drawn }
  match s.surface with
  | some surface => { s with surface := some (drawPixel fb x y v surface) }
  | none =>
      { s with
        buffers := s.buffers.modify s.current fun b =>
          { b with pixels := drawPixel fb x y v b.pixels }
        log := .wrote s.current :: s.log }

/-- **A step** of the application, the update that runs, or the compositor. -/
def step (s : State) : Act → Option State
  | .draw x y v =>
      if s.call = .idle ∧ x < fb.width ∧ y < fb.height then some (drawn fb x y v s) else none
  | .update rects canCommit =>
      if s.call = .idle then some (startUpdate ops fb rects canCommit s) else none
  | .read n ok fresh =>
      match s.call with
      | .reading rects =>
          some (if ok then afterRead ops fb rects fresh (dispatched n s)
            else { dispatched n s with call := .idle })
      | _ => none
  | .dispatch n ok =>
      match s.call with
      | .waiting rects =>
          some (if ok then afterDispatch ops fb rects (dispatched n s)
            else { dispatched n s with call := .idle })
      | _ => none
  | .release i =>
      if heldIn s.log i then
        some { s with pending := s.pending ++ [i], log := .released i :: s.log }
      else none

end Update

/-- `Wayland_CreateWindowFramebuffer`, with two buffers of some memory. -/
def create (width height : ℕ) (format : PixelFormat) (noCopy : Bool) (first second : Pixels) :
    Option (Framebuffer × State) :=
  let fb : Framebuffer := ⟨width, height, format, noCopy⟩
  if width = 0 ∨ height = 0 ∨ fb.pitch * height > 2 ^ 31 - 1 then none
  else
    some (fb,
      { buffers := [allocFramebufferBuffer fb first, allocFramebufferBuffer fb second]
        surface := if noCopy then none else some fun _ => 0
        current := 0
        call := .idle
        pending := []
        drawn := []
        log := [] })

end BadgeOS.Sdl
