import BadgeOS.Lib.Ledger
import BadgeOS.Wlroots.Nv12Equal
import Mathlib

/-!
# Converting a client's buffer

`renderer.c` of the wlroots patch: which DMA-BUFs become textures, and the conversion of one on
its first use.  What the kernel, pixman and `malloc` answer is a parameter.  A mapping is a block
of its own, of the length it was mapped with, so that a read behind its end ends the conversion
without a result.

* `fromDmabuf` — `pixman_texture_from_dmabuf`;
* `planeEnd`, `World.ends` — how far each file is mapped;
* `convertNv12Dmabuf` — the conversion, with what it takes and gives back.
-/

namespace BadgeOS.Wlroots.Dmabuf

open Ledger Memory

/-- `struct wlr_dmabuf_attributes`, of the planes 0 and 1. -/
structure Attribs where
  format : ℕ
  modifier : ℕ
  nPlanes : ℤ
  width : ℤ
  height : ℤ
  offset : ℕ → ℕ
  stride : ℕ → ℕ
  fd : ℕ → ℤ
  width_lt : width < 2 ^ 31
  height_lt : height < 2 ^ 31
  offset_lt : ∀ i, offset i < 2 ^ 32
  stride_lt : ∀ i, stride i < 2 ^ 32

/-- `(uint32_t)x`. -/
def u32 (x : ℤ) : ℕ := (x % 2 ^ 32).toNat

/-- Two bytes for every pair of columns, in a `uint32_t`. -/
def pairBytes (width : ℕ) : ℕ := (width + 1) % 2 ^ 32 / 2 * 2 % 2 ^ 32

/-- `struct wlr_pixman_texture`: the pixels of `image`. -/
structure Texture where
  image : Option Mem

/-- `pixman_texture_from_dmabuf`; `formats` is the renderer's set, and `created` says whether
`pixman_texture_create` succeeds. -/
def fromDmabuf (formats : ℕ → ℕ → Bool) (created : Bool) (a : Attribs) : Option Texture :=
  if !formats a.format a.modifier then none
  else if a.nPlanes ≠ 2 ∨ a.width ≤ 0 ∨ a.height ≤ 0 ∨ a.stride 0 < u32 a.width ∨
      a.stride 1 < pairBytes (u32 a.width) then none
  else if created then some ⟨none⟩ else none

/-- `dmabuf_plane_end`. -/
def planeEnd (a : Attribs) (plane rows rowLen : ℕ) : Option ℕ :=
  let len := (a.offset plane + a.stride plane * ((rows + (2 ^ 32 - 1)) % 2 ^ 32) % 2 ^ 64 +
    rowLen) % 2 ^ 64
  if len > 2 ^ 64 - 1 then none else some len

/-- What pixman made: the length of its rows, and what memory held. -/
structure Image where
  stride : ℕ
  bytes : ℕ → Option UInt8

/-- What a conversion is answered.  `mmap` never answers NULL, and pixman's rows hold the
picture's and have a length that is an `int`. -/
structure World (a : Attribs) where
  getDmabuf : Bool
  sameFile : Bool
  mmap : ℕ → Option ℕ
  file : ℕ → ℕ → UInt8
  syncStart : ℕ → Bool
  image : Option Image
  line : Bool
  mmap_ne : ∀ i, mmap i ≠ some 0
  image_row : ∀ img, image = some img → 4 * u32 a.width ≤ img.stride ∧ img.stride < 2 ^ 31

/-- A mapping, or an access between SYNC START and SYNC END. -/
inductive Held
  | mapping (addr len : ℕ)
  | access (fd : ℤ)
  deriving DecidableEq, Repr

namespace World

variable {a : Attribs} (w : World a)

/-- `n_files`. -/
def nFiles : ℕ := if w.sameFile then 1 else 2

/-- `ends`, with the planes' own ends. -/
def ends (end0 end1 i : ℕ) : ℕ :=
  if i = 0 then (if w.nFiles = 1 ∧ end1 > end0 then end1 else end0) else end1

/-- How many files are mapped. -/
def mapped : ℕ := ((List.range w.nFiles).takeWhile fun i => (w.mmap i).isSome).length

/-- `maps`, where 0 is NULL. -/
def maps (i : ℕ) : ℕ := if i < w.mapped then (w.mmap i).getD 0 else 0

/-- `synced`. -/
def synced : ℕ := ((List.range w.nFiles).takeWhile w.syncStart).length

/-- The mapping of file `i`. -/
def mapping (len i : ℕ) : Mem :=
  ⟨fun x => decide (w.maps i ≤ x) && decide (x < w.maps i + len),
    fun x => some (w.file i (x - w.maps i))⟩

end World

/-- What a conversion leaves: what it returned, the texture, and what it took and gave. -/
structure Done where
  ok : Bool
  texture : Texture
  entries : List (Entry Held)

/-- The label `out`, with `synced` accesses begun. -/
def out (a : Attribs) (w : World a) (end0 end1 synced : ℕ) (ok : Bool) (t : Texture) : Done :=
  ⟨ok, t,
    ((List.range w.mapped).map fun i => .take (.mapping (w.maps i) (w.ends end0 end1 i))) ++
    ((List.range synced).map fun i => .take (.access (a.fd i))) ++
    ((List.range synced).map fun i => .give (.access (a.fd i))) ++
    (((List.range w.nFiles).filter fun i => w.maps i ≠ 0).map fun i =>
      .give (.mapping (w.maps i) (w.ends end0 end1 i)))⟩

/-- `convert_nv12_dmabuf`. -/
def convertNv12Dmabuf (a : Attribs) (w : World a) (t : Texture) : Option Done :=
  let width := u32 a.width
  let height := u32 a.height
  if !w.getDmabuf then some ⟨false, t, []⟩
  else
    match planeEnd a 0 height width,
      planeEnd a 1 ((height + 1) % 2 ^ 32 / 2) (pairBytes width) with
    | some end0, some end1 =>
      if w.mapped < w.nFiles then some (out a w end0 end1 0 false t)
      else if w.synced < w.nFiles then some (out a w end0 end1 w.synced false t)
      else
        match w.image with
        | none => some (out a w end0 end1 w.synced false ⟨none⟩)
        | some img => do
          let last := w.nFiles - 1
          let dst := Nv12.plane height img.stride (4 * width) img.bytes
          let (ok, dst) ← Nv12.pixmanNv12ToXrgb8888Staged w.line
            ⟨w.mapping (w.ends end0 end1 0) 0, w.maps 0 + a.offset 0⟩ (a.stride 0)
            ⟨w.mapping (w.ends end0 end1 last) last, w.maps last + a.offset 1⟩ (a.stride 1)
            dst 0 img.stride width height
          some (out a w end0 end1 w.synced ok ⟨if ok then some dst else none⟩)
    | _, _ => some ⟨false, t, []⟩

end BadgeOS.Wlroots.Dmabuf
