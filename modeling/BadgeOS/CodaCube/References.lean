import BadgeOS.Lib.Cells
import Mathlib

/-!
# The reference list of a frame

The part of `encode_frame` in `coda-cube.c` that gives the blocks of a frame their reference
pictures: the face and page of each block, the list of the most used pairs, the pages replaced for
want of an entry, and the entry each macroblock then uses.  What `block_hit` returns is a
parameter, and the floating-point coordinates are kept only as cells that were written.  An index
out of range ends the frame without a result.

* `pass1`, `fill`, `replace` — the three loops of the selection;
* `selectReferences` — the selection;
* `macroblock` — the reference choice of one macroblock.
-/

namespace BadgeOS.CodaCube.References

open Cells

def MAXREF : ℕ := 16
def MAXMB : ℕ := 4096

/-- `PART`. -/
inductive Part
  | p4
  | p8
  | p16
  deriving DecidableEq, Repr

/-- `nb_`. -/
def Part.blocks : Part → ℕ
  | .p4 => 16
  | .p8 => 4
  | .p16 => 1

/-- The options that `main` accepts, and what the frame has in each block. -/
structure Frame where
  part : Part
  K : ℕ
  /-- `WMB * HMB` -/
  mbs : ℕ
  nlist : ℕ → ℕ
  blockHit : ℕ → ℕ → Option (ℕ × ℕ)
  K_pos : 0 < K
  K_le : K ≤ 14
  mbs_le : mbs ≤ MAXMB
  hit_lt : ∀ {m q f k}, blockHit m q = some (f, k) → f < 6 ∧ k < K

/-- The static arrays, and the histogram. -/
structure Blocks where
  bface : ℕ → ℤ
  bk : ℕ → ℤ
  btu : ℕ → Bool
  hist : ℕ → ℕ → ℤ

structure Refs where
  NREF : ℕ
  REFPAGE : ℕ → ℤ
  REFFACE : ℕ → ℤ
  REFK : ℕ → ℤ
  ent : ℕ → ℕ → ℤ

namespace Frame

variable (F : Frame)

/-- The blocks, in the order of the loops. -/
def blocks : List (ℕ × ℕ) :=
  (List.range F.mbs).flatMap fun m => (List.range F.part.blocks).map fun q => (m, q)

/-- What a block shows; with nothing binned in its macroblock, the background. -/
def face (m q : ℕ) : Option (ℕ × ℕ) := if F.nlist m = 0 then none else F.blockHit m q

/-- One block of the first pass. -/
def visit (s : Blocks) (b : ℕ × ℕ) : Option Blocks :=
  let i : ℤ := b.1 * 16 + b.2
  match F.face b.1 b.2 with
  | none => do
    let bface ← put (MAXMB * 16) s.bface i (-1)
    some { s with bface := bface }
  | some (f, k) => do
    let btu ← put (MAXMB * 16) s.btu i true
    let bk ← put (MAXMB * 16) s.bk i k
    let bface ← put (MAXMB * 16) s.bface i f
    let page ← get (MAXMB * 16) bk i
    let uses ← get₂ 6 64 s.hist f page
    let hist ← put₂ 6 64 s.hist f page (uses + 1)
    some ⟨bface, bk, btu, hist⟩

/-- The first pass, with the arrays as the frame before left them. -/
def pass1 (old : Blocks) : Option Blocks :=
  F.blocks.foldlM F.visit { old with hist := fun _ _ => 0 }

/-- The pairs of a face and a page, in the order of the search. -/
def pairs : List (ℕ × ℕ) :=
  (List.range 6).flatMap fun f => (List.range F.K).map fun k => (f, k)

/-- One pair of the search for the most used one: `bf`, `bkk` and `bc`. -/
def better (ent hist : ℕ → ℕ → ℤ) (s : ℤ × ℤ × ℤ) (p : ℕ × ℕ) : Option (ℤ × ℤ × ℤ) := do
  let e ← get₂ 6 64 ent p.1 p.2
  if e < 0 then
    let uses ← get₂ 6 64 hist p.1 p.2
    if uses > s.2.2 then some (p.1, p.2, uses) else some s
  else some s

def mostUsed (ent hist : ℕ → ℕ → ℤ) : Option (ℤ × ℤ × ℤ) :=
  F.pairs.foldlM (better ent hist) (-1, -1, 0)

/-- The loop that fills the list; it has no result when `fuel` is spent. -/
def fill (hist : ℕ → ℕ → ℤ) : ℕ → Refs → Option Refs
  | 0, _ => none
  | fuel + 1, r => do
    let (bf, bkk, _) ← F.mostUsed r.ent hist
    if bf < 0 ∨ r.NREF = MAXREF then some r
    else
      let ent ← put₂ 6 64 r.ent bf bkk r.NREF
      let page ← put MAXREF r.REFPAGE r.NREF (1 + bkk)
      let face ← put MAXREF r.REFFACE r.NREF bf
      let k ← put MAXREF r.REFK r.NREF bkk
      fill hist fuel ⟨r.NREF + 1, page, face, k, ent⟩

/-- `[0]` is the black page. -/
def noRefs : Refs := ⟨1, fun _ => 0, fun _ => -1, fun _ => -1, fun _ _ => -1⟩

def circd (a b : ℤ) : ℤ :=
  let d := |a - b| % F.K
  if d < F.K - d then d else F.K - d

/-- The search for the nearest page with an entry. -/
def nearest (ent : ℕ → ℕ → ℤ) (f own : ℤ) : Option ℤ :=
  (List.range F.K).foldlM (fun (best : ℤ) (k : ℕ) => do
    let e ← get₂ 6 64 ent f k
    if e ≥ 0 ∧ (best < 0 ∨ F.circd k own < F.circd best own) then some (k : ℤ)
    else some best) (-1)

/-- One block of the loop that replaces the pages without an entry. -/
def replaceBlock (ent : ℕ → ℕ → ℤ) (bface : ℕ → ℤ) (bk : ℕ → ℤ) (b : ℕ × ℕ) :
    Option (ℕ → ℤ) := do
  if F.nlist b.1 = 0 then some bk
  else
    let i : ℤ := b.1 * 16 + b.2
    let f ← get (MAXMB * 16) bface i
    if f < 0 then some bk
    else
      let own ← get (MAXMB * 16) bk i
      let e ← get₂ 6 64 ent f own
      if e < 0 then
        let best ← F.nearest ent f own
        put (MAXMB * 16) bk i best
      else some bk

def replace (ent : ℕ → ℕ → ℤ) (s : Blocks) : Option Blocks := do
  let bk ← F.blocks.foldlM (F.replaceBlock ent s.bface) s.bk
  some { s with bk := bk }

/-- The weights and the slice header read the list. -/
def header (r : Refs) : Option (List ℤ) := do
  let _ ← (List.range' 1 (r.NREF - 1)).mapM fun (i : ℕ) =>
    (get MAXREF r.REFFACE i).bind fun f => get 6 (fun _ => ()) f
  (List.range r.NREF).mapM fun (i : ℕ) => get MAXREF r.REFPAGE i

/-- The references of a frame. -/
def selectReferences (old : Blocks) : Option (Blocks × Refs) := do
  let s ← F.pass1 old
  let r ← F.fill s.hist MAXREF noRefs
  let s ← F.replace r.ent s
  let _ ← header r
  some (s, r)

/-! ### The reference choice -/

/-- `ent[fa[q]][bk[i]]` of a block with a face, with its coordinates read. -/
def entry (s : Blocks) (r : Refs) (m q : ℕ) : Option ℤ := do
  let i : ℤ := m * 16 + q
  let f ← get (MAXMB * 16) s.bface i
  let k ← get (MAXMB * 16) s.bk i
  let _ ← get (MAXMB * 16) s.btu i
  get₂ 6 64 r.ent f k

/-- `fa[q] >= 0`. -/
def hasFace (s : Blocks) (m q : ℕ) : Option Bool :=
  (get (MAXMB * 16) s.bface (m * 16 + q)).map fun f => decide (0 ≤ f)

/-- `cnt` of the four blocks of an 8x8, as the entries of those with a face. -/
def entries (s : Blocks) (r : Refs) (m p : ℕ) : Option (List ℤ) :=
  (List.range 4).foldlM (fun es s2 => do
    let there ← hasFace s m (p * 4 + s2)
    if there then
      let e ← entry s r m (p * 4 + s2)
      let _ ← get MAXREF (fun _ => ()) e
      some (es ++ [e])
    else some es) []

/-- The first of the most used entries from 1 on, or -1. -/
def mostCommon (r : Refs) (es : List ℤ) : ℤ :=
  (List.range' 1 (r.NREF - 1)).foldl (fun br (i : ℕ) =>
    if 0 < es.count (i : ℤ) ∧ (br < 0 ∨ es.count br < es.count (i : ℤ)) then (i : ℤ) else br) (-1)

/-- `ref[p]`, or the reference of the whole macroblock. -/
def chosen (s : Blocks) (r : Refs) (m p : ℕ) : Option ℤ := do
  match F.part with
  | .p16 => entry s r m p
  | .p8 =>
    let there ← hasFace s m p
    if there then entry s r m p else some 0
  | .p4 =>
    let es ← entries s r m p
    if es = [] then some 0
    else
      let br := mostCommon r es
      let _ ← get MAXREF r.REFK br
      some br

/-- The references of a macroblock that has a face and is not coded as samples. -/
def macroblock (s : Blocks) (r : Refs) (m : ℕ) : Option (List ℤ) :=
  if F.nlist m = 0 then some []
  else do
    let faces ← (List.range F.part.blocks).mapM fun q => hasFace s m q
    if true ∉ faces then some []
    else (List.range (if F.part = .p16 then 1 else 4)).mapM fun p => F.chosen s r m p

end Frame

end BadgeOS.CodaCube.References
