import BadgeOS.EmmcInit.Init
import BadgeOS.Lib.HashTree
import Mathlib

/-!
# The length of a store image

`store_image_bytes`, which `nix-badge-emmc-init` and `nix-badge-emmc-update` share, counts the hash
blocks behind a squashfs level by level.  The image itself is the padded squashfs and the tree that
`veritysetup format` puts behind it, the root first.

* `whileLoop`, `runStoreImageBytes` — the function with its loop, and `runStoreImageBytes_eq`: it
  ends on every slot;
* `Verity`, `storeImage` — the tree over 4 KiB blocks, and the image;
* `imageBytes` — 4096 bytes for each block of the data and of the tree;
* `storeImageBytes_eq_iff` — the result is that length exactly when the shell's integers hold it;
* `storeImageBytes_covers` — the length, its growth, and what a copy of it contains.
-/

namespace BadgeOS.EmmcInit

open EmmcUpdate HashTree

/-! ### The loop -/

/-- `while [ "$n" -gt 1 ]`; there is no result when `fuel` is spent. -/
def whileLoop : ℕ → ℤ → ℤ → Option ℤ
  | 0, _, _ => none
  | fuel + 1, n, tree =>
      if n > 1 then
        let n := (wrap (n + 127)).tdiv 128
        whileLoop fuel n (wrap (tree + n))
      else some tree

/-- `store_image_bytes`, turn by turn. -/
def runStoreImageBytes (fuel : ℕ) (slot : Bytes) : Option (Option ℤ) :=
  if slot.take 4 = [0x68, 0x73, 0x71, 0x73] then do
    let used := wrap (littleEndian ((slot.drop 40).take 8))
    let data := (wrap (used + 4095)).tdiv 4096
    let tree ← whileLoop fuel data 0
    some (some (wrap (wrap (data + tree) * 4096)))
  else some none

theorem wrap_of_lt {x : ℤ} (hlo : -2 ^ 63 ≤ x) (hhi : x < 2 ^ 63) : wrap x = x := by
  rw [wrap]
  exact Int.bmod_eq_of_le (by omega) (by omega)

theorem wrap_mem (x : ℤ) : -2 ^ 63 ≤ wrap x ∧ wrap x < 2 ^ 63 := by
  have hlo := Int.le_bmod (x := x) (m := 2 ^ 64) (by decide)
  have hhi := Int.bmod_lt (x := x) (m := 2 ^ 64) (by decide)
  rw [wrap]
  omega

theorem treeBlocks_of_one_lt {n : ℕ} (hn : 1 < n) :
    treeBlocks n = (n + 127) / 128 + treeBlocks ((n + 127) / 128) := by
  rw [treeBlocks, if_pos hn]

theorem treeBlocks_of_le_one {n : ℕ} (hn : n ≤ 1) : treeBlocks n = 0 := by
  rw [treeBlocks, if_neg (by omega)]

theorem treeBlocks_le (n : ℕ) : treeBlocks n ≤ n := by
  induction n using Nat.strong_induction_on with
  | _ n ih =>
      by_cases hn : 1 < n
      · have hrest := ih ((n + 127) / 128) (by omega)
        rw [treeBlocks_of_one_lt hn]
        omega
      · rw [treeBlocks_of_le_one (by omega)]
        exact Nat.zero_le n

/-- The loop adds up the levels above `n` blocks; each turn leaves fewer. -/
theorem whileLoop_eq {fuel n tree : ℕ} (hfuel : n < fuel) (hsmall : tree + n < 2 ^ 62) :
    whileLoop fuel n tree = some ((tree + treeBlocks n : ℕ) : ℤ) := by
  induction n using Nat.strong_induction_on generalizing fuel tree with
  | _ n ih =>
      cases fuel with
      | zero => omega
      | succ fuel =>
          by_cases hn : 1 < n
          · have hlevel : (wrap ((n : ℤ) + 127)).tdiv 128 = ((n + 127) / 128 : ℕ) := by
              rw [wrap_of_lt (by omega) (by omega), Int.tdiv_eq_ediv_of_nonneg (by omega)]
              norm_cast
            have hadd : wrap ((tree : ℤ) + ((n + 127) / 128 : ℕ)) =
                (tree + (n + 127) / 128 : ℕ) := by
              rw [← Nat.cast_add]
              exact wrap_of_lt (by omega) (by omega)
            have hrest : whileLoop fuel ((n + 127) / 128 : ℕ) ((tree + (n + 127) / 128 : ℕ) : ℤ) =
                some ((tree + (n + 127) / 128 + treeBlocks ((n + 127) / 128) : ℕ) : ℤ) :=
              ih _ (by omega) (by omega) (by omega)
            rw [whileLoop, if_pos (by omega)]
            simp only [hlevel, hadd]
            rw [hrest, treeBlocks_of_one_lt hn, Nat.add_assoc]
          · rw [whileLoop, if_neg (by omega), treeBlocks_of_le_one (by omega), Nat.add_zero]

/-- The shell computes few data blocks, from every length. -/
theorem data_mem (x : ℤ) : -2 ^ 51 ≤ (wrap x).tdiv 4096 ∧ (wrap x).tdiv 4096 < 2 ^ 51 := by
  obtain ⟨hlo, hhi⟩ := wrap_mem x
  have hmin : (-2 ^ 63 : ℤ).tdiv 4096 = -2 ^ 51 := by decide
  have hmax : (2 ^ 63 - 1 : ℤ).tdiv 4096 = 2 ^ 51 - 1 := by decide
  have hle := Int.tdiv_le_tdiv (by decide : (0 : ℤ) < 4096) (Int.le_sub_one_of_lt hhi)
  have hge := Int.tdiv_le_tdiv (by decide : (0 : ℤ) < 4096) hlo
  rw [hmax] at hle
  rw [hmin] at hge
  exact ⟨hge, Int.lt_of_le_sub_one hle⟩

/-- **It ends**, on every slot. -/
theorem runStoreImageBytes_eq (slot : Bytes) :
    ∃ fuel, runStoreImageBytes fuel slot = some (storeImageBytes slot) := by
  rw [storeImageBytes]
  by_cases hmagic : slot.take 4 = [0x68, 0x73, 0x71, 0x73]
  · rw [if_pos hmagic]
    generalize hdata : (wrap (wrap (littleEndian ((slot.drop 40).take 8)) + 4095)).tdiv 4096 = data
    obtain ⟨hlo, hhi⟩ : -2 ^ 51 ≤ data ∧ data < 2 ^ 51 := hdata ▸ data_mem _
    have hloop : ∃ fuel, whileLoop fuel data 0 = some ((treeBlocks data.toNat : ℕ) : ℤ) := by
      rcases le_or_gt 0 data with hpos | hneg
      · obtain ⟨n, rfl⟩ := Int.eq_ofNat_of_zero_le hpos
        have hrun := whileLoop_eq (Nat.lt_succ_self n) (show 0 + n < 2 ^ 62 by omega)
        rw [Nat.zero_add] at hrun
        exact ⟨n + 1, hrun⟩
      · refine ⟨1, ?_⟩
        rw [whileLoop, if_neg (by omega), Int.toNat_of_nonpos hneg.le,
          treeBlocks_of_le_one (by omega), Nat.cast_zero]
    obtain ⟨fuel, hloop⟩ := hloop
    have htree := treeBlocks_le data.toNat
    have hsum : wrap (data + treeBlocks data.toNat) = data + treeBlocks data.toNat :=
      wrap_of_lt (by omega) (by omega)
    refine ⟨fuel, ?_⟩
    rw [runStoreImageBytes, if_pos hmagic]
    simp only [hdata, hloop, Option.bind_eq_bind, Option.bind_some]
    rw [hsum]
  · refine ⟨0, ?_⟩
    rw [runStoreImageBytes, if_neg hmagic, if_neg hmagic]

/-! ### The image -/

/-- What `veritysetup format` is given: sha256, with the salt. -/
structure Verity where
  digest : Bytes → Bytes
  length_digest : ∀ block, (digest block).length = 32

/-- 128 digests in a block of 4 KiB. -/
def Verity.hashing (v : Verity) : Hashing Bytes where
  arity := 128
  two_le := Nat.le_of_ble_eq_true rfl
  parent group := (group.flatMap v.digest).rightpad 4096 0

/-- `data` of a length. -/
def dataBlocks (used : ℕ) : ℕ := used ⌈/⌉ 4096

/-- The hash blocks of a tree over that many. -/
def hashBlocks (used : ℕ) : ℕ := count 128 (dataBlocks used)

def imageBytes (used : ℕ) : ℕ := 4096 * (dataBlocks used + hashBlocks used)

/-- A squashfs, padded to 4 KiB. -/
def padded (squashfs : Bytes) : Bytes := squashfs.rightpad (4096 * dataBlocks squashfs.length) 0

/-- The tree of a squashfs, from the lowest level on. -/
def Verity.tree (v : Verity) (squashfs : Bytes) : List (List Bytes) :=
  v.hashing.levels (groups 4096 (padded squashfs))

/-- The levels as they lie behind the data: the root comes first. -/
def Verity.treeBytes (v : Verity) (squashfs : Bytes) : Bytes :=
  (v.tree squashfs).reverse.flatten.flatten

/-- `dd if="$nixa" iflag=count_bytes count=<bytes>` -/
def dd (slot : Bytes) (bytes : ℤ) : Bytes := slot.take bytes.toNat

/-- The slot starts with the superblock of a squashfs of `used` bytes. -/
structure Superblock (slot : Bytes) (used : ℕ) : Prop where
  long : 48 ≤ slot.length
  magic : slot.take 4 = [0x68, 0x73, 0x71, 0x73]
  used : littleEndian ((slot.drop 40).take 8) = used

variable {slot squashfs : Bytes} {used used' : ℕ}

theorem le_dataBlocks (used : ℕ) : used ≤ 4096 * dataBlocks used :=
  (ceilDiv_le_iff_le_mul (by decide)).mp le_rfl

theorem length_padded (squashfs : Bytes) :
    (padded squashfs).length = 4096 * dataBlocks squashfs.length := by
  rw [padded, List.length_rightpad, max_eq_left (le_dataBlocks _)]

theorem length_flatten_of_forall {k : ℕ} {blocks : List Bytes} (h : ∀ b ∈ blocks, b.length = k) :
    blocks.flatten.length = k * blocks.length := by
  rw [List.length_flatten, List.map_congr_left h, List.map_const', List.sum_replicate,
    smul_eq_mul, mul_comm]

/-- Every block of the tree is one of 4 KiB. -/
theorem length_of_mem_tree (v : Verity) {b : Bytes} (hb : b ∈ (v.tree squashfs).flatten) :
    b.length = 4096 := by
  obtain ⟨g, hg, rfl⟩ := v.hashing.parent_of_mem_levels hb
  have hdigests : (g.flatMap v.digest).length = 32 * g.length := by
    have hmap : g.map (fun b => (v.digest b).length) = g.map fun _ => 32 :=
      List.map_congr_left fun b _ => v.length_digest b
    rw [List.length_flatMap, hmap, List.map_const', List.sum_replicate, smul_eq_mul, mul_comm]
  have hg : g.length ≤ 128 := hg
  show ((g.flatMap v.digest).rightpad 4096 0).length = 4096
  rw [List.length_rightpad, hdigests, max_eq_left (by omega)]

theorem length_tree (v : Verity) (squashfs : Bytes) :
    (v.tree squashfs).flatten.length = hashBlocks squashfs.length := by
  have hblocks : (groups 4096 (padded squashfs)).length = dataBlocks squashfs.length := by
    rw [length_groups (by decide), length_padded]
    exact smul_ceilDiv (by decide) _
  rw [Verity.tree, Hashing.length_flatten_levels, hblocks]
  rfl

/-- The length of the whole image. -/
theorem length_image (v : Verity) (squashfs : Bytes) :
    (padded squashfs ++ v.treeBytes squashfs).length = imageBytes squashfs.length := by
  have hreverse : (v.tree squashfs).reverse.flatten.length = hashBlocks squashfs.length := by
    rw [(List.reverse_perm _).flatten.length_eq, length_tree]
  have hwide : ∀ b ∈ (v.tree squashfs).reverse.flatten, b.length = 4096 := fun b hb =>
    length_of_mem_tree v ((List.reverse_perm _).flatten.mem_iff.mp hb)
  rw [List.length_append, length_padded, Verity.treeBytes, length_flatten_of_forall hwide, hreverse,
    imageBytes, Nat.mul_add]

/-! ### What the shell computes -/

theorem treeBlocks_eq_count (n : ℕ) : treeBlocks n = count 128 n := by
  induction n using Nat.strong_induction_on with
  | _ n ih =>
      by_cases hn : 1 < n
      · rw [treeBlocks_of_one_lt hn, count_of_one_lt (by decide) hn, ih _ (by omega)]
        rfl
      · rw [treeBlocks_of_le_one (by omega), count_of_le_one (by omega)]

/-- **The length**, whenever the shell's integers hold it. -/
theorem storeImageBytes_eq (h : Superblock slot used) (hfits : imageBytes used < 2 ^ 63) :
    storeImageBytes slot = some (imageBytes used : ℤ) := by
  have hused := le_dataBlocks used
  have himage : imageBytes used = 4096 * (dataBlocks used + hashBlocks used) := rfl
  have hdata : (wrap (wrap used + 4095)).tdiv 4096 = (dataBlocks used : ℤ) := by
    rw [wrap_of_lt (show -2 ^ 63 ≤ (used : ℤ) by omega) (by omega),
      wrap_of_lt (by omega) (by omega), Int.tdiv_eq_ediv_of_nonneg (by omega)]
    rfl
  rw [storeImageBytes, if_pos h.magic, h.used]
  simp only [hdata, Int.toNat_natCast, treeBlocks_eq_count]
  have hwrap : wrap (((dataBlocks used : ℤ) + count 128 (dataBlocks used)) * 4096) =
      (imageBytes used : ℤ) := by
    have hcast : ((dataBlocks used : ℤ) + count 128 (dataBlocks used)) * 4096 =
        (imageBytes used : ℤ) := by
      rw [himage, hashBlocks]
      push_cast
      ring
    rw [hcast, wrap_of_lt (by omega) (by omega)]
  rw [hwrap]

/-- Where they do not, no result of the shell is that length. -/
theorem storeImageBytes_eq_iff (h : Superblock slot used) :
    storeImageBytes slot = some (imageBytes used : ℤ) ↔ imageBytes used < 2 ^ 63 := by
  constructor
  · intro heq
    rw [storeImageBytes, if_pos h.magic] at heq
    have hlt := (wrap_mem _).2.trans_eq' (Option.some.inj heq)
    exact_mod_cast hlt
  · exact storeImageBytes_eq h

theorem imageBytes_mono : Monotone imageBytes := by
  intro m n h
  have hdata : dataBlocks m ≤ dataBlocks n := ceilDiv_mono (by decide) h
  have htree : hashBlocks m ≤ hashBlocks n := count_mono (by decide) hdata
  exact Nat.mul_le_mul_left 4096 (Nat.add_le_add hdata htree)

/-- **The length covers data and tree.** For every squashfs whose image has fewer than 2^63 bytes
the function ends with 4096 bytes for each block of the data and of the tree: a tree over that many
blocks has so many hash blocks, with a single one on top, and none over a single block.  A longer
squashfs never has a shorter image, and a copy of that many bytes from a slot with the image is the
padded squashfs and its whole tree. -/
theorem storeImageBytes_covers (v : Verity) {slot : Bytes} {used : ℕ} (h : Superblock slot used)
    (hused : 1 ≤ used) (hfits : imageBytes used < 2 ^ 63) :
    (∃ fuel, runStoreImageBytes fuel slot = some (storeImageBytes slot)) ∧
    storeImageBytes slot = some ((4096 * (dataBlocks used + hashBlocks used) : ℕ) : ℤ) ∧
    (∀ blocks : List Bytes, blocks.length = dataBlocks used →
      (v.hashing.levels blocks).flatten.length = hashBlocks used ∧
      (∀ hne, ((v.hashing.levels blocks).getLast hne).length = 1) ∧
      (v.hashing.levels blocks = [] ↔ dataBlocks used = 1)) ∧
    (∀ slot' used', Superblock slot' used' → used ≤ used' → imageBytes used' < 2 ^ 63 →
      ∃ bytes bytes', storeImageBytes slot = some bytes ∧ storeImageBytes slot' = some bytes' ∧
        bytes ≤ bytes') ∧
    (∀ squashfs rest, squashfs.length = used →
      slot = padded squashfs ++ v.treeBytes squashfs ++ rest →
      ∃ bytes, storeImageBytes slot = some bytes ∧
        dd slot bytes = padded squashfs ++ v.treeBytes squashfs) := by
  have hdata : 1 ≤ dataBlocks used := by
    have := le_dataBlocks used
    omega
  refine ⟨runStoreImageBytes_eq slot, storeImageBytes_eq h hfits, ?_, ?_, ?_⟩
  · intro blocks hblocks
    refine ⟨?_, v.hashing.length_getLast_levels blocks, ?_⟩
    · rw [Hashing.length_flatten_levels, hblocks]
      rfl
    · rw [v.hashing.levels_eq_nil_iff, hblocks]
      omega
  · intro slot' used' h' hle hfits'
    refine ⟨_, _, storeImageBytes_eq h hfits, storeImageBytes_eq h' hfits', ?_⟩
    exact_mod_cast imageBytes_mono hle
  · intro squashfs rest hlength hslot
    refine ⟨_, storeImageBytes_eq h hfits, ?_⟩
    rw [dd, Int.toNat_natCast, ← hlength, ← length_image v, hslot, List.take_left]

/-- 129 data blocks, so that the tree has two levels. -/
def twoLevels : Bytes :=
  [0x68, 0x73, 0x71, 0x73] ++ List.replicate 36 0 ++ [0, 0x10, 0x08, 0, 0, 0, 0, 0]

theorem storeImageBytes_covers_two_levels : storeImageBytes twoLevels = some 540672 ∧
    ∃ fuel, runStoreImageBytes fuel twoLevels = some (some 540672) := by
  have hcount : count 128 129 = 3 := by
    rw [count_of_one_lt (by decide) (by decide), show 129 ⌈/⌉ 128 = 2 from rfl,
      count_of_one_lt (by decide) (by decide), show 2 ⌈/⌉ 128 = 1 from rfl,
      count_of_le_one (by decide)]
  have himage : 4096 * (dataBlocks 528384 + hashBlocks 528384) = 540672 := by
    rw [hashBlocks, show dataBlocks 528384 = 129 from rfl, hcount]
  obtain ⟨hends, hlength, -⟩ := storeImageBytes_covers
    ⟨fun _ => List.replicate 32 0, fun _ => List.length_replicate⟩
    (⟨by decide, by decide, by decide⟩ : Superblock twoLevels 528384) (by decide)
    (himage.trans_lt (by decide))
  rw [himage] at hlength
  rw [hlength] at hends
  exact ⟨hlength, hends⟩

/-- A squashfs of 2^63 - 1 bytes. -/
def longest : Bytes :=
  [0x68, 0x73, 0x71, 0x73] ++ List.replicate 36 0 ++ List.replicate 7 0xff ++ [0x7f]

/-- Its length is added to in 64 bits. -/
theorem longest_overflows : Superblock longest (2 ^ 63 - 1) ∧
    storeImageBytes longest = some (-2 ^ 63 + 4096) ∧
    storeImageBytes longest ≠
      some ((4096 * (dataBlocks (2 ^ 63 - 1) + hashBlocks (2 ^ 63 - 1)) : ℕ) : ℤ) := by
  have hblock : Superblock longest (2 ^ 63 - 1) := ⟨by decide, by decide, by decide⟩
  have hvalue : storeImageBytes longest = some (-2 ^ 63 + 4096) := by
    have hdata : (wrap (wrap ((2 ^ 63 - 1 : ℕ) : ℤ) + 4095)).tdiv 4096 = -(2 ^ 51 - 1) := by decide
    rw [storeImageBytes, if_pos hblock.magic, hblock.used]
    simp only [hdata]
    rw [show (-(2 ^ 51 - 1) : ℤ).toNat = 0 from rfl, treeBlocks_of_le_one (by decide)]
    rfl
  refine ⟨hblock, hvalue, ?_⟩
  rw [hvalue]
  intro heq
  have hneg := Option.some.inj heq
  omega

end BadgeOS.EmmcInit
