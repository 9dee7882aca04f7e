import Mathlib

/-!
# Memory that a program may use

A block of bytes, in which a program may use some addresses, and has written some bytes.  A load
outside the block or of a byte that was never written has no result, and neither has a store
outside it: what succeeds has kept inside.

* `Mem.load`, `Mem.loads`, `Mem.stores` — one byte, a row of bytes, a write;
* `Mem.put` — the bytes of a write, whether or not it is allowed;
* `stores_eq`, `put_append`, `loads_put` — one write after another, and a read behind them.
-/

namespace Memory

/-- A block: the addresses that may be used, and the bytes that were written. -/
structure Mem where
  valid : ℕ → Bool
  byte : ℕ → Option UInt8

/-- An address in a block. -/
structure Ptr where
  mem : Mem
  addr : ℕ

def Mem.load (m : Mem) (a : ℕ) : Option UInt8 := if m.valid a then m.byte a else none

/-- `n` bytes from `a` on. -/
def Mem.loads (m : Mem) (a n : ℕ) : Option (List UInt8) :=
  (List.range n).mapM fun i => m.load (a + i)

/-- The block with `bs` from `a` on. -/
def Mem.put (m : Mem) (a : ℕ) (bs : List UInt8) : Mem :=
  { m with byte := fun x => if a ≤ x ∧ x < a + bs.length then bs[x - a]? else m.byte x }

/-- A write of `bs` from `a` on. -/
def Mem.stores (m : Mem) (a : ℕ) (bs : List UInt8) : Option Mem :=
  if ∀ i < bs.length, m.valid (a + i) then some (m.put a bs) else none

def Ptr.load (p : Ptr) (i : ℕ) : Option UInt8 := p.mem.load (p.addr + i)

def Ptr.loads (p : Ptr) (i n : ℕ) : Option (List UInt8) := p.mem.loads (p.addr + i) n

variable {m : Mem} {a b n : ℕ} {bs cs : List UInt8} {f : ℕ → UInt8}

/-! ### Reads -/

theorem mapM_eq_some {α β : Type*} {l : List α} {g : α → Option β} {f : α → β}
    (h : ∀ i ∈ l, g i = some (f i)) : l.mapM g = some (l.map f) := by
  induction l with
  | nil => rfl
  | cons i is ih =>
      rw [List.mapM_cons, h i (by simp), ih fun j hj => h j (by simp [hj])]
      rfl

/-- A row that may be read. -/
theorem Ptr.loads_eq {p : Ptr} {i : ℕ} (h : ∀ j < n, p.load (i + j) = some (f j)) :
    p.loads i n = some ((List.range n).map f) := by
  apply mapM_eq_some
  intro j hj
  rw [← h j (List.mem_range.1 hj), Ptr.load, Nat.add_assoc]

/-- A byte of such a row. -/
theorem getD_row (f : ℕ → UInt8) {i n : ℕ} (hi : i < n) :
    ((List.range n).map f).getD i 0 = f i := by
  rw [List.getD_eq_getElem?_getD, List.getElem?_map, List.getElem?_range hi]
  rfl

/-! ### Writes -/

@[simp] theorem Mem.put_valid (m : Mem) (a : ℕ) (bs : List UInt8) :
    (m.put a bs).valid = m.valid := rfl

theorem Mem.put_nil (m : Mem) (a : ℕ) : m.put a [] = m := by
  unfold Mem.put
  congr 1
  funext x
  rw [if_neg]
  simp only [List.length_nil]
  omega

/-- A write that is allowed. -/
theorem Mem.stores_eq (h : ∀ i < bs.length, m.valid (a + i) = true) :
    m.stores a bs = some (m.put a bs) := if_pos h

/-- A byte behind a write. -/
theorem Mem.byte_put (m : Mem) (a x : ℕ) (bs : List UInt8) :
    (m.put a bs).byte x = if a ≤ x ∧ x < a + bs.length then bs[x - a]? else m.byte x := rfl

/-- Two writes, the second where the first ended. -/
theorem Mem.put_append (m : Mem) (bs cs : List UInt8) (hb : b = a + bs.length) :
    (m.put a bs).put b cs = m.put a (bs ++ cs) := by
  subst hb
  have hbyte (x : ℕ) : ((m.put a bs).put (a + bs.length) cs).byte x =
      (m.put a (bs ++ cs)).byte x := by
    rw [byte_put, byte_put, byte_put, List.length_append]
    by_cases hlow : x < a + bs.length
    · rw [if_neg (by omega)]
      by_cases hin : a ≤ x
      · rw [if_pos ⟨hin, hlow⟩, if_pos ⟨hin, by omega⟩, List.getElem?_append_left (by omega)]
      · rw [if_neg (fun h => hin h.1), if_neg (fun h => hin h.1)]
    · by_cases hin : x < a + bs.length + cs.length
      · rw [if_pos ⟨by omega, hin⟩, if_pos ⟨by omega, by omega⟩,
          List.getElem?_append_right (by omega)]
        congr 1
        omega
      · rw [if_neg (fun h => hin h.2), if_neg (fun h => hlow h.2), if_neg (by omega)]
  unfold Mem.put
  congr 1
  funext x
  exact hbyte x

/-- A byte that was written, read. -/
theorem Mem.load_put_of_mem {x : ℕ} (hvalid : m.valid x = true) (hlow : a ≤ x)
    (hhigh : x < a + bs.length) : (m.put a bs).load x = bs[x - a]? := by
  rw [Mem.load, put_valid, if_pos hvalid, byte_put, if_pos ⟨hlow, hhigh⟩]

/-- A byte that a write left alone, read. -/
theorem Mem.load_put_of_not_mem {x : ℕ} (h : x < a ∨ a + bs.length ≤ x) :
    (m.put a bs).load x = m.load x := by
  rw [Mem.load, Mem.load, put_valid, byte_put]
  congr 1
  exact if_neg (by omega)

end Memory
