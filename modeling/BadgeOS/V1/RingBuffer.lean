import BadgeOS.Lib.Ring
import BadgeOS.Lib.Transition
import BadgeOS.V1.Mesh
import Mathlib

/-!
# The ring buffer as a queue

`RingBuffer.zig` tells a full buffer from an empty one by indices that count modulo twice the
capacity.  `mesh.zig` overwrites old packets on purpose; the rest of the interface is that of a
queue of bounded length, which is written at its end and read at either end.

* `write`, `writeSlice`, `read`, `readFirst`, `readLast` — the functions;
* `Queue.step` — what they are for;
* `Holds` — a ring that holds a queue;
* `Wraps` — a `readLast` behind which the write index is reduced modulo the capacity alone;
* `ring_is_queue` — over every run.
-/

namespace BadgeOS.Mesh

open Transition

/-! ### The functions -/

/-- `RingBuffer.Error` -/
inductive RingError
  | full
  | readLengthInvalid
  deriving DecidableEq, Repr

/-- What a call gives its caller; of a read, the whole destination. -/
inductive Answer
  | done
  | failed (e : RingError)
  | byte (b : Option UInt8)
  | filled (dest : Bytes)
  deriving DecidableEq, Repr

namespace RingBuffer

variable (self : RingBuffer)

def isEmpty : Bool := self.writeIndex == self.readIndex

def isFull : Bool := self.mask2 (self.writeIndex + self.data.length) == self.readIndex

def writeAssumeCapacity (byte : UInt8) : Except Fault RingBuffer :=
  if self.mask self.writeIndex < self.data.length then
    .ok { self with data := self.data.set (self.mask self.writeIndex) byte
                    writeIndex := self.mask2 (self.writeIndex + 1) }
  else .error .outOfBounds

def write (byte : UInt8) : Except Fault (Answer × RingBuffer) :=
  if self.isFull then .ok (.failed .full, self)
  else (self.writeAssumeCapacity byte).map fun r => (.done, r)

def writeSlice (bytes : Bytes) : Except Fault (Answer × RingBuffer) :=
  if self.data.length < self.len + bytes.length then .ok (.failed .full, self)
  else (self.writeSliceAssumeCapacity bytes).map fun r => (.done, r)

def readAssumeLength : Except Fault (UInt8 × RingBuffer) :=
  if self.isEmpty then .error .assertion
  else
    match self.data[self.mask self.readIndex]? with
    | none => .error .outOfBounds
    | some byte => .ok (byte, { self with readIndex := self.mask2 (self.readIndex + 1) })

def read : Except Fault (Answer × RingBuffer) :=
  if self.isEmpty then .ok (.byte none, self)
  else self.readAssumeLength.map fun r => (.byte (some r.1), r.2)

/-- `sliceAt`, with the two parts of a `Slice`. -/
def sliceAt (startUnmasked length : ℕ) : Except Fault (Bytes × Bytes) := do
  if self.data.length < length then throw .assertion
  let slice1Start := self.mask startUnmasked
  let slice1End := min self.data.length (slice1Start + length)
  let slice1 ← slice self.data slice1Start slice1End
  let slice2 ← slice self.data 0 (length - slice1.length)
  pure (slice1, slice2)

def sliceLast (length : ℕ) : Except Fault (Bytes × Bytes) :=
  self.sliceAt (self.writeIndex + self.data.length - length) length

/-- `Slice.copyTo` -/
def copyTo (s : Bytes × Bytes) (dest : Bytes) : Except Fault Bytes := do
  let dest ← memcpy dest 0 s.1.length s.1
  memcpy dest s.1.length (s.1.length + s.2.length) s.2

def readFirstAssumeLength (dest : Bytes) (length : ℕ) : Except Fault (Bytes × RingBuffer) := do
  if self.len < length ∨ dest.length < length then throw .assertion
  let s ← self.sliceAt self.readIndex length
  let dest ← copyTo s dest
  pure (dest, { self with readIndex := self.mask2 (self.readIndex + length) })

def readFirst (dest : Bytes) (length : ℕ) : Except Fault (Answer × RingBuffer) :=
  if self.len < length ∨ dest.length < length then .ok (.failed .readLengthInvalid, self)
  else (self.readFirstAssumeLength dest length).map fun r => (.filled r.1, r.2)

def readLastAssumeLength (dest : Bytes) (length : ℕ) : Except Fault (Bytes × RingBuffer) := do
  if self.len < length ∨ dest.length < length then throw .assertion
  let s ← self.sliceLast length
  let dest ← copyTo s dest
  pure (dest, { self with
    writeIndex :=
      if self.data.length ≤ self.writeIndex then self.writeIndex - length
      else self.mask (self.writeIndex + self.data.length - length) })

def readLast (dest : Bytes) (length : ℕ) : Except Fault (Answer × RingBuffer) :=
  if self.len < length ∨ dest.length < length then .ok (.failed .readLengthInvalid, self)
  else (self.readLastAssumeLength dest length).map fun r => (.filled r.1, r.2)

end RingBuffer

/-- A call. -/
inductive Op
  | write (byte : UInt8)
  | writeSlice (bytes : Bytes)
  | read
  | readFirst (dest : Bytes) (length : ℕ)
  | readLast (dest : Bytes) (length : ℕ)
  deriving DecidableEq, Repr

def RingBuffer.call (self : RingBuffer) : Op → Except Fault (Answer × RingBuffer)
  | .write byte => self.write byte
  | .writeSlice bytes => self.writeSlice bytes
  | .read => self.read
  | .readFirst dest length => self.readFirst dest length
  | .readLast dest length => self.readLast dest length

/-- The ring after a call that does not fault. -/
def RingBuffer.next (self : RingBuffer) (op : Op) : Option RingBuffer :=
  match self.call op with
  | .error _ => none
  | .ok r => some r.2

/-- `init` -/
def RingBuffer.init (capacity : ℕ) : RingBuffer :=
  { data := List.replicate capacity 0, readIndex := 0, writeIndex := 0 }

/-! ### What they are for -/

/-- A queue of at most `capacity` bytes. -/
def Queue.step (capacity : ℕ) (q : Bytes) : Op → Answer × Bytes
  | .write byte => if q.length < capacity then (.done, q ++ [byte]) else (.failed .full, q)
  | .writeSlice bytes =>
      if q.length + bytes.length ≤ capacity then (.done, q ++ bytes) else (.failed .full, q)
  | .read => (.byte q.head?, q.tail)
  | .readFirst dest length =>
      if q.length < length ∨ dest.length < length then (.failed .readLengthInvalid, q)
      else (.filled (q.take length ++ dest.drop length), q.drop length)
  | .readLast dest length =>
      if q.length < length ∨ dest.length < length then (.failed .readLengthInvalid, q)
      else (.filled (q.drop (q.length - length) ++ dest.drop length), q.take (q.length - length))

/-- The queue after calls. -/
def Queue.after (capacity : ℕ) (ops : List Op) : Bytes :=
  ops.foldl (fun q op => (Queue.step capacity q op).2) []

/-- The last bytes are read from both sides of the point where the write index starts again. -/
def RingBuffer.Wraps (self : RingBuffer) : Op → Prop
  | .readLast dest length => self.writeIndex < length ∧ length ≤ self.len ∧ length ≤ dest.length
  | _ => False

instance (self : RingBuffer) : (op : Op) → Decidable (self.Wraps op)
  | .write _ => inferInstanceAs (Decidable False)
  | .writeSlice _ => inferInstanceAs (Decidable False)
  | .read => inferInstanceAs (Decidable False)
  | .readFirst _ _ => inferInstanceAs (Decidable False)
  | .readLast _ _ => inferInstanceAs (Decidable (_ ∧ _ ∧ _))

/-- **A ring that holds a queue.** -/
structure RingBuffer.Holds (r : RingBuffer) (q : Bytes) : Prop where
  capacity : 0 < r.data.length
  read_lt : r.readIndex < 2 * r.data.length
  length_le : q.length ≤ r.data.length
  write : r.writeIndex = (r.readIndex + q.length) % (2 * r.data.length)
  bytes : (r.data.rotate r.readIndex).take q.length = q

variable {self : RingBuffer} {q : Bytes}

namespace RingBuffer

/-! ### The two indices -/

/-- The length, from the indices. -/
theorem len_eq_of {n : ℕ} (hread : self.readIndex < 2 * self.data.length)
    (hn : n < 2 * self.data.length)
    (hwrite : self.writeIndex = (self.readIndex + n) % (2 * self.data.length)) :
    self.len = n := by
  unfold len
  dsimp only
  rcases Ring.mod_cases (show self.readIndex + n < 2 * (2 * self.data.length) by omega) with
    ⟨hmod, -⟩ | ⟨hmod, hle⟩
  · have hafter : ¬ self.writeIndex < self.readIndex := by omega
    rw [decide_eq_false hafter, Bool.toNat_false]
    omega
  · have hbefore : self.writeIndex < self.readIndex := by omega
    rw [decide_eq_true hbefore, Bool.toNat_true]
    omega

theorem Holds.len_eq (h : self.Holds q) : self.len = q.length := by
  have := h.capacity
  have := h.length_le
  exact len_eq_of h.read_lt (by omega) h.write

/-- The write index stands the queue's length behind the read index, or a round before that. -/
theorem Holds.index_cases (h : self.Holds q) :
    (self.writeIndex = self.readIndex + q.length ∧
      self.readIndex + q.length < 2 * self.data.length) ∨
    self.writeIndex + 2 * self.data.length = self.readIndex + q.length := by
  have := h.length_le
  have := h.read_lt
  have hwrite := h.write
  rcases Ring.mod_cases (show self.readIndex + q.length < 2 * (2 * self.data.length) by omega) with
    ⟨hmod, hlt⟩ | ⟨hmod, hle⟩
  · exact .inl ⟨hwrite.trans hmod, hlt⟩
  · exact .inr (by omega)

theorem Holds.isEmpty_iff (h : self.Holds q) : self.isEmpty = true ↔ q = [] := by
  have := h.capacity
  have := h.length_le
  have := h.read_lt
  rw [isEmpty, beq_iff_eq, ← List.length_eq_zero_iff]
  rcases h.index_cases with ⟨hw, -⟩ | hw
  · omega
  · omega

theorem Holds.isFull_iff (h : self.Holds q) :
    self.isFull = true ↔ q.length = self.data.length := by
  have := h.capacity
  have := h.length_le
  have := h.read_lt
  rw [isFull, beq_iff_eq, mask2]
  rcases h.index_cases with ⟨hw, hlt⟩ | hw
  · rcases Ring.mod_cases (show self.writeIndex + self.data.length < 2 * (2 * self.data.length)
      by omega) with ⟨hmod', hlt'⟩ | ⟨hmod', hle'⟩
    · omega
    · omega
  · have hsmall : self.writeIndex + self.data.length < 2 * self.data.length := by omega
    rw [Nat.mod_eq_of_lt hsmall]
    omega

/-! ### Writes -/

/-- A write puts its bytes behind the write index. -/
structure Writes (r r' : RingBuffer) (bytes : Bytes) : Prop where
  length : r'.data.length = r.data.length
  read : r'.readIndex = r.readIndex
  write : r'.writeIndex = r.mask2 (r.writeIndex + bytes.length)
  bytes : r'.data.rotate r.writeIndex =
    bytes ++ (r.data.rotate r.writeIndex).drop bytes.length

theorem writeAssumeCapacity_ok (hpos : 0 < self.data.length) (byte : UInt8) :
    ∃ r, self.writeAssumeCapacity byte = .ok r ∧ Writes self r [byte] := by
  refine ⟨_, if_pos (Nat.mod_lt _ hpos), List.length_set, rfl, rfl, ?_⟩
  exact Ring.rotate_set (List.length_pos_iff.mp hpos) byte

theorem writeSliceAssumeCapacity_ok {bytes : Bytes} (hpos : 0 < self.data.length)
    (h : bytes.length ≤ self.data.length) :
    ∃ r, self.writeSliceAssumeCapacity bytes = .ok r ∧ Writes self r bytes := by
  by_cases hfit : self.mask self.writeIndex + bytes.length ≤ self.data.length
  · refine ⟨_, writeSlice_ok hfit, ?_, rfl, rfl, Ring.rotate_splice hfit⟩
    rw [List.length_append, List.length_append, List.length_take, List.length_drop]
    omega
  · have hlong : ¬ self.data.length < bytes.length := by omega
    have hlt : self.mask self.writeIndex < self.data.length := Nat.mod_lt _ hpos
    set k := self.data.length - self.mask self.writeIndex with hk
    have hend : min (self.mask self.writeIndex + bytes.length) self.data.length =
        self.data.length := by omega
    have hwrite2 : min (bytes.length - k)
        ((bytes.length - k) % self.data.length + self.data.length) = bytes.length - k := by omega
    have hstart2 : bytes.length - (bytes.length - k) = k := by omega
    have hend2 : min (k + self.data.length) bytes.length = bytes.length := by omega
    -- the part up to the end, and the one from the start
    have hcopy : memcpy self.data (self.mask self.writeIndex) self.data.length (bytes.take k) =
        .ok (self.data.take (self.mask self.writeIndex) ++ bytes.take k) := by
      rw [memcpy_ok le_rfl (by rw [List.length_take]; omega), List.drop_length, List.append_nil]
    have hcopy2 : memcpy (self.data.take (self.mask self.writeIndex) ++ bytes.take k) 0
        (bytes.length - k) (bytes.drop k) =
        .ok (bytes.drop k ++
          (self.data.take (self.mask self.writeIndex)).drop (bytes.length - k) ++
          bytes.take k) := by
      rw [memcpy_ok (by rw [List.length_append, List.length_take, List.length_take]; omega)
        (by rw [List.length_drop]; omega), List.take_zero, List.nil_append,
        List.drop_append_of_le_length (by rw [List.length_take]; omega), List.append_assoc]
    refine ⟨{ self with
        data := bytes.drop k ++
          (self.data.take (self.mask self.writeIndex)).drop (bytes.length - k) ++ bytes.take k
        writeIndex := self.mask2 (self.writeIndex + bytes.length) }, ?_, ?_, rfl, rfl,
      Ring.rotate_wrapped hpos h (not_le.mp hfit)⟩
    · simp only [writeSliceAssumeCapacity, hlong, hend, ← hk, hwrite2, hstart2, hend2, if_false,
        slice_ok (Nat.zero_le _) (show k ≤ bytes.length by omega),
        slice_ok (show k ≤ bytes.length by omega) le_rfl, ne_eq, not_true, List.take_length,
        List.drop_zero, bind, Except.bind, hcopy, hcopy2]
      rfl
    · rw [List.length_append, List.length_append, List.length_drop, List.length_drop,
        List.length_take, List.length_take]
      omega

theorem Holds.writes {r : RingBuffer} {bytes : Bytes} (h : self.Holds q)
    (hroom : q.length + bytes.length ≤ self.data.length) (hw : Writes self r bytes) :
    r.Holds (q ++ bytes) := by
  have hbehind (data : Bytes) (hlen : data.length = self.data.length) :
      data.rotate self.writeIndex = data.rotate (self.readIndex + q.length) := by
    rw [h.write, ← hlen, Ring.rotate_mod_double]
  have hbytes := hw.bytes
  rw [hbehind _ hw.length, hbehind _ rfl] at hbytes
  refine ⟨hw.length ▸ h.capacity, ?_, ?_, ?_, ?_⟩
  · rw [hw.length, hw.read]
    exact h.read_lt
  · rw [hw.length, List.length_append]
    exact hroom
  · rw [hw.write, hw.read, hw.length, mask2, h.write, Nat.mod_add_mod, List.length_append,
      Nat.add_assoc]
  · rw [hw.read, List.length_append, Ring.take_rotate_append hw.length hroom hbytes, h.bytes]

/-! ### Reads -/

theorem sliceAt_ok {start length : ℕ} (hpos : 0 < self.data.length)
    (h : length ≤ self.data.length) : ∃ s, self.sliceAt start length = .ok s ∧
      s.1 ++ s.2 = (self.data.rotate start).take length := by
  have hlt : self.mask start < self.data.length := Nat.mod_lt _ hpos
  have hlong : ¬ self.data.length < length := by omega
  have hfirst : slice self.data (self.mask start)
      (min self.data.length (self.mask start + length)) =
      .ok ((self.data.drop (self.mask start)).take length) := by
    rw [slice_ok (by omega) (min_le_left _ _), List.drop_take]
    refine congrArg Except.ok ?_
    rw [List.take_eq_take_iff, List.length_drop]
    omega
  have hsecond : slice self.data 0
      (length - ((self.data.drop (self.mask start)).take length).length) =
      .ok (self.data.take (length - (self.data.length - self.mask start))) := by
    rw [slice_ok (Nat.zero_le _) (by omega), List.drop_zero, List.length_take, List.length_drop]
    refine congrArg Except.ok ?_
    rw [List.take_eq_take_iff]
    omega
  refine ⟨⟨_, _⟩, ?_, (Ring.take_rotate h).symm⟩
  simp only [sliceAt, hlong, if_false, bind, Except.bind, hfirst, hsecond]
  rfl

theorem copyTo_ok {s : Bytes × Bytes} {dest : Bytes} (h : (s.1 ++ s.2).length ≤ dest.length) :
    copyTo s dest = .ok (s.1 ++ s.2 ++ dest.drop (s.1 ++ s.2).length) := by
  rw [List.length_append] at h ⊢
  have hfirst : memcpy dest 0 s.1.length s.1 = .ok (s.1 ++ dest.drop s.1.length) := by
    rw [memcpy_ok (by omega) (Nat.zero_add _).symm, List.take_zero, List.nil_append]
  have hsecond : memcpy (s.1 ++ dest.drop s.1.length) s.1.length (s.1.length + s.2.length) s.2 =
      .ok (s.1 ++ s.2 ++ dest.drop (s.1.length + s.2.length)) := by
    rw [memcpy_ok (by rw [List.length_append, List.length_drop]; omega) rfl, List.take_left' rfl,
      ← List.drop_drop, List.drop_left' rfl, List.drop_drop]
  simp only [copyTo, bind, Except.bind, hfirst, hsecond]

/-- Bytes of the ring, read into a destination. -/
theorem copied {start length : ℕ} {dest part : Bytes} (hpos : 0 < self.data.length)
    (hpart : (self.data.rotate start).take length = part) (hlen : part.length = length)
    (hlength : length ≤ self.data.length) (hdest : length ≤ dest.length) :
    ∃ s, self.sliceAt start length = .ok s ∧ copyTo s dest = .ok (part ++ dest.drop length) := by
  obtain ⟨s, hs, hbytes⟩ := @sliceAt_ok self start length hpos hlength
  rw [hpart] at hbytes
  refine ⟨s, hs, ?_⟩
  rw [copyTo_ok (by rw [hbytes, hlen]; exact hdest), hbytes, hlen]

/-- The first bytes are gone. -/
theorem Holds.drop (h : self.Holds q) {length : ℕ} (hlength : length ≤ q.length) :
    ({ self with readIndex := self.mask2 (self.readIndex + length) } : RingBuffer).Holds
      (q.drop length) := by
  refine ⟨h.capacity, Nat.mod_lt _ (Nat.mul_pos two_pos h.capacity), ?_, ?_, ?_⟩
  · rw [List.length_drop]
    exact (Nat.sub_le _ _).trans h.length_le
  · have hsum : self.readIndex + length + (q.length - length) = self.readIndex + q.length := by
      omega
    show self.writeIndex = (self.mask2 (self.readIndex + length) + (q.drop length).length) % _
    rw [h.write, List.length_drop, mask2, Nat.mod_add_mod, hsum]
  · show (self.data.rotate (self.mask2 (self.readIndex + length))).take (q.drop length).length = _
    rw [mask2, Ring.rotate_mod_double, List.length_drop,
      ← Ring.drop_take_rotate h.length_le hlength, h.bytes]

/-- The last bytes are gone, once the write index stands before them. -/
theorem Holds.take (h : self.Holds q) {length w : ℕ}
    (hw : w = (self.readIndex + (q.length - length)) % (2 * self.data.length)) :
    ({ self with writeIndex := w } : RingBuffer).Holds (q.take (q.length - length)) := by
  have hlen : (q.take (q.length - length)).length = q.length - length :=
    List.length_take_of_le (Nat.sub_le _ _)
  refine ⟨h.capacity, h.read_lt, ?_, ?_, ?_⟩
  · rw [hlen]
    exact (Nat.sub_le _ _).trans h.length_le
  · rw [hlen]
    exact hw
  · have htake := congrArg (List.take (q.length - length)) h.bytes
    rw [List.take_take, Nat.min_eq_left (Nat.sub_le _ _)] at htake
    rw [hlen]
    exact htake

/-- **Where `readLast` leaves the write index**: a whole capacity too far when the bytes it reads
go round. -/
theorem Holds.writeIndex_readLast (h : self.Holds q) {length : ℕ} (hlength : length ≤ q.length) :
    (if self.data.length ≤ self.writeIndex then self.writeIndex - length
      else self.mask (self.writeIndex + self.data.length - length)) =
    (self.readIndex + (q.length - length + if self.writeIndex < length then self.data.length
      else 0)) % (2 * self.data.length) := by
  have := h.capacity
  have := h.length_le
  have := h.read_lt
  -- what is behind the capacity comes back by it
  have hback (hlast : length ≤ self.writeIndex) (hsmall : self.writeIndex < self.data.length) :
      self.mask (self.writeIndex + self.data.length - length) = self.writeIndex - length := by
    rw [mask, Nat.mod_eq_sub_mod (by omega), Nat.mod_eq_of_lt (by omega)]
    omega
  rcases h.index_cases with ⟨hw, hlt⟩ | hw
  · have hlast : length ≤ self.writeIndex := by omega
    have htarget : (self.readIndex + (q.length - length)) % (2 * self.data.length) =
        self.readIndex + (q.length - length) := Nat.mod_eq_of_lt (by omega)
    rw [if_neg (not_lt.mpr hlast), Nat.add_zero, htarget]
    split_ifs with hfar
    · omega
    · rw [hback hlast (not_le.mp hfar)]
      omega
  · have hsmall : self.writeIndex < self.data.length := by omega
    rw [if_neg (not_le.mpr hsmall)]
    by_cases hlast : length ≤ self.writeIndex
    · have htarget : (self.readIndex + (q.length - length)) % (2 * self.data.length) =
          self.readIndex + (q.length - length) - 2 * self.data.length := by
        rw [Nat.mod_eq_sub_mod (by omega), Nat.mod_eq_of_lt (by omega)]
      rw [if_neg (not_lt.mpr hlast), Nat.add_zero, htarget, hback hlast hsmall]
      omega
    · -- the bytes read go round
      have htarget : (self.readIndex + (q.length - length + self.data.length)) %
          (2 * self.data.length) =
          self.readIndex + (q.length - length + self.data.length) - 2 * self.data.length := by
        rw [Nat.mod_eq_sub_mod (by omega), Nat.mod_eq_of_lt (by omega)]
      rw [if_pos (not_le.mp hlast), htarget, mask, Nat.mod_eq_of_lt (by omega)]
      omega

/-- The bytes that `readLast` reads are the last ones, round or not. -/
theorem Holds.rotate_last (h : self.Holds q) {length : ℕ} (hlength : length ≤ q.length) :
    (self.data.rotate (self.writeIndex + self.data.length - length)).take length =
      q.drop (q.length - length) := by
  have := h.length_le
  have := h.read_lt
  have hrotate : self.data.rotate (self.writeIndex + self.data.length - length) =
      self.data.rotate (self.readIndex + (q.length - length)) := by
    rw [← List.rotate_mod, ← List.rotate_mod self.data (self.readIndex + _)]
    congr 1
    rcases h.index_cases with ⟨hw, -⟩ | hw
    · have hsum : self.writeIndex + self.data.length - length =
          self.readIndex + (q.length - length) + self.data.length := by omega
      rw [hsum, Nat.add_mod_right]
    · have hsum : self.readIndex + (q.length - length) =
          self.writeIndex + self.data.length - length + self.data.length := by omega
      rw [hsum, Nat.add_mod_right]
  have hrest : q.length - (q.length - length) = length := by omega
  have hdrop := congrArg (List.drop (q.length - length)) h.bytes
  rw [Ring.drop_take_rotate h.length_le (Nat.sub_le _ _), hrest] at hdrop
  rw [hrotate]
  exact hdrop

/-! ### One call -/

/-- A call that answers as the queue does, and leaves a ring that holds what is left of it. -/
def Serves (self : RingBuffer) (q : Bytes) (op : Op) : Prop :=
  ∃ r, self.call op = .ok ((Queue.step self.data.length q op).1, r) ∧
    r.data.length = self.data.length ∧ r.Holds (Queue.step self.data.length q op).2

theorem Holds.serves_write (h : self.Holds q) (byte : UInt8) : self.Serves q (.write byte) := by
  unfold Serves
  rw [Queue.step]
  by_cases hroom : q.length < self.data.length
  · have hfull : ¬ self.isFull = true := by
      rw [h.isFull_iff]
      omega
    obtain ⟨r, hr, hw⟩ := writeAssumeCapacity_ok h.capacity byte
    rw [if_pos hroom]
    refine ⟨r, ?_, hw.length, h.writes hroom hw⟩
    show self.write byte = _
    rw [RingBuffer.write, if_neg hfull, hr]
    rfl
  · have hfull : self.isFull = true := by
      have := h.length_le
      rw [h.isFull_iff]
      omega
    rw [if_neg hroom]
    exact ⟨self, if_pos hfull, rfl, h⟩

theorem Holds.serves_writeSlice (h : self.Holds q) (bytes : Bytes) :
    self.Serves q (.writeSlice bytes) := by
  unfold Serves
  rw [Queue.step]
  by_cases hroom : q.length + bytes.length ≤ self.data.length
  · have hfits : bytes.length ≤ self.data.length := by omega
    obtain ⟨r, hr, hw⟩ := writeSliceAssumeCapacity_ok h.capacity hfits
    rw [if_pos hroom]
    refine ⟨r, ?_, hw.length, h.writes hroom hw⟩
    show self.writeSlice bytes = _
    rw [writeSlice, h.len_eq, if_neg (not_lt.mpr hroom), hr]
    rfl
  · rw [if_neg hroom]
    refine ⟨self, ?_, rfl, h⟩
    show self.writeSlice bytes = _
    rw [writeSlice, h.len_eq, if_pos (not_le.mp hroom)]

theorem Holds.serves_read (h : self.Holds q) : self.Serves q .read := by
  cases q with
  | nil =>
      have hempty : self.isEmpty = true := h.isEmpty_iff.mpr rfl
      exact ⟨self, if_pos hempty, rfl, h⟩
  | cons b q =>
      have hne : ¬ self.isEmpty = true := by
        rw [h.isEmpty_iff]
        exact List.cons_ne_nil _ _
      have hget : self.data[self.mask self.readIndex]? = some b := by
        calc self.data[self.mask self.readIndex]? = (self.data.rotate self.readIndex)[0]? := by
              rw [List.getElem?_rotate h.capacity, Nat.zero_add]
              rfl
          _ = ((self.data.rotate self.readIndex).take (b :: q).length)[0]? :=
              (List.getElem?_take_of_lt (Nat.succ_pos _)).symm
          _ = some b := by
              rw [h.bytes]
              rfl
      refine ⟨{ self with readIndex := self.mask2 (self.readIndex + 1) }, ?_, rfl,
        h.drop (show 1 ≤ (b :: q).length from Nat.succ_pos _)⟩
      show self.read = _
      rw [read, if_neg hne, readAssumeLength, if_neg hne, hget]
      rfl

theorem Holds.serves_readFirst (h : self.Holds q) (dest : Bytes) (length : ℕ) :
    self.Serves q (.readFirst dest length) := by
  unfold Serves
  rw [Queue.step]
  by_cases hbad : q.length < length ∨ dest.length < length
  · rw [if_pos hbad]
    refine ⟨self, ?_, rfl, h⟩
    show self.readFirst dest length = _
    rw [readFirst, h.len_eq, if_pos hbad]
  · have hlength : length ≤ q.length := by omega
    have hpart : (self.data.rotate self.readIndex).take length = q.take length := by
      have htake := congrArg (List.take length) h.bytes
      rwa [List.take_take, Nat.min_eq_left hlength] at htake
    obtain ⟨s, hs, hcopy⟩ := copied h.capacity hpart (List.length_take_of_le hlength)
      (hlength.trans h.length_le) (show length ≤ dest.length by omega)
    rw [if_neg hbad]
    refine ⟨{ self with readIndex := self.mask2 (self.readIndex + length) }, ?_, rfl,
      h.drop hlength⟩
    show self.readFirst dest length = _
    rw [readFirst, h.len_eq, if_neg hbad]
    simp only [readFirstAssumeLength, h.len_eq, hbad, if_false, bind, Except.bind, hs, hcopy]
    rfl

/-- `readLast` answers right wherever the write index stands. -/
theorem Holds.readLast_ok (h : self.Holds q) {dest : Bytes} {length : ℕ}
    (hlength : length ≤ q.length) (hdest : length ≤ dest.length) :
    self.readLast dest length = .ok (.filled (q.drop (q.length - length) ++ dest.drop length),
      { self with
        writeIndex := (self.readIndex + (q.length - length +
          if self.writeIndex < length then self.data.length else 0)) %
            (2 * self.data.length) }) := by
  have hgood : ¬ (q.length < length ∨ dest.length < length) := by omega
  have hpart : (q.drop (q.length - length)).length = length := by
    rw [List.length_drop]
    omega
  obtain ⟨s, hs, hcopy⟩ := copied h.capacity (h.rotate_last hlength) hpart
    (hlength.trans h.length_le) hdest
  rw [readLast, h.len_eq, if_neg hgood]
  simp only [readLastAssumeLength, sliceLast, h.len_eq, hgood, if_false, bind, Except.bind, hs,
    hcopy, h.writeIndex_readLast hlength]
  rfl

/-- **One call** on a ring that holds a queue. -/
theorem Holds.call (h : self.Holds q) (op : Op) : ∃ r,
    self.call op = .ok ((Queue.step self.data.length q op).1, r) ∧
    r.data.length = self.data.length ∧
    (¬ self.Wraps op → r.Holds (Queue.step self.data.length q op).2) ∧
    r.len = (Queue.step self.data.length q op).2.length +
      if self.Wraps op then self.data.length else 0 := by
  have hserves (hop : ¬ self.Wraps op) (hs : self.Serves q op) : ∃ r,
      self.call op = .ok ((Queue.step self.data.length q op).1, r) ∧
      r.data.length = self.data.length ∧
      (¬ self.Wraps op → r.Holds (Queue.step self.data.length q op).2) ∧
      r.len = (Queue.step self.data.length q op).2.length +
        if self.Wraps op then self.data.length else 0 := by
    obtain ⟨r, hr, hlen, hholds⟩ := hs
    exact ⟨r, hr, hlen, fun _ => hholds, by rw [if_neg hop, hholds.len_eq, Nat.add_zero]⟩
  cases op with
  | write byte => exact hserves id (h.serves_write byte)
  | writeSlice bytes => exact hserves id (h.serves_writeSlice bytes)
  | read => exact hserves id h.serves_read
  | readFirst dest length => exact hserves id (h.serves_readFirst dest length)
  | readLast dest length =>
      by_cases hbad : q.length < length ∨ dest.length < length
      · have hop : ¬ self.Wraps (.readLast dest length) := by
          rintro ⟨-, hlength, hdest⟩
          rw [h.len_eq] at hlength
          omega
        refine hserves hop ⟨self, ?_, rfl, ?_⟩
        · rw [Queue.step, if_pos hbad]
          show self.readLast dest length = _
          rw [readLast, h.len_eq, if_pos hbad]
        · rw [Queue.step, if_pos hbad]
          exact h
      · have hlength : length ≤ q.length := by omega
        have hdest : length ≤ dest.length := by omega
        have hiff : self.Wraps (.readLast dest length) ↔ self.writeIndex < length := by
          rw [Wraps, h.len_eq]
          omega
        have hleft : (q.take (q.length - length)).length = q.length - length :=
          List.length_take_of_le (Nat.sub_le _ _)
        rw [Queue.step, if_neg hbad]
        refine ⟨_, h.readLast_ok hlength hdest, rfl, fun hop => ?_, ?_⟩
        · rw [hiff] at hop
          refine h.take ?_
          rw [if_neg hop, Nat.add_zero]
        · have := h.capacity
          have := h.length_le
          have hbound : q.length - length +
              (if self.writeIndex < length then self.data.length else 0) <
                2 * self.data.length := by
            split_ifs <;> omega
          have hlen := @len_eq_of { self with
            writeIndex := (self.readIndex + (q.length - length +
              if self.writeIndex < length then self.data.length else 0)) %
                (2 * self.data.length) } _ h.read_lt hbound rfl
          rw [hlen, hleft]
          simp only [hiff]

end RingBuffer

/-! ### Every run -/

theorem Queue.after_append (capacity : ℕ) (ops : List Op) (op : Op) :
    Queue.after capacity (ops ++ [op]) =
      (Queue.step capacity (Queue.after capacity ops) op).2 := by
  rw [Queue.after, List.foldl_append]
  rfl

theorem RingBuffer.init_holds {capacity : ℕ} (hcap : 0 < capacity) :
    (RingBuffer.init capacity).Holds [] := by
  have hlen : (RingBuffer.init capacity).data.length = capacity := List.length_replicate
  refine ⟨?_, ?_, Nat.zero_le _, (Nat.zero_mod _).symm, rfl⟩
  · rw [hlen]
    exact hcap
  · rw [hlen]
    exact Nat.mul_pos two_pos hcap

/-- **The ring is a queue**, up to the first `readLast` that goes round.  Over every run without
one no call faults, each is answered as the queue answers it, and the ring holds the queue; one
that goes round is answered right too, and leaves a ring that claims a whole capacity more than the
queue has. -/
theorem ring_is_queue {capacity : ℕ} (hcap : 0 < capacity) {ops : List Op} {r : RingBuffer}
    (hrun : RunWith RingBuffer.next (fun r op => ¬ r.Wraps op) (.init capacity) ops r) (op : Op) :
    ∃ r', r.call op = .ok ((Queue.step capacity (Queue.after capacity ops) op).1, r') ∧
      (¬ r.Wraps op → r'.Holds (Queue.after capacity (ops ++ [op]))) ∧
      r'.len = (Queue.after capacity (ops ++ [op])).length +
        if r.Wraps op then capacity else 0 := by
  have hinv : r.Holds (Queue.after capacity ops) ∧ r.data.length = capacity := by
    refine hrun.traceInvariant (I := fun ops r =>
      RingBuffer.Holds r (Queue.after capacity ops) ∧ r.data.length = capacity)
      ⟨RingBuffer.init_holds hcap, List.length_replicate⟩ ?_
    rintro ops s op t ⟨hs, hlen⟩ hop hstep
    obtain ⟨t', ht', hlen', hholds, -⟩ := hs.call op
    rw [RingBuffer.next, ht'] at hstep
    obtain rfl : t' = t := Option.some.inj hstep
    rw [hlen] at hholds
    exact ⟨Queue.after_append capacity ops op ▸ hholds hop, hlen'.trans hlen⟩
  obtain ⟨hholds, hlen⟩ := hinv
  obtain ⟨r', hr', -, hnext, hlength⟩ := hholds.call op
  rw [hlen] at hr' hnext hlength
  rw [Queue.after_append]
  exact ⟨r', hr', hnext, hlength⟩

/-- Written round once, of four bytes. -/
def roundOps : List Op :=
  [.writeSlice [1, 2, 3, 4], .readFirst [0, 0, 0, 0] 4, .writeSlice [5, 6, 7, 8]]

theorem ring_is_queue_round : ∃ r r' : RingBuffer,
    RunWith RingBuffer.next (fun r op => ¬ r.Wraps op) (.init 4) roundOps r ∧
    r.call (.readLast [0] 1) = .ok (.filled [8], r') ∧ r'.len = 7 := by
  have hrun : RunWith RingBuffer.next (fun r op => ¬ r.Wraps op) (.init 4) roundOps
      ⟨[5, 6, 7, 8], 4, 0⟩ :=
    .cons (t := ⟨[1, 2, 3, 4], 0, 4⟩) (by decide) (by decide)
      (.cons (t := ⟨[1, 2, 3, 4], 4, 4⟩) (by decide) (by decide)
        (.cons (by decide) (by decide) .nil))
  obtain ⟨r', hr', -, hlen⟩ := ring_is_queue (by decide) hrun (.readLast [0] 1)
  exact ⟨_, r', hrun, hr', hlen⟩

end BadgeOS.Mesh
