import BadgeOS.Lib.Rotation
import Mathlib

/-!
# The mesh buffers of the first badge

`mesh.zig` and its `RingBuffer.zig`: packets are written one after another to a ring whose read
index stays where it is, pings to twelve entries in turn.  An index or a slice outside its array is
a fault.

* `RingBuffer.writeSliceAssumeCapacity`, `createPacket`, `findFreePing`, `actionCallback`,
  `pingMeasure` — the code;
* `At` — the two indices after so many packets and so many pings;
* `createPacket_spec`, `findFreePing_spec` — a packet takes the next of forty-nine places, a ping
  the next of twelve entries;
* `NeverOverrun`, `neverOverrun_iff` — over every run.
-/

namespace BadgeOS.Mesh

abbrev Bytes := List UInt8

/-- What a safety check stops. -/
inductive Fault
  | outOfBounds
  | assertion
  deriving DecidableEq, Repr

/-- `data[lo..hi]` -/
def slice (data : Bytes) (lo hi : ℕ) : Except Fault Bytes :=
  if lo ≤ hi ∧ hi ≤ data.length then .ok ((data.take hi).drop lo) else .error .outOfBounds

/-- `@memcpy(data[lo..hi], bytes)`, of equal lengths. -/
def memcpy (data : Bytes) (lo hi : ℕ) (bytes : Bytes) : Except Fault Bytes :=
  if lo ≤ hi ∧ hi ≤ data.length then
    if bytes.length = hi - lo then .ok (data.take lo ++ bytes ++ data.drop hi)
    else .error .assertion
  else .error .outOfBounds

/-! ### The ring buffer -/

structure RingBuffer where
  data : Bytes
  readIndex : ℕ
  writeIndex : ℕ
  deriving DecidableEq, Repr

namespace RingBuffer

def mask (self : RingBuffer) (index : ℕ) : ℕ := index % self.data.length

def mask2 (self : RingBuffer) (index : ℕ) : ℕ := index % (2 * self.data.length)

def len (self : RingBuffer) : ℕ :=
  let wrapOffset := 2 * self.data.length * (decide (self.writeIndex < self.readIndex)).toNat
  let adjustedWriteIndex := self.writeIndex + wrapOffset
  adjustedWriteIndex - self.readIndex

def writeSliceAssumeCapacity (self : RingBuffer) (bytes : Bytes) : Except Fault RingBuffer := do
  if self.data.length < bytes.length then throw .assertion
  let dataStart := self.mask self.writeIndex
  let part1DataEnd := min (dataStart + bytes.length) self.data.length
  let part1Len := part1DataEnd - dataStart
  let data ← memcpy self.data dataStart part1DataEnd (← slice bytes 0 part1Len)
  let remaining := bytes.length - part1Len
  let toWrite := min remaining (remaining % self.data.length + self.data.length)
  let part2BytesStart := bytes.length - toWrite
  let part2BytesEnd := min (part2BytesStart + self.data.length) bytes.length
  let part2Len := part2BytesEnd - part2BytesStart
  let data ← memcpy data 0 part2Len (← slice bytes part2BytesStart part2BytesEnd)
  let data ←
    if part2BytesEnd ≠ bytes.length then
      memcpy data 0 (bytes.length - part2BytesEnd) (← slice bytes part2BytesEnd bytes.length)
    else pure data
  pure { self with data, writeIndex := self.mask2 (self.writeIndex + bytes.length) }

end RingBuffer

/-! ### The mesh -/

/-- `proto.Tag` -/
inductive Tag
  | ping
  | reqPing
  deriving DecidableEq, Repr

/-- `proto.packet_size` -/
def packetSize : ℕ := 18

def maxPackets : ℕ := 50

/-- `Packet.encode` and `Packet.decode`, which rest on the library's DER; `none` for an error. -/
structure Codec where
  encode : Tag → Option (Vector UInt8 packetSize)
  decode : Bytes → Option Tag

/-- `seq` and the milliseconds of `getTimestamp`. -/
structure PingEntry where
  seq : UInt32 := 0
  timestamp : ℤ := 0
  deriving DecidableEq, Repr

/-- The variables of `mesh.zig`, and `last_ping_timestamp`. -/
structure State where
  packetQueueTx : RingBuffer
  pingIndex : ℕ
  pingMap : Vector PingEntry 12
  lastPingTimestamp : ℤ

def init : State where
  packetQueueTx :=
    { data := List.replicate (maxPackets * packetSize) 0, readIndex := 0, writeIndex := 0 }
  pingIndex := 0
  pingMap := Vector.replicate 12 {}
  lastPingTimestamp := 0

/-- The index of the entry, which is checked where the array is indexed. -/
def findFreePing (s : State) : Except Fault (Fin 12 × State) :=
  let i := s.pingIndex % 12
  let s := { s with pingIndex := i + 1 }
  if h : i < 12 then .ok (⟨i, h⟩, s) else .error .outOfBounds

/-- A slice of the queue that a caller keeps. -/
structure Slice where
  start : ℕ
  stop : ℕ
  deriving DecidableEq, Repr

/-- `createPacket`; no slice for an error of the encoder. -/
def createPacket (codec : Codec) (s : State) (tag : Tag) : Except Fault (Option Slice × State) :=
  match codec.encode tag with
  | none => .ok (none, s)
  | some buff => do
      let queue :=
        if maxPackets * packetSize ≤ s.packetQueueTx.len + packetSize then
          { s.packetQueueTx with writeIndex := 0 }
        else s.packetQueueTx
      let dataStart := queue.mask queue.writeIndex
      let queue ← queue.writeSliceAssumeCapacity buff.toList
      let dataEnd := dataStart + packetSize
      let _ ← slice queue.data dataStart dataEnd
      pure (some ⟨dataStart, dataEnd⟩, { s with packetQueueTx := queue })

/-- What a call gives its caller. -/
inductive Output
  /-- An error. -/
  | failed
  /-- A packet, or the response to a received one. -/
  | packet (slice : Slice)
  /-- The entry that a received ping was written to. -/
  | pinged (i : Fin 12)
  /-- The numerator and the denominator of a measure, before rounding. -/
  | measured (seq : ℕ) (elapsed : ℕ)
  deriving DecidableEq, Repr

/-- `actionCallback` at the time `now`. -/
def actionCallback (codec : Codec) (s : State) (data : Bytes) (seq : UInt32) (now : ℤ) :
    Except Fault (Output × State) :=
  match codec.decode data with
  | none => .ok (.failed, s)
  | some .reqPing => do
      let (resp, s) ← createPacket codec { s with lastPingTimestamp := now } .ping
      pure (resp.elim .failed .packet, s)
  | some .ping => do
      let (ping, s) ← findFreePing s
      pure (.pinged ping, { s with pingMap := s.pingMap.set ping { seq, timestamp := now } })

/-- `pingMeasure`; the measure 0 has the numerator 0. -/
def pingMeasure (s : State) (i : UInt8) : Except Fault Output :=
  if 12 < i.toNat then .ok (.measured 0 1)
  else if h : i.toNat < 12 then
    let entry := s.pingMap[i.toNat]
    .ok (.measured entry.seq.toNat ((entry.timestamp - s.lastPingTimestamp).natAbs * 1000))
  else .error .outOfBounds

/-- What calls the mesh. -/
inductive Event
  /-- A received action packet. -/
  | action (data : Bytes) (seq : UInt32) (now : ℤ)
  /-- `nixbadge_mesh_broadcast`, which notes the time of a ping and creates the packet. -/
  | broadcast (kind : Tag) (now : ℤ)
  | measure (i : UInt8)
  deriving DecidableEq, Repr

def step (codec : Codec) (s : State) : Event → Except Fault (Output × State)
  | .action data seq now => actionCallback codec s data seq now
  | .broadcast kind now => do
      let s := if kind = .ping then { s with lastPingTimestamp := now } else s
      let (buff, s) ← createPacket codec s kind
      pure (buff.elim .failed .packet, s)
  | .measure i => do
      let m ← pingMeasure s i
      pure (m, s)

/-- The outputs of calls one after another, up to a fault. -/
def run (codec : Codec) : State → List Event → Except Fault (List Output)
  | _, [] => .ok []
  | s, e :: es => do
      let (out, s) ← step codec s e
      let outs ← run codec s es
      pure (out :: outs)

/-! ### One call -/

theorem slice_ok {data : Bytes} {lo hi : ℕ} (h : lo ≤ hi) (hhi : hi ≤ data.length) :
    slice data lo hi = .ok ((data.take hi).drop lo) := by
  rw [slice, if_pos ⟨h, hhi⟩]

theorem memcpy_ok {data bytes : Bytes} {lo hi : ℕ} (hhi : hi ≤ data.length)
    (h : hi = lo + bytes.length) :
    memcpy data lo hi bytes = .ok (data.take lo ++ bytes ++ data.drop hi) := by
  rw [memcpy, if_pos ⟨by omega, hhi⟩, if_pos (by omega)]

/-- What fits before the end is copied in one part. -/
theorem RingBuffer.writeSlice_ok {self : RingBuffer} {bytes : Bytes}
    (h : self.mask self.writeIndex + bytes.length ≤ self.data.length) :
    self.writeSliceAssumeCapacity bytes =
      .ok { self with
              data := self.data.take (self.mask self.writeIndex) ++ bytes ++
                self.data.drop (self.mask self.writeIndex + bytes.length)
              writeIndex := self.mask2 (self.writeIndex + bytes.length) } := by
  have hfit : ¬self.data.length < bytes.length := by omega
  have hend : min (self.mask self.writeIndex + bytes.length) self.data.length =
      self.mask self.writeIndex + bytes.length := min_eq_left h
  have hend2 : min (bytes.length + self.data.length) bytes.length = bytes.length :=
    min_eq_right (Nat.le_add_right _ _)
  have hcopy := memcpy_ok h (Eq.refl (self.mask self.writeIndex + bytes.length))
  simp only [writeSliceAssumeCapacity, hfit, hend, hend2, if_false, Nat.add_sub_cancel_left,
    Nat.sub_self, Nat.zero_min, Nat.sub_zero, slice_ok (Nat.zero_le _) le_rfl,
    slice_ok (le_refl bytes.length) le_rfl, ne_eq, not_true, List.take_length, List.drop_length,
    List.drop_zero, bind, Except.bind, hcopy]
  rw [memcpy_ok (Nat.zero_le _) rfl]
  rfl

/-- The packets that follow one another before the write index is set back. -/
def places : ℕ := maxPackets - 1

def place (k : ℕ) : Slice := ⟨k * packetSize, k * packetSize + packetSize⟩

/-- The state after so many packets and so many pings: the write index stands behind the last
packet, and the ping index at the next entry, which is reduced only when it is used. -/
structure At (packets pings : ℕ) (s : State) : Prop where
  length : s.packetQueueTx.data.length = maxPackets * packetSize
  read : s.packetQueueTx.readIndex = 0
  write : ∃ k ≤ places, s.packetQueueTx.writeIndex = k * packetSize ∧
    k % places = packets % places
  ping : s.pingIndex % 12 = pings % 12

variable {codec : Codec} {s : State} {packets pings : ℕ} {tag : Tag}

theorem At.init : At 0 0 init :=
  ⟨List.length_replicate, rfl, ⟨0, Nat.zero_le _, rfl, rfl⟩, rfl⟩

theorem At.setLastPing (h : At packets pings s) (now : ℤ) :
    At packets pings { s with lastPingTimestamp := now } :=
  ⟨h.length, h.read, h.write, h.ping⟩

theorem At.len_eq (h : At packets pings s) :
    s.packetQueueTx.len = s.packetQueueTx.writeIndex := by
  rw [RingBuffer.len, h.read, decide_eq_false (Nat.not_lt_zero _)]
  rfl

/-- Behind the forty-ninth packet the write index is set back, one packet before the end. -/
theorem At.rewind (h : At packets pings s) :
    (if maxPackets * packetSize ≤ s.packetQueueTx.len + packetSize then
        { s.packetQueueTx with writeIndex := 0 } else s.packetQueueTx) =
      { s.packetQueueTx with writeIndex := packets % places * packetSize } := by
  obtain ⟨k, hle, hwrite, hk⟩ := h.write
  rw [h.len_eq, hwrite, ← hk]
  rcases hle.eq_or_lt with rfl | hlt
  · rw [if_pos (by decide), Nat.mod_self, Nat.zero_mul]
  · have hroom : ¬maxPackets * packetSize ≤ k * packetSize + packetSize := by
      simp only [maxPackets, packetSize, places] at hlt ⊢
      omega
    rw [if_neg hroom, Nat.mod_eq_of_lt hlt, ← hwrite]

/-- **A packet takes the next of forty-nine places**, and the slice handed out holds it. -/
theorem createPacket_spec (h : At packets pings s) {buff : Vector UInt8 packetSize}
    (hbuff : codec.encode tag = some buff) :
    ∃ s', createPacket codec s tag = .ok (some (place (packets % places)), s') ∧
      At (packets + 1) pings s' ∧
      slice s'.packetQueueTx.data (place (packets % places)).start
        (place (packets % places)).stop = .ok buff.toList := by
  have hplace : packets % places < places := Nat.mod_lt _ (by decide)
  have hlength := h.length
  have hbefore : packets % places * packetSize + packetSize ≤ s.packetQueueTx.data.length := by
    rw [hlength]
    simp only [maxPackets, packetSize, places] at hplace ⊢
    omega
  have hbytes : buff.toList.length = packetSize := by simp
  have hpos : 0 < packetSize := by decide
  have hmask : packets % places * packetSize % s.packetQueueTx.data.length =
      packets % places * packetSize := Nat.mod_eq_of_lt (by omega)
  have hmask2 : (packets % places * packetSize + packetSize) % (2 * s.packetQueueTx.data.length) =
      (packets % places + 1) * packetSize := by
    rw [Nat.mod_eq_of_lt (by omega), Nat.succ_mul]
  have hwrite := @RingBuffer.writeSlice_ok
    { s.packetQueueTx with writeIndex := packets % places * packetSize } buff.toList
    (by rw [RingBuffer.mask, hmask, hbytes]; exact hbefore)
  rw [RingBuffer.mask, RingBuffer.mask2, hmask, hbytes, hmask2] at hwrite
  -- the bytes of the queue after the packet is written
  set data := s.packetQueueTx.data.take (packets % places * packetSize) ++ buff.toList ++
    s.packetQueueTx.data.drop (packets % places * packetSize + packetSize) with hdata
  have hleft : (s.packetQueueTx.data.take (packets % places * packetSize)).length =
      packets % places * packetSize := List.length_take_of_le (by omega)
  have hlen : data.length = s.packetQueueTx.data.length := by
    rw [hdata, List.length_append, List.length_append, hleft, hbytes, List.length_drop]
    omega
  have hslice : slice data (packets % places * packetSize)
      (packets % places * packetSize + packetSize) = .ok buff.toList := by
    rw [slice_ok (Nat.le_add_right _ _) (hlen ▸ hbefore), hdata,
      List.take_left' (by rw [List.length_append, hleft, hbytes]), List.drop_left' hleft]
  refine ⟨{ s with packetQueueTx := ⟨data, s.packetQueueTx.readIndex,
    (packets % places + 1) * packetSize⟩ }, ?_, ⟨hlen.trans hlength, h.read, ?_, h.ping⟩, hslice⟩
  · rw [createPacket, hbuff]
    simp only [h.rewind, RingBuffer.mask, hmask, hwrite, hslice, bind, Except.bind]
    rfl
  · refine ⟨packets % places + 1, hplace, rfl, ?_⟩
    exact Nat.mod_add_mod packets places 1

/-- **A ping takes the next of the twelve entries.** -/
theorem findFreePing_spec (h : At packets pings s) :
    ∃ i s', findFreePing s = .ok (i, s') ∧ i.1 = pings % 12 ∧ At packets (pings + 1) s' := by
  have hlt : s.pingIndex % 12 < 12 := Nat.mod_lt _ (by decide)
  refine ⟨⟨s.pingIndex % 12, hlt⟩, { s with pingIndex := s.pingIndex % 12 + 1 }, ?_, h.ping, ?_⟩
  · rw [findFreePing, dif_pos hlt]
  · refine ⟨h.length, h.read, h.write, ?_⟩
    have hping := h.ping
    show (s.pingIndex % 12 + 1) % 12 = (pings + 1) % 12
    omega

/-! ### Calls one after another -/

/-- The calls that create a packet. -/
def createsPacket (codec : Codec) : Event → Bool
  | .action data _ _ => codec.decode data = some .reqPing ∧ (codec.encode .ping).isSome
  | .broadcast kind _ => (codec.encode kind).isSome
  | .measure _ => false

/-- The calls that take an entry. -/
def takesEntry (codec : Codec) : Event → Bool
  | .action data _ _ => codec.decode data = some .ping
  | _ => false

def Output.sent : Output → Option Slice
  | .packet slice => some slice
  | _ => none

def Output.taken : Output → Option (Fin 12)
  | .pinged i => some i
  | _ => none

/-- A packet, or an error of the encoder, at the next place. -/
theorem createPacket_out (codec : Codec) (tag : Tag) (h : At packets pings s) :
    ∃ buff s', createPacket codec s tag = .ok (buff, s') ∧
      buff = (if (codec.encode tag).isSome then some (place (packets % places)) else none) ∧
      At (packets + (codec.encode tag).isSome.toNat) pings s' := by
  cases hbuff : codec.encode tag with
  | none => exact ⟨none, s, by rw [createPacket, hbuff], rfl, h⟩
  | some buff =>
      obtain ⟨s', hok, hat, -⟩ := createPacket_spec h hbuff
      exact ⟨_, s', hok, rfl, hat⟩

theorem sent_elim (buff : Option Slice) :
    (buff.elim Output.failed Output.packet).sent = buff ∧
      (buff.elim Output.failed Output.packet).taken = none := by
  cases buff with
  | none => exact ⟨rfl, rfl⟩
  | some slice => exact ⟨rfl, rfl⟩

/-- A measure but for the entry behind the last. -/
theorem pingMeasure_ok {i : UInt8} (hi : i ≠ 12) :
    ∃ seq elapsed, pingMeasure s i = .ok (.measured seq elapsed) := by
  rw [pingMeasure]
  by_cases hlarge : 12 < i.toNat
  · exact ⟨_, _, if_pos hlarge⟩
  · have hsmall : i.toNat < 12 := by
      have hne : i.toNat ≠ 12 := fun h => hi (UInt8.toNat_inj.mp h)
      omega
    rw [if_neg hlarge, dif_pos hsmall]
    exact ⟨_, _, rfl⟩

/-- What one call gives and leaves, unless it measures the entry behind the last. -/
theorem step_spec (codec : Codec) (h : At packets pings s) {e : Event} (he : e ≠ .measure 12) :
    ∃ out s', step codec s e = .ok (out, s') ∧
      At (packets + (createsPacket codec e).toNat) (pings + (takesEntry codec e).toNat) s' ∧
      out.sent = (if createsPacket codec e then some (place (packets % places)) else none) ∧
      out.taken.map Fin.val = if takesEntry codec e then some (pings % 12) else none := by
  cases e with
  | action data seq now =>
      cases hdata : codec.decode data with
      | none =>
          refine ⟨.failed, s, ?_, ?_, ?_, ?_⟩
          · rw [step, actionCallback, hdata]
          · simpa [createsPacket, takesEntry, hdata] using h
          · simp [createsPacket, hdata, Output.sent]
          · simp [takesEntry, hdata, Output.taken]
      | some tag =>
          cases tag with
          | ping =>
              have hcreates : createsPacket codec (.action data seq now) = false := by
                simp [createsPacket, hdata]
              have htakes : takesEntry codec (.action data seq now) = true := by
                simp [takesEntry, hdata]
              obtain ⟨i, s', hok, hi, hat⟩ := findFreePing_spec h
              rw [hcreates, htakes]
              refine ⟨.pinged i,
                { s' with pingMap := s'.pingMap.set i { seq, timestamp := now } }, ?_, ?_, ?_, ?_⟩
              · simp only [step, actionCallback, hdata, hok, bind, Except.bind]
                rfl
              · exact ⟨hat.length, hat.read, hat.write, hat.ping⟩
              · rfl
              · exact congrArg some hi
          | reqPing =>
              obtain ⟨buff, s', hok, hbuff, hat⟩ :=
                createPacket_out codec .ping (h.setLastPing now)
              refine ⟨buff.elim .failed .packet, s', ?_, ?_, ?_, ?_⟩
              · simp only [step, actionCallback, hdata, hok, bind, Except.bind]
                rfl
              · simpa [createsPacket, takesEntry, hdata] using hat
              · rw [(sent_elim buff).1, hbuff]
                simp [createsPacket, hdata]
              · rw [(sent_elim buff).2]
                simp [takesEntry, hdata]
  | broadcast kind now =>
      have hat' : At packets pings
          (if kind = .ping then { s with lastPingTimestamp := now } else s) := by
        split
        · exact h.setLastPing now
        · exact h
      obtain ⟨buff, s', hok, hbuff, hat⟩ := createPacket_out codec kind hat'
      refine ⟨buff.elim .failed .packet, s', ?_, hat, ?_, ?_⟩
      · simp only [step, hok, bind, Except.bind]
        rfl
      · rw [(sent_elim buff).1, hbuff]
        rfl
      · rw [(sent_elim buff).2]
        rfl
  | measure i =>
      have hi : i ≠ 12 := fun heq => he (congrArg Event.measure heq)
      obtain ⟨seq, elapsed, hok⟩ := pingMeasure_ok (s := s) hi
      refine ⟨.measured seq elapsed, s, ?_, h, rfl, rfl⟩
      simp only [step, hok, bind, Except.bind]
      rfl

/-! ### Runs -/

/-- The slices handed out, in order. -/
def slices (outs : List Output) : List Slice := outs.filterMap Output.sent

/-- The entries handed out, in order. -/
def entries (outs : List Output) : List (Fin 12) := outs.filterMap Output.taken

/-- Since an entry was handed out before, all the others were. -/
def LeastRecent (before : List (Fin 12)) (i : Fin 12) : Prop :=
  ∀ earlier since, before = earlier ++ i :: since → ∀ e, e ≠ i → e ∈ since

def Slice.Disjoint (a b : Slice) : Prop := a.stop ≤ b.start ∨ b.stop ≤ a.start

/-- No index and no slice of the calls is outside its array, each entry is the least recently
handed out, and the slices of `maxPackets` consecutive packets do not overlap. -/
structure NeverOverrun (codec : Codec) (es : List Event) : Prop where
  inside : ∃ outs, run codec init es = .ok outs
  leastRecent : ∀ outs, run codec init es = .ok outs →
    ∀ before i after, entries outs = before ++ i :: after → LeastRecent before i
  disjoint : ∀ outs, run codec init es = .ok outs →
    ∀ window, window <:+: slices outs → window.length = maxPackets →
      window.Pairwise Slice.Disjoint

/-- **A run goes round**: its packets take the places in turn, and its pings the entries. -/
theorem run_spec (codec : Codec) {es : List Event} (h : At packets pings s)
    (hes : .measure 12 ∉ es) :
    ∃ outs, run codec s es = .ok outs ∧
      slices outs =
        (Rotation.turns places packets (es.countP (createsPacket codec))).map place ∧
      (entries outs).map Fin.val = Rotation.turns 12 pings (es.countP (takesEntry codec)) := by
  induction es generalizing s packets pings with
  | nil => exact ⟨[], rfl, rfl, rfl⟩
  | cons e es ih =>
      obtain ⟨out, s', hok, hat, hslice, hentry⟩ :=
        step_spec codec h (fun heq => hes (heq ▸ List.mem_cons_self))
      obtain ⟨outs, hrun, hslices, hentries⟩ :=
        ih hat fun hmem => hes (List.mem_cons_of_mem _ hmem)
      refine ⟨out :: outs, ?_, ?_, ?_⟩
      · simp only [run, hok, hrun, bind, Except.bind]
        rfl
      · rw [slices, List.filterMap_cons, hslice]
        cases hcreates : createsPacket codec e with
        | true =>
            rw [hcreates] at hslices
            rw [List.countP_cons_of_pos hcreates, Rotation.turns_succ, List.map_cons]
            exact congrArg (place (packets % places) :: ·) hslices
        | false =>
            rw [hcreates] at hslices
            rw [List.countP_cons_of_neg (by simp [hcreates])]
            exact hslices
      · rw [entries, List.filterMap_cons]
        cases htakes : takesEntry codec e with
        | true =>
            rw [htakes] at hentry hentries
            obtain ⟨i, hi, hturn⟩ := Option.map_eq_some_iff.mp hentry
            rw [List.countP_cons_of_pos htakes, Rotation.turns_succ, hi, ← hturn]
            exact congrArg (i.val :: ·) hentries
        | false =>
            rw [htakes] at hentry hentries
            rw [List.countP_cons_of_neg (by simp [htakes]), Option.map_eq_none_iff.mp hentry]
            exact hentries

/-- A measure of the entry behind the last ends every run with a fault. -/
theorem run_measure (codec : Codec) (s : State) {es : List Event} (hes : .measure 12 ∈ es) :
    ∃ fault, run codec s es = .error fault := by
  induction es generalizing s with
  | nil => exact absurd hes List.not_mem_nil
  | cons e es ih =>
      rcases hok : step codec s e with fault | ⟨out, s'⟩
      · refine ⟨fault, ?_⟩
        simp only [run, hok, bind, Except.bind]
      · rcases List.mem_cons.mp hes with rfl | hmem
        · cases hok
        · obtain ⟨fault, hrun⟩ := ih s' hmem
          refine ⟨fault, ?_⟩
          simp only [run, hok, hrun, bind, Except.bind]

/-! ### What never overlaps -/

/-- Two places overlap only when they are the same. -/
theorem place_disjoint_iff {j k : ℕ} : (place j).Disjoint (place k) ↔ j ≠ k := by
  simp only [Slice.Disjoint, place, packetSize]
  omega

theorem disjoint_turns_iff {count : ℕ} :
    ((Rotation.turns places packets count).map place).Pairwise Slice.Disjoint ↔
      count ≤ places := by
  rw [List.pairwise_map, ← @Rotation.turns_nodup_iff places packets count (by decide)]
  exact List.Pairwise.iff fun _ _ => place_disjoint_iff

/-- Entries taken in turn are the least recent ones. -/
theorem leastRecent_of_turns {outs : List Output} {count : ℕ} {before after : List (Fin 12)}
    {i : Fin 12} (h : (entries outs).map Fin.val = Rotation.turns 12 0 count)
    (hcut : entries outs = before ++ i :: after) : LeastRecent before i := by
  rintro earlier since rfl e hne
  rw [hcut, List.map_append, List.map_cons, List.map_append, List.map_cons] at h
  obtain ⟨hbefore, hrest⟩ := Rotation.turns_eq_append h.symm
  rw [List.length_cons, Rotation.turns_succ] at hrest
  have hturn := (List.cons.inj hrest).1
  have hmem := Rotation.mem_of_turns_eq hbefore.symm hturn.symm e.isLt
    (fun heq => hne (Fin.val_injective heq))
  exact (List.mem_map_of_injective Fin.val_injective).mp hmem

/-- No call of a run that goes on measured the entry behind the last. -/
theorem not_measure {es : List Event} {outs : List Output} (hrun : run codec s es = .ok outs) :
    .measure 12 ∉ es := by
  intro hmem
  obtain ⟨fault, herror⟩ := run_measure codec s hmem
  rw [hrun] at herror
  cases herror

/-- **Forty-nine consecutive packets do not overlap, and fifty do**: in every run, the slices of
packets created one after another. -/
theorem window_disjoint_iff {es : List Event} {outs : List Output} {window : List Slice}
    (hrun : run codec init es = .ok outs) (h : window <:+: slices outs) :
    window.Pairwise Slice.Disjoint ↔ window.length < maxPackets := by
  obtain ⟨outs', hrun', hslices, -⟩ := run_spec codec At.init (not_measure hrun)
  obtain rfl : outs = outs' := Except.ok.inj (hrun.symm.trans hrun')
  rw [hslices] at h
  obtain ⟨turns, hinfix, rfl⟩ := List.infix_map_iff.mp h
  obtain ⟨start, hturns⟩ := Rotation.infix_turns hinfix
  rw [hturns, disjoint_turns_iff, List.length_map, Rotation.length_turns]
  exact Nat.lt_succ_iff.symm

theorem NeverOverrun.not_measure {es : List Event} (h : NeverOverrun codec es) :
    .measure 12 ∉ es := by
  obtain ⟨outs, hrun⟩ := h.inside
  exact Mesh.not_measure hrun

/-- With fifty packets the first fifty overlap. -/
theorem NeverOverrun.few {es : List Event} (h : NeverOverrun codec es) :
    es.countP (createsPacket codec) < maxPackets := by
  obtain ⟨outs, hrun, hslices, -⟩ := run_spec codec At.init h.not_measure
  by_contra hmany
  have hwindow : (slices outs).take maxPackets <:+: slices outs :=
    (List.take_prefix _ _).isInfix
  have hlen : ((slices outs).take maxPackets).length = maxPackets := by
    rw [List.length_take, hslices, List.length_map, Rotation.length_turns]
    omega
  have hlt := (window_disjoint_iff hrun hwindow).mp (h.disjoint outs hrun _ hwindow hlen)
  omega

theorem neverOverrun_of_few {es : List Event} (hmeasure : .measure 12 ∉ es)
    (hfew : es.countP (createsPacket codec) < maxPackets) : NeverOverrun codec es := by
  obtain ⟨outs, hrun, hslices, hentries⟩ := run_spec codec At.init hmeasure
  have houts {outs' : List Output} (hrun' : run codec init es = .ok outs') : outs = outs' :=
    Except.ok.inj (hrun.symm.trans hrun')
  refine ⟨⟨outs, hrun⟩, ?_, ?_⟩
  · intro outs' hrun' before i after hcut
    obtain rfl := houts hrun'
    exact leastRecent_of_turns hentries hcut
  · intro outs' hrun' window hwindow hlen
    obtain rfl := houts hrun'
    -- there are no fifty packets
    have hle := hwindow.length_le
    rw [hslices, List.length_map, Rotation.length_turns] at hle
    omega

/-- **Never overrun, for as long as the queue is**: the property holds of a run exactly when it
measures no entry behind the last, and creates fewer than `maxPackets` packets. -/
theorem neverOverrun_iff (codec : Codec) (es : List Event) :
    NeverOverrun codec es ↔
      .measure 12 ∉ es ∧ es.countP (createsPacket codec) < maxPackets := by
  constructor
  · intro h
    exact ⟨h.not_measure, h.few⟩
  · rintro ⟨hmeasure, hfew⟩
    exact neverOverrun_of_few hmeasure hfew

/-- The packets as DER writes an enumeration of one byte, and reads it. -/
def derCodec : Codec where
  encode tag := some (Vector.ofFn fun k =>
    if k.val = 0 then 10 else if k.val = 1 ∨ k.val = 2 ∧ tag = .reqPing then 1 else 0)
  decode data :=
    if data.take 3 = [10, 1, 0] then some .ping
    else if data.take 3 = [10, 1, 1] then some .reqPing
    else none

/-- One measure is enough for an index outside the entries, and fifty broadcasts for two packets
in one place. -/
theorem mesh_overrun :
    ¬NeverOverrun derCodec [.measure 12] ∧
      ¬NeverOverrun derCodec (List.replicate 50 (.broadcast .ping 0)) := by
  constructor
  · intro h
    exact h.not_measure List.mem_cons_self
  · intro h
    have hfew := h.few
    rw [List.countP_replicate] at hfew
    exact absurd hfew (by decide)

end BadgeOS.Mesh
