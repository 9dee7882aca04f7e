import BadgeOS.CodaCube.Playback
import BadgeOS.Lib.Table
import Mathlib

/-!
# Where the pictures are

A picture that the decoder has handed out is in a thread's hands, in the release queue, with the
worker, or on a buffer that is shown.

* `Account`, `Account.decode` — the decoder's book with the places that hold its pictures, and what
  one ioctl of `decode_aus` makes of them;
* `State.keeps` — how many places hold a picture;
* `Main.Fits` — which worker goes with which place of `main`;
* `Buffers`, `zcGet_spec` — the buffers, and what the compositor holds of them.
-/

namespace BadgeOS.CodaCube.Playback

open Lending

variable {c : Config} {vdec vdec' : Book Picture} {m m' : Picture → ℕ}
  {fi : Picture} {i : ℕ}

/-! ### The account of the decoder -/

/-- The decoder's book with the places that hold its pictures. -/
structure Account (m : Picture → ℕ) (vdec : Book Picture) : Prop where
  custody : Custody m vdec
  apart : Apart Picture.buffer vdec
  serial : ∀ fi ∈ vdec.lent, fi.serial < vdec.lent.length

theorem Account.move (h : Account m vdec) (hmove : ∀ q, m' q = m q) :
    Account m' vdec := ⟨h.custody.move hmove, h.apart, h.serial⟩

/-- GET_FRAME -/
theorem Account.get {buffer : ℕ} (h : Account m vdec) (hnew : newPicture vdec buffer = some fi)
    (hm : ∀ q, m' q = m q + [fi].count q) : Account m' (vdec.lend fi) := by
  rw [newPicture] at hnew
  split at hnew
  · rename_i hfree
    obtain rfl := Option.some.inj hnew
    refine ⟨h.custody.lend ?_ hm, h.apart.lend fun q hq => hfree q hq.1 hq.2, ?_⟩
    · intro hmem
      exact lt_irrefl _ (h.serial _ hmem)
    · intro q hq
      rcases List.mem_cons.mp hq with rfl | hq
      · exact Nat.lt_succ_self _
      · exact Nat.lt_succ_of_lt (h.serial q hq)
  · cases hnew

/-- RELEASE_FRAME -/
theorem Account.giveBack (h : Account m vdec) (hm : ∀ q, m' q + [fi].count q = m q) :
    Account m' (vdec.giveBack fi) := ⟨h.custody.giveBack hm, h.apart.giveBack fi, h.serial⟩

/-! ### Where the pictures are -/

def DecodeAus.held : DecodeAus → List Picture
  | .drain _ fi | .release _ fi => [fi]
  | .stale _ fi nx => [fi, nx]
  | _ => []

def Progress.held : Progress → List Picture
  | .goes d => d.held
  | .ends r => r.toList

/-- Pipelined, the picture that `main` has taken is the worker's until `main` has passed it on. -/
def Main.held (pipeline : Bool) : Main → List Picture
  | .pageRelease _ fi | .giveBack fi | .drop fi | .pace _ fi => [fi]
  | .flush fi rest | .last fi rest => fi :: rest
  | .decode d => d.held
  | .taken r => if pipeline then [] else r.toList
  | .copy fi => if pipeline then [] else [fi]
  | _ => []

def Worker.held (result : Option Picture) : Worker → List Picture
  | .idle => result.toList
  | .releasing fi rest => fi :: rest
  | .decode d => d.held
  | _ => []

def busyWith (fi : Picture) (z : ZcBuf) : Bool := z.fi = some fi

/-- The places that hold `fi`. -/
def State.keeps (c : Config) (s : State) (fi : Picture) : ℕ :=
  (s.main.held c.pipeline).count fi + (s.worker.held s.result).count fi + s.rel.count fi +
    s.lost.count fi + s.zc.countP (busyWith fi)

theorem count_cons_eq (fi q : Picture) (l : List Picture) :
    (fi :: l).count q = [fi].count q + l.count q := by
  rw [← List.singleton_append, List.count_append]

@[simp] theorem held_run (r : Option Picture) (rel : List Picture) :
    (Worker.run rel).held r = rel := by
  cases rel <;> rfl

@[simp] theorem held_flushed (b : Bool) (rel : List Picture) : (Main.flushed rel).held b = rel := by
  cases rel <;> rfl

@[simp] theorem held_lastFlush (b : Bool) (rel : List Picture) :
    (Main.lastFlush rel).held b = rel := by
  cases rel <;> rfl

/-- **One ioctl of `decode_aus`**, with whatever is held besides. -/
theorem Account.decode {nau : ℕ} {d : DecodeAus} {answer : Answer} {p : Progress}
    {rest : Picture → ℕ} (h : Account (fun q => d.held.count q + rest q) vdec)
    (hstep : d.step nau vdec answer = some (p, vdec')) :
    Account (fun q => p.held.count q + rest q) vdec' := by
  cases d with
  | send a =>
      cases answer <;> cases hstep <;> exact h
  | get a =>
      cases answer with
      | picture buffer =>
          obtain ⟨fi, hfi, heq⟩ := Option.map_eq_some_iff.mp hstep
          obtain ⟨rfl, rfl⟩ := Prod.mk.inj heq
          exact h.get hfi fun q => by simp [Progress.held, DecodeAus.held, Nat.add_comm]
      | _ => cases hstep; exact h
  | getLate a =>
      cases answer with
      | picture buffer =>
          obtain ⟨fi, hfi, heq⟩ := Option.map_eq_some_iff.mp hstep
          obtain ⟨rfl, rfl⟩ := Prod.mk.inj heq
          exact h.get hfi fun q => by simp [Progress.held, DecodeAus.held, Nat.add_comm]
      | _ => cases hstep; exact h
  | drain a fi =>
      have hlast : Account (fun q => (if a + 1 < nau then Progress.goes (.release a fi) else
          Progress.ends (some fi)).held.count q + rest q) vdec := by
        split <;> exact h
      cases answer with
      | picture buffer =>
          obtain ⟨nx, hnx, heq⟩ := Option.map_eq_some_iff.mp hstep
          obtain ⟨rfl, rfl⟩ := Prod.mk.inj heq
          refine h.get hnx fun q => ?_
          simp only [Progress.held, DecodeAus.held, count_cons_eq fi q [nx]]
          omega
      | done => cases hstep; exact hlast
      | failed => cases hstep; exact hlast
  | stale a fi nx =>
      cases hstep
      refine h.giveBack fun q => ?_
      simp only [Progress.held, DecodeAus.held, count_cons_eq fi q [nx]]
      omega
  | release a fi =>
      cases hstep
      refine h.giveBack fun q => ?_
      simp only [Progress.held, DecodeAus.held, List.count_nil]
      omega

/-! ### The threads -/

def Worker.Runs : Worker → Prop
  | .off | .joined => False
  | _ => True

/-- The worker that goes with a place of `main`. -/
def Main.Fits (c : Config) (w : Worker) (r : Option Picture) : Main → Prop
  | .page _ | .pageSend _ | .pageGet _ | .pageRelease _ _ | .pageDrain _ => w = .off
  | .flush _ _ | .decode _ | .giveBack _ | .drop _ => c.pipeline = false ∧ w = .off
  | .wait | .close => c.pipeline = true ∧ w.Runs
  | .taken x => if c.pipeline then w = .idle ∧ r = x else w = .off
  | .copy fi => c.zeroCopy = false ∧ if c.pipeline then w = .idle ∧ r = some fi else w = .off
  | .submit x zc => c.pipeline = true ∧ w = .idle ∧ r = x ∧
      (x.isSome → zc.isSome = c.zeroCopy)
  | .closing fi => c.pipeline = true ∧ w = .idle ∧ r = some fi
  | .top | .pace _ _ | .pump | .bottom => if c.pipeline then w.Runs else w = .off
  | .last _ _ | .ended => w = if c.pipeline then .joined else .off

/-- The buffer that a picture is about to be presented on. -/
def Main.ready : Main → Option (ℕ × Picture)
  | .pace i fi | .submit (some fi) (some i) => some (i, fi)
  | _ => none

/-- Behind the loop and the worker. -/
def Main.Over : Main → Prop
  | .last _ _ | .ended => True
  | _ => False

theorem runs_run (rel : List Picture) : (Worker.run rel).Runs := by
  cases rel <;> trivial

/-- While the worker runs, `main` is where any step of the worker leaves it fitting. -/
theorem Main.Fits.runs {w w' : Worker} {r r' : Option Picture} {m : Main} (h : m.Fits c w r)
    (hw : w.InDecoder) (hw' : w'.Runs) : m.Fits c w' r' := by
  have hoff : w ≠ .off := by rintro rfl; exact hw
  have hidle : w ≠ .idle := by rintro rfl; exact hw
  have hjoined : w ≠ .joined := by rintro rfl; exact hw
  cases hp : c.pipeline <;> cases m <;> simp_all [Main.Fits]

/-- **No two threads are in the decoder.** -/
theorem Main.Fits.exclusive {w : Worker} {r : Option Picture} {m : Main} (h : m.Fits c w r)
    (hm : m.InDecoder) : ¬ w.InDecoder := by
  intro hw
  have hoff : w ≠ .off := by rintro rfl; exact hw
  have hidle : w ≠ .idle := by rintro rfl; exact hw
  have hjoined : w ≠ .joined := by rintro rfl; exact hw
  cases hp : c.pipeline <;> cases m <;> simp_all [Main.Fits, Main.InDecoder]

theorem fits_flushed (hp : c.pipeline = false) (r : Option Picture) (rel : List Picture) :
    (Main.flushed rel).Fits c .off r := by
  cases rel <;> exact ⟨hp, rfl⟩

theorem fits_lastFlush (r : Option Picture) (rel : List Picture) :
    (Main.lastFlush rel).Fits c (if c.pipeline then .joined else .off) r := by
  cases rel <;> rfl

/-- The worker, when `main` has what it has taken. -/
theorem Main.Fits.taken {w : Worker} {r x : Option Picture} (h : (Main.taken x).Fits c w r) :
    if c.pipeline then w.Runs else w = .off := by
  rw [Main.Fits] at h
  split
  · rename_i hp
    rw [if_pos hp] at h
    rw [h.1]
    trivial
  · rename_i hp
    rwa [if_neg hp] at h

theorem fits_shown {w : Worker} (h : if c.pipeline then w.Runs else w = .off)
    (r : Option Picture) : (shown c).Fits c w r := by
  rw [shown]
  split <;> exact h

@[simp] theorem held_shown (b : Bool) : (shown c).held b = [] := by
  rw [shown]
  split <;> rfl

@[simp] theorem ready_shown : (shown c).ready = none := by
  rw [shown]
  split <;> rfl

theorem not_over_shown : ¬ (shown c).Over := by
  rw [shown]
  split <;> exact id

@[simp] theorem ready_flushed (rel : List Picture) : (Main.flushed rel).ready = none := by
  cases rel <;> rfl

@[simp] theorem ready_lastFlush (rel : List Picture) : (Main.lastFlush rel).ready = none := by
  cases rel <;> rfl

/-! ### The buffers -/

/-- `g_zc`, with the buffers that the compositor holds or whose release is on its way. -/
structure Buffers (zc : List ZcBuf) (out : List ℕ) : Prop where
  nodup : (zc.map ZcBuf.pa).Nodup
  size : zc.length ≤ maxHeld
  on : ∀ z ∈ zc, ∀ fi, z.fi = some fi → fi.buffer = z.pa
  busy : ∀ i ∈ out, ∃ pa fi, zc[i]? = some ⟨pa, some fi⟩
  once : out.Nodup

variable {zc zc' : List ZcBuf} {out : List ℕ} {pa : ℕ}

/-- A record at the end, with nothing on it. -/
theorem Buffers.append (h : Buffers zc out) (hnew : pa ∉ zc.map ZcBuf.pa)
    (hroom : zc.length < maxHeld) : Buffers (zc ++ [⟨pa, none⟩]) out where
  nodup := by
    rw [List.map_append, List.nodup_append']
    refine ⟨h.nodup, List.nodup_singleton _, ?_⟩
    rw [List.disjoint_right]
    intro x hx
    rw [List.mem_singleton.mp hx]
    exact hnew
  size := by
    rw [List.length_append]
    exact hroom
  on := by
    intro z hz fi hfi
    rcases List.mem_append.mp hz with hz | hz
    · exact h.on z hz fi hfi
    · rw [List.mem_singleton.mp hz] at hfi
      cases hfi
  busy := by
    intro i hi
    obtain ⟨pa', fi, hget⟩ := h.busy i hi
    refine ⟨pa', fi, ?_⟩
    rw [List.getElem?_append_left (Table.lt_of_get hget)]
    exact hget
  once := h.once

theorem map_pa_set {z : ZcBuf} (hget : zc[i]? = some z) (r : Option Picture) :
    (zc.set i ⟨z.pa, r⟩).map ZcBuf.pa = zc.map ZcBuf.pa := by
  apply List.ext_getElem?
  intro j
  rw [List.getElem?_map, List.getElem?_map, Table.get_set hget]
  split
  · rename_i hij
    rw [← hij, hget, Option.map_some, Option.map_some]
  · rfl

/-- A record that takes or loses its frame, among those that the compositor has. -/
theorem Buffers.set {out' : List ℕ} {r : Option Picture} {z : ZcBuf} (h : Buffers zc out)
    (hget : zc[i]? = some z) (hon : ∀ fi, r = some fi → fi.buffer = z.pa)
    (hout : ∀ j ∈ out', j = i ∧ r.isSome ∨ j ≠ i ∧ j ∈ out) (honce : out'.Nodup) :
    Buffers (zc.set i ⟨z.pa, r⟩) out' where
  nodup := by
    rw [map_pa_set hget r]
    exact h.nodup
  size := by
    rw [List.length_set]
    exact h.size
  on := by
    intro z' hz' fi hfi
    rcases List.mem_or_eq_of_mem_set hz' with hz' | rfl
    · exact h.on z' hz' fi hfi
    · exact hon fi hfi
  busy := by
    intro j hj
    rcases hout j hj with ⟨rfl, hr⟩ | ⟨hji, hj⟩
    · obtain ⟨fi, rfl⟩ := Option.isSome_iff_exists.mp hr
      exact ⟨z.pa, fi, by rw [Table.get_set hget, if_pos rfl]⟩
    · obtain ⟨pa', fi, hget'⟩ := h.busy j hj
      exact ⟨pa', fi, by rw [Table.get_set hget, if_neg (Ne.symm hji), hget']⟩
  once := honce

theorem busyWith_count (q fi : Picture) (pa : ℕ) :
    (if busyWith q ⟨pa, some fi⟩ then 1 else 0) = [fi].count q := by
  rw [List.count_singleton]
  simp [busyWith]

/-- A buffer loses its frame. -/
theorem countP_released (hget : zc[i]? = some ⟨pa, some fi⟩) (q : Picture) :
    (zc.set i ⟨pa, none⟩).countP (busyWith q) + [fi].count q = zc.countP (busyWith q) := by
  have hset := Table.countP_set (b := ZcBuf.mk pa none) (busyWith q) hget
  rwa [busyWith_count] at hset

/-- A buffer gets a frame. -/
theorem countP_presented (hget : zc[i]? = some ⟨pa, none⟩) (fi q : Picture) :
    (zc.set i ⟨pa, some fi⟩).countP (busyWith q) = zc.countP (busyWith q) + [fi].count q := by
  have hset := Table.countP_set (b := ZcBuf.mk pa (some fi)) (busyWith q) hget
  rwa [busyWith_count] at hset

theorem countP_append_free (zc : List ZcBuf) (pa : ℕ) (q : Picture) :
    (zc ++ [ZcBuf.mk pa none]).countP (busyWith q) = zc.countP (busyWith q) := by
  rw [List.countP_append, List.countP_singleton]
  rfl

theorem count_shown (zc : List ZcBuf) (q : Picture) :
    (zc.filterMap ZcBuf.fi).count q = zc.countP (busyWith q) := by
  induction zc with
  | nil => rfl
  | cons z zc ih =>
      obtain ⟨pa, r⟩ := z
      rw [List.countP_cons, ← ih]
      cases r with
      | none => simp [busyWith]
      | some fi =>
          have hcons : (ZcBuf.mk pa (some fi) :: zc).filterMap ZcBuf.fi =
              fi :: zc.filterMap ZcBuf.fi := rfl
          rw [hcons, count_cons_eq, busyWith_count, Nat.add_comm]

/-- What `zc_get` does: perhaps a record more, and a record of this frame with nothing on it. -/
theorem zcGet_spec {e : Export} {found : Option ℕ} (hget : zcGet fi e zc = (zc', found)) :
    (zc' = zc ∨ zc' = zc ++ [⟨fi.buffer, none⟩] ∧ fi.buffer ∉ zc.map ZcBuf.pa ∧
      zc.length ≠ maxHeld) ∧
      ∀ i, found = some i → zc'[i]? = some ⟨fi.buffer, none⟩ := by
  unfold zcGet at hget
  split at hget
  · rename_i j hj
    obtain ⟨rfl, rfl⟩ := Prod.mk.inj hget
    refine ⟨Or.inl rfl, ?_⟩
    intro i hi
    split at hi
    · rename_i hgood
      obtain rfl := Option.some.inj hi
      obtain ⟨hlt, hpa, -⟩ := List.findIdx?_eq_some_iff_getElem.mp hj
      rw [List.getElem?_eq_getElem hlt] at hgood ⊢
      have hbuffer : zc[j].pa = fi.buffer := eq_of_beq hpa
      have hnone : zc[j].fi = none := hgood.2
      rw [← hbuffer, ← hnone]
    · cases hi
  · rename_i hnone
    have hnew : fi.buffer ∉ zc.map ZcBuf.pa := by
      intro hmem
      obtain ⟨z, hz, hpa⟩ := List.mem_map.mp hmem
      have hno := List.findIdx?_eq_none_iff.mp hnone z hz
      rw [hpa, beq_self_eq_true] at hno
      cases hno
    split at hget
    · obtain ⟨rfl, rfl⟩ := Prod.mk.inj hget
      exact ⟨Or.inl rfl, fun _ hi => by cases hi⟩
    · rename_i hroom
      cases e with
      | refused =>
          obtain ⟨rfl, rfl⟩ := Prod.mk.inj hget
          exact ⟨Or.inl rfl, fun _ hi => by cases hi⟩
      | unusable =>
          obtain ⟨rfl, rfl⟩ := Prod.mk.inj hget
          exact ⟨Or.inr ⟨rfl, hnew, hroom⟩, fun _ hi => by cases hi⟩
      | good =>
          obtain ⟨rfl, rfl⟩ := Prod.mk.inj hget
          refine ⟨Or.inr ⟨rfl, hnew, hroom⟩, ?_⟩
          intro i hi
          obtain rfl := Option.some.inj hi
          rw [Table.get_push, if_pos rfl]

end BadgeOS.CodaCube.Playback
