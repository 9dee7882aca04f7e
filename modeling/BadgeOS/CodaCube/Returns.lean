import BadgeOS.CodaCube.Custody
import Mathlib

/-!
# Every picture is given back once

Each picture that is out is in one place.  Steps move it from one to the next, and RELEASE_FRAME
takes it out of the hands of the thread that is in it.

* `Inv` — the invariant; `Inv.of_threads` — a step that only the threads take;
* `Inv.mainAnswered`, `Inv.submit`, `Inv.released`, … — one lemma for each step;
* `Inv.room` — there is room in the release queue;
* `pictures_given_back` — every mode, every answer, every order.
-/

namespace BadgeOS.CodaCube.Playback

open Lending Transition

variable {c : Config} {s t : State} {fi : Picture} {i : ℕ}

/-- **The invariant.** -/
structure Inv (c : Config) (s : State) : Prop where
  account : Account (s.keeps c) s.vdec
  fits : s.main.Fits c s.worker s.result
  buffers : Buffers s.zc (s.held ++ s.releases)
  rel : ∀ fi ∈ s.rel, fi.buffer ∈ s.zc.map ZcBuf.pa
  ready : ∀ i fi, s.main.ready = some (i, fi) → s.zc[i]? = some ⟨fi.buffer, none⟩
  copies : c.zeroCopy = false → s.zc = [] ∧ s.rel = []
  behind : s.main.Over → s.rel = []
  lost : s.lost = []

theorem Inv.start (c : Config) : Inv c start where
  account := ⟨Custody.start.move fun _ => rfl, fun q _ hq => absurd hq.1 List.not_mem_nil,
    fun q hq => absurd hq List.not_mem_nil⟩
  fits := rfl
  buffers := ⟨List.nodup_nil, Nat.zero_le _, fun _ hz => absurd hz List.not_mem_nil,
    fun _ hi => absurd hi List.not_mem_nil, List.nodup_nil⟩
  rel := fun _ hq => absurd hq List.not_mem_nil
  ready := fun _ _ h => by cases h
  copies := fun _ => ⟨rfl, rfl⟩
  behind := fun _ => rfl
  lost := rfl

/-- A step that leaves the buffers alone and puts nothing into the queue. -/
theorem Inv.of_ready (h : Inv c s) (haccount : Account (t.keeps c) t.vdec)
    (hfits : t.main.Fits c t.worker t.result) (hzc : t.zc = s.zc) (hheld : t.held = s.held)
    (hreleases : t.releases = s.releases) (hlost : t.lost = s.lost)
    (hrel : t.rel = s.rel ∧ (t.main.Over → s.rel = []) ∨ t.rel = [])
    (hready : ∀ i fi, t.main.ready = some (i, fi) → s.zc[i]? = some ⟨fi.buffer, none⟩) :
    Inv c t where
  account := haccount
  fits := hfits
  buffers := by
    rw [hzc, hheld, hreleases]
    exact h.buffers
  rel := by
    intro fi hfi
    rw [hzc]
    rcases hrel with ⟨hrel, -⟩ | hrel
    · exact h.rel fi (hrel ▸ hfi)
    · rw [hrel] at hfi
      cases hfi
  ready := by
    intro i fi hi
    rw [hzc]
    exact hready i fi hi
  copies := by
    intro hz
    obtain ⟨hnil, hempty⟩ := h.copies hz
    refine ⟨hzc.trans hnil, ?_⟩
    rcases hrel with ⟨hrel, -⟩ | hrel
    · exact hrel.trans hempty
    · exact hrel
  behind := by
    intro hover
    rcases hrel with ⟨hrel, hempty⟩ | hrel
    · exact hrel.trans (hempty hover)
    · exact hrel
  lost := hlost.trans h.lost

/-- The same, with nothing new to present. -/
theorem Inv.of_threads (h : Inv c s) (haccount : Account (t.keeps c) t.vdec)
    (hfits : t.main.Fits c t.worker t.result) (hzc : t.zc = s.zc) (hheld : t.held = s.held)
    (hreleases : t.releases = s.releases) (hlost : t.lost = s.lost)
    (hrel : t.rel = s.rel ∧ (t.main.Over → s.rel = []) ∨ t.rel = [])
    (hready : t.main.ready = none ∨ t.main.ready = s.main.ready) : Inv c t := by
  refine h.of_ready haccount hfits hzc hheld hreleases hlost hrel ?_
  intro i fi hi
  rcases hready with hnone | hsame
  · rw [hnone] at hi
    cases hi
  · exact h.ready i fi (hsame ▸ hi)

/-- A step of `main`, with no picture to present. -/
theorem Inv.goes {m : Main} {w : Worker} {r : Option Picture} {v : Book Picture} {stop : Bool}
    {dry : ℕ} (h : Inv c s)
    (haccount : Account (State.keeps c
      { s with main := m, worker := w, result := r, vdec := v, stop := stop, dry := dry }) v)
    (hfits : m.Fits c w r) (hover : ¬ m.Over) (hready : m.ready = none) :
    Inv c { s with main := m, worker := w, result := r, vdec := v, stop := stop, dry := dry } :=
  h.of_threads haccount hfits rfl rfl rfl rfl (Or.inl ⟨rfl, fun hno => absurd hno hover⟩)
    (Or.inl hready)

/-! ### The steps -/

/-- Behind the loop, with nothing in the hands of `main`. -/
theorem Inv.leave {v : Book Picture} (h : Inv c s)
    (haccount : Account (fun q => (s.worker.held s.result).count q + s.rel.count q +
      s.lost.count q + s.zc.countP (busyWith q)) v)
    (hworker : if c.pipeline then s.worker.Runs else s.worker = .off) :
    Inv c (leave c { s with vdec := v }) := by
  rw [Playback.leave]
  cases hp : c.pipeline with
  | true =>
      rw [hp, if_pos rfl] at hworker
      rw [if_pos rfl]
      refine h.goes (haccount.move fun q => ?_) ⟨hp, hworker⟩ id rfl
      simp only [State.keeps, Main.held, List.count_nil]
      omega
  | false =>
      rw [hp, if_neg (by decide)] at hworker
      rw [if_neg (by decide)]
      refine h.of_threads (haccount.move fun q => ?_) ?_ rfl rfl rfl rfl (Or.inr rfl)
        (Or.inl (ready_lastFlush _))
      · simp only [State.keeps, held_lastFlush, List.count_nil]
        omega
      · have hfits := fits_lastFlush (c := c) s.result s.rel
        rw [hp, if_neg (by decide)] at hfits
        show (Main.lastFlush s.rel).Fits c s.worker s.result
        rw [hworker]
        exact hfits

/-- The worker has quit. -/
theorem Inv.join {v : Book Picture} (h : Inv c s)
    (haccount : Account (fun q => s.rel.count q + s.lost.count q +
      s.zc.countP (busyWith q)) v) (hp : c.pipeline = true) :
    Inv c (join { s with vdec := v }) := by
  refine h.of_threads (haccount.move fun q => ?_) ?_ rfl rfl rfl rfl (Or.inr rfl)
    (Or.inl (ready_lastFlush _))
  · simp only [State.keeps, Playback.join, held_lastFlush, Worker.held, List.count_nil]
    omega
  · have hfits := fits_lastFlush (c := c) s.result s.rel
    rw [hp, if_pos rfl] at hfits
    exact hfits

/-- The decoder answers the worker. -/
theorem Inv.workerAnswered {answer : Answer} (h : Inv c s)
    (hstep : workerAnswered c answer s = some t) : Inv c t := by
  rw [Playback.workerAnswered] at hstep
  cases hw : s.worker with
  | off | idle | joined => rw [hw] at hstep; cases hstep
  | releasing fi rest =>
      rw [hw] at hstep
      cases hstep
      refine h.of_threads (h.account.giveBack fun q => ?_)
        (h.fits.runs (by rw [hw]; trivial) (runs_run rest)) rfl rfl rfl rfl
        (Or.inl ⟨rfl, h.behind⟩) (Or.inr rfl)
      simp only [State.keeps, hw, held_run]
      simp only [Worker.held, count_cons_eq fi q rest]
      omega
  | decode d =>
      rw [hw] at hstep
      obtain ⟨⟨p, v⟩, hd, hgoes⟩ := Option.map_eq_some_iff.mp hstep
      have haccount : Account (fun q => p.held.count q + ((s.main.held c.pipeline).count q +
          s.rel.count q + s.lost.count q + s.zc.countP (busyWith q))) v := by
        refine Account.decode (h.account.move fun q => ?_) hd
        simp only [State.keeps, hw, Worker.held]
        omega
      have hin : s.worker.InDecoder := by rw [hw]; trivial
      cases p with
      | goes d =>
          cases hgoes
          refine h.of_threads (haccount.move fun q => ?_) (h.fits.runs hin trivial) rfl rfl rfl rfl
            (Or.inl ⟨rfl, h.behind⟩) (Or.inr rfl)
          simp only [State.keeps, Worker.held, Progress.held]
          omega
      | ends r =>
          cases hgoes
          refine h.of_threads (haccount.move fun q => ?_) (h.fits.runs hin trivial) rfl rfl rfl rfl
            (Or.inl ⟨rfl, h.behind⟩) (Or.inr rfl)
          simp only [State.keeps, Worker.held, Progress.held]
          omega

/-- The decoder answers `main`. -/
theorem Inv.mainAnswered {answer : Answer} (h : Inv c s)
    (hstep : mainAnswered c answer s = some t) : Inv c t := by
  have haccount := h.account
  have hfits := h.fits
  have hbehind := h.behind
  rw [Playback.mainAnswered] at hstep
  cases hm : s.main with
  | page k | top | wait | taken r | copy fi | submit r zc | pace zc fi | pump | bottom | close
  | ended => rw [hm] at hstep; cases hstep
  | pageSend k =>
      rw [hm] at hstep hfits
      cases hstep
      refine h.goes (haccount.move fun q => ?_) hfits id rfl
      simp only [State.keeps, hm]
      rfl
  | pageGet k | pageDrain k =>
      rw [hm] at hstep hfits
      cases answer with
      | picture buffer =>
          obtain ⟨fi, hfi, rfl⟩ := Option.map_eq_some_iff.mp hstep
          refine h.goes (haccount.get hfi fun q => ?_) hfits id rfl
          simp only [State.keeps, hm, Main.held, List.count_nil]
          omega
      | done | failed =>
          cases hstep
          refine h.goes (haccount.move fun q => ?_) hfits id rfl
          simp only [State.keeps, hm]
          rfl
  | pageRelease k fi =>
      rw [hm] at hstep hfits
      cases hstep
      refine h.goes (haccount.giveBack fun q => ?_) hfits id rfl
      simp only [State.keeps, hm, Main.held, List.count_nil]
      omega
  | flush fi rest =>
      rw [hm] at hstep hfits
      cases hstep
      obtain ⟨hp, hoff⟩ := hfits
      refine h.of_threads (haccount.giveBack fun q => ?_) ?_ rfl rfl rfl rfl
        (Or.inl ⟨rfl, ?_⟩) (Or.inl (ready_flushed rest))
      · simp only [State.keeps, hm, held_flushed]
        simp only [Main.held, count_cons_eq fi q rest]
        omega
      · rw [hoff]
        exact fits_flushed hp _ rest
      · cases rest <;> exact False.elim
  | decode d =>
      rw [hm] at hstep hfits
      obtain ⟨hp, hoff⟩ := hfits
      obtain ⟨⟨p, v⟩, hd, hgoes⟩ := Option.map_eq_some_iff.mp hstep
      have hrest : Account (fun q => p.held.count q + ((s.worker.held s.result).count q +
          s.rel.count q + s.lost.count q + s.zc.countP (busyWith q))) v := by
        refine Account.decode (haccount.move fun q => ?_) hd
        simp only [State.keeps, hm, Main.held]
        omega
      cases p with
      | goes d =>
          cases hgoes
          refine h.goes (hrest.move fun q => ?_) ⟨hp, hoff⟩ id rfl
          simp only [State.keeps, Main.held, Progress.held]
          omega
      | ends r =>
          cases hgoes
          refine h.goes (hrest.move fun q => ?_) ?_ id rfl
          · simp only [State.keeps, Main.held, hp, Progress.held, Bool.false_eq_true, if_false]
            omega
          · simp only [Main.Fits, hp, Bool.false_eq_true, if_false]
            exact hoff
  | giveBack fi =>
      rw [hm] at hstep hfits
      cases hstep
      obtain ⟨hp, hoff⟩ := hfits
      refine h.goes (haccount.giveBack fun q => ?_) ?_ id rfl
      · simp only [State.keeps, hm, Main.held, List.count_nil]
        omega
      · simp only [Main.Fits, hp, Bool.false_eq_true, if_false]
        exact hoff
  | drop fi =>
      rw [hm] at hstep hfits
      cases hstep
      obtain ⟨hp, hoff⟩ := hfits
      refine h.leave (haccount.giveBack fun q => ?_) ?_
      · simp only [State.keeps, hm, Main.held]
        omega
      · rw [hp]
        exact hoff
  | closing fi =>
      rw [hm] at hstep hfits
      cases hstep
      obtain ⟨hp, hidle, hresult⟩ := hfits
      refine h.join (haccount.giveBack fun q => ?_) hp
      simp only [State.keeps, hm, hidle, hresult, Main.held, Worker.held, Option.toList,
        List.count_nil]
      omega
  | last fi rest =>
      rw [hm] at hstep hfits hbehind
      cases hstep
      refine h.of_threads (haccount.giveBack fun q => ?_) ?_ rfl rfl rfl rfl
        (Or.inl ⟨rfl, fun _ => hbehind trivial⟩) (Or.inl (ready_lastFlush rest))
      · simp only [State.keeps, hm, held_lastFlush]
        simp only [Main.held, count_cons_eq fi q rest]
        omega
      · cases rest <;> exact hfits

/-- The condition of a loop. -/
theorem Inv.loop (h : Inv c s) (hstep : loop c s = some t) : Inv c t := by
  have haccount := h.account
  have hfits := h.fits
  rw [Playback.loop] at hstep
  cases hm : s.main with
  | page k =>
      rw [hm] at hstep hfits
      have hoff : s.worker = .off := hfits
      simp only at hstep
      split at hstep
      · cases hstep
        refine h.goes (haccount.move fun q => ?_) hfits id rfl
        simp only [State.keeps, hm]
        rfl
      split at hstep
      · rename_i hp
        cases hstep
        refine h.of_threads (haccount.move fun q => ?_) ?_ rfl rfl rfl rfl (Or.inr rfl)
          (Or.inl rfl)
        · simp only [State.keeps, workerSubmit, held_run]
          simp only [hm, hoff, Worker.held, Main.held, List.count_nil]
          omega
        · simp only [workerSubmit, Main.Fits, hp, if_true]
          exact runs_run s.rel
      · rename_i hp
        cases hstep
        refine h.goes (haccount.move fun q => ?_) ?_ id rfl
        · simp only [State.keeps, hm]
          rfl
        · rw [Main.Fits, if_neg hp]
          exact hoff
  | top =>
      rw [hm] at hstep hfits
      simp only at hstep
      split at hstep
      · cases hstep
        refine h.leave (haccount.move fun q => ?_) hfits
        simp only [State.keeps, hm, Main.held, List.count_nil]
        omega
      split at hstep
      · rename_i hp
        cases hstep
        rw [Main.Fits, if_pos hp] at hfits
        refine h.goes (haccount.move fun q => ?_) ⟨hp, hfits⟩ id rfl
        simp only [State.keeps, hm]
        rfl
      · rename_i hp
        cases hstep
        rw [Main.Fits, if_neg hp] at hfits
        refine h.of_threads (haccount.move fun q => ?_) ?_ rfl rfl rfl rfl (Or.inr rfl)
          (Or.inl (ready_flushed _))
        · simp only [State.keeps, held_flushed]
          simp only [hm, Main.held, List.count_nil]
          omega
        · show (Main.flushed s.rel).Fits c s.worker s.result
          rw [hfits]
          exact fits_flushed (Bool.eq_false_iff.mpr hp) _ _
  | _ => rw [hm] at hstep; cases hstep

/-- `worker_wait` returns. -/
theorem Inv.waited (h : Inv c s) (hstep : waited s = some t) : Inv c t := by
  have haccount := h.account
  have hfits := h.fits
  rw [Playback.waited] at hstep
  split at hstep
  · rename_i hidle
    cases hm : s.main with
    | wait =>
        rw [hm] at hstep hfits
        cases hstep
        obtain ⟨hp, -⟩ := hfits
        refine h.goes (haccount.move fun q => ?_) ?_ id rfl
        · simp only [State.keeps, hm, Main.held, hp, if_true]
        · simp only [Main.Fits, hp, if_true]
          exact ⟨hidle, trivial⟩
    | close =>
        rw [hm] at hstep hfits
        obtain ⟨hp, -⟩ := hfits
        cases hr : s.result with
        | some fi =>
            rw [hr] at hstep
            cases hstep
            refine h.goes (haccount.move fun q => ?_) ⟨hp, hidle, rfl⟩ id rfl
            simp only [State.keeps, hm, hr]
            rfl
        | none =>
            rw [hr] at hstep
            cases hstep
            refine h.join (haccount.move fun q => ?_) hp
            simp only [State.keeps, hm, hidle, hr, Main.held, Worker.held, Option.toList,
              List.count_nil]
            omega
    | _ => rw [hm] at hstep; cases hstep
  · cases hstep

/-- The picture is read. -/
theorem Inv.copied (h : Inv c s) (hstep : copied c s = some t) : Inv c t := by
  have haccount := h.account
  have hfits := h.fits
  rw [Playback.copied] at hstep
  cases hm : s.main with
  | copy fi =>
      rw [hm] at hstep hfits
      cases hstep
      obtain ⟨hz, hfits⟩ := hfits
      cases hp : c.pipeline with
      | true =>
          rw [if_pos hp] at hfits
          refine h.goes (haccount.move fun q => ?_) ?_ id rfl
          · simp only [State.keeps, hm, Main.held, hp, if_true]
          · exact ⟨hp, hfits.1, hfits.2, fun _ => hz.symm⟩
      | false =>
          rw [if_neg (by rw [hp]; decide)] at hfits
          refine h.goes (haccount.move fun q => ?_) ⟨hp, hfits⟩ id rfl
          simp only [State.keeps, hm, Main.held, hp, Bool.false_eq_true, if_false]
  | _ => rw [hm] at hstep; cases hstep

/-- The records after `zc_get`. -/
theorem Inv.zcGet {e : Export} {zc : List ZcBuf} {found : Option ℕ} (h : Inv c s)
    (hz : c.zeroCopy = true) (hready : s.main.ready = none)
    (hget : zcGet fi e s.zc = (zc, found)) : Inv c { s with zc := zc } := by
  rcases (zcGet_spec hget).1 with rfl | ⟨rfl, hnew, hroom⟩
  · exact h
  · exact {
      account := h.account.move fun q => by
        simp only [State.keeps, countP_append_free]
      fits := h.fits
      buffers := h.buffers.append hnew (lt_of_le_of_ne h.buffers.size hroom)
      rel := fun q hq => by
        rw [List.map_append]
        exact List.mem_append_left _ (h.rel q hq)
      ready := fun i q hi => by
        have hnone : s.main.ready = some (i, q) := hi
        rw [hready] at hnone
        cases hnone
      copies := fun hno => by
        rw [hz] at hno
        cases hno
      behind := h.behind
      lost := h.lost }

/-- A `break` with the picture in hand. -/
theorem Inv.breakWith (h : Inv c s) (hm : s.main = .taken (some fi)) :
    Inv c (breakWith c fi s) := by
  have haccount := h.account
  have hfits := h.fits
  rw [hm] at hfits
  rw [Playback.breakWith]
  cases hp : c.pipeline with
  | true =>
      rw [Main.Fits, if_pos hp] at hfits
      rw [if_pos rfl]
      refine h.leave (haccount.move fun q => ?_) ?_
      · simp only [State.keeps, hm, Main.held, hp, if_true, List.count_nil]
        omega
      · rw [if_pos hp, hfits.1]
        trivial
  | false =>
      rw [Main.Fits, if_neg (by rw [hp]; decide)] at hfits
      rw [if_neg (by decide)]
      refine h.goes (haccount.move fun q => ?_) ⟨hp, hfits⟩ id rfl
      simp only [State.keeps, hm, Main.held, hp, Bool.false_eq_true, if_false]
      rfl

theorem Inv.dry (h : Inv c s) (n : ℕ) : Inv c { s with dry := n } :=
  h.of_threads h.account h.fits rfl rfl rfl rfl (Or.inl ⟨rfl, h.behind⟩) (Or.inr rfl)

/-- What `main` needs for its picture is there, or is not. -/
theorem Inv.take {e : Export} (h : Inv c s) (hstep : take c e s = some t) : Inv c t := by
  have hfits := h.fits
  rw [Playback.take] at hstep
  cases hm : s.main with
  | taken r =>
      rw [hm] at hstep hfits
      cases r with
      | none =>
          have h := h.dry (s.dry + 1)
          have haccount := h.account
          simp only at hstep
          split at hstep
          · cases hstep
            refine h.leave (haccount.move fun q => ?_) hfits.taken
            simp [State.keeps, hm, Main.held]
          cases hp : c.pipeline with
          | true =>
              rw [hp, if_pos rfl] at hstep
              cases hstep
              rw [Main.Fits, if_pos hp] at hfits
              refine h.goes (haccount.move fun q => ?_)
                ⟨hp, hfits.1, hfits.2, fun hno => by cases hno⟩ id rfl
              simp [State.keeps, hm, Main.held]
          | false =>
              rw [hp, if_neg (by decide)] at hstep
              cases hstep
              refine h.of_threads (haccount.move fun q => ?_) (fits_shown hfits.taken _)
                rfl rfl rfl rfl (Or.inl ⟨rfl, fun hno => absurd hno not_over_shown⟩)
                (Or.inl ready_shown)
              simp only [State.keeps, held_shown]
              simp [hm, Main.held]
      | some fi =>
          have h := h.dry 0
          have haccount := h.account
          simp only at hstep
          split at hstep
          · rename_i hz
            split at hstep
            · rename_i zc hget
              cases hstep
              exact (h.zcGet hz (by simp only [hm]; rfl) hget).breakWith hm
            · rename_i zc i hget
              cases hstep
              have h := h.zcGet hz (by simp only [hm]; rfl) hget
              have haccount := h.account
              have hfree := (zcGet_spec hget).2 i rfl
              cases hp : c.pipeline with
              | true =>
                  rw [Main.Fits, if_pos hp] at hfits
                  refine h.of_ready (haccount.move fun q => ?_)
                    ⟨hp, hfits.1, hfits.2, fun _ => hz.symm⟩ rfl rfl rfl rfl
                    (Or.inl ⟨rfl, False.elim⟩) ?_
                  · simp [State.keeps, hm, Main.held, hp]
                  · intro j q hj
                    obtain ⟨rfl, rfl⟩ := Prod.mk.inj (Option.some.inj hj)
                    exact hfree
              | false =>
                  refine h.of_ready (haccount.move fun q => ?_) hfits.taken rfl rfl rfl rfl
                    (Or.inl ⟨rfl, False.elim⟩) ?_
                  · simp [State.keeps, hm, Main.held, hp]
                  · intro j q hj
                    obtain ⟨rfl, rfl⟩ := Prod.mk.inj (Option.some.inj hj)
                    exact hfree
          · rename_i hz
            have hz := Bool.eq_false_iff.mpr hz
            split at hstep
            · cases hstep
              refine h.goes (haccount.move fun q => ?_) ⟨hz, hfits⟩ id rfl
              simp only [State.keeps, hm, Main.held, Option.toList]
            · cases hstep
              exact h.breakWith hm
  | _ => rw [hm] at hstep; cases hstep

/-- A picture joins the queue, and the queue goes to the worker. -/
theorem Inv.submit (h : Inv c s) (hstep : submit c s = some t) : Inv c t := by
  have haccount := h.account
  have hfits := h.fits
  rw [Playback.submit] at hstep
  cases hm : s.main with
  | submit r zc =>
      rw [hm] at hstep hfits
      obtain ⟨hp, hidle, hresult, hzc⟩ := hfits
      have hruns (rel : List Picture) :
          if c.pipeline then (Worker.run rel).Runs else Worker.run rel = .off := by
        rw [if_pos hp]
        exact runs_run rel
      cases r with
      | none =>
          cases hstep
          refine h.of_threads (haccount.move fun q => ?_) (fits_shown (hruns s.rel) _)
            rfl rfl rfl rfl (Or.inr rfl) (Or.inl ready_shown)
          simp only [State.keeps, workerSubmit, held_run, held_shown]
          simp only [hm, hidle, hresult, Main.held, Worker.held, Option.toList, List.count_nil]
          omega
      | some fi =>
          have hsome := hzc rfl
          cases hz : c.zeroCopy with
          | true =>
              rw [hz] at hsome
              obtain ⟨i, rfl⟩ := Option.isSome_iff_exists.mp hsome
              simp only [hz, if_true] at hstep
              cases hstep
              refine h.of_threads (haccount.move fun q => ?_) (hruns s.rel)
                rfl rfl rfl rfl (Or.inr rfl) (Or.inr (by rw [hm]; rfl))
              simp only [State.keeps, workerSubmit, held_run]
              simp only [hm, hidle, hresult, Main.held, Worker.held, Option.toList, Option.map,
                Option.getD, List.count_nil]
              omega
          | false =>
              obtain rfl : zc = none := by
                rw [hz] at hsome
                exact Option.not_isSome_iff_eq_none.mp (by rw [hsome]; decide)
              obtain ⟨-, hrel⟩ := h.copies hz
              have hpush : relPush fi s = { s with rel := [fi] } := by
                rw [relPush, hrel, if_neg (by decide)]
                rfl
              simp only [hz, Bool.false_eq_true, if_false, hpush] at hstep
              cases hstep
              refine h.of_threads (haccount.move fun q => ?_) (fits_shown (hruns [fi]) _)
                rfl rfl rfl rfl (Or.inr rfl) (Or.inl ready_shown)
              simp only [State.keeps, workerSubmit, held_run, Option.map, Option.getD, held_shown]
              simp only [hm, hidle, hresult, hrel, Main.held, Worker.held, Option.toList,
                List.count_nil]
  | _ => rw [hm] at hstep; cases hstep

/-- The compositor gives a buffer back. -/
theorem Inv.giveUp (h : Inv c s) (hstep : giveUp i s = some t) : Inv c t := by
  rw [Playback.giveUp] at hstep
  split at hstep
  · rename_i hi
    cases hstep
    have hperm : (s.held ++ s.releases).Perm (s.held.erase i ++ (s.releases ++ [i])) := by
      refine ((List.perm_cons_erase hi).append_right s.releases).trans ?_
      rw [List.cons_append, ← List.append_assoc]
      exact (List.perm_append_singleton i _).symm
    exact {
      account := h.account
      fits := h.fits
      buffers := {
        nodup := h.buffers.nodup
        size := h.buffers.size
        on := h.buffers.on
        busy := fun j hj => h.buffers.busy j (hperm.mem_iff.mpr hj)
        once := hperm.nodup_iff.mp h.buffers.once }
      rel := h.rel
      ready := h.ready
      copies := h.copies
      behind := h.behind
      lost := h.lost }
  · cases hstep

/-- The pictures in the queue and on the buffers have a record each, so there is room for another
as long as one is on a buffer. -/
theorem Inv.room (h : Inv c s) {pa : ℕ} (hget : s.zc[i]? = some ⟨pa, some fi⟩) :
    s.rel.length < maxHeld := by
  have hcount (q : Picture) :
      (s.rel ++ s.zc.filterMap ZcBuf.fi).count q = s.rel.count q + s.zc.countP (busyWith q) := by
    rw [List.count_append, count_shown]
  have hplaces (q : Picture) (hq : q ∈ s.rel ++ s.zc.filterMap ZcBuf.fi) : s.vdec.Out q := by
    rw [← h.account.custody.held_iff, State.keeps]
    have hpos := List.count_pos_iff.mpr hq
    rw [hcount] at hpos
    omega
  have hnodup : (s.rel ++ s.zc.filterMap ZcBuf.fi).Nodup := by
    rw [List.nodup_iff_count_le_one]
    intro q
    have hle := h.account.custody.le_one q
    rw [State.keeps] at hle
    rw [hcount]
    omega
  have hslots (q : Picture) (hq : q ∈ s.rel ++ s.zc.filterMap ZcBuf.fi) :
      q.buffer ∈ s.zc.map ZcBuf.pa := by
    rcases List.mem_append.mp hq with hq | hq
    · exact h.rel q hq
    · obtain ⟨z, hz, hfi⟩ := List.mem_filterMap.mp hq
      rw [h.buffers.on z hz q hfi]
      exact List.mem_map_of_mem hz
  have hle := h.account.apart.length_le hnodup hplaces hslots
  have hsize := h.buffers.size
  have hpos : 0 < (s.zc.filterMap ZcBuf.fi).length := by
    refine List.length_pos_of_mem (a := fi) (List.mem_filterMap.mpr ?_)
    exact ⟨⟨pa, some fi⟩, List.mem_of_getElem? hget, rfl⟩
  rw [List.length_append, List.length_map] at hle
  omega

/-- **A release is read**: its picture goes from the buffer to the queue. -/
theorem Inv.released {rest : List ℕ} (h : Inv c s) (hreleases : s.releases = i :: rest)
    (hbehind : ¬ s.main.Over) : Inv c (zcReleased i { s with releases := rest }) := by
  have hmem : i ∈ s.held ++ s.releases := by
    rw [hreleases]
    exact List.mem_append_right _ List.mem_cons_self
  obtain ⟨pa, fi, hget⟩ := h.buffers.busy i hmem
  have hroom := h.room hget
  have honce := h.buffers.once
  rw [hreleases, List.nodup_append] at honce
  obtain ⟨hheld, hrest, hapart⟩ := honce
  obtain ⟨hout, hrest⟩ := List.nodup_cons.mp hrest
  have hnot (j : ℕ) (hj : j ∈ s.held ++ rest) : j ≠ i := by
    rintro rfl
    rcases List.mem_append.mp hj with hj | hj
    · exact hapart j hj j List.mem_cons_self rfl
    · exact hout hj
  have hstate : zcReleased i { s with releases := rest } =
      { s with releases := rest, zc := s.zc.set i ⟨pa, none⟩, rel := s.rel ++ [fi] } := by
    unfold zcReleased
    simp only [hget, relPush]
    rw [if_neg hroom.ne]
  rw [hstate]
  exact {
    account := h.account.move fun q => by
      have hset := countP_released hget q
      simp only [State.keeps, List.count_append]
      omega
    fits := h.fits
    buffers := h.buffers.set hget (fun _ hno => by cases hno)
      (fun j hj => Or.inr ⟨hnot j hj, by
        rw [hreleases]
        rcases List.mem_append.mp hj with hj | hj
        · exact List.mem_append_left _ hj
        · exact List.mem_append_right _ (List.mem_cons_of_mem _ hj)⟩)
      (by
        rw [List.nodup_append]
        exact ⟨hheld, hrest, fun a ha b hb => hapart a ha b (List.mem_cons_of_mem _ hb)⟩)
    rel := fun q hq => by
      rw [map_pa_set hget none]
      rcases List.mem_append.mp hq with hq | hq
      · exact h.rel q hq
      · rw [List.mem_singleton.mp hq, h.buffers.on _ (List.mem_of_getElem? hget) fi rfl]
        exact List.mem_map_of_mem (List.mem_of_getElem? hget)
    ready := fun j q hj => by
      have hfree := h.ready j q hj
      rw [Table.get_set hget]
      split
      · rename_i hij
        rw [← hij, hget] at hfree
        cases hfree
      · exact hfree
    copies := fun hz => by
      rw [(h.copies hz).1] at hget
      cases hget
    behind := fun hover => absurd hover hbehind
    lost := h.lost }

theorem Inv.dispatch (h : Inv c s) (hstep : dispatch s = some t) : Inv c t := by
  unfold Playback.dispatch at hstep
  split at hstep
  · rename_i hm _ hreleases
    cases hstep
    exact h.released hreleases (by rw [hm]; exact id)
  · rename_i hm _ hreleases
    cases hstep
    exact h.released hreleases (by rw [hm]; exact id)
  · cases hstep

theorem Inv.disconnect (h : Inv c s) (hstep : disconnect s = some t) : Inv c t := by
  unfold Playback.disconnect at hstep
  split at hstep
  · cases hstep
    exact h.of_threads h.account h.fits rfl rfl rfl rfl (Or.inl ⟨rfl, h.behind⟩) (Or.inr rfl)
  · cases hstep
    exact h.of_threads h.account h.fits rfl rfl rfl rfl (Or.inl ⟨rfl, h.behind⟩) (Or.inr rfl)
  · cases hstep

/-- **The present**: the picture goes on its buffer, whether the compositor gets it or not. -/
theorem Inv.present {flushed : Bool} (h : Inv c s) (hstep : present flushed s = some t) :
    Inv c t := by
  have haccount := h.account
  have hfits := h.fits
  rw [Playback.present] at hstep
  cases hm : s.main with
  | pace i fi =>
      rw [hm] at hstep hfits
      have hget := h.ready i fi (by rw [hm]; rfl)
      have hfree : i ∉ s.held ++ s.releases := by
        intro hmem
        obtain ⟨pa, q, hbusy⟩ := h.buffers.busy i hmem
        rw [hget] at hbusy
        cases hbusy
      have hthreads {held : List ℕ} {dead stop : Bool}
          (hheld : ∀ j ∈ held, j = i ∨ j ∈ s.held) (honce : (held ++ s.releases).Nodup) :
          Inv c { s with
            main := .pump, zc := s.zc.set i ⟨fi.buffer, some fi⟩, held := held, dead := dead,
            stop := stop } := by
        exact {
          account := haccount.move fun q => by
            simp only [State.keeps, hm, Main.held, countP_presented hget, List.count_nil]
            omega
          fits := hfits
          buffers := h.buffers.set hget (fun q hq => by rw [Option.some.inj hq])
            (fun j hj => by
              rcases eq_or_ne j i with rfl | hji
              · exact Or.inl ⟨rfl, rfl⟩
              · refine Or.inr ⟨hji, ?_⟩
                rcases List.mem_append.mp hj with hj | hj
                · exact List.mem_append_left _ ((hheld j hj).resolve_left hji)
                · exact List.mem_append_right _ hj)
            honce
          rel := fun q hq => by
            rw [map_pa_set hget]
            exact h.rel q hq
          ready := fun _ _ hno => by cases hno
          copies := fun hz => by
            rw [(h.copies hz).1] at hget
            cases hget
          behind := False.elim
          lost := h.lost }
      simp only at hstep
      split at hstep
      · cases hstep
        refine hthreads (fun j hj => List.mem_cons.mp hj) ?_
        rw [List.cons_append]
        exact List.nodup_cons.mpr ⟨hfree, h.buffers.once⟩
      · cases hstep
        exact hthreads (fun j hj => Or.inr hj) h.buffers.once
  | _ => rw [hm] at hstep; cases hstep

/-- The end of the loop's body. -/
theorem Inv.next {late : Bool} (h : Inv c s) (hm : s.main = .bottom) :
    Inv c (if late then Playback.leave c s else { s with main := .top }) := by
  have haccount := h.account
  have hfits := h.fits
  rw [hm] at hfits
  split
  · refine h.leave (haccount.move fun q => ?_) hfits
    simp only [State.keeps, hm, Main.held, List.count_nil]
    omega
  · refine h.goes (haccount.move fun q => ?_) hfits id rfl
    simp only [State.keeps, hm]
    rfl

/-- **One step.** -/
theorem Inv.step {a : Act} (h : Inv c s) (hstep : step c s a = some t) : Inv c t := by
  cases a with
  | stop =>
      cases hstep
      exact h.of_threads h.account h.fits rfl rfl rfl rfl (Or.inl ⟨rfl, h.behind⟩) (Or.inr rfl)
  | main answer => exact h.mainAnswered hstep
  | worker answer => exact h.workerAnswered hstep
  | loop => exact h.loop hstep
  | waited => exact h.waited hstep
  | take e => exact h.take hstep
  | copied => exact h.copied hstep
  | submit => exact h.submit hstep
  | giveUp i => exact h.giveUp hstep
  | dispatch => exact h.dispatch hstep
  | disconnect => exact h.disconnect hstep
  | present flushed => exact h.present hstep
  | dispatched =>
      have hfits := h.fits
      rw [Playback.step] at hstep
      split at hstep
      · rename_i hm
        cases hstep
        rw [hm] at hfits
        refine h.goes (h.account.move fun q => ?_) hfits id rfl
        simp only [State.keeps, hm]
        rfl
      · cases hstep
  | next late =>
      rw [Playback.step] at hstep
      split at hstep
      · rename_i hm
        cases hstep
        exact h.next hm
      · cases hstep

theorem run_inv {as : List Act} (h : Run (step c) Playback.start as s) : Inv c s :=
  h.invariant (fun _ _ _ hinv _ hstep => hinv.step hstep) (Inv.start c)

/-! ### What the invariant says -/

theorem DecodeAus.mem_held {d : DecodeAus} (h : d.givesBack = some fi) : fi ∈ d.held := by
  cases d with
  | stale a old nx =>
      cases h
      exact List.mem_cons_self
  | release a old =>
      cases h
      exact List.mem_cons_self
  | _ => cases h

/-- A picture that is given back is in the hands of the thread that does. -/
theorem Inv.in_hands (h : Inv c s) (hfi : s.GivesBack fi) :
    0 < (s.main.held c.pipeline).count fi + (s.worker.held s.result).count fi := by
  rcases hfi with hmain | hworker
  · have hfits := h.fits
    cases hm : s.main with
    | pageRelease k q | flush q rest | giveBack q | drop q | last q rest =>
        rw [hm] at hmain
        cases hmain
        simp [Main.held]
    | decode d =>
        rw [hm] at hmain
        have hpos := List.count_pos_iff.mpr (DecodeAus.mem_held hmain)
        simp only [Main.held]
        omega
    | closing q =>
        rw [hm] at hmain hfits
        cases hmain
        obtain ⟨-, hidle, hresult⟩ := hfits
        simp [hidle, hresult, Worker.held]
    | _ => rw [hm] at hmain; cases hmain
  · cases hw : s.worker with
    | releasing q rest =>
        rw [hw] at hworker
        cases hworker
        simp [Worker.held]
    | decode d =>
        rw [hw] at hworker
        have hpos := List.count_pos_iff.mpr (DecodeAus.mem_held hworker)
        simp only [Worker.held]
        omega
    | _ => rw [hw] at hworker; cases hworker

theorem Inv.out_of_givesBack (h : Inv c s) (hfi : s.GivesBack fi) : s.vdec.Out fi := by
  rw [← h.account.custody.held_iff, State.keeps]
  have hpos := h.in_hands hfi
  omega

/-- `main` does not read a picture while a thread gives one back. -/
theorem Inv.not_reading (h : Inv c s) (hfi : s.GivesBack fi) : s.main ≠ .copy fi := by
  intro hm
  rcases hfi with hmain | hworker
  · rw [hm] at hmain
    cases hmain
  · have hfits := h.fits
    rw [hm] at hfits
    cases hp : c.pipeline with
    | true =>
        have hidle := (if_pos hp ▸ hfits.2).1
        rw [hidle] at hworker
        cases hworker
    | false =>
        have hoff := hfits.2
        rw [if_neg (by rw [hp]; decide)] at hoff
        rw [hoff] at hworker
        cases hworker

/-- What is given back is not on a buffer that the compositor holds. -/
theorem Inv.not_onScreen (h : Inv c s) (hfi : s.GivesBack fi) : ¬ s.OnScreen fi.buffer := by
  rintro ⟨i, hi, z, hz, hpa⟩
  obtain ⟨pa, q, hbusy⟩ := h.buffers.busy i (List.mem_append_left _ hi)
  rw [hz] at hbusy
  obtain rfl := Option.some.inj hbusy
  have hmem : ⟨pa, some q⟩ ∈ s.zc := List.mem_of_getElem? hz
  have hshown : 0 < s.zc.countP (busyWith q) :=
    List.countP_pos_iff.mpr ⟨_, hmem, by simp [busyWith]⟩
  have hout : s.vdec.Out q := by
    rw [← h.account.custody.held_iff, State.keeps]
    omega
  have hsame : q = fi :=
    h.account.apart q fi hout (h.out_of_givesBack hfi) ((h.buffers.on _ hmem q rfl).trans hpa)
  subst hsame
  have hle := h.account.custody.le_one q
  have hpos := h.in_hands hfi
  rw [State.keeps] at hle
  omega

/-- Behind everything, what is still out is on a buffer. -/
theorem Inv.left (h : Inv c s) (hm : s.main = .ended) (hfi : fi ∈ s.vdec.lent) :
    fi ∈ s.vdec.returned ∨ ∃ z ∈ s.zc, z.fi = some fi := by
  rcases Decidable.em (fi ∈ s.vdec.returned) with hback | hback
  · exact Or.inl hback
  right
  have hpos := h.account.custody.held_iff.mpr ⟨hfi, hback⟩
  have hfits := h.fits
  have hrel := h.behind (by rw [hm]; trivial)
  have hworker : s.worker.held s.result = [] := by
    rw [hm] at hfits
    rw [show s.worker = _ from hfits]
    split <;> rfl
  rw [State.keeps, hm, hworker, hrel, h.lost] at hpos
  simp only [Main.held, List.count_nil, Nat.zero_add, List.countP_pos_iff] at hpos
  obtain ⟨z, hz, hbusy⟩ := hpos
  exact ⟨z, hz, of_decide_eq_true hbusy⟩

/-- A frame that the compositor shows and gives back, and the stop behind it. -/
def oneFrame : List Act :=
  [.loop, .main .done, .main .failed, .loop, .worker .done, .worker (.picture 5), .worker .failed,
    .loop, .waited, .take .good, .submit, .present true, .giveUp 0, .dispatch, .dispatched,
    .next true, .worker .failed, .waited, .main .done]

/-- The display goes while a picture waits for it. -/
def displayGone : List Act :=
  [.loop, .main .done, .main .failed, .loop, .loop, .main .done, .main (.picture 5),
    .main .failed, .take .good, .disconnect, .present true, .dispatched, .next false, .loop]

end BadgeOS.CodaCube.Playback
