import BadgeOS.Display.Ion
import Mathlib

/-!
# How long ION memory lives

The reference count of a buffer is the number of its holders, whatever the interleaving: the
list has one, a thread between two steps of a call may have one, and every dma-buf that was not
released has one.  So the put that leaves none is the last, and it alone frees the memory.

* `Inv`, `inv_step` — the count and what it says about the memory, kept by every move;
* `ion_memory_lifetime` — freed once, not before its holders are gone, and then freed.
-/

namespace BadgeOS.Display.Ion

open Transition State

/-- **The references** are counted, and the memory follows the count. -/
structure Inv (s : State) : Prop where
  ref : ∀ b, (s.buf b).ref = s.holders b
  frees : ∀ b, (s.buf b).frees + s.releasing b =
    if b < s.bufs.length ∧ (s.buf b).ref = 0 then 1 else 0
  refunds : ∀ b, (s.buf b).refunds + s.refunding b = (s.buf b).frees

variable {s s' : State} {t b : ℕ} {p p' : Pc} {r : Ret}

/-! ### What an update leaves -/

theorem lt_of_ref (h : (s.buf b).ref ≠ 0) : b < s.bufs.length := by
  by_contra hge
  apply h
  rw [buf, List.getElem?_eq_none (Nat.le_of_not_lt hge)]
  rfl

theorem buf_setBuf (hb : b < s.bufs.length) (f : Buffer → Buffer) (b' : ℕ) :
    (s.setBuf b f).buf b' = if b = b' then f (s.buf b) else s.buf b' := by
  rw [buf, setBuf, List.getElem?_modify, buf, buf]
  by_cases heq : b = b'
  · subst heq
    simp [List.getElem?_eq_getElem hb]
  · simp [heq]

theorem buf_charge (paddr len b' : ℕ) :
    (s.charge t paddr len).buf b' =
      if b' = s.bufs.length then { paddr, size := len, ref := 1 } else s.buf b' := by
  rw [buf, charge, Table.get_push, buf]
  split
  · rfl
  · rfl

theorem holders_goto (hp : s.threads[t]? = some p) (p' : Pc) (b : ℕ) :
    (s.goto t p').holders b + (if p.holds b then 1 else 0) =
      s.holders b + if p'.holds b then 1 else 0 := by
  have hcount := Table.countP_set (b := p') (Pc.holds b) hp
  show s.list.count b + (s.threads.set t p').countP (Pc.holds b) +
    s.dmabufs.countP (DmaBuf.holds b) + _ = _
  unfold holders
  omega

theorem releasing_goto (hp : s.threads[t]? = some p) (p' : Pc) (b : ℕ) :
    (s.goto t p').releasing b + (if p.releases b then 1 else 0) =
      s.releasing b + if p'.releases b then 1 else 0 :=
  Table.countP_set (Pc.releases b) hp

theorem refunding_goto (hp : s.threads[t]? = some p) (p' : Pc) (b : ℕ) :
    (s.goto t p').refunding b + (if p.refunds b then 1 else 0) =
      s.refunding b + if p'.refunds b then 1 else 0 :=
  Table.countP_set (Pc.refunds b) hp

/-- A dma-buf in another state. -/
theorem holders_setDma {d : ℕ} {D : DmaBuf} (state : DmaState) (h : s.dmabufs[d]? = some D)
    (b : ℕ) :
    (s.setDma d state).holders b + (if D.holds b then 1 else 0) =
      s.holders b + if DmaBuf.holds b { D with state } then 1 else 0 := by
  have hset : (s.setDma d state).dmabufs = s.dmabufs.set d { D with state } := by
    rw [setDma, List.modify_eq_set_getElem?, h]
    rfl
  have hcount := Table.countP_set (b := { D with state }) (DmaBuf.holds b) h
  unfold holders
  rw [hset]
  show s.list.count b + s.threads.countP (Pc.holds b) + _ + _ = _
  omega

theorem holders_pushDma {state : DmaState} (hstate : state ≠ .released) (b b' : ℕ) :
    (s.pushDma b state).holders b' = s.holders b' + if b = b' then 1 else 0 := by
  have hcount : (s.pushDma b state).dmabufs.countP (DmaBuf.holds b') =
      s.dmabufs.countP (DmaBuf.holds b') + if b = b' then 1 else 0 := by
    rw [pushDma, List.countP_append, List.countP_singleton]
    simp [DmaBuf.holds, hstate]
  unfold holders
  rw [hcount]
  show s.list.count b' + s.threads.countP (Pc.holds b') + _ = _
  omega

theorem holders_unlist (h : b ∈ s.list) (b' : ℕ) :
    (s.unlist b).holders b' + (if b = b' then 1 else 0) = s.holders b' := by
  have hcount : (s.unlist b).list.count b' + (if b = b' then 1 else 0) = s.list.count b' := by
    rw [unlist, List.count_erase]
    by_cases heq : b = b'
    · subst heq
      have hpos := List.count_pos_iff.2 h
      rw [if_pos rfl]
      simp
      omega
    · simp [heq]
  unfold holders
  show (s.unlist b).list.count b' + s.threads.countP (Pc.holds b') + s.dmabufs.countP _ + _ = _
  omega

/-! ### One move -/

theorem inv_init (n : ℕ) : Inv (State.init n) := by
  have hthreads (q : Pc → Bool) (hq : q (.idle .nothing) = false) :
      (State.init n).threads.countP q = 0 := by
    rw [State.init, List.countP_replicate, hq]
    rfl
  constructor
  · intro b
    rw [holders, hthreads _ rfl]
    rfl
  · intro b
    rw [releasing, hthreads _ rfl]
    rfl
  · intro b
    rw [refunding, hthreads _ rfl]
    rfl

theorem inv_quiet (h : Inv s) (hp : s.threads[t]? = some p) (halike : p.Alike p') :
    Inv (s.goto t p') := by
  constructor
  · intro b
    have hcount := holders_goto hp p' b
    rw [halike.holds] at hcount
    have hlast := h.ref b
    show (s.buf b).ref = _
    omega
  · intro b
    have hcount := releasing_goto hp p' b
    rw [halike.releases] at hcount
    have hlast := h.frees b
    show (s.buf b).frees + _ = if b < s.bufs.length ∧ (s.buf b).ref = 0 then 1 else 0
    omega
  · intro b
    have hcount := refunding_goto hp p' b
    rw [halike.refunds] at hcount
    have hlast := h.refunds b
    show (s.buf b).refunds + _ = (s.buf b).frees
    omega

/-- A buffer that is not there has no reference, and no memory to go. -/
theorem Inv.fresh (h : Inv s) (hb : s.bufs.length ≤ b) :
    s.holders b = 0 ∧ s.releasing b = 0 ∧ s.refunding b = 0 := by
  have hbuf : s.buf b = { paddr := 0, size := 0, ref := 0 } := by
    rw [buf, List.getElem?_eq_none hb]
    rfl
  have href := h.ref b
  have hfrees := h.frees b
  have hrefunds := h.refunds b
  rw [hbuf] at href hfrees hrefunds
  rw [if_neg (by omega)] at hfrees
  simp only at href hfrees hrefunds
  omega

theorem inv_charge (h : Inv s) {paddr len : ℕ}
    (hp : s.threads[t]? = some (.allocated paddr len)) : Inv (s.charge t paddr len) := by
  have hbuf := buf_charge (s := s) (t := t) paddr len
  have hlen : (s.charge t paddr len).bufs.length = s.bufs.length + 1 := by
    rw [charge, List.length_append, List.length_singleton]
  have hholders (b : ℕ) : (s.charge t paddr len).holders b =
      s.holders b + if s.bufs.length = b then 1 else 0 := by
    have hlist : (s.charge t paddr len).list.count b =
        s.list.count b + if s.bufs.length = b then 1 else 0 := by
      rw [charge, List.count_cons]
      simp
    have hthreads : (s.charge t paddr len).threads.countP (Pc.holds b) =
        s.threads.countP (Pc.holds b) := by
      have hcount := Table.countP_set (b := .idle (.buffer s.bufs.length)) (Pc.holds b) hp
      simp only [Pc.holds, Bool.false_eq_true, if_false, Nat.add_zero] at hcount
      exact hcount
    unfold holders
    rw [hlist, hthreads]
    show _ + s.dmabufs.countP (DmaBuf.holds b) = _
    omega
  constructor
  · intro b
    have hlast := h.ref b
    rw [hholders, hbuf]
    by_cases hb : b = s.bufs.length
    · rw [if_pos hb, if_pos hb.symm, (h.fresh hb.ge).1]
    · rw [if_neg hb, if_neg (Ne.symm hb), hlast]
      rfl
  · intro b
    have hlast := h.frees b
    have hcount := releasing_goto hp (.idle (.buffer s.bufs.length)) b
    rw [hbuf, hlen]
    show _ + (s.goto t (.idle (.buffer s.bufs.length))).releasing b = _
    simp only [Pc.releases, Bool.false_eq_true, if_false, Nat.add_zero] at hcount
    by_cases hb : b = s.bufs.length
    · rw [if_pos hb, hcount, (h.fresh hb.ge).2.1]
      simp
    · rw [if_neg hb, hcount, hlast]
      have hlt : b < s.bufs.length + 1 ↔ b < s.bufs.length := by omega
      simp only [hlt]
  · intro b
    have hlast := h.refunds b
    have hcount := refunding_goto hp (.idle (.buffer s.bufs.length)) b
    rw [hbuf]
    show _ + (s.goto t (.idle (.buffer s.bufs.length))).refunding b = _
    simp only [Pc.refunds, Bool.false_eq_true, if_false, Nat.add_zero] at hcount
    by_cases hb : b = s.bufs.length
    · rw [if_pos hb, hcount, (h.fresh hb.ge).2.2]
    · rw [if_neg hb, hcount, hlast]

/-- Off the list, the reference is the thread's. -/
theorem inv_unlist (h : Inv s) (hp : s.threads[t]? = some (.idle r)) (hb : b ∈ s.list) :
    Inv ((s.unlist b).goto t (.unlisted b)) := by
  have hp' : (s.unlist b).threads[t]? = some (.idle r) := hp
  constructor
  · intro b'
    have hlast := h.ref b'
    have hlist := holders_unlist hb b'
    have hcount := holders_goto hp' (.unlisted b) b'
    simp only [Pc.holds, Bool.false_eq_true, if_false, beq_iff_eq] at hcount
    show (s.buf b').ref = _
    omega
  · intro b'
    have hcount := releasing_goto hp' (.unlisted b) b'
    simp only [Pc.releases, Bool.false_eq_true, if_false] at hcount
    show (s.buf b').frees + _ = if b' < s.bufs.length ∧ (s.buf b').ref = 0 then 1 else 0
    exact (congrArg _ hcount).trans (h.frees b')
  · intro b'
    have hcount := refunding_goto hp' (.unlisted b) b'
    simp only [Pc.refunds, Bool.false_eq_true, if_false] at hcount
    show (s.buf b').refunds + _ = (s.buf b').frees
    exact (congrArg _ hcount).trans (h.refunds b')

/-- **A put**, of a reference that was the thread's or was not counted any more. -/
theorem inv_krefPut (hp : s.threads[t]? = some p) (hreleases : ∀ b', p.releases b' = false)
    (hrefunds : ∀ b', p.refunds b' = false)
    (href : ∀ b', (s.buf b').ref + (if p.holds b' then 1 else 0) =
      s.holders b' + if b = b' then 1 else 0)
    (hpos : (s.buf b).ref ≠ 0)
    (hfreed : ∀ b', (s.buf b').frees + s.releasing b' =
      if b' < s.bufs.length ∧ (s.buf b').ref = 0 then 1 else 0)
    (hrefunded : ∀ b', (s.buf b').refunds + s.refunding b' = (s.buf b').frees) :
    Inv (s.krefPut t b r) := by
  have hb := lt_of_ref hpos
  have hlen : (s.krefPut t b r).bufs.length = s.bufs.length := List.length_modify ..
  have hbuf (b' : ℕ) : (s.krefPut t b r).buf b' =
      if b = b' then { s.buf b with ref := (s.buf b).ref - 1 } else s.buf b' :=
    buf_setBuf hb _ b'
  have hp' : (s.setBuf b fun B => { B with ref := B.ref - 1 }).threads[t]? = some p := hp
  have hnext (b' : ℕ) : (if (s.buf b).ref - 1 = 0 then Pc.releasing b r else .idle r).holds b' =
      false ∧ (if (s.buf b).ref - 1 = 0 then Pc.releasing b r else .idle r).refunds b' = false := by
    split <;> exact ⟨rfl, rfl⟩
  constructor
  · intro b'
    have hlast := href b'
    have hcount : (s.krefPut t b r).holders b' + _ = s.holders b' + _ :=
      holders_goto hp' (if (s.buf b).ref - 1 = 0 then .releasing b r else .idle r) b'
    rw [(hnext b').1] at hcount
    simp only [Bool.false_eq_true, if_false] at hcount
    rw [hbuf]
    by_cases heq : b = b'
    · subst heq
      rw [if_pos rfl] at hlast ⊢
      simp only
      omega
    · rw [if_neg heq] at hlast ⊢
      omega
  · intro b'
    have hlast := hfreed b'
    have hcount : (s.krefPut t b r).releasing b' + _ = s.releasing b' + _ :=
      releasing_goto hp' (if (s.buf b).ref - 1 = 0 then .releasing b r else .idle r) b'
    rw [hreleases] at hcount
    simp only [Bool.false_eq_true, if_false, Nat.add_zero] at hcount
    rw [hbuf, hlen, hcount]
    by_cases heq : b = b'
    · subst heq
      rw [if_neg (by omega)] at hlast
      rw [if_pos rfl]
      simp only
      by_cases hzero : (s.buf b).ref - 1 = 0
      · simp [hzero, Pc.releases, hb]
        omega
      · simp [hzero, Pc.releases]
        omega
    · have hnot : (if (s.buf b).ref - 1 = 0 then Pc.releasing b r else .idle r).releases b' =
          false := by
        split
        · simp [Pc.releases, heq]
        · rfl
      rw [if_neg heq, hnot]
      simpa using hlast
  · intro b'
    have hlast := hrefunded b'
    have hcount : (s.krefPut t b r).refunding b' + _ = s.refunding b' + _ :=
      refunding_goto hp' (if (s.buf b).ref - 1 = 0 then .releasing b r else .idle r) b'
    rw [hrefunds, (hnext b').2] at hcount
    simp only [Bool.false_eq_true, if_false, Nat.add_zero] at hcount
    rw [hbuf, hcount]
    by_cases heq : b = b'
    · subst heq
      rw [if_pos rfl]
      exact hlast
    · rw [if_neg heq]
      exact hlast

theorem inv_put (h : Inv s) (hp : s.threads[t]? = some p)
    (hholds : ∀ b', p.holds b' = (b == b')) (hreleases : ∀ b', p.releases b' = false)
    (hrefunds : ∀ b', p.refunds b' = false) : Inv (s.krefPut t b r) := by
  refine inv_krefPut hp hreleases hrefunds ?_ ?_ h.frees h.refunds
  · intro b'
    rw [h.ref, hholds]
    simp only [beq_iff_eq]
  · have hcount := holders_goto hp (.idle r) b
    rw [hholds] at hcount
    simp only [BEq.rfl, if_true, Pc.holds, Bool.false_eq_true, if_false] at hcount
    rw [h.ref]
    omega

theorem inv_release (h : Inv s) {d : ℕ} (hp : s.threads[t]? = some (.idle r))
    (hd : s.dmabufs[d]? = some ⟨b, .dropped⟩) :
    Inv ((s.setDma d .released).krefPut t b r) := by
  have hholders (b' : ℕ) :
      (s.setDma d .released).holders b' + (if b = b' then 1 else 0) = s.holders b' := by
    have hcount := holders_setDma .released hd b'
    simpa [DmaBuf.holds] using hcount
  have href (b' : ℕ) : ((s.setDma d .released).buf b').ref = s.holders b' := h.ref b'
  have hp' : (s.setDma d .released).threads[t]? = some (.idle r) := hp
  refine inv_krefPut hp' (fun _ => rfl) (fun _ => rfl) ?_ ?_ h.frees h.refunds
  · intro b'
    rw [href, hholders]
    rfl
  · have hone := hholders b
    rw [if_pos rfl] at hone
    rw [href]
    omega

theorem lt_of_holders (h : Inv s) (hpos : 0 < s.holders b) : b < s.bufs.length := by
  by_contra hge
  have hnone := (h.fresh (Nat.le_of_not_lt hge)).1
  omega

/-- The memory goes, and what is left of the release is the refund. -/
theorem inv_dmaFree (h : Inv s) (hp : s.threads[t]? = some (.releasing b r)) :
    Inv ((s.setBuf b fun B => { B with frees := B.frees + 1 }).goto t (.refunding b r)) := by
  have hpos : 0 < s.releasing b := by
    rw [releasing, List.countP_pos_iff]
    exact ⟨_, List.mem_of_getElem? hp, beq_self_eq_true b⟩
  have hb : b < s.bufs.length := by
    by_contra hge
    have hnone := (h.fresh (Nat.le_of_not_lt hge)).2.1
    omega
  have hp' : (s.setBuf b fun B => { B with frees := B.frees + 1 }).threads[t]? =
      some (.releasing b r) := hp
  have hbuf := buf_setBuf hb fun B => { B with frees := B.frees + 1 }
  have hlen : (s.setBuf b fun B => { B with frees := B.frees + 1 }).bufs.length =
      s.bufs.length := List.length_modify ..
  constructor
  · intro b'
    have hlast := h.ref b'
    have hcount := holders_goto hp' (.refunding b r) b'
    simp only [Pc.holds, Bool.false_eq_true, if_false, Nat.add_zero] at hcount
    rw [hcount]
    show ((s.setBuf b _).buf b').ref = s.holders b'
    rw [hbuf]
    split
    · rename_i heq
      subst heq
      exact hlast
    · exact hlast
  · intro b'
    have hlast := h.frees b'
    have hcount := releasing_goto hp' (.refunding b r) b'
    simp only [Pc.releases, Bool.false_eq_true, if_false, Nat.add_zero, beq_iff_eq] at hcount
    show ((s.setBuf b _).buf b').frees + _ =
      if b' < (s.setBuf b _).bufs.length ∧ ((s.setBuf b _).buf b').ref = 0 then 1 else 0
    have hsame : (s.setBuf b fun B => { B with frees := B.frees + 1 }).releasing b' =
        s.releasing b' := rfl
    rw [hbuf, hlen]
    by_cases heq : b = b'
    · subst heq
      rw [if_pos rfl] at hcount ⊢
      rw [← hlast]
      show (s.buf b).frees + 1 + _ = _
      omega
    · rw [if_neg heq] at hcount ⊢
      rw [← hlast]
      omega
  · intro b'
    have hlast := h.refunds b'
    have hcount := refunding_goto hp' (.refunding b r) b'
    simp only [Pc.refunds, Bool.false_eq_true, if_false, Nat.add_zero, beq_iff_eq] at hcount
    show ((s.setBuf b _).buf b').refunds + _ = ((s.setBuf b _).buf b').frees
    have hsame : (s.setBuf b fun B => { B with frees := B.frees + 1 }).refunding b' =
        s.refunding b' := rfl
    rw [hbuf]
    by_cases heq : b = b'
    · subst heq
      rw [if_pos rfl] at hcount ⊢
      show (s.buf b).refunds + _ = (s.buf b).frees + 1
      omega
    · rw [if_neg heq] at hcount ⊢
      omega

/-- The accounting is not about references. -/
theorem Inv.withInUse (h : Inv s) (inUse : ℕ) : Inv { s with inUse } :=
  ⟨h.ref, h.frees, h.refunds⟩

theorem inv_refunded (h : Inv s) (hp : s.threads[t]? = some (.refunding b r)) :
    Inv ((s.setBuf b fun B => { B with refunds := B.refunds + 1 }).goto t (.idle r)) := by
  have hpos : 0 < s.refunding b := by
    rw [refunding, List.countP_pos_iff]
    exact ⟨_, List.mem_of_getElem? hp, beq_self_eq_true b⟩
  have hb : b < s.bufs.length := by
    by_contra hge
    have hnone := (h.fresh (Nat.le_of_not_lt hge)).2.2
    omega
  have hp' : (s.setBuf b fun B => { B with refunds := B.refunds + 1 }).threads[t]? =
      some (.refunding b r) := hp
  have hbuf := buf_setBuf hb fun B => { B with refunds := B.refunds + 1 }
  have hlen : (s.setBuf b fun B => { B with refunds := B.refunds + 1 }).bufs.length =
      s.bufs.length := List.length_modify ..
  constructor
  · intro b'
    have hlast := h.ref b'
    have hcount := holders_goto hp' (.idle r) b'
    simp only [Pc.holds, Bool.false_eq_true, if_false, Nat.add_zero] at hcount
    rw [hcount]
    show ((s.setBuf b _).buf b').ref = s.holders b'
    rw [hbuf]
    split
    · rename_i heq
      subst heq
      exact hlast
    · exact hlast
  · intro b'
    have hlast := h.frees b'
    have hcount := releasing_goto hp' (.idle r) b'
    simp only [Pc.releases, Bool.false_eq_true, if_false, Nat.add_zero] at hcount
    rw [hcount]
    show ((s.setBuf b _).buf b').frees + s.releasing b' =
      if b' < (s.setBuf b _).bufs.length ∧ ((s.setBuf b _).buf b').ref = 0 then 1 else 0
    rw [hbuf, hlen]
    split
    · rename_i heq
      subst heq
      exact hlast
    · exact hlast
  · intro b'
    have hlast := h.refunds b'
    have hcount := refunding_goto hp' (.idle r) b'
    simp only [Pc.refunds, Bool.false_eq_true, if_false, Nat.add_zero, beq_iff_eq] at hcount
    show ((s.setBuf b _).buf b').refunds + _ = ((s.setBuf b _).buf b').frees
    have hsame : (s.setBuf b fun B => { B with refunds := B.refunds + 1 }).refunding b' =
        s.refunding b' := rfl
    rw [hbuf]
    by_cases heq : b = b'
    · subst heq
      rw [if_pos rfl] at hcount ⊢
      show (s.buf b).refunds + 1 + _ = (s.buf b).frees
      omega
    · rw [if_neg heq] at hcount ⊢
      omega

/-- A listed buffer has a reference to take another by. -/
theorem inv_get (h : Inv s) {arg : ExportArg} (hp : s.threads[t]? = some (.idle r))
    (hmem : b ∈ s.list) :
    Inv ((s.setBuf b fun B => { B with ref := B.ref + 1 }).goto t (.exporting b arg)) := by
  have hlisted := List.count_pos_iff.2 hmem
  have hpos : 0 < s.holders b := by
    unfold holders
    omega
  have hb := lt_of_holders h hpos
  have hp' : (s.setBuf b fun B => { B with ref := B.ref + 1 }).threads[t]? =
      some (.idle r) := hp
  have hbuf := buf_setBuf hb fun B => { B with ref := B.ref + 1 }
  have hlen : (s.setBuf b fun B => { B with ref := B.ref + 1 }).bufs.length =
      s.bufs.length := List.length_modify ..
  constructor
  · intro b'
    have hlast := h.ref b'
    have hcount := holders_goto hp' (.exporting b arg) b'
    simp only [Pc.holds, Bool.false_eq_true, if_false, Nat.add_zero, beq_iff_eq] at hcount
    show ((s.setBuf b _).buf b').ref = _
    have hsame : (s.setBuf b fun B => { B with ref := B.ref + 1 }).holders b' =
        s.holders b' := rfl
    rw [hbuf]
    by_cases heq : b = b'
    · subst heq
      rw [if_pos rfl] at hcount ⊢
      show (s.buf b).ref + 1 = _
      omega
    · rw [if_neg heq] at hcount ⊢
      omega
  · intro b'
    have hlast := h.frees b'
    have hcount := releasing_goto hp' (.exporting b arg) b'
    simp only [Pc.releases, Bool.false_eq_true, if_false, Nat.add_zero] at hcount
    show ((s.setBuf b _).buf b').frees + _ =
      if b' < (s.setBuf b _).bufs.length ∧ ((s.setBuf b _).buf b').ref = 0 then 1 else 0
    rw [hcount, hbuf, hlen]
    show _ + s.releasing b' = _
    by_cases heq : b = b'
    · subst heq
      have href := h.ref b
      rw [if_neg (by omega)] at hlast
      rw [if_pos rfl]
      simpa using hlast
    · rw [if_neg heq]
      exact hlast
  · intro b'
    have hlast := h.refunds b'
    have hcount := refunding_goto hp' (.exporting b arg) b'
    simp only [Pc.refunds, Bool.false_eq_true, if_false, Nat.add_zero] at hcount
    show ((s.setBuf b _).buf b').refunds + _ = ((s.setBuf b _).buf b').frees
    rw [hcount, hbuf]
    show _ + s.refunding b' = _
    split
    · rename_i heq
      subst heq
      exact hlast
    · exact hlast

/-- A thread's reference goes to a dma-buf. -/
theorem inv_push (h : Inv s) {state : DmaState} (hp : s.threads[t]? = some p)
    (hholds : ∀ b', p.holds b' = (b == b')) (hreleases : ∀ b', p.releases b' = false)
    (hrefunds : ∀ b', p.refunds b' = false) (hstate : state ≠ .released) :
    Inv ((s.pushDma b state).goto t (.idle r)) := by
  have hp' : (s.pushDma b state).threads[t]? = some p := hp
  constructor
  · intro b'
    have hlast := h.ref b'
    have hpush := holders_pushDma (s := s) hstate b b'
    have hcount := holders_goto hp' (.idle r) b'
    rw [hholds] at hcount
    simp only [Pc.holds, Bool.false_eq_true, if_false, beq_iff_eq] at hcount
    show (s.buf b').ref = _
    omega
  · intro b'
    have hcount := releasing_goto hp' (.idle r) b'
    rw [hreleases] at hcount
    exact (congrArg _ hcount).trans (h.frees b')
  · intro b'
    have hcount := refunding_goto hp' (.idle r) b'
    rw [hrefunds] at hcount
    exact (congrArg _ hcount).trans (h.refunds b')

theorem inv_close (h : Inv s) {d : ℕ} (hd : s.dmabufs[d]? = some ⟨b, .installed⟩) :
    Inv (s.setDma d .dropped) := by
  constructor
  · intro b'
    have hlast := h.ref b'
    have hcount := holders_setDma .dropped hd b'
    simp only [DmaBuf.holds] at hcount
    show (s.buf b').ref = _
    simp at hcount
    omega
  · exact h.frees
  · exact h.refunds

/-- **Every step** keeps the count. -/
theorem inv_step {a : Action} (h : Inv s) (hstep : s.step a = some s') : Inv s' := by
  cases move_of_step hstep with
  | quiet hp halike _ => exact inv_quiet h hp halike
  | check hp _ => exact inv_quiet h hp ⟨fun _ => rfl, fun _ => rfl, fun _ => rfl⟩
  | charge hp => exact inv_charge h hp
  | unlist hp hmem => exact inv_unlist h hp hmem
  | put hp hholds hreleases hrefunds _ => exact inv_put h hp hholds hreleases hrefunds
  | dmaFree hp => exact inv_dmaFree h hp
  | refund hp => exact (inv_refunded h hp).withInUse _
  | get hp hmem => exact inv_get h hp hmem
  | push hp hholds hreleases hrefunds _ hstate =>
      exact inv_push h hp hholds hreleases hrefunds hstate
  | close hd => exact inv_close h hd
  | release hp hd => exact inv_release h hp hd

theorem inv_run {n : ℕ} {as : List Action} (h : Run State.step (State.init n) as s) : Inv s :=
  h.invariant (fun _ _ _ hinv _ hstep => inv_step hinv hstep) (inv_init n)

/-! ### What the count says -/

theorem Inv.freed (h : Inv s) (hb : b < s.bufs.length) :
    (s.buf b).frees + s.releasing b = if s.holders b = 0 then 1 else 0 := by
  have hfrees := h.frees b
  rw [h.ref] at hfrees
  simpa only [hb, true_and] using hfrees

/-- What was freed has no holder. -/
theorem Inv.holders_of_frees (h : Inv s) (hfreed : (s.buf b).frees ≠ 0) : s.holders b = 0 := by
  have hfrees := h.frees b
  rw [h.ref] at hfrees
  by_contra hne
  rw [if_neg fun hand => hne hand.2] at hfrees
  omega

theorem holders_eq_zero : s.holders b = 0 ↔ b ∉ s.list ∧ (∀ p ∈ s.threads, p.holds b = false) ∧
    ∀ D ∈ s.dmabufs, D.buf = b → D.state = .released := by
  have hdma : s.dmabufs.countP (DmaBuf.holds b) = 0 ↔
      ∀ D ∈ s.dmabufs, D.buf = b → D.state = .released := by
    rw [List.countP_eq_zero]
    simp [DmaBuf.holds]
  have hthreads : s.threads.countP (Pc.holds b) = 0 ↔ ∀ p ∈ s.threads, p.holds b = false := by
    rw [List.countP_eq_zero]
    simp
  rw [← hdma, ← hthreads, ← List.count_eq_zero]
  unfold holders
  omega

/-- No thread is in a call. -/
def State.quiet (s : State) : Prop := ∀ p ∈ s.threads, ∃ r, p = .idle r

theorem releasing_of_quiet (h : s.quiet) : s.releasing b = 0 := by
  rw [releasing, List.countP_eq_zero]
  intro p hp
  obtain ⟨r, rfl⟩ := h p hp
  exact Bool.false_ne_true

/-- Between calls, memory is there for what is listed and for what an open dma-buf has. -/
theorem Inv.frees_of_quiet (h : Inv s) (hquiet : s.quiet) (hb : b < s.bufs.length) :
    (s.buf b).frees =
      if b ∈ s.list ∨ ∃ D ∈ s.dmabufs, D.buf = b ∧ D.state ≠ .released then 0 else 1 := by
  have hfreed := h.freed hb
  rw [releasing_of_quiet hquiet, Nat.add_zero] at hfreed
  have hthreads : ∀ p ∈ s.threads, p.holds b = false := by
    intro p hp
    obtain ⟨r, rfl⟩ := hquiet p hp
    rfl
  rw [hfreed]
  by_cases hzero : s.holders b = 0
  · obtain ⟨hlist, -, hdma⟩ := holders_eq_zero.1 hzero
    rw [if_pos hzero, if_neg]
    rintro (hmem | ⟨D, hD, hbuf, hne⟩)
    · exact hlist hmem
    · exact hne (hdma D hD hbuf)
  · rw [if_neg hzero, if_pos]
    by_contra hnone
    push Not at hnone
    exact hzero (holders_eq_zero.2 ⟨hnone.1, hthreads, hnone.2⟩)

/-- **Memory lives as long as someone holds it.**  In every state of every interleaving, a
buffer's memory was freed at most once, and was freed or is being freed by one thread just when
nobody holds the buffer: it is off the list, no call works on it and every dma-buf of it was
released.  A lookup finds only what has a reference.  Between calls the memory that is left is
that of the listed buffers and of the open dma-bufs: none when there are none. -/
theorem ion_memory_lifetime {n : ℕ} {as : List Action}
    (h : Run State.step (State.init n) as s) :
    (∀ b, (s.buf b).frees ≤ 1) ∧
    (∀ b, b < s.bufs.length →
      (s.buf b).frees + s.releasing b = if s.holders b = 0 then 1 else 0) ∧
    (∀ b, (s.buf b).frees = 1 → b ∉ s.list ∧ (∀ p ∈ s.threads, p.holds b = false) ∧
      ∀ D ∈ s.dmabufs, D.buf = b → D.state = .released) ∧
    (∀ pa b, s.ionBufGet pa = some b → 0 < (s.buf b).ref) ∧
    (s.quiet → ∀ b, b < s.bufs.length → (s.buf b).frees =
      if b ∈ s.list ∨ ∃ D ∈ s.dmabufs, D.buf = b ∧ D.state ≠ .released then 0 else 1) ∧
    (s.quiet → s.list = [] → (∀ D ∈ s.dmabufs, D.state = .released) →
      ∀ b, b < s.bufs.length → (s.buf b).frees = 1) := by
  have hinv := inv_run h
  refine ⟨?_, fun b hb => hinv.freed hb, ?_, ?_, fun hq b hb => hinv.frees_of_quiet hq hb, ?_⟩
  · intro b
    have hfrees := hinv.frees b
    split at hfrees <;> omega
  · intro b hone
    exact holders_eq_zero.1 (hinv.holders_of_frees (by omega))
  · intro pa b hget
    have hlisted := List.count_pos_iff.2 (mem_of_ionBufGet hget)
    have href := hinv.ref b
    unfold holders at href
    omega
  · intro hquiet hlist hdma b hb
    rw [hinv.frees_of_quiet hquiet hb, if_neg]
    rintro (hmem | ⟨D, hD, -, hne⟩)
    · rw [hlist] at hmem
      cases hmem
    · exact hne (hdma D hD)

/-- A buffer that is freed while a dma-buf of it is open, and then closed. -/
def freedWhileExported : List Action :=
  [.alloc 0 4096 true, .dmaAlloc 0 (some 65536), .charge 0,
    .exportGet 1 (some ⟨65540, 0⟩), .dmabufExport 1 none, .free 0 (some 0), .put 0,
    .getFd 1 none, .copyOut 1 true, .closeLast 0, .dmabufRelease 0 0, .dmaFree 0, .refund 0]

theorem ion_memory_lifetime_freed : ∃ s, Run State.step (State.init 2) freedWhileExported s ∧
    s.bufs.length = 1 ∧ (s.buf 0).frees = 1 ∧ ∀ b, (s.buf b).frees ≤ 1 := by
  have hreplay : (runFrom State.step (State.init 2) freedWhileExported).any
      (fun s => decide (s.bufs.length = 1 ∧ (s.buf 0).frees = 1)) = true := by decide
  obtain ⟨s, hrun, hcheck⟩ := run_exists_of_check hreplay
  obtain ⟨hlen, hfreed⟩ := of_decide_eq_true hcheck
  exact ⟨s, hrun, hlen, hfreed, (ion_memory_lifetime hrun).1⟩

end BadgeOS.Display.Ion
