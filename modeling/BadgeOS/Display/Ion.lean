import BadgeOS.Lib.Table
import BadgeOS.Lib.Transition
import Mathlib

/-!
# The ION shim

`soph_ion_compat.c`: buffers of contiguous memory, counted against a budget, with a reference
for the allocation and one for each dma-buf of it.  Any number of threads allocate, free, export
and release; what stands between two steps of a thread is what the lock, the reference count and
the kernel's own calls let other threads see.

* `State`, `State.step` — the shim and the threads in it, by the critical section;
* `Move` — `State.step` inverted: what a step did to the threads, the buffers and the list;
* `State.holders` — who holds a reference to a buffer.
-/

namespace BadgeOS.Display.Ion

/-- `ION_BUDGET`. -/
def ionBudget : ℕ := 96 * 2 ^ 20

/-- `PAGE_ALIGN` of a `size_t`. -/
def pageAlign (len : UInt64) : ℕ := (len.toNat + 4095) % 2 ^ 64 / 4096 * 4096

inductive Errno
  | einval
  | enomem
  | efault
  | other (code : ℕ)
  deriving DecidableEq, Repr

/-- `struct ion_buffer`.  What counts the calls of `dma_free_coherent` for it, and the refunds,
is not in the code. -/
structure Buffer where
  paddr : ℕ
  size : ℕ
  ref : ℕ
  frees : ℕ := 0
  refunds : ℕ := 0
  deriving DecidableEq, Repr

/-- A dma-buf that its exporter has let go of: user space has it, the last reference is gone, or
its release was called. -/
inductive DmaState
  | installed
  | dropped
  | released
  deriving DecidableEq, Repr

structure DmaBuf where
  buf : ℕ
  state : DmaState
  deriving DecidableEq, Repr

/-- `struct soph_ion_export`, on the way in. -/
structure ExportArg where
  phys : ℕ
  flags : BitVec 32
  deriving DecidableEq, Repr

/-- `O_CLOEXEC | SOPH_ION_EXPORT_RDONLY`. -/
def exportFlags : BitVec 32 := 0x80080000#32

/-- What a call returned. -/
inductive Ret
  | nothing
  | zero
  | buffer (b : ℕ)
  | exported (offset size : ℕ)
  | error (e : Errno)
  deriving DecidableEq, Repr

/-- Where a thread is. -/
inductive Pc
  | idle (r : Ret)
  /-- `cvi_ion_alloc_nofd`, past its check. -/
  | checked (len : ℕ)
  /-- `cvi_ion_alloc_nofd`, with memory. -/
  | allocated (paddr len : ℕ)
  /-- `cvi_ion_free_nofd`, past `list_del`. -/
  | unlisted (b : ℕ)
  /-- `ion_buf_release`, called by the last put. -/
  | releasing (b : ℕ) (r : Ret)
  /-- `ion_buf_release`, past `dma_free_coherent`. -/
  | refunding (b : ℕ) (r : Ret)
  /-- `soph_ion_export`, with the buffer that `ion_buf_get` found. -/
  | exporting (b : ℕ) (arg : ExportArg)
  /-- `soph_ion_export`, when `dma_buf_export` failed. -/
  | exportFailed (b : ℕ) (e : Errno)
  /-- `soph_ion_export`, with a dma-buf that has the reference. -/
  | exported (b : ℕ) (arg : ExportArg)
  /-- `soph_ion_export`, with a descriptor for it. -/
  | copying (b : ℕ) (arg : ExportArg)
  deriving DecidableEq, Repr

structure State where
  inUse : ℕ := 0
  bufs : List Buffer := []
  /-- `ion_bufs`. -/
  list : List ℕ := []
  dmabufs : List DmaBuf := []
  threads : List Pc
  deriving DecidableEq, Repr

/-- `n` threads, and no memory. -/
def State.init (n : ℕ) : State where
  threads := List.replicate n (.idle .nothing)

/-- What happens next.  `t` is a thread; the other parts are the arguments of a call, and what
the kernel answers. -/
inductive Action
  | alloc (t : ℕ) (len : UInt64) (zalloc : Bool)
  | dmaAlloc (t : ℕ) (paddr : Option ℕ)
  | charge (t : ℕ)
  | free (t : ℕ) (b : Option ℕ)
  | put (t : ℕ)
  | dmaFree (t : ℕ)
  | refund (t : ℕ)
  | exportGet (t : ℕ) (arg : Option ExportArg)
  | dmabufExport (t : ℕ) (failure : Option Errno)
  | getFd (t : ℕ) (failure : Option Errno)
  | copyOut (t : ℕ) (ok : Bool)
  | closeLast (d : ℕ)
  | dmabufRelease (t d : ℕ)
  deriving DecidableEq, Repr

namespace State

/-- Thread `t` goes on. -/
def goto (s : State) (t : ℕ) (p : Pc) : State := { s with threads := s.threads.set t p }

/-- `pa` lies in buffer `b`. -/
def contains (s : State) (pa b : ℕ) : Bool :=
  match s.bufs[b]? with
  | none => false
  | some B => decide (B.paddr ≤ pa) && decide (pa - B.paddr < B.size)

/-- `ion_buf_get`, before it takes its reference: the first buffer on the list with `pa` in it. -/
def ionBufGet (s : State) (pa : ℕ) : Option ℕ := s.list.find? (s.contains pa)

/-- A buffer, changed. -/
def setBuf (s : State) (b : ℕ) (f : Buffer → Buffer) : State :=
  { s with bufs := s.bufs.modify b f }

/-- Buffer `b`; nothing holds one that is not there. -/
def buf (s : State) (b : ℕ) : Buffer := s.bufs[b]?.getD { paddr := 0, size := 0, ref := 0 }

/-- `kref_put(&b->ref, ion_buf_release)` by thread `t`, which is to return `r`. -/
def krefPut (s : State) (t b : ℕ) (r : Ret) : State :=
  (s.setBuf b fun B => { B with ref := B.ref - 1 }).goto t
    (if (s.buf b).ref - 1 = 0 then .releasing b r else .idle r)

/-- A dma-buf, in another state. -/
def setDma (s : State) (d : ℕ) (state : DmaState) : State :=
  { s with dmabufs := s.dmabufs.modify d fun D => { D with state } }

/-- A dma-buf of `b` that its exporter lets go of. -/
def pushDma (s : State) (b : ℕ) (state : DmaState) : State :=
  { s with dmabufs := s.dmabufs ++ [⟨b, state⟩] }

/-- `list_del`. -/
def unlist (s : State) (b : ℕ) : State := { s with list := s.list.erase b }

/-- `cvi_ion_alloc_nofd`, as far as its check. -/
def alloc (s : State) (t : ℕ) (len : UInt64) (zalloc : Bool) : State :=
  if len = 0 then s.goto t (.idle (.error .einval))
  else if zalloc = false then s.goto t (.idle (.error .enomem))
  else if ionBudget < (s.inUse + pageAlign len) % 2 ^ 64 then s.goto t (.idle (.error .enomem))
  else s.goto t (.checked (pageAlign len))

/-- The second critical section of `cvi_ion_alloc_nofd`. -/
def charge (s : State) (t paddr len : ℕ) : State :=
  { s with
    bufs := s.bufs ++ [{ paddr, size := len, ref := 1 }]
    list := s.bufs.length :: s.list
    inUse := (s.inUse + len) % 2 ^ 64
    threads := s.threads.set t (.idle (.buffer s.bufs.length)) }

/-- The critical section of `ion_buf_release`, behind `dma_free_coherent`. -/
def refund (s : State) (t b : ℕ) (r : Ret) : State :=
  { (s.setBuf b fun B => { B with refunds := B.refunds + 1 }).goto t (.idle r) with
    inUse := (s.inUse + 2 ^ 64 - (s.buf b).size) % 2 ^ 64 }

/-- `soph_ion_export`, as far as `ion_buf_get`. -/
def exportGet (s : State) (t : ℕ) : Option ExportArg → State
  | none => s.goto t (.idle (.error .efault))
  | some arg =>
      if arg.flags &&& ~~~exportFlags ≠ 0 then s.goto t (.idle (.error .einval))
      else
        match s.ionBufGet arg.phys with
        | none => s.goto t (.idle (.error .einval))
        | some b =>
            (s.setBuf b fun B => { B with ref := B.ref + 1 }).goto t (.exporting b arg)

/-- What is copied to user space. -/
def exportRet (s : State) (b : ℕ) (arg : ExportArg) : Ret :=
  .exported (arg.phys - (s.buf b).paddr) (s.buf b).size

/-- The shim, one step on. -/
def step (s : State) : Action → Option State
  | .alloc t len zalloc =>
      match s.threads[t]? with
      | some (.idle _) => some (s.alloc t len zalloc)
      | _ => none
  | .dmaAlloc t paddr =>
      match s.threads[t]?, paddr with
      | some (.checked _), none => some (s.goto t (.idle (.error .enomem)))
      | some (.checked len), some paddr => some (s.goto t (.allocated paddr len))
      | _, _ => none
  | .charge t =>
      match s.threads[t]? with
      | some (.allocated paddr len) => some (s.charge t paddr len)
      | _ => none
  | .free t b =>
      match s.threads[t]?, b with
      | some (.idle _), none => some (s.goto t (.idle (.error .einval)))
      -- the allocation is freed once, by whoever it was returned to
      | some (.idle _), some b =>
          if b ∈ s.list then
            some ((s.unlist b).goto t (.unlisted b))
          else none
      | _, _ => none
  | .put t =>
      match s.threads[t]? with
      | some (.unlisted b) => some (s.krefPut t b .zero)
      | some (.exportFailed b e) => some (s.krefPut t b (.error e))
      | _ => none
  | .dmaFree t =>
      match s.threads[t]? with
      | some (.releasing b r) =>
          some ((s.setBuf b fun B => { B with frees := B.frees + 1 }).goto t (.refunding b r))
      | _ => none
  | .refund t =>
      match s.threads[t]? with
      | some (.refunding b r) => some (s.refund t b r)
      | _ => none
  | .exportGet t arg =>
      match s.threads[t]? with
      | some (.idle _) => some (s.exportGet t arg)
      | _ => none
  | .dmabufExport t failure =>
      match s.threads[t]?, failure with
      | some (.exporting b _), some e => some (s.goto t (.exportFailed b e))
      | some (.exporting b arg), none => some (s.goto t (.exported b arg))
      | _, _ => none
  | .getFd t failure =>
      match s.threads[t]?, failure with
      | some (.exported b _), some e => some ((s.pushDma b .dropped).goto t (.idle (.error e)))
      | some (.exported b arg), none => some (s.goto t (.copying b arg))
      | _, _ => none
  | .copyOut t ok =>
      match s.threads[t]?, ok with
      | some (.copying b _), false =>
          some ((s.pushDma b .dropped).goto t (.idle (.error .efault)))
      | some (.copying b arg), true =>
          some ((s.pushDma b .installed).goto t (.idle (s.exportRet b arg)))
      | _, _ => none
  | .closeLast d =>
      match s.dmabufs[d]? with
      | some ⟨_, .installed⟩ => some (s.setDma d .dropped)
      | _ => none
  | .dmabufRelease t d =>
      match s.threads[t]?, s.dmabufs[d]? with
      | some (.idle r), some ⟨b, .dropped⟩ =>
          some ((s.setDma d .released).krefPut t b r)
      | _, _ => none

/-- `cvi_ion_get_memory_state`: the total, and what is free of it, as a `u64`. -/
def memoryState (s : State) : ℕ × ℕ := (ionBudget, (2 ^ 64 + ionBudget - s.inUse) % 2 ^ 64)

end State

/-! ### Who holds what -/

/-- The thread has a reference to `b`, itself or in a dma-buf that nobody else sees yet. -/
def Pc.holds (b : ℕ) : Pc → Bool
  | .unlisted b' | .exporting b' _ | .exportFailed b' _ | .exported b' _ | .copying b' _ => b' == b
  | _ => false

/-- The thread is to free the memory of `b`. -/
def Pc.releases (b : ℕ) : Pc → Bool
  | .releasing b' _ => b' == b
  | _ => false

/-- The thread is to refund `b`. -/
def Pc.refunds (b : ℕ) : Pc → Bool
  | .refunding b' _ => b' == b
  | _ => false

/-- What the thread was granted, and has not been charged for. -/
def Pc.granted : Pc → ℕ
  | .checked len | .allocated _ len => len
  | _ => 0

/-- The dma-buf has a reference to `b`. -/
def DmaBuf.holds (b : ℕ) (D : DmaBuf) : Bool := D.buf == b && D.state != .released

/-- What is charged for a buffer. -/
def Buffer.charged (B : Buffer) : ℕ := if B.refunds = 0 then B.size else 0

namespace State

/-- The references to a buffer: the allocation's, while it is listed, the threads' and the
dma-bufs'. -/
def holders (s : State) (b : ℕ) : ℕ :=
  s.list.count b + s.threads.countP (Pc.holds b) + s.dmabufs.countP (DmaBuf.holds b)

def releasing (s : State) (b : ℕ) : ℕ := s.threads.countP (Pc.releases b)

def refunding (s : State) (b : ℕ) : ℕ := s.threads.countP (Pc.refunds b)

def granted (s : State) : ℕ := (s.threads.map Pc.granted).sum

def charged (s : State) : ℕ := (s.bufs.map Buffer.charged).sum

end State

/-- A thread goes on, and neither references nor memory change hands. -/
structure Pc.Alike (p p' : Pc) : Prop where
  holds : ∀ b, p'.holds b = p.holds b
  releases : ∀ b, p'.releases b = p.releases b
  refunds : ∀ b, p'.refunds b = p.refunds b

/-- **What a step does.** -/
inductive Move (s : State) : Action → State → Prop
  | quiet {a t p p'} : s.threads[t]? = some p → p.Alike p' → p'.granted ≤ p.granted →
      Move s a (s.goto t p')
  | check {t len zalloc r} : s.threads[t]? = some (.idle r) →
      (s.inUse + pageAlign len) % 2 ^ 64 ≤ ionBudget →
      Move s (.alloc t len zalloc) (s.goto t (.checked (pageAlign len)))
  | charge {a t paddr len} : s.threads[t]? = some (.allocated paddr len) →
      Move s a (s.charge t paddr len)
  | unlist {a t b r} : s.threads[t]? = some (.idle r) → b ∈ s.list →
      Move s a ((s.unlist b).goto t (.unlisted b))
  | put {a t b p r} : s.threads[t]? = some p → (∀ b', p.holds b' = (b == b')) →
      (∀ b', p.releases b' = false) → (∀ b', p.refunds b' = false) → p.granted = 0 →
      Move s a (s.krefPut t b r)
  | dmaFree {a t b r} : s.threads[t]? = some (.releasing b r) →
      Move s a ((s.setBuf b fun B => { B with frees := B.frees + 1 }).goto t (.refunding b r))
  | refund {a t b r} : s.threads[t]? = some (.refunding b r) → Move s a (s.refund t b r)
  | get {a t b r arg} : s.threads[t]? = some (.idle r) → b ∈ s.list →
      Move s a ((s.setBuf b fun B => { B with ref := B.ref + 1 }).goto t (.exporting b arg))
  | push {a t b p r state} : s.threads[t]? = some p → (∀ b', p.holds b' = (b == b')) →
      (∀ b', p.releases b' = false) → (∀ b', p.refunds b' = false) → p.granted = 0 →
      state ≠ .released → Move s a ((s.pushDma b state).goto t (.idle r))
  | close {a d b} : s.dmabufs[d]? = some ⟨b, .installed⟩ → Move s a (s.setDma d .dropped)
  | release {a t d b r} : s.threads[t]? = some (.idle r) → s.dmabufs[d]? = some ⟨b, .dropped⟩ →
      Move s a ((s.setDma d .released).krefPut t b r)

theorem mem_of_ionBufGet {s : State} {pa b : ℕ} (h : s.ionBufGet pa = some b) : b ∈ s.list :=
  List.mem_of_find?_eq_some h

/-- Every step of the shim is a move. -/
theorem move_of_step {s s' : State} {a : Action} (h : s.step a = some s') : Move s a s' := by
  cases a with
  | alloc t len zalloc =>
      simp only [State.step] at h
      split at h
      · rename_i r hp
        obtain rfl := Option.some.inj h
        have hquiet (r' : Ret) : Move s (.alloc t len zalloc) (s.goto t (.idle r')) :=
          .quiet hp ⟨fun _ => rfl, fun _ => rfl, fun _ => rfl⟩ le_rfl
        unfold State.alloc
        split
        · exact hquiet _
        split
        · exact hquiet _
        split
        · exact hquiet _
        · exact .check hp (by omega)
      · cases h
  | dmaAlloc t paddr =>
      simp only [State.step] at h
      split at h
      · rename_i len hp
        obtain rfl := Option.some.inj h
        exact .quiet hp ⟨fun _ => rfl, fun _ => rfl, fun _ => rfl⟩ (Nat.zero_le _)
      · rename_i len paddr hp
        obtain rfl := Option.some.inj h
        exact .quiet hp ⟨fun _ => rfl, fun _ => rfl, fun _ => rfl⟩ le_rfl
      · cases h
  | charge t =>
      simp only [State.step] at h
      split at h
      · rename_i paddr len hp
        obtain rfl := Option.some.inj h
        exact .charge hp
      · cases h
  | free t b =>
      simp only [State.step] at h
      split at h
      · rename_i r hp
        obtain rfl := Option.some.inj h
        exact .quiet hp ⟨fun _ => rfl, fun _ => rfl, fun _ => rfl⟩ le_rfl
      · rename_i r b hp
        split at h
        · rename_i hmem
          obtain rfl := Option.some.inj h
          exact .unlist hp hmem
        · cases h
      · cases h
  | put t =>
      simp only [State.step] at h
      split at h
      · rename_i b hp
        obtain rfl := Option.some.inj h
        exact .put hp (fun _ => rfl) (fun _ => rfl) (fun _ => rfl) rfl
      · rename_i b e hp
        obtain rfl := Option.some.inj h
        exact .put hp (fun _ => rfl) (fun _ => rfl) (fun _ => rfl) rfl
      · cases h
  | dmaFree t =>
      simp only [State.step] at h
      split at h
      · rename_i b r hp
        obtain rfl := Option.some.inj h
        exact .dmaFree hp
      · cases h
  | refund t =>
      simp only [State.step] at h
      split at h
      · rename_i b r hp
        obtain rfl := Option.some.inj h
        exact .refund hp
      · cases h
  | exportGet t arg =>
      simp only [State.step] at h
      split at h
      · rename_i r hp
        obtain rfl := Option.some.inj h
        have hquiet (r' : Ret) : Move s (.exportGet t arg) (s.goto t (.idle r')) :=
          .quiet hp ⟨fun _ => rfl, fun _ => rfl, fun _ => rfl⟩ le_rfl
        cases arg with
        | none => exact hquiet _
        | some arg =>
            unfold State.exportGet
            simp only
            split
            · exact hquiet _
            split
            · exact hquiet _
            · rename_i b hget
              exact .get hp (mem_of_ionBufGet hget)
      · cases h
  | dmabufExport t failure =>
      simp only [State.step] at h
      split at h
      · rename_i b arg e hp
        obtain rfl := Option.some.inj h
        exact .quiet hp ⟨fun _ => rfl, fun _ => rfl, fun _ => rfl⟩ le_rfl
      · rename_i b arg hp
        obtain rfl := Option.some.inj h
        exact .quiet hp ⟨fun _ => rfl, fun _ => rfl, fun _ => rfl⟩ le_rfl
      · cases h
  | getFd t failure =>
      simp only [State.step] at h
      split at h
      · rename_i b arg e hp
        obtain rfl := Option.some.inj h
        exact .push hp (fun _ => rfl) (fun _ => rfl) (fun _ => rfl) rfl (by decide)
      · rename_i b arg hp
        obtain rfl := Option.some.inj h
        exact .quiet hp ⟨fun _ => rfl, fun _ => rfl, fun _ => rfl⟩ le_rfl
      · cases h
  | copyOut t ok =>
      simp only [State.step] at h
      split at h
      · rename_i b arg hp
        obtain rfl := Option.some.inj h
        exact .push hp (fun _ => rfl) (fun _ => rfl) (fun _ => rfl) rfl (by decide)
      · rename_i b arg hp
        obtain rfl := Option.some.inj h
        exact .push hp (fun _ => rfl) (fun _ => rfl) (fun _ => rfl) rfl (by decide)
      · cases h
  | closeLast d =>
      simp only [State.step] at h
      split at h
      · rename_i b hd
        obtain rfl := Option.some.inj h
        exact .close hd
      · cases h
  | dmabufRelease t d =>
      simp only [State.step] at h
      split at h
      · rename_i r b hp hd
        obtain rfl := Option.some.inj h
        exact .release hp hd
      · cases h

end BadgeOS.Display.Ion
