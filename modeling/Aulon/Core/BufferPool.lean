import Aulon.Lib.Bytes
import Mathlib.Data.List.Perm.Basic

/-!
# The buffer pool

A worker registers a fixed number of buffers with its ring when it starts, and lends two of them to
each connection. Which buffer is lent next, and how many can be registered at all, is up to the pool
of the runtime, which is not part of the server: here it is a parameter, and `FixedBufPool` says
what is assumed of it. Dropping a buffer puts it back as its last borrower left it: a buffer that is
lent again still holds old bytes.

* `FixedBufPool` — the pool of the runtime, with the assumptions on it as fields.
* `BufferPool.new`, `BufferPool.acquire`, `BufferPool.release` — register the buffers, lend one and
  take it back.
* `BufferPool.Accounts` — the free buffers and those lent are the registered ones, each once.
* `FixedBufPool.stack` — one such pool.
-/

namespace Aulon.Core

open Aulon.Lib

/-- Source: `buffer_pool.rs`, `DEFAULT_BUFFER_SIZE` -/
def defaultBufferSize : ℕ := 4096

/-- A registered buffer: its index in the registration, and its bytes. -/
structure FixedBuf where
  index : ℕ
  bytes : Bytes
deriving DecidableEq, Repr

/-- A pool of registered buffers, and what the server relies on: it holds buffers that it was given,
under different indices and maybe not all of them; it lends a buffer that is free, any of them; and
a buffer that comes back is free again.
Source: `buffer_pool.rs`, `FixedBufPool` of `tokio_uring` -/
structure FixedBufPool where
  /-- The states of the pool. -/
  State : Type
  /-- A pool of the given buffers. -/
  new : List Bytes → State
  /-- Lend a free buffer of the given size. -/
  tryNext : State → ℕ → Option (FixedBuf × State)
  /-- A buffer is dropped. -/
  giveBack : State → FixedBuf → State
  /-- The buffers that are free. -/
  free : State → List FixedBuf
  nodup_new : ∀ bufs, ((free (new bufs)).map (·.index)).Nodup
  mem_new : ∀ bufs, ∀ buf ∈ free (new bufs), buf.bytes ∈ bufs
  perm_tryNext : ∀ {p size buf p'}, tryNext p size = some (buf, p') →
    (free p).Perm (buf :: free p')
  perm_giveBack : ∀ p buf, (free (giveBack p buf)).Perm (buf :: free p)

/-- Source: `buffer_pool.rs`, `BufferPool` -/
structure BufferPool (B : FixedBufPool) where
  inner : B.State
  bufferSize : ℕ
  capacity : ℕ

namespace BufferPool

variable {B : FixedBufPool}

/-- Source: `buffer_pool.rs`, `BufferPool::new` -/
def new (capacity bufferSize : ℕ) : BufferPool B where
  inner := B.new (List.replicate capacity (List.replicate bufferSize 0))
  bufferSize := bufferSize
  capacity := capacity

/-- Source: `buffer_pool.rs`, `BufferPool::acquire` -/
def acquire (p : BufferPool B) : Option (FixedBuf × BufferPool B) :=
  (B.tryNext p.inner p.bufferSize).map fun (buf, inner) => (buf, { p with inner := inner })

/-- A buffer is dropped. -/
def release (p : BufferPool B) (buf : FixedBuf) : BufferPool B :=
  { p with inner := B.giveBack p.inner buf }

/-- The buffers that are free. -/
def free (p : BufferPool B) : List FixedBuf := B.free p.inner

/-- The indices of the buffers that a pool holds when it is new: the registered ones. -/
def registered (B : FixedBufPool) (capacity bufferSize : ℕ) : List ℕ :=
  (new capacity bufferSize : BufferPool B).free.map (·.index)

/-- What is lent was free. -/
lemma free_of_acquire {p p' : BufferPool B} {buf : FixedBuf} (h : p.acquire = some (buf, p')) :
    p.free.Perm (buf :: p'.free) := by
  obtain ⟨⟨buf', inner⟩, hnext, heq⟩ := Option.map_eq_some_iff.mp h
  obtain ⟨rfl, rfl⟩ := Prod.mk.inj heq
  exact B.perm_tryNext hnext

/-- The free buffers and those that are lent are the registered ones, each of the pool's size. -/
structure Accounts (capacity bufferSize : ℕ) (p : BufferPool B) (lent : List FixedBuf) : Prop where
  perm : ((p.free ++ lent).map (·.index)).Perm (registered B capacity bufferSize)
  size : ∀ buf ∈ p.free ++ lent, buf.bytes.length = bufferSize

/-- In a new pool all buffers are free. -/
lemma accounts_new (capacity bufferSize : ℕ) :
    Accounts capacity bufferSize (new capacity bufferSize : BufferPool B) [] := by
  refine ⟨?_, fun buf hbuf => ?_⟩
  · rw [List.append_nil]
    rfl
  · rw [List.append_nil] at hbuf
    have hmem := B.mem_new _ buf hbuf
    rw [List.eq_of_mem_replicate hmem, List.length_replicate]

variable {capacity bufferSize : ℕ} {p p' : BufferPool B} {buf buf' : FixedBuf}
  {lent lent' : List FixedBuf}

/-- The order in which the borrowers are listed does not matter. -/
lemma Accounts.of_perm (h : Accounts capacity bufferSize p lent) (hperm : lent.Perm lent') :
    Accounts capacity bufferSize p lent' := by
  refine ⟨((hperm.symm.append_left p.free).map _).trans h.perm, fun buf hbuf => ?_⟩
  exact h.size buf ((hperm.append_left p.free).mem_iff.mpr hbuf)

/-- A borrower may write into its buffer. -/
lemma Accounts.write (h : Accounts capacity bufferSize p (buf :: lent)) (buf' : FixedBuf)
    (hindex : buf'.index = buf.index) (hsize : buf'.bytes.length = buf.bytes.length) :
    Accounts capacity bufferSize p (buf' :: lent) := by
  refine ⟨?_, fun b hb => ?_⟩
  · simpa [hindex] using h.perm
  · rcases List.mem_append.mp hb with hb | hb
    · exact h.size b (List.mem_append_left _ hb)
    · rcases List.mem_cons.mp hb with rfl | hb
      · rw [hsize]
        exact h.size buf (by simp)
      · exact h.size b (by simp [hb])

/-- Lending a buffer loses none and doubles none. -/
lemma Accounts.acquire (h : Accounts capacity bufferSize p lent)
    (hp : p.acquire = some (buf, p')) : Accounts capacity bufferSize p' (buf :: lent) := by
  have hperm : (p.free ++ lent).Perm (p'.free ++ buf :: lent) :=
    ((free_of_acquire hp).append_right lent).trans List.perm_middle.symm
  exact ⟨(hperm.symm.map _).trans h.perm, fun b hb => h.size b (hperm.mem_iff.mpr hb)⟩

/-- Taking a buffer back loses none and doubles none. -/
lemma Accounts.release (h : Accounts capacity bufferSize p (buf :: lent)) :
    Accounts capacity bufferSize (p.release buf) lent := by
  have hperm : (p.free ++ buf :: lent).Perm ((p.release buf).free ++ lent) :=
    List.perm_middle.trans ((B.perm_giveBack p.inner buf).symm.append_right lent)
  exact ⟨(hperm.symm.map _).trans h.perm, fun b hb => h.size b (hperm.mem_iff.mpr hb)⟩

/-- Counting instead of listing. -/
lemma Accounts.length (h : Accounts capacity bufferSize p lent) :
    p.free.length + lent.length = (registered B capacity bufferSize).length := by
  simpa using h.perm.length_eq

/-- No two of the free and lent buffers are the same. -/
lemma Accounts.nodup (h : Accounts capacity bufferSize p lent) :
    ((p.free ++ lent).map (·.index)).Nodup :=
  h.perm.nodup_iff.mpr (B.nodup_new _)

end BufferPool

/-- A pool of all the buffers it was given, last in, first out. -/
def FixedBufPool.stack : FixedBufPool where
  State := List FixedBuf
  new bufs := bufs.mapIdx fun i bytes => ⟨i, bytes⟩
  tryNext
    | [], _ => none
    | buf :: rest, _ => some (buf, rest)
  giveBack rest buf := buf :: rest
  free := id
  nodup_new bufs := by
    have hindex : (bufs.mapIdx fun i bytes => (⟨i, bytes⟩ : FixedBuf)).map (·.index) =
        List.range bufs.length := by
      refine List.ext_getElem (by simp) fun i _ _ => by simp
    rw [id, hindex]
    exact List.nodup_range
  mem_new bufs buf hbuf := by
    obtain ⟨i, hi, rfl⟩ := List.mem_mapIdx.mp hbuf
    exact List.getElem_mem hi
  perm_tryNext {p size buf p'} h := by
    cases p with
    | nil => cases h
    | cons buf' rest =>
        cases h
        exact .refl _
  perm_giveBack _ _ := .refl _

end Aulon.Core
