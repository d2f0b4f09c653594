import SeamlessStack.Lib.Except
import SeamlessStack.Lib.Runs
import SeamlessStack.Sfsd.Chunk

/-! The chunk domain of an sfsd: its chunks with their number and total size, and the requests that
change it. -/
namespace SeamlessStack.Sfsd
open Lib

/-- The part of `sfsd_storage_t` that the requests read or write. -/
structure Chunk extends Storage where
  nblocks : BitVec 64
  deriving DecidableEq, Repr

/-- `sfs_chunk_domain_t`; `storage` is the array that was allocated for the chunks. -/
structure ChunkDomain where
  numChunks : ℕ
  sizeInBlks : BitVec 64
  storage : List Chunk
  deriving DecidableEq, Repr

/-- A write behind an array, memory that was freed, a `free` of the stack, a read outside. -/
inductive ChunkFault
  | overflow
  | useAfterFree
  | badFree
  | outside
  deriving DecidableEq, Repr

/-- The argument `storage`: a record of its own, or a record of the array. -/
inductive Ref
  | own (chunk : Chunk)
  | slot (i : ℕ)
  deriving DecidableEq, Repr

def ChunkDomain.deref (d : ChunkDomain) : Ref → Except ChunkFault Chunk
  | .own chunk => .ok chunk
  | .slot i =>
    match d.storage[i]? with
    | some chunk => .ok chunk
    | none => .error .outside

def maxMountPointLen : ℕ := 16

/-- The directory `path` was made and the mount succeeds; without memory (`mem`) the array on the
stack that holds the path is freed. The result says whether a path is returned. -/
def sfsdAddChunk (path : Name) (mem : Bool) (d : ChunkDomain) (chunk : Chunk) :
    Except ChunkFault (ChunkDomain × Bool) :=
  if chunk.protocol ≠ .nfs then .ok (d, false)
  -- `sprintf` of the address, a colon and the path into `source`
  else if pathMax + 20 < chunk.address.text.length + chunk.path.length + 2 then .error .overflow
  else if mem = false then .error .badFree
  -- the number of records to allocate wraps to zero
  else if 2 ^ 32 ≤ d.numChunks + 1 then .error .overflow
  else if d.storage.length < d.numChunks then .error .outside
  else .ok (
    { numChunks := d.numChunks + 1
      sizeInBlks := d.sizeInBlks + chunk.nblocks
      storage := d.storage.take d.numChunks ++
        [{ chunk with mountPoint := path.take maxMountPointLen }] }, true)

/-- The record at `i`. Copies into new memory overrun it for the last record; otherwise the size is
read from the record after it was freed. Without new memory some bytes of the next record are moved
down, and the last record is counted off twice. -/
def removeAt (moveBytes : ℕ → Chunk → Chunk → Chunk) (mem : Bool) (d : ChunkDomain) (i : ℕ) :
    Except ChunkFault (ChunkDomain × Bool) :=
  if mem = true then
    if i ≠ 0 ∧ i = d.numChunks - 1 then .error .overflow else .error .useAfterFree
  else
    match d.storage[i]?, d.storage[i + 1]? with
    | none, _ => .error .outside
    | some chunk, next =>
      if i = d.numChunks - 1 then
        .ok ({ d with
          numChunks := d.numChunks - 2
          sizeInBlks := d.sizeInBlks - chunk.nblocks - chunk.nblocks }, true)
      else
        match next with
        | none => .error .outside
        | some next =>
          let moved := moveBytes (d.numChunks - 2 - i) next chunk
          .ok ({ numChunks := d.numChunks - 1
                 sizeInBlks := d.sizeInBlks - moved.nblocks
                 storage := d.storage.set i moved }, true)

/-- The loop compares the addresses of arrays: it only finds the very record at `storage`. -/
def sfsdRemoveChunk (moveBytes : ℕ → Chunk → Chunk → Chunk) (mem : Bool) (d : ChunkDomain)
    (storage : Ref) : Except ChunkFault (ChunkDomain × Bool) :=
  if d.numChunks = 0 then .ok (d, false)
  else do
    let chunk ← d.deref storage
    if d.numChunks = 1 then
      .ok (⟨0, d.sizeInBlks - chunk.nblocks, []⟩, true)
    else
      match (List.range d.numChunks).find? fun i => chunk.protocol = .nfs ∧ storage = .slot i with
      | none => .ok (d, false)
      | some i => removeAt moveBytes mem d i

/-- The loop compares the addresses of the path arrays, and the texts of the addresses. -/
def sfsdUpdateChunk (d : ChunkDomain) (storage : Ref) : Except ChunkFault (ChunkDomain × Bool) :=
  if d.numChunks = 0 then .ok (d, false)
  else do
    let chunk ← d.deref storage
    match (List.range d.numChunks).find? fun i => chunk.protocol = .nfs ∧ storage = .slot i ∧
        (d.storage[i]?).map (·.address.text) = some chunk.address.text with
    | none => .ok (d, false)
    | some i =>
      let temp ← d.deref (.slot i)
      .ok ({ d with
        sizeInBlks := d.sizeInBlks + chunk.nblocks - temp.nblocks
        storage := d.storage.set i { temp with nblocks := chunk.nblocks } }, true)

/-- The requests that an sfsd gets, with the outcome of what they ask of the system. -/
inductive ChunkRequest
  | add (path : Name) (mem : Bool) (chunk : Chunk)
  | remove (mem : Bool) (chunk : Chunk)
  | update (chunk : Chunk)
  deriving DecidableEq, Repr

/-- The record of a request is in the message that was received. -/
def ChunkDomain.serve (moveBytes : ℕ → Chunk → Chunk → Chunk) (d : ChunkDomain) :
    ChunkRequest → Except ChunkFault (ChunkDomain × Bool)
  | .add path mem chunk => sfsdAddChunk path mem d chunk
  | .remove mem chunk => sfsdRemoveChunk moveBytes mem d (.own chunk)
  | .update chunk => sfsdUpdateChunk d (.own chunk)

def Chunk.Same (a b : Chunk) : Prop := a.address.text = b.address.text ∧ a.path = b.path

instance (a b : Chunk) : Decidable (a.Same b) := inferInstanceAs (Decidable (_ ∧ _))

/-- What a request should do to the chunks there are, and whether it should succeed. -/
def expected (chunks : List Chunk) : ChunkRequest → List Chunk × Bool
  | .add path _ chunk =>
    if chunk.protocol = .nfs then
      (chunks ++ [{ chunk with mountPoint := path.take maxMountPointLen }], true)
    else (chunks, false)
  | .remove _ chunk =>
    if ∃ x ∈ chunks, x.Same chunk then (chunks.filter fun x => ¬ x.Same chunk, true)
    else (chunks, false)
  | .update chunk =>
    if ∃ x ∈ chunks, x.Same chunk then
      (chunks.map fun x => if x.Same chunk then { x with nblocks := chunk.nblocks } else x, true)
    else (chunks, false)

/-- The domain holds exactly these chunks, with their number and the sum of their sizes. -/
structure Holds (d : ChunkDomain) (chunks : List Chunk) : Prop where
  storage : d.storage = chunks
  num : d.numChunks = chunks.length
  size : d.sizeInBlks.toNat = (chunks.map (·.nblocks.toNat)).sum

/-- The request returns what it should, and leaves the domain holding what it should. -/
def AnsweredRight (moveBytes : ℕ → Chunk → Chunk → Chunk) (d : ChunkDomain) (chunks : List Chunk)
    (r : ChunkRequest) : Prop :=
  ∃ d', d.serve moveBytes r = .ok (d', (expected chunks r).2) ∧ Holds d' (expected chunks r).1

/-- An added chunk fits into buffers, memory and counters; a removed one is the only one, with its
size, or is not there and there is not one chunk; an updated one is not there. -/
def Answerable (d : ChunkDomain) : ChunkRequest → Prop
  | .add _ mem chunk => chunk.protocol = .nfs →
      chunk.address.text.length + chunk.path.length + 2 ≤ pathMax + 20 ∧ mem = true ∧
        d.numChunks + 1 < 2 ^ 32 ∧ d.sizeInBlks.toNat + chunk.nblocks.toNat < 2 ^ 64
  | .remove _ chunk =>
      (d.numChunks = 1 → ∀ x ∈ d.storage, x.Same chunk ∧ x.nblocks = chunk.nblocks) ∧
        (d.numChunks ≠ 1 → ∀ x ∈ d.storage, ¬ x.Same chunk)
  | .update chunk => ∀ x ∈ d.storage, ¬ x.Same chunk

instance (d : ChunkDomain) (r : ChunkRequest) : Decidable (Answerable d r) :=
  match r with
  | .add _ _ _ => inferInstanceAs (Decidable (_ → _))
  | .remove _ _ => inferInstanceAs (Decidable (_ ∧ _))
  | .update _ => inferInstanceAs (Decidable (∀ _ ∈ _, _))

section Requests
variable {moveBytes : ℕ → Chunk → Chunk → Chunk} {d d' : ChunkDomain} {chunks : List Chunk}
  {chunk : Chunk} {path : Name} {mem ok : Bool} {r : ChunkRequest}

theorem answeredRight_iff (h : d.serve moveBytes r = .ok (d', ok)) :
    AnsweredRight moveBytes d chunks r ↔
      ok = (expected chunks r).2 ∧ Holds d' (expected chunks r).1 := by
  unfold AnsweredRight
  rw [h]
  constructor
  · rintro ⟨d₁, he, hd⟩
    obtain ⟨rfl, rfl⟩ := Prod.mk.inj (Except.ok.inj he)
    exact ⟨rfl, hd⟩
  · rintro ⟨rfl, hd⟩
    exact ⟨d', rfl, hd⟩

theorem not_answeredRight {f : ChunkFault} (h : d.serve moveBytes r = .error f) :
    ¬ AnsweredRight moveBytes d chunks r := by
  rintro ⟨d', he, -⟩
  rw [h] at he
  cases he

theorem find_own {p : ℕ → Bool} (hp : ∀ i, p i = true → Ref.own chunk = .slot i) (n : ℕ) :
    (List.range n).find? p = none := by
  rw [List.find?_eq_none]
  intro i _ hi
  cases hp i hi

/-- A request that is refused is answered right if the chunk is not there. -/
theorem refused_iff (h : Holds d chunks) (hserve : d.serve moveBytes r = .ok (d, false))
    (hr : (∃ mem, r = .remove mem chunk) ∨ r = .update chunk) :
    AnsweredRight moveBytes d chunks r ↔ ∀ x ∈ d.storage, ¬ x.Same chunk := by
  rw [answeredRight_iff hserve, h.storage]
  have hexp : (∀ x ∈ chunks, ¬ x.Same chunk) → expected chunks r = (chunks, false) := by
    intro hno
    have hnone : ¬ ∃ x ∈ chunks, x.Same chunk := fun ⟨x, hx, hs⟩ => hno x hx hs
    rcases hr with ⟨mem, rfl⟩ | rfl
    · exact if_neg hnone
    · exact if_neg hnone
  constructor
  · rintro ⟨hret, -⟩ x hx hs
    have hthere : ∃ x ∈ chunks, x.Same chunk := ⟨x, hx, hs⟩
    rcases hr with ⟨mem, rfl⟩ | rfl
    · rw [expected, if_pos hthere] at hret
      cases hret
    · rw [expected, if_pos hthere] at hret
      cases hret
  · intro hno
    rw [hexp hno]
    exact ⟨rfl, h⟩

theorem Holds.add_iff (h : Holds d chunks) :
    AnsweredRight moveBytes d chunks (.add path mem chunk) ↔
      Answerable d (.add path mem chunk) := by
  by_cases hnfs : chunk.protocol = .nfs
  · by_cases hbuf : pathMax + 20 < chunk.address.text.length + chunk.path.length + 2
    · have herr : d.serve moveBytes (.add path mem chunk) = .error .overflow := by
        rw [ChunkDomain.serve, sfsdAddChunk, if_neg (not_not.mpr hnfs), if_pos hbuf]
      exact iff_of_false (not_answeredRight herr) fun ha => absurd (ha hnfs).1 (not_le.mpr hbuf)
    by_cases hmem : mem = false
    · have herr : d.serve moveBytes (.add path mem chunk) = .error .badFree := by
        rw [ChunkDomain.serve, sfsdAddChunk, if_neg (not_not.mpr hnfs), if_neg hbuf, if_pos hmem]
      refine iff_of_false (not_answeredRight herr) fun ha => ?_
      rw [(ha hnfs).2.1] at hmem
      cases hmem
    by_cases hwrap : 2 ^ 32 ≤ d.numChunks + 1
    · have herr : d.serve moveBytes (.add path mem chunk) = .error .overflow := by
        rw [ChunkDomain.serve, sfsdAddChunk, if_neg (not_not.mpr hnfs), if_neg hbuf,
          if_neg hmem, if_pos hwrap]
      exact iff_of_false (not_answeredRight herr) fun ha =>
        absurd (ha hnfs).2.2.1 (not_lt.mpr hwrap)
    obtain ⟨rfl, hnum, hsize⟩ := h
    have hok : d.serve moveBytes (.add path mem chunk) = .ok (
        { numChunks := d.numChunks + 1
          sizeInBlks := d.sizeInBlks + chunk.nblocks
          storage := d.storage ++ [{ chunk with mountPoint := path.take maxMountPointLen }] },
        true) := by
      rw [ChunkDomain.serve, sfsdAddChunk, if_neg (not_not.mpr hnfs), if_neg hbuf, if_neg hmem,
        if_neg hwrap, if_neg (by omega), List.take_of_length_le hnum.ge]
    have hsum : (d.sizeInBlks + chunk.nblocks).toNat = d.sizeInBlks.toNat + chunk.nblocks.toNat ↔
        d.sizeInBlks.toNat + chunk.nblocks.toNat < 2 ^ 64 := by
      rw [BitVec.toNat_add]
      constructor
      · intro he
        rw [← he]
        exact Nat.mod_lt _ (by norm_num)
      · exact Nat.mod_eq_of_lt
    rw [answeredRight_iff hok, expected, if_pos hnfs]
    constructor
    · rintro ⟨-, hd⟩ -
      refine ⟨not_lt.mp hbuf, by simpa using hmem, not_le.mp hwrap, hsum.mp ?_⟩
      have := hd.size
      simp only [List.map_append, List.sum_append, ← hsize] at this
      simpa using this
    · intro ha
      refine ⟨rfl, rfl, by simp [hnum], ?_⟩
      simp only [List.map_append, List.sum_append, ← hsize]
      simpa using hsum.mpr (ha hnfs).2.2.2
  · have hserve : d.serve moveBytes (.add path mem chunk) = .ok (d, false) := by
      simp [ChunkDomain.serve, sfsdAddChunk, hnfs]
    rw [answeredRight_iff hserve, expected, if_neg hnfs]
    exact iff_of_true ⟨rfl, h⟩ fun he => absurd he hnfs

theorem Holds.remove_iff (h : Holds d chunks) :
    AnsweredRight moveBytes d chunks (.remove mem chunk) ↔ Answerable d (.remove mem chunk) := by
  by_cases hone : d.numChunks = 1
  · have hok : d.serve moveBytes (.remove mem chunk) =
        .ok (⟨0, d.sizeInBlks - chunk.nblocks, []⟩, true) := by
      rw [ChunkDomain.serve, sfsdRemoveChunk, if_neg (by omega), ChunkDomain.deref, ok_bind,
        if_pos hone]
    obtain ⟨rfl, hnum, hsize⟩ := h
    obtain ⟨x, hx⟩ := List.length_eq_one_iff.mp (hnum.symm.trans hone)
    have hsize : d.sizeInBlks = x.nblocks := by
      apply BitVec.eq_of_toNat_eq
      simpa [hx] using hsize
    have hempty : Holds ⟨0, d.sizeInBlks - chunk.nblocks, []⟩ [] ↔ x.nblocks = chunk.nblocks := by
      constructor
      · intro hd
        have hzero : d.sizeInBlks - chunk.nblocks = 0 := BitVec.eq_of_toNat_eq hd.size
        rw [← hsize]
        bv_omega
      · intro he
        refine ⟨rfl, rfl, ?_⟩
        rw [hsize, he, BitVec.sub_self]
        rfl
    rw [answeredRight_iff hok]
    by_cases hs : x.Same chunk
    · have hexp : expected d.storage (.remove mem chunk) = ([], true) := by
        rw [hx, expected, if_pos ⟨x, List.mem_singleton_self x, hs⟩]
        simp [hs]
      rw [hexp]
      constructor
      · rintro ⟨-, hd⟩
        refine ⟨fun _ y hy => ?_, fun hne => absurd hone hne⟩
        rw [hx, List.mem_singleton] at hy
        exact hy ▸ ⟨hs, hempty.mp hd⟩
      · intro ha
        exact ⟨rfl, hempty.mpr (ha.1 hone x (hx ▸ List.mem_singleton_self x)).2⟩
    · refine iff_of_false ?_ fun ha => hs (ha.1 hone x (hx ▸ List.mem_singleton_self x)).1
      rintro ⟨hret, -⟩
      rw [hx, expected, if_neg (by simpa using hs)] at hret
      cases hret
  · have hserve : d.serve moveBytes (.remove mem chunk) = .ok (d, false) := by
      rw [ChunkDomain.serve, sfsdRemoveChunk]
      by_cases hzero : d.numChunks = 0
      · rw [if_pos hzero]
      · rw [if_neg hzero, ChunkDomain.deref, ok_bind, if_neg hone,
          find_own fun i hi => (of_decide_eq_true hi).2]
    rw [refused_iff h hserve (Or.inl ⟨mem, rfl⟩)]
    exact ⟨fun hno => ⟨fun he => absurd he hone, fun _ => hno⟩, fun ha => ha.2 hone⟩

theorem Holds.update_iff (h : Holds d chunks) :
    AnsweredRight moveBytes d chunks (.update chunk) ↔ Answerable d (.update chunk) := by
  have hserve : d.serve moveBytes (.update chunk) = .ok (d, false) := by
    rw [ChunkDomain.serve, sfsdUpdateChunk]
    by_cases hzero : d.numChunks = 0
    · rw [if_pos hzero]
    · rw [if_neg hzero, ChunkDomain.deref, ok_bind, find_own fun i hi => (of_decide_eq_true hi).2.1]
  exact refused_iff h hserve (Or.inr rfl)

theorem Holds.answeredRight_iff (h : Holds d chunks) :
    AnsweredRight moveBytes d chunks r ↔ Answerable d r := by
  cases r with
  | add path mem chunk => exact h.add_iff
  | remove mem chunk => exact h.remove_iff
  | update chunk => exact h.update_iff

end Requests

section Runs
variable {moveBytes : ℕ → Chunk → Chunk → Chunk} {u : ChunkUse}

end Runs

end SeamlessStack.Sfsd
