import SeamlessStack.Lib.Bitmap
import SeamlessStack.Lib.Except

/-! The entries of an SSD cache device. What `sstack_ssd_cache_init` leaves in `current_ssd_ce`,
which it does not set, is an input. -/
namespace SeamlessStack.DataCache.Ssd

open Lib

/-- A lock of a mutex that is held, or an access outside the bitmap. -/
inductive Fault
  | deadlock
  | outside
  deriving DecidableEq, Repr

/-- The part of `ssd_cache_struct_t` that the functions use. -/
structure CacheStruct where
  numCachelines : BitVec 64
  inuse : BitVec 64
  ceBitmap : Bitmap
  currentSsdCe : ℤ
  mutexHeld : Bool
  deriving DecidableEq, Repr

def intCachelines (n : BitVec 64) : ℤ := (n.setWidth 32).toInt

/-- `BITNSLOTS`, which is not positive for a number that is not. -/
def bitnslots (n : ℤ) : ℕ := ((n + 7) / 8).toNat

/-- The device after `sstack_ssd_cache_init`, with `current` in the place of `current_ssd_ce`. -/
def initStruct (n : BitVec 64) (current : ℤ) : CacheStruct where
  numCachelines := n
  inuse := 0
  ceBitmap := List.replicate (bitnslots (intCachelines n)) 0
  currentSsdCe := current
  mutexHeld := false

def inBitmap (a : Bitmap) (b : ℤ) : Except Fault Unit :=
  require (0 ≤ b ∧ Bitmap.slot b.toNat < a.length) .outside

def getSsdcacheEntry (c : CacheStruct) : Except Fault (ℤ × CacheStruct) := do
  let maxEntries := intCachelines c.numCachelines
  require (c.mutexHeld = false) .deadlock
  if maxEntries ≤ c.currentSsdCe then
    let i := c.ceBitmap.firstUnset 0 maxEntries.toNat
    if (i : ℤ) = maxEntries then
      -- the mutex is not given back here
      return (-1, { c with mutexHeld := true })
    else
      inBitmap c.ceBitmap i
      let bitmap := c.ceBitmap.set i
      let next := bitmap.firstUnset i (maxEntries - i).toNat
      return (i, { c with
        ceBitmap := bitmap
        currentSsdCe := if next < maxEntries then next else maxEntries
        inuse := c.inuse + 1 })
  else
    inBitmap c.ceBitmap c.currentSsdCe
    return (c.currentSsdCe, { c with
      ceBitmap := c.ceBitmap.set c.currentSsdCe.toNat
      currentSsdCe := c.currentSsdCe + 1
      inuse := c.inuse + 1 })

/-- The entry is compared as an unsigned number, and `inuse` is not changed. -/
def freeSsdcacheEntry (c : CacheStruct) (entry : ℤ) : Except Fault (ℤ × CacheStruct) :=
  if c.numCachelines < BitVec.ofInt 64 entry then return (-1, c)
  else do
    require (c.mutexHeld = false) .deadlock
    inBitmap c.ceBitmap entry
    return (0, { c with ceBitmap := c.ceBitmap.clear entry.toNat })

inductive Call
  | get
  | free (entry : ℤ)
  deriving DecidableEq, Repr

/-- A device with the entries that are in use. -/
structure DeviceUse where
  cache : CacheStruct
  used : List ℤ
  deriving DecidableEq, Repr

/-- What a call returns, and the device after it. -/
def DeviceUse.call (s : DeviceUse) : Call → Except Fault (ℤ × DeviceUse)
  | .get => do
    let (entry, c) ← getSsdcacheEntry s.cache
    return (entry, ⟨c, if entry = -1 then s.used else entry :: s.used⟩)
  | .free entry => do
    let (ret, c) ← freeSsdcacheEntry s.cache entry
    return (ret, ⟨c, if ret = 0 then s.used.erase entry else s.used⟩)

def startUse (n : BitVec 64) (current : ℤ) : DeviceUse := ⟨initStruct n current, []⟩

def AllocatedNew (s : DeviceUse) (entry : ℤ) : Prop :=
  0 ≤ entry ∧ entry < s.cache.numCachelines.toNat ∧ entry ∉ s.used

/-- The mutex is given back, the counter is true, and allocation fails just when all are in use. -/
structure CallRight (s : DeviceUse) (call : Call) (ret : ℤ) (s' : DeviceUse) : Prop where
  unlocked : s'.cache.mutexHeld = false
  counted : s'.cache.inuse.toNat = s'.used.length
  fails : call = .get → (ret = -1 ↔ s.used.length = s.cache.numCachelines.toNat)
  allocated : call = .get → ret ≠ -1 → AllocatedNew s ret

/-- Every call returns, and is right. -/
def CallsRight : DeviceUse → List Call → Prop
  | _, [] => True
  | s, call :: calls => ∃ ret s', s.call call = .ok (ret, s') ∧ CallRight s call ret s' ∧
      CallsRight s' calls

def Call.Allowed (s : DeviceUse) : Call → Prop
  | .get => True
  | .free entry => entry ∈ s.used

instance (s : DeviceUse) : ∀ call, Decidable (Call.Allowed s call)
  | .get => inferInstanceAs (Decidable True)
  | .free entry => inferInstanceAs (Decidable (entry ∈ s.used))

/-- Only entries in use are freed. -/
def FreesUsed : DeviceUse → List Call → Prop
  | _, [] => True
  | s, call :: calls => call.Allowed s ∧ match s.call call with
    | .ok (_, s') => FreesUsed s' calls
    | .error _ => True

instance decidableFreesUsed : ∀ s calls, Decidable (FreesUsed s calls)
  | _, [] => inferInstanceAs (Decidable True)
  | s, call :: calls =>
    have : Decidable (match s.call call with
        | .ok (_, s') => FreesUsed s' calls
        | .error _ => True) :=
      match s.call call with
      | .ok (_, s') => decidableFreesUsed s' calls
      | .error _ => inferInstanceAs (Decidable True)
    inferInstanceAs (Decidable (_ ∧ _))

def DeviceUse.callAll : DeviceUse → List Call → Except Fault (List ℤ)
  | _, [] => return []
  | s, call :: calls => do
    let (ret, s') ← s.call call
    let rets ← s'.callAll calls
    return ret :: rets

def limit (n : BitVec 64) : ℕ := (intCachelines n).toNat

theorem limit_le (n : BitVec 64) : limit n ≤ n.toNat := by
  unfold limit intCachelines
  rw [BitVec.toInt_eq_toNat_cond]
  have hmod : (n.setWidth 32).toNat = n.toNat % 2 ^ 32 := BitVec.toNat_setWidth 32 n
  have := Nat.mod_le n.toNat (2 ^ 32)
  split <;> omega

theorem limit_lt (n : BitVec 64) : limit n < 2 ^ 31 := by
  unfold limit
  have := BitVec.toInt_lt (x := n.setWidth 32)
  unfold intCachelines
  omega

/-- The bitmap says which entries are in use. -/
structure Kept (s : DeviceUse) : Prop where
  unlocked : s.cache.mutexHeld = false
  slots : s.cache.ceBitmap.length = bitnslots (intCachelines s.cache.numCachelines)
  counted : s.cache.inuse.toNat = s.used.length
  bits : ∀ i < limit s.cache.numCachelines, s.cache.ceBitmap.test i = true ↔ (i : ℤ) ∈ s.used
  range : ∀ e ∈ s.used, 0 ≤ e ∧ e < limit s.cache.numCachelines
  nodup : s.used.Nodup

theorem getSsdcacheEntry_below {c : CacheStruct} (hmutex : c.mutexHeld = false)
    (hbelow : ¬ intCachelines c.numCachelines ≤ c.currentSsdCe) :
    getSsdcacheEntry c = (inBitmap c.ceBitmap c.currentSsdCe >>= fun _ =>
      .ok (c.currentSsdCe, { c with
        ceBitmap := c.ceBitmap.set c.currentSsdCe.toNat
        currentSsdCe := c.currentSsdCe + 1
        inuse := c.inuse + 1 })) := by
  unfold getSsdcacheEntry
  rw [require_bind_of hmutex, if_neg hbelow]
  rfl

/-- The device after entry `i` was allocated. -/
def DeviceUse.take (s : DeviceUse) (i : ℕ) (current : ℤ) : DeviceUse where
  cache := { s.cache with
    ceBitmap := s.cache.ceBitmap.set i
    currentSsdCe := current
    inuse := s.cache.inuse + 1 }
  used := i :: s.used

/-- The free entries: those below `a`, and from `current_ssd_ce` up to `hi` if it is free. -/
inductive Place (s : DeviceUse) : Prop
  | running (a b hi : ℕ) (hab : a ≤ b) (hb : b < hi) (hhi : hi ≤ limit s.cache.numCachelines)
      (hend : hi = limit s.cache.numCachelines ∨ a = 0) (hcurrent : s.cache.currentSsdCe = b)
      (hfree : ∀ i < limit s.cache.numCachelines, (i : ℤ) ∉ s.used ↔ i < a ∨ b ≤ i ∧ i < hi)
      (hlen : s.used.length + a + (hi - b) = limit s.cache.numCachelines)
  | wrapped (a : ℕ) (ha : a ≤ limit s.cache.numCachelines)
      (hcurrent : limit s.cache.numCachelines ≤ s.cache.currentSsdCe)
      (hfree : ∀ i < limit s.cache.numCachelines, (i : ℤ) ∉ s.used ↔ i < a)
      (hlen : s.used.length + a = limit s.cache.numCachelines)

namespace Kept
variable {s : DeviceUse} {i : ℕ}

theorem slot_lt (h : Kept s) (hi : i < limit s.cache.numCachelines) :
    Bitmap.slot i < s.cache.ceBitmap.length := by
  rw [h.slots]
  unfold limit at hi
  unfold Bitmap.slot bitnslots
  omega

theorem inBitmap_ok (h : Kept s) (hi : i < limit s.cache.numCachelines) :
    inBitmap s.cache.ceBitmap i = .ok () :=
  require_eq_ok.mpr ⟨Int.natCast_nonneg i, h.slot_lt hi⟩

theorem take (h : Kept s) (hi : i < limit s.cache.numCachelines) (hnew : (i : ℤ) ∉ s.used)
    (hlen : s.used.length < limit s.cache.numCachelines) (current : ℤ) :
    Kept (s.take i current) where
  unlocked := h.unlocked
  slots := (Bitmap.set_length _ _).trans h.slots
  counted := by
    have hcounted := h.counted
    have hlimit := limit_lt s.cache.numCachelines
    show (s.cache.inuse + 1).toNat = s.used.length + 1
    rw [BitVec.toNat_add, hcounted]
    exact Nat.mod_eq_of_lt (by simp; omega)
  bits := by
    intro j hj
    show (s.cache.ceBitmap.set i).test j = true ↔ (j : ℤ) ∈ (i : ℤ) :: s.used
    rw [Bitmap.test_set (h.slot_lt hi), Bool.or_eq_true, decide_eq_true_eq, h.bits j hj,
      List.mem_cons, Nat.cast_inj]
  range := by
    intro e he
    obtain rfl | he := List.mem_cons.mp he
    · exact ⟨Int.natCast_nonneg i, Int.ofNat_lt.mpr hi⟩
    · exact h.range e he
  nodup := List.nodup_cons.mpr ⟨hnew, h.nodup⟩

theorem callRight_take (h : Kept s) (hi : i < limit s.cache.numCachelines)
    (hnew : (i : ℤ) ∉ s.used) (hlen : s.used.length < limit s.cache.numCachelines)
    (current : ℤ) : CallRight s .get i (s.take i current) where
  unlocked := h.unlocked
  counted := (h.take hi hnew hlen current).counted
  fails _ := by
    have := limit_le s.cache.numCachelines
    exact iff_of_false (by omega) (by omega)
  allocated _ _ := by
    have := limit_le s.cache.numCachelines
    exact ⟨Int.natCast_nonneg i, by omega, hnew⟩

theorem call_of_get {current : ℤ}
    (hget : getSsdcacheEntry s.cache = .ok (i, (s.take i current).cache)) :
    s.call .get = .ok (i, s.take i current) := by
  have hne : ¬ (i : ℤ) = -1 := by omega
  unfold DeviceUse.call
  rw [hget, ok_bind]
  simp only [hne, if_false]
  rfl

theorem call_current (h : Kept s) (hi : i < limit s.cache.numCachelines)
    (hcurrent : s.cache.currentSsdCe = i) : s.call .get = .ok (i, s.take i (i + 1)) := by
  have hbelow : ¬ intCachelines s.cache.numCachelines ≤ s.cache.currentSsdCe := by
    unfold limit at hi
    omega
  have hget : getSsdcacheEntry s.cache = .ok (i, (s.take i (i + 1)).cache) := by
    rw [getSsdcacheEntry_below h.unlocked hbelow, hcurrent, h.inBitmap_ok hi]
    rfl
  exact call_of_get hget

/-- Beyond the last entry the first one that is free is searched for, and the next one after
it. -/
theorem call_wrapped {a : ℕ} (h : Kept s) (ha : 0 < a) (hle : a ≤ limit s.cache.numCachelines)
    (hcurrent : limit s.cache.numCachelines ≤ s.cache.currentSsdCe)
    (hfree : ∀ i < limit s.cache.numCachelines, (i : ℤ) ∉ s.used ↔ i < a) :
    ∃ current, s.call .get = .ok (0, s.take 0 current) ∧ (1 < a → current = 1) := by
  have hmax : intCachelines s.cache.numCachelines = limit s.cache.numCachelines := by
    unfold limit at hle ⊢
    omega
  have hunset : ∀ i < a, s.cache.ceBitmap.test i = false := by
    intro i hi
    rw [← Bool.not_eq_true, h.bits i (by omega)]
    exact (hfree i (by omega)).mpr hi
  have hfirst : s.cache.ceBitmap.firstUnset 0 (limit s.cache.numCachelines) = 0 :=
    Bitmap.firstUnset_eq le_rfl (by omega) (hunset 0 ha) (by omega)
  have hnext : 1 < a →
      (s.cache.ceBitmap.set 0).firstUnset 0 (limit s.cache.numCachelines) = 1 := by
    intro hone
    refine Bitmap.firstUnset_eq (Nat.zero_le 1) (by omega) ?_ ?_
    · rw [Bitmap.test_set (h.slot_lt (by omega)), hunset 1 hone]
      rfl
    · intro j _ hj
      obtain rfl : j = 0 := by omega
      rw [Bitmap.test_set (h.slot_lt (by omega))]
      rfl
  generalize hn : (s.cache.ceBitmap.set 0).firstUnset 0 (limit s.cache.numCachelines) = next
    at hnext
  have hget : getSsdcacheEntry s.cache = .ok (0, (s.take 0
      (if (next : ℤ) < limit s.cache.numCachelines then next
        else limit s.cache.numCachelines)).cache) := by
    have hsome : ¬ (0 : ℤ) = limit s.cache.numCachelines := by omega
    have hin := h.inBitmap_ok (i := 0) (by omega)
    unfold getSsdcacheEntry
    simp only [hmax, Int.toNat_natCast, hfirst, Nat.cast_zero, sub_zero, hn]
    rw [require_bind_of h.unlocked, if_pos hcurrent, if_neg hsome]
    rw [Nat.cast_zero] at hin
    rw [hin]
    rfl
  refine ⟨_, call_of_get hget, fun hone => ?_⟩
  rw [hnext hone, if_pos (by omega)]
  rfl

theorem subset (h : Kept s) :
    s.used.toFinset ⊆ Finset.Ico 0 (limit s.cache.numCachelines : ℤ) := by
  intro e he
  exact Finset.mem_Ico.mpr (h.range e (List.mem_toFinset.mp he))

theorem all_used (h : Kept s) (hfull : s.used.length = limit s.cache.numCachelines)
    (i : ℕ) (hi : i < limit s.cache.numCachelines) : (i : ℤ) ∈ s.used := by
  have hcard : (Finset.Ico 0 (limit s.cache.numCachelines : ℤ)).card ≤ s.used.toFinset.card := by
    rw [List.toFinset_card_of_nodup h.nodup, hfull]
    simp
  rw [← List.mem_toFinset, Finset.eq_of_subset_of_card_le h.subset hcard, Finset.mem_Ico]
  omega

theorem length_le (h : Kept s) : s.used.length ≤ limit s.cache.numCachelines := by
  rw [← List.toFinset_card_of_nodup h.nodup]
  simpa using Finset.card_le_card h.subset

/-- With all entries in use the call keeps the mutex, or gives one of them out again. -/
theorem not_callRight_full (h : Kept s) (hfull : s.used.length = limit s.cache.numCachelines)
    {ret : ℤ} {s' : DeviceUse} (hcall : s.call .get = .ok (ret, s')) :
    ¬ CallRight s .get ret s' := by
  have hall := h.all_used hfull
  obtain ⟨⟨entry, c⟩, hget, hcall⟩ := bind_eq_ok.mp hcall
  cases hcall
  intro hright
  by_cases hbelow : intCachelines s.cache.numCachelines ≤ s.cache.currentSsdCe
  · have hnone : s.cache.ceBitmap.firstUnset 0 (limit s.cache.numCachelines) =
        limit s.cache.numCachelines := by
      have hle := Bitmap.firstUnset_le s.cache.ceBitmap 0 (limit s.cache.numCachelines)
      by_contra hne
      have hlt : s.cache.ceBitmap.firstUnset 0 (limit s.cache.numCachelines) <
          limit s.cache.numCachelines := by omega
      have hunset := Bitmap.test_firstUnset (a := s.cache.ceBitmap) (i := 0)
        (n := limit s.cache.numCachelines) (by omega)
      rw [(h.bits _ hlt).mpr (hall _ hlt)] at hunset
      cases hunset
    unfold getSsdcacheEntry at hget
    rw [require_bind_of h.unlocked, if_pos hbelow] at hget
    dsimp only at hget
    split at hget
    · cases hget
      exact absurd hright.unlocked (by simp)
    · -- only a negative number of entries comes here, and there is no bitmap then
      rename_i hne
      obtain ⟨u, hin, -⟩ := bind_eq_ok.mp hget
      have hslot := (require_eq_ok.mp hin).2
      unfold limit at hnone
      rw [h.slots, hnone] at hslot
      rw [hnone] at hne
      unfold Bitmap.slot bitnslots at hslot
      omega
  · rw [getSsdcacheEntry_below h.unlocked hbelow] at hget
    obtain ⟨u, hin, hget⟩ := bind_eq_ok.mp hget
    cases hget
    have hnonneg := (require_eq_ok.mp hin).1
    have hused := hall s.cache.currentSsdCe.toNat (by unfold limit; omega)
    rw [Int.toNat_of_nonneg hnonneg] at hused
    exact (hright.allocated rfl (by omega)).2.2 hused

theorem not_callRight_free (h : Kept s) {entry ret : ℤ} {s' : DeviceUse} (hused : entry ∈ s.used)
    (hcall : s.call (.free entry) = .ok (ret, s')) : ¬ CallRight s (.free entry) ret s' := by
  obtain ⟨hnonneg, hlt⟩ := h.range entry hused
  have hin : ¬ s.cache.numCachelines < BitVec.ofInt 64 entry := by
    have := limit_le s.cache.numCachelines
    have hsmall := limit_lt s.cache.numCachelines
    have hentry : (BitVec.ofInt 64 entry).toNat = entry.toNat := by
      rw [BitVec.toNat_ofInt]
      omega
    rw [BitVec.lt_def, hentry]
    omega
  obtain ⟨⟨ret, c⟩, hfree, hcall⟩ := bind_eq_ok.mp hcall
  unfold freeSsdcacheEntry at hfree
  rw [if_neg hin] at hfree
  obtain ⟨-, -, hfree⟩ := bind_eq_ok.mp hfree
  obtain ⟨-, -, hfree⟩ := bind_eq_ok.mp hfree
  cases hfree
  cases hcall
  intro hright
  have hcounted : s.cache.inuse.toNat = (s.used.erase entry).length := hright.counted
  have hpos := List.length_pos_of_mem hused
  rw [h.counted, List.length_erase_of_mem hused] at hcounted
  omega

/-- As long as an entry is free, one is allocated, and the free ones stay in their places. -/
theorem call_get (h : Kept s) (hlen : s.used.length < limit s.cache.numCachelines)
    (hplace : Place s) :
    ∃ i current, s.call .get = .ok ((i : ℕ), s.take i current) ∧
      i < limit s.cache.numCachelines ∧ (i : ℤ) ∉ s.used ∧
      (s.used.length + 1 < limit s.cache.numCachelines → Place (s.take i current)) := by
  have hmem : ∀ i j : ℕ, (j : ℤ) ∉ (i : ℤ) :: s.used ↔ j ≠ i ∧ (j : ℤ) ∉ s.used := by
    intro i j
    rw [List.mem_cons, not_or, Nat.cast_inj]
  cases hplace with
  | running a b hi hab hb hhi hend hcurrent hfree hused =>
    refine ⟨b, b + 1, h.call_current (by omega) hcurrent, by omega,
      (hfree b (by omega)).mpr (.inr ⟨le_rfl, hb⟩), fun hmore => ?_⟩
    by_cases hlast : b + 1 < hi
    · refine .running a (b + 1) hi (by omega) hlast hhi hend rfl ?_ ?_
      · intro j hj
        refine (hmem b j).trans ?_
        rw [hfree j hj]
        omega
      · show s.used.length + 1 + a + (hi - (b + 1)) = limit s.cache.numCachelines
        omega
    · -- a second round that comes to its end has used up all entries
      refine .wrapped a (show a ≤ limit s.cache.numCachelines by omega) ?_ ?_ ?_
      · show (limit s.cache.numCachelines : ℤ) ≤ b + 1
        omega
      · intro j hj
        refine (hmem b j).trans ?_
        rw [hfree j hj]
        have : j < limit s.cache.numCachelines := hj
        omega
      · show s.used.length + 1 + a = limit s.cache.numCachelines
        omega
  | wrapped a ha hcurrent hfree hused =>
    obtain ⟨current, hcall, hnext⟩ := h.call_wrapped (a := a) (by omega) ha hcurrent hfree
    refine ⟨0, current, hcall, by omega, (hfree 0 (by omega)).mpr (by omega), fun hmore => ?_⟩
    refine .running 0 1 a (Nat.zero_le 1) (by omega) ha (.inr rfl) (hnext (by omega)) ?_ ?_
    · intro j hj
      refine (hmem 0 j).trans ?_
      rw [hfree j hj]
      omega
    · show s.used.length + 1 + 0 + (a - 1) = limit s.cache.numCachelines
      omega

end Kept

/-- With free entries in their places, a run is right until it frees one or asks for too many. -/
theorem callsRight_iff_of_kept {s : DeviceUse} {calls : List Call} (h : Kept s)
    (hplace : s.used.length < limit s.cache.numCachelines → Place s) (hfrees : FreesUsed s calls) :
    CallsRight s calls ↔ (∀ call ∈ calls, call = .get) ∧
      s.used.length + calls.length ≤ limit s.cache.numCachelines := by
  induction calls generalizing s with
  | nil =>
    have hle : s.used.length ≤ limit s.cache.numCachelines := h.length_le
    simp [CallsRight, hle]
  | cons call calls ih =>
    obtain ⟨hused, hrest⟩ := hfrees
    cases call with
    | free entry =>
      refine iff_of_false ?_ (by simp)
      rintro ⟨ret, s', hcall, hright, -⟩
      exact h.not_callRight_free hused hcall hright
    | get =>
      by_cases hlen : s.used.length < limit s.cache.numCachelines
      · obtain ⟨i, current, hcall, hi, hnew, hnext⟩ := h.call_get hlen (hplace hlen)
        rw [hcall] at hrest
        have hiff := ih (h.take hi hnew hlen current) hnext hrest
        have hright := h.callRight_take hi hnew hlen current
        have hlength : (s.take i current).used.length = s.used.length + 1 := rfl
        have hlimit : (s.take i current).cache.numCachelines = s.cache.numCachelines := rfl
        rw [hlength, hlimit] at hiff
        have hcalls : CallsRight s (.get :: calls) ↔ CallsRight (s.take i current) calls := by
          constructor
          · rintro ⟨ret, s', hcall', -, hright'⟩
            cases hcall.symm.trans hcall'
            exact hright'
          · exact fun hright' => ⟨_, _, hcall, hright, hright'⟩
        rw [hcalls, hiff, List.forall_mem_cons, List.length_cons, Nat.add_right_comm]
        simp [Nat.add_assoc]
      · have hle : s.used.length ≤ limit s.cache.numCachelines := h.length_le
        refine iff_of_false ?_ ?_
        · rintro ⟨ret, s', hcall, hright, -⟩
          exact h.not_callRight_full (by omega) hcall hright
        · rw [List.length_cons]
          omega

theorem kept_start (n : BitVec 64) (current : ℤ) : Kept (startUse n current) where
  unlocked := rfl
  slots := List.length_replicate
  counted := rfl
  bits i _ := by
    refine iff_of_false ?_ List.not_mem_nil
    show ¬ Bitmap.test (List.replicate _ 0) i = true
    rw [Bitmap.test_replicate]
    exact Bool.false_ne_true
  range _ he := absurd he List.not_mem_nil
  nodup := List.nodup_nil

theorem place_start {n : BitVec 64} {current : ℤ} (hcurrent : 0 ≤ current) :
    Place (startUse n current) := by
  by_cases hlt : current < limit n
  · refine .running current.toNat current.toNat (limit n) le_rfl (by omega) le_rfl (.inl rfl)
      (Int.toNat_of_nonneg hcurrent).symm ?_ ?_
    · intro i hi
      have : i < limit n := hi
      exact iff_of_true List.not_mem_nil (by omega)
    · show 0 + current.toNat + (limit n - current.toNat) = limit n
      omega
  · refine .wrapped (limit n) le_rfl (not_lt.mp hlt) ?_ (Nat.zero_add _)
    intro i hi
    exact iff_of_true List.not_mem_nil hi

/-- A first call with a negative number in `current_ssd_ce` sets a bit outside the bitmap. -/
theorem not_callsRight_negative {n : BitVec 64} {current : ℤ} (hcurrent : current < 0)
    (calls : List Call) : ¬ CallsRight (startUse n current) (.get :: calls) := by
  rintro ⟨ret, s', hcall, hright, -⟩
  by_cases hmax : intCachelines n ≤ current
  · refine (kept_start n current).not_callRight_full ?_ hcall hright
    show 0 = limit n
    unfold limit
    omega
  · obtain ⟨⟨entry, c⟩, hcalled, -⟩ := bind_eq_ok.mp hcall
    have hget : getSsdcacheEntry (initStruct n current) = .ok (entry, c) := hcalled
    have hbelow : ¬ intCachelines (initStruct n current).numCachelines ≤
        (initStruct n current).currentSsdCe := hmax
    rw [getSsdcacheEntry_below rfl hbelow] at hget
    obtain ⟨u, hin, -⟩ := bind_eq_ok.mp hget
    have : 0 ≤ current := (require_eq_ok.mp hin).1
    omega

/-- A run is right just if it frees nothing and asks for no more entries than an `int` counts. -/
theorem ssdEntries_iff (n : BitVec 64) (current : ℤ) (calls : List Call)
    (hfrees : FreesUsed (startUse n current) calls) :
    CallsRight (startUse n current) calls ↔
      (∀ call ∈ calls, call = .get) ∧ calls.length ≤ limit n ∧ (calls ≠ [] → 0 ≤ current) := by
  by_cases hcurrent : 0 ≤ current
  · rw [callsRight_iff_of_kept (kept_start n current) (fun _ => place_start hcurrent) hfrees]
    simp [startUse, initStruct, hcurrent]
  · cases calls with
    | nil => simp [CallsRight]
    | cons call calls =>
      refine iff_of_false ?_ (by simp [hcurrent])
      cases call with
      | get => exact not_callsRight_negative (not_le.mp hcurrent) calls
      | free entry => exact absurd hfrees.1 List.not_mem_nil

def refill : List Call := [.get, .get, .get, .free 0, .free 1, .get, .get, .get]

theorem ssdEntries_two : CallsRight (startUse 2 0) [.get, .get] :=
  (ssdEntries_iff 2 0 [.get, .get] (by decide)).mpr (by decide)

/-- The last call gives out entry 2, never freed; with one line, the second keeps the mutex. -/
theorem ssdEntries_wrong :
    FreesUsed (startUse 3 0) refill ∧
      (startUse 3 0).callAll refill = .ok [0, 1, 2, 0, 0, 0, 1, 2] ∧
      ¬ CallsRight (startUse 3 0) refill ∧ ¬ CallsRight (startUse 1 0) [.get, .get] := by
  have hrefill : FreesUsed (startUse 3 0) refill := by decide
  have hfull : FreesUsed (startUse 1 0) [.get, .get] := by decide
  refine ⟨hrefill, by decide, ?_, ?_⟩
  · rw [callsRight_iff_of_kept (kept_start 3 0) (fun _ => place_start le_rfl) hrefill]
    decide
  · rw [callsRight_iff_of_kept (kept_start 1 0) (fun _ => place_start le_rfl) hfull]
    decide

end SeamlessStack.DataCache.Ssd
