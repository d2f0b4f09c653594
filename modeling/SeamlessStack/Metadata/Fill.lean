import SeamlessStack.Metadata.Flatten

/-! What the loop of `fill_inode` can do to a record. The array has a gap wherever `covered` grew by
more than the size of an extent. -/
namespace SeamlessStack.Metadata

open Lib

theorem toInt_eq {x : ℤ} (hx : 0 ≤ x) (hlt : x < 2147483648) : toInt x = x := by
  have hmod : x % 4294967296 = x := Int.emod_eq_of_lt hx (by omega)
  unfold toInt
  rw [hmod, if_pos hlt]

theorem Env.pointer_length (env : Env) (p : ℕ) : (env.pointer p).length = pointerSize := by
  simp [Env.pointer, pointerSize]

/-- What one iteration over the extents reads and writes. -/
structure Took (env : Env) (cur : ℤ) (w t : Walk) (n : ℕ) (ex : Block) : Prop where
  numreplicas : w.data.u32 (cur + w.covered + numreplicasOffset) = some n
  path : ∃ path, w.data.read (cur + getExtentFixedFieldsLen + w.covered) (n * fileHandleSize) =
    some path ∧ t.handles = w.handles ++ [path]
  data : w.data.write (cur + w.covered + getExtentFixedFieldsLen)
    (env.pointer w.handles.length) = some t.data
  extent : t.data.read (cur + w.covered) extentSize = some ex
  array : (w.array.realloc (extentSize + w.covered).toNat).write w.covered ex = some t.array
  covered : t.covered = toInt (w.covered + (extentSize + n * fileHandleSize : ℕ))

variable {i : ℕ}

theorem fillExtent_eq_ok {env : Env} (henv : env.Succeeds) {cur : ℤ} {w t : Walk} :
    fillExtent env cur i w = .ok t ↔ ∃ n ex, Took env cur w t n ex := by
  unfold fillExtent
  constructor
  · intro h
    obtain ⟨n, hn, h⟩ := bind_eq_ok.mp h
    obtain ⟨-, -, h⟩ := bind_eq_ok.mp h
    obtain ⟨path, hpath, h⟩ := bind_eq_ok.mp h
    obtain ⟨data, hdata, h⟩ := bind_eq_ok.mp h
    obtain ⟨-, -, h⟩ := bind_eq_ok.mp h
    obtain ⟨ex, hex, h⟩ := bind_eq_ok.mp h
    obtain ⟨array, harray, h⟩ := bind_eq_ok.mp h
    have ht := Except.ok.inj h
    subst ht
    exact ⟨n, ex, access_eq_ok.mp hn, ⟨path, access_eq_ok.mp hpath, rfl⟩, access_eq_ok.mp hdata,
      access_eq_ok.mp hex, access_eq_ok.mp harray, rfl⟩
  · intro h
    obtain ⟨n, ex, h⟩ := h
    obtain ⟨path, hpath, hhandles⟩ := h.path
    refine bind_eq_ok.mpr ⟨n, access_eq_ok.mpr h.numreplicas, ?_⟩
    refine bind_eq_ok.mpr ⟨(), henv.allocate _, ?_⟩
    refine bind_eq_ok.mpr ⟨path, access_eq_ok.mpr hpath, ?_⟩
    refine bind_eq_ok.mpr ⟨t.data, access_eq_ok.mpr h.data, ?_⟩
    refine bind_eq_ok.mpr ⟨(), henv.allocateUntested _, ?_⟩
    refine bind_eq_ok.mpr ⟨ex, access_eq_ok.mpr h.extent, ?_⟩
    refine bind_eq_ok.mpr ⟨t.array, access_eq_ok.mpr h.array, ?_⟩
    rw [← h.covered, ← hhandles]
    rfl

variable {j : ℕ}

namespace Took
variable {env : Env} {cur : ℤ} {w t : Walk} {n : ℕ} {ex : Block}

theorem covered_nonneg (h : Took env cur w t n ex) : 0 ≤ w.covered :=
  (Block.write_eq_some.mp h.array).1

theorem data_length (h : Took env cur w t n ex) : t.data.length = w.data.length :=
  Block.write_length h.data

theorem path_le (h : Took env cur w t n ex) :
    cur + getExtentFixedFieldsLen + w.covered + (n * fileHandleSize : ℕ) ≤ w.data.length := by
  obtain ⟨path, hpath, -⟩ := h.path
  exact (Block.read_eq_some.mp hpath).2.1

theorem extent_le (h : Took env cur w t n ex) :
    cur + w.covered + extentSize ≤ w.data.length := by
  rw [← h.data_length]
  exact (Block.read_eq_some.mp h.extent).2.1

theorem covered_eq (h : Took env cur w t n ex) (hcur : pointerSize ≤ cur)
    (hlt : w.data.length < 2147483648) :
    t.covered = w.covered + (extentSize + n * fileHandleSize : ℕ) := by
  have hle := h.path_le
  have hnonneg := h.covered_nonneg
  rw [h.covered]
  simp only [getExtentFixedFieldsLen, extentSize, pointerSize] at *
  apply toInt_eq
  · omega
  · omega

theorem array_length (h : Took env cur w t n ex) :
    (t.array.length : ℤ) = w.covered + extentSize := by
  have hnonneg := h.covered_nonneg
  rw [Block.write_length h.array, Block.realloc_length]
  omega

theorem array_old (h : Took env cur w t n ex) (hj : j < w.array.length)
    (hle : (w.array.length : ℤ) ≤ w.covered) : t.array[j]? = w.array[j]? := by
  rw [Block.write_getElem?_before h.array (by omega)]
  exact Block.realloc_getElem?_old hj (by omega)

theorem array_gap (h : Took env cur w t n ex) (hj : w.array.length ≤ j)
    (hlt : (j : ℤ) < w.covered) : t.array[j]? = some .undef := by
  rw [Block.write_getElem?_before h.array (by omega)]
  exact Block.realloc_getElem?_new hj (by omega)

theorem array_new (h : Took env cur w t n ex) (hj : j < extentSize) :
    t.array[w.covered.toNat + j]? = ex[j]? := by
  apply Block.write_getElem?_inside h.array
  rw [Block.read_length h.extent]
  exact hj

theorem ex_numreplicas (h : Took env cur w t n ex) : ex.u32 numreplicasOffset = some n := by
  rw [Block.u32_of_read h.extent (by decide), ← h.numreplicas]
  apply Block.u32_write_before h.data
  simp only [numreplicasOffset, getExtentFixedFieldsLen]
  omega

end Took

/-- The array of a walk ends before the place of the next extent. -/
structure Walk.Fits (w : Walk) : Prop where
  array : (w.array.length : ℤ) ≤ w.covered
  data : w.data.length < 2147483648

theorem Took.fits {env : Env} {cur : ℤ} {w t : Walk} {n : ℕ} {ex : Block}
    (h : Took env cur w t n ex) (hcur : pointerSize ≤ cur) (hw : w.Fits) : t.Fits where
  array := by
    rw [h.array_length, h.covered_eq hcur hw.data]
    push_cast
    have := Int.natCast_nonneg (n * fileHandleSize)
    push_cast at this
    omega
  data := by
    rw [h.data_length]
    exact hw.data

variable {m : ℕ} {f : Walk}

theorem iterate_succ {env : Env} (henv : env.Succeeds) {cur : ℤ} {w : Walk} :
    iterate (fillExtent env cur) (m + 1) i w = .ok f ↔
      ∃ t n ex, Took env cur w t n ex ∧ iterate (fillExtent env cur) m (i + 1) t = .ok f := by
  rw [iterate, bind_eq_ok]
  constructor
  · intro h
    obtain ⟨t, ht, hf⟩ := h
    obtain ⟨n, ex, htook⟩ := (fillExtent_eq_ok henv).mp ht
    exact ⟨t, n, ex, htook, hf⟩
  · intro h
    obtain ⟨t, n, ex, htook, hf⟩ := h
    exact ⟨t, (fillExtent_eq_ok henv).mpr ⟨n, ex, htook⟩, hf⟩

theorem iterate_old {env : Env} (henv : env.Succeeds) {cur : ℤ} (hcur : pointerSize ≤ cur)
    : ∀ {i : ℕ} {w : Walk}, w.Fits → j < w.array.length →
      iterate (fillExtent env cur) m i w = .ok f → f.array[j]? = w.array[j]? := by
  induction m with
  | zero =>
    intro i w _ _ h
    rw [Except.ok.inj h]
  | succ m ih =>
    intro i w hw hj h
    obtain ⟨t, n, ex, ht, hf⟩ := (iterate_succ henv).mp h
    have hfit := hw.array
    have hlen := ht.array_length
    rw [ih (ht.fits hcur hw) (by omega) hf]
    exact ht.array_old hj hw.array

theorem iterate_gap {env : Env} (henv : env.Succeeds) {cur : ℤ} (hcur : pointerSize ≤ cur)
    {w : Walk} (hw : w.Fits) (hj : w.array.length ≤ j)
    (hlt : (j : ℤ) < w.covered) (h : iterate (fillExtent env cur) m i w = .ok f) :
    f.array[j]? = none ∨ f.array[j]? = some .undef := by
  cases m with
  | zero =>
    left
    rw [← Except.ok.inj h]
    exact List.getElem?_eq_none hj
  | succ m =>
    right
    obtain ⟨t, n, ex, ht, hf⟩ := (iterate_succ henv).mp h
    have hlen := ht.array_length
    rw [iterate_old henv hcur (ht.fits hcur hw) (by omega) hf]
    exact ht.array_gap hj hlt

theorem Took.kept {env : Env} {cur : ℤ} {w t : Walk} {n : ℕ} {ex : Block}
    (h : Took env cur w t n ex) (henv : env.Succeeds) (hcur : pointerSize ≤ cur) (hw : w.Fits)
    (hf : iterate (fillExtent env cur) m i t = .ok f) (hj : j < extentSize) :
    f.array[w.covered.toNat + j]? = ex[j]? := by
  have hlen := h.array_length
  have hnonneg := h.covered_nonneg
  rw [iterate_old henv hcur (h.fits hcur hw) (by omega) hf]
  exact h.array_new hj

/-- If the fixed fields of an extent are found at its place, its number of replicas was read. -/
theorem Took.numreplicas_eq {env : Env} {cur : ℤ} {w t : Walk} {n : ℕ} {ex : Block}
    (h : Took env cur w t n ex) (henv : env.Succeeds) (hcur : pointerSize ≤ cur) (hw : w.Fits)
    (hf : iterate (fillExtent env cur) m i t = .ok f) {e : Extent}
    (he : f.array.read w.covered getExtentFixedFieldsLen = some (Block.ofBytes e.fixed)) :
    n = e.numreplicas := by
  have hsame : ex.u32 numreplicasOffset = (Block.ofBytes e.fixed).u32 numreplicasOffset := by
    unfold Block.u32
    congr 2
    apply Block.read_congr
    · rw [Block.read_length h.extent]
      decide
    · rw [Block.ofBytes_length, e.fixed_length]
      decide
    · intro j hj
      simp only [numreplicasOffset]
      rw [Block.read_getElem? he (by simp only [getExtentFixedFieldsLen]; omega)]
      exact (h.kept henv hcur hw hf (by simp only [extentSize]; omega)).symm
  rw [h.ex_numreplicas, e.numreplicas_eq] at hsame
  exact Option.some.inj hsame

/-- The place behind an extent with replicas is never written. -/
theorem Took.numreplicas_eq_zero {env : Env} {cur : ℤ} {w t : Walk} {n : ℕ} {ex : Block}
    (h : Took env cur w t n ex) (henv : env.Succeeds) (hcur : pointerSize ≤ cur) (hw : w.Fits)
    (hf : iterate (fillExtent env cur) m i t = .ok f) {e : Extent}
    (he : f.array.read (w.covered + extentSize) getExtentFixedFieldsLen =
      some (Block.ofBytes e.fixed)) : n = 0 := by
  by_contra hne
  have hlen := h.array_length
  have hnonneg := h.covered_nonneg
  have hcovered := h.covered_eq hcur hw.data
  have hpos : 0 < n * fileHandleSize := Nat.mul_pos (Nat.pos_of_ne_zero hne) (by decide)
  have hfirst : ∃ x, (Block.ofBytes e.fixed)[0]? = some (.byte x) := by
    have hlt : 0 < e.fixed.length := by
      rw [e.fixed_length]
      decide
    refine ⟨e.fixed[0], ?_⟩
    simp [Block.ofBytes, hlt]
  obtain ⟨x, hx⟩ := hfirst
  rw [Block.read_getElem? he (by decide), Nat.add_zero] at hx
  have hgap := iterate_gap henv hcur (h.fits hcur hw)
    (j := (w.covered + extentSize).toNat) (by omega) (by omega) hf
  rw [hx] at hgap
  simp at hgap

/-- If the fixed fields of all extents are found, only the last extent has replicas, and the loop
stayed inside the record. -/
theorem iterate_restored {env : Env} (henv : env.Succeeds) {cur : ℤ} (hcur : pointerSize ≤ cur)
    (extents : List Extent) : ∀ {i : ℕ} {w : Walk}, w.Fits → extents ≠ [] →
      w.covered = (extentSize * i : ℕ) →
      (∀ k ex, extents[k]? = some ex → f.array.read (extentSize * (i + k) : ℕ)
        getExtentFixedFieldsLen = some (Block.ofBytes ex.fixed)) →
      iterate (fillExtent env cur) extents.length i w = .ok f →
      ∃ n : ℕ, (extentsBlock extents).length =
          getExtentFixedFieldsLen * extents.length + n * fileHandleSize ∧
        f.covered = (extentSize * (i + extents.length) + n * fileHandleSize : ℕ) ∧
        f.data.length = w.data.length ∧
        cur + f.covered ≤ w.data.length + pointerSize ∧
        cur + (extentSize * (i + extents.length) : ℕ) ≤ w.data.length := by
  induction extents with
  | nil =>
    intro i w _ hne
    exact absurd rfl hne
  | cons e extents ih =>
    intro i w hw _ hcovered hslots h
    obtain ⟨t, n, ex, ht, hf⟩ := (iterate_succ henv).mp h
    have hfirst := hslots 0 e rfl
    rw [Nat.add_zero, ← hcovered] at hfirst
    have hn := ht.numreplicas_eq henv hcur hw hf hfirst
    have hstep := ht.covered_eq hcur hw.data
    have hpath := ht.path_le
    have hextent := ht.extent_le
    cases extents with
    | nil =>
      have hft : f = t := (Except.ok.inj hf).symm
      subst hft
      refine ⟨n, ?_, ?_, ht.data_length, ?_, ?_⟩
      · rw [extentsBlock_length_cons, ← hn]
        simp [extentsBlock, getExtentFixedFieldsLen]
      · rw [hstep, hcovered]
        simp only [extentSize, List.length_cons, List.length_nil]
        push_cast
        ring
      · rw [hstep]
        simp only [extentSize, getExtentFixedFieldsLen, pointerSize] at *
        push_cast at *
        omega
      · rw [hcovered] at hextent
        simp only [extentSize, List.length_cons, List.length_nil] at *
        push_cast at *
        omega
    | cons e' rest =>
      have hsecond := hslots 1 e' rfl
      have hplace : ((extentSize * (i + 1) : ℕ) : ℤ) = w.covered + extentSize := by
        rw [hcovered]
        push_cast
        ring
      rw [hplace] at hsecond
      have hzero := ht.numreplicas_eq_zero henv hcur hw hf hsecond
      rw [hzero, Nat.zero_mul, Nat.add_zero, ← hplace] at hstep
      have hrest : ∀ k ex, (e' :: rest)[k]? = some ex →
          f.array.read (extentSize * (i + 1 + k) : ℕ) getExtentFixedFieldsLen =
            some (Block.ofBytes ex.fixed) := by
        intro k ex' hk
        rw [Nat.add_assoc, Nat.add_comm 1 k]
        exact hslots (k + 1) ex' hk
      obtain ⟨m, hblock, hcov, hdata, hle, hend⟩ :=
        ih (ht.fits hcur hw) (by simp) hstep hrest hf
      have hcount : i + 1 + (e' :: rest).length = i + (e :: e' :: rest).length := by
        simp only [List.length_cons]
        omega
      rw [hcount] at hcov hend
      rw [ht.data_length] at hdata hle hend
      refine ⟨m, ?_, hcov, hdata, hle, hend⟩
      rw [extentsBlock_length_cons, hblock, ← hn, hzero]
      simp only [List.length_cons]
      ring

end SeamlessStack.Metadata
