import Mathlib.Tactic

/-! How many objects go on a slab and how many pages a slab has. The sizes are those of x86_64. -/
namespace SeamlessStack.Slab

def pageSize : ℕ := 4096
def pageShift : ℕ := 12

def sizeofSlabDesc : ℕ := 104
def sizeofSlabDescT : ℕ := 8
def sizeofBufctl : ℕ := 2

def slabLimit : ℕ := 2 ^ 32 - 4

def bdsAllocMaxOrder : ℕ := 25 - pageShift

def toSint (x : ℤ) : ℤ := x.bmod (2 ^ 16)

def toUint (x : ℤ) : ℕ := (x % 2 ^ 32).toNat

theorem toUint_eq {x : ℤ} (h0 : 0 ≤ x) (h1 : x < 2 ^ 32) : (toUint x : ℤ) = x := by
  unfold toUint
  rw [Int.emod_eq_of_lt h0 h1]
  exact Int.toNat_of_nonneg h0

/-- The fields fixed once the cache is set up. Of `flags` only `CFLGS_OFF_SLAB` is ever read. -/
structure CacheDesc where
  num : ℕ
  pageOrder : ℕ
  slabSize : ℕ
  mgmtSize : ℕ
  bufferSize : ℕ
  offSlab : Bool
  colour : ℤ
  colourOffset : ℤ
  deriving DecidableEq, Repr

/-- The bytes left over and the objects on a slab; `none` where the division traps. -/
def cacheEstimate (pageOrder bufferSize : ℕ) (offSlab : Bool) : Option (ℕ × ℕ) :=
  let slabSize := pageSize <<< pageOrder
  if offSlab then
    if bufferSize = 0 then none
    else
      let nrObjs := min (slabSize / bufferSize) slabLimit
      some (slabSize - nrObjs * bufferSize, nrObjs)
  else
    let nrObjs := min ((slabSize - sizeofSlabDesc) / (bufferSize + sizeofBufctl)) slabLimit
    let mgmtSize := sizeofSlabDesc + nrObjs * sizeofBufctl
    some (slabSize - (nrObjs * bufferSize + mgmtSize), nrObjs)

def offslabLimit (bufferSize : ℕ) : ℕ :=
  toUint (bufferSize - sizeofSlabDescT) / sizeofBufctl

/-- The loop from `pageOrder` on, with the descriptor it fills in and `left_over`. -/
def calculateSlabOrderFrom (bufferSize : ℕ) (offSlab : Bool) :
    ℕ → ℕ → CacheDesc × ℕ → Option (CacheDesc × ℕ)
  | 0, _, acc => some acc
  | k + 1, pageOrder, acc =>
    match cacheEstimate pageOrder bufferSize offSlab with
    | none => none
    | some (remainder, num) =>
      if num = 0 then calculateSlabOrderFrom bufferSize offSlab k (pageOrder + 1) acc
      else
        let acc' := ({ acc.1 with num, pageOrder, slabSize := pageSize <<< pageOrder }, remainder)
        if remainder * 16 ≤ pageSize <<< pageOrder then some acc'
        else if offSlab ∧ offslabLimit bufferSize < num then some acc'
        else calculateSlabOrderFrom bufferSize offSlab k (pageOrder + 1) acc'

def calculateSlabOrder (cache : CacheDesc) (bufferSize : ℕ) (offSlab : Bool) :
    Option (CacheDesc × ℕ) :=
  calculateSlabOrderFrom bufferSize offSlab (bdsAllocMaxOrder + 1) 0 (cache, 0)

/-- On a descriptor with any values. `cacheLine` is what `__getcachelinesize` reads; `none`:
`-ENOMEM`, or a division that traps. -/
def setupCacheDesc (cacheLine : ℕ) (cache : CacheDesc) (offSlabFlag : Bool) (size : ℕ) :
    Option CacheDesc := do
  let offSlab := offSlabFlag || decide (pageSize >>> 3 ≤ size)
  let (cache, leftOver) ← calculateSlabOrder cache size offSlab
  if cache.num = 0 then none
  else
    let mgmtSize := sizeofBufctl * cache.num + sizeofSlabDesc
    -- an off-slab cache with enough room left keeps its management on the slab after all
    let onSlab := offSlab && decide (mgmtSize ≤ leftOver)
    let leftOver := if onSlab then leftOver - mgmtSize else leftOver
    let colourOffset := toSint cacheLine
    if toUint colourOffset = 0 then none
    else
      let colour := toSint (leftOver / toUint colourOffset : ℕ)
      some { cache with
        mgmtSize
        offSlab := offSlab && !onSlab
        bufferSize := size
        colour
        colourOffset := if colour = 0 then 0 else colourOffset }

def sizeofCacheDesc : ℕ := 328

/-- The descriptor that `bds_cache_init` fills in. Static storage leaves `page_order`, `slab_size`,
`flags` and `colour` zero. -/
def cacheCache (cacheLine : ℕ) : CacheDesc where
  num := (pageSize - sizeofSlabDesc) / (sizeofCacheDesc + sizeofBufctl)
  pageOrder := 0
  slabSize := 0
  mgmtSize := sizeofBufctl * ((pageSize - sizeofSlabDesc) / (sizeofCacheDesc + sizeofBufctl)) +
    sizeofSlabDesc
  bufferSize := sizeofCacheDesc
  offSlab := false
  colour := 0
  colourOffset := toSint cacheLine

def objCost (bufferSize : ℕ) (offSlab : Bool) : ℕ :=
  if offSlab then bufferSize else bufferSize + sizeofBufctl

def descCost (offSlab : Bool) : ℕ := if offSlab then 0 else sizeofSlabDesc

theorem slab_le {o : ℕ} (ho : o ≤ bdsAllocMaxOrder) : pageSize <<< o ≤ 2 ^ 25 := by
  have : 2 ^ o ≤ 2 ^ 13 := Nat.pow_le_pow_right (by norm_num) ho
  rw [Nat.shiftLeft_eq]
  unfold pageSize
  omega

private theorem fill_spec (room : ℕ) {c : ℕ} (hc : 0 < c) :
    room / c * c ≤ room ∧ room - room / c * c < c ∧ (room / c = 0 → room < c) := by
  have hdm := Nat.div_add_mod' room c
  have hm := Nat.mod_lt room hc
  exact ⟨by omega, by omega, fun hz => (Nat.div_eq_zero_iff.mp hz).resolve_left hc.ne'⟩

/-- Both forms fill the slab with objects of `objCost` bytes and leave less than one over. -/
theorem cacheEstimate_spec {o b r n : ℕ} {off : Bool} (ho : o ≤ bdsAllocMaxOrder)
    (h : cacheEstimate o b off = some (r, n)) :
    0 < objCost b off ∧ n * objCost b off ≤ pageSize <<< o ∧ r < objCost b off ∧
      (n = 0 → pageSize <<< o < objCost b off + descCost off) := by
  have hle := slab_le ho
  have hlim : pageSize <<< o ≤ slabLimit := hle.trans (by unfold slabLimit; norm_num)
  cases off with
  | true =>
    simp only [cacheEstimate, if_true] at h
    split_ifs at h with hb
    have hb : 0 < b := Nat.pos_of_ne_zero hb
    rw [Nat.min_eq_left ((Nat.div_le_self _ _).trans hlim)] at h
    obtain ⟨rfl, rfl⟩ := Prod.mk.inj (Option.some.inj h)
    obtain ⟨hfit, hrest, hzero⟩ := fill_spec (pageSize <<< o) hb
    exact ⟨hb, hfit, hrest, hzero⟩
  | false =>
    simp only [cacheEstimate, Bool.false_eq_true, if_false] at h
    rw [Nat.min_eq_left (((Nat.div_le_self _ _).trans (Nat.sub_le _ _)).trans hlim)] at h
    obtain ⟨rfl, rfl⟩ := Prod.mk.inj (Option.some.inj h)
    have hc : 0 < b + sizeofBufctl := by unfold sizeofBufctl; omega
    obtain ⟨hfit, hrest, hzero⟩ := fill_spec (pageSize <<< o - sizeofSlabDesc) hc
    refine ⟨hc, hfit.trans (Nat.sub_le _ _), ?_, fun hz => ?_⟩
    · rw [Nat.mul_add] at hrest
      change _ < b + sizeofBufctl
      omega
    · have := hzero hz
      change _ < b + sizeofBufctl + sizeofSlabDesc
      omega

/-- The indices fit in a `bds_bufctl_t`, and the objects of a slab in the largest slab. -/
structure Sized (num bufferSize : ℕ) : Prop where
  pos : 0 < num
  le : num ≤ 4096
  fits : num * bufferSize ≤ 2 ^ 25

private theorem sized_of_estimate {o b r n : ℕ} {off : Bool} (ho : o ≤ bdsAllocMaxOrder)
    (hbig : o = 0 ∨ pageSize <<< o ≤ 32 * objCost b off + 3328)
    (h : cacheEstimate o b off = some (r, n)) (hn : n ≠ 0) : Sized n b := by
  obtain ⟨hc, hfit, -, -⟩ := cacheEstimate_spec ho h
  have hb : b ≤ objCost b off := by unfold objCost; split_ifs <;> omega
  refine ⟨Nat.pos_of_ne_zero hn, ?_, (Nat.mul_le_mul_left n hb).trans (hfit.trans (slab_le ho))⟩
  rcases hbig with rfl | hbig
  · exact (Nat.le_mul_of_pos_right n hc).trans hfit
  · by_contra hlt
    have : 4097 * objCost b off ≤ n * objCost b off := Nat.mul_le_mul_right _ (by omega)
    omega

/-- Going on past an order means an object cost a sixteenth of it, so the next order still holds
only a few. -/
private theorem calculateSlabOrderFrom_spec {b : ℕ} {off : Bool} (k o : ℕ)
    (acc acc' : CacheDesc × ℕ) (hk : o + k = bdsAllocMaxOrder + 1)
    (hbig : o = 0 ∨ pageSize <<< o ≤ 32 * objCost b off + 3328)
    (h : calculateSlabOrderFrom b off k o acc = some acc') :
    Sized acc'.1.num b ∨
      acc' = acc ∧
        ∀ j, o ≤ j → j ≤ bdsAllocMaxOrder → ∃ r, cacheEstimate j b off = some (r, 0) := by
  induction k generalizing o acc with
  | zero =>
    have : acc = acc' := Option.some.inj h
    exact Or.inr ⟨this.symm, fun j hj hj' => by omega⟩
  | succ k ih =>
    have ho : o ≤ bdsAllocMaxOrder := by omega
    have hdouble : pageSize <<< (o + 1) = 2 * pageSize <<< o := by
      simp only [Nat.shiftLeft_eq, pow_succ]
      ring
    simp only [calculateSlabOrderFrom] at h
    split at h
    · cases h
    · rename_i r n he
      obtain ⟨-, -, hr, hz⟩ := cacheEstimate_spec ho he
      have hd : descCost off ≤ sizeofSlabDesc := by unfold descCost; split_ifs <;> omega
      have hs : sizeofSlabDesc = 104 := rfl
      split_ifs at h with hn hw hl
      · have := hz hn
        rcases ih (o + 1) acc (by omega) (Or.inr (by omega)) h with hf | ⟨rfl, hall⟩
        · exact Or.inl hf
        · refine Or.inr ⟨rfl, fun j hj hj' => ?_⟩
          rcases hj.eq_or_lt with rfl | hj
          · exact ⟨r, hn ▸ he⟩
          · exact hall j hj hj'
      · exact Or.inl (Option.some.inj h ▸ sized_of_estimate ho hbig he hn)
      · exact Or.inl (Option.some.inj h ▸ sized_of_estimate ho hbig he hn)
      · rcases ih (o + 1) _ (by omega) (Or.inr (by omega)) h with hf | ⟨rfl, -⟩
        · exact Or.inl hf
        · exact Or.inl (sized_of_estimate ho hbig he hn)

/-- The last order holds an object of any size that is supported. -/
theorem cacheEstimate_last {size : ℕ} (hsize : size ≤ 2 ^ 25) (flag : Bool) (r : ℕ) :
    cacheEstimate bdsAllocMaxOrder size (flag || decide (pageSize >>> 3 ≤ size)) ≠ some (r, 0) := by
  intro hr
  have hlast := (cacheEstimate_spec le_rfl hr).2.2.2 rfl
  have hval : pageSize <<< bdsAllocMaxOrder = 2 ^ 25 := rfl
  rw [hval] at hlast
  cases hoff : (flag || decide (pageSize >>> 3 ≤ size)) with
  | true =>
    rw [hoff] at hlast
    simp only [objCost, descCost, if_true] at hlast
    omega
  | false =>
    rw [hoff] at hlast
    have hlt : ¬ 512 ≤ size := by
      simp only [Bool.or_eq_false_iff, decide_eq_false_iff_not] at hoff
      exact hoff.2
    simp only [objCost, descCost, Bool.false_eq_true, if_false, sizeofBufctl,
      sizeofSlabDesc] at hlast
    omega

/-- For at most 32 MB, or in a zeroed descriptor, the indices fit in a `bds_bufctl_t`. -/
theorem setupCacheDesc_sized {cacheLine size : ℕ} {old d : CacheDesc} {flag : Bool}
    (hold : size ≤ 2 ^ 25 ∨ old.num = 0)
    (h : setupCacheDesc cacheLine old flag size = some d) :
    Sized d.num d.bufferSize ∧ d.bufferSize = size := by
  simp only [setupCacheDesc, Option.bind_eq_bind, Option.bind_eq_some_iff, Prod.exists] at h
  obtain ⟨c, left, hcalc, h⟩ := h
  by_cases hnum : c.num = 0
  · simp [hnum] at h
  have hsized : Sized c.num size := by
    rcases calculateSlabOrderFrom_spec _ 0 _ _ (by omega) (Or.inl rfl) hcalc with hs | ⟨he, hall⟩
    · exact hs
    · have hc : c = old := (Prod.mk.inj he).1
      rcases hold with hsize | hz
      · obtain ⟨r, hr⟩ := hall bdsAllocMaxOrder (Nat.zero_le _) le_rfl
        exact absurd hr (cacheEstimate_last hsize flag r)
      · exact absurd (hc ▸ hz) hnum
  rw [if_neg hnum] at h
  by_cases hline : toUint (toSint cacheLine) = 0
  · simp [hline] at h
  rw [if_neg hline] at h
  have hd := Option.some.inj h
  subst hd
  exact ⟨hsized, rfl⟩

theorem cacheCache_sized (cacheLine : ℕ) :
    Sized (cacheCache cacheLine).num (cacheCache cacheLine).bufferSize where
  pos := show 0 < 12 by norm_num
  le := show 12 ≤ 4096 by norm_num
  fits := show 12 * 328 ≤ 2 ^ 25 by norm_num

end SeamlessStack.Slab
