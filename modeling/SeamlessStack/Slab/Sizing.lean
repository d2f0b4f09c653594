import SeamlessStack.Slab.Placement

/-! The sizing with every subtraction, division and store to an unsigned variable checked, and the
exact account of the bytes of a slab. -/
namespace SeamlessStack.Slab
open Lib

/-- An unsigned computation that is not exact, the trap of a division, and `-ENOMEM`. -/
inductive SizeFault
  | wraps
  | tooBig
  | divByZero
  | noMemory
  deriving DecidableEq, Repr

def stored (w x : ℕ) : Except SizeFault ℕ := do
  require (x < 2 ^ w) .tooBig
  .ok x

def checkedSub (x y : ℕ) : Except SizeFault ℕ := do
  require (y ≤ x) .wraps
  .ok (x - y)

def checkedDiv (x y : ℕ) : Except SizeFault ℕ := do
  require (y ≠ 0) .divByZero
  .ok (x / y)

/-- As `cache_estimate` computes them. A `size_t` has 64 bits and a `bds_uint` has 32. -/
def checkedCount (slabSize bufferSize : ℕ) (offSlab : Bool) : Except SizeFault (ℕ × ℕ) :=
  if offSlab then do
    let quotient ← checkedDiv slabSize bufferSize
    let nrObjs ← stored 32 quotient
    .ok (min nrObjs slabLimit, 0)
  else do
    let room ← checkedSub slabSize sizeofSlabDesc
    let cell ← stored 64 (bufferSize + sizeofBufctl)
    let quotient ← checkedDiv room cell
    let nrObjs ← stored 32 quotient
    let mgmtSize ← stored 64 (sizeofSlabDesc + min nrObjs slabLimit * sizeofBufctl)
    .ok (min nrObjs slabLimit, mgmtSize)

def checkedEstimate (pageOrder bufferSize : ℕ) (offSlab : Bool) : Except SizeFault (ℕ × ℕ) := do
  let slabSize ← stored 64 (pageSize <<< pageOrder)
  let (nrObjs, mgmtSize) ← checkedCount slabSize bufferSize offSlab
  let used ← stored 64 (nrObjs * bufferSize + mgmtSize)
  let leftOver ← checkedSub slabSize used
  .ok (leftOver, nrObjs)

/-- The loop of `calculate_slab_order`. -/
def checkedSlabOrderFrom (bufferSize : ℕ) (offSlab : Bool) :
    ℕ → ℕ → CacheDesc × ℕ → Except SizeFault (CacheDesc × ℕ)
  | 0, _, acc => .ok acc
  | k + 1, pageOrder, acc => do
    let (remainder, num) ← checkedEstimate pageOrder bufferSize offSlab
    if num = 0 then checkedSlabOrderFrom bufferSize offSlab k (pageOrder + 1) acc
    else
      let slabSize ← stored 32 (pageSize <<< pageOrder)
      let acc' := ({ acc.1 with num, pageOrder, slabSize }, remainder)
      let wasted ← stored 64 (remainder * 16)
      if wasted ≤ slabSize then .ok acc'
      else if offSlab then do
        let room ← checkedSub bufferSize sizeofSlabDescT
        let offslabLimit ← stored 32 room
        if offslabLimit / sizeofBufctl < num then .ok acc'
        else checkedSlabOrderFrom bufferSize offSlab k (pageOrder + 1) acc'
      else checkedSlabOrderFrom bufferSize offSlab k (pageOrder + 1) acc'

def checkedLeftOver (onSlab : Bool) (leftOver mgmtSize : ℕ) : Except SizeFault ℕ :=
  if onSlab then checkedSub leftOver mgmtSize else .ok leftOver

/-- `__setup_cache_desc`, with the `left_over` it ends with. -/
def checkedSetup (cacheLine : ℕ) (cache : CacheDesc) (offSlabFlag : Bool) (size : ℕ) :
    Except SizeFault (CacheDesc × ℕ) := do
  let offSlab := offSlabFlag || decide (pageSize >>> 3 ≤ size)
  let (cache, leftOver) ← checkedSlabOrderFrom size offSlab (bdsAllocMaxOrder + 1) 0 (cache, 0)
  let leftOver ← stored 32 leftOver
  require (cache.num ≠ 0) .noMemory
  let mgmtSize ← stored 64 (sizeofBufctl * cache.num + sizeofSlabDesc)
  let onSlab := offSlab && decide (mgmtSize ≤ leftOver)
  let leftOver ← checkedLeftOver onSlab leftOver mgmtSize
  let colourOffset := toSint cacheLine
  let colours ← checkedDiv leftOver (toUint colourOffset)
  let colour := toSint colours
  .ok ({ cache with
    mgmtSize
    offSlab := offSlab && !onSlab
    bufferSize := size
    colour
    colourOffset := if colour = 0 then 0 else colourOffset }, leftOver)

section Checks
variable {w x y : ℕ}

theorem stored_ok (h : x < 2 ^ w) : stored w x = .ok x := by
  rw [stored, require_bind_of h]

theorem checkedSub_ok (h : y ≤ x) : checkedSub x y = .ok (x - y) := by
  rw [checkedSub, require_bind_of h]

theorem checkedDiv_ok (h : y ≠ 0) : checkedDiv x y = .ok (x / y) := by
  rw [checkedDiv, require_bind_of h]

end Checks

def mgmtOn (offSlab : Bool) (num : ℕ) : ℕ :=
  if offSlab then 0 else sizeofSlabDesc + num * sizeofBufctl

section Estimate
variable {o b : ℕ} {off : Bool}

theorem four_thousand_le (o : ℕ) : 4096 ≤ pageSize <<< o := by
  have : 1 ≤ 2 ^ o := Nat.one_le_two_pow
  rw [Nat.shiftLeft_eq]
  unfold pageSize
  omega

/-- The bytes of the slab are those of its objects, of the management and left over. -/
theorem checkedEstimate_ok (off : Bool) (ho : o ≤ bdsAllocMaxOrder) (hpos : 0 < b)
    (hle : b ≤ 2 ^ 25) :
    ∃ r n, cacheEstimate o b off = some (r, n) ∧ checkedEstimate o b off = .ok (r, n) ∧
      pageSize <<< o = n * b + mgmtOn off n + r := by
  have hslab := slab_le ho
  have hpage := four_thousand_le o
  have hlim : 2 ^ 25 ≤ slabLimit := by unfold slabLimit; norm_num
  have hstore : stored 64 (pageSize <<< o) = .ok (pageSize <<< o) := stored_ok (by omega)
  cases off with
  | true =>
    have hdiv : pageSize <<< o / b ≤ 2 ^ 25 := (Nat.div_le_self _ _).trans hslab
    have hmul : pageSize <<< o / b * b ≤ pageSize <<< o := Nat.div_mul_le_self _ _
    have hcount : checkedCount (pageSize <<< o) b true = .ok (pageSize <<< o / b, 0) := by
      simp only [checkedCount, if_true, checkedDiv_ok hpos.ne', ok_bind,
        stored_ok (hdiv.trans_lt (by norm_num : 2 ^ 25 < 2 ^ 32)),
          Nat.min_eq_left (hdiv.trans hlim)]
    refine ⟨pageSize <<< o - pageSize <<< o / b * b, pageSize <<< o / b, ?_, ?_, ?_⟩
    · simp only [cacheEstimate, if_true, if_neg hpos.ne', Nat.min_eq_left (hdiv.trans hlim)]
    · simp only [checkedEstimate, hstore, hcount, ok_bind, add_zero,
        stored_ok ((hmul.trans hslab).trans_lt (by norm_num : 2 ^ 25 < 2 ^ 64)), checkedSub_ok hmul]
    · simp only [mgmtOn, if_true]
      omega
  | false =>
    have hcell : b + sizeofBufctl ≠ 0 := by unfold sizeofBufctl; omega
    obtain ⟨n, hn⟩ : ∃ n, n = (pageSize <<< o - sizeofSlabDesc) / (b + sizeofBufctl) := ⟨_, rfl⟩
    have hdiv : n ≤ 2 ^ 25 := by
      rw [hn]
      exact ((Nat.div_le_self _ _).trans (Nat.sub_le _ _)).trans hslab
    have hmul : n * (b + sizeofBufctl) ≤ pageSize <<< o - sizeofSlabDesc := by
      rw [hn]
      exact Nat.div_mul_le_self _ _
    have hused : n * b + (sizeofSlabDesc + n * sizeofBufctl) ≤ pageSize <<< o := by
      rw [Nat.mul_add] at hmul
      unfold sizeofSlabDesc at hmul ⊢
      omega
    have hmgmt : sizeofSlabDesc + n * sizeofBufctl < 2 ^ 64 := by omega
    have hcount : checkedCount (pageSize <<< o) b false =
        .ok (n, sizeofSlabDesc + n * sizeofBufctl) := by
      have hdesc : sizeofSlabDesc ≤ pageSize <<< o := by unfold sizeofSlabDesc; omega
      have hsmall : b + sizeofBufctl < 2 ^ 64 := by unfold sizeofBufctl; omega
      simp only [checkedCount, Bool.false_eq_true, if_false, checkedSub_ok hdesc, ok_bind,
        stored_ok hsmall, checkedDiv_ok hcell, ← hn, stored_ok (show n < 2 ^ 32 by omega),
        Nat.min_eq_left (hdiv.trans hlim), stored_ok hmgmt]
    refine ⟨pageSize <<< o - (n * b + (sizeofSlabDesc + n * sizeofBufctl)), n, ?_, ?_, ?_⟩
    · simp only [cacheEstimate, Bool.false_eq_true, if_false, ← hn,
        Nat.min_eq_left (hdiv.trans hlim)]
    · simp only [checkedEstimate, hstore, hcount, ok_bind, checkedSub_ok hused,
        stored_ok (show n * b + (sizeofSlabDesc + n * sizeofBufctl) < 2 ^ 64 by omega)]
    · simp only [mgmtOn, Bool.false_eq_true, if_false]
      omega

/-- A slab order that was found: the account of its bytes. -/
structure Exact (b : ℕ) (off : Bool) (acc : CacheDesc × ℕ) : Prop where
  num_ne : acc.1.num ≠ 0
  slabSize : acc.1.slabSize = pageSize <<< acc.1.pageOrder
  account : acc.1.slabSize = acc.1.num * b + mgmtOn off acc.1.num + acc.2
  small : acc.1.slabSize ≤ 2 ^ 25

/-- The loop is exact in what it has found last. If it found nothing, no order holds an object. -/
theorem checkedSlabOrderFrom_ok (off : Bool) (hpos : 0 < b) (hle : b ≤ 2 ^ 25) (k : ℕ)
    (hk : o + k = bdsAllocMaxOrder + 1) (acc : CacheDesc × ℕ) :
    ∃ acc', calculateSlabOrderFrom b off k o acc = some acc' ∧
      checkedSlabOrderFrom b off k o acc = .ok acc' ∧
      (Exact b off acc' ∨ acc' = acc ∧
        ∀ j, o ≤ j → j ≤ bdsAllocMaxOrder → ∃ r, cacheEstimate j b off = some (r, 0)) := by
  induction k generalizing o acc with
  | zero => exact ⟨acc, rfl, rfl, Or.inr ⟨rfl, fun j hj hj' => by omega⟩⟩
  | succ k ih =>
    have ho : o ≤ bdsAllocMaxOrder := by omega
    obtain ⟨r, n, hest, hchk, hacct⟩ := checkedEstimate_ok off ho hpos hle
    have hslab := slab_le ho
    simp only [calculateSlabOrderFrom, checkedSlabOrderFrom, hest, hchk, ok_bind]
    by_cases hn : n = 0
    · obtain ⟨acc', hcalc, hchk', hor⟩ := ih (o := o + 1) (by omega) acc
      rw [if_pos hn, if_pos hn]
      refine ⟨acc', hcalc, hchk', hor.imp id ?_⟩
      rintro ⟨he, hall⟩
      refine ⟨he, fun j hj hj' => ?_⟩
      rcases hj.eq_or_lt with rfl | hj
      · exact ⟨r, hn ▸ hest⟩
      · exact hall j hj hj'
    · rw [if_neg hn, if_neg hn]
      obtain ⟨found, hfound⟩ : ∃ found : CacheDesc × ℕ, found =
          ({ acc.1 with num := n, pageOrder := o, slabSize := pageSize <<< o }, r) := ⟨_, rfl⟩
      have hexact : Exact b off found := by
        rw [hfound]
        exact ⟨hn, rfl, hacct, hslab⟩
      -- going on with what was found so far
      have hnext : ∃ acc', calculateSlabOrderFrom b off k (o + 1) found = some acc' ∧
          checkedSlabOrderFrom b off k (o + 1) found = .ok acc' ∧ Exact b off acc' := by
        obtain ⟨acc', hcalc, hchk', hex | ⟨rfl, -⟩⟩ := ih (o := o + 1) (by omega) found
        · exact ⟨acc', hcalc, hchk', hex⟩
        · exact ⟨_, hcalc, hchk', hexact⟩
      obtain ⟨acc', hcalc, hchk', hex⟩ := hnext
      simp only [stored_ok (show pageSize <<< o < 2 ^ 32 by omega),
        stored_ok (show r * 16 < 2 ^ 64 by omega), ok_bind, ← hfound]
      by_cases hw : r * 16 ≤ pageSize <<< o
      · rw [if_pos hw, if_pos hw]
        exact ⟨found, rfl, rfl, Or.inl hexact⟩
      rw [if_neg hw, if_neg hw]
      cases off with
      | false => exact ⟨acc', by simpa using hcalc, by simpa using hchk', Or.inl hex⟩
      | true =>
        -- an object left over is longer than a sixteenth of a page
        have hlong : sizeofSlabDescT ≤ b := by
          have hr := (cacheEstimate_spec ho hest).2.2.1
          have hpage : 4096 ≤ pageSize <<< o := four_thousand_le o
          simp only [objCost, if_true] at hr
          unfold sizeofSlabDescT
          omega
        have hlimit : offslabLimit b = (b - sizeofSlabDescT) / sizeofBufctl := by
          have hcast : toUint ((b : ℤ) - (sizeofSlabDescT : ℤ)) = b - sizeofSlabDescT := by
            have := toUint_eq (x := (b : ℤ) - (sizeofSlabDescT : ℤ)) (by omega) (by omega)
            omega
          rw [offslabLimit, hcast]
        simp only [if_true, checkedSub_ok hlong, ok_bind, true_and, hlimit,
          stored_ok (show b - sizeofSlabDescT < 2 ^ 32 by omega)]
        split_ifs
        · exact ⟨found, rfl, rfl, Or.inl hexact⟩
        · exact ⟨acc', hcalc, hchk', Or.inl hex⟩

end Estimate

def zeroDesc : CacheDesc := ⟨0, 0, 0, 0, 0, false, 0, 0⟩

/-- For every size up to 32 MB: `__setup_cache_desc` goes through, with every value in its type and
no subtraction below zero, and accounts for every byte of the slab, just when the size of a cache
line could be read. -/
theorem setupCacheDesc_exact_iff {size : ℕ} (hpos : 1 ≤ size) (hle : size ≤ 2 ^ 25)
    (flag : Bool) (cacheLine : ℕ) :
    (∃ d leftOver, setupCacheDesc cacheLine zeroDesc flag size = some d ∧
      checkedSetup cacheLine zeroDesc flag size = .ok (d, leftOver) ∧
      1 ≤ d.num ∧ d.num ≤ 65535 ∧ d.slabSize = 4096 <<< d.pageOrder ∧
      d.slabSize = d.num * size + (if d.offSlab then 0 else d.mgmtSize) + leftOver) ↔
    toUint (toSint cacheLine) ≠ 0 := by
  constructor
  · rintro ⟨d, leftOver, hsetup, -⟩ hline
    simp only [setupCacheDesc, hline, if_true, Option.bind_eq_bind,
      Option.bind_eq_some_iff] at hsetup
    obtain ⟨_, -, hnone⟩ := hsetup
    split_ifs at hnone
  · intro hline
    obtain ⟨off, hoff⟩ : ∃ off, off = (flag || decide (pageSize >>> 3 ≤ size)) := ⟨_, rfl⟩
    obtain ⟨⟨c, left⟩, hcalc, hchk, hor⟩ := checkedSlabOrderFrom_ok off hpos hle
      (bdsAllocMaxOrder + 1) (Nat.zero_add _) (zeroDesc, 0)
    have hexact : Exact size off (c, left) := by
      refine hor.resolve_right ?_
      rintro ⟨-, hall⟩
      obtain ⟨r, hr⟩ := hall bdsAllocMaxOrder (Nat.zero_le _) le_rfl
      rw [hoff] at hr
      exact cacheEstimate_last hle flag r hr
    obtain ⟨hnum, hslab, hacct, hsmall⟩ := hexact
    have hleft : left < 2 ^ 32 := by dsimp only at hacct hsmall; omega
    have hmgmt : sizeofBufctl * c.num + sizeofSlabDesc < 2 ^ 64 := by
      have hle' : c.num ≤ c.num * size := Nat.le_mul_of_pos_right _ hpos
      dsimp only at hacct hsmall
      unfold sizeofBufctl sizeofSlabDesc
      omega
    obtain ⟨on, hon⟩ : ∃ on, on =
      (off && decide (sizeofBufctl * c.num + sizeofSlabDesc ≤ left)) := ⟨_, rfl⟩
    obtain ⟨left', hleft'⟩ : ∃ left', left' =
      if on then left - (sizeofBufctl * c.num + sizeofSlabDesc) else left := ⟨_, rfl⟩
    have hfits : on = true → sizeofBufctl * c.num + sizeofSlabDesc ≤ left := by
      intro h
      rw [h, eq_comm, Bool.and_eq_true, decide_eq_true_eq] at hon
      exact hon.2
    have hsub : checkedLeftOver on left (sizeofBufctl * c.num + sizeofSlabDesc) = .ok left' := by
      cases on with
      | false => simp [checkedLeftOver, hleft']
      | true => simp [checkedLeftOver, hleft', checkedSub_ok (hfits rfl)]
    obtain ⟨d, hd⟩ : ∃ d : CacheDesc, d = { c with
        mgmtSize := sizeofBufctl * c.num + sizeofSlabDesc
        offSlab := off && !on
        bufferSize := size
        colour := toSint (left' / toUint (toSint cacheLine) : ℕ)
        colourOffset := if toSint (left' / toUint (toSint cacheLine) : ℕ) = 0 then 0
          else toSint cacheLine } := ⟨_, rfl⟩
    have hsetup : setupCacheDesc cacheLine zeroDesc flag size = some d := by
      simp only [setupCacheDesc, calculateSlabOrder, ← hoff, hcalc, Option.bind_eq_bind,
        Option.bind_some, if_neg hnum, ← hon, ← hleft', if_neg hline, hd]
    have hchecked : checkedSetup cacheLine zeroDesc flag size = .ok (d, left') := by
      simp only [checkedSetup, ← hoff, hchk, ok_bind, stored_ok hleft, require_bind_of hnum,
        stored_ok hmgmt, ← hon, hsub, checkedDiv_ok hline, hd]
    have hsized := (setupCacheDesc_sized (Or.inl hle) hsetup).1
    refine ⟨d, left', hsetup, hchecked, hsized.pos, hsized.le.trans (by norm_num), ?_, ?_⟩
    · rw [hd]
      exact hslab
    · rw [hd]
      dsimp only at hacct ⊢
      rw [hacct, hleft']
      cases off with
      | false =>
        obtain rfl : on = false := hon
        simp only [mgmtOn, Bool.false_and, Bool.false_eq_true, if_false, Nat.mul_comm sizeofBufctl]
        omega
      | true =>
        cases on with
        | false => simp [mgmtOn]
        | true =>
          have := hfits rfl
          simp only [mgmtOn, Bool.not_true, Bool.and_false, Bool.false_eq_true, if_false, if_true]
          omega

/-- With a cache line of 64 bytes; the largest size takes a slab of 32 MB with one object. -/
theorem setupCacheDesc_exact_iff_largest :
    ∃ d leftOver, setupCacheDesc 64 zeroDesc false (2 ^ 25) = some d ∧
      checkedSetup 64 zeroDesc false (2 ^ 25) = .ok (d, leftOver) ∧
      1 ≤ d.num ∧ d.num ≤ 65535 ∧ d.slabSize = 4096 <<< d.pageOrder ∧
      d.slabSize = d.num * 2 ^ 25 + (if d.offSlab then 0 else d.mgmtSize) + leftOver :=
  (setupCacheDesc_exact_iff (by norm_num) le_rfl false 64).mpr (by decide)

/-- A cache line whose size cannot be read is zero, and the number of colours divides by it. -/
theorem setupCacheDesc_no_cache_line :
    checkedSetup 0 zeroDesc false 64 = .error .divByZero ∧
      setupCacheDesc 0 zeroDesc false 64 = none := by
  decide +kernel

end SeamlessStack.Slab
