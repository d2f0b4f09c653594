import SeamlessStack.Lib.Count
import SeamlessStack.Slab.Upkeep

/-! Where the objects of a slab lie. The first object is moved up by the `colour_next` of its cache,
which must not be more than the objects leave over. A descriptor that is used again keeps the old
`colour_next`. -/
namespace SeamlessStack.Slab
open Lib

def CacheDesc.header (d : CacheDesc) : ℕ := if d.offSlab then 0 else d.mgmtSize

def CacheDesc.slack (d : CacheDesc) : ℤ :=
  (pageSize <<< d.pageOrder : ℕ) - (d.num * d.bufferSize + d.header : ℕ)

def CacheDesc.Fits (d : CacheDesc) (colour : ℤ) : Prop := 0 ≤ colour ∧ colour ≤ d.slack

instance (d : CacheDesc) (colour : ℤ) : Decidable (d.Fits colour) :=
  inferInstanceAs (Decidable (_ ∧ _))

def SlabDesc.pages (d : CacheDesc) (slab : SlabDesc) : ℤ :=
  slab.sMem - slab.colourOffset - d.header

/-- Object `i` lies on the pages of its slab, behind the descriptor and `bufctl` if these are
there. -/
def SlabDesc.Inside (d : CacheDesc) (slab : SlabDesc) (i : ℕ) : Prop :=
  slab.pages d + d.header ≤ slab.sMem + i * d.bufferSize ∧
    slab.sMem + i * d.bufferSize + d.bufferSize ≤ slab.pages d + (pageSize <<< d.pageOrder : ℕ)

section Slabs
variable {d : CacheDesc} {c c' c₁ : Cache} {slab : SlabDesc} {k i : ℕ} {pages p : ℤ} {o : Obj}

theorem setupSlabDesc_pages : ∃ slab, (setupSlabDesc d pages c).slabs = c.slabs ++ [slab] ∧
    slab.pages d = pages ∧ slab.colourOffset = c.colourNext := by
  refine ⟨_, rfl, ?_, rfl⟩
  cases hoff : d.offSlab with
  | true => simp [SlabDesc.pages, CacheDesc.header, hoff]
  | false => simp [SlabDesc.pages, CacheDesc.header, hoff]; ring

/-- All objects of a slab lie where they should just when the colour fits. -/
theorem inside_iff_fits (hd : 0 < d.num) :
    (∀ i < d.num, slab.Inside d i) ↔ d.Fits slab.colourOffset := by
  unfold SlabDesc.Inside SlabDesc.pages CacheDesc.Fits CacheDesc.slack
  push_cast
  constructor
  · intro h
    have hfirst := (h 0 hd).1
    have hlast := (h (d.num - 1) (by omega)).2
    have hnum : ((d.num - 1 : ℕ) : ℤ) = d.num - 1 := by omega
    rw [hnum, sub_one_mul] at hlast
    push_cast at hfirst hlast
    constructor
    · linarith
    · linarith
  · rintro ⟨h₀, h₁⟩ i hi
    have hle : ((i + 1 : ℕ) : ℤ) * d.bufferSize ≤ d.num * d.bufferSize := by
      exact_mod_cast Nat.mul_le_mul_right d.bufferSize hi
    have hpos : (0 : ℤ) ≤ i * d.bufferSize := by positivity
    rw [Nat.cast_succ, add_one_mul] at hle
    constructor
    · linarith
    · linarith

def Cache.colours (c : Cache) : List ℤ := c.slabs.map SlabDesc.colourOffset

/-- An allocation leaves the colours alone, or grows one slab with the next colour. -/
theorem bdsCacheAlloc_colours {live : List Obj} (hd : Sized d.num d.bufferSize)
    (hi : Inv d ⟨c, live⟩) (ha : bdsCacheAlloc d pages 2 c = some (c', o, p)) :
    (c'.colours = c.colours ∧ c'.colourNext = c.colourNext) ∨
    (c.slabsPartial = [] ∧ c.slabsFree = [] ∧ c'.colours = c.colours ++ [c.colourNext] ∧
      c'.colourNext = (bdsCacheGrow d pages c).colourNext) := by
  obtain ⟨c₁, k, slab, hpick, -, hk, -, -, ha⟩ := bdsCacheAlloc_picked hd hi ha
  have hkeep : c'.colours = c₁.colours ∧ c'.colourNext = c₁.colourNext := by
    obtain ⟨next, -, -, -, hc'⟩ := allocFrom_eq_some ha
    simp only at hc'
    split_ifs at hc'
    · subst hc'
      exact ⟨map_set_eq hk rfl, rfl⟩
    · subst hc'
      exact ⟨map_set_eq hk rfl, rfl⟩
  rw [hkeep.1, hkeep.2]
  cases hpick with
  | head _ | free _ _ => exact Or.inl ⟨rfl, rfl⟩
  | grow hp hf =>
    refine Or.inr ⟨hp, hf, ?_, rfl⟩
    simp [Cache.colours, bdsCacheGrow, setupSlabDesc]

theorem freeOne_colours {live : List Obj} (hd : Sized d.num d.bufferSize) (hi : Inv d ⟨c, live⟩)
    (ho : o ∈ live) (hp : c.ptr d o = some p) (hf : freeOne d c o.slab p = some c') :
    c'.colours = c.colours ∧ c'.colourNext = c.colourNext := by
  obtain ⟨slab, slab', hk, -, -, -, hcolour, hc'⟩ := freeOne_eq_some hd hi ho hp hf
  have hmap : (c.slabs.set o.slab slab').map SlabDesc.colourOffset = c.colours :=
    map_set_eq hk hcolour
  simp only at hc'
  split_ifs at hc' <;> (subst hc'; exact ⟨hmap, rfl⟩)

end Slabs

/-- Every slab of the cache was grown with a colour that fits. -/
structure Placed (D : Descriptor) : Prop where
  sized : Sized D.desc.num D.desc.bufferSize
  inv : Inv D.desc D.heap
  fits : ∀ colour ∈ D.heap.cache.colours, D.desc.Fits colour

def NextFits (D : Descriptor) : Prop :=
  D.heap.cache.slabsPartial = [] → D.heap.cache.slabsFree = [] →
    D.desc.Fits D.heap.cache.colourNext

theorem Placed.keeps : Keeps NextFits Placed := by
  refine ⟨?_, ?_, ?_⟩
  · rintro D pages c o p ⟨hd, hi, hfits⟩ hnext ha
    refine ⟨hd, (hi.alloc hd ha).1, ?_⟩
    rcases bdsCacheAlloc_colours hd hi ha with ⟨hc, -⟩ | ⟨hp, hf, hc, -⟩
    · simpa only [hc] using hfits
    · intro colour hm
      simp only [hc, List.mem_append, List.mem_singleton] at hm
      rcases hm with hm | rfl
      · exact hfits colour hm
      · exact hnext hp hf
  · rintro D o p c ⟨hd, hi, hfits⟩ ho hp hc
    refine ⟨hd, hi.free hd ho hp hc, ?_⟩
    simpa only [(freeOne_colours hd hi ho hp hc).1] using hfits
  · rintro D taken rest ⟨hd, hi, hfits⟩ hl
    obtain ⟨-, hi'⟩ := Inv.keeps.collect D taken rest ⟨hd, hi⟩ hl
    exact ⟨hd, hi', hfits⟩

/-- `cache_cache` has no colours, so its slabs start with their descriptor. -/
theorem placed_keeps_cc (cacheLine : ℕ) : Keeps (fun _ => True) fun D =>
    D.desc = cacheCache cacheLine ∧ D.heap.cache.colourNext = 0 ∧ Placed D := by
  have hzero : (cacheCache cacheLine).Fits 0 := by
    change (0 : ℤ) ≤ 0 ∧ (0 : ℤ) ≤ ((pageSize <<< 0 : ℕ) : ℤ) - ((12 * 328 + 128 : ℕ) : ℤ)
    decide
  refine ⟨?_, ?_, ?_⟩
  · rintro D pages c o p ⟨hdesc, hnext, hplaced⟩ - ha
    have hfits : NextFits D := by
      intro _ _
      rw [hdesc, hnext]
      exact hzero
    refine ⟨hdesc, ?_, Placed.keeps.alloc D pages c o p hplaced hfits ha⟩
    rcases bdsCacheAlloc_colours hplaced.sized hplaced.inv ha with ⟨-, hc⟩ | ⟨-, -, -, hc⟩
    · exact hc.trans hnext
    · rw [hc, hdesc]
      exact hnext
  · rintro D o p c ⟨hdesc, hnext, hplaced⟩ ho hp hc
    refine ⟨hdesc, ?_, Placed.keeps.free D o p c hplaced ho hp hc⟩
    exact (freeOne_colours hplaced.sized hplaced.inv ho hp hc).2.trans hnext
  · rintro D taken rest ⟨hdesc, hnext, hplaced⟩ hl
    exact ⟨hdesc, hnext, Placed.keeps.collect D taken rest hplaced hl⟩

/-- Objects have 1 byte to 32 MB, a slab is grown only with a colour that fits, and the search of a
free finds the slab of the object if it finds one. -/
def ColoursFit (a : Allocator) : Event → Prop
  | .create _ size _ => 1 ≤ size ∧ size ≤ 2 ^ 25
  | .alloc slot _ => NextFits (a.store slot)
  | .free _ o found => found = none ∨ found = some o.slab
  | .destroy _ _ => True
  | .pass _ => True

instance (a : Allocator) (e : Event) : Decidable (ColoursFit a e) :=
  match e with
  | .create _ _ _ => inferInstanceAs (Decidable (_ ∧ _))
  | .alloc slot _ => inferInstanceAs (Decidable (_ → _ → (a.store slot).desc.Fits _))
  | .free _ _ _ => inferInstanceAs (Decidable (_ ∨ _))
  | .destroy _ _ => inferInstanceAs (Decidable True)
  | .pass _ => inferInstanceAs (Decidable True)

section Runs
variable {cacheLine : ℕ} {a : Allocator}

theorem reach_placed (hr : (allocatorSystem cacheLine).Reach ColoursFit a) :
    Placed (a.ccDesc cacheLine) ∧ ∀ slot ∈ a.caches, Placed (a.store slot) := by
  have hempty : ∀ (d : CacheDesc) colourNext linger, Sized d.num d.bufferSize →
      Placed ⟨d, ⟨⟨colourNext, 0, 0, 0, [], [], [], []⟩, []⟩, linger⟩ := by
    intro d colourNext linger hd
    exact ⟨hd, ⟨by simp, by simp, by simp, by simp, by simp, by simp, by simp⟩,
      by simp [Cache.colours]⟩
  have hsetup : ∀ (old : Descriptor) flag size desc, 1 ≤ size ∧ size ≤ 2 ^ 25 →
      setupCacheDesc cacheLine old.desc flag size = some desc → Placed (old.setup desc) :=
    fun old flag size desc hsize h =>
      hempty _ _ _ (setupCacheDesc_sized (Or.inl hsize.2) h).1
  have hG : ∀ a e, ColoursFit a e → Allowed cacheLine (fun _ => True) NextFits
      (fun size => 1 ≤ size ∧ size ≤ 2 ^ 25) a e := by
    intro a e hg
    cases e with
    | create flag size pages => exact ⟨hg, trivial⟩
    | alloc slot pages | free slot o found => exact hg
    | destroy slot force | pass params => trivial
  obtain ⟨⟨-, -, hcc⟩, hall⟩ := reach_keeps (placed_keeps_cc cacheLine) Placed.keeps
    ⟨rfl, rfl, hempty _ _ _ (cacheCache_sized cacheLine)⟩ hsetup hG hr
  exact ⟨hcc, hall⟩

theorem Placed.inside {D : Descriptor} (h : Placed D) {o : Obj} (ho : o ∈ D.heap.live) :
    ∃ slab, D.heap.cache.slabs[o.slab]? = some slab ∧ slab.Inside D.desc o.index := by
  obtain ⟨hlt, hi⟩ := h.inv.bound o ho
  have hslab := List.getElem?_eq_getElem hlt
  refine ⟨_, hslab, (inside_iff_fits h.sized.pos).mpr ?_ o.index hi⟩
  exact h.fits _ (List.mem_map_of_mem (List.mem_of_getElem? hslab))

/-- In every run that grows slabs with colours that fit, all objects handed out lie on the pages of
their slab and clear of what else is there. -/
theorem bdsCacheAlloc_inside (hr : (allocatorSystem cacheLine).Reach ColoursFit a) :
    (∀ slot ∈ a.caches, ∀ o ∈ (a.store slot).heap.live, ∃ slab,
      (a.store slot).heap.cache.slabs[o.slab]? = some slab ∧
        slab.Inside (a.store slot).desc o.index) ∧
    ∀ o ∈ a.cacheCache.live, ∃ slab, a.cacheCache.cache.slabs[o.slab]? = some slab ∧
      slab.Inside (cacheCache cacheLine) o.index := by
  obtain ⟨hcc, hall⟩ := reach_placed hr
  exact ⟨fun slot hs o ho => (hall slot hs).inside ho, fun o ho => hcc.inside ho⟩

/-- A cache of 420-byte objects with three colours, and an object of it. -/
theorem bdsCacheAlloc_inside_coloured :
    ∃ a, (allocatorSystem 64).run ColoursFit (bdsCacheInit ⟨id, id⟩)
        [.create false 420 8192, .alloc ⟨0, 0⟩ 16384] = some a ∧
      a.caches = [⟨0, 0⟩] ∧ (a.store ⟨0, 0⟩).heap.live = [⟨0, 0⟩] ∧
      (a.store ⟨0, 0⟩).heap.cache.colourNext = 64 ∧
      (∀ slot ∈ a.caches, ∀ o ∈ (a.store slot).heap.live, ∃ slab,
        (a.store slot).heap.cache.slabs[o.slab]? = some slab ∧
          slab.Inside (a.store slot).desc o.index) ∧
      ∀ o ∈ a.cacheCache.live, ∃ slab, a.cacheCache.cache.slabs[o.slab]? = some slab ∧
        slab.Inside (cacheCache 64) o.index := by
  have hrun : ∃ a, (allocatorSystem 64).run ColoursFit (bdsCacheInit ⟨id, id⟩)
      [.create false 420 8192, .alloc ⟨0, 0⟩ 16384] = some a ∧
      a.caches = [⟨0, 0⟩] ∧ (a.store ⟨0, 0⟩).heap.live = [⟨0, 0⟩] ∧
      (a.store ⟨0, 0⟩).heap.cache.colourNext = 64 := ⟨_, rfl, rfl, rfl, rfl⟩
  obtain ⟨a, hrun, hcaches, hlive, hcolour⟩ := hrun
  exact ⟨a, hrun, hcaches, hlive, hcolour, bdsCacheAlloc_inside (.run (.init ⟨_, rfl⟩) hrun)⟩

/-- The descriptor is used again for objects of a page, which leave nothing over: the first starts
64 bytes into its page and ends 64 bytes behind it. -/
theorem bdsCacheAlloc_outside :
    ∃ a slab, (allocatorSystem 64).run System.AnyStep (bdsCacheInit ⟨id, id⟩)
        [.create false 420 8192, .alloc ⟨0, 0⟩ 16384, .free ⟨0, 0⟩ ⟨0, 0⟩ (some 0),
          .destroy ⟨0, 0⟩ false, .create false 4096 32768, .alloc ⟨0, 0⟩ 65536] = some a ∧
      ⟨0, 0⟩ ∈ a.caches ∧ ⟨0, 0⟩ ∈ (a.store ⟨0, 0⟩).heap.live ∧
      (a.store ⟨0, 0⟩).heap.cache.slabs[0]? = some slab ∧
      slab.pages (a.store ⟨0, 0⟩).desc = 65536 ∧ slab.sMem = 65600 ∧
      ¬ slab.Inside (a.store ⟨0, 0⟩).desc 0 := by
  refine ⟨_, _, rfl, List.mem_cons_self, List.mem_cons_self, rfl, rfl, rfl, ?_⟩
  rintro ⟨-, hend⟩
  exact absurd hend (by decide)

end Runs

end SeamlessStack.Slab
