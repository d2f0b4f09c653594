import SeamlessStack.Slab.Chain

/-! The counts that the garbage collector trusts are right as long as no allocation takes a slab
from `slabs_free`, and its walk is safe as long as no cache was destroyed. -/
namespace SeamlessStack.Slab
open Lib

/-- The counts of a cache agree with its lists. -/
structure Counted (D : Descriptor) : Prop where
  sized : Sized D.desc.num D.desc.bufferSize
  inv : Inv D.desc D.heap
  filed : ∃ gone, Filed gone D.desc D.heap.cache
  total : D.heap.cache.totalSlabCount = D.heap.cache.numSlabs
  free : D.heap.cache.freeSlabCount = D.heap.cache.slabsFree.length
  bound : D.heap.cache.totalSlabCount < 2 ^ 31

/-- No slab is taken from `slabs_free`, and there are fewer slabs than an `int` counts. -/
def NoReuse (D : Descriptor) : Prop :=
  (D.heap.cache.slabsPartial ≠ [] ∨ D.heap.cache.slabsFree = []) ∧
    D.heap.cache.totalSlabCount + 1 < 2 ^ 31

instance (D : Descriptor) : Decidable (NoReuse D) := inferInstanceAs (Decidable (_ ∧ _))

section Cache
variable {gone : ℕ → Prop} {d : CacheDesc} {c : Cache} {taken rest : List ℕ}

/-- The slabs that the collector takes are on no list any more. -/
theorem Filed.without (h : Filed gone d c) (hnodup : c.slabsFree.Nodup)
    (hl : c.slabsFree = taken ++ rest) :
    Filed (fun k => gone k ∨ k ∈ taken) d (c.without taken rest) := by
  have hsub : ∀ k ∈ taken, k ∈ c.slabsFree := fun k hk => hl ▸ List.mem_append_left _ hk
  have hother : ∀ k ∉ taken, (c.without taken rest).onLists k = c.onLists k := by
    intro k hk
    simp [Cache.onLists, Cache.without, hl, List.count_eq_zero.mpr hk]
  have htaken : ∀ k ∈ taken, (c.without taken rest).onLists k = (0, 0, 0) := by
    intro k hk
    have hon := (h.of_mem_free (hsub k hk)).1
    rw [hl] at hnodup
    have hrest : k ∉ rest := fun hr => (List.nodup_append.mp hnodup).2.2 k hk k hr rfl
    simp only [Cache.onLists, Prod.mk.injEq] at hon
    simp [Cache.onLists, Cache.without, hon, List.count_eq_zero.mpr hrest]
  refine ⟨fun k slab hk hg => ?_, fun k slab hk hg => ?_, fun k hk => ?_⟩
  · rw [hother k fun hm => hg (Or.inr hm)]
    exact h.place k slab hk fun hgone => hg (Or.inl hgone)
  · by_cases hm : k ∈ taken
    · obtain ⟨-, -, slab', hslab', hzero⟩ := h.of_mem_free (hsub k hm)
      obtain rfl := Option.some.inj (hk.symm.trans hslab')
      exact ⟨hzero, htaken k hm⟩
    · rw [hother k hm]
      exact h.taken k slab hk (hg.resolve_right hm)
  · have hm : k ∉ taken := by
      intro hm
      obtain ⟨-, -, slab, hslab, -⟩ := h.of_mem_free (hsub k hm)
      have := (List.getElem?_eq_some_iff.mp hslab).1
      exact absurd hk (not_le.mpr this)
    rw [hother k hm]
    exact ⟨fun hg => (h.beyond k hk).1 (hg.resolve_right hm), (h.beyond k hk).2⟩

theorem Cache.without_numSlabs (hl : c.slabsFree = taken ++ rest) :
    ((c.without taken rest).numSlabs : ℤ) = c.numSlabs - taken.length := by
  simp only [numSlabs, without, hl, List.length_append]
  push_cast
  ring

end Cache

theorem Counted.keeps : Keeps NoReuse Counted := by
  refine ⟨?_, ?_, ?_⟩
  · rintro D pages c o p ⟨hd, hi, ⟨gone, hf⟩, htotal, hfree, hbound⟩ ⟨hreuse, hroom⟩ ha
    obtain ⟨hf', c₁, k, hpick, -, -, hnum, hlist, ht, hfr⟩ := bdsCacheAlloc_filed hd hi hf ha
    have hcounts : c₁.totalSlabCount = c₁.numSlabs ∧ c₁.freeSlabCount = c₁.slabsFree.length ∧
        c₁.totalSlabCount < 2 ^ 31 := by
      cases hpick with
      | head _ => exact ⟨htotal, hfree, hbound⟩
      | free hp hks =>
        rcases hreuse with hne | he
        · exact absurd hp hne
        · exact absurd (he.symm.trans hks) (by simp)
      | grow _ _ =>
        refine ⟨?_, hfree, hroom⟩
        simp only [bdsCacheGrow, setupSlabDesc, Cache.numSlabs, List.length_cons, htotal]
        push_cast
        ring
    exact ⟨hd, (hi.alloc hd ha).1, ⟨gone, hf'⟩, by simp only [ht, hnum, hcounts.1],
      by simp only [hfr, hlist, hcounts.2.1], by simp only [ht, hcounts.2.2]⟩
  · rintro D o p c ⟨hd, hi, ⟨gone, hf⟩, htotal, hfree, hbound⟩ ho hp hc
    obtain ⟨hf', -, -, hnum, ht, hfr⟩ := freeOne_filed hd hi hf ho hp hc
    exact ⟨hd, hi.free hd ho hp hc, ⟨gone, hf'⟩, by simp only [ht, hnum, htotal],
      by linarith, by simpa only [ht] using hbound⟩
  · rintro D taken rest ⟨hd, hi, ⟨gone, hf⟩, htotal, hfree, hbound⟩ hl
    obtain ⟨-, hi'⟩ := Inv.keeps.collect D taken rest ⟨hd, hi⟩ hl
    refine ⟨hd, hi', ⟨_, hf.without hi.lists.nodupFree hl⟩, ?_, ?_, ?_⟩
    · rw [Cache.without_numSlabs hl, ← htotal]
      rfl
    · change D.heap.cache.freeSlabCount - taken.length = rest.length
      rw [hfree, hl, List.length_append]
      push_cast
      ring
    · change D.heap.cache.totalSlabCount - taken.length < 2 ^ 31
      have : (0 : ℤ) ≤ taken.length := by positivity
      linarith

/-- While at least two free slabs are kept back, the loop runs out of no slabs. -/
theorem destroyFreeSlabs_ok (threshold : ℕ) {linger : ℕ} (hlinger : 2 ≤ linger) {slabs : List ℕ}
    {total free : ℤ} (hfree : free = slabs.length) (hle : free ≤ total) (hpos : 0 < total)
    (hbound : total < 2 ^ 31) :
    ∃ r, destroyFreeSlabs threshold linger slabs total free = .ok r := by
  induction slabs generalizing total free with
  | nil =>
    have htotal := toUint_eq hpos.le (by omega)
    have hzero : free = 0 := by simpa using hfree
    have hfew : fewFree threshold linger total free := by
      right
      rw [hzero]
      change 0 < linger
      omega
    refine ⟨([], total, free), ?_⟩
    rw [destroyFreeSlabs, if_neg (by omega), if_pos hfew]
  | cons k ks ih =>
    have htotal := toUint_eq hpos.le (by omega)
    rw [List.length_cons] at hfree
    push_cast at hfree
    have hval := toUint_eq (show 0 ≤ free by omega) (by omega)
    rw [destroyFreeSlabs, if_neg (by omega)]
    split_ifs with hfew
    · exact ⟨_, rfl⟩
    · have hmany : linger ≤ toUint free := not_lt.mp fun h => hfew (Or.inr h)
      exact ih (by omega) (by omega) (by omega) (by omega)

theorem Counted.collectCache {D : Descriptor} (h : Counted D) (threshold : ℕ)
    (hlinger : 2 ≤ D.linger ∨ D.heap.cache.slabsFree = []) :
    ∃ c, collectCache threshold D.linger D.heap.cache = .ok c := by
  unfold Slab.collectCache
  split_ifs with htest
  · have hle : D.heap.cache.freeSlabCount ≤ D.heap.cache.totalSlabCount := by
      rw [h.total, h.free]
      unfold Cache.numSlabs
      omega
    have hfree : 0 < D.heap.cache.freeSlabCount := by
      have hnonneg : 0 ≤ D.heap.cache.freeSlabCount := by
        rw [h.free]
        positivity
      have hval := toUint_eq hnonneg (by have := h.bound; omega)
      omega
    rcases hlinger with hlinger | hempty
    · obtain ⟨⟨rest, t, f⟩, hr⟩ := destroyFreeSlabs_ok threshold hlinger h.free hle
        (hfree.trans_le hle) h.bound
      exact ⟨_, by rw [hr]; rfl⟩
    · have hzero := h.free
      rw [hempty] at hzero
      exact absurd hzero hfree.ne'
  · exact ⟨_, rfl⟩

theorem Counted.mapped {D : Descriptor} (h : Counted D) {o : Obj} (ho : o ∈ D.heap.live) :
    D.heap.cache.onLists o.slab ≠ (0, 0, 0) := by
  obtain ⟨gone, hf⟩ := h.filed
  have hslab := List.getElem?_eq_getElem (h.inv.bound o ho).1
  have hpos := h.inv.refcount_pos h.sized ho hslab
  rw [(hf.onLists_of_pos hslab hpos).2]
  split_ifs <;> simp

/-- What a pass relies on. `cache_cache`, which keeps no free slabs back, must not have any. -/
structure Collectable (cacheLine : ℕ) (a : Allocator) : Prop where
  cc : Counted (a.ccDesc cacheLine)
  idle : a.cacheCache.cache.slabsFree = []
  caches : ∀ slot ∈ a.caches, Counted (a.store slot) ∧ 2 ≤ (a.store slot).linger
  sub : ∀ slot ∈ a.caches, slot ∈ a.cacheCache.live

theorem Counted.keeps_linger : Keeps NoReuse fun D => Counted D ∧ 2 ≤ D.linger :=
  ⟨fun D pages c o p h hA ha => ⟨Counted.keeps.alloc D pages c o p h.1 hA ha, h.2⟩,
    fun D o p c h ho hp hc => ⟨Counted.keeps.free D o p c h.1 ho hp hc, h.2⟩,
    fun D taken rest h hl => ⟨Counted.keeps.collect D taken rest h.1 hl, h.2⟩⟩

section Pass
variable {cacheLine threshold : ℕ} {a a' : Allocator} {node : Node}

theorem collectNode_live (h : collectNode threshold a node = .ok a') (slot : Obj) :
    (a'.store slot).heap.live = (a.store slot).heap.live := by
  rcases collectNode_cases h with rfl | ⟨c, -, rfl⟩ | ⟨s, c, -, rfl⟩
  · rfl
  · rfl
  · by_cases he : slot = s
    · subst he
      rw [Allocator.setHeap_store_self]
    · rw [Allocator.setHeap_store_of_ne _ he]

theorem Collectable.collectNode (h : Collectable cacheLine a) (threshold : ℕ)
    (hn : node = .cacheCache ∨ ∃ slot ∈ a.caches, node = .desc slot) :
    ∃ a', collectNode threshold a node = .ok a' ∧ Collectable cacheLine a' ∧
      a'.chain = a.chain ∧ a'.caches = a.caches := by
  have hok : ∃ a', Slab.collectNode threshold a node = .ok a' := by
    rcases hn with rfl | ⟨slot, hs, rfl⟩
    · obtain ⟨c, hc⟩ := h.cc.collectCache threshold (Or.inr h.idle)
      exact ⟨_, bind_eq_ok.mpr ⟨c, hc, rfl⟩⟩
    · obtain ⟨hcount, hlinger⟩ := h.caches slot hs
      obtain ⟨c, hc⟩ := hcount.collectCache threshold (Or.inl hlinger)
      have hmap : a.cacheCache.cache.onLists slot.slab ≠ (0, 0, 0) :=
        h.cc.mapped (h.sub slot hs)
      simp only [Slab.collectNode, if_neg hmap]
      exact ⟨_, bind_eq_ok.mpr ⟨c, hc, rfl⟩⟩
  obtain ⟨a', ha'⟩ := hok
  have hcc := Counted.keeps.collectNode_cc h.cc ha'
  have hcaches := Counted.keeps_linger.collectNode_caches h.caches ha'
  refine ⟨a', ha', ?_⟩
  rcases collectNode_cases ha' with rfl | ⟨c, hc, rfl⟩ | ⟨slot, c, -, rfl⟩
  · exact ⟨h, rfl, rfl⟩
  · obtain ⟨taken, rest, hl, rfl⟩ := collectCache_cases hc
    have hrest : rest = [] := (List.append_eq_nil_iff.mp (hl.symm.trans h.idle)).2
    exact ⟨⟨hcc, hrest, hcaches, h.sub⟩, rfl, rfl⟩
  · exact ⟨⟨hcc, h.idle, hcaches, h.sub⟩, rfl, rfl⟩

/-- A walk along caches in use comes to its end. -/
theorem Collectable.collectFrom {l : List Node} {fuel : ℕ} (h : Collectable cacheLine a)
    (threshold : ℕ)
    (hp : Linked (fun node => some (a.chain.next node)) node l .cacheChain)
    (hl : ∀ node ∈ l, node = .cacheCache ∨ ∃ slot ∈ a.caches, node = .desc slot)
    (hfuel : l.length < fuel) :
    ∃ a', collectFrom threshold fuel node a = .ok a' ∧ Collectable cacheLine a' := by
  induction l generalizing node a fuel with
  | nil =>
    obtain ⟨n, rfl⟩ : ∃ n, fuel = n + 1 := ⟨fuel - 1, by omega⟩
    exact ⟨a, by rw [Slab.collectFrom, if_pos (show node = .cacheChain from hp)], h⟩
  | cons m l ih =>
    obtain ⟨n, rfl⟩ : ∃ n, fuel = n + 1 := ⟨fuel - 1, by omega⟩
    obtain ⟨rfl, r, hr, hp⟩ := hp
    obtain rfl := Option.some.inj hr
    obtain ⟨a₁, h₁, hc₁, hchain, hcaches⟩ :=
      h.collectNode threshold (hl node List.mem_cons_self)
    have hne : node ≠ .cacheChain := by
      rintro rfl
      rcases hl _ List.mem_cons_self with he | ⟨slot, -, he⟩
      · cases he
      · cases he
    have hl₁ : ∀ node ∈ l, node = .cacheCache ∨ ∃ slot ∈ a₁.caches, node = .desc slot := by
      rw [hcaches]
      exact fun node hn => hl node (List.mem_cons_of_mem _ hn)
    rw [← hchain] at hp
    obtain ⟨a', ha', hc'⟩ := ih hc₁ hp hl₁ (Nat.lt_of_succ_lt_succ hfuel)
    refine ⟨a', ?_, hc'⟩
    rw [Slab.collectFrom, if_neg hne]
    exact bind_eq_ok.mpr ⟨a₁, h₁, ha'⟩

end Pass

/-- No allocation takes a slab from `slabs_free` or grows more than an `int` counts, sizes are at
most 32 MB, the search of a free finds the slab of the object if it finds one, and the collector
runs only while no cache was destroyed. -/
def Careful (cacheLine : ℕ) (a : Allocator) : Event → Prop
  | .create _ size _ => size ≤ 2 ^ 25 ∧ NoReuse (a.ccDesc cacheLine)
  | .alloc slot _ => NoReuse (a.store slot)
  | .free _ o found => found = none ∨ found = some o.slab
  | .destroy _ _ => True
  | .pass _ => a.gone = []

instance (cacheLine : ℕ) (a : Allocator) (e : Event) : Decidable (Careful cacheLine a e) :=
  match e with
  | .create _ _ _ => inferInstanceAs (Decidable (_ ∧ NoReuse _))
  | .alloc slot _ => inferInstanceAs (Decidable (NoReuse (a.store slot)))
  | .free _ _ _ => inferInstanceAs (Decidable (_ ∨ _))
  | .destroy _ _ => inferInstanceAs (Decidable True)
  | .pass _ => inferInstanceAs (Decidable (a.gone = []))

/-- `total_slab_count` is the number of slabs and `free_slab_count` the length of
`slabs_free`. -/
def Descriptor.CountsRight (D : Descriptor) : Prop :=
  D.heap.cache.totalSlabCount = D.heap.cache.numSlabs ∧
    D.heap.cache.freeSlabCount = D.heap.cache.slabsFree.length

section Runs
variable {cacheLine : ℕ} {a a' : Allocator} {e : Event}

theorem reach_counted (hr : (allocatorSystem cacheLine).Reach (Careful cacheLine) a) :
    Counted (a.ccDesc cacheLine) ∧
      ∀ slot ∈ a.caches, Counted (a.store slot) ∧ 2 ≤ (a.store slot).linger := by
  have hempty : ∀ (d : CacheDesc) colourNext linger, Sized d.num d.bufferSize →
      Counted ⟨d, ⟨⟨colourNext, 0, 0, 0, [], [], [], []⟩, []⟩, linger⟩ := by
    intro d colourNext linger hd
    exact ⟨hd, ⟨by simp, by simp, by simp, by simp, by simp, by simp, by simp⟩,
      ⟨fun _ => False, by simp, by simp, by simp [Cache.onLists]⟩, rfl, rfl, by norm_num⟩
  have hsetup : ∀ (old : Descriptor) flag size desc, size ≤ 2 ^ 25 →
      setupCacheDesc cacheLine old.desc flag size = some desc →
      Counted (old.setup desc) ∧ 2 ≤ (old.setup desc).linger := by
    intro old flag size desc hsize h
    exact ⟨hempty _ _ _ (setupCacheDesc_sized (Or.inl hsize) h).1, by simp [Descriptor.setup]⟩
  have hG : ∀ a e, Careful cacheLine a e →
      Allowed cacheLine NoReuse NoReuse (fun size => size ≤ 2 ^ 25) a e := by
    intro a e hg
    cases e with
    | create flag size pages | alloc slot pages | free slot o found => exact hg
    | destroy slot force | pass params => trivial
  exact reach_keeps Counted.keeps Counted.keeps_linger
    (hempty _ _ _ (cacheCache_sized cacheLine)) hsetup hG hr

/-- Only `bds_cache_destroy` gives a descriptor back, so until then `cache_cache` has no free
slab. -/
theorem step_idle (hcc : Counted (a.ccDesc cacheLine))
    (hidle : a.gone = [] → a.cacheCache.cache.slabsFree = [])
    (h : a.step cacheLine e = some a') : a'.gone = [] → a'.cacheCache.cache.slabsFree = [] := by
  cases e with
  | create flag size pages =>
    obtain ⟨c, slot, p, ha, hcreate⟩ := bdsCacheCreate_cases h
    have hlist : a.cacheCache.cache.slabsFree = [] → c.slabsFree = [] := by
      intro he
      obtain ⟨gone, hf⟩ := hcc.filed
      obtain ⟨-, c₁, k, hpick, -, -, -, hlist, -⟩ := bdsCacheAlloc_filed hcc.sized hcc.inv hf ha
      rw [hlist]
      cases hpick with
      | head _ => exact he
      | free _ hks => exact absurd (he.symm.trans hks) (by simp)
      | grow _ _ => exact he
    rcases hcreate with rfl | ⟨desc, -, rfl⟩
    · exact fun hgone => hlist (hidle hgone)
    · exact fun hgone => hlist (hidle hgone)
  | alloc slot pages =>
    obtain ⟨-, c, o, p, -, rfl⟩ := step_alloc_cases h
    exact hidle
  | free slot o found =>
    obtain ⟨heap, rfl⟩ := step_free_setHeap h
    exact hidle
  | destroy slot force =>
    obtain ⟨-, h⟩ := step_destroy_cases h
    rcases bdsCacheDestroy_cases h with rfl | ⟨p, c, -, -, rfl⟩
    · exact hidle
    · exact fun hgone => absurd hgone (by simp)
  | pass params =>
    refine pass_preserves (I := fun a => a.gone = [] → a.cacheCache.cache.slabsFree = []) ?_
      hidle h
    intro a node a' hidle hn
    rcases collectNode_cases hn with rfl | ⟨c, hc, rfl⟩ | ⟨slot, c, -, rfl⟩
    · exact hidle
    · obtain ⟨taken, rest, hl, rfl⟩ := collectCache_cases hc
      intro hgone
      exact (List.append_eq_nil_iff.mp (hl.symm.trans (hidle hgone))).2
    · exact hidle

theorem reach_idle (hr : (allocatorSystem cacheLine).Reach (Careful cacheLine) a) :
    a.gone = [] → a.cacheCache.cache.slabsFree = [] := by
  refine hr.invariant (I := fun a => a.gone = [] → a.cacheCache.cache.slabsFree = []) ?_
    fun _ _ _ hr hidle _ h => step_idle (reach_counted hr).1 hidle h
  rintro _ ⟨links, rfl⟩ -
  rfl

/-- In every careful run the counts of all caches are right, and a pass ends without dividing by
zero or taking a head for a slab. It unmaps no slab with an object that is handed out. -/
theorem garbageCollect_safe (hr : (allocatorSystem cacheLine).Reach (Careful cacheLine) a) :
    (a.ccDesc cacheLine).CountsRight ∧ (∀ slot ∈ a.caches, (a.store slot).CountsRight) ∧
    (a.gone = [] → ∀ params, ∃ a', bdsGarbageCollect params a = .ok a' ∧
      (∀ o ∈ a.cacheCache.live, a'.cacheCache.cache.onLists o.slab ≠ (0, 0, 0)) ∧
      ∀ slot ∈ a.caches, ∀ o ∈ (a.store slot).heap.live,
        (a'.store slot).heap.cache.onLists o.slab ≠ (0, 0, 0)) := by
  obtain ⟨hcc, hcaches⟩ := reach_counted hr
  refine ⟨⟨hcc.total, hcc.free⟩, fun slot hs => ⟨(hcaches slot hs).1.total,
    (hcaches slot hs).1.free⟩, fun hgone params => ?_⟩
  have hcoll : Collectable cacheLine a :=
    ⟨hcc, reach_idle hr hgone, hcaches, (reach_sound hr).sub⟩
  have hring : a.chain.Ring .cacheChain (a.caches.map .desc ++ [.cacheCache]) := by
    cases reach_linkage hr with
    | whole _ hring => exact hring
    | dead hne _ _ _ | strays hne _ => exact absurd hgone hne
  have hnodes : ∀ node ∈ a.caches.map Node.desc ++ [.cacheCache],
      node = .cacheCache ∨ ∃ slot ∈ a.caches, node = .desc slot := by
    intro node hn
    rcases List.mem_append.mp hn with hm | hm
    · obtain ⟨slot, hs, rfl⟩ := List.mem_map.mp hm
      exact Or.inr ⟨slot, hs, rfl⟩
    · exact Or.inl (List.mem_singleton.mp hm)
  have hfuel : (a.caches.map Node.desc ++ [Node.cacheCache]).length <
      a.caches.length + a.gone.length + 2 := by
    simp only [List.length_append, List.length_map, List.length_singleton]
    omega
  obtain ⟨a', ha', hcoll'⟩ := hcoll.collectFrom (gcThreshold params) hring.path hnodes hfuel
  have hstep : a.step cacheLine (.pass params) = some a' := by
    simp only [Allocator.step, bdsGarbageCollect, ha']
    rfl
  have hframe := pass_frame hstep
  simp only [Prod.mk.injEq] at hframe
  obtain ⟨-, hsame, -, hlive⟩ := hframe
  have hlives : ∀ slot, (a'.store slot).heap.live = (a.store slot).heap.live := by
    refine pass_preserves (I := fun b => ∀ slot,
      (b.store slot).heap.live = (a.store slot).heap.live) ?_ (fun _ => rfl) hstep
    intro b node b' hb hn slot
    exact (collectNode_live hn slot).trans (hb slot)
  refine ⟨a', ha', fun o ho => hcoll'.cc.mapped (o := o) (by rw [← hlive] at ho; exact ho), ?_⟩
  intro slot hs o ho
  rw [← hsame] at hs
  rw [← hlives slot] at ho
  exact (hcoll'.caches slot hs).1.mapped ho

/-- Nine objects of a page each are freed; a pass leaves the seven below `linger`. -/
theorem garbageCollect_safe_nine :
    ∃ a, (allocatorSystem 64).run (Careful 64) (bdsCacheInit ⟨id, id⟩)
        (.create false 4096 8192 ::
          ((List.range 9).map (fun _ => .alloc ⟨0, 0⟩ 16384) ++
            (List.range 9).map fun k => .free ⟨0, 0⟩ ⟨k, 0⟩ (some k))) = some a ∧
      a.caches = [⟨0, 0⟩] ∧ a.gone = [] ∧ (a.store ⟨0, 0⟩).heap.cache.freeSlabCount = 9 ∧
      (∃ a', bdsGarbageCollect none a = .ok a' ∧
        (a'.store ⟨0, 0⟩).heap.cache.slabsFree = [6, 5, 4, 3, 2, 1, 0]) ∧
      (a.ccDesc 64).CountsRight ∧ (∀ slot ∈ a.caches, (a.store slot).CountsRight) ∧
      (a.gone = [] → ∀ params, ∃ a', bdsGarbageCollect params a = .ok a' ∧
        (∀ o ∈ a.cacheCache.live, a'.cacheCache.cache.onLists o.slab ≠ (0, 0, 0)) ∧
        ∀ slot ∈ a.caches, ∀ o ∈ (a.store slot).heap.live,
          (a'.store slot).heap.cache.onLists o.slab ≠ (0, 0, 0)) := by
  have hrun : ∃ a, (allocatorSystem 64).run (Careful 64) (bdsCacheInit ⟨id, id⟩)
      (.create false 4096 8192 ::
        ((List.range 9).map (fun _ => .alloc ⟨0, 0⟩ 16384) ++
          (List.range 9).map fun k => .free ⟨0, 0⟩ ⟨k, 0⟩ (some k))) = some a ∧
      a.caches = [⟨0, 0⟩] ∧ a.gone = [] ∧ (a.store ⟨0, 0⟩).heap.cache.freeSlabCount = 9 ∧
      ∃ a', bdsGarbageCollect none a = .ok a' ∧
        (a'.store ⟨0, 0⟩).heap.cache.slabsFree = [6, 5, 4, 3, 2, 1, 0] :=
    ⟨_, rfl, rfl, rfl, rfl, _, rfl, rfl⟩
  obtain ⟨a, hrun, hcaches, hgone, hfree, hpass⟩ := hrun
  exact ⟨a, hrun, hcaches, hgone, hfree, hpass,
    garbageCollect_safe (.run (.init ⟨_, rfl⟩) hrun)⟩

/-- A slab taken from `slabs_free` is still counted as free. And once the only cache was destroyed,
a pass takes the last slab of `cache_cache` and divides by zero. -/
theorem garbageCollect_unsafe :
    (∃ a, (allocatorSystem 64).run System.AnyStep (bdsCacheInit ⟨id, id⟩)
        [.create false 4096 8192, .alloc ⟨0, 0⟩ 16384, .free ⟨0, 0⟩ ⟨0, 0⟩ (some 0),
          .alloc ⟨0, 0⟩ 32768] = some a ∧ ⟨0, 0⟩ ∈ a.caches ∧
      (a.store ⟨0, 0⟩).heap.cache.freeSlabCount = 1 ∧
      (a.store ⟨0, 0⟩).heap.cache.slabsFree = [] ∧ ¬ (a.store ⟨0, 0⟩).CountsRight) ∧
    ∃ a, (allocatorSystem 64).run System.AnyStep (bdsCacheInit ⟨id, id⟩)
        [.create false 4096 8192, .destroy ⟨0, 0⟩ false] = some a ∧
      bdsGarbageCollect none a = .error .divByZero := by
  constructor
  · refine ⟨_, rfl, List.mem_cons_self, rfl, rfl, ?_⟩
    rintro ⟨-, hfree⟩
    exact absurd hfree (by decide)
  · exact ⟨_, rfl, rfl⟩

end Runs

end SeamlessStack.Slab
