import SeamlessStack.Slab.Collector
import SeamlessStack.Slab.Placement

/-! The search of `bds_cache_free` with management off the slabs: by address, on the list of partial
slabs and then on that of the full ones. -/
namespace SeamlessStack.Slab
open Lib

def SlabDesc.Spans (d : CacheDesc) (slab : SlabDesc) (obj : ℤ) : Prop :=
  slab.sMem ≤ obj ∧ obj ≤ slab.sMem + ((d.num - 1) * d.bufferSize : ℕ)

instance (d : CacheDesc) (slab : SlabDesc) (obj : ℤ) : Decidable (slab.Spans d obj) :=
  inferInstanceAs (Decidable (_ ∧ _))

def findObjectInSlabList (d : CacheDesc) (c : Cache) (list : List ℕ) (obj : ℤ) : Option ℕ :=
  list.find? fun k => decide (∃ slab ∈ c.slabs[k]?, slab.Spans d obj)

/-- The slab that `bds_cache_free` finds. -/
def searchOffSlab (d : CacheDesc) (c : Cache) (obj : ℤ) : Option ℕ :=
  match findObjectInSlabList d c c.slabsPartial obj with
  | some k => some k
  | none => findObjectInSlabList d c c.slabsFull obj

def SlabDesc.Covers (d : CacheDesc) (slab : SlabDesc) (obj : ℤ) : Prop :=
  slab.pages d ≤ obj ∧ obj < slab.pages d + (pageSize <<< d.pageOrder : ℕ)

instance (d : CacheDesc) (slab : SlabDesc) (obj : ℤ) : Decidable (slab.Covers d obj) :=
  inferInstanceAs (Decidable (_ ∧ _))

instance (d : CacheDesc) (slab : SlabDesc) (i : ℕ) : Decidable (slab.Inside d i) :=
  inferInstanceAs (Decidable (_ ∧ _))

def SlabDesc.Apart (d : CacheDesc) (s t : SlabDesc) : Prop :=
  s.pages d + (pageSize <<< d.pageOrder : ℕ) ≤ t.pages d ∨
    t.pages d + (pageSize <<< d.pageOrder : ℕ) ≤ s.pages d

instance (d : CacheDesc) (s t : SlabDesc) : Decidable (s.Apart d t) :=
  inferInstanceAs (Decidable (_ ∨ _))

/-- The slabs on the lists are on pages of their own, and their objects are on these pages. -/
structure Arranged (d : CacheDesc) (c : Cache) : Prop where
  inside : ∀ k ∈ c.linked, ∀ slab ∈ c.slabs[k]?, ∀ i < d.num, slab.Inside d i
  apart : ∀ j ∈ c.linked, ∀ k ∈ c.linked, j ≠ k →
    ∀ s ∈ c.slabs[j]?, ∀ t ∈ c.slabs[k]?, s.Apart d t

instance (d : CacheDesc) (c : Cache) : Decidable (Arranged d c) :=
  decidable_of_iff (_ ∧ _) ⟨fun h => ⟨h.1, h.2⟩, fun h => ⟨h.1, h.2⟩⟩

/-- The address is on no pages of the cache. -/
def Outside (d : CacheDesc) (c : Cache) (obj : ℤ) : Prop :=
  ∀ k ∈ c.linked, ∀ slab ∈ c.slabs[k]?, ¬ slab.Covers d obj

instance (d : CacheDesc) (c : Cache) (obj : ℤ) : Decidable (Outside d c obj) :=
  inferInstanceAs (Decidable (∀ _, _))

inductive OffSlabCall
  | alloc (pages : ℤ)
  | free (obj : ℤ)
  | collect (threshold linger : ℕ)
  deriving DecidableEq, Repr

/-- One call, or the collector. A free that returns 0 takes back the object at that address. -/
def offSlabCall (d : CacheDesc) (h : Heap) : OffSlabCall → Option Heap
  | .alloc pages => do
    let (c, o, _) ← bdsCacheAlloc d pages 2 h.cache
    some ⟨c, o :: h.live⟩
  | .free obj => do
    let (c, ret) ← bdsCacheFree d h.cache (searchOffSlab d h.cache obj) obj
    some ⟨c, if ret = 0 then h.live.eraseP fun o => h.cache.ptr d o = some obj else h.live⟩
  | .collect threshold linger => do
    let c ← (collectCache threshold linger h.cache).toOption
    some ⟨c, h.live⟩

def offSlabSystem (d : CacheDesc) : System Heap OffSlabCall where
  init h := ∃ colourNext, h = ⟨⟨colourNext, 0, 0, 0, [], [], [], []⟩, []⟩
  step := offSlabCall d

def Heap.LiveAt (d : CacheDesc) (h : Heap) (obj : ℤ) : Prop :=
  ∃ o ∈ h.live, h.cache.ptr d o = some obj

instance (d : CacheDesc) (h : Heap) (obj : ℤ) : Decidable (h.LiveAt d obj) :=
  inferInstanceAs (Decidable (∃ _ ∈ h.live, _))

/-- The slabs are arranged, and what is freed is handed out or not on the pages of the cache. -/
def Orderly (d : CacheDesc) (h : Heap) : OffSlabCall → Prop
  | .alloc _ => True
  | .free obj => Arranged d h.cache ∧ (h.LiveAt d obj ∨ Outside d h.cache obj)
  | .collect _ _ => True

instance (d : CacheDesc) (h : Heap) (e : OffSlabCall) : Decidable (Orderly d h e) :=
  match e with
  | .alloc _ => inferInstanceAs (Decidable True)
  | .free _ => inferInstanceAs (Decidable (_ ∧ _))
  | .collect _ _ => inferInstanceAs (Decidable True)

/-- What holds of a cache in use: the free chains, and where the slabs are linked. -/
structure Kept (d : CacheDesc) (c : Cache) (live : List Obj) : Prop where
  inv : Inv d ⟨c, live⟩
  filed : ∃ gone, Filed gone d c

section Search
variable {d : CacheDesc} {c c' : Cache} {live : List Obj} {o : Obj} {pages obj : ℤ} {k : ℕ}
  {slab : SlabDesc} {list : List ℕ}

theorem kept_init (colourNext : ℤ) : Kept d ⟨colourNext, 0, 0, 0, [], [], [], []⟩ [] := by
  refine ⟨⟨List.nodup_nil, by simp, by simp, ⟨List.nodup_nil, List.nodup_nil, by simp, by simp⟩⟩,
    fun _ => False, by simp, by simp, ?_⟩
  intro k _
  exact ⟨id, rfl⟩

theorem Kept.alloc (hd : Sized d.num d.bufferSize) (h : Kept d c live)
    (ha : bdsCacheAlloc d pages 2 c = some (c', o, obj)) : Kept d c' (o :: live) := by
  obtain ⟨hi, gone, hf⟩ := h
  exact ⟨(hi.alloc hd ha).1, gone, (bdsCacheAlloc_filed hd hi hf ha).1⟩

theorem Kept.free (hd : Sized d.num d.bufferSize) (h : Kept d c live) (ho : o ∈ live)
    (hp : c.ptr d o = some obj) (hf : freeOne d c o.slab obj = some c') :
    Kept d c' (live.erase o) := by
  obtain ⟨hi, gone, hfiled⟩ := h
  exact ⟨hi.free hd ho hp hf, gone, (freeOne_filed hd hi hfiled ho hp hf).1⟩

theorem Kept.collect (hd : Sized d.num d.bufferSize) {threshold linger : ℕ} (h : Kept d c live)
    (hc : collectCache threshold linger c = .ok c') : Kept d c' live := by
  obtain ⟨hi, gone, hf⟩ := h
  obtain ⟨taken, rest, hl, rfl⟩ := collectCache_cases hc
  exact ⟨(Inv.keeps.collect ⟨d, ⟨c, live⟩, 0⟩ taken rest ⟨hd, hi⟩ hl).2, _,
    hf.without hi.lists.nodupFree hl⟩

theorem findObjectInSlabList_some (h : findObjectInSlabList d c list obj = some k) :
    k ∈ list ∧ ∃ slab, c.slabs[k]? = some slab ∧ slab.Spans d obj := by
  refine ⟨List.mem_of_find?_eq_some h, ?_⟩
  have := List.find?_some h
  simpa using this

theorem findObjectInSlabList_none (h : findObjectInSlabList d c list obj = none) (hk : k ∈ list)
    (hslab : c.slabs[k]? = some slab) : ¬ slab.Spans d obj := by
  have := List.find?_eq_none.mp h k hk
  intro hs
  exact this (decide_eq_true ⟨slab, hslab, hs⟩)

theorem searchOffSlab_some (h : searchOffSlab d c obj = some k) :
    k ∈ c.linked ∧ ∃ slab, c.slabs[k]? = some slab ∧ slab.Spans d obj := by
  unfold searchOffSlab at h
  split at h
  · rename_i j hj
    obtain rfl := Option.some.inj h
    obtain ⟨hmem, hslab⟩ := findObjectInSlabList_some hj
    exact ⟨by simp [Cache.linked, hmem], hslab⟩
  · obtain ⟨hmem, hslab⟩ := findObjectInSlabList_some h
    exact ⟨by simp [Cache.linked, hmem], hslab⟩

theorem searchOffSlab_none (h : searchOffSlab d c obj = none)
    (hk : k ∈ c.slabsPartial ∨ k ∈ c.slabsFull) (hslab : c.slabs[k]? = some slab) :
    ¬ slab.Spans d obj := by
  unfold searchOffSlab at h
  split at h
  · cases h
  · rename_i hnone
    obtain hk | hk := hk
    · exact findObjectInSlabList_none hnone hk hslab
    · exact findObjectInSlabList_none h hk hslab

theorem SlabDesc.Spans.covers (h : slab.Spans d obj) (hn : 0 < d.num) (hb : d.bufferSize ≠ 0)
    (hin : ∀ i < d.num, slab.Inside d i) : slab.Covers d obj := by
  obtain ⟨hlo, hhi⟩ := h
  have hfirst := (hin 0 hn).1
  have hlast := (hin (d.num - 1) (by omega)).2
  rw [Nat.cast_zero, zero_mul, add_zero] at hfirst
  rw [Nat.cast_mul] at hhi
  constructor
  · have : (0 : ℤ) ≤ d.header := by positivity
    linarith
  · have : (0 : ℤ) < d.bufferSize := by exact_mod_cast Nat.pos_of_ne_zero hb
    linarith

theorem spans_ptr {i : ℕ} (hi : i < d.num) : slab.Spans d (slab.sMem + i * d.bufferSize) := by
  have hle : ((i * d.bufferSize : ℕ) : ℤ) ≤ ((d.num - 1) * d.bufferSize : ℕ) := by
    exact_mod_cast Nat.mul_le_mul_right d.bufferSize (by omega : i ≤ d.num - 1)
  push_cast at hle
  constructor
  · have : (0 : ℤ) ≤ i * d.bufferSize := by positivity
    linarith
  · push_cast
    linarith

theorem Kept.mem_searched (hd : Sized d.num d.bufferSize) (h : Kept d c live) (ho : o ∈ live)
    (hslab : c.slabs[o.slab]? = some slab) : o.slab ∈ c.slabsPartial ∨ o.slab ∈ c.slabsFull := by
  obtain ⟨hi, gone, hf⟩ := h
  have hon := (hf.onLists_of_pos hslab (hi.refcount_pos hd ho hslab)).2
  by_cases hfull : slab.refcount = d.num
  · rw [if_pos hfull] at hon
    refine Or.inr (List.count_pos_iff.mp ?_)
    rw [show c.slabsFull.count o.slab = 1 from congrArg Prod.fst hon]
    exact Nat.one_pos
  · rw [if_neg hfull] at hon
    refine Or.inl (Cache.mem_partial_iff.mpr ?_)
    rw [hon]
    exact Nat.one_pos

theorem Kept.mem_linked (hd : Sized d.num d.bufferSize) (h : Kept d c live) (ho : o ∈ live)
    (hslab : c.slabs[o.slab]? = some slab) : o.slab ∈ c.linked := by
  obtain hm | hm := h.mem_searched hd ho hslab <;> simp [Cache.linked, hm]

/-- The search finds the slab of an object that is handed out. -/
theorem searchOffSlab_live (hd : Sized d.num d.bufferSize) (hb : d.bufferSize ≠ 0)
    (h : Kept d c live) (harr : Arranged d c) (ho : o ∈ live) (hp : c.ptr d o = some obj) :
    searchOffSlab d c obj = some o.slab := by
  obtain ⟨slab, hslab, rfl⟩ := Option.map_eq_some_iff.mp hp
  have hspans : slab.Spans d (slab.sMem + o.index * d.bufferSize) :=
    spans_ptr (h.inv.bound o ho).2
  have hlinked := h.mem_linked hd ho hslab
  cases hs : searchOffSlab d c (slab.sMem + o.index * d.bufferSize) with
  | none => exact absurd hspans (searchOffSlab_none hs (h.mem_searched hd ho hslab) hslab)
  | some k =>
    obtain ⟨hk, slab', hslab', hspans'⟩ := searchOffSlab_some hs
    by_contra hne
    have hks : k ≠ o.slab := fun e => hne (congrArg some e)
    have hcov := hspans.covers hd.pos hb (harr.inside _ hlinked slab hslab)
    have hcov' := hspans'.covers hd.pos hb (harr.inside k hk slab' hslab')
    have hapart := harr.apart k hk _ hlinked hks slab' hslab' slab hslab
    unfold SlabDesc.Covers at hcov hcov'
    unfold SlabDesc.Apart at hapart
    omega

theorem searchOffSlab_outside (hd : Sized d.num d.bufferSize) (hb : d.bufferSize ≠ 0)
    (harr : Arranged d c) (hout : Outside d c obj) : searchOffSlab d c obj = none := by
  cases hs : searchOffSlab d c obj with
  | none => rfl
  | some k =>
    obtain ⟨hk, slab, hslab, hspans⟩ := searchOffSlab_some hs
    exact absurd (hspans.covers hd.pos hb (harr.inside k hk slab hslab)) (hout k hk slab hslab)

theorem Kept.step {h h' : Heap} {e : OffSlabCall} (hd : Sized d.num d.bufferSize)
    (hb : d.bufferSize ≠ 0) (hk : Kept d h.cache h.live) (hg : Orderly d h e)
    (hs : offSlabCall d h e = some h') : Kept d h'.cache h'.live := by
  cases e with
  | alloc pages =>
    obtain ⟨⟨c, o, p⟩, ha, hs⟩ := Option.bind_eq_some_iff.mp hs
    obtain rfl := Option.some.inj hs
    exact hk.alloc hd ha
  | free obj =>
    obtain ⟨⟨c, ret⟩, hf, hs⟩ := Option.bind_eq_some_iff.mp hs
    obtain rfl := Option.some.inj hs
    obtain ⟨harr, ⟨o, ho, hp⟩ | hout⟩ := hg
    · -- the object that is taken off the list is the first one at the address
      obtain ⟨o, l₁, l₂, -, hp, hl, herase⟩ := List.exists_of_eraseP
        (p := fun o => decide (h.cache.ptr d o = some obj)) ho (decide_eq_true hp)
      have hp := of_decide_eq_true hp
      have ho : o ∈ h.live := by simp [hl]
      have hnot : o ∉ l₁ := by
        have hnd := hk.inv.nodup
        rw [hl] at hnd
        intro hin
        exact (List.nodup_append.mp hnd).2.2 o hin o List.mem_cons_self rfl
      have hlive : h.live.erase o = l₁ ++ l₂ := by
        rw [hl, List.erase_append_right _ hnot, List.erase_cons_head]
      rw [searchOffSlab_live hd hb hk harr ho hp] at hf
      obtain ⟨c', hone, he⟩ := Option.map_eq_some_iff.mp hf
      obtain ⟨rfl, rfl⟩ := Prod.mk.inj he
      dsimp only
      rw [if_pos rfl, herase, ← hlive]
      exact hk.free hd ho hp hone
    · rw [searchOffSlab_outside hd hb harr hout] at hf
      obtain ⟨rfl, rfl⟩ := Prod.mk.inj (Option.some.inj hf)
      exact hk
  | collect threshold linger =>
    obtain ⟨c, hc, hs⟩ := Option.bind_eq_some_iff.mp hs
    obtain rfl := Option.some.inj hs
    exact hk.collect hd (toOption_eq_some.mp hc)

theorem reach_kept (hd : Sized d.num d.bufferSize) (hb : d.bufferSize ≠ 0) {h : Heap}
    (hr : (offSlabSystem d).Reach (Orderly d) h) : Kept d h.cache h.live := by
  refine hr.invariant (I := fun h => Kept d h.cache h.live) ?_
    fun _ _ _ _ hk hg hs => hk.step hd hb hg hs
  rintro _ ⟨colourNext, rfl⟩
  exact kept_init colourNext

end Search

theorem Created.bufferSize_ne_zero {cacheLine : ℕ} {d : CacheDesc} (h : Created cacheLine d)
    (hoff : d.offSlab = true) : d.bufferSize ≠ 0 := by
  cases h with
  | init => cases hoff
  | @create old _ flag size hold h =>
    intro hz
    have hsize : size = 0 := (setupCacheDesc_sized hold h).2.symm.trans hz
    subst hsize
    cases flag with
    | true => cases h
    | false =>
      simp only [setupCacheDesc, Option.bind_eq_bind, Option.bind_eq_some_iff] at h
      obtain ⟨_, -, h⟩ := h
      split_ifs at h
      all_goals
        obtain rfl := Option.some.inj h
        simp [pageSize] at hoff

/-- With management off the slabs, an object that is handed out goes back in front of the free chain
of its own slab, and nothing else changes; an address on no pages of the cache is refused. -/
theorem bdsCacheFree_offSlab {cacheLine : ℕ} {d : CacheDesc} {h : Heap}
    (hd : Created cacheLine d) (hoff : d.offSlab = true)
    (hr : (offSlabSystem d).Reach (Orderly d) h) (harr : Arranged d h.cache) (obj : ℤ) :
    (∀ o ∈ h.live, h.cache.ptr d o = some obj → ∃ c' slab slab' l,
      bdsCacheFree d h.cache (searchOffSlab d h.cache obj) obj = some (c', 0) ∧
      h.cache.slabs[o.slab]? = some slab ∧ c'.slabs = h.cache.slabs.set o.slab slab' ∧
      FreeChain d.num (fun i => ⟨o.slab, i⟩ ∈ h.live) slab l ∧
      FreeChain d.num (fun i => ⟨o.slab, i⟩ ∈ h.live.erase o) slab' (o.index :: l)) ∧
    (Outside d h.cache obj →
      bdsCacheFree d h.cache (searchOffSlab d h.cache obj) obj = some (h.cache, -1)) := by
  have hsized := hd.sized
  have hb := hd.bufferSize_ne_zero hoff
  have hkept := reach_kept hsized hb hr
  constructor
  · intro o ho hp
    rw [searchOffSlab_live hsized hb hkept harr ho hp]
    obtain ⟨c', hfree, -⟩ := freeOne_spec hsized hkept.inv ho hb hp
    obtain ⟨slab, hslab, hset⟩ := freeOne_slabs hfree
    have hindex := (hkept.inv.bound o ho).2
    have hok := hkept.inv.slabs _ slab hslab
    obtain ⟨l, hchain, -⟩ := hok.chain
    have hobj : obj = slab.sMem + o.index * d.bufferSize := by
      obtain ⟨slab₂, hslab₂, rfl⟩ := Option.map_eq_some_iff.mp hp
      obtain rfl := Option.some.inj (hslab.symm.trans hslab₂)
      rfl
    rw [hobj, offset_of_ptr hb hindex hsized.fits] at hset
    refine ⟨c', slab, _, l, ?_, hslab, hset, hchain, ?_⟩
    · rw [bdsCacheFree, hfree]
      exact rfl
    · refine (hchain.give hok.len (hsized.le.trans_lt (by norm_num)) hindex ho _).congr fun i => ?_
      rw [hkept.inv.nodup.mem_erase_iff]
      obtain ⟨k, j⟩ := o
      simp
  · intro hout
    rw [searchOffSlab_outside hsized hb harr hout]
    exact rfl

/-- Objects of 1024 bytes, four on a page: a full slab, and a slab with one object. -/
def fullAndPartial : Heap where
  cache :=
    { colourNext := 0
      refcount := 5
      freeSlabCount := 1
      totalSlabCount := 2
      slabs := [⟨0, 8192, 4, 4, [1, 2, 3, 4]⟩, ⟨0, 16384, 1, 1, [1, 2, 3, 4]⟩]
      slabsPartial := [1]
      slabsFull := [0]
      slabsFree := [] }
  live := [⟨1, 0⟩, ⟨0, 3⟩, ⟨0, 2⟩, ⟨0, 1⟩, ⟨0, 0⟩]

/-- The second object of the full slab is freed. -/
theorem bdsCacheFree_offSlab_full : ∃ c' slab slab' l,
    bdsCacheFree ⟨4, 0, 4096, 112, 1024, true, 0, 0⟩ fullAndPartial.cache
      (searchOffSlab ⟨4, 0, 4096, 112, 1024, true, 0, 0⟩ fullAndPartial.cache 9216) 9216 =
        some (c', 0) ∧
    fullAndPartial.cache.slabs[0]? = some slab ∧ c'.slabs = fullAndPartial.cache.slabs.set 0 slab' ∧
    FreeChain 4 (fun i => ⟨0, i⟩ ∈ fullAndPartial.live) slab l ∧
    FreeChain 4 (fun i => ⟨0, i⟩ ∈ fullAndPartial.live.erase ⟨0, 1⟩) slab' (1 :: l) := by
  have hsetup : setupCacheDesc 64 ⟨0, 0, 0, 0, 0, false, 0, 0⟩ false 1024 =
      some ⟨4, 0, 4096, 112, 1024, true, 0, 0⟩ := by decide +kernel
  have hd : Created 64 ⟨4, 0, 4096, 112, 1024, true, 0, 0⟩ := .create (Or.inl (by norm_num)) hsetup
  have hrun : (offSlabSystem ⟨4, 0, 4096, 112, 1024, true, 0, 0⟩).run
      (Orderly ⟨4, 0, 4096, 112, 1024, true, 0, 0⟩) ⟨⟨0, 0, 0, 0, [], [], [], []⟩, []⟩
      [.alloc 8192, .free 8192, .free 4096, .collect 25 8, .alloc 0, .alloc 0, .alloc 0, .alloc 0,
        .alloc 16384] = some fullAndPartial := by decide +kernel
  exact (bdsCacheFree_offSlab hd rfl (.run (.init ⟨0, rfl⟩) hrun) (by decide +kernel) 9216).1 ⟨0, 1⟩
    (by decide) (by decide)

end SeamlessStack.Slab
