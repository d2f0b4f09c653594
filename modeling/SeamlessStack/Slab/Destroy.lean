import SeamlessStack.Slab.Placement

/-! What `bds_cache_destroy` gives back. The pages of a slab are found from the address of its first
object, and no descriptor is touched once its memory is gone. -/
namespace SeamlessStack.Slab
open Lib

/-- A `munmap` of pages, or a `free` of the descriptor of a slab. -/
inductive Release
  | munmap (base : ℤ) (length : ℕ)
  | freeDesc (k : ℕ)
  deriving DecidableEq, Repr

def Release.unmapped? : Release → Option (ℤ × ℕ)
  | .munmap base length => some (base, length)
  | .freeDesc _ => none

def Release.freed? : Release → Option ℕ
  | .munmap _ _ => none
  | .freeDesc k => some k

/-- A list node that is no slab, or that of a slab whose descriptor was given back. -/
inductive DestroyFault
  | noSlab
  | released
  deriving DecidableEq, Repr

/-- With the slabs whose descriptors were given back before. `bds_list_del` touches the nodes of the
slab and the next; `munmap` takes an on-slab descriptor with the pages. -/
def destroySlabList (d : CacheDesc) (slabs : List SlabDesc) :
    List ℕ → List ℕ → Except DestroyFault (List Release × List ℕ)
  | gone, [] => .ok ([], gone)
  | gone, k :: rest => do
    require (k ∉ gone) .released
    require (∀ next ∈ rest.head?, next ∉ gone) .released
    match slabs[k]? with
    | none => .error .noSlab
    | some slab =>
      let fmem := if d.offSlab then slab.sMem - slab.colourOffset
        else slab.sMem - slab.colourOffset - d.mgmtSize
      let mgmt := if d.offSlab then [.freeDesc k] else []
      let (out, gone) ← destroySlabList d slabs (k :: gone) rest
      .ok (.munmap fmem (pageSize <<< d.pageOrder) :: mgmt ++ out, gone)

/-- What `bds_cache_destroy` does with the slabs of the cache. -/
def destroySlabLists (d : CacheDesc) (c : Cache) (force : Bool) :
    Except DestroyFault (List Release) :=
  if 0 < atomicRead c.refcount ∧ force = false then .ok []
  else do
    let (free, gone) ← destroySlabList d c.slabs [] c.slabsFree
    let (partials, gone) ← destroySlabList d c.slabs gone c.slabsPartial
    let (full, _) ← destroySlabList d c.slabs gone c.slabsFull
    .ok (free ++ partials ++ full)

/-- A cache with the calls of `mmap` that `bds_cache_grow` made for it. -/
structure Mapped where
  cache : Cache
  mmaps : List (ℤ × ℕ)
  deriving DecidableEq, Repr

/-- Calls on a cache. A free may name any address, and whichever slab its search comes to. -/
inductive SlabCall
  | alloc (pages : ℤ)
  | free (found : Option ℕ) (obj : ℤ)
  deriving DecidableEq, Repr

def growMmaps (d : CacheDesc) (pages : ℤ) (c : Cache) : List (ℤ × ℕ) :=
  if c.slabsPartial = [] ∧ c.slabsFree = [] then [(pages, pageSize <<< d.pageOrder)] else []

def Mapped.call (d : CacheDesc) (s : Mapped) : SlabCall → Option Mapped
  | .alloc pages => do
    let (c, _, _) ← bdsCacheAlloc d pages 2 s.cache
    some ⟨c, s.mmaps ++ growMmaps d pages s.cache⟩
  | .free found obj => do
    let (c, _) ← bdsCacheFree d s.cache found obj
    some ⟨c, s.mmaps⟩

def mappedSystem (d : CacheDesc) : System Mapped SlabCall where
  init s := ∃ colourNext, s = ⟨⟨colourNext, 0, 0, 0, [], [], [], []⟩, []⟩
  step := Mapped.call d

def SlabDesc.mapping (d : CacheDesc) (slab : SlabDesc) : ℤ × ℕ :=
  (slab.pages d, pageSize <<< d.pageOrder)

/-- Every slab is linked once, and lies on the pages that were mapped for it. -/
structure Accounted (d : CacheDesc) (c : Cache) (mmaps : List (ℤ × ℕ)) : Prop where
  linked : c.linked.Perm (List.range c.slabs.length)
  mmaps : mmaps = c.slabs.map (SlabDesc.mapping d)

section Moves
variable {c c' : Cache} {k : ℕ}

theorem Cache.linked_perm (hne : ∀ j ≠ k, c'.onLists j = c.onLists j)
    (hself : c'.linked.count k = c.linked.count k) : c'.linked.Perm c.linked := by
  refine List.perm_iff_count.mpr fun j => ?_
  by_cases hj : j = k
  · rw [hj]
    exact hself
  · rw [count_linked, count_linked, hne j hj]

theorem Cache.moveToPartial_linked (h : c.linked.count k = 1) :
    (c.moveToPartial k).linked.Perm c.linked := by
  refine linked_perm (fun j => moveToPartial_onLists c) ?_
  rw [count_linked, moveToPartial_onLists_self]
  rw [count_linked] at h ⊢
  dsimp only
  omega

theorem Cache.moveToFull_linked (h : c.linked.count k = 1) :
    (c.moveToFull k).linked.Perm c.linked := by
  refine linked_perm (fun j => moveToFull_onLists c) ?_
  rw [count_linked, moveToFull_onLists_self]
  rw [count_linked] at h ⊢
  dsimp only
  omega

theorem Cache.moveToFree_linked (h : c.linked.count k = 1) :
    (c.moveToFree k).linked.Perm c.linked := by
  refine linked_perm (fun j => moveToFree_onLists c) ?_
  rw [count_linked, moveToFree_onLists_self]
  rw [count_linked] at h ⊢
  dsimp only
  omega

end Moves

namespace Accounted
variable {d : CacheDesc} {c c' : Cache} {mmaps : List (ℤ × ℕ)} {k fuel : ℕ}
  {slab slab' : SlabDesc} {pages p : ℤ} {o : Obj}

theorem count_eq_one (h : Accounted d c mmaps) (hk : k < c.slabs.length) :
    c.linked.count k = 1 := by
  rw [h.linked.count_eq]
  exact List.count_eq_one_of_mem List.nodup_range (List.mem_range.mpr hk)

theorem of_perm (h : Accounted d c mmaps) (hp : c'.linked.Perm c.linked)
    (hs : c'.slabs = c.slabs) : Accounted d c' mmaps := by
  refine ⟨?_, ?_⟩
  · rw [hs]
    exact hp.trans h.linked
  · rw [hs]
    exact h.mmaps

theorem moveToPartial (h : Accounted d c mmaps) (hk : k < c.slabs.length) :
    Accounted d (c.moveToPartial k) mmaps :=
  h.of_perm (Cache.moveToPartial_linked (h.count_eq_one hk)) rfl

theorem moveToFull (h : Accounted d c mmaps) (hk : k < c.slabs.length) :
    Accounted d (c.moveToFull k) mmaps :=
  h.of_perm (Cache.moveToFull_linked (h.count_eq_one hk)) rfl

theorem moveToFree (h : Accounted d c mmaps) (hk : k < c.slabs.length) :
    Accounted d (c.moveToFree k) mmaps :=
  h.of_perm (Cache.moveToFree_linked (h.count_eq_one hk)) rfl

theorem setSlab (h : Accounted d c mmaps) (hk : c.slabs[k]? = some slab)
    (hmap : slab'.mapping d = slab.mapping d) : Accounted d (c.setSlab k slab') mmaps := by
  refine ⟨?_, ?_⟩
  · show c.linked.Perm (List.range (c.slabs.set k slab').length)
    rw [List.length_set]
    exact h.linked
  · show mmaps = (c.slabs.set k slab').map _
    rw [map_set_eq hk hmap]
    exact h.mmaps

theorem allocFrom (h : Accounted d c mmaps) (hk : c.slabs[k]? = some slab)
    (ha : Slab.allocFrom d c k slab = some (c', o, p)) : Accounted d c' mmaps := by
  have hlt : k < c.slabs.length := (List.getElem?_eq_some_iff.mp hk).1
  obtain ⟨next, -, -, -, rfl⟩ := allocFrom_eq_some ha
  have hset : Accounted d (c.setSlab k { slab with free := next, refcount := slab.refcount + 1 })
      mmaps := h.setSlab hk rfl
  dsimp only
  split_ifs
  · refine (hset.moveToFull (k := k) ?_).of_perm (.refl _) rfl
    simpa [Cache.setSlab] using hlt
  · exact hset.of_perm (.refl _) rfl

theorem freeOne (h : Accounted d c mmaps) (hf : Slab.freeOne d c k p = some c') :
    Accounted d c' mmaps := by
  simp only [Slab.freeOne, Option.bind_eq_bind, Option.bind_eq_some_iff] at hf
  obtain ⟨slab, hk, hf⟩ := hf
  generalize hslab' : ({ slab with
    free := ((p - slab.sMem) % 2 ^ 64).toNat / d.bufferSize
    refcount := slab.refcount - 1
    bufctl := slab.bufctl.set (((p - slab.sMem) % 2 ^ 64).toNat / d.bufferSize)
      (slab.free % 2 ^ 16) } : SlabDesc) = slab' at hf
  have hmap : slab'.mapping d = slab.mapping d := by
    rw [← hslab']
    rfl
  have hset : Accounted d { c.setSlab k slab' with refcount := atomicDec c.refcount } mmaps :=
    (h.setSlab hk hmap).of_perm (.refl _) rfl
  have hlt : k < (c.setSlab k slab').slabs.length := by
    simpa [Cache.setSlab] using (List.getElem?_eq_some_iff.mp hk).1
  split_ifs at hf
  all_goals
    rw [Option.some.injEq] at hf
    subst hf
  · exact ((hset.moveToPartial hlt).moveToFree hlt).of_perm (.refl _) rfl
  · exact (hset.moveToFree hlt).of_perm (.refl _) rfl
  · exact hset.moveToPartial hlt
  · exact hset

/-- The slab that is grown is linked, and lies on the new pages. -/
theorem grow (h : Accounted d c mmaps) (pages : ℤ) : Accounted d (bdsCacheGrow d pages c)
    (mmaps ++ [(pages, pageSize <<< d.pageOrder)]) := by
  obtain ⟨slab, hslabs, hpages, -⟩ :
      ∃ slab : SlabDesc, (setupSlabDesc d pages c).slabs = c.slabs ++ [slab] ∧
        slab.pages d = pages ∧ slab.colourOffset = c.colourNext := setupSlabDesc_pages
  refine ⟨?_, ?_⟩
  · show (c.slabsFree ++ c.slabs.length :: c.slabsPartial ++ c.slabsFull).Perm
      (List.range (setupSlabDesc d pages c).slabs.length)
    rw [hslabs, List.length_append, List.length_singleton, List.range_succ, List.append_assoc,
      List.cons_append]
    refine List.perm_middle.trans ((List.Perm.cons _ ?_).trans
      (List.perm_append_singleton _ _).symm)
    rw [← List.append_assoc]
    exact h.linked
  · show mmaps ++ _ = (setupSlabDesc d pages c).slabs.map _
    rw [hslabs, List.map_append, ← h.mmaps]
    simp [SlabDesc.mapping, hpages]

theorem alloc (h : Accounted d c mmaps) (ha : bdsCacheAlloc d pages fuel c = some (c', o, p)) :
    Accounted d c' (mmaps ++ growMmaps d pages c) := by
  -- a second round starts with a slab on the partial list, so that it does not grow the cache
  induction fuel generalizing c mmaps with
  | zero => cases ha
  | succ fuel ih =>
    unfold bdsCacheAlloc at ha
    split at ha
    · rename_i k ks hpart
      have hnone : growMmaps d pages c = [] := by simp [growMmaps, hpart]
      obtain ⟨slab, hk, ha⟩ := Option.bind_eq_some_iff.mp ha
      split_ifs at ha
      · rw [hnone, List.append_nil]
        exact h.allocFrom hk ha
      · exact ih h ha
    · rename_i k ks hpart hfree
      have hnone : growMmaps d pages c = [] := by simp [growMmaps, hfree]
      have hnone' : growMmaps d pages (c.moveToPartial k) = [] := by
        simp [growMmaps, Cache.moveToPartial]
      obtain ⟨slab, hk, ha⟩ := Option.bind_eq_some_iff.mp ha
      have hmoved : Accounted d (c.moveToPartial k) mmaps :=
        h.moveToPartial (List.getElem?_eq_some_iff.mp hk).1
      rw [hnone]
      split_ifs at ha
      · rw [List.append_nil]
        exact hmoved.allocFrom hk ha
      · rw [← hnone']
        exact ih hmoved ha
    · rename_i hpart hfree
      have hnone : growMmaps d pages (bdsCacheGrow d pages c) = [] := by
        simp [growMmaps, bdsCacheGrow, setupSlabDesc]
      have hone : growMmaps d pages c = [(pages, pageSize <<< d.pageOrder)] := by
        simp [growMmaps, hpart, hfree]
      have hgrown := ih (h.grow pages) ha
      rwa [hnone, List.append_nil, ← hone] at hgrown

theorem reach {s : Mapped} (hr : (mappedSystem d).Reach System.AnyStep s) :
    Accounted d s.cache s.mmaps := by
  refine hr.invariant (I := fun s => Accounted d s.cache s.mmaps) ?_ ?_
  · rintro s ⟨colourNext, rfl⟩
    exact ⟨.refl _, rfl⟩
  · rintro s e t - hs - hst
    cases e with
    | alloc pages =>
      obtain ⟨⟨c, o, p⟩, ha, ht⟩ := Option.bind_eq_some_iff.mp hst
      obtain rfl := Option.some.inj ht
      exact hs.alloc ha
    | free found obj =>
      obtain ⟨⟨c, r⟩, hf, ht⟩ := Option.bind_eq_some_iff.mp hst
      obtain rfl := Option.some.inj ht
      cases found with
      | none =>
        obtain ⟨rfl, -⟩ := Prod.mk.inj (Option.some.inj hf)
        exact hs
      | some k =>
        obtain ⟨c', hone, he⟩ := Option.map_eq_some_iff.mp hf
        obtain ⟨rfl, -⟩ := Prod.mk.inj he
        exact hs.freeOne hone

end Accounted

section Destroy
variable {d : CacheDesc} {slabs : List SlabDesc}

def mappings (d : CacheDesc) (slabs : List SlabDesc) (ks : List ℕ) : List (ℤ × ℕ) :=
  ks.filterMap fun k => slabs[k]?.map (SlabDesc.mapping d)

/-- Every slab of the list is unmapped, if the slabs differ from one another and from those
destroyed. -/
theorem destroySlabList_spec (d : CacheDesc) (gone ks : List ℕ) (hslab : ∀ k ∈ ks, k < slabs.length)
    (hks : (gone ++ ks).Nodup) :
    ∃ out gone', destroySlabList d slabs gone ks = .ok (out, gone') ∧
      out.filterMap Release.unmapped? = mappings d slabs ks ∧
      out.filterMap Release.freed? = (if d.offSlab then ks else []) ∧
      gone'.Perm (gone ++ ks) := by
  induction ks generalizing gone with
  | nil => exact ⟨[], gone, rfl, rfl, by simp, by simp⟩
  | cons k ks ih =>
    have hmid : (gone ++ k :: ks).Perm (k :: gone ++ ks) := List.perm_middle
    have hnd : (k :: gone ++ ks).Nodup := hmid.nodup_iff.mp hks
    have hk : k ∉ gone := by
      intro hin
      exact (List.nodup_cons.mp hnd).1 (List.mem_append_left _ hin)
    have hnext : ∀ next ∈ ks.head?, next ∉ gone := by
      intro next hn hin
      exact (List.nodup_append.mp hks).2.2 next hin next
        (List.mem_cons_of_mem _ (List.mem_of_mem_head? hn)) rfl
    obtain ⟨out, gone', hrun, hun, hfr, hgone⟩ :=
      ih (k :: gone) (fun j hj => hslab j (List.mem_cons_of_mem _ hj)) hnd
    obtain ⟨slab, hslabs⟩ : ∃ slab, slabs[k]? = some slab :=
      ⟨_, List.getElem?_eq_getElem (hslab k List.mem_cons_self)⟩
    simp only [destroySlabList, require_bind_of hk, require_bind_of hnext, hslabs, hrun, ok_bind]
    refine ⟨_, gone', rfl, ?_, ?_, hgone.trans hmid.symm⟩
    · have hcons : mappings d slabs (k :: ks) = slab.mapping d :: mappings d slabs ks := by
        simp [mappings, hslabs]
      rw [hcons, ← hun]
      cases hoff : d.offSlab with
      | true =>
        simp [List.filterMap, Release.unmapped?, SlabDesc.mapping, SlabDesc.pages,
          CacheDesc.header, hoff]
      | false =>
        simp [Release.unmapped?, SlabDesc.mapping, SlabDesc.pages, CacheDesc.header, hoff]
    · cases hoff : d.offSlab with
      | true | false => simpa [hoff, List.filterMap, Release.freed?] using hfr

theorem mappings_range : mappings d slabs (List.range slabs.length) =
    slabs.map (SlabDesc.mapping d) := by
  induction slabs using List.reverseRecOn with
  | nil => rfl
  | append_singleton slabs slab ih =>
    have hfirst : mappings d (slabs ++ [slab]) (List.range slabs.length) =
        mappings d slabs (List.range slabs.length) := by
      refine List.filterMap_congr fun k hk => ?_
      rw [List.getElem?_append_left (List.mem_range.mp hk)]
    rw [List.length_append, List.length_singleton, List.range_succ, List.map_append, ← ih, ← hfirst]
    simp [mappings]

/-- A destroy that is not refused unmaps each mapping once, and frees every descriptor once if these
were allocated. No descriptor is touched after that. -/
theorem destroySlabLists_returns_mmaps {s : Mapped} {force : Bool}
    (hr : (mappedSystem d).Reach System.AnyStep s)
    (hforce : ¬ (0 < atomicRead s.cache.refcount ∧ force = false)) :
    ∃ out, destroySlabLists d s.cache force = .ok out ∧
      (out.filterMap Release.unmapped?).Perm s.mmaps ∧
      (out.filterMap Release.freed?).Perm
        (if d.offSlab then List.range s.cache.slabs.length else []) := by
  have hacc := Accounted.reach hr
  set c := s.cache
  have hnd : c.linked.Nodup := hacc.linked.nodup_iff.mpr List.nodup_range
  have hlt : ∀ k ∈ c.linked, k < c.slabs.length := by
    intro k hk
    exact List.mem_range.mp (hacc.linked.mem_iff.mp hk)
  have hnd₂ : (c.slabsFree ++ c.slabsPartial).Nodup := (List.nodup_append.mp hnd).1
  -- the three lists, each with what the ones before it left
  obtain ⟨out₁, gone₁, hrun₁, hun₁, hfr₁, hgone₁⟩ := destroySlabList_spec d [] c.slabsFree
    (fun k hk => hlt k (by simp [Cache.linked, hk])) (List.nodup_append.mp hnd₂).1
  rw [List.nil_append] at hgone₁
  obtain ⟨out₂, gone₂, hrun₂, hun₂, hfr₂, hgone₂⟩ := destroySlabList_spec d gone₁ c.slabsPartial
    (fun k hk => hlt k (by simp [Cache.linked, hk]))
    ((hgone₁.append_right _).nodup_iff.mpr hnd₂)
  have hgone : gone₂.Perm (c.slabsFree ++ c.slabsPartial) :=
    hgone₂.trans (hgone₁.append_right _)
  obtain ⟨out₃, gone₃, hrun₃, hun₃, hfr₃, -⟩ := destroySlabList_spec d gone₂ c.slabsFull
    (fun k hk => hlt k (by simp [Cache.linked, hk]))
    ((hgone.append_right _).nodup_iff.mpr hnd)
  refine ⟨out₁ ++ out₂ ++ out₃, ?_, ?_, ?_⟩
  · simp only [destroySlabLists, if_neg hforce, hrun₁, hrun₂, hrun₃, ok_bind]
  · have hall : (out₁ ++ out₂ ++ out₃).filterMap Release.unmapped? =
        mappings d c.slabs c.linked := by
      simp only [List.filterMap_append, hun₁, hun₂, hun₃, mappings, Cache.linked]
    rw [hall, hacc.mmaps, ← mappings_range]
    exact hacc.linked.filterMap _
  · simp only [List.filterMap_append, hfr₁, hfr₂, hfr₃]
    split_ifs
    · exact hacc.linked
    · exact .refl _

end Destroy

/-- Two slabs of four objects: the first was full and has one free, the second holds one. -/
def twoSlabs : Mapped where
  cache :=
    { colourNext := 0
      refcount := 4
      freeSlabCount := 0
      totalSlabCount := 2
      slabs := [⟨0, 8192, 1, 3, [1, 4, 3, 4]⟩, ⟨0, 16384, 1, 1, [1, 2, 3, 4]⟩]
      slabsPartial := [0, 1]
      slabsFull := []
      slabsFree := [] }
  mmaps := [(8192, 4096), (16384, 4096)]

theorem destroySlabLists_returns_mmaps_two :
    ∃ out, destroySlabLists ⟨4, 0, 4096, 112, 1024, true, 0, 0⟩ twoSlabs.cache true = .ok out ∧
      (out.filterMap Release.unmapped?).Perm [(8192, 4096), (16384, 4096)] ∧
      (out.filterMap Release.freed?).Perm (List.range 2) := by
  have hrun : (mappedSystem ⟨4, 0, 4096, 112, 1024, true, 0, 0⟩).run System.AnyStep
      ⟨⟨0, 0, 0, 0, [], [], [], []⟩, []⟩ [.alloc 8192, .alloc 0, .alloc 0, .alloc 0, .alloc 16384,
        .free (some 0) 9216] = some twoSlabs := by decide +kernel
  exact destroySlabLists_returns_mmaps (.run (.init ⟨0, rfl⟩) hrun) (by decide)

end SeamlessStack.Slab
