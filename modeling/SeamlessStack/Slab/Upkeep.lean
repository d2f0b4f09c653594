import SeamlessStack.Slab.Allocator

/-! What a step of the allocator does to each cache: it is allocated from, freed to, collected from,
set up or left alone. A property that survives these holds throughout a run. -/
namespace SeamlessStack.Slab
open Lib

variable {cacheLine : ℕ} {a a' : Allocator} {e : Event} {A B P Q : Descriptor → Prop}

def Allocator.ccDesc (cacheLine : ℕ) (a : Allocator) : Descriptor :=
  ⟨Slab.cacheCache cacheLine, a.cacheCache, 0⟩

/-- `P` survives what is done to a cache in use, where it is only allocated from while `A`
holds. -/
structure Keeps (A P : Descriptor → Prop) : Prop where
  alloc : ∀ D pages c o p, P D → A D →
    bdsCacheAlloc D.desc pages 2 D.heap.cache = some (c, o, p) →
    P { D with heap := ⟨c, o :: D.heap.live⟩ }
  free : ∀ D o p c, P D → o ∈ D.heap.live → D.heap.cache.ptr D.desc o = some p →
    freeOne D.desc D.heap.cache o.slab p = some c →
    P { D with heap := ⟨c, D.heap.live.erase o⟩ }
  collect : ∀ D taken rest, P D → D.heap.cache.slabsFree = taken ++ rest →
    P { D with heap := ⟨D.heap.cache.without taken rest, D.heap.live⟩ }

/-- Allocations from `cache_cache` while `B` holds of it and from others while `A` does, sizes in
`S`, and a free finds the slab of the object if it finds one. -/
def Allowed (cacheLine : ℕ) (B A : Descriptor → Prop) (S : ℕ → Prop) (a : Allocator) :
    Event → Prop
  | .create _ size _ => S size ∧ B (a.ccDesc cacheLine)
  | .alloc slot _ => A (a.store slot)
  | .free _ o found => found = none ∨ found = some o.slab
  | .destroy _ _ => True
  | .pass _ => True

theorem Keeps.collectNode_cc (hQ : Keeps B Q) {threshold : ℕ} {node : Node}
    (hq : Q (a.ccDesc cacheLine)) (h : collectNode threshold a node = .ok a') :
    Q (a'.ccDesc cacheLine) := by
  rcases collectNode_cases h with rfl | ⟨c, hc, rfl⟩ | ⟨slot, c, -, rfl⟩
  · exact hq
  · obtain ⟨taken, rest, hl, rfl⟩ := collectCache_cases hc
    exact hQ.collect _ taken rest hq hl
  · exact hq

theorem Keeps.collectNode_caches (hP : Keeps A P) {threshold : ℕ} {node : Node}
    (hp : ∀ slot ∈ a.caches, P (a.store slot)) (h : collectNode threshold a node = .ok a') :
    ∀ slot ∈ a'.caches, P (a'.store slot) := by
  rcases collectNode_cases h with rfl | ⟨c, hc, rfl⟩ | ⟨slot, c, hc, rfl⟩
  · exact hp
  · exact hp
  · obtain ⟨taken, rest, hl, rfl⟩ := collectCache_cases hc
    intro s hs
    by_cases he : s = slot
    · subst he
      rw [Allocator.setHeap_store_self]
      exact hP.collect _ taken rest (hp s hs) hl
    · rw [Allocator.setHeap_store_of_ne _ he]
      exact hp s hs

/-- A property of `cache_cache` that survives what is done to it survives every step. -/
theorem step_cc (hQ : Keeps B Q) (hsub : ∀ slot ∈ a.caches, slot ∈ a.cacheCache.live)
    (hB : ∀ flag size pages, e = .create flag size pages → B (a.ccDesc cacheLine))
    (hq : Q (a.ccDesc cacheLine)) (h : a.step cacheLine e = some a') : Q (a'.ccDesc cacheLine) := by
  have hsetHeap : ∀ slot heap, (a.setHeap slot heap).ccDesc cacheLine = a.ccDesc cacheLine :=
    fun _ _ => rfl
  cases e with
  | create flag size pages =>
    obtain ⟨c, slot, p, ha, rfl | ⟨desc, -, rfl⟩⟩ := bdsCacheCreate_cases h
    · exact hQ.alloc _ pages c slot p hq (hB flag size pages rfl) ha
    · exact hQ.alloc _ pages c slot p hq (hB flag size pages rfl) ha
  | alloc slot pages =>
    obtain ⟨-, c, o, p, -, rfl⟩ := step_alloc_cases h
    rwa [hsetHeap]
  | free slot o found =>
    obtain ⟨heap, rfl⟩ := step_free_setHeap h
    rwa [hsetHeap]
  | destroy slot force =>
    obtain ⟨hm, h⟩ := step_destroy_cases h
    rcases bdsCacheDestroy_cases h with rfl | ⟨p, c, hp, hc, rfl⟩
    · exact hq
    · exact hQ.free _ slot p c hq (hsub slot hm) hp hc
  | pass params =>
    exact pass_preserves (I := fun a => Q (a.ccDesc cacheLine))
      (fun _ _ _ hq h => hQ.collectNode_cc hq h) hq h

/-- What a cache has once it is set up, and keeps, is had by every cache after every step. -/
theorem step_caches (hP : Keeps A P) {S : ℕ → Prop}
    (hsetup : ∀ (old : Descriptor) flag size desc, S size →
      setupCacheDesc cacheLine old.desc flag size = some desc → P (old.setup desc))
    (hnodup : a.caches.Nodup) (hG : Allowed cacheLine B A S a e)
    (hp : ∀ slot ∈ a.caches, P (a.store slot)) (h : a.step cacheLine e = some a') :
    ∀ slot ∈ a'.caches, P (a'.store slot) := by
  have hset : ∀ slot heap, P { a.store slot with heap } →
      ∀ s ∈ (a.setHeap slot heap).caches, P ((a.setHeap slot heap).store s) := by
    intro slot heap hnew s hs
    by_cases he : s = slot
    · subst he
      rw [Allocator.setHeap_store_self]
      exact hnew
    · rw [Allocator.setHeap_store_of_ne _ he]
      exact hp s hs
  cases e with
  | create flag size pages =>
    obtain ⟨c, slot, p, -, rfl | ⟨desc, hdesc, rfl⟩⟩ := bdsCacheCreate_cases h
    · exact hp
    · intro s hs
      by_cases he : s = slot
      · subst he
        simp only [Function.update_self]
        exact hsetup _ flag size desc hG.1 hdesc
      · simp only [Function.update_of_ne he]
        exact hp s ((List.mem_cons.mp hs).resolve_left he)
  | alloc slot pages =>
    obtain ⟨hm, c, o, p, ha, rfl⟩ := step_alloc_cases h
    exact hset slot _ (hP.alloc _ pages c o p (hp slot hm) hG ha)
  | free slot o found =>
    obtain ⟨hm, rfl | ⟨ho, p, c, hptr, hc, rfl⟩⟩ := step_free_cases hG h
    · exact hp
    · exact hset slot _ (hP.free _ o p c (hp slot hm) ho hptr hc)
  | destroy slot force =>
    obtain ⟨hm, h⟩ := step_destroy_cases h
    rcases bdsCacheDestroy_cases h with rfl | ⟨p, c, -, -, rfl⟩
    · exact hp
    · intro s hs
      obtain ⟨hne, hs⟩ := (hnodup.mem_erase_iff).mp hs
      simp only [Function.update_of_ne hne]
      exact hp s hs
  | pass params =>
    exact pass_preserves (I := fun a => ∀ slot ∈ a.caches, P (a.store slot))
      (fun _ _ _ hp h => hP.collectNode_caches hp h) hp h

theorem Inv.keeps : Keeps (fun _ => True)
    fun D => Sized D.desc.num D.desc.bufferSize ∧ Inv D.desc D.heap := by
  refine ⟨?_, ?_, ?_⟩
  · rintro D pages c o p ⟨hd, hi⟩ - ha
    exact ⟨hd, (hi.alloc hd ha).1⟩
  · rintro D o p c ⟨hd, hi⟩ ho hp hc
    exact ⟨hd, hi.free hd ho hp hc⟩
  · rintro D taken rest ⟨hd, hi⟩ hl
    have hsub : rest.Sublist D.heap.cache.slabsFree := hl ▸ List.sublist_append_right taken rest
    have hroom : ∀ k ∈ rest, HasRoom D.desc D.heap.cache k := fun k hk =>
      hi.lists.roomFree k (hsub.subset hk)
    exact ⟨hd, hi.nodup, hi.bound, hi.slabs, hi.lists.nodupPartial,
      hi.lists.nodupFree.sublist hsub, hi.lists.roomPartial, hroom⟩

/-- What holds of the descriptors in use in every run. -/
structure Sound (cacheLine : ℕ) (a : Allocator) : Prop where
  cc : Inv (cacheCache cacheLine) a.cacheCache
  sub : ∀ slot ∈ a.caches, slot ∈ a.cacheCache.live
  nodup : a.caches.Nodup

/-- The caches in use stay, or get one in a descriptor not handed out, or lose one. -/
theorem Sound.step (hs : Sound cacheLine a) (h : a.step cacheLine e = some a') :
    Sound cacheLine a' := by
  have hcc : Inv (cacheCache cacheLine) a'.cacheCache :=
    (step_cc Inv.keeps hs.sub (fun _ _ _ _ => trivial) ⟨cacheCache_sized cacheLine, hs.cc⟩ h).2
  obtain ⟨hinv, hsub, hnodup⟩ := hs
  cases e with
  | create flag size pages =>
    obtain ⟨c, slot, p, ha, rfl | ⟨desc, -, rfl⟩⟩ := bdsCacheCreate_cases h
    · exact ⟨hcc, fun s hs => List.mem_cons_of_mem _ (hsub s hs), hnodup⟩
    · have hfresh := (hinv.alloc (cacheCache_sized cacheLine) ha).2
      refine ⟨hcc, fun s hs => ?_, List.nodup_cons.mpr ⟨fun hm => hfresh (hsub slot hm), hnodup⟩⟩
      rcases List.mem_cons.mp hs with rfl | hs
      · exact List.mem_cons_self
      · exact List.mem_cons_of_mem _ (hsub s hs)
  | alloc slot pages =>
    obtain ⟨-, c, o, p, -, rfl⟩ := step_alloc_cases h
    exact ⟨hcc, hsub, hnodup⟩
  | free slot o found =>
    obtain ⟨heap, rfl⟩ := step_free_setHeap h
    exact ⟨hcc, hsub, hnodup⟩
  | destroy slot force =>
    obtain ⟨hm, h⟩ := step_destroy_cases h
    rcases bdsCacheDestroy_cases h with rfl | ⟨p, c, -, -, rfl⟩
    · exact ⟨hcc, hsub, hnodup⟩
    · refine ⟨hcc, fun s hs => ?_, hnodup.erase slot⟩
      obtain ⟨hne, hs⟩ := (hnodup.mem_erase_iff).mp hs
      exact (List.mem_erase_of_ne hne).mpr (hsub s hs)
  | pass params =>
    have hframe := pass_frame h
    simp only [Prod.mk.injEq] at hframe
    obtain ⟨-, hcaches, -, hlive⟩ := hframe
    refine ⟨hcc, ?_, hcaches ▸ hnodup⟩
    rw [hcaches, hlive]
    exact hsub

theorem reach_sound {G : Allocator → Event → Prop} (hr : (allocatorSystem cacheLine).Reach G a) :
    Sound cacheLine a := by
  refine hr.invariant ?_ fun _ _ _ _ hs _ h => hs.step h
  rintro _ ⟨links, rfl⟩
  exact ⟨⟨by simp [bdsCacheInit], by simp [bdsCacheInit], by simp [bdsCacheInit],
    by simp [bdsCacheInit], by simp [bdsCacheInit], by simp [bdsCacheInit],
    by simp [bdsCacheInit]⟩, by simp [bdsCacheInit], by simp [bdsCacheInit]⟩

/-- The rule for properties of all caches in all runs. -/
theorem reach_keeps {G : Allocator → Event → Prop} (hQ : Keeps B Q) (hP : Keeps A P)
    {S : ℕ → Prop} (hinit : Q ⟨cacheCache cacheLine, ⟨⟨0, 0, 0, 0, [], [], [], []⟩, []⟩, 0⟩)
    (hsetup : ∀ (old : Descriptor) flag size desc, S size →
      setupCacheDesc cacheLine old.desc flag size = some desc → P (old.setup desc))
    (hG : ∀ a e, G a e → Allowed cacheLine B A S a e)
    (hr : (allocatorSystem cacheLine).Reach G a) :
    Q (a.ccDesc cacheLine) ∧ ∀ slot ∈ a.caches, P (a.store slot) := by
  refine hr.invariant (I := fun a => Q (a.ccDesc cacheLine) ∧ ∀ slot ∈ a.caches, P (a.store slot))
    ?_ ?_
  · rintro _ ⟨links, rfl⟩
    exact ⟨hinit, by simp [bdsCacheInit]⟩
  · rintro a e a' hr ⟨hq, hp⟩ hg h
    have hs := reach_sound hr
    have hallowed := hG a e hg
    refine ⟨step_cc hQ hs.sub ?_ hq h, step_caches hP hsetup hs.nodup hallowed hp h⟩
    rintro flag size pages rfl
    exact hallowed.2

end SeamlessStack.Slab
