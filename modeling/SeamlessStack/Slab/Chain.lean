import SeamlessStack.Slab.Upkeep

/-! `bds_cache_create` links a descriptor on the chain and nothing takes it off, so the chain is
right until the first cache is destroyed and never after. -/
namespace SeamlessStack.Slab
open Lib

/-- `cache_chain` is a circular list of `cache_cache` and the caches in use, each once. -/
def Allocator.ChainOk (a : Allocator) : Prop :=
  ∃ l, a.chain.Ring .cacheChain l ∧
    (∀ node ∈ Node.cacheChain :: l, a.chain.next (a.chain.prev node) = node) ∧
    ∀ node, node ∈ l ↔ node = .cacheCache ∨ ∃ slot ∈ a.caches, node = .desc slot

/-- The node of a destroyed cache stays linked; when its descriptor is used again it is linked a
second time, and the walk does not come back. -/
inductive Linkage (a : Allocator) : Prop
  | whole : a.gone = [] →
      a.chain.Ring .cacheChain (a.caches.map .desc ++ [.cacheCache]) → Linkage a
  | dead {l : List Node} {slot : Obj} : a.gone ≠ [] → a.chain.Ring .cacheChain l →
      .desc slot ∈ l → slot ∉ a.caches → Linkage a
  | strays : a.gone ≠ [] → a.chain.Strays .cacheChain → Linkage a

variable {cacheLine : ℕ} {a a' : Allocator} {e : Event}

/-- What a step does to the chain and to the list of caches in use. -/
theorem step_chain_cases (hs : Sound cacheLine a) (h : a.step cacheLine e = some a') :
    (a'.chain = a.chain ∧ a'.caches = a.caches ∧ a'.gone = a.gone) ∨
    (∃ slot ∉ a.caches, a'.chain = a.chain.add (.desc slot) .cacheChain ∧
      a'.caches = slot :: a.caches ∧ a'.gone = a.gone) ∨
    ∃ slot ∈ a.caches, a'.chain = a.chain ∧ a'.caches = a.caches.erase slot ∧
      a'.gone = slot :: a.gone := by
  cases e with
  | create flag size pages =>
    obtain ⟨c, slot, p, ha, rfl | ⟨desc, -, rfl⟩⟩ := bdsCacheCreate_cases h
    · exact Or.inl ⟨rfl, rfl, rfl⟩
    · have hfresh := (hs.cc.alloc (cacheCache_sized cacheLine) ha).2
      exact Or.inr (Or.inl ⟨slot, fun hm => hfresh (hs.sub slot hm), rfl, rfl, rfl⟩)
  | alloc slot pages =>
    obtain ⟨-, c, o, p, -, rfl⟩ := step_alloc_cases h
    exact Or.inl ⟨rfl, rfl, rfl⟩
  | free slot o found =>
    obtain ⟨heap, rfl⟩ := step_free_setHeap h
    exact Or.inl ⟨rfl, rfl, rfl⟩
  | destroy slot force =>
    obtain ⟨hm, h⟩ := step_destroy_cases h
    rcases bdsCacheDestroy_cases h with rfl | ⟨p, c, -, -, rfl⟩
    · exact Or.inl ⟨rfl, rfl, rfl⟩
    · exact Or.inr (Or.inr ⟨slot, hm, rfl, rfl, rfl⟩)
  | pass params =>
    have hframe := pass_frame h
    simp only [Prod.mk.injEq] at hframe
    exact Or.inl ⟨hframe.1, hframe.2.1, hframe.2.2.1⟩

theorem Linkage.step (hl : Linkage a) (hs : Sound cacheLine a)
    (h : a.step cacheLine e = some a') : Linkage a' := by
  rcases step_chain_cases hs h with ⟨hchain, hcaches, hgone⟩ |
    ⟨slot, hfresh, hchain, hcaches, hgone⟩ | ⟨slot, hm, hchain, hcaches, hgone⟩
  · cases hl with
    | whole hg hr => exact .whole (hgone ▸ hg) (by rwa [hchain, hcaches])
    | dead hg hr hmem hdead => exact .dead (hgone ▸ hg) (hchain ▸ hr) hmem (hcaches ▸ hdead)
    | strays hg hst => exact .strays (hgone ▸ hg) (hchain ▸ hst)
  · cases hl with
    | whole hg hr =>
      refine .whole (hgone ▸ hg) ?_
      rw [hchain, hcaches]
      exact hr.add (by simpa using hfresh)
    | @dead l dead hg hr hmem hdead =>
      by_cases hlink : .desc slot ∈ l
      · exact .strays (hgone ▸ hg) (hchain ▸ hr.strays_add hlink)
      · have hr' : (a.chain.add (.desc slot) .cacheChain).Ring .cacheChain (.desc slot :: l) :=
          hr.add (by simpa using hlink)
        refine .dead (hgone ▸ hg) (hchain ▸ hr') (List.mem_cons_of_mem _ hmem) ?_
        rw [hcaches, List.mem_cons]
        rintro (rfl | hm)
        · exact hlink hmem
        · exact hdead hm
    | strays hg hst => exact .strays (hgone ▸ hg) (hchain ▸ hst.add (by simp))
  · have hne : a'.gone ≠ [] := by simp [hgone]
    cases hl with
    | whole hg hr =>
      have hmem : Node.desc slot ∈ a.caches.map .desc ++ [.cacheCache] := by simpa using hm
      refine .dead hne (hchain ▸ hr) hmem ?_
      rw [hcaches]
      exact hs.nodup.not_mem_erase
    | dead hg hr hmem hdead =>
      refine .dead hne (hchain ▸ hr) hmem fun hm => hdead ?_
      rw [hcaches] at hm
      exact List.mem_of_mem_erase hm
    | strays hg hst => exact .strays hne (hchain ▸ hst)

theorem reach_linkage {G : Allocator → Event → Prop}
    (hr : (allocatorSystem cacheLine).Reach G a) : Linkage a := by
  refine hr.invariant ?_ fun _ _ _ hr hl _ h => hl.step (reach_sound hr) h
  rintro _ ⟨links, rfl⟩
  have hempty : (initListHead links .cacheChain).Ring .cacheChain [] := Links.ring_reset
  exact .whole rfl (hempty.add (by simp))

/-- The chain holds just `cache_cache` and the caches in use just when no cache was ever
destroyed. -/
theorem cacheChain_ok_iff (hr : (allocatorSystem cacheLine).Reach System.AnyStep a) :
    a.ChainOk ↔ a.gone = [] := by
  constructor
  · rintro ⟨l, hring, -, hmem⟩
    cases reach_linkage hr with
    | whole hg _ => exact hg
    | @dead m slot _ hm hslot hdead =>
      have hl : l = m := hring.unique hm
      subst hl
      rcases (hmem _).mp hslot with he | ⟨s, hs, he⟩
      · cases he
      · cases he
        exact absurd hs hdead
    | strays _ hst => exact absurd hring hst.not_ring
  · intro hg
    cases reach_linkage hr with
    | whole _ hring =>
      refine ⟨_, hring, fun node hn => hring.next_prev hn, fun node => ?_⟩
      simp only [List.mem_append, List.mem_map, List.mem_singleton]
      constructor
      · rintro (⟨slot, hs, rfl⟩ | rfl)
        · exact Or.inr ⟨slot, hs, rfl⟩
        · exact Or.inl rfl
      · rintro (rfl | ⟨slot, hs, rfl⟩)
        · exact Or.inr rfl
        · exact Or.inl ⟨slot, hs, rfl⟩
    | dead hne _ _ _ | strays hne _ => exact absurd hg hne

/-- Two caches, of 100-byte and of 4096-byte objects, right after they were created. -/
theorem cacheChain_ok_iff_two :
    ∃ a, (allocatorSystem 64).run System.AnyStep (bdsCacheInit ⟨id, id⟩)
        [.create false 100 8192, .create false 4096 16384] = some a ∧
      a.caches = [⟨0, 1⟩, ⟨0, 0⟩] ∧ a.gone = [] ∧ (a.ChainOk ↔ a.gone = []) := by
  have hrun : ∃ a, (allocatorSystem 64).run System.AnyStep (bdsCacheInit ⟨id, id⟩)
      [.create false 100 8192, .create false 4096 16384] = some a ∧
      a.caches = [⟨0, 1⟩, ⟨0, 0⟩] ∧ a.gone = [] := ⟨_, rfl, rfl, rfl⟩
  obtain ⟨a, hrun, hcaches, hgone⟩ := hrun
  exact ⟨a, hrun, hcaches, hgone, cacheChain_ok_iff (.run (.init ⟨_, rfl⟩) hrun)⟩

/-- A cache is created and destroyed, and its descriptor is still on the chain. -/
theorem cacheChain_keeps_destroyed :
    ∃ a, (allocatorSystem 64).run System.AnyStep (bdsCacheInit ⟨id, id⟩)
        [.create false 100 8192, .destroy ⟨0, 0⟩ false] = some a ∧ a.caches = [] ∧
      a.chain.next .cacheChain = .desc ⟨0, 0⟩ ∧ ¬ a.ChainOk := by
  have hrun : ∃ a, (allocatorSystem 64).run System.AnyStep (bdsCacheInit ⟨id, id⟩)
      [.create false 100 8192, .destroy ⟨0, 0⟩ false] = some a ∧ a.caches = [] ∧
      a.chain.next .cacheChain = .desc ⟨0, 0⟩ := ⟨_, rfl, rfl, rfl⟩
  obtain ⟨a, hrun, hcaches, hnext⟩ := hrun
  refine ⟨a, hrun, hcaches, hnext, ?_⟩
  rintro ⟨l, hring, -, hmem⟩
  have hstart := hring.path.start
  rw [hnext] at hstart
  rcases hstart with hl | ⟨-, he⟩
  · have := (hmem _).mp hl
    simp [hcaches] at this
  · cases he

end SeamlessStack.Slab
