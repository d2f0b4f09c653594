import SeamlessStack.Slab.FreeList

/-! Every slab is linked on the list that its reference count calls for; one that the garbage
collector took away is on none. -/
namespace SeamlessStack.Slab
open Lib

/-- How often a slab is linked on `slabs_full`, `slabs_partial` and `slabs_free`. -/
def Cache.onLists (c : Cache) (k : ℕ) : ℕ × ℕ × ℕ :=
  (c.slabsFull.count k, c.slabsPartial.count k, c.slabsFree.count k)

/-- Where a slab should be linked. -/
def SlabDesc.place (d : CacheDesc) (slab : SlabDesc) : ℕ × ℕ × ℕ :=
  if slab.refcount = d.num then (1, 0, 0)
  else if slab.refcount = 0 then (0, 0, 1)
  else (0, 1, 0)

def Cache.linked (c : Cache) : List ℕ := c.slabsFree ++ c.slabsPartial ++ c.slabsFull

theorem Cache.count_linked (c : Cache) (k : ℕ) : c.linked.count k =
    (c.onLists k).1 + (c.onLists k).2.1 + (c.onLists k).2.2 := by
  simp only [linked, onLists, List.count_append]
  omega

def Cache.inUse (c : Cache) : ℤ := (c.slabs.map SlabDesc.refcount).sum

def Cache.numSlabs (c : Cache) : ℕ :=
  c.slabsFull.length + c.slabsPartial.length + c.slabsFree.length

section Moves
variable (c : Cache) (j k : ℕ) (slab : SlabDesc)

theorem Cache.moveToPartial_onLists_self : (c.moveToPartial k).onLists k =
    ((c.onLists k).1 - 1, (c.onLists k).2.1 - 1 + 1, (c.onLists k).2.2 - 1) := by
  simp [onLists, moveToPartial, bdsListDel]

theorem Cache.moveToFull_onLists_self : (c.moveToFull k).onLists k =
    ((c.onLists k).1 - 1 + 1, (c.onLists k).2.1 - 1, (c.onLists k).2.2 - 1) := by
  simp [onLists, moveToFull, bdsListDel]

theorem Cache.moveToFree_onLists_self : (c.moveToFree k).onLists k =
    ((c.onLists k).1 - 1, (c.onLists k).2.1 - 1, (c.onLists k).2.2 - 1 + 1) := by
  simp [onLists, moveToFree, bdsListDel]

variable {j k}

theorem Cache.moveToPartial_onLists (h : j ≠ k) :
    (c.moveToPartial k).onLists j = c.onLists j := by
  simp [onLists, moveToPartial, bdsListDel, List.count_erase_of_ne h, List.count_cons_of_ne h.symm]

theorem Cache.moveToFull_onLists (h : j ≠ k) : (c.moveToFull k).onLists j = c.onLists j := by
  simp [onLists, moveToFull, bdsListDel, List.count_erase_of_ne h, List.count_cons_of_ne h.symm]

theorem Cache.moveToFree_onLists (h : j ≠ k) : (c.moveToFree k).onLists j = c.onLists j := by
  simp [onLists, moveToFree, bdsListDel, List.count_erase_of_ne h, List.count_cons_of_ne h.symm]

end Moves

/-- The slabs are linked where they should be, except for those that are gone. -/
structure Filed (gone : ℕ → Prop) (d : CacheDesc) (c : Cache) : Prop where
  place : ∀ k slab, c.slabs[k]? = some slab → ¬ gone k → c.onLists k = slab.place d
  taken : ∀ k slab, c.slabs[k]? = some slab → gone k →
    slab.refcount = 0 ∧ c.onLists k = (0, 0, 0)
  beyond : ∀ k, c.slabs.length ≤ k → ¬ gone k ∧ c.onLists k = (0, 0, 0)

/-- As `Filed`, but slab `k` may be anywhere. -/
structure FiledBut (gone : ℕ → Prop) (d : CacheDesc) (c : Cache) (k : ℕ) : Prop where
  place : ∀ j slab, j ≠ k → c.slabs[j]? = some slab → ¬ gone j → c.onLists j = slab.place d
  taken : ∀ j slab, c.slabs[j]? = some slab → gone j →
    slab.refcount = 0 ∧ c.onLists j = (0, 0, 0)
  beyond : ∀ j, c.slabs.length ≤ j → ¬ gone j ∧ c.onLists j = (0, 0, 0)
  here : ¬ gone k

/-- The slab that `bds_cache_alloc` allocates from, and the cache once it is on the partial
list. -/
inductive Picked (d : CacheDesc) (pages : ℤ) (c : Cache) : Cache → ℕ → Prop
  | head {k : ℕ} {ks : List ℕ} : c.slabsPartial = k :: ks → Picked d pages c c k
  | free {k : ℕ} {ks : List ℕ} : c.slabsPartial = [] → c.slabsFree = k :: ks →
      Picked d pages c (c.moveToPartial k) k
  | grow : c.slabsPartial = [] → c.slabsFree = [] →
      Picked d pages c (bdsCacheGrow d pages c) c.slabs.length

section Steps
variable {gone : ℕ → Prop} {d : CacheDesc} {c c' c₁ : Cache} {live : List Obj} {j k : ℕ}
  {slab : SlabDesc} {pages p : ℤ} {o : Obj}

theorem SlabDesc.place_full (h : slab.refcount = d.num) : slab.place d = (1, 0, 0) := if_pos h

theorem SlabDesc.place_free (hd : Sized d.num d.bufferSize) (h : slab.refcount = 0) :
    slab.place d = (0, 0, 1) := by
  have := hd.pos
  unfold place
  rw [if_neg (by omega), if_pos h]

theorem SlabDesc.place_partial (h₀ : slab.refcount ≠ 0) (h₁ : slab.refcount ≠ d.num) :
    slab.place d = (0, 1, 0) := by
  unfold place
  rw [if_neg h₁, if_neg h₀]

theorem Cache.mem_partial_iff : k ∈ c.slabsPartial ↔ 0 < (c.onLists k).2.1 :=
  List.count_pos_iff.symm

theorem Cache.mem_free_iff : k ∈ c.slabsFree ↔ 0 < (c.onLists k).2.2 :=
  List.count_pos_iff.symm

theorem Filed.of_linked (h : Filed gone d c) (hk : c.onLists k ≠ (0, 0, 0)) :
    ¬ gone k ∧ ∃ slab, c.slabs[k]? = some slab ∧ c.onLists k = slab.place d := by
  have hlt : k < c.slabs.length := by
    by_contra hge
    exact hk (h.beyond k (not_lt.mp hge)).2
  have hslab := List.getElem?_eq_getElem hlt
  have hgone : ¬ gone k := by
    intro hg
    exact hk (h.taken k _ hslab hg).2
  exact ⟨hgone, _, hslab, h.place k _ hslab hgone⟩

theorem Filed.of_mem_partial (h : Filed gone d c) (hk : k ∈ c.slabsPartial) :
    c.onLists k = (0, 1, 0) ∧ ¬ gone k := by
  rw [Cache.mem_partial_iff] at hk
  have hne : c.onLists k ≠ (0, 0, 0) := by
    intro he
    rw [he] at hk
    exact absurd hk (lt_irrefl 0)
  obtain ⟨hgone, slab, -, hplace⟩ := h.of_linked hne
  rw [hplace] at hk ⊢
  refine ⟨?_, hgone⟩
  unfold SlabDesc.place at hk ⊢
  split_ifs at hk ⊢
  · exact absurd hk (lt_irrefl 0)
  · exact absurd hk (lt_irrefl 0)
  · rfl

theorem Filed.of_mem_free (h : Filed gone d c) (hk : k ∈ c.slabsFree) :
    c.onLists k = (0, 0, 1) ∧ ¬ gone k ∧ ∃ slab, c.slabs[k]? = some slab ∧ slab.refcount = 0 := by
  rw [Cache.mem_free_iff] at hk
  have hne : c.onLists k ≠ (0, 0, 0) := by
    intro he
    rw [he] at hk
    exact absurd hk (lt_irrefl 0)
  obtain ⟨hgone, slab, hslab, hplace⟩ := h.of_linked hne
  rw [hplace] at hk ⊢
  unfold SlabDesc.place at hk ⊢
  split_ifs at hk ⊢ with hfull hzero
  · exact absurd hk (lt_irrefl 0)
  · exact ⟨rfl, hgone, slab, hslab, hzero⟩
  · exact absurd hk (lt_irrefl 0)

theorem Filed.but (h : Filed gone d c) (hk : ¬ gone k) : FiledBut gone d c k :=
  ⟨fun j slab _ => h.place j slab, h.taken, h.beyond, hk⟩

theorem Picked.filedBut (hp : Picked d pages c c₁ k) (h : Filed gone d c) :
    FiledBut gone d c₁ k ∧ c₁.onLists k = (0, 1, 0) := by
  cases hp with
  | head hks =>
    obtain ⟨hon, hgone⟩ := h.of_mem_partial (hks ▸ List.mem_cons_self)
    exact ⟨h.but hgone, hon⟩
  | free hp hks =>
    obtain ⟨hon, hgone, slab, hslab, -⟩ := h.of_mem_free (hks ▸ List.mem_cons_self)
    have hlt := (List.getElem?_eq_some_iff.mp hslab).1
    refine ⟨⟨fun j slab hne hj hg => ?_, fun j slab hj hg => ?_, fun j hj => ?_, hgone⟩, ?_⟩
    · rw [c.moveToPartial_onLists hne]
      exact h.place j slab hj hg
    · have hne : j ≠ k := fun e => hgone (e ▸ hg)
      rw [c.moveToPartial_onLists hne]
      exact h.taken j slab hj hg
    · have hne : j ≠ k := fun e => absurd hlt (not_lt.mpr (e ▸ hj))
      rw [c.moveToPartial_onLists hne]
      exact h.beyond j hj
    · rw [c.moveToPartial_onLists_self, hon]
      rfl
  | grow hp hf =>
    have hlen : (bdsCacheGrow d pages c).slabs.length = c.slabs.length + 1 := by
      simp [bdsCacheGrow, setupSlabDesc]
    have hon : ∀ j, j ≠ c.slabs.length → (bdsCacheGrow d pages c).onLists j = c.onLists j := by
      intro j hne
      simp [Cache.onLists, bdsCacheGrow, setupSlabDesc, List.count_cons_of_ne hne.symm]
    have hold : ∀ j slab, j ≠ c.slabs.length →
        (bdsCacheGrow d pages c).slabs[j]? = some slab → c.slabs[j]? = some slab := by
      intro j slab hne hj
      have hlt := (List.getElem?_eq_some_iff.mp hj).1
      rw [hlen] at hlt
      have hlt : j < c.slabs.length := by omega
      simpa [bdsCacheGrow, setupSlabDesc, List.getElem?_append_left hlt] using hj
    obtain ⟨hfresh, hnone⟩ := h.beyond c.slabs.length le_rfl
    refine ⟨⟨fun j slab hne hj hg => ?_, fun j slab hj hg => ?_, fun j hj => ?_, hfresh⟩, ?_⟩
    · rw [hon j hne]
      exact h.place j slab (hold j slab hne hj) hg
    · have hne : j ≠ c.slabs.length := fun e => hfresh (e ▸ hg)
      rw [hon j hne]
      exact h.taken j slab (hold j slab hne hj) hg
    · rw [hlen] at hj
      rw [hon j (by omega)]
      exact h.beyond j (by omega)
    · simp only [Cache.onLists, Prod.mk.injEq] at hnone
      simp [Cache.onLists, bdsCacheGrow, setupSlabDesc, hnone]

theorem allocFrom_eq_some (h : allocFrom d c k slab = some (c', o, p)) :
    ∃ next, slab.bufctl[slab.free]? = some next ∧ o = ⟨k, slab.free⟩ ∧
      p = slab.sMem + slab.free * d.bufferSize ∧
      c' = (fun c : Cache => if toUint (slab.refcount + 1) = d.num then c.moveToFull k else c)
        { c.setSlab k { slab with free := next, refcount := slab.refcount + 1 } with
          refcount := atomicInc c.refcount } := by
  simp only [allocFrom, Option.bind_eq_bind, Option.bind_eq_some_iff] at h
  obtain ⟨next, hnext, h⟩ := h
  simp only [Option.some.injEq, Prod.mk.injEq] at h
  exact ⟨next, hnext, h.2.1.symm, h.2.2.symm, h.1.symm⟩

theorem freeOne_slabs (hf : freeOne d c k p = some c') : ∃ slab, c.slabs[k]? = some slab ∧
    c'.slabs = c.slabs.set k { slab with
      free := ((p - slab.sMem) % 2 ^ 64).toNat / d.bufferSize
      refcount := slab.refcount - 1
      bufctl := slab.bufctl.set (((p - slab.sMem) % 2 ^ 64).toNat / d.bufferSize)
        (slab.free % 2 ^ 16) } := by
  simp only [freeOne, Option.bind_eq_bind, Option.bind_eq_some_iff] at hf
  obtain ⟨slab, hk, hf⟩ := hf
  refine ⟨slab, hk, ?_⟩
  split_ifs at hf
  all_goals
    obtain rfl := Option.some.inj hf
    rfl

theorem Cache.inUse_setSlab (hk : c.slabs[k]? = some slab) (slab' : SlabDesc) :
    (c.setSlab k slab').inUse = c.inUse + (slab'.refcount - slab.refcount) := by
  obtain ⟨hlt, hslab⟩ := List.getElem?_eq_some_iff.mp hk
  unfold inUse setSlab
  rw [List.map_set, List.sum_set', dif_pos (by simpa using hlt), List.getElem_map, hslab]
  ring

theorem length_erase_eq (l : List ℕ) (k : ℕ) :
    (l.erase k).length = l.length - min (l.count k) 1 := by
  rw [List.length_erase]
  split_ifs with hk
  · have := List.count_pos_iff.mpr hk
    omega
  · rw [List.count_eq_zero.mpr hk]
    omega

theorem Cache.numSlabs_move (h : (c.onLists k).1 + (c.onLists k).2.1 + (c.onLists k).2.2 = 1) :
    (c.moveToPartial k).numSlabs = c.numSlabs ∧ (c.moveToFull k).numSlabs = c.numSlabs ∧
      (c.moveToFree k).numSlabs = c.numSlabs := by
  simp only [onLists] at h
  have hfull := List.count_le_length (l := c.slabsFull) (a := k)
  have hpartial := List.count_le_length (l := c.slabsPartial) (a := k)
  have hfree := List.count_le_length (l := c.slabsFree) (a := k)
  simp only [numSlabs, moveToPartial, moveToFull, moveToFree, bdsListDel, List.length_cons,
    length_erase_eq]
  omega

/-- Rewriting slab `k` and linking it where the new contents call for files the cache. -/
theorem FiledBut.setSlab (h : FiledBut gone d c k) (slab' : SlabDesc)
    (hslabs : c'.slabs = c.slabs.set k slab') (hother : ∀ j ≠ k, c'.onLists j = c.onLists j)
    (hk : c'.onLists k = slab'.place d) (hlt : k < c.slabs.length) : Filed gone d c' := by
  have hold : ∀ j slab, j ≠ k → c'.slabs[j]? = some slab → c.slabs[j]? = some slab := by
    intro j slab hne hj
    rwa [hslabs, List.getElem?_set_ne hne.symm] at hj
  refine ⟨fun j slab hj hg => ?_, fun j slab hj hg => ?_, fun j hj => ?_⟩
  · by_cases hne : j = k
    · subst hne
      rw [hslabs, List.getElem?_set_self hlt] at hj
      rw [hk, Option.some.inj hj]
    · rw [hother j hne]
      exact h.place j slab hne (hold j slab hne hj) hg
  · have hne : j ≠ k := fun e => h.here (e ▸ hg)
    rw [hother j hne]
    exact h.taken j slab (hold j slab hne hj) hg
  · rw [hslabs, List.length_set] at hj
    rw [hother j (by omega)]
    exact h.beyond j hj

theorem allocFrom_filed (hd : Sized d.num d.bufferSize) (h : FiledBut gone d c k)
    (hon : c.onLists k = (0, 1, 0)) (hk : c.slabs[k]? = some slab) (h₀ : 0 ≤ slab.refcount)
    (hroom : slab.refcount < d.num)
    (ha : allocFrom d c k slab = some (c', o, p)) :
    Filed gone d c' ∧ (c'.refcount = atomicInc c.refcount ∧ c'.inUse = c.inUse + 1) ∧
      c'.slabs.length = c.slabs.length ∧ c'.numSlabs = c.numSlabs ∧
      c'.slabsFree = c.slabsFree ∧ c'.totalSlabCount = c.totalSlabCount ∧
      c'.freeSlabCount = c.freeSlabCount := by
  obtain ⟨next, -, -, -, hc'⟩ := allocFrom_eq_some ha
  have hlt := (List.getElem?_eq_some_iff.mp hk).1
  set slab' : SlabDesc := { slab with free := next, refcount := slab.refcount + 1 } with hslab'
  set cs : Cache := { c.setSlab k slab' with refcount := atomicInc c.refcount }
  have huse : cs.inUse = c.inUse + 1 := by
    change (c.setSlab k slab').inUse = c.inUse + 1
    rw [Cache.inUse_setSlab hk]
    simp [hslab']
  have hval : (toUint (slab.refcount + 1) : ℤ) = slab.refcount + 1 :=
    toUint_eq (by omega) (by have := hd.le; omega)
  have hon : cs.onLists k = (0, 1, 0) := hon
  simp only at hc'
  split_ifs at hc' with hfull
  · subst hc'
    refine ⟨h.setSlab slab' rfl ?_ ?_ hlt, ⟨rfl, huse⟩, List.length_set, ?_, ?_, rfl,
      rfl⟩
    · intro j hne
      rw [cs.moveToFull_onLists hne]
      rfl
    · rw [cs.moveToFull_onLists_self, hon,
        SlabDesc.place_full (show slab.refcount + 1 = d.num by omega)]
      rfl
    · rw [(Cache.numSlabs_move (by simp [hon])).2.1]
      rfl
    · apply List.erase_of_not_mem
      rw [Cache.mem_free_iff, hon]
      exact lt_irrefl 0
  · subst hc'
    refine ⟨h.setSlab slab' rfl (fun _ _ => rfl) ?_ hlt, ⟨rfl, huse⟩, List.length_set, rfl,
      rfl, rfl, rfl⟩
    rw [hon, SlabDesc.place_partial (show slab.refcount + 1 ≠ 0 by omega)
      (show slab.refcount + 1 ≠ d.num by omega)]

/-- `bds_cache_alloc` picks a slab with a free object and allocates from it. -/
theorem bdsCacheAlloc_picked (hd : Sized d.num d.bufferSize) (hi : Inv d ⟨c, live⟩)
    (ha : bdsCacheAlloc d pages 2 c = some (c', o, p)) :
    ∃ c₁ k slab, Picked d pages c c₁ k ∧ Inv d ⟨c₁, live⟩ ∧ c₁.slabs[k]? = some slab ∧
      0 ≤ slab.refcount ∧ slab.refcount < d.num ∧ allocFrom d c₁ k slab = some (c', o, p) := by
  have hroom : ∀ {c₁ : Cache} {k : ℕ}, Inv d ⟨c₁, live⟩ → HasRoom d c₁ k →
      ∃ slab, c₁.slabs[k]? = some slab ∧ 0 ≤ slab.refcount ∧ slab.refcount < d.num ∧
        toUint slab.refcount < d.num := by
    intro c₁ k hi hr
    obtain ⟨slab, hk, hlt, hval⟩ := hr.alloc hd hi
    exact ⟨slab, hk, (hi.slabs k slab hk).refcount_bounds.1, hlt, hval⟩
  cases hp : c.slabsPartial with
  | cons k ks =>
    obtain ⟨slab, hk, h₀, hlt, hval⟩ := hroom hi (hi.lists.roomPartial k (hp ▸ List.mem_cons_self))
    refine ⟨c, k, slab, .head hp, hi, hk, h₀, hlt, ?_⟩
    simpa [bdsCacheAlloc, hp, hk, hval] using ha
  | nil =>
    cases hf : c.slabsFree with
    | cons k ks =>
      have hr := hi.lists.roomFree k (hf ▸ List.mem_cons_self)
      have hi' : Inv d ⟨c.moveToPartial k, live⟩ :=
        ⟨hi.nodup, hi.bound, hi.slabs, hi.lists.moveToPartial hr⟩
      obtain ⟨slab, hk, h₀, hlt, hval⟩ := hroom hi' hr
      refine ⟨_, k, slab, .free hp hf, hi', hk, h₀, hlt, ?_⟩
      rw [bdsCacheAlloc, hp, hf] at ha
      simp only [Option.bind_eq_bind, hk, Option.bind_some, if_pos hval] at ha
      exact ha
    | nil =>
      obtain ⟨hi', hgp⟩ := bdsCacheGrow_spec hd hi pages
      obtain ⟨slab, hk, h₀, hlt, hval⟩ := hroom hi' (hi'.lists.roomPartial _
        (hgp ▸ List.mem_cons_self))
      refine ⟨_, _, slab, .grow hp hf, hi', hk, h₀, hlt, ?_⟩
      rw [bdsCacheAlloc, hp, hf] at ha
      simpa [bdsCacheAlloc, hgp, hk, hval] using ha

theorem Inv.refcount_pos (hd : Sized d.num d.bufferSize) (hi : Inv d ⟨c, live⟩) (ho : o ∈ live)
    (hk : c.slabs[o.slab]? = some slab) : 1 ≤ slab.refcount := by
  obtain ⟨k, i⟩ := o
  have hslab := hi.slabs k slab hk
  obtain ⟨l, hchain, hcount⟩ := hslab.chain
  have hgive := hchain.give hslab.len (hd.le.trans_lt (by norm_num)) (hi.bound _ ho).2 ho 0
  have hle := hgive.length_le
  rw [List.length_cons] at hle
  omega

/-- What `freeOne` does to the cache, for an object that is handed out. -/
theorem freeOne_eq_some (hd : Sized d.num d.bufferSize) (hi : Inv d ⟨c, live⟩)
    (ho : o ∈ live) (hp : c.ptr d o = some p) (hf : freeOne d c o.slab p = some c') :
    ∃ slab slab', c.slabs[o.slab]? = some slab ∧ 1 ≤ slab.refcount ∧
      slab'.refcount = slab.refcount - 1 ∧ slab'.sMem = slab.sMem ∧
      slab'.colourOffset = slab.colourOffset ∧
      c' = (fun c : Cache => if slab'.refcount = 0 then
          { c.moveToFree o.slab with freeSlabCount := c.freeSlabCount + 1 } else c)
        ((fun c : Cache => if slab'.refcount = (d.num : ℤ) - 1 then
            c.moveToPartial o.slab else c)
          { c.setSlab o.slab slab' with refcount := atomicDec c.refcount }) := by
  obtain ⟨slab, hk, rfl⟩ := Option.map_eq_some_iff.mp hp
  have hpos := hi.refcount_pos hd ho hk
  obtain ⟨k, i⟩ := o
  obtain ⟨-, hilt⟩ := hi.bound _ ho
  have hslab := hi.slabs k slab hk
  have hb : d.bufferSize ≠ 0 := by
    intro hz
    simp [freeOne, hk, hz] at hf
  have hbounds := hslab.refcount_bounds
  have hval : (toUint (slab.refcount - 1) : ℤ) = slab.refcount - 1 :=
    toUint_eq (by omega) (by have := hd.le; omega)
  have hlast : toUint (slab.refcount - 1) = d.num - 1 ↔ slab.refcount - 1 = (d.num : ℤ) - 1 := by
    have := hd.pos
    omega
  have hzero : toUint (slab.refcount - 1) = 0 ↔ slab.refcount - 1 = 0 := by omega
  have hoff : ((slab.sMem + i * d.bufferSize - slab.sMem) % 2 ^ 64).toNat / d.bufferSize = i :=
    offset_of_ptr hb hilt hd.fits slab.sMem
  simp only [freeOne, hk, Option.bind_eq_bind, Option.bind_some, if_neg hb, hoff, hslab.len,
    if_pos hilt, Option.some.injEq, hlast, hzero] at hf
  exact ⟨slab, { slab with
    free := i
    refcount := slab.refcount - 1
    bufctl := slab.bufctl.set i (slab.free % 2 ^ 16) }, hk, hpos, rfl, rfl, rfl, hf.symm⟩

theorem Filed.onLists_of_pos (h : Filed gone d c) (hk : c.slabs[k]? = some slab)
    (hpos : 1 ≤ slab.refcount) : ¬ gone k ∧
      c.onLists k = if slab.refcount = d.num then (1, 0, 0) else (0, 1, 0) := by
  have hgone : ¬ gone k := by
    intro hg
    have := (h.taken k slab hk hg).1
    omega
  refine ⟨hgone, ?_⟩
  rw [h.place k slab hk hgone]
  unfold SlabDesc.place
  rw [if_neg (show slab.refcount ≠ 0 by omega)]

/-- The first move of `bds_cache_free` takes a full slab to the partial list. -/
theorem Cache.leaveFull {full : Prop} [Decidable full]
    (hon : c.onLists k = if full then (1, 0, 0) else (0, 1, 0)) (hnotFree : k ∉ c.slabsFree) :
    ∃ c₁ : Cache, (if full then c.moveToPartial k else c) = c₁ ∧
      c₁.onLists k = (0, 1, 0) ∧ (∀ j ≠ k, c₁.onLists j = c.onLists j) ∧
      c₁.numSlabs = c.numSlabs ∧ (c₁.slabs, c₁.refcount, c₁.totalSlabCount, c₁.freeSlabCount,
        c₁.slabsFree) = (c.slabs, c.refcount, c.totalSlabCount, c.freeSlabCount, c.slabsFree) := by
  refine ⟨_, rfl, ?_⟩
  split_ifs with hfull
  · rw [if_pos hfull] at hon
    refine ⟨?_, ?_, ?_, ?_⟩
    · rw [c.moveToPartial_onLists_self, hon]
      rfl
    · intro j hne
      exact c.moveToPartial_onLists hne
    · exact (Cache.numSlabs_move (by simp [hon])).1
    · simp [Cache.moveToPartial, Cache.bdsListDel, List.erase_of_not_mem hnotFree]
  · rw [if_neg hfull] at hon
    exact ⟨hon, fun _ _ => rfl, rfl, rfl⟩

theorem freeOne_filed (hd : Sized d.num d.bufferSize) (hi : Inv d ⟨c, live⟩)
    (h : Filed gone d c) (ho : o ∈ live) (hp : c.ptr d o = some p)
    (hf : freeOne d c o.slab p = some c') :
    Filed gone d c' ∧ (c'.refcount = atomicDec c.refcount ∧ c'.inUse = c.inUse - 1) ∧
      c'.slabs.length = c.slabs.length ∧ c'.numSlabs = c.numSlabs ∧
      c'.totalSlabCount = c.totalSlabCount ∧
      c'.freeSlabCount - c'.slabsFree.length = c.freeSlabCount - c.slabsFree.length := by
  obtain ⟨slab, slab', hk, hpos, hrc, -, -, hc'⟩ := freeOne_eq_some hd hi ho hp hf
  generalize o.slab = k at hk hc'
  have hlt := (List.getElem?_eq_some_iff.mp hk).1
  obtain ⟨hgone, hon⟩ := h.onLists_of_pos hk hpos
  set cs : Cache := { c.setSlab k slab' with refcount := atomicDec c.refcount }
  have huse : cs.inUse = c.inUse - 1 := by
    change (c.setSlab k slab').inUse = c.inUse - 1
    rw [Cache.inUse_setSlab hk, hrc]
    ring
  have hnotFree : k ∉ cs.slabsFree := by
    rw [Cache.mem_free_iff]
    change ¬ 0 < (c.onLists k).2.2
    rw [hon]
    split_ifs <;> exact lt_irrefl 0
  have hfull : slab'.refcount = (d.num : ℤ) - 1 ↔ slab.refcount = d.num := by omega
  simp only [hfull] at hc'
  obtain ⟨c₁, hc₁, hk₁, hother₁, hnum₁, hsame₁⟩ := Cache.leaveFull (c := cs) hon hnotFree
  simp only [hc₁] at hc'
  simp only [Prod.mk.injEq] at hsame₁
  obtain ⟨hslabs₁, hrc₁, htotal₁, hfree₁, hlist₁⟩ := hsame₁
  have hslabs : c₁.slabs = c.slabs.set k slab' := hslabs₁
  have hlen : c₁.slabs.length = c.slabs.length := by rw [hslabs, List.length_set]
  have hcount₁ : c₁.refcount = atomicDec c.refcount ∧ c₁.inUse = c.inUse - 1 := by
    refine ⟨hrc₁, ?_⟩
    rw [← huse, Cache.inUse, Cache.inUse, hslabs₁]
  split_ifs at hc' with hzero
  · have hlist : (c₁.moveToFree k).slabsFree.length = c₁.slabsFree.length + 1 := by
      rw [hlist₁]
      simp [Cache.moveToFree, Cache.bdsListDel, hlist₁, List.erase_of_not_mem hnotFree]
    subst hc'
    refine ⟨(h.but hgone).setSlab slab' hslabs ?_ ?_ hlt, hcount₁, hlen, ?_, htotal₁, ?_⟩
    · intro j hne
      exact (c₁.moveToFree_onLists hne).trans (hother₁ j hne)
    · rw [SlabDesc.place_free hd hzero]
      refine (c₁.moveToFree_onLists_self k).trans ?_
      rw [hk₁]
      rfl
    · exact (Cache.numSlabs_move (by simp [hk₁])).2.2.trans hnum₁
    · change c₁.freeSlabCount + 1 - ((c₁.moveToFree k).slabsFree.length : ℤ) = _
      rw [hlist, hfree₁, hlist₁]
      push_cast
      change c.freeSlabCount + 1 - (c.slabsFree.length + 1 : ℤ) = _
      ring
  · subst hc'
    refine ⟨(h.but hgone).setSlab slab' hslabs hother₁ ?_ hlt, hcount₁, hlen, hnum₁, htotal₁, ?_⟩
    · have hroom : slab'.refcount ≠ d.num := by
        have := (hi.slabs k slab hk).refcount_bounds.2
        omega
      rw [hk₁, SlabDesc.place_partial hzero hroom]
    · rw [hfree₁, hlist₁]
      rfl

theorem Picked.same (hp : Picked d pages c c₁ k) :
    c₁.refcount = c.refcount ∧ c₁.inUse = c.inUse := by
  cases hp with
  | head _ | free _ _ => exact ⟨rfl, rfl⟩
  | grow _ _ => exact ⟨rfl, by simp [bdsCacheGrow, setupSlabDesc, Cache.inUse]⟩

/-- A slab is picked, and left where its new reference count calls for. -/
theorem bdsCacheAlloc_filed (hd : Sized d.num d.bufferSize) (hi : Inv d ⟨c, live⟩)
    (h : Filed gone d c) (ha : bdsCacheAlloc d pages 2 c = some (c', o, p)) :
    Filed gone d c' ∧ ∃ c₁ k, Picked d pages c c₁ k ∧
      (c'.refcount = atomicInc c.refcount ∧ c'.inUse = c.inUse + 1) ∧
      c'.slabs.length = c₁.slabs.length ∧
      c'.numSlabs = c₁.numSlabs ∧ c'.slabsFree = c₁.slabsFree ∧
      c'.totalSlabCount = c₁.totalSlabCount ∧ c'.freeSlabCount = c₁.freeSlabCount := by
  obtain ⟨c₁, k, slab, hp, -, hk, h₀, hlt, ha⟩ := bdsCacheAlloc_picked hd hi ha
  obtain ⟨hbut, hon⟩ := hp.filedBut h
  obtain ⟨hf, ⟨hrc, huse⟩, hcounts⟩ := allocFrom_filed hd hbut hon hk h₀ hlt ha
  rw [hp.same.1] at hrc
  rw [hp.same.2] at huse
  exact ⟨hf, c₁, k, hp, ⟨hrc, huse⟩, hcounts⟩

/-- While no slab is gone, the two lists are empty when every slab is full. -/
theorem Filed.full_iff (hd : Sized d.num d.bufferSize) (h : Filed (fun _ => False) d c) :
    c.slabsPartial = [] ∧ c.slabsFree = [] ↔ ∀ slab ∈ c.slabs, slab.refcount = d.num := by
  constructor
  · rintro ⟨hp, hf⟩ slab hmem
    obtain ⟨k, hk⟩ := List.mem_iff_getElem?.mp hmem
    have hplace := h.place k slab hk not_false
    by_contra hne
    simp only [Cache.onLists, hp, hf, SlabDesc.place, if_neg hne] at hplace
    split_ifs at hplace <;> simp at hplace
  · intro hfull
    constructor
    · refine List.eq_nil_iff_forall_not_mem.mpr fun k hk => ?_
      obtain ⟨hon, -⟩ := h.of_mem_partial hk
      obtain ⟨-, slab, hslab, hplace⟩ := h.of_linked (k := k) (by simp [hon])
      rw [hon, SlabDesc.place_full (hfull slab (List.mem_of_getElem? hslab))] at hplace
      cases hplace
    · refine List.eq_nil_iff_forall_not_mem.mpr fun k hk => ?_
      obtain ⟨-, -, slab, hslab, hzero⟩ := h.of_mem_free hk
      have := hfull slab (List.mem_of_getElem? hslab)
      have := hd.pos
      omega

end Steps

section Runs
variable {cacheLine : ℕ} {d : CacheDesc} {h h' : Heap} {e : Call}

/-- What the lists and the reference count of a cache agree on while no garbage is
collected. -/
structure Listed (d : CacheDesc) (c : Cache) : Prop where
  filed : Filed (fun _ => False) d c
  count : c.refcount = c.inUse.bmod (2 ^ 32)

theorem call_listed (hd : Sized d.num d.bufferSize) (hi : Inv d h) (hl : Listed d h.cache)
    (hs : call d h e = some h') : Listed d h'.cache := by
  have hcount := hl.count
  cases e with
  | alloc pages =>
    obtain ⟨c', o, p, ha, -⟩ := bdsCacheAlloc_spec hd hi pages
    simp only [call, ha, Option.bind_eq_bind, Option.bind_some, Option.some.injEq] at hs
    subst hs
    obtain ⟨hf, -, -, -, ⟨hrc, huse⟩, -⟩ := bdsCacheAlloc_filed hd hi hl.filed ha
    refine ⟨hf, ?_⟩
    rw [hrc, huse, hcount, atomicInc, Int.bmod_add_bmod]
  | free o =>
    obtain ⟨ho, p, c, hp, hc, rfl⟩ := call_free_eq_some hs
    obtain ⟨hf, ⟨hrc, huse⟩, -⟩ := freeOne_filed hd hi hl.filed ho hp hc
    refine ⟨hf, ?_⟩
    rw [hrc, huse, hcount, atomicDec, sub_eq_add_neg, Int.bmod_add_bmod, ← sub_eq_add_neg]

theorem reach_listed (hd : Sized d.num d.bufferSize)
    (hr : (cacheSystem d).Reach System.AnyStep h) : Listed d h.cache := by
  refine hr.invariant (I := fun h => Listed d h.cache) ?_
    fun s e t hr hl _ hs => call_listed hd (reach_inv hd hr) hl hs
  rintro _ ⟨colourNext, rfl⟩
  exact ⟨⟨by simp, by simp, by simp [Cache.onLists]⟩, rfl⟩

theorem Inv.inUse_nonneg (hi : Inv d h) : 0 ≤ h.cache.inUse := by
  refine List.sum_nonneg fun r hr => ?_
  obtain ⟨slab, hslab, rfl⟩ := List.mem_map.mp hr
  obtain ⟨k, hk⟩ := List.mem_iff_getElem?.mp hslab
  exact (hi.slabs k slab hk).refcount_bounds.1

theorem Listed.refcount_eq_iff (hl : Listed d h.cache) (hi : Inv d h) :
    h.cache.refcount = h.cache.inUse ↔ h.cache.inUse < 2 ^ 31 := by
  have hnonneg := hi.inUse_nonneg
  rw [hl.count]
  constructor
  · intro heq
    have hlt := Int.bmod_lt (x := h.cache.inUse) (m := 2 ^ 32) (by decide)
    omega
  · intro hlt
    exact Int.bmod_eq_of_le (by omega) (by omega)

/-- After any calls: a slab is on the one list that its reference count calls for, the cache counts
what its slabs count below `2 ^ 31`, and an allocation returns and grows a slab just when all are
full. -/
theorem bdsCache_lists (hd : Created cacheLine d)
    (hr : (cacheSystem d).Reach System.AnyStep h) :
    (∀ k slab, h.cache.slabs[k]? = some slab → h.cache.onLists k = slab.place d) ∧
    (∀ k, h.cache.slabs.length ≤ k → h.cache.onLists k = (0, 0, 0)) ∧
    (h.cache.refcount = (h.cache.slabs.map SlabDesc.refcount).sum ↔
      (h.cache.slabs.map SlabDesc.refcount).sum < 2 ^ 31) ∧
    ∀ pages, ∃ c o p, bdsCacheAlloc d pages 2 h.cache = some (c, o, p) ∧
      c.slabs.length = h.cache.slabs.length +
        if ∀ slab ∈ h.cache.slabs, slab.refcount = d.num then 1 else 0 := by
  have hi := reach_inv hd.sized hr
  have hl := reach_listed hd.sized hr
  have hf := hl.filed
  refine ⟨fun k slab hk => hf.place k slab hk not_false, fun k hk => (hf.beyond k hk).2,
    hl.refcount_eq_iff hi, fun pages => ?_⟩
  obtain ⟨c, o, p, ha, -⟩ := bdsCacheAlloc_spec hd.sized hi pages
  obtain ⟨-, c₁, k, hp, -, hlen, -⟩ := bdsCacheAlloc_filed hd.sized hi hf ha
  refine ⟨c, o, p, ha, ?_⟩
  rw [hlen]
  cases hp with
  | head hks =>
    rw [if_neg]
    · rfl
    · rw [← hf.full_iff hd.sized]
      simp [hks]
  | free hp hks =>
    rw [if_neg]
    · rfl
    · rw [← hf.full_iff hd.sized]
      simp [hks]
  | grow hp hfree =>
    rw [if_pos ((hf.full_iff hd.sized).mp ⟨hp, hfree⟩)]
    simp [bdsCacheGrow, setupSlabDesc]

/-- Objects of a page: two allocations, and a free from the full list to the free one. -/
theorem bdsCache_lists_page :
    ∃ d h, setupCacheDesc 64 ⟨0, 0, 0, 0, 0, false, 0, 0⟩ false 4096 = some d ∧ d.num = 1 ∧
      (cacheSystem d).run System.AnyStep ⟨⟨0, 0, 0, 0, [], [], [], []⟩, []⟩
        [.alloc 8192, .alloc 16384, .free ⟨0, 0⟩] = some h ∧
      h.cache.slabsFree = [0] ∧ h.cache.slabsFull = [1] ∧
      (∀ k slab, h.cache.slabs[k]? = some slab → h.cache.onLists k = slab.place d) ∧
      (∀ k, h.cache.slabs.length ≤ k → h.cache.onLists k = (0, 0, 0)) ∧
      (h.cache.refcount = (h.cache.slabs.map SlabDesc.refcount).sum ↔
        (h.cache.slabs.map SlabDesc.refcount).sum < 2 ^ 31) ∧
      ∀ pages, ∃ c o p, bdsCacheAlloc d pages 2 h.cache = some (c, o, p) ∧
        c.slabs.length = h.cache.slabs.length +
          if ∀ slab ∈ h.cache.slabs, slab.refcount = d.num then 1 else 0 := by
  have hd : ∃ d, setupCacheDesc 64 ⟨0, 0, 0, 0, 0, false, 0, 0⟩ false 4096 = some d ∧
      d.num = 1 ∧ ∃ h, (cacheSystem d).run System.AnyStep ⟨⟨0, 0, 0, 0, [], [], [], []⟩, []⟩
        [.alloc 8192, .alloc 16384, .free ⟨0, 0⟩] = some h ∧
        h.cache.slabsFree = [0] ∧ h.cache.slabsFull = [1] := ⟨_, rfl, rfl, _, rfl, rfl, rfl⟩
  obtain ⟨d, hsetup, hnum, h, hrun, hfree, hfull⟩ := hd
  exact ⟨d, h, hsetup, hnum, hrun, hfree, hfull,
    bdsCache_lists (.create (Or.inl (by norm_num)) hsetup) (.run (.init ⟨0, rfl⟩) hrun)⟩

theorem exists_reach_inUse (hd : Sized d.num d.bufferSize) (n : ℕ) :
    ∃ h, (cacheSystem d).Reach System.AnyStep h ∧ h.cache.inUse = n := by
  induction n with
  | zero => exact ⟨⟨⟨0, 0, 0, 0, [], [], [], []⟩, []⟩, .init ⟨0, rfl⟩, rfl⟩
  | succ n ih =>
    obtain ⟨h, hr, huse⟩ := ih
    have hi := reach_inv hd hr
    obtain ⟨c, o, p, ha, -⟩ := bdsCacheAlloc_spec hd hi 0
    obtain ⟨-, -, -, -, ⟨-, hone⟩, -⟩ := bdsCacheAlloc_filed hd hi (reach_listed hd hr).filed ha
    have hcall : call d h (.alloc 0) = some ⟨c, o :: h.live⟩ := by
      simp only [call, ha, Option.bind_eq_bind, Option.bind_some]
    refine ⟨_, .step (e := .alloc 0) hr trivial hcall, ?_⟩
    rw [hone, huse]
    rfl

/-- With `2 ^ 31` objects of 64 bytes the counter of the cache is negative. -/
theorem bdsCache_refcount_wraps :
    ∃ d h, setupCacheDesc 64 ⟨0, 0, 0, 0, 0, false, 0, 0⟩ false 64 = some d ∧
      (cacheSystem d).Reach System.AnyStep h ∧
      (h.cache.slabs.map SlabDesc.refcount).sum = 2 ^ 31 ∧ h.cache.refcount = -2 ^ 31 := by
  obtain ⟨d, hsetup⟩ :
      ∃ d, setupCacheDesc 64 ⟨0, 0, 0, 0, 0, false, 0, 0⟩ false 64 = some d := ⟨_, rfl⟩
  have hcreated : Created 64 d := .create (.inl (by norm_num)) hsetup
  have hd := hcreated.sized
  obtain ⟨h, hr, huse⟩ := exists_reach_inUse hd (2 ^ 31)
  refine ⟨d, h, hsetup, hr, huse, ?_⟩
  rw [(reach_listed hd hr).count, huse]
  decide

end Runs

end SeamlessStack.Slab
