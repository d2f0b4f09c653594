import SeamlessStack.Lib.Linked
import SeamlessStack.Slab.Cache

/-! The chain from `slab->free` through `bufctl[]` is always the complement of the objects handed
out. -/
namespace SeamlessStack.Slab
open Lib

def SlabDesc.next (slab : SlabDesc) (i : ℕ) : Option ℕ := slab.bufctl[i]?

/-- Following `bufctl` from `free` visits the unused indices, each once, and ends at `num`. -/
structure FreeChain (num : ℕ) (used : ℕ → Prop) (slab : SlabDesc) (l : List ℕ) : Prop where
  path : Linked slab.next slab.free l num
  nodup : l.Nodup
  mem_iff : ∀ i, i ∈ l ↔ i < num ∧ ¬ used i

variable {num : ℕ} {used : ℕ → Prop} {l : List ℕ}

theorem FreeChain.length_le {slab : SlabDesc} (h : FreeChain num used slab l) : l.length ≤ num := by
  have hsub : l ⊆ List.range num := fun i hi => List.mem_range.mpr ((h.mem_iff i).mp hi).1
  have hle := (h.nodup.subperm hsub).length_le
  rwa [List.length_range] at hle

theorem FreeChain.free_le {slab : SlabDesc} (h : FreeChain num used slab l) : slab.free ≤ num := by
  rcases h.path.start with hmem | ⟨-, he⟩
  · exact ((h.mem_iff _).mp hmem).1.le
  · exact he.le

theorem FreeChain.congr {used' : ℕ → Prop} {slab : SlabDesc} (h : FreeChain num used slab l)
    (hu : ∀ i, used i ↔ used' i) : FreeChain num used' slab l :=
  ⟨h.path, h.nodup, fun i => by rw [h.mem_iff, hu]⟩

/-- Allocation takes the first index off the chain. -/
theorem FreeChain.take {a : ℕ} {slab : SlabDesc} (h : FreeChain num used slab (a :: l))
    (refcount : ℤ) :
    slab.free = a ∧ a < num ∧ ¬ used a ∧ ∃ r, slab.bufctl[a]? = some r ∧
      FreeChain num (fun i => i = a ∨ used i) { slab with free := r, refcount } l := by
  obtain ⟨hfree, r, hr, hpath⟩ := h.path
  obtain ⟨hlt, hun⟩ := (h.mem_iff a).mp (by simp)
  obtain ⟨hal, hnodup⟩ := List.nodup_cons.mp h.nodup
  refine ⟨hfree, hlt, hun, r, hr, hpath, hnodup, fun i => ?_⟩
  have hi := h.mem_iff i
  rw [List.mem_cons] at hi
  constructor
  · intro hil
    have hne : i ≠ a := fun e => hal (e ▸ hil)
    obtain ⟨hlt, hun⟩ := hi.mp (Or.inr hil)
    exact ⟨hlt, by simp [hne, hun]⟩
  · rintro ⟨hlt, hun⟩
    rw [not_or] at hun
    exact (hi.mpr ⟨hlt, hun.2⟩).resolve_left hun.1

/-- Freeing puts an index back in front of the chain. -/
theorem FreeChain.give {a : ℕ} {slab : SlabDesc} (h : FreeChain num used slab l)
    (hlen : slab.bufctl.length = num) (hnum : num < 2 ^ 16)
    (ha : a < num) (hu : used a) (refcount : ℤ) :
    FreeChain num (fun i => i ≠ a ∧ used i)
      { slab with free := a, refcount, bufctl := slab.bufctl.set a (slab.free % 2 ^ 16) }
      (a :: l) := by
  have hal : a ∉ l := fun hm => ((h.mem_iff a).mp hm).2 hu
  have hmod : slab.free % 2 ^ 16 = slab.free := Nat.mod_eq_of_lt (h.free_le.trans_lt hnum)
  refine ⟨?_, List.nodup_cons.mpr ⟨hal, h.nodup⟩, fun i => ?_⟩
  · apply h.path.push
    · rw [hmod]
      simp [SlabDesc.next, hlen, ha]
    · intro b hb
      have hne : a ≠ b := fun e => hal (e ▸ hb)
      simp [SlabDesc.next, List.getElem?_set_ne hne]
  · rw [List.mem_cons, h.mem_iff]
    constructor
    · rintro (rfl | ⟨hlt, hun⟩)
      · exact ⟨ha, by simp⟩
      · exact ⟨hlt, fun hc => hun hc.2⟩
    · rintro ⟨hlt, hc⟩
      by_cases he : i = a
      · exact Or.inl he
      · exact Or.inr ⟨hlt, fun hun => hc ⟨he, hun⟩⟩

/-- The array that `__setup_slab_desc` writes links every index to its successor. -/
theorem freeChain_init (hnum : num < 2 ^ 16) (colourOffset sMem refcount : ℤ) :
    FreeChain num (fun _ => False)
      ⟨colourOffset, sMem, 0, refcount, (List.range num).map fun i => (i + 1) % 2 ^ 16⟩
      (List.range num) := by
  refine ⟨?_, List.nodup_range, by simp⟩
  have hfrom : ∀ m k, m + k = num → Linked
      (SlabDesc.next ⟨colourOffset, sMem, 0, refcount,
        (List.range num).map fun i => (i + 1) % 2 ^ 16⟩) m (List.range' m k) num := by
    intro m k
    induction k generalizing m with
    | zero => intro hm; simpa using hm
    | succ k ih =>
      intro hm
      refine ⟨rfl, m + 1, ?_, ih (m + 1) (by omega)⟩
      have hlt : m < num := by omega
      simp [SlabDesc.next, hlt]
      omega
  have hall := hfrom 0 num (by omega)
  rwa [← List.range_eq_range'] at hall

/-- Its free chain, and its reference count as the number of indices off the chain. -/
structure SlabOk (d : CacheDesc) (live : List Obj) (k : ℕ) (slab : SlabDesc) : Prop where
  len : slab.bufctl.length = d.num
  chain : ∃ l, FreeChain d.num (fun i => ⟨k, i⟩ ∈ live) slab l ∧
    (l.length : ℤ) + slab.refcount = d.num

theorem SlabOk.refcount_bounds {d : CacheDesc} {live : List Obj} {k : ℕ} {slab : SlabDesc}
    (h : SlabOk d live k slab) : 0 ≤ slab.refcount ∧ slab.refcount ≤ d.num := by
  obtain ⟨l, hl, hc⟩ := h.chain
  have := hl.length_le
  omega

theorem SlabOk.congr {d : CacheDesc} {live live' : List Obj} {k : ℕ} {slab : SlabDesc}
    (h : SlabOk d live k slab) (hl : ∀ i, ⟨k, i⟩ ∈ live ↔ ⟨k, i⟩ ∈ live') :
    SlabOk d live' k slab := by
  obtain ⟨l, hc, hn⟩ := h.chain
  exact ⟨h.len, l, hc.congr hl, hn⟩

def HasRoom (d : CacheDesc) (c : Cache) (k : ℕ) : Prop :=
  ∃ slab, c.slabs[k]? = some slab ∧ slab.refcount < d.num

/-- The lists that `bds_cache_alloc` takes a slab from hold only slabs with a free object. -/
structure ListsOk (d : CacheDesc) (c : Cache) : Prop where
  nodupPartial : c.slabsPartial.Nodup
  nodupFree : c.slabsFree.Nodup
  roomPartial : ∀ k ∈ c.slabsPartial, HasRoom d c k
  roomFree : ∀ k ∈ c.slabsFree, HasRoom d c k

structure Inv (d : CacheDesc) (h : Heap) : Prop where
  nodup : h.live.Nodup
  bound : ∀ o ∈ h.live, o.slab < h.cache.slabs.length ∧ o.index < d.num
  slabs : ∀ k slab, h.cache.slabs[k]? = some slab → SlabOk d h.live k slab
  lists : ListsOk d h.cache

variable {o : Obj} {p : ℤ}

section Steps
variable {d : CacheDesc} {c : Cache} {live live' : List Obj} {k : ℕ} {slab : SlabDesc}

/-- A full or an unlinked slab may be given any contents; one on a list must keep room. -/
theorem ListsOk.setSlab (h : ListsOk d c) (hk : k < c.slabs.length)
    (hr : slab.refcount < d.num ∨ k ∉ c.slabsPartial ∧ k ∉ c.slabsFree) :
    ListsOk d (c.setSlab k slab) := by
  have hroom : ∀ j, HasRoom d c j → j ≠ k ∨ slab.refcount < d.num →
      HasRoom d (c.setSlab k slab) j := by
    rintro j ⟨s, hs, hlt⟩ hj
    by_cases he : k = j
    · subst he
      exact ⟨slab, by simp [Cache.setSlab, hk], hj.resolve_left (fun hne => hne rfl)⟩
    · exact ⟨s, by simpa [Cache.setSlab, List.getElem?_set_ne he] using hs, hlt⟩
  refine ⟨h.nodupPartial, h.nodupFree, fun j hj => ?_, fun j hj => ?_⟩
  · exact hroom j (h.roomPartial j hj) (hr.symm.imp_left fun hn he => hn.1 (he ▸ hj))
  · exact hroom j (h.roomFree j hj) (hr.symm.imp_left fun hn he => hn.2 (he ▸ hj))

theorem ListsOk.bdsListDel (h : ListsOk d c) (k : ℕ) : ListsOk d (c.bdsListDel k) :=
  ⟨h.nodupPartial.erase k, h.nodupFree.erase k,
    fun j hj => h.roomPartial j (List.mem_of_mem_erase hj),
    fun j hj => h.roomFree j (List.mem_of_mem_erase hj)⟩

theorem ListsOk.not_mem_bdsListDel (h : ListsOk d c) (k : ℕ) :
    k ∉ (c.bdsListDel k).slabsPartial ∧ k ∉ (c.bdsListDel k).slabsFree :=
  ⟨h.nodupPartial.not_mem_erase, h.nodupFree.not_mem_erase⟩

theorem ListsOk.moveToPartial (h : ListsOk d c) (hr : HasRoom d c k) :
    ListsOk d (c.moveToPartial k) := by
  have hdel := h.bdsListDel k
  refine ⟨List.nodup_cons.mpr ⟨(h.not_mem_bdsListDel k).1, hdel.nodupPartial⟩, hdel.nodupFree,
    fun j hj => ?_, hdel.roomFree⟩
  rcases List.mem_cons.mp hj with rfl | hj
  · exact hr
  · exact hdel.roomPartial j hj

theorem ListsOk.moveToFree (h : ListsOk d c) (hr : HasRoom d c k) :
    ListsOk d (c.moveToFree k) := by
  have hdel := h.bdsListDel k
  refine ⟨hdel.nodupPartial, List.nodup_cons.mpr ⟨(h.not_mem_bdsListDel k).2, hdel.nodupFree⟩,
    hdel.roomPartial, fun j hj => ?_⟩
  rcases List.mem_cons.mp hj with rfl | hj
  · exact hr
  · exact hdel.roomFree j hj

theorem slabsOk_set (hs : ∀ j s, c.slabs[j]? = some s → SlabOk d live j s)
    (hnew : SlabOk d live' k slab)
    (hlive : ∀ j i, j ≠ k → ((⟨j, i⟩ : Obj) ∈ live ↔ (⟨j, i⟩ : Obj) ∈ live')) :
    ∀ j s, (c.slabs.set k slab)[j]? = some s → SlabOk d live' j s := by
  intro j s hj
  by_cases he : k = j
  · subst he
    rw [List.getElem?_set] at hj
    simp only [if_true] at hj
    split_ifs at hj
    exact Option.some.inj hj ▸ hnew
  · rw [List.getElem?_set_ne he] at hj
    exact (hs j s hj).congr fun i => hlive j i fun e => he e.symm

/-- Allocating from a slab with room hands out an object that was not handed out. -/
theorem allocFrom_spec (hd : Sized d.num d.bufferSize) (hi : Inv d ⟨c, live⟩)
    (hk : c.slabs[k]? = some slab) (hroom : slab.refcount < d.num) :
    ∃ c' o p, allocFrom d c k slab = some (c', o, p) ∧ o ∉ live ∧ c'.ptr d o = some p ∧
      Inv d ⟨c', o :: live⟩ := by
  have hslab := hi.slabs k slab hk
  obtain ⟨l, hchain, hcount⟩ := hslab.chain
  obtain ⟨hlow, -⟩ := hslab.refcount_bounds
  have hklt : k < c.slabs.length := (List.getElem?_eq_some_iff.mp hk).1
  cases l with
  | nil => simp only [List.length_nil] at hcount; omega
  | cons a l =>
    obtain ⟨hfree, halt, hun, r, hr, htake⟩ := hchain.take (slab.refcount + 1)
    set slab' : SlabDesc := { slab with free := r, refcount := slab.refcount + 1 } with hslab'
    have hlen : ((a :: l).length : ℤ) = l.length + 1 := by push_cast [List.length_cons]; ring
    have hok : SlabOk d (⟨k, a⟩ :: live) k slab' := by
      refine ⟨hslab.len, l, htake.congr fun i => ?_, ?_⟩
      · simp
      · simp only [hslab']
        omega
    have hslabs := slabsOk_set hi.slabs hok fun j i hj => by simp [hj]
    have hnodup : (⟨k, a⟩ :: live : List Obj).Nodup := List.nodup_cons.mpr ⟨hun, hi.nodup⟩
    have hbound : ∀ o ∈ (⟨k, a⟩ :: live : List Obj),
        o.slab < (c.slabs.set k slab').length ∧ o.index < d.num := by
      intro o ho
      rw [List.length_set]
      rcases List.mem_cons.mp ho with rfl | ho
      · exact ⟨hklt, halt⟩
      · exact hi.bound o ho
    have hptr : ∀ c' : Cache, c'.slabs = c.slabs.set k slab' →
        c'.ptr d ⟨k, a⟩ = some (slab.sMem + a * d.bufferSize) := by
      intro c' hc'
      simp [Cache.ptr, hc', hklt, hslab']
    have hval : (toUint (slab.refcount + 1) : ℤ) = slab.refcount + 1 :=
      toUint_eq (by omega) (by have := hd.le; omega)
    simp only [allocFrom, hfree, hr, Option.bind_eq_bind, Option.bind_some, ← hslab']
    split_ifs with hfull
    · refine ⟨_, _, _, rfl, hun, hptr _ rfl, hnodup, hbound, hslabs, ?_⟩
      have hl : ListsOk d ((c.bdsListDel k).setSlab k slab') :=
        (hi.lists.bdsListDel k).setSlab hklt (Or.inr (hi.lists.not_mem_bdsListDel k))
      exact ⟨hl.1, hl.2, hl.3, hl.4⟩
    · refine ⟨_, _, _, rfl, hun, hptr _ rfl, hnodup, hbound, hslabs, ?_⟩
      have hl : ListsOk d (c.setSlab k slab') :=
        hi.lists.setSlab hklt (Or.inl (show slab.refcount + 1 < (d.num : ℤ) by omega))
      exact ⟨hl.1, hl.2, hl.3, hl.4⟩

theorem HasRoom.alloc (hd : Sized d.num d.bufferSize) (hi : Inv d ⟨c, live⟩)
    (hr : HasRoom d c k) : ∃ slab, c.slabs[k]? = some slab ∧ slab.refcount < d.num ∧
      toUint slab.refcount < d.num := by
  obtain ⟨slab, hk, hlt⟩ := hr
  have hlow := (hi.slabs k slab hk).refcount_bounds.1
  have hval := toUint_eq hlow (by have := hd.le; omega)
  exact ⟨slab, hk, hlt, by omega⟩

/-- A grown slab has all its objects free and is at the head of the partial list. -/
theorem bdsCacheGrow_spec (hd : Sized d.num d.bufferSize) (hi : Inv d ⟨c, live⟩) (pages : ℤ) :
    Inv d ⟨bdsCacheGrow d pages c, live⟩ ∧
      (bdsCacheGrow d pages c).slabsPartial = c.slabs.length :: c.slabsPartial := by
  refine ⟨?_, rfl⟩
  have hunused : ∀ i, (⟨c.slabs.length, i⟩ : Obj) ∉ live := by
    intro i hm
    exact absurd (hi.bound _ hm).1 (lt_irrefl _)
  have hslabs : ∀ j s, (bdsCacheGrow d pages c).slabs[j]? = some s → SlabOk d live j s := by
    intro j s hj
    rcases lt_trichotomy j c.slabs.length with hlt | rfl | hgt
    · apply hi.slabs j s
      simpa [bdsCacheGrow, setupSlabDesc, List.getElem?_append_left hlt] using hj
    · simp only [bdsCacheGrow, setupSlabDesc, List.getElem?_concat_length, Option.some.injEq] at hj
      subst hj
      refine ⟨by simp, List.range d.num, ?_, by simp⟩
      exact (freeChain_init (hd.le.trans_lt (by norm_num)) _ _ _).congr fun i => by simp [hunused i]
    · simp only [bdsCacheGrow, setupSlabDesc] at hj
      rw [List.getElem?_eq_none (by simp; omega)] at hj
      cases hj
  have hroom : ∀ j, HasRoom d c j → HasRoom d (bdsCacheGrow d pages c) j := by
    rintro j ⟨s, hs, hlt⟩
    have hj : j < c.slabs.length := (List.getElem?_eq_some_iff.mp hs).1
    exact ⟨s, by simpa [bdsCacheGrow, setupSlabDesc, List.getElem?_append_left hj] using hs, hlt⟩
  have hfresh : c.slabs.length ∉ c.slabsPartial := by
    intro hm
    obtain ⟨s, hs, -⟩ := hi.lists.roomPartial _ hm
    exact absurd (List.getElem?_eq_some_iff.mp hs).1 (lt_irrefl _)
  refine ⟨hi.nodup, fun o ho => ?_, hslabs, ?_⟩
  · refine ⟨(hi.bound o ho).1.trans ?_, (hi.bound o ho).2⟩
    simp [bdsCacheGrow, setupSlabDesc]
  · refine ⟨List.nodup_cons.mpr ⟨hfresh, hi.lists.nodupPartial⟩, hi.lists.nodupFree,
      fun j hj => ?_, fun j hj => hroom j (hi.lists.roomFree j hj)⟩
    rcases List.mem_cons.mp hj with rfl | hj
    · refine ⟨_, List.getElem?_concat_length, ?_⟩
      have := hd.pos
      simpa using this
    · exact hroom j (hi.lists.roomPartial j hj)

/-- Two rounds of `bds_cache_alloc` are enough: the second one finds the slab the first
one grew. -/
theorem bdsCacheAlloc_spec (hd : Sized d.num d.bufferSize) (hi : Inv d ⟨c, live⟩) (pages : ℤ) :
    ∃ c' o p, bdsCacheAlloc d pages 2 c = some (c', o, p) ∧ o ∉ live ∧ c'.ptr d o = some p ∧
      Inv d ⟨c', o :: live⟩ := by
  have hpartial : ∀ c : Cache, ∀ fuel, Inv d ⟨c, live⟩ → c.slabsPartial ≠ [] →
      ∃ c' o p, bdsCacheAlloc d pages (fuel + 1) c = some (c', o, p) ∧ o ∉ live ∧
        c'.ptr d o = some p ∧ Inv d ⟨c', o :: live⟩ := by
    intro c fuel hi hne
    obtain ⟨k, ks, hks⟩ := List.exists_cons_of_ne_nil hne
    obtain ⟨slab, hk, hlt, hval⟩ := (hi.lists.roomPartial k (by simp [hks])).alloc hd hi
    obtain ⟨c', o, p, ha, hrest⟩ := allocFrom_spec hd hi hk hlt
    refine ⟨c', o, p, ?_, hrest⟩
    simp [bdsCacheAlloc, hks, hk, hval, ha]
  by_cases hp : c.slabsPartial = []
  · cases hf : c.slabsFree with
    | nil =>
      obtain ⟨hg, hgp⟩ := bdsCacheGrow_spec hd hi pages
      obtain ⟨c', o, p, ha, hrest⟩ := hpartial _ 0 hg (by simp [hgp])
      refine ⟨c', o, p, ?_, hrest⟩
      rw [bdsCacheAlloc, hp, hf]
      exact ha
    | cons k ks =>
      have hr := hi.lists.roomFree k (by simp [hf])
      have hi' : Inv d ⟨c.moveToPartial k, live⟩ :=
        ⟨hi.nodup, hi.bound, hi.slabs, hi.lists.moveToPartial hr⟩
      obtain ⟨slab, hk, hlt, hval⟩ := hr.alloc hd hi
      obtain ⟨c', o, p, ha, hrest⟩ := allocFrom_spec hd hi' hk hlt
      refine ⟨c', o, p, ?_, hrest⟩
      rw [bdsCacheAlloc, hp, hf]
      simp only [Option.bind_eq_bind]
      rw [show (c.moveToPartial k).slabs[k]? = some slab from hk, Option.bind_some, if_pos hval]
      exact ha
  · exact hpartial c 1 hi hp

theorem offset_of_ptr {size i : ℕ} (hb : size ≠ 0) (hi : i < num)
    (hfits : num * size ≤ 2 ^ 25) (sMem : ℤ) :
    ((sMem + i * size - sMem) % 2 ^ 64).toNat / size = i := by
  have hle : i * size ≤ 2 ^ 25 := (Nat.mul_le_mul_right size hi.le).trans hfits
  have hmod : (sMem + i * size - sMem) % 2 ^ 64 = ((i * size : ℕ) : ℤ) := by
    rw [add_sub_cancel_left, Int.emod_eq_of_lt (by positivity) (by norm_cast; omega)]
    push_cast
    rfl
  rw [hmod, Int.toNat_natCast]
  exact Nat.mul_div_cancel i (Nat.pos_of_ne_zero hb)

/-- Freeing an object that is handed out puts its index back on the chain of its slab. -/
theorem freeOne_spec (hd : Sized d.num d.bufferSize) (hi : Inv d ⟨c, live⟩)
    (ho : o ∈ live) (hb : d.bufferSize ≠ 0) (hp : c.ptr d o = some p) :
    ∃ c', freeOne d c o.slab p = some c' ∧ Inv d ⟨c', live.erase o⟩ := by
  obtain ⟨k, i⟩ := o
  obtain ⟨hklt, hilt⟩ := hi.bound _ ho
  obtain ⟨slab, hk, rfl⟩ := Option.map_eq_some_iff.mp hp
  have hslab := hi.slabs k slab hk
  obtain ⟨l, hchain, hcount⟩ := hslab.chain
  have hnum : d.num < 2 ^ 16 := hd.le.trans_lt (by norm_num)
  have hgive := hchain.give hslab.len hnum hilt ho (slab.refcount - 1)
  set slab' : SlabDesc := { slab with
    free := i
    refcount := slab.refcount - 1
    bufctl := slab.bufctl.set i (slab.free % 2 ^ 16) } with hslab'
  have hlen : ((i :: l).length : ℤ) = l.length + 1 := by push_cast [List.length_cons]; ring
  have hmem : ∀ o' : Obj, o' ∈ live.erase ⟨k, i⟩ ↔ o' ≠ ⟨k, i⟩ ∧ o' ∈ live := fun o' =>
    hi.nodup.mem_erase_iff
  have hok : SlabOk d (live.erase ⟨k, i⟩) k slab' := by
    refine ⟨by simp [hslab', hslab.len], i :: l, hgive.congr fun j => ?_, ?_⟩
    · rw [hmem]
      simp
    · rw [hlen]
      change (l.length : ℤ) + 1 + (slab.refcount - 1) = d.num
      omega
  have hslabs := slabsOk_set hi.slabs hok fun j a hj => by
    rw [hmem]
    simp [hj]
  have hbounds := hok.refcount_bounds
  have hlt : slab'.refcount < d.num := by
    have hle := hgive.length_le
    change slab.refcount - 1 < (d.num : ℤ)
    omega
  have hset : ListsOk d (c.setSlab k slab') := hi.lists.setSlab hklt (Or.inl hlt)
  have hroom : HasRoom d (c.setSlab k slab') k := ⟨slab', by simp [Cache.setSlab, hklt], hlt⟩
  have hoff : ((slab.sMem + i * d.bufferSize - slab.sMem) % 2 ^ 64).toNat / d.bufferSize = i :=
    offset_of_ptr hb hilt hd.fits slab.sMem
  have hkeep : ∀ c' : Cache, c'.slabs = c.slabs.set k slab' → ListsOk d c' →
      Inv d ⟨c', live.erase ⟨k, i⟩⟩ := by
    intro c' hc' hl
    refine ⟨hi.nodup.erase _, fun o ho => ?_, fun j s hj => hslabs j s (hc' ▸ hj), hl⟩
    have := hi.bound o ((hmem o).mp ho).2
    rwa [hc', List.length_set]
  simp only [freeOne, hk, Option.bind_eq_bind, Option.bind_some, if_neg hb, hoff, hslab.len,
    if_pos hilt, ← hslab']
  refine ⟨_, rfl, hkeep _ ?_ ?_⟩
  · split_ifs <;> rfl
  · have hone : ListsOk d { c.setSlab k slab' with refcount := atomicDec c.refcount } :=
      ⟨hset.1, hset.2, hset.3, hset.4⟩
    split_ifs
    · have hl := (hone.moveToPartial hroom).moveToFree hroom
      exact ⟨hl.1, hl.2, hl.3, hl.4⟩
    · have hl := hone.moveToFree hroom
      exact ⟨hl.1, hl.2, hl.3, hl.4⟩
    · exact hone.moveToPartial hroom
    · exact hone

end Steps

variable {h : Heap}

theorem Inv.alloc {d : CacheDesc} (hd : Sized d.num d.bufferSize) (hi : Inv d h)
    {pages : ℤ} {c : Cache} (ha : bdsCacheAlloc d pages 2 h.cache = some (c, o, p)) :
    Inv d ⟨c, o :: h.live⟩ ∧ o ∉ h.live := by
  obtain ⟨c', o', p', ha', hfresh, -, hinv⟩ := bdsCacheAlloc_spec hd hi pages
  obtain ⟨rfl, rfl, rfl⟩ : c' = c ∧ o' = o ∧ p' = p := by simpa [ha'] using ha
  exact ⟨hinv, hfresh⟩

theorem Inv.free {d : CacheDesc} (hd : Sized d.num d.bufferSize) (hi : Inv d h)
    {c : Cache} (ho : o ∈ h.live) (hp : h.cache.ptr d o = some p)
    (hc : freeOne d h.cache o.slab p = some c) : Inv d ⟨c, h.live.erase o⟩ := by
  have hb : d.bufferSize ≠ 0 := by
    intro hz
    simp only [freeOne, hz, if_true, Option.bind_eq_bind] at hc
    obtain ⟨s, -, hn⟩ := Option.bind_eq_some_iff.mp hc
    cases hn
  obtain ⟨c₂, hc₂, hinv⟩ := freeOne_spec hd hi ho hb hp
  rw [hc] at hc₂
  exact Option.some.inj hc₂ ▸ hinv

theorem call_free_eq_some {d : CacheDesc} {h' : Heap} (hs : call d h (.free o) = some h') :
    o ∈ h.live ∧ ∃ p c, h.cache.ptr d o = some p ∧ freeOne d h.cache o.slab p = some c ∧
      h' = ⟨c, h.live.erase o⟩ := by
  simp only [call, Option.bind_eq_bind] at hs
  split_ifs at hs with ho
  obtain ⟨p, hp, hs⟩ := Option.bind_eq_some_iff.mp hs
  obtain ⟨⟨c, r⟩, hc, hs⟩ := Option.bind_eq_some_iff.mp hs
  obtain ⟨c', hc', he⟩ := Option.map_eq_some_iff.mp hc
  obtain ⟨rfl, rfl⟩ := Prod.mk.inj he
  exact ⟨ho, p, c', hp, hc', (Option.some.inj hs).symm⟩

theorem call_inv {d : CacheDesc} (hd : Sized d.num d.bufferSize) {h' : Heap} {e : Call}
    (hi : Inv d h) (hs : call d h e = some h') : Inv d h' := by
  cases e with
  | alloc pages =>
    simp only [call, Option.bind_eq_bind] at hs
    obtain ⟨⟨c, o, p⟩, ha, hs⟩ := Option.bind_eq_some_iff.mp hs
    exact Option.some.inj hs ▸ (hi.alloc hd ha).1
  | free o =>
    obtain ⟨ho, p, c, hp, hc, rfl⟩ := call_free_eq_some hs
    exact hi.free hd ho hp hc

theorem reach_inv {d : CacheDesc} (hd : Sized d.num d.bufferSize)
    (hr : (cacheSystem d).Reach System.AnyStep h) : Inv d h := by
  refine hr.invariant ?_ fun s e t _ hi _ hs => call_inv hd hi hs
  rintro _ ⟨colourNext, rfl⟩
  exact ⟨by simp, by simp, by simp, by simp, by simp, by simp, by simp⟩

/-- After any calls: an allocation returns, and never an object that is handed out; a free of such
an object returns unless objects have size zero; and the free chain of every slab is the complement
of what is handed out. -/
theorem bdsCache_freeChain {cacheLine : ℕ} {d : CacheDesc} (hd : Created cacheLine d)
    (hr : (cacheSystem d).Reach System.AnyStep h) :
    (∀ pages, ∃ c o p, bdsCacheAlloc d pages 2 h.cache = some (c, o, p) ∧
      c.ptr d o = some p ∧ o.index < d.num ∧ o ∉ h.live) ∧
    (∀ o ∈ h.live, d.bufferSize ≠ 0 → ∃ h', call d h (.free o) = some h') ∧
    ∀ k slab, h.cache.slabs[k]? = some slab → ∃ l, Linked slab.next slab.free l d.num ∧
      l.Nodup ∧ ∀ i, i ∈ l ↔ i < d.num ∧ ⟨k, i⟩ ∉ h.live := by
  have hi := reach_inv hd.sized hr
  refine ⟨fun pages => ?_, fun o ho hb => ?_, fun k slab hk => ?_⟩
  · obtain ⟨c, o, p, ha, hfresh, hp, hinv⟩ := bdsCacheAlloc_spec hd.sized hi pages
    exact ⟨c, o, p, ha, hp, (hinv.bound o (by simp)).2, hfresh⟩
  · have hlt := (hi.bound o ho).1
    have hp : h.cache.ptr d o = some (h.cache.slabs[o.slab].sMem + o.index * d.bufferSize) := by
      simp [Cache.ptr, hlt]
    obtain ⟨c', hc', -⟩ := freeOne_spec hd.sized hi ho hb hp
    refine ⟨⟨c', h.live.erase o⟩, ?_⟩
    simp [call, ho, hp, bdsCacheFree, hc']
  · obtain ⟨l, hl, -⟩ := (hi.slabs k slab hk).chain
    exact ⟨l, hl.path, hl.nodup, hl.mem_iff⟩

/-- A cache of 1024-byte objects, four to a page, after two allocations and a free. -/
theorem bdsCache_freeChain_kilobyte :
    ∃ d h, setupCacheDesc 64 ⟨0, 0, 0, 0, 0, false, 0, 0⟩ false 1024 = some d ∧
      (cacheSystem d).run System.AnyStep ⟨⟨0, 0, 0, 0, [], [], [], []⟩, []⟩
        [.alloc 8192, .alloc 8192, .free ⟨0, 0⟩] = some h ∧ h.live = [⟨0, 1⟩] ∧
      (∀ pages, ∃ c o p, bdsCacheAlloc d pages 2 h.cache = some (c, o, p) ∧
        c.ptr d o = some p ∧ o.index < d.num ∧ o ∉ h.live) ∧
      (∀ o ∈ h.live, d.bufferSize ≠ 0 → ∃ h', call d h (.free o) = some h') ∧
      ∀ k slab, h.cache.slabs[k]? = some slab → ∃ l, Linked slab.next slab.free l d.num ∧
        l.Nodup ∧ ∀ i, i ∈ l ↔ i < d.num ∧ ⟨k, i⟩ ∉ h.live := by
  have hd : ∃ d, setupCacheDesc 64 ⟨0, 0, 0, 0, 0, false, 0, 0⟩ false 1024 = some d ∧
      d = ⟨4, 0, 4096, 112, 1024, true, 0, 0⟩ := ⟨_, rfl, rfl⟩
  obtain ⟨d, hsetup, rfl⟩ := hd
  refine ⟨_, _, hsetup, rfl, rfl, ?_⟩
  apply bdsCache_freeChain (.create (Or.inl (by norm_num)) hsetup)
  exact System.Reach.run (System.Reach.init ⟨0, rfl⟩)
    (show (cacheSystem _).run System.AnyStep _ [.alloc 8192, .alloc 8192, .free ⟨0, 0⟩] =
      some _ from rfl)

end SeamlessStack.Slab
