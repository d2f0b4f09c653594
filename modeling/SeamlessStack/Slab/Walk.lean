import SeamlessStack.Slab.Search

/-! The search of `bds_cache_free` with management on the slabs: from the page of the object
back to one that starts with the magic number of a slab descriptor, which a user may also have
stored there. -/
namespace SeamlessStack.Slab
open Lib

def slabMagic : ℕ := 0xdeadbeef

def magicByte (i : ℕ) : BitVec 8 := BitVec.ofNat 8 (slabMagic >>> (8 * i))

def wordAt (m : ℤ → BitVec 8) (a : ℤ) : ℕ :=
  (m a).toNat + 2 ^ 8 * (m (a + 1)).toNat + 2 ^ 16 * (m (a + 2)).toNat +
    2 ^ 24 * (m (a + 3)).toNat

def pageStart (a : ℤ) : ℤ := a - a % pageSize

/-- The loop of `bds_cache_free`, with the addresses it reads. -/
def walkBack (m : ℤ → BitVec 8) : ℕ → ℤ → Option (ℤ × List ℤ)
  | 0, _ => none
  | fuel + 1, iter =>
    if wordAt m iter = slabMagic then some (iter, [iter])
    else (walkBack m fuel (iter - pageSize)).map fun r => (r.1, iter :: r.2)

def Cache.offsetIn (d : CacheDesc) (c : Cache) (o : Obj) (a : ℤ) : Option ℕ :=
  (c.ptr d o).bind fun p => if p ≤ a ∧ a < p + d.bufferSize then some (a - p).toNat else none

def Cache.magicAt (d : CacheDesc) (c : Cache) (a : ℤ) (k : ℕ) : Option (BitVec 8) :=
  c.slabs[k]?.bind fun slab =>
    if slab.pages d ≤ a ∧ a < slab.pages d + 4 then some (magicByte (a - slab.pages d).toNat)
    else none

/-- What users stored in their objects, the magic numbers of the slabs, and other bytes. -/
def Heap.memory (d : CacheDesc) (h : Heap) (user : Obj → ℕ → BitVec 8) (rest : ℤ → BitVec 8)
    (a : ℤ) : BitVec 8 :=
  match h.live.findSome? fun o => (h.cache.offsetIn d o a).map (user o) with
  | some b => b
  | none => (h.cache.linked.findSome? (h.cache.magicAt d a)).getD (rest a)

inductive HeapEvent
  | call (e : Call)
  | collect (threshold linger : ℕ)
  deriving DecidableEq, Repr

/-- Runs of calls and of visits of the collector, where every free found the slab of its
object. -/
def heapSystem (d : CacheDesc) : System Heap HeapEvent where
  init h := ∃ colourNext, h = ⟨⟨colourNext, 0, 0, 0, [], [], [], []⟩, []⟩
  step h
    | .call e => call d h e
    | .collect threshold linger => do
      let c ← (collectCache threshold linger h.cache).toOption
      some ⟨c, h.live⟩

/-- `mmap` returns the start of a page. -/
def PageMapped (_ : Heap) : HeapEvent → Prop
  | .call (.alloc pages) => pages % pageSize = 0
  | _ => True

instance (h : Heap) (e : HeapEvent) : Decidable (PageMapped h e) :=
  match e with
  | .call (.alloc _) => inferInstanceAs (Decidable (_ = _))
  | .call (.free _) => inferInstanceAs (Decidable True)
  | .collect _ _ => inferInstanceAs (Decidable True)

/-- The search from `p` comes to the descriptor of the slab, over pages of the slab only. -/
def FindsSlab (d : CacheDesc) (m : ℤ → BitVec 8) (slab : SlabDesc) (p : ℤ) : Prop :=
  ∃ fuel reads, walkBack m fuel (pageStart p) = some (slab.pages d, reads) ∧
    ∀ a ∈ reads, slab.Covers d a

/-- No page of the slab after the first one, up to the page of `p`, starts with the magic
number. -/
def NoStray (d : CacheDesc) (m : ℤ → BitVec 8) (slab : SlabDesc) (p : ℤ) : Prop :=
  ∀ a, slab.pages d < a → a ≤ p → a % pageSize = 0 → wordAt m a ≠ slabMagic

/-- The object is on the pages of its slab, the descriptor has its magic number, and no other page
up to the object starts with it. -/
structure Traceable (d : CacheDesc) (m : ℤ → BitVec 8) (slab : SlabDesc) (p : ℤ) : Prop where
  covers : slab.Covers d p
  intact : wordAt m (slab.pages d) = slabMagic
  noStray : NoStray d m slab p

section Walk
variable {d : CacheDesc} {m : ℤ → BitVec 8} {Q : ℤ → Prop} {iter base p : ℤ} {slab : SlabDesc}

/-- The walk ends at the first page on its way that starts with the magic number. -/
theorem walkBack_iff :
    (∃ fuel reads, walkBack m fuel iter = some (base, reads) ∧ ∀ a ∈ reads, Q a) ↔
    ∃ n : ℕ, base = iter - n * pageSize ∧ wordAt m base = slabMagic ∧
      (∀ j < n, wordAt m (iter - j * pageSize) ≠ slabMagic) ∧
      ∀ j ≤ n, Q (iter - j * pageSize) := by
  constructor
  · rintro ⟨fuel, reads, hw, hQ⟩
    induction fuel generalizing iter reads with
    | zero => cases hw
    | succ fuel ih =>
      unfold walkBack at hw
      split_ifs at hw with hmagic
      · obtain ⟨rfl, rfl⟩ := Prod.mk.inj (Option.some.inj hw)
        refine ⟨0, by simp, hmagic, by simp, ?_⟩
        intro j hj
        obtain rfl := Nat.le_zero.mp hj
        simpa using hQ
      · obtain ⟨⟨base', reads'⟩, hrec, he⟩ := Option.map_eq_some_iff.mp hw
        obtain ⟨rfl, rfl⟩ := Prod.mk.inj he
        obtain ⟨n, hbase, hend, hbefore, hread⟩ := ih reads' hrec
          (fun a ha => hQ a (List.mem_cons_of_mem _ ha))
        -- one page more at the start
        have hshift : ∀ j : ℕ, iter - pageSize - j * pageSize =
            iter - ((j + 1 : ℕ) : ℤ) * pageSize := by
          intro j
          push_cast
          ring
        refine ⟨n + 1, by rw [← hshift]; exact hbase, hend, ?_, ?_⟩
        · intro j hj
          cases j with
          | zero => simpa using hmagic
          | succ j =>
            rw [← hshift]
            exact hbefore j (by omega)
        · intro j hj
          cases j with
          | zero => simpa using hQ iter List.mem_cons_self
          | succ j =>
            rw [← hshift]
            exact hread j (by omega)
  · rintro ⟨n, hbase, hend, hbefore, hread⟩
    induction n generalizing iter with
    | zero =>
      have hiter : base = iter := by simpa using hbase
      subst hiter
      refine ⟨1, [base], by simp [walkBack, hend], ?_⟩
      simpa using hread 0 le_rfl
    | succ n ih =>
      have hshift : ∀ j : ℕ, iter - pageSize - j * pageSize =
          iter - ((j + 1 : ℕ) : ℤ) * pageSize := by
        intro j
        push_cast
        ring
      obtain ⟨fuel, reads, hw, hQ⟩ := ih (by rw [hshift]; exact hbase)
        (fun j hj => by rw [hshift]; exact hbefore (j + 1) (by omega))
        (fun j hj => by rw [hshift]; exact hread (j + 1) (by omega))
      have hfirst : wordAt m iter ≠ slabMagic := by simpa using hbefore 0 (Nat.succ_pos n)
      refine ⟨fuel + 1, iter :: reads, by simp [walkBack, hfirst, hw], ?_⟩
      intro a ha
      rcases List.mem_cons.mp ha with rfl | ha
      · simpa using hread 0 (Nat.zero_le _)
      · exact hQ a ha

/-- The walk ends at the descriptor of the slab just when nothing on its way looks like one. -/
theorem findsSlab_iff (halign : slab.pages d % pageSize = 0) :
    FindsSlab d m slab p ↔ Traceable d m slab p := by
  have hpage : (pageSize : ℤ) = 4096 := rfl
  obtain ⟨bytes, hbytes⟩ : ∃ bytes : ℤ, bytes = (pageSize <<< d.pageOrder : ℕ) := ⟨_, rfl⟩
  have hwhole : bytes % 4096 = 0 := by
    rw [hbytes, Nat.shiftLeft_eq, Nat.cast_mul, hpage]
    exact Int.mul_emod_right _ _
  have hcovers : ∀ a, slab.Covers d a ↔ slab.pages d ≤ a ∧ a < slab.pages d + bytes := by
    intro a
    rw [hbytes]
    exact Iff.rfl
  unfold FindsSlab pageStart
  rw [walkBack_iff]
  simp only [hcovers]
  rw [hpage] at halign ⊢
  constructor
  · rintro ⟨n, hbase, hend, hbefore, hread⟩
    have hfirst := hread 0 (Nat.zero_le n)
    refine ⟨(hcovers p).mpr ?_, hend, ?_⟩
    · omega
    · intro a hlo hhi ha
      rw [hpage] at ha
      have hj : a = p - p % 4096 - (((p - p % 4096 - a) / 4096).toNat : ℤ) * 4096 := by omega
      rw [hj]
      exact hbefore _ (by omega)
  · rintro ⟨hcov, hintact, hstray⟩
    rw [hcovers] at hcov
    refine ⟨((p - p % 4096 - slab.pages d) / 4096).toNat, ?_, hintact, ?_, ?_⟩
    · omega
    · intro j hj
      apply hstray
      · omega
      · omega
      · rw [hpage]
        omega
    · intro j hj
      omega

end Walk

section Memory
variable {d : CacheDesc} {h : Heap} {user : Obj → ℕ → BitVec 8} {rest : ℤ → BitVec 8}
  {slab : SlabDesc} {p a : ℤ} {k : ℕ}

theorem wordAt_magic {m : ℤ → BitVec 8} (hm : ∀ i < 4, m (a + (i : ℕ)) = magicByte i) :
    wordAt m a = slabMagic := by
  have h0 := hm 0 (by norm_num)
  have h1 := hm 1 (by norm_num)
  have h2 := hm 2 (by norm_num)
  have h3 := hm 3 (by norm_num)
  push_cast at h0 h1 h2 h3
  rw [add_zero] at h0
  rw [wordAt, h0, h1, h2, h3]
  decide

theorem four_le_bytes (o : ℕ) : (4 : ℤ) ≤ (pageSize <<< o : ℕ) := by
  have hpos : 1 ≤ 2 ^ o := Nat.one_le_two_pow
  rw [Nat.shiftLeft_eq]
  unfold pageSize
  push_cast
  exact_mod_cast (by omega : 4 ≤ 4096 * 2 ^ o)

/-- No object is where the magic number of a slab is. -/
theorem offsetIn_pages (hd : Sized d.num d.bufferSize) (hk : Kept d h.cache h.live)
    (hmgmt : 4 ≤ d.header) (harr : Arranged d h.cache) (hlinked : k ∈ h.cache.linked)
    (hslab : h.cache.slabs[k]? = some slab) {o : Obj} (ho : o ∈ h.live) {i : ℕ} (hi : i < 4) :
    h.cache.offsetIn d o (slab.pages d + i) = none := by
  cases hp : h.cache.ptr d o with
  | none => simp [Cache.offsetIn, hp]
  | some p =>
    obtain ⟨slab', hslab', rfl⟩ := Option.map_eq_some_iff.mp hp
    have hmem := hk.mem_linked hd ho hslab'
    obtain ⟨hlo, hhi⟩ := harr.inside _ hmem slab' hslab' _ (hk.inv.bound o ho).2
    have hout : ¬ (slab'.sMem + o.index * d.bufferSize ≤ slab.pages d + i ∧
        slab.pages d + i < slab'.sMem + o.index * d.bufferSize + d.bufferSize) := by
      have hroom := four_le_bytes d.pageOrder
      by_cases he : o.slab = k
      · rw [he] at hslab'
        obtain rfl := Option.some.inj (hslab.symm.trans hslab')
        omega
      · have hapart := harr.apart _ hmem k hlinked he slab' hslab' slab hslab
        unfold SlabDesc.Apart at hapart
        omega
    simp [Cache.offsetIn, hp, hout]

/-- The magic number of a slab on the lists is in memory. -/
theorem memory_magic (hd : Sized d.num d.bufferSize) (hk : Kept d h.cache h.live)
    (hmgmt : 4 ≤ d.header) (harr : Arranged d h.cache) (hlinked : k ∈ h.cache.linked)
    (hslab : h.cache.slabs[k]? = some slab) :
    wordAt (h.memory d user rest) (slab.pages d) = slabMagic := by
  refine wordAt_magic fun i hi => ?_
  have hlive : (h.live.findSome? fun o =>
      (h.cache.offsetIn d o (slab.pages d + i)).map (user o)) = none := by
    refine List.findSome?_eq_none_iff.mpr fun o ho => ?_
    rw [offsetIn_pages hd hk hmgmt harr hlinked hslab ho hi]
    rfl
  have hhere : h.cache.magicAt d (slab.pages d + i) k = some (magicByte i) := by
    have hin : slab.pages d ≤ slab.pages d + i ∧ slab.pages d + i < slab.pages d + 4 := by omega
    simp [Cache.magicAt, hslab, hin]
  have hfound : h.cache.linked.findSome? (h.cache.magicAt d (slab.pages d + i)) =
      some (magicByte i) := by
    cases hfind : h.cache.linked.findSome? (h.cache.magicAt d (slab.pages d + i)) with
    | none =>
      have hnone := List.findSome?_eq_none_iff.mp hfind k hlinked
      rw [hhere] at hnone
      cases hnone
    | some b =>
      obtain ⟨j, hj, hb⟩ := List.exists_of_findSome?_eq_some hfind
      by_cases he : j = k
      · rw [← hb, he, hhere]
      · -- the magic number of another slab is on pages of its own
        obtain ⟨slab', hslab', hb⟩ := Option.bind_eq_some_iff.mp hb
        have hapart := harr.apart j hj k hlinked he slab' hslab' slab hslab
        have hroom := four_le_bytes d.pageOrder
        unfold SlabDesc.Apart at hapart
        split_ifs at hb
        omega
  simp [Heap.memory, hlive, hfound]

end Memory

/-- Every slab starts at the start of a page. -/
structure Paged (d : CacheDesc) (h : Heap) : Prop where
  kept : Kept d h.cache h.live
  aligned : ∀ slab ∈ h.cache.slabs, slab.pages d % pageSize = 0

section Runs
variable {d : CacheDesc} {h h' : Heap} {e : HeapEvent}

theorem Paged.alloc (hd : Sized d.num d.bufferSize) (hp : Paged d h) {pages p : ℤ} {c : Cache}
    {o : Obj} (hpages : pages % pageSize = 0)
    (ha : bdsCacheAlloc d pages 2 h.cache = some (c, o, p)) : Paged d ⟨c, o :: h.live⟩ := by
  refine ⟨hp.kept.alloc hd ha, ?_⟩
  obtain ⟨c₁, k, slab, hpick, -, hk, -, -, ha⟩ := bdsCacheAlloc_picked hd hp.kept.inv ha
  have halign : ∀ s ∈ c₁.slabs, s.pages d % pageSize = 0 := by
    cases hpick with
    | head _ | free _ _ => exact hp.aligned
    | grow _ _ =>
      obtain ⟨new, hslabs, hnew, -⟩ : ∃ new : SlabDesc,
          (setupSlabDesc d pages h.cache).slabs = h.cache.slabs ++ [new] ∧
            new.pages d = pages ∧ new.colourOffset = h.cache.colourNext := setupSlabDesc_pages
      intro s hs
      rw [bdsCacheGrow, hslabs, List.mem_append, List.mem_singleton] at hs
      obtain hs | rfl := hs
      · exact hp.aligned s hs
      · rw [hnew]
        exact hpages
  obtain ⟨next, -, -, -, rfl⟩ := allocFrom_eq_some ha
  have hset : ∀ s ∈ c₁.slabs.set k { slab with free := next, refcount := slab.refcount + 1 },
      s.pages d % pageSize = 0 :=
    forall_mem_set halign (halign slab (List.mem_of_getElem? hk))
  dsimp only
  split_ifs
  · exact hset
  · exact hset

theorem Paged.step (hd : Sized d.num d.bufferSize) (hp : Paged d h) (hg : PageMapped h e)
    (hs : (heapSystem d).step h e = some h') : Paged d h' := by
  cases e with
  | call e =>
    cases e with
    | alloc pages =>
      obtain ⟨⟨c, o, p⟩, ha, hs⟩ := Option.bind_eq_some_iff.mp hs
      obtain rfl := Option.some.inj hs
      exact hp.alloc hd hg ha
    | free o =>
      obtain ⟨ho, p, c, hptr, hone, rfl⟩ := call_free_eq_some hs
      refine ⟨hp.kept.free hd ho hptr hone, ?_⟩
      obtain ⟨slab, hslab, hset⟩ := freeOne_slabs hone
      dsimp only
      rw [hset]
      exact forall_mem_set hp.aligned (hp.aligned slab (List.mem_of_getElem? hslab))
  | collect threshold linger =>
    obtain ⟨c, hc, hs⟩ := Option.bind_eq_some_iff.mp hs
    obtain rfl := Option.some.inj hs
    have hcol := toOption_eq_some.mp hc
    refine ⟨hp.kept.collect hd hcol, ?_⟩
    obtain ⟨taken, rest, -, rfl⟩ := collectCache_cases hcol
    exact hp.aligned

theorem reach_paged (hd : Sized d.num d.bufferSize)
    (hr : (heapSystem d).Reach PageMapped h) : Paged d h := by
  refine hr.invariant (I := Paged d) ?_ fun _ _ _ _ hp hg hs => hp.step hd hg hs
  rintro _ ⟨colourNext, rfl⟩
  exact ⟨kept_init colourNext, by simp⟩

end Runs

theorem Created.mgmtSize_ge {cacheLine : ℕ} {d : CacheDesc} (h : Created cacheLine d) :
    4 ≤ d.mgmtSize := by
  cases h with
  | init => exact show 4 ≤ 128 by norm_num
  | create _ h =>
    simp only [setupCacheDesc, Option.bind_eq_bind, Option.bind_eq_some_iff] at h
    obtain ⟨_, -, h⟩ := h
    split_ifs at h
    all_goals
      obtain rfl := Option.some.inj h
      simp only [sizeofSlabDesc]
      omega

/-- Whatever users have stored, the search comes to the descriptor of the slab, over pages of the
slab, just when the object can be traced; where the slabs are arranged, when no page on the way
starts with the magic number. -/
theorem bdsCacheFree_finds_iff {cacheLine : ℕ} {d : CacheDesc} {h : Heap}
    (hd : Created cacheLine d) (hon : d.offSlab = false)
    (hr : (heapSystem d).Reach PageMapped h) (user : Obj → ℕ → BitVec 8) (rest : ℤ → BitVec 8)
    {o : Obj} (ho : o ∈ h.live) {slab : SlabDesc} (hslab : h.cache.slabs[o.slab]? = some slab)
    {p : ℤ} (hp : h.cache.ptr d o = some p) :
    (FindsSlab d (h.memory d user rest) slab p ↔ Traceable d (h.memory d user rest) slab p) ∧
    (Arranged d h.cache → d.bufferSize ≠ 0 →
      (Traceable d (h.memory d user rest) slab p ↔ NoStray d (h.memory d user rest) slab p)) := by
  have hpaged := reach_paged hd.sized hr
  refine ⟨findsSlab_iff (hpaged.aligned slab (List.mem_of_getElem? hslab)), ?_⟩
  intro harr hb
  refine ⟨fun ht => ht.noStray, fun hstray => ?_⟩
  have hlinked : o.slab ∈ h.cache.linked := by
    obtain hm | hm := hpaged.kept.mem_searched hd.sized ho hslab <;> simp [Cache.linked, hm]
  have hmgmt : 4 ≤ d.header := by
    simpa [CacheDesc.header, hon] using hd.mgmtSize_ge
  have hobj : p = slab.sMem + o.index * d.bufferSize := by
    obtain ⟨slab₂, hslab₂, rfl⟩ := Option.map_eq_some_iff.mp hp
    obtain rfl := Option.some.inj (hslab.symm.trans hslab₂)
    rfl
  have hindex := (hpaged.kept.inv.bound o ho).2
  refine ⟨?_, memory_magic hd.sized hpaged.kept hmgmt harr hlinked hslab, hstray⟩
  rw [hobj]
  exact (spans_ptr hindex).covers hd.sized.pos hb (harr.inside _ hlinked slab hslab)

/-- Objects of 500 bytes, sixteen on two pages: nine of them are handed out. -/
def nineObjects : Heap where
  cache :=
    { colourNext := 0
      refcount := 9
      freeSlabCount := 0
      totalSlabCount := 1
      slabs := [⟨0, 8328, 9, 9, [1, 2, 3, 4, 5, 6, 7, 8, 9, 10, 11, 12, 13, 14, 15, 16]⟩]
      slabsPartial := [0]
      slabsFull := []
      slabsFree := [] }
  live := [⟨0, 8⟩, ⟨0, 7⟩, ⟨0, 6⟩, ⟨0, 5⟩, ⟨0, 4⟩, ⟨0, 3⟩, ⟨0, 2⟩, ⟨0, 1⟩, ⟨0, 0⟩]

theorem nineObjects_reached : (heapSystem ⟨16, 1, 8192, 136, 500, false, 0, 0⟩).Reach PageMapped
    nineObjects := by
  have hrun : (heapSystem ⟨16, 1, 8192, 136, 500, false, 0, 0⟩).run PageMapped
      ⟨⟨0, 0, 0, 0, [], [], [], []⟩, []⟩ (List.replicate 9 (.call (.alloc 8192))) =
        some nineObjects := by decide +kernel
  exact .run (.init ⟨0, rfl⟩) hrun

theorem nineObjects_created : Created 64 ⟨16, 1, 8192, 136, 500, false, 0, 0⟩ := by
  have hsetup : setupCacheDesc 64 ⟨0, 0, 0, 0, 0, false, 0, 0⟩ false 500 =
      some ⟨16, 1, 8192, 136, 500, false, 0, 0⟩ := by decide +kernel
  exact .create (Or.inl (by norm_num)) hsetup

/-- With zeros in all objects, the object on the second page finds its slab. -/
theorem bdsCacheFree_finds_iff_zeros :
    ∃ slab, nineObjects.cache.slabs[0]? = some slab ∧
      FindsSlab ⟨16, 1, 8192, 136, 500, false, 0, 0⟩
        (nineObjects.memory ⟨16, 1, 8192, 136, 500, false, 0, 0⟩ (fun _ _ => 0) fun _ => 0)
        slab 12328 := by
  refine ⟨_, rfl, ?_⟩
  obtain ⟨hfinds, htrace⟩ := bdsCacheFree_finds_iff nineObjects_created rfl nineObjects_reached
    (fun _ _ => 0) (fun _ => 0) (o := ⟨0, 8⟩) (by decide) rfl (p := 12328) rfl
  rw [hfinds, htrace (by decide +kernel) (by decide)]
  intro a hlo hhi ha
  have hpage : a = 12288 := by
    change 8192 < a at hlo
    change a % 4096 = 0 at ha
    omega
  rw [hpage]
  decide +kernel

def strayMagic (o : Obj) (i : ℕ) : BitVec 8 :=
  if o = ⟨0, 7⟩ ∧ 460 ≤ i ∧ i < 464 then magicByte (i - 460) else 0

/-- The search for the slab of the next object then stops in the middle of the slab. -/
theorem bdsCacheFree_stray_magic :
    Created 64 ⟨16, 1, 8192, 136, 500, false, 0, 0⟩ ∧
    (heapSystem ⟨16, 1, 8192, 136, 500, false, 0, 0⟩).Reach PageMapped nineObjects ∧
    (⟨0, 8⟩ : Obj) ∈ nineObjects.live ∧
    ∃ slab, nineObjects.cache.slabs[0]? = some slab ∧
      slab.pages ⟨16, 1, 8192, 136, 500, false, 0, 0⟩ = 8192 ∧
      nineObjects.cache.ptr ⟨16, 1, 8192, 136, 500, false, 0, 0⟩ ⟨0, 8⟩ = some 12328 ∧
      walkBack (nineObjects.memory ⟨16, 1, 8192, 136, 500, false, 0, 0⟩ strayMagic fun _ => 0)
        1 (pageStart 12328) = some (12288, [12288]) ∧
      ¬ FindsSlab ⟨16, 1, 8192, 136, 500, false, 0, 0⟩
        (nineObjects.memory ⟨16, 1, 8192, 136, 500, false, 0, 0⟩ strayMagic fun _ => 0)
        slab 12328 := by
  refine ⟨nineObjects_created, nineObjects_reached, by decide, _, rfl, by decide, by decide,
    by decide +kernel, ?_⟩
  rw [findsSlab_iff (by decide)]
  intro ht
  exact ht.noStray 12288 (by decide) (by decide) (by decide) (by decide +kernel)

end SeamlessStack.Slab
