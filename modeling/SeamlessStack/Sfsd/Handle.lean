import SeamlessStack.Lib.Count
import SeamlessStack.Lib.Numerals
import SeamlessStack.Sfsd.Write

/-! From the handle of a stored extent back to its file: `sstack_write` makes the handle of the
scheduled chunk and the extent before, and `get_extent` resolves it by address and exports in the
name. -/
namespace SeamlessStack.Sfsd

open Lib Function

/-- The handle of every stored extent leads to it and to the file created for it, which is that of
no other. -/
def Resolves (h : Host) (s : WriteUse) : Prop :=
  ∀ n inode, s.db n = some inode → ∀ k e, inode.extents[k]? = some e →
    ∃ file, (s.files n)[k]? = some file ∧
      getExtent inode.extents (-1) e.path h.chunks = some (k, file) ∧
      ∀ m j, (s.files m)[j]? = some file → m = n ∧ j = k

/-- A new extent on chunk `c` in this second is not taken for another one. -/
structure Distinct (h : Host) (s : WriteUse) (c : ℕ) (storage : Storage) (inode : Inode)
    (time : ℕ) : Prop where
  /-- The address that is copied from the extent before is that of the chunk. -/
  same : inode.size ≠ 0 → ∀ prev ∈ inode.extents.getLast?,
    prev.path.proto = storage.protocol ∧ prev.path.address = storage.address
  /-- No earlier chunk at the address has an export that occurs in the name. -/
  first : ∀ i < c, ∀ other, h.chunks[i]? = some other → other.protocol = storage.protocol →
    other.address = storage.address → ¬ other.path <:+: handleName storage time
  fresh : ∀ e ∈ inode.extents, e.path.proto = storage.protocol →
    e.path.address.text = storage.address.text → e.path.name ≠ handleName storage time
  unused : ∀ n, extentName storage time ∉ s.files n

/-- The condition on a request. -/
def AddsDistinct (h : Host) (s : WriteUse) (r : WriteRequest) : Prop :=
  ∀ c storage inode, r.schedule = some c → h.chunks[c]? = some storage →
    s.db r.inodeNo = some inode → Distinct h s c storage inode r.time

theorem slash_notMem_fileTail (time : ℕ) : '/' ∉ fileTail time := by
  unfold fileTail
  rw [List.mem_append, not_or]
  exact ⟨notMem_toDigits (by decide) (by decide) (by decide), by decide⟩

theorem basename_extentName (storage : Storage) (time : ℕ) :
    basename (extentName storage time) = fileTail time := by
  unfold basename extentName
  have hall : ∀ c ∈ (fileTail time).reverse, decide (c ≠ '/') = true := by
    intro c hc
    rw [decide_eq_true_eq]
    rintro rfl
    exact slash_notMem_fileTail time (List.mem_reverse.mp hc)
  rw [List.reverse_append, List.reverse_cons, List.append_assoc, List.takeWhile_append_of_pos hall]
  simp

theorem mounted_handleName (storage : Storage) (time : ℕ) :
    storage.mountPoint ++ (handleName storage time).drop storage.path.length =
      extentName storage time := by
  unfold handleName
  rw [basename_extentName, List.drop_left]
  rfl

theorem getExtent_append {l m : List Extent} {handle : FileHandle} {chunks : List Storage}
    {v : ℕ × Name} (hv : getExtent l (-1) handle chunks = some v) :
    getExtent (l ++ m) (-1) handle chunks = some v := by
  unfold getExtent at hv ⊢
  rw [if_neg (by omega), if_neg (by decide)] at hv ⊢
  cases hi : l.findIdx? fun e => matchExtent handle e.path with
  | none =>
    rw [hi] at hv
    cases hv
  | some i =>
    rw [hi] at hv
    rw [List.findIdx?_append, hi]
    exact hv

section
variable {h : Host} {s : WriteUse} {c : ℕ} {storage : Storage} {inode : Inode} {r : WriteRequest}
  {outSize : BitVec 64} {cksum : BitVec 32} {e : Extent}

theorem Distinct.newExtent_path (hd : Distinct h s c storage inode r.time)
    (he : newExtent storage inode r outSize cksum = some e) :
    e.path.name = handleName storage r.time ∧ e.path.proto = storage.protocol ∧
      e.path.address = storage.address := by
  unfold newExtent at he
  dsimp only at he
  split at he
  · cases he
  split at he
  · rename_i hsize
    cases hlast : inode.extents.getLast? with
    | none =>
      rw [hlast] at he
      cases he
    | some prev =>
      rw [hlast] at he
      obtain rfl := Option.some.inj he
      exact ⟨rfl, hd.same hsize prev hlast⟩
  · obtain rfl := Option.some.inj he
    exact ⟨rfl, rfl, rfl⟩

theorem Distinct.getExtent_new (hd : Distinct h s c storage inode r.time)
    (hc : h.chunks[c]? = some storage) (he : newExtent storage inode r outSize cksum = some e) :
    getExtent (inode.extents ++ [e]) (-1) e.path h.chunks =
      some (inode.extents.length, extentName storage r.time) := by
  obtain ⟨hname, hproto, haddress⟩ := hd.newExtent_path he
  have hmount : getMountPath h.chunks e.path = some storage := by
    apply getMountPath_eq hc
    · have hexport : storage.path <:+: e.path.name := by
        rw [hname]
        exact (List.prefix_append _ _).isInfix
      simp [Storage.serves, hproto, haddress, hexport]
    · intro i hi other hother
      rw [Storage.serves, decide_eq_false_iff_not]
      rintro ⟨hp, htext, hfamily, hinfix⟩
      rw [hproto] at hp
      rw [haddress] at htext hfamily
      rw [hname] at hinfix
      refine hd.first i hi other hother hp.symm ?_ hinfix
      cases haddr : other.address
      rw [haddr] at htext hfamily
      cases hsaddr : storage.address
      rw [hsaddr] at htext hfamily
      cases htext
      cases hfamily
      rfl
  have hindex : (inode.extents ++ [e]).findIdx? (fun x => matchExtent e.path x.path) =
      some inode.extents.length := by
    have hnone : inode.extents.findIdx? (fun x => matchExtent e.path x.path) = none := by
      rw [List.findIdx?_eq_none_iff]
      intro x hx
      rw [matchExtent, decide_eq_false_iff_not]
      rintro ⟨hp, htext, hsame⟩
      exact hd.fresh x hx (hp.symm.trans hproto) (by rw [← htext, haddress])
        (hsame.symm.trans hname)
    rw [List.findIdx?_append, hnone]
    simp [matchExtent_self]
  rw [getExtent_search hindex hmount, hname, mounted_handleName]

end

def FilePerExtent (s : WriteUse) : Prop :=
  ∀ n inode, s.db n = some inode → (s.files n).length = inode.extents.length

theorem FilePerExtent.again {s : WriteUse} (hlen : FilePerExtent s) {n : ℕ} {inode inode' : Inode}
    (hn : s.db n = some inode) (heq : inode'.extents = inode.extents) :
    FilePerExtent ⟨update s.db n (some inode'), s.files⟩ := by
  intro m other hm
  simp only [update_apply] at hm
  split at hm
  · rename_i hmn
    obtain rfl := Option.some.inj hm
    rw [heq, hmn]
    exact hlen n inode hn
  · exact hlen m other hm

theorem FilePerExtent.snoc {s : WriteUse} (hlen : FilePerExtent s) {n : ℕ} {inode inode' : Inode}
    (hn : s.db n = some inode) {e : Extent} (heq : inode'.extents = inode.extents ++ [e])
    (file : Name) : FilePerExtent ⟨update s.db n (some inode'),
      update s.files n (s.files n ++ [file])⟩ := by
  intro m other hm
  simp only [update_apply] at hm ⊢
  split at hm
  · rename_i hmn
    obtain rfl := Option.some.inj hm
    rw [if_pos hmn, heq, List.length_append, List.length_append, hlen n inode hn]
    rfl
  · rename_i hmn
    rw [if_neg hmn]
    exact hlen m other hm

theorem filePerExtent_init {h : Host} {s : WriteUse} (hs : (writeSystem h).init s) :
    FilePerExtent s := by
  intro n inode hn
  rw [hs.2, (hs.1 n inode hn).1]
  rfl

/-- What holds of every state: there is a file for each extent, and handles resolve. -/
structure ResolveOk (h : Host) (s : WriteUse) : Prop where
  length : ∀ n inode, s.db n = some inode → (s.files n).length = inode.extents.length
  resolves : Resolves h s

theorem ResolveOk.again {h : Host} {s : WriteUse} (hok : ResolveOk h s) {n : ℕ}
    {inode inode' : Inode} (hn : s.db n = some inode) (heq : inode'.extents = inode.extents) :
    ResolveOk h ⟨update s.db n (some inode'), s.files⟩ where
  length := FilePerExtent.again hok.length hn heq
  resolves := by
    intro m other hm k e he
    simp only [update_apply] at hm
    split at hm
    · rename_i hmn
      obtain rfl := Option.some.inj hm
      rw [heq] at he ⊢
      rw [hmn]
      exact hok.resolves n inode hn k e he
    · exact hok.resolves m other hm k e he

theorem mem_files_update {files : ℕ → List Name} {n m j : ℕ} {file new : Name}
    (hm : (update files n (files n ++ [new]) m)[j]? = some file) :
    (files m)[j]? = some file ∨ m = n ∧ j = (files n).length ∧ file = new := by
  rw [update_apply] at hm
  split at hm
  · rename_i hmn
    subst hmn
    obtain hm | ⟨hj, hfile⟩ := getElem?_snoc hm
    · exact Or.inl hm
    · exact Or.inr ⟨rfl, hj, hfile⟩
  · exact Or.inl hm

theorem ResolveOk.snoc {h : Host} {s : WriteUse} (hok : ResolveOk h s) {r : WriteRequest}
    {inode inode' : Inode} (hn : s.db r.inodeNo = some inode) {storage : Storage}
    {e : Extent} (hunused : ∀ n, extentName storage r.time ∉ s.files n)
    (hnew : getExtent (inode.extents ++ [e]) (-1) e.path h.chunks =
      some (inode.extents.length, extentName storage r.time))
    (heq : inode'.extents = inode.extents ++ [e]) :
    ResolveOk h ⟨update s.db r.inodeNo (some inode'),
      update s.files r.inodeNo (s.files r.inodeNo ++ [extentName storage r.time])⟩ where
  length := FilePerExtent.snoc hok.length hn heq _
  resolves := by
    have hlen := hok.length _ inode hn
    intro m other hm k x hx
    -- An extent that was there before keeps its file, and the new file is not taken for it.
    have hold : ∀ inode₀, s.db m = some inode₀ → inode₀.extents[k]? = some x → ∃ file,
        (update s.files r.inodeNo
          (s.files r.inodeNo ++ [extentName storage r.time]) m)[k]? = some file ∧
        getExtent inode₀.extents (-1) x.path h.chunks = some (k, file) ∧
        ∀ m' j, (update s.files r.inodeNo
          (s.files r.inodeNo ++ [extentName storage r.time]) m')[j]? = some file →
            m' = m ∧ j = k := by
      intro inode₀ hm₀ hx₀
      obtain ⟨file, hfile, hget, honly⟩ := hok.resolves m inode₀ hm₀ k x hx₀
      refine ⟨file, ?_, hget, ?_⟩
      · rw [update_apply]
        split
        · rename_i hmn
          rw [← hmn, List.getElem?_append_left (List.getElem?_eq_some_iff.mp hfile).1]
          exact hfile
        · exact hfile
      · intro m' j hm'
        obtain hm' | ⟨-, -, rfl⟩ := mem_files_update hm'
        · exact honly m' j hm'
        · exact absurd (List.mem_of_getElem? hfile) (hunused m)
    simp only [update_apply] at hm
    split at hm
    · rename_i hmn
      subst hmn
      obtain rfl := Option.some.inj hm
      rw [heq] at hx ⊢
      obtain hx | ⟨rfl, rfl⟩ := getElem?_snoc hx
      · obtain ⟨file, hfile, hget, honly⟩ := hold inode hn hx
        exact ⟨file, hfile, getExtent_append hget, honly⟩
      · refine ⟨extentName storage r.time, ?_, hnew, ?_⟩
        · change (update s.files r.inodeNo _ r.inodeNo)[_]? = _
          rw [update_self, ← hlen]
          simp
        · intro m' j hm'
          obtain hm' | ⟨hm', hj, -⟩ := mem_files_update hm'
          · exact absurd (List.mem_of_getElem? hm') (hunused m')
          · exact ⟨hm', by omega⟩
    · exact hold other hm hx

theorem reach_resolveOk {h : Host} {s : WriteUse}
    (hr : (writeSystem h).Reach (AddsDistinct h) s) : ResolveOk h s := by
  apply hr.invariant
  · intro s hs
    refine ⟨filePerExtent_init hs, ?_⟩
    intro n inode hn k e he
    rw [(hs.1 n inode hn).1] at he
    cases he
  · intro s r t _ hok hdistinct ht
    obtain rfl | ⟨inode, hn, rfl | ⟨c, storage, outSize, cksum, e, hc, hchunk, hnew, rfl⟩⟩ :=
      writeStep_cases ht
    · exact hok
    · exact hok.again hn rfl
    · have hd := hdistinct c storage inode hc hchunk hn
      have hd' : Distinct h s c storage { inode with numreplicas := 1 } r.time :=
        ⟨hd.same, hd.first, hd.fresh, hd.unused⟩
      exact hok.snoc hn hd.unused (hd'.getExtent_new hchunk hnew) rfl

/-- When every request adds a distinct extent, all handles resolve. -/
theorem handles_resolve {h : Host} {s : WriteUse}
    (hr : (writeSystem h).Reach (AddsDistinct h) s) : Resolves h s :=
  (reach_resolveOk hr).resolves

theorem handles_resolve_one : ∃ s inode e, (writeSystem (oneChunk true)).Reach
    (AddsDistinct (oneChunk true)) s ∧ s.db 2 = some inode ∧ inode.extents[0]? = some e ∧
      ∃ file, (s.files 2)[0]? = some file ∧
        getExtent inode.extents (-1) e.path (oneChunk true).chunks = some (0, file) := by
  have hstep : ∃ s, writeStep (oneChunk true) emptyInodes (goodRequest 2 5 0 10) = some s ∧
      ∃ inode e, s.db 2 = some inode ∧ inode.extents[0]? = some e := ⟨_, rfl, _, _, rfl, rfl⟩
  obtain ⟨s, hs, inode, e, hn, he⟩ := hstep
  have hdistinct : AddsDistinct (oneChunk true) emptyInodes (goodRequest 2 5 0 10) := by
    intro c storage inode hc _ hinode
    obtain rfl : 0 = c := Option.some.inj hc
    obtain rfl : emptyInode = inode := Option.some.inj hinode
    refine ⟨?_, ?_, ?_, ?_⟩
    · intro hsize
      exact absurd rfl hsize
    · intro i hi
      omega
    · intro e he
      cases he
    · intro n hmem
      cases hmem
  have hr : (writeSystem (oneChunk true)).Reach (AddsDistinct (oneChunk true)) s :=
    .step (.init (emptyInodes_init _)) hdistinct hs
  obtain ⟨file, hfile, hget, -⟩ := handles_resolve hr 2 inode hn 0 e he
  exact ⟨s, inode, e, hr, hn, he, file, hfile, hget⟩

def nestedExports : Host :=
  ⟨[⟨['/', 'e'], ['/', 'm'], .nfs, ⟨.ipv4, ['a']⟩⟩,
    ⟨['/', 'e', '2'], ['/', 'n'], .nfs, ⟨.ipv4, ['a']⟩⟩],
    true, 0⟩

/-- The second extent lies on the second chunk, and its handle leads to the first one. -/
theorem handles_resolve_nested :
    nestedExports.chunks.Pairwise (fun a b => (a.address, a.path) ≠ (b.address, b.path)) ∧
    ∃ s inode e file, (writeSystem nestedExports).Reach System.AnyStep s ∧
      s.db 3 = some inode ∧ inode.extents[0]? = some e ∧ (s.files 3)[0]? = some file ∧
      file = ['/', 'n', '/', '1', '-', 'X', 'X', 'X', 'X', 'X', 'X'] ∧
      getExtent inode.extents (-1) e.path nestedExports.chunks =
        some (0, ['/', 'm', '2', '/', '1', '-', 'X', 'X', 'X', 'X', 'X', 'X']) := by
  refine ⟨by decide, ?_⟩
  have hrun : ∃ s, (writeSystem nestedExports).run System.AnyStep emptyInodes
      [goodRequest 2 5 0 1, goodRequest 3 5 1 1] = some s ∧
      ∃ inode e file, s.db 3 = some inode ∧ inode.extents[0]? = some e ∧
        (s.files 3)[0]? = some file ∧
        file = ['/', 'n', '/', '1', '-', 'X', 'X', 'X', 'X', 'X', 'X'] ∧
        getExtent inode.extents (-1) e.path nestedExports.chunks =
          some (0, ['/', 'm', '2', '/', '1', '-', 'X', 'X', 'X', 'X', 'X', 'X']) :=
    ⟨_, rfl, _, _, _, rfl, rfl, rfl, rfl, rfl⟩
  obtain ⟨s, hs, inode, e, file, hrest⟩ := hrun
  exact ⟨s, inode, e, file, .run (.init (emptyInodes_init _)) hs, hrest⟩

end SeamlessStack.Sfsd
