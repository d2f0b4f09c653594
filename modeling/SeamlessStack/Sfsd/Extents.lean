import SeamlessStack.Lib.Count
import SeamlessStack.Sfsd.Write

/-! Each extent starts where the one before it ends, and `i_size` is where the last one ends. -/
namespace SeamlessStack.Sfsd

open Lib

def total (extents : List Extent) : ℕ := (extents.map (·.size.toNat)).sum

structure Inode.Tiled (inode : Inode) : Prop where
  first : ∀ e, inode.extents[0]? = some e → e.offset.toNat = 0
  next : ∀ i e e', inode.extents[i]? = some e → inode.extents[i + 1]? = some e' →
    e'.offset.toNat = e.offset.toNat + e.size.toNat
  size : inode.size.toNat = total inode.extents

/-- The same in the arithmetic of the fields, where sums wrap around. -/
structure Inode.TiledMod (inode : Inode) : Prop where
  offset : ∀ i e, inode.extents[i]? = some e →
    e.offset = BitVec.ofNat 64 (total (inode.extents.take i))
  size : inode.size = BitVec.ofNat 64 (total inode.extents)

theorem total_append (l m : List Extent) : total (l ++ m) = total l + total m := by
  simp [total]

theorem total_singleton (e : Extent) : total [e] = e.size.toNat := by
  simp [total]

theorem total_take_le (l : List Extent) (i : ℕ) : total (l.take i) ≤ total l := by
  have h := total_append (l.take i) (l.drop i)
  rw [List.take_append_drop] at h
  omega

theorem ofNat_total_snoc (l : List Extent) (e : Extent) :
    BitVec.ofNat 64 (total (l ++ [e])) = BitVec.ofNat 64 (total l) + e.size := by
  rw [total_append, total_singleton, BitVec.ofNat_add, BitVec.ofNat_toNat, BitVec.setWidth_eq]

theorem updateSize_size (inode : Inode) :
    inode.updateSize.size = BitVec.ofNat 64 (total inode.extents) := by
  have hfold : ∀ (l : List Extent) (a : BitVec 64),
      l.foldl (fun size e => size + e.size) a = a + BitVec.ofNat 64 (total l) := by
    intro l
    induction l with
    | nil =>
      intro a
      simp [total]
    | cons e l ih =>
      intro a
      have hcons : total (e :: l) = e.size.toNat + total l := by simp [total]
      rw [List.foldl_cons, ih, hcons, BitVec.ofNat_add, BitVec.ofNat_toNat, BitVec.setWidth_eq,
        BitVec.add_assoc]
  exact (hfold inode.extents 0).trans (BitVec.zero_add _)

variable {inode : Inode}

/-- With or without a look at the previous extent, a new one starts at the end of the file. -/
theorem Inode.TiledMod.newExtent_offset (h : inode.TiledMod) {storage : Storage}
    {r : WriteRequest} {outSize : BitVec 64} {cksum : BitVec 32} {e : Extent}
    (he : newExtent storage inode r outSize cksum = some e) :
    e.offset = BitVec.ofNat 64 (total inode.extents) := by
  unfold newExtent at he
  dsimp only at he
  split at he
  · cases he
  split at he
  · cases hlast : inode.extents.getLast? with
    | none =>
      rw [hlast] at he
      cases he
    | some prev =>
      rw [hlast] at he
      obtain rfl := Option.some.inj he
      obtain ⟨init, hinit⟩ := List.getLast?_eq_some_iff.mp hlast
      have hprev := h.offset init.length prev (by rw [hinit]; simp)
      rw [hinit, List.take_left] at hprev
      rw [hinit, ofNat_total_snoc, ← hprev]
  · rename_i hsize
    obtain rfl := Option.some.inj he
    rw [← h.size]
    exact (not_not.mp hsize).symm

theorem Inode.TiledMod.snoc (h : inode.TiledMod) {e : Extent}
    (he : e.offset = BitVec.ofNat 64 (total inode.extents)) (locked : Bool) :
    (Inode.updateSize ⟨locked, inode.size, 1, inode.extents ++ [e]⟩).TiledMod where
  offset := by
    intro i e' hi
    change (inode.extents ++ [e])[i]? = some e' at hi
    change e'.offset = BitVec.ofNat 64 (total ((inode.extents ++ [e]).take i))
    obtain hi | ⟨rfl, rfl⟩ := getElem?_snoc hi
    · have hlt := (List.getElem?_eq_some_iff.mp hi).1
      rw [List.take_append_of_le_length (by omega)]
      exact h.offset i e' hi
    · rw [List.take_left]
      exact he
  size := updateSize_size _

theorem Inode.TiledMod.again (h : inode.TiledMod) (locked : Bool) :
    (Inode.updateSize ⟨locked, inode.size, 1, inode.extents⟩).TiledMod :=
  ⟨h.offset, updateSize_size _⟩

theorem reach_tiledMod {h : Host} {s : WriteUse}
    (hr : (writeSystem h).Reach System.AnyStep s) {n : ℕ} (hn : s.db n = some inode) :
    inode.TiledMod := by
  have hall : ∀ n inode, s.db n = some inode → inode.TiledMod := by
    apply hr.invariant (I := fun s => ∀ n inode, s.db n = some inode → inode.TiledMod)
    · intro s hs n inode hn
      obtain ⟨hextents, hsize, -⟩ := hs.1 n inode hn
      refine ⟨?_, ?_⟩
      · intro i e hi
        rw [hextents] at hi
        cases hi
      · rw [hextents, hsize]
        rfl
    · intro s r t _ ih _ ht n inode hn
      obtain rfl | ⟨old, hold, rfl | ⟨c, storage, outSize, cksum, e, -, -, hnew, rfl⟩⟩ :=
        writeStep_cases ht
      · exact ih n inode hn
      · simp only [Function.update_apply] at hn
        split at hn
        · obtain rfl := Option.some.inj hn
          exact (ih _ _ hold).again _
        · exact ih n inode hn
      · simp only [Function.update_apply] at hn
        split at hn
        · obtain rfl := Option.some.inj hn
          have htiled : Inode.TiledMod { old with numreplicas := 1 } :=
            ⟨(ih _ _ hold).offset, (ih _ _ hold).size⟩
          exact (ih _ _ hold).snoc (htiled.newExtent_offset hnew) _
        · exact ih n inode hn
  exact hall n inode hn

theorem Inode.TiledMod.tiled (h : inode.TiledMod)
    (hfit : total inode.extents < 2 ^ 64) : inode.Tiled := by
  have hoffset : ∀ i e, inode.extents[i]? = some e →
      e.offset.toNat = total (inode.extents.take i) := by
    intro i e hi
    have hle := total_take_le inode.extents i
    rw [h.offset i e hi, BitVec.toNat_ofNat, Nat.mod_eq_of_lt (by omega)]
  constructor
  · intro e he
    rw [hoffset 0 e he]
    rfl
  · intro i e e' hi hi'
    obtain ⟨hlt, rfl⟩ := List.getElem?_eq_some_iff.mp hi
    rw [hoffset i _ hi, hoffset (i + 1) e' hi', List.take_succ_eq_append_getElem hlt,
      total_append, total_singleton]
  · rw [h.size, BitVec.toNat_ofNat, Nat.mod_eq_of_lt hfit]

/-- Whatever the requests were, the stored extents tile the file as long as its size fits. -/
theorem extents_tile {h : Host} {s : WriteUse} (hr : (writeSystem h).Reach System.AnyStep s)
    {n : ℕ} (hn : s.db n = some inode) (hfit : total inode.extents < 2 ^ 64) :
    inode.Tiled :=
  (reach_tiledMod hr hn).tiled hfit

theorem extents_tile_two : ∃ s inode, (writeSystem (oneChunk false)).Reach System.AnyStep s ∧
    s.db 2 = some inode ∧ inode.extents.length = 2 ∧ inode.Tiled := by
  have hrun : ∃ s, (writeSystem (oneChunk false)).run System.AnyStep emptyInodes
      [goodRequest 2 5 0 10, goodRequest 2 3 0 11] = some s ∧
      ∃ inode, s.db 2 = some inode ∧ inode.extents.length = 2 ∧ total inode.extents = 8 :=
    ⟨_, rfl, _, rfl, rfl, rfl⟩
  obtain ⟨s, hs, inode, hn, hlen, htotal⟩ := hrun
  have hr : (writeSystem (oneChunk false)).Reach System.AnyStep s :=
    .run (.init (emptyInodes_init _)) hs
  exact ⟨s, inode, hr, hn, hlen, extents_tile hr hn (by omega)⟩

end SeamlessStack.Sfsd
