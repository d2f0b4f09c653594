import SeamlessStack.Lib.Except
import SeamlessStack.Metadata.Record

/-! What `flatten_inode` leaves in the record when all allocations succeed: the concatenation of its
parts; a segment makes it write past the end. -/
namespace SeamlessStack.Metadata

open Lib

def Env.Succeeds (env : Env) : Prop := ∀ site, env.ok site = true

theorem access_eq_ok {α : Type} {o : Option α} {a : α} : access o = .ok a ↔ o = some a := by
  cases o with
  | none | some x => simp [access]

variable {env : Env}

theorem Env.Succeeds.allocate (h : env.Succeeds) (site : Site) :
    allocate env site = .ok () := by
  unfold Metadata.allocate
  rw [if_pos (h site)]

theorem Env.Succeeds.allocateUntested (h : env.Succeeds) (site : Site) :
    allocateUntested env site = .ok () := by
  unfold Metadata.allocateUntested
  rw [if_pos (h site)]

def extentsBlock (extents : List Extent) : Block :=
  extents.flatMap fun ex => Block.ofBytes ex.fixed ++ Block.ofBytes ex.path

variable {r : Record}

theorem Record.extend_ok (h : env.Succeeds) (hr : r.len = r.data.length)
    (site : Site) (src : Block) :
    r.extend env site src = .ok ⟨r.data ++ src, r.len + src.length⟩ := by
  unfold Record.extend
  rw [h.allocate site, hr, Block.realloc_write_end]
  rfl

theorem flattenExtents_ok (h : env.Succeeds) (extents : List Extent) :
    ∀ (i : ℕ) (r : Record), r.len = r.data.length → flattenExtents env i extents r =
      .ok ⟨r.data ++ extentsBlock extents, r.len + (extentsBlock extents).length⟩ := by
  induction extents with
  | nil =>
    intro i r _
    simp [flattenExtents, extentsBlock, pure, Except.pure]
  | cons ex extents ih =>
    intro i r hr
    unfold flattenExtents
    have hfixed := Record.extend_ok h hr (.extent i) (Block.ofBytes ex.fixed)
    rw [bind_eq_ok]
    refine ⟨_, hfixed, ?_⟩
    rw [bind_eq_ok]
    refine ⟨_, Record.extend_ok h (by simp [hr]) (.path i) (Block.ofBytes ex.path), ?_⟩
    rw [ih (i + 1) _ (by simp [hr, Nat.add_assoc])]
    simp [extentsBlock, Nat.add_assoc]

def Inode.plainRecord (inode : Inode) : Block :=
  Block.ofBytes inode.fixed ++ extentsBlock inode.extents ++ Block.ofBytes inode.sfsds

variable {inode : Inode}

theorem Inode.sfsds_eq_nil (h : inode.numclients ≤ 1) : inode.sfsds = [] := by
  apply List.eq_nil_of_length_eq_zero
  rw [inode.sfsds_length, show inode.numclients - 1 = 0 by omega, Nat.mul_zero]

theorem flattenSfsds_ok (h : env.Succeeds) (inode : Inode) (hr : r.len = r.data.length) :
    flattenSfsds env inode r =
      .ok ⟨r.data ++ Block.ofBytes inode.sfsds, r.len + pointerSize * inode.numclients⟩ := by
  unfold flattenSfsds
  split
  · rw [Record.extend_ok h hr]
    rfl
  · rename_i hzero
    rw [not_not] at hzero
    have hnone := Inode.sfsds_eq_nil (show inode.numclients ≤ 1 by omega)
    simp [hnone, hzero, Block.ofBytes, pure, Except.pure]

theorem flattenInode_plain (h : env.Succeeds) (hxattr : inode.xattr = [])
    (herasure : inode.erasure = []) :
    ∃ len, flattenInode env inode = .ok ⟨inode.plainRecord, len⟩ := by
  have hlen : getInodeFixedFieldsLen = (Block.ofBytes inode.fixed).length := by
    rw [Block.ofBytes_length, inode.fixed_length]
  have hextents := flattenExtents_ok h inode.extents 0
    ⟨Block.ofBytes inode.fixed, getInodeFixedFieldsLen⟩ hlen
  have hmiddle : getInodeFixedFieldsLen + (extentsBlock inode.extents).length =
      (Block.ofBytes inode.fixed ++ extentsBlock inode.extents).length := by
    rw [List.length_append, ← hlen]
  refine ⟨getInodeFixedFieldsLen + (extentsBlock inode.extents).length +
    pointerSize * inode.numclients, ?_⟩
  unfold flattenInode
  rw [h.allocate]
  simp only [bind, Except.bind, flattenXattr, hxattr, herasure, flattenErasure, pure, Except.pure,
    List.length_nil, gt_iff_lt, lt_self_iff_false, if_false]
  rw [hextents]
  simp only
  rw [flattenSfsds_ok h inode hmiddle]
  rfl

theorem flattenErasure_cons {array : Block} {i : ℕ} {er : Erasure}
    {rest : List Erasure} {t : Record} : flattenErasure env array i (er :: rest) r ≠ .ok t := by
  intro hok
  unfold flattenErasure at hok
  obtain ⟨-, -, hok⟩ := bind_eq_ok.mp hok
  obtain ⟨data, hdata, hok⟩ := bind_eq_ok.mp hok
  obtain ⟨cksum, hcksum, hok⟩ := bind_eq_ok.mp hok
  obtain ⟨data', hdata', -⟩ := bind_eq_ok.mp hok
  have hlen := Block.write_length (access_eq_ok.mp hdata)
  have hread := Block.read_length (access_eq_ok.mp hcksum)
  obtain ⟨-, hle, -⟩ := Block.write_eq_some.mp (access_eq_ok.mp hdata')
  rw [hread, hlen, Block.realloc_length] at hle
  simp only [extentSize, cksumSize, fileHandleSize] at hle
  omega

theorem flattenInode_erasure (h : flattenInode env inode = .ok r) : inode.erasure = [] := by
  unfold flattenInode at h
  obtain ⟨-, -, h⟩ := bind_eq_ok.mp h
  obtain ⟨r₁, -, h⟩ := bind_eq_ok.mp h
  obtain ⟨r₂, h₂, -⟩ := bind_eq_ok.mp h
  cases herasure : inode.erasure with
  | nil => rfl
  | cons er rest =>
    rw [herasure] at h₂
    exact absurd h₂ flattenErasure_cons

theorem flattenInode_xattr (hmoved : env.moved .xattr = true) (h : flattenInode env inode = .ok r) :
    inode.xattr = [] := by
  unfold flattenInode at h
  obtain ⟨-, -, h⟩ := bind_eq_ok.mp h
  obtain ⟨r₁, h₁, -⟩ := bind_eq_ok.mp h
  unfold flattenXattr at h₁
  split at h₁
  · obtain ⟨r', -, hr'⟩ := bind_eq_ok.mp h₁
    cases hr'
  · rename_i hzero
    exact List.eq_nil_of_length_eq_zero (by omega)

theorem extentsBlock_length_cons (ex : Extent) (extents : List Extent) :
    (extentsBlock (ex :: extents)).length = getExtentFixedFieldsLen +
      ex.numreplicas * fileHandleSize + (extentsBlock extents).length := by
  simp only [extentsBlock, List.flatMap_cons, List.length_append, Block.ofBytes_length,
    ex.fixed_length, ex.path_length]

theorem Inode.plainRecord_length (inode : Inode) : inode.plainRecord.length =
    getInodeFixedFieldsLen + (extentsBlock inode.extents).length +
      pointerSize * (inode.numclients - 1) := by
  simp only [Inode.plainRecord, List.length_append, Block.ofBytes_length, inode.fixed_length,
    inode.sfsds_length]

end SeamlessStack.Metadata
