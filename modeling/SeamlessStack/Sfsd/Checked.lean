import SeamlessStack.Checksum.Correct
import SeamlessStack.Sfsd.Read

/-! Reads of extents with the checksum that `crc_pcl` computes, from 0 on. A burst of wrong bits is
found; zeros at the start leave no trace. -/
namespace SeamlessStack.Sfsd

open Lib Lib.Crc Checksum

/-- Where in memory the bytes are when their checksum is computed. -/
structure Placement where
  address : Bytes → ℕ
  fits : ∀ bytes, bytes.length ≤ maxExtentSize → address bytes + bytes.length < 2 ^ 64

def Placement.crc (m : Placement) (bytes : Bytes) : BitVec 32 :=
  if h : m.address bytes + bytes.length < 2 ^ 64 then
    (crcPcl ⟨m.address bytes, bytes, h⟩ 0#64).getD 0#32
  else 0#32

section
variable {m : Placement} {h : Host} {db : Db} {files : Name → LocalFile} {r : ReadRequest}
  {e : Extent} {path : Name} {written : Bytes}

theorem Placement.crc_eq (bytes : Bytes) (hlen : bytes.length ≤ maxExtentSize) :
    m.crc bytes = feed castagnoli 0#32 (bytes.flatMap bits) := by
  rw [crc, dif_pos (m.fits bytes hlen), crcPcl_eq_sum, Buffer.sum_all]
  rfl

theorem castagnoli_constant : castagnoli.getLsbD (32 - 1) = true := by decide

/-- Bytes in front are without effect just if their own checksum is 0. -/
theorem Placement.crc_drop_eq_iff (hlen : written.length ≤ maxExtentSize) (k : ℕ) :
    m.crc (written.drop k) = m.crc written ↔ m.crc (written.take k) = 0#32 := by
  have hwhole : feed castagnoli 0#32 (written.flatMap bits) =
      (shift castagnoli)^[((written.drop k).flatMap bits).length] (m.crc (written.take k)) ^^^
        m.crc (written.drop k) := by
    rw [crc_eq (written.take k) (by simp; omega), crc_eq (written.drop k) (by simp; omega),
      ← feed_eq_xor, ← feed_append, ← List.flatMap_append, List.take_append_drop]
  have hinj := (shift_injective castagnoli_constant).iterate
    ((written.drop k).flatMap bits).length
  rw [crc_eq written hlen, hwhole]
  constructor
  · intro heq
    have hzero : (shift castagnoli)^[((written.drop k).flatMap bits).length]
        (m.crc (written.take k)) = 0#32 := by
      have := congrArg (· ^^^ m.crc (written.drop k)) heq
      simpa [BitVec.xor_assoc] using this.symm
    rw [← Function.iterate_fixed (shift_zero castagnoli)] at hzero
    exact hinj hzero
  · intro hzero
    rw [hzero, Function.iterate_fixed (shift_zero castagnoli), BitVec.zero_xor]

/-- The bits are those that were written, but for a burst of at most 32. -/
def Damaged (written content : Bytes) : Prop :=
  ∃ a d d' b, written.flatMap bits = a ++ (d ++ b) ∧ content.flatMap bits = a ++ (d' ++ b) ∧
    d.length = d'.length ∧ d.length ≤ 32 ∧ d ≠ d'

theorem Damaged.length_eq {content : Bytes} (hd : Damaged written content) :
    content.length = written.length := by
  obtain ⟨a, d, d', b, hwritten, hcontent, hlen, -, -⟩ := hd
  have h₁ := congrArg List.length hwritten
  have h₂ := congrArg List.length hcontent
  simp only [length_flatMap_bits, List.length_append] at h₁ h₂
  omega

theorem Damaged.crc_ne {content : Bytes} (hd : Damaged written content)
    (hlen : written.length ≤ maxExtentSize) : m.crc content ≠ m.crc written := by
  have hlen' := hd.length_eq
  obtain ⟨a, d, d', b, hwritten, hcontent, hsame, hburst, hne⟩ := hd
  rw [Placement.crc_eq written hlen, Placement.crc_eq content (by omega), hwritten, hcontent]
  intro heq
  exact hne (feed_burst castagnoli_constant hburst hsame heq.symm)

/-- If a burst of at most 32 bits of the file of an extent has changed, a read of it is answered
with an error and never with the data. -/
theorem damage_found (ha : Asks h db r e path) (hmem : r.inodeCache = true ∧ r.buffer = true)
    (hstart : r.offset = e.offset) (hlen : written.length ≤ maxExtentSize)
    (hcksum : e.cksum = m.crc written)
    (hread : Returns ((files path).read maxExtentSize (r.relative e)))
    (hdamage : Damaged written (files path).content) :
    sstackRead m.crc h db files r = .error (-61) := by
  obtain ⟨bytes, hbytes⟩ := hread
  have hall : bytes = (files path).content := by
    rw [LocalFile.read_eq_ok hbytes, ReadRequest.relative, hstart, BitVec.sub_self]
    exact List.take_of_length_le (by simpa [hdamage.length_eq] using hlen)
  rw [ha.sstackRead_eq hmem.1, readPlain_ok hmem.2 hbytes, hcksum, hall,
    if_neg (hdamage.crc_ne hlen)]

/-- An extent as it was written is read from a place on just if the bytes before have the checksum
0. -/
theorem read_inside_iff (ha : Asks h db r e path) (hmem : r.inodeCache = true ∧ r.buffer = true)
    (hlen : written.length ≤ maxExtentSize) (hcksum : e.cksum = m.crc written)
    (hread : Returns ((files path).read maxExtentSize (r.relative e)))
    (hsame : (files path).content = written) :
    sstackRead m.crc h db files r = .ok
        ⟨(written.drop (r.relative e).toNat).length, written.drop (r.relative e).toNat⟩ ↔
      m.crc (written.take (r.relative e).toNat) = 0#32 := by
  obtain ⟨bytes, hbytes⟩ := hread
  have hrest : bytes = written.drop (r.relative e).toNat := by
    rw [← hsame]
    exact (LocalFile.read_eq_drop hbytes).mpr (by rw [hsame]; omega)
  rw [ha.sstackRead_eq hmem.1, readPlain_ok hmem.2 hbytes, hcksum, hrest,
    ← Placement.crc_drop_eq_iff hlen]
  split
  next heq => exact iff_of_true rfl heq
  next hne => exact iff_of_false (by simp) hne

end

/-! An extent of five bytes, the first of them 0. -/

def fiveBytes : Bytes := [0, 1, 2, 3, 4]

def atStart : Placement where
  address _ := 4096
  fits bytes hlen := by
    unfold maxExtentSize at hlen
    omega

def checkedExtent : Extent :=
  { fiveExtent with cksum := feed castagnoli 0#32 (fiveBytes.flatMap bits) }

def checkedDb : Db := fun n => if n = 2 then some ⟨true, 5, 1, [checkedExtent]⟩ else none

theorem checkedDb_asks (offset : BitVec 64) :
    Asks (oneChunk true) checkedDb (fiveRequest offset) checkedExtent fivePath where
  getInode := rfl
  readEcode := rfl
  finds := ⟨⟨true, 5, 1, [checkedExtent]⟩, rfl, by
    have hfind : ∀ k, findExtent (oneChunk true) ⟨true, 5, 1, [{ fiveExtent with cksum := k }]⟩
        fiveExtent.path = some ({ fiveExtent with cksum := k }, fivePath) := fun k => rfl
    exact hfind _⟩

theorem fiveBytes_length : fiveBytes.length ≤ maxExtentSize := by decide

theorem checkedExtent_cksum : checkedExtent.cksum = atStart.crc fiveBytes :=
  (Placement.crc_eq fiveBytes fiveBytes_length).symm

theorem damage_found_last :
    sstackRead atStart.crc (oneChunk true) checkedDb (fun _ => ⟨.ok (), .ok (), [0, 1, 2, 3, 5]⟩)
      (fiveRequest 0) = .error (-61) := by
  have hdamage : Damaged fiveBytes [0, 1, 2, 3, 5] :=
    ⟨(fiveBytes.take 4).flatMap bits, bits 4#8, bits 5#8, [], by decide, by decide, by decide,
      by decide, by decide⟩
  exact damage_found (checkedDb_asks 0) ⟨rfl, rfl⟩ rfl fiveBytes_length checkedExtent_cksum
    ⟨_, rfl⟩ hdamage

theorem read_inside_iff_zero :
    sstackRead atStart.crc (oneChunk true) checkedDb (fun _ => ⟨.ok (), .ok (), fiveBytes⟩)
      (fiveRequest 1) = .ok ⟨4, [1, 2, 3, 4]⟩ := by
  refine (read_inside_iff (checkedDb_asks 1) ⟨rfl, rfl⟩ fiveBytes_length checkedExtent_cksum
    ⟨_, rfl⟩ rfl).mpr ?_
  rw [Placement.crc_eq _ (by decide)]
  decide

end SeamlessStack.Sfsd
