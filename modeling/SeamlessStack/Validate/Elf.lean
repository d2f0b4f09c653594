import SeamlessStack.Lib.Except
import Mathlib.Tactic

/-! The signatures of plugins: `sfs_elf_encode` appends one, and `sfs_elf_validate` cuts it off,
compares it with the hash of the rest and writes it back. No file operation fails here. SHA-256 is a
parameter, and a key pair comes with what is documented about its functions. -/
namespace SeamlessStack.Validate

open Lib

abbrev Bytes := List UInt8

def digestLength : ℕ := 32

abbrev Digest := { h : Bytes // h.length = digestLength }

inductive VldtErr
  | encrFail
  | openFail
  | writeFail
  | sizeMismatch
  | lseekFail
  | readFail
  | decrFail
  | truncFail
  | fail
  | success
  deriving DecidableEq, Repr

def VldtErr.toInt : VldtErr → ℤ
  | .encrFail => -128
  | .openFail => -127
  | .writeFail => -126
  | .sizeMismatch => -125
  | .lseekFail => -124
  | .readFail => -123
  | .decrFail => -122
  | .truncFail => -121
  | .fail => -1
  | .success => 0

theorem VldtErr.toInt_eq_zero_iff (e : VldtErr) : e.toInt = 0 ↔ e = .success := by
  cases e <;> decide

/-- `RSA_size`, `RSA_public_encrypt`, whose padding is random and takes eleven bytes, and
`RSA_private_decrypt`. -/
structure RsaPair where
  size : ℕ
  encrypt : Bytes → Bytes → Option Bytes
  decrypt : Bytes → Option Bytes
  encrypt_none : ∀ seed m, encrypt seed m = none ↔ size < m.length + 11
  encrypt_length : ∀ seed m c, encrypt seed m = some c → c.length = size
  decrypt_length : ∀ c m, decrypt c = some m → m.length + 11 ≤ size
  decrypt_encrypt : ∀ seed m c, encrypt seed m = some c → decrypt c = some m

/-- An access behind the end of a buffer on the stack. -/
inductive Overrun
  | read
  | write
  deriving DecidableEq, Repr

section Files
variable (sha : Bytes → Digest) (key : RsaPair)

/-- `enc_code` has room for a digest. -/
def sfsElfEncode (seed file : Bytes) : Except Overrun (VldtErr × Bytes) :=
  match key.encrypt seed (sha file).val with
  | none => .ok (.encrFail, file)
  | some encCode => do
    require (encCode.length ≤ digestLength) .write
    return (.success, file ++ encCode.take digestLength)

def intSize (file : Bytes) : ℤ := (BitVec.ofNat 32 file.length).toInt

/-- What is returned, and the file afterwards. `stack` is what stands in `signature` before. -/
def sfsElfValidate (stack : Digest) (file : Bytes) : Except Overrun (VldtErr × Bytes) :=
  let size := intSize file
  if size < 32 then .ok (.sizeMismatch, file)
  else do
    let off := (size - 32).toNat
    let buf := (file.drop off).take 32
    require (key.size ≤ 32) .read
    match key.decrypt (buf.take key.size) with
    | none => .ok (.decrFail, file)
    | some m =>
      require (m.length ≤ digestLength) .write
      let signature := m ++ stack.val.drop m.length
      let cut := file.take off
      let res := if (sha cut).val = signature then VldtErr.success else .fail
      -- `size` bytes are written back from `buf`
      require (size ≤ 32) .read
      .ok (res, cut ++ buf.take size.toNat)

/-- The last 32 bytes decrypt to the hash of the bytes before them. -/
def Signed (file : Bytes) : Prop :=
  ∃ before last, file = before ++ last ∧ last.length = digestLength ∧
    key.decrypt last = some (sha before).val

/-- The file is left as it is, and accepted exactly if signed; what was just signed is accepted. -/
structure ElfRight (stack : Digest) (file : Bytes) : Prop where
  validates : ∃ res, sfsElfValidate sha key stack file = .ok (res, file) ∧
    (res = .success ↔ Signed sha key file)
  encodes : ∀ seed file', sfsElfEncode sha key seed file = .ok (.success, file') →
    ∃ file'', sfsElfValidate sha key stack file' = .ok (.success, file'')

/-- The file counts as too short, and is not signed; or the key is so small that nothing is read
behind `buf`, and the decryption fails, or the file is no more than 32 bytes and is rejected. -/
def Harmless (stack : Digest) (file : Bytes) : Prop :=
  (intSize file < 32 ∧ ¬ Signed sha key file) ∨
    32 ≤ intSize file ∧ key.size ≤ 32 ∧
      ∀ m ∈ key.decrypt ((file.drop (intSize file - 32).toNat).take key.size),
        file.length = 32 ∧ (sha []).val ≠ m ++ stack.val.drop m.length

variable {sha key} {stack : Digest} {file : Bytes}

theorem sfsElfEncode_ne_success (seed file' : Bytes) :
    sfsElfEncode sha key seed file ≠ .ok (.success, file') := by
  unfold sfsElfEncode
  cases hcode : key.encrypt seed (sha file).val with
  | none => simp
  | some encCode =>
    intro h
    obtain ⟨u, hfits, -⟩ := bind_eq_ok.mp h
    have hfits := require_eq_ok.mp hfits
    have hroom : ¬ key.size < (sha file).val.length + 11 := by
      rw [← key.encrypt_none seed, hcode]
      simp
    rw [key.encrypt_length seed _ _ hcode] at hfits
    rw [(sha file).property] at hroom
    simp only [digestLength] at hfits hroom
    omega

theorem not_signed_of_size_le (h : key.size ≤ 32) : ¬ Signed sha key file := by
  rintro ⟨before, last, -, -, hdecrypt⟩
  have hlength := key.decrypt_length last _ hdecrypt
  rw [(sha before).property] at hlength
  simp only [digestLength] at hlength
  omega

theorem elfRight_iff_validates : ElfRight sha key stack file ↔
    ∃ res, sfsElfValidate sha key stack file = .ok (res, file) ∧
      (res = .success ↔ Signed sha key file) :=
  ⟨fun h => h.validates, fun h => ⟨h, fun seed file' hencode =>
    absurd hencode (sfsElfEncode_ne_success seed file')⟩⟩

theorem validates_short (h : intSize file < 32) :
    sfsElfValidate sha key stack file = .ok (.sizeMismatch, file) := by
  unfold sfsElfValidate
  rw [if_pos h]

theorem validates_large_key (hsize : ¬ intSize file < 32) (hkey : ¬ key.size ≤ 32) :
    sfsElfValidate sha key stack file = .error .read := by
  unfold sfsElfValidate
  rw [if_neg hsize, require_bind_of_not hkey]

theorem validates_small_key (hsize : ¬ intSize file < 32) (hkey : key.size ≤ 32) :
    sfsElfValidate sha key stack file =
      match key.decrypt ((file.drop (intSize file - 32).toNat).take key.size) with
      | none => .ok (.decrFail, file)
      | some m => require (intSize file ≤ 32) .read >>= fun _ =>
          .ok (if (sha (file.take (intSize file - 32).toNat)).val = m ++ stack.val.drop m.length
              then .success else .fail,
            file.take (intSize file - 32).toNat ++
              ((file.drop (intSize file - 32).toNat).take 32).take (intSize file).toNat) := by
  unfold sfsElfValidate
  rw [if_neg hsize, require_bind_of hkey]
  simp only [List.take_take, min_eq_left hkey]
  cases hdecrypt : key.decrypt ((file.drop (intSize file - 32).toNat).take key.size) with
  | none => rfl
  | some m =>
    have hfits : m.length ≤ digestLength := by
      have := key.decrypt_length _ m hdecrypt
      unfold digestLength
      omega
    simp only [require_bind_of hfits]

theorem take_intSize_eq_iff (h : intSize file = 32) :
    file.take (intSize file - 32).toNat ++
        ((file.drop (intSize file - 32).toNat).take 32).take (intSize file).toNat = file ↔
      file.length = 32 := by
  rw [h]
  simp only [sub_self, Int.toNat_zero, List.take_zero, List.drop_zero, List.nil_append]
  rw [show (32 : ℤ).toNat = 32 from rfl, List.take_take, min_self, List.take_eq_self_iff]
  refine ⟨fun hle => ?_, fun hlen => hlen.le⟩
  unfold intSize at h
  rw [BitVec.toInt_eq_toNat_cond, BitVec.toNat_ofNat] at h
  split at h <;> omega

theorem intSize_of_length (h : file.length = 32) : intSize file = 32 := by
  unfold intSize
  rw [h]
  decide

/-- A validation is right just in these cases; with a key of any use it reads behind `buf`. -/
theorem elfRight_iff (sha : Bytes → Digest) (key : RsaPair) (stack : Digest) (file : Bytes) :
    ElfRight sha key stack file ↔ Harmless sha key stack file := by
  rw [elfRight_iff_validates]
  unfold Harmless
  by_cases hsize : intSize file < 32
  · simp [validates_short hsize, hsize, not_le.mpr hsize]
  by_cases hkey : key.size ≤ 32
  swap
  · simp [validates_large_key hsize hkey, hsize, hkey]
  have hunsigned : ¬ Signed sha key file := not_signed_of_size_le hkey
  rw [validates_small_key hsize hkey]
  cases hdecrypt : key.decrypt ((file.drop (intSize file - 32).toNat).take key.size) with
  | none => simp [hunsigned, hsize, hkey, not_lt.mp hsize]
  | some m =>
    simp only [hsize, hkey, not_lt.mp hsize, false_and, false_or, true_and, Option.mem_some_iff,
      forall_eq']
    by_cases hle : intSize file ≤ 32
    swap
    · refine iff_of_false ?_ fun h => hle (intSize_of_length h.1).le
      rw [require_bind_of_not hle]
      simp
    have heq : intSize file = 32 := le_antisymm hle (not_lt.mp hsize)
    have hnone : file.take (intSize file - 32).toNat = [] := by simp [heq]
    rw [require_bind_of hle, ← take_intSize_eq_iff heq]
    constructor
    · rintro ⟨res, hok, hiff⟩
      obtain ⟨hres, hfile⟩ := Prod.mk.inj (Except.ok.inj hok)
      refine ⟨hfile, fun hsha => hunsigned (hiff.mp ?_)⟩
      rw [← hres, hnone, if_pos hsha]
    · rintro ⟨hfile, hsha⟩
      refine ⟨.fail, ?_, iff_of_false (by decide) hunsigned⟩
      rw [hfile, hnone, if_neg hsha]

end Files

def toyEncrypt (k : ℕ) (m : Bytes) : Option Bytes :=
  if m.length + 11 ≤ k then
    some (UInt8.ofNat m.length :: (m ++ List.replicate (k - (m.length + 1)) 0))
  else none

def toyDecrypt (k : ℕ) : Bytes → Option Bytes
  | [] => none
  | n :: rest => if n.toNat + 11 ≤ k then some (rest.take n.toNat) else none

theorem toyEncrypt_none (k : ℕ) (m : Bytes) : toyEncrypt k m = none ↔ k < m.length + 11 := by
  unfold toyEncrypt
  split_ifs <;> simp <;> omega

theorem toyEncrypt_length (k : ℕ) (m c : Bytes) (h : toyEncrypt k m = some c) : c.length = k := by
  unfold toyEncrypt at h
  split_ifs at h
  obtain rfl := Option.some.inj h
  simp
  omega

theorem toyDecrypt_length (k : ℕ) (c m : Bytes) (h : toyDecrypt k c = some m) :
    m.length + 11 ≤ k := by
  cases c with
  | nil => cases h
  | cons n rest =>
    rw [toyDecrypt] at h
    split_ifs at h
    obtain rfl := Option.some.inj h
    have := List.length_take_le n.toNat rest
    omega

theorem toyDecrypt_toyEncrypt {k : ℕ} (hk : k < 256) (m c : Bytes) (h : toyEncrypt k m = some c) :
    toyDecrypt k c = some m := by
  unfold toyEncrypt at h
  split_ifs at h with hlen
  obtain rfl := Option.some.inj h
  have hn : (UInt8.ofNat m.length).toNat = m.length := by
    rw [UInt8.toNat_ofNat']
    exact Nat.mod_eq_of_lt (by omega)
  simp [toyDecrypt, hn, hlen]

def toyPair (k : ℕ) (hk : k < 256) : RsaPair where
  size := k
  encrypt _ := toyEncrypt k
  decrypt := toyDecrypt k
  encrypt_none _ := toyEncrypt_none k
  encrypt_length _ := toyEncrypt_length k
  decrypt_length := toyDecrypt_length k
  decrypt_encrypt _ := toyDecrypt_toyEncrypt hk

theorem zeros_length : (List.replicate 32 (0 : UInt8)).length = digestLength := rfl

def zeroDigest : Digest := ⟨List.replicate 32 0, zeros_length⟩

theorem size_lt : 64 < 256 := by decide

/-- With a key of 64 bytes, 32 bytes are read behind `buf` whatever the file holds. -/
theorem elfValidate_overrun :
    sfsElfValidate (fun _ => zeroDigest) (toyPair 64 size_lt) zeroDigest (List.replicate 40 0) =
        .error .read ∧
      ¬ ElfRight (fun _ => zeroDigest) (toyPair 64 size_lt) zeroDigest (List.replicate 40 0) := by
  have hread : sfsElfValidate (fun _ => zeroDigest) (toyPair 64 size_lt) zeroDigest
      (List.replicate 40 0) = .error .read := validates_large_key (by decide) (by decide)
  refine ⟨hread, ?_⟩
  rintro ⟨⟨res, hok, -⟩, -⟩
  rw [hread] at hok
  cases hok

end SeamlessStack.Validate
