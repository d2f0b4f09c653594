import SeamlessStack.Metadata.Fill

/-! When `fill_inode` rebuilds the inode that `flatten_inode` wrote. The writer gives an extent 32
bytes and its handles, the reader takes 40 bytes and the handles, and they do not agree about
extended attributes and segments. -/
namespace SeamlessStack.Metadata

open Lib

/-- The filled inode holds what the inode held. -/
structure Restored (env : Env) (inode : Inode) (out : Filled) : Prop where
  fixed : out.fixed = Block.ofBytes inode.fixed
  xattr : Block.ofBytes inode.xattr <+: out.xattr
  erasure : ∀ (k : ℕ) er, inode.erasure[k]? = some er → ∃ p,
    out.erasure.read (extentSize * k + getExtentFixedFieldsLen : ℕ) pointerSize =
      some (env.pointer p) ∧
    out.handles[p]? = some (Block.ofBytes er.handle) ∧
    out.erasure.read (extentSize * k + cksumOffset : ℕ) cksumSize =
      (Block.ofBytes er.fixed).read cksumOffset cksumSize
  extents : ∀ (k : ℕ) ex, inode.extents[k]? = some ex →
    out.extents.read (extentSize * k : ℕ) getExtentFixedFieldsLen =
      some (Block.ofBytes ex.fixed) ∧
    ∃ p, out.extents.read (extentSize * k + getExtentFixedFieldsLen : ℕ) pointerSize =
        some (env.pointer p) ∧
      out.handles[p]? = some (Block.ofBytes ex.path)
  sfsds : Block.ofBytes inode.sfsds <+: out.sfsds

/-- Wherever blocks are and whatever the inode held, both functions succeed and restore it. -/
def RoundTrips (inode : Inode) : Prop :=
  ∀ (env : Env) (target : Target), env.Succeeds → ∃ r out, flattenInode env inode = .ok r ∧
    fillInode env target r.data = .ok out ∧ Restored env inode out

/-- The inodes that survive. -/
def Storable (inode : Inode) : Prop :=
  inode.xattr = [] ∧ inode.erasure = [] ∧
    (inode.extents = [] ∨
      ∃ ex, inode.extents = [ex] ∧ 1 ≤ ex.numreplicas ∧ inode.numclients ≤ 1)

theorem Inode.plainRecord_read (inode : Inode) :
    inode.plainRecord.read 0 getInodeFixedFieldsLen = some (Block.ofBytes inode.fixed) := by
  have h := Block.read_append [] (Block.ofBytes inode.fixed)
    (extentsBlock inode.extents ++ Block.ofBytes inode.sfsds)
  rw [Block.ofBytes_length, inode.fixed_length] at h
  simpa [Inode.plainRecord] using h

theorem Inode.plainRecord_u32 (inode : Inode) {k : ℕ} (hk : k + 4 ≤ getInodeFixedFieldsLen) :
    inode.plainRecord.u32 k = (Block.ofBytes inode.fixed).u32 k := by
  rw [Block.u32_of_read inode.plainRecord_read hk, Int.zero_add]

variable {env : Env} {inode : Inode}

/-- `fill_inode` on the record of an inode without extended attributes and segments. -/
theorem fillInode_plain (henv : env.Succeeds) {target : Target} (hxattr : inode.xattr = [])
    (herasure : inode.erasure = []) {out : Filled} :
    fillInode env target inode.plainRecord = .ok out ↔
      ∃ w sfsds, iterate (fillExtent env getInodeFixedFieldsLen) inode.extents.length 0
          ⟨inode.plainRecord, 0, [], []⟩ = .ok w ∧
        fillSfsds w inode.numclients = .ok sfsds ∧
        out = ⟨Block.ofBytes inode.fixed, target.xattr, [], w.array, sfsds, w.handles⟩ := by
  have hx := inode.plainRecord_u32 (k := xattrlenOffset) (by decide)
  have he := inode.plainRecord_u32 (k := numerasureOffset) (by decide)
  have hn := inode.plainRecord_u32 (k := numextentsOffset) (by decide)
  rw [inode.xattr_eq, hxattr] at hx
  rw [inode.erasure_eq, herasure] at he
  rw [inode.extents_eq] at hn
  have hextents : (toInt inode.extents.length).toNat = inode.extents.length := by
    rw [toInt_eq (by omega) (by exact_mod_cast inode.extents_lt), Int.toNat_natCast]
  have hclients : (toInt inode.numclients).toNat = inode.numclients := by
    rw [toInt_eq (by omega) (by exact_mod_cast inode.numclients_lt), Int.toNat_natCast]
  have hzero : (toInt (([] : List UInt8).length : ℤ)).toNat = 0 := by decide
  unfold fillInode
  constructor
  · intro h
    obtain ⟨fixed, hfixed, h⟩ := bind_eq_ok.mp h
    obtain ⟨x, hx', h⟩ := bind_eq_ok.mp h
    obtain ⟨-, -, h⟩ := bind_eq_ok.mp h
    obtain ⟨e, he', h⟩ := bind_eq_ok.mp h
    obtain ⟨v, hv, h⟩ := bind_eq_ok.mp h
    obtain ⟨n, hn', h⟩ := bind_eq_ok.mp h
    obtain ⟨w, hw, h⟩ := bind_eq_ok.mp h
    obtain ⟨-, -, h⟩ := bind_eq_ok.mp h
    obtain ⟨c, hc, h⟩ := bind_eq_ok.mp h
    obtain ⟨sfsds, hsfsds, hout⟩ := bind_eq_ok.mp h
    rw [access_eq_ok, inode.plainRecord_read] at hfixed
    rw [access_eq_ok, he] at he'
    obtain rfl := Option.some.inj hfixed
    obtain rfl := Option.some.inj he'
    obtain rfl := Except.ok.inj hv
    rw [access_eq_ok, hn] at hn'
    obtain rfl := Option.some.inj hn'
    rw [access_eq_ok, inode.numclients_eq] at hc
    obtain rfl := Option.some.inj hc
    rw [hextents, Int.add_zero] at hw
    rw [hclients] at hsfsds
    exact ⟨w, sfsds, hw, hsfsds, (Except.ok.inj hout).symm⟩
  · intro h
    obtain ⟨w, sfsds, hw, hsfsds, rfl⟩ := h
    rw [inode.plainRecord_read, hx, he]
    refine bind_eq_ok.mpr ⟨_, rfl, ?_⟩
    refine bind_eq_ok.mpr ⟨_, rfl, ?_⟩
    refine bind_eq_ok.mpr ⟨(), ?_, ?_⟩
    · rw [hzero]
      rfl
    refine bind_eq_ok.mpr ⟨_, rfl, ?_⟩
    refine bind_eq_ok.mpr ⟨⟨inode.plainRecord, 0, [], []⟩, rfl, ?_⟩
    refine bind_eq_ok.mpr ⟨_, access_eq_ok.mpr hn, ?_⟩
    refine bind_eq_ok.mpr ⟨w, ?_, ?_⟩
    · rw [hextents, Int.add_zero]
      exact hw
    refine bind_eq_ok.mpr ⟨(), henv.allocate _, ?_⟩
    refine bind_eq_ok.mpr ⟨_, access_eq_ok.mpr inode.numclients_eq, ?_⟩
    refine bind_eq_ok.mpr ⟨sfsds, ?_, rfl⟩
    rw [hclients]
    exact hsfsds

theorem fillSfsds_one {w : Walk} {numclients : ℕ} (h : numclients ≤ 1) :
    fillSfsds w numclients = .ok (List.replicate (pointerSize * numclients) .undef) := by
  unfold fillSfsds
  rw [if_neg (by omega)]
  rfl

def movingEnv : Env where
  ok _ := true
  moved _ := true
  address _ _ := 0

/-- An inode with extents comes back only if it has one, with replicas and at most one client,
unless `covered` wraps. -/
theorem restored_extents (henv : env.Succeeds) {w : Walk}
    {sfsds : Block} (hlt : inode.plainRecord.length < 2147483648) (hne : inode.extents ≠ [])
    (hw : iterate (fillExtent env getInodeFixedFieldsLen) inode.extents.length 0
      ⟨inode.plainRecord, 0, [], []⟩ = .ok w)
    (hsfsds : fillSfsds w inode.numclients = .ok sfsds)
    (hslots : ∀ (k : ℕ) ex, inode.extents[k]? = some ex →
      w.array.read (extentSize * k : ℕ) getExtentFixedFieldsLen = some (Block.ofBytes ex.fixed)) :
    ∃ ex, inode.extents = [ex] ∧ 1 ≤ ex.numreplicas ∧ inode.numclients ≤ 1 := by
  have hfits : (⟨inode.plainRecord, 0, [], []⟩ : Walk).Fits := ⟨by simp, hlt⟩
  obtain ⟨n, hblock, hcovered, hdata, hle, hend⟩ :=
    iterate_restored henv (by simp [pointerSize, getInodeFixedFieldsLen]) inode.extents hfits hne
      rfl (by simpa using hslots) hw
  have hlen := inode.plainRecord_length
  rw [hblock] at hlen
  simp only at hdata hle hend
  have hclients : inode.numclients ≤ 1 := by
    by_contra hmany
    unfold fillSfsds at hsfsds
    rw [if_pos (by omega)] at hsfsds
    obtain ⟨copied, hcopied, -⟩ := bind_eq_ok.mp hsfsds
    obtain ⟨-, hread, -⟩ := Block.read_eq_some.mp (access_eq_ok.mp hcopied)
    have hpos := List.length_pos_iff.mpr hne
    rw [hdata, hlen, hcovered] at hread
    simp only [getInodeFixedFieldsLen, getExtentFixedFieldsLen, extentSize, pointerSize] at hread
    push_cast at hread
    omega
  have hnone : inode.numclients - 1 = 0 := by omega
  rw [hnone, Nat.mul_zero, Nat.add_zero] at hlen
  rw [hlen, hcovered] at hle
  rw [hlen] at hend
  simp only [getInodeFixedFieldsLen, getExtentFixedFieldsLen, extentSize, pointerSize,
    fileHandleSize] at hle hend hblock
  push_cast at hle hend
  have hone : inode.extents.length = 1 := by
    have hpos := List.length_pos_iff.mpr hne
    omega
  obtain ⟨ex, hex⟩ := List.length_eq_one_iff.mp hone
  refine ⟨ex, hex, ?_, hclients⟩
  rw [hex, extentsBlock_length_cons] at hblock
  simp only [extentsBlock, List.flatMap_nil, List.length_nil, getExtentFixedFieldsLen,
    fileHandleSize, List.length_cons] at hblock
  rw [hone] at hend
  omega

theorem RoundTrips.storable (h : RoundTrips inode)
    (hlt : inode.plainRecord.length < 2147483648) : Storable inode := by
  have henv : movingEnv.Succeeds := fun _ => rfl
  obtain ⟨r, out, hflat, hfill, hrestored⟩ := h movingEnv ⟨[]⟩ henv
  have hxattr := flattenInode_xattr rfl hflat
  have herasure := flattenInode_erasure hflat
  refine ⟨hxattr, herasure, ?_⟩
  obtain ⟨len, hplain⟩ := flattenInode_plain henv hxattr herasure
  rw [hplain] at hflat
  rw [← Except.ok.inj hflat] at hfill
  obtain ⟨w, sfsds, hw, hsfsds, rfl⟩ := (fillInode_plain henv hxattr herasure).mp hfill
  by_cases hne : inode.extents = []
  · exact Or.inl hne
  · right
    apply restored_extents henv hlt hne hw hsfsds
    intro k ex hk
    exact (hrestored.extents k ex hk).1

theorem fillSfsds_plain (hextents : inode.extents = []) :
    ∃ sfsds, fillSfsds ⟨inode.plainRecord, 0, [], []⟩ inode.numclients = .ok sfsds ∧
      Block.ofBytes inode.sfsds <+: sfsds := by
  have hlength := inode.sfsds_length
  by_cases hmany : 1 < inode.numclients
  · have hread := Block.read_append (Block.ofBytes inode.fixed) (Block.ofBytes inode.sfsds) []
    have hplain : Block.ofBytes inode.fixed ++ Block.ofBytes inode.sfsds ++ [] =
        inode.plainRecord := by
      simp [Inode.plainRecord, hextents, extentsBlock]
    rw [hplain, Block.ofBytes_length, Block.ofBytes_length, inode.fixed_length, hlength] at hread
    have hwrite : ∃ sfsds, Block.write (List.replicate (pointerSize * inode.numclients) .undef) 0
        (Block.ofBytes inode.sfsds) = some sfsds := by
      refine ⟨_, Block.write_eq_some.mpr ⟨le_refl 0, ?_, rfl⟩⟩
      rw [Block.ofBytes_length, hlength, List.length_replicate]
      simp only [pointerSize]
      omega
    obtain ⟨sfsds, hsfsds⟩ := hwrite
    refine ⟨sfsds, ?_, ?_⟩
    · unfold fillSfsds
      rw [if_pos hmany]
      refine bind_eq_ok.mpr ⟨_, access_eq_ok.mpr ?_, access_eq_ok.mpr hsfsds⟩
      rw [Int.add_zero]
      exact hread
    · obtain ⟨-, -, rfl⟩ := Block.write_eq_some.mp hsfsds
      exact ⟨_, rfl⟩
  · refine ⟨_, fillSfsds_one (by omega), ?_⟩
    rw [Inode.sfsds_eq_nil (by omega)]
    exact List.nil_prefix

theorem took_single {e : Extent} (he : inode.extents = [e])
    (hpos : 1 ≤ e.numreplicas) (hsfsds : inode.sfsds = []) :
    ∃ t ex, Took env getInodeFixedFieldsLen ⟨inode.plainRecord, 0, [], []⟩ t e.numreplicas ex ∧
      t.array = ex ∧ t.handles = [Block.ofBytes e.path] ∧
      ex.read 0 getExtentFixedFieldsLen = some (Block.ofBytes e.fixed) ∧
      ex.read getExtentFixedFieldsLen pointerSize = some (env.pointer 0) := by
  have hplain : inode.plainRecord =
      Block.ofBytes inode.fixed ++ Block.ofBytes e.fixed ++ Block.ofBytes e.path := by
    simp [Inode.plainRecord, he, hsfsds, extentsBlock, Block.ofBytes]
  have hfixed : inode.plainRecord.read getInodeFixedFieldsLen getExtentFixedFieldsLen =
      some (Block.ofBytes e.fixed) := by
    have h := Block.read_append (Block.ofBytes inode.fixed) (Block.ofBytes e.fixed)
      (Block.ofBytes e.path)
    rwa [← hplain, Block.ofBytes_length, Block.ofBytes_length, inode.fixed_length,
      e.fixed_length] at h
  have hpath : inode.plainRecord.read (getInodeFixedFieldsLen + getExtentFixedFieldsLen : ℕ)
      (e.numreplicas * fileHandleSize) = some (Block.ofBytes e.path) := by
    have h := Block.read_append (Block.ofBytes inode.fixed ++ Block.ofBytes e.fixed)
      (Block.ofBytes e.path) []
    rwa [List.append_nil, ← hplain, List.length_append, Block.ofBytes_length,
      Block.ofBytes_length, Block.ofBytes_length, inode.fixed_length, e.fixed_length,
      e.path_length] at h
  have hlen : inode.plainRecord.length =
      getInodeFixedFieldsLen + getExtentFixedFieldsLen + e.numreplicas * fileHandleSize := by
    rw [hplain]
    simp only [List.length_append, Block.ofBytes_length, inode.fixed_length, e.fixed_length,
      e.path_length]
  have hdata : ∃ data, inode.plainRecord.write
      (getInodeFixedFieldsLen + getExtentFixedFieldsLen : ℕ) (env.pointer 0) = some data := by
    refine ⟨_, Block.write_eq_some.mpr ⟨by omega, ?_, rfl⟩⟩
    rw [env.pointer_length, hlen]
    simp only [pointerSize, fileHandleSize]
    omega
  obtain ⟨data, hdata⟩ := hdata
  have hex : ∃ ex, data.read getInodeFixedFieldsLen extentSize = some ex := by
    refine ⟨_, Block.read_eq_some.mpr ⟨by omega, ?_, rfl⟩⟩
    rw [Block.write_length hdata, hlen]
    simp only [getExtentFixedFieldsLen, extentSize, fileHandleSize]
    omega
  obtain ⟨ex, hex⟩ := hex
  have hexlen := Block.read_length hex
  refine ⟨⟨data, toInt (0 + (extentSize + e.numreplicas * fileHandleSize : ℕ)), ex,
    [Block.ofBytes e.path]⟩, ex, ⟨?_, ⟨Block.ofBytes e.path, ?_, by simp⟩, ?_, ?_, ?_,
    by dsimp only⟩, by dsimp only,
    by dsimp only, ?_, ?_⟩
  · rw [Int.add_zero, ← Block.u32_of_read hfixed (by decide)]
    exact e.numreplicas_eq
  · rw [Int.add_zero, ← Nat.cast_add]
    exact hpath
  · rw [Int.add_zero, ← Nat.cast_add]
    exact hdata
  · rw [Int.add_zero]
    exact hex
  · have h := Block.realloc_write_end [] ex
    rw [hexlen] at h
    exact h
  · have h := Block.read_of_read (k := 0) hex (show 0 + getExtentFixedFieldsLen ≤ extentSize by
    decide)
    rw [Nat.cast_zero, Int.add_zero] at h
    rw [h, Block.read_write_before hdata (by push_cast; omega)]
    exact hfixed
  · rw [Block.read_of_read hex (by decide), ← Nat.cast_add, ← env.pointer_length 0]
    exact Block.read_write_self hdata

theorem Storable.roundTrips (h : Storable inode) : RoundTrips inode := by
  intro env target henv
  obtain ⟨hxattr, herasure, hextents⟩ := h
  obtain ⟨len, hflat⟩ := flattenInode_plain henv hxattr herasure
  have hout : ∀ {w sfsds}, iterate (fillExtent env getInodeFixedFieldsLen) inode.extents.length 0
      ⟨inode.plainRecord, 0, [], []⟩ = .ok w → fillSfsds w inode.numclients = .ok sfsds →
      fillInode env target inode.plainRecord = .ok
        ⟨Block.ofBytes inode.fixed, target.xattr, [], w.array, sfsds, w.handles⟩ := by
    intro w sfsds hw hs
    exact (fillInode_plain henv hxattr herasure).mpr ⟨w, sfsds, hw, hs, rfl⟩
  have hprefix : Block.ofBytes inode.xattr <+: target.xattr := by
    rw [hxattr]
    exact List.nil_prefix
  obtain hnil | ⟨e, he, hpos, hclients⟩ := hextents
  · obtain ⟨sfsds, hs, hsfsds⟩ := fillSfsds_plain hnil
    refine ⟨_, _, hflat, hout (by rw [hnil]; rfl) hs, rfl, hprefix, ?_, ?_, hsfsds⟩
    · simp [herasure]
    · simp [hnil]
  · have hnone := Inode.sfsds_eq_nil hclients
    obtain ⟨t, ex, ht, harray, hhandles, hfixed, hpointer⟩ := took_single he hpos hnone
    have hw : iterate (fillExtent env getInodeFixedFieldsLen) inode.extents.length 0
        ⟨inode.plainRecord, 0, [], []⟩ = .ok t := by
      rw [he]
      exact (iterate_succ henv).mpr ⟨t, _, ex, ht, rfl⟩
    refine ⟨_, _, hflat, hout hw (fillSfsds_one hclients), rfl, hprefix, ?_, ?_, ?_⟩
    · simp [herasure]
    · intro k ex' hk
      rw [he] at hk
      have hlt : k < 1 := (List.getElem?_eq_some_iff.mp hk).1
      have hk0 : k = 0 := by omega
      subst hk0
      obtain rfl := Option.some.inj hk
      simp only [harray, hhandles, Nat.mul_zero, Nat.zero_add]
      exact ⟨hfixed, 0, hpointer, rfl⟩
    · rw [hnone]
      exact List.nil_prefix

/-- An inode survives its record if it has neither extended attributes nor segments, and at most one
extent, with replicas and at most one client; of records shorter than `INT_MAX` only these do. -/
theorem inodeRecord_roundTrips (inode : Inode) :
    (Storable inode → RoundTrips inode) ∧
    (inode.plainRecord.length < 2147483648 → RoundTrips inode → Storable inode) :=
  ⟨Storable.roundTrips, fun hlt h => h.storable hlt⟩

def zeros (n : ℕ) : List UInt8 := List.replicate n 0

theorem zeros_length (n : ℕ) : (zeros n).length = n := List.length_replicate

def oneReplica : Extent where
  fixed := zeros 28 ++ [1, 0, 0, 0]
  path := zeros fileHandleSize
  numreplicas := 1
  fixed_length := by decide
  path_length := by rw [zeros_length, Nat.one_mul]
  numreplicas_eq := by decide

def oneExtentFixed (numclients : UInt8) : List UInt8 :=
  zeros 4236 ++ ([numclients, 0, 0, 0] ++ ([0, 0, 0, 0] ++ ([0, 0, 0, 0] ++ ([1, 0, 0, 0] ++
    ([0, 0, 0, 0] ++ zeros 16)))))

theorem oneExtentFixed_u32 {numclients : UInt8} (before digits after : List UInt8) {k n : ℕ}
    (hsplit : oneExtentFixed numclients = before ++ digits ++ after) (hk : before.length = k)
    (hdigits : digits.length = 4) (hn : littleEndian digits = n) :
    (Block.ofBytes (oneExtentFixed numclients)).u32 k = some n := by
  rw [hsplit, ← hk, Block.u32_ofBytes before after hdigits, hn]

/-- An inode with one extent, one replica of it, and up to 255 clients. -/
def oneExtent (numclients : UInt8) : Inode where
  fixed := oneExtentFixed numclients
  xattr := []
  erasure := []
  extents := [oneReplica]
  numclients := numclients.toNat
  sfsds := zeros (pointerSize * (numclients.toNat - 1))
  fixed_length := by
    simp only [oneExtentFixed, List.length_append, List.length_cons, List.length_nil, zeros_length]
    rfl
  xattr_eq := oneExtentFixed_u32
    (zeros 4236 ++ [numclients, 0, 0, 0] ++ [0, 0, 0, 0] ++ [0, 0, 0, 0] ++ [1, 0, 0, 0])
    [0, 0, 0, 0] (zeros 16) (by simp only [oneExtentFixed, List.append_assoc])
    (by simp only [List.length_append, zeros_length]; rfl) rfl rfl
  xattr_lt := by simp
  erasure_eq := oneExtentFixed_u32 (zeros 4236 ++ [numclients, 0, 0, 0]) [0, 0, 0, 0]
    ([0, 0, 0, 0] ++ [1, 0, 0, 0] ++ [0, 0, 0, 0] ++ zeros 16)
    (by simp only [oneExtentFixed, List.append_assoc])
    (by simp only [List.length_append, zeros_length]; rfl) rfl rfl
  extents_eq := oneExtentFixed_u32
    (zeros 4236 ++ [numclients, 0, 0, 0] ++ [0, 0, 0, 0] ++ [0, 0, 0, 0])
    [1, 0, 0, 0] ([0, 0, 0, 0] ++ zeros 16) (by simp only [oneExtentFixed, List.append_assoc])
    (by simp only [List.length_append, zeros_length]; rfl) rfl rfl
  extents_lt := by simp
  numclients_eq := oneExtentFixed_u32 (zeros 4236) [numclients, 0, 0, 0]
    ([0, 0, 0, 0] ++ [0, 0, 0, 0] ++ [1, 0, 0, 0] ++ [0, 0, 0, 0] ++ zeros 16)
    (by simp only [oneExtentFixed, List.append_assoc]) (zeros_length 4236) rfl
    (by simp [littleEndian])
  numclients_lt := by
    have := numclients.toNat_lt
    omega
  sfsds_length := zeros_length _

theorem inodeRecord_roundTrips_one : RoundTrips (oneExtent 1) :=
  (inodeRecord_roundTrips (oneExtent 1)).1 ⟨rfl, rfl,
    Or.inr ⟨oneReplica, rfl, le_refl 1, le_refl 1⟩⟩

/-- With a second client, the pointer to it is looked for 8 bytes too far. -/
theorem inodeRecord_two_clients : ¬ RoundTrips (oneExtent 2) := by
  intro h
  have hlt : (oneExtent 2).plainRecord.length < 2147483648 := by
    rw [Inode.plainRecord_length, show (oneExtent 2).extents = [oneReplica] from rfl,
      extentsBlock_length_cons]
    simp [extentsBlock, oneExtent, oneReplica, getInodeFixedFieldsLen, getExtentFixedFieldsLen,
      fileHandleSize, pointerSize]
  obtain ⟨-, -, hnil | ⟨-, -, -, hclients⟩⟩ := h.storable hlt
  · cases hnil
  · exact absurd hclients (by decide)

end SeamlessStack.Metadata
