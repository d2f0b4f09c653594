import Mathlib.Data.List.TakeWhile
import SeamlessStack.Cli.Command

/-! What becomes of a command that is serialized and deserialized. The deserializers add bits to
memory that nobody cleared, and write no terminators. -/
namespace SeamlessStack.Cli
open Lib

section Bits
variable {M : Shifts} {w n i j : ℕ}

theorem serUint_getElem? (val : BitVec w) (hi : i < n) (h4 : i < 4) :
    (serUint M val n)[i]? = some ⟨(val >>> (8 * i)).setWidth 8⟩ := by
  have hbyte : ((val.setWidth 64 &&& (M.shlMask (8 * i)).signExtend 64) >>> (8 * i)).setWidth 8 =
      (val >>> (8 * i)).setWidth 8 := by
    refine BitVec.eq_of_getLsbD_eq fun j hj => ?_
    have hmask : ((M.shlMask (8 * i)).signExtend 64).getLsbD (8 * i + j) = true := by
      have hlt : 8 * i + j < 32 := by omega
      simp only [BitVec.getLsbD_signExtend, Shifts.shlMask, show 8 * i < 32 by omega, if_true,
        BitVec.getLsbD_shiftLeft, hlt]
      have hff : (0xFF#32).getLsbD j = true := by
        interval_cases j <;> rfl
      simp [hff]
      omega
    simp only [BitVec.getLsbD_setWidth, BitVec.getLsbD_ushiftRight, BitVec.getLsbD_and, hmask]
    have h64 : 8 * i + j < 64 := by omega
    simp [h64]
  simp [serUint, hi, hbyte]

theorem getLsbD_deserUint (bytes : List UInt8) (val : BitVec w) :
    (deserUint M i bytes val).getLsbD j = true ↔ val.getLsbD j = true ∨
      ∃ k b, bytes[k]? = some b ∧ ((M.shlByte b (8 * (i + k))).signExtend w).getLsbD j = true := by
  induction bytes generalizing i val with
  | nil => simp [deserUint]
  | cons b bytes ih =>
    rw [deserUint, ih, BitVec.getLsbD_or, Bool.or_eq_true, or_assoc]
    refine or_congr Iff.rfl ?_
    constructor
    · rintro (h | ⟨k, b', hb, h⟩)
      · exact ⟨0, b, rfl, h⟩
      · exact ⟨k + 1, b', hb, by rwa [show i + (k + 1) = i + 1 + k by omega]⟩
    · rintro ⟨k, b', hb, h⟩
      cases k with
      | zero =>
        obtain rfl := Option.some.inj hb
        exact Or.inl h
      | succ k =>
        exact Or.inr ⟨k, b', hb, by rwa [show i + 1 + k = i + (k + 1) by omega]⟩

theorem getLsbD_shlByte (b : UInt8) (h4 : i < 4) (hj : j < w) (h32 : j < 32) :
    ((M.shlByte b (8 * i)).signExtend w).getLsbD j = true ↔
      8 * i ≤ j ∧ b.toBitVec.getLsbD (j - 8 * i) = true := by
  simp only [BitVec.getLsbD_signExtend, Shifts.shlByte, show 8 * i < 32 by omega, if_true,
    BitVec.getLsbD_shiftLeft, BitVec.getLsbD_setWidth, h32, hj, decide_true, Bool.true_and,
    Bool.and_eq_true, Bool.not_eq_true', decide_eq_false_iff_not, not_lt, decide_eq_true_eq]
  constructor
  · rintro ⟨h, -, hb⟩
    exact ⟨h, hb⟩
  · rintro ⟨h, hb⟩
    exact ⟨h, by omega, hb⟩

/-- A number of up to four bytes comes back, on top of what was there. -/
theorem deserUint_serUint (hn : n ≤ 4) (val old : BitVec (8 * n)) :
    deserUint M 0 (serUint M val n) old = old ||| val := by
  refine BitVec.eq_of_getLsbD_eq fun j hj => ?_
  rw [Bool.eq_iff_iff, getLsbD_deserUint, BitVec.getLsbD_or, Bool.or_eq_true]
  refine or_congr Iff.rfl ?_
  constructor
  · rintro ⟨k, b, hb, h⟩
    have hk : k < n := by
      have := (List.getElem?_eq_some_iff.mp hb).1
      simpa [serUint] using this
    rw [serUint_getElem? val hk (by omega)] at hb
    obtain rfl := Option.some.inj hb
    rw [Nat.zero_add, getLsbD_shlByte _ (by omega) hj (by omega)] at h
    obtain ⟨hle, h⟩ := h
    simp only [BitVec.getLsbD_setWidth, BitVec.getLsbD_ushiftRight, Bool.and_eq_true] at h
    rw [← Nat.add_sub_of_le hle]
    exact h.2
  · intro h
    refine ⟨j / 8, _, serUint_getElem? val (by omega) (by omega), ?_⟩
    rw [Nat.zero_add, getLsbD_shlByte _ (by omega) hj (by omega)]
    have hle : 8 * (j / 8) ≤ j := Nat.mul_div_le j 8
    refine ⟨hle, ?_⟩
    simp only [BitVec.getLsbD_setWidth, BitVec.getLsbD_ushiftRight, Bool.and_eq_true,
      decide_eq_true_eq, Nat.add_sub_of_le hle]
    exact ⟨by omega, h⟩

/-- A number of more than four bytes comes back from every machine only if all of its bits are
set. -/
theorem deserUint_serUint_wide (hn : 4 < n) (val old : BitVec (8 * n)) :
    (∀ M, deserUint M 0 (serUint M val n) old = val) ↔ val = BitVec.allOnes _ := by
  constructor
  · intro h
    rw [← h ⟨fun _ => 0, fun _ _ => BitVec.allOnes 32⟩]
    refine BitVec.eq_of_getLsbD_eq fun j hj => ?_
    have hlen : (serUint ⟨fun _ => 0, fun _ _ => BitVec.allOnes 32⟩ val n).length = n := by
      simp [serUint]
    have hone : (BitVec.allOnes (8 * n)).getLsbD j = true := by simpa using hj
    rw [hone, getLsbD_deserUint]
    refine Or.inr ⟨4, _, List.getElem?_eq_getElem (by omega), ?_⟩
    simp only [BitVec.getLsbD_signExtend, Shifts.shlByte, show ¬ 8 * (0 + 4) < 32 by norm_num,
      if_false, hj, decide_true, Bool.true_and]
    split_ifs with h32
    · rw [BitVec.getLsbD_allOnes]
      exact decide_eq_true h32
    · rfl
  · rintro rfl M
    refine BitVec.eq_of_getLsbD_eq fun j hj => ?_
    have hone : (BitVec.allOnes (8 * n)).getLsbD j = true := by simpa using hj
    rw [hone, getLsbD_deserUint]
    right
    by_cases h32 : j < 32
    · refine ⟨j / 8, _, serUint_getElem? _ (by omega) (by omega), ?_⟩
      rw [Nat.zero_add, getLsbD_shlByte _ (by omega) hj h32]
      refine ⟨Nat.mul_div_le j 8, ?_⟩
      simp
      omega
    · -- the sign of the fourth byte
      refine ⟨3, _, serUint_getElem? _ (by omega) (by omega), ?_⟩
      rw [BitVec.getLsbD_signExtend]
      simp [Shifts.shlByte, hj, h32, BitVec.msb_eq_getLsbD_last]
      omega

end Bits

def merge (M : Shifts) (c s : CliCmd) : Item → CliCmd
  | .num f => s.setNum f (deserUint M 0 (serUint M (c.num f) f.bytes) (s.num f))
  | .zeroed f => s.setNum f (deserUint M 0 (serUint M (c.num f) f.bytes) 0)
  | .str f => s.setStr f ((s.str f).memcpy (c.text f))

def Fits (c s : CliCmd) : Item → Prop
  | .str f => (c.text f).length ≤ s.limit f
  | _ => True

def FitsAll (M : Shifts) (c : CliCmd) : List Item → CliCmd → Prop
  | [], _ => True
  | item :: items, s => Fits c s item ∧ FitsAll M c items (merge M c s item)

section Items
variable {M : Shifts} {c s old : CliCmd} {rest : List UInt8} {f : StrField}

theorem readBytes_append (bytes rest : List UInt8) :
    readBytes (bytes ++ rest) bytes.length = .ok (bytes, rest) := by
  rw [readBytes, require_bind_of (by simp)]
  simp

theorem limit_le (c : CliCmd) (f : StrField) : c.limit f ≤ f.cap := by
  cases f with
  | address =>
    show (if (c.num .protocol).toNat = ipv4 then 16 else 40) ≤ 40
    split_ifs <;> omega
  | _ => exact le_rfl

theorem text_length_le (c : CliCmd) (f : StrField) : (c.text f).length ≤ c.limit f := by
  unfold CliCmd.text
  exact (List.takeWhile_sublist _).length_le.trans (List.length_take_le _ _)

theorem cap_lt (f : StrField) : f.cap < 2 ^ 16 := by
  cases f <;> simp [StrField.cap]

theorem bytes_lt (f : NumField) : f.bytes < 2 ^ 16 := by
  cases f <;> decide

theorem deserSize_serUint {size : ℕ} (h : size < 2 ^ 16) (rest : List UInt8) :
    deserSize M (serUint M (BitVec.ofNat 16 size) 2 ++ rest) = .ok (size, rest) := by
  have hlen : (serUint M (BitVec.ofNat 16 size) 2).length = 2 := by simp [serUint]
  have hread := readBytes_append (serUint M (BitVec.ofNat 16 size) 2) rest
  rw [hlen] at hread
  have hval := deserUint_serUint (M := M) (n := 2) (by norm_num) (BitVec.ofNat 16 size) 0
  rw [deserSize, hread, ok_bind]
  dsimp only
  rw [hval]
  simpa using h

theorem deserNfield_serNfield (f : NumField) : deserNfield M f (serNfield M c f ++ rest, s) =
    .ok (rest, s.setNum f (deserUint M 0 (serUint M (c.num f) f.bytes) (s.num f))) := by
  have hlen : (serUint M (c.num f) f.bytes).length = f.bytes := by simp [serUint]
  have hread := readBytes_append (serUint M (c.num f) f.bytes) rest
  rw [hlen] at hread
  rw [deserNfield, serNfield, List.append_assoc, deserSize_serUint (bytes_lt f), ok_bind]
  dsimp only
  rw [hread, ok_bind]

theorem deserSfield_serSfield : deserSfield M f (serSfield M c f ++ rest, s) =
    (require ((c.text f).length ≤ s.limit f) .write >>= fun _ =>
      .ok (rest, s.setStr f ((s.str f).memcpy (c.text f)))) := by
  have hsize : (c.text f).length < 2 ^ 16 :=
    ((text_length_le c f).trans (limit_le c f)).trans_lt (cap_lt f)
  rw [deserSfield, serSfield, List.append_assoc, deserSize_serUint hsize, ok_bind]
  dsimp only
  rw [readBytes_append, ok_bind]

theorem deserItem_serItem (item : Item) (hfit : Fits c s item) :
    deserItem M (serItem M c item ++ rest, s) item = .ok (rest, merge M c s item) := by
  cases item with
  | num f => exact deserNfield_serNfield f
  | zeroed f =>
    have hzero : deserNfield M f (serNfield M c f ++ rest, s.setNum f 0) = .ok (rest,
        (s.setNum f 0).setNum f (deserUint M 0 (serUint M (c.num f) f.bytes)
          ((s.setNum f 0).num f))) :=
      deserNfield_serNfield f
    simpa [deserItem, serItem, merge, CliCmd.setNum] using hzero
  | str f =>
    have hle : (c.text f).length ≤ s.limit f := hfit
    exact deserSfield_serSfield.trans (require_bind_of hle _)

theorem deserItem_serItem_error {item : Item} (hfit : ¬ Fits c s item) :
    deserItem M (serItem M c item ++ rest, s) item = .error .write := by
  cases item with
  | num f | zeroed f => exact absurd trivial hfit
  | str f =>
    have hgt : ¬ (c.text f).length ≤ s.limit f := hfit
    exact deserSfield_serSfield.trans (require_bind_of_not hgt _)

theorem deserItems_serialized (items : List Item) (hfit : FitsAll M c items s) :
    deserItems M items (items.flatMap (serItem M c) ++ rest, s) =
      .ok (rest, items.foldl (merge M c) s) := by
  induction items generalizing s with
  | nil => rfl
  | cons item items ih =>
    rw [List.flatMap_cons, List.append_assoc, deserItems, deserItem_serItem item hfit.1, ok_bind]
    exact ih hfit.2

theorem deserItems_serialized_iff (items : List Item) :
    Returns (deserItems M items (items.flatMap (serItem M c) ++ rest, s)) ↔
      FitsAll M c items s := by
  induction items generalizing s with
  | nil => simp [deserItems, FitsAll]
  | cons item items ih =>
    rw [List.flatMap_cons, List.append_assoc, deserItems]
    by_cases hfit : Fits c s item
    · rw [deserItem_serItem item hfit, ok_bind, ih]
      simp [FitsAll, hfit]
    · rw [deserItem_serItem_error hfit, error_bind]
      simp [FitsAll, hfit]

end Items

/-- The numeric fields of a kind of command. -/
def Kind.numFields : Kind → List NumField
  | .policy => [.cmd, .subCmd, .piUid, .piGid, .piNumPolicy, .ver, .aQuota, .aQoslevel, .aIshidden,
      .aNumreplicas, .aEnableDr, .piIndex]
  | .storage => [.cmd, .subCmd, .protocol, .accessProtocol, .storageType, .size]
  | .sfsd => [.cmd, .subCmd, .protocol, .port]
  | .license => [.cmd, .subCmd]

/-- The strings of a kind of command. -/
def Kind.strFields : Kind → List StrField
  | .policy => .piFtype :: .piFname :: (List.finRange 64).map .piPolicyTag
  | .storage => [.address, .rpath]
  | .sfsd => [.address]
  | .license => [.licensePath]

/-- Two commands are the same in the fields of a kind. -/
structure Agree (k : Kind) (c c' : CliCmd) : Prop where
  num : ∀ f ∈ k.numFields, c'.num f = c.num f
  str : ∀ f ∈ k.strFields, c'.text f = c.text f

/-- The deserializer makes the command again from the buffer, on this machine and in this memory. -/
def RoundTrip (M : Shifts) (k : Kind) (c old : CliCmd) : Prop :=
  ∃ buffer c', (k.serializer M c).buffer = some buffer ∧ (k.serializer M c).ret = buffer.length ∧
    k.deserializer M buffer (some old) = .ok (0, some c') ∧ Agree k c c'

/-- What a numeric field needs of the memory it is read into. -/
def NumSurvives (k : Kind) (c old : CliCmd) (f : NumField) : Prop :=
  if .zeroed f ∈ k.items then True
  else if .num f ∈ k.items then
    if f.bytes ≤ 4 then old.num f ||| c.num f = c.num f else c.num f = BitVec.allOnes _
  else old.num f = c.num f

def StrSurvives (k : Kind) (c old : CliCmd) (f : StrField) : Prop :=
  if .str f ∈ k.items then (old.str f).1[(c.text f).length]? = some 0
  else old.text f = c.text f

/-- The command has a serializer that returns its buffer, and the memory is as each field needs
it. -/
structure Survives (k : Kind) (c old : CliCmd) : Prop where
  returned : k ≠ .license
  num : ∀ f ∈ k.numFields, NumSurvives k c old f
  str : ∀ f ∈ k.strFields, StrSurvives k c old f

def mergedNum (M : Shifts) (k : Kind) (c old : CliCmd) (f : NumField) : BitVec (8 * f.bytes) :=
  if .zeroed f ∈ k.items then deserUint M 0 (serUint M (c.num f) f.bytes) 0
  else if .num f ∈ k.items then deserUint M 0 (serUint M (c.num f) f.bytes) (old.num f)
  else old.num f

def mergedStr (k : Kind) (c old : CliCmd) (f : StrField) : CharArray f.cap :=
  if .str f ∈ k.items then (old.str f).memcpy (c.text f) else old.str f

section Merged
variable {M : Shifts} {c old : CliCmd}

theorem foldl_merge_num (k : Kind) (f : NumField) :
    (k.items.foldl (merge M c) old).num f = mergedNum M k c old f := by
  cases k <;> cases f <;> rfl

theorem merge_str (s : CliCmd) (item : Item) (f : StrField) : (merge M c s item).str f =
    if item = .str f then (s.str f).memcpy (c.text f) else s.str f := by
  cases item with
  | num g | zeroed g => rfl
  | str g =>
    by_cases hg : g = f
    · subst hg
      simp [merge, CliCmd.setStr]
    · have hne : Item.str g ≠ .str f := fun h => hg (Item.str.inj h)
      simp [merge, CliCmd.setStr, hne, Function.update_of_ne (Ne.symm hg)]

theorem foldl_merge_str (k : Kind) (f : StrField) :
    (k.items.foldl (merge M c) old).str f = mergedStr k c old f := by
  have hnodup : k.items.Nodup := by cases k <;> decide
  unfold mergedStr
  generalize k.items = items at hnodup ⊢
  induction items generalizing old with
  | nil => rfl
  | cons item items ih =>
    obtain ⟨hnot, hnodup⟩ := List.nodup_cons.mp hnodup
    rw [List.foldl_cons, ih hnodup, merge_str]
    by_cases hitem : item = .str f
    · simp [hitem, hitem ▸ hnot]
    · simp [hitem, Ne.symm hitem]

/-- The text of an array that a text was copied to is that text just when a terminator
follows. -/
theorem takeWhile_memcpy {n : ℕ} {a : CharArray n} {text : List UInt8} {limit : ℕ}
    (htext : ∀ b ∈ text, b ≠ 0) (hlt : text.length < limit) (hle : limit ≤ n) :
    ((a.memcpy text).1.take limit).takeWhile (· ≠ 0) = text ↔ a.1[text.length]? = some 0 := by
  have hn : text.length < a.1.length := by
    rw [a.2]
    omega
  obtain ⟨r, hr⟩ : ∃ r, (a.memcpy text).1.take limit = text ++ a.1[text.length] :: r := by
    refine ⟨(a.1.drop (text.length + 1)).take (limit - text.length - 1), ?_⟩
    rw [CharArray.memcpy, List.take_take, Nat.min_eq_left hle, List.take_append,
      List.take_of_length_le hlt.le, List.drop_eq_getElem_cons hn, List.take_cons (by omega)]
  have hall : ∀ b ∈ text, decide (b ≠ 0) = true := fun b hb => decide_eq_true (htext b hb)
  rw [hr, List.takeWhile_append_of_pos hall, List.getElem?_eq_getElem hn, Option.some.injEq]
  by_cases hzero : a.1[text.length] = 0
  · simp [hzero]
  · simp [hzero]

/-- Where the protocol of an address comes back, every string fits. -/
theorem fitsAll_of_protocol (k : Kind) (h : .address ∈ k.strFields →
      deserUint M 0 (serUint M (c.num .protocol) 4) (old.num .protocol) = c.num .protocol) :
    FitsAll M c k.items old := by
  have haddress : ∀ s : CliCmd, s.num .protocol = c.num .protocol →
      (c.text .address).length ≤ s.limit .address := by
    intro s hs
    have hle := text_length_le c .address
    unfold CliCmd.limit at hle ⊢
    rwa [hs]
  cases k with
  | policy =>
    exact ⟨trivial, trivial, trivial, text_length_le c (.piPolicyTag 0), text_length_le c .piFname,
      text_length_le c .piFtype, trivial, trivial, trivial, trivial, trivial, trivial, trivial,
      trivial⟩
  | storage =>
    exact ⟨trivial, trivial, trivial, haddress _ (h (by decide)), text_length_le c .rpath, trivial,
      trivial,
      trivial, trivial⟩
  | sfsd => exact ⟨trivial, trivial, trivial, haddress _ (h (by decide)), trivial, trivial⟩
  | license => exact ⟨trivial, text_length_le c .licensePath, trivial⟩

theorem readBytes_serialize (M : Shifts) (items : List Item) (c : CliCmd) :
    readBytes (serialize M items c) 4 =
      .ok (serUint M sfscliMagic 4, items.flatMap (serItem M c)) := by
  have hlen : (serUint M sfscliMagic 4).length = 4 := by simp [serUint]
  have hread := readBytes_append (serUint M sfscliMagic 4) (items.flatMap (serItem M c))
  rwa [hlen] at hread

theorem deserUint_magic (M : Shifts) :
    deserUint M 0 (serUint M sfscliMagic 4) (0 : BitVec 32) = sfscliMagic := by
  have h := deserUint_serUint (M := M) (n := 4) le_rfl sfscliMagic 0
  simpa using h

/-- The deserializer on the buffer of the serializer. -/
theorem deserialize_serialize_iff (items : List Item) (c' : CliCmd) :
    deserialize M items (serialize M items c) (some old) = .ok (0, some c') ↔
      FitsAll M c items old ∧ c' = items.foldl (merge M c) old := by
  have hrun : deserialize M items (serialize M items c) (some old) =
      (deserItems M items (items.flatMap (serItem M c) ++ [], old) >>= fun s =>
        .ok (0, some s.2)) := by
    rw [deserialize, readBytes_serialize, ok_bind, List.append_nil]
    simp only [deserUint_magic, ne_eq, not_true_eq_false, if_false]
  rw [hrun]
  constructor
  · intro h
    obtain ⟨s, hs, -⟩ := bind_eq_ok.mp h
    have hfit := (deserItems_serialized_iff items).mp ⟨s, hs⟩
    rw [deserItems_serialized items hfit, ok_bind] at h
    injection h with h
    injection h with _ h
    exact ⟨hfit, (Option.some.inj h).symm⟩
  · rintro ⟨hfit, rfl⟩
    rw [deserItems_serialized items hfit, ok_bind]

theorem roundTrip_unfold (k : Kind) : RoundTrip M k c old ↔
    k ≠ .license ∧ FitsAll M c k.items old ∧ Agree k c (k.items.foldl (merge M c) old) := by
  have hbuffer : ∀ buffer, ((k.serializer M c).buffer = some buffer ∧
      (k.serializer M c).ret = buffer.length) ↔
        k ≠ .license ∧ buffer = serialize M k.items c := by
    intro buffer
    constructor
    · rintro ⟨hb, -⟩
      have hk : k ≠ .license := by
        rintro rfl
        cases hb
      rw [Kind.serializer_eq hk] at hb
      exact ⟨hk, (Option.some.inj hb).symm⟩
    · rintro ⟨hk, rfl⟩
      rw [Kind.serializer_eq hk]
      exact ⟨rfl, rfl⟩
  unfold RoundTrip
  rw [Kind.deserializer_eq]
  constructor
  · rintro ⟨buffer, c', hb, hret, hrun, hagree⟩
    obtain ⟨hk, rfl⟩ := (hbuffer buffer).mp ⟨hb, hret⟩
    obtain ⟨hfit, rfl⟩ := (deserialize_serialize_iff _ _).mp hrun
    exact ⟨hk, hfit, hagree⟩
  · rintro ⟨hk, hfit, hagree⟩
    obtain ⟨hb, hret⟩ := (hbuffer (serialize M k.items c)).mpr ⟨hk, rfl⟩
    exact ⟨_, _, hb, hret, (deserialize_serialize_iff _ _).mpr ⟨hfit, rfl⟩, hagree⟩

theorem limit_of_ne (c : CliCmd) {f : StrField} (hf : f ≠ .address) : c.limit f = f.cap := by
  cases f with
  | address => exact absurd rfl hf
  | _ => rfl

theorem address_sent {k : Kind} (h : .address ∈ k.strFields) :
    .protocol ∈ k.numFields ∧ .str .address ∈ k.items ∧ .num .protocol ∈ k.items := by
  cases k with
  | policy => simp [Kind.strFields] at h
  | storage => decide
  | sfsd => decide
  | license => simp [Kind.strFields] at h

theorem limit_eq {k : Kind} {c' : CliCmd} {f : StrField} (hf : f ∈ k.strFields)
    (h : ∀ g ∈ k.numFields, c'.num g = c.num g) : c'.limit f = c.limit f := by
  by_cases haddr : f = .address
  · subst haddr
    have hproto := h _ (address_sent hf).1
    unfold CliCmd.limit
    rw [hproto]
  · rw [limit_of_ne c' haddr, limit_of_ne c haddr]

theorem mergedNum_iff (k : Kind) (f : NumField) :
    (∀ M, mergedNum M k c old f = c.num f) ↔ NumSurvives k c old f := by
  unfold mergedNum NumSurvives
  split_ifs with hzero hnum hsize
  · have hsmall : f.bytes ≤ 4 := by
      cases k <;> cases f <;> revert hzero <;> decide
    simp [deserUint_serUint hsmall]
  · simp [deserUint_serUint hsize]
  · exact deserUint_serUint_wide (by omega) _ _
  · exact ⟨fun h => h ⟨fun _ => 0, fun _ _ => 0⟩, fun h _ => h⟩

theorem mergedStr_iff {k : Kind} {c' : CliCmd} {f : StrField} (hf : f ∈ k.strFields)
    (hterm : c.Terminated f) (hstr : c'.str f = mergedStr k c old f)
    (hlimit : c'.limit f = c.limit f) : c'.text f = c.text f ↔ StrSurvives k c old f := by
  unfold StrSurvives
  split_ifs with hsent
  · have htext : ∀ b ∈ c.text f, b ≠ 0 := by
      intro b hb
      unfold CliCmd.text at hb
      simpa using List.mem_takeWhile_imp hb
    have hlt : (c.text f).length < c.limit f := by
      by_contra hge
      have hlen := List.length_take_le (c.limit f) (c.str f).1
      have hsame : c.text f = (c.str f).1.take (c.limit f) :=
        (List.takeWhile_prefix _).eq_of_length_le (hlen.trans (not_lt.mp hge))
      exact htext 0 (hsame ▸ hterm) rfl
    rw [← takeWhile_memcpy htext hlt (limit_le c f)]
    rw [CliCmd.text, hstr, hlimit, mergedStr, if_pos hsent]
  · have haddr : f ≠ .address := by
      rintro rfl
      exact hsent (address_sent hf).2.1
    have hsame : c'.text f = old.text f := by
      rw [CliCmd.text, CliCmd.text, hstr, mergedStr, if_neg hsent, limit_of_ne c' haddr,
        limit_of_ne old haddr]
    rw [hsame]

end Merged

/-- A command comes back on every machine just when its serializer returns the buffer and the memory
for it held what the fields need. -/
theorem roundTrip_iff_survives (k : Kind) (c old : CliCmd)
    (hterm : ∀ f ∈ k.strFields, c.Terminated f) :
    (∀ M, RoundTrip M k c old) ↔ Survives k c old := by
  simp only [roundTrip_unfold]
  constructor
  · intro h
    have hone := h ⟨fun _ => 0, fun _ _ => 0⟩
    refine ⟨hone.1, ?_, ?_⟩
    · intro f hf
      refine (mergedNum_iff k f).mp fun M => ?_
      rw [← foldl_merge_num]
      exact (h M).2.2.num f hf
    · intro f hf
      exact (mergedStr_iff hf (hterm f hf) (foldl_merge_str k f)
        (limit_eq hf hone.2.2.num)).mp (hone.2.2.str f hf)
  · rintro ⟨hk, hnum, hstr⟩ M
    have hagree : ∀ f ∈ k.numFields, (k.items.foldl (merge M c) old).num f = c.num f := by
      intro f hf
      rw [foldl_merge_num]
      exact (mergedNum_iff k f).mpr (hnum f hf) M
    refine ⟨hk, ?_, hagree, ?_⟩
    · refine fitsAll_of_protocol k fun haddr => ?_
      obtain ⟨hproto, -, hsent⟩ := address_sent haddr
      have hmerged := (mergedNum_iff k .protocol).mpr (hnum _ hproto) M
      have hzero : .zeroed .protocol ∉ k.items := by cases k <;> decide
      rwa [mergedNum, if_neg hzero, if_pos hsent] at hmerged
    · intro f hf
      exact (mergedStr_iff hf (hterm f hf) (foldl_merge_str k f) (limit_eq hf hagree)).mpr
        (hstr f hf)

/-- The command to add the sfsd at 10.0.0.1, port 24496. -/
def sfsdAdd : CliCmd :=
  (((((filled false).setNum .cmd 4#32).setNum .subCmd 1#32).setNum .protocol 1#32).setNum
    .port 24496#16).setStr .address
      (((filled false).str .address).memcpy [49, 48, 46, 48, 46, 48, 46, 49])

theorem sfsdAdd_terminated : ∀ f ∈ Kind.sfsd.strFields, sfsdAdd.Terminated f := by
  intro f hf
  obtain rfl : f = .address := by simpa [Kind.strFields] using hf
  unfold CliCmd.Terminated
  decide

/-- In cleared memory the command comes back. -/
theorem roundTrip_iff_survives_cleared : (∀ f ∈ Kind.sfsd.strFields, sfsdAdd.Terminated f) ∧
    ∀ M, RoundTrip M .sfsd sfsdAdd (filled false) := by
  refine ⟨sfsdAdd_terminated, (roundTrip_iff_survives .sfsd sfsdAdd (filled false)
    sfsdAdd_terminated).mpr ⟨by decide, ?_, ?_⟩⟩
  · intro f hf
    have hnum : ∀ g ∈ Kind.sfsd.numFields, .zeroed g ∉ Kind.sfsd.items ∧
        .num g ∈ Kind.sfsd.items ∧ g.bytes ≤ 4 := by decide
    obtain ⟨hzero, hsent, hsize⟩ := hnum f hf
    rw [NumSurvives, if_neg hzero, if_pos hsent, if_pos hsize]
    exact BitVec.zero_or
  · intro f hf
    obtain rfl : f = .address := by simpa [Kind.strFields] using hf
    rw [StrSurvives, if_pos (by decide)]
    decide

/-- In memory full of ones it does not, whatever the machine. -/
theorem roundTrip_dirty_memory : (∀ f ∈ Kind.sfsd.strFields, sfsdAdd.Terminated f) ∧
    ∀ M, ¬ RoundTrip M .sfsd sfsdAdd (filled true) := by
  refine ⟨sfsdAdd_terminated, fun M h => ?_⟩
  have hcmd := ((roundTrip_unfold .sfsd).mp h).2.2.num .cmd (by decide)
  rw [foldl_merge_num, mergedNum, if_neg (by decide), if_pos (by decide),
    deserUint_serUint (by decide)] at hcmd
  exact absurd hcmd (by decide)

end SeamlessStack.Cli
