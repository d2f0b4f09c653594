import SeamlessStack.Sfs.Xattr

/-! `xattr_remove` and `sfs_removexattr`, on areas made of pairs as they should be. The loop skips a
value by the length of its key before it looks for the end. -/
namespace SeamlessStack.Sfs

open Lib

/-- An attribute: `key=value` and a zero. -/
structure XattrPair where
  key : Bytes
  value : Bytes
  key_ne : key ≠ []
  key_plain : equals ∉ key ∧ 0 ∉ key
  value_plain : 0 ∉ value

namespace XattrPair

def text (q : XattrPair) : Bytes := q.key ++ equals :: q.value

def bytes (q : XattrPair) : Bytes := q.text ++ [0]

end XattrPair

def blob (pairs : List XattrPair) : Bytes := pairs.flatMap XattrPair.bytes

/-- The attributes of an inode, with different keys. -/
structure XattrArea where
  pairs : List XattrPair
  distinct : (pairs.map XattrPair.key).Nodup

/-- The copy of the key, which this time goes to the start of the buffer. -/
def readKey (p : Bytes) (i : ℕ) : Except XattrFault Field := do
  let place ← scanTo p i equals
  let j := place - i
  require (j + 1 < maxKeyLen) .key
  return ⟨((p.drop i).take j).takeWhile (· ≠ 0), j, place⟩

/-- The loop of `xattr_remove`: the place of the pair with the name, and what was read of it. -/
def findPair (p name : Bytes) : ℕ → ℕ → Except XattrFault (Option (ℕ × Field))
  | 0, _ => return none
  | fuel + 1, i =>
    if i < p.length then
      if p.getD i 0 = 0 then findPair p name fuel (i + 1)
      else do
        let field ← readKey p i
        if field.key = name then return some (i, field)
        else
          let i ← scanTo p (field.place + field.key.length) 0
          findPair p name fuel i
    else return none

/-- A pair whose key starts like the area is taken for the first one; for others the rest is moved
with the length of the whole. -/
def xattrRemove (p name : Bytes) : Except XattrFault (ℤ × Bytes) :=
  if name ≠ securityIma ∧ p = [] then return (-1, p)
  else do
    match ← findPair p name (p.length + 1) 0 with
    | none => return (-1, p)
    | some (pos, field) =>
      let stop ← scanTo p (field.place + 1) 0
      let valueSize := stop - (field.place + 1)
      let pairLen := field.key.length + 1 + valueSize + 1
      let len := p.length - pairLen
      if stop = p.length - 1 then return (len, p)
      else if field.key.headD 0 = p.headD 0 then do
        let q ← memmove p 0 pairLen len
        return (len, q)
      else do
        let q ← memmove p pos (pos + pairLen) len
        return (len, q)

/-- What is returned, and the area that is stored, if it is; `i_xattrlen` is not changed. The inode
is found, locked and stored without an error. -/
def sfsRemovexattr (p name : Bytes) : Except XattrFault (ℤ × Option Bytes) :=
  if name = securityIma then return (-1, none)
  else do
    let (ret, q) ← xattrRemove p name
    if ret = -1 then return (-1, none) else return (0, some q)

def afterByte : ℕ → List XattrPair → Option (List XattrPair)
  | _, [] => none
  | o, q :: pairs => if o < q.bytes.length then some pairs else afterByte (o - q.bytes.length) pairs

/-- The loop comes to the end: the keys fit into the buffer, and the skips stay in the area. -/
inductive Walks : List XattrPair → Prop
  | nil : Walks []
  | step {q : XattrPair} {pairs rest : List XattrPair} (hkey : q.key.length + 1 < maxKeyLen)
      (hskip : afterByte (2 * q.key.length) (q :: pairs) = some rest) (hrest : Walks rest) :
      Walks (q :: pairs)

namespace XattrArea

def blob (a : XattrArea) : Bytes := Sfs.blob a.pairs

def keys (a : XattrArea) : List Bytes := a.pairs.map XattrPair.key

def without (a : XattrArea) (name : Bytes) : Bytes :=
  Sfs.blob (a.pairs.filter fun q => q.key ≠ name)

/-- An absent name is reported; a removal leaves the other pairs, which are then stored. -/
structure RemoveRight (a : XattrArea) (name : Bytes) : Prop where
  absent : name ∉ a.keys → xattrRemove a.blob name = .ok (-1, a.blob) ∧
    sfsRemovexattr a.blob name = .ok (-1, none)
  present : name ∈ a.keys →
    (∃ q, xattrRemove a.blob name = .ok ((a.without name).length, q) ∧
      q.take (a.without name).length = a.without name) ∧
    sfsRemovexattr a.blob name = .ok (0, some (a.without name))

end XattrArea

section Scan
variable {p name : Bytes} {i fuel : ℕ} {q : XattrPair} {pairs : List XattrPair}

theorem blob_cons : blob (q :: pairs) = q.text ++ 0 :: blob pairs := by
  simp [blob, XattrPair.bytes]

theorem zero_notMem_text : 0 ∉ q.text := by
  have hequals : (0 : UInt8) ≠ equals := by decide
  simp [XattrPair.text, q.key_plain.2, q.value_plain, hequals]

theorem bytes_length : q.bytes.length = q.text.length + 1 := by
  simp [XattrPair.bytes]

theorem drop_pair (h : p.drop i = blob (q :: pairs)) :
    p.drop (i + (q.text.length + 1)) = blob pairs := by
  rw [← List.drop_drop, h, blob_cons]
  simp

/-- From byte `o` on, the next zero ends the pair that holds it. -/
theorem scanTo_blob {rest : List XattrPair} {o : ℕ} (h : p.drop i = blob pairs)
    (hafter : afterByte o pairs = some rest) :
    ∃ k, scanTo p (i + o) 0 = .ok k ∧ p.getD k 0 = 0 ∧ p.drop (k + 1) = blob rest ∧
      i + o ≤ k ∧ k < p.length := by
  induction pairs generalizing o i with
  | nil => cases hafter
  | cons q pairs ih =>
    rw [afterByte, bytes_length] at hafter
    split at hafter
    · rename_i ho
      obtain rfl := Option.some.inj hafter
      have hdrop : p.drop (i + o) = q.text.drop o ++ 0 :: blob pairs := by
        rw [← List.drop_drop, h, blob_cons, List.drop_append_of_le_length (by omega)]
      have hnul : 0 ∉ q.text.drop o := fun hmem => zero_notMem_text (List.mem_of_mem_drop hmem)
      have hend := scanTo_at hdrop hnul
      obtain ⟨hle, hzero⟩ := scanTo_eq_ok hend
      rw [List.length_drop] at hend hle hzero
      refine ⟨_, hend, ?_, ?_, hle, ?_⟩
      · rw [List.getD_eq_getElem?_getD, hzero]
        rfl
      · rw [show i + o + (q.text.length - o) + 1 = i + (q.text.length + 1) by omega]
        exact drop_pair h
      · exact (List.getElem?_eq_some_iff.mp hzero).1
    · rename_i ho
      obtain ⟨k, hk⟩ := ih (drop_pair h) hafter
      rw [show i + (q.text.length + 1) + (o - (q.text.length + 1)) = i + o by omega] at hk
      exact ⟨k, hk⟩

theorem scanTo_blob_none {o : ℕ} (h : p.drop i = blob pairs) (hafter : afterByte o pairs = none) :
    scanTo p (i + o) 0 = .error .area := by
  induction pairs generalizing o i with
  | nil =>
    apply scanTo_of_notMem
    rw [← List.drop_drop, h]
    simp [blob]
  | cons q pairs ih =>
    rw [afterByte, bytes_length] at hafter
    split at hafter
    · cases hafter
    · rename_i ho
      have hnone := ih (drop_pair h) hafter
      rwa [show i + (q.text.length + 1) + (o - (q.text.length + 1)) = i + o by omega] at hnone

theorem readKey_pair (h : p.drop i = blob (q :: pairs)) :
    readKey p i = (require (q.key.length + 1 < maxKeyLen) .key >>= fun _ =>
      .ok ⟨q.key, q.key.length, i + q.key.length⟩) := by
  have hdrop : p.drop i = q.key ++ equals :: (q.value ++ 0 :: blob pairs) := by
    rw [h, blob_cons]
    simp [XattrPair.text]
  have hkey : q.key.takeWhile (· ≠ 0) = q.key := by
    rw [List.takeWhile_eq_self_iff]
    intro x hx
    have : x ≠ 0 := fun heq => q.key_plain.2 (heq ▸ hx)
    simpa using this
  unfold readKey
  rw [scanTo_at hdrop q.key_plain.1, ok_bind]
  simp only [Nat.add_sub_cancel_left, hdrop, List.take_left', hkey]
  rfl

theorem lt_length_of_pair (h : p.drop i = blob (q :: pairs)) : i < p.length := by
  have hlen := congrArg List.length h
  rw [List.length_drop, blob_cons, List.length_append, List.length_cons] at hlen
  omega

theorem getD_pair_ne (h : p.drop i = blob (q :: pairs)) : p.getD i 0 ≠ 0 := by
  obtain ⟨c, key, hkey⟩ := List.exists_cons_of_ne_nil q.key_ne
  have hc : c ≠ 0 := fun heq => q.key_plain.2 (by simp [hkey, heq])
  have hhead : p[i]? = some c := by
    rw [← List.head?_drop, h, blob_cons, XattrPair.text, hkey]
    rfl
  rwa [List.getD_eq_getElem?_getD, hhead]

theorem findPair_end (h : ¬ i < p.length) : findPair p name (fuel + 1) i = .ok none := by
  rw [findPair, if_neg h]
  rfl

theorem findPair_separator (hlt : i < p.length) (hzero : p.getD i 0 = 0) :
    findPair p name (fuel + 1) i = findPair p name fuel (i + 1) := by
  rw [findPair, if_pos hlt, if_pos hzero]

theorem readKey_place {field : Field} (h : readKey p i = .ok field) : i ≤ field.place := by
  obtain ⟨place, hplace, h⟩ := bind_eq_ok.mp h
  obtain ⟨u, -, h⟩ := bind_eq_ok.mp h
  obtain rfl := Except.ok.inj h
  exact (scanTo_eq_ok hplace).1

theorem findPair_field {field : Field} (hlt : i < p.length) (hzero : p.getD i 0 ≠ 0)
    (hread : readKey p i = .ok field) : findPair p name (fuel + 1) i =
      if field.key = name then .ok (some (i, field))
      else scanTo p (field.place + field.key.length) 0 >>= findPair p name fuel := by
  rw [findPair, if_pos hlt, if_neg hzero, hread]
  rfl

/-- Every turn moves on, so the loop has ended by itself when the number of turns runs out. -/
theorem findPair_succ (h : p.length ≤ i + fuel) :
    findPair p name (fuel + 1) i = findPair p name fuel i := by
  induction fuel generalizing i with
  | zero =>
    rw [findPair_end (by omega)]
    rfl
  | succ fuel ih =>
    by_cases hlt : i < p.length
    swap
    · rw [findPair_end hlt, findPair_end hlt]
    by_cases hzero : p.getD i 0 = 0
    · rw [findPair_separator hlt hzero, findPair_separator hlt hzero]
      exact ih (by omega)
    cases hread : readKey p i with
    | error fault =>
      rw [findPair, if_pos hlt, if_neg hzero, hread, findPair, if_pos hlt, if_neg hzero, hread]
      rfl
    | ok field =>
      rw [findPair_field hlt hzero hread, findPair_field hlt hzero hread]
      congr 1
      cases hnext : scanTo p (field.place + field.key.length) 0 with
      | error fault => rfl
      | ok k =>
        have hplace := readKey_place hread
        obtain ⟨hle, hnul⟩ := scanTo_eq_ok hnext
        have hne : i ≠ k := by
          rintro rfl
          rw [List.getD_eq_getElem?_getD, hnul] at hzero
          exact hzero rfl
        rw [ok_bind, ok_bind]
        exact ih (by omega)

theorem findPair_pair (h : p.drop i = blob (q :: pairs)) (hkey : q.key ≠ name) :
    findPair p name (fuel + 1) i = (require (q.key.length + 1 < maxKeyLen) .key >>= fun _ =>
      scanTo p (i + 2 * q.key.length) 0 >>= findPair p name fuel) := by
  have hread := readKey_pair h
  by_cases hfits : q.key.length + 1 < maxKeyLen
  · rw [require_bind_of hfits] at hread
    rw [require_bind_of hfits, findPair_field (lt_length_of_pair h) (getD_pair_ne h) hread,
      if_neg hkey, show i + 2 * q.key.length = i + q.key.length + q.key.length by omega]
  · rw [require_bind_of_not hfits] at hread
    rw [require_bind_of_not hfits, findPair, if_pos (lt_length_of_pair h),
      if_neg (getD_pair_ne h), hread, error_bind]

theorem findPair_found (h : p.drop i = blob (q :: pairs)) (hfits : q.key.length + 1 < maxKeyLen) :
    findPair p q.key (fuel + 1) i = .ok (some (i, ⟨q.key, q.key.length, i + q.key.length⟩)) := by
  have hread := readKey_pair h
  rw [require_bind_of hfits] at hread
  rw [findPair_field (lt_length_of_pair h) (getD_pair_ne h) hread, if_pos rfl]

theorem scanTo_value (h : p.drop i = blob (q :: pairs)) :
    scanTo p (i + q.key.length + 1) 0 = .ok (i + q.text.length) := by
  have hdrop : p.drop (i + q.key.length + 1) = q.value ++ 0 :: blob pairs := by
    rw [show i + q.key.length + 1 = i + (q.key.length + 1) by omega, ← List.drop_drop, h,
      blob_cons, XattrPair.text]
    simp
  rw [scanTo_at hdrop q.value_plain, XattrPair.text, List.length_append, List.length_cons]
  congr 1
  omega

theorem afterByte_suffix {o : ℕ} {rest : List XattrPair} (h : afterByte o pairs = some rest) :
    rest <:+ pairs ∧ rest.length < pairs.length := by
  induction pairs generalizing o with
  | nil => cases h
  | cons q pairs ih =>
    rw [afterByte] at h
    split at h
    · obtain rfl := Option.some.inj h
      exact ⟨List.suffix_cons q pairs, Nat.lt_succ_self _⟩
    · obtain ⟨hsuffix, hlt⟩ := ih h
      exact ⟨hsuffix.trans (List.suffix_cons q pairs), Nat.lt_succ_of_lt hlt⟩

theorem walks_cons_iff : Walks (q :: pairs) ↔ q.key.length + 1 < maxKeyLen ∧
    ∃ rest, afterByte (2 * q.key.length) (q :: pairs) = some rest ∧ Walks rest := by
  constructor
  · rintro ⟨⟩
    exact ⟨‹_›, _, ‹_›, ‹_›⟩
  · rintro ⟨hfits, rest, hskip, hrest⟩
    exact .step hfits hskip hrest

/-- By induction on the pairs that are left; each turn takes two units of fuel and at least two
bytes. -/
theorem findPair_eq_none_iff (h : p.drop i = blob pairs) (hname : ∀ q ∈ pairs, q.key ≠ name)
    (hfuel : p.length < i + fuel) : findPair p name fuel i = .ok none ↔ Walks pairs := by
  induction hn : pairs.length using Nat.strong_induction_on generalizing pairs i fuel with
  | _ n ih =>
    cases pairs with
    | nil =>
      have hend : p.length ≤ i := List.drop_eq_nil_iff.mp h
      have hnone : findPair p name fuel i = .ok none := by
        cases fuel with
        | zero => rfl
        | succ fuel => exact findPair_end (by omega)
      exact iff_of_true hnone .nil
    | cons q pairs =>
      have hlt := lt_length_of_pair h
      obtain ⟨fuel, rfl⟩ : ∃ n, fuel = n + 2 := ⟨fuel - 2, by omega⟩
      rw [findPair_pair h (hname q List.mem_cons_self), walks_cons_iff]
      by_cases hfits : q.key.length + 1 < maxKeyLen
      swap
      · rw [require_bind_of_not hfits]
        simp [hfits]
      rw [require_bind_of hfits]
      cases hskip : afterByte (2 * q.key.length) (q :: pairs) with
      | none =>
        rw [scanTo_blob_none h hskip]
        simp
      | some rest =>
        obtain ⟨k, hscan, hzero, hrest, hle, hk⟩ := scanTo_blob h hskip
        obtain ⟨hsuffix, hshort⟩ := afterByte_suffix hskip
        have hkey : 0 < q.key.length := List.length_pos_of_ne_nil q.key_ne
        have hloop := ih rest.length (by omega) hrest
          (fun r hr => hname r (hsuffix.subset hr)) (by omega : p.length < k + 1 + fuel) rfl
        rw [hscan, ok_bind, findPair_separator hk hzero, hloop]
        simp [hfits]

end Scan

section Remove
variable {p q name : Bytes} {a : XattrArea} {ret : ℤ}

theorem memmove_length {dst src n : ℕ} (h : memmove p dst src n = .ok q) :
    q.length = p.length := by
  obtain ⟨u, hfits, hq⟩ := bind_eq_ok.mp h
  obtain ⟨hdst, hsrc⟩ := require_eq_ok.mp hfits
  obtain rfl := Except.ok.inj hq
  simp only [List.length_append, List.length_take, List.length_drop]
  omega

/-- Either the loop found nothing, or a length is returned; the area itself keeps its length. -/
theorem xattrRemove_cases (h : xattrRemove p name = .ok (ret, q)) :
    (ret = -1 ∧ q = p ∧ findPair p name (p.length + 1) 0 = .ok none) ∨
      (0 ≤ ret ∧ q.length = p.length) := by
  unfold xattrRemove at h
  split at h
  · rename_i hempty
    obtain ⟨-, rfl⟩ := hempty
    cases h
    exact .inl ⟨rfl, rfl, rfl⟩
  obtain ⟨found, hfind, h⟩ := bind_eq_ok.mp h
  match found with
  | none =>
    cases h
    exact .inl ⟨rfl, rfl, hfind⟩
  | some (pos, field) =>
    obtain ⟨stop, -, h⟩ := bind_eq_ok.mp h
    dsimp only at h
    split_ifs at h
    · cases h
      exact .inr ⟨Int.natCast_nonneg _, rfl⟩
    all_goals
      obtain ⟨q', hmove, h⟩ := bind_eq_ok.mp h
      cases h
      exact .inr ⟨Int.natCast_nonneg _, memmove_length hmove⟩

theorem xattrRemove_eq_missing_iff :
    xattrRemove p name = .ok (-1, p) ↔ findPair p name (p.length + 1) 0 = .ok none := by
  constructor
  · intro h
    obtain ⟨-, -, hfind⟩ | ⟨hret, -⟩ := xattrRemove_cases h
    · exact hfind
    · cases hret
  · intro hfind
    unfold xattrRemove
    split
    · rfl
    · rw [hfind]
      rfl

theorem sfsRemovexattr_stored (h : sfsRemovexattr p name = .ok (ret, some q)) :
    q.length = p.length := by
  unfold sfsRemovexattr at h
  split at h
  · cases h
  obtain ⟨⟨r, q'⟩, hremove, h⟩ := bind_eq_ok.mp h
  dsimp only at h
  split at h
  · cases h
  · cases h
    rename_i hret
    obtain ⟨hmissing, -⟩ | ⟨-, hlen⟩ := xattrRemove_cases hremove
    · exact absurd hmissing hret
    · exact hlen

theorem sfsRemovexattr_missing (h : xattrRemove p name = .ok (-1, q)) :
    sfsRemovexattr p name = .ok (-1, none) := by
  unfold sfsRemovexattr
  split
  · rfl
  · rw [h]
    rfl

/-- The first of several pairs is removed from the area as it should be. -/
theorem xattrRemove_first {r : XattrPair} {pairs : List XattrPair} (hpairs : pairs ≠ [])
    (hfits : r.key.length + 1 < maxKeyLen) :
    xattrRemove (blob (r :: pairs)) r.key = .ok ((blob pairs).length,
      blob pairs ++ (blob (r :: pairs)).drop (blob pairs).length) := by
  have hlen : (blob (r :: pairs)).length = r.text.length + 1 + (blob pairs).length := by
    rw [blob_cons, List.length_append, List.length_cons]
    omega
  obtain ⟨r', pairs', rfl⟩ := List.exists_cons_of_ne_nil hpairs
  have hrest : 0 < (blob (r' :: pairs')).length := lt_length_of_pair rfl
  have hne : ¬ (r.key ≠ securityIma ∧ blob (r :: r' :: pairs') = []) := by
    rintro ⟨-, hempty⟩
    rw [hempty, List.length_nil] at hlen
    omega
  have hhead : r.key.headD 0 = (blob (r :: r' :: pairs')).headD 0 := by
    obtain ⟨c, key, hkey⟩ := List.exists_cons_of_ne_nil r.key_ne
    rw [blob_cons, XattrPair.text, hkey]
    rfl
  have htext : r.text.length = r.key.length + 1 + r.value.length := by
    rw [XattrPair.text, List.length_append, List.length_cons]
    omega
  unfold xattrRemove
  rw [if_neg hne, findPair_found rfl hfits, ok_bind]
  dsimp only
  rw [scanTo_value rfl, ok_bind, if_neg (by omega), if_pos hhead]
  have hpair : r.key.length + 1 + (0 + r.text.length - (0 + r.key.length + 1)) + 1 =
      r.text.length + 1 := by omega
  have hleft : (blob (r :: r' :: pairs')).length - (r.text.length + 1) =
      (blob (r' :: pairs')).length := by omega
  have hdrop := drop_pair (List.drop_zero : (blob (r :: r' :: pairs')).drop 0 = _)
  rw [zero_add] at hdrop
  rw [hpair, hleft, memmove, require_bind_of (by omega), hdrop, List.take_zero, List.nil_append,
    List.take_length, zero_add]
  rfl

theorem length_blob_filter_lt {pairs : List XattrPair} (h : name ∈ pairs.map XattrPair.key) :
    (blob (pairs.filter fun q => q.key ≠ name)).length < (blob pairs).length := by
  induction pairs with
  | nil => cases h
  | cons r pairs ih =>
    have hrest : (blob (pairs.filter fun q => q.key ≠ name)).length ≤ (blob pairs).length :=
      (List.filter_sublist.flatMap _).length_le
    by_cases hkey : r.key = name
    · rw [List.filter_cons_of_neg (by simpa using hkey), blob_cons, List.length_append,
        List.length_cons]
      omega
    · rw [List.filter_cons_of_pos (by simpa using hkey), blob_cons, blob_cons, List.length_append,
        List.length_append, List.length_cons, List.length_cons]
      have hlt := ih ((List.mem_cons.mp h).resolve_left (Ne.symm hkey))
      omega

theorem not_removeRight_of_mem (h : name ∈ a.keys) : ¬ a.RemoveRight name := by
  intro hright
  have hlen := sfsRemovexattr_stored (hright.present h).2
  exact absurd hlen (length_blob_filter_lt h).ne

theorem findPair_blob_iff (h : name ∉ a.keys) :
    findPair a.blob name (a.blob.length + 1) 0 = .ok none ↔ Walks a.pairs := by
  refine findPair_eq_none_iff rfl (fun q hq heq => h ?_) (by omega)
  rw [← heq]
  exact List.mem_map_of_mem hq

/-- The removal is right when there is nothing to remove and the skips lead to the end. -/
theorem removeXattr_iff (a : XattrArea) (name : Bytes) :
    a.RemoveRight name ↔ name ∉ a.keys ∧ Walks a.pairs := by
  by_cases h : name ∈ a.keys
  · exact iff_of_false (not_removeRight_of_mem h) fun hwalks => hwalks.1 h
  constructor
  · intro hright
    exact ⟨h, (findPair_blob_iff h).mp (xattrRemove_eq_missing_iff.mp (hright.absent h).1)⟩
  · rintro ⟨-, hwalks⟩
    have hmissing := xattrRemove_eq_missing_iff.mpr ((findPair_blob_iff h).mpr hwalks)
    exact ⟨fun _ => ⟨hmissing, sfsRemovexattr_missing hmissing⟩, fun hmem => absurd hmem h⟩

def xattrText (s : String) : Bytes := s.toList.map fun c => UInt8.ofNat c.toNat

/-- With `a=1`, `b=2` and `c=3`, the removal of `b` moves bytes from behind the area. With `aa=11`,
`ab=22` and `ac=33`, that of `ab` removes `aa`. The search for `b` in `user=1` goes on behind the
area. -/
theorem removeXattr_wrong :
    (∃ a : XattrArea, a.blob = xattrText "a=1\x00b=2\x00c=3\x00" ∧ xattrText "b" ∈ a.keys ∧
      xattrRemove a.blob (xattrText "b") = .error .area ∧ ¬ a.RemoveRight (xattrText "b")) ∧
    (∃ a : XattrArea, a.blob = xattrText "aa=11\x00ab=22\x00ac=33\x00" ∧
      sfsRemovexattr a.blob (xattrText "ab") =
        .ok (0, some (xattrText "ab=22\x00ac=33\x00ac=33\x00")) ∧
      ¬ a.RemoveRight (xattrText "ab")) ∧
    ∃ a : XattrArea, a.blob = xattrText "user=1\x00" ∧ xattrText "b" ∉ a.keys ∧
      xattrRemove a.blob (xattrText "b") = .error .area ∧ ¬ a.RemoveRight (xattrText "b") := by
  refine ⟨⟨⟨[⟨xattrText "a", xattrText "1", by decide, by decide, by decide⟩,
      ⟨xattrText "b", xattrText "2", by decide, by decide, by decide⟩,
      ⟨xattrText "c", xattrText "3", by decide, by decide, by decide⟩], by decide⟩, ?_⟩,
    ⟨⟨[⟨xattrText "aa", xattrText "11", by decide, by decide, by decide⟩,
      ⟨xattrText "ab", xattrText "22", by decide, by decide, by decide⟩,
      ⟨xattrText "ac", xattrText "33", by decide, by decide, by decide⟩], by decide⟩, ?_⟩,
    ⟨⟨[⟨xattrText "user", xattrText "1", by decide, by decide, by decide⟩], by decide⟩, ?_⟩⟩
  · refine ⟨by decide, by decide, by decide +kernel, fun hright => ?_⟩
    obtain ⟨⟨q, hremove, -⟩, -⟩ := hright.present (by decide)
    exact absurd (hremove.symm.trans (by decide +kernel : _ = Except.error XattrFault.area)) nofun
  · refine ⟨by decide, by decide +kernel, fun hright => ?_⟩
    exact absurd (hright.present (by decide)).2 (by decide +kernel)
  · refine ⟨by decide, by decide, by decide +kernel, fun hright => ?_⟩
    exact absurd (hright.absent (by decide)).1 (by decide +kernel)

end Remove

end SeamlessStack.Sfs
