import SeamlessStack.Lib.Runs
import SeamlessStack.Log

/-! Extended attributes: `i_xattr` is one string of fields `name=value` with zeros between them. The
inode is stored and read back as it is, so a call finds the `i_xattrlen` bytes that the call before
it left. `sfs_getxattr` prints its arguments to the log, the buffer for the value among them, which
is not filled in yet. -/
namespace SeamlessStack.Sfs

open Lib Log Function

abbrev Bytes := List UInt8

def maxKeyLen : ℕ := 128
def equals : UInt8 := 61

def securityIma : Bytes := "security.ima".toList.map fun c => UInt8.ofNat c.toNat

/-- An access outside `i_xattr`, the key buffer, the caller's buffer or the array of `sfs_log`. -/
inductive XattrFault
  | area
  | key
  | caller
  | log
  deriving DecidableEq, Repr

def scanTo (p : Bytes) (i : ℕ) (c : UInt8) : Except XattrFault ℕ :=
  match (p.drop i).findIdx? (· = c) with
  | some k => .ok (i + k)
  | none => .error .area

/-- The string in the key buffer, the number `j` of bytes before the `=`, and its place. -/
structure Field where
  key : Bytes
  j : ℕ
  place : ℕ
  deriving DecidableEq, Repr

def keyBuffer (p : Bytes) (i j : ℕ) : Bytes :=
  (List.range maxKeyLen).map fun x =>
    if i ≤ x ∧ x < i + j ∧ x ≠ j + 1 then p.getD x 0 else 0

def readField (p : Bytes) (i : ℕ) : Except XattrFault Field := do
  let place ← scanTo p i equals
  let j := place - i
  require (j = 0 ∨ i + j ≤ maxKeyLen) .key
  require (j + 1 < maxKeyLen) .key
  return ⟨(keyBuffer p i j).takeWhile (· ≠ 0), j, place⟩

/-- The loop over the fields. `visit` says whether it stops; otherwise it goes on at the zero behind
the value, looked for `j` bytes behind the `=`. Every turn moves on. -/
def walk {σ : Type} (p : Bytes) (visit : σ → Field → σ × Bool) :
    ℕ → ℕ → σ → Except XattrFault (σ × ℕ)
  | 0, i, s => return (s, i)
  | fuel + 1, i, s =>
    if i < p.length then
      if p.getD i 0 = 0 then walk p visit fuel (i + 1) s
      else do
        let field ← readField p i
        if (visit s field).2 then
          return ((visit s field).1, field.place)
        else
          let i ← scanTo p (field.place + field.j) 0
          walk p visit fuel i (visit s field).1
    else return (s, i)

def findField (p name : Bytes) : Except XattrFault (Option Field × ℕ) :=
  walk p (fun s field => if field.key = name then (some field, true) else (s, false)) p.length 0
    none

def xattrExists (p name : Bytes) : Except XattrFault Bool :=
  if p = [] then return false
  else do
    let (field, _) ← findField p name
    return field.isSome

/-- `garbage` is the variable `size`, tested before it is set; `terminated`: a zero follows the
value; `realloc`: there is memory; `heap`: what stands in it. -/
structure SetCall where
  name : Bytes
  value : Bytes
  flags : ℤ
  garbage : ℕ
  terminated : Bool
  realloc : Bool
  heap : ℕ → UInt8
  name_ne : name ≠ []
  name_lt : name.length < maxKeyLen
  name_plain : equals ∉ name ∧ 0 ∉ name
  value_ne : value ≠ []
  value_plain : 0 ∉ value
  flags_known : flags = 0 ∨ flags = 1 ∨ flags = 2

def xattrCreate : ℤ := 1
def xattrReplace : ℤ := 2

def memmove (p : Bytes) (dst src n : ℕ) : Except XattrFault Bytes := do
  require (dst + n ≤ p.length ∧ src + n ≤ p.length) .area
  return p.take dst ++ (p.drop src).take n ++ p.drop (dst + n)

def putValue (p : Bytes) (dst : ℕ) (value : Bytes) : Except XattrFault Bytes := do
  require (dst + value.length ≤ p.length) .area
  return p.take dst ++ value ++ p.drop (dst + value.length)

/-- `replace_xattr` after the field was found; the old value has `j` bytes from `i` on. The rest is
moved with the length of the whole. -/
def replaceValue (p : Bytes) (c : SetCall) (i j : ℕ) : Except XattrFault (ℤ × Bytes) :=
  if c.value.length < j then do
    let q ← putValue p i c.value
    let q ← memmove q (i + c.value.length) (i + j) (p.length - (j - c.value.length))
    return (0, q.take (p.length - (j - c.value.length)))
  else if c.value.length = j then do
    let q ← putValue p i c.value
    return (0, q)
  else if c.realloc = false then return (-1, p)
  else do
    let grown := p ++ (List.range (c.value.length - j)).map c.heap
    let q ← memmove grown (i + c.value.length) (i + j) (p.length + (c.value.length - j))
    let q ← putValue q i c.value
    return (0, q)

def replaceXattr (p : Bytes) (c : SetCall) : Except XattrFault (ℤ × Bytes) := do
  let (_, place) ← findField p c.name
  let stop ← scanTo p (place + 1) 0
  replaceValue p c (place + 1) (stop - (place + 1))

/-- `key_len` stays 0 unless the name is too long. -/
def appendXattr (p : Bytes) (c : SetCall) : Except XattrFault (ℤ × Bytes) :=
  let keyLen := if maxKeyLen < c.name.length then maxKeyLen else 0
  if c.realloc = false then return (-1, p)
  else do
    require (c.terminated = true) .caller
    return (0, p ++ c.name.take keyLen ++ equals :: c.value)

def sfsSetxattr (p : Bytes) (c : SetCall) : Except XattrFault (ℤ × Bytes) :=
  if c.garbage = 0 then return (-1, p)
  else if c.flags = xattrCreate then do
    if ← xattrExists p c.name then return (-1, p) else appendXattr p c
  else if c.flags = xattrReplace then do
    if ← xattrExists p c.name then replaceXattr p c else return (-1, p)
  else if c.flags = 0 then do
    if ← xattrExists p c.name then replaceXattr p c else appendXattr p c
  else return (-1, p)

def Named (name : Bytes) : Prop :=
  name ≠ [] ∧ name.length < maxKeyLen ∧ equals ∉ name ∧ 0 ∉ name

instance (name : Bytes) : Decidable (Named name) := inferInstanceAs (Decidable (_ ∧ _))

/-- `value` is what stands in the caller's buffer, or a null pointer. Paths start with a slash. -/
structure GetCall where
  path : Bytes
  name : Bytes
  value : Option Bytes
  path_head : path.head? = some 47
  named : Named name

def GetCall.size (g : GetCall) : ℕ := g.value.elim 0 List.length

/-- The messages to the log before the parameters are checked. -/
def GetCall.log (ctx : ℕ) (g : GetCall) : Except XattrFault Unit := do
  require (Fits ctx sfsDebug ("path = \n".length + g.path.length)) .log
  require (Fits ctx sfsDebug ("name = \n".length + g.name.length)) .log
  match g.value with
  | none => return
  | some buf =>
    require (sfsDebug ≤ ctx → 0 ∈ buf) .caller
    require (Fits ctx sfsDebug ("value = \n".length + (buf.takeWhile (· ≠ 0)).length)) .log

/-- What is returned, and what was copied to `value`. The copy starts at the `=`. -/
def sfsGetxattr (ctx : ℕ) (p : Bytes) (g : GetCall) : Except XattrFault (ℤ × Bytes) :=
  if g.name = securityIma then return (-1, [])
  else do
    g.log ctx
    if g.size = 0 then return (-1, [])
    else if g.path = [46] ∨ g.path = [46, 46] then return (0, [])
    else
      match ← findField p g.name with
      | (some field, _) =>
        let copied := ((p.drop field.place).take g.size).takeWhile (· ≠ 0)
        -- The loop tests the byte behind the last one it copied before it tests `size`.
        require (field.place + copied.length < p.length) .area
        return (copied.length, copied)
      | (none, _) =>
        require (Fits ctx sfsErr ("sfs_getxattr: Attribute  not found for path \n".length +
          (g.name.length + g.path.length))) .log
        return (-1, [])

/-- `bytes_copied` and what is in the list. A name that does not fit ends the loop. -/
def listField (size : ℕ) (s : ℕ × Bytes) (field : Field) : (ℕ × Bytes) × Bool :=
  if s.1 < size ∧ s.1 + (field.j + 1) < size then
    ((s.1 + (field.j + 1),
      s.2.take s.1 ++ field.key ++ 0 :: s.2.drop (s.1 + field.key.length + 1)), false)
  else (s, true)

/-- The list starts with the zeros that stand for what the caller left in it. -/
def sfsListxattr (p : Bytes) (size : ℕ) : Except XattrFault (ℤ × Bytes) :=
  if size = 0 then return (-1, [])
  else do
    let ((copied, list), _) ← walk p (listField size) p.length 0 (0, List.replicate size 0)
    return (copied, list.take copied)

abbrev Attributes := Bytes → Option Bytes

/-- What a call should return, and the attributes after it. -/
def expected (m : Attributes) (c : SetCall) : ℤ × Attributes :=
  if (c.flags = xattrCreate ∧ m c.name ≠ none) ∨ (c.flags = xattrReplace ∧ m c.name = none) then
    (-1, m)
  else (0, update m c.name (some c.value))

/-- The messages to the log about a call have room, and the buffer for the value holds a text. -/
def GetCall.Logged (ctx : ℕ) (g : GetCall) : Prop :=
  g.name = securityIma ∨
    (sfsDebug ≤ ctx → g.path.length < 120 ∧ g.name.length < 120 ∧
      ∀ buf, g.value = some buf → 0 ∈ buf ∧ (buf.takeWhile (· ≠ 0)).length < 119) ∧
    (sfsErr ≤ ctx → g.size ≠ 0 → g.name.length + g.path.length < 83)

/-- A value is read as it was set, and a name that was not set is not found. -/
def GetRight (ctx : ℕ) (p : Bytes) (m : Attributes) (g : GetCall) : Prop :=
  match m g.name with
  | some value => value.length ≤ g.size → sfsGetxattr ctx p g = .ok (value.length, value)
  | none => sfsGetxattr ctx p g = .ok (-1, [])

/-- The area shows the attributes to reads with room in the log, and lists the names set. -/
structure Shows (ctx : ℕ) (p : Bytes) (m : Attributes) : Prop where
  read : ∀ g : GetCall, g.Logged ctx → GetRight ctx p m g
  listed : ∃ names : List Bytes, names.Nodup ∧ (∀ name, name ∈ names ↔ m name ≠ none) ∧
    ∀ size, (names.flatMap (· ++ [0])).length < size →
      sfsListxattr p size = .ok ((names.flatMap (· ++ [0])).length, names.flatMap (· ++ [0]))
  safe : ∀ size, Returns (sfsListxattr p size)

/-- The call returns what it should, and the area it leaves shows what it should. -/
def SetRight (ctx : ℕ) (p : Bytes) (m : Attributes) (c : SetCall) : Prop :=
  ∃ p', sfsSetxattr p c = .ok ((expected m c).1, p') ∧ Shows ctx p' (expected m c).2

section Scan
variable {p name value : Bytes} {i k : ℕ} {c : UInt8}

theorem scanTo_eq_ok (h : scanTo p i c = .ok k) : i ≤ k ∧ p[k]? = some c := by
  unfold scanTo at h
  cases hfind : (p.drop i).findIdx? (· = c) with
  | none =>
    rw [hfind] at h
    cases h
  | some n =>
    rw [hfind] at h
    cases h
    obtain ⟨hlt, hmet, -⟩ := List.findIdx?_eq_some_iff_getElem.mp hfind
    refine ⟨Nat.le_add_right i n, ?_⟩
    rw [← List.getElem?_drop, List.getElem?_eq_getElem hlt]
    simpa using hmet

theorem findIdx?_of_notMem {w : Bytes} (h : c ∉ w) : w.findIdx? (· = c) = none := by
  rw [List.findIdx?_eq_none_iff]
  intro x hx
  have hne : x ≠ c := fun heq => h (heq ▸ hx)
  simpa using hne

theorem scanTo_of_notMem (h : c ∉ p.drop i) : scanTo p i c = .error .area := by
  unfold scanTo
  rw [findIdx?_of_notMem h]

theorem scanTo_at {w tail : Bytes} (h : p.drop i = w ++ c :: tail) (hw : c ∉ w) :
    scanTo p i c = .ok (i + w.length) := by
  have hfirst : (p.drop i).findIdx? (· = c) = some w.length := by
    rw [h, List.findIdx?_append, findIdx?_of_notMem hw]
    simp [List.findIdx?_cons]
  unfold scanTo
  rw [hfirst]

theorem readField_place {field : Field} (h : readField p i = .ok field) : i ≤ field.place := by
  obtain ⟨place, hplace, h⟩ := bind_eq_ok.mp h
  obtain ⟨-, -, h⟩ := bind_eq_ok.mp h
  obtain ⟨-, -, h⟩ := bind_eq_ok.mp h
  cases h
  exact (scanTo_eq_ok hplace).1

theorem turn_lt {field : Field} (hi : p.getD i 0 ≠ 0) (hread : readField p i = .ok field)
    (hnext : scanTo p (field.place + field.j) 0 = .ok k) : i < k := by
  obtain ⟨hle, hzero⟩ := scanTo_eq_ok hnext
  have hplace := readField_place hread
  have hne : i ≠ k := by
    rintro rfl
    rw [List.getD_eq_getElem?_getD, hzero] at hi
    exact hi rfl
  omega

section Turn
variable {σ : Type} {visit : σ → Field → σ × Bool} {fuel : ℕ} {s : σ}

theorem walk_end (h : ¬ i < p.length) : walk p visit (fuel + 1) i s = .ok (s, i) := by
  rw [walk, if_neg h]
  rfl

theorem walk_separator (hlt : i < p.length) (hzero : p.getD i 0 = 0) :
    walk p visit (fuel + 1) i s = walk p visit fuel (i + 1) s := by
  rw [walk, if_pos hlt, if_pos hzero]

theorem walk_fault {fault : XattrFault} (hlt : i < p.length) (hzero : p.getD i 0 ≠ 0)
    (hread : readField p i = .error fault) : walk p visit (fuel + 1) i s = .error fault := by
  rw [walk, if_pos hlt, if_neg hzero, hread]
  rfl

theorem walk_field {field : Field} (hlt : i < p.length) (hzero : p.getD i 0 ≠ 0)
    (hread : readField p i = .ok field) : walk p visit (fuel + 1) i s =
      if (visit s field).2 then .ok ((visit s field).1, field.place)
      else scanTo p (field.place + field.j) 0 >>= fun k =>
        walk p visit fuel k (visit s field).1 := by
  rw [walk, if_pos hlt, if_neg hzero, hread]
  rfl

/-- The loop has ended by itself when the number of turns runs out. -/
theorem walk_succ (h : p.length ≤ i + fuel) :
    walk p visit (fuel + 1) i s = walk p visit fuel i s := by
  induction fuel generalizing i s with
  | zero =>
    rw [walk_end (by omega)]
    rfl
  | succ fuel ih =>
    by_cases hlt : i < p.length
    swap
    · rw [walk_end hlt, walk_end hlt]
    by_cases hzero : p.getD i 0 = 0
    · rw [walk_separator hlt hzero, walk_separator hlt hzero]
      exact ih (by omega)
    cases hread : readField p i with
    | error fault => rw [walk_fault hlt hzero hread, walk_fault hlt hzero hread]
    | ok field =>
      rw [walk_field hlt hzero hread, walk_field hlt hzero hread]
      congr 1
      cases hnext : scanTo p (field.place + field.j) 0 with
      | error fault => rfl
      | ok k =>
        have hik := turn_lt hzero hread hnext
        rw [ok_bind, ok_bind]
        exact ih (by omega)

end Turn

theorem readField_unnamed (value : Bytes) :
    readField (equals :: value) 0 = .ok ⟨[], 0, 0⟩ := by
  have hscan : scanTo (equals :: value) 0 equals = .ok 0 := scanTo_at rfl List.not_mem_nil
  have hbuffer : (keyBuffer (equals :: value) 0 0).takeWhile (· ≠ 0) = [] := by
    simp [keyBuffer, maxKeyLen]
  unfold readField
  rw [hscan, ok_bind, require_bind_of (Or.inl rfl), require_bind_of (by decide)]
  simp only [hbuffer, Nat.sub_self]
  rfl

theorem findField_unnamed (hname : name ≠ []) (hvalue : 0 ∉ value) :
    findField (equals :: value) name = .error .area := by
  have hnul : (0 : UInt8) ∉ equals :: value := by
    rw [List.mem_cons, not_or]
    exact ⟨by decide, hvalue⟩
  have hfirst : (equals :: value).getD 0 0 ≠ 0 := by
    rw [List.getD_cons_zero]
    decide
  have hlt : 0 < (equals :: value).length := Nat.succ_pos _
  unfold findField
  rw [List.length_cons, walk_field hlt hfirst (readField_unnamed value)]
  simp only [if_neg hname.symm, Bool.false_eq_true, if_false]
  rw [scanTo_of_notMem fun hmem => hnul (List.mem_of_mem_drop hmem)]
  rfl

end Scan

section Calls
variable {c : SetCall}

theorem appendXattr_eq (p : Bytes) (hrealloc : c.realloc = true) (hterm : c.terminated = true) :
    appendXattr p c = .ok (0, p ++ equals :: c.value) := by
  have hkey : ¬ maxKeyLen < c.name.length := Nat.not_lt.mpr c.name_lt.le
  unfold appendXattr
  simp only [if_neg hkey, hrealloc, hterm, List.take_zero, List.append_nil]
  rfl

theorem GetCall.log_eq_ok {ctx : ℕ} {g : GetCall} : g.log ctx = .ok () ↔
    (sfsDebug ≤ ctx → g.path.length < 120 ∧ g.name.length < 120 ∧
      ∀ buf, g.value = some buf → 0 ∈ buf ∧ (buf.takeWhile (· ≠ 0)).length < 119) := by
  have hpath : Fits ctx sfsDebug ("path = \n".length + g.path.length) ↔
      (sfsDebug ≤ ctx → g.path.length < 120) := by
    refine imp_congr_right fun _ => ?_
    change 8 + _ < 128 ↔ _
    omega
  have hname : Fits ctx sfsDebug ("name = \n".length + g.name.length) ↔
      (sfsDebug ≤ ctx → g.name.length < 120) := by
    refine imp_congr_right fun _ => ?_
    change 8 + _ < 128 ↔ _
    omega
  have hvalue : ∀ buf : Bytes,
      Fits ctx sfsDebug ("value = \n".length + (buf.takeWhile (· ≠ 0)).length) ↔
        (sfsDebug ≤ ctx → (buf.takeWhile (· ≠ 0)).length < 119) := by
    refine fun buf => imp_congr_right fun _ => ?_
    change 9 + _ < 128 ↔ _
    omega
  unfold GetCall.log
  rw [require_bind_eq_ok, require_bind_eq_ok, hpath, hname]
  cases hbuf : g.value with
  | none =>
    simp only [pure, Except.pure, and_true, reduceCtorEq, false_imp_iff, implies_true, ← forall_and]
  | some buf =>
    dsimp only
    rw [require_bind_eq_ok, require_eq_ok, hvalue]
    simp only [Option.some.injEq, forall_eq', ← imp_and]

theorem GetCall.path_ne_dots (g : GetCall) : ¬ (g.path = [46] ∨ g.path = [46, 46]) := by
  have hhead := g.path_head
  rintro (hpath | hpath)
  · rw [hpath] at hhead
    cases hhead
  · rw [hpath] at hhead
    cases hhead

/-- On an inode without attributes nothing is found. -/
theorem sfsGetxattr_nil_iff {ctx : ℕ} {g : GetCall} :
    sfsGetxattr ctx [] g = .ok (-1, []) ↔ g.Logged ctx := by
  have hnotFound : Fits ctx sfsErr ("sfs_getxattr: Attribute  not found for path \n".length +
      (g.name.length + g.path.length)) ↔ (sfsErr ≤ ctx → g.name.length + g.path.length < 83) := by
    refine imp_congr_right fun _ => ?_
    change 45 + _ < 128 ↔ _
    omega
  unfold sfsGetxattr GetCall.Logged
  by_cases hima : g.name = securityIma
  · simp [hima, pure, Except.pure]
  · rw [if_neg hima, unit_bind_eq_ok, GetCall.log_eq_ok]
    simp only [hima, false_or]
    refine and_congr_right fun _ => ?_
    by_cases hsize : g.size = 0
    · simp [hsize, pure, Except.pure]
    · rw [if_neg hsize, if_neg g.path_ne_dots]
      change (require _ _ >>= _) = _ ↔ _
      rw [require_bind_eq_ok, hnotFound]
      simp [hsize, pure, Except.pure]

theorem shows_nil {ctx : ℕ} : Shows ctx [] fun _ => none where
  read _ hlogged := sfsGetxattr_nil_iff.mpr hlogged
  listed := by
    refine ⟨[], List.nodup_nil, by simp, ?_⟩
    intro size hsize
    have hne : size ≠ 0 := Nat.ne_of_gt hsize
    unfold sfsListxattr
    rw [if_neg hne]
    rfl
  safe := by
    intro size
    unfold sfsListxattr
    by_cases hsize : size = 0
    · rw [if_pos hsize]
      exact returns_pure _
    · rw [if_neg hsize]
      exact ⟨_, rfl⟩

def shortGet (a : UInt8) (h : Named [a]) : GetCall := ⟨[47], [a], some [0], rfl, h⟩

/-- Behind an attribute without its name no other one is looked for in the area. -/
theorem not_shows_unnamed {ctx : ℕ} (c : SetCall) :
    ¬ Shows ctx (equals :: c.value) (update (fun _ => none) c.name (some c.value)) := by
  intro h
  obtain ⟨a, ha, hne⟩ : ∃ a, ∃ _ : Named [a], [a] ≠ c.name := by
    by_cases hname : c.name = [97]
    · exact ⟨98, by decide, by rw [hname]; decide⟩
    · exact ⟨97, by decide, Ne.symm hname⟩
  have hlogged : (shortGet a ha).Logged ctx := by
    refine .inr ⟨fun _ => ⟨show 1 < 120 by decide, show 1 < 120 by decide, ?_⟩,
      fun _ _ => show 1 + 1 < 83 by decide⟩
    rintro buf ⟨⟩
    decide
  have hget := h.read (shortGet a ha) hlogged
  have hmissing : update (fun _ => none) c.name (some c.value) (shortGet a ha).name =
      none := update_of_ne hne _ _
  unfold GetRight at hget
  rw [hmissing] at hget
  unfold sfsGetxattr at hget
  have hima : (shortGet a ha).name ≠ securityIma := by
    intro heq
    have := congrArg List.length heq
    cases this
  rw [if_neg hima] at hget
  obtain ⟨_, -, hget⟩ := bind_eq_ok.mp hget
  have hsize : (shortGet a ha).size ≠ 0 := Nat.one_ne_zero
  have hfind : findField (equals :: c.value) (shortGet a ha).name = .error .area :=
    findField_unnamed ha.1 c.value_plain
  rw [if_neg hsize, if_neg (GetCall.path_ne_dots _), hfind] at hget
  cases hget

theorem sfsSetxattr_replace (h : c.flags = xattrReplace) : sfsSetxattr [] c = .ok (-1, []) := by
  unfold sfsSetxattr
  by_cases hgarbage : c.garbage = 0
  · rw [if_pos hgarbage]
    rfl
  · rw [if_neg hgarbage, if_neg (by rw [h]; decide), if_pos h]
    rfl

theorem sfsSetxattr_append (h : c.flags ≠ xattrReplace) (hgarbage : c.garbage ≠ 0) :
    sfsSetxattr [] c = appendXattr [] c := by
  unfold sfsSetxattr
  rw [if_neg hgarbage]
  by_cases hcreate : c.flags = xattrCreate
  · rw [if_pos hcreate]
    rfl
  · have hzero : c.flags = 0 := by
      have hknown := c.flags_known
      simp only [xattrReplace, xattrCreate] at h hcreate
      omega
    rw [if_neg hcreate, if_neg h, if_pos hzero]
    rfl

/-- On an inode without attributes a call is right exactly if it is to replace one. -/
theorem setRight_nil_iff {ctx : ℕ} :
    SetRight ctx [] (fun _ => none) c ↔ c.flags = xattrReplace := by
  constructor
  · rintro ⟨p', hset, hshows⟩
    by_contra hflags
    have hexpected : expected (fun _ => none) c =
        (0, update (fun _ => none) c.name (some c.value)) := by
      unfold expected
      rw [if_neg (by simp [hflags])]
    rw [hexpected] at hset hshows
    by_cases hgarbage : c.garbage = 0
    · unfold sfsSetxattr at hset
      rw [if_pos hgarbage] at hset
      cases hset
    rw [sfsSetxattr_append hflags hgarbage] at hset
    cases hrealloc : c.realloc with
    | false =>
      simp only [appendXattr, hrealloc, if_true] at hset
      cases hset
    | true =>
      cases hterm : c.terminated with
      | false =>
        simp only [appendXattr, hrealloc, hterm] at hset
        cases hset
      | true =>
        rw [appendXattr_eq [] hrealloc hterm] at hset
        cases hset
        exact not_shows_unnamed c hshows
  · intro h
    have hexpected : expected (fun _ => none) c = (-1, fun _ => none) := by
      unfold expected
      rw [if_pos (.inr ⟨h, rfl⟩)]
    refine ⟨[], ?_, ?_⟩
    · rw [hexpected]
      exact sfsSetxattr_replace h
    · rw [hexpected]
      exact shows_nil

end Calls

section Runs

/-- An inode in use: its area, and the attributes that were set. -/
structure XattrUse where
  area : Bytes
  attributes : Attributes

/-- A call that leaves a buffer has no next state. -/
def setStep (u : XattrUse) (c : SetCall) : Option XattrUse :=
  match sfsSetxattr u.area c with
  | .ok (_, area) => some ⟨area, (expected u.attributes c).2⟩
  | .error _ => none

def xattrSystem : System XattrUse SetCall where
  init u := u = ⟨[], fun _ => none⟩
  step := setStep

theorem reach_empty {u : XattrUse}
    (hr : xattrSystem.Reach (fun _ c => c.flags = xattrReplace) u) :
    u = ⟨[], fun _ => none⟩ := by
  apply hr.invariant (I := fun u => u = ⟨[], fun _ => none⟩)
  · intro u h
    exact h
  · intro u c t _ hu hflags hstep
    subst hu
    simp only [xattrSystem, setStep, sfsSetxattr_replace hflags, Option.some.injEq] at hstep
    have hexpected : (expected (fun _ => none) c).2 = fun _ => none := by
      unfold expected
      rw [if_pos (.inr ⟨hflags, rfl⟩)]
    rw [← hstep, hexpected]

/-- The attributes behave as a map exactly as long as none is set, for reads that leave room in the
log and bring a buffer with a zero in it. -/
theorem xattr_right_iff {ctx : ℕ} {u : XattrUse}
    (hr : xattrSystem.Reach (fun _ c => c.flags = xattrReplace) u) :
    Shows ctx u.area u.attributes ∧
      (∀ c, SetRight ctx u.area u.attributes c ↔ c.flags = xattrReplace) ∧
      ∀ g, GetRight ctx u.area u.attributes g ↔ g.Logged ctx := by
  rw [reach_empty hr]
  exact ⟨shows_nil, fun _ => setRight_nil_iff, fun _ => sfsGetxattr_nil_iff⟩

theorem exampleName_plain : equals ∉ [(97 : UInt8)] ∧ 0 ∉ [(97 : UInt8)] := by decide

theorem exampleValue_plain : 0 ∉ [(118 : UInt8)] := by decide

/-- Set the attribute `a` to `v`, with all that the call needs. -/
def exampleCall (flags : ℤ) (h : flags = 0 ∨ flags = 1 ∨ flags = 2) : SetCall where
  name := [97]
  value := [118]
  flags := flags
  garbage := 1
  terminated := true
  realloc := true
  heap := fun _ => 0
  name_ne := List.cons_ne_nil _ _
  name_lt := Nat.lt_of_lt_of_le Nat.one_lt_two (Nat.le_add_left 2 126)
  name_plain := exampleName_plain
  value_ne := List.cons_ne_nil _ _
  value_plain := exampleValue_plain
  flags_known := h

/-- An attribute that is not there is not replaced. -/
theorem xattr_right_iff_replace :
    ∃ u, xattrSystem.run (fun _ c => c.flags = xattrReplace) ⟨[], fun _ => none⟩
        [exampleCall 2 (.inr (.inr rfl))] = some u ∧
      Shows sfsDebug u.area u.attributes ∧
      (∀ c, SetRight sfsDebug u.area u.attributes c ↔ c.flags = xattrReplace) ∧
      ∀ g, GetRight sfsDebug u.area u.attributes g ↔ g.Logged sfsDebug := by
  have hrun : ∃ u, xattrSystem.run (fun _ c => c.flags = xattrReplace) ⟨[], fun _ => none⟩
      [exampleCall 2 (.inr (.inr rfl))] = some u := ⟨_, rfl⟩
  obtain ⟨u, hrun⟩ := hrun
  exact ⟨u, hrun, xattr_right_iff (.run (.init rfl) hrun)⟩

def exampleGet (fill : UInt8) : GetCall :=
  ⟨[47, 102], [97], some (List.replicate 16 fill), rfl, by decide⟩

/-- An attribute is created with success, and to read it is to read outside the area. A buffer
without a zero is read beyond its end. -/
theorem xattr_loses_name :
    sfsSetxattr [] (exampleCall 1 (.inr (.inl rfl))) = .ok (0, [equals, 118]) ∧
      (∀ ctx, sfsGetxattr ctx [equals, 118] (exampleGet 0) = .error .area ∧
        ¬ SetRight ctx [] (fun _ => none) (exampleCall 1 (.inr (.inl rfl)))) ∧
      sfsGetxattr sfsDebug [] (exampleGet 1) = .error .caller := by
  refine ⟨rfl, fun ctx => ⟨?_, ?_⟩, rfl⟩
  · have hlog : (exampleGet 0).log ctx = .ok () := by
      rw [GetCall.log_eq_ok]
      refine fun _ => ⟨by decide, by decide, ?_⟩
      rintro buf ⟨⟩
      decide
    unfold sfsGetxattr
    rw [if_neg (by decide), hlog]
    rfl
  · rw [setRight_nil_iff]
    decide

end Runs

end SeamlessStack.Sfs
