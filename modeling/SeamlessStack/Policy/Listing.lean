import SeamlessStack.Lib.Keyed
import SeamlessStack.Lib.Numerals
import SeamlessStack.Policy.Reload

/-! `show_policy_entries`: the policies are listed from the keys of their records, which
`collect_policy_entries` takes apart with `strtok`. A policy counts as accepted when
`submit_policy_entry` returns 0, and its record is then under its key; what the record holds is left
open here. The records come in any order. -/
namespace SeamlessStack.Policy

open Lib

def pathMax : ℕ := 4096
def typeLen : ℕ := 8
def maxPolicyStrlen : ℕ := 1000

/-- An element of `pol_list`, with as many tags as it counts. -/
structure Listed where
  pi : PolicyInput
  attr : List UInt8
  tags : List (List UInt8)
  deriving DecidableEq, Repr

/-- Whether the list was freed, and its elements, `none` if not set; null if it is empty and not
freed. -/
structure PolList where
  freed : Bool
  slots : List (Option Listed)
  deriving DecidableEq, Repr

/-- What stands in the memory for the entry, if any, whether the list can grow, and whether there is
an element. -/
structure CollectMemory where
  pe : Option (ℕ → UInt8)
  list : Bool
  input : Bool

def atoi (s : List Char) : BitVec 32 := BitVec.ofInt 32 (strtol s).1

/-- The key with its separators taken out, copied to the arrays of the element. -/
def parseKey (key : List Char) : Except CopyFault PolicyInput := do
  let (fname, rest) ← follow (strtok '^' key)
  require (fname.length < pathMax) .outside
  let (ftype, rest) ← follow (strtok '^' rest)
  require (ftype.length < typeLen) .outside
  let (uid, rest) ← follow (strtok '^' rest)
  let (gid, _) ← follow (strtok '^' rest)
  return ⟨fname, ftype, atoi uid, atoi gid⟩

/-- The loop over the plugins that the entry counts, of which number `i` is next. -/
def copyTags (proc : Process) (pe : Block) : ℕ → ℕ → Except CopyFault (List (List UInt8))
  | 0, _ => return []
  | n + 1, i => do
    let pp ← inside (pe.read (policyEntrySize + pointerSize * i : ℕ) pointerSize)
    let plugin ← follow (proc.pluginAt pp)
    require (i < numMaxPolicy) .outside
    let tags ← copyTags proc pe n (i + 1)
    return plugin.policyName.take policyTagLen :: tags

def collectPolicyEntries (proc : Process) (mem : CollectMemory) (pol : PolList)
    (key : List Char) (data : List UInt8) : Except CopyFault PolList :=
  if data = [] then return pol
  else
    match mem.pe with
    | none => return pol
    | some contents => do
      let pe ← getPeFromPdbe proc (Block.ofBytes data) (fresh policyEntrySize contents)
      require (pol.freed = false) .wild
      if mem.list = false then return { pol with slots := pol.slots ++ [none] }
      else
        require (mem.input = true) .wild
        let pi ← parseKey key
        let attr ← inside ((pe.read 0 attributeSize).bind Block.bytes)
        let num ← inside (pe.u64 numPluginsOffset)
        let tags ← copyTags proc pe num 0
        return { pol with slots := pol.slots ++ [some ⟨pi, attr, tags⟩] }

/-- The line for the element with the index `i`. -/
def Listed.policyString (i : ℕ) (e : Listed) : List Char :=
  let byte (k : ℕ) := signedDecimal (e.attr.getD k 0).toNat
  let quota := BitVec.ofNat 32 (littleEndian ((e.attr.drop 4).take 4))
  "Index: ".toList ++ signedDecimal i ++ "\tuid: ".toList ++ decimal e.pi.uid ++
    "  gid: ".toList ++ decimal e.pi.gid ++ "  ftype: ".toList ++ e.pi.ftype ++
    "  fname: ".toList ++ e.pi.fname ++ "\t\tquota: ".toList ++ decimal quota ++
    "  QoS: ".toList ++ byte 8 ++ "  ishidden: ".toList ++ byte 9 ++
    "  num_replica: ".toList ++ byte 10 ++ "  DR: ".toList ++ byte 11 ++
    "\n\t\t\t\tPlugins: ".toList ++ e.tags.flatMap fun tag =>
      (tag.takeWhile (· ≠ 0)).map (fun b => Char.ofNat b.toNat) ++ "  ".toList

/-- The entries that got into the response, with its text; `full` says whether it has all. -/
structure Response where
  entries : List Listed
  text : List Char
  full : Bool
  deriving DecidableEq, Repr

def Response.ret (r : Response) : ℤ := if r.full then r.text.length else -enomem

/-- The elements from the index `i` on; `resp`: memory for a line. -/
def printEntries (resp : ℕ → Bool) : ℕ → List (Option Listed) → Except CopyFault Response
  | _, [] => return ⟨[], [], true⟩
  | i, slot :: slots => do
    let e ← follow slot
    require ((e.policyString i).length < maxPolicyStrlen) .outside
    if resp i then
      let out ← printEntries resp (i + 1) slots
      return ⟨e :: out.entries, e.policyString i ++ out.text, out.full⟩
    else return ⟨[], [], false⟩

abbrev Record := List Char × List UInt8

/-- What a call of `show_policy_entries` depends on: the plugins, and the memory. -/
structure ShowCall where
  proc : Process
  mem : List Char → CollectMemory
  resp : ℕ → Bool
  addresses : ∀ pp, some pp ∈ proc.ptTable → pp.length = pointerSize

def collectAll (c : ShowCall) (pol : PolList) (records : List Record) :
    Except CopyFault PolList :=
  records.foldlM (fun pol r => collectPolicyEntries c.proc (c.mem r.1) pol r.1 r.2) pol

/-- The list is freed and made anew, with the pointer still leading to the old one. -/
def showPolicyEntries (c : ShowCall) (pol : PolList) (records : List Record) :
    Except CopyFault (PolList × Response) := do
  require (pol.freed = false) .wild
  let pol := if pol.slots = [] then pol else ⟨true, []⟩
  let pol ← collectAll c pol records
  let out ← printEntries c.resp 0 pol.slots
  return (pol, out)

/-! ### Submissions -/

/-- A submission with the record that is made of it. The texts stand in arrays. -/
structure ListCall extends SubmitCall where
  record : List UInt8
  fname_lt : pi.fname.length < pathMax
  ftype_lt : pi.ftype.length < typeLen

/-- The table, the policies that were accepted, and the database. -/
structure ListUse where
  table : PolicyTable
  accepted : List PolicyInput
  records : List Record

def putRecord (records : List Record) (key : List Char) (data : List UInt8) :
    List Record :=
  if key ∈ records.map Prod.fst then replaceFirst Prod.fst (key, data) records
  else records ++ [(key, data)]

/-- Only calls that return 0 are seen, and a key that does not fit into its buffer is none. -/
def listStep (u : ListUse) (c : ListCall) : Option ListUse :=
  if c.pi.key.length + 1 ≤ keySize ∧ (submitPolicyEntry u.table c.toSubmitCall).1 = 0 then
    some ⟨(submitPolicyEntry u.table c.toSubmitCall).2, c.pi :: u.accepted,
      putRecord u.records c.pi.key c.record⟩
  else none

def listSystem : System ListUse ListCall where
  init u := ∃ refcount, u = ⟨⟨true, fun _ _ => none, refcount, 0⟩, [], []⟩
  step := listStep

/-- Every policy is listed once with its four fields, and two policies are two entries. -/
def Lists (c : ShowCall) (pol : PolList) (accepted : List PolicyInput)
    (records : List Record) : Prop :=
  ∃ pol' out, showPolicyEntries c pol records = .ok (pol', out) ∧
    (∀ p ∈ accepted, (out.entries.map Listed.pi).count p = 1) ∧
    ∀ p ∈ accepted, ∀ q ∈ accepted, p ≠ q → ∃ i j : ℕ, i ≠ j ∧
      (out.entries[i]?).map Listed.pi = some p ∧ (out.entries[j]?).map Listed.pi = some q

/-! ### When it works -/

/-- The first two fields are there and have no separator. -/
structure PolicyInput.Plain (p : PolicyInput) : Prop where
  fname_ne : p.fname ≠ []
  fname_sep : '^' ∉ p.fname
  ftype_ne : p.ftype ≠ []
  ftype_sep : '^' ∉ p.ftype

/-- There is memory for the record, no plugin has one of its tags, and the memory happens to count
no plugins. -/
def Entered (proc : Process) (mem : CollectMemory) (data : List UInt8) : Prop :=
  data ≠ [] ∧ mem.list = true ∧ mem.input = true ∧ ∃ contents, mem.pe = some contents ∧
    Returns (getPeFromPdbe proc (Block.ofBytes data) (fresh policyEntrySize contents)) ∧
    (fresh policyEntrySize contents).u64 numPluginsOffset = some 0

def attrOf (data : List UInt8) : List UInt8 := (data.drop attrOffset).take attributeSize

/-- The list is made for the first time, from records as they should be, and the lines fit. -/
structure Listable (c : ShowCall) (pol : PolList) (accepted : List PolicyInput)
    (records : List Record) : Prop where
  valid : pol.freed = false
  first : pol.slots = [] ∨ records = []
  plain : ∀ p ∈ accepted, p.Plain
  entered : ∀ r ∈ records, Entered c.proc (c.mem r.1) r.2
  memory : ∀ i < records.length, c.resp i = true
  fits : ∀ i p data, records[i]? = some (p.key, data) → p ∈ accepted →
    (Listed.policyString i ⟨p, attrOf data, []⟩).length < maxPolicyStrlen

section Key
variable {p : PolicyInput} {key : List Char}

theorem decimal_plain (v : BitVec 32) : decimal v ≠ [] ∧ '^' ∉ decimal v := by
  have hdigits : '^' ∉ Nat.toDigits 10 v.toInt.natAbs :=
    notMem_toDigits (by decide) (by decide) (by decide)
  unfold decimal
  split
  · simp [hdigits]
  · exact ⟨Nat.toDigits_ne_nil, hdigits⟩

theorem atoi_decimal (v : BitVec 32) : atoi (decimal v) = v := by
  have hmin := BitVec.le_toInt v
  have hmax := BitVec.toInt_lt (x := v)
  have hread : strtol (decimal v) = (v.toInt, []) := strtol_signedDecimal (by omega) (by omega)
  rw [atoi, hread]
  exact BitVec.ofInt_toInt

theorem parseKey_key (h : p.Plain) (hfname : p.fname.length < pathMax)
    (hftype : p.ftype.length < typeLen) : parseKey p.key = .ok p := by
  obtain ⟨huid, huid'⟩ := decimal_plain p.uid
  obtain ⟨hgid, hgid'⟩ := decimal_plain p.gid
  unfold parseKey PolicyInput.key
  rw [strtok_field h.fname_ne h.fname_sep, follow, ok_bind]
  dsimp only
  rw [require_bind_of hfname, strtok_field h.ftype_ne h.ftype_sep, follow, ok_bind]
  dsimp only
  rw [require_bind_of hftype, strtok_field huid huid', follow, ok_bind]
  dsimp only
  rw [strtok_last hgid hgid', follow, ok_bind, atoi_decimal, atoi_decimal]
  rfl

theorem plain_of_parseKey (h : parseKey key = .ok p) : p.Plain := by
  obtain ⟨⟨fname, rest⟩, hfname, h⟩ := bind_eq_ok.mp h
  obtain ⟨u, -, h⟩ := bind_eq_ok.mp h
  obtain ⟨⟨ftype, rest'⟩, hftype, h⟩ := bind_eq_ok.mp h
  obtain ⟨u', -, h⟩ := bind_eq_ok.mp h
  obtain ⟨uid, -, h⟩ := bind_eq_ok.mp h
  obtain ⟨gid, -, h⟩ := bind_eq_ok.mp h
  obtain rfl := Except.ok.inj h
  obtain ⟨hne, hsep⟩ := strtok_eq_some (follow_eq_ok.mp hfname)
  obtain ⟨hne', hsep'⟩ := strtok_eq_some (follow_eq_ok.mp hftype)
  exact ⟨hne, hsep, hne', hsep'⟩

end Key

section Record
variable {proc : Process} {tags pe pe' : Block} {data : List UInt8} {contents : ℕ → UInt8}

/-- An entry without room for plugins is not changed, since a plugin would be written behind it. -/
theorem matchTag_full {table : List (Option Block)} {i k k' : ℕ}
    (htable : ∀ pp, some pp ∈ table → pp.length = pointerSize) (hpe : pe.length = policyEntrySize)
    (h : matchTag proc tags i table k pe = .ok (k', pe')) : pe' = pe := by
  induction table with
  | nil =>
    cases h
    rfl
  | cons pp rest ih =>
    have hrest : ∀ pp, some pp ∈ rest → pp.length = pointerSize :=
      fun pp hpp => htable pp (List.mem_cons_of_mem _ hpp)
    cases pp with
    | none =>
      rw [matchTag] at h
      exact ih hrest h
    | some pp =>
      rw [matchTag] at h
      obtain ⟨tag, -, h⟩ := bind_eq_ok.mp h
      obtain ⟨text, -, h⟩ := bind_eq_ok.mp h
      obtain ⟨plugin, -, h⟩ := bind_eq_ok.mp h
      split at h
      · obtain ⟨written, hwritten, -⟩ := bind_eq_ok.mp h
        have hle := (Block.write_eq_some.mp (inside_eq_ok.mp hwritten)).2.1
        rw [htable pp List.mem_cons_self, hpe] at hle
        simp only [policyEntrySize, pointerSize] at hle
        omega
      · exact ih hrest h

theorem getPeFromTags_full {n i k : ℕ}
    (htable : ∀ pp, some pp ∈ proc.ptTable → pp.length = pointerSize)
    (hpe : pe.length = policyEntrySize) (h : getPeFromTags proc tags n i k pe = .ok pe') :
    pe' = pe := by
  induction n generalizing i k with
  | zero =>
    cases h
    rfl
  | succ n ih =>
    rw [getPeFromTags] at h
    obtain ⟨⟨k', same⟩, hmatch, hrest⟩ := bind_eq_ok.mp h
    rw [matchTag_full htable hpe hmatch] at hrest
    exact ih hrest

/-- The entry has the attributes of the record, and counts what the memory held. -/
theorem getPeFromPdbe_full (htable : ∀ pp, some pp ∈ proc.ptTable → pp.length = pointerSize)
    (h : getPeFromPdbe proc (Block.ofBytes data) (fresh policyEntrySize contents) = .ok pe) :
    pe.length = policyEntrySize ∧
      (pe.read 0 attributeSize).bind Block.bytes = some (attrOf data) ∧
      pe.u64 numPluginsOffset = (fresh policyEntrySize contents).u64 numPluginsOffset := by
  obtain ⟨attr, hattr, h⟩ := bind_eq_ok.mp h
  obtain ⟨written, hwritten, h⟩ := bind_eq_ok.mp h
  obtain ⟨num, -, h⟩ := bind_eq_ok.mp h
  rw [inside_eq_ok] at hattr hwritten
  have hsize : written.length = policyEntrySize := by
    rw [Block.write_length hwritten, fresh_length]
  obtain rfl := getPeFromTags_full htable hsize h
  have hlen : attr.length = attributeSize := Block.read_length hattr
  have hbytes : attr = Block.ofBytes (attrOf data) := by
    rw [(Block.read_eq_some.mp hattr).2.2]
    simp [Block.ofBytes, attrOf, List.map_drop, List.map_take]
  have hself := Block.read_write_self hwritten
  have hkept : pe.read numPluginsOffset 8 =
      (fresh policyEntrySize contents).read numPluginsOffset 8 := by
    apply Block.read_write_after hwritten
    rw [hlen]
    decide
  refine ⟨hsize, ?_, ?_⟩
  · rw [← hlen, hself, hbytes]
    exact Block.bytes_ofBytes _
  · unfold Block.u64
    rw [hkept]

theorem copyTags_eq_ok_iff {num : ℕ} {names : List (List UInt8)}
    (hpe : pe.length = policyEntrySize) :
    copyTags proc pe num 0 = .ok names ↔ num = 0 ∧ names = [] := by
  cases num with
  | zero => simp [copyTags, pure, Except.pure, eq_comm]
  | succ num =>
    refine iff_of_false (fun h => ?_) (by simp)
    rw [copyTags] at h
    obtain ⟨pp, hread, -⟩ := bind_eq_ok.mp h
    have hle := (Block.read_eq_some.mp (inside_eq_ok.mp hread)).2.1
    rw [hpe] at hle
    simp only [policyEntrySize, pointerSize] at hle
    omega

end Record

section Collect
variable {c : ShowCall} {mem : CollectMemory} {pol pol' : PolList} {key : List Char}
  {data : List UInt8} {records : List Record}

/-- What a call of `collect_policy_entries` can do to the list. -/
theorem collectPolicyEntries_cases (h : collectPolicyEntries c.proc mem pol key data = .ok pol') :
    pol' = pol ∨ pol.freed = false ∧ (pol' = { pol with slots := pol.slots ++ [none] } ∨
      Entered c.proc mem data ∧ ∃ pi, parseKey key = .ok pi ∧
        pol' = { pol with slots := pol.slots ++ [some ⟨pi, attrOf data, []⟩] }) := by
  unfold collectPolicyEntries at h
  split at h
  · exact .inl (Except.ok.inj h).symm
  rename_i hdata
  split at h
  · exact .inl (Except.ok.inj h).symm
  rename_i contents hcontents
  obtain ⟨pe, hpe, h⟩ := bind_eq_ok.mp h
  obtain ⟨u, hfreed, h⟩ := bind_eq_ok.mp h
  refine .inr ⟨require_eq_ok.mp hfreed, ?_⟩
  split at h
  · exact .inl (Except.ok.inj h).symm
  rename_i hlist
  obtain ⟨u', hinput, h⟩ := bind_eq_ok.mp h
  obtain ⟨pi, hpi, h⟩ := bind_eq_ok.mp h
  obtain ⟨attr, hattr, h⟩ := bind_eq_ok.mp h
  obtain ⟨num, hnum, h⟩ := bind_eq_ok.mp h
  obtain ⟨tags, htags, h⟩ := bind_eq_ok.mp h
  obtain ⟨hlen, hread, hcount⟩ := getPeFromPdbe_full c.addresses hpe
  obtain ⟨rfl, rfl⟩ := (copyTags_eq_ok_iff hlen).mp htags
  rw [inside_eq_ok] at hattr hnum
  obtain rfl := Option.some.inj (hattr.symm.trans hread)
  exact .inr ⟨⟨hdata, by simpa using hlist, require_eq_ok.mp hinput, contents, hcontents, ⟨pe, hpe⟩,
    hcount.symm.trans hnum⟩, pi, hpi, (Except.ok.inj h).symm⟩

/-- With a record as it should be, all depends on the key. -/
theorem collectPolicyEntries_entered (hfreed : pol.freed = false)
    (h : Entered c.proc mem data) : collectPolicyEntries c.proc mem pol key data =
      (parseKey key >>= fun pi =>
        .ok { pol with slots := pol.slots ++ [some ⟨pi, attrOf data, []⟩] }) := by
  obtain ⟨hdata, hlist, hinput, contents, hcontents, ⟨pe, hpe⟩, hzero⟩ := h
  obtain ⟨hlen, hread, hcount⟩ := getPeFromPdbe_full c.addresses hpe
  have htags : copyTags c.proc pe 0 0 = .ok [] := (copyTags_eq_ok_iff hlen).mpr ⟨rfl, rfl⟩
  unfold collectPolicyEntries
  rw [if_neg hdata, hcontents]
  dsimp only
  rw [hpe, ok_bind, require_bind_of hfreed, if_neg (by simp [hlist]), require_bind_of hinput,
    hread, hcount, hzero]
  simp only [inside, ok_bind, htags]
  rfl

theorem collectAll_cons (c : ShowCall) (pol : PolList) (r : Record)
    (records : List Record) : collectAll c pol (r :: records) =
      (collectPolicyEntries c.proc (c.mem r.1) pol r.1 r.2 >>= fun pol =>
        collectAll c pol records) := List.foldlM_cons

/-- An element that was set comes from a record, and from none if the list was freed. -/
theorem collectAll_mem (h : collectAll c pol records = .ok pol') {e : Listed}
    (he : some e ∈ pol'.slots) : some e ∈ pol.slots ∨ pol.freed = false ∧ ∃ r ∈ records,
      Entered c.proc (c.mem r.1) r.2 ∧ parseKey r.1 = .ok e.pi := by
  induction records generalizing pol with
  | nil =>
    cases h
    exact .inl he
  | cons r records ih =>
    rw [collectAll_cons] at h
    obtain ⟨next, hnext, hrest⟩ := bind_eq_ok.mp h
    obtain hold | ⟨hfreed, r', hr', hentered⟩ := ih hrest
    · obtain rfl | ⟨hfreed, rfl | ⟨hentered, pi, hpi, rfl⟩⟩ := collectPolicyEntries_cases hnext
      · exact .inl hold
      · simp only [List.mem_append, List.mem_singleton, reduceCtorEq, or_false] at hold
        exact .inl hold
      · simp only [List.mem_append, List.mem_singleton, Option.some.injEq] at hold
        obtain hold | rfl := hold
        · exact .inl hold
        · exact .inr ⟨hfreed, r, List.mem_cons_self, hentered, hpi⟩
    · have hbefore : pol.freed = false := by
        obtain rfl | ⟨hpol, -⟩ := collectPolicyEntries_cases hnext
        · exact hfreed
        · exact hpol
      exact .inr ⟨hbefore, r', List.mem_cons_of_mem _ hr', hentered⟩

def entryFor (policyOf : List Char → PolicyInput) (r : Record) : Listed :=
  ⟨policyOf r.1, attrOf r.2, []⟩

theorem collectAll_entered {policyOf : List Char → PolicyInput}
    (h : ∀ r ∈ records, Entered c.proc (c.mem r.1) r.2 ∧ parseKey r.1 = .ok (policyOf r.1))
    (slots : List (Option Listed)) : collectAll c ⟨false, slots⟩ records =
      .ok ⟨false, slots ++ (records.map (entryFor policyOf)).map some⟩ := by
  induction records generalizing slots with
  | nil =>
    rw [List.map_nil, List.map_nil, List.append_nil]
    rfl
  | cons r records ih =>
    obtain ⟨hentered, hkey⟩ := h r List.mem_cons_self
    rw [collectAll_cons, collectPolicyEntries_entered rfl hentered, hkey, ok_bind, ok_bind,
      ih fun r' hr' => h r' (List.mem_cons_of_mem _ hr')]
    simp [entryFor]

end Collect

section Print
variable {resp : ℕ → Bool} {i : ℕ} {slots : List (Option Listed)} {out : Response}

theorem printEntries_initial (h : printEntries resp i slots = .ok out) :
    out.entries.map some <+: slots := by
  induction slots generalizing i out with
  | nil =>
    cases h
    exact List.nil_prefix
  | cons slot slots ih =>
    rw [printEntries] at h
    obtain ⟨e, he, hline⟩ := bind_eq_ok.mp h
    rw [follow_eq_ok.mp he]
    obtain ⟨u, -, hprint⟩ := bind_eq_ok.mp hline
    split at hprint
    · obtain ⟨more, hmore, hout⟩ := bind_eq_ok.mp hprint
      rw [← Except.ok.inj hout]
      exact (List.prefix_cons_inj _).mpr (ih hmore)
    · rw [← Except.ok.inj hprint]
      exact List.nil_prefix

/-- It has all of them if the lines fit and there is memory for them. -/
theorem printEntries_all_iff {l : List Listed} :
    (∃ out, printEntries resp i (l.map some) = .ok out ∧ out.entries = l) ↔
      ∀ j e, l[j]? = some e → resp (i + j) = true ∧
        (e.policyString (i + j)).length < maxPolicyStrlen := by
  induction l generalizing i with
  | nil => exact iff_of_true ⟨_, rfl, rfl⟩ (by simp)
  | cons e l ih =>
    constructor
    · rintro ⟨out, h, hout⟩ j e' he'
      rw [List.map_cons, printEntries, follow, ok_bind] at h
      obtain ⟨u, hfits, h⟩ := bind_eq_ok.mp h
      split at h
      · rename_i hresp
        obtain ⟨more, hmore, h⟩ := bind_eq_ok.mp h
        obtain rfl := Except.ok.inj h
        have hrest := ih.mp ⟨more, hmore, (List.cons.inj hout).2⟩
        cases j with
        | zero =>
          obtain rfl := Option.some.inj he'
          exact ⟨hresp, require_eq_ok.mp hfits⟩
        | succ j =>
          rw [show i + (j + 1) = i + 1 + j by omega]
          exact hrest j e' he'
      · cases h
        cases hout
    · intro h
      obtain ⟨hresp, hfits⟩ := h 0 e rfl
      rw [Nat.add_zero] at hresp hfits
      obtain ⟨more, hmore, hentries⟩ := (ih (i := i + 1)).mpr fun j e' he' => by
        rw [show i + 1 + j = i + (j + 1) by omega]
        exact h (j + 1) e' he'
      refine ⟨⟨e :: more.entries, e.policyString i ++ more.text, more.full⟩, ?_, by rw [hentries]⟩
      rw [List.map_cons, printEntries, follow, ok_bind, require_bind_of hfits, if_pos hresp, hmore]
      rfl

end Print

/-- There is one record for each key of an accepted policy, and no other. -/
structure Held (accepted : List PolicyInput) (records : List Record) : Prop where
  nodup : (records.map Prod.fst).Nodup
  keys : ∀ k, k ∈ records.map Prod.fst ↔ ∃ p ∈ accepted, p.key = k
  arrays : ∀ p ∈ accepted, p.fname.length < pathMax ∧ p.ftype.length < typeLen

theorem Held.perm {accepted : List PolicyInput} {records records' : List Record}
    (h : Held accepted records) (hperm : records'.Perm records) : Held accepted records' where
  nodup := (hperm.map Prod.fst).nodup_iff.mpr h.nodup
  keys k := ((hperm.map Prod.fst).mem_iff).trans (h.keys k)
  arrays := h.arrays

theorem held_listStep {u v : ListUse} {c : ListCall} (h : Held u.accepted u.records)
    (hv : listStep u c = some v) : Held v.accepted v.records := by
  unfold listStep at hv
  split at hv
  swap
  · cases hv
  obtain rfl := Option.some.inj hv
  have harrays : ∀ p ∈ c.pi :: u.accepted, p.fname.length < pathMax ∧ p.ftype.length < typeLen := by
    intro p hp
    obtain rfl | hp := List.mem_cons.mp hp
    · exact ⟨c.fname_lt, c.ftype_lt⟩
    · exact h.arrays p hp
  have hkeys : ∀ k, (∃ p ∈ c.pi :: u.accepted, p.key = k) ↔ c.pi.key = k ∨
      k ∈ u.records.map Prod.fst := by
    intro k
    rw [h.keys]
    simp
  dsimp only
  unfold putRecord
  split
  · rename_i hold
    refine ⟨?_, fun k => ?_, harrays⟩
    · rw [map_replaceFirst]
      exact h.nodup
    · rw [map_replaceFirst, hkeys]
      exact ⟨.inr, fun hk => hk.elim (fun hk => hk ▸ hold) id⟩
  · rename_i hnew
    refine ⟨?_, fun k => ?_, harrays⟩
    · rw [List.map_append]
      exact List.nodup_append.mpr ⟨h.nodup, List.nodup_singleton _, by
        rintro k hk k' hk' rfl
        obtain rfl : k = c.pi.key := List.mem_singleton.mp hk'
        exact hnew hk⟩
    · rw [List.map_append, List.mem_append, hkeys, List.map_singleton, List.mem_singleton, or_comm]
      exact or_congr_left eq_comm

theorem reach_held {u : ListUse} (hr : listSystem.Reach System.AnyStep u) :
    Held u.accepted u.records := by
  apply hr.invariant
  · rintro u ⟨refcount, rfl⟩
    exact ⟨List.nodup_nil, by simp, by simp⟩
  · intro u c v _ h _ hv
    exact held_listStep h hv

section Show
variable {c : ShowCall} {pol : PolList} {accepted : List PolicyInput}
  {records : List Record}

def policyOf (key : List Char) : PolicyInput := (parseKey key).toOption.getD ⟨[], [], 0, 0⟩

theorem policyOf_key (hheld : Held accepted records) (hplain : ∀ p ∈ accepted, p.Plain)
    {p : PolicyInput} (hp : p ∈ accepted) : parseKey p.key = .ok p ∧ policyOf p.key = p := by
  obtain ⟨hfname, hftype⟩ := hheld.arrays p hp
  have hparse := parseKey_key (hplain p hp) hfname hftype
  refine ⟨hparse, ?_⟩
  unfold policyOf
  rw [hparse]
  rfl

/-- The policies of the records are different, and are the accepted ones. -/
theorem map_policyOf (hheld : Held accepted records) (hplain : ∀ p ∈ accepted, p.Plain) :
    (records.map fun r => policyOf r.1).Nodup ∧
      ∀ p, p ∈ records.map (fun r => policyOf r.1) ↔ p ∈ accepted := by
  have hback : ∀ r ∈ records, ∃ p ∈ accepted, p.key = r.1 ∧ policyOf r.1 = p := by
    intro r hr
    obtain ⟨p, hp, hkey⟩ := (hheld.keys r.1).mp (List.mem_map_of_mem hr)
    exact ⟨p, hp, hkey, hkey ▸ (policyOf_key hheld hplain hp).2⟩
  constructor
  · apply List.Nodup.of_map PolicyInput.key
    rw [List.map_map]
    have hkeys : records.map (PolicyInput.key ∘ fun r => policyOf r.1) = records.map Prod.fst := by
      apply List.map_congr_left
      intro r hr
      obtain ⟨p, -, hkey, hpolicy⟩ := hback r hr
      exact (congrArg PolicyInput.key hpolicy).trans hkey
    rw [hkeys]
    exact hheld.nodup
  · intro p
    rw [List.mem_map]
    constructor
    · rintro ⟨r, hr, rfl⟩
      obtain ⟨p, hp, -, hpolicy⟩ := hback r hr
      exact hpolicy ▸ hp
    · intro hp
      obtain ⟨r, hr, hkey⟩ := List.mem_map.mp ((hheld.keys p.key).mpr ⟨p, hp, rfl⟩)
      exact ⟨r, hr, hkey ▸ (policyOf_key hheld hplain hp).2⟩

/-- What a listing that is right was made of. -/
theorem sources_of_shown {pol' : PolList} {out : Response}
    (h : showPolicyEntries c pol records = .ok (pol', out)) {p : PolicyInput}
    (hp : p ∈ out.entries.map Listed.pi) : pol.slots = [] ∧ ∃ r ∈ records,
      Entered c.proc (c.mem r.1) r.2 ∧ parseKey r.1 = .ok p := by
  obtain ⟨u, -, h⟩ := bind_eq_ok.mp h
  dsimp only at h
  obtain ⟨built, hbuilt, h⟩ := bind_eq_ok.mp h
  obtain ⟨printed, hprinted, h⟩ := bind_eq_ok.mp h
  obtain ⟨rfl, rfl⟩ := Prod.mk.inj (Except.ok.inj h)
  obtain ⟨e, he, rfl⟩ := List.mem_map.mp hp
  have hslot := (printEntries_initial hprinted).subset (List.mem_map_of_mem he)
  obtain hold | ⟨hfreed, hsource⟩ := collectAll_mem hbuilt hslot
  · split at hold
    · rename_i hempty
      rw [hempty] at hold
      cases hold
    · cases hold
  · split at hfreed
    · exact ⟨‹_›, hsource⟩
    · cases hfreed

theorem showPolicyEntries_nil (c : ShowCall) (slots : List (Option Listed)) :
    ∃ pol', showPolicyEntries c ⟨false, slots⟩ [] = .ok (pol', ⟨[], [], true⟩) := by
  cases slots with
  | nil => exact ⟨⟨false, []⟩, rfl⟩
  | cons slot slots => exact ⟨⟨true, []⟩, rfl⟩

theorem showPolicyEntries_entered (hplain : ∀ p ∈ accepted, p.Plain) (hheld : Held accepted records)
    (hentered : ∀ r ∈ records, Entered c.proc (c.mem r.1) r.2) :
    showPolicyEntries c ⟨false, []⟩ records =
      (printEntries c.resp 0 ((records.map (entryFor policyOf)).map some) >>= fun out =>
        .ok (⟨false, (records.map (entryFor policyOf)).map some⟩, out)) := by
  have hcollect : collectAll c ⟨false, []⟩ records =
      .ok ⟨false, [] ++ (records.map (entryFor policyOf)).map some⟩ := by
    apply collectAll_entered
    intro r hr
    obtain ⟨p, hp, hkey⟩ := (hheld.keys r.1).mp (List.mem_map_of_mem hr)
    obtain ⟨hparse, hpolicy⟩ := policyOf_key hheld hplain hp
    exact ⟨hentered r hr, by rw [← hkey, hpolicy, hparse]⟩
  unfold showPolicyEntries
  rw [require_bind_of rfl]
  dsimp only
  rw [if_pos rfl]
  rw [hcollect]
  rfl

theorem pi_entryFor (records : List Record) :
    (records.map (entryFor policyOf)).map Listed.pi = records.map fun r => policyOf r.1 := by
  rw [List.map_map]
  rfl

/-- A listing with all accepted policies in it has the elements of all records. -/
theorem entries_eq {out : Response} (hheld : Held accepted records)
    (hplain : ∀ p ∈ accepted, p.Plain) (hall : ∀ p ∈ accepted, p ∈ out.entries.map Listed.pi)
    (h : printEntries c.resp 0 ((records.map (entryFor policyOf)).map some) = .ok out) :
    out.entries = records.map (entryFor policyOf) := by
  have hfront : out.entries <+: records.map (entryFor policyOf) := by
    have := (printEntries_initial h).filterMap id
    simpa [List.filterMap_map] using this
  obtain ⟨rest, hrest⟩ := hfront
  obtain ⟨hnodup, hmem⟩ := map_policyOf hheld hplain
  rw [← pi_entryFor, ← hrest, List.map_append] at hnodup
  cases rest with
  | nil => rw [← hrest, List.append_nil]
  | cons e rest =>
    have hsecond : e.pi ∈ (e :: rest).map Listed.pi := List.mem_map_of_mem List.mem_cons_self
    have haccepted : e.pi ∈ accepted := by
      rw [← hmem, ← pi_entryFor, ← hrest, List.map_append]
      exact List.mem_append_right _ hsecond
    exact (List.disjoint_of_nodup_append hnodup (hall e.pi haccepted) hsecond).elim

theorem listable_of_lists (hheld : Held accepted records) (h : Lists c pol accepted records) :
    Listable c pol accepted records := by
  obtain ⟨pol', out, hshow, hcount, -⟩ := h
  have hmem : ∀ p ∈ accepted, p ∈ out.entries.map Listed.pi := fun p hp =>
    List.count_pos_iff.mp (by rw [hcount p hp]; exact one_pos)
  have hsource := fun p hp => sources_of_shown hshow (hmem p hp)
  have hvalid : pol.freed = false := by
    obtain ⟨u, hvalid, -⟩ := bind_eq_ok.mp hshow
    exact require_eq_ok.mp hvalid
  have hplain : ∀ p ∈ accepted, p.Plain := by
    intro p hp
    obtain ⟨-, r, -, -, hparse⟩ := hsource p hp
    exact plain_of_parseKey hparse
  have hentered : ∀ r ∈ records, Entered c.proc (c.mem r.1) r.2 := by
    intro r hr
    obtain ⟨p, hp, hkey⟩ := (hheld.keys r.1).mp (List.mem_map_of_mem hr)
    obtain ⟨-, r', hr', hentered, hparse⟩ := hsource p hp
    obtain ⟨q, hq, hkey'⟩ := (hheld.keys r'.1).mp (List.mem_map_of_mem hr')
    rw [← hkey', (policyOf_key hheld hplain hq).1] at hparse
    obtain rfl := Except.ok.inj hparse
    obtain rfl := List.inj_on_of_nodup_map hheld.nodup hr hr' (hkey.symm.trans hkey')
    exact hentered
  have hfirst : pol.slots = [] ∨ records = [] := by
    cases records with
    | nil => exact .inr rfl
    | cons r records =>
      obtain ⟨p, hp, -⟩ := (hheld.keys r.1).mp (List.mem_map_of_mem List.mem_cons_self)
      exact .inl (hsource p hp).1
  have hlines : ∀ i r, records[i]? = some r → c.resp i = true ∧
      ((entryFor policyOf r).policyString i).length < maxPolicyStrlen := by
    obtain hslots | rfl := hfirst
    · obtain ⟨freed, slots⟩ := pol
      obtain rfl : freed = false := hvalid
      obtain rfl : slots = [] := hslots
      rw [showPolicyEntries_entered hplain hheld hentered] at hshow
      obtain ⟨printed, hprinted, hshow⟩ := bind_eq_ok.mp hshow
      obtain ⟨-, rfl⟩ := Prod.mk.inj (Except.ok.inj hshow)
      have hentries := entries_eq hheld hplain hmem hprinted
      have hall := printEntries_all_iff.mp ⟨printed, hprinted, hentries⟩
      intro i r hr
      have hline := hall i (entryFor policyOf r) (by rw [List.getElem?_map, hr]; rfl)
      rwa [Nat.zero_add] at hline
    · simp
  refine ⟨hvalid, hfirst, hplain, hentered, fun i hi => ?_, fun i p data hr hp => ?_⟩
  · exact (hlines i _ (List.getElem?_eq_getElem hi)).1
  · have hline := (hlines i _ hr).2
    rwa [entryFor, (policyOf_key hheld hplain hp).2] at hline

theorem lists_of_listable (hheld : Held accepted records) (h : Listable c pol accepted records) :
    Lists c pol accepted records := by
  obtain ⟨freed, slots⟩ := pol
  obtain rfl : freed = false := h.valid
  obtain hslots | rfl := h.first
  swap
  · have hnone : ∀ p ∈ accepted, False := fun p hp =>
      List.not_mem_nil ((hheld.keys p.key).mpr ⟨p, hp, rfl⟩)
    obtain ⟨pol', hshow⟩ := showPolicyEntries_nil c slots
    exact ⟨pol', _, hshow, fun p hp => (hnone p hp).elim, fun p hp => (hnone p hp).elim⟩
  obtain rfl : slots = [] := hslots
  obtain ⟨hnodup, hmem⟩ := map_policyOf hheld h.plain
  have hlines : ∀ i e, (records.map (entryFor policyOf))[i]? = some e → c.resp (0 + i) = true ∧
      (e.policyString (0 + i)).length < maxPolicyStrlen := by
    intro i e he
    rw [Nat.zero_add]
    rw [List.getElem?_map, Option.map_eq_some_iff] at he
    obtain ⟨r, hr, rfl⟩ := he
    obtain ⟨p, hp, hkey⟩ := (hheld.keys r.1).mp (List.mem_map_of_mem (List.mem_of_getElem? hr))
    have hfits := h.fits i p r.2 (by rw [hr, hkey]) hp
    rw [entryFor, ← hkey, (policyOf_key hheld h.plain hp).2]
    exact ⟨h.memory i (List.getElem?_eq_some_iff.mp hr).1, hfits⟩
  obtain ⟨out, hprint, hentries⟩ := printEntries_all_iff.mpr hlines
  have hpi : out.entries.map Listed.pi = records.map fun r => policyOf r.1 := by
    rw [hentries, pi_entryFor]
  have hplace : ∀ p ∈ accepted, ∃ i : ℕ, (out.entries[i]?).map Listed.pi = some p := by
    intro p hp
    rw [← hmem, ← hpi] at hp
    obtain ⟨i, hi⟩ := List.mem_iff_getElem?.mp hp
    exact ⟨i, by rw [← List.getElem?_map, hi]⟩
  have hshow := showPolicyEntries_entered h.plain hheld h.entered
  rw [hprint, ok_bind] at hshow
  refine ⟨_, out, hshow, fun p hp => ?_, fun p hp q hq hne => ?_⟩
  · rw [hpi]
    exact List.count_eq_one_of_mem hnodup ((hmem p).mpr hp)
  · obtain ⟨i, hi⟩ := hplace p hp
    obtain ⟨j, hj⟩ := hplace q hq
    refine ⟨i, j, ?_, hi, hj⟩
    rintro rfl
    exact hne (Option.some.inj (hi.symm.trans hj))

end Show

/-- The listing is right when it is made for the first time, from policies whose first two fields
are there and have no separator, with memory that counts no plugins and lines that fit. -/
theorem showPolicyEntries_lists_iff {u : ListUse} (hr : listSystem.Reach System.AnyStep u)
    (c : ShowCall) (pol : PolList) {records : List Record}
    (hrecords : records.Perm u.records) :
    Lists c pol u.accepted records ↔ Listable c pol u.accepted records :=
  ⟨listable_of_lists ((reach_held hr).perm hrecords),
    lists_of_listable ((reach_held hr).perm hrecords)⟩

theorem noPlugin_addresses (pp : Block) (h : some pp ∈ List.replicate numMaxPolicy none) :
    pp.length = pointerSize := by
  cases List.eq_of_mem_replicate h

/-- A call without plugins, and with memory for everything that holds zeros. -/
def easyShow : ShowCall where
  proc := ⟨List.replicate numMaxPolicy none, fun _ => none, fun _ => none⟩
  mem _ := ⟨some fun _ => 0, true, true⟩
  resp _ := true
  addresses := noPlugin_addresses

def zeroRecord : List UInt8 := List.replicate pdbEntrySize 0

theorem entered_zeroRecord (key : List Char) :
    Entered easyShow.proc (easyShow.mem key) zeroRecord := by
  refine ⟨by decide +kernel, rfl, rfl, fun _ => 0, rfl, ?_, by decide +kernel⟩
  exact ⟨fresh policyEntrySize fun _ => 0, by decide +kernel⟩

theorem attrOf_zeroRecord : attrOf zeroRecord = List.replicate attributeSize 0 := by
  rw [attrOf, zeroRecord, List.drop_replicate, List.take_replicate]
  rfl

theorem showPolicyEntries_zeroRecord (key : List Char) :
    showPolicyEntries easyShow ⟨false, []⟩ [(key, zeroRecord)] = (parseKey key >>= fun pi =>
      printEntries easyShow.resp 0 [some ⟨pi, List.replicate attributeSize 0, []⟩] >>= fun out =>
        .ok (⟨false, [some ⟨pi, List.replicate attributeSize 0, []⟩]⟩, out)) := by
  unfold showPolicyEntries
  rw [require_bind_of rfl]
  dsimp only
  rw [if_pos rfl]
  rw [collectAll_cons, collectPolicyEntries_entered rfl (entered_zeroRecord key), attrOf_zeroRecord]
  cases parseKey key with
  | error fault | ok pi => rfl

def storedCall (pi : PolicyInput) (hfname : pi.fname.length < pathMax)
    (hftype : pi.ftype.length < typeLen) : ListCall :=
  ⟨⟨pi, true, true, true⟩, zeroRecord, hfname, hftype⟩

theorem reach_stored (pi : PolicyInput) (hfname : pi.fname.length < pathMax)
    (hftype : pi.ftype.length < typeLen) (hkey : pi.key.length + 1 ≤ keySize) :
    ∃ u, listSystem.Reach System.AnyStep u ∧ u.accepted = [pi] ∧
      u.records = [(pi.key, zeroRecord)] := by
  have hstep : listStep ⟨⟨true, fun _ _ => none, fun _ => 0, 0⟩, [], []⟩
      (storedCall pi hfname hftype) = _ := if_pos ⟨hkey, rfl⟩
  exact ⟨_, .step (.init ⟨fun _ => 0, rfl⟩) trivial hstep, rfl, rfl⟩

/-- A policy for all files. -/
theorem showPolicyEntries_lists_wildcards : ∃ u, listSystem.Reach System.AnyStep u ∧
    u.accepted = [⟨['*'], ['*'], anyId, anyId⟩] ∧
    Lists easyShow ⟨false, []⟩ u.accepted u.records := by
  obtain ⟨u, hr, haccepted, hrecords⟩ := reach_stored ⟨['*'], ['*'], anyId, anyId⟩
    (by decide) (by decide) (by decide +kernel)
  refine ⟨u, hr, haccepted, (showPolicyEntries_lists_iff hr easyShow _ (List.Perm.refl _)).mpr ?_⟩
  rw [haccepted, hrecords]
  refine ⟨rfl, .inl rfl, ?_, ?_, fun _ _ => rfl, ?_⟩
  · intro p hp
    obtain rfl := List.mem_singleton.mp hp
    exact ⟨by decide, by decide, by decide, by decide⟩
  · intro r hr
    obtain rfl := List.mem_singleton.mp hr
    exact entered_zeroRecord _
  · intro i p data hdata hp
    obtain rfl := List.mem_singleton.mp hp
    cases i with
    | zero =>
      obtain rfl : zeroRecord = data := (Prod.mk.inj (Option.some.inj hdata)).2
      rw [attrOf_zeroRecord]
      decide +kernel
    | succ i => cases hdata

/-- A policy for the name `a^b` and the type `txt` is listed for the name `a` and the type `b`; and
a policy without a type ends the listing. -/
theorem showPolicyEntries_splits :
    (∃ u, listSystem.Reach System.AnyStep u ∧ u.accepted = [⟨"a^b".toList, "txt".toList, 1, 2⟩] ∧
      (showPolicyEntries easyShow ⟨false, []⟩ u.records).toOption.map
        (fun r => r.2.entries.map Listed.pi) = some [⟨['a'], ['b'], 0, 1⟩] ∧
      ¬ Lists easyShow ⟨false, []⟩ u.accepted u.records) ∧
    ∃ u, listSystem.Reach System.AnyStep u ∧ u.accepted = [⟨"a".toList, [], 1, 2⟩] ∧
      showPolicyEntries easyShow ⟨false, []⟩ u.records = .error .wild ∧
      ¬ Lists easyShow ⟨false, []⟩ u.accepted u.records := by
  constructor
  · obtain ⟨u, hr, haccepted, hrecords⟩ := reach_stored ⟨"a^b".toList, "txt".toList, 1, 2⟩
      (by decide) (by decide) (by decide +kernel)
    have hshown : (showPolicyEntries easyShow ⟨false, []⟩ u.records).toOption.map
        (fun r => r.2.entries.map Listed.pi) = some [⟨['a'], ['b'], 0, 1⟩] := by
      rw [hrecords, showPolicyEntries_zeroRecord]
      decide +kernel
    refine ⟨u, hr, haccepted, hshown, ?_⟩
    rintro ⟨pol, out, hshow, hcount, -⟩
    rw [hshow] at hshown
    have hentries : out.entries.map Listed.pi = [⟨['a'], ['b'], 0, 1⟩] := Option.some.inj hshown
    have hone := hcount _ (haccepted ▸ List.mem_singleton_self _)
    rw [hentries] at hone
    revert hone
    decide
  · obtain ⟨u, hr, haccepted, hrecords⟩ := reach_stored ⟨"a".toList, [], 1, 2⟩
      (by decide) (by decide) (by decide +kernel)
    have hshown : showPolicyEntries easyShow ⟨false, []⟩ u.records = .error .wild := by
      rw [hrecords, showPolicyEntries_zeroRecord]
      decide +kernel
    refine ⟨u, hr, haccepted, hshown, ?_⟩
    rintro ⟨pol, out, hshow, -⟩
    rw [hshow] at hshown
    cases hshown

end SeamlessStack.Policy
