import SeamlessStack.Sfsd.Read
import SeamlessStack.Sfsd.Recovery

/-! `sstack_esure_code` of `sfsd_ops.c`. The extents are read into the data stripes, and
`sfs_esure_encode` is called for each group. The extents are looked up without a handle, so that
`get_extent` leaves the path as it was; the number of code stripes that `sfs_esure_encode` returns
is taken for an error; and the count of stripes is not reset. The caches of `sfsd_global_cache_arr`,
which an sfsd does not find where it looks for them (`Respond`), are taken to be there, and so is
what the function computes with them. -/
namespace SeamlessStack.Sfsd

open Lib

/-- The inode and the stripes come from `sfsd_global_cache_arr`; `data` and `code` are the stripes
there is memory for. `logs`: messages about errors are written; `mountPath`: what the array on the
stack holds. -/
structure EsureEnv where
  crc : Bytes → BitVec 32
  J : Jerasure
  bm : Bitmatrices
  inodeCache : Bool
  getInode : GetResult
  data : List Stripe
  code : List Stripe
  logs : Bool
  mountPath : Name
  files : Name → LocalFile

/-- A read of an extent into a stripe, or an encoding of the first ones; with its success. -/
inductive EsureEvent
  | read (index : ℕ) (path : Name) (stripe : ℕ) (ok : Bool)
  | encode (stripes : ℕ) (ok : Bool)
  deriving DecidableEq, Repr

def EsureEvent.ok : EsureEvent → Bool
  | .read _ _ _ ok => ok
  | .encode _ ok => ok

def EsureEvent.extent? : EsureEvent → Option (ℕ × Option Name)
  | .read index path _ _ => some (index, some path)
  | .encode _ _ => none

def EsureEvent.group? : EsureEvent → Option ℕ
  | .read _ _ _ _ => none
  | .encode stripes _ => some stripes

def EsureEvent.Inside : EsureEvent → Prop
  | .read _ _ stripe _ => stripe < maxDataStripes
  | .encode _ _ => True

structure EsureState where
  j : ℕ
  data : List Stripe
  code : List Stripe
  commandStat : ℤ
  events : List EsureEvent

def minStartExt (min : ℤ) (rest : List (BitVec 32)) : ℤ :=
  rest.foldl (fun min start => if start.toInt < min then start.toInt else min) min

/-- The least `start_ext`, moved to the start of its group; `%` rounds towards 0. -/
def alignedStart (first : BitVec 32) (rest : List (BitVec 32)) : ℤ :=
  minStartExt first.toInt rest - (minStartExt first.toInt rest).tmod maxDataStripes

def extentAt (inode : Inode) (i : ℕ) : Except Fault Extent :=
  match inode.extents[i]? with
  | some e => .ok e
  | none => .error .outside

/-- `read_check_extent` on the file named by the array on the stack. -/
def EsureEnv.readCheck (E : EsureEnv) (e : Extent) : ℤ × Bytes :=
  readCheckExtent E.crc (E.files E.mountPath) maxExtentSize 0 true e.cksum true

def EsureEnv.readOk (E : EsureEnv) (e : Extent) : Bool :=
  match (E.files E.mountPath).read maxExtentSize 0 with
  | .ok bytes => E.crc bytes = e.cksum
  | .error _ => false

/-- `get_extent` and `read_check_extent`. At first the handle is used, which is null;
`get_mount_path` gives no path for it, and the message about that has two strings in its format and
one argument. -/
def readInto (E : EsureEnv) (inode : Inode) (i : ℤ) (s : EsureState) : Except Fault EsureState := do
  require (0 ≤ i ∧ E.logs = false) .outside
  let e ← extentAt inode i.toNat
  let stripe ← stripeAt s.data s.j
  return ⟨s.j, s.data.set s.j ((E.readCheck e).2 ++ stripe.drop (E.readCheck e).2.length), s.code,
    (E.readCheck e).1, s.events ++ [.read i.toNat E.mountPath s.j (E.readOk e)]⟩

/-- A call of `sfs_esure_encode`; every number but 0 is an error. -/
def encodeInto (E : EsureEnv) (stripes : ℕ) (s : EsureState) : Except Fault (ℤ × EsureState) := do
  let (ret, code) ← sfsEsureEncode E.J E.bm s.data s.code maxExtentSize stripes codeStripes
  return (ret, ⟨s.j, s.data, code, if ret ≠ 0 then -101 else s.commandStat,
    s.events ++ [.encode stripes (0 ≤ ret)]⟩)

def EsureState.next (s : EsureState) : EsureState := { s with j := s.j + 1 }

/-- A turn of the loop over the extents, and whether another one may follow. -/
def esureTurn (E : EsureEnv) (inode : Inode) (i : ℤ) (s : EsureState) :
    Except Fault (Bool × EsureState) := do
  let s ← readInto E inode i s
  -- -SSTACK_ECKSUM
  if s.commandStat = -102 then return (false, s)
  else if s.next.j % maxDataStripes ≠ 0 then return (true, s.next)
  else do
    let (ret, s) ← encodeInto E maxDataStripes s.next
    return (ret = 0, s)

def esureTurns (E : EsureEnv) (inode : Inode) : ℕ → ℤ → EsureState →
    Except Fault (Bool × EsureState)
  | 0, _, s => return (true, s)
  | turns + 1, i, s => do
    let (goesOn, s) ← esureTurn E inode i s
    if goesOn then esureTurns E inode turns (i + 1) s else return (false, s)

def esureFinish (E : EsureEnv) (stripes : ℕ) (s : EsureState) : Except Fault EsureState := do
  let (_, s) ← encodeInto E stripes s
  return s

def esureEnd (E : EsureEnv) (r : Bool × EsureState) : Except Fault EsureState :=
  if r.1 = true ∧ 0 < r.2.j then esureFinish E r.2.j r.2 else return r.2

def esureLoop (E : EsureEnv) (inode : Inode) (turns : ℕ) (start : ℤ) : Except Fault EsureState := do
  let r ← esureTurns E inode turns start ⟨0, E.data, E.code, 100, []⟩
  esureEnd E r

/-- All the ways to the end give back eight and four stripes, so that they all have to be there. -/
def sstackEsureCode (E : EsureEnv) (inode : Inode) (blocks : List (BitVec 32)) :
    Except Fault EsureState := do
  require (E.inodeCache = true ∧ E.getInode = .found) .outside
  match blocks with
  | [] => .error .outside
  | first :: rest => do
    require (E.data.length = maxDataStripes ∧ E.code.length = codeStripes) .outside
    esureLoop E inode (inode.extents.length - alignedStart first rest).toNat
      (alignedStart first rest)

/-- The local file of an extent, by its own handle. -/
def extentFile (h : Host) (e : Extent) : Option Name :=
  (getMountPath h.chunks e.path).map fun storage =>
    storage.mountPoint ++ e.path.name.drop storage.path.length

/-- The full groups, and a shorter last one if there is one. -/
def groupSizes (count : ℕ) : List ℕ :=
  List.replicate (count / maxDataStripes) maxDataStripes ++
    if count % maxDataStripes = 0 then [] else [count % maxDataStripes]

/-- The extents from `start` on are read once, from their files into the stripes, their groups are
encoded, and a success is reported exactly if nothing failed. -/
structure CodesAll (h : Host) (inode : Inode) (start : ℤ) (s : EsureState) : Prop where
  reads : s.events.filterMap EsureEvent.extent? =
    (List.range' start.toNat (inode.extents.length - start).toNat).map fun i =>
      (i, (inode.extents[i]?).bind (extentFile h))
  inside : ∀ event ∈ s.events, event.Inside
  groups : s.events.filterMap EsureEvent.group? =
    groupSizes (inode.extents.length - start).toNat
  status : s.commandStat = 100 ↔ ∀ event ∈ s.events, event.ok = true

section
variable {E : EsureEnv} {inode : Inode} {s : EsureState} {e : Extent} {m c : ℕ}

def EsureEnv.Mismatch (E : EsureEnv) (e : Extent) : Prop :=
  ∃ bytes, (E.files E.mountPath).read maxExtentSize 0 = .ok bytes ∧ E.crc bytes ≠ e.cksum

theorem readCheck_eq_ecksum : (E.readCheck e).1 = -102 ↔ E.Mismatch e := by
  unfold EsureEnv.readCheck EsureEnv.Mismatch
  cases hread : (E.files E.mountPath).read maxExtentSize 0 with
  | error errno =>
    rw [readCheckExtent_error true hread]
    apply iff_of_false
    · dsimp only
      omega
    · rintro ⟨bytes, hbytes, -⟩
      cases hbytes
  | ok bytes =>
    rw [readCheckExtent_ok hread]
    dsimp only
    split
    · rename_i heq
      apply iff_of_false
      · omega
      · rintro ⟨_, hbytes, hne⟩
        obtain rfl := Except.ok.inj hbytes
        exact hne heq
    · rename_i hne
      exact iff_of_true rfl ⟨bytes, rfl, hne⟩

theorem dataStripesEncode_value {J : Jerasure} {bm : Bitmatrices} {data code code' : List Stripe}
    {ret : ℤ} (hok : dataStripesEncode J bm data code maxExtentSize c = .ok (ret, code')) :
    ret = codeStripes := by
  unfold dataStripesEncode at hok
  split at hok
  · obtain ⟨_, -, hok⟩ := bind_eq_ok.mp hok
    obtain ⟨_, -, hok⟩ := bind_eq_ok.mp hok
    exact (Prod.mk.inj (Except.ok.inj hok)).1.symm
  · obtain ⟨_, -, hok⟩ := bind_eq_ok.mp hok
    obtain ⟨_, -, hok⟩ := bind_eq_ok.mp hok
    exact (Prod.mk.inj (Except.ok.inj hok)).1.symm
  · obtain ⟨_, -, hok⟩ := bind_eq_ok.mp hok
    obtain ⟨_, -, hok⟩ := bind_eq_ok.mp hok
    obtain ⟨_, -, hok⟩ := bind_eq_ok.mp hok
    exact (Prod.mk.inj (Except.ok.inj hok)).1.symm
  · obtain ⟨_, -, hok⟩ := bind_eq_ok.mp hok
    exact (Prod.mk.inj (Except.ok.inj hok)).1.symm

def EsureState.coded (s : EsureState) (stripes : ℕ) (code : List Stripe) : EsureState :=
  ⟨s.j, s.data, code, -101, s.events ++ [.encode stripes true]⟩

/-- No encoding fails: the stripes are there, of a multiple of the packets. -/
theorem encodeInto_cases (hpos : 0 < c) (hle : c ≤ maxDataStripes) :
    (¬ Returns (sfsEsureEncode E.J E.bm s.data s.code maxExtentSize c codeStripes) ∧
      ¬ Returns (encodeInto E c s)) ∨
    (Returns (sfsEsureEncode E.J E.bm s.data s.code maxExtentSize c codeStripes) ∧
      ∃ code, encodeInto E c s = .ok (codeStripes, s.coded c code)) := by
  unfold encodeInto
  cases hencode : sfsEsureEncode E.J E.bm s.data s.code maxExtentSize c codeStripes with
  | error fault => exact Or.inl ⟨not_returns_error fault, not_returns_error fault⟩
  | ok r =>
    obtain ⟨ret, code⟩ := r
    have hret : ret = codeStripes := by
      unfold sfsEsureEncode at hencode
      rw [if_neg (by omega), if_neg (by decide), if_neg (by decide)] at hencode
      exact dataStripesEncode_value hencode
    rw [hret]
    exact Or.inr ⟨returns_ok _, code, rfl⟩

/-- After `c` turns in which no checksum has failed: the extents from `m` on were read from the one
file, if it can be read. -/
structure Running (E : EsureEnv) (inode : Inode) (m c : ℕ) (s : EsureState) : Prop where
  j : s.j = c
  length : s.data.length = maxDataStripes
  code : s.code = E.code
  events : s.events = (List.range c).map fun t =>
    .read (m + t) E.mountPath t ((inode.extents[m + t]?).any E.readOk)
  unread : ¬ Returns ((E.files E.mountPath).read maxExtentSize 0) → s.data = E.data
  size : (∀ stripe ∈ E.data, stripe.length = maxExtentSize) →
    ∀ stripe ∈ s.data, stripe.length = maxExtentSize

theorem running_start (inode : Inode) (m : ℕ) (hdata : E.data.length = maxDataStripes)
    (commandStat : ℤ) : Running E inode m 0 ⟨0, E.data, E.code, commandStat, []⟩ :=
  ⟨rfl, hdata, rfl, rfl, fun _ => rfl, fun h => h⟩

theorem readCheck_length : (E.readCheck e).2.length ≤ maxExtentSize := by
  unfold EsureEnv.readCheck
  cases hread : (E.files E.mountPath).read maxExtentSize 0 with
  | error errno =>
    rw [readCheckExtent_error true hread]
    exact Nat.zero_le _
  | ok bytes =>
    rw [readCheckExtent_ok hread, LocalFile.read_eq_ok hread]
    exact List.length_take_le _ _

theorem readCheck_unread (hunread : ¬ Returns ((E.files E.mountPath).read maxExtentSize 0)) :
    (E.readCheck e).2 = [] := by
  cases hread : (E.files E.mountPath).read maxExtentSize 0 with
  | error errno => exact congrArg Prod.snd (readCheckExtent_error true hread)
  | ok bytes => exact absurd ⟨bytes, hread⟩ hunread

theorem Running.readInto (hr : Running E inode m c s) (hlogs : E.logs = false)
    (hc : c < maxDataStripes) (he : inode.extents[m + c]? = some e) :
    ∃ s', readInto E inode (m + c : ℕ) s = .ok s' ∧ s'.commandStat = (E.readCheck e).1 ∧
      Running E inode m (c + 1) s'.next := by
  have hlt : s.j < s.data.length := by
    rw [hr.j, hr.length]
    exact hc
  have hstripe := stripeAt_eq (List.getElem?_eq_getElem hlt)
  have hextent : extentAt inode (m + c) = .ok e := by
    unfold extentAt
    rw [he]
  refine ⟨⟨s.j, s.data.set s.j ((E.readCheck e).2 ++ s.data[s.j].drop (E.readCheck e).2.length),
    s.code, (E.readCheck e).1, s.events ++ [.read (m + c) E.mountPath s.j (E.readOk e)]⟩,
    ?_, rfl, ?_⟩
  · unfold Sfsd.readInto
    rw [require_bind_of ⟨Int.natCast_nonneg _, hlogs⟩, Int.toNat_natCast, hextent, ok_bind, hstripe,
      ok_bind]
    rfl
  · refine ⟨?_, ?_, hr.code, ?_, ?_, ?_⟩
    · exact congrArg (· + 1) hr.j
    · exact (List.length_set).trans hr.length
    · rw [List.range_succ, List.map_append, ← hr.events, List.map_singleton, he, ← hr.j]
      rfl
    · intro hunread
      have hsame : s.data.set s.j s.data[s.j] = E.data := by
        rw [List.set_getElem_self]
        exact hr.unread hunread
      simpa [EsureState.next, readCheck_unread hunread] using hsame
    · intro hsize stripe hstripe
      obtain hold | rfl := List.mem_or_eq_of_mem_set hstripe
      · exact hr.size hsize stripe hold
      · have hlen := hr.size hsize s.data[s.j] (List.getElem_mem hlt)
        have hle := readCheck_length (E := E) (e := e)
        rw [List.length_append, List.length_drop]
        omega

theorem encodeInto_stops : (do
      let (ret, s) ← encodeInto E maxDataStripes s
      return (decide (ret = 0), s)) =
    (do
      let s ← esureFinish E maxDataStripes s
      return (false, s) : Except Fault (Bool × EsureState)) := by
  unfold esureFinish
  obtain ⟨-, herror⟩ | ⟨-, code, hok⟩ := encodeInto_cases (E := E) (s := s)
    (show 0 < maxDataStripes by decide) (le_refl maxDataStripes)
  · cases hencode : encodeInto E maxDataStripes s with
    | error fault => rfl
    | ok r => exact absurd ⟨r, hencode⟩ herror
  · rw [hok]
    rfl

/-- Where the running state stops being one: at a wrong checksum, or with the eighth stripe. -/
theorem Running.turn (hr : Running E inode m c s) (hlogs : E.logs = false)
    (hc : c < maxDataStripes) (he : inode.extents[m + c]? = some e) :
    (E.Mismatch e ∧ ∃ s', esureTurn E inode (m + c : ℕ) s = .ok (false, s') ∧
      s'.events.filterMap EsureEvent.group? = []) ∨
    (¬ E.Mismatch e ∧ ∃ s', Running E inode m (c + 1) s' ∧ esureTurn E inode (m + c : ℕ) s =
      if c + 1 = maxDataStripes then do
        let s ← esureFinish E maxDataStripes s'
        return (false, s)
      else return (true, s')) := by
  obtain ⟨s', hread, hstat, hnext⟩ := hr.readInto hlogs hc he
  unfold esureTurn
  rw [hread, ok_bind, hstat]
  by_cases hbad : E.Mismatch e
  · rw [if_pos (readCheck_eq_ecksum.mpr hbad)]
    refine Or.inl ⟨hbad, s', rfl, ?_⟩
    have hevents : s'.events = _ := hnext.events
    rw [hevents, List.filterMap_map, List.filterMap_eq_nil_iff]
    intro t _
    rfl
  · rw [if_neg (fun h => hbad (readCheck_eq_ecksum.mp h))]
    refine Or.inr ⟨hbad, s'.next, hnext, ?_⟩
    rw [hnext.j, ← encodeInto_stops]
    have hmod : (c + 1) % maxDataStripes ≠ 0 ↔ c + 1 ≠ maxDataStripes := by
      unfold maxDataStripes at hc ⊢
      omega
    by_cases hfull : c + 1 = maxDataStripes
    · rw [if_neg (fun h => hmod.mp h hfull), if_pos hfull]
    · rw [if_pos (hmod.mpr hfull), if_neg hfull]

/-- From a running state on, a wrong checksum ends the loop with nothing encoded; otherwise one
group is, of at most eight extents. -/
theorem Running.rest (hlogs : E.logs = false) (hr : Running E inode m c s) (turns : ℕ)
    (hc : c < maxDataStripes) (hn : m + c + turns = inode.extents.length) (hpos : 0 < c + turns) :
    ((∃ e ∈ inode.extents, E.Mismatch e) ∧
      ∃ s', (esureTurns E inode turns (m + c : ℕ) s >>= esureEnd E) = .ok s' ∧
        s'.events.filterMap EsureEvent.group? = []) ∨
    ∃ s', Running E inode m (min (c + turns) maxDataStripes) s' ∧
      (∀ i e, m + c ≤ i → i < m + min (c + turns) maxDataStripes →
        inode.extents[i]? = some e → ¬ E.Mismatch e) ∧
      (esureTurns E inode turns (m + c : ℕ) s >>= esureEnd E) =
        esureFinish E (min (c + turns) maxDataStripes) s' := by
  induction turns generalizing c s with
  | zero =>
    right
    have hmin : min (c + 0) maxDataStripes = c := by omega
    refine ⟨s, by rwa [hmin], by intro i e hi hlt; omega, ?_⟩
    have hend : esureEnd E (true, s) = esureFinish E s.j s :=
      if_pos ⟨rfl, by rw [hr.j]; omega⟩
    rw [hmin, ← hr.j]
    exact hend
  | succ turns ih =>
    have hlt : m + c < inode.extents.length := by omega
    have he : inode.extents[m + c]? = some inode.extents[m + c] := List.getElem?_eq_getElem hlt
    unfold esureTurns
    obtain ⟨hbad, s', hturn, hgroups⟩ | ⟨hmatch, s', hr', hturn⟩ := hr.turn hlogs hc he
    · left
      refine ⟨⟨_, List.getElem_mem hlt, hbad⟩, s', ?_, hgroups⟩
      rw [hturn]
      rfl
    · rw [hturn]
      by_cases hfull : c + 1 = maxDataStripes
      · right
        have hmin : min (c + (turns + 1)) maxDataStripes = maxDataStripes := by omega
        rw [if_pos hfull, hmin]
        rw [hfull] at hr'
        refine ⟨s', hr', ?_, ?_⟩
        · intro i e' hi hlt' he'
          obtain rfl : i = m + c := by omega
          rw [he] at he'
          obtain rfl := Option.some.inj he'
          exact hmatch
        · cases esureFinish E maxDataStripes s' <;> rfl
      · rw [if_neg hfull]
        have hrest := ih hr' (by omega) (by omega) (by omega)
        have hcast : ((m + (c + 1) : ℕ) : ℤ) = (m + c : ℕ) + 1 := by omega
        have hadd : c + 1 + turns = c + (turns + 1) := by omega
        rw [hcast, hadd] at hrest
        obtain ⟨hbad, s'', hs'', hgroups⟩ | ⟨s'', hr'', hnone, hs''⟩ := hrest
        · exact Or.inl ⟨hbad, s'', hs'', hgroups⟩
        · refine Or.inr ⟨s'', hr'', ?_, hs''⟩
          intro i e' hi hlt' he'
          obtain rfl | hi := Nat.eq_or_lt_of_le hi
          · rw [he] at he'
            obtain rfl := Option.some.inj he'
            exact hmatch
          · exact hnone i e' (by omega) hlt' he'

theorem groupSizes_ne_nil {count : ℕ} (hpos : 0 < count) : groupSizes count ≠ [] := by
  unfold groupSizes maxDataStripes
  intro hnil
  have hlen := congrArg List.length hnil
  split at hlen
  · simp at hlen
    omega
  · simp at hlen

theorem groupSizes_eq_singleton {count : ℕ} (hpos : 0 < count) :
    groupSizes count = [min count maxDataStripes] ↔ count ≤ maxDataStripes := by
  unfold groupSizes maxDataStripes
  constructor
  · intro hone
    have hlen := congrArg List.length hone
    split at hlen <;> simp at hlen <;> omega
  · intro hle
    obtain rfl | hlt := Nat.eq_or_lt_of_le hle
    · rfl
    · rw [Nat.div_eq_of_lt hlt, Nat.mod_eq_of_lt hlt, if_neg (by omega), Nat.min_eq_left hle]
      rfl

theorem readOk_of_not_mismatch (hmatch : ¬ E.Mismatch e)
    (hread : Returns ((E.files E.mountPath).read maxExtentSize 0)) : E.readOk e = true := by
  obtain ⟨bytes, hbytes⟩ := hread
  unfold EsureEnv.readOk
  rw [hbytes]
  by_contra hne
  exact hmatch ⟨bytes, hbytes, fun heq => hne (decide_eq_true heq)⟩

theorem readOk_unread (hunread : ¬ Returns ((E.files E.mountPath).read maxExtentSize 0)) :
    E.readOk e = false := by
  unfold EsureEnv.readOk
  cases hread : (E.files E.mountPath).read maxExtentSize 0 with
  | error errno => rfl
  | ok bytes => exact absurd ⟨bytes, hread⟩ hunread

/-- The array happens to hold the name of the extents' file, which they share and which cannot be
read, and they are one group. -/
structure CodesUnread (h : Host) (E : EsureEnv) (inode : Inode) (start : ℤ) : Prop where
  nonneg : 0 ≤ start
  logs : E.logs = false
  group : inode.extents.length - start ≤ maxDataStripes
  path : ∀ i : ℕ, start ≤ i → i < inode.extents.length →
    (inode.extents[i]?).bind (extentFile h) = some E.mountPath
  unread : ¬ Returns ((E.files E.mountPath).read maxExtentSize 0)
  encodes : Returns (sfsEsureEncode E.J E.bm E.data E.code maxExtentSize
    (inode.extents.length - start).toNat codeStripes)

section
variable {h : Host} {start : ℤ}

theorem esureLoop_stopped (hlt : start < inode.extents.length)
    (hbad : ¬ (0 ≤ start ∧ E.logs = false)) :
    ¬ Returns (esureLoop E inode (inode.extents.length - start).toNat start) := by
  obtain ⟨turns, hturns⟩ : ∃ turns, (inode.extents.length - start).toNat = turns + 1 :=
    ⟨(inode.extents.length - start).toNat - 1, by omega⟩
  rw [hturns]
  unfold esureLoop esureTurns esureTurn readInto
  rw [require_bind_of_not hbad]
  exact not_returns_error _

/-- The reads are those asked for exactly at the last extent, if the one path is that of all. -/
theorem reads_eq_iff (E : EsureEnv) (h : Host) (inode : Inode) (m c count : ℕ) :
    ((List.range c).map fun t => (m + t, some E.mountPath)) =
      ((List.range' m count).map fun i => (i, (inode.extents[i]?).bind (extentFile h))) ↔
    c = count ∧ ∀ i, m ≤ i → i < m + count →
      (inode.extents[i]?).bind (extentFile h) = some E.mountPath := by
  rw [List.range'_eq_map_range, List.map_map]
  constructor
  · intro heq
    have hc : c = count := by simpa using congrArg List.length heq
    subst hc
    refine ⟨rfl, ?_⟩
    intro i hle hlt
    obtain ⟨t, rfl⟩ := Nat.exists_eq_add_of_le hle
    have hread := List.map_inj_left.mp heq t (List.mem_range.mpr (by omega))
    exact (Prod.mk.inj hread).2.symm
  · rintro ⟨rfl, hpath⟩
    apply List.map_congr_left
    intro t ht
    have hfile := hpath (m + t) (by omega) (by rw [List.mem_range] at ht; omega)
    exact Prod.ext rfl hfile.symm

theorem Running.extents_coded (hr : Running E inode m c s) (code : List Stripe) :
    (s.coded c code).events.filterMap EsureEvent.extent? =
      (List.range c).map fun t => (m + t, some E.mountPath) := by
  unfold EsureState.coded
  rw [hr.events, List.filterMap_append, List.filterMap_map]
  simp [EsureEvent.extent?, Function.comp_def]

theorem Running.groups_coded (hr : Running E inode m c s) (code : List Stripe) :
    (s.coded c code).events.filterMap EsureEvent.group? = [c] := by
  unfold EsureState.coded
  rw [hr.events, List.filterMap_append, List.filterMap_map]
  simp [EsureEvent.group?, Function.comp_def]

theorem Running.inside_coded (hr : Running E inode m c s) (code : List Stripe)
    (hc : c ≤ maxDataStripes) : ∀ event ∈ (s.coded c code).events, event.Inside := by
  intro event hevent
  unfold EsureState.coded at hevent
  rw [hr.events, List.mem_append, List.mem_map, List.mem_singleton] at hevent
  obtain ⟨t, ht, rfl⟩ | rfl := hevent
  · exact (List.mem_range.mp ht).trans_le hc
  · trivial

/-- As all the reads are of one file, they have all failed or all succeeded. -/
theorem Running.ok_coded (hr : Running E inode m c s) (code : List Stripe) (hpos : 0 < c)
    (hle : m + c ≤ inode.extents.length)
    (hnone : ∀ i e, m ≤ i → i < m + c → inode.extents[i]? = some e → ¬ E.Mismatch e) :
    (∀ event ∈ (s.coded c code).events, event.ok = true) ↔
      Returns ((E.files E.mountPath).read maxExtentSize 0) := by
  unfold EsureState.coded
  rw [hr.events]
  constructor
  · intro hall
    by_contra hunread
    have hfirst := hall (.read (m + 0) E.mountPath 0 ((inode.extents[m + 0]?).any E.readOk))
      (List.mem_append_left _ (List.mem_map.mpr ⟨0, List.mem_range.mpr hpos, rfl⟩))
    have he := List.getElem?_eq_getElem (show m + 0 < inode.extents.length by omega)
    rw [he] at hfirst
    have hfailed : E.readOk inode.extents[m + 0] = false := readOk_unread hunread
    rw [show EsureEvent.ok _ = E.readOk inode.extents[m + 0] from rfl, hfailed] at hfirst
    cases hfirst
  · intro hread event hevent
    rw [List.mem_append, List.mem_map, List.mem_singleton] at hevent
    obtain ⟨t, ht, rfl⟩ | rfl := hevent
    · rw [List.mem_range] at ht
      have he := List.getElem?_eq_getElem (show m + t < inode.extents.length by omega)
      rw [he]
      exact readOk_of_not_mismatch (hnone (m + t) _ (by omega) (by omega) he) hread
    · rfl

theorem Running.codesAll_coded {count : ℕ} (hr : Running E inode m (min count maxDataStripes) s)
    (code : List Stripe) (hn : m + count = inode.extents.length) (hpos : 0 < count)
    (hnone : ∀ i e, m ≤ i → i < m + min count maxDataStripes → inode.extents[i]? = some e →
      ¬ E.Mismatch e) :
    CodesAll h inode m (s.coded (min count maxDataStripes) code) ↔
      count ≤ maxDataStripes ∧
      (∀ i, m ≤ i → i < m + count →
        (inode.extents[i]?).bind (extentFile h) = some E.mountPath) ∧
      ¬ Returns ((E.files E.mountPath).read maxExtentSize 0) := by
  have hcount : (inode.extents.length - (m : ℤ)).toNat = count := by omega
  have hmin : 0 < min count maxDataStripes := by
    unfold maxDataStripes
    omega
  have hreads := reads_eq_iff E h inode m (min count maxDataStripes) count
  rw [← hr.extents_coded code] at hreads
  have hgroups := groupSizes_eq_singleton hpos
  have hok := hr.ok_coded code hmin (by omega) hnone
  constructor
  · intro hcodes
    have hcoded := hcodes.groups
    rw [hr.groups_coded, hcount] at hcoded
    have hpaths := hcodes.reads
    rw [hcount, Int.toNat_natCast] at hpaths
    refine ⟨hgroups.mp hcoded.symm, (hreads.mp hpaths).2, ?_⟩
    intro hread
    have hsuccess := hcodes.status.mpr (hok.mpr hread)
    cases hsuccess
  · rintro ⟨hle, hpath, hunread⟩
    refine ⟨?_, hr.inside_coded code (Nat.min_le_right _ _), ?_, ?_⟩
    · rw [hcount, Int.toNat_natCast]
      exact hreads.mpr ⟨Nat.min_eq_left hle, hpath⟩
    · rw [hr.groups_coded, hcount]
      exact (hgroups.mpr hle).symm
    · exact iff_of_false (show (-101 : ℤ) ≠ 100 by decide) (fun hall => hunread (hok.mp hall))

theorem Running.codesAll_finish {count : ℕ} (hr : Running E inode m (min count maxDataStripes) s)
    (hn : m + count = inode.extents.length) (hpos : 0 < count)
    (hnone : ∀ i e, m ≤ i → i < m + min count maxDataStripes → inode.extents[i]? = some e →
      ¬ E.Mismatch e) (hlogs : E.logs = false) :
    (∃ s', esureFinish E (min count maxDataStripes) s = .ok s' ∧ CodesAll h inode m s') ↔
      CodesUnread h E inode m := by
  have hcount : (inode.extents.length - (m : ℤ)).toNat = count := by omega
  have hmin : 0 < min count maxDataStripes := by
    unfold maxDataStripes
    omega
  -- Where the file cannot be read, the stripes that are encoded are the allocated ones.
  have hsame : ¬ Returns ((E.files E.mountPath).read maxExtentSize 0) → count ≤ maxDataStripes →
      sfsEsureEncode E.J E.bm s.data s.code maxExtentSize (min count maxDataStripes) codeStripes =
        sfsEsureEncode E.J E.bm E.data E.code maxExtentSize
          (inode.extents.length - (m : ℤ)).toNat codeStripes := by
    intro hunread hle
    rw [hr.unread hunread, hr.code, Nat.min_eq_left hle, hcount]
  obtain ⟨hfault, herror⟩ | ⟨hreturns, code, hok⟩ :=
    encodeInto_cases (E := E) (s := s) hmin (Nat.min_le_right count maxDataStripes)
  · apply iff_of_false
    · rintro ⟨s', hfinish, -⟩
      obtain ⟨r, hencode, -⟩ := bind_eq_ok.mp hfinish
      exact herror ⟨r, hencode⟩
    · intro hcodes
      have hgroup := hcodes.group
      rw [hsame hcodes.unread (by omega)] at hfault
      exact hfault hcodes.encodes
  · have hfinish : esureFinish E (min count maxDataStripes) s =
        .ok (s.coded (min count maxDataStripes) code) := by
      unfold esureFinish
      rw [hok]
      rfl
    have hcoded := hr.codesAll_coded (h := h) code hn hpos hnone
    constructor
    · rintro ⟨s', hs', hcodes⟩
      rw [hfinish] at hs'
      obtain rfl := Except.ok.inj hs'
      obtain ⟨hle, hpath, hunread⟩ := hcoded.mp hcodes
      refine ⟨Int.natCast_nonneg m, hlogs, by omega, ?_, hunread, ?_⟩
      · intro i hi hlt
        exact hpath i (by omega) (by omega)
      · rwa [hsame hunread hle] at hreturns
    · intro hcodes
      have hgroup := hcodes.group
      refine ⟨_, hfinish, hcoded.mpr ⟨by omega, ?_, hcodes.unread⟩⟩
      intro i hi hlt
      exact hcodes.path i (by omega) (by omega)

/-- The memory that is asked for is there. -/
structure EsureEnv.Served (E : EsureEnv) : Prop where
  inodeCache : E.inodeCache = true
  getInode : E.getInode = .found
  data : E.data.length = maxDataStripes
  code : E.code.length = codeStripes

theorem esureLoop_codesAll (hserved : E.Served) :
    (∃ s, esureLoop E inode (inode.extents.length - start).toNat start = .ok s ∧
      CodesAll h inode start s) ↔
      inode.extents.length ≤ start ∨ CodesUnread h E inode start := by
  obtain hle | hlt := le_or_gt (inode.extents.length : ℤ) start
  · refine iff_of_true ?_ (Or.inl hle)
    have hcount : (inode.extents.length - start).toNat = 0 := by omega
    rw [hcount]
    refine ⟨⟨0, E.data, E.code, 100, []⟩, rfl, ?_, ?_, ?_, ?_⟩
    · rw [hcount]
      rfl
    · intro event hevent
      cases hevent
    · rw [hcount]
      rfl
    · exact iff_of_true rfl (fun event hevent => absurd hevent List.not_mem_nil)
  · by_cases hgood : 0 ≤ start ∧ E.logs = false
    · obtain ⟨m, rfl⟩ := Int.eq_ofNat_of_zero_le hgood.1
      obtain ⟨count, hcount⟩ : ∃ count, m + count = inode.extents.length :=
        ⟨inode.extents.length - m, by omega⟩
      have hturns : (inode.extents.length - (m : ℤ)).toNat = count := by omega
      have hrest := (running_start inode m hserved.data 100).rest hgood.2 count (by decide)
        (by omega) (by omega)
      rw [Nat.zero_add] at hrest
      have hnot : ¬ (inode.extents.length : ℤ) ≤ m := by omega
      rw [or_iff_right hnot, hturns]
      obtain ⟨⟨_, -, bytes, hread, -⟩, s, hs, hgroups⟩ | ⟨s, hr, hnone, hs⟩ := hrest
      · apply iff_of_false
        · rintro ⟨s', hs', hcodes⟩
          have hsame : s = s' := Except.ok.inj (hs.symm.trans hs')
          have hall := hcodes.groups
          rw [← hsame, hgroups, hturns] at hall
          exact groupSizes_ne_nil (by omega) hall.symm
        · intro hcodes
          exact hcodes.unread ⟨bytes, hread⟩
      · have hfinish := hr.codesAll_finish (h := h) hcount (by omega)
          (fun i e hi => hnone i e (by omega)) hgood.2
        rw [← hfinish, ← hs]
        rfl
    · apply iff_of_false
      · rintro ⟨s, hs, -⟩
        exact esureLoop_stopped hlt hgood ⟨s, hs⟩
      · rintro (hle | hcodes)
        · omega
        · exact hgood ⟨hcodes.nonneg, hcodes.logs⟩

/-- The extents are coded right exactly if there are none to code, or they cannot be read. -/
theorem esureCode_iff (first : BitVec 32) (rest : List (BitVec 32)) :
    (∃ s, sstackEsureCode E inode (first :: rest) = .ok s ∧
      CodesAll h inode (alignedStart first rest) s) ↔
    E.Served ∧ (inode.extents.length ≤ alignedStart first rest ∨
      CodesUnread h E inode (alignedStart first rest)) := by
  unfold sstackEsureCode
  by_cases hinode : E.inodeCache = true ∧ E.getInode = .found
  · by_cases hstripes : E.data.length = maxDataStripes ∧ E.code.length = codeStripes
    · have hserved : E.Served := ⟨hinode.1, hinode.2, hstripes.1, hstripes.2⟩
      rw [require_bind_of hinode, and_iff_right hserved, ← esureLoop_codesAll hserved]
      dsimp only
      rw [require_bind_of hstripes]
    · apply iff_of_false
      · rintro ⟨s, hs, -⟩
        rw [require_bind_of hinode] at hs
        dsimp only at hs
        rw [require_bind_of_not hstripes] at hs
        cases hs
      · rintro ⟨hserved, -⟩
        exact hstripes ⟨hserved.data, hserved.code⟩
  · apply iff_of_false
    · rintro ⟨s, hs, -⟩
      rw [require_bind_of_not hinode] at hs
      cases hs
    · rintro ⟨hserved, -⟩
      exact hinode ⟨hserved.inodeCache, hserved.getInode⟩

end

end

theorem encode_one_returns {E : EsureEnv} {s : EsureState} {src : Stripe}
    (hsrc : s.data[0]? = some src) (hdata : src.length = maxExtentSize)
    (hlen : s.code.length = codeStripes)
    (hcode : ∀ stripe ∈ s.code, stripe.length = maxExtentSize) :
    Returns (sfsEsureEncode E.J E.bm s.data s.code maxExtentSize 1 codeStripes) := by
  unfold sfsEsureEncode
  rw [if_neg (by decide), if_neg (by decide), if_neg (by decide)]
  have hcopies := copies_eq hdata hcode (n := codeStripes) (by omega)
  have hone : dataStripesEncode1 s.data s.code maxExtentSize =
      .ok (codeStripes, List.replicate codeStripes src ++ s.code.drop codeStripes) := by
    unfold dataStripesEncode1
    rw [stripeAt_eq hsrc, ok_bind, if_neg (by decide), hcopies]
    rfl
  exact ⟨_, hone⟩

def zeroStripe : Stripe := List.replicate maxExtentSize 0

/-- All memory is there, and the array on the stack holds the path of the only extent, whose file is
good. -/
def codingEnv : EsureEnv where
  crc _ := 7
  J := zeroJerasure
  bm _ := none
  inodeCache := true
  getInode := .found
  data := List.replicate maxDataStripes zeroStripe
  code := List.replicate codeStripes zeroStripe
  logs := false
  mountPath := fivePath
  files _ := fiveFile (.ok ())

theorem codingEnv_served : codingEnv.Served :=
  ⟨rfl, rfl, List.length_replicate, List.length_replicate⟩

theorem codingEnv_coded : ∃ s, sstackEsureCode codingEnv ⟨true, 5, 1, [fiveExtent]⟩ [0] = .ok s ∧
    s.commandStat = -101 ∧ s.events = [.read 0 fivePath 0 true, .encode 1 true] := by
  have hrest := (running_start ⟨true, 5, 1, [fiveExtent]⟩ 0 codingEnv_served.data 100).rest rfl 1
    (by decide) rfl (by decide)
  obtain ⟨⟨e, he, bytes, -, hne⟩, -⟩ | ⟨s, hr, -, hs⟩ := hrest
  · obtain rfl := List.mem_singleton.mp he
    exact absurd rfl hne
  · have hzero : ∀ n, ∀ stripe ∈ List.replicate n zeroStripe, stripe.length = maxExtentSize := by
      intro n stripe hstripe
      rw [List.eq_of_mem_replicate hstripe]
      exact List.length_replicate
    have hpos : 0 < s.data.length := by
      rw [hr.length]
      decide
    have hcode : s.code = List.replicate codeStripes zeroStripe := hr.code
    have hreturns : Returns (sfsEsureEncode codingEnv.J codingEnv.bm s.data s.code maxExtentSize 1
        codeStripes) := by
      apply encode_one_returns (List.getElem?_eq_getElem hpos)
      · exact hr.size (hzero _) _ (List.getElem_mem hpos)
      · rw [hcode]
        exact List.length_replicate
      · rw [hcode]
        exact hzero _
    obtain ⟨hfault, -⟩ | ⟨-, code, hok⟩ := encodeInto_cases (E := codingEnv) (s := s) (c := 1)
      (by decide) (by decide)
    · exact absurd hreturns hfault
    · refine ⟨s.coded 1 code, ?_, rfl, ?_⟩
      · have hfinish : esureFinish codingEnv 1 s = .ok (s.coded 1 code) := by
          unfold esureFinish
          rw [hok]
          rfl
        have hstart : alignedStart 0 [] = 0 := by decide
        unfold sstackEsureCode
        rw [require_bind_of ⟨rfl, rfl⟩]
        dsimp only
        rw [require_bind_of ⟨codingEnv_served.data, codingEnv_served.code⟩, hstart]
        exact hs.trans hfinish
      · unfold EsureState.coded
        rw [hr.events]
        rfl

/-- Everything succeeds, and `-SSTACK_FAILURE` is reported. -/
theorem esureCode_misses :
    (∃ s, sstackEsureCode codingEnv ⟨true, 5, 1, [fiveExtent]⟩ [0] = .ok s ∧
      s.commandStat = -101 ∧ s.events = [.read 0 fivePath 0 true, .encode 1 true]) ∧
    extentFile (oneChunk true) fiveExtent = some fivePath ∧
    ¬ ∃ s, sstackEsureCode codingEnv ⟨true, 5, 1, [fiveExtent]⟩ [0] = .ok s ∧
      CodesAll (oneChunk true) ⟨true, 5, 1, [fiveExtent]⟩ (alignedStart 0 []) s := by
  refine ⟨codingEnv_coded, by decide, ?_⟩
  rintro ⟨s, hs, hcodes⟩
  obtain ⟨s', hs', hstat, hevents⟩ := codingEnv_coded
  obtain rfl : s = s' := Except.ok.inj (hs.symm.trans hs')
  have hall : ∀ event ∈ s.events, event.ok = true := by
    rw [hevents]
    decide
  have hsuccess := hcodes.status.mpr hall
  rw [hstat] at hsuccess
  cases hsuccess

end SeamlessStack.Sfsd
