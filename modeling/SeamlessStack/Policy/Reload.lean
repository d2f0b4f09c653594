import SeamlessStack.Policy.Record

/-! How `init_policy` makes entries of the records again, in a new process. The database is taken to
hand each record with its key to `policy_iterate`. -/
namespace SeamlessStack.Policy

open Lib Function

abbrev SearchTable := ℕ → List Char → Option Block

def getPeFromPdbe (proc : Process) (pdbe pe : Block) : Except CopyFault Block := do
  let attr ← inside (pdbe.read attrOffset attributeSize)
  let pe ← inside (pe.write 0 attr)
  let num ← inside (pdbe.u64 numPolicyOffset)
  getPeFromTags proc pdbe num 0 0 pe

/-- `heap` is what the memory for the entry holds, if any. The entry has no room for plugins. -/
def policyIterate (proc : Process) (heap : Option (ℕ → UInt8)) (t : SearchTable)
    (key : List Char) (data : Block) : Except CopyFault SearchTable :=
  match heap with
  | none => return t
  | some contents => do
    let pe ← getPeFromPdbe proc data (fresh policyEntrySize contents)
    let index ← inside (((data.read memIndexOffset 1).bind Block.bytes).map littleEndian)
    require (index < numBuckets) .outside
    return update t index (update (t index) key (some pe))

def Process.cleared (proc : Process) : Process :=
  { proc with ptTable := List.replicate numMaxPolicy none }

/-- The table that `init_policy` builds from the records, which come with what their memory
holds. -/
def initPolicy (proc : Process) (records : List (List Char × Block))
    (heap : List Char → Option (ℕ → UInt8)) : Except CopyFault SearchTable :=
  records.foldlM (fun t r => policyIterate proc.cleared (heap r.1) t r.1 r.2) fun _ _ => none

def pluginNames (proc : Process) (pe : Block) : Option (List (List UInt8)) := do
  let num ← pe.u64 numPluginsOffset
  (List.range num).mapM fun i => do
    let pp ← pe.read (policyEntrySize + pointerSize * i : ℕ) pointerSize
    let plugin ← proc.pluginAt pp
    return plugin.policyName

namespace PolicyRequest

def tag (pi : PolicyRequest) (i : ℕ) : List UInt8 :=
  ((pi.tags.drop (policyTagLen * i)).take policyTagLen).takeWhile (· ≠ 0)

def plugins (pi : PolicyRequest) : List (List UInt8) := (List.range pi.numPolicy).map pi.tag

/-- The table has the policy in its bucket and under its key, with its attributes and plugins. -/
def Rebuilt (pi : PolicyRequest) (proc : Process) (t : SearchTable) : Prop :=
  ∃ pe, t pi.index pi.key = some pe ∧ pe.read 0 attributeSize = some (Block.ofBytes pi.attr) ∧
    pluginNames proc pe = some pi.plugins

end PolicyRequest

/-- All policies are stored and reloaded by copies that stay inside, and are there again. -/
def Reloads (proc : Process) (heap : List Char → Option (ℕ → UInt8)) (stored : List PolicyWrite) :
    Prop :=
  ∃ records t, stored.mapM submitRecord = .ok records ∧ initPolicy proc records heap = .ok t ∧
    ∀ w ∈ stored, w.pi.Rebuilt proc t

section Reload
variable {proc : Process} {pi : PolicyRequest} {data : Block}

theorem matchTag_cleared (tags : Block) (i n k : ℕ) (pe : Block) :
    matchTag proc tags i (List.replicate n none) k pe = .ok (k, pe) := by
  induction n with
  | zero => rfl
  | succ n ih =>
    rw [List.replicate_succ, matchTag]
    exact ih

theorem getPeFromTags_cleared (tags : Block) (n i k : ℕ) (pe : Block) :
    getPeFromTags proc.cleared tags n i k pe = .ok pe := by
  induction n generalizing i with
  | zero => rfl
  | succ n ih =>
    rw [getPeFromTags]
    have hmatch : matchTag proc.cleared tags i proc.cleared.ptTable k pe = .ok (k, pe) :=
      matchTag_cleared tags i numMaxPolicy k pe
    rw [hmatch]
    exact ih (i + 1)

/-- An entry without room for plugins has a list of them only if it counts none. -/
theorem pluginNames_eq_some_iff {pe : Block} {names : List (List UInt8)}
    (hlen : pe.length = policyEntrySize) :
    pluginNames proc pe = some names ↔ pe.u64 numPluginsOffset = some 0 ∧ names = [] := by
  unfold pluginNames
  cases hnum : pe.u64 numPluginsOffset with
  | none => simp
  | some num =>
    cases num with
    | zero => simp [eq_comm]
    | succ num =>
      have hread : pe.read (policyEntrySize + pointerSize * 0 : ℕ) pointerSize = none := by
        unfold Block.read
        rw [if_neg]
        rw [hlen]
        simp only [policyEntrySize, pointerSize]
        omega
      refine iff_of_false ?_ (by simp)
      rw [Option.bind_eq_bind, Option.bind_some, List.range_succ_eq_map, List.mapM_cons, hread]
      simp

/-- The record holds the attributes and plugin count of the policy, and `b` for the bucket. -/
structure StoredAs (data : Block) (pi : PolicyRequest) (b : UInt8) : Prop where
  attr : data.read attrOffset attributeSize = some (Block.ofBytes pi.attr)
  num : data.u64 numPolicyOffset = some pi.numPolicy
  memIndex : data.read memIndexOffset 1 = some [.byte b]

/-- The attributes come back, and the number of plugins is what the memory held. -/
theorem getPeFromPdbe_stored (proc : Process) {b : UInt8} (h : StoredAs data pi b)
    (contents : ℕ → UInt8) :
    ∃ pe, getPeFromPdbe proc.cleared data (fresh policyEntrySize contents) = .ok pe ∧
      pe.length = policyEntrySize ∧ pe.read 0 attributeSize = some (Block.ofBytes pi.attr) ∧
      pe.u64 numPluginsOffset = (fresh policyEntrySize contents).u64 numPluginsOffset := by
  have hattr : (Block.ofBytes pi.attr).length = attributeSize := by
    rw [Block.ofBytes_length, pi.attr_length]
  obtain ⟨pe, hpe⟩ : ∃ pe, (fresh policyEntrySize contents).write 0 (Block.ofBytes pi.attr) =
      some pe := by
    unfold Block.write
    rw [if_pos]
    · exact ⟨_, rfl⟩
    · rw [hattr, fresh_length]
      decide
  refine ⟨pe, ?_, ?_, ?_, ?_⟩
  · unfold getPeFromPdbe
    rw [h.attr, h.num, inside, inside, ok_bind, hpe, inside, ok_bind, ok_bind]
    exact getPeFromTags_cleared data pi.numPolicy 0 0 pe
  · rw [Block.write_length hpe, fresh_length]
  · rw [← hattr]
    exact Block.read_write_self hpe
  · have hkept : pe.read numPluginsOffset 8 =
        (fresh policyEntrySize contents).read numPluginsOffset 8 := by
      apply Block.read_write_after hpe
      rw [hattr]
      decide
    unfold Block.u64
    rw [hkept]

/-- Even of a true record the policy comes back only if the place of the bucket holds its bucket, it
has no plugins, and the memory counted none. -/
theorem policyIterate_rebuilt_iff {b : UInt8} (h : StoredAs data pi b) (contents : ℕ → UInt8)
    {t : SearchTable} (ht : t pi.index pi.key = none) :
    (∃ t', policyIterate proc.cleared (some contents) t pi.key data = .ok t' ∧
        pi.Rebuilt proc t') ↔
      b.toNat = pi.index ∧ pi.numPolicy = 0 ∧
        (fresh policyEntrySize contents).u64 numPluginsOffset = some 0 := by
  obtain ⟨pe, hpe, hlen, hattr, hnum⟩ := getPeFromPdbe_stored proc h contents
  have hindex :
      ((data.read memIndexOffset 1).bind Block.bytes).map littleEndian = some b.toNat := by
    rw [h.memIndex]
    rfl
  have hiterate : policyIterate proc.cleared (some contents) t pi.key data =
      (require (b.toNat < numBuckets) .outside >>= fun _ =>
        .ok (update t b.toNat (update (t b.toNat) pi.key (some pe)))) := by
    simp only [policyIterate, hpe, hindex]
    rfl
  have hnames : pluginNames proc pe = some pi.plugins ↔
      (fresh policyEntrySize contents).u64 numPluginsOffset = some 0 ∧ pi.numPolicy = 0 := by
    rw [pluginNames_eq_some_iff hlen, hnum]
    simp [PolicyRequest.plugins]
  rw [hiterate]
  constructor
  · rintro ⟨t', ht', pe', hpe', -, hplugins⟩
    obtain ⟨-, -, heq⟩ := bind_eq_ok.mp ht'
    cases heq
    have hb : pi.index = b.toNat := by
      by_contra hne
      rw [update_of_ne hne, ht] at hpe'
      cases hpe'
    rw [hb, update_self, update_self] at hpe'
    cases hpe'
    obtain ⟨hzero, hnone⟩ := hnames.mp hplugins
    exact ⟨hb.symm, hnone, hzero⟩
  · rintro ⟨hb, hnone, hzero⟩
    have hlt : b.toNat < numBuckets := by
      rw [hb]
      exact pi.index_lt
    rw [require_bind_of hlt]
    refine ⟨_, rfl, pe, ?_, hattr, hnames.mpr ⟨hzero, hnone⟩⟩
    rw [hb, update_self, update_self]

end Reload

/-- No policy survives a restart: the tables agree only if nothing was stored. -/
theorem initPolicy_reloads_iff (proc : Process) (heap : List Char → Option (ℕ → UInt8))
    (stored : List PolicyWrite) : Reloads proc heap stored ↔ stored = [] := by
  constructor
  · rintro ⟨records, t, hrecords, -⟩
    cases stored with
    | nil => rfl
    | cons w rest =>
      rw [List.mapM_cons] at hrecords
      obtain ⟨record, hrecord, -⟩ := bind_eq_ok.mp hrecords
      exact absurd ⟨record, hrecord⟩ (not_returns_submitRecord w)
  · rintro rfl
    exact ⟨[], fun _ _ => none, rfl, rfl, fun w hw => absurd hw List.not_mem_nil⟩

/-- A policy for all files, without plugins, in a process that has no plugin either. -/
def barePolicy : PolicyWrite where
  pi :=
    { fname := ['*'], ftype := ['*'], uid := anyId, gid := anyId
      tags := List.replicate 1024 0, numPolicy := 0, attr := List.replicate 12 0
      tags_length := List.length_replicate
      attr_length := List.length_replicate }
  proc := ⟨List.replicate numMaxPolicy none, fun _ => none, fun _ => none⟩
  heap := fun _ => 0
  stack := fun _ => 0

/-- Already the record of this policy is written beyond its end. -/
theorem initPolicy_loses_policy :
    ¬ Returns (submitRecord barePolicy) ∧
      ¬ Reloads barePolicy.proc (fun _ => some fun _ => 0) [barePolicy] := by
  have hwrite := not_returns_submitRecord barePolicy
  refine ⟨hwrite, ?_⟩
  rintro ⟨records, t, hrecords, -⟩
  rw [List.mapM_cons] at hrecords
  obtain ⟨record, hrecord, -⟩ := bind_eq_ok.mp hrecords
  exact hwrite ⟨record, hrecord⟩

end SeamlessStack.Policy
