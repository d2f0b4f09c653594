import SeamlessStack.Lib.Except
import SeamlessStack.Lib.Memory
import SeamlessStack.Policy.Table

/-! The record of a policy, as `submit_policy_entry` makes it. Sizes and offsets are those on
x86_64. -/
namespace SeamlessStack.Policy

open Lib

def pdbEntrySize : ℕ := 3104
def policyTagLen : ℕ := 16
def sha256DigestLength : ℕ := 32
def pointerSize : ℕ := 8
def keySize : ℕ := 4096 + 16 + 8 + 4

def attributeSize : ℕ := 12
def policyEntrySize : ℕ := 40
def numPluginsOffset : ℕ := 16

def cksumOffset : ℕ := 1024
def memIndexOffset : ℕ := 3072
def numPolicyOffset : ℕ := 3080
def attrOffset : ℕ := 3088

/-- A policy as it is submitted. The tags are the rows of `pi_policy_tag`. -/
structure PolicyRequest extends PolicyInput where
  tags : List UInt8
  numPolicy : ℕ
  attr : List UInt8
  tags_length : tags.length = numMaxPolicy * policyTagLen
  attr_length : attr.length = attributeSize

structure Plugin where
  policyName : List UInt8
  shaSum : List UInt8

/-- The plugins that are registered, by their addresses, and what stands at an address. -/
structure Process where
  ptTable : List (Option Block)
  textAt : Block → Option (List UInt8)
  pluginAt : Block → Option Plugin

/-- A copy that leaves its block, or an access through a pointer that leads nowhere. -/
inductive CopyFault
  | outside
  | wild
  deriving DecidableEq, Repr

def inside {α : Type} : Option α → Except CopyFault α
  | some a => .ok a
  | none => .error .outside

def follow {α : Type} : Option α → Except CopyFault α
  | some a => .ok a
  | none => .error .wild

def fresh (n : ℕ) (contents : ℕ → UInt8) : Block := Block.ofBytes ((List.range n).map contents)

/-- The inner loop of `get_pe_from_tags`; `k` counts the plugins entered. The rows of tags are taken
for an array of pointers: number `i` is read from the `8 * i`th byte. -/
def matchTag (proc : Process) (tags : Block) (i : ℕ) :
    List (Option Block) → ℕ → Block → Except CopyFault (ℕ × Block)
  | [], k, pe => return (k, pe)
  | none :: rest, k, pe => matchTag proc tags i rest k pe
  | some pp :: rest, k, pe => do
    let tag ← inside (tags.read (pointerSize * i : ℕ) pointerSize)
    let text ← follow (proc.textAt tag)
    let plugin ← follow (proc.pluginAt pp)
    if text = plugin.policyName then
      let pe ← inside (pe.write (policyEntrySize + pointerSize * k : ℕ) pp)
      let num ← inside (pe.u64 numPluginsOffset)
      let pe ← inside (pe.write numPluginsOffset (Block.ofU64 (num + 1)))
      matchTag proc tags i rest (k + 1) pe
    else matchTag proc tags i rest k pe

/-- The loop over the tags, of which number `i` is next. -/
def getPeFromTags (proc : Process) (tags : Block) : ℕ → ℕ → ℕ → Block → Except CopyFault Block
  | 0, _, _, pe => return pe
  | n + 1, i, k, pe => do
    let (k, pe) ← matchTag proc tags i proc.ptTable k pe
    getPeFromTags proc tags n (i + 1) k pe

/-- `pe_num_plugins` is not set before it is counted up. -/
def getPeFromPi (proc : Process) (pi : PolicyRequest) (pe : Block) : Except CopyFault Block := do
  let pe ← inside (pe.write 0 (Block.ofBytes pi.attr))
  getPeFromTags proc (Block.ofBytes pi.tags) pi.numPolicy 0 0 pe

/-- The loop of `get_pdbe_from_pe` over the plugins. -/
def copyPlugins (proc : Process) (pe : Block) : ℕ → ℕ → Block → Except CopyFault Block
  | 0, _, pdbe => return pdbe
  | n + 1, i, pdbe => do
    let pp ← inside (pe.read (policyEntrySize + pointerSize * i : ℕ) pointerSize)
    let plugin ← follow (proc.pluginAt pp)
    let tag := plugin.policyName.take policyTagLen
    let row := tag ++ List.replicate (policyTagLen - tag.length) 0
    let pdbe ← inside (pdbe.write (policyTagLen * i : ℕ) (Block.ofBytes row))
    let cksum := Block.ofBytes (plugin.shaSum.take sha256DigestLength)
    let pdbe ← inside (pdbe.write (cksumOffset + sha256DigestLength * i : ℕ) cksum)
    copyPlugins proc pe n (i + 1) pdbe

/-- The attributes are copied with the size of the whole record, and `pdb_mem_index` is not
set. -/
def getPdbeFromPe (proc : Process) (pe pdbe : Block) : Except CopyFault Block := do
  let num ← inside (pe.u64 numPluginsOffset)
  let pdbe ← copyPlugins proc pe num 0 pdbe
  let pdbe ← inside (pdbe.write numPolicyOffset (Block.ofU64 num))
  let attr ← inside (pe.read 0 pdbEntrySize)
  inside (pdbe.write attrOffset attr)

/-- A policy to be stored, its process, and what stands in the memory for the entry and on the
stack. -/
structure PolicyWrite where
  pi : PolicyRequest
  proc : Process
  heap : ℕ → UInt8
  stack : ℕ → UInt8

/-- The key and the record that `submit_policy_entry` gives to the database. -/
def submitRecord (w : PolicyWrite) : Except CopyFault (List Char × Block) := do
  require (w.pi.key.length + 1 ≤ keySize) .outside
  let pe ← getPeFromPi w.proc w.pi
    (fresh (policyEntrySize + pointerSize * w.pi.numPolicy) w.heap)
  let pdbe ← getPdbeFromPe w.proc pe (fresh pdbEntrySize w.stack)
  return (w.pi.key, pdbe)

section Write
variable {proc : Process} {α : Type} {a : α} {o : Option α}

theorem inside_eq_ok : inside o = .ok a ↔ o = some a := by
  cases o with
  | none | some b => simp [inside]

theorem follow_eq_ok : follow o = .ok a ↔ o = some a := by
  cases o with
  | none | some b => simp [follow]

theorem fresh_length (n : ℕ) (contents : ℕ → UInt8) : (fresh n contents).length = n := by
  simp [fresh]

theorem copyPlugins_length {pe pdbe pdbe' : Block} {n i : ℕ}
    (h : copyPlugins proc pe n i pdbe = .ok pdbe') : pdbe'.length = pdbe.length := by
  induction n generalizing i pdbe with
  | zero =>
    cases h
    rfl
  | succ n ih =>
    rw [copyPlugins] at h
    obtain ⟨pp, -, h⟩ := bind_eq_ok.mp h
    obtain ⟨plugin, -, h⟩ := bind_eq_ok.mp h
    obtain ⟨tagged, htagged, h⟩ := bind_eq_ok.mp h
    obtain ⟨summed, hsummed, h⟩ := bind_eq_ok.mp h
    rw [ih h, Block.write_length (inside_eq_ok.mp hsummed),
      Block.write_length (inside_eq_ok.mp htagged)]

theorem not_returns_getPdbeFromPe {pe pdbe : Block} (hlen : pdbe.length = pdbEntrySize) :
    ¬ Returns (getPdbeFromPe proc pe pdbe) := by
  rintro ⟨record, h⟩
  obtain ⟨num, -, h⟩ := bind_eq_ok.mp h
  obtain ⟨copied, hcopied, h⟩ := bind_eq_ok.mp h
  obtain ⟨counted, hcounted, h⟩ := bind_eq_ok.mp h
  obtain ⟨attr, hattr, h⟩ := bind_eq_ok.mp h
  have hsize : counted.length = pdbEntrySize := by
    rw [Block.write_length (inside_eq_ok.mp hcounted), copyPlugins_length hcopied, hlen]
  have hread : attr.length = pdbEntrySize := Block.read_length (inside_eq_ok.mp hattr)
  have hle := (Block.write_eq_some.mp (inside_eq_ok.mp h)).2.1
  rw [hsize, hread] at hle
  simp only [attrOffset, pdbEntrySize] at hle
  omega

theorem not_returns_submitRecord (w : PolicyWrite) : ¬ Returns (submitRecord w) := by
  rintro ⟨record, h⟩
  obtain ⟨-, -, h⟩ := bind_eq_ok.mp h
  obtain ⟨pe, -, h⟩ := bind_eq_ok.mp h
  obtain ⟨pdbe, hpdbe, -⟩ := bind_eq_ok.mp h
  exact not_returns_getPdbeFromPe (fresh_length _ _) ⟨pdbe, hpdbe⟩

end Write

end SeamlessStack.Policy
