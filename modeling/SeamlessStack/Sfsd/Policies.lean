import Mathlib.Data.List.ReduceOption
import SeamlessStack.Sfsd.Stored

/-! `apply_policies` and `deapply_policies` of `sfsd_ops.c`: a buffer goes through the plugins of a
policy entry, and every buffer but the last is given back. Without a loaded plugin the result is no
buffer. -/
namespace SeamlessStack.Sfsd

open Lib

/-- A plugin that has something to return, and can undo what it does. -/
structure Plugin where
  apply : Bytes → Bytes
  remove : Bytes → Bytes
  apply_ne : ∀ bytes, bytes ≠ [] → apply bytes ≠ []
  remove_apply : ∀ bytes, bytes ≠ [] → remove (apply bytes) = bytes

/-- Where a buffer comes from: the 64K cache of `sfsd_global_cache_arr`, `malloc`, or another
cache. -/
inductive Origin
  | cache
  | heap
  | other
  deriving DecidableEq, Repr

inductive PolicyFault
  | noCache
  | null
  | freed
  | foreign
  deriving DecidableEq, Repr

/-- The buffers by their number, those that were given back, and the variables of the functions. -/
structure PolicyRun where
  memory : List (Origin × Bytes)
  released : List ℕ
  runBuf : Option ℕ
  policyBuf : Option ℕ
  inSize : ℕ
  outSize : ℕ
  deriving DecidableEq, Repr

def PolicyRun.input (s : PolicyRun) : Except PolicyFault Bytes :=
  match s.runBuf with
  | none => .error .null
  | some i =>
    if i ∈ s.released then .error .freed
    else match s.memory[i]? with
      | none => .error .null
      | some (_, bytes) => .ok (bytes.take s.inSize)

/-- `bds_cache_free`, else `free`. `caches`: the entry of `sfsd_global_cache_arr` is a cache. -/
def PolicyRun.release (caches : Bool) (s : PolicyRun) (i : ℕ) : Except PolicyFault PolicyRun :=
  if caches = false then .error .noCache
  else if i ∈ s.released then .error .freed
  else match s.memory[i]? with
    | none => .error .null
    | some (.other, _) => .error .foreign
    | some _ => .ok { s with released := s.released ++ [i] }

def PolicyRun.allocate (s : PolicyRun) (out : Bytes) : PolicyRun :=
  { s with memory := s.memory ++ [(.heap, out)], policyBuf := some s.memory.length,
           outSize := out.length }

/-- The call of a plugin, and what is done if it returns a size. -/
def callPlugin (caches : Bool) (f : Bytes → Bytes) (s : PolicyRun) :
    Except PolicyFault PolicyRun := do
  let bytes ← s.input
  let s := s.allocate (f bytes)
  if 0 < s.outSize then
    match s.runBuf with
    | none => .error .null
    | some i => do
      let s ← s.release caches i
      return { s with runBuf := s.policyBuf, inSize := s.outSize }
  else return s

/-- The loop over the plugins, of which some may not be loaded. -/
def runPlugins (caches : Bool) (f : Plugin → Bytes → Bytes) :
    List (Option Plugin) → PolicyRun → Except PolicyFault PolicyRun
  | [], s => return s
  | none :: rest, s => runPlugins caches f rest s
  | some plugin :: rest, s => do
    let s ← callPlugin caches (f plugin) s
    runPlugins caches f rest s

def policyStart (memory : List (Origin × Bytes)) (released : List ℕ) (inBuf : Option ℕ)
    (inSize : ℕ) : PolicyRun := ⟨memory, released, inBuf, none, inSize, 0⟩

def applyPolicies (caches : Bool) (pe : List (Option Plugin)) (s : PolicyRun) :
    Except PolicyFault PolicyRun :=
  runPlugins caches Plugin.apply pe s

def deapplyPolicies (caches : Bool) (pe : List (Option Plugin)) (s : PolicyRun) :
    Except PolicyFault PolicyRun :=
  runPlugins caches Plugin.remove pe.reverse s

/-- The output of `apply_policies` is given to `deapply_policies`. The buffer `i` that comes out has
the bytes and the length that went in, and the others were given back once each. -/
def RoundTrips (caches : Bool) (pe : List (Option Plugin)) (origin : Origin) (bytes : Bytes) :
    Prop :=
  ∃ s t i,
    applyPolicies caches pe (policyStart [(origin, bytes)] [] (some 0) bytes.length) = .ok s ∧
    deapplyPolicies caches pe (policyStart s.memory s.released s.policyBuf s.outSize) = .ok t ∧
    t.policyBuf = some i ∧ t.outSize = bytes.length ∧
    (t.memory[i]?).map Prod.snd = some bytes ∧ i ∉ t.released ∧
    ∀ k, 0 < k → k < t.memory.length → k ≠ i → t.released.count k = 1

section
variable {caches : Bool} {f : Plugin → Bytes → Bytes} {pe : List (Option Plugin)}
  {s : PolicyRun} {front : List (Origin × Bytes)} {bytes : Bytes}

theorem runPlugins_eq_foldlM : runPlugins caches f pe s =
    pe.reduceOption.foldlM (fun s plugin => callPlugin caches (f plugin) s) s := by
  induction pe generalizing s with
  | nil => rfl
  | cons plugin pe ih =>
    cases plugin with
    | none =>
      rw [List.reduceOption_cons_of_none]
      exact ih
    | some plugin =>
      rw [List.reduceOption_cons_of_some, List.foldlM_cons]
      unfold runPlugins
      simp only [ih]

/-- The last buffer goes to the next plugin; those before were given back in order. -/
structure Settled (s : PolicyRun) (front : List (Origin × Bytes)) (bytes : Bytes) : Prop where
  memory : ∃ origin ≠ Origin.other, s.memory = front ++ [(origin, bytes)]
  released : s.released = List.range front.length
  runBuf : s.runBuf = some front.length
  inSize : s.inSize = bytes.length

def PolicyRun.Ended (s : PolicyRun) : Prop := s.policyBuf = s.runBuf ∧ s.outSize = s.inSize

theorem Settled.input (hs : Settled s front bytes) : s.input = .ok bytes := by
  obtain ⟨origin, -, hmemory⟩ := hs.memory
  unfold PolicyRun.input
  rw [hs.runBuf, hmemory, hs.released, hs.inSize]
  simp

theorem Settled.call (hs : Settled s front bytes) {g : Bytes → Bytes} (hg : g bytes ≠ []) :
    ∃ s', callPlugin true g s = .ok s' ∧ Settled s' s.memory (g bytes) ∧ s'.Ended := by
  obtain ⟨origin, horigin, hmemory⟩ := hs.memory
  have hpos : 0 < (s.allocate (g bytes)).outSize := List.length_pos_iff.mpr hg
  have hlast : (s.allocate (g bytes)).memory[front.length]? = some (origin, bytes) := by
    unfold PolicyRun.allocate
    rw [hmemory]
    simp
  have hrelease : (s.allocate (g bytes)).release true front.length =
      .ok { s.allocate (g bytes) with released := s.released ++ [front.length] } := by
    have hheld : front.length ∉ (s.allocate (g bytes)).released := by
      change front.length ∉ s.released
      rw [hs.released]
      simp
    unfold PolicyRun.release
    rw [if_neg (by decide), if_neg hheld, hlast]
    cases origin with
    | other => exact absurd rfl horigin
    | _ => rfl
  have hrun : (s.allocate (g bytes)).runBuf = some front.length := hs.runBuf
  unfold callPlugin
  rw [hs.input, ok_bind, if_pos hpos, hrun]
  dsimp only
  rw [hrelease]
  refine ⟨_, rfl, ⟨⟨.heap, by decide, rfl⟩, ?_, rfl, rfl⟩, rfl, rfl⟩
  have hlen : s.memory.length = front.length + 1 := by
    rw [hmemory]
    simp
  rw [hlen, List.range_succ, hs.released]

/-- The buffer is what the loaded plugins make of it in turn, if all have something to return. -/
theorem Settled.run (hs : Settled s front bytes) (loaded : List Plugin)
    (hf : ∀ before plugin after, loaded = before ++ plugin :: after →
      f plugin (before.foldl (fun bytes plugin => f plugin bytes) bytes) ≠ []) :
    ∃ s' front', loaded.foldlM (fun s plugin => callPlugin true (f plugin) s) s = .ok s' ∧
      Settled s' front' (loaded.foldl (fun bytes plugin => f plugin bytes) bytes) ∧
      (loaded ≠ [] → s'.Ended) := by
  induction loaded generalizing s front bytes with
  | nil => exact ⟨s, front, rfl, hs, fun hne => absurd rfl hne⟩
  | cons plugin loaded ih =>
    obtain ⟨s₁, hcall, hs₁, hended⟩ := hs.call (hf [] plugin loaded rfl)
    obtain ⟨s', front', hrun, hs', hended'⟩ := ih hs₁ (by
      intro before other after heq
      exact hf (plugin :: before) other after (congrArg (plugin :: ·) heq))
    refine ⟨s', front', ?_, hs', ?_⟩
    · rw [List.foldlM_cons, hcall]
      exact hrun
    · intro _
      by_cases hnil : loaded = []
      · subst hnil
        obtain rfl : s₁ = s' := Except.ok.inj hrun
        exact hended
      · exact hended' hnil

theorem foldl_remove_apply (hb : bytes ≠ []) (loaded : List Plugin) :
    loaded.reverse.foldl (fun bytes plugin => plugin.remove bytes)
      (loaded.foldl (fun bytes plugin => plugin.apply bytes) bytes) = bytes := by
  induction loaded generalizing bytes with
  | nil => rfl
  | cons plugin loaded ih =>
    rw [List.foldl_cons, List.reverse_cons, List.foldl_append, ih (plugin.apply_ne bytes hb)]
    exact plugin.remove_apply bytes hb

theorem foldl_apply_ne (hb : bytes ≠ []) (loaded : List Plugin) :
    loaded.foldl (fun bytes plugin => plugin.apply bytes) bytes ≠ [] := by
  induction loaded generalizing bytes with
  | nil => exact hb
  | cons plugin loaded ih => exact ih (plugin.apply_ne bytes hb)

theorem remove_foldl_ne (hb : bytes ≠ []) {loaded before after : List Plugin} {plugin : Plugin}
    (heq : loaded.reverse = before ++ plugin :: after) :
    plugin.remove (before.foldl (fun bytes plugin => plugin.remove bytes)
      (loaded.foldl (fun bytes plugin => plugin.apply bytes) bytes)) ≠ [] := by
  have hloaded : loaded = after.reverse ++ plugin :: before.reverse := by
    rw [← List.reverse_reverse loaded, heq]
    simp
  have hgiven := foldl_apply_ne hb after.reverse
  have hback := foldl_remove_apply (plugin.apply_ne _ hgiven) before.reverse
  rw [List.reverse_reverse] at hback
  rw [hloaded, List.foldl_append, List.foldl_cons, hback, plugin.remove_apply _ hgiven]
  exact hgiven

theorem reduceOption_reverse (pe : List (Option Plugin)) :
    pe.reverse.reduceOption = pe.reduceOption.reverse := by
  unfold List.reduceOption
  rw [List.filterMap_reverse]

theorem roundTrips_of_loaded (hb : bytes ≠ []) (hloaded : pe.reduceOption ≠ []) {origin : Origin}
    (horigin : origin ≠ .other) : RoundTrips true pe origin bytes := by
  have hstart : Settled (policyStart [(origin, bytes)] [] (some 0) bytes.length) [] bytes :=
    ⟨⟨origin, horigin, rfl⟩, rfl, rfl, rfl⟩
  obtain ⟨s, front, hrun, hs, hended⟩ := hstart.run pe.reduceOption
    (fun before plugin _ _ => plugin.apply_ne _ (foldl_apply_ne hb before))
  obtain ⟨hbuf, hsize⟩ := hended hloaded
  have hmiddle : Settled (policyStart s.memory s.released s.policyBuf s.outSize) front _ :=
    ⟨hs.memory, hs.released, hbuf.trans hs.runBuf, hsize.trans hs.inSize⟩
  obtain ⟨t, front', hrun', ht, hended'⟩ :=
    hmiddle.run pe.reduceOption.reverse (fun _ _ _ heq => remove_foldl_ne hb heq)
  obtain ⟨hbuf', hsize'⟩ := hended' (by simpa using hloaded)
  rw [foldl_remove_apply hb] at ht
  obtain ⟨origin', -, hmemory⟩ := ht.memory
  refine ⟨s, t, front'.length, ?_, ?_, hbuf'.trans ht.runBuf, hsize'.trans ht.inSize, ?_, ?_, ?_⟩
  · exact runPlugins_eq_foldlM.trans hrun
  · unfold deapplyPolicies
    rw [runPlugins_eq_foldlM, reduceOption_reverse]
    exact hrun'
  · rw [hmemory]
    simp
  · rw [ht.released]
    simp
  · intro k _ hk hne
    rw [hmemory, List.length_append, List.length_singleton] at hk
    rw [ht.released, List.count_eq_one_of_mem (List.nodup_range) (List.mem_range.mpr (by omega))]

theorem not_returns_apply (hloaded : pe.reduceOption ≠ []) (hb : bytes ≠ []) {origin : Origin}
    (hbad : ¬ (caches = true ∧ origin ≠ .other)) :
    ¬ Returns (applyPolicies caches pe
      (policyStart [(origin, bytes)] [] (some 0) bytes.length)) := by
  unfold applyPolicies
  rw [runPlugins_eq_foldlM]
  obtain ⟨plugin, loaded, heq⟩ := List.exists_cons_of_ne_nil hloaded
  let s := policyStart [(origin, bytes)] [] (some 0) bytes.length
  have hinput : s.input = .ok bytes := congrArg Except.ok (List.take_length)
  have hpos : 0 < (s.allocate (plugin.apply bytes)).outSize :=
    List.length_pos_iff.mpr (plugin.apply_ne bytes hb)
  have hrelease : ¬ Returns ((s.allocate (plugin.apply bytes)).release caches 0) := by
    unfold PolicyRun.release
    split
    · exact not_returns_error _
    · rename_i hcaches
      have hother : origin = .other := by
        by_contra hne
        exact hbad ⟨by simpa using hcaches, hne⟩
      subst hother
      exact not_returns_error _
  rw [heq, List.foldlM_cons, returns_bind]
  rintro ⟨s', hcall, -⟩
  unfold callPlugin at hcall
  change (s.input >>= _) = _ at hcall
  rw [hinput, ok_bind, if_pos hpos] at hcall
  obtain ⟨s'', hs'', -⟩ := bind_eq_ok.mp hcall
  exact hrelease ⟨s'', hs''⟩

theorem not_roundTrips_of_unloaded {origin : Origin} (hnone : pe.reduceOption = []) :
    ¬ RoundTrips caches pe origin bytes := by
  rintro ⟨s, t, i, -, hdeapply, hresult, -⟩
  unfold deapplyPolicies at hdeapply
  rw [runPlugins_eq_foldlM, reduceOption_reverse, hnone] at hdeapply
  obtain rfl := Except.ok.inj hdeapply
  cases hresult

theorem reduceOption_ne_nil_iff : pe.reduceOption ≠ [] ↔ ∃ plugin, some plugin ∈ pe := by
  constructor
  · intro hne
    obtain ⟨plugin, hplugin⟩ := List.exists_mem_of_ne_nil _ hne
    exact ⟨plugin, List.reduceOption_mem_iff.mp hplugin⟩
  · rintro ⟨plugin, hplugin⟩
    exact List.ne_nil_of_mem (List.reduceOption_mem_iff.mpr hplugin)

/-- The buffer comes back exactly if a plugin is loaded, and the first buffer has a cache or
`malloc` to go back to. -/
theorem roundTrips_iff (hb : bytes ≠ []) {origin : Origin} :
    RoundTrips caches pe origin bytes ↔
      (∃ plugin, some plugin ∈ pe) ∧ caches = true ∧ origin ≠ .other := by
  rw [← reduceOption_ne_nil_iff]
  constructor
  · intro htrip
    have hloaded : pe.reduceOption ≠ [] := by
      intro hnone
      exact not_roundTrips_of_unloaded hnone htrip
    refine ⟨hloaded, ?_⟩
    by_contra hbad
    obtain ⟨s, _, _, happly, -⟩ := htrip
    exact not_returns_apply hloaded hb hbad ⟨s, happly⟩
  · rintro ⟨hloaded, rfl, horigin⟩
    exact roundTrips_of_loaded hb hloaded horigin

end

theorem map_not_ne (bytes : Bytes) (hb : bytes ≠ []) : bytes.map (~~~·) ≠ [] := by
  rwa [Ne, List.map_eq_nil_iff]

theorem map_not_not (bytes : Bytes) (_ : bytes ≠ []) : (bytes.map (~~~·)).map (~~~·) = bytes := by
  rw [List.map_map]
  exact List.map_id'' (fun _ => BitVec.not_not) bytes

def invertBits : Plugin where
  apply bytes := bytes.map (~~~·)
  remove bytes := bytes.map (~~~·)
  apply_ne := map_not_ne
  remove_apply := map_not_not

theorem roundTrips_iff_inverted : RoundTrips true [none, some invertBits] .heap [1, 2] :=
  (roundTrips_iff (by decide)).mpr ⟨⟨invertBits, by simp⟩, rfl, by decide⟩

/-- With no plugin, or one that is not loaded, no buffer is returned and the bytes are lost. -/
theorem roundTrips_unloaded :
    applyPolicies true [] (policyStart [(.heap, [1, 2])] [] (some 0) 2) =
      .ok ⟨[(.heap, [1, 2])], [], some 0, none, 2, 0⟩ ∧
    ¬ RoundTrips true [] .heap [1, 2] ∧ ¬ RoundTrips true [none] .heap [1, 2] :=
  ⟨rfl, not_roundTrips_of_unloaded rfl, not_roundTrips_of_unloaded rfl⟩

end SeamlessStack.Sfsd
