import SeamlessStack.Policy.Table
import SeamlessStack.Validate.Elf

/-! Which files of the plugin directories get an entry in `entry_point_tab`. What the two
validations say about a file is an input. -/
namespace SeamlessStack.Policy

open Validate

def efault : ℤ := 14

/-- A file of `readdir_r`: what `sfs_elf_validate` returns, whether there is memory for its entry
points, the name `validate_plugin` finds if it accepts the file, and whether `JSLI` gives a slot. -/
structure PluginFile where
  path : List Char
  elf : VldtErr
  allocated : Bool
  pluginName : Option (List Char)
  slot : Bool
  deriving DecidableEq, Repr

namespace PluginFile

/-- What `validate_plugin` returns; it is also given the null pointer that `malloc` returned. -/
def validatePlugin (f : PluginFile) : ℤ × Option (List Char) :=
  if f.allocated = false then (-efault, none)
  else match f.pluginName with
    | none => (-einval, none)
    | some name => (0, some name)

end PluginFile

/-- The entries by name, and the files that were entered so far. -/
structure EntryPoints where
  entryPointTab : List Char → Option PluginFile
  inserted : List PluginFile

/-- The body of the loop over a directory. -/
def loadPlugin (s : EntryPoints) (f : PluginFile) : EntryPoints :=
  -- the number of `sfs_elf_validate` is taken for a truth value
  if f.elf.toInt ≠ 0 then
    match f.validatePlugin with
    | (0, some name) =>
      if f.slot then
        ⟨Function.update s.entryPointTab name (some f), s.inserted ++ [f]⟩
      else s
    | _ => s
  else s

def loadDirectory (s : EntryPoints) : Option (List PluginFile) → EntryPoints
  | none => s
  | some files => files.foldl loadPlugin s

def readLoadPlugins (dirs : List (Option (List PluginFile))) (reload : Bool)
    (tab : List Char → Option PluginFile) : EntryPoints :=
  dirs.foldl loadDirectory ⟨if reload then fun _ => none else tab, []⟩

def listed (dirs : List (Option (List PluginFile))) : List PluginFile :=
  dirs.flatMap fun dir => dir.getD []

/-- What gets an entry passed the first validation, and what passes both gets one. -/
structure LoadsRight (dirs : List (Option (List PluginFile))) (reload : Bool)
    (tab : List Char → Option PluginFile) : Prop where
  only : ∀ f ∈ (readLoadPlugins dirs reload tab).inserted, f.elf = .success
  all : ∀ f ∈ listed dirs, f.elf = .success → f.pluginName ≠ none →
    f ∈ (readLoadPlugins dirs reload tab).inserted

namespace PluginFile

def Loads (f : PluginFile) : Prop :=
  f.elf ≠ .success ∧ f.allocated = true ∧ f.pluginName ≠ none ∧ f.slot = true

instance (f : PluginFile) : Decidable f.Loads := inferInstanceAs (Decidable (_ ∧ _))

end PluginFile

theorem loadPlugin_inserted (s : EntryPoints) (f : PluginFile) :
    (loadPlugin s f).inserted = s.inserted ++ if f.Loads then [f] else [] := by
  by_cases helf : f.elf = .success
  · simp [loadPlugin, PluginFile.Loads, VldtErr.toInt_eq_zero_iff, helf]
  have hvalid : f.elf.toInt ≠ 0 := by rwa [ne_eq, VldtErr.toInt_eq_zero_iff]
  unfold loadPlugin
  rw [if_pos hvalid]
  cases hallocated : f.allocated with
  | false => simp [PluginFile.validatePlugin, PluginFile.Loads, hallocated]
  | true =>
    cases hname : f.pluginName with
    | none => simp [PluginFile.validatePlugin, PluginFile.Loads, hallocated, hname]
    | some name =>
      cases hslot : f.slot with
      | false => simp [PluginFile.validatePlugin, PluginFile.Loads, hallocated, hname, hslot]
      | true => simp [PluginFile.validatePlugin, PluginFile.Loads, helf, hallocated, hname, hslot]

theorem foldl_loadPlugin_inserted (s : EntryPoints) (files : List PluginFile) :
    (files.foldl loadPlugin s).inserted = s.inserted ++ files.filter fun f => f.Loads := by
  induction files generalizing s with
  | nil => simp
  | cons f files ih =>
    rw [List.foldl_cons, ih, loadPlugin_inserted, List.filter_cons]
    by_cases hf : f.Loads
    · simp [hf]
    · simp [hf]

theorem readLoadPlugins_inserted (dirs : List (Option (List PluginFile))) (reload : Bool)
    (tab : List Char → Option PluginFile) :
    (readLoadPlugins dirs reload tab).inserted = (listed dirs).filter fun f => f.Loads := by
  have hdirs : ∀ s : EntryPoints, (dirs.foldl loadDirectory s).inserted =
      s.inserted ++ (listed dirs).filter fun f => f.Loads := by
    induction dirs with
    | nil => simp [listed]
    | cons dir dirs ih =>
      intro s
      rw [List.foldl_cons, ih]
      cases dir with
      | none => rfl
      | some files => simp [loadDirectory, foldl_loadPlugin_inserted, listed]
  exact hdirs _

/-- Entries are right just if no file gets as far as being entered, and none passes both
validations. -/
theorem loadsRight_iff (dirs : List (Option (List PluginFile))) (reload : Bool)
    (tab : List Char → Option PluginFile) :
    LoadsRight dirs reload tab ↔ ∀ f ∈ listed dirs, f.pluginName = none ∨
      f.elf ≠ .success ∧ (f.allocated = false ∨ f.slot = false) := by
  constructor
  · intro h f hf
    have honly := h.only f
    have hall := h.all f hf
    rw [readLoadPlugins_inserted, List.mem_filter, decide_eq_true_eq] at honly hall
    by_cases hname : f.pluginName = none
    · exact .inl hname
    by_cases helf : f.elf = .success
    · exact absurd helf (hall helf hname).2.1
    refine .inr ⟨helf, ?_⟩
    by_contra hloads
    rw [not_or, Bool.not_eq_false, Bool.not_eq_false] at hloads
    exact helf (honly ⟨hf, helf, hloads.1, hname, hloads.2⟩)
  · intro h
    constructor
    · intro f hf
      rw [readLoadPlugins_inserted, List.mem_filter, decide_eq_true_eq] at hf
      obtain ⟨hlisted, -, hallocated, hname, hslot⟩ := hf
      obtain hnone | ⟨-, hfalse⟩ := h f hlisted
      · exact absurd hnone hname
      · simp [hallocated, hslot] at hfalse
    · intro f hf helf hname
      obtain hnone | ⟨hne, -⟩ := h f hf
      · exact absurd hnone hname
      · exact absurd helf hne

def forged : PluginFile := ⟨"/libforged.so".toList, .fail, true, some "forged".toList, true⟩

def genuine : PluginFile := ⟨"/libgenuine.so".toList, .success, true, some "genuine".toList, true⟩

/-- The file that was rejected is loaded, and the one that was accepted is not. -/
theorem readLoadPlugins_forged :
    (readLoadPlugins [some [forged, genuine]] false fun _ => none).inserted = [forged] ∧
      ¬ LoadsRight [some [forged, genuine]] false fun _ => none := by
  have hinserted :
      (readLoadPlugins [some [forged, genuine]] false fun _ => none).inserted = [forged] := by
    rw [readLoadPlugins_inserted]
    decide
  refine ⟨hinserted, fun h => ?_⟩
  have hforged := h.only forged
  rw [hinserted] at hforged
  exact absurd (hforged List.mem_cons_self) (by decide)

end SeamlessStack.Policy
