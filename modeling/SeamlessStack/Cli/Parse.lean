import SeamlessStack.Cli.RoundTrip
import SeamlessStack.Lib.Numerals

/-! `parse_fill_policy_input`, from the options that `getopt_long` finds, and what its strings mean
for `sfscli_serialize_policy`. -/
namespace SeamlessStack.Cli
open Lib

abbrev Arg := { s : List UInt8 // 0 ∉ s }

/-- An option with its argument; `unknown` is what `getopt_long` does not understand. -/
inductive PolicyOption
  | uid (optarg : Arg)
  | gid (optarg : Arg)
  | fname (optarg : Arg)
  | ftype (optarg : Arg)
  | quota (optarg : Arg)
  | numrep (optarg : Arg)
  | dr (optarg : Arg)
  | qos (optarg : Arg)
  | hidden (optarg : Arg)
  | plugin (optarg : Arg)
  | add
  | delete
  | list
  | index (optarg : Arg)
  | unknown

def policyAddCmd : BitVec 32 := 1
def policyDelCmd : BitVec 32 := 2
def policyShowCmd : BitVec 32 := 4

def sfscliPolicyCmd : BitVec 32 := 1

/-- `strtol_check_error_jump`. The number is cut to the size of the field. -/
def CliCmd.parseNum (c : CliCmd) (f : NumField) (optarg : Arg) : Option CliCmd :=
  match strtol (optarg.val.map fun b => Char.ofNat b.toNat) with
  | (val, []) => some (c.setNum f (BitVec.ofInt _ val))
  | (_, _ :: _) => none

theorem CharArray.strncpy_length (n : ℕ) (src : List UInt8) :
    ((src ++ List.replicate n 0).take n).length = n := by
  simp

def CharArray.strncpy {n : ℕ} (src : List UInt8) : CharArray n :=
  ⟨(src ++ List.replicate n 0).take n, strncpy_length n src⟩

def toLower (b : UInt8) : UInt8 := if 65 ≤ b ∧ b ≤ 90 then b + 32 else b

def caseEq (s : Arg) (t : String) (n : ℕ) : Bool :=
  ((s.val ++ [0]).take n).map toLower =
    ((t.toList.map (fun (c : Char) => UInt8.ofNat c.toNat) ++ [0]).take n).map toLower

def qosLevel (optarg : Arg) : Option (BitVec 8) :=
  if caseEq optarg "high" 5 then some 0
  else if caseEq optarg "medium" 6 then some 1
  else if caseEq optarg "low" 4 then some 2
  else none

theorem zero_lt_numMaxPolicy : 0 < 64 := Nat.succ_pos 63

def firstTag : StrField := .piPolicyTag ⟨0, zero_lt_numMaxPolicy⟩

/-- One turn of the loop over the options. -/
def applyOption (c : CliCmd) : PolicyOption → Option CliCmd
  | .uid optarg => c.parseNum .piUid optarg
  | .gid optarg => c.parseNum .piGid optarg
  | .fname optarg => some (c.setStr .piFname (.strncpy optarg.val))
  | .ftype optarg => some (c.setStr .piFtype (.strncpy optarg.val))
  | .quota optarg => c.parseNum .aQuota optarg
  | .numrep optarg => c.parseNum .aNumreplicas optarg
  | .dr optarg => c.parseNum .aEnableDr optarg
  | .qos optarg => (qosLevel optarg).map (c.setNum .aQoslevel)
  | .hidden optarg => c.parseNum .aIshidden optarg
  | .plugin optarg => some (c.setStr firstTag (.strncpy optarg.val))
  | .add => some (c.setNum .subCmd policyAddCmd)
  | .delete => some (c.setNum .subCmd policyDelCmd)
  | .list => some (c.setNum .subCmd policyShowCmd)
  | .index optarg => c.parseNum .piIndex optarg
  | .unknown => none

/-- `allocated` is whether `malloc` has memory for the command. -/
def parseFillPolicyInput (allocated : Bool) (options : List PolicyOption) : Option CliCmd :=
  if allocated then do
    let c ← options.foldlM applyOption ((filled false).setNum .cmd sfscliPolicyCmd)
    if c.num .subCmd = 0 then none else some c
  else none

def cliCmdSize : ℕ := 5176

/-- What `sfscli_serialize_policy` allocates, with a count of the lengths in front of fields. -/
def policyBufferSize : ℕ := cliCmdSize + 4 + 2 * (8 + 6 + 2 + 2)

/-- The strings end inside their arrays, and what is written ends inside the buffer. -/
structure SerializesSafely (M : Shifts) (c : CliCmd) : Prop where
  terminated : ∀ f, .str f ∈ policyItems → c.Terminated f
  within : (serialize M policyItems c).length ≤ policyBufferSize

/-- The argument that an option stores in a character array. -/
def PolicyOption.argOf (f : StrField) : PolicyOption → Option Arg
  | .fname optarg => if f = .piFname then some optarg else none
  | .ftype optarg => if f = .piFtype then some optarg else none
  | .plugin optarg => if f = firstTag then some optarg else none
  | _ => none

def lastArg (f : StrField) : List PolicyOption → Option Arg
  | [] => none
  | option :: options => (lastArg f options).or (option.argOf f)

section Parse
variable {c c' : CliCmd} {option : PolicyOption} {options : List PolicyOption}

theorem setStr_str (c : CliCmd) (g f : StrField) (arg : Arg) :
    (c.setStr g (.strncpy arg.val)).str f =
      ((if f = g then some arg else none).elim (c.str f) fun a => .strncpy a.val) := by
  by_cases h : f = g
  · subst h
    simp [CliCmd.setStr]
  · simp [CliCmd.setStr, h]

theorem parseNum_str {f : NumField} {arg : Arg} (h : c.parseNum f arg = some c') :
    c'.str = c.str := by
  unfold CliCmd.parseNum at h
  split at h
  · obtain rfl := Option.some.inj h
    rfl
  · cases h

/-- Each option stores its argument, if it has one for the array. -/
theorem applyOption_str (h : applyOption c option = some c') (f : StrField) :
    c'.str f = (option.argOf f).elim (c.str f) fun arg => .strncpy arg.val := by
  cases option with
  | fname optarg =>
    obtain rfl := Option.some.inj h
    exact setStr_str c .piFname f optarg
  | ftype optarg =>
    obtain rfl := Option.some.inj h
    exact setStr_str c .piFtype f optarg
  | plugin optarg =>
    obtain rfl := Option.some.inj h
    exact setStr_str c firstTag f optarg
  | qos optarg =>
    obtain ⟨level, -, rfl⟩ := Option.map_eq_some_iff.mp h
    rfl
  | add =>
    obtain rfl := Option.some.inj h
    rfl
  | delete =>
    obtain rfl := Option.some.inj h
    rfl
  | list =>
    obtain rfl := Option.some.inj h
    rfl
  | unknown => cases h
  | uid optarg | gid optarg | quota optarg | numrep optarg | dr optarg | hidden optarg
  | index optarg => exact congrFun (parseNum_str h) f

theorem foldlM_applyOption_str (h : options.foldlM applyOption c = some c') (f : StrField) :
    c'.str f = (lastArg f options).elim (c.str f) fun arg => .strncpy arg.val := by
  induction options generalizing c with
  | nil =>
    obtain rfl := Option.some.inj h
    rfl
  | cons option options ih =>
    rw [List.foldlM_cons] at h
    obtain ⟨c₁, hoption, hrest⟩ := Option.bind_eq_some_iff.mp h
    rw [ih hrest, applyOption_str hoption f, lastArg]
    cases lastArg f options with
    | none | some arg => rfl

theorem zero_mem_strncpy {n : ℕ} (arg : Arg) :
    0 ∈ (CharArray.strncpy arg.val : CharArray n).1 ↔ arg.val.length < n := by
  show 0 ∈ (arg.val ++ List.replicate n 0).take n ↔ arg.val.length < n
  rw [List.take_append, List.mem_append, List.take_replicate, List.mem_replicate]
  have hnul : 0 ∉ arg.val.take n := fun h => arg.property (List.mem_of_mem_take h)
  simp only [hnul, false_or, and_true]
  omega

theorem foldlM_of_parse {allocated : Bool} (h : parseFillPolicyInput allocated options = some c) :
    options.foldlM applyOption ((filled false).setNum .cmd sfscliPolicyCmd) = some c := by
  unfold parseFillPolicyInput at h
  split at h
  · obtain ⟨c₁, hfold, h⟩ := Option.bind_eq_some_iff.mp h
    split at h
    · cases h
    · obtain rfl := Option.some.inj h
      exact hfold
  · cases h

theorem terminated_iff {allocated : Bool} (h : parseFillPolicyInput allocated options = some c)
    {f : StrField} (hf : f ≠ .address) :
    c.Terminated f ↔ ∀ arg ∈ lastArg f options, arg.val.length < f.cap := by
  have hwhole : (c.str f).1.take (c.limit f) = (c.str f).1 := by
    rw [limit_of_ne c hf]
    exact List.take_of_length_le (c.str f).2.le
  unfold CliCmd.Terminated
  rw [hwhole, foldlM_applyOption_str (foldlM_of_parse h) f]
  cases lastArg f options with
  | none =>
    have hcap : f.cap ≠ 0 := by cases f <;> simp [StrField.cap]
    exact iff_of_true (List.mem_replicate.mpr ⟨hcap, rfl⟩) (by simp)
  | some arg => simp [zero_mem_strncpy]

end Parse

theorem serUint_length (M : Shifts) {w : ℕ} (val : BitVec w) (n : ℕ) :
    (serUint M val n).length = n := by
  simp [serUint]

def Item.room : Item → ℕ
  | .num f | .zeroed f => 2 + f.bytes
  | .str f => 2 + f.cap

theorem serItem_length_le (M : Shifts) (c : CliCmd) (item : Item) :
    (serItem M c item).length ≤ item.room := by
  cases item with
  | num f | zeroed f => simp [serItem, serNfield, serUint_length, Item.room]
  | str f =>
    have htext := (text_length_le c f).trans (limit_le c f)
    simp only [serItem, serSfield, List.length_append, serUint_length, Item.room]
    omega

theorem flatMap_serItem_length_le (M : Shifts) (c : CliCmd) (items : List Item) :
    (items.flatMap (serItem M c)).length ≤ (items.map Item.room).sum := by
  induction items with
  | nil => exact le_rfl
  | cons item items ih =>
    rw [List.flatMap_cons, List.length_append, List.map_cons, List.sum_cons]
    exact Nat.add_le_add (serItem_length_le M c item) ih

theorem serialize_length_le (M : Shifts) (c : CliCmd) (items : List Item) :
    (serialize M items c).length ≤ 4 + (items.map Item.room).sum := by
  rw [serialize, List.length_append, serUint_length]
  exact Nat.add_le_add_left (flatMap_serItem_length_le M c items) 4

theorem serialize_policy_length_le (M : Shifts) (c : CliCmd) :
    (serialize M policyItems c).length ≤ policyBufferSize := by
  have hroom : 4 + (policyItems.map Item.room).sum ≤ policyBufferSize := by decide
  exact (serialize_length_le M c policyItems).trans hroom

/-- A parsed command is serialized safely just if the last argument for each string fits. -/
theorem parse_serializesSafely_iff (M : Shifts) {allocated : Bool} {options : List PolicyOption}
    {c : CliCmd} (h : parseFillPolicyInput allocated options = some c) :
    SerializesSafely M c ↔
      ∀ f, .str f ∈ policyItems → ∀ arg ∈ lastArg f options, arg.val.length < f.cap := by
  have hne : ∀ {f}, .str f ∈ policyItems → f ≠ .address := by
    rintro f hf rfl
    exact absurd hf (by decide)
  constructor
  · intro hsafe f hf
    exact (terminated_iff h (hne hf)).mp (hsafe.terminated f hf)
  · intro hshort
    exact ⟨fun f hf => (terminated_iff h (hne hf)).mpr (hshort f hf),
      serialize_policy_length_le M c⟩

theorem zero_notMem_eight : (0 : UInt8) ∉ List.replicate 8 97 := by decide

theorem zero_notMem_seven : (0 : UInt8) ∉ List.replicate 7 97 := by decide

def eightArg : Arg := ⟨List.replicate 8 97, zero_notMem_eight⟩

def sevenArg : Arg := ⟨List.replicate 7 97, zero_notMem_seven⟩

def addedType (arg : Arg) : CliCmd :=
  (((filled false).setNum .cmd sfscliPolicyCmd).setNum .subCmd policyAddCmd).setStr .piFtype
    (.strncpy arg.val)

theorem parse_addedType (arg : Arg) :
    parseFillPolicyInput true [.add, .ftype arg] = some (addedType arg) := by
  have hcmd : ¬ (addedType arg).num .subCmd = 0 := by
    show ¬ policyAddCmd = 0
    decide
  have hfold : [.add, .ftype arg].foldlM applyOption ((filled false).setNum .cmd sfscliPolicyCmd) =
      some (addedType arg) := rfl
  unfold parseFillPolicyInput
  rw [if_pos rfl, hfold, Option.bind_eq_bind, Option.bind_some, if_neg hcmd]

theorem parse_serializesSafely_seven :
    parseFillPolicyInput true [.add, .ftype sevenArg] = some (addedType sevenArg) ∧
      SerializesSafely default (addedType sevenArg) := by
  refine ⟨parse_addedType sevenArg, ?_⟩
  rw [parse_serializesSafely_iff default (parse_addedType sevenArg)]
  intro f _ arg harg
  have hlast : lastArg f [.add, .ftype sevenArg] =
      if f = .piFtype then some sevenArg else none := by
    simp [lastArg, PolicyOption.argOf]
  rw [hlast] at harg
  split at harg
  · rename_i hf
    obtain rfl := Option.some.inj harg
    rw [hf]
    decide
  · cases harg

/-- A type of eight characters is accepted, and `strlen` reads on behind its array. -/
theorem parse_unterminated_eight :
    parseFillPolicyInput true [.add, .ftype eightArg] = some (addedType eightArg) ∧
      ¬ (addedType eightArg).Terminated .piFtype ∧
      ¬ SerializesSafely default (addedType eightArg) := by
  have hopen : ¬ (addedType eightArg).Terminated .piFtype := by
    rw [terminated_iff (parse_addedType eightArg) (by decide)]
    intro hshort
    exact absurd (hshort eightArg rfl) (by decide)
  exact ⟨parse_addedType eightArg, hopen, fun hsafe => hopen (hsafe.terminated _ (by decide))⟩

end SeamlessStack.Cli
