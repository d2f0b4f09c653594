import SeamlessStack.Lib.LeftLeaning

/-! Removal from left-leaning red-black trees. An item with a right child is replaced by the item
after it, whose node is pruned; the nodes above are mended, up to one that can make up for a black
node. `none` stands for an assertion that fails and for a rotation around a missing child. -/
namespace SeamlessStack.Lib.LeftLeaning

open RbTree

variable {α : Type}

/-- Where a node is: at the root, or how its parent leads to it. -/
inductive Place
  | root
  | left
  | right
  deriving DecidableEq, Repr

/-- The left child has become one black node short. The flag: the node has, too. -/
def evenLeft (place : Place) (c : Bool) (l : RbTree α) (x : α) :
    RbTree α → Option (RbTree α × Bool)
  | nil => none
  | r@(node ..) =>
    if l.red then none
    else if c then
      if place = .root then none
      else if r.left.red then some ((node false l x r.rightRotate).leftRotate, false)
      else some ((node true l x r).leftRotate, false)
    else
      if r.left.red then
        some ((node false l x (r.paintLeft false).rightRotate).leftRotate, false)
      else some ((node true l x r).leftRotate, true)

/-- The right child of a node has become one black node short. -/
def evenRight (place : Place) (c : Bool) (l : RbTree α) (x : α) (r : RbTree α) :
    Option (RbTree α × Bool) :=
  match l with
  | nil => none
  | node true ll y lr =>
    match lr with
    | nil => none
    | node d lrl w lrr =>
      if lrl.red then
        some (node d (node true ll y (lrl.paint false)) w (node c lrr x r), false)
      else some (node false ll y (node c (lr.paint true) x r), false)
  | node false ll y lr =>
    if c then
      if ll.red then
        if place = .root then none
        else some ((node false (node true (ll.paint false) y lr) x r).rightRotate, false)
      else some (node false (node true ll y lr) x r, false)
    else
      if ll.red then some ((node false (node false (ll.paint false) y lr) x r).rightRotate, false)
      else some (node false (node true ll y lr) x r, true)

/-- Prune the first item: the item, what is left, and whether that is one black node short. -/
def removeMin (place : Place) : RbTree α → Option (α × RbTree α × Bool)
  | nil => none
  | node c nil x _ =>
    if c then if place = .left then some (x, nil, false) else none
    else some (x, nil, true)
  | node c l@(node ..) x r =>
    match removeMin .left l with
    | none => none
    | some (y, l', false) => some (y, node c l' x r, false)
    | some (y, l', true) => (evenLeft place c l' x r).map fun (t, more) => (y, t, more)

/-- Take out the item of a node, given its children. -/
def removeHere (place : Place) (c : Bool) : RbTree α → RbTree α → Option (RbTree α × Bool)
  | nil, nil =>
    if place = .root then some (nil, false)
    else if c then if place = .left then some (nil, false) else none
    else some (nil, true)
  -- the left child takes the place of the node
  | l@(node ..), nil => if c = false ∧ l.red then some (l.paint false, false) else none
  | l, r@(node ..) =>
    match removeMin .right r with
    | none => none
    | some (y, r', false) => some (node c l y r', false)
    | some (y, r', true) => evenRight place c l y r'

def removeBelow [DecidableEq α] (cmp : α → ℤ) (z : α) (place : Place) :
    RbTree α → Option (RbTree α × Bool)
  | nil => none
  | node c l x r =>
    if cmp x < 0 then
      match removeBelow cmp z .left l with
      | none => none
      | some (l', false) => some (node c l' x r, false)
      | some (l', true) => evenLeft place c l' x r
    else if cmp x = 0 then
      if x = z then removeHere place c l r else none
    else
      match removeBelow cmp z .right r with
      | none => none
      | some (r', false) => some (node c l x r', false)
      | some (r', true) => evenRight place c l x r'

/-- Remove the item `z`, which `cmp` compares with those of the tree. -/
def remove [DecidableEq α] (cmp : α → ℤ) (z : α) (t : RbTree α) : Option (RbTree α) :=
  match removeBelow cmp z .root t with
  | none => none
  | some (t', false) => some t'
  | some (t', true) => if t'.red then none else some t'

/-- What a removal makes of `t` before the nodes above it are mended. -/
def Shrunk (t : RbTree α) (n : ℕ) : RbTree α × Bool → Prop
  | (t', false) => Leans t' n ∧ (t.red = false → t'.red = false)
  | (t', true) => ∃ m, n = m + 1 ∧ Leans t' m ∧ t'.red = false

def rise (c : Bool) (k : ℕ) : ℕ := if c then k else k + 1

variable {t l r : RbTree α} {x y : α} {c : Bool} {k m n : ℕ} {place : Place}

theorem leans_node : Leans (node c l x r) n ↔ ∃ k, n = rise c k ∧ Leans l k ∧ Leans r k ∧
    r.red = false ∧ (c = true → l.red = false) := by
  constructor
  · intro h
    cases h with
    | red hl hr hlred hrred => exact ⟨n, rfl, hl, hr, hrred, fun _ => hlred⟩
    | black hl hr hrred => exact ⟨_, rfl, hl, hr, hrred, fun hc => Bool.noConfusion hc⟩
  · rintro ⟨k, rfl, hl, hr, hrred, hlred⟩
    cases c with
    | true => exact .red hl hr (hlred rfl) hrred
    | false => exact .black hl hr hrred

theorem Leans.eq_black (h : Leans t (m + 1)) (hblack : t.red = false) :
    ∃ l x r, t = node false l x r ∧ Leans l m ∧ Leans r m ∧ r.red = false := by
  cases h with
  | red hl hr hlred hrred => cases hblack
  | black hl hr hrred => exact ⟨_, _, _, rfl, hl, hr, hrred⟩

theorem Leans.eq_red (h : Leans t m) (hred : t.red = true) :
    ∃ l x r, t = node true l x r ∧ Leans l m ∧ Leans r m ∧ l.red = false ∧ r.red = false := by
  cases h with
  | nil => cases hred
  | red hl hr hlred hrred => exact ⟨_, _, _, rfl, hl, hr, hlred, hrred⟩
  | black hl hr hrred => cases hred

theorem Leans.eq_nil (h : Leans t 0) (hblack : t.red = false) : t = RbTree.nil := by
  cases h with
  | nil => rfl
  | red hl hr hlred hrred => cases hblack

theorem red_paint_false (t : RbTree α) : (t.paint false).red = false := by
  cases t <;> rfl

/-- A node whose left child has one black node less than its right child. -/
theorem evenLeft_shrunk (hl : Leans l m) (hlred : l.red = false) (hr : Leans r (m + 1))
    (hrred : r.red = false) (hplace : place = .root → c = false) :
    ∃ t' more, evenLeft place c l x r = some (t', more) ∧
      t'.toList = l.toList ++ x :: r.toList ∧
      Shrunk (node c l x r) (rise c (m + 1)) (t', more) := by
  obtain ⟨rl, y, rr, rfl, hrl, hrr, hrrred⟩ := hr.eq_black hrred
  cases c with
  | true =>
    have hroot : place ≠ .root := fun hp => absurd (hplace hp) Bool.noConfusion
    simp only [evenLeft, hlred, Bool.false_eq_true, if_false, if_true, if_neg hroot]
    by_cases hrlred : rl.red = true
    · obtain ⟨a, w, b, rfl, ha, hb, hared, hbred⟩ := hrl.eq_red hrlred
      refine ⟨_, _, if_pos hrlred, by simp [toList], ?_, fun hc => absurd hc Bool.noConfusion⟩
      exact .red (.black hl ha hared) (.black hb hrr hrrred) rfl rfl
    · refine ⟨_, _, if_neg hrlred, by simp [toList], ?_, fun hc => absurd hc Bool.noConfusion⟩
      exact .black (.red hl hrl hlred (by simpa using hrlred)) hrr hrrred
  | false =>
    simp only [evenLeft, hlred, Bool.false_eq_true, if_false]
    by_cases hrlred : rl.red = true
    · obtain ⟨a, w, b, rfl, ha, hb, hared, hbred⟩ := hrl.eq_red hrlred
      refine ⟨_, _, if_pos hrlred, by simp [toList, paintLeft, paint], ?_, fun _ => rfl⟩
      exact .black (.black hl ha hared) (.black hb hrr hrrred) rfl
    · refine ⟨_, _, if_neg hrlred, by simp [toList], m + 1, rfl, ?_, rfl⟩
      exact .black (.red hl hrl hlred (by simpa using hrlred)) hrr hrrred

/-- A node whose right child has one black node less than its left child. -/
theorem evenRight_shrunk (hl : Leans l (m + 1)) (hcl : c = true → l.red = false)
    (hr : Leans r m) (hrred : r.red = false) (hplace : place = .root → c = false) :
    ∃ t' more, evenRight place c l x r = some (t', more) ∧
      t'.toList = l.toList ++ x :: r.toList ∧
      Shrunk (node c l x r) (rise c (m + 1)) (t', more) := by
  cases hlred : l.red with
  | true =>
    obtain ⟨ll, y, lr, rfl, hll, hlr, hllred, hlrred⟩ := hl.eq_red hlred
    obtain ⟨lrl, w, lrr, rfl, hlrl, hlrr, hlrrred⟩ := hlr.eq_black hlrred
    cases c with
    | true => exact absurd (hcl rfl) Bool.noConfusion
    | false =>
      simp only [evenRight]
      by_cases hlrlred : lrl.red = true
      · refine ⟨_, _, if_pos hlrlred, by simp [toList], ?_, fun _ => rfl⟩
        exact .black (.red hll (hlrl.paint_false hlrlred) hllred (red_paint_false lrl))
          (.black hlrr hr hrred) rfl
      · refine ⟨_, _, if_neg hlrlred, by simp [toList], ?_, fun _ => rfl⟩
        exact .black hll (.black (.red hlrl hlrr (by simpa using hlrlred) hlrrred) hr hrred) rfl
  | false =>
    obtain ⟨ll, y, lr, rfl, hll, hlr, hlrred⟩ := hl.eq_black hlred
    cases c with
    | true =>
      have hroot : place ≠ .root := fun hp => absurd (hplace hp) Bool.noConfusion
      simp only [evenRight, if_true, if_neg hroot]
      by_cases hllred : ll.red = true
      · refine ⟨_, _, if_pos hllred, by simp [toList], ?_, fun hc => absurd hc Bool.noConfusion⟩
        exact .red (hll.paint_false hllred) (.black hlr hr hrred) (red_paint_false ll) rfl
      · refine ⟨_, _, if_neg hllred, by simp [toList], ?_, fun hc => absurd hc Bool.noConfusion⟩
        exact .black (.red hll hlr (by simpa using hllred) hlrred) hr hrred
    | false =>
      simp only [evenRight, Bool.false_eq_true, if_false]
      by_cases hllred : ll.red = true
      · refine ⟨_, _, if_pos hllred, by simp [toList], ?_, fun _ => rfl⟩
        exact .black (hll.paint_false hllred) (.black hlr hr hrred) rfl
      · refine ⟨_, _, if_neg hllred, by simp [toList], m + 1, rfl, ?_, rfl⟩
        exact .black (.red hll hlr (by simpa using hllred) hlrred) hr hrred

theorem Shrunk.congr {t u : RbTree α} {result : RbTree α × Bool} (h : Shrunk t n result)
    (hred : u.red = t.red) : Shrunk u n result := by
  obtain ⟨t', more⟩ := result
  cases more with
  | false => exact ⟨h.1, fun hu => h.2 (hred ▸ hu)⟩
  | true => exact h

/-- What is done at a node when its left child has become `l'`. -/
theorem climbLeft {l' : RbTree α} {more : Bool} (hl' : Shrunk l k (l', more)) (hr : Leans r k)
    (hrred : r.red = false) (hcl : c = true → l.red = false) (hplace : place = .root → c = false) :
    ∃ t' more', (match more with
        | false => some (node c l' x r, false)
        | true => evenLeft place c l' x r) = some (t', more') ∧
      t'.toList = l'.toList ++ x :: r.toList ∧ Shrunk (node c l x r) (rise c k) (t', more') := by
  cases more with
  | false =>
    obtain ⟨hleans, hblack⟩ := hl'
    refine ⟨node c l' x r, false, rfl, rfl, ?_, fun hc => hc⟩
    exact leans_node.mpr ⟨k, rfl, hleans, hr, hrred, fun hc => hblack (hcl hc)⟩
  | true =>
    obtain ⟨m, rfl, hleans, hblack⟩ := hl'
    obtain ⟨t', more', heven, hlist, hshrunk⟩ :=
      evenLeft_shrunk (x := x) hleans hblack hr hrred hplace
    exact ⟨t', more', heven, hlist, hshrunk.congr rfl⟩

/-- What is done at a node when its right child has become `r'`. -/
theorem climbRight {r' : RbTree α} {more : Bool} (hl : Leans l k) (hr' : Shrunk r k (r', more))
    (hrred : r.red = false) (hcl : c = true → l.red = false) (hplace : place = .root → c = false) :
    ∃ t' more', (match more with
        | false => some (node c l y r', false)
        | true => evenRight place c l y r') = some (t', more') ∧
      t'.toList = l.toList ++ y :: r'.toList ∧ Shrunk (node c l x r) (rise c k) (t', more') := by
  cases more with
  | false =>
    obtain ⟨hleans, hblack⟩ := hr'
    refine ⟨node c l y r', false, rfl, rfl, ?_, fun hc => hc⟩
    exact leans_node.mpr ⟨k, rfl, hl, hleans, hblack hrred, hcl⟩
  | true =>
    obtain ⟨m, rfl, hleans, hblack⟩ := hr'
    obtain ⟨t', more', heven, hlist, hshrunk⟩ :=
      evenRight_shrunk (x := y) hl hcl hleans hblack hplace
    exact ⟨t', more', heven, hlist, hshrunk.congr rfl⟩

theorem removeMin_spec (h : Leans t n) (hne : t ≠ nil) (hplace : place ≠ .left → t.red = false) :
    ∃ y t' more, removeMin place t = some (y, t', more) ∧ t.toList = y :: t'.toList ∧
      Shrunk t n (t', more) := by
  induction t generalizing n place with
  | nil => exact absurd rfl hne
  | node c l x r ihl ihr =>
    obtain ⟨k, rfl, hl, hr, hrred, hcl⟩ := leans_node.mp h
    cases l with
    | nil =>
      cases hl
      obtain rfl := hr.eq_nil hrred
      cases c with
      | true =>
        have hleft : place = .left := by
          by_contra hp
          exact absurd (hplace hp) Bool.noConfusion
        exact ⟨x, nil, false, by simp [removeMin, hleft], rfl, .nil, fun _ => rfl⟩
      | false => exact ⟨x, nil, true, by simp [removeMin], rfl, 0, rfl, .nil, rfl⟩
    | node cl ll xl lr =>
      obtain ⟨y, l', more, hmin, hlist, hshrunk⟩ :=
        ihl hl (by simp) (fun hp : Place.left ≠ .left => absurd rfl hp)
      obtain ⟨t', more', hclimb, hlist', hshrunk'⟩ := climbLeft (x := x)
        hshrunk hr hrred hcl (fun hp : place = .root => hplace (by simp [hp]))
      refine ⟨y, t', more', ?_, ?_, hshrunk'⟩
      · rw [removeMin, hmin]
        cases more with
        | false =>
          cases hclimb
          rfl
        | true => simp only [hclimb, Option.map_some]
      · rw [toList, hlist, hlist', List.cons_append]

/-- The item of a node is taken out, and the others stay in their order. -/
theorem removeHere_spec (h : Leans (node c l x r) n) (hplace : place ≠ .left → c = false) :
    ∃ t' more, removeHere place c l r = some (t', more) ∧ t'.toList = l.toList ++ r.toList ∧
      (Shrunk (node c l x r) n (t', more) ∨ place = .root ∧ t' = nil ∧ more = false) := by
  obtain ⟨k, rfl, hl, hr, hrred, hcl⟩ := leans_node.mp h
  cases r with
  | nil =>
    cases hr
    cases l with
    | nil =>
      cases c with
      | true =>
        have hleft : place = .left := by
          by_contra hp
          exact absurd (hplace hp) Bool.noConfusion
        exact ⟨nil, false, by simp [removeHere, hleft], rfl, .inl ⟨.nil, fun _ => rfl⟩⟩
      | false =>
        by_cases hroot : place = .root
        · exact ⟨nil, false, by simp [removeHere, hroot], rfl, .inr ⟨hroot, rfl, rfl⟩⟩
        · exact ⟨nil, true, by simp [removeHere, hroot], rfl, .inl ⟨0, rfl, .nil, rfl⟩⟩
    | node cl ll xl lr =>
      -- the left child is red and has no children
      cases hl with
      | red hll hlr hllred hlrred =>
        cases c with
        | true => exact absurd (hcl rfl) Bool.noConfusion
        | false =>
          refine ⟨(node true ll xl lr).paint false, false, ?_, by simp [toList], .inl ⟨?_, ?_⟩⟩
          · simp [removeHere, RbTree.red]
          · exact .black hll hlr hlrred
          · exact fun _ => rfl
  | node cr rl xr rr =>
    obtain ⟨y, r', more, hmin, hlist, hshrunk⟩ :=
      removeMin_spec hr (by simp) (fun _ : Place.right ≠ .left => hrred)
    obtain ⟨t', more', hclimb, hlist', hshrunk'⟩ := climbRight (x := x) (y := y)
      hl hshrunk hrred hcl (fun hp : place = .root => hplace (by simp [hp]))
    refine ⟨t', more', ?_, by rw [hlist', hlist], .inl hshrunk'⟩
    rw [← hclimb]
    cases l <;> cases more <;> simp only [removeHere, hmin]

section Order
variable {κ : Type} [LinearOrder κ] {key : α → κ} {cmp : α → ℤ} {z : α}

theorem Sorted.mem_node (hsorted : Sorted key (node c l x r))
    (hcmp : Compares key (key z) cmp (node c l x r)) (hz : z ∈ (node c l x r).toList) :
    cmp x < 0 ∧ z ∈ l.toList ∨ cmp x = 0 ∧ x = z ∨ ¬ cmp x < 0 ∧ ¬ cmp x = 0 ∧ z ∈ r.toList := by
  obtain ⟨-, -, hlx, hxr⟩ := sorted_node.mp hsorted
  obtain ⟨hlt, heq⟩ := hcmp.item
  have hmem : z ∈ l.toList ∨ z = x ∨ z ∈ r.toList := by simpa [toList] using hz
  obtain hz | rfl | hz := hmem
  · exact .inl ⟨hlt.mpr (hlx z hz), hz⟩
  · exact .inr (.inl ⟨heq.mpr rfl, rfl⟩)
  · have hbelow := hxr z hz
    exact .inr (.inr ⟨mt hlt.mp hbelow.not_gt, mt heq.mp hbelow.ne', hz⟩)

variable [DecidableEq α]

theorem removeBelow_spec (h : Leans t n) (hplace : place ≠ .left → t.red = false)
    (hsorted : Sorted key t) (hcmp : Compares key (key z) cmp t) (hz : z ∈ t.toList) :
    ∃ t' more, removeBelow cmp z place t = some (t', more) ∧
      (∃ before after, t.toList = before ++ z :: after ∧ t'.toList = before ++ after) ∧
      (Shrunk t n (t', more) ∨ place = .root ∧ t' = nil ∧ more = false) := by
  induction t generalizing n place with
  | nil => simp [toList] at hz
  | node c l x r ihl ihr =>
    obtain ⟨k, rfl, hl, hr, hrred, hcl⟩ := leans_node.mp h
    obtain ⟨hsl, hsr, -, -⟩ := sorted_node.mp hsorted
    have hroot : place = .root → c = false := fun hp => hplace (by simp [hp])
    rw [removeBelow]
    obtain ⟨hneg, hz⟩ | ⟨hzero, rfl⟩ | ⟨hneg, hzero, hz⟩ := hsorted.mem_node hcmp hz
    · obtain ⟨l', more, hbelow, ⟨before, after, hlist, hlist'⟩, hshrunk | ⟨hp, -⟩⟩ :=
        ihl hl (fun hp : Place.left ≠ .left => absurd rfl hp) hsl hcmp.left hz
      · obtain ⟨t', more', hclimb, hmended, hshrunk'⟩ :=
          climbLeft (x := x) hshrunk hr hrred hcl hroot
        refine ⟨t', more', ?_, ⟨before, after ++ x :: r.toList, ?_, ?_⟩, .inl hshrunk'⟩
        · rw [if_pos hneg, hbelow, ← hclimb]
          cases more <;> rfl
        · simp [toList, hlist]
        · simp [hmended, hlist']
      · cases hp
    · obtain ⟨t', more, hhere, hlist, hshrunk⟩ := removeHere_spec h hplace
      refine ⟨t', more, ?_, ⟨l.toList, r.toList, rfl, hlist⟩, hshrunk⟩
      rw [if_neg (by omega), if_pos hzero, if_pos rfl, hhere]
    · obtain ⟨r', more, hbelow, ⟨before, after, hlist, hlist'⟩, hshrunk | ⟨hp, -⟩⟩ :=
        ihr hr (fun _ : Place.right ≠ .left => hrred) hsr hcmp.right hz
      · obtain ⟨t', more', hclimb, hmended, hshrunk'⟩ :=
          climbRight (x := x) (y := x) hl hshrunk hrred hcl hroot
        refine ⟨t', more', ?_, ⟨l.toList ++ x :: before, after, ?_, ?_⟩, .inl hshrunk'⟩
        · rw [if_neg hneg, if_neg hzero, hbelow, ← hclimb]
          cases more <;> rfl
        · simp [toList, hlist]
        · simp [hmended, hlist']
      · cases hp

/-- Only the item leaves the tree, and the tree leans as before. -/
theorem remove_spec (h : Leans t n) (hblack : t.red = false) (hsorted : Sorted key t)
    (hcmp : Compares key (key z) cmp t) (hz : z ∈ t.toList) :
    ∃ t', remove cmp z t = some t' ∧ (∃ m, Leans t' m) ∧ t'.red = false ∧
      ∃ before after, t.toList = before ++ z :: after ∧ t'.toList = before ++ after := by
  obtain ⟨t', more, hbelow, hlist, hshrunk⟩ :=
    removeBelow_spec h (fun _ : Place.root ≠ .left => hblack) hsorted hcmp hz
  have hleans : (∃ m, Leans t' m) ∧ t'.red = false := by
    obtain hshrunk | ⟨-, rfl, -⟩ := hshrunk
    · cases more with
      | false => exact ⟨⟨n, hshrunk.1⟩, hshrunk.2 hblack⟩
      | true =>
        obtain ⟨m, -, hleans, hred⟩ := hshrunk
        exact ⟨⟨m, hleans⟩, hred⟩
    · exact ⟨⟨0, .nil⟩, rfl⟩
  refine ⟨t', ?_, hleans.1, hleans.2, hlist⟩
  rw [remove, hbelow]
  cases more with
  | false => rfl
  | true => simp [hleans.2]

/-- A tree that insertions and removals have made. -/
structure Kept (key : α → κ) (t : RbTree α) : Prop where
  leans : ∃ n, Leans t n
  black : t.red = false
  sorted : Sorted key t

omit [DecidableEq α] in
theorem kept_nil (key : α → κ) : Kept key nil := ⟨⟨0, .nil⟩, rfl, List.Pairwise.nil⟩

omit [DecidableEq α] in
theorem Kept.insert (h : Kept key t) (hcmp : Compares key (key z) cmp t)
    (hnew : ∀ x ∈ t.toList, key x ≠ key z) : Kept key (insert cmp z t) := by
  obtain ⟨n, hn⟩ := h.leans
  obtain ⟨hleans, hblack⟩ := insert_leans cmp z hn h.black
  exact ⟨hleans, hblack, insert_sorted h.sorted hcmp hnew⟩

theorem Kept.remove (h : Kept key t) (hcmp : Compares key (key z) cmp t) (hz : z ∈ t.toList) :
    ∃ t', remove cmp z t = some t' ∧ Kept key t' ∧
      ∀ x, x ∈ t'.toList ↔ x ∈ t.toList ∧ key x ≠ key z := by
  obtain ⟨n, hn⟩ := h.leans
  obtain ⟨t', hremove, hleans, hblack, before, after, hlist, hlist'⟩ :=
    remove_spec hn h.black h.sorted hcmp hz
  have hsorted := h.sorted
  rw [Sorted, hlist, List.pairwise_append, List.pairwise_cons] at hsorted
  obtain ⟨hbefore, ⟨hzafter, hafter⟩, hacross⟩ := hsorted
  refine ⟨t', hremove, ⟨hleans, hblack, ?_⟩, ?_⟩
  · rw [Sorted, hlist', List.pairwise_append]
    exact ⟨hbefore, hafter, fun a ha b hb => hacross a ha b (List.mem_cons_of_mem z hb)⟩
  · -- no other item has the key of `z`
    intro x
    rw [hlist, hlist']
    simp only [List.mem_append, List.mem_cons]
    constructor
    · rintro (hx | hx)
      · exact ⟨.inl hx, (hacross x hx z List.mem_cons_self).ne⟩
      · exact ⟨.inr (.inr hx), (hzafter x hx).ne'⟩
    · rintro ⟨hx | rfl | hx, hne⟩
      · exact .inl hx
      · exact absurd rfl hne
      · exact .inr hx

end Order

section Depth

def minPath : RbTree α → ℕ
  | nil => 1
  | node _ l _ _ => minPath l + 1

/-- How many nodes a removal notes on its way down, the missing one at the end included. -/
def removePath (cmp : α → ℤ) : RbTree α → ℕ
  | nil => 1
  | node _ l x r =>
    if cmp x < 0 then removePath cmp l + 1
    else if cmp x = 0 then minPath r + 1
    else removePath cmp r + 1

theorem minPath_le (t : RbTree α) : minPath t ≤ height t + 1 := by
  induction t with
  | nil => simp [minPath]
  | node c l x r ihl ihr =>
    rw [minPath, height]
    omega

theorem removePath_le (cmp : α → ℤ) (t : RbTree α) : removePath cmp t ≤ height t + 1 := by
  induction t with
  | nil => simp [removePath]
  | node c l x r ihl ihr =>
    have hmin := minPath_le r
    rw [removePath, height]
    split_ifs <;> omega

theorem Kept.paths_le {κ : Type} [LinearOrder κ] {key : α → κ} {b : ℕ} (h : Kept key t)
    (hlength : t.toList.length + 1 < 2 ^ (b + 1)) (cmp : α → ℤ) :
    insertPath cmp t ≤ 2 * b + 1 ∧ removePath cmp t ≤ 2 * b + 1 := by
  obtain ⟨n, hn⟩ := h.leans
  have hheight := hn.height_le_of_length_lt h.black hlength
  have hinsert := insertPath_le cmp t
  have hremove := removePath_le cmp t
  omega

end Depth

end SeamlessStack.Lib.LeftLeaning
