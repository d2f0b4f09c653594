import SeamlessStack.Lib.RedBlack

/-! Left-leaning red-black trees. An insertion goes down by the order and mends the nodes on the way
back up until one needs no mending. -/
namespace SeamlessStack.Lib.LeftLeaning

open RbTree

variable {α : Type}

def search (cmp : α → ℤ) : RbTree α → Option α
  | nil => none
  | node _ l x r =>
    if cmp x = 0 then some x else if cmp x < 0 then search cmp l else search cmp r

/-- A node with a new left child. The flag says whether its parent has to be mended, too. -/
def mendLeft (c : Bool) (l : RbTree α) (x : α) (r : RbTree α) : RbTree α × Bool :=
  if l.red then
    -- a node with two red ones below it on the left is split
    if l.left.red then ((node c (l.paintLeft false) x r).rightRotate, true)
    else (node c l x r, true)
  else (node c l x r, false)

/-- A node with a new right child, which may be red only for the moment. -/
def mendRight (c : Bool) (l : RbTree α) (x : α) (r : RbTree α) : RbTree α × Bool :=
  if r.red then
    if l.red then (node true (l.paint false) x (r.paint false), true)
    else ((node true l x r).leftRotate.paint c, true)
  else (node c l x r, false)

def insertBelow (cmp : α → ℤ) (z : α) : RbTree α → RbTree α × Bool
  | nil => (node true nil z nil, true)
  | node c l x r =>
    if cmp x < 0 then
      match insertBelow cmp z l with
      | (l', true) => mendLeft c l' x r
      | (l', false) => (node c l' x r, false)
    else
      match insertBelow cmp z r with
      | (r', true) => mendRight c l x r'
      | (r', false) => (node c l x r', false)

def insert (cmp : α → ℤ) (z : α) (t : RbTree α) : RbTree α :=
  match insertBelow cmp z t with
  | (t', true) => t'.paint false
  | (t', false) => t'

def insertNew (cmp : α → ℤ) (z : α) (t : RbTree α) : Option (RbTree α) :=
  if (search cmp t).isSome then none else some (insert cmp z t)

theorem search_eq_none {cmp : α → ℤ} (h : ∀ x, cmp x ≠ 0) (t : RbTree α) : search cmp t = none := by
  induction t with
  | nil => rfl
  | node c l x r hl hr =>
    rw [search, if_neg (h x)]
    split
    · exact hl
    · exact hr

theorem toList_mendLeft (c : Bool) (l : RbTree α) (x : α) (r : RbTree α) :
    (mendLeft c l x r).1.toList = l.toList ++ x :: r.toList := by
  unfold mendLeft
  split_ifs <;> simp [toList]

theorem toList_mendRight (c : Bool) (l : RbTree α) (x : α) (r : RbTree α) :
    (mendRight c l x r).1.toList = l.toList ++ x :: r.toList := by
  unfold mendRight
  split_ifs <;> simp [toList]

/-- One more item, at a place that depends on the order. -/
theorem insertBelow_perm (cmp : α → ℤ) (z : α) (t : RbTree α) :
    (insertBelow cmp z t).1.toList.Perm (z :: t.toList) := by
  induction t with
  | nil => exact List.Perm.refl _
  | node c l x r hl hr =>
    have hleft : ∀ l' : RbTree α, l'.toList.Perm (z :: l.toList) →
        (l'.toList ++ x :: r.toList).Perm (z :: (l.toList ++ x :: r.toList)) := by
      intro l' h
      exact h.append_right _
    have hright : ∀ r' : RbTree α, r'.toList.Perm (z :: r.toList) →
        (l.toList ++ x :: r'.toList).Perm (z :: (l.toList ++ x :: r.toList)) := by
      intro r' h
      have hmoved : (x :: r'.toList).Perm (z :: x :: r.toList) :=
        (h.cons x).trans (List.Perm.swap z x r.toList)
      exact (hmoved.append_left l.toList).trans List.perm_middle
    rw [insertBelow, toList]
    split
    · split
      · rename_i l' hl'
        rw [hl'] at hl
        rw [toList_mendLeft]
        exact hleft l' hl
      · rename_i l' hl'
        rw [hl'] at hl
        exact hleft l' hl
    · split
      · rename_i r' hr'
        rw [hr'] at hr
        rw [toList_mendRight]
        exact hright r' hr
      · rename_i r' hr'
        rw [hr'] at hr
        exact hright r' hr

theorem insert_perm (cmp : α → ℤ) (z : α) (t : RbTree α) :
    (insert cmp z t).toList.Perm (z :: t.toList) := by
  have h := insertBelow_perm cmp z t
  unfold insert
  split
  · rename_i t' ht'
    rw [ht'] at h
    simpa using h
  · rename_i t' ht'
    rw [ht'] at h
    exact h

section Placed
variable {r : α → α → Prop} [DecidableRel r] {cmp : α → ℤ} {x z : α}

theorem orderedInsert_append_of_rel (hx : r z x) (a b : List α) :
    (a ++ x :: b).orderedInsert r z = a.orderedInsert r z ++ x :: b := by
  induction a with
  | nil => simp [hx]
  | cons y a ih =>
    by_cases hy : r z y
    · simp [hy]
    · simp [hy, ih]

theorem orderedInsert_append_of_forall_not {a : List α} (ha : ∀ y ∈ a, ¬ r z y) (b : List α) :
    (a ++ b).orderedInsert r z = a ++ b.orderedInsert r z := by
  induction a with
  | nil => rfl
  | cons y a ih =>
    rw [List.cons_append, List.orderedInsert_of_not_le r _ (ha y List.mem_cons_self),
      ih fun y' hy' => ha y' (List.mem_cons_of_mem y hy'), List.cons_append]

variable [IsTrans α r]

/-- A new item is put in front of the first one that it is in relation to. -/
theorem toList_insertBelow {t : RbTree α} (hcmp : ∀ x ∈ t.toList, cmp x < 0 ↔ r z x)
    (hsorted : t.toList.Pairwise r) :
    (insertBelow cmp z t).1.toList = t.toList.orderedInsert r z := by
  induction t with
  | nil => rfl
  | node c l x u hl hu =>
    rw [toList, List.pairwise_append, List.pairwise_cons] at hsorted
    obtain ⟨hleft, ⟨-, hright⟩, hcross⟩ := hsorted
    have hl := hl (fun y hy => hcmp y (by simp [toList, hy])) hleft
    have hu := hu (fun y hy => hcmp y (by simp [toList, hy])) hright
    have hx : cmp x < 0 ↔ r z x := hcmp x (by simp [toList])
    rw [insertBelow, toList]
    split
    next hneg =>
      rw [orderedInsert_append_of_rel (hx.mp hneg), ← hl]
      split
      next l' hl' => rw [toList_mendLeft, hl']
      next l' hl' => rw [toList, hl']
    next hneg =>
      have hnot : ¬ r z x := mt hx.mpr hneg
      have hbefore : ∀ y ∈ l.toList, ¬ r z y := fun y hy hzy =>
        hnot (trans_of r hzy (hcross y hy x List.mem_cons_self))
      rw [orderedInsert_append_of_forall_not hbefore, List.orderedInsert_of_not_le r _ hnot, ← hu]
      split
      next u' hu' => rw [toList_mendRight, hu']
      next u' hu' => rw [toList, hu']

theorem toList_insert {t : RbTree α} (hcmp : ∀ x ∈ t.toList, cmp x < 0 ↔ r z x)
    (hsorted : t.toList.Pairwise r) :
    (insert cmp z t).toList = t.toList.orderedInsert r z := by
  rw [← toList_insertBelow hcmp hsorted, insert]
  split
  next t' ht' => rw [ht', toList_paint]
  next t' ht' => rw [ht']

end Placed

/-- Red nodes are left children of black ones or the root; each way down has `n` black nodes. -/
inductive Leans : RbTree α → ℕ → Prop
  | nil : Leans nil 0
  | red {l r : RbTree α} {x : α} {n : ℕ} (hl : Leans l n) (hr : Leans r n)
      (hlred : l.red = false) (hrred : r.red = false) : Leans (node true l x r) n
  | black {l r : RbTree α} {x : α} {n : ℕ} (hl : Leans l n) (hr : Leans r n)
      (hrred : r.red = false) : Leans (node false l x r) (n + 1)

variable {t l r : RbTree α} {x : α} {c : Bool} {n : ℕ}

theorem Leans.paint_false (h : Leans t n) (hred : t.red = true) :
    Leans (t.paint false) (n + 1) := by
  cases h with
  | nil => cases hred
  | red hl hr hlred hrred => exact .black hl hr hrred
  | black hl hr hrred => cases hred

theorem Leans.left_black (h : Leans t n) (hred : t.red = true) : t.left.red = false := by
  cases h with
  | nil => rfl
  | red hl hr hlred hrred => exact hlred
  | black hl hr hrred => cases hred

/-- What an insertion makes of `t` before mending: a red node may have a red left child. -/
def Grown (t : RbTree α) (n : ℕ) : RbTree α × Bool → Prop
  | (t', false) => Leans t' n ∧ t'.red = t.red
  | (t', true) => t.red = false ∧ Leans t' n ∨
      t.red = true ∧ ∃ l x r, t' = node true l x r ∧ Leans l n ∧ Leans r n ∧ r.red = false

theorem mendLeft_grown {l' : RbTree α} (h : Leans (node c l x r) n)
    (hgrown : ∀ m, Leans l m → Grown l m (l', true)) :
    Grown (node c l x r) n (mendLeft c l' x r) := by
  unfold mendLeft
  cases h with
  | red hl hr hlred hrred =>
    obtain ⟨-, hl'⟩ | ⟨hl2, -⟩ := hgrown n hl
    · split_ifs with hred hleft
      · rw [hl'.left_black hred] at hleft
        cases hleft
      · exact .inr ⟨rfl, l', x, r, rfl, hl', hr, hrred⟩
      · exact ⟨.red hl' hr (by simpa using hred) hrred, rfl⟩
    · rw [hlred] at hl2
      cases hl2
  | black hl hr hrred =>
    obtain ⟨-, hl'⟩ | ⟨-, ll, y, lr, rfl, hll, hlr, hlrred⟩ := hgrown _ hl
    · split_ifs with hred hleft
      · rw [hl'.left_black hred] at hleft
        cases hleft
      · exact .inl ⟨rfl, .black hl' hr hrred⟩
      · exact ⟨.black hl' hr hrred, rfl⟩
    · rw [if_pos (by rfl)]
      by_cases hleft : ll.red = true
      · rw [if_pos (by exact hleft)]
        have hblack : (ll.paint false).red = false := by cases ll <;> rfl
        exact .inl ⟨rfl, .red (hll.paint_false hleft) (.black hlr hr hrred) hblack rfl⟩
      · rw [if_neg (by exact hleft)]
        exact .inl ⟨rfl, .black (.red hll hlr (by simpa using hleft) hlrred) hr hrred⟩

theorem mendRight_grown {r' : RbTree α} (h : Leans (node c l x r) n)
    (hgrown : ∀ m, Leans r m → Grown r m (r', true)) :
    Grown (node c l x r) n (mendRight c l x r') := by
  have hpaint : ∀ u : RbTree α, (u.paint false).red = false := by
    intro u
    cases u <;> rfl
  -- the right child was black, so that it may have become red but leans as it should
  have hright : ∀ m, r.red = false → Leans r m → Leans r' m := by
    intro m hblack hr
    obtain ⟨-, hr'⟩ | ⟨hred, -⟩ := hgrown m hr
    · exact hr'
    · rw [hblack] at hred
      cases hred
  unfold mendRight
  cases h with
  | red hl hr hlred hrred =>
    have hr' := hright n hrred hr
    rw [hlred, if_neg Bool.false_ne_true]
    split_ifs with hred
    · cases hr' with
      | nil => cases hred
      | red hrl hrr hrlred hrrred =>
        exact .inr ⟨rfl, _, _, _, rfl, .red hl hrl hlred hrlred, hrr, hrrred⟩
      | black hrl hrr hrrred => cases hred
    · exact ⟨.red hl hr' hlred (by simpa using hred), rfl⟩
  | black hl hr hrred =>
    have hr' := hright _ hrred hr
    split_ifs with hred hlred
    · exact .inl ⟨rfl, .red (hl.paint_false hlred) (hr'.paint_false hred) (hpaint l) (hpaint r')⟩
    · cases hr' with
      | nil => cases hred
      | red hrl hrr hrlred hrrred =>
        exact .inl ⟨rfl, .black (.red hl hrl (by simpa using hlred) hrlred) hrr hrrred⟩
      | black hrl hrr hrrred => cases hred
    · exact ⟨.black hl hr' (by simpa using hred), rfl⟩

theorem insertBelow_grown (cmp : α → ℤ) (z : α) (t : RbTree α) :
    ∀ n, Leans t n → Grown t n (insertBelow cmp z t) := by
  induction t with
  | nil =>
    intro n h
    cases h
    exact .inl ⟨rfl, .red .nil .nil rfl rfl⟩
  | node c l x r ihl ihr =>
    intro n h
    rw [insertBelow]
    split
    · split
      · rename_i l' hl'
        exact mendLeft_grown h (hl' ▸ ihl)
      · rename_i l' hl'
        rw [hl'] at ihl
        cases h with
        | red hl hr hlred hrred =>
          obtain ⟨hleans, hcolour⟩ := ihl _ hl
          exact ⟨.red hleans hr (hcolour.trans hlred) hrred, rfl⟩
        | black hl hr hrred => exact ⟨.black (ihl _ hl).1 hr hrred, rfl⟩
    · split
      · rename_i r' hr'
        exact mendRight_grown h (hr' ▸ ihr)
      · rename_i r' hr'
        rw [hr'] at ihr
        cases h with
        | red hl hr hlred hrred =>
          obtain ⟨hleans, hcolour⟩ := ihr _ hr
          exact ⟨.red hl hleans hlred (hcolour.trans hrred), rfl⟩
        | black hl hr hrred =>
          obtain ⟨hleans, hcolour⟩ := ihr _ hr
          exact ⟨.black hl hleans (hcolour.trans hrred), rfl⟩

theorem insert_leans (cmp : α → ℤ) (z : α) (h : Leans t n) (hblack : t.red = false) :
    (∃ m, Leans (insert cmp z t) m) ∧ (insert cmp z t).red = false := by
  have hgrown := insertBelow_grown cmp z t n h
  unfold insert
  split
  · rename_i t' ht'
    rw [ht'] at hgrown
    obtain ⟨-, hleans⟩ | ⟨hred, -⟩ := hgrown
    · cases hleans with
      | nil => exact ⟨⟨0, .nil⟩, rfl⟩
      | red hl hr hlred hrred | black hl hr hrred => exact ⟨⟨_, .black hl hr hrred⟩, rfl⟩
    · rw [hblack] at hred
      cases hred
  · rename_i t' ht'
    rw [ht'] at hgrown
    exact ⟨⟨n, hgrown.1⟩, hgrown.2.trans hblack⟩

section Order
variable {κ : Type} [LinearOrder κ]

def Sorted (key : α → κ) (t : RbTree α) : Prop := t.toList.Pairwise fun a b => key a < key b

def Compares (key : α → κ) (k : κ) (cmp : α → ℤ) (t : RbTree α) : Prop :=
  ∀ x ∈ t.toList, (cmp x < 0 ↔ k < key x) ∧ (cmp x = 0 ↔ k = key x)

variable {key : α → κ} {k : κ} {cmp : α → ℤ} {z : α}

theorem sorted_node : Sorted key (node c l x r) ↔ Sorted key l ∧ Sorted key r ∧
    (∀ a ∈ l.toList, key a < key x) ∧ ∀ b ∈ r.toList, key x < key b := by
  unfold Sorted
  rw [toList, List.pairwise_append, List.pairwise_cons]
  constructor
  · rintro ⟨hl, ⟨hxr, hr⟩, hacross⟩
    exact ⟨hl, hr, fun a ha => hacross a ha x List.mem_cons_self, hxr⟩
  · rintro ⟨hl, hr, hlx, hxr⟩
    refine ⟨hl, ⟨hxr, hr⟩, fun a ha b hb => ?_⟩
    obtain rfl | hb := List.mem_cons.mp hb
    · exact hlx a ha
    · exact (hlx a ha).trans (hxr b hb)

theorem Compares.left (h : Compares key k cmp (node c l x r)) : Compares key k cmp l :=
  fun a ha => h a (by simp [toList, ha])

theorem Compares.right (h : Compares key k cmp (node c l x r)) : Compares key k cmp r :=
  fun b hb => h b (by simp [toList, hb])

theorem Compares.item (h : Compares key k cmp (node c l x r)) :
    (cmp x < 0 ↔ k < key x) ∧ (cmp x = 0 ↔ k = key x) :=
  h x (by simp [toList])

theorem Compares.lt_of_not (h : Compares key k cmp (node c l x r)) (hzero : ¬ cmp x = 0)
    (hneg : ¬ cmp x < 0) : key x < k := by
  obtain ⟨hlt, heq⟩ := h.item
  exact lt_of_le_of_ne (not_lt.mp (mt hlt.mpr hneg)) (Ne.symm (mt heq.mpr hzero))

theorem search_eq_some_iff (hsorted : Sorted key t) (hcmp : Compares key k cmp t) :
    search cmp t = some x ↔ x ∈ t.toList ∧ key x = k := by
  induction t with
  | nil => simp [search, toList]
  | node c l y r ihl ihr =>
    obtain ⟨hl, hr, hly, hyr⟩ := sorted_node.mp hsorted
    have hmem : x ∈ (node c l y r).toList ↔ x ∈ l.toList ∨ x = y ∨ x ∈ r.toList := by
      simp [toList]
    rw [search, hmem]
    split_ifs with hzero hneg
    · -- the item is the only one with this key
      have hk := hcmp.item.2.mp hzero
      constructor
      · rintro ⟨⟩
        exact ⟨.inr (.inl rfl), hk.symm⟩
      · rintro ⟨hx | rfl | hx, hkey⟩
        · exact absurd (hkey.trans hk) (hly x hx).ne
        · rfl
        · exact absurd (hkey.trans hk) (hyr x hx).ne'
    · have hk := hcmp.item.1.mp hneg
      rw [ihl hl hcmp.left]
      constructor
      · rintro ⟨hx, hkey⟩
        exact ⟨.inl hx, hkey⟩
      · rintro ⟨hx | rfl | hx, hkey⟩
        · exact ⟨hx, hkey⟩
        · exact absurd hkey hk.ne'
        · exact absurd hkey (hk.trans (hyr x hx)).ne'
    · have hk := hcmp.lt_of_not hzero hneg
      rw [ihr hr hcmp.right]
      constructor
      · rintro ⟨hx, hkey⟩
        exact ⟨.inr (.inr hx), hkey⟩
      · rintro ⟨hx | rfl | hx, hkey⟩
        · exact absurd hkey ((hly x hx).trans hk).ne
        · exact absurd hkey hk.ne
        · exact ⟨hx, hkey⟩

theorem insertBelow_sorted (hsorted : Sorted key t) (hcmp : Compares key (key z) cmp t)
    (hnew : ∀ x ∈ t.toList, key x ≠ key z) : Sorted key (insertBelow cmp z t).1 := by
  induction t with
  | nil => simp [insertBelow, Sorted, toList]
  | node c l x r ihl ihr =>
    obtain ⟨hl, hr, hlx, hxr⟩ := sorted_node.mp hsorted
    have hl' := ihl hl hcmp.left fun a ha => hnew a (by simp [toList, ha])
    have hr' := ihr hr hcmp.right fun b hb => hnew b (by simp [toList, hb])
    -- mending keeps what a node holds in its order
    have hkeep : ∀ {u v : RbTree α}, u.toList = v.toList → Sorted key v → Sorted key u := by
      intro u v huv hv
      rwa [Sorted, huv]
    rw [insertBelow]
    split_ifs with hneg
    · have hbelow : ∀ a ∈ (insertBelow cmp z l).1.toList, key a < key x := by
        intro a ha
        obtain rfl | ha := List.mem_cons.mp ((insertBelow_perm cmp z l).mem_iff.mp ha)
        · exact hcmp.item.1.mp hneg
        · exact hlx a ha
      split
      · rename_i l' heq
        rw [heq] at hl' hbelow
        exact hkeep (v := node c l' x r) (toList_mendLeft c l' x r)
          (sorted_node.mpr ⟨hl', hr, hbelow, hxr⟩)
      · rename_i l' heq
        rw [heq] at hl' hbelow
        exact sorted_node.mpr ⟨hl', hr, hbelow, hxr⟩
    · have hx := hcmp.lt_of_not
        (mt hcmp.item.2.mp (hnew x (by simp [toList])).symm) hneg
      have hbelow : ∀ b ∈ (insertBelow cmp z r).1.toList, key x < key b := by
        intro b hb
        obtain rfl | hb := List.mem_cons.mp ((insertBelow_perm cmp z r).mem_iff.mp hb)
        · exact hx
        · exact hxr b hb
      split
      · rename_i r' heq
        rw [heq] at hr' hbelow
        exact hkeep (v := node c l x r') (toList_mendRight c l x r')
          (sorted_node.mpr ⟨hl, hr', hlx, hbelow⟩)
      · rename_i r' heq
        rw [heq] at hr' hbelow
        exact sorted_node.mpr ⟨hl, hr', hlx, hbelow⟩

theorem insert_sorted (hsorted : Sorted key t) (hcmp : Compares key (key z) cmp t)
    (hnew : ∀ x ∈ t.toList, key x ≠ key z) : Sorted key (insert cmp z t) := by
  have h := insertBelow_sorted hsorted hcmp hnew
  unfold insert
  split
  · rename_i t' ht'
    rw [ht'] at h
    rwa [Sorted, toList_paint]
  · rename_i t' ht'
    rwa [ht'] at h

end Order

section Depth

def height : RbTree α → ℕ
  | nil => 0
  | node _ l _ r => max (height l) (height r) + 1

theorem Leans.height_le (h : Leans t n) : height t ≤ 2 * n + t.red.toNat := by
  induction h with
  | nil => simp [height]
  | red hl hr hlred hrred ihl ihr =>
    rw [hlred] at ihl
    rw [hrred] at ihr
    simp only [height, RbTree.red, Bool.toNat_false, Bool.toNat_true] at *
    omega
  | @black l r x n hl hr hrred ihl ihr =>
    have hl1 : l.red.toNat ≤ 1 := l.red.toNat_le
    rw [hrred] at ihr
    simp only [height, RbTree.red, Bool.toNat_false] at *
    omega

theorem Leans.two_pow_le (h : Leans t n) : 2 ^ n ≤ t.toList.length + 1 := by
  induction h with
  | nil => simp [toList]
  | red hl hr hlred hrred ihl ihr =>
    simp only [toList, List.length_append, List.length_cons]
    omega
  | black hl hr hrred ihl ihr =>
    simp only [toList, List.length_append, List.length_cons, pow_succ]
    omega

theorem Leans.height_le_of_length_lt {b : ℕ} (h : Leans t n) (hblack : t.red = false)
    (hlength : t.toList.length + 1 < 2 ^ (b + 1)) : height t ≤ 2 * b := by
  have hn : n < b + 1 := (Nat.pow_lt_pow_iff_right one_lt_two).mp (h.two_pow_le.trans_lt hlength)
  have hheight := h.height_le
  rw [hblack, Bool.toNat_false] at hheight
  omega

def insertPath (cmp : α → ℤ) : RbTree α → ℕ
  | nil => 1
  | node _ l x r => if cmp x < 0 then insertPath cmp l + 1 else insertPath cmp r + 1

theorem insertPath_le (cmp : α → ℤ) (t : RbTree α) : insertPath cmp t ≤ height t + 1 := by
  induction t with
  | nil => simp [insertPath]
  | node c l x r ihl ihr =>
    rw [insertPath, height]
    split_ifs <;> omega

end Depth

end SeamlessStack.Lib.LeftLeaning
