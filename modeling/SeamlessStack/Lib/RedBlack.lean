import Mathlib.Tactic

/-! Red-black trees that are searched from the root and mended on the way back up. A place in a tree
is the subtree there and the path to it, so that loops that climb by parent pointers are recursions
on the path. The lemmas are about what the trees hold, from left to right. -/
namespace SeamlessStack.Lib

/-- A missing child is black. -/
inductive RbTree (α : Type)
  | nil
  | node (red : Bool) (left : RbTree α) (item : α) (right : RbTree α)
  deriving DecidableEq, Repr

/-- A parent, without the child that the path goes through. -/
inductive Crumb (α : Type)
  | left (red : Bool) (item : α) (right : RbTree α)
  | right (red : Bool) (left : RbTree α) (item : α)
  deriving DecidableEq, Repr

namespace Crumb
variable {α : Type}

def red : Crumb α → Bool
  | left c _ _ => c
  | right c _ _ => c

def item : Crumb α → α
  | left _ x _ => x
  | right _ _ x => x

def sibling : Crumb α → RbTree α
  | left _ _ r => r
  | right _ l _ => l

def fill (t : RbTree α) : Crumb α → RbTree α
  | left c x r => .node c t x r
  | right c l x => .node c l x t

end Crumb

namespace RbTree
variable {α : Type}

def toList : RbTree α → List α
  | nil => []
  | node _ l x r => l.toList ++ x :: r.toList

def red : RbTree α → Bool
  | nil => false
  | node c _ _ _ => c

def left : RbTree α → RbTree α
  | nil => nil
  | node _ l _ _ => l

def right : RbTree α → RbTree α
  | nil => nil
  | node _ _ _ r => r

def paint (c : Bool) : RbTree α → RbTree α
  | nil => nil
  | node _ l x r => node c l x r

def paintLeft (c : Bool) : RbTree α → RbTree α
  | nil => nil
  | node d l x r => node d (l.paint c) x r

def paintRight (c : Bool) : RbTree α → RbTree α
  | nil => nil
  | node d l x r => node d l x (r.paint c)

def leftRotate : RbTree α → RbTree α
  | node c l x (node d m y r) => node d (node c l x m) y r
  | t => t

def rightRotate : RbTree α → RbTree α
  | node c (node d l x m) y r => node d l x (node c m y r)
  | t => t

def zip : RbTree α → List (Crumb α) → RbTree α
  | t, [] => t
  | t, p :: path => zip (p.fill t) path

/-- Go left of what compares as 1 and right of the rest, until an item compares as 0. -/
def locate (cmp : α → ℤ) : RbTree α → List (Crumb α) → RbTree α × List (Crumb α)
  | nil, path => (nil, path)
  | node c l x r, path =>
    if cmp x = 0 then (node c l x r, path)
    else if cmp x = 1 then locate cmp l (.left c x r :: path)
    else locate cmp r (.right c l x :: path)

/-- The place of an item that is known by itself and not by its order. -/
def placeOf (p : α → Bool) : RbTree α → List (Crumb α) → Option (RbTree α × List (Crumb α))
  | nil, _ => none
  | node c l x r, path =>
    if p x then some (node c l x r, path)
    else (placeOf p l (.left c x r :: path)).or (placeOf p r (.right c l x :: path))

def compared : RbTree α × List (Crumb α) → List α
  | (nil, path) => path.map Crumb.item
  | (node _ _ x _, path) => x :: path.map Crumb.item

/-- A red parent with a black brother: one or two rotations end the loop. -/
def rotateUp (t : RbTree α) (p : Crumb α) : Crumb α → RbTree α
  | .left _ x uncle =>
    let top := match p with
      | .left .. => p.fill t
      | .right .. => (p.fill t).leftRotate
    (node true (top.paint false) x uncle).rightRotate
  | .right _ uncle x =>
    let top := match p with
      | .left .. => (p.fill t).rightRotate
      | .right .. => p.fill t
    (node true uncle x (top.paint false)).leftRotate

/-- A red parent with a red brother: both become black and the loop goes on above. -/
def recolour (t : RbTree α) : Crumb α → RbTree α
  | .left _ x uncle => node true (t.paint false) x (uncle.paint false)
  | .right _ uncle x => node true (uncle.paint false) x (t.paint false)

/-- The loop after an insertion. The root is black, so a red parent has a parent itself. -/
def insertFix : RbTree α → List (Crumb α) → RbTree α
  | t, p :: g :: path =>
    if p.red then
      if g.sibling.red then insertFix (recolour (p.fill t) g) path
      else zip (rotateUp t p g) path
    else zip t (p :: g :: path)
  | t, path => zip t path

def descent (cmp : α → ℤ) (t : RbTree α) : List (Crumb α) :=
  (locate (fun x => if cmp x = 1 then 1 else -1) t []).2

def insert (cmp : α → ℤ) (z : α) (t : RbTree α) : RbTree α :=
  (insertFix (node true nil z nil) (t.descent cmp)).paint false

/-- A subtree that lacks a black node, left of its black sibling `w`; the flag ends the loop. -/
def settleLeft (c : Bool) (t : RbTree α) (x : α) (w : RbTree α) : RbTree α × Bool :=
  if !w.right.red && !w.left.red then (node c t x (w.paint true), false)
  else
    let w' := if !w.right.red then ((w.paintLeft false).paint true).rightRotate else w
    ((node false t x ((w'.paint c).paintRight false)).leftRotate, true)

def settleRight (c : Bool) (w : RbTree α) (x : α) (t : RbTree α) : RbTree α × Bool :=
  if !w.right.red && !w.left.red then (node c (w.paint true) x t, false)
  else
    let w' := if !w.left.red then ((w.paintRight false).paint true).leftRotate else w
    ((node false ((w'.paint c).paintLeft false) x t).rightRotate, true)

/-- One round of the loop after a deletion. A red sibling is rotated above the parent, which is red
then, so that the round is the last one. -/
def settle (t : RbTree α) : Crumb α → RbTree α × Bool
  | .left _ x (node true wl wx wr) =>
    let s := settleLeft true t x wl
    (node false (if s.2 then s.1 else s.1.paint false) wx wr, true)
  | .left c x w => settleLeft c t x w
  | .right _ (node true wl wx wr) x =>
    let s := settleRight true wr x t
    (node false wl wx (if s.2 then s.1 else s.1.paint false), true)
  | .right c w x => settleRight c w x t

/-- It ends with painting a red node or the root, which is black unless it has just come up. -/
def deleteFix : RbTree α → List (Crumb α) → RbTree α
  | t, [] => t.paint false
  | t, p :: path =>
    if t.red then zip (t.paint false) (p :: path)
    else if (settle t p).2 then (zip (settle t p).1 path).paint false
    else deleteFix (settle t p).1 path

def splice (c : Bool) (t : RbTree α) (path : List (Crumb α)) : RbTree α :=
  if c then zip t path else deleteFix t path

/-- The leftmost node of a tree that is not empty: its colour, item, right child and path. -/
def leftmost : Bool → RbTree α → α → RbTree α → List (Crumb α) →
    Bool × α × RbTree α × List (Crumb α)
  | c, nil, x, r, path => (c, x, r, path)
  | c, node d l y m, x, r, path => leftmost d l y m (.left c x r :: path)

/-- A node with two children gets the item that follows it, whose node is spliced out. -/
def deleteAt : RbTree α → List (Crumb α) → RbTree α
  | nil, path => zip nil path
  | node c nil _ r, path => splice c r path
  | node c l _ nil, path => splice c l path
  | node c l _ (node d m y n), path =>
    let (e, next, child, below) := leftmost d m y n []
    splice e child (below ++ .right c l next :: path)

/-! ### From left to right -/

@[simp] theorem toList_paint (c : Bool) (t : RbTree α) : (t.paint c).toList = t.toList := by
  cases t <;> rfl

@[simp] theorem toList_paintLeft (c : Bool) (t : RbTree α) :
    (t.paintLeft c).toList = t.toList := by
  cases t <;> simp [paintLeft, toList]

@[simp] theorem toList_paintRight (c : Bool) (t : RbTree α) :
    (t.paintRight c).toList = t.toList := by
  cases t <;> simp [paintRight, toList]

@[simp] theorem toList_leftRotate (t : RbTree α) : t.leftRotate.toList = t.toList := by
  fun_cases leftRotate t <;> simp [toList]

@[simp] theorem toList_rightRotate (t : RbTree α) : t.rightRotate.toList = t.toList := by
  fun_cases rightRotate t <;> simp [toList]

def before : List (Crumb α) → List α
  | [] => []
  | .left .. :: path => before path
  | .right _ l x :: path => before path ++ (l.toList ++ [x])

def after : List (Crumb α) → List α
  | [] => []
  | .left _ x r :: path => x :: r.toList ++ after path
  | .right .. :: path => after path

theorem toList_zip (t : RbTree α) (path : List (Crumb α)) :
    (zip t path).toList = before path ++ t.toList ++ after path := by
  induction path generalizing t with
  | nil => simp [zip, before, after]
  | cons p path ih =>
    rw [zip, ih]
    cases p <;> simp [Crumb.fill, toList, before, after]

theorem toList_zip_congr {t u : RbTree α} (h : t.toList = u.toList) (path : List (Crumb α)) :
    (zip t path).toList = (zip u path).toList := by
  rw [toList_zip, toList_zip, h]

theorem toList_recolour (t : RbTree α) (g : Crumb α) :
    (recolour t g).toList = (g.fill t).toList := by
  cases g <;> simp [recolour, Crumb.fill, toList]

theorem toList_rotateUp (t : RbTree α) (p g : Crumb α) :
    (rotateUp t p g).toList = (g.fill (p.fill t)).toList := by
  cases g <;> cases p <;> simp [rotateUp, Crumb.fill, toList]

theorem toList_insertFix (t : RbTree α) (path : List (Crumb α)) :
    (insertFix t path).toList = (zip t path).toList := by
  fun_induction insertFix t path with
  | case1 t p g path hp hg ih => rw [ih, zip, zip, toList_zip_congr (toList_recolour _ _)]
  | case2 t p g path hp hg => rw [zip, zip, toList_zip_congr (toList_rotateUp _ _ _)]
  | case3 | case4 => rfl

theorem toList_insert (cmp : α → ℤ) (z : α) (t : RbTree α) :
    (t.insert cmp z).toList = before (t.descent cmp) ++ z :: after (t.descent cmp) := by
  rw [insert, toList_paint, toList_insertFix, toList_zip]
  simp [toList]

theorem toList_settleLeft (c d : Bool) (t : RbTree α) (x : α) (w : RbTree α) :
    (settleLeft c t x w).1.toList = (node d t x w).toList := by
  unfold settleLeft
  split_ifs <;> simp [toList]

theorem toList_settleRight (c d : Bool) (w : RbTree α) (x : α) (t : RbTree α) :
    (settleRight c w x t).1.toList = (node d w x t).toList := by
  unfold settleRight
  split_ifs <;> simp [toList]

theorem toList_ite_paint (ended c : Bool) (t : RbTree α) :
    (if ended then t else t.paint c).toList = t.toList := by
  split_ifs
  · rfl
  · exact toList_paint _ _

theorem toList_settle (t : RbTree α) (p : Crumb α) :
    (settle t p).1.toList = (p.fill t).toList := by
  fun_cases settle t p with
  | case1 c x wl wx wr s =>
    have hs : s.1.toList = (node true t x wl).toList := toList_settleLeft true true t x wl
    simp [Crumb.fill, toList, toList_ite_paint, hs]
  | case2 c x w => exact toList_settleLeft c c t x w
  | case3 c wl wx wr x s =>
    have hs : s.1.toList = (node true wr x t).toList := toList_settleRight true true wr x t
    simp [Crumb.fill, toList, toList_ite_paint, hs]
  | case4 c w x => exact toList_settleRight c c w x t

theorem toList_deleteFix (t : RbTree α) (path : List (Crumb α)) :
    (deleteFix t path).toList = (zip t path).toList := by
  fun_induction deleteFix t path with
  | case1 t => exact toList_paint _ _
  | case2 t p path hred => exact toList_zip_congr (toList_paint _ _) _
  | case3 t p path hred hover => rw [toList_paint, toList_zip_congr (toList_settle t p), zip]
  | case4 t p path hred hover ih => rw [ih, toList_zip_congr (toList_settle t p), zip]

theorem toList_splice (c : Bool) (t : RbTree α) (path : List (Crumb α)) :
    (splice c t path).toList = (zip t path).toList := by
  unfold splice
  split_ifs
  · rfl
  · exact toList_deleteFix t path

theorem toList_leftmost (c : Bool) (l : RbTree α) (x : α) (r : RbTree α)
    (path : List (Crumb α)) :
    ∃ e next child below, leftmost c l x r path = (e, next, child, below) ∧
      before below = before path ∧
      next :: (child.toList ++ after below) = (node c l x r).toList ++ after path := by
  induction l generalizing c x r path with
  | nil => exact ⟨c, x, r, path, rfl, rfl, by simp [toList]⟩
  | node d l y m ihl _ =>
    obtain ⟨e, next, child, below, heq, hbefore, hafter⟩ := ihl d y m (.left c x r :: path)
    exact ⟨e, next, child, below, heq, hbefore, by rw [hafter]; simp [toList, after]⟩

theorem before_append (below path : List (Crumb α)) :
    before (below ++ path) = before path ++ before below := by
  induction below with
  | nil => simp [before]
  | cons p below ih => cases p <;> simp [before, ih]

theorem after_append (below path : List (Crumb α)) :
    after (below ++ path) = after below ++ after path := by
  induction below with
  | nil => simp [after]
  | cons p below ih => cases p <;> simp [after, ih]

theorem toList_deleteAt (c : Bool) (l : RbTree α) (z : α) (r : RbTree α)
    (path : List (Crumb α)) : (deleteAt (node c l z r) path).toList =
      before path ++ l.toList ++ (r.toList ++ after path) := by
  cases r with
  | nil =>
    cases l with
    | nil | node => simp [deleteAt, toList_splice, toList_zip, toList]
  | node d m y n =>
    cases l with
    | nil => simp [deleteAt, toList_splice, toList_zip, toList]
    | node e l x l' =>
      obtain ⟨e', next, child, below, heq, hbefore, hafter⟩ := toList_leftmost d m y n []
      simp only [deleteAt, heq, toList_splice, toList_zip, before_append, after_append, hbefore,
        before, after, List.append_nil] at hafter ⊢
      simp [← hafter]

/-! ### Searching -/

section Locate
variable {cmp : α → ℤ} {t : RbTree α}

theorem zip_locate (cmp : α → ℤ) (t : RbTree α) (path : List (Crumb α)) :
    zip (locate cmp t path).1 (locate cmp t path).2 = zip t path := by
  induction t generalizing path with
  | nil => rfl
  | node c l x r ihl ihr =>
    unfold locate
    split_ifs
    · rfl
    · exact ihl _
    · exact ihr _

theorem toList_locate (cmp : α → ℤ) (t : RbTree α) : t.toList =
    before (locate cmp t []).2 ++ (locate cmp t []).1.toList ++ after (locate cmp t []).2 := by
  rw [← toList_zip, zip_locate, zip]

theorem locate_node {path path' : List (Crumb α)} {c : Bool} {l r : RbTree α} {x : α}
    (h : locate cmp t path = (node c l x r, path')) : cmp x = 0 := by
  induction t generalizing path with
  | nil => cases h
  | node d m y n ihl ihr =>
    unfold locate at h
    split_ifs at h with hzero hone
    · cases h
      exact hzero
    · exact ihl h
    · exact ihr h

/-- All to the left of where the search ends is smaller, and all to the right larger. -/
theorem locate_sides (hle : ∀ a, cmp a ≤ 1) (path : List (Crumb α))
    (hsorted : (zip t path).toList.Pairwise fun a b => cmp a ≤ cmp b)
    (hbefore : ∀ a ∈ before path, cmp a < 0) (hafter : ∀ a ∈ after path, 0 < cmp a) :
    (∀ a ∈ before (locate cmp t path).2, cmp a < 0) ∧
      ∀ a ∈ after (locate cmp t path).2, 0 < cmp a := by
  induction t generalizing path with
  | nil => exact ⟨hbefore, hafter⟩
  | node c l x r ihl ihr =>
    have hlist : (zip (node c l x r) path).toList =
        before path ++ (l.toList ++ x :: r.toList) ++ after path := toList_zip _ _
    rw [hlist] at hsorted
    have hnode : (l.toList ++ x :: r.toList).Pairwise fun a b => cmp a ≤ cmp b :=
      (List.pairwise_append.mp (List.pairwise_append.mp hsorted).1).2.1
    obtain ⟨-, hxr, hlx⟩ := List.pairwise_append.mp hnode
    unfold locate
    split_ifs with hzero hone
    · exact ⟨hbefore, hafter⟩
    · refine ihl _ (by rw [zip, Crumb.fill, hlist]; exact hsorted) hbefore ?_
      intro a ha
      simp only [after, List.cons_append, List.mem_cons, List.mem_append] at ha
      rcases ha with rfl | ha | ha
      · omega
      · have := List.rel_of_pairwise_cons hxr ha
        omega
      · exact hafter a ha
    · refine ihr _ (by rw [zip, Crumb.fill, hlist]; exact hsorted) ?_ hafter
      have hx := hle x
      intro a ha
      simp only [before, List.mem_append, List.mem_singleton] at ha
      rcases ha with ha | ha | rfl
      · exact hbefore a ha
      · have := hlx a ha x List.mem_cons_self
        omega
      · omega

theorem locate_nil (hle : ∀ a, cmp a ≤ 1) (hsorted : t.toList.Pairwise fun a b => cmp a ≤ cmp b)
    (hnil : (locate cmp t []).1 = nil) : ∀ a ∈ t.toList, cmp a ≠ 0 := by
  obtain ⟨hbefore, hafter⟩ := locate_sides hle [] hsorted (by simp [before]) (by simp [after])
  intro a ha
  rw [toList_locate cmp t, hnil] at ha
  simp only [toList, List.append_nil, List.mem_append] at ha
  rcases ha with ha | ha
  · exact (hbefore a ha).ne
  · exact (hafter a ha).ne'

theorem mem_sides_of_mem {path : List (Crumb α)} {p : Crumb α} (hp : p ∈ path) :
    p.item ∈ before path ∨ p.item ∈ after path := by
  induction path with
  | nil => cases hp
  | cons q path ih =>
    rcases List.mem_cons.mp hp with rfl | hp
    · cases p <;> simp [Crumb.item, before, after]
    · rcases ih hp with h | h
      · cases q <;> simp [before, h]
      · cases q <;> simp [after, h]

theorem compared_subset_zip (t : RbTree α) (path : List (Crumb α)) :
    compared (t, path) ⊆ (zip t path).toList := by
  have hpath : path.map Crumb.item ⊆ (zip t path).toList := by
    intro a ha
    obtain ⟨p, hp, rfl⟩ := List.mem_map.mp ha
    rw [toList_zip]
    rcases mem_sides_of_mem hp with h | h
    · simp [h]
    · simp [h]
  cases t with
  | nil => exact hpath
  | node c l x r =>
    refine List.cons_subset.mpr ⟨?_, hpath⟩
    simp [toList_zip, toList]

theorem compared_subset (cmp : α → ℤ) (t : RbTree α) : compared (locate cmp t []) ⊆ t.toList := by
  have h := compared_subset_zip (locate cmp t []).1 (locate cmp t []).2
  rwa [zip_locate, zip] at h

theorem locate_descent (cmp : α → ℤ) (t : RbTree α) :
    locate (fun x => if cmp x = 1 then 1 else -1) t [] = (nil, t.descent cmp) := by
  rcases hloc : locate (fun x => if cmp x = 1 then 1 else -1) t [] with ⟨u, path⟩
  cases u with
  | nil => rw [descent, hloc]
  | node c l x r =>
    have hzero := locate_node hloc
    exact absurd hzero (by split_ifs <;> decide)

theorem toList_descent (cmp : α → ℤ) (t : RbTree α) :
    t.toList = before (t.descent cmp) ++ after (t.descent cmp) := by
  have h := toList_locate (fun x => if cmp x = 1 then 1 else -1) t
  rw [locate_descent] at h
  simpa [toList] using h

theorem insert_perm (cmp : α → ℤ) (z : α) (t : RbTree α) :
    (t.insert cmp z).toList.Perm (z :: t.toList) := by
  rw [toList_insert, toList_descent cmp t]
  exact List.perm_middle

section Place
variable {c : Bool} {l r : RbTree α} {z : α} {path : List (Crumb α)}

theorem toList_of_place (h : locate cmp t [] = (node c l z r, path)) :
    t.toList = before path ++ l.toList ++ z :: (r.toList ++ after path) := by
  have hlist := toList_locate cmp t
  rw [h] at hlist
  simpa [toList] using hlist

theorem mem_of_place (h : locate cmp t [] = (node c l z r, path)) : z ∈ t.toList := by
  rw [toList_of_place h]
  simp

theorem deleteAt_perm (h : locate cmp t [] = (node c l z r, path)) :
    t.toList.Perm (z :: (deleteAt (node c l z r) path).toList) := by
  rw [toList_deleteAt, toList_of_place h]
  exact List.perm_middle

theorem deleteAt_sublist (h : locate cmp t [] = (node c l z r, path)) :
    (deleteAt (node c l z r) path).toList.Sublist t.toList := by
  rw [toList_deleteAt, toList_of_place h]
  exact (List.Sublist.refl _).append (List.sublist_cons_self _ _)

end Place

/-- A new leaf comes right of all that is not larger. -/
theorem descent_sides (hle : ∀ a, cmp a ≤ 1)
    (hsorted : t.toList.Pairwise fun a b => cmp a ≤ cmp b) :
    (∀ a ∈ before (t.descent cmp), cmp a ≠ 1) ∧ ∀ a ∈ after (t.descent cmp), cmp a = 1 := by
  have hmono : t.toList.Pairwise fun a b =>
      (if cmp a = 1 then (1 : ℤ) else -1) ≤ if cmp b = 1 then 1 else -1 := by
    refine hsorted.imp fun {a b} hab => ?_
    have := hle b
    split_ifs <;> omega
  have hsides := locate_sides (fun a => by split_ifs <;> omega) [] hmono (by simp [before])
    (by simp [after])
  rw [locate_descent] at hsides
  constructor
  · intro a ha hone
    have := hsides.1 a ha
    rw [if_pos hone] at this
    omega
  · intro a ha
    by_contra hone
    have := hsides.2 a ha
    rw [if_neg hone] at this
    omega

end Locate

end RbTree
end SeamlessStack.Lib
