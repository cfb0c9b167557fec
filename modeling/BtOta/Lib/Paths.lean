/-
Paths as strings: names, each behind a slash.

What a directory lists are names, and the path of an entry is the
directory's path, a slash and the name. So the paths below a root are
lists of names (`pathOf`), and the parent of a path, which is read off
the string at its last slash, is the path of all names but the last
(`getParent_pathOf`).
-/
import Mathlib.Data.List.DropRight
import Mathlib.Order.Basic

namespace Paths

/-- What a directory calls one of its entries; it does not list itself
or its parent. -/
structure Name where
  text : String
  nonempty : text ≠ ""
  noSlash : '/' ∉ text.toList
  noDots : text ≠ "." ∧ text ≠ ".."
  deriving DecidableEq

/-- The path of an entry: no second slash where the directory is the root
itself. -/
def child (p : String) (n : Name) : String :=
  (if p = "/" then "" else p) ++ "/" ++ n.text

/-- The path of names below a root, the outermost first. -/
def pathOf (root : String) (ns : List Name) : String := ns.foldl child root

/-- The parent of an absolute path: what is before its last slash, or
the slash, if that begins it. The root has none. -/
def getParent (p : String) : Option String :=
  match p.toList.reverse.dropWhile (· ≠ '/') with
  | [] => none
  | [_] => if p = "/" then none else some "/"
  | _ :: rest => some (String.ofList rest.reverse)

variable {root p : String} {ns : List Name} {n : Name}

@[simp] theorem pathOf_nil (root : String) : pathOf root [] = root := rfl

theorem pathOf_snoc (root : String) (ns : List Name) (n : Name) :
    pathOf root (ns ++ [n]) = child (pathOf root ns) n := by
  rw [pathOf, List.foldl_append]
  rfl

theorem Name.length_pos (n : Name) : 0 < n.text.length := by
  refine Nat.pos_of_ne_zero ?_
  intro hzero
  exact n.nonempty (String.length_eq_zero_iff.mp hzero)

/-- An entry's path is longer than its directory's, so a way down never
comes back. -/
theorem length_lt_child (p : String) (n : Name) :
    p.length < (child p n).length := by
  have hname := n.length_pos
  have hslash : ("/" : String).length = 1 := rfl
  rw [child, String.length_append, String.length_append]
  split
  case isTrue h =>
    rw [h]
    omega
  case isFalse => omega

/-- Below a root nothing is as short as the root. -/
theorem length_pathOf (root : String) (ns : List Name) :
    root.length + ns.length ≤ (pathOf root ns).length := by
  induction ns using List.reverseRecOn with
  | nil => exact Nat.le_refl _
  | append_singleton ns n ih =>
      have hchild := length_lt_child (pathOf root ns) n
      rw [pathOf_snoc, List.length_append, List.length_singleton]
      omega

theorem pathOf_eq_root : pathOf root ns = root ↔ ns = [] := by
  constructor
  · intro h
    have hlen := length_pathOf root ns
    rw [h] at hlen
    exact List.length_eq_zero_iff.mp (by omega)
  · rintro rfl
    rfl

theorem pathOf_ne_empty (hroot : root ≠ "") (ns : List Name) :
    pathOf root ns ≠ "" := by
  intro h
  have hlen := length_pathOf root ns
  rw [h] at hlen
  exact hroot (String.length_eq_zero_iff.mp (Nat.le_zero.mp
    (Nat.le_trans (Nat.le_add_right _ _) hlen)))

/-- What is left of an entry's path up to its last slash: a name has
none, so the slash is the one before it. -/
theorem dropWhile_child (p : String) (n : Name) :
    (child p n).toList.reverse.dropWhile (· ≠ '/')
      = '/' :: (if p = "/" then "" else p).toList.reverse := by
  have hall : ∀ c ∈ n.text.toList.reverse, decide (c ≠ '/') = true := by
    intro c hc
    refine decide_eq_true ?_
    rintro rfl
    exact n.noSlash (List.mem_reverse.mp hc)
  simp only [child, String.toList_append, List.reverse_append]
  rw [List.dropWhile_append_of_pos hall]
  rfl

/-- The parent of an entry is its directory, also where that is the root.
-/
theorem getParent_child (hp : p ≠ "") (n : Name) :
    getParent (child p n) = some p := by
  have hdrop := dropWhile_child p n
  unfold getParent
  rw [hdrop]
  by_cases hroot : p = "/"
  · rw [if_pos hroot, hroot]
    have hne : child "/" n ≠ "/" := by
      intro h
      have hlen := length_lt_child "/" n
      rw [h] at hlen
      exact Nat.lt_irrefl _ hlen
    exact if_neg hne
  · rw [if_neg hroot]
    cases hc : p.toList.reverse with
    | nil =>
        have hnil := List.reverse_eq_nil_iff.mp hc
        exact absurd (String.toList_eq_nil_iff.mp hnil) hp
    | cons c cs =>
        show some (String.ofList (c :: cs).reverse) = some p
        rw [← hc, List.reverse_reverse, String.ofList_toList]

/-- The parent below a root: all names but the last. -/
theorem getParent_pathOf (hroot : root ≠ "") (hns : ns ≠ []) :
    getParent (pathOf root ns) = some (pathOf root ns.dropLast) := by
  cases ns using List.reverseRecOn with
  | nil => exact absurd rfl hns
  | append_singleton ms n =>
      rw [List.dropLast_concat, pathOf_snoc]
      exact getParent_child (pathOf_ne_empty hroot ms) n

end Paths
