import Mathlib.Data.List.Induction
import ImportUsage.Proofs.FileTree.WellFormed
import ImportUsage.Proofs.Text.Cut

/-! Paths of places below a directory. The path is the directory's with the names joined to it; it
can be cut again into what it was made of, so different places have different paths. -/

namespace ImportUsage

namespace Path

/-- The path of a place below a directory. -/
def below (directory : String) (place : Location) : String := place.foldl join directory

/-- A directory without the slash at its end. -/
def trunk (directory : String) : List Char :=
  if directory.toList.getLast? = some '/' then directory.toList.dropLast else directory.toList

theorem join_toList (directory name : String) (named : directory ≠ "") :
    (join directory name).toList = trunk directory ++ '/' :: name.toList := by
  rw [join, if_neg named, trunk]
  by_cases slash : directory.toList.getLast? = some '/'
  · rw [if_pos slash, if_pos slash, String.toList_append]
    obtain ⟨front, whole⟩ := List.getLast?_eq_some_iff.mp slash
    simp [whole]
  · rw [if_neg slash, if_neg slash]
    simp

theorem join_ne_empty (directory name : String) (named : directory ≠ "") :
    join directory name ≠ "" := by
  intro empty
  have chars := join_toList directory name named
  rw [empty] at chars
  simp at chars

theorem trunk_join (directory name : String) (named : directory ≠ "") (valid : Node.IsName name) :
    trunk (join directory name) = (join directory name).toList := by
  have filled : name.toList ≠ [] := by simpa using valid.1
  have last : (join directory name).toList.getLast? = name.toList.getLast? := by
    rw [join_toList directory name named, List.append_cons, List.getLast?_append_of_ne_nil _ filled]
  have clean : (join directory name).toList.getLast? ≠ some '/' := by
    intro slash
    rw [last] at slash
    exact valid.2 (List.mem_of_getLast? slash)
  rw [trunk, if_neg clean]

theorem below_concat (directory : String) (place : Location) (name : String) :
    below directory (place ++ [name]) = join (below directory place) name := by
  simp [below]

theorem below_ne_empty (directory : String) (place : Location) (named : directory ≠ "") :
    below directory place ≠ "" := by
  induction place generalizing directory with
  | nil => exact named
  | cons name rest ih => exact ih (join directory name) (join_ne_empty directory name named)

/-- The pieces of the path of a place are those of the directory, then the names. -/
theorem cutAt_below (directory : String) (place : Location) (named : directory ≠ "")
    (valid : ∀ name ∈ place, Node.IsName name) (proper : place ≠ []) :
    cutAt '/' (below directory place).toList =
      cutAt '/' (trunk directory) ++ place.map String.toList := by
  induction place using List.reverseRecOn with
  | nil => exact absurd rfl proper
  | append_singleton front name ih =>
    have valid_name : Node.IsName name := valid name (by simp)
    have valid_front : ∀ other ∈ front, Node.IsName other := fun other member =>
      valid other (List.mem_append_left _ member)
    rw [below_concat, join_toList _ name (below_ne_empty directory front named), cutAt_append,
      cutAt_of_not_mem '/' name.toList valid_name.2]
    cases front using List.reverseRecOn with
    | nil => simp [below]
    | append_singleton higher upper =>
      have whole := trunk_join (below directory higher) upper
        (below_ne_empty directory higher named) (valid_front upper (by simp))
      rw [← below_concat] at whole
      rw [whole, ih valid_front (by simp)]
      simp

theorem below_injective (directory : String) (named : directory ≠ "") (p q : Location)
    (valid_p : ∀ name ∈ p, Node.IsName name) (valid_q : ∀ name ∈ q, Node.IsName name)
    (proper_p : p ≠ []) (proper_q : q ≠ []) (same : below directory p = below directory q) :
    p = q := by
  have pieces := cutAt_below directory p named valid_p proper_p
  rw [same, cutAt_below directory q named valid_q proper_q, List.append_cancel_left_eq] at pieces
  exact (List.map_injective_iff.mpr (fun _ _ => String.toList_inj.mp) pieces).symm

theorem fileName?_below (directory : String) (place : Location) (name : String)
    (named : directory ≠ "") (valid : ∀ other ∈ place ++ [name], Node.IsName other)
    (upward : name ≠ "." ∧ name ≠ "..") :
    fileName? (below directory (place ++ [name])) = some name := by
  have filled : name.toList ≠ [] := by simpa using (valid name (by simp)).1
  have dotted : name.toList ≠ ['.'] := by
    intro dot
    apply upward.1
    rw [← String.toList_inj, dot]
    rfl
  have last : (pieces (below directory (place ++ [name]))).getLast? = some name := by
    rw [pieces, cutAt_below directory _ named valid (by simp), List.map_append,
      ← List.append_assoc, List.filter_append]
    simp [filled, dotted]
  rw [fileName?, last]
  exact if_neg upward.2

end Path

end ImportUsage
