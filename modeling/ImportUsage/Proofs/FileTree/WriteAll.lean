import Mathlib.Data.List.Basic
import Mathlib.Data.List.Induction
import ImportUsage.Proofs.FileTree.Follow
import ImportUsage.Proofs.FileTree.Write

/-! Writing several files. What comes of it is told by the places of the paths in the tree that it
began with, so writing the same files twice is writing them once. -/

namespace ImportUsage

namespace FileTree

/-- Writes texts to files, one after the other. -/
def writeAll (t : FileTree) : List (String × String) → Except Fault FileTree
  | [] => .ok t
  | out :: rest => (t.writeText out.1 out.2).bind (·.writeAll rest)

theorem writeText_eq_ok {t t' : FileTree} {path text : String}
    (wrote : t.writeText path text = .ok t') :
    ∃ place executable, t.placeFor path = .ok place ∧
      t' = t.put place (.file (.text text) executable) := by
  unfold writeText at wrote
  cases placed : t.placeFor path with
  | error fault => simp [placed, Except.map] at wrote
  | ok place =>
    rw [placed] at wrote
    exact ⟨place, _, rfl, (Except.ok.inj wrote).symm⟩

theorem placeFor_iff {t t' : FileTree} (ways : ∀ p, t'.root.wayAt? p = t.root.wayAt? p)
    (working : t'.workingDirectory = t.workingDirectory) (path : String) (place : Location) :
    t'.placeFor path = .ok place ↔ t.placeFor path = .ok place := by
  constructor
  · exact placeFor_same (fun p => (ways p).symm) working.symm
  · exact placeFor_same ways working

/-- What is held at a place after writes, the last one there counting. -/
def heldAfter (t : FileTree) (p : Location) (outs : List (String × String))
    (before : Option Content) : Option Content :=
  outs.foldl (fun held out => if t.placeFor out.1 = .ok p then some (.text out.2) else held) before

theorem heldAfter_concat (t : FileTree) (p : Location) (outs : List (String × String))
    (out : String × String) (before : Option Content) :
    t.heldAfter p (outs ++ [out]) before =
      if t.placeFor out.1 = .ok p then some (.text out.2) else t.heldAfter p outs before := by
  simp only [heldAfter, List.foldl_append, List.foldl_cons, List.foldl_nil]

theorem heldAfter_twice (t : FileTree) (p : Location) (outs : List (String × String))
    (before : Option Content) :
    t.heldAfter p outs (t.heldAfter p outs before) = t.heldAfter p outs before := by
  induction outs using List.reverseRecOn with
  | nil => rfl
  | append_singleton front out ih =>
    rw [heldAfter_concat, heldAfter_concat]
    split
    · rfl
    · exact ih

theorem writeAll_contents (outs : List (String × String)) (t t' : FileTree)
    (wrote : t.writeAll outs = .ok t') (p : Location) :
    t'.contentAt? p = t.heldAfter p outs (t.contentAt? p) := by
  induction outs generalizing t with
  | nil =>
    cases wrote
    rfl
  | cons out rest ih =>
    obtain ⟨between, first, further⟩ := bind_eq_ok.mp wrote
    obtain ⟨place, executable, placed, rfl⟩ := writeText_eq_ok first
    have writes := put_writes (placeFor_free placed) out.2 executable
    rw [ih _ further, writes.contents]
    simp only [heldAfter, writes.places, List.foldl_cons, placed, Except.ok.injEq, eq_comm]

theorem writeAll_append (t : FileTree) (outs more : List (String × String)) :
    t.writeAll (outs ++ more) = (t.writeAll outs).bind (·.writeAll more) := by
  induction outs generalizing t with
  | nil => rfl
  | cons out rest ih =>
    rw [List.cons_append, writeAll, writeAll]
    cases t.writeText out.1 out.2 with
    | error fault => rfl
    | ok between => exact ih between

/-- Writing succeeds if every path has a place to begin with. -/
theorem writeAll_ok_iff (outs : List (String × String)) (t : FileTree) :
    (∃ t', t.writeAll outs = .ok t') ↔ ∀ out ∈ outs, ∃ place, t.placeFor out.1 = .ok place := by
  induction outs generalizing t with
  | nil => simp [writeAll]
  | cons out rest ih =>
    rw [List.forall_mem_cons]
    constructor
    · rintro ⟨t', wrote⟩
      obtain ⟨between, first, further⟩ := bind_eq_ok.mp wrote
      obtain ⟨place, executable, placed, rfl⟩ := writeText_eq_ok first
      have writes := put_writes (placeFor_free placed) out.2 executable
      refine ⟨⟨place, placed⟩, fun other member => ?_⟩
      obtain ⟨there, later⟩ := (ih _).mp ⟨t', further⟩ other member
      exact ⟨there, (writes.places _ _).mp later⟩
    · rintro ⟨⟨place, placed⟩, others⟩
      obtain ⟨between, first, writes⟩ := writeText_writes placed out.2
      obtain ⟨t', further⟩ := (ih between).mpr fun other member => by
        obtain ⟨there, later⟩ := others other member
        exact ⟨there, (writes.places _ _).mpr later⟩
      exact ⟨t', bind_eq_ok.mpr ⟨between, first, further⟩⟩

/-- Writing the same once more succeeds and changes nothing. -/
theorem writeAll_twice (outs : List (String × String)) (t t' : FileTree)
    (wrote : t.writeAll outs = .ok t') (working : t'.workingDirectory = t.workingDirectory)
    (ways : ∀ p, t'.root.wayAt? p = t.root.wayAt? p) :
    ∃ t'', t'.writeAll outs = .ok t'' ∧ ∀ p, t''.contentAt? p = t'.contentAt? p := by
  have places := placeFor_iff ways working
  obtain ⟨t'', again⟩ := (writeAll_ok_iff outs t').mpr fun out member => by
    obtain ⟨place, placed⟩ := (writeAll_ok_iff outs t).mp ⟨t', wrote⟩ out member
    exact ⟨place, (places _ _).mpr placed⟩
  refine ⟨t'', again, fun p => ?_⟩
  have same : t'.heldAfter p outs = t.heldAfter p outs := by
    funext before
    simp only [heldAfter, places]
  rw [writeAll_contents outs t' t'' again, same, writeAll_contents outs t t' wrote,
    t.heldAfter_twice]

end FileTree

end ImportUsage
