import Mathlib.Data.List.Infix

/-! # Paths and directories

A path is the list of the names on the way down from the root. A text leads from one path to
another, part by part. Directories are the paths that have been made.
-/

namespace Paths

abbrev Path := List String

/-- Go on by one part of a text. A single dot stays where it is, two dots go up. -/
def enter (path : Path) (part : String) : Path :=
  if part = "" ∨ part = "." then path
  else if part = ".." then path.dropLast
  else path ++ [part]

/-- Where a text leads, from the root if it begins with a slash. -/
def join (path : Path) (text : String) : Path :=
  ((text.toList.splitOn '/').map String.ofList).foldl enter
    (if text.toList.head? = some '/' then [] else path)

/-- The text is the name of something in a directory. -/
structure Normal (name : String) : Prop where
  ne_empty : name ≠ ""
  slash : '/' ∉ name.toList
  ne_dot : name ≠ "."
  ne_dots : name ≠ ".."

variable {path : Path} {name : String}

theorem join_of_not_mem (h : '/' ∉ name.toList) : join path name = enter path name := by
  have hsplit : name.toList.splitOn '/' = [name.toList] :=
    List.splitOnP_eq_singleton fun c hc => by
      simpa using fun heq : c = '/' => h (heq ▸ hc)
  have hhead : name.toList.head? ≠ some '/' := fun hhead => h (List.mem_of_head? hhead)
  simp [join, hsplit, hhead]

theorem join_of_normal (h : Normal name) : join path name = path ++ [name] := by
  rw [join_of_not_mem h.slash, enter, if_neg (by simp [h.ne_empty, h.ne_dot]), if_neg h.ne_dots]

theorem join_dot : join path "." = path := by
  rw [join_of_not_mem (by decide), enter, if_pos (.inr rfl)]

abbrev Directories := List Path

def createDirAll (dirs : Directories) (path : Path) : Directories := dirs ++ path.inits

def readDir (dirs : Directories) (path : Path) : List String :=
  dirs.filterMap fun dir => if dir.dropLast = path then dir.getLast? else none

theorem mem_readDir {dirs : Directories} : name ∈ readDir dirs path ↔ path ++ [name] ∈ dirs := by
  simp only [readDir, List.mem_filterMap, Option.ite_none_right_eq_some]
  constructor
  · rintro ⟨dir, hdir, rfl, hlast⟩
    obtain ⟨parent, rfl⟩ := List.getLast?_eq_some_iff.mp hlast
    rwa [List.dropLast_concat]
  · intro h
    exact ⟨_, h, by simp, by simp⟩

end Paths
