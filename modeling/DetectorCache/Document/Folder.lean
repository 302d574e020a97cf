import DetectorCache.Document
/-!
A folder of files held in memory, with folders inside it. A relative path is walked step by step
from the folder: empty steps and `.` stay where they are, `..` leads back up, and only folders can
be walked through. So `./a` and `.//a` name the file `a`, and `a/` and `a/.` name no file.
-/
set_option autoImplicit false

namespace DetectorCache.Document

open Octets (ascii)

def steps (path : Octets) : List Octets := path.pieces Octets.slash

def isNeutral (step : Octets) : Bool := step.isEmpty || step == ascii "."

def upward : Octets := ascii ".."

structure Folder where
  files : List (List Octets × Octets)

namespace Folder

def ofList (files : List (Octets × Octets)) : Folder :=
  ⟨files.map fun file => ((steps file.1).filter (!isNeutral ·), file.2)⟩

/-- Whether a place is a folder: the outermost one, or one that holds a file. -/
def isFolder (folder : Folder) (place : List Octets) : Bool :=
  place.isEmpty ||
    folder.files.any fun file => place.isPrefixOf file.1 && place.length < file.1.length

/-- The place of the file that steps lead to from a place, if the way is open. The last step has
to name a file, and nothing lies above the outermost folder. -/
def walk (folder : Folder) (place : List Octets) : List Octets → Option (List Octets)
  | [] => none
  | [last] => if isNeutral last || last == upward then none else some (place ++ [last])
  | step :: others =>
    if isNeutral step then folder.walk place others
    else if step = upward then
      if place = [] then none else folder.walk place.dropLast others
    else if folder.isFolder (place ++ [step]) then folder.walk (place ++ [step]) others
    else none

def find? (folder : Folder) : Files := fun path =>
  if path.head? = some Octets.slash then none
  else (folder.walk [] (steps path)).bind (folder.files.lookup ·)

variable {folder : Folder} {place route : List Octets}

theorem walk_cons {others : List Octets} (h : others ≠ []) (step : Octets) :
    folder.walk place (step :: others) =
      if isNeutral step then folder.walk place others
      else if step = upward then
        if place = [] then none else folder.walk place.dropLast others
      else if folder.isFolder (place ++ [step]) then folder.walk (place ++ [step]) others
      else none := by
  obtain ⟨next, others, rfl⟩ := List.exists_cons_of_ne_nil h
  rfl

/-- Before the last step a neutral one makes no difference. -/
theorem walk_neutral {step : Octets} (h : isNeutral step = true) (before : List Octets)
    {after : List Octets} (hafter : after ≠ []) :
    folder.walk place (before ++ step :: after) = folder.walk place (before ++ after) := by
  induction before generalizing place with
  | nil => exact (walk_cons hafter step).trans (if_pos h)
  | cons first before ih =>
    have hne : before ++ after ≠ [] := List.append_ne_nil_of_right_ne_nil _ hafter
    have hne' : before ++ step :: after ≠ [] := by simp
    rw [List.cons_append, List.cons_append, walk_cons hne, walk_cons hne']
    simp only [ih]

/-- Steps that are names: none of them stays where it is or leads up. -/
def Proper (route : List Octets) : Prop := ∀ step ∈ route, isNeutral step = false ∧ step ≠ upward

theorem Proper.snoc {step : Octets} (hplace : Proper place) (hname : isNeutral step = false)
    (hdown : step ≠ upward) : Proper (place ++ [step]) := by
  intro s hs
  rcases List.mem_append.mp hs with hin | hlast
  · exact hplace s hin
  · rw [List.mem_singleton.mp hlast]
    exact ⟨hname, hdown⟩

theorem proper_of_walk {found : List Octets} (h : folder.walk place route = some found)
    (hplace : Proper place) : Proper found := by
  induction route generalizing place with
  | nil => cases h
  | cons step others ih =>
    by_cases hlast : others = []
    · rw [hlast, walk] at h
      split at h
      · cases h
      · next hname =>
        cases h
        simp only [Bool.or_eq_true, beq_iff_eq, not_or, Bool.not_eq_true] at hname
        exact hplace.snoc hname.1 hname.2
    · rw [walk_cons hlast] at h
      split at h
      · exact ih h hplace
      · next hname =>
        split at h
        · split at h
          · cases h
          · exact ih h fun s hs => hplace s ((List.dropLast_sublist place).subset hs)
        · next hdown =>
          split at h
          · exact ih h (hplace.snoc (Bool.eq_false_iff.mpr hname) hdown)
          · cases h

/-- What is found is a file of the folder, under names only. -/
theorem exists_proper_of_find? {path content : Octets} (h : folder.find? path = some content) :
    ∃ place, Proper place ∧ folder.files.lookup place = some content := by
  rw [find?] at h
  split at h
  · cases h
  · obtain ⟨place, hwalk, hlookup⟩ := Option.bind_eq_some_iff.mp h
    exact ⟨place, proper_of_walk hwalk (by simp [Proper]), hlookup⟩

theorem walk_of_mem {content : Octets} (hmem : (place ++ route, content) ∈ folder.files)
    (hproper : Proper route) (hne : route ≠ []) :
    folder.walk place route = some (place ++ route) := by
  induction route generalizing place with
  | nil => exact absurd rfl hne
  | cons step others ih =>
    obtain ⟨⟨hname, hdown⟩, hothers⟩ := List.forall_mem_cons.mp hproper
    by_cases hlast : others = []
    · rw [hlast, walk, if_neg (by simp [hname, hdown])]
    · have hfolder : folder.isFolder (place ++ [step]) = true := by
        have hlength : 0 < others.length := List.length_pos_iff.mpr hlast
        simp only [isFolder, Bool.or_eq_true, List.any_eq_true]
        refine Or.inr ⟨_, hmem, ?_⟩
        simp [List.isPrefixOf_iff_prefix, hlength]
      have hsplit : place ++ step :: others = place ++ [step] ++ others := by simp
      rw [walk_cons hlast, if_neg (by simp [hname]), if_neg hdown, if_pos hfolder, hsplit]
      exact ih (hsplit ▸ hmem) hothers hlast

theorem find?_of_lookup {path content : Octets} (hproper : Proper (steps path))
    (hlookup : folder.files.lookup (steps path) = some content) :
    folder.find? path = some content := by
  have hne : steps path ≠ [] := Octets.pieces_ne_nil _ _
  have hmem : (steps path, content) ∈ folder.files := by
    obtain ⟨before, after, heq, -⟩ := List.lookup_eq_some_iff.mp hlookup
    rw [heq]
    exact List.mem_append_right _ List.mem_cons_self
  have hrelative : path.head? ≠ some Octets.slash := by
    intro hslash
    obtain ⟨rest, rfl⟩ := List.head?_eq_some_iff.mp hslash
    have hempty := (hproper [] (by simp [steps, Octets.pieces])).1
    cases hempty
  rw [find?, if_neg hrelative, walk_of_mem hmem hproper hne]
  exact hlookup

theorem lookup_ofList {files : List (Octets × Octets)}
    (hproper : ∀ file ∈ files, Proper (steps file.1)) (path : Octets) :
    (ofList files).files.lookup (steps path) = files.lookup path := by
  induction files with
  | nil => rfl
  | cons file files ih =>
    obtain ⟨hfirst, hothers⟩ := List.forall_mem_cons.mp hproper
    have hnames : (steps file.1).filter (!isNeutral ·) = steps file.1 := by
      refine List.filter_eq_self.mpr fun step hstep => ?_
      rw [(hfirst step hstep).1]
      rfl
    have hsame : (steps path == steps file.1) = (path == file.1) := by
      rw [Bool.eq_iff_iff, beq_iff_eq, beq_iff_eq]
      exact ⟨Octets.pieces_injective, congrArg steps⟩
    have hrest : (List.map (fun file => ((steps file.1).filter (!isNeutral ·), file.2))
        files).lookup (steps path) = files.lookup path := ih hothers
    rw [ofList, List.map_cons, hnames, List.lookup_cons, List.lookup_cons, hsame, hrest]

/-- Files whose paths are names are found by these paths, the first of several with one path. -/
theorem find?_ofList {files : List (Octets × Octets)}
    (hproper : ∀ file ∈ files, Proper (steps file.1)) {path content : Octets}
    (h : files.lookup path = some content) : (ofList files).find? path = some content := by
  obtain ⟨before, after, rfl, -⟩ := List.lookup_eq_some_iff.mp h
  have hpath : Proper (steps path) := hproper (path, content) (by simp)
  exact find?_of_lookup hpath ((lookup_ofList hproper path).trans h)

end Folder

end DetectorCache.Document
