/-
SumSheet.Proofs.FolderPaths — the folder that a file stands in.

The folder of a path is found in its text: the last step goes, and idle
steps in front of it. That the file stands in that folder is another
matter. A path is followed step by step, and `..` leads out of what has
been entered before, so it has to be known that what a file is the last
step of is what the steps in front of it lead to. Two facts carry this.

A path and its steps determine each other (`intercalate_steps`,
`steps_intercalate`), so the steps of a folder are those of the path but
for the last ones. And a walk only goes through folders (`Reached`): the
place above a place that was reached is a folder, so a walk to a file
does not end with a step that stays or goes back, and in front of its
last step it is in the place above the file.

  §1 Steps   — of a path, and of paths behind one another.
  §2 Walks   — go through folders, by induction on the steps.
  §3 Folders — `folder?` leads to the place above a file.
  §4 Joining — a joined path leads where the path leads from the folder.
-/
import Mathlib
import SumSheet.FileTree

namespace SumSheet

/-! ## §1 Steps -/

namespace Path

theorem splitAtSlash_slash (cs : List Char) :
    steps.splitAtSlash ('/' :: cs) = "" :: steps.splitAtSlash cs := by
  rw [steps.splitAtSlash]

/-- Any other character begins the first step. -/
theorem splitAtSlash_other {c : Char} (hc : c ≠ '/') (cs : List Char) :
    ∃ part parts, steps.splitAtSlash cs = part :: parts
      ∧ steps.splitAtSlash (c :: cs) = (String.singleton c ++ part) :: parts := by
  induction cs generalizing c with
  | nil => exact ⟨"", [], by rw [steps.splitAtSlash], by simp [steps.splitAtSlash]⟩
  | cons d cs ih =>
    obtain ⟨part, parts, hcs⟩ : ∃ part parts, steps.splitAtSlash (d :: cs) = part :: parts := by
      by_cases hd : d = '/'
      · exact ⟨_, _, hd ▸ splitAtSlash_slash cs⟩
      · obtain ⟨part, parts, -, hcs⟩ := ih hd
        exact ⟨_, _, hcs⟩
    refine ⟨part, parts, hcs, ?_⟩
    rw [steps.splitAtSlash, hcs]
    exact hc

theorem splitAtSlash_toList (cs : List Char) :
    (steps.splitAtSlash cs).map String.toList = cs.splitOn '/' := by
  induction cs with
  | nil => simp [steps.splitAtSlash]
  | cons c cs ih =>
    rw [List.splitOn_cons_eq_if_modifyHead, ← ih]
    by_cases hc : c = '/'
    · rw [if_pos (beq_iff_eq.mpr hc), hc, splitAtSlash_slash]
      rfl
    · obtain ⟨part, parts, hcs, hcons⟩ := splitAtSlash_other hc cs
      rw [if_neg (by simpa using hc), hcons, hcs]
      simp

theorem slash_not_mem_of_mem_splitAtSlash {cs : List Char} {step : String}
    (h : step ∈ steps.splitAtSlash cs) : '/' ∉ step.toList := by
  induction cs generalizing step with
  | nil =>
    rw [steps.splitAtSlash, List.mem_singleton] at h
    rw [h]
    decide
  | cons c cs ih =>
    by_cases hc : c = '/'
    · rw [hc, splitAtSlash_slash, List.mem_cons] at h
      rcases h with rfl | h
      · decide
      · exact ih h
    · obtain ⟨part, parts, hcs, hcons⟩ := splitAtSlash_other hc cs
      rw [hcs] at ih
      rw [hcons, List.mem_cons] at h
      rcases h with rfl | h
      · simpa [Ne.symm hc] using ih List.mem_cons_self
      · exact ih (List.mem_cons_of_mem _ h)

theorem slash_not_mem_of_mem_steps {path step : String} (h : step ∈ steps path) :
    '/' ∉ step.toList :=
  slash_not_mem_of_mem_splitAtSlash h

/-- The steps are the pieces between slashes. -/
theorem steps_toList (path : String) :
    (steps path).map String.toList = path.toList.splitOn '/' :=
  splitAtSlash_toList path.toList

theorem eq_of_map_toList_eq {xs ys : List String}
    (h : xs.map String.toList = ys.map String.toList) : xs = ys :=
  (List.map_inj_right fun _ _ => String.toList_injective).mp h

/-- A path is known from its steps. -/
theorem intercalate_steps (path : String) : "/".intercalate (steps path) = path := by
  apply String.toList_injective
  rw [String.toList_intercalate, steps_toList]
  exact List.intercalate_splitOn '/'

/-- Steps without slashes are those of the path that is made of them. -/
theorem steps_intercalate {xs : List String} (hne : xs ≠ []) (hxs : ∀ x ∈ xs, '/' ∉ x.toList) :
    steps ("/".intercalate xs) = xs := by
  apply eq_of_map_toList_eq
  rw [steps_toList, String.toList_intercalate]
  exact List.splitOn_intercalate '/' (by simpa using hxs) (by simpa using hne)

/-- Where a slash divides a path, it divides the steps. -/
theorem steps_append (front behind : String) :
    steps (front ++ "/" ++ behind) = steps front ++ steps behind := by
  apply eq_of_map_toList_eq
  rw [List.map_append, steps_toList, steps_toList, steps_toList, ← List.splitOn_append_cons_self]
  simp

theorem steps_ne_nil (path : String) : steps path ≠ [] := by
  intro hnil
  have hsplit := steps_toList path
  rw [hnil, List.map_nil] at hsplit
  exact List.splitOn_ne_nil _ _ hsplit.symm

/-- A path starts at the root exactly if its first step is empty and not the only one. -/
theorem isAbsolute_iff {path first : String} {rest : List String}
    (h : steps path = first :: rest) : isAbsolute path = true ↔ first = "" ∧ rest ≠ [] := by
  have hslash : '/' ∉ first.toList :=
    slash_not_mem_of_mem_steps (h ▸ List.mem_cons_self)
  have hpath := intercalate_steps path
  rw [h] at hpath
  rw [isAbsolute, ← hpath, beq_iff_eq]
  cases hfirst : first.toList with
  | nil =>
    obtain rfl : first = "" := String.toList_injective hfirst
    by_cases hrest : rest = []
    · simp [hrest]
    · rw [String.intercalate_cons_of_ne_nil hrest]
      simp [hrest]
  | cons c cs =>
    have hc : c ≠ '/' := fun heq => hslash (by simp [hfirst, heq])
    have hne : first ≠ "" := by
      rintro rfl
      cases hfirst
    by_cases hrest : rest = []
    · simp [hrest, hfirst, hc]
    · rw [String.intercalate_cons_of_ne_nil hrest]
      simp [hfirst, hc, hne]

end Path

/-! ## §2 Walks -/

namespace FileTree

/-- A step from a place: it stays there, goes back, or enters what stands there under its name. -/
inductive Leads (t : FileTree) (place : Place) (step : String) : Place → Prop
  | stay (hidle : Path.isIdle step = true) : Leads t place step place
  | back (hback : step = "..") : Leads t place step place.dropLast
  | enter (hidle : Path.isIdle step = false) (hback : step ≠ "..")
    (hsize : step.utf8ByteSize ≤ stepLimit) (hentry : (t.entry? (place ++ [step])).isSome = true) :
    Leads t place step (place ++ [step])

/-- Something stands at the place, and the places above it are folders. -/
structure Reached (t : FileTree) (place : Place) : Prop where
  stands : (t.entry? place).isSome = true
  above : ∀ upper, upper <+: place → upper ≠ place → t.isFolder upper = true

section

variable {t : FileTree} {place next found : Place} {step : String}
  {steps front behind : List String}

theorem walk_cons_iff : t.walk place (step :: steps) = .ok found
    ↔ t.isFolder place = true
      ∧ ∃ next, t.Leads place step next ∧ t.walk next steps = .ok found := by
  rw [walk]
  constructor
  · intro h
    split at h
    · cases h
    · rename_i hfolder
      refine ⟨by simpa using hfolder, ?_⟩
      split at h
      · exact ⟨_, .stay ‹_›, h⟩
      · rename_i hidle
        split at h
        · exact ⟨_, .back (beq_iff_eq.mp ‹_›), h⟩
        · rename_i hback
          split at h
          · cases h
          · rename_i hsize
            split at h
            · rename_i entry hentry
              exact ⟨_, .enter (by simpa using hidle) (by simpa using hback)
                (Nat.le_of_not_lt hsize) (by rw [hentry]; rfl), h⟩
            · cases h
  · rintro ⟨hfolder, next, hleads, h⟩
    cases hleads with
    | stay hidle => simpa [hfolder, hidle] using h
    | back hback =>
      subst hback
      simpa [hfolder, Path.isIdle] using h
    | enter hidle hback hsize hentry =>
      obtain ⟨entry, hentry⟩ := Option.isSome_iff_exists.mp hentry
      simpa [hfolder, hidle, hback, Nat.not_lt.mpr hsize, hentry] using h

/-- A walk goes on where it has led. -/
theorem walk_append (t : FileTree) (place : Place) (front behind : List String) :
    t.walk place (front ++ behind)
      = t.walk place front >>= fun next => t.walk next behind := by
  induction front generalizing place with
  | nil => rfl
  | cons step front ih =>
    rw [List.cons_append, walk, walk]
    split
    · rfl
    · split
      · exact ih place
      · split
        · exact ih _
        · split
          · rfl
          · split
            · exact ih _
            · rfl

theorem walk_append_iff : t.walk place (front ++ behind) = .ok found
    ↔ ∃ next, t.walk place front = .ok next ∧ t.walk next behind = .ok found := by
  rw [walk_append]
  cases t.walk place front with
  | error cause => simp [bind, Except.bind]
  | ok next => simp [bind, Except.bind]

theorem isSome_of_isFolder (h : t.isFolder place = true) : (t.entry? place).isSome = true := by
  unfold isFolder at h
  split at h
  · rename_i hentry
    rw [hentry]
    rfl
  · cases h

theorem isFolder_of_isPrefix (h : place <+: t.workingFolder) : t.isFolder place = true := by
  simp [isFolder, entry?, List.isPrefixOf_iff_prefix.mpr h]

namespace Reached

/-- The walks of paths begin at the root and in the working folder. -/
theorem of_isPrefix (h : place <+: t.workingFolder) : t.Reached place :=
  ⟨isSome_of_isFolder (isFolder_of_isPrefix h), fun _ hupper _ =>
    isFolder_of_isPrefix (hupper.trans h)⟩

theorem isFolder_dropLast (h : t.Reached place) (hfolder : t.isFolder place = true) :
    t.isFolder place.dropLast = true := by
  by_cases hplace : place.dropLast = place
  · rwa [hplace]
  · exact h.above _ (List.dropLast_prefix place) hplace

theorem leads (h : t.Reached place) (hfolder : t.isFolder place = true)
    (hleads : t.Leads place step next) : t.Reached next := by
  cases hleads with
  | stay => exact h
  | back =>
    refine ⟨isSome_of_isFolder (h.isFolder_dropLast hfolder), fun upper hupper hne => ?_⟩
    refine h.above upper (hupper.trans (List.dropLast_prefix place)) ?_
    rintro rfl
    exact hne (hupper.eq_of_length_le (by simp))
  | enter _ _ _ hentry =>
    refine ⟨hentry, fun upper hupper hne => ?_⟩
    rcases List.prefix_concat_iff.mp hupper with heq | hupper
    · exact absurd heq hne
    · by_cases heq : upper = place
      · rwa [heq]
      · exact h.above upper hupper heq

/-- Whatever a walk has led to, all places above it are folders. -/
theorem walk (h : t.Reached place) (hwalk : t.walk place steps = .ok found) : t.Reached found := by
  induction steps generalizing place with
  | nil => exact Except.ok.inj hwalk ▸ h
  | cons step steps ih =>
    obtain ⟨hfolder, next, hleads, hrest⟩ := walk_cons_iff.mp hwalk
    exact ih (h.leads hfolder hleads) hrest

/-- A walk to a file ends with a step that enters it, from the folder above it. -/
theorem last_step (h : t.Reached place) (hwalk : t.walk place (front ++ [step]) = .ok found)
    (hfile : t.isFolder found = false) : Path.isIdle step = false
      ∧ t.walk place front = .ok found.dropLast ∧ t.isFolder found.dropLast = true := by
  obtain ⟨next, hfront, hlast⟩ := walk_append_iff.mp hwalk
  obtain ⟨hfolder, last, hleads, hend⟩ := walk_cons_iff.mp hlast
  obtain rfl := Except.ok.inj hend
  cases hleads with
  | stay => exact absurd hfolder (by simp [hfile])
  | back => exact absurd ((h.walk hfront).isFolder_dropLast hfolder) (by simp [hfile])
  | enter hidle =>
    rw [List.dropLast_concat]
    exact ⟨hidle, hfront, hfolder⟩

end Reached

/-- Idle steps lead nowhere else. -/
theorem eq_of_walk_idle (hidle : ∀ step ∈ steps, Path.isIdle step = true)
    (hwalk : t.walk place steps = .ok found) : found = place := by
  induction steps with
  | nil => exact (Except.ok.inj hwalk).symm
  | cons step steps ih =>
    obtain ⟨-, next, hleads, hrest⟩ := walk_cons_iff.mp hwalk
    have hstep := hidle step List.mem_cons_self
    cases hleads with
    | stay => exact ih (fun step hmem => hidle step (List.mem_cons_of_mem _ hmem)) hrest
    | back hback =>
      subst hback
      cases hstep
    | enter hbusy =>
      rw [hbusy] at hstep
      cases hstep

theorem walk_dropIdle (hwalk : t.walk place steps = .ok found) :
    t.walk place (Path.dropIdle steps) = .ok found := by
  cases steps with
  | nil => exact hwalk
  | cons first rest =>
    have hsplit : first :: rest
        = Path.dropIdle (first :: rest) ++ rest.rtakeWhile Path.isIdle :=
      congrArg (first :: ·) (List.rdropWhile_append_rtakeWhile (p := Path.isIdle)).symm
    rw [hsplit] at hwalk
    obtain ⟨next, hfront, hidle⟩ := walk_append_iff.mp hwalk
    rwa [eq_of_walk_idle (fun step => List.mem_rtakeWhile_imp) hidle]

end

end FileTree

/-! ## §3 Folders -/

namespace Path

theorem dropIdle_cons (first : String) (rest : List String) :
    dropIdle (first :: rest) = first :: rest.rdropWhile isIdle := rfl

theorem ofSteps_of_ne {xs : List String} (h : xs ≠ [""]) : ofSteps xs = "/".intercalate xs := by
  unfold ofSteps
  split
  · exact absurd rfl h
  · rfl

/-- The last step of a file goes, and idle steps in front of it. -/
theorem folder?_of_steps {path name : String} {front : List String}
    (h : steps path = front ++ [name]) (hname : isIdle name = false) :
    folder? path = some (ofSteps (dropIdle front)) := by
  have hdrop : dropIdle (front ++ [name]) = front ++ [name] := by
    cases front with
    | nil => rfl
    | cons first rest =>
      rw [List.cons_append, dropIdle_cons, List.rdropWhile_concat_neg _ _ _ (by simp [hname])]
  unfold folder?
  rw [h, hdrop]
  split
  · rename_i hnil
    simp at hnil
  · rename_i hone
    rw [← List.nil_append [""]] at hone
    obtain rfl := List.singleton_inj.mp (List.append_inj' hone rfl).2
    cases hname
  · rw [List.dropLast_concat]

/-- How the folder of a path with more than one step is written. -/
structure IsFolderText (path folder : String) (front : List String) : Prop where
  ne_empty : folder ≠ ""
  begins : ∃ behind, path = folder ++ behind
  isAbsolute_iff : isAbsolute folder = true ↔ isAbsolute path = true
  /-- Only the root has a step more, behind its slash. -/
  steps_eq : steps folder = dropIdle front ∨ dropIdle front = [""] ∧ folder = "/"

theorem isFolderText {path name first : String} {rest : List String}
    (h : steps path = first :: rest ++ [name]) :
    IsFolderText path (ofSteps (dropIdle (first :: rest))) (first :: rest) := by
  have habsolute : isAbsolute path = true ↔ first = "" := by
    rw [isAbsolute_iff h]
    simp
  have hpath := intercalate_steps path
  rw [h] at hpath
  rw [dropIdle_cons]
  by_cases hroot : first :: rest.rdropWhile isIdle = [""]
  · obtain ⟨rfl, -⟩ := List.cons.inj hroot
    rw [hroot]
    refine ⟨by decide, ⟨"/".intercalate (rest ++ [name]), ?_⟩, ?_, .inr ⟨hroot, rfl⟩⟩
    · rw [← hpath, List.cons_append, String.intercalate_cons_of_ne_nil (by simp)]
      rfl
    · exact iff_of_true (by decide) (habsolute.mpr rfl)
  · have hbegin : first :: rest.rdropWhile isIdle <+: first :: rest :=
      List.cons_prefix_cons.mpr ⟨rfl, List.rdropWhile_prefix _ _⟩
    have hsteps : steps ("/".intercalate (first :: rest.rdropWhile isIdle))
        = first :: rest.rdropWhile isIdle := by
      refine steps_intercalate (List.cons_ne_nil _ _) fun step hstep => ?_
      have hmem : step ∈ steps path := h ▸ List.mem_append_left _ (hbegin.subset hstep)
      exact slash_not_mem_of_mem_steps hmem
    rw [ofSteps_of_ne hroot]
    refine ⟨?_, ?_, ?_, .inl hsteps⟩
    · intro hempty
      rw [hempty] at hsteps
      exact hroot (hsteps.symm.trans rfl)
    · have hdivide : first :: rest ++ [name]
          = (first :: rest.rdropWhile isIdle) ++ (rest.rtakeWhile isIdle ++ [name]) := by
        rw [List.cons_append, List.cons_append, ← List.append_assoc,
          List.rdropWhile_append_rtakeWhile]
      rw [hdivide, String.intercalate_append_of_ne_nil (by simp) (by simp)] at hpath
      exact ⟨_, by rw [← hpath, String.append_assoc]⟩
    · rw [isAbsolute_iff hsteps, habsolute]
      refine ⟨And.left, fun hfirst => ⟨hfirst, fun hrest => ?_⟩⟩
      rw [hfirst, hrest] at hroot
      exact hroot rfl

end Path

namespace FileTree

section

variable {t : FileTree} {path folder : String} {place found : Place}

/-- Where the walk of a path begins. -/
def start (t : FileTree) (path : String) : Place :=
  if Path.isAbsolute path then [] else t.workingFolder

theorem reached_start (t : FileTree) (path : String) : t.Reached (t.start path) := by
  unfold start
  split
  · exact .of_isPrefix List.nil_prefix
  · exact .of_isPrefix List.prefix_rfl

/-- A path that is not too long for a path is walked. -/
theorem locate_of_short (hnul : '\x00' ∉ path.toList) (hne : path ≠ "")
    (hsize : path.utf8ByteSize < pathLimit) :
    t.locate path = t.walk (t.start path) (Path.steps path) := by
  simp [locate, start, hnul, hne, Nat.not_le.mpr hsize]

theorem locate_eq_ok_iff : t.locate path = .ok place
    ↔ '\x00' ∉ path.toList ∧ path ≠ "" ∧ path.utf8ByteSize < pathLimit
      ∧ t.walk (t.start path) (Path.steps path) = .ok place := by
  constructor
  · intro h
    unfold locate at h
    split at h
    · cases h
    · split at h
      · cases h
      · split at h
        · cases h
        · exact ⟨by simp_all, by simp_all, by omega, h⟩
  · rintro ⟨hnul, hne, hsize, hwalk⟩
    rwa [locate_of_short hnul hne hsize]

theorem reached_of_locate (h : t.locate path = .ok place) : t.Reached place := by
  obtain ⟨-, -, -, hwalk⟩ := locate_eq_ok_iff.mp h
  exact (reached_start t path).walk hwalk

/-- The text of a folder leads where the steps in front of the name lead. -/
theorem locate_folderText {front : List String} (htext : Path.IsFolderText path folder front)
    (hpath : t.locate path = .ok found) (hfront : t.walk (t.start path) front = .ok place) :
    t.locate folder = .ok place := by
  obtain ⟨hnul, -, hsize, -⟩ := locate_eq_ok_iff.mp hpath
  obtain ⟨behind, hbehind⟩ := htext.begins
  have hfolderNul : '\x00' ∉ folder.toList := fun hmem => hnul (hbehind ▸ by simp [hmem])
  have hfolderSize : folder.utf8ByteSize < pathLimit := by
    have hsum := congrArg String.utf8ByteSize hbehind
    rw [String.utf8ByteSize_append] at hsum
    omega
  have hstart : t.start folder = t.start path := by
    simp only [start, htext.isAbsolute_iff]
  rw [locate_of_short hfolderNul htext.ne_empty hfolderSize, hstart]
  have hkept := walk_dropIdle hfront
  rcases htext.steps_eq with heq | ⟨hone, hslash⟩
  · rwa [heq]
  · -- the slash of the root has an empty step on either side, and one is idle as the other
    rw [hone] at hkept
    have hidle := eq_of_walk_idle (by decide) hkept
    rw [hslash, show Path.steps "/" = [""] ++ [""] from rfl]
    exact walk_append_iff.mpr ⟨_, hkept, by rwa [hidle] at hkept ⊢⟩

/-- What the path leads to stands in the folder. The empty path means the working folder here. -/
def StandsIn (t : FileTree) (path folder : String) : Prop :=
  ∃ place, t.locate path = .ok place
    ∧ if folder = "" then t.workingFolder = place.dropLast else t.locate folder = .ok place.dropLast

/-- A file has a folder, and stands in it. -/
theorem exists_folder (hpath : t.locate path = .ok place) (hfile : t.isFolder place = false) :
    ∃ folder, Path.folder? path = some folder ∧ t.StandsIn path folder
      ∧ (Path.isAbsolute path = true → Path.isAbsolute folder = true) := by
  obtain ⟨-, -, -, hwalk⟩ := locate_eq_ok_iff.mp hpath
  obtain ⟨front, name, hsteps⟩ : ∃ front name, Path.steps path = front ++ [name] :=
    (List.eq_nil_or_concat' _).resolve_left (Path.steps_ne_nil path)
  rw [hsteps] at hwalk
  obtain ⟨hname, hfront, -⟩ := (reached_start t path).last_step hwalk hfile
  refine ⟨_, Path.folder?_of_steps hsteps hname, ?_⟩
  cases front with
  | nil =>
    have hrelative : Path.isAbsolute path = false := by
      rw [← Bool.not_eq_true, Path.isAbsolute_iff hsteps]
      simp
    rw [start, hrelative] at hfront
    rw [hrelative]
    exact ⟨⟨place, hpath, Except.ok.inj hfront⟩, nofun⟩
  | cons first rest =>
    have htext := Path.isFolderText hsteps
    refine ⟨⟨place, hpath, ?_⟩, htext.isAbsolute_iff.mpr⟩
    rw [if_neg htext.ne_empty]
    exact locate_folderText htext hpath hfront

end

end FileTree

/-! ## §4 Joining -/

namespace Path

theorem isAbsolute_append {front : String} (hne : front ≠ "") (behind : String) :
    isAbsolute (front ++ behind) = isAbsolute front := by
  have hfront : front.toList ≠ [] := mt String.toList_eq_nil_iff.mp hne
  rw [isAbsolute, isAbsolute, String.toList_append, List.head?_append_of_ne_nil _ hfront]

/-- From a folder that starts at the root, every path does. -/
theorem isAbsolute_join {folder : String} (hfolder : isAbsolute folder = true) (path : String) :
    isAbsolute (join folder path) = true := by
  have hne : folder ≠ "" := by
    rintro rfl
    cases hfolder
  unfold join
  split
  · simp_all
  · split
    · rwa [isAbsolute_append hne]
    · rwa [String.append_assoc, isAbsolute_append hne]

/-- A slash stands between the folder and the path, and it may be one of the folder. -/
theorem join_of_relative {folder path : String} (hne : folder ≠ "")
    (hpath : isAbsolute path = false) :
    ∃ front, join folder path = front ++ "/" ++ path
      ∧ (folder = front ∨ folder = front ++ "/") := by
  have hstays : (isAbsolute path || folder.isEmpty) = false := by simp [hpath, hne]
  rw [join, hstays]
  split
  · contradiction
  · split
    · rename_i hslash
      obtain ⟨front, hfront⟩ := List.getLast?_eq_some_iff.mp (beq_iff_eq.mp hslash)
      have hfolder : folder = String.ofList front ++ "/" := by
        apply String.toList_injective
        simp [hfront]
      exact ⟨_, by rw [← hfolder], .inr hfolder⟩
    · exact ⟨_, rfl, .inl rfl⟩

end Path

namespace FileTree

section

variable {t : FileTree} {folder path : String} {place : Place}

/-- A path seen from a folder is walked from the place of the folder. -/
theorem locate_join (hfolder : t.locate folder = .ok place) (hpath : Path.isAbsolute path = false)
    (hnul : '\x00' ∉ path.toList) (hsize : (Path.join folder path).utf8ByteSize < pathLimit) :
    t.locate (Path.join folder path) = t.walk place (Path.steps path) := by
  obtain ⟨hfolderNul, hne, -, hwalk⟩ := locate_eq_ok_iff.mp hfolder
  obtain ⟨front, hjoin, hfront⟩ := Path.join_of_relative hne hpath
  have hstart : t.start (Path.join folder path) = t.start folder := by
    rw [start, start, hjoin]
    rcases hfront with rfl | hslash
    · rw [String.append_assoc, Path.isAbsolute_append hne]
    · rw [← hslash, Path.isAbsolute_append hne]
  have hwalkFront : t.walk (t.start folder) (Path.steps front) = .ok place := by
    rcases hfront with rfl | hslash
    · exact hwalk
    · have hsteps : Path.steps folder = Path.steps front ++ [""] := by
        rw [hslash, show front ++ "/" = front ++ "/" ++ "" by simp, Path.steps_append]
        rfl
      rw [hsteps] at hwalk
      obtain ⟨next, hnext, hidle⟩ := walk_append_iff.mp hwalk
      rwa [eq_of_walk_idle (by decide) hidle]
  have hjoinNul : '\x00' ∉ (Path.join folder path).toList := by
    rcases hfront with rfl | hslash <;> simp_all
  rw [locate_of_short hjoinNul (by simp [hjoin]) hsize, hstart, hjoin, Path.steps_append,
    walk_append, hwalkFront]
  rfl

end

end FileTree

end SumSheet
