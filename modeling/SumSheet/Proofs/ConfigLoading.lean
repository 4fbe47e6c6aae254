/-
SumSheet.Proofs.ConfigLoading — what comes of a configuration file that
was asked for.

Either the file holds a configuration, and then it is the one that is
used, with its paths as seen from the folder of the file, and nobody is
warned. Or it does not, and then there is one warning and the default
configuration, of which nothing comes from the file. `Spells` and
`Warns` say this of the file alone, the latter with one case for each
thing that can be wrong and the text that is shown. They exclude each
other and leave no third, so what loading gives is known from what it
gives in either case (`Spells.load_eq`, `Warns.load_eq`).

  §1 Reading  — a path leads to a file, to a folder, or nowhere.
  §2 Outcomes — configurations and warnings, as relations.
  §3 Paths    — as they are given, as they are seen, and where they lead.
  §4 Loading  — one of the two outcomes.

The notation of the file plays no part in this: what `ofText?` takes for
a configuration is not looked at here.
-/
import SumSheet.Proofs.FailedEdits
import SumSheet.Proofs.FolderPaths
import SumSheet.Config.Basic

namespace SumSheet

/-! ## §1 Reading -/

namespace FileTree

section

variable {t : FileTree} {path : String} {place : Place}

/-- Nothing can be read where the path does not lead. -/
theorem readBytes_of_locate_error {cause : FileError} (h : t.locate path = .error cause) :
    t.readBytes path = .error cause := by
  rw [readBytes, h]
  rfl

theorem readBytes_of_isFolder (h : t.locate path = .ok place) (hfolder : t.isFolder place = true) :
    t.readBytes path = .error .isAFolder := by
  unfold isFolder at hfolder
  rw [readBytes, h]
  cases hentry : t.entry? place with
  | none => simp [hentry] at hfolder
  | some entry =>
    cases entry with
    | file content => simp [hentry] at hfolder
    | folder => simp [hentry, bind, Except.bind, throw, throwThe, MonadExceptOf.throw]

/-- Something stands where a path leads, and what is no folder can be read. -/
theorem exists_readBytes (h : t.locate path = .ok place) (hfile : t.isFolder place = false) :
    ∃ content, t.readBytes path = .ok content := by
  obtain ⟨entry, hentry⟩ := Option.isSome_iff_exists.mp (reached_of_locate h).stands
  cases entry with
  | folder => simp [isFolder, hentry] at hfile
  | file content =>
    exact ⟨content, by simp [readBytes, h, hentry, bind, Except.bind, pure, Except.pure]⟩

/-- What can be read is found, and is no folder. -/
theorem exists_locate {content : ByteArray} (h : t.readBytes path = .ok content) :
    ∃ place, t.locate path = .ok place ∧ t.isFolder place = false := by
  cases hpath : t.locate path with
  | error cause =>
    rw [readBytes_of_locate_error hpath] at h
    cases h
  | ok place =>
    refine ⟨place, rfl, ?_⟩
    cases hfolder : t.isFolder place with
    | false => rfl
    | true =>
      rw [readBytes_of_isFolder hpath hfolder] at h
      cases h

theorem contains_of_locate (h : t.locate path = .ok place) : t.contains path = true := by
  simp [contains, h, Except.toOption]

end

end FileTree

namespace Config

/-! ## §2 Outcomes -/

/-- The file holds the text of a configuration, and is not too large. -/
def Spells (files : FileTree) (path : String) (config : Config) : Prop :=
  ∃ content text, files.readBytes path = .ok content ∧ content.size ≤ 1048576
    ∧ String.fromUTF8? content = some text ∧ ofText? text = some config

/-- What is wrong with a file that was asked for, and how that is said. -/
inductive Warns (files : FileTree) (path : String) : String → Prop
  | missing {cause : FileError} (hpath : files.locate path = .error cause) :
      Warns files path ("Config file not found: " ++ path)
  | aFolder {place : Place} (hpath : files.locate path = .ok place)
      (hfolder : files.isFolder place = true) :
      Warns files path ("Failed to read " ++ path ++ ": Is a directory (os error 21)")
  | tooLarge {content : ByteArray} (hread : files.readBytes path = .ok content)
      (hsize : 1048576 < content.size) :
      Warns files path ("Refusing to read " ++ path ++ ": file too large ("
        ++ toString content.size ++ " bytes, max 1048576)")
  | notText {content : ByteArray} (hread : files.readBytes path = .ok content)
      (hsize : content.size ≤ 1048576) (htext : String.fromUTF8? content = none) :
      Warns files path ("Failed to read " ++ path ++ ": stream did not contain valid UTF-8")
  | notNotation {content : ByteArray} {text : String}
      (hread : files.readBytes path = .ok content) (hsize : content.size ≤ 1048576)
      (htext : String.fromUTF8? content = some text) (hparsed : ofText? text = none) :
      Warns files path ("Failed to parse " ++ path ++ ": TOML parse error")

section

variable {files : FileTree} {path warning : String} {config : Config}

/-- The two outcomes exclude each other. -/
theorem Warns.not_spells (h : Warns files path warning) : ¬ Spells files path config := by
  rintro ⟨content, text, hread, hsize, htext, hparsed⟩
  cases h with
  | missing hpath =>
    rw [FileTree.readBytes_of_locate_error hpath] at hread
    cases hread
  | aFolder hpath hfolder =>
    rw [FileTree.readBytes_of_isFolder hpath hfolder] at hread
    cases hread
  | tooLarge hother hlarge =>
    obtain rfl := Except.ok.inj (hread.symm.trans hother)
    omega
  | notText hother _ hnone =>
    obtain rfl := Except.ok.inj (hread.symm.trans hother)
    rw [htext] at hnone
    cases hnone
  | notNotation hother _ hsome hnone =>
    obtain rfl := Except.ok.inj (hread.symm.trans hother)
    obtain rfl := Option.some.inj (htext.symm.trans hsome)
    rw [hparsed] at hnone
    cases hnone

/-- There is no third one. -/
theorem spells_or_warns (files : FileTree) (path : String) :
    (∃ parsed, Spells files path parsed) ∨ ∃ warning, Warns files path warning := by
  cases hpath : files.locate path with
  | error cause => exact .inr ⟨_, .missing hpath⟩
  | ok place =>
    cases hfolder : files.isFolder place with
    | true => exact .inr ⟨_, .aFolder hpath hfolder⟩
    | false =>
      obtain ⟨content, hread⟩ := FileTree.exists_readBytes hpath hfolder
      rcases Nat.lt_or_ge 1048576 content.size with hlarge | hsize
      · exact .inr ⟨_, .tooLarge hread hlarge⟩
      · cases htext : String.fromUTF8? content with
        | none => exact .inr ⟨_, .notText hread hsize htext⟩
        | some text =>
          cases hparsed : ofText? text with
          | none => exact .inr ⟨_, .notNotation hread hsize htext hparsed⟩
          | some parsed => exact .inl ⟨parsed, content, text, hread, hsize, htext, hparsed⟩

end

/-! ## §3 Paths -/

/-- A path as it is given in a file, and as it is seen from the folder of that file. -/
inductive SeenFrom (folder given : String) : String → Prop
  | absolute (hgiven : Path.isAbsolute given = true) : SeenFrom folder given given
  | relative (hgiven : Path.isAbsolute given = false) :
      SeenFrom folder given (Path.join folder given)

theorem seenFrom_join (folder given : String) : SeenFrom folder given (Path.join folder given) := by
  cases hgiven : Path.isAbsolute given with
  | false => exact .relative hgiven
  | true =>
    rw [show Path.join folder given = given by simp [Path.join, hgiven]]
    exact .absolute hgiven

/-- Where a path of a file leads as it is seen: a relative one is followed from the folder in which
the file stands. -/
def LeadsFrom (files : FileTree) (path given seen : String) : Prop :=
  ∃ place, files.locate path = .ok place
    ∧ (Path.isAbsolute given = false → given ≠ "" → '\x00' ∉ given.toList →
      seen.utf8ByteSize < FileTree.pathLimit →
        files.locate seen = files.walk place.dropLast (Path.steps given))

theorem SeenFrom.leadsFrom {files : FileTree} {path folder given seen : String}
    (hseen : SeenFrom folder given seen) (hstands : files.StandsIn path folder) :
    LeadsFrom files path given seen := by
  obtain ⟨place, hpath, hfolder⟩ := hstands
  refine ⟨place, hpath, fun hgiven hne hnul hsize => ?_⟩
  cases hseen with
  | absolute habsolute => exact absurd habsolute (by simp [hgiven])
  | relative =>
    by_cases hempty : folder = ""
    · have hjoin : Path.join folder given = given := by simp [Path.join, hempty]
      rw [if_pos hempty] at hfolder
      rw [hjoin] at hsize ⊢
      rw [FileTree.locate_of_short hnul hne hsize, FileTree.start, hgiven, ← hfolder]
      rfl
    · rw [if_neg hempty] at hfolder
      exact FileTree.locate_join hfolder hgiven hnul hsize

/-! ## §4 Loading -/

/-- A configuration as it is written in a file, and as it is seen from the folder of that file: all
paths are there, in their order. -/
structure IsSeen (path folder : String) (parsed config : Config) : Prop where
  functions : List.Forall₂ (SeenFrom folder) parsed.functions config.functions
  sideBySide : config.sideBySide = parsed.sideBySide
  isAbsolute : Path.isAbsolute path = true →
    ∀ seen ∈ config.functions, Path.isAbsolute seen = true

theorem isSeen_resolve {path folder : String}
    (habsolute : Path.isAbsolute path = true → Path.isAbsolute folder = true) (parsed : Config) :
    IsSeen path folder parsed (parsed.resolve folder) where
  functions := List.forall₂_map_right_iff.mpr (List.forall₂_same.mpr fun given _ =>
    seenFrom_join folder given)
  sideBySide := rfl
  isAbsolute hpath seen hseen := by
    obtain ⟨given, -, rfl⟩ := List.mem_map.mp hseen
    exact Path.isAbsolute_join (habsolute hpath) given

section

variable {files : FileTree} {path warning : String} {parsed : Config}

theorem message_isAFolder : FileError.isAFolder.message = "Is a directory (os error 21)" := rfl

theorem message_notText : FileError.notText.message = "stream did not contain valid UTF-8" := rfl

theorem message_tooLarge (path : String) (size : Nat) :
    (FileError.tooLarge path "file" size 1048576).message
      = "Refusing to read " ++ path ++ ": file too large (" ++ toString size
        ++ " bytes, max 1048576)" := by
  have hlimit : toString 1048576 = "1048576" := by decide
  unfold FileError.message
  simp only [hlimit]
  apply String.toList_injective
  simp

/-- What a warning is about leaves nothing but the warning. -/
theorem Warns.load_eq (h : Warns files path warning) :
    load files path true = (⟨[], false⟩, [warning]) := by
  cases h with
  | missing hpath => simp [load, FileTree.contains, hpath, Except.toOption, default]
  | aFolder hpath hfolder =>
    have hread := FileTree.readBytes_of_isFolder hpath hfolder
    simp [load, FileTree.contains_of_locate hpath, ofFile, FileTree.readLimited_eq, hread,
      message_isAFolder, String.append_assoc, default]
  | tooLarge hread hlarge =>
    obtain ⟨place, hpath, -⟩ := FileTree.exists_locate hread
    rw [← message_tooLarge]
    simp [load, FileTree.contains_of_locate hpath, ofFile, FileTree.readLimited_eq, hread,
      fileLimit, hlarge, default]
  | notText hread hsize htext =>
    obtain ⟨place, hpath, -⟩ := FileTree.exists_locate hread
    simp [load, FileTree.contains_of_locate hpath, ofFile, FileTree.readLimited_eq, hread,
      fileLimit, Nat.not_lt.mpr hsize, htext, message_notText, String.append_assoc, default]
  | notNotation hread hsize htext hparsed =>
    obtain ⟨place, hpath, -⟩ := FileTree.exists_locate hread
    simp [load, FileTree.contains_of_locate hpath, ofFile, FileTree.readLimited_eq, hread,
      fileLimit, Nat.not_lt.mpr hsize, htext, hparsed, String.append_assoc, default]

/-- A configuration is seen from the folder in which its file stands. -/
theorem Spells.load_eq (h : Spells files path parsed) :
    ∃ folder, Path.folder? path = some folder ∧ files.StandsIn path folder
      ∧ load files path true = (parsed.resolve folder, [])
      ∧ IsSeen path folder parsed (parsed.resolve folder) := by
  obtain ⟨content, text, hread, hsize, htext, hparsed⟩ := h
  obtain ⟨place, hpath, hfile⟩ := FileTree.exists_locate hread
  obtain ⟨folder, hfolder, hstands, habsolute⟩ := FileTree.exists_folder hpath hfile
  refine ⟨folder, hfolder, hstands, ?_, isSeen_resolve habsolute parsed⟩
  simp [load, FileTree.contains_of_locate hpath, ofFile, FileTree.readLimited_eq, hread,
    fileLimit, Nat.not_lt.mpr hsize, htext, hparsed, hfolder]

end

/-- A file that was asked for is read as it is, seen from the folder in which it stands, where its
relative paths lead from, or there is one warning and nothing is read. -/
theorem load_requested (files : FileTree) (path : String) :
    (∃ parsed config folder, load files path true = (config, []) ∧ Spells files path parsed
        ∧ Path.folder? path = some folder ∧ files.StandsIn path folder
        ∧ IsSeen path folder parsed config
        ∧ List.Forall₂ (LeadsFrom files path) parsed.functions config.functions)
      ∨ ∃ warning, load files path true = (⟨[], false⟩, [warning]) ∧ Warns files path warning
        ∧ ∀ parsed, ¬ Spells files path parsed := by
  rcases spells_or_warns files path with ⟨parsed, hspells⟩ | ⟨warning, hwarns⟩
  · obtain ⟨folder, hfolder, hstands, hload, hseen⟩ := hspells.load_eq
    exact .inl ⟨parsed, _, folder, hload, hspells, hfolder, hstands, hseen,
      hseen.functions.imp fun _ _ h => h.leadsFrom hstands⟩
  · exact .inr ⟨warning, hwarns.load_eq, hwarns, fun _ => hwarns.not_spells⟩

example : load ⟨["work"], [(["etc"], .folder), (["etc", "sums.toml"],
    .file "functions = [\"a.rhai\", \"/b.rhai\"]\nside_by_side = true\n".toUTF8)]⟩
    "/etc/sums.toml" true = (⟨["/etc/a.rhai", "/b.rhai"], true⟩, []) := by
  decide +kernel

end Config

end SumSheet
