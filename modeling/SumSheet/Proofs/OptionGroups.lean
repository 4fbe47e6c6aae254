/-
SumSheet.Proofs.OptionGroups — arguments are read as the groups that they
are made of, in whatever order these stand.

A group is a flag, an option with the value behind it, or the path of the
sheet (`Wish`), and it is spelled by one argument or by two. The value
behind an option belongs to its group whatever it looks like, also if it
is spelled like an option; so which arguments are options is decided from
the left, group by group.

`Asks` says what groups ask for without going through them one by one: a
flag if it stands among them, the values of one kind in the order in which
they stand, one path at most. How groups of different kinds are mixed does
not matter there. That this is what is read, and that nothing else is,
comes from two facts, one for no group (`asks_nil_iff`) and one for a
group in front of others (`asks_cons_iff`).

  §1 Groups  — what a group asks for, and how it is spelled.
  §2 Asking  — what groups ask for, and what the first of them adds.
  §3 Reading — a group that is read, and a group that is found.
  §4 Parsing — the theorem.
-/
import Mathlib
import SumSheet.CommandLine

namespace SumSheet.CommandLine

/-! ## §1 Groups -/

/-- An option without a value. -/
inductive Flag where
  | interactive | sideBySide | noDefaultFunctions | noConfig | verbose
  deriving DecidableEq, Repr

/-- The arguments that a flag goes by. -/
def Flag.spellings : Flag → List String
  | interactive => ["-i", "--interactive"]
  | sideBySide => ["-s", "--side-by-side"]
  | noDefaultFunctions => ["--no-default-functions"]
  | noConfig => ["--no-config"]
  | verbose => ["-v", "--verbose"]

/-- The flag is set. -/
def Options.flag (o : Options) : Flag → Bool
  | .interactive => o.interactive
  | .sideBySide => o.sideBySide
  | .noDefaultFunctions => o.noDefaultFunctions
  | .noConfig => o.noConfig
  | .verbose => o.verbose

/-- What one group of arguments asks for. -/
inductive Wish where
  | flag (f : Flag)
  | command (line : String)
  | functions (path : String)
  | config (path : String)
  | file (path : String)
  deriving DecidableEq, Repr

namespace Wish

/-- The arguments of a group. A value may be any text, the path of a sheet must not look like an
option; a lone `-` does not. -/
inductive Spelled : Wish → List String → Prop
  | flag {f : Flag} {arg : String} (harg : arg ∈ f.spellings) : Spelled (.flag f) [arg]
  | command {arg line : String} (harg : arg ∈ ["-c", "--command"]) :
    Spelled (.command line) [arg, line]
  | functions {arg path : String} (harg : arg ∈ ["-f", "--functions"]) :
    Spelled (.functions path) [arg, path]
  | config {path : String} : Spelled (.config path) ["--config", path]
  | file {path : String} (hpath : path = "-" ∨ path.toList.head? ≠ some '-') :
    Spelled (.file path) [path]

def command? : Wish → Option String
  | command line => some line
  | _ => none

def functions? : Wish → Option String
  | functions path => some path
  | _ => none

def config? : Wish → Option String
  | config path => some path
  | _ => none

def file? : Wish → Option String
  | file path => some path
  | _ => none

end Wish

/-- The arguments are these groups, one behind another. -/
inductive AreGroups : List Wish → List String → Prop
  | nil : AreGroups [] []
  | cons {w : Wish} {wishes : List Wish} {group rest : List String} (hgroup : w.Spelled group)
    (hrest : AreGroups wishes rest) : AreGroups (w :: wishes) (group ++ rest)

/-! ## §2 Asking -/

/-- What the groups ask for on top of some options. Of several configurations the last one counts,
and there is one sheet at most. -/
structure Asks (base : Options) (wishes : List Wish) (o : Options) : Prop where
  flags : ∀ f, o.flag f = true ↔ base.flag f = true ∨ .flag f ∈ wishes
  commands : o.commands = base.commands ++ wishes.filterMap Wish.command?
  functions : o.functions = base.functions ++ wishes.filterMap Wish.functions?
  config : o.config = (wishes.filterMap Wish.config?).getLast?.or base.config
  file : o.file.toList = base.file.toList ++ wishes.filterMap Wish.file?

/-- The options with what one group asks for. -/
def Options.add (o : Options) : Wish → Options
  | .flag .interactive => { o with interactive := true }
  | .flag .sideBySide => { o with sideBySide := true }
  | .flag .noDefaultFunctions => { o with noDefaultFunctions := true }
  | .flag .noConfig => { o with noConfig := true }
  | .flag .verbose => { o with verbose := true }
  | .command line => { o with commands := o.commands ++ [line] }
  | .functions path => { o with functions := o.functions ++ [path] }
  | .config path => { o with config := some path }
  | .file path => { o with file := some path }

section

variable (o : Options) (w : Wish)

@[simp] theorem add_flag (f : Flag) :
    (o.add w).flag f = true ↔ o.flag f = true ∨ .flag f = w := by
  cases w with
  | flag g => cases g <;> cases f <;> simp [Options.add, Options.flag]
  | _ => cases f <;> simp [Options.add, Options.flag]

@[simp] theorem add_commands : (o.add w).commands = o.commands ++ w.command?.toList := by
  cases w with
  | flag f => cases f <;> simp [Options.add, Wish.command?]
  | _ => simp [Options.add, Wish.command?]

@[simp] theorem add_functions : (o.add w).functions = o.functions ++ w.functions?.toList := by
  cases w with
  | flag f => cases f <;> simp [Options.add, Wish.functions?]
  | _ => simp [Options.add, Wish.functions?]

@[simp] theorem add_config : (o.add w).config = w.config?.or o.config := by
  cases w with
  | flag f => cases f <;> simp [Options.add, Wish.config?]
  | _ => simp [Options.add, Wish.config?]

@[simp] theorem add_file : (o.add w).file = w.file?.or o.file := by
  cases w with
  | flag f => cases f <;> simp [Options.add, Wish.file?]
  | _ => simp [Options.add, Wish.file?]

end

theorem Options.eq_of_fields {o o' : Options} (hflags : ∀ f, o.flag f = o'.flag f)
    (hcommands : o.commands = o'.commands) (hfunctions : o.functions = o'.functions)
    (hconfig : o.config = o'.config) (hfile : o.file = o'.file) : o = o' := by
  have hinteractive := hflags .interactive
  have hbeside := hflags .sideBySide
  have hdefaults := hflags .noDefaultFunctions
  have hnone := hflags .noConfig
  have hverbose := hflags .verbose
  cases o
  cases o'
  simp_all [Options.flag]

theorem filterMap_cons_eq {α β : Type} (f : α → Option β) (x : α) (xs : List α) :
    (x :: xs).filterMap f = (f x).toList ++ xs.filterMap f := by
  cases h : f x <;> simp [h]

section

variable {base o : Options} {w : Wish} {wishes : List Wish}

/-- No groups ask for nothing. -/
theorem asks_nil_iff : Asks base [] o ↔ o = base := by
  constructor
  · intro h
    refine Options.eq_of_fields (fun f => ?_) ?_ ?_ ?_ ?_
    · rw [Bool.eq_iff_iff, h.flags f]
      simp
    · simpa using h.commands
    · simpa using h.functions
    · simpa using h.config
    · simpa using congrArg List.head? h.file
  · rintro rfl
    exact ⟨fun f => by simp, by simp, by simp, by simp, by simp⟩

/-- There is one path of a sheet at most. -/
theorem Asks.file_eq_none (h : Asks base (w :: wishes) o) (hsome : w.file?.isSome = true) :
    base.file = none := by
  obtain ⟨path, hpath⟩ := Option.isSome_iff_exists.mp hsome
  have hfile := h.file
  rw [filterMap_cons_eq, hpath] at hfile
  cases hbase : base.file with
  | none => rfl
  | some first =>
    have hlength := congrArg List.length hfile
    rw [hbase] at hlength
    cases ho : o.file <;> simp [ho] at hlength

/-- The first group asks for itself, and for a sheet only if there is none yet. -/
theorem asks_cons_iff : Asks base (w :: wishes) o
    ↔ (w.file?.isSome = true → base.file = none) ∧ Asks (base.add w) wishes o := by
  have hflags (f : Flag) : (base.flag f = true ∨ .flag f ∈ w :: wishes)
      ↔ ((base.add w).flag f = true ∨ .flag f ∈ wishes) := by
    rw [add_flag, List.mem_cons, or_assoc]
  have hcommands : base.commands ++ (w :: wishes).filterMap Wish.command?
      = (base.add w).commands ++ wishes.filterMap Wish.command? := by
    rw [add_commands, filterMap_cons_eq, List.append_assoc]
  have hfunctions : base.functions ++ (w :: wishes).filterMap Wish.functions?
      = (base.add w).functions ++ wishes.filterMap Wish.functions? := by
    rw [add_functions, filterMap_cons_eq, List.append_assoc]
  have hconfig : ((w :: wishes).filterMap Wish.config?).getLast?.or base.config
      = (wishes.filterMap Wish.config?).getLast?.or (base.add w).config := by
    rw [filterMap_cons_eq, List.getLast?_append, add_config, Option.or_assoc]
    cases w.config? <;> rfl
  have hfile (hnew : w.file?.isSome = true → base.file = none) :
      base.file.toList ++ (w :: wishes).filterMap Wish.file?
        = (base.add w).file.toList ++ wishes.filterMap Wish.file? := by
    rw [add_file, filterMap_cons_eq]
    cases hw : w.file? with
    | none => simp
    | some path => simp [hnew (by rw [hw]; rfl)]
  constructor
  · intro h
    have hnew := h.file_eq_none
    exact ⟨hnew, fun f => (h.flags f).trans (hflags f), h.commands.trans hcommands,
      h.functions.trans hfunctions, h.config.trans hconfig, h.file.trans (hfile hnew)⟩
  · rintro ⟨hnew, h⟩
    exact ⟨fun f => (h.flags f).trans (hflags f).symm, h.commands.trans hcommands.symm,
      h.functions.trans hfunctions.symm, h.config.trans hconfig.symm,
      h.file.trans (hfile hnew).symm⟩

end

/-! ## §3 Reading -/

section

variable {base o : Options} {w : Wish} {group rest args : List String}

theorem Wish.Spelled.ne_nil (h : w.Spelled group) : group ≠ [] := by
  cases h <;> simp

theorem parseOnto_flag {f : Flag} {arg : String} (harg : arg ∈ f.spellings) :
    parseOnto base (arg :: rest) = parseOnto (base.add (.flag f)) rest := by
  cases f <;> simp only [Flag.spellings, List.mem_cons, List.not_mem_nil, or_false] at harg
  case interactive => obtain rfl | rfl := harg <;> rfl
  case sideBySide => obtain rfl | rfl := harg <;> rfl
  case noDefaultFunctions => subst harg; rfl
  case noConfig => subst harg; rfl
  case verbose => obtain rfl | rfl := harg <;> rfl

/-- The path of a sheet looks like no option. -/
theorem parseOnto_path {path : String} (hpath : path = "-" ∨ path.toList.head? ≠ some '-')
    (hnone : base.file = none) :
    parseOnto base (path :: rest) = parseOnto (base.add (.file path)) rest := by
  have hoption (arg : String) (hhead : arg.toList.head? = some '-') (hlong : arg ≠ "-") :
      path ≠ arg := by
    intro heq
    subst heq
    exact hpath.elim hlong (fun h => h hhead)
  have hknown : ¬(path.toList.head? == some '-' && !(path == "-" && base.file.isNone)) = true := by
    obtain rfl | hhead := hpath
    · simp [hnone]
    · simp [hhead]
  generalize hargs : path :: rest = args
  fun_cases parseOnto base args
  case case1 => cases hargs
  case case22 hunknown =>
    obtain ⟨rfl, -⟩ := List.cons.inj hargs
    exact absurd hunknown hknown
  case case23 hsecond => simp [hnone] at hsecond
  case case24 =>
    obtain ⟨rfl, rfl⟩ := List.cons.inj hargs
    rfl
  all_goals exact absurd (List.cons.inj hargs).1 (hoption _ rfl (by decide))

/-- A group is read as a whole, whatever follows. -/
theorem parseOnto_group (hgroup : w.Spelled group)
    (hnew : w.file?.isSome = true → base.file = none) :
    parseOnto base (group ++ rest) = parseOnto (base.add w) rest := by
  cases hgroup with
  | flag harg => exact parseOnto_flag harg
  | command harg =>
    simp only [List.mem_cons, List.not_mem_nil, or_false] at harg
    obtain rfl | rfl := harg <;> rfl
  | functions harg =>
    simp only [List.mem_cons, List.not_mem_nil, or_false] at harg
    obtain rfl | rfl := harg <;> rfl
  | config => rfl
  | file hpath => exact parseOnto_path hpath (hnew rfl)

/-- Where arguments are read, there is a group in front. -/
theorem group_of_parseOnto {arg : String} (h : parseOnto base (arg :: rest) = .ok o) :
    ∃ w group behind, arg :: rest = group ++ behind ∧ Wish.Spelled w group
      ∧ (w.file?.isSome = true → base.file = none) := by
  have hflag {f : Flag} {arg : String} {rest : List String} (harg : arg ∈ f.spellings) :
      ∃ w group behind, arg :: rest = group ++ behind ∧ Wish.Spelled w group
        ∧ (w.file?.isSome = true → base.file = none) :=
    ⟨.flag f, [arg], rest, rfl, .flag harg, by simp [Wish.file?]⟩
  have hvalue {w : Wish} {arg value : String} {rest : List String} (hw : w.Spelled [arg, value])
      (hfile : w.file? = none) :
      ∃ w group behind, arg :: value :: rest = group ++ behind ∧ Wish.Spelled w group
        ∧ (w.file?.isSome = true → base.file = none) :=
    ⟨w, [arg, value], rest, rfl, hw, by simp [hfile]⟩
  generalize hargs : arg :: rest = args at h
  revert h
  fun_cases parseOnto base args
  all_goals intro h
  all_goals try cases h; done
  case case1 => cases hargs
  case case4 | case6 => exact hvalue (.command (by simp)) rfl
  case case8 | case9 => exact hflag (f := .interactive) (by simp [Flag.spellings])
  case case10 | case11 => exact hflag (f := .sideBySide) (by simp [Flag.spellings])
  case case12 | case14 => exact hvalue (.functions (by simp)) rfl
  case case16 => exact hflag (f := .noDefaultFunctions) (by simp [Flag.spellings])
  case case17 => exact hvalue .config rfl
  case case19 => exact hflag (f := .noConfig) (by simp [Flag.spellings])
  case case20 | case21 => exact hflag (f := .verbose) (by simp [Flag.spellings])
  case case24 rest path _ _ _ _ _ _ _ _ _ _ _ _ _ _ _ hknown hfirst =>
    have hnone : base.file = none := by simpa using hfirst
    have hpath : path = "-" ∨ path.toList.head? ≠ some '-' := by
      by_cases hdash : path = "-"
      · exact .inl hdash
      · exact .inr (by simpa [hdash] using hknown)
    exact ⟨.file path, [path], rest, rfl, .file hpath, fun _ => hnone⟩

/-! ## §4 Parsing -/

/-- The groups are read one by one from the left. -/
theorem parseOnto_of_groups {wishes : List Wish} (hgroups : AreGroups wishes args)
    (hasks : Asks base wishes o) : parseOnto base args = .ok o := by
  induction hgroups generalizing base with
  | nil =>
    rw [asks_nil_iff.mp hasks]
    rfl
  | cons hgroup hrest ih =>
    obtain ⟨hnew, hasks⟩ := asks_cons_iff.mp hasks
    rw [parseOnto_group hgroup hnew]
    exact ih hasks

/-- The induction is on the number of arguments, since a group may take two of them. -/
theorem groups_of_parseOnto (h : parseOnto base args = .ok o) :
    ∃ wishes, AreGroups wishes args ∧ Asks base wishes o := by
  induction hn : args.length using Nat.strong_induction_on generalizing base args with
  | _ n ih =>
    cases args with
    | nil =>
      have hbase : base = o := Except.ok.inj h
      exact ⟨[], .nil, asks_nil_iff.mpr hbase.symm⟩
    | cons arg rest =>
      obtain ⟨w, group, behind, hargs, hgroup, hnew⟩ := group_of_parseOnto h
      have hlength : behind.length < n := by
        have hpos := List.length_pos_of_ne_nil hgroup.ne_nil
        rw [← hn, hargs, List.length_append]
        omega
      rw [hargs, parseOnto_group hgroup hnew] at h
      obtain ⟨wishes, hgroups, hasks⟩ := ih behind.length hlength h rfl
      exact ⟨w :: wishes, hargs ▸ .cons hgroup hgroups, asks_cons_iff.mpr ⟨hnew, hasks⟩⟩

end

/-- **Command lines are read as what they spell.** Arguments are read as options exactly if they
are groups that ask for them. So the groups may stand in any order that keeps the lines and the
functions in theirs, and any text may stand behind an option that takes a value. -/
theorem parse_eq_ok_iff_groups (args : List String) (o : Options) :
    parse args = .ok o ↔ ∃ wishes, AreGroups wishes args ∧ Asks {} wishes o := by
  constructor
  · exact groups_of_parseOnto
  · intro h
    obtain ⟨wishes, hgroups, hasks⟩ := h
    exact parseOnto_of_groups hgroups hasks

/-- Values that look like options, and the sheet between them. -/
example : parse ["-c", "-h", "-", "-v", "--config", "", "-c", "-c", "--verbose"]
    = .ok { commands := ["-h", "-c"], file := some "-", verbose := true, config := some "" } := by
  rfl

end SumSheet.CommandLine
