import Compression.CommandLine

namespace Compression

/-- A path as it can stand among arguments: it does not begin like an option, unless it is a hyphen
and nothing else. -/
structure Operand where
  path : String
  eq_hyphen : path.toList.head? = some '-' → path = "-"
deriving DecidableEq

/-- Arguments that belong together. -/
inductive ArgumentGroup where
  | decompress
  | folder
  | verbose
  | algorithm (long : Bool) (name : String)
  | config (path : String)
  | operand (o : Operand)
deriving DecidableEq

theorem Operand.not_mem (o : Operand) {options : List String}
    (h : ∀ option ∈ options, option.toList.head? = some '-' ∧ option ≠ "-") : o.path ∉ options :=
  fun hmem => (h o.path hmem).2 (o.eq_hyphen (h o.path hmem).1)

namespace ArgumentGroup

def arguments : ArgumentGroup → List String
  | .decompress => ["-d"]
  | .folder => ["--folder"]
  | .verbose => ["--verbose"]
  | .algorithm long name => [if long then "--algorithm" else "-a", name]
  | .config path => ["-c", path]
  | .operand o => [o.path]

def algorithmName? : ArgumentGroup → Option String
  | .algorithm _ name => some name
  | _ => none

def configPath? : ArgumentGroup → Option String
  | .config path => some path
  | _ => none

def operandPath? : ArgumentGroup → Option String
  | .operand o => some o.path
  | _ => none

/-- No group begins with what asks for help or for the version. -/
theorem exists_first (g : ArgumentGroup) : ∃ first rest, g.arguments = first :: rest ∧
    first ∉ ["-h", "--help", "-v", "--version"] := by
  cases g with
  | decompress => exact ⟨_, _, rfl, by decide⟩
  | folder => exact ⟨_, _, rfl, by decide⟩
  | verbose => exact ⟨_, _, rfl, by decide⟩
  | algorithm long name => exact ⟨_, _, rfl, by cases long <;> decide⟩
  | config path => exact ⟨_, _, rfl, by decide⟩
  | operand o => exact ⟨_, _, rfl, o.not_mem (by decide)⟩

end ArgumentGroup

namespace Options

variable (o : Options)

/-- The options after one group more. -/
def take : ArgumentGroup → Options
  | .decompress => { o with decompress := true }
  | .folder => { o with folder := true }
  | .verbose => { o with verbose := true }
  | .algorithm _ name => { o with algorithm := some name }
  | .config path => { o with config := some path }
  | .operand p => { o with positional := p.path :: o.positional }

theorem read_operand (p : Operand) (rest : List String) :
    o.read (p.path :: rest) = (o.take (.operand p)).read rest := by
  have hoptions : p.path ∉ ["-d", "--folder", "--verbose", "-a", "--algorithm", "-c"] :=
    p.not_mem (by decide)
  simp only [List.mem_cons, List.not_mem_nil, or_false, not_or] at hoptions
  obtain ⟨hd, hfolder, hverbose, ha, halgorithm, hc⟩ := hoptions
  have hunknown : ¬ (p.path.toList.head? = some '-' ∧ p.path ≠ "-") :=
    fun h => h.2 (p.eq_hyphen h.1)
  rw [read.eq_def]
  simp only [hd, hfolder, hverbose, ha, halgorithm, hc, hunknown, or_self, if_false, take]

/-- Reading goes on behind a group, however its values look. -/
theorem read_arguments (g : ArgumentGroup) (rest : List String) :
    o.read (g.arguments ++ rest) = (o.take g).read rest := by
  cases g with
  | decompress => rw [read.eq_def]; simp [ArgumentGroup.arguments, take]
  | folder => rw [read.eq_def]; simp [ArgumentGroup.arguments, take]
  | verbose => rw [read.eq_def]; simp [ArgumentGroup.arguments, take]
  | algorithm long name =>
    rw [read.eq_def]
    cases long <;> simp [ArgumentGroup.arguments, take]
  | config path => rw [read.eq_def]; simp [ArgumentGroup.arguments, take]
  | operand p => exact o.read_operand p rest

/-- What groups ask for together. Of algorithms and of configurations the last one counts, and paths
keep their order. -/
def ofGroups (groups : List ArgumentGroup) : Options where
  decompress := decide (.decompress ∈ groups)
  folder := decide (.folder ∈ groups)
  verbose := decide (.verbose ∈ groups)
  algorithm := (groups.filterMap ArgumentGroup.algorithmName?).getLast?
  config := (groups.filterMap ArgumentGroup.configPath?).getLast?
  positional := groups.filterMap ArgumentGroup.operandPath?

/-- Options with what groups ask for on top. -/
def withGroups (groups : List ArgumentGroup) : Options where
  decompress := o.decompress || (ofGroups groups).decompress
  folder := o.folder || (ofGroups groups).folder
  verbose := o.verbose || (ofGroups groups).verbose
  algorithm := (ofGroups groups).algorithm.or o.algorithm
  config := (ofGroups groups).config.or o.config
  positional := o.positional.reverse ++ (ofGroups groups).positional

theorem withGroups_take (g : ArgumentGroup) (groups : List ArgumentGroup) :
    (o.take g).withGroups groups = o.withGroups (g :: groups) := by
  cases g <;> simp [withGroups, take, ofGroups, List.filterMap_cons, ArgumentGroup.algorithmName?,
    ArgumentGroup.configPath?, ArgumentGroup.operandPath?, List.getLast?_cons]

theorem read_groups (groups : List ArgumentGroup) :
    o.read (groups.flatMap ArgumentGroup.arguments) = .ok (o.withGroups groups) := by
  induction groups generalizing o with
  | nil => simp [read, withGroups, ofGroups]
  | cons g groups ih => rw [List.flatMap_cons, read_arguments, ih, withGroups_take]

theorem read_initial (groups : List ArgumentGroup) :
    ({} : Options).read (groups.flatMap ArgumentGroup.arguments) = .ok (ofGroups groups) := by
  rw [read_groups]
  simp [withGroups]

end Options

/-- The same groups in another order, where paths keep their order, and so do algorithms and
configurations. -/
structure ArgumentGroup.Reorders (groups groups' : List ArgumentGroup) : Prop where
  perm : groups.Perm groups'
  paths : groups.filterMap operandPath? = groups'.filterMap operandPath?
  algorithms : groups.filterMap algorithmName? = groups'.filterMap algorithmName?
  configs : groups.filterMap configPath? = groups'.filterMap configPath?

variable {groups groups' : List ArgumentGroup}

theorem ArgumentGroup.Reorders.ofGroups_eq (h : Reorders groups groups') :
    Options.ofGroups groups = Options.ofGroups groups' := by
  simp only [Options.ofGroups, h.perm.mem_iff, h.paths, h.algorithms, h.configs]

section

variable {m : Type → Type} [Monad m] {Handle : Type} (host : Host m Handle) (program : String)

theorem runCommand_groups (hne : groups ≠ []) :
    runCommand host (program :: groups.flatMap ArgumentGroup.arguments) =
      callOptions (if (Options.ofGroups groups).verbose then host else host.quiet) program
        (.ofGroups groups) := by
  obtain ⟨g, groups, rfl⟩ := List.exists_cons_of_ne_nil hne
  obtain ⟨first, rest, hfirst, hmem⟩ := g.exists_first
  have hread := Options.read_initial (g :: groups)
  rw [List.flatMap_cons, hfirst, List.cons_append] at hread ⊢
  simp only [List.mem_cons, List.not_mem_nil, or_false, not_or] at hmem
  obtain ⟨hh, hhelp, hv, hversion⟩ := hmem
  simp only [runCommand, hh, hhelp, hv, hversion, or_self, if_false, hread]

/-- A command does the same for the groups of its arguments in any order that it need not tell
apart. -/
theorem ArgumentGroup.Reorders.runCommand_eq (h : Reorders groups groups') :
    runCommand host (program :: groups.flatMap arguments) =
      runCommand host (program :: groups'.flatMap arguments) := by
  by_cases hne : groups = []
  · subst hne
    rw [List.nil_perm.mp h.perm]
  · have hne' : groups' ≠ [] := fun heq => hne (List.perm_nil.mp (heq ▸ h.perm))
    rw [runCommand_groups host program hne, runCommand_groups host program hne', h.ofGroups_eq]

end

end Compression
