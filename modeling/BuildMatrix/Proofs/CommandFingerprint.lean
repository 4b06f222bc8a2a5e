import BuildMatrix.Command.Run
import BuildMatrix.Proofs.ConfigurationStream
import BuildMatrix.Proofs.PipelineEdges
import BuildMatrix.Proofs.Validation

/-!
# What the fingerprint of a command settles

A command task is served the record of an earlier run whenever the bytes that are hashed are the
same. Those bytes hold the command, its variables, the kind of its output, its cell and the host.
They do not hold the directory of the module, the directory that the command writes to and the
patterns of its outputs, so that a change of only these goes unnoticed.

This module shows that nothing else goes unnoticed, as long as no line of a command or of a
variable's value looks like the line of another value.
-/

namespace BuildMatrix

variable {α : Type}

/-! ### Tasks of a configuration -/

namespace Config

/-- The actions of a configuration, for a project in a directory. -/
def pipeline (config : Config) (root : Path) (timeout : Option Duration) : Pipeline where
  project := ⟨root, config.modules⟩
  actions := config.actions
  timeout

/-- A command task that is **made from a configuration**, in a directory. -/
def Makes (config : Config) (root : Path) (task : Command) : Prop :=
  ∃ timeout action cell, action ∈ config.actions ∧
    cell ∈ (config.pipeline root timeout).cells action ∧
    ((config.pipeline root timeout).task action cell).work = .command task

/-- The name of a task that is made from a configuration starts with that of its **module**, which
has no colon. -/
theorem Makes.name {config : Config} {root : Path} {task : Command} (h : config.Makes root task)
    (hvalid : config.validate = .ok ()) :
    ':' ∉ task.module.toList ∧
      ∃ rest, task.name.text.toList = ':' :: (task.module.toList ++ ':' :: rest) := by
  obtain ⟨timeout, action, cell, haction, hcell, hwork⟩ := h
  have htask : task = Command.ofCell action cell root timeout := by
    rw [Pipeline.task] at hwork
    split at hwork
    · cases hwork
    · exact (Work.command.inj hwork).symm
  subst htask
  have hmodule := (Pipeline.mem_cells.mp hcell).1
  refine ⟨colon_notMem_of_isValidName (isValidName_of_validate hvalid _ hmodule), ?_⟩
  exact ⟨action.name.toList ++
    (TaskName.variant cell.platform cell.isTest cell.buildType).toList,
    by simp [Command.ofCell, TaskName.ofCell, TaskName.forAction]⟩

end Config

/-! ### Spellings -/

/-- A **spelling** of some values: it tells which value it is, and has no line break. -/
structure Spells {α : Type} (spelling : α → String) : Prop where
  injective : Function.Injective spelling
  lineBreak : ∀ a, '\n' ∉ (spelling a).toList

theorem Spells.of_all {spelling : α → String} (all : List α) (hall : ∀ a, a ∈ all)
    (hnodup : (all.map spelling).Nodup) (hbreak : ∀ a ∈ all, '\n' ∉ (spelling a).toList) :
    Spells spelling where
  injective a b h := List.inj_on_of_nodup_map hnodup (hall a) (hall b) h
  lineBreak a := hbreak a (hall a)

theorem Platform.spells_name : Spells Platform.name :=
  .of_all Platform.all (fun p => by cases p <;> decide) (by decide) (by decide)

theorem OutputKind.spells_title : Spells OutputKind.title :=
  .of_all OutputKind.all (fun k => by cases k <;> decide) (by decide) (by decide)

theorem OsFamily.spells_systemName : Spells OsFamily.systemName :=
  .of_all OsFamily.all (fun f => by cases f <;> decide) (by decide) (by decide)

theorem Arch.spells_name : Spells Arch.name :=
  .of_all Arch.all (fun a => by cases a <;> decide) (by decide) (by decide)

theorem Command.spells_flagText : Spells Command.flagText :=
  .of_all [true, false] (fun b => by cases b <;> decide) (by decide) (by decide)

theorem BuildType.spells_name? :
    Spells fun type : Option BuildType => (type.map BuildType.name).getD "" :=
  .of_all (none :: BuildType.all.map some)
    (fun t => by rcases t with _ | ⟨_ | _⟩ <;> decide) (by decide) (by decide)

namespace Command

open Fingerprint

variable {r₁ r₂ : List Char} {task₁ task₂ : Command} {place₁ place₂ : Place} {tree : FileTree}
  {dependencyOutputs : List Path}

/-! ### The configuration in its order -/

/-- What the outputs of a task with a directory of its own depend on besides its inputs, **in
order**. -/
def orderedConfiguration (task : Command) (host : Host) : List (String × String) :=
  [("build_type", task.buildTypeName), ("command", task.command)]
    ++ task.env.bindings.map (fun b => ("env." ++ b.1, b.2))
    ++ [("host.arch", host.arch.name), ("host.os", host.os.systemName),
      ("output", task.output.title), ("platform", task.platform.name),
      ("test", flagText task.isTest)]

theorem lt_of_head? {s t : String} {c d : Char} (hs : s.toList.head? = some c)
    (ht : t.toList.head? = some d) (h : c < d) : s < t := by
  obtain ⟨s', hs'⟩ := List.head?_eq_some_iff.mp hs
  obtain ⟨t', ht'⟩ := List.head?_eq_some_iff.mp ht
  change s.toList < t.toList
  rw [hs', ht']
  exact List.Lex.rel h

theorem head?_env (name : String) : ("env." ++ name).toList.head? = some 'e' := by
  rw [String.toList_append]
  rfl

/-- The names of the ordered configuration increase: those of the variables start with a letter
between those of the two groups around them. -/
theorem increasing_orderedConfiguration (task : Command) (host : Host) :
    Increasing (task.orderedConfiguration host) := by
  have hvariables :
      (task.env.bindings.map fun b => "env." ++ b.1).Pairwise (· < ·) := by
    rw [List.pairwise_map]
    refine task.env.increasing.imp fun {a b} hlt => ?_
    change ("env." ++ a.1).toList < ("env." ++ b.1).toList
    rw [String.toList_append, String.toList_append]
    exact List.append_left_lt hlt
  have hbefore : ∀ key ∈ ["build_type", "command"], ∀ name, key < "env." ++ name := by
    intro key hkey name
    obtain ⟨c, hc, hlt⟩ : ∃ c, key.toList.head? = some c ∧ c < 'e' := by
      rcases List.mem_pair.mp hkey with rfl | rfl
      · exact ⟨'b', by decide, by decide⟩
      · exact ⟨'c', by decide, by decide⟩
    exact lt_of_head? hc (head?_env name) hlt
  have hafter : ∀ key ∈ ["host.arch", "host.os", "output", "platform", "test"], ∀ name,
      "env." ++ name < key := by
    intro key hkey name
    obtain ⟨c, hc, hlt⟩ : ∃ c, key.toList.head? = some c ∧ 'e' < c := by
      simp only [List.mem_cons, List.not_mem_nil, or_false] at hkey
      rcases hkey with rfl | rfl | rfl | rfl | rfl
      · exact ⟨'h', by decide, by decide⟩
      · exact ⟨'h', by decide, by decide⟩
      · exact ⟨'o', by decide, by decide⟩
      · exact ⟨'p', by decide, by decide⟩
      · exact ⟨'t', by decide, by decide⟩
    exact lt_of_head? (head?_env name) hc hlt
  have hkeys : (task.orderedConfiguration host).map (·.1) =
      ["build_type", "command"] ++ task.env.bindings.map (fun b => "env." ++ b.1) ++
        ["host.arch", "host.os", "output", "platform", "test"] := by
    simp [orderedConfiguration]
  rw [Increasing, ← List.pairwise_map (R := (· < ·)), hkeys, List.pairwise_append,
    List.pairwise_append]
  refine ⟨⟨by decide, hvariables, ?_⟩, by decide, ?_⟩
  · intro key hkey _ hvariable
    obtain ⟨b, -, rfl⟩ := List.mem_map.mp hvariable
    exact hbefore key hkey b.1
  · intro first hfirst key hkey
    rcases List.mem_append.mp hfirst with hfirst | hfirst
    · have hall : ∀ a ∈ ["build_type", "command"],
          ∀ b ∈ ["host.arch", "host.os", "output", "platform", "test"], a < b := by
        decide
      exact hall first hfirst key hkey
    · obtain ⟨b, -, rfl⟩ := List.mem_map.mp hfirst
      exact hafter key hkey b.1

theorem nodup_configuration (task : Command) (host : Host) :
    (([("command", task.command), ("output", task.output.title)] ++ task.cellConfiguration ++
      [("host.os", host.os.systemName), ("host.arch", host.arch.name)] ++
      task.env.bindings.map fun b => ("env." ++ b.1, b.2)).map (·.1)).Nodup := by
  have hvariables : ((task.env.bindings.map fun b => ("env." ++ b.1, b.2)).map (·.1)).Nodup := by
    rw [List.map_map, List.Nodup, List.pairwise_map]
    refine task.env.increasing.imp fun {a b} hlt heq => ?_
    have hname : a.1 = b.1 := by simpa using heq
    exact Std.lt_irrefl (hname ▸ hlt)
  have hothers : ∀ key ∈ ["command", "output", "platform", "test", "build_type", "host.os",
      "host.arch"], key.toList.head? ≠ some 'e' := by
    decide
  rw [List.map_append, List.nodup_append]
  refine ⟨?_, hvariables, ?_⟩
  · change ["command", "output", "platform", "test", "build_type", "host.os", "host.arch"].Nodup
    decide
  · rintro key hkey _ hvariable rfl
    rw [List.map_map] at hvariable
    obtain ⟨b, -, rfl⟩ := List.mem_map.mp hvariable
    exact hothers _ hkey (head?_env b.1)

theorem bindings_configuration {task : Command} (h : task.sharedKey = none) (host : Host) :
    (task.configuration host).bindings = task.orderedConfiguration host := by
  rw [configuration, h]
  refine Environment.bindings_ofList (nodup_configuration task host)
    (increasing_orderedConfiguration task host) fun b => ?_
  simp only [Option.isNone_none, if_true, cellConfiguration, orderedConfiguration,
    List.mem_append, List.mem_cons, List.not_mem_nil, or_false]
  tauto

/-! ### Reading a configuration back -/

/-- The **marks**: how the lines of variables start, and the line after them. -/
def marks : List (List Char) := ["env.".toList, "host.arch=".toList]

/-- A command **without lines that look like others**: no variable has an equals sign in its name,
and no line of the command or of a variable's value, its first line apart, starts like the line of a
variable or that of the architecture. -/
structure Plain (task : Command) : Prop where
  names : ∀ b ∈ task.env.bindings, '=' ∉ b.1.toList
  command : Clear marks task.command.toList
  values : ∀ b ∈ task.env.bindings, Clear marks b.2.toList

def variableLines (bindings : List (String × String)) : List Char :=
  text (bindings.map fun b => ("env." ++ b.1, b.2))

theorem variableLines_cons (b : String × String) (bindings : List (String × String)) :
    variableLines (b :: bindings) = line ("env." ++ b.1) b.2 ++ variableLines bindings := rfl

theorem marked_variableLines (bindings : List (String × String)) (arch : String)
    (rest : List Char) :
    Marked marks (variableLines bindings ++ (line "host.arch" arch ++ rest)) := by
  cases bindings with
  | nil =>
    refine ⟨"host.arch=".toList, by simp [marks], arch.toList ++ '\n' :: rest, ?_⟩
    simp [variableLines, text, line]
  | cons b bindings =>
    refine ⟨"env.".toList, by simp [marks], ?_⟩
    simp [variableLines, text, line]

theorem lineBreak_notMem_marks : ∀ mark ∈ marks, '\n' ∉ mark := by
  decide

theorem variableLine_ne (b : String × String) (rest₁ : List Char) (arch : String)
    (rest₂ : List Char) :
    line ("env." ++ b.1) b.2 ++ rest₁ ≠ line "host.arch" arch ++ rest₂ := by
  simp [line]

/-- **Variables are read back** from their lines. -/
theorem variables_cut {bindings₁ bindings₂ : List (String × String)} {arch₁ arch₂ : String}
    (hnames₁ : ∀ b ∈ bindings₁, '=' ∉ b.1.toList) (hnames₂ : ∀ b ∈ bindings₂, '=' ∉ b.1.toList)
    (hvalues₁ : ∀ b ∈ bindings₁, Clear marks b.2.toList)
    (hvalues₂ : ∀ b ∈ bindings₂, Clear marks b.2.toList)
    (h : variableLines bindings₁ ++ (line "host.arch" arch₁ ++ r₁) =
      variableLines bindings₂ ++ (line "host.arch" arch₂ ++ r₂)) :
    bindings₁ = bindings₂ ∧ line "host.arch" arch₁ ++ r₁ = line "host.arch" arch₂ ++ r₂ := by
  induction bindings₁ generalizing bindings₂ with
  | nil =>
    cases bindings₂ with
    | nil => exact ⟨rfl, h⟩
    | cons b₂ rest₂ =>
      rw [variableLines_cons, List.append_assoc] at h
      exact absurd h.symm (variableLine_ne b₂ _ arch₁ r₁)
  | cons b₁ rest₁ ih =>
    cases bindings₂ with
    | nil =>
      rw [variableLines_cons, List.append_assoc] at h
      exact absurd h (variableLine_ne b₁ _ arch₂ r₂)
    | cons b₂ rest₂ =>
      obtain ⟨hname₁, hnames₁⟩ := List.forall_mem_cons.mp hnames₁
      obtain ⟨hname₂, hnames₂⟩ := List.forall_mem_cons.mp hnames₂
      obtain ⟨hvalue₁, hvalues₁⟩ := List.forall_mem_cons.mp hvalues₁
      obtain ⟨hvalue₂, hvalues₂⟩ := List.forall_mem_cons.mp hvalues₂
      rw [variableLines_cons, variableLines_cons, List.append_assoc, List.append_assoc] at h
      have hname : b₁.1 = b₂.1 := by
        have hcut := h
        simp only [line, String.toList_append, List.append_assoc, List.cons_append,
          List.append_cancel_left_eq] at hcut
        exact String.toList_inj.mp (cut_at hname₁ hname₂ hcut).1
      rw [hname] at h
      obtain ⟨hvalue, hrest⟩ := marked_cut lineBreak_notMem_marks hvalue₁ hvalue₂
        (marked_variableLines rest₁ arch₁ r₁) (marked_variableLines rest₂ arch₂ r₂) h
      obtain ⟨rfl, hend⟩ := ih hnames₁ hnames₂ hvalues₁ hvalues₂ hrest
      exact ⟨by rw [Prod.ext hname hvalue], hend⟩

theorem text_orderedConfiguration (task : Command) (host : Host) (rest : List Char) :
    text (task.orderedConfiguration host) ++ rest =
      line "build_type" task.buildTypeName ++ (line "command" task.command ++
        (variableLines task.env.bindings ++ (line "host.arch" host.arch.name ++
          (line "host.os" host.os.systemName ++ (line "output" task.output.title ++
            (line "platform" task.platform.name ++
              (line "test" (flagText task.isTest) ++ rest))))))) := by
  simp [text, orderedConfiguration, variableLines]

/-- **What a configuration's text settles**: everything that is in it. -/
theorem eq_of_text_eq {host₁ host₂ : Host} (hplain₁ : task₁.Plain) (hplain₂ : task₂.Plain)
    (h : text (task₁.orderedConfiguration host₁) ++ r₁ =
      text (task₂.orderedConfiguration host₂) ++ r₂) :
    task₁.command = task₂.command ∧ task₁.env = task₂.env ∧ task₁.output = task₂.output ∧
      task₁.platform = task₂.platform ∧ task₁.isTest = task₂.isTest ∧
      task₁.buildType = task₂.buildType ∧ host₁ = host₂ := by
  rw [text_orderedConfiguration, text_orderedConfiguration] at h
  have hname (task : Command) :
      task.buildTypeName = (task.buildType.map BuildType.name).getD "" := by
    rw [buildTypeName]
    cases task.buildType <;> rfl
  rw [hname, hname] at h
  obtain ⟨hbuild, h⟩ := line_cut (BuildType.spells_name?.lineBreak _)
    (BuildType.spells_name?.lineBreak _) h
  obtain ⟨hcommand, h⟩ := marked_cut lineBreak_notMem_marks hplain₁.command hplain₂.command
    (marked_variableLines _ _ _) (marked_variableLines _ _ _) h
  obtain ⟨henv, h⟩ := variables_cut hplain₁.names hplain₂.names hplain₁.values hplain₂.values h
  obtain ⟨harch, h⟩ := line_cut (Arch.spells_name.lineBreak _) (Arch.spells_name.lineBreak _) h
  obtain ⟨hos, h⟩ := line_cut (OsFamily.spells_systemName.lineBreak _)
    (OsFamily.spells_systemName.lineBreak _) h
  obtain ⟨houtput, h⟩ := line_cut (OutputKind.spells_title.lineBreak _)
    (OutputKind.spells_title.lineBreak _) h
  obtain ⟨hplatform, h⟩ := line_cut (Platform.spells_name.lineBreak _)
    (Platform.spells_name.lineBreak _) h
  obtain ⟨htest, -⟩ := line_cut (spells_flagText.lineBreak _) (spells_flagText.lineBreak _) h
  refine ⟨hcommand, ?_, OutputKind.spells_title.injective houtput,
    Platform.spells_name.injective hplatform, spells_flagText.injective htest,
    BuildType.spells_name?.injective hbuild, ?_⟩
  · cases henv₁ : task₁.env
    cases henv₂ : task₂.env
    simpa [henv₁, henv₂] using henv
  · calc host₁ = ⟨host₁.os, host₁.arch⟩ := rfl
      _ = ⟨host₂.os, host₂.arch⟩ := by
        rw [Arch.spells_name.injective harch, OsFamily.spells_systemName.injective hos]
      _ = host₂ := rfl

/-! ### Effects -/

/-- The **effect** of a command: what is run, with which variables, and what is collected where. -/
structure Effect where
  command : String
  env : List (String × String)
  outputDir : Path
  outputs : List String
  deriving DecidableEq

/-- What a command is run with. -/
def effect (task : Command) (place : Place) (tree : FileTree) (dependencyOutputs : List Path) :
    Effect :=
  let outputDir := task.outputDir place.layout (place.ownDir task.name)
  let invocation := task.invocation tree place.layout.projectRoot outputDir dependencyOutputs
  { command := invocation.command
    env := invocation.env
    outputDir
    outputs := task.outputs }

/-- **The bytes that are hashed** for a task with a directory of its own; none if its patterns of
inputs are malformed. -/
def hashed (task : Command) (place : Place) (tree : FileTree) (dependencyOutputs : List Path) :
    Except Failure ByteArray :=
  (task.inputFiles tree place.layout).map fun files =>
    stream tree (task.configuration place.layout.host) (files ++ dependencyOutputs)

/-- Commands that agree in what is hashed and in the name of their module have the **same effect**
exactly if they agree in the directories and in the patterns of outputs, too. -/
theorem effect_eq_iff (hcommand : task₁.command = task₂.command) (henv : task₁.env = task₂.env)
    (hmodule : task₁.module = task₂.module) (hplatform : task₁.platform = task₂.platform)
    (htest : task₁.isTest = task₂.isTest) (hbuild : task₁.buildType = task₂.buildType) :
    task₁.effect place₁ tree dependencyOutputs = task₂.effect place₂ tree dependencyOutputs ↔
      task₁.moduleDir = task₂.moduleDir ∧
      task₁.outputDir place₁.layout (place₁.ownDir task₁.name) =
        task₂.outputDir place₂.layout (place₂.ownDir task₂.name) ∧
      task₁.outputs = task₂.outputs := by
  have hpath : ∀ p q : Path, p.text = q.text → p = q := by
    rintro ⟨p⟩ ⟨q⟩ rfl
    rfl
  simp only [effect, invocation, Effect.mk.injEq]
  constructor
  · rintro ⟨-, hvariables, hdir, houtputs⟩
    rw [henv, List.append_cancel_left_eq] at hvariables
    simp only [ownVariables, List.cons.injEq, Prod.mk.injEq] at hvariables
    exact ⟨hpath _ _ hvariables.2.1.2, hdir, houtputs⟩
  · rintro ⟨hmoduleDir, hdir, houtputs⟩
    refine ⟨?_, ?_, hdir, houtputs⟩
    · simp only [expand, placeholders, buildTypeName, hcommand, hmoduleDir, hmodule, hplatform,
        hbuild, hdir]
    · simp only [ownVariables, buildTypeName, henv, hmoduleDir, hmodule, hplatform, htest, hbuild,
        hdir]

theorem exists_text_eq_of_hashed {bytes : ByteArray} (hown₁ : task₁.sharedKey = none)
    (hown₂ : task₂.sharedKey = none) (h₁ : task₁.hashed place₁ tree dependencyOutputs = .ok bytes)
    (h₂ : task₂.hashed place₂ tree dependencyOutputs = .ok bytes) :
    ∃ r₁ r₂, text (task₁.orderedConfiguration place₁.layout.host) ++ r₁ =
      text (task₂.orderedConfiguration place₂.layout.host) ++ r₂ := by
  rw [hashed] at h₁ h₂
  cases hfiles₁ : task₁.inputFiles tree place₁.layout with
  | error failure => simp [hfiles₁, Except.map] at h₁
  | ok files₁ =>
    cases hfiles₂ : task₂.inputFiles tree place₂.layout with
    | error failure => simp [hfiles₂, Except.map] at h₂
    | ok files₂ =>
      simp only [hfiles₁, hfiles₂, Except.map, Except.ok.injEq] at h₁ h₂
      rw [← bindings_configuration hown₁, ← bindings_configuration hown₂]
      exact text_prefix_of_stream_eq (h₁.trans h₂.symm)

/-- **What a fingerprint settles, and what it leaves open.** Take two command tasks of one name,
each made from a configuration that passes the check and with a directory of its own, on the same
files and with the same outputs of other tasks, and suppose that the bytes that are hashed are the
same. If no line of theirs looks like another, they have the same command, variables, kind of
output, module name, cell and host. Still, what is run and collected is the same exactly if the
directory of the module, the directory that is written to and the patterns of outputs are the same,
too: nothing that is hashed tells these apart. -/
theorem fingerprint_leaves_places_open {config₁ config₂ : Config} {root₁ root₂ : Path}
    {task₁ task₂ : Command} {place₁ place₂ : Place} {tree : FileTree}
    {dependencyOutputs : List Path} {bytes : ByteArray}
    (hvalid₁ : config₁.validate = .ok ()) (hvalid₂ : config₂.validate = .ok ())
    (hmade₁ : config₁.Makes root₁ task₁) (hmade₂ : config₂.Makes root₂ task₂)
    (hname : task₁.name = task₂.name)
    (hown₁ : task₁.sharedKey = none) (hown₂ : task₂.sharedKey = none)
    (hplain₁ : task₁.Plain) (hplain₂ : task₂.Plain)
    (h₁ : task₁.hashed place₁ tree dependencyOutputs = .ok bytes)
    (h₂ : task₂.hashed place₂ tree dependencyOutputs = .ok bytes) :
    (task₁.command = task₂.command ∧ task₁.env = task₂.env ∧ task₁.output = task₂.output ∧
      task₁.module = task₂.module ∧ task₁.platform = task₂.platform ∧
      task₁.isTest = task₂.isTest ∧ task₁.buildType = task₂.buildType ∧
      place₁.layout.host = place₂.layout.host) ∧
    (task₁.effect place₁ tree dependencyOutputs = task₂.effect place₂ tree dependencyOutputs ↔
      task₁.moduleDir = task₂.moduleDir ∧
      place₁.ownDir task₁.name = place₂.ownDir task₂.name ∧
      task₁.outputs = task₂.outputs) := by
  obtain ⟨r₁, r₂, htext⟩ := exists_text_eq_of_hashed hown₁ hown₂ h₁ h₂
  obtain ⟨hcommand, henv, houtput, hplatform, htest, hbuild, hhost⟩ :=
    eq_of_text_eq hplain₁ hplain₂ htext
  have hmodule : task₁.module = task₂.module := by
    obtain ⟨hcolon₁, rest₁, hrest₁⟩ := hmade₁.name hvalid₁
    obtain ⟨hcolon₂, rest₂, hrest₂⟩ := hmade₂.name hvalid₂
    rw [hname, hrest₂] at hrest₁
    exact String.toList_inj.mp (cut_at hcolon₁ hcolon₂ (List.cons.inj hrest₁).2.symm).1
  refine ⟨⟨hcommand, henv, houtput, hmodule, hplatform, htest, hbuild, hhost⟩, ?_⟩
  rw [effect_eq_iff hcommand henv hmodule hplatform htest hbuild, outputDir, hown₁, outputDir,
    hown₂]

/-! ### Tasks that are taken for one -/

/-- An **action** that writes two files, and what it is given to do so. -/
def writing (command : String) (env : Environment) (outputs : List String) : Action :=
  { name := "gen", command := some command, env, outputs }

def onlyModule : Module := { name := "core", platforms := [.jvm] }

/-- A project with one action. -/
def projectOf (action : Action) : Config := { modules := [onlyModule], actions := [action] }

/-- The task of one action. -/
def taskOf (action : Action) : Command :=
  ofCell action { module := onlyModule, platform := .jvm } ⟨"/work"⟩ none

theorem validate_projectOf (command : String) (env : Environment) (outputs : List String) :
    (projectOf (writing command env outputs)).validate = .ok () := by
  have hmodule : isValidName "core" = true := by decide
  have haction : isValidName "gen" = true := by decide
  simp [Config.validate, projectOf, onlyModule, writing, Config.checkBuild, Config.checkFrom,
    Config.checkModule, Config.checkProject, Project.checkModules, Project.firstRepeated?,
    Project.firstUnknown?, Config.checkActions, Config.checkAction, Config.checkDependencies,
    Config.checkPeers, hmodule, haction, bind, Except.bind]

theorem makes_taskOf (command : String) (env : Environment) (outputs : List String) :
    (projectOf (writing command env outputs)).Makes ⟨"/work"⟩
      (taskOf (writing command env outputs)) := by
  refine ⟨none, writing command env outputs, { module := onlyModule, platform := .jvm },
    by simp [projectOf], ?_, rfl⟩
  rw [Pipeline.mem_cells]
  simp [Config.pipeline, projectOf, onlyModule, writing, Action.acceptsType,
    Action.acceptsPlatform]

/-- A command of two lines with variables whose values have several lines is plain, and the bytes
that are hashed for it say everything but where it writes and what it collects. -/
theorem fingerprint_leaves_places_open_writing :
    let command := "echo a > \x7boutput\x7d/a.txt\necho b > \x7boutput\x7d/b.txt"
    let env : Environment := .ofList [("MODE", "x=1"), ("STEPS", "one\ntwo\nhost")]
    let task₁ := taskOf (writing command env ["a.txt"])
    let task₂ := taskOf (writing command env ["b.txt"])
    let place : Place :=
      { layout := .new ⟨"/work"⟩, cache := { dir := ⟨"/work/.keel/cache"⟩ }, system := .idle }
    task₁.Plain ∧ task₂.Plain ∧
    (∃ bytes, task₁.hashed place .empty [] = .ok bytes ∧ task₂.hashed place .empty [] = .ok bytes) ∧
    (task₁.effect place .empty [] = task₂.effect place .empty [] ↔
      task₁.moduleDir = task₂.moduleDir ∧
      place.ownDir task₁.name = place.ownDir task₂.name ∧ task₁.outputs = task₂.outputs) := by
  intro command env task₁ task₂ place
  have hnames : ∀ b ∈ env.bindings, '=' ∉ b.1.toList := by decide +kernel
  have hcommand : Clear marks command.toList := by decide +kernel
  have hvalues : ∀ b ∈ env.bindings, Clear marks b.2.toList := by decide +kernel
  have hplain (outputs : List String) : (taskOf (writing command env outputs)).Plain :=
    ⟨hnames, hcommand, hvalues⟩
  refine ⟨hplain _, hplain _, ⟨_, rfl, rfl⟩, ?_⟩
  exact (fingerprint_leaves_places_open (validate_projectOf command env ["a.txt"])
    (validate_projectOf command env ["b.txt"]) (makes_taskOf command env ["a.txt"])
    (makes_taskOf command env ["b.txt"]) rfl rfl rfl (hplain _) (hplain _) rfl rfl).2

/-- Two tasks that are **taken for one**: they have one name, are made from configurations that pass
the check, each has a directory of its own, and on any files the same bytes are hashed for both; but
they do not have the same effect. -/
structure TakenForOne (place : Place) (task₁ task₂ : Command) : Prop where
  made₁ : ∃ (config : Config) (root : Path), config.validate = .ok () ∧ config.Makes root task₁
  made₂ : ∃ (config : Config) (root : Path), config.validate = .ok () ∧ config.Makes root task₂
  own₁ : task₁.sharedKey = none
  own₂ : task₂.sharedKey = none
  name : task₁.name = task₂.name
  hashed : ∀ tree dependencyOutputs, ∃ bytes : ByteArray,
    task₁.hashed place tree dependencyOutputs = .ok bytes ∧
    task₂.hashed place tree dependencyOutputs = .ok bytes
  effect : ∀ tree dependencyOutputs,
    task₁.effect place tree dependencyOutputs ≠ task₂.effect place tree dependencyOutputs

/-- Tasks of projects of one action are taken for one if the bytes of their configurations are the
same, but their variables or their patterns of outputs are not. -/
theorem takenForOne_taskOf {command₁ command₂ : String} {env₁ env₂ : Environment}
    {outputs₁ outputs₂ : List String} (place : Place)
    (hstream : configurationStream
        ((taskOf (writing command₁ env₁ outputs₁)).configuration place.layout.host) =
      configurationStream
        ((taskOf (writing command₂ env₂ outputs₂)).configuration place.layout.host))
    (hdiffer : env₁ ≠ env₂ ∨ outputs₁ ≠ outputs₂) :
    TakenForOne place (taskOf (writing command₁ env₁ outputs₁))
      (taskOf (writing command₂ env₂ outputs₂)) where
  made₁ := ⟨_, _, validate_projectOf command₁ env₁ outputs₁, makes_taskOf command₁ env₁ outputs₁⟩
  made₂ := ⟨_, _, validate_projectOf command₂ env₂ outputs₂, makes_taskOf command₂ env₂ outputs₂⟩
  own₁ := rfl
  own₂ := rfl
  name := rfl
  hashed tree dependencyOutputs := by
    have hstreams : ∀ inputs, stream tree
        ((taskOf (writing command₁ env₁ outputs₁)).configuration place.layout.host) inputs =
        stream tree
          ((taskOf (writing command₂ env₂ outputs₂)).configuration place.layout.host) inputs := by
      intro inputs
      rw [stream, stream, hstream]
    exact ⟨_, rfl, congrArg Except.ok (hstreams _).symm⟩
  effect tree dependencyOutputs h := by
    simp only [Command.effect, invocation, Effect.mk.injEq] at h
    obtain ⟨-, henv, -, houtputs⟩ := h
    rcases hdiffer with hdiffer | hdiffer
    · refine hdiffer ?_
      have hbindings : env₁.bindings = env₂.bindings := (List.append_left_inj _).mp henv
      cases env₁
      cases env₂
      simpa using hbindings
    · exact hdiffer houtputs

/-- **Tasks that are taken for one.** Two tasks that differ only in the patterns of their outputs;
and two tasks of which one sets a variable, and the other has a line in its command that looks as if
it did. -/
theorem fingerprint_takes_two_for_one :
    let place : Place :=
      { layout := .new ⟨"/work"⟩, cache := { dir := ⟨"/work/.keel/cache"⟩ }, system := .idle }
    TakenForOne place
      (taskOf (writing "echo a > \x7boutput\x7d/a.txt; echo b > \x7boutput\x7d/b.txt"
        .empty ["a.txt"]))
      (taskOf (writing "echo a > \x7boutput\x7d/a.txt; echo b > \x7boutput\x7d/b.txt"
        .empty ["b.txt"])) ∧
    TakenForOne place
      (taskOf (writing "echo x$X > \x7boutput\x7d/a.txt; exit 0"
        (.ofList [("X", "1")]) ["a.txt"]))
      (taskOf (writing "echo x$X > \x7boutput\x7d/a.txt; exit 0\nenv.X=1" .empty ["a.txt"])) := by
  refine ⟨takenForOne_taskOf _ rfl (.inr (by decide)), takenForOne_taskOf _ ?_ (.inl (by decide))⟩
  decide +kernel

end Command

end BuildMatrix
