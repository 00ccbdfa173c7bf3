import ClipGraph.CommandLine.Run
import ClipGraph.Proofs.Loading

/-!
# What a run does to files

A run reads files until it has a script and a target for it, and then it writes the target in one step
or not at all. So a run that keeps no log leaves every file as it was, the target of a script that it
could make apart, and a run that fails leaves that one too.
-/

namespace ClipGraph
section
open FileTree

theorem Settings.readOnly_load (path : FilePath) :
    ReadOnly (Settings.load path : StateM FileTree _) := by
  refine (readOnly_readText path).bind fun read => ?_
  split
  · exact readOnly_pure _
  · split <;> exact readOnly_pure _

theorem Settings.readOnly_loadUsual (usual : Option FilePath) :
    ReadOnly (Settings.loadUsual usual : StateM FileTree _) := by
  cases usual with
  | none => exact readOnly_pure _
  | some path =>
    refine (readOnly_pathExists path).bind fun there => ?_
    split
    · exact readOnly_load path
    · exact readOnly_pure _

theorem Settings.readOnly_loadOrStandard (named usual : Option FilePath) :
    ReadOnly (Settings.loadOrStandard named usual : StateM FileTree _) := by
  cases named with
  | none =>
    refine (readOnly_loadUsual usual).bind fun loaded => ?_
    cases loaded <;> exact readOnly_pure _
  | some path =>
    refine (readOnly_load path).bind fun loaded => ?_
    cases loaded <;> exact readOnly_pure _

theorem Project.readOnly_load (path : FilePath) :
    ReadOnly (Project.load path : StateM FileTree _) := by
  refine (readOnly_readText path).bind fun read => ?_
  split
  · exact readOnly_pure _
  · split <;> exact readOnly_pure _

namespace CommandLine

theorem readOnly_loadSettings (environment : Environment) (named : Option FilePath) :
    ReadOnly (loadSettings environment named : StateM FileTree _) := by
  cases named with
  | none =>
    exact (Settings.readOnly_loadOrStandard _ _).bind fun _ => readOnly_pure _
  | some path =>
    refine (Settings.readOnly_load path).bind fun loaded => ?_
    split <;> exact readOnly_pure _

theorem readOnly_loadGraph (project : FilePath) :
    ReadOnly (loadGraph project : StateM FileTree _) := by
  refine (Project.readOnly_load project).bind fun loaded => ?_
  split
  · exact readOnly_pure _
  · split <;> exact readOnly_pure _

/-- Without a directory for it no log is prepared. -/
theorem after_prepareLog {settings : Settings} (h : settings.logDirectory = none)
    (environment : Environment) (t : FileTree) :
    t.after (prepareLog environment settings) =
      (if environment.logFilter.any LogFilter.isValid ||
        LogFilter.isValid settings.effectiveLogFilter then .ok () else .error .badLogFilter, t) := by
  simp only [prepareLog, h]
  split <;> rfl

/-- A script is written in one step or not at all. -/
theorem after_writeScript (t : FileTree) (script : Script) (target : FilePath) (overwrite : Bool) :
    t.after (writeScript script target overwrite) =
      if t.hasPath target && !overwrite then (.error (.targetExists target), t)
      else match t.writeBytes target (Utf8.encode script.text) with
        | .error cause => (.error (.unwritable target cause), t)
        | .ok t' => (.ok (), t') := by
  have hthere : (t.after (Disk.pathExists target)).1 = t.hasPath target := rfl
  rw [writeScript, (readOnly_pathExists target).after_bind, hthere]
  split
  · rfl
  · rw [after_bind, after_writeText]
    cases t.writeBytes target (Utf8.encode script.text) <;> rfl

namespace Command

/-- The file that a command puts a script into, if any. -/
def target? (settings : Settings) : Command → Option FilePath
  | .compile project output write _ => if write then some (settings.scriptPath project) else output
  | _ => none

def project : Command → FilePath
  | .compile project _ _ _ => project
  | .check project => project
  | .order project => project

def mayOverwrite (settings : Settings) : Command → Bool
  | .compile _ _ _ force => force || settings.overwrite
  | _ => false

end Command

def HasScript (t : FileTree) (project : FilePath) (s : Script) : Prop :=
  ∃ p g, t.after (Project.load project) = (.ok p, t) ∧ p.toGraph = .ok g ∧ g.compile = .ok s

/-- A graph is loaded just if the project that is loaded has it. -/
theorem after_loadGraph_eq_ok_iff {t : FileTree} {project : FilePath} {g : Graph} :
    (t.after (loadGraph project)).1 = .ok g ↔
      ∃ p, t.after (Project.load project) = (.ok p, t) ∧ p.toGraph = .ok g := by
  have hload := (Project.readOnly_load project).after_eq t
  rw [loadGraph, (Project.readOnly_load project).after_bind]
  generalize (t.after (Project.load project)).1 = loaded at hload ⊢
  rw [hload]
  cases loaded with
  | error failure => simp
  | ok p =>
    simp only [Prod.mk.injEq, Except.ok.injEq, and_true, exists_eq_left']
    cases p.toGraph <;> simp

/-- A script is there just if the graph compiles to it. -/
theorem compileFor_eq_ok_iff {purpose : Purpose} {project : FilePath} {g : Graph} {s : Script} :
    compileFor purpose project g = .ok s ↔ g.compile = .ok s := by
  rw [compileFor]
  cases g.compile <;> simp [Except.mapError]

variable {settings : Settings} {command : Command}

/-- A command without a target changes no file. -/
theorem readOnly_perform (h : command.target? settings = none) :
    ReadOnly (perform settings command : StateM FileTree _) := by
  cases command with
  | check project =>
    refine (readOnly_loadGraph project).bind fun loaded => ?_
    split <;> exact readOnly_pure _
  | order project =>
    refine (readOnly_loadGraph project).bind fun loaded => ?_
    split <;> exact readOnly_pure _
  | compile project output write force =>
    refine (readOnly_loadGraph project).bind fun loaded => ?_
    split
    · exact readOnly_pure _
    split
    · exact readOnly_pure _
    · have hnone : (if write then some (settings.scriptPath project) else output) = none := h
      rw [hnone]
      exact readOnly_pure _

/-- All that can fail comes before the script is written. -/
theorem after_perform {target : FilePath} (h : command.target? settings = some target)
    (t : FileTree) : t.after (perform settings command) =
      match (t.after (loadGraph command.project)).1 with
      | .error fault => (.error fault, t)
      | .ok g => match compileFor .script command.project g with
        | .error fault => (.error fault, t)
        | .ok script =>
          if t.hasPath target && !command.mayOverwrite settings then (.error (.targetExists target), t)
          else match t.writeBytes target (Utf8.encode script.text) with
            | .error cause => (.error (.unwritable target cause), t)
            | .ok t' => (.ok "", t') := by
  cases command with
  | check project => cases h
  | order project => cases h
  | compile project output write force =>
    have htarget : (if write then some (settings.scriptPath project) else output) = some target := h
    rw [perform, (readOnly_loadGraph project).after_bind]
    simp only [Command.project, Command.mayOverwrite]
    cases (t.after (loadGraph project)).1 with
    | error fault => rfl
    | ok g =>
      cases hscript : compileFor .script project g with
      | error fault => simp only [hscript, after_pure]
      | ok script =>
        simp only [hscript, htarget, after_bind, after_writeScript]
        by_cases hthere : (t.hasPath target && !(force || settings.overwrite)) = true
        · simp only [hthere, if_true]
          rfl
        · simp only [hthere]
          cases t.writeBytes target (Utf8.encode script.text) <;> rfl

/-- A command with a target succeeds just if it has a script that may be put there. -/
theorem after_perform_eq_ok_iff {target : FilePath} (h : command.target? settings = some target)
    {t t' : FileTree} {text : String} :
    t.after (perform settings command) = (.ok text, t') ↔ text = "" ∧
      ∃ s, HasScript t command.project s ∧
        (t.hasPath target = false ∨ command.mayOverwrite settings = true) ∧
        t.writeBytes target (Utf8.encode s.text) = .ok t' := by
  rw [after_perform h]
  constructor
  · intro hrun
    split at hrun
    · cases hrun
    next g hgraph =>
    obtain ⟨p, hload, hbuild⟩ := after_loadGraph_eq_ok_iff.mp hgraph
    split at hrun
    · cases hrun
    next s hscript =>
    split at hrun
    · cases hrun
    next hfree =>
    split at hrun
    · cases hrun
    next t'' hwrite =>
    obtain ⟨htext, rfl⟩ := Prod.mk.inj hrun
    refine ⟨(Except.ok.inj htext).symm, s, ⟨p, g, hload, hbuild, compileFor_eq_ok_iff.mp hscript⟩,
      ?_, hwrite⟩
    simpa [Bool.and_eq_true, imp_iff_not_or] using hfree
  · rintro ⟨rfl, s, ⟨p, g, hload, hbuild, hcompile⟩, hfree, hwrite⟩
    have hgraph := after_loadGraph_eq_ok_iff.mpr ⟨p, hload, hbuild⟩
    have hscript : compileFor .script command.project g = .ok s := compileFor_eq_ok_iff.mpr hcompile
    simp only [hgraph, hscript, hwrite]
    rcases hfree with hfree | hfree <;> simp [hfree]

/-- A command that fails changes no file. -/
theorem cleanFailure_perform (settings : Settings) (command : Command) :
    CleanFailure (perform settings command : StateM FileTree _) := by
  cases h : command.target? settings with
  | none => exact (readOnly_perform h).cleanFailure
  | some target =>
    intro t fault
    rw [after_perform h]
    split
    · exact fun _ => rfl
    split
    · exact fun _ => rfl
    split
    · exact fun _ => rfl
    split
    · exact fun _ => rfl
    · exact fun hfault => by cases hfault

variable {environment : Environment} {arguments : List String} {t t' : FileTree}

def settingsIn (environment : Environment) (t : FileTree) (named : Option FilePath) :
    Except RunFault Settings := (t.after (loadSettings environment named)).1

/-- The settings of a run have no directory for a log. -/
def KeepsNoLog (environment : Environment) (arguments : List String) (t : FileTree) : Prop :=
  ∀ invocation settings, Invocation.ofArguments arguments = .ok invocation →
    settingsIn environment t invocation.config = .ok settings → settings.logDirectory = none

/-- A log filter that a run takes: the one around it or that of its settings. -/
def HasLogFilter (environment : Environment) (settings : Settings) : Prop :=
  environment.logFilter.any LogFilter.isValid = true ∨
    LogFilter.isValid settings.effectiveLogFilter = true

/-- A run with settings prepares a log and carries out its command. -/
theorem after_carryOut_of_ok {invocation : Invocation} {settings : Settings}
    (hsettings : settingsIn environment t invocation.config = .ok settings) :
    t.after (carryOut environment invocation) =
      match t.after (prepareLog environment settings) with
      | (.error fault, found) => (.error fault, found)
      | (.ok _, found) => found.after (perform settings invocation.command) := by
  have hread := readOnly_loadSettings environment invocation.config
  rw [settingsIn] at hsettings
  rw [carryOut, hread.after_bind, hsettings]
  simp only [after_bind]
  rcases t.after (prepareLog environment settings) with ⟨_ | _, found⟩ <;> rfl

/-- A run with settings and a log filter is its command. -/
theorem after_carryOut {invocation : Invocation} {settings : Settings}
    (hsettings : settingsIn environment t invocation.config = .ok settings)
    (hlog : settings.logDirectory = none) :
    (HasLogFilter environment settings ∧
      t.after (carryOut environment invocation) = t.after (perform settings invocation.command)) ∨
    (¬ HasLogFilter environment settings ∧
      t.after (carryOut environment invocation) = (.error .badLogFilter, t)) := by
  rw [after_carryOut_of_ok hsettings, after_prepareLog hlog]
  simp only [HasLogFilter, ← Bool.or_eq_true]
  by_cases hfilter : (environment.logFilter.any LogFilter.isValid ||
      LogFilter.isValid settings.effectiveLogFilter) = true
  · exact .inl ⟨hfilter, by simp only [hfilter, if_true]⟩
  · exact .inr ⟨hfilter, by simp only [hfilter]; rfl⟩

theorem after_carryOut_of_error {invocation : Invocation} {fault : RunFault}
    (hsettings : settingsIn environment t invocation.config = .error fault) :
    t.after (carryOut environment invocation) = (.error fault, t) := by
  have hread := readOnly_loadSettings environment invocation.config
  rw [settingsIn] at hsettings
  rw [carryOut, hread.after_bind, hsettings]
  rfl

/-- What is left of a run that got past its arguments. -/
def Outcome.ofResult : Except RunFault String → Outcome
  | .error fault => ⟨1, "", fault.report⟩
  | .ok text => ⟨0, text, ""⟩

theorem Outcome.status_ofResult_eq_zero_iff {result : Except RunFault String} :
    (ofResult result).status = 0 ↔ ∃ text, result = .ok text := by
  cases result <;> simp [ofResult]

/-- A run that gets past its arguments carries out what they ask for. -/
theorem after_run {invocation : Invocation}
    (harguments : Invocation.ofArguments arguments = .ok invocation) :
    t.after (run environment arguments) =
      (.ofResult (t.after (carryOut environment invocation)).1,
        (t.after (carryOut environment invocation)).2) := by
  rw [run, harguments]
  simp only [after_bind]
  cases (t.after (carryOut environment invocation)).1 <;> rfl

/-- What a run does once its arguments and its settings are there. -/
theorem after_run_cases {invocation : Invocation} {settings : Settings}
    (harguments : Invocation.ofArguments arguments = .ok invocation)
    (hsettings : settingsIn environment t invocation.config = .ok settings)
    (hlog : settings.logDirectory = none) :
    (HasLogFilter environment settings ∧ t.after (run environment arguments) =
      (.ofResult (t.after (perform settings invocation.command)).1,
        (t.after (perform settings invocation.command)).2)) ∨
    (¬ HasLogFilter environment settings ∧
      t.after (run environment arguments) = (.ofResult (.error .badLogFilter), t)) := by
  rw [after_run harguments]
  refine (after_carryOut hsettings hlog).imp ?_ ?_ <;>
    exact fun ⟨hfilter, hafter⟩ => ⟨hfilter, by rw [hafter]⟩

/-- A run that changes something got as far as its command. -/
theorem performs_of_ne (hlog : KeepsNoLog environment arguments t)
    (hne : (t.after (run environment arguments)).2 ≠ t) :
    ∃ invocation settings, Invocation.ofArguments arguments = .ok invocation ∧
      settingsIn environment t invocation.config = .ok settings ∧
      t.after (run environment arguments) =
        (.ofResult (t.after (perform settings invocation.command)).1,
          (t.after (perform settings invocation.command)).2) := by
  cases harguments : Invocation.ofArguments arguments with
  | error halt =>
    rw [run, harguments] at hne
    exact absurd rfl hne
  | ok invocation =>
    cases hsettings : settingsIn environment t invocation.config with
    | error fault =>
      rw [after_run harguments, after_carryOut_of_error hsettings] at hne
      exact absurd rfl hne
    | ok settings =>
      rcases after_run_cases harguments hsettings (hlog _ _ harguments hsettings) with
        ⟨-, hafter⟩ | ⟨-, hafter⟩
      · exact ⟨invocation, settings, rfl, hsettings, hafter⟩
      · rw [hafter] at hne
        exact absurd rfl hne

/-- A command that touches no file but its target: it changes nothing if it fails or has no target, and
with a target it succeeds just if it has a script that may be put there and can be. Then the target holds
the script, nothing else is changed and nothing is printed. -/
structure TouchesTargetOnly (settings : Settings) (command : Command) (t : FileTree) : Prop where
  failed : ∀ fault, (t.after (perform settings command)).1 = .error fault →
    (t.after (perform settings command)).2 = t
  untargeted : command.target? settings = none → (t.after (perform settings command)).2 = t
  targeted : ∀ target, command.target? settings = some target → ∀ text t',
    t.after (perform settings command) = (.ok text, t') ↔ text = "" ∧
      ∃ s, HasScript t command.project s ∧
        (t.hasPath target = false ∨ command.mayOverwrite settings = true) ∧
        t.writeBytes target (Utf8.encode s.text) = .ok t'
  replaced : ∀ target, command.target? settings = some target → ∀ text t',
    t.after (perform settings command) = (.ok text, t') →
      ∃ s, HasScript t command.project s ∧ t.Replaced target (Utf8.encode s.text) t'

/-- Every command touches its target only, in any tree. -/
theorem touchesTargetOnly (settings : Settings) (command : Command) (t : FileTree) :
    TouchesTargetOnly settings command t where
  failed := cleanFailure_perform settings command t
  untargeted h := readOnly_perform h t
  targeted _ h _ _ := after_perform_eq_ok_iff h
  replaced target h text t' hrun := by
    obtain ⟨-, s, hscript, -, hwrite⟩ := (after_perform_eq_ok_iff h).mp hrun
    exact ⟨s, hscript, FileTree.replaced_of_writeBytes hwrite⟩

/-- No command touches a file but its target. So a run that keeps no log changes nothing if it fails, and
nothing if it has no target for a script. With a target it succeeds only if it has a script that may be
put there. Then the target holds the script, nothing else is changed and nothing is printed. -/
theorem run_changes_target_only : (∀ settings command t, TouchesTargetOnly settings command t) ∧
    ∀ {environment : Environment} {arguments : List String} {t t' : FileTree} {outcome : Outcome},
    KeepsNoLog environment arguments t → t.after (run environment arguments) = (outcome, t') →
    (outcome.status ≠ 0 → t' = t) ∧
    ((∀ invocation settings, Invocation.ofArguments arguments = .ok invocation →
      settingsIn environment t invocation.config = .ok settings →
      invocation.command.target? settings = none) → t' = t) ∧
    ∀ invocation settings target, Invocation.ofArguments arguments = .ok invocation →
      settingsIn environment t invocation.config = .ok settings →
      invocation.command.target? settings = some target →
      (outcome.status = 0 → outcome.output = "" ∧ ∃ s, HasScript t invocation.command.project s ∧
        (t.hasPath target = false ∨ invocation.command.mayOverwrite settings = true) ∧
        t.Replaced target (Utf8.encode s.text) t') ∧
      ∀ s next, HasLogFilter environment settings → HasScript t invocation.command.project s →
        (t.hasPath target = false ∨ invocation.command.mayOverwrite settings = true) →
        t.writeBytes target (Utf8.encode s.text) = .ok next → outcome.status = 0 ∧ t' = next := by
  refine ⟨touchesTargetOnly, ?_⟩
  intro environment arguments t t' outcome hlog hrun
  obtain ⟨rfl, rfl⟩ : outcome = (t.after (run environment arguments)).1 ∧
      t' = (t.after (run environment arguments)).2 := by simp [hrun]
  refine ⟨fun hstatus => ?_, fun hnone => ?_, ?_⟩
  · by_contra hne
    obtain ⟨invocation, settings, -, -, hafter⟩ := performs_of_ne hlog hne
    rw [hafter] at hstatus hne
    cases hresult : (t.after (perform settings invocation.command)).1 with
    | error fault => exact hne (cleanFailure_perform settings invocation.command t fault hresult)
    | ok text => exact hstatus (Outcome.status_ofResult_eq_zero_iff.mpr ⟨text, hresult⟩)
  · by_contra hne
    obtain ⟨invocation, settings, harguments, hsettings, hafter⟩ := performs_of_ne hlog hne
    rw [hafter] at hne
    exact hne (readOnly_perform (hnone _ _ harguments hsettings) t)
  · intro invocation settings target harguments hsettings htarget
    rcases after_run_cases harguments hsettings (hlog _ _ harguments hsettings) with
      ⟨hfilter, hafter⟩ | ⟨hfilter, hafter⟩
    · rw [hafter]
      refine ⟨fun hstatus => ?_, fun s next _ hscript hfree hwrite => ?_⟩
      · obtain ⟨text, htext⟩ := Outcome.status_ofResult_eq_zero_iff.mp hstatus
        obtain ⟨rfl, s, hscript, hfree, hwrite⟩ :=
          (after_perform_eq_ok_iff htarget).mp (Prod.ext htext rfl)
        rw [htext]
        exact ⟨rfl, s, hscript, hfree, FileTree.replaced_of_writeBytes hwrite⟩
      · have hperform := (after_perform_eq_ok_iff htarget).mpr ⟨rfl, s, hscript, hfree, hwrite⟩
        rw [hperform]
        exact ⟨rfl, rfl⟩
    · rw [hafter]
      refine ⟨fun hstatus => ?_, fun _ _ h => absurd h hfilter⟩
      obtain ⟨text, htext⟩ := Outcome.status_ofResult_eq_zero_iff.mp hstatus
      cases htext

/-- A project of a source and an output, with arrays for objects. -/
def bareText : String := "[1,\"\",[[\"source\",\"in.mkv\",null],[\"output\",0]],[[0,1]]]"

/-- A tree with that project and nothing else. -/
def desk : FileTree := ⟨[], [([Utf8.encode "p.json"], .file (Utf8.encode bareText))]⟩

def bareScript : Script where
  program := ⟨[.load ⟨0⟩ "ffms2.Source" "in.mkv"], [.bind (.source ⟨0⟩) 0]⟩
  stats := ⟨2, 2, 0, 0, 1⟩

theorem desk_hasScript : HasScript desk (.ofText "p.json") bareScript := by
  have hread : desk.readBytes (.ofText "p.json") = .ok (Utf8.encode bareText) := by decide +kernel
  have hparse : Project.parse bareText =
      .ok ⟨1, "", [.source ⟨.ofText "in.mkv", none⟩, .output ⟨0⟩], [⟨⟨0⟩, ⟨1⟩⟩]⟩ := by decide +kernel
  refine ⟨_, ⟨#[.source ⟨.ofText "in.mkv", none⟩, .output ⟨0⟩], #[⟨⟨0⟩, ⟨4096⟩⟩]⟩,
    Project.after_load_of_readBytes hread hparse, ?_, ?_⟩
  · cbv
  · cbv

/-- A run that names a file puts the script there and prints nothing. -/
theorem desk_compile : KeepsNoLog ⟨none, none⟩ ["compile", "p.json", "-o", "out.vpy"] desk ∧
    ∃ outcome t', desk.after (run ⟨none, none⟩ ["compile", "p.json", "-o", "out.vpy"]) =
        (outcome, t') ∧ outcome.status = 0 ∧ outcome.output = "" ∧
      ∃ s, HasScript desk (.ofText "p.json") s ∧
        desk.Replaced (.ofText "out.vpy") (Utf8.encode s.text) t' := by
  have harguments : Invocation.ofArguments ["compile", "p.json", "-o", "out.vpy"] =
      .ok ⟨none, .compile (.ofText "p.json") (some (.ofText "out.vpy")) false false⟩ := by
    decide +kernel
  have hsettings : settingsIn ⟨none, none⟩ desk none = .ok .standard := rfl
  have hlog : KeepsNoLog ⟨none, none⟩ ["compile", "p.json", "-o", "out.vpy"] desk := by
    intro invocation settings hinvocation hloaded
    rw [harguments] at hinvocation
    obtain rfl := Except.ok.inj hinvocation
    rw [hsettings] at hloaded
    obtain rfl := Except.ok.inj hloaded
    rfl
  have hfilter : HasLogFilter ⟨none, none⟩ .standard := .inr (by cbv)
  have hfree : desk.hasPath (.ofText "out.vpy") = false := by decide +kernel
  have hwrite : desk.writeBytes (.ofText "out.vpy") (Utf8.encode bareScript.text) =
      .ok (desk.put [Utf8.encode "out.vpy"] (.file (Utf8.encode bareScript.text))) := by
    decide +kernel
  obtain ⟨-, -, htarget⟩ := run_changes_target_only.2 hlog rfl
  obtain ⟨hdone, hwrites⟩ := htarget _ _ (.ofText "out.vpy") harguments hsettings rfl
  have hstatus := (hwrites bareScript _ hfilter desk_hasScript (.inl hfree) hwrite).1
  obtain ⟨houtput, s, hscript, -, hreplaced⟩ := hdone hstatus
  exact ⟨hlog, _, _, rfl, hstatus, houtput, s, hscript, hreplaced⟩

end CommandLine
end
end ClipGraph
