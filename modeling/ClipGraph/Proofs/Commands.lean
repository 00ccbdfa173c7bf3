import ClipGraph.Proofs.Entries
import ClipGraph.Proofs.Projects
import ClipGraph.Proofs.Runs

/-!
# Three commands on one project

The commands share all that comes before the compilation of a graph: the settings, the log and the
loading of the project. From there on `check` compiles and keeps the counts, `compile` keeps the
script and may have to put it into a file, and `order` only validates. So `check` and `compile` fail
together as long as no file is involved, a project that compiles has a listing, and what `compile`
finds wrong behind a listing is a node without an input or the file that it was to write.
-/

namespace ClipGraph.CommandLine

open FileTree

/-- Settings are loaded and a log is prepared, which leaves a tree for a command to find. -/
structure Starts (environment : Environment) (config : Option FilePath) (t : FileTree)
    (settings : Settings) (found : FileTree) : Prop where
  loaded : settingsIn environment t config = .ok settings
  logged : t.after (prepareLog environment settings) = (.ok (), found)

variable {environment : Environment} {config : Option FilePath} {t found t' : FileTree}
  {settings : Settings} {project : FilePath} {output : Option FilePath} {write force : Bool}
  {text : String} {fault : RunFault} {g : Graph}

/-- A run starts in one way only. -/
theorem Starts.unique (h : Starts environment config t settings found) {settings' : Settings}
    {found' : FileTree} (h' : Starts environment config t settings' found') :
    settings = settings' ∧ found = found' := by
  obtain rfl := Except.ok.inj (h.loaded.symm.trans h'.loaded)
  exact ⟨rfl, (Prod.mk.inj (h.logged.symm.trans h'.logged)).2⟩

/-- Once a run has started, it comes to what its command comes to in the tree that was left. -/
theorem Starts.after_carryOut (h : Starts environment config t settings found) (command : Command) :
    t.after (carryOut environment ⟨config, command⟩) = found.after (perform settings command) := by
  rw [after_carryOut_of_ok h.loaded, h.logged]

/-- Either every command is carried out in the same tree, or all of them fail alike. -/
theorem starts_or_fails (environment : Environment) (config : Option FilePath) (t : FileTree) :
    (∃ settings found, Starts environment config t settings found) ∨
      ∃ fault, ∀ command, (t.after (carryOut environment ⟨config, command⟩)).1 = .error fault := by
  cases hsettings : settingsIn environment t config with
  | error fault =>
    exact .inr ⟨fault, fun command => by rw [after_carryOut_of_error hsettings]⟩
  | ok settings =>
    cases hlog : t.after (prepareLog environment settings) with
    | mk prepared found =>
      cases prepared with
      | ok _ => exact .inl ⟨settings, found, hsettings, hlog⟩
      | error fault =>
        exact .inr ⟨fault, fun command => by rw [after_carryOut_of_ok hsettings, hlog]⟩

theorem after_check (t : FileTree) : t.after (perform settings (.check project)) =
    ((t.after (loadGraph project)).1 >>= fun g =>
      (compileFor .validation project g).map fun s => checkText project s.stats, t) := by
  rw [perform, (readOnly_loadGraph project).after_bind]
  cases (t.after (loadGraph project)).1 <;> rfl

theorem after_order (t : FileTree) : t.after (perform settings (.order project)) =
    ((t.after (loadGraph project)).1 >>= listOrder project, t) := by
  rw [perform, (readOnly_loadGraph project).after_bind]
  cases (t.after (loadGraph project)).1 <;> rfl

/-- A check prints a text just if the graph compiles, and then the text of its counts. -/
theorem check_eq_ok_iff : (t.after (perform settings (.check project))).1 = .ok text ↔
    ∃ g, (t.after (loadGraph project)).1 = .ok g ∧ ∃ s, g.compile = .ok s ∧
      checkText project s.stats = text := by
  simp only [after_check, bind_eq_ok_iff, map_eq_ok_iff, compileFor_eq_ok_iff]

/-- A listing is printed just if the graph is valid, and then it is that of its order. -/
theorem order_eq_ok_iff : (t.after (perform settings (.order project))).1 = .ok text ↔
    ∃ g, (t.after (loadGraph project)).1 = .ok g ∧ g.validate = .ok () ∧ orderText g = text := by
  simp only [after_order, bind_eq_ok_iff, listOrder]
  refine exists_congr fun g => and_congr_right fun _ => ?_
  cases g.validate <;> simp

theorem valid_of_loadGraph (h : (t.after (loadGraph project)).1 = .ok g) : g.Valid := by
  obtain ⟨p, -, hbuild⟩ := after_loadGraph_eq_ok_iff.mp h
  exact (Project.toGraph_eq_ok_iff.mp hbuild).1

/-- A run is left with what its command answers. -/
theorem Starts.after_run (h : Starts environment config t settings found) {arguments : List String}
    {command : Command} (harguments : Invocation.ofArguments arguments = .ok ⟨config, command⟩) :
    t.after (run environment arguments) =
      (.ofResult (found.after (perform settings command)).1,
        (found.after (perform settings command)).2) := by
  rw [CommandLine.after_run harguments, h.after_carryOut]

/-- With neither settings nor a log filter a run starts at once. -/
theorem standard_starts (t : FileTree) : Starts ⟨none, none⟩ none t .standard t where
  loaded := rfl
  logged := by
    rw [after_prepareLog rfl]
    cbv

/-- A project whose first output comes before its filter. -/
def forkText : String :=
  "[1,\"\",[[\"source\",\"in.mkv\",null],[\"output\",0],[\"filter\",\"Crop\",\"std\",\"Crop\",[]]," ++
    "[\"output\",1]],[[0,1],[0,2],[2,3]]]"

def bench : FileTree := ⟨[], [([Utf8.encode "p.json"], .file (Utf8.encode forkText))]⟩

def forkGraph : Graph where
  nodes := #[.source ⟨.ofText "in.mkv", none⟩, .output ⟨0⟩, .filter ⟨"Crop", "std", "Crop", []⟩,
    .output ⟨1⟩]
  connections := #[⟨⟨0⟩, ⟨4096⟩⟩, ⟨⟨0⟩, ⟨8192⟩⟩, ⟨⟨8193⟩, ⟨12288⟩⟩]

def forkScript : Script where
  program := ⟨[.load ⟨0⟩ "ffms2.Source" "in.mkv", .call ⟨2⟩ 2 "std" "Crop" (.source ⟨0⟩) []],
    [.bind (.source ⟨0⟩) 0, .bind (.filter ⟨2⟩ 2) 1]⟩
  stats := ⟨4, 4, 0, 1, 2⟩

theorem bench_loadGraph : (bench.after (loadGraph (.ofText "p.json"))).1 = .ok forkGraph := by
  have hread : bench.readBytes (.ofText "p.json") = .ok (Utf8.encode forkText) := by decide +kernel
  have hparse : Project.parse forkText =
      .ok ⟨1, "", forkGraph.nodes.toList, [⟨⟨0⟩, ⟨1⟩⟩, ⟨⟨0⟩, ⟨2⟩⟩, ⟨⟨2⟩, ⟨3⟩⟩]⟩ := by decide +kernel
  exact after_loadGraph_eq_ok_iff.mpr ⟨_, Project.after_load_of_readBytes hread hparse, by cbv⟩

theorem forkGraph_compile : forkGraph.compile = .ok forkScript := by cbv

end ClipGraph.CommandLine
