import Mathlib.Tactic.Common
import Sigil.CommandLine.Report
import Sigil.Proofs.Host.Path

/-!
# The script that a command line runs

The program is given the path of a script, and perhaps a root directory for imports. It looks the
script up by its bare name, in the way that imports are looked up. Without a root this is the file
that was given (`loader_fileName`), and the program runs its text. With a root, it runs the script
of this name below the root, whatever the file that was given holds.
-/

namespace Sigil.CommandLine

/-- The report tells what a run printed and whether it succeeded. -/
def Report.Tells {α : Type} (report : Report) (run : Except Error α × Machine) : Prop :=
  report.output = unlines run.2.output ∧ report.code = if run.1.isOk then 0 else 1

section
variable {tree : FileTree} {files : Files} {file name text : Text} {options : Options}

/-- A script that is found is run. -/
lemma reportRun_of_found (found : (hostOf files file options).loader name = .ok text) :
    (reportRun files file name options).Tells
      (Machine.runSource (hostOf files file options) {} name text) := by
  simp only [reportRun, Machine.runFile, found]
  generalize Machine.runSource (hostOf files file options) {} name text = run
  obtain ⟨result, m⟩ := run
  cases result <;> exact ⟨rfl, rfl⟩

/-- If the loader does not give the script, the report has code 1 and nothing is printed. -/
lemma reportRun_of_failure {failure : LoadFailure}
    (failed : (hostOf files file options).loader name = .error failure) :
    (reportRun files file name options).code = 1 ∧
      (reportRun files file name options).output = "" := by
  unfold reportRun Machine.runFile
  rw [failed]
  exact ⟨rfl, rfl⟩

/-- What can be read as text is a file. -/
lemma isFile_of_readText (read : files.readText file = .ok text) : files.isFile file = true := by
  unfold Files.isFile
  cases e : files file with
  | error fault =>
    rw [Files.readText, e] at read
    cases read
  | ok bytes => rfl

/-- A path that has an extension has a file name. -/
lemma fileName_of_extension {extension : Text} (h : Path.extension? file = some extension) :
    ∃ name, Path.fileName? file = some name := by
  obtain ⟨name, named, _⟩ := Option.bind_eq_some_iff.1 h
  exact ⟨name, named⟩

/-- Without a root, the name of a file is looked up where the file is. -/
lemma loader_fileName (read : tree.files.readText file = .ok text)
    (named : Path.fileName? file = some name) (default : options.root = none) :
    (hostOf tree.files file options).loader name = .ok text := by
  have root : rootOf file options = Path.parent file := by simp [rootOf, default]
  simp only [hostOf, Files.loader, root]
  cases e : tree.files file with
  | error fault =>
    rw [Files.readText, e] at read
    cases read
  | ok bytes =>
    rw [Files.readText, e] at read
    rw [Files.readText, FileTree.files_join_parent e named]
    simp only [Bind.bind, Except.bind] at read ⊢
    rw [read]
    rfl

/-- A script that can be read is reported by its tokens or by a run, as the options say. -/
lemma reportFile_eq (extension : Path.extension? file = some scriptExtension)
    (read : files.readText file = .ok text) (named : Path.fileName? file = some name) :
    reportFile files file options =
      if options.tokens then { code := 0, output := unlines (tokenTable text) }
      else reportRun files file name options := by
  simp [reportFile, extension, isFile_of_readText read, reportTokens, read, named]

end

/-- A script that can be read, and is not to be shown as tokens, is run: without a root, its own
text is, the same that would be shown as tokens; with a root, what is run is the script of the same
name below the root. Either way its imports are looked up below the root, which by default is the
directory of the script, and the program prints what the run prints and succeeds if the run does. -/
theorem report_tells_run {tree : FileTree} {args : List Text} {file text : Text} {options : Options}
    (asked : Request.ofArgs args = .run file options) (running : options.tokens = false)
    (extension : Path.extension? file = some scriptExtension)
    (read : tree.files.readText file = .ok text) :
    ∃ name, Path.fileName? file = some name ∧
      (reportFile tree.files file { options with tokens := true }).output =
        unlines (tokenTable text) ∧
      (options.root = none → (report tree.files args).Tells
        (Machine.runSource (hostOf tree.files file options) {} name text)) ∧
      ∀ root, options.root = some root →
        (∀ text', tree.files.readText (Path.join root name) = .ok text' →
          (report tree.files args).Tells
            (Machine.runSource (hostOf tree.files file options) {} name text')) ∧
        ∀ fault, tree.files.readText (Path.join root name) = .error fault →
          (report tree.files args).code = 1 ∧ (report tree.files args).output = "" := by
  obtain ⟨name, named⟩ := fileName_of_extension extension
  have reported : report tree.files args = reportRun tree.files file name options := by
    simp [report, asked, reportFile_eq extension read named, running]
  refine ⟨name, named, ?_, ?_⟩
  · rw [reportFile_eq extension read named]
    rfl
  rw [reported]
  refine ⟨fun default => ?_, fun root given => ?_⟩
  · exact reportRun_of_found (loader_fileName read named default)
  have below : (hostOf tree.files file options).loader name =
      (tree.files.readText (Path.join root name)).mapError FileFault.toLoadFailure := by
    simp [hostOf, Files.loader, rootOf, given]
  constructor
  · intro text' found
    rw [found] at below
    exact reportRun_of_found below
  · intro fault failed
    rw [failed] at below
    exact reportRun_of_failure below

/-- Without a root, a script in a directory is run with its imports from there. -/
theorem report_tells_run_import :
    let tree : FileTree := .ofList [
      ("a/main.vscc".toList, .file "@usingfile \"lib.vscc\"".toUTF8.toList),
      ("a/lib.vscc".toList, .file "@print \"imported\"".toUTF8.toList)]
    (report tree.files ["a/main.vscc".toList]).code = 0 ∧
      (report tree.files ["a/main.vscc".toList]).output = "imported\n" := by
  intro tree
  let options : Options := { file := some "a/main.vscc".toList }
  let text := "@usingfile \"lib.vscc\"".toList
  have read : tree.files.readText "a/main.vscc".toList = .ok text := by decide +kernel
  obtain ⟨name, named, _, runs, _⟩ := @report_tells_run tree ["a/main.vscc".toList]
    "a/main.vscc".toList text options (by decide +kernel) rfl (by decide +kernel) read
  obtain rfl : "main.vscc".toList = name := Option.some.inj (.trans (by decide +kernel) named)
  obtain ⟨output, code⟩ := runs rfl
  constructor
  · rw [code]
    decide +kernel
  · rw [output]
    decide +kernel

/-- It is not so that the program always runs the file it was given: with a root, a file of the same
name below the root is run in its place. -/
theorem root_replaces_script :
    ¬ ∀ (tree : FileTree) (args : List Text) (file text : Text) (options : Options) (name : Text),
      Request.ofArgs args = .run file options → options.tokens = false →
      Path.extension? file = some scriptExtension → tree.files.readText file = .ok text →
      Path.fileName? file = some name →
      (report tree.files args).Tells
        (Machine.runSource (hostOf tree.files file options) {} name text) := by
  intro always
  let tree : FileTree := .ofList [("a/main.vscc".toList, .file "@print \"a\"".toUTF8.toList),
    ("b/main.vscc".toList, .file "@print \"b\"".toUTF8.toList)]
  have tells := always tree ["--root".toList, "b".toList, "a/main.vscc".toList] "a/main.vscc".toList
    "@print \"a\"".toList { file := some "a/main.vscc".toList, root := some "b".toList }
    "main.vscc".toList (by decide +kernel) rfl (by decide +kernel) (by decide +kernel)
    (by decide +kernel)
  exact absurd tells.1 (by decide +kernel)

end Sigil.CommandLine
