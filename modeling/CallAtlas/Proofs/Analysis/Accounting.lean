import CallAtlas.Grammar.Python
import CallAtlas.Proofs.Analysis.Phases
import CallAtlas.Proofs.CallGraph.References
import CallAtlas.Proofs.Cluster.Partition

/-!
# Every scanned file is accounted for

A run reads every file that it scanned, and each one ends in one of two ways: with an outline or
with a warning, both under the file's own path. Which of the two is a matter of the file alone. It
has an outline when it is small enough, can be read, and has a tree without faults or with faults
that are tolerated; `SourceFile.Legible` says so without reference to how it is read. No file of a
run that succeeds is skipped.

The run keeps outlines and warnings in two lists and goes on with the outlines only. Both lists are
taken from the readings, which stand in the order of the scan. The outlines then lead to the
functions of the graph, whose files are files that have an outline.
-/

namespace CallAtlas

/-- Whether a warning says that a file has no outline. -/
def Warning.isParseFailure : Warning → Bool
  | parseFailure _ _ => true
  | skippedEntry _ _ => false
  | unresolvedReference _ _ _ => false

namespace CallGraph

variable {α : Type} [Weight α] {graph result : CallGraph} {maxClusterSize : Nat} {resolution : α}
variable {clusters : List Cluster} {node : FunctionNode}

/-- Clustering changes nothing of a function but its cluster. -/
theorem nodes_of_cluster?
    (answered : graph.cluster? maxClusterSize resolution = some (clusters, result)) :
    result.nodes.map (fun node => { node with cluster := none }) =
      graph.nodes.map fun node => { node with cluster := none } := by
  obtain ⟨communities, arranged, rfl, rfl⟩ := exists_arranged_of_cluster? answered
  exact (clustered_ofCommunities graph (Network.ofGraph α graph) arranged).nodes

theorem exists_of_mem_cluster?
    (answered : graph.cluster? maxClusterSize resolution = some (clusters, result))
    (h : node ∈ result.nodes) : ∃ original ∈ graph.nodes, original.file = node.file := by
  have erased := List.mem_map_of_mem (f := fun node => { node with cluster := none }) h
  rw [nodes_of_cluster? answered] at erased
  obtain ⟨original, horiginal, same⟩ := List.mem_map.mp erased
  exact ⟨original, horiginal, (FunctionNode.mk.inj same).2.2.1⟩

end CallGraph

namespace Dialect

/-- A tree is refused only for a fault that is not tolerated, and an outline is that of its file. -/
theorem outline_eq (dialect : Dialect) (tolerant : Bool) (file : String) (source : Bytes)
    (root : SyntaxTree) :
    (∃ declarations, dialect.outline tolerant file source root = .ok ⟨file, declarations⟩ ∧
      (root.label.hasError = true → tolerant = true)) ∨
    ∃ refusal, dialect.outline tolerant file source root = .error refusal ∧
      ¬ (root.label.hasError = true → tolerant = true) := by
  unfold outline
  split
  · next faulty =>
    have untolerated : ¬ (root.label.hasError = true → tolerant = true) := by simpa using faulty
    right
    split
    · exact ⟨_, rfl, untolerated⟩
    · exact ⟨_, rfl, untolerated⟩
  · next sound =>
    exact .inl ⟨_, rfl, by simpa using sound⟩

end Dialect

namespace SourceFile

variable {fs : FileSystem} {config : Config} {language : Language}

/-- A file can be outlined: it is small enough, it can be read, and it has a tree with no fault that
is not tolerated. -/
def Legible (fs : FileSystem) (config : Config) (file : SourceFile) : Prop :=
  fs.size file.path ≤ config.maxFileSize ∧ ∃ content tree, fs.read file.path = .ok content ∧
    content.syntaxTree = some tree ∧
      (tree.label.hasError = true → config.tolerateSyntaxErrors = true)

/-- What a file contributes to a run: the outline of a legible file, or a warning about another
one, under its path. -/
inductive Contributes (fs : FileSystem) (config : Config) (file : SourceFile) : Reading → Prop where
  | outlined (declarations : List Declaration) (legible : file.Legible fs config) :
      Contributes fs config file (.outlined ⟨file.relPath, declarations⟩)
  | failed (reason : String) (illegible : ¬ file.Legible fs config) :
      Contributes fs config file (.failed (.parseFailure file.relPath reason))

theorem contributes_reading (fs : FileSystem) (config : Config) (language : Language)
    (file : SourceFile) :
    file.Contributes fs config (file.reading fs config language false) := by
  unfold reading outline
  dsimp only
  by_cases large : config.maxFileSize < fs.size file.path
  · rw [if_pos large]
    exact .failed _ fun legible => Nat.not_lt.mpr legible.1 large
  rw [if_neg large]
  cases read : fs.read file.path with
  | error e =>
      refine .failed _ ?_
      rintro ⟨-, content, tree, readable, -⟩
      cases read.symm.trans readable
  | ok content =>
      dsimp only
      cases parsed : content.syntaxTree with
      | none =>
          refine .failed _ ?_
          rintro ⟨-, content', tree, readable, made, -⟩
          cases read.symm.trans readable
          cases parsed.symm.trans made
      | some tree =>
          dsimp only
          rcases language.dialect.outline_eq config.tolerateSyntaxErrors file.relPath content.bytes
            tree with ⟨declarations, accepted, sound⟩ | ⟨refusal, refused, faulty⟩
          · rw [accepted]
            exact .outlined declarations ⟨Nat.not_lt.mp large, content, tree, read, parsed, sound⟩
          · rw [refused]
            refine .failed _ ?_
            rintro ⟨-, content', tree', readable, same, sound⟩
            cases read.symm.trans readable
            cases parsed.symm.trans same
            exact faulty sound

theorem contributed_readings (fs : FileSystem) (config : Config) (language : Language)
    (files : List SourceFile) :
    List.Forall₂ (Contributes fs config) files (Analysis.readingsOf fs config language files) := by
  rw [Analysis.readingsOf, List.forall₂_map_right_iff, List.forall₂_same]
  exact fun file _ => contributes_reading fs config language file

/-- Every reading is in one of the two lists and in no more than one. -/
theorem length_outlines_add {files : List SourceFile} {readings : List Reading}
    (contributed : List.Forall₂ (Contributes fs config) files readings) :
    (readings.filterMap Reading.outline?).length + (readings.filterMap Reading.warning?).length =
      files.length := by
  induction contributed with
  | nil => rfl
  | cons first rest ih =>
      cases first with
      | outlined declarations legible =>
          simp only [List.filterMap_cons, Reading.outline?, Reading.warning?, List.length_cons]
          omega
      | failed reason illegible =>
          simp only [List.filterMap_cons, Reading.outline?, Reading.warning?, List.length_cons]
          omega

theorem mem_outlines {readings : List Reading} {outline : Outline} :
    outline ∈ readings.filterMap Reading.outline? ↔ .outlined outline ∈ readings := by
  rw [List.mem_filterMap]
  constructor
  · rintro ⟨reading, listed, same⟩
    cases reading <;> cases same
    exact listed
  · exact fun listed => ⟨_, listed, rfl⟩

/-- All that a scan warns of is entries that it skipped. -/
theorem isParseFailure_of_mem_scan {stopped : Bool} {scanned : Scan}
    (h : scan fs config stopped = .ok scanned) {warning : Warning}
    (listed : warning ∈ scanned.warnings) : warning.isParseFailure = false := by
  unfold scan at h
  cases chosen : config.chosenLanguage with
  | error e =>
      rw [chosen] at h
      cases h
  | ok language =>
      rw [chosen] at h
      dsimp only [bind, Except.bind] at h
      split at h
      · cases stopped with
        | true => cases h
        | false =>
            cases h
            obtain ⟨names, -, rfl⟩ := List.mem_map.mp listed
            rfl
      · cases h

end SourceFile

namespace Analysis

open SourceFile (Scan Reading)

variable {fs : FileSystem} {timings : Timings} {config : Config} {analysis : Analysis}

/-- How a run accounts for its files, when the file at each position has the reading there. -/
structure Accounts (analysis : Analysis) (fs : FileSystem) (config : Config) (language : Language)
    (scanned : Scan) (readings : List Reading) : Prop where
  /-- Every file is read, in the order of the scan. -/
  read : scanned.files.map (SourceFile.reading fs config language false) = readings
  contributed : List.Forall₂ (SourceFile.Contributes fs config) scanned.files readings
  /-- The summary has the warnings of the scan first, then those about files, and then those about
  references. -/
  reported : analysis.summary.warnings =
    scanned.warnings ++ readings.filterMap Reading.warning? ++
      (CallGraph.link (readings.filterMap Reading.outline?)).2
  failures : analysis.summary.warnings.filter Warning.isParseFailure =
    readings.filterMap Reading.warning?
  fileCount : analysis.summary.fileCount =
    (readings.filterMap Reading.outline?).length +
      analysis.summary.warnings.countP Warning.isParseFailure
  /-- The graph is that of the outlines, with clusters. -/
  linked : analysis.graph.nodes.map (fun node => { node with cluster := none }) =
    (CallGraph.link (readings.filterMap Reading.outline?)).1.nodes.map
      fun node => { node with cluster := none }
  parsed : ∀ node ∈ analysis.graph.nodes, ∃ file outline,
    (file, .outlined outline) ∈ scanned.files.zip readings ∧ node.file = file.relPath

section Files

variable {language : Language} {files : List SourceFile} {scanned : Scan}

theorem isParseFailure_of_mem_warnings {warning : Warning}
    (h : warning ∈ (readingsOf fs config language files).filterMap Reading.warning?) :
    warning.isParseFailure = true := by
  obtain ⟨reading, listed, same⟩ := List.mem_filterMap.mp h
  obtain ⟨file, -, rfl⟩ := List.mem_map.mp listed
  have contributes := SourceFile.contributes_reading fs config language file
  generalize file.reading fs config language false = reading at contributes same
  cases contributes <;> cases same
  rfl

theorem isParseFailure_of_mem_link {outlines : List Outline} {warning : Warning}
    (h : warning ∈ (CallGraph.link outlines).2) : warning.isParseFailure = false := by
  rw [CallGraph.warnings_link] at h
  obtain ⟨reference, -, rfl⟩ := List.mem_map.mp h
  rfl

/-- Of all warnings of a run, those about its files are the ones that say that a file has no
outline. -/
theorem filter_isParseFailure (found : SourceFile.scan fs config false = .ok scanned)
    (outlines : List Outline) :
    let failures := (readingsOf fs config language files).filterMap Reading.warning?
    (scanned.warnings ++ failures ++ (CallGraph.link outlines).2).filter Warning.isParseFailure =
      failures := by
  intro failures
  have skipped : scanned.warnings.filter Warning.isParseFailure = [] :=
    List.filter_eq_nil_iff.mpr fun _ h =>
      Bool.not_eq_true _ ▸ SourceFile.isParseFailure_of_mem_scan found h
  have all : failures.filter Warning.isParseFailure = failures :=
    List.filter_eq_self.mpr fun _ h => isParseFailure_of_mem_warnings h
  have unresolved : (CallGraph.link outlines).2.filter Warning.isParseFailure = [] :=
    List.filter_eq_nil_iff.mpr fun _ h => Bool.not_eq_true _ ▸ isParseFailure_of_mem_link h
  rw [List.filter_append, List.filter_append, skipped, all, unresolved, List.nil_append,
    List.append_nil]

/-- A function of the linked graph is in a file that has an outline. -/
theorem exists_parsed_of_mem_nodes {node : FunctionNode}
    (h : node ∈ (linked fs config language files).1.nodes) :
    ∃ file outline, (file, .outlined outline) ∈ files.zip (readingsOf fs config language files) ∧
      node.file = file.relPath := by
  obtain ⟨outline, houtline, inOutline⟩ := CallGraph.exists_outline_of_mem_nodes_link h
  obtain ⟨file, hfile, same⟩ := List.mem_map.mp (SourceFile.mem_outlines.mp houtline)
  refine ⟨file, outline, ?_, ?_⟩
  · rw [readingsOf, ← List.map_prod_left_eq_zip]
    exact List.mem_map.mpr ⟨file, hfile, by rw [same]⟩
  · have contributes := SourceFile.contributes_reading fs config language file
    rw [same] at contributes
    cases contributes
    exact inOutline

/-- What a run concludes from its files accounts for them. -/
theorem accounts_of_concluded (found : SourceFile.scan fs config false = .ok scanned)
    (succeeded : concluded fs timings config scanned language = some analysis) :
    analysis.Accounts fs config language scanned
      (readingsOf fs config language scanned.files) := by
  obtain ⟨clusters, graph, answered, rfl⟩ := exists_cluster?_of_concluded succeeded
  have contributed := SourceFile.contributed_readings fs config language scanned.files
  refine
    { read := rfl
      contributed := contributed
      reported := rfl
      failures := filter_isParseFailure found _
      fileCount := ?_
      linked := CallGraph.nodes_of_cluster? answered
      parsed := ?_ }
  · show scanned.files.length = _ + List.countP _ (_ ++ _)
    rw [List.countP_eq_length_filter, linked, filter_isParseFailure found,
      SourceFile.length_outlines_add contributed]
  · intro node hnode
    obtain ⟨original, horiginal, sameFile⟩ := CallGraph.exists_of_mem_cluster? answered hnode
    rw [← sameFile]
    exact exists_parsed_of_mem_nodes horiginal

end Files

theorem Ends.concluded_of_ok {σ : Type} {observer : Observer σ} {s state : σ}
    {result : Option (Except Error Analysis)}
    (ends : Ends fs timings config observer s result state) (h : result = some (.ok analysis)) :
    ∃ scanned language, found fs config false = .ok (scanned, language) ∧
      concluded fs timings config scanned language = some analysis := by
  cases ends with
  | cancelled => cases h
  | unfound => cases h
  | endless => cases h
  | completed scanned language analysis never succeeded output =>
      cases h
      exact ⟨scanned, language, succeeded, output⟩

/-- Every run that succeeds, whoever watches it, accounts for every file that it scanned exactly
once and in order, and every function of its graph is in one of the files that have an outline. -/
theorem scanned_files_accounted {σ : Type} (fs : FileSystem) (timings : Timings) (config : Config)
    (observer : Observer σ) (s : σ) (analysis : Analysis)
    (succeeded : ((run fs timings config observer).outcome s).1 = some (.ok analysis)) :
    ∃ scanned language readings, SourceFile.scan fs config false = .ok scanned ∧
      config.chosenLanguage = .ok language ∧
      analysis.Accounts fs config language scanned readings := by
  obtain ⟨scanned, language, sources, result⟩ :=
    (ends_run fs timings config observer s).concluded_of_ok succeeded
  obtain ⟨found, chosen⟩ := found_eq_ok_iff.mp sources
  exact ⟨scanned, language, _, found, chosen, accounts_of_concluded found result⟩

/-- A run that nobody watches succeeds when it finds its files and needs no tuning. -/
theorem exists_unwatched_eq_ok (scanned : (found fs config false).isOk)
    (high : Weight.lt config.resolution (Weight.ofNat 10) = false) (timings : Timings) :
    ∃ analysis, unwatched fs timings config = some (.ok analysis) := by
  cases h : found fs config false with
  | error e =>
      rw [h] at scanned
      cases scanned
  | ok sources =>
      obtain ⟨clusters, result, answered⟩ := CallGraph.exists_cluster?_eq
        (linked fs config sources.2 sources.1.files).1 config.maxClusterSize config.resolution high
      rw [unwatched_of_found h, concluded]
      dsimp only
      rw [answered]
      exact ⟨_, rfl⟩

/-- A directory of four source files: one has a fault, one is too large, of one the parser made
nothing, and one is legible. There are a file in no language, a link and a locked directory beside
them. -/
def mixedFiles : List (Bytes × FileTree) :=
  [(Text.Utf8.encode "also.py", .link (Text.Utf8.encode "small.py")),
    (Text.Utf8.encode "lib",
      .dir [(Text.Utf8.encode "faulty.py",
          .file { bytes := Text.Utf8.encode "\ndef (:", syntaxTree := some faultyTree }),
        (Text.Utf8.encode "large.py", .file { bytes := List.replicate 41 35 }),
        (Text.Utf8.encode "odd.py", .file { bytes := [] })]),
    (Text.Utf8.encode "notes.txt", .file { bytes := [] }),
    (Text.Utf8.encode "private", .locked),
    (Text.Utf8.encode "small.py",
      .file { bytes := smallSource, syntaxTree := Grammar.Python.parse? smallSource })]
where
  /-- A tree whose only child, on the second line, is an error. -/
  faultyTree : SyntaxTree :=
    let label (kind : String) (isError : Bool) (start : Nat) : NodeLabel :=
      { kind, isError, start, stop := 7, named := true, isMissing := false, hasError := true
        fields := [] }
    .node (label "module" false 0) [.node (label "ERROR" true 1) []]
  smallSource : Bytes := Text.Utf8.encode "def f():\n    f()\n"

def mixedSource : FileSystem := ⟨.dir [(Text.Utf8.encode "src", .dir mixedFiles)], []⟩

/-- A run over these files with a small limit on their size. -/
def mixedConfig : Config :=
  { root := "src", language := "python", maxFileSize := 40, resolution := 16.0 }

/-- The names of the source files below the root, in the order of the scan. -/
def mixedNames : List (List Bytes) :=
  [["lib", "faulty.py"], ["lib", "large.py"], ["lib", "odd.py"], ["small.py"]].map
    (List.map Text.Utf8.encode)

/-- The warning about the locked directory. -/
def mixedWarning : Warning :=
  .skippedEntry "private"
    "IO error for operation on src/private: Permission denied (os error 13)"

theorem scan_mixedSource :
    SourceFile.scan mixedSource mixedConfig false =
      .ok ⟨mixedNames.map (.ofNames "src"), [mixedWarning]⟩ := by
  have chosen : mixedConfig.chosenLanguage = .ok .python := by decide +kernel
  have located : mixedSource.locate (Text.Utf8.encode "src") = .ok [Text.Utf8.encode "src"] := by
    decide +kernel
  have root : mixedSource.entry (Text.Utf8.encode "src") = .ok (.dir mixedFiles) := by
    rw [FileSystem.entry, located]
    simp [bind, Except.bind, mixedSource, FileTree.get?]
  have sorted : SourceFile.below mixedConfig .python mixedFiles = mixedNames := by
    rw [SourceFile.below, List.mergeSort_of_pairwise]
    · decide +kernel
    · decide +kernel
  have skipped : (SourceFile.lockedBelow mixedConfig mixedFiles).map (SourceFile.skippedAt "src") =
      [mixedWarning] := by
    rw [SourceFile.lockedBelow, List.mergeSort_of_pairwise]
    · decide +kernel
    · decide +kernel
  rw [SourceFile.scan, chosen, show mixedConfig.root = "src" from rfl, root, ← sorted, ← skipped]
  rfl

/-- The legible file has an outline and the other three are warned about. -/
theorem scanned_files_accounted_mixedSource :
    ∃ analysis readings,
      unwatched mixedSource ⟨fun _ => 0.0, 0.0⟩ mixedConfig = some (.ok analysis) ∧
      analysis.Accounts mixedSource mixedConfig .python
        ⟨mixedNames.map (.ofNames "src"), [mixedWarning]⟩ readings ∧
      (readings.filterMap Reading.outline?).map Outline.file = ["small.py"] ∧
      readings.filterMap Reading.warning? =
        [.parseFailure "lib/faulty.py" "syntax error at line 2",
          .parseFailure "lib/large.py" "file size 41 exceeds 40 bytes",
          .parseFailure "lib/odd.py" "parser produced no tree"] ∧
      analysis.summary.fileCount = 4 := by
  have scan : (found mixedSource mixedConfig false).isOk := by decide +kernel
  have high : Weight.lt mixedConfig.resolution (Weight.ofNat 10) = false := by decide +kernel
  obtain ⟨analysis, succeeded⟩ := exists_unwatched_eq_ok scan high ⟨fun _ => 0.0, 0.0⟩
  obtain ⟨scanned, language, readings, found, chosen, accounts⟩ := scanned_files_accounted
    mixedSource ⟨fun _ => 0.0, 0.0⟩ mixedConfig .silent () analysis succeeded
  obtain rfl := Except.ok.inj (scan_mixedSource.symm.trans found)
  have python : mixedConfig.chosenLanguage = .ok .python := by decide +kernel
  obtain rfl := Except.ok.inj (python.symm.trans chosen)
  have outlined : (readings.filterMap Reading.outline?).map Outline.file = ["small.py"] := by
    rw [← accounts.read]
    decide +kernel
  have warned : readings.filterMap Reading.warning? =
      [.parseFailure "lib/faulty.py" "syntax error at line 2",
        .parseFailure "lib/large.py" "file size 41 exceeds 40 bytes",
        .parseFailure "lib/odd.py" "parser produced no tree"] := by
    rw [← accounts.read]
    decide +kernel
  have count : analysis.summary.fileCount = 1 + 3 := by
    rw [accounts.fileCount, List.countP_eq_length_filter, accounts.failures, warned,
      ← List.length_map Outline.file, outlined]
    rfl
  exact ⟨analysis, readings, succeeded, accounts, outlined, warned, count⟩

end Analysis

end CallAtlas
