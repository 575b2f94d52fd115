import CallAtlas.Proofs.Analysis.Accounting
import CallAtlas.Proofs.CallGraph.Identity
import CallAtlas.Proofs.SourceFile.Scan

/-!
# Which files their paths tell apart

The path below the root that a source file is known by is written as text, and with slashes for
backslashes. Where all names are texts without backslashes nothing is lost by this: the bytes of
the path are those of the names with slashes between them. So two such files have different paths,
and their functions have different ids.

Where a name has a backslash, or is no text, two files may have one path. Their functions are then
taken for the same.
-/

namespace CallAtlas.SourceFile

open Text

variable {config : Config} {language : Language} {entries : List (Bytes × FileTree)}
  {a b names : List Bytes}

/-- A name that is a text without backslashes. -/
def IsPlain (name : Bytes) : Prop := ∃ text : String, '\\' ∉ text.toList ∧ Utf8.encode text = name

/-- Plain names make a plain path. -/
theorem isPlain_joinNames (plain : ∀ name ∈ names, IsPlain name) : IsPlain (joinNames names) := by
  induction names with
  | nil => exact ⟨"", by simp, by decide +kernel⟩
  | cons name names ih =>
      obtain ⟨first, later⟩ := List.forall_mem_cons.mp plain
      cases names with
      | nil => rwa [joinNames, List.intercalate_singleton]
      | cons next names =>
          obtain ⟨text, unslashed, rfl⟩ := first
          obtain ⟨rest, unslashed', same⟩ := ih later
          refine ⟨text ++ "/" ++ rest, ?_, ?_⟩
          · simp [unslashed, unslashed']
          · have slash : Utf8.encode "/" = [PathUnit.slash] := by decide +kernel
            rw [joinNames, List.intercalate_cons_cons, Utf8.encode_append, Utf8.encode_append, same,
              slash, joinNames]

/-- The path of a file with plain names has the bytes of its names. -/
theorem encode_relPathOf (plain : ∀ name ∈ names, IsPlain name) :
    Utf8.encode (relPathOf names) = joinNames names := by
  obtain ⟨text, unslashed, same⟩ := isPlain_joinNames plain
  have kept : text.toList.map (fun c => if c = '\\' then '/' else c) = text.toList := by
    refine (List.map_congr_left fun c hc => ?_).trans (List.map_id _)
    have other : c ≠ '\\' := fun h => unslashed (h ▸ hc)
    rw [if_neg other, id]
  rw [relPathOf, ← same, Utf8.decode_encode, kept, String.ofList_toList]

/-- The outline of a file is known by its path. -/
theorem file_of_outline {fs : FileSystem} {file : SourceFile} {outline : Outline}
    (h : file.outline fs config language = .ok outline) : outline.file = file.relPath := by
  have contributes := contributes_reading fs config language file
  have read : file.reading fs config language false = .outlined outline := by
    rw [reading, h]
    rfl
  rw [read] at contributes
  cases contributes
  rfl

/-- Of the files that a scan finds, two whose names are plain have different paths; and when no
colon is in the paths, the functions of the two have different ids. -/
theorem plain_sources_apart {fs : FileSystem} (wellNamed : fs.tree.WellNamed)
    (chosen : config.chosenLanguage = .ok language)
    (root : fs.entry (Utf8.encode config.root) = .ok (.dir entries)) :
    scan fs config false = .ok ⟨(below config language entries).map (ofNames config.root),
      (lockedBelow config entries).map (skippedAt config.root)⟩ ∧
    (below config language entries).Pairwise fun a b =>
      (∀ name ∈ a, IsPlain name) → (∀ name ∈ b, IsPlain name) →
        relPathOf a ≠ relPathOf b ∧
        (':' ∉ (relPathOf a).toList → ':' ∉ (relPathOf b).toList → ∀ outline other,
          (ofNames config.root a).outline fs config language = .ok outline →
          (ofNames config.root b).outline fs config language = .ok other →
            (outline.entries.map Entry.id).Disjoint (other.entries.map Entry.id)) := by
  obtain ⟨place, -, stands⟩ := FileSystem.entry_eq_ok_iff.mp root
  obtain ⟨wellNamed, -⟩ := wellNamed.get? stands
  refine ⟨scan_eq_below chosen root, ?_⟩
  refine List.Pairwise.imp_of_mem ?_ (nodup_below wellNamed)
  intro a b ha hb different plain plain'
  obtain ⟨nonempty, undivided⟩ := names_of_mem_below wellNamed ha
  obtain ⟨nonempty', undivided'⟩ := names_of_mem_below wellNamed hb
  have apart : relPathOf a ≠ relPathOf b := by
    intro same
    apply different
    apply joinNames_inj nonempty nonempty' undivided undivided'
    rw [← encode_relPathOf plain, same, encode_relPathOf plain']
  refine ⟨apart, fun uncoloned uncoloned' outline other first second => ?_⟩
  have file : outline.file = relPathOf a := file_of_outline first
  have file' : other.file = relPathOf b := file_of_outline second
  apply Outline.ids_disjoint
  · rw [file]
    exact uncoloned
  · rw [file']
    exact uncoloned'
  · rw [file, file']
    exact apart

/-- A source with its tree. -/
def parsed (text : String) : FileTree :=
  .file { bytes := Utf8.encode text, syntaxTree := Grammar.Python.parse? (Utf8.encode text) }

/-- A source file in a directory, and one beside the directory under another name. -/
def beside (name : String) : List (Bytes × FileTree) :=
  [(Utf8.encode "a", .dir [(Utf8.encode "b.py", parsed "def f(): f()\n")]),
    (Utf8.encode name, parsed "def f(): g()\n")]

def besideSource (name : String) : FileSystem :=
  ⟨.dir [(Utf8.encode "src", .dir (beside name))], []⟩

def besideConfig : Config := { root := "src", language := "python" }

theorem chosenLanguage_besideConfig : besideConfig.chosenLanguage = .ok .python := by
  decide +kernel

theorem entry_besideSource {name : String}
    (located : (besideSource name).locate (Utf8.encode "src") = .ok [Utf8.encode "src"]) :
    (besideSource name).entry (Utf8.encode "src") = .ok (.dir (beside name)) :=
  FileSystem.entry_eq_ok_iff.mpr ⟨_, located, FileTree.get?_cons (by simp) List.mem_cons_self []⟩

theorem wellNamed_besideSource {name : String} (distinct : ((beside name).map Prod.fst).Nodup)
    (undivided : ∀ entry ∈ beside name, PathUnit.slash ∉ entry.1) :
    (besideSource name).tree.WellNamed := by
  have source : PathUnit.slash ∉ Utf8.encode "src" := by decide +kernel
  have inner : (FileTree.dir [(Utf8.encode "b.py", parsed "def f(): f()\n")]).WellNamed :=
    .dir (by simp) (by decide +kernel) (List.forall_mem_singleton.mpr (.file _))
  have outer : (FileTree.dir (beside name)).WellNamed :=
    .dir distinct undivided
      (List.forall_mem_cons.mpr ⟨inner, List.forall_mem_singleton.mpr (.file _)⟩)
  exact .dir (by simp) (List.forall_mem_singleton.mpr source) (List.forall_mem_singleton.mpr outer)

/-- Two plain files have their own paths, and their functions have their own ids. -/
theorem plain_sources_apart_beside :
    scan (besideSource "c.py") besideConfig false =
      .ok ⟨[[Utf8.encode "a", Utf8.encode "b.py"], [Utf8.encode "c.py"]].map (ofNames "src"), []⟩ ∧
    relPathOf [Utf8.encode "a", Utf8.encode "b.py"] ≠ relPathOf [Utf8.encode "c.py"] ∧
    ∃ outline other,
      (ofNames "src" [Utf8.encode "a", Utf8.encode "b.py"]).outline (besideSource "c.py")
        besideConfig .python = .ok outline ∧
      (ofNames "src" [Utf8.encode "c.py"]).outline (besideSource "c.py") besideConfig .python =
        .ok other ∧
      (outline.entries.map Entry.id).Disjoint (other.entries.map Entry.id) := by
  have located : (besideSource "c.py").locate (Utf8.encode "src") = .ok [Utf8.encode "src"] := by
    decide +kernel
  have sorted : below besideConfig .python (beside "c.py") =
      [[Utf8.encode "a", Utf8.encode "b.py"], [Utf8.encode "c.py"]] := by
    rw [below, List.mergeSort_of_pairwise] <;> decide +kernel
  have unlocked : lockedBelow besideConfig (beside "c.py") = [] := by
    rw [lockedBelow]
    decide +kernel
  have wellNamed : (besideSource "c.py").tree.WellNamed :=
    wellNamed_besideSource (by decide +kernel) (by decide +kernel)
  obtain ⟨scanned, apart⟩ :=
    plain_sources_apart wellNamed chosenLanguage_besideConfig (entry_besideSource located)
  rw [sorted, unlocked] at scanned
  rw [sorted] at apart
  have plain : ∀ text ∈ ["a", "b.py", "c.py"], IsPlain (Utf8.encode text) := by
    intro text listed
    refine ⟨text, ?_, rfl⟩
    revert text
    decide +kernel
  obtain ⟨different, ids⟩ := (List.pairwise_cons.mp apart).1 _ List.mem_cons_self
    (List.forall_mem_cons.mpr ⟨plain "a" (by simp),
      List.forall_mem_singleton.mpr (plain "b.py" (by simp))⟩)
    (List.forall_mem_singleton.mpr (plain "c.py" (by simp)))
  have outlined (names : List Bytes) (readable : ((ofNames "src" names).outline
      (besideSource "c.py") besideConfig .python).isOk = true) : ∃ outline,
      (ofNames "src" names).outline (besideSource "c.py") besideConfig .python = .ok outline := by
    cases h : (ofNames "src" names).outline (besideSource "c.py") besideConfig .python with
    | error e =>
        rw [h] at readable
        cases readable
    | ok outline => exact ⟨outline, rfl⟩
  obtain ⟨outline, first⟩ := outlined [Utf8.encode "a", Utf8.encode "b.py"] (by decide +kernel)
  obtain ⟨other, second⟩ := outlined [Utf8.encode "c.py"] (by decide +kernel)
  exact ⟨scanned, different, outline, other, first, second,
    ids (by decide +kernel) (by decide +kernel) outline other first second⟩

/-- Two files have one path when the name of one has a backslash where the other goes through a
directory. Their functions then have one id. -/
theorem backslash_merges_sources :
    (besideSource "a\\b.py").tree.WellNamed ∧
    scan (besideSource "a\\b.py") besideConfig false =
      .ok ⟨[⟨"a/b.py", Utf8.encode "src/a/b.py"⟩, ⟨"a/b.py", Utf8.encode "src/a\\b.py"⟩], []⟩ ∧
    ([⟨"a/b.py", Utf8.encode "src/a/b.py"⟩, ⟨"a/b.py", Utf8.encode "src/a\\b.py"⟩].map
      fun file => ((reading (besideSource "a\\b.py") besideConfig .python false file).outline?.map
        fun outline => outline.entries.map Entry.id)) =
          [some ["a/b.py::f()"], some ["a/b.py::f()"]] := by
  have located : (besideSource "a\\b.py").locate (Utf8.encode "src") = .ok [Utf8.encode "src"] := by
    decide +kernel
  have sorted : below besideConfig .python (beside "a\\b.py") =
      [[Utf8.encode "a", Utf8.encode "b.py"], [Utf8.encode "a\\b.py"]] := by
    rw [below, List.mergeSort_of_pairwise] <;> decide +kernel
  have unlocked : lockedBelow besideConfig (beside "a\\b.py") = [] := by
    rw [lockedBelow]
    decide +kernel
  have named : [[Utf8.encode "a", Utf8.encode "b.py"], [Utf8.encode "a\\b.py"]].map (ofNames "src") =
      [⟨"a/b.py", Utf8.encode "src/a/b.py"⟩, ⟨"a/b.py", Utf8.encode "src/a\\b.py"⟩] := by
    decide +kernel
  refine ⟨wellNamed_besideSource (by decide +kernel) (by decide +kernel), ?_, by decide +kernel⟩
  rw [scan_eq_below chosenLanguage_besideConfig (entry_besideSource located), sorted, unlocked,
    show besideConfig.root = "src" from rfl, named]
  rfl

end CallAtlas.SourceFile
