import CallAtlas.Proofs.FileTree
import CallAtlas.Proofs.Path
import CallAtlas.Proofs.Text.Utf8
import CallAtlas.SourceFile
import Mathlib.Data.String.Basic
import Mathlib.Order.Basic

/-!
# A scan finds the source files

`IsSource` says what a source file is, without a walk: a file at the end of real directories, with
an extension of the language, and with no listed name on the way. A scan finds these files, each of
them once, in the order of their paths. It warns of the locked directories in the same places, each
once, in the order of its walk.

There is one exception. Names are bytes and the excluded ones are given as texts, and the two are
compared after the bytes have been read as text. A name that is no text may then be read as an
excluded one that it is not. This happens only where an excluded name has U+FFFD in it.
-/

namespace CallAtlas

/-- A path leads to what stands at the names it is located at. -/
theorem FileSystem.entry_eq_ok_iff {fs : FileSystem} {path : Bytes} {tree : FileTree} :
    fs.entry path = .ok tree ↔
      ∃ names, fs.locate path = .ok names ∧ fs.tree.get? names = some tree := by
  simp only [FileSystem.entry, bind, Except.bind]
  cases fs.locate path with
  | error e => simp
  | ok names => cases looked : fs.tree.get? names <;> simp [looked]

namespace SourceFile

open Text

variable {config : Config} {language : Language} {entries : List (Bytes × FileTree)}
  {name : Bytes} {a b c names : List Bytes}

/-! Names -/

theorem dot_notMem_extension (language : Language) :
    ∀ extension ∈ language.extensions, PathUnit.dot ∉ Utf8.encode extension := by
  cases language <;> decide +kernel

/-- A name is written in a language when it is something, a point and an extension of it. -/
theorem isWrittenIn_iff : isWrittenIn language name = true ↔
    ∃ stem extension, stem ≠ [] ∧ extension ∈ language.extensions ∧
      name = stem ++ PathUnit.dot :: Utf8.encode extension := by
  rw [isWrittenIn, Option.any_eq_true]
  constructor
  · rintro ⟨extension, found, known⟩
    obtain ⟨bytes, divided, read⟩ := Option.bind_eq_some_iff.mp found
    obtain ⟨stem, nonempty, rfl, -⟩ := Path.extension?_eq_some_iff.mp divided
    obtain rfl := Utf8.decode?_eq_some_iff.mp read
    exact ⟨stem, extension, nonempty, by simpa using known, rfl⟩
  · rintro ⟨stem, extension, nonempty, known, rfl⟩
    refine ⟨extension, Option.bind_eq_some_iff.mpr ⟨Utf8.encode extension, ?_, ?_⟩, ?_⟩
    · exact Path.extension?_eq_some_iff.mpr
        ⟨stem, nonempty, rfl, dot_notMem_extension language extension known⟩
    · exact Utf8.decode?_eq_some_iff.mpr rfl
    · simpa using known

/-- What a source file of a run is, below a root: there is a file, reached through directories; its
name has an extension of the language; and it is not listed, nor is a directory on the way. -/
structure IsSource (config : Config) (language : Language) (root : FileTree)
    (names : List Bytes) : Prop where
  file : ∃ content, root.get? names = some (.file content)
  extension : ∃ stem extension, stem ≠ [] ∧ extension ∈ language.extensions ∧
    names.getLast? = some (stem ++ PathUnit.dot :: Utf8.encode extension)
  unlisted : ∀ name ∈ names, ∀ pattern ∈ config.excludePatterns, name ≠ Utf8.encode pattern

/-- What a scan has to pass over, below a root: there is a locked directory, reached through
directories; and it is not listed, nor is a directory on the way. -/
structure IsLocked (config : Config) (root : FileTree) (names : List Bytes) : Prop where
  locked : root.get? names = some .locked
  unlisted : ∀ name ∈ names, ∀ pattern ∈ config.excludePatterns, name ≠ Utf8.encode pattern

/-- A name that is no text, and is read as one of the excluded names. -/
def Misread (config : Config) (name : Bytes) : Prop :=
  Utf8.decode? name = none ∧ Utf8.decode name ∈ config.excludePatterns

/-- A name is visited when it is none of the excluded ones, and is not misread as one. -/
theorem admits_iff : admits config name = true ↔
    (∀ pattern ∈ config.excludePatterns, name ≠ Utf8.encode pattern) ∧
      ¬ Misread config name := by
  have shown : admits config name = true ↔ Utf8.decode name ∉ config.excludePatterns := by
    simp [admits]
  rw [shown]
  constructor
  · intro unlisted
    refine ⟨?_, fun misread => unlisted misread.2⟩
    rintro pattern listed rfl
    rw [Utf8.decode_encode] at unlisted
    exact unlisted listed
  · rintro ⟨unlisted, read⟩ listed
    cases text : Utf8.decode? name with
    | none => exact read ⟨text, listed⟩
    | some s =>
        obtain rfl := Utf8.decode?_eq_some_iff.mp text
        rw [Utf8.decode_encode] at listed
        exact unlisted s listed rfl

/-- Nothing is misread where no excluded name has U+FFFD in it. -/
theorem not_misread
    (plain : ∀ pattern ∈ config.excludePatterns, Char.ofNat 0xFFFD ∉ pattern.toList)
    (name : Bytes) : ¬ Misread config name := by
  rintro ⟨broken, listed⟩
  exact plain _ listed (Utf8.replacement_mem_decode broken)

theorem joinNames_inj (ha : a ≠ []) (hb : b ≠ [])
    (undivided : ∀ name ∈ a, PathUnit.slash ∉ name)
    (undivided' : ∀ name ∈ b, PathUnit.slash ∉ name) (same : joinNames a = joinNames b) :
    a = b := by
  rw [← Path.pieces_intercalate ha undivided, ← Path.pieces_intercalate hb undivided']
  exact congrArg Path.pieces same

/-! The order of the files -/

theorem notAfter_iff : notAfter a b = true ↔
    relPathOf a < relPathOf b ∨ relPathOf a = relPathOf b ∧ a ≤ b := by
  simp [notAfter]

theorem notAfter_trans (hab : notAfter a b = true) (hbc : notAfter b c = true) :
    notAfter a c = true := by
  rw [notAfter_iff] at *
  rcases hab with hab | ⟨hab, below⟩
  · rcases hbc with hbc | ⟨hbc, -⟩
    · exact Or.inl (hab.trans hbc)
    · exact Or.inl (hbc ▸ hab)
  · rw [hab]
    exact hbc.imp_right fun ⟨hbc, below'⟩ => ⟨hbc, List.le_trans below below'⟩

theorem notAfter_total (a b : List Bytes) : (notAfter a b || notAfter b a) = true := by
  rw [Bool.or_eq_true, notAfter_iff, notAfter_iff]
  rcases lt_trichotomy (relPathOf a) (relPathOf b) with before | same | after
  · exact Or.inl (Or.inl before)
  · exact (List.le_total a b).imp (fun h => Or.inr ⟨same, h⟩) fun h => Or.inr ⟨same.symm, h⟩
  · exact Or.inr (Or.inl after)

theorem relPathOf_le_of_notAfter (h : notAfter a b = true) : relPathOf a ≤ relPathOf b := by
  rcases notAfter_iff.mp h with before | ⟨same, -⟩
  · exact le_of_lt before
  · exact le_of_eq same

/-! The scan -/

section Below

variable (wellNamed : (FileTree.dir entries).WellNamed)

include wellNamed

/-- What a walk over the names that a configuration admits finds, each once. -/
theorem nodup_findAmong {wanted : FileTree → Bool}
    (closed : ∀ entries, wanted (.dir entries) = false) :
    (FileTree.findAmong wanted (admits config) [] entries).Nodup := by
  have walked : ((FileTree.dir entries).find wanted (admits config) []).Nodup :=
    FileTree.nodup_find wellNamed closed
  rwa [FileTree.find] at walked

theorem mem_below_iff : names ∈ below config language entries ↔
    IsSource config language (.dir entries) names ∧ ∀ name ∈ names, ¬ Misread config name := by
  rw [below, (List.mergeSort_perm _ notAfter).mem_iff, List.mem_filter,
    FileTree.mem_findAmong_iff wellNamed fun _ => rfl, Option.any_eq_true]
  simp only [FileTree.isFile_iff]
  constructor
  · rintro ⟨⟨⟨_, stands, content, rfl⟩, admitted⟩, last, ends, written⟩
    obtain ⟨stem, extension, nonempty, known, rfl⟩ := isWrittenIn_iff.mp written
    exact ⟨⟨⟨content, stands⟩, ⟨stem, extension, nonempty, known, ends⟩,
      fun name hname => (admits_iff.mp (admitted name hname)).1⟩,
      fun name hname => (admits_iff.mp (admitted name hname)).2⟩
  · rintro ⟨⟨⟨content, stands⟩, ⟨stem, extension, nonempty, known, ends⟩, unlisted⟩, read⟩
    exact ⟨⟨⟨_, stands, content, rfl⟩,
      fun name hname => admits_iff.mpr ⟨unlisted name hname, read name hname⟩⟩,
      _, ends, isWrittenIn_iff.mpr ⟨stem, extension, nonempty, known, rfl⟩⟩

theorem nodup_below : (below config language entries).Nodup := by
  rw [below, (List.mergeSort_perm _ notAfter).nodup_iff]
  exact (nodup_findAmong wellNamed fun _ => rfl).filter _

theorem mem_lockedBelow_iff : names ∈ lockedBelow config entries ↔
    IsLocked config (.dir entries) names ∧ ∀ name ∈ names, ¬ Misread config name := by
  rw [lockedBelow, (List.mergeSort_perm _ _).mem_iff,
    FileTree.mem_findAmong_iff wellNamed fun _ => rfl]
  simp only [FileTree.isLocked_iff]
  constructor
  · rintro ⟨⟨_, stands, rfl⟩, admitted⟩
    exact ⟨⟨stands, fun name hname => (admits_iff.mp (admitted name hname)).1⟩,
      fun name hname => (admits_iff.mp (admitted name hname)).2⟩
  · rintro ⟨⟨stands, unlisted⟩, read⟩
    exact ⟨⟨_, stands, rfl⟩,
      fun name hname => admits_iff.mpr ⟨unlisted name hname, read name hname⟩⟩

/-- Locked directories stand in the order of a walk, each once. -/
theorem pairwise_lockedBelow : (lockedBelow config entries).Pairwise (· < ·) := by
  have sorted : (lockedBelow config entries).Pairwise fun a b => decide (a ≤ b) = true := by
    rw [lockedBelow]
    apply List.pairwise_mergeSort
    · intro a b c hab hbc
      rw [decide_eq_true_eq] at *
      exact List.le_trans hab hbc
    · intro a b
      simpa using List.le_total a b
  have distinct : (lockedBelow config entries).Nodup := by
    rw [lockedBelow, (List.mergeSort_perm _ _).nodup_iff]
    exact nodup_findAmong wellNamed fun _ => rfl
  refine (sorted.and distinct).imp fun {a b} ⟨below, different⟩ => ?_
  by_contra notBefore
  exact different (List.le_antisymm (of_decide_eq_true below) (List.not_lt.mp notBefore))

/-- The names on the way to a source file can be read off its path. -/
theorem names_of_mem_below (h : names ∈ below config language entries) :
    names ≠ [] ∧ ∀ name ∈ names, PathUnit.slash ∉ name := by
  obtain ⟨⟨content, stands⟩, -, -⟩ := ((mem_below_iff wellNamed).mp h).1
  refine ⟨?_, (wellNamed.get? stands).2⟩
  rintro rfl
  cases stands

theorem nodup_map_ofNames_below (root : String) :
    ((below config language entries).map (ofNames root)).Nodup := by
  refine (nodup_below wellNamed).map_on fun a ha b hb same => ?_
  obtain ⟨nonempty, undivided⟩ := names_of_mem_below wellNamed ha
  obtain ⟨nonempty', undivided'⟩ := names_of_mem_below wellNamed hb
  apply joinNames_inj nonempty nonempty' undivided undivided'
  exact Path.join_right_inj (congrArg SourceFile.path same)

end Below

theorem pairwise_below (root : String) :
    ((below config language entries).map (ofNames root)).Pairwise
      fun a b => a.relPath ≤ b.relPath := by
  have sorted : (below config language entries).Pairwise fun a b => notAfter a b = true := by
    rw [below]
    apply List.pairwise_mergeSort
    · exact fun _ _ _ => notAfter_trans
    · exact notAfter_total
  exact List.pairwise_map.mpr (sorted.imp relPathOf_le_of_notAfter)

theorem scan_eq_below {fs : FileSystem} (chosen : config.chosenLanguage = .ok language)
    (root : fs.entry (Utf8.encode config.root) = .ok (.dir entries)) :
    scan fs config false = .ok ⟨(below config language entries).map (ofNames config.root),
      (lockedBelow config entries).map (skippedAt config.root)⟩ := by
  rw [scan, chosen]
  simp only [bind, Except.bind, root]
  rfl

/-- A scan finds exactly the source files below its root, each once and in the order of their paths,
but for those on whose way a name is misread. None is where no excluded name has U+FFFD in it. The
scan warns of the locked directories, each once and in the order of their names. -/
theorem scan_finds_sources {fs : FileSystem} (wellNamed : fs.tree.WellNamed)
    (chosen : config.chosenLanguage = .ok language)
    (root : fs.entry (Utf8.encode config.root) = .ok (.dir entries)) :
    ∃ found skipped : List (List Bytes),
      scan fs config false =
        .ok ⟨found.map (ofNames config.root), skipped.map (skippedAt config.root)⟩ ∧
      (∀ names, names ∈ found ↔
        IsSource config language (.dir entries) names ∧ ∀ name ∈ names, ¬ Misread config name) ∧
      found.Nodup ∧ (found.map (ofNames config.root)).Nodup ∧
      (found.map (ofNames config.root)).Pairwise (fun a b => a.relPath ≤ b.relPath) ∧
      (∀ names, names ∈ skipped ↔
        IsLocked config (.dir entries) names ∧ ∀ name ∈ names, ¬ Misread config name) ∧
      skipped.Pairwise (· < ·) ∧
      ((∀ pattern ∈ config.excludePatterns, Char.ofNat 0xFFFD ∉ pattern.toList) →
        ∀ name, ¬ Misread config name) := by
  obtain ⟨place, -, stands⟩ := FileSystem.entry_eq_ok_iff.mp root
  obtain ⟨wellNamed, -⟩ := wellNamed.get? stands
  exact ⟨below config language entries, lockedBelow config entries, scan_eq_below chosen root,
    fun _ => mem_below_iff wellNamed, nodup_below wellNamed,
    nodup_map_ofNames_below wellNamed config.root, pairwise_below config.root,
    fun _ => mem_lockedBelow_iff wellNamed, pairwise_lockedBelow wellNamed, not_misread⟩

/-- The entries of a directory with a source file, a link to it, and a text and a locked directory
beside it. -/
def library : List (Bytes × FileTree) :=
  [(Utf8.encode "b.tar.py", .file ⟨[], none⟩),
    (Utf8.encode "link.py", .link (Utf8.encode "b.tar.py")),
    (Utf8.encode "notes.txt", .file ⟨[], none⟩),
    (Utf8.encode "private", .locked)]

/-- This directory beside an excluded one, both below a directory that a link leads to. -/
def crowded : List (Bytes × FileTree) :=
  [(Utf8.encode "lib", .dir library),
    (Utf8.encode "gen", .dir [(Utf8.encode "c.py", .file ⟨[], none⟩)])]

def crowdedSource : FileSystem :=
  ⟨.dir [(Utf8.encode "src", .dir crowded), (Utf8.encode "here", .link (Utf8.encode "src"))], []⟩

def crowdedConfig : Config :=
  { root := "here", language := "python", excludePatterns := ["gen"] }

theorem wellNamed_crowdedSource : crowdedSource.tree.WellNamed := by
  have inner : (FileTree.dir library).WellNamed :=
    .dir (by decide +kernel) (by decide +kernel) (List.forall_mem_cons.mpr
      ⟨.file _, List.forall_mem_cons.mpr ⟨.link _,
        List.forall_mem_cons.mpr ⟨.file _, List.forall_mem_singleton.mpr .locked⟩⟩⟩)
  have excluded : (FileTree.dir [(Utf8.encode "c.py", .file ⟨[], none⟩)]).WellNamed :=
    .dir (by decide +kernel) (by decide +kernel) (List.forall_mem_singleton.mpr (.file _))
  have outer : (FileTree.dir crowded).WellNamed :=
    .dir (by decide +kernel) (by decide +kernel)
      (List.forall_mem_cons.mpr ⟨inner, List.forall_mem_singleton.mpr excluded⟩)
  exact .dir (by decide +kernel) (by decide +kernel)
    (List.forall_mem_cons.mpr ⟨outer, List.forall_mem_singleton.mpr (.link _)⟩)

/-- Through the link, the source file is found; the link beside it and the excluded one are not. Of
the locked directory there is a warning. -/
theorem scan_finds_sources_crowded :
    ∃ found skipped : List (List Bytes),
      scan crowdedSource crowdedConfig false =
        .ok ⟨found.map (ofNames "here"), skipped.map (skippedAt "here")⟩ ∧
      found.Nodup ∧ [Utf8.encode "lib", Utf8.encode "b.tar.py"] ∈ found ∧
      [Utf8.encode "lib", Utf8.encode "link.py"] ∉ found ∧
      [Utf8.encode "gen", Utf8.encode "c.py"] ∉ found ∧
      [Utf8.encode "lib", Utf8.encode "private"] ∈ skipped := by
  have chosen : crowdedConfig.chosenLanguage = .ok .python := by decide +kernel
  have root : crowdedSource.entry (Utf8.encode "here") = .ok (.dir crowded) :=
    FileSystem.entry_eq_ok_iff.mpr ⟨[Utf8.encode "src"], by decide +kernel,
      FileTree.get?_cons (by decide +kernel) List.mem_cons_self []⟩
  have inside (name : Bytes) (tree : FileTree) (listed : (name, tree) ∈ library) :
      (FileTree.dir crowded).get? [Utf8.encode "lib", name] = some tree := by
    have first : (FileTree.dir crowded).get? [Utf8.encode "lib", name] =
        (FileTree.dir library).get? [name] :=
      FileTree.get?_cons (by decide +kernel) List.mem_cons_self _
    rw [first, FileTree.get?_cons (by decide +kernel) listed, FileTree.get?]
  obtain ⟨found, skipped, scanned, sources, distinct, -, -, locked, -, read⟩ :=
    scan_finds_sources wellNamed_crowdedSource chosen root
  refine ⟨found, skipped, scanned, distinct, ?_, ?_, ?_, ?_⟩
  · rw [sources]
    refine ⟨⟨⟨_, inside _ _ List.mem_cons_self⟩, ?_, by decide +kernel⟩,
      fun name _ => read (by decide +kernel) name⟩
    exact ⟨Utf8.encode "b.tar", "py", by decide +kernel, by decide +kernel, by decide +kernel⟩
  · rw [sources]
    rintro ⟨⟨⟨content, stands⟩, -, -⟩, -⟩
    rw [inside _ (.link (Utf8.encode "b.tar.py")) (by simp [library])] at stands
    cases stands
  · rw [sources]
    rintro ⟨⟨-, -, unlisted⟩, -⟩
    exact unlisted _ List.mem_cons_self "gen" List.mem_cons_self rfl
  · rw [locked]
    exact ⟨⟨inside _ _ (by simp [library]), by decide +kernel⟩,
      fun name _ => read (by decide +kernel) name⟩

/-- A source file whose name is no text. -/
def illegible : List (Bytes × FileTree) := [([0xFF, 0x2E, 0x70, 0x79], .file ⟨[], none⟩)]

def illegibleSource : FileSystem := ⟨.dir [(Utf8.encode "src", .dir illegible)], []⟩

def illegibleConfig : Config :=
  { root := "src", language := "python", excludePatterns := ["\uFFFD.py"] }

/-- A source file may be passed over although its name is not listed: the byte 0xFF is read as
U+FFFD, and with it the name as the listed one. -/
theorem scan_misses_illegible :
    illegibleSource.tree.WellNamed ∧ illegibleConfig.chosenLanguage = .ok .python ∧
      illegibleSource.entry (Utf8.encode "src") = .ok (.dir illegible) ∧
      IsSource illegibleConfig .python (.dir illegible) [[0xFF, 0x2E, 0x70, 0x79]] ∧
      scan illegibleSource illegibleConfig false = .ok ⟨[], []⟩ := by
  have chosen : illegibleConfig.chosenLanguage = .ok .python := by decide +kernel
  have root : illegibleSource.entry (Utf8.encode "src") = .ok (.dir illegible) :=
    FileSystem.entry_eq_ok_iff.mpr ⟨[Utf8.encode "src"], by decide +kernel,
      FileTree.get?_cons (by decide +kernel) List.mem_cons_self []⟩
  refine ⟨?_, chosen, root, ⟨⟨⟨[], none⟩, ?_⟩, ?_, ?_⟩, ?_⟩
  · have inner : (FileTree.dir illegible).WellNamed :=
      .dir (by decide) (by decide) (List.forall_mem_singleton.mpr (.file _))
    exact .dir (by decide +kernel) (by decide +kernel) (List.forall_mem_singleton.mpr inner)
  · exact FileTree.get?_cons (by decide) List.mem_cons_self []
  · exact ⟨[0xFF], "py", by decide, by decide, by decide +kernel⟩
  · decide +kernel
  · have missed : below illegibleConfig .python illegible = [] := by
      rw [below]
      decide +kernel
    have unlocked : lockedBelow illegibleConfig illegible = [] := by
      rw [lockedBelow]
      decide +kernel
    rw [scan_eq_below chosen root, missed, unlocked]
    rfl

end SourceFile

end CallAtlas
