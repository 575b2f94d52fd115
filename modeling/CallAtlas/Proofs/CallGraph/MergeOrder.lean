import CallAtlas.CallGraph.Linking
import CallAtlas.Proofs.Ordered
import Mathlib.Data.List.Permutation
import Mathlib.Data.String.Basic

/-!
# Linking in any order of outlines

Outlines of different files may be finished in any order. Linking takes them in the order of their
files, so the numbers behind repeated ids, the index and the order of warnings are all read off one
sorted list. Different paths leave only one way to sort them, so the linked program is a function of
the set of outlines.
-/

namespace CallAtlas

/-- The entries of a program do not show the order of its outlines. -/
theorem programEntries_eq_of_perm {outlines outlines' : List Outline}
    (perm : outlines.Perm outlines') (paths : (outlines.map Outline.file).Nodup) :
    programEntries outlines = programEntries outlines' := by
  have sorted := Ordered.mergeSort_key_eq_of_perm perm paths
  rw [programEntries, sorted, programEntries]

namespace CallGraph

/-- Outlines of different files give the same graph, with all data of its functions, and the same
warnings in the same order, however they are arranged. -/
theorem link_eq_of_perm (outlines outlines' : List Outline) (perm : outlines.Perm outlines')
    (paths : (outlines.map Outline.file).Nodup) : link outlines = link outlines' := by
  have entries := programEntries_eq_of_perm perm paths
  rw [link, entries, link]

/-- Three files with a function that is declared twice, a call that two files could mean, and one
that only the third file can. -/
def threeFiles : List Outline :=
  let declare (name : String) (calls : List CallRef) : Declaration :=
    { name, scope := none, params := "()", signature := name, startLine := 1, endLine := 1
      byteRange := (0, 1), code := name, calls := .ofList calls, builtinCalls := .empty }
  [{ file := "c.py", declarations := [declare "main" [⟨"go", none⟩, ⟨"stop", none⟩]] },
    { file := "a.py", declarations := [declare "go" [], declare "go" [⟨"stop", none⟩]] },
    { file := "b.py", declarations := [declare "go" [], declare "stop" []] }]

/-- All orders of the three files give the calls and the warning of the first. -/
theorem link_threeFiles :
    (threeFiles.map Outline.file).Nodup ∧
      (link threeFiles).1.calls =
        [⟨"a.py::go()#2", "b.py::stop()"⟩, ⟨"c.py::main()", "b.py::stop()"⟩] ∧
      (link threeFiles).2 = [.unresolvedReference "c.py::main()" "go" 3] ∧
      ∀ outlines ∈ threeFiles.permutations, link outlines = link threeFiles := by
  have paths : (threeFiles.map Outline.file).Nodup := by decide
  have linked : ((link threeFiles).1.calls, (link threeFiles).2) =
      ([⟨"a.py::go()#2", "b.py::stop()"⟩, ⟨"c.py::main()", "b.py::stop()"⟩],
        [.unresolvedReference "c.py::main()" "go" 3]) := by cbv
  obtain ⟨calls, warnings⟩ := Prod.mk.inj linked
  refine ⟨paths, calls, warnings, ?_⟩
  intro outlines arranged
  have perm := (List.mem_permutations.mp arranged).symm
  exact (link_eq_of_perm threeFiles outlines perm paths).symm

end CallGraph

end CallAtlas
