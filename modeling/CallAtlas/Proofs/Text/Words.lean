import CallAtlas.Text.Blank
import Mathlib.Data.List.Chain

/-!
# The words of a text

`Spells` says of a text and a list of words, without looking for them, that these are the words of
the text: blanks and words alternate, a word is never empty, and each ends at a blank or at the end.
Every text spells exactly one list of words, the one that `words` finds.

A collapsed text spells the words that it was made of. So collapsing keeps the words and what is
written in them, a second time it changes nothing, and two texts become the same just when they
have the same words.
-/

namespace CallAtlas.Text

/-- A text that is nothing but one word. -/
structure IsWord (word : List Char) : Prop where
  filled : word ≠ []
  solid : ∀ c ∈ word, isBlank c = false

/-- What may follow a word: nothing, or a text that begins with a blank. -/
def EndsWord (rest : List Char) : Prop := ∀ c ∈ rest.head?, isBlank c = true

/-- The maximal runs of characters that are not blank in a text are these words, in this order. -/
inductive Spells : List (List Char) → List Char → Prop
  | nil : Spells [] []
  | blank {ws : List (List Char)} {c : Char} {rest : List Char} (separates : isBlank c = true)
      (spelled : Spells ws rest) : Spells ws (c :: rest)
  | word {w : List Char} {ws : List (List Char)} {rest : List Char} (isWord : IsWord w)
      (ends : EndsWord rest) (spelled : Spells ws rest) : Spells (w :: ws) (w ++ rest)

/-- Two texts have the same words in the same order. -/
def SameWords (s t : String) : Prop := ∃ ws, Spells ws s.toList ∧ Spells ws t.toList

section Words

variable {c d : Char} {cs rest w : List Char} {ws : List (List Char)}

theorem words_blank (separates : isBlank c = true) : words (c :: rest) = words rest := by
  rw [words.eq_def]
  exact if_pos separates

/-- A character before the end of a word is a word by itself. -/
theorem words_cons_of_endsWord (solid : isBlank c = false) (ends : EndsWord rest) :
    words (c :: rest) = [c] :: words rest := by
  rw [words.eq_def]
  refine (if_neg (by simp [solid])).trans ?_
  cases rest with
  | nil => rfl
  | cons d rest =>
      have separates : isBlank d = true := ends d rfl
      cases words (d :: rest) with
      | nil => rfl
      | cons w ws => exact if_pos separates

/-- A character before a word belongs to it. -/
theorem words_cons_of_word (solid : isBlank c = false) (inner : isBlank d = false)
    (found : words (d :: rest) = w :: ws) : words (c :: d :: rest) = (c :: w) :: ws := by
  rw [words.eq_def]
  refine (if_neg (by simp [solid])).trans ?_
  simp only [found]
  exact if_neg (by simp [inner])

/-- A word that has an end is found as a whole. -/
theorem words_word (isWord : IsWord w) (ends : EndsWord rest) :
    words (w ++ rest) = w :: words rest := by
  obtain ⟨filled, solid⟩ := isWord
  induction w with
  | nil => exact absurd rfl filled
  | cons c w ih =>
      obtain ⟨first, solid⟩ := List.forall_mem_cons.mp solid
      cases w with
      | nil => exact words_cons_of_endsWord first ends
      | cons d w =>
          have inner : isBlank d = false := solid d List.mem_cons_self
          exact words_cons_of_word first inner (ih (List.cons_ne_nil d w) solid)

/-- The words that a text spells are found. -/
theorem Spells.words_eq (spelled : Spells ws cs) : words cs = ws := by
  induction spelled with
  | nil => rfl
  | blank separates _ ih => rw [words_blank separates, ih]
  | word isWord ends _ ih => rw [words_word isWord ends, ih]

/-- A character that is not blank lengthens the word that a text begins with. -/
theorem Spells.lengthen (solid : isBlank c = false) (inner : isBlank d = false)
    (spelled : Spells ws (d :: rest)) :
    ∃ w more, ws = w :: more ∧ Spells ((c :: w) :: more) (c :: d :: rest) := by
  generalize text : d :: rest = cs at spelled
  cases spelled with
  | nil => exact absurd text (List.cons_ne_nil d rest)
  | blank separates _ =>
      obtain ⟨rfl, -⟩ := List.cons.inj text
      exact absurd separates (by simp [inner])
  | word isWord ends spelled =>
      refine ⟨_, _, rfl, .word ⟨List.cons_ne_nil c _, ?_⟩ ends spelled⟩
      exact List.forall_mem_cons.mpr ⟨solid, isWord.solid⟩

/-- A text spells the words that are found in it. -/
theorem spells_words (cs : List Char) : Spells (words cs) cs := by
  induction cs with
  | nil => exact .nil
  | cons c rest ih =>
      cases solid : isBlank c with
      | true =>
          rw [words_blank solid]
          exact .blank solid ih
      | false =>
          by_cases ends : EndsWord rest
          · rw [words_cons_of_endsWord solid ends]
            exact .word ⟨List.cons_ne_nil c [], List.forall_mem_singleton.mpr solid⟩ ends ih
          · -- The text goes on with the word that begins it.
            obtain ⟨d, more, rfl, inner⟩ : ∃ d more, rest = d :: more ∧ isBlank d = false := by
              cases rest with
              | nil => exact absurd nofun ends
              | cons d more => exact ⟨d, more, rfl, by simpa [EndsWord] using ends⟩
            obtain ⟨w, ws, found, spelled⟩ := ih.lengthen solid inner
            rw [words_cons_of_word solid inner found]
            exact spelled

/-- A text spells one list of words only. -/
theorem existsUnique_spells (cs : List Char) : ∃! ws, Spells ws cs :=
  ⟨words cs, spells_words cs, fun _ spelled => spelled.words_eq.symm⟩

theorem Spells.isWord (spelled : Spells ws cs) : ∀ w ∈ ws, IsWord w := by
  induction spelled with
  | nil => exact List.forall_mem_nil _
  | blank _ _ ih => exact ih
  | word isWord _ _ ih => exact List.forall_mem_cons.mpr ⟨isWord, ih⟩

/-- Apart from blanks, a text is what its words are made of. -/
theorem Spells.filter_eq_flatten (spelled : Spells ws cs) :
    cs.filter (fun c => !isBlank c) = ws.flatten := by
  induction spelled with
  | nil => rfl
  | blank separates _ ih => rw [List.filter_cons_of_neg (by simp [separates]), ih]
  | word isWord _ _ ih =>
      rw [List.filter_append, List.flatten_cons, ih,
        List.filter_eq_self.mpr fun c hc => by simp [isWord.solid c hc]]

theorem sameWords_iff {s t : String} : SameWords s t ↔ words s.toList = words t.toList := by
  constructor
  · rintro ⟨ws, spelled, spelled'⟩
    rw [spelled.words_eq, spelled'.words_eq]
  · intro same
    exact ⟨words s.toList, spells_words s.toList, same ▸ spells_words t.toList⟩

instance (s t : String) : Decidable (SameWords s t) := decidable_of_iff _ sameWords_iff.symm

end Words

section Collapsed

variable {cs w rest : List Char} {ws : List (List Char)}

/-- Words with a space between each two are spelled by the whole. -/
theorem spells_intercalate (each : ∀ w ∈ ws, IsWord w) : Spells ws ([' '].intercalate ws) := by
  induction ws with
  | nil => exact .nil
  | cons w ws ih =>
      obtain ⟨isWord, each⟩ := List.forall_mem_cons.mp each
      cases ws with
      | nil => simpa using Spells.word isWord (by simp [EndsWord]) .nil
      | cons next ws =>
          have space : isBlank ' ' = true := by decide
          have spelled := Spells.word isWord (by simp [EndsWord, space]) (.blank space (ih each))
          simpa [List.intercalate_cons_cons] using spelled

/-- A text whose only blanks are single spaces between words. -/
structure Tidy (cs : List Char) : Prop where
  spaces : ∀ c ∈ cs, isBlank c = true → c = ' '
  single : cs.IsChain fun a b => isBlank a = false ∨ isBlank b = false
  first : ∀ c ∈ cs.head?, isBlank c = false
  last : ∀ c ∈ cs.getLast?, isBlank c = false

theorem IsWord.tidy (isWord : IsWord w) : Tidy w where
  spaces c hc separates := by simp [isWord.solid c hc] at separates
  single := by
    refine List.Pairwise.isChain (List.pairwise_of_forall_mem_list fun a ha b _ => ?_)
    exact .inl (isWord.solid a ha)
  first c hc := isWord.solid c (List.mem_of_mem_head? hc)
  last c hc := isWord.solid c (List.mem_of_mem_getLast? hc)

/-- A word and a space may stand before a tidy text. -/
theorem Tidy.word_space (tidy : Tidy rest) (isWord : IsWord w) (filled : rest ≠ []) :
    Tidy (w ++ ' ' :: rest) where
  spaces c hc separates := by
    rcases List.mem_append.mp hc with hc | hc
    · exact isWord.tidy.spaces c hc separates
    · rcases List.mem_cons.mp hc with rfl | hc
      · rfl
      · exact tidy.spaces c hc separates
  single := by
    refine List.isChain_append.mpr ⟨isWord.tidy.single, List.isChain_cons.mpr ⟨?_, tidy.single⟩, ?_⟩
    · exact fun c hc => .inr (tidy.first c hc)
    · exact fun c hc _ _ => .inl (isWord.tidy.last c hc)
  first c hc := by
    rw [List.head?_append_of_ne_nil _ isWord.filled] at hc
    exact isWord.tidy.first c hc
  last c hc := by
    rw [List.getLast?_append_cons, List.getLast?_cons_of_ne_nil filled] at hc
    exact tidy.last c hc

theorem tidy_intercalate (each : ∀ w ∈ ws, IsWord w) : Tidy ([' '].intercalate ws) := by
  induction ws with
  | nil => exact ⟨nofun, .nil, nofun, nofun⟩
  | cons w ws ih =>
      obtain ⟨isWord, each⟩ := List.forall_mem_cons.mp each
      cases ws with
      | nil => simpa using isWord.tidy
      | cons next ws =>
          have filled : [' '].intercalate (next :: ws) ≠ [] := by
            intro empty
            have spelled := spells_intercalate each
            rw [empty] at spelled
            exact absurd spelled.words_eq (by simp [words])
          simpa [List.intercalate_cons_cons] using (ih each).word_space isWord filled

theorem toList_collapse (text : String) :
    (collapse text).toList = [' '].intercalate (words text.toList) := by
  rw [collapse, String.toList_ofList]

/-- A collapsed text spells the words of the text. -/
theorem spells_collapse (text : String) : Spells (words text.toList) (collapse text).toList := by
  rw [toList_collapse]
  exact spells_intercalate (spells_words text.toList).isWord

/-- Texts become the same when they have the same words, and only then. -/
theorem collapse_eq_iff {s t : String} : collapse s = collapse t ↔ SameWords s t := by
  rw [sameWords_iff]
  constructor
  · intro same
    rw [← (spells_collapse s).words_eq, same, (spells_collapse t).words_eq]
  · intro same
    rw [collapse, same, ← collapse]

theorem collapse_collapse (text : String) : collapse (collapse text) = collapse text :=
  collapse_eq_iff.mpr ⟨_, spells_collapse text, spells_words text.toList⟩

theorem tidy_collapse (text : String) : Tidy (collapse text).toList := by
  rw [toList_collapse]
  exact tidy_intercalate (spells_words text.toList).isWord

/-- Nothing but blanks is lost or moved. -/
theorem filter_collapse (text : String) :
    (collapse text).toList.filter (fun c => !isBlank c) =
      text.toList.filter (fun c => !isBlank c) := by
  rw [(spells_collapse text).filter_eq_flatten, (spells_words text.toList).filter_eq_flatten]

end Collapsed

end CallAtlas.Text
