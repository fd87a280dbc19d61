import ImeBridge.Keyboard.Bios

/-! # What a text means as key words

`keyWords` is the list of words a text stands for.  The index arithmetic of
`pc98BiosEncodeKey` walks through exactly this list.
-/

namespace ImeBridge

/-- The word of one byte that is not the LF of a CR LF. -/
def keyWord (character : Byte) : Word :=
  if character = carriageReturn ∨ character = lineFeed then word carriageReturn pc98ScanReturn
  else if character = 0x08#8 then word character pc98ScanBackspace
  else if character = 0x09#8 then word character pc98ScanTab
  else if character = 0x1b#8 then word character pc98ScanEsc
  else word character 0#8

/-- The key words of a text, CR LF being one Enter. -/
def keyWords : List Byte → List Word
  | [] => []
  | [character] => [keyWord character]
  | first :: second :: rest =>
    if first = carriageReturn ∧ second = lineFeed then keyWord first :: keyWords rest
    else keyWord first :: keyWords (second :: rest)

theorem normalizedLength_eq (text : List Byte) : normalizedLength text = (keyWords text).length := by
  fun_induction keyWords text <;> simp_all [normalizedLength]

theorem keyWords_enter (rest : List Byte) :
    keyWords (carriageReturn :: lineFeed :: rest) = keyWord carriageReturn :: keyWords rest := by
  simp [keyWords]

theorem keyWords_single {first : Byte} {rest : List Byte}
    (separate : ¬ (first = carriageReturn ∧ rest.head? = some lineFeed)) :
    keyWords (first :: rest) = keyWord first :: keyWords rest := by
  cases rest with
  | nil => rfl
  | cons second rest =>
    have different : ¬ (first = carriageReturn ∧ second = lineFeed) := by simpa using separate
    simp [keyWords, different]

/-- The word the encoder returns depends on the byte at the index only. -/
theorem pc98BiosEncodeKey_word (text : List Byte) (length input : Nat) :
    (pc98BiosEncodeKey text length input).1 = keyWord (text.getD input 0) := by
  simp only [pc98BiosEncodeKey, keyWord]
  generalize text.getD input 0 = character
  split_ifs <;> simp_all

theorem pc98BiosEncodeKey_index (text : List Byte) (length input : Nat) :
    (pc98BiosEncodeKey text length input).2 =
      if text.getD input 0 = carriageReturn ∧ input + 1 < length ∧
        text.getD (input + 1) 0 = lineFeed then input + 1 else input := by
  simp only [pc98BiosEncodeKey]
  split_ifs <;> simp_all

/-- One call of the encoder yields the next word and stands on its last byte. -/
theorem pc98BiosEncodeKey_spec {text : List Byte} {input : Nat} (bound : input < text.length) :
    keyWords (text.drop input) = (pc98BiosEncodeKey text text.length input).1 ::
        keyWords (text.drop ((pc98BiosEncodeKey text text.length input).2 + 1)) ∧
      input ≤ (pc98BiosEncodeKey text text.length input).2 ∧
      (pc98BiosEncodeKey text text.length input).2 < text.length := by
  rw [pc98BiosEncodeKey_word, pc98BiosEncodeKey_index, List.drop_eq_getElem_cons bound]
  have current : text.getD input 0 = text[input] := by simp [bound]
  rw [current]
  split
  · -- CR LF: the encoder stands on the LF afterwards.
    rename_i enter
    obtain ⟨isReturn, nextBound, isFeed⟩ := enter
    have next : text.drop (input + 1) = lineFeed :: text.drop (input + 2) := by
      have second : text[input + 1] = lineFeed := by simpa [nextBound] using isFeed
      rw [List.drop_eq_getElem_cons nextBound, second]
    rw [next, isReturn, keyWords_enter]
    exact ⟨rfl, by omega, nextBound⟩
  · -- Any other byte is one word, a CR at the end of the text included.
    rename_i notEnter
    refine ⟨keyWords_single ?_, by omega, bound⟩
    rintro ⟨isReturn, isFeed⟩
    apply notEnter
    rw [List.head?_drop] at isFeed
    obtain ⟨nextBound, next⟩ := List.getElem?_eq_some_iff.mp isFeed
    exact ⟨isReturn, nextBound, by simp [isFeed]⟩

end ImeBridge
