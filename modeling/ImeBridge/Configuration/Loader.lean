import ImeBridge.Library.Lines
import ImeBridge.Keyboard.Bios
import ImeBridge.Configuration.Line

/-! # Reading `IME98.CFG`

`pc98_serial_load_config` gathers a line in a buffer of 128 bytes while the file comes in
pieces.  Over it stands the file as a list of lines.
-/

namespace ImeBridge

open Library

/-- `read_buffer` after a successful read; a read of no bytes ends the file. -/
structure FileRead where
  bytes : List Byte
  nonempty : bytes ≠ []
  fits : bytes.length ≤ 64

/-- `line` -/
structure LineBuffer where
  bytes : List Byte
  size : bytes.length = 128

/-- The variables of `pc98_serial_load_config`, and what it sets. -/
structure Loader where
  line : LineBuffer
  lineLength : Nat := 0
  lineOverflow : Bool := false
  lineStarted : Bool := false
  lineComment : Bool := false
  settings : Settings
  /-- The indices stored to so far; no variable of the program. -/
  stores : List Nat := []

namespace Loader

variable (loader : Loader)

/-- `line[index] = value` -/
def store (index : Nat) (value : Byte) : Loader :=
  { loader with
    line := ⟨loader.line.bytes.set index value, by rw [List.length_set, loader.line.size]⟩
    stores := loader.stores ++ [index] }

/-- The line is terminated and parsed. -/
def parse : Loader :=
  let loader := loader.store loader.lineLength 0#8
  { loader with settings := parseConfigLine loader.line.bytes loader.settings }

/-- One turn of the loop over `read_buffer`. -/
def accept (value : Byte) : Loader :=
  if value = carriageReturn ∨ value = lineFeed then
    let loader := if !loader.lineOverflow && !loader.lineComment then loader.parse else loader
    { loader with lineLength := 0, lineOverflow := false, lineStarted := false, lineComment := false }
  else if !loader.lineOverflow && !loader.lineComment then
    if !loader.lineStarted && blank value then loader
    else if !loader.lineStarted && (value = 0x3b#8 || value = 0x23#8) then
      { loader with lineStarted := true, lineComment := true }
    else
      let loader := { loader with lineStarted := true }
      -- The last byte of the buffer is kept for the terminating zero.
      if loader.lineLength + 1 < 128 then
        { loader.store loader.lineLength value with lineLength := loader.lineLength + 1 }
      else { loader with lineOverflow := true }
  else loader

/-- The file ends, perhaps within a line. -/
def finish : Loader :=
  if loader.lineLength ≠ 0 ∧ loader.lineOverflow = false ∧ loader.lineComment = false then loader.parse
  else loader

end Loader

/-- `none` is a file that cannot be opened. -/
def pc98SerialLoadConfig (file : Option (List FileRead)) (line : LineBuffer) (settings : Settings) :
    Bool × Loader :=
  match file with
  | none => (false, { line, settings })
  | some reads =>
    let loader : Loader := reads.foldl (fun loader read => read.bytes.foldl Loader.accept loader) { line, settings }
    (true, loader.finish)

/-! ## Line by line -/

def endsLine (value : Byte) : Bool := value = carriageReturn || value = lineFeed

/-- A line that begins with `;` or `#`. -/
def isComment (line : List Byte) : Bool := line.head? = some 0x3b#8 || line.head? = some 0x23#8

/-- The lines of the file that count, without their leading blanks. -/
def configLines (content : List Byte) : List (List Byte) :=
  ((content.splitOnP endsLine).map skipBlanks).filter fun line => !isComment line && line.length ≤ 127

def loadLines (content : List Byte) (settings : Settings) : Settings :=
  (configLines content).foldl (fun settings line => parseConfigLine line settings) settings

/-- What one line does. -/
def treatLine (settings : Settings) (line : List Byte) : Settings :=
  if !isComment (skipBlanks line) && (skipBlanks line).length ≤ 127 then
    parseConfigLine (skipBlanks line) settings
  else settings

theorem treatAll_eq (content : List Byte) (settings : Settings) :
    Lines.treatAll endsLine treatLine content settings = loadLines content settings := by
  rw [Lines.treatAll, loadLines, configLines, List.foldl_filter, List.foldl_map]
  rfl

namespace Loader

/-- What the variables say of the open line, the blanks at its beginning apart. -/
structure Represents (loader : Loader) (text : List Byte) (settings : Settings) : Prop where
  settings : loader.settings = settings
  started : loader.lineStarted = decide (text ≠ [])
  comment : loader.lineComment = isComment text
  overflow : loader.lineOverflow = (!isComment text && 127 < text.length)
  length : loader.lineLength = if isComment text then 0 else min text.length 127
  text : isComment text = false → loader.line.bytes.take loader.lineLength = text.take 127
  stores : ∀ index ∈ loader.stores, index ≤ 127

variable {loader : Loader} {text : List Byte} {settings : Settings}

theorem Represents.lineLength_le (represents : loader.Represents text settings) : loader.lineLength ≤ 127 := by
  rw [represents.length]
  split
  · exact Nat.zero_le _
  · exact Nat.min_le_right _ _

theorem Represents.store_inside (represents : loader.Represents text settings) (value : Byte) :
    ∀ index ∈ (loader.store loader.lineLength value).stores, index ≤ 127 := by
  intro index member
  rcases List.mem_append.mp member with before | last
  · exact represents.stores index before
  · rw [List.mem_singleton.mp last]
    exact represents.lineLength_le

theorem begins (line : LineBuffer) (settings : Settings) :
    Represents { line, settings } [] settings where
  settings := rfl
  started := rfl
  comment := rfl
  overflow := rfl
  length := rfl
  text := by simp
  stores := by simp

/-- A comment, and a line that is too long, stay what they are. -/
theorem Represents.ignored {value : Byte} (represents : loader.Represents text settings)
    (inside : endsLine value = false) (ignores : isComment text = true ∨ 127 < text.length) :
    (loader.accept value).Represents (text ++ [value]) settings := by
  have started : text ≠ [] := by
    rintro rfl
    simp [isComment] at ignores
  have same : isComment (text ++ [value]) = isComment text := by
    simp only [isComment, List.head?_append_of_ne_nil _ started]
  have closed : (!loader.lineOverflow && !loader.lineComment) = false := by
    rw [represents.overflow, represents.comment]
    cases ignores with
    | inl comment => simp [comment]
    | inr long => cases isComment text <;> simp [long]
  have kept : loader.accept value = loader := by
    have separate : ¬ (value = carriageReturn ∨ value = lineFeed) := by simpa [endsLine] using inside
    rw [Loader.accept, if_neg separate, closed, if_neg (by simp)]
  -- The variables stay; what is left is that they say the same of the longer line.
  rw [kept]
  refine ⟨represents.settings, ?_, ?_, ?_, ?_, fun counts => ?_, represents.stores⟩
  · rw [represents.started]
    simp [started]
  · rw [represents.comment, same]
  · rw [represents.overflow, same]
    cases ignores with
    | inl comment => simp [comment]
    | inr long => simp [long, Nat.lt_succ_of_lt long]
  · rw [represents.length, same]
    cases ignores with
    | inl comment => simp [comment]
    | inr long =>
      have least := Nat.le_of_lt long
      simp [Nat.min_eq_right least, Nat.min_eq_right (Nat.le_succ_of_le least)]
  · rw [same] at counts
    have long : 127 < text.length := ignores.resolve_left (by simp [counts])
    rw [represents.text counts, List.take_append_of_le_length (Nat.le_of_lt long)]

/-- Another byte of a line that counts. -/
theorem Represents.stored {value : Byte} (represents : loader.Represents text settings)
    (inside : endsLine value = false) (counts : isComment (text ++ [value]) = false)
    (short : text.length ≤ 127) (begun : text = [] → blank value = false) :
    (loader.accept value).Represents (text ++ [value]) settings := by
  have separate : ¬ (value = carriageReturn ∨ value = lineFeed) := by simpa [endsLine] using inside
  have counted : isComment text = false := by
    cases text with
    | nil => rfl
    | cons first rest => exact counts
  have opened : (!loader.lineOverflow && !loader.lineComment) = true := by
    rw [represents.overflow, represents.comment, counted]
    simp [short]
  have notSkipped : (!loader.lineStarted && blank value) = false := by
    rw [represents.started]
    by_cases empty : text = []
    · simp [begun empty]
    · simp [empty]
  have notComment : (!loader.lineStarted && (value = 0x3b#8 || value = 0x23#8)) = false := by
    rw [represents.started]
    by_cases empty : text = []
    · subst empty
      simpa [isComment] using counts
    · simp [empty]
  have length : loader.lineLength = text.length := by
    rw [represents.length, counted, if_neg (by simp), Nat.min_eq_left short]
  rw [Loader.accept, if_neg separate, opened, if_pos rfl, notSkipped, if_neg (by simp), notComment,
    if_neg (by simp)]
  dsimp only
  by_cases room : loader.lineLength + 1 < 128
  · rw [if_pos room]
    have within : text.length < loader.line.bytes.length := by
      rw [loader.line.size]
      omega
    refine ⟨represents.settings, ?_, ?_, ?_, ?_, fun _ => ?_, ?_⟩
    · simp [store]
    · rw [counts]
      exact represents.comment.trans counted
    · rw [counts]
      have notLong : ¬ 127 < (text ++ [value]).length := by simp; omega
      have before : loader.lineOverflow = false := by
        rw [represents.overflow]
        simp [short]
      simp only [notLong, store, before]
      rfl
    · rw [counts, if_neg (by simp), List.length_append, List.length_singleton, length,
        Nat.min_eq_left (by omega)]
    · have written : (loader.line.bytes.set text.length value).take (text.length + 1) = text ++ [value] := by
        have taken := represents.text counted
        rw [length, List.take_of_length_le short] at taken
        rw [List.take_add_one, List.take_set_of_le le_rfl, taken, List.getElem?_set_self within]
        rfl
      simp only [store, length, written]
      rw [List.take_of_length_le (by simp; omega)]
    · exact represents.store_inside value
  · -- The 128th byte of the line is not stored.
    rw [if_neg room]
    have full : text.length = 127 := by omega
    refine ⟨represents.settings, ?_, ?_, ?_, ?_, fun _ => ?_, represents.stores⟩
    · simp
    · rw [counts]
      exact represents.comment.trans counted
    · simp [counts, full]
    · simp [counts, length, full]
    · rw [represents.text counted, List.take_append_of_le_length full.ge]

/-- Another byte of the line. -/
theorem Represents.accept {value : Byte} (represents : loader.Represents text settings)
    (inside : endsLine value = false) :
    (loader.accept value).Represents (if text = [] ∧ blank value then [] else text ++ [value]) settings := by
  have separate : ¬ (value = carriageReturn ∨ value = lineFeed) := by simpa [endsLine] using inside
  by_cases skipped : text = [] ∧ blank value = true
  · obtain ⟨rfl, isBlank⟩ := skipped
    have kept : loader.accept value = loader := by
      simp [Loader.accept, separate, represents.started, isBlank]
    rw [kept, if_pos ⟨rfl, isBlank⟩]
    exact represents
  · rw [if_neg skipped]
    by_cases ignores : isComment text = true ∨ 127 < text.length
    · exact represents.ignored inside ignores
    · obtain ⟨counted, short⟩ := not_or.mp ignores
      by_cases counts : isComment (text ++ [value]) = true
      · -- The first byte that is no blank begins a comment.
        obtain rfl : text = [] := by
          cases text with
          | nil => rfl
          | cons first rest => exact absurd counts counted
        have marks : (value = 0x3b#8 || value = 0x23#8) = true := by simpa [isComment] using counts
        have notBlank : blank value = false := by simpa using skipped
        have begun : loader.accept value = { loader with lineStarted := true, lineComment := true } := by
          simp [Loader.accept, separate, represents.started, represents.overflow, represents.comment, notBlank,
            marks, isComment]
        rw [begun]
        refine ⟨represents.settings, rfl, ?_, ?_, ?_, fun other => ?_, represents.stores⟩
        · exact counts.symm
        · rw [counts]
          exact represents.overflow
        · rw [counts]
          exact represents.length
        · exact absurd (counts.symm.trans other) (by decide)
      · exact represents.stored inside (by simpa using counts) (by omega) fun empty => by
          simpa [empty] using skipped

/-- The end of the line parses it unless it is a comment or too long. -/
theorem Represents.parse (represents : loader.Represents text settings) (short : text.length ≤ 127)
    (counts : isComment text = false) :
    loader.parse.settings = parseConfigLine text settings ∧
      ∀ index ∈ loader.parse.stores, index ≤ 127 := by
  have length : loader.lineLength = text.length := by
    rw [represents.length, counts, if_neg (by simp), Nat.min_eq_left short]
  have room : loader.lineLength < loader.line.bytes.length := by
    rw [loader.line.size, length]
    omega
  have written : loader.line.bytes.set loader.lineLength 0#8 =
      text ++ 0#8 :: loader.line.bytes.drop (loader.lineLength + 1) := by
    rw [List.set_eq_take_append_cons_drop, if_pos room, represents.text counts, List.take_of_length_le short]
  refine ⟨?_, ?_⟩
  · -- What an earlier line left behind the zero does not matter to the parser.
    simp only [Loader.parse, store]
    rw [written, represents.settings, ← parseConfigLine_cString, cString_terminated, parseConfigLine_cString]
  · exact represents.store_inside 0#8

/-- The line counts exactly if neither flag is set. -/
theorem Represents.flags (represents : loader.Represents text settings) :
    (!loader.lineOverflow && !loader.lineComment) = (!isComment text && decide (text.length ≤ 127)) := by
  rw [represents.overflow, represents.comment]
  cases isComment text with
  | true => rfl
  | false =>
    by_cases short : text.length ≤ 127
    · simp [short]
    · simp [short, Nat.lt_of_not_le short]

/-- The end of a line. -/
theorem Represents.ends {value : Byte} (represents : loader.Represents text settings)
    (ending : endsLine value = true) : (loader.accept value).Represents []
      (if !isComment text && text.length ≤ 127 then parseConfigLine text settings else settings) := by
  have separate : value = carriageReturn ∨ value = lineFeed := by simpa [endsLine] using ending
  rw [Loader.accept, if_pos separate, represents.flags]
  by_cases counts : (!isComment text && decide (text.length ≤ 127)) = true
  · rw [if_pos counts, if_pos counts]
    have both : isComment text = false ∧ text.length ≤ 127 := by simpa using counts
    obtain ⟨parsed, stores⟩ := represents.parse both.2 both.1
    exact ⟨parsed, rfl, rfl, rfl, rfl, fun _ => rfl, stores⟩
  · rw [if_neg counts, if_neg counts]
    exact ⟨represents.settings, rfl, rfl, rfl, rfl, fun _ => rfl, represents.stores⟩

theorem skipBlanks_concat (line : List Byte) (value : Byte) : skipBlanks (line ++ [value]) =
    if skipBlanks line = [] ∧ blank value then [] else skipBlanks line ++ [value] := by
  simp only [skipBlanks, List.dropWhile_append, List.isEmpty_iff]
  by_cases empty : line.dropWhile blank = []
  · cases isBlank : blank value <;> simp [empty, isBlank]
  · simp [empty]

/-- Reading represents the open line throughout. -/
theorem Represents.read {opened : List Byte × Settings} {value : Byte}
    (represents : loader.Represents (skipBlanks opened.1) opened.2) :
    (loader.accept value).Represents (skipBlanks (Lines.read endsLine treatLine opened value).1)
      (Lines.read endsLine treatLine opened value).2 := by
  by_cases ending : endsLine value = true
  · rw [Lines.read, if_pos ending]
    exact represents.ends ending
  · rw [Lines.read, if_neg ending, skipBlanks_concat]
    exact represents.accept (by simpa using ending)

/-- The file ends. -/
theorem Represents.finish (represents : loader.Represents text settings) :
    loader.finish.settings =
        (if !isComment text && text.length ≤ 127 then parseConfigLine text settings else settings) ∧
      ∀ index ∈ loader.finish.stores, index ≤ 127 := by
  have flags := represents.flags
  by_cases counts : (!isComment text && decide (text.length ≤ 127)) = true
  · rw [if_pos counts]
    have both : isComment text = false ∧ text.length ≤ 127 := by simpa using counts
    rw [counts] at flags
    have unset : loader.lineOverflow = false ∧ loader.lineComment = false := by simpa using flags
    by_cases empty : text = []
    · -- An empty line is not parsed, which would change nothing.
      subst empty
      have zero : loader.lineLength = 0 := represents.length
      rw [Loader.finish, if_neg (by simp [zero])]
      exact ⟨represents.settings, represents.stores⟩
    · have length : loader.lineLength ≠ 0 := by
        rw [represents.length, both.1, if_neg (by simp), Nat.min_eq_left both.2]
        exact fun zero => empty (List.length_eq_zero_iff.mp zero)
      rw [Loader.finish, if_pos ⟨length, unset⟩]
      exact represents.parse both.2 both.1
  · rw [if_neg counts]
    have closed : ¬ (loader.lineLength ≠ 0 ∧ loader.lineOverflow = false ∧ loader.lineComment = false) := by
      rintro ⟨_, overflow, comment⟩
      rw [overflow, comment] at flags
      exact counts flags.symm
    rw [Loader.finish, if_neg closed]
    exact ⟨represents.settings, represents.stores⟩

end Loader

/-- Streaming the file is reading it line by line, however it is split into reads, and no
store is behind the end of the buffer. -/
theorem load_streams (reads : List FileRead) (line : LineBuffer) (settings : Settings) :
    let loader := (pc98SerialLoadConfig (some reads) line settings).2
    loader.settings = loadLines (reads.flatMap FileRead.bytes) settings ∧
      ∀ index ∈ loader.stores, index ≤ 127 := by
  intro loader
  have represents : Loader.Represents
      ((reads.flatMap FileRead.bytes).foldl Loader.accept { line, settings })
      (skipBlanks ((reads.flatMap FileRead.bytes).foldl (Lines.read endsLine treatLine) ([], settings)).1)
      ((reads.flatMap FileRead.bytes).foldl (Lines.read endsLine treatLine) ([], settings)).2 :=
    List.foldl_rel (r := fun (loader : Loader) (opened : List Byte × Settings) =>
        loader.Represents (skipBlanks opened.1) opened.2)
      (Loader.begins line settings) (fun _ _ _ _ => Loader.Represents.read)
  have closes := Lines.close_read_nil endsLine treatLine (reads.flatMap FileRead.bytes) settings
  rw [treatAll_eq] at closes
  have finishes : loader = ((reads.flatMap FileRead.bytes).foldl Loader.accept { line, settings }).finish := by
    rw [List.foldl_flatMap]
    rfl
  rw [finishes, ← closes]
  exact represents.finish

end ImeBridge
