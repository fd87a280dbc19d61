import ImeBridge.Configuration.Line

/-! # The grammar of `IME98.CFG`

What the lines that set something look like, and which other lines the parser takes too:
it stops at the fourth digit or behind the last one, and looks no further.
-/

namespace ImeBridge

/-- The settings that are numbers. -/
inductive Setting where
  | dataPort
  | statusPort
  | mode
  | command
  | timerCount
  deriving DecidableEq, Repr

def Setting.key : Setting → List Byte
  | .dataPort => ascii "DATA_PORT"
  | .statusPort => ascii "STATUS_PORT"
  | .mode => ascii "MODE"
  | .command => ascii "COMMAND"
  | .timerCount => ascii "TIMER_COUNT"

/-- The largest number that the variable holds. -/
def Setting.limit : Setting → Nat
  | .mode | .command => 0xff
  | .dataPort | .statusPort | .timerCount => 0xffff

/-- The variable gets the number, without the bits it has no room for. -/
def Settings.set (setting : Setting) (number : Nat) (settings : Settings) : Settings :=
  match setting with
  | .dataPort => { settings with dataPort := BitVec.ofNat 16 number }
  | .statusPort => { settings with statusPort := BitVec.ofNat 16 number }
  | .mode => { settings with mode := BitVec.ofNat 8 number }
  | .command => { settings with command := BitVec.ofNat 8 number }
  | .timerCount => { settings with timerCount := BitVec.ofNat 16 number }

/-- Blanks, the key and `=` before the rest of a line. -/
def Keyed (key tail line : List Byte) : Prop :=
  ∃ indent, line = indent ++ (key ++ 0x3d#8 :: tail) ∧ ∀ value ∈ indent, blank value = true

/-- Blanks, perhaps `0x`, and one to four digits before the rest. -/
structure Numeral (marker digits rest tail : List Byte) : Prop where
  spelled : ∃ gap, tail = gap ++ (marker ++ (digits ++ rest)) ∧ ∀ value ∈ gap, blank value = true
  marker : marker = [] ∨ marker = ascii "0x" ∨ marker = ascii "0X"
  nonempty : digits ≠ []
  few : digits.length ≤ 4
  hex : ∀ digit ∈ digits, isHex digit = true

/-- A line that gives a setting a number. -/
def Assigns (setting : Setting) (number : Nat) (line : List Byte) : Prop :=
  ∃ tail marker digits rest, Keyed setting.key tail line ∧ Numeral marker digits rest tail ∧
    (∀ value ∈ rest, blank value = true) ∧ number = hexNumber digits ∧ number ≤ setting.limit

/-- The names of the hotkeys and their masks. -/
def hotkeyNames : List (List Byte × Byte) :=
  [(ascii "SHIFT+SPACE", 0x01#8), (ascii "GRAPH+SPACE", 0x08#8), (ascii "CTRL+SPACE", 0x10#8)]

/-- A line that names a hotkey. -/
def NamesHotkey (mask : Byte) (line : List Byte) : Prop :=
  ∃ tail gap name rest, Keyed (ascii "HOTKEY") tail line ∧ tail = gap ++ (name ++ rest) ∧
    (∀ value ∈ gap, blank value = true) ∧ (name, mask) ∈ hotkeyNames ∧ ∀ value ∈ rest, blank value = true

/-- The digits go as far as they can, and a leading `0x` is none of them. -/
def Maximal (marker digits rest : List Byte) : Prop :=
  (digits.length = 4 ∨ ∀ value ∈ rest.head?, isHex value = false) ∧
    ¬ (marker = [] ∧ digits = [0x30#8] ∧ (rest.head? = some 0x78#8 ∨ rest.head? = some 0x58#8))

/-- A line with a number that the parser takes for what it is not: something stands behind
it, or it is too large. -/
def Overreads (setting : Setting) (number : Nat) (line : List Byte) : Prop :=
  ∃ tail marker digits rest, Keyed setting.key tail line ∧ Numeral marker digits rest tail ∧
    Maximal marker digits rest ∧ number = hexNumber digits ∧
    ¬ ((∀ value ∈ rest, blank value = true) ∧ number ≤ setting.limit)

/-- A line sets what the grammar says it sets. -/
structure Conforms (line : List Byte) (settings : Settings) : Prop where
  number : ∀ setting number, Assigns setting number (cString line) →
    parseConfigLine line settings = settings.set setting number
  hotkey : ∀ mask, NamesHotkey mask (cString line) →
    parseConfigLine line settings = { settings with hotkeyModifierMask := mask }
  other : (∀ setting number, ¬ Assigns setting number (cString line)) →
    (∀ mask, ¬ NamesHotkey mask (cString line)) → parseConfigLine line settings = settings

/-! ## Keys -/

theorem skipBlanks_append {gap : List Byte} (blanks : ∀ value ∈ gap, blank value = true) (rest : List Byte) :
    skipBlanks (gap ++ rest) = skipBlanks rest := by
  induction gap with
  | nil => rfl
  | cons value gap inductionHypothesis =>
    have first := blanks value List.mem_cons_self
    have others := inductionHypothesis fun later member => blanks later (List.mem_cons_of_mem _ member)
    simpa [skipBlanks, first] using others

theorem skipBlanks_eq (text : List Byte) :
    ∃ gap, text = gap ++ skipBlanks text ∧ ∀ value ∈ gap, blank value = true :=
  ⟨text.takeWhile blank, (List.takeWhile_append_dropWhile).symm, fun _ => List.mem_takeWhile_imp⟩

theorem keyed_iff {key tail line : List Byte} (visible : ∀ value ∈ key.head?, blank value = false) :
    Keyed key tail line ↔ skipBlanks line = key ++ 0x3d#8 :: tail := by
  constructor
  · rintro ⟨indent, rfl, blanks⟩
    rw [skipBlanks_append blanks]
    cases key with
    | nil => rfl
    | cons letter key =>
      have first : blank letter = false := visible letter rfl
      simp [skipBlanks, first]
  · intro begins
    obtain ⟨indent, split, blanks⟩ := skipBlanks_eq line
    exact ⟨indent, begins ▸ split, blanks⟩

theorem not_blank_of_isHex {value : Byte} (hex : isHex value = true) : blank value = false := by
  revert value
  decide

theorem not_isHex_of_blank {value : Byte} (isBlank : blank value = true) : isHex value = false := by
  revert value
  decide

/-! ## Numbers -/

/-- Blanks end a number. -/
theorem maximal_of_blank {marker digits rest : List Byte} (blanks : ∀ value ∈ rest, blank value = true) :
    Maximal marker digits rest := by
  refine ⟨.inr fun value first => not_isHex_of_blank (blanks value (List.mem_of_mem_head? first)), ?_⟩
  rintro ⟨_, _, first | first⟩
  · exact absurd (blanks _ (List.mem_of_mem_head? first)) (by decide)
  · exact absurd (blanks _ (List.mem_of_mem_head? first)) (by decide)

theorem takeWhile_eq_nil_of_head {rest : List Byte} (stops : ∀ value ∈ rest.head?, isHex value = false) :
    rest.takeWhile isHex = [] := by
  cases rest with
  | nil => rfl
  | cons value rest => exact List.takeWhile_cons_of_neg (by simp [stops value rfl])

theorem hexDigits_append {digits rest : List Byte} (few : digits.length ≤ 4)
    (hex : ∀ digit ∈ digits, isHex digit = true)
    (stops : digits.length = 4 ∨ ∀ value ∈ rest.head?, isHex value = false) :
    hexDigits (digits ++ rest) = digits := by
  rw [hexDigits, List.takeWhile_append_of_pos hex]
  cases stops with
  | inl full => rw [← full, List.take_left]
  | inr stops => rw [takeWhile_eq_nil_of_head stops, List.append_nil, List.take_of_length_le few]

/-- `parse_hex` takes the digits of a number that is maximal, -/
theorem Numeral.scanned {marker digits rest tail : List Byte} (numeral : Numeral marker digits rest tail)
    (maximal : Maximal marker digits rest) :
    skipMarker (skipBlanks tail) = digits ++ rest ∧ hexDigits (digits ++ rest) = digits := by
  refine ⟨?_, hexDigits_append numeral.few numeral.hex maximal.1⟩
  obtain ⟨gap, rfl, blanks⟩ := numeral.spelled
  rw [skipBlanks_append blanks]
  have mark : blank 0x30#8 = false := by decide
  rcases numeral.marker with rfl | rfl | rfl
  · obtain ⟨first, more, rfl⟩ := List.exists_cons_of_ne_nil numeral.nonempty
    have visible : blank first = false := not_blank_of_isHex (numeral.hex first List.mem_cons_self)
    -- A zero before an x would be a marker; the digits begin otherwise.
    have plain : ¬ (first = 0x30#8 ∧ ((more ++ rest).getD 0 0 = 0x78#8 ∨ (more ++ rest).getD 0 0 = 0x58#8)) := by
      rintro ⟨rfl, second⟩
      cases more with
      | nil =>
        cases rest with
        | nil => simp at second
        | cons value rest => exact maximal.2 ⟨rfl, rfl, by simpa using second⟩
      | cons value more =>
        have isDigit : isHex value = true := numeral.hex value (by simp)
        rcases second with lower | upper
        · have letter : value = 0x78#8 := lower
          exact absurd isDigit (letter ▸ by decide)
        · have letter : value = 0x58#8 := upper
          exact absurd isDigit (letter ▸ by decide)
    have kept : skipBlanks (first :: (more ++ rest)) = first :: (more ++ rest) := by
      simp [skipBlanks, visible]
    rw [List.nil_append, List.cons_append, kept]
    exact if_neg plain
  · have kept : skipBlanks (ascii "0x" ++ (digits ++ rest)) = ascii "0x" ++ (digits ++ rest) := by
      rfl
    rw [kept]
    rfl
  · have kept : skipBlanks (ascii "0X" ++ (digits ++ rest)) = ascii "0X" ++ (digits ++ rest) := by
      rfl
    rw [kept]
    rfl

theorem hexDigits_split (text : List Byte) : ∃ rest, text = hexDigits text ++ rest ∧
    ((hexDigits text).length = 4 ∨ ∀ value ∈ rest.head?, isHex value = false) := by
  by_cases many : 4 ≤ (text.takeWhile isHex).length
  · obtain ⟨rest, split⟩ := (List.take_prefix 4 _).trans (List.takeWhile_prefix isHex (l := text))
    exact ⟨rest, split.symm, .inl (by simp [hexDigits, many])⟩
  · have all : hexDigits text = text.takeWhile isHex := List.take_of_length_le (by omega)
    refine ⟨text.dropWhile isHex, ?_, .inr fun value first => ?_⟩
    · rw [all, List.takeWhile_append_dropWhile]
    · have stops := List.head?_dropWhile_not isHex text
      rw [Option.mem_def.mp first] at stops
      simpa using stops

theorem skipMarker_split (text : List Byte) :
    (∃ marker, (marker = ascii "0x" ∨ marker = ascii "0X") ∧ text = marker ++ skipMarker text) ∨
      skipMarker text = text ∧
        ¬ (text.getD 0 0 = 0x30#8 ∧ (text.getD 1 0 = 0x78#8 ∨ text.getD 1 0 = 0x58#8)) := by
  by_cases marked : text.getD 0 0 = 0x30#8 ∧ (text.getD 1 0 = 0x78#8 ∨ text.getD 1 0 = 0x58#8)
  · refine .inl ?_
    rw [skipMarker, if_pos marked]
    cases text with
    | nil => simp at marked
    | cons first text =>
      cases text with
      | nil => simp at marked
      | cons second rest =>
        obtain ⟨zero, lower | upper⟩ := marked
        · have both : first = 0x30#8 ∧ second = 0x78#8 := ⟨zero, lower⟩
          exact ⟨ascii "0x", .inl rfl, by rw [both.1, both.2]; rfl⟩
        · have both : first = 0x30#8 ∧ second = 0x58#8 := ⟨zero, upper⟩
          exact ⟨ascii "0X", .inr rfl, by rw [both.1, both.2]; rfl⟩
  · exact .inr ⟨if_neg marked, marked⟩

/-- and every text that begins with digits has one. -/
theorem numeral_of_digits {tail : List Byte} (read : hexDigits (skipMarker (skipBlanks tail)) ≠ []) :
    ∃ marker rest, Numeral marker (hexDigits (skipMarker (skipBlanks tail))) rest tail ∧
      Maximal marker (hexDigits (skipMarker (skipBlanks tail))) rest := by
  obtain ⟨gap, spelled, blanks⟩ := skipBlanks_eq tail
  have few : (hexDigits (skipMarker (skipBlanks tail))).length ≤ 4 := List.length_take_le _ _
  have hex := hexDigits_isHex (skipMarker (skipBlanks tail))
  obtain ⟨rest, split, stops⟩ := hexDigits_split (skipMarker (skipBlanks tail))
  obtain ⟨marker, mark, marked⟩ | ⟨same, unmarked⟩ := skipMarker_split (skipBlanks tail)
  · refine ⟨marker, rest, ⟨⟨gap, ?_, blanks⟩, .inr mark, read, few, hex⟩, stops, ?_⟩
    · rw [← split, ← marked]
      exact spelled
    · rintro ⟨rfl, _⟩
      exact absurd mark (by decide)
  · refine ⟨[], rest, ⟨⟨gap, ?_, blanks⟩, .inl rfl, read, few, hex⟩, stops, ?_⟩
    · rw [← split, same]
      exact spelled
    · -- A single zero before an x would have been skipped.
      rintro ⟨_, single, next⟩
      rw [same] at split single
      rw [single] at split
      rw [split] at unmarked
      cases rest with
      | nil => simp at next
      | cons value rest => exact unmarked ⟨rfl, by simpa using next⟩

/-! ## The line as a whole -/

/-- Of all keys only its own reads a line. -/
theorem keyedHex_key (setting other : Setting) (tail : List Byte) :
    keyedHex (setting.key ++ 0x3d#8 :: tail) other.key (other.key.length + 1) =
      if other = setting then parseHex tail else none := by
  cases setting <;> cases other <;> rfl

/-- The branches of the parser, setting by setting. -/
theorem parseConfigLine_eq (line : List Byte) (settings : Settings) :
    let line' := skipBlanks line
    let read := fun setting : Setting => keyedHex line' setting.key (setting.key.length + 1)
    parseConfigLine line settings =
      if line'.headD 0 = 0#8 ∨ line'.headD 0 = 0x3b#8 ∨ line'.headD 0 = 0x23#8 then settings
      else if let some value := read .dataPort then { settings with dataPort := value }
      else if let some value := read .statusPort then { settings with statusPort := value }
      else if let some value := read .mode then { settings with mode := value.setWidth 8 }
      else if let some value := read .command then { settings with command := value.setWidth 8 }
      else if let some value := read .timerCount then { settings with timerCount := value }
      else if configKey line' (ascii "HOTKEY") then parseHotkey (line'.drop 7) settings
      else settings := rfl

/-- A line that begins with the key of a number. -/
theorem parseConfigLine_number {setting : Setting} {tail line : List Byte} (settings : Settings)
    (keyed : skipBlanks line = setting.key ++ 0x3d#8 :: tail) :
    parseConfigLine line settings =
      if hexDigits (skipMarker (skipBlanks tail)) = [] then settings
      else settings.set setting (hexNumber (hexDigits (skipMarker (skipBlanks tail)))) := by
  have visible : ¬ ((setting.key ++ 0x3d#8 :: tail).headD 0 = 0#8 ∨
      (setting.key ++ 0x3d#8 :: tail).headD 0 = 0x3b#8 ∨ (setting.key ++ 0x3d#8 :: tail).headD 0 = 0x23#8) := by
    cases setting <;> simp [Setting.key, ascii]
  have hotkey : configKey (setting.key ++ 0x3d#8 :: tail) (ascii "HOTKEY") = false := by
    cases setting <;> rfl
  simp only [parseConfigLine_eq, keyed, keyedHex_key, if_neg visible, hotkey, parseHex_eq]
  by_cases empty : hexDigits (skipMarker (skipBlanks tail)) = []
  · rw [if_pos empty, if_pos empty]
    cases setting <;> rfl
  · rw [if_neg empty, if_neg empty]
    cases setting <;> simp [Settings.set]

theorem parseConfigLine_hotkey {tail line : List Byte} (settings : Settings)
    (keyed : skipBlanks line = ascii "HOTKEY" ++ 0x3d#8 :: tail) :
    parseConfigLine line settings = parseHotkey tail settings := by
  have visible : ¬ ((ascii "HOTKEY" ++ 0x3d#8 :: tail).headD 0 = 0#8 ∨
      (ascii "HOTKEY" ++ 0x3d#8 :: tail).headD 0 = 0x3b#8 ∨
      (ascii "HOTKEY" ++ 0x3d#8 :: tail).headD 0 = 0x23#8) := by
    simp [ascii]
  have other : ∀ setting : Setting,
      keyedHex (ascii "HOTKEY" ++ 0x3d#8 :: tail) setting.key (setting.key.length + 1) = none := by
    intro setting
    cases setting <;> rfl
  simp only [parseConfigLine_eq, keyed, other, if_neg visible]
  rfl

theorem parseConfigLine_other {line : List Byte} (settings : Settings)
    (number : ∀ (setting : Setting) tail, skipBlanks line ≠ setting.key ++ 0x3d#8 :: tail)
    (hotkey : ∀ tail, skipBlanks line ≠ ascii "HOTKEY" ++ 0x3d#8 :: tail) :
    parseConfigLine line settings = settings := by
  have unnamed : ∀ key : List Byte, 0#8 ∉ key → (∀ tail, skipBlanks line ≠ key ++ 0x3d#8 :: tail) →
      configKey (skipBlanks line) key = false := by
    intro key named other
    rw [← Bool.not_eq_true, configKey_iff named]
    rintro ⟨tail, split⟩
    exact other tail (by rw [← split, List.append_assoc, List.singleton_append])
  have numbers : ∀ setting : Setting, keyedHex (skipBlanks line) setting.key (setting.key.length + 1) = none := by
    intro setting
    have named : 0#8 ∉ setting.key := by cases setting <;> decide
    rw [keyedHex, unnamed setting.key named (number setting), if_neg (by simp)]
  simp only [parseConfigLine_eq, numbers, unnamed _ (by decide) hotkey]
  simp

/-! ## Hotkeys -/

theorem headD_skipBlanks {text : List Byte} (named : 0#8 ∉ text) :
    (skipBlanks text).headD 0 = 0#8 ↔ ∀ value ∈ text, blank value = true := by
  induction text with
  | nil => simp [skipBlanks]
  | cons value text inductionHypothesis =>
    have rest := inductionHypothesis fun member => named (List.mem_cons_of_mem _ member)
    have different : value ≠ 0#8 := fun zero => named (zero ▸ List.mem_cons_self)
    by_cases isBlank : blank value = true
    · simpa [skipBlanks, isBlank] using rest
    · simp [skipBlanks, isBlank, different]

theorem configValue_iff {text value : List Byte} (named : 0#8 ∉ text) (valueNamed : 0#8 ∉ value) :
    configValue text value = true ↔ ∃ rest, text = value ++ rest ∧ ∀ byte ∈ rest, blank byte = true := by
  induction value generalizing text with
  | nil =>
    rw [configValue, decide_eq_true_eq, headD_skipBlanks named]
    simp
  | cons letter value inductionHypothesis =>
    cases text with
    | nil =>
      have letterNamed : ¬ 0#8 = letter := fun zero => valueNamed (zero ▸ List.mem_cons_self)
      simp [configValue, letterNamed]
    | cons first text =>
      have rest := inductionHypothesis (fun member => named (List.mem_cons_of_mem _ member))
        (fun member => valueNamed (List.mem_cons_of_mem _ member))
      rw [configValue, List.headD_cons, List.tail_cons, Bool.and_eq_true, decide_eq_true_eq, rest]
      simp [and_assoc]

/-- A text names a hotkey behind its blanks. -/
def HotkeyValue (mask : Byte) (text : List Byte) : Prop :=
  ∃ name rest, skipBlanks text = name ++ rest ∧ (name, mask) ∈ hotkeyNames ∧
    ∀ value ∈ rest, blank value = true

theorem skipBlanks_name {name : List Byte} {mask : Byte} (member : (name, mask) ∈ hotkeyNames)
    (rest : List Byte) : skipBlanks (name ++ rest) = name ++ rest := by
  simp only [hotkeyNames, List.mem_cons, Prod.mk.injEq, List.not_mem_nil, or_false] at member
  rcases member with ⟨rfl, _⟩ | ⟨rfl, _⟩ | ⟨rfl, _⟩ <;> rfl

theorem namesHotkey_iff {mask : Byte} {tail line : List Byte}
    (keyed : skipBlanks line = ascii "HOTKEY" ++ 0x3d#8 :: tail) :
    NamesHotkey mask line ↔ HotkeyValue mask tail := by
  have visible : ∀ value ∈ (ascii "HOTKEY").head?, blank value = false := by decide
  constructor
  · rintro ⟨tail', gap, name, rest, keyed', spelled, blanks, member, trailing⟩
    have same := keyed.symm.trans ((keyed_iff visible).mp keyed')
    obtain rfl : tail = tail' := by simpa using same
    exact ⟨name, rest, by rw [spelled, skipBlanks_append blanks, skipBlanks_name member], member, trailing⟩
  · rintro ⟨name, rest, value, member, trailing⟩
    obtain ⟨gap, split, blanks⟩ := skipBlanks_eq tail
    exact ⟨tail, gap, name, rest, (keyed_iff visible).mpr keyed, value ▸ split, blanks, member, trailing⟩

theorem parseHotkey_spec {tail : List Byte} (named : 0#8 ∉ tail) (settings : Settings) :
    (∀ mask, HotkeyValue mask tail → parseHotkey tail settings = { settings with hotkeyModifierMask := mask }) ∧
      ((∀ mask, ¬ HotkeyValue mask tail) → parseHotkey tail settings = settings) := by
  have inside : 0#8 ∉ skipBlanks tail := fun member => named (List.dropWhile_subset _ member)
  have value : ∀ name mask, (name, mask) ∈ hotkeyNames →
      (configValue (skipBlanks tail) name = true ↔ ∃ rest, skipBlanks tail = name ++ rest ∧
        ∀ byte ∈ rest, blank byte = true) := by
    intro name mask member
    refine configValue_iff inside ?_
    simp only [hotkeyNames, List.mem_cons, Prod.mk.injEq, List.not_mem_nil, or_false] at member
    rcases member with ⟨rfl, _⟩ | ⟨rfl, _⟩ | ⟨rfl, _⟩ <;> decide
  constructor
  · -- The names that are tried first begin with another letter.
    rintro mask ⟨name, rest, text, member, trailing⟩
    have accepted := (value name mask member).mpr ⟨rest, text, trailing⟩
    simp only [hotkeyNames, List.mem_cons, Prod.mk.injEq, List.not_mem_nil, or_false] at member
    rcases member with ⟨rfl, rfl⟩ | ⟨rfl, rfl⟩ | ⟨rfl, rfl⟩
    · simp only [parseHotkey, accepted, if_true]
    · have shift : configValue (skipBlanks tail) (ascii "SHIFT+SPACE") = false := by rw [text]; rfl
      simp [parseHotkey, accepted, shift]
    · have shift : configValue (skipBlanks tail) (ascii "SHIFT+SPACE") = false := by rw [text]; rfl
      have graph : configValue (skipBlanks tail) (ascii "GRAPH+SPACE") = false := by rw [text]; rfl
      simp [parseHotkey, accepted, shift, graph]
  · intro unknown
    have refused : ∀ name mask, (name, mask) ∈ hotkeyNames → ¬ configValue (skipBlanks tail) name = true := by
      intro name mask member accepted
      obtain ⟨rest, text, trailing⟩ := (value name mask member).mp accepted
      exact unknown mask ⟨name, rest, text, member, trailing⟩
    have shift := refused (ascii "SHIFT+SPACE") 0x01#8 (by decide)
    have graph := refused (ascii "GRAPH+SPACE") 0x08#8 (by decide)
    have ctrl := refused (ascii "CTRL+SPACE") 0x10#8 (by decide)
    simp only [parseHotkey, if_neg shift, if_neg graph, if_neg ctrl]

/-! ## Conformance -/

theorem keyed_setting {setting : Setting} {tail line : List Byte} :
    Keyed setting.key tail line ↔ skipBlanks line = setting.key ++ 0x3d#8 :: tail :=
  keyed_iff (by cases setting <;> decide)

theorem key_unique {setting other : Setting} {tail tail' : List Byte}
    (same : setting.key ++ 0x3d#8 :: tail = other.key ++ 0x3d#8 :: tail') : setting = other ∧ tail = tail' := by
  cases setting <;> cases other <;> simp_all [Setting.key, ascii]

theorem key_ne_hotkey {setting : Setting} {tail tail' : List Byte} :
    setting.key ++ 0x3d#8 :: tail ≠ ascii "HOTKEY" ++ 0x3d#8 :: tail' := by
  cases setting <;> simp [Setting.key, ascii]

section Number

variable {setting other : Setting} {number : Nat} {tail line : List Byte}
  (keyed : skipBlanks line = setting.key ++ 0x3d#8 :: tail)
include keyed

/-- A number behind the key is the one that the parser reads. -/
theorem scanned_of_keyed {tail' marker digits rest : List Byte} (keyed' : Keyed other.key tail' line)
    (numeral : Numeral marker digits rest tail') (maximal : Maximal marker digits rest) :
    other = setting ∧ digits = hexDigits (skipMarker (skipBlanks tail)) ∧
      skipMarker (skipBlanks tail) = digits ++ rest := by
  obtain ⟨rfl, rfl⟩ := key_unique ((keyed_setting.mp keyed').symm.trans keyed)
  obtain ⟨text, read⟩ := numeral.scanned maximal
  exact ⟨rfl, by rw [text, read], text⟩

theorem assigns_keyed (assigns : Assigns other number line) :
    other = setting ∧ number = hexNumber (hexDigits (skipMarker (skipBlanks tail))) ∧
      hexDigits (skipMarker (skipBlanks tail)) ≠ [] := by
  obtain ⟨tail', marker, digits, rest, keyed', numeral, blanks, rfl, _⟩ := assigns
  obtain ⟨same, read, _⟩ := scanned_of_keyed keyed keyed' numeral (maximal_of_blank blanks)
  exact ⟨same, by rw [read], read ▸ numeral.nonempty⟩

theorem overreads_keyed (overreads : Overreads other number line) :
    other = setting ∧ number = hexNumber (hexDigits (skipMarker (skipBlanks tail))) ∧
      hexDigits (skipMarker (skipBlanks tail)) ≠ [] ∧ ¬ Assigns other number line := by
  obtain ⟨tail', marker, digits, rest, keyed', numeral, maximal, rfl, ill⟩ := overreads
  obtain ⟨same, read, text⟩ := scanned_of_keyed keyed keyed' numeral maximal
  refine ⟨same, by rw [read], read ▸ numeral.nonempty, ?_⟩
  rintro ⟨tail'', marker', digits', rest', keyed'', numeral', blanks, _, fits⟩
  obtain ⟨_, read', text'⟩ := scanned_of_keyed keyed keyed'' numeral' (maximal_of_blank blanks)
  obtain rfl : rest = rest' := by
    rw [read] at text
    rw [read'] at text'
    exact List.append_cancel_left (text.symm.trans text')
  exact ill ⟨blanks, fits⟩

theorem reads_keyed (read : hexDigits (skipMarker (skipBlanks tail)) ≠ []) :
    Assigns setting (hexNumber (hexDigits (skipMarker (skipBlanks tail)))) line ∨
      Overreads setting (hexNumber (hexDigits (skipMarker (skipBlanks tail)))) line := by
  obtain ⟨marker, rest, numeral, maximal⟩ := numeral_of_digits read
  by_cases well : (∀ value ∈ rest, blank value = true) ∧
      hexNumber (hexDigits (skipMarker (skipBlanks tail))) ≤ setting.limit
  · exact .inl ⟨tail, marker, _, rest, keyed_setting.mpr keyed, numeral, well.1, rfl, well.2⟩
  · exact .inr ⟨tail, marker, _, rest, keyed_setting.mpr keyed, numeral, maximal, rfl, well⟩

end Number

theorem not_namesHotkey {setting : Setting} {tail line : List Byte}
    (keyed : skipBlanks line = setting.key ++ 0x3d#8 :: tail) (mask : Byte) : ¬ NamesHotkey mask line := by
  rintro ⟨tail', _, _, _, keyed', _⟩
  have visible : ∀ value ∈ (ascii "HOTKEY").head?, blank value = false := by decide
  exact key_ne_hotkey (keyed.symm.trans ((keyed_iff visible).mp keyed'))

/-- What is misread is stored all the same. -/
theorem Conforms.misread {line : List Byte} {settings : Settings} {setting : Setting} {number : Nat}
    (conforms : Conforms line settings) (overreads : Overreads setting number (cString line)) :
    settings.set setting number = settings := by
  obtain ⟨tail, _, _, _, begins, _⟩ := id overreads
  have keyed := keyed_setting.mp begins
  have parsed := parseConfigLine_number settings keyed
  obtain ⟨_, rfl, read, notAssigns⟩ := overreads_keyed keyed overreads
  have unset := conforms.other (fun another number assigns => by
    obtain ⟨rfl, rfl, _⟩ := assigns_keyed keyed assigns
    exact notAssigns assigns) (not_namesHotkey keyed)
  rw [parseConfigLine_cString, if_neg read] at parsed
  exact parsed.symm.trans unset

/-- The parser conforms to the grammar exactly on the lines whose number it does not misread,
or misreads as the value that the setting has already. -/
theorem conforms_iff (line : List Byte) (settings : Settings) :
    Conforms line settings ↔
      ∀ setting number, Overreads setting number (cString line) →
        settings.set setting number = settings := by
  refine ⟨fun conforms _ _ overreads => conforms.misread overreads, fun harmless => ?_⟩
  -- By the key that the line begins with.
  have parses := parseConfigLine_cString line settings
  by_cases number : ∃ (setting : Setting) (tail : List Byte),
      skipBlanks (cString line) = setting.key ++ 0x3d#8 :: tail
  · obtain ⟨setting, tail, keyed⟩ := number
    have parsed := parseConfigLine_number settings keyed
    rw [parses] at parsed
    refine ⟨fun other number assigns => ?_, fun mask names => absurd names (not_namesHotkey keyed mask),
      fun none _ => ?_⟩
    · obtain ⟨rfl, rfl, read⟩ := assigns_keyed keyed assigns
      rw [parsed, if_neg read]
    · rw [parsed]
      by_cases read : hexDigits (skipMarker (skipBlanks tail)) = []
      · rw [if_pos read]
      · -- The digits that are read belong to an assignment or are misread.
        rw [if_neg read]
        rcases reads_keyed keyed read with assigns | overreads
        · exact absurd assigns (none _ _)
        · exact harmless _ _ overreads
  have noAssigns : ∀ setting number, ¬ Assigns setting number (cString line) := by
    rintro setting read ⟨tail, _, _, _, keyed, _⟩
    exact number ⟨setting, tail, keyed_setting.mp keyed⟩
  have visible : ∀ value ∈ (ascii "HOTKEY").head?, blank value = false := by decide
  by_cases hotkey : ∃ tail, skipBlanks (cString line) = ascii "HOTKEY" ++ 0x3d#8 :: tail
  · obtain ⟨tail, keyed⟩ := hotkey
    have parsed := parseConfigLine_hotkey settings keyed
    rw [parses] at parsed
    have named : 0#8 ∉ tail := fun member => not_zero_mem_cString line
      (List.dropWhile_subset blank (show 0#8 ∈ skipBlanks (cString line) from keyed ▸ by simp [member]))
    obtain ⟨known, unknown⟩ := parseHotkey_spec named settings
    refine ⟨fun setting number assigns => absurd assigns (noAssigns setting number), fun mask names => ?_,
      fun _ none => ?_⟩
    · rw [parsed]
      exact known mask ((namesHotkey_iff keyed).mp names)
    · rw [parsed]
      exact unknown fun mask value => none mask ((namesHotkey_iff keyed).mpr value)
  · -- No key at all.
    have parsed := parseConfigLine_other settings (fun setting tail keyed => number ⟨setting, tail, keyed⟩)
      fun tail keyed => hotkey ⟨tail, keyed⟩
    rw [parses] at parsed
    refine ⟨fun setting number assigns => absurd assigns (noAssigns setting number), ?_, fun _ _ => parsed⟩
    rintro mask ⟨tail, _, _, _, keyed, _⟩
    exact absurd ⟨tail, (keyed_iff visible).mp keyed⟩ hotkey

/-- Mode 4Eh with two letters behind it. -/
theorem parseConfigLine_misreads : ¬ Conforms (ascii "MODE=4EZZ") {} := by
  intro conforms
  have text : cString (ascii "MODE=4EZZ") = ascii "MODE=4EZZ" := by decide
  have keyed : Keyed Setting.mode.key (ascii "4EZZ") (ascii "MODE=4EZZ") := ⟨[], by decide, by simp⟩
  have numeral : Numeral [] (ascii "4E") (ascii "ZZ") (ascii "4EZZ") :=
    ⟨⟨[], by decide, by simp⟩, .inl rfl, by decide, by decide, by decide⟩
  have overreads : Overreads .mode 0x4e (cString (ascii "MODE=4EZZ")) := by
    rw [text]
    exact ⟨_, [], _, _, keyed, numeral, by unfold Maximal; decide, by decide, by decide⟩
  exact absurd (conforms.misread overreads) (by decide)

end ImeBridge
