import Mathlib.Data.List.TakeWhile
import ImeBridge.Machine.Memory

/-! # One line of `IME98.CFG`

The parser of `serial_pc98.c`.  A pointer into a line is the list of the bytes from there
on; behind its end stands the terminating zero.
-/

namespace ImeBridge

/-- The bytes of a string literal. -/
def ascii (text : String) : List Byte := text.toList.map fun character => BitVec.ofNat 8 character.toNat

/-- What `IME98.CFG` sets. -/
structure Settings where
  dataPort : Word := 0x0030#16
  statusPort : Word := 0x0032#16
  mode : Byte := 0x02#8
  command : Byte := 0x27#8
  timerCount : Word := 0x0008#16
  hotkeyModifierMask : Byte := 0x01#8
  deriving DecidableEq, Repr

/-- A space or a TAB. -/
def blank (value : Byte) : Bool := value = 0x20#8 || value = 0x09#8

/-- `while (*text == ' ' || *text == '\t') ++text;` -/
def skipBlanks (text : List Byte) : List Byte := text.dropWhile blank

def hexValue (value : Byte) : Byte :=
  if 0x30#8 ≤ value ∧ value ≤ 0x39#8 then value - 0x30#8
  else if 0x41#8 ≤ value ∧ value ≤ 0x46#8 then value - 0x41#8 + 10#8
  else if 0x61#8 ≤ value ∧ value ≤ 0x66#8 then value - 0x61#8 + 10#8
  else 0xff#8

/-- The loop of `parse_hex`, with `result` and `count`. -/
def hexLoop : List Byte → Word → Nat → Word × Nat
  | [], result, count => (result, count)
  | value :: text, result, count =>
    let digit := hexValue value
    if digit ≠ 0xff#8 ∧ count < 4 then
      hexLoop text ((result <<< 4) ||| digit.setWidth 16) (count + 1)
    else (result, count)

def parseHex (text : List Byte) : Option Word :=
  let text := skipBlanks text
  let text :=
    if text.getD 0 0 = 0x30#8 ∧ (text.getD 1 0 = 0x78#8 ∨ text.getD 1 0 = 0x58#8) then text.drop 2 else text
  -- What stands behind the digits is not looked at.
  let (result, count) := hexLoop text 0#16 0
  if count = 0 then none else some result

def configKey : List Byte → List Byte → Bool
  | line, [] => line.headD 0 = 0x3d#8
  | line, letter :: key => line.headD 0 = letter && configKey line.tail key

def configValue : List Byte → List Byte → Bool
  | text, [] => (skipBlanks text).headD 0 = 0#8
  | text, letter :: value => text.headD 0 = letter && configValue text.tail value

/-- `config_key` and `parse_hex` behind the key. -/
def keyedHex (line key : List Byte) (offset : Nat) : Option Word :=
  if configKey line key then parseHex (line.drop offset) else none

/-- The branch of `parse_config_line` behind `HOTKEY=`. -/
def parseHotkey (hotkey : List Byte) (settings : Settings) : Settings :=
  let hotkey := skipBlanks hotkey
  if configValue hotkey (ascii "SHIFT+SPACE") then { settings with hotkeyModifierMask := 0x01#8 }
  else if configValue hotkey (ascii "GRAPH+SPACE") then { settings with hotkeyModifierMask := 0x08#8 }
  else if configValue hotkey (ascii "CTRL+SPACE") then { settings with hotkeyModifierMask := 0x10#8 }
  else settings

def parseConfigLine (line : List Byte) (settings : Settings) : Settings :=
  let line := skipBlanks line
  if line.headD 0 = 0#8 ∨ line.headD 0 = 0x3b#8 ∨ line.headD 0 = 0x23#8 then settings
  else if let some value := keyedHex line (ascii "DATA_PORT") 10 then { settings with dataPort := value }
  else if let some value := keyedHex line (ascii "STATUS_PORT") 12 then { settings with statusPort := value }
  else if let some value := keyedHex line (ascii "MODE") 5 then { settings with mode := value.setWidth 8 }
  else if let some value := keyedHex line (ascii "COMMAND") 8 then { settings with command := value.setWidth 8 }
  else if let some value := keyedHex line (ascii "TIMER_COUNT") 12 then { settings with timerCount := value }
  else if configKey line (ascii "HOTKEY") then parseHotkey (line.drop 7) settings
  else settings

/-! ## What the scanners take -/

def isHex (value : Byte) : Bool := hexValue value ≠ 0xff#8

/-- The number that hexadecimal digits name. -/
def hexNumber (digits : List Byte) : Nat :=
  digits.foldl (fun number digit => 16 * number + (hexValue digit).toNat) 0

/-- Behind an optional `0x`. -/
def skipMarker (text : List Byte) : List Byte :=
  if text.getD 0 0 = 0x30#8 ∧ (text.getD 1 0 = 0x78#8 ∨ text.getD 1 0 = 0x58#8) then text.drop 2 else text

/-- The digits that `parse_hex` reads. -/
def hexDigits (text : List Byte) : List Byte := (text.takeWhile isHex).take 4

theorem hexValue_lt {value : Byte} (digit : isHex value = true) : (hexValue value).toNat < 16 := by
  revert value
  decide

theorem not_isHex_zero : isHex 0#8 = false := by decide

/-- A turn of the loop. -/
def addDigit (result : Word) (digit : Byte) : Word := (result <<< 4) ||| (hexValue digit).setWidth 16

theorem hexLoop_eq (text : List Byte) (result : Word) (count : Nat) :
    hexLoop text result count =
      (((text.takeWhile isHex).take (4 - count)).foldl addDigit result,
        count + ((text.takeWhile isHex).take (4 - count)).length) := by
  fun_induction hexLoop text result count with
  | case1 result count => simp
  | case2 value text result count digit goesOn inductionHypothesis =>
    obtain ⟨hex, few⟩ := goesOn
    have digits : isHex value = true := by simpa [isHex] using hex
    have room : 4 - count = (4 - (count + 1)) + 1 := by omega
    rw [inductionHypothesis, List.takeWhile_cons_of_pos digits, room, List.take_succ_cons]
    simp only [List.foldl_cons, List.length_cons, Prod.mk.injEq]
    exact ⟨rfl, by omega⟩
  | case3 value text result count digit stops =>
    by_cases hex : isHex value = true
    · have many : 4 - count = 0 := by
        have different : digit ≠ 0xff#8 := by simpa [isHex] using hex
        have full : ¬ count < 4 := fun few => stops ⟨different, few⟩
        omega
      simp [many]
    · simp [List.takeWhile_cons_of_neg hex]

/-- Shifting a digit in is exact as long as nothing is shifted out. -/
theorem shiftIn (number digit : Nat) (small : digit < 16) :
    ((BitVec.ofNat 16 number) <<< 4) ||| (BitVec.ofNat 16 digit) = BitVec.ofNat 16 (16 * number + digit) := by
  have shifted : (BitVec.ofNat 16 number) <<< 4 = BitVec.ofNat 16 (number <<< 4) := by
    apply BitVec.eq_of_toNat_eq
    simp [Nat.shiftLeft_eq, Nat.mul_mod]
  rw [shifted, ← BitVec.ofNat_or, ← Nat.shiftLeft_add_eq_or_of_lt (by omega), Nat.shiftLeft_eq, mul_comm]

theorem hexFold (digits : List Byte) (hex : ∀ digit ∈ digits, isHex digit = true) (number : Nat) :
    digits.foldl addDigit (BitVec.ofNat 16 number) =
      BitVec.ofNat 16 (digits.foldl (fun number digit => 16 * number + (hexValue digit).toNat) number) := by
  induction digits generalizing number with
  | nil => rfl
  | cons digit digits inductionHypothesis =>
    have small := hexValue_lt (hex digit List.mem_cons_self)
    have widened : (hexValue digit).setWidth 16 = BitVec.ofNat 16 (hexValue digit).toNat := by simp
    rw [List.foldl_cons, addDigit, widened, shiftIn _ _ small,
      inductionHypothesis (fun later member => hex later (List.mem_cons_of_mem _ member))]
    rfl

theorem hexDigits_isHex (text : List Byte) : ∀ digit ∈ hexDigits text, isHex digit = true :=
  fun _ member => List.mem_takeWhile_imp (List.mem_of_mem_take member)

/-- `parse_hex` reads the first four digits. -/
theorem parseHex_eq (text : List Byte) : parseHex text =
    let digits := hexDigits (skipMarker (skipBlanks text))
    if digits = [] then none else some (BitVec.ofNat 16 (hexNumber digits)) := by
  have folded := hexFold (hexDigits (skipMarker (skipBlanks text))) (hexDigits_isHex _) 0
  have loop : hexLoop (skipMarker (skipBlanks text)) 0#16 0 = (BitVec.ofNat 16
      (hexNumber (hexDigits (skipMarker (skipBlanks text)))),
      (hexDigits (skipMarker (skipBlanks text))).length) := by
    rw [hexLoop_eq, Nat.zero_add, hexNumber, ← folded]
    rfl
  have parsed : parseHex text = if (hexLoop (skipMarker (skipBlanks text)) 0#16 0).2 = 0 then none
      else some (hexLoop (skipMarker (skipBlanks text)) 0#16 0).1 := rfl
  simp only [parsed, loop, List.length_eq_zero_iff]

theorem configKey_iff {line key : List Byte} (named : 0#8 ∉ key) :
    configKey line key = true ↔ key ++ [0x3d#8] <+: line := by
  induction key generalizing line with
  | nil => cases line <;> simp [configKey, List.cons_prefix_cons, eq_comm]
  | cons letter key inductionHypothesis =>
    cases line with
    | nil =>
      have letterNamed : ¬ 0#8 = letter := fun zero => named (zero ▸ List.mem_cons_self)
      simp [configKey, letterNamed]
    | cons value line =>
      have rest := @inductionHypothesis line (fun member => named (List.mem_cons_of_mem _ member))
      rw [List.cons_append, List.cons_prefix_cons, ← rest, configKey, List.headD_cons, List.tail_cons,
        Bool.and_eq_true, decide_eq_true_eq]
      exact and_congr_left' eq_comm

/-! ## The terminating zero -/

/-- The text before the first zero byte. -/
def cString (text : List Byte) : List Byte := text.takeWhile (· ≠ 0#8)

theorem cString_append {front : List Byte} (named : 0#8 ∉ front) (rest : List Byte) :
    cString (front ++ rest) = front ++ cString rest := by
  apply List.takeWhile_append_of_pos
  intro value member
  have different : value ≠ 0#8 := fun zero => named (zero ▸ member)
  simpa using different

/-- Bytes behind a zero are not read. -/
theorem cString_terminated (front rest : List Byte) : cString (front ++ 0#8 :: rest) = cString front := by
  induction front with
  | nil => rfl
  | cons value front inductionHypothesis =>
    by_cases zero : value = 0#8
    · simp [cString, zero]
    · simpa [cString, zero] using inductionHypothesis

theorem not_zero_mem_cString (text : List Byte) : 0#8 ∉ cString text :=
  fun member => absurd (List.mem_takeWhile_imp member) (by simp)

@[simp] theorem cString_headD (text : List Byte) : (cString text).headD 0 = text.headD 0 := by
  cases text with
  | nil => rfl
  | cons value text => by_cases zero : value = 0#8 <;> simp [cString, zero]

theorem skipBlanks_cString (text : List Byte) : skipBlanks (cString text) = cString (skipBlanks text) := by
  induction text with
  | nil => rfl
  | cons value text inductionHypothesis =>
    by_cases isBlank : blank value = true
    · have different : value ≠ 0#8 := by
        rintro rfl
        exact absurd isBlank (by decide)
      simpa [skipBlanks, cString, isBlank, different] using inductionHypothesis
    · by_cases zero : value = 0#8
      · subst zero
        rfl
      · simp [skipBlanks, cString, isBlank, zero]

theorem skipMarker_cString (text : List Byte) : skipMarker (cString text) = cString (skipMarker text) := by
  match text with
  | [] => rfl
  | [value] => by_cases zero : value = 0#8 <;> simp [skipMarker, cString, zero]
  | first :: second :: text =>
    by_cases zero : first = 0#8
    · simp [skipMarker, cString, zero]
    · by_cases last : second = 0#8
      · simp [skipMarker, cString, zero, last]
      · by_cases marked : first = 0x30#8 ∧ (second = 0x78#8 ∨ second = 0x58#8)
        · simp [skipMarker, cString, last, marked]
        · simp [skipMarker, cString, zero, last, marked]

theorem hexDigits_cString (text : List Byte) : hexDigits (cString text) = hexDigits text := by
  have hexOnly : (fun value => decide (isHex value = true ∧ (decide (value ≠ 0#8)) = true)) = isHex := by
    funext value
    by_cases zero : value = 0#8
    · simp [zero, not_isHex_zero]
    · simp [zero]
  rw [hexDigits, cString, List.takeWhile_takeWhile, hexOnly, hexDigits]

@[simp] theorem parseHex_cString (text : List Byte) : parseHex (cString text) = parseHex text := by
  rw [parseHex_eq, parseHex_eq, skipBlanks_cString, skipMarker_cString, hexDigits_cString]

theorem configKey_cString {key : List Byte} (named : 0#8 ∉ key) (line : List Byte) :
    configKey (cString line) key = configKey line key := by
  have keyed : 0#8 ∉ key ++ [0x3d#8] := by simp [named]
  rw [Bool.eq_iff_iff, configKey_iff named, configKey_iff named]
  constructor
  · exact fun begins => begins.trans (List.takeWhile_prefix _)
  · rintro ⟨rest, rfl⟩
    rw [cString_append keyed]
    exact List.prefix_append _ _

/-- Behind a key the text goes on as it did before. -/
theorem cString_drop {line key : List Byte} (named : 0#8 ∉ key) (keyed : configKey line key = true) :
    (cString line).drop (key.length + 1) = cString (line.drop (key.length + 1)) := by
  obtain ⟨rest, rfl⟩ := (configKey_iff named).mp keyed
  have keyNamed : 0#8 ∉ key ++ [0x3d#8] := by simp [named]
  have length : key.length + 1 = (key ++ [0x3d#8]).length := by simp
  rw [cString_append keyNamed, length, List.drop_left, List.drop_left]

theorem configValue_cString {value : List Byte} (named : 0#8 ∉ value) (text : List Byte) :
    configValue (cString text) value = configValue text value := by
  induction value generalizing text with
  | nil => simp only [configValue, skipBlanks_cString, cString_headD]
  | cons letter value inductionHypothesis =>
    cases text with
    | nil => rfl
    | cons first text =>
      by_cases zero : first = 0#8
      · have letterNamed : ¬ 0#8 = letter := fun zero => named (zero ▸ List.mem_cons_self)
        simp [configValue, cString, zero, letterNamed]
      · have rest := inductionHypothesis (fun member => named (List.mem_cons_of_mem _ member)) text
        have goesOn : cString (first :: text) = first :: cString text := by simp [cString, zero]
        rw [goesOn, configValue, configValue, List.tail_cons, List.tail_cons, rest]
        rfl

theorem parseHotkey_cString (text : List Byte) (settings : Settings) :
    parseHotkey (cString text) settings = parseHotkey text settings := by
  have shift : 0#8 ∉ ascii "SHIFT+SPACE" := by decide
  have graph : 0#8 ∉ ascii "GRAPH+SPACE" := by decide
  have ctrl : 0#8 ∉ ascii "CTRL+SPACE" := by decide
  simp only [parseHotkey, skipBlanks_cString, configValue_cString shift, configValue_cString graph,
    configValue_cString ctrl]

theorem keyedHex_cString (key : List Byte) (offset : Nat) (named : 0#8 ∉ key)
    (behind : offset = key.length + 1) (line : List Byte) :
    keyedHex (cString line) key offset = keyedHex line key offset := by
  rw [keyedHex, keyedHex, configKey_cString named]
  split
  · rename_i keyed
    rw [behind, cString_drop named keyed, parseHex_cString]
  · rfl

/-- The parser reads a line up to its first zero byte. -/
theorem parseConfigLine_cString (line : List Byte) (settings : Settings) :
    parseConfigLine (cString line) settings = parseConfigLine line settings := by
  have dataPort := keyedHex_cString (ascii "DATA_PORT") 10 (by decide) (by decide)
  have statusPort := keyedHex_cString (ascii "STATUS_PORT") 12 (by decide) (by decide)
  have mode := keyedHex_cString (ascii "MODE") 5 (by decide) (by decide)
  have command := keyedHex_cString (ascii "COMMAND") 8 (by decide) (by decide)
  have timerCount := keyedHex_cString (ascii "TIMER_COUNT") 12 (by decide) (by decide)
  have hotkey : 0#8 ∉ ascii "HOTKEY" := by decide
  have value : ∀ text, configKey text (ascii "HOTKEY") = true →
      parseHotkey ((cString text).drop 7) settings = parseHotkey (text.drop 7) settings := by
    intro text keyed
    have length : 7 = (ascii "HOTKEY").length + 1 := by decide
    rw [length, cString_drop hotkey keyed, parseHotkey_cString]
  simp only [parseConfigLine, skipBlanks_cString, cString_headD, dataPort, statusPort, mode, command,
    timerCount, configKey_cString hotkey]
  by_cases keyed : configKey (skipBlanks line) (ascii "HOTKEY") = true
  · rw [value _ keyed]
  · rw [if_neg keyed, if_neg keyed]

end ImeBridge
