-- SUMMARY: `LabelParser`: how a label file is read, and when every label comes back as it was written.
import Mathlib.Algebra.Group.Int.Defs
import Mathlib.Data.List.AList
import AtomRust.Base.Fields

/-!
# The label file

A line names a class: its number, and its label. The parser takes the first two words of
the line, whatever else there is, so of a label of several words, such as `traffic light`,
only the first is kept.
-/

open Fields (fields fields_append_append fields_append_of_forall fields_append_of_forall'
  fields_concat fields_intercalate fields_of_forall_not)

/-! ## Text -/

namespace Text

/-- `char::is_whitespace`, the Unicode property `White_Space`. -/
def isWhitespace (c : Char) : Bool :=
  let n := c.toNat
  (9 ≤ n && n ≤ 13) || n = 0x20 || n = 0x85 || n = 0xA0 || n = 0x1680 ||
    (0x2000 ≤ n && n ≤ 0x200A) || n = 0x2028 || n = 0x2029 || n = 0x202F || n = 0x205F || n = 0x3000

/-- `str::split_whitespace`. -/
def splitWhitespace (line : List Char) : List (List Char) := fields isWhitespace line

/-- A line without the carriage return in front of its line feed. -/
def stripCr (line : List Char) : List Char :=
  if line.getLast? = some '\r' then line.dropLast else line

/-- The lines, from the pieces between line feeds. What comes after the last of them is a
line if it is not empty. -/
def linesOf : List (List Char) → List (List Char)
  | [] => []
  | [last] => if last = [] then [] else [last]
  | line :: rest => stripCr line :: linesOf rest

/-- `str::lines`. -/
def lines (contents : List Char) : List (List Char) := linesOf (contents.splitOn '\n')

/-- `str::parse::<i32>`. -/
def parseI32 (s : List Char) : Option ℤ :=
  match s with
  | '+' :: digits => parse false digits
  | '-' :: digits => parse true digits
  | digits => parse false digits
where
  parse (negative : Bool) (digits : List Char) : Option ℤ :=
    if digits ≠ [] ∧ digits.all Char.isDigit then
      let n : ℤ := Nat.ofDigitChars 10 digits 0
      let n := if negative then -n else n
      if -2 ^ 31 ≤ n ∧ n < 2 ^ 31 then some n else none
    else none

end Text

open Text (isWhitespace lines parseI32 splitWhitespace stripCr)

/-! ## The parser -/

abbrev LabelMap := AList fun _ : ℤ => String

structure LabelParser where
  labels : LabelMap

namespace Tflite

/-- `tflite::Error`, as far as it is made here. -/
inductive Error where
  | internalError (message : String)
  deriving DecidableEq

end Tflite

namespace LabelParser

/-- What a line says, if it is not skipped. -/
def parseLine (line : List Char) : Option (ℤ × String) :=
  match splitWhitespace line with
  | num :: className :: _ => (parseI32 num).map fun classNum => (classNum, String.ofList className)
  | _ => none

/-- The body of the loop. -/
def addLine (labels : LabelMap) (line : List Char) : LabelMap :=
  match parseLine line with
  | some (classNum, className) => labels.insert classNum className
  | none => labels

/-- `LabelParser::new`. `contents` is what `read_to_string` returns, with `none` for an
error. -/
def new (contents : Option String) : Except Tflite.Error LabelParser :=
  match contents with
  | none => .error (.internalError "failed to read label file")
  | some contents => .ok { labels := (lines contents.toList).foldl addLine ∅ }

def lookup (parser : LabelParser) (classNum : ℤ) : Option String := parser.labels.lookup classNum

def has (parser : LabelParser) (classNum : ℤ) : Bool := (parser.labels.lookup classNum).isSome

end LabelParser

/-! ## Lines and numbers -/

namespace Text
variable {line rest : List Char}

theorem lines_append (h : '\n' ∉ line) (rest : List Char) :
    lines (line ++ '\n' :: rest) = stripCr line :: lines rest := by
  rw [lines, List.splitOn_append_cons_self_of_not_mem h, lines]
  cases hsplit : rest.splitOn '\n' with
  | nil => exact absurd hsplit (List.splitOn_ne_nil '\n' rest)
  | cons last pieces => rfl

theorem lines_of_not_mem (h : '\n' ∉ line) : lines line = if line = [] then [] else [line] := by
  rw [lines, List.splitOn_eq_singleton h, linesOf]

/-- A carriage return is whitespace. -/
theorem splitWhitespace_stripCr (line : List Char) :
    splitWhitespace (stripCr line) = splitWhitespace line := by
  unfold stripCr
  split
  next h =>
    obtain ⟨line, rfl⟩ := List.getLast?_eq_some_iff.mp h
    rw [List.dropLast_concat, splitWhitespace, splitWhitespace, fields_concat rfl]
  next => rfl

theorem isWhitespace_of_isDigit {c : Char} (h : c.isDigit) : isWhitespace c = false := by
  have hrange : 48 ≤ c.toNat ∧ c.toNat ≤ 57 := by
    simpa [Char.isDigit, UInt32.le_iff_toNat_le] using h
  simp only [isWhitespace, Bool.or_eq_false_iff, Bool.and_eq_false_iff, decide_eq_false_iff_not]
  omega

theorem digits_of_parse {negative : Bool} {digits : List Char} {n : ℤ}
    (h : parseI32.parse negative digits = some n) :
    digits ≠ [] ∧ ∀ c ∈ digits, isWhitespace c = false := by
  unfold parseI32.parse at h
  split at h
  next hdigits =>
    exact ⟨hdigits.1, fun c hc => isWhitespace_of_isDigit (List.all_eq_true.mp hdigits.2 c hc)⟩
  next => cases h

/-- A number is a word. -/
theorem word_of_parseI32 {s : List Char} {n : ℤ} (h : parseI32 s = some n) :
    s ≠ [] ∧ ∀ c ∈ s, isWhitespace c = false := by
  have hsign : ∀ (sign : Char) (digits : List Char), isWhitespace sign = false →
      (∀ c ∈ digits, isWhitespace c = false) → ∀ c ∈ sign :: digits, isWhitespace c = false := by
    intro sign digits hsign hdigits c hc
    rcases List.mem_cons.mp hc with rfl | hc
    · exact hsign
    · exact hdigits c hc
  unfold parseI32 at h
  split at h
  next digits => exact ⟨by simp, hsign '+' digits rfl (digits_of_parse h).2⟩
  next digits => exact ⟨by simp, hsign '-' digits rfl (digits_of_parse h).2⟩
  next => exact digits_of_parse h

/-- The decimal text of a number. -/
def decimal (n : ℤ) : List Char :=
  if n < 0 then '-' :: Nat.toDigits 10 n.natAbs else Nat.toDigits 10 n.natAbs

theorem parse_toDigits {n : ℤ} (h : -2 ^ 31 ≤ n ∧ n < 2 ^ 31) :
    parseI32.parse (n < 0) (Nat.toDigits 10 n.natAbs) = some n := by
  have hdigits : Nat.toDigits 10 n.natAbs ≠ [] ∧ (Nat.toDigits 10 n.natAbs).all Char.isDigit :=
    ⟨Nat.toDigits_ne_nil, List.all_eq_true.mpr fun c hc =>
      Nat.isDigit_of_mem_toDigits (by decide) (by decide) hc⟩
  have hvalue : (if decide (n < 0) then -(n.natAbs : ℤ) else n.natAbs) = n := by
    by_cases hn : n < 0
    · rw [if_pos (decide_eq_true hn)]
      omega
    · rw [if_neg (by simpa using hn)]
      omega
  unfold parseI32.parse
  rw [if_pos hdigits, Nat.ofDigitChars_toDigits (by decide) (by decide)]
  simp only [hvalue]
  rw [if_pos h]

/-- The parser reads a number that is written in decimal. -/
theorem parseI32_decimal {n : ℤ} (h : -2 ^ 31 ≤ n ∧ n < 2 ^ 31) :
    parseI32 (decimal n) = some n := by
  have hparse := parse_toDigits h
  unfold decimal
  split
  next hn =>
    rw [decide_eq_true hn] at hparse
    exact hparse
  next hn =>
    rw [decide_eq_false hn] at hparse
    have hdigit : ∀ c ∈ Nat.toDigits 10 n.natAbs, c.isDigit := fun c hc =>
      Nat.isDigit_of_mem_toDigits (by decide) (by decide) hc
    unfold parseI32
    split
    next digits heq => exact absurd (hdigit '+' (heq ▸ List.mem_cons_self)) (by decide)
    next digits heq => exact absurd (hdigit '-' (heq ▸ List.mem_cons_self)) (by decide)
    next => exact hparse

end Text

/-! ## Layouts -/

/-- A line that names a class, with whitespace before, between and behind. -/
structure LabelEntry where
  num : ℤ
  numeral : List Char
  words : List (List Char)
  before : List Char
  gap : List Char
  after : List Char
  parses : parseI32 numeral = some num
  words_ne_nil : words ≠ []
  word_ne_nil : ∀ w ∈ words, w ≠ []
  word : ∀ w ∈ words, ∀ c ∈ w, isWhitespace c = false
  gap_ne_nil : gap ≠ []
  whitespace : ∀ c ∈ before ++ gap ++ after, isWhitespace c ∧ c ≠ '\n'

namespace LabelEntry

/-- The words, separated by single spaces. -/
def label (e : LabelEntry) : List Char := [' '].intercalate e.words

def text (e : LabelEntry) : List Char := e.before ++ e.numeral ++ e.gap ++ e.label ++ e.after

def firstWord (e : LabelEntry) : List Char := e.words.head e.words_ne_nil

end LabelEntry

/-- A line of the file: an entry, or one that has no number in front of a label. -/
inductive LabelLine where
  | entry (e : LabelEntry)
  | other (text : List Char) (newline : '\n' ∉ text)
      (malformed : ∀ num className rest,
        splitWhitespace text = num :: className :: rest → parseI32 num = none)

inductive LineEnding where
  | lf
  | crlf

def LineEnding.text : LineEnding → List Char
  | .lf => ['\n']
  | .crlf => ['\r', '\n']

namespace LabelLine

def text : LabelLine → List Char
  | .entry e => e.text
  | .other text _ _ => text

def entry? : LabelLine → Option LabelEntry
  | .entry e => some e
  | .other .. => none

end LabelLine

/-- A label file: lines with their ends, and what comes after the last end. No number is
given twice. -/
structure LabelFile where
  lines : List (LabelLine × LineEnding)
  last : LabelLine
  nodup : (((lines.map Prod.fst ++ [last]).filterMap LabelLine.entry?).map LabelEntry.num).Nodup

namespace LabelFile

def entries (file : LabelFile) : List LabelEntry :=
  (file.lines.map Prod.fst ++ [file.last]).filterMap LabelLine.entry?

/-- Lines with their ends. -/
def terminated (lines : List (LabelLine × LineEnding)) : List Char :=
  lines.flatMap fun (line, ending) => line.text ++ ending.text

/-- The contents of the file. -/
def contents (file : LabelFile) : List Char := terminated file.lines ++ file.last.text

end LabelFile

/-- The file comes back as it was written. -/
structure RoundTrips (file : LabelFile) (parser : LabelParser) : Prop where
  found : ∀ e ∈ file.entries, parser.lookup e.num = some (String.ofList e.label) ∧ parser.has e.num
  others : ∀ n, (∀ e ∈ file.entries, e.num ≠ n) → parser.lookup n = none ∧ parser.has n = false

/-! ## What is read of an entry -/

namespace LabelEntry

theorem splitWhitespace_label (e : LabelEntry) : splitWhitespace e.label = e.words := by
  rw [splitWhitespace, label, fields_intercalate rfl e.word]
  exact List.filter_eq_self.mpr fun w hw => decide_eq_true (e.word_ne_nil w hw)

theorem splitWhitespace_text (e : LabelEntry) :
    splitWhitespace e.text = e.numeral :: e.words := by
  have hwhitespace : ∀ c ∈ e.before ++ e.gap ++ e.after, isWhitespace c := fun c hc =>
    (e.whitespace c hc).1
  simp only [List.mem_append] at hwhitespace
  obtain ⟨hne, hnumeral⟩ := Text.word_of_parseI32 e.parses
  have hlabel := e.splitWhitespace_label
  unfold splitWhitespace at hlabel ⊢
  rw [text, List.append_assoc, List.append_assoc, List.append_assoc,
    fields_append_of_forall fun c hc => hwhitespace c (.inl (.inl hc)),
    fields_append_append e.gap_ne_nil fun c hc => hwhitespace c (.inl (.inr hc)),
    fields_append_of_forall' fun c hc => hwhitespace c (.inr hc), hlabel,
    fields_of_forall_not hnumeral hne, List.singleton_append]

/-- Only the first word of the label is read. -/
theorem parseLine_text (e : LabelEntry) :
    LabelParser.parseLine e.text = some (e.num, String.ofList e.firstWord) := by
  unfold LabelParser.parseLine
  rw [e.splitWhitespace_text]
  cases hwords : e.words with
  | nil => exact absurd hwords e.words_ne_nil
  | cons w ws =>
      have hfirst : e.firstWord = w := by simp [firstWord, hwords]
      simp only [e.parses, Option.map_some, hfirst]

theorem newline_not_mem_text (e : LabelEntry) : '\n' ∉ e.text := by
  have hwords : '\n' ∉ e.label := by
    intro h
    rcases Fields.of_mem_intercalate h with h | ⟨w, hw, h⟩
    · simp at h
    · exact absurd (e.word w hw _ h) (by decide)
  have hnumeral : '\n' ∉ e.numeral := fun h =>
    absurd ((Text.word_of_parseI32 e.parses).2 _ h) (by decide)
  have hspace : ∀ c ∈ e.before ++ e.gap ++ e.after, c ≠ '\n' := fun c hc => (e.whitespace c hc).2
  simp only [List.mem_append] at hspace
  simp only [text, List.mem_append, not_or]
  exact ⟨⟨⟨⟨fun h => hspace _ (.inl (.inl h)) rfl, hnumeral⟩,
    fun h => hspace _ (.inl (.inr h)) rfl⟩, hwords⟩, fun h => hspace _ (.inr h) rfl⟩

/-- The first word is the label just if it is the only word. -/
theorem firstWord_eq_label_iff (e : LabelEntry) :
    e.firstWord = e.label ↔ e.words.length = 1 := by
  cases hwords : e.words with
  | nil => exact absurd hwords e.words_ne_nil
  | cons w ws =>
      have hfirst : e.firstWord = w := by simp [firstWord, hwords]
      rw [hfirst, label, hwords]
      cases ws with
      | nil => simp
      | cons v ws =>
          rw [List.intercalate_cons_cons]
          refine iff_of_false (fun h => ?_) (by simp)
          have hlength := congrArg List.length h
          simp at hlength

end LabelEntry

namespace LabelLine

theorem newline_not_mem_text (line : LabelLine) : '\n' ∉ line.text := by
  cases line with
  | entry e => exact e.newline_not_mem_text
  | other text newline malformed => exact newline

/-- What is read of a line. -/
def reads (line : LabelLine) : Option (ℤ × String) :=
  line.entry?.map fun e => (e.num, String.ofList e.firstWord)

theorem parseLine_text (line : LabelLine) : LabelParser.parseLine line.text = line.reads := by
  cases line with
  | entry e => exact e.parseLine_text
  | other text newline malformed =>
      unfold LabelParser.parseLine
      split
      next num className rest h =>
        rw [malformed num className rest h]
        rfl
      next => rfl

end LabelLine

/-! ## The map that is read -/

namespace LabelParser

theorem parseLine_congr {line line' : List Char}
    (h : splitWhitespace line = splitWhitespace line') : parseLine line = parseLine line' := by
  unfold parseLine
  rw [h]

/-- The map of some numbers and labels, the later ones over the earlier. -/
def insertAll (labels : LabelMap) (pairs : List (ℤ × String)) : LabelMap :=
  pairs.foldl (fun labels e => labels.insert e.1 e.2) labels

theorem foldl_addLine (labels : LabelMap) (lines : List (List Char)) :
    lines.foldl addLine labels = insertAll labels (lines.filterMap parseLine) := by
  induction lines generalizing labels with
  | nil => rfl
  | cons line lines ih =>
      rw [List.foldl_cons, ih, addLine]
      cases hline : parseLine line with
      | none => rw [List.filterMap_cons_none hline]
      | some e => rw [List.filterMap_cons_some hline]; rfl

theorem lookup_insertAll {pairs : List (ℤ × String)} (h : (pairs.map Prod.fst).Nodup) (n : ℤ)
    (className : String) :
    (insertAll ∅ pairs).lookup n = some className ↔ (n, className) ∈ pairs := by
  induction pairs using List.reverseRecOn with
  | nil => simp [insertAll]
  | append_singleton pairs e ih =>
      rw [List.map_append, List.nodup_append] at h
      have hlast : insertAll ∅ (pairs ++ [e]) = (insertAll ∅ pairs).insert e.1 e.2 :=
        List.foldl_concat ..
      rw [hlast, List.mem_append, List.mem_singleton]
      by_cases hn : n = e.1
      · subst hn
        have hnot : (e.1, className) ∉ pairs := by
          intro hmem
          have hfst : e.1 ∈ pairs.map Prod.fst := List.mem_map.mpr ⟨(e.1, className), hmem, rfl⟩
          exact h.2.2 e.1 hfst e.1 (by simp) rfl
        rw [AList.lookup_insert]
        simp [hnot, Prod.ext_iff, eq_comm]
      · rw [AList.lookup_insert_ne hn, ih h.1]
        simp [Prod.ext_iff, hn]

end LabelParser

namespace LabelFile

theorem parseLine_lines (ls : List (LabelLine × LineEnding)) (last : LabelLine) :
    (Text.lines (terminated ls ++ last.text)).filterMap LabelParser.parseLine =
      (ls.map Prod.fst ++ [last]).filterMap LabelLine.reads := by
  induction ls with
  | nil =>
      have hlast := last.parseLine_text
      rw [terminated, List.flatMap_nil, List.nil_append,
        Text.lines_of_not_mem last.newline_not_mem_text]
      split
      next h =>
        rw [h] at hlast
        simp [← hlast, LabelParser.parseLine, splitWhitespace]
      next =>
        simp only [List.map_nil, List.nil_append, List.filterMap_cons, List.filterMap_nil, hlast]
  | cons e ls ih =>
      obtain ⟨line, ending⟩ := e
      have hline : ∀ text, splitWhitespace text = splitWhitespace line.text → '\n' ∉ text →
          (Text.lines (text ++ '\n' :: (terminated ls ++ last.text))).filterMap
              LabelParser.parseLine =
            ((line :: ls.map Prod.fst) ++ [last]).filterMap LabelLine.reads := by
        intro text htext hnewline
        have hparse : LabelParser.parseLine (stripCr text) = line.reads := by
          rw [LabelParser.parseLine_congr ((Text.splitWhitespace_stripCr text).trans htext),
            line.parseLine_text]
        rw [Text.lines_append hnewline, List.filterMap_cons, hparse, ih, List.cons_append,
          List.filterMap_cons]
      cases ending with
      | lf =>
          have h := hline line.text rfl line.newline_not_mem_text
          simpa [terminated, LineEnding.text] using h
      | crlf =>
          have hcr : splitWhitespace (line.text ++ ['\r']) = splitWhitespace line.text :=
            fields_concat rfl _
          have h := hline (line.text ++ ['\r']) hcr (by simp [line.newline_not_mem_text])
          simpa [terminated, LineEnding.text] using h

/-- The parser that is made of the file. -/
def parser (file : LabelFile) : LabelParser where
  labels := LabelParser.insertAll ∅
    (file.entries.map fun e => (e.num, String.ofList e.firstWord))

theorem new_contents (file : LabelFile) :
    LabelParser.new (some (String.ofList file.contents)) = .ok file.parser := by
  have hreads : (file.lines.map Prod.fst ++ [file.last]).filterMap LabelLine.reads =
      file.entries.map fun e => (e.num, String.ofList e.firstWord) := by
    rw [entries, List.map_filterMap]
    rfl
  simp only [LabelParser.new, String.toList_ofList, LabelParser.foldl_addLine, contents,
    parseLine_lines, hreads, parser]

theorem lookup_parser_iff (file : LabelFile) (n : ℤ) (className : String) :
    file.parser.lookup n = some className ↔
      ∃ e ∈ file.entries, e.num = n ∧ String.ofList e.firstWord = className := by
  have hnodup : ((file.entries.map fun e => (e.num, String.ofList e.firstWord)).map
      Prod.fst).Nodup := by
    rw [List.map_map]
    exact file.nodup
  rw [LabelParser.lookup, parser, LabelParser.lookup_insertAll hnodup]
  simp

theorem has_eq (parser : LabelParser) (n : ℤ) : parser.has n = (parser.lookup n).isSome := rfl

/-- A label file can be read, and comes back as it was written if and only if every label
is a single word. -/
theorem round_trips_iff (file : LabelFile) :
    ∃ parser, LabelParser.new (some (String.ofList file.contents)) = .ok parser ∧
      (RoundTrips file parser ↔ ∀ e ∈ file.entries, e.words.length = 1) := by
  refine ⟨file.parser, file.new_contents, ?_⟩
  have hentry : ∀ e ∈ file.entries,
      file.parser.lookup e.num = some (String.ofList e.firstWord) := fun e he =>
    (file.lookup_parser_iff _ _).mpr ⟨e, he, rfl, rfl⟩
  constructor
  · intro h e he
    have hfound := (h.found e he).1
    rw [hentry e he] at hfound
    apply e.firstWord_eq_label_iff.mp
    exact String.ofList_injective (Option.some.inj hfound)
  · intro h
    refine ⟨fun e he => ?_, fun n hn => ?_⟩
    · have hfound := hentry e he
      rw [e.firstWord_eq_label_iff.mpr (h e he)] at hfound
      exact ⟨hfound, by rw [has_eq, hfound]; rfl⟩
    · have hnone : file.parser.lookup n = none := by
        rw [Option.eq_none_iff_forall_ne_some]
        intro className hsome
        obtain ⟨e, he, hnum, -⟩ := (file.lookup_parser_iff n className).mp hsome
        exact hn e he hnum
      exact ⟨hnone, by rw [has_eq, hnone]; rfl⟩

/-- `9  traffic light`, as in the file for the COCO classes. -/
def trafficLight : LabelEntry where
  num := 9
  numeral := Text.decimal 9
  words := [['t', 'r', 'a', 'f', 'f', 'i', 'c'], ['l', 'i', 'g', 'h', 't']]
  before := []
  gap := [' ', ' ']
  after := []
  parses := Text.parseI32_decimal (by decide)
  words_ne_nil := by simp
  word_ne_nil := by simp
  word := by simp [isWhitespace]
  gap_ne_nil := by simp
  whitespace := by simp [isWhitespace]

def trafficFile : LabelFile where
  lines := []
  last := .entry trafficLight
  nodup := by decide

theorem not_round_trips_trafficFile :
    ∃ parser, LabelParser.new (some (String.ofList trafficFile.contents)) = .ok parser ∧
      parser.lookup 9 = some (String.ofList ['t', 'r', 'a', 'f', 'f', 'i', 'c']) ∧
      ¬ RoundTrips trafficFile parser := by
  have hlookup : trafficFile.parser.lookup 9 =
      some (String.ofList ['t', 'r', 'a', 'f', 'f', 'i', 'c']) := rfl
  refine ⟨trafficFile.parser, trafficFile.new_contents, hlookup, fun h => ?_⟩
  have hfound := (h.found trafficLight List.mem_cons_self).1
  rw [show trafficLight.num = 9 from rfl, hlookup] at hfound
  exact absurd (String.ofList_injective (Option.some.inj hfound)) (by decide)

end LabelFile
