/-
# The tests are their patterns

Four kinds of statement are told by a pattern that occurs in the line, and so are numbers, names
and the beginning of a call.  Each of these tests passes exactly the texts in which its pattern
matches.

* `isIn_start`: a pattern that begins at the start of the text is looked for there only;
* `isIn_plus_append`: one or more characters of a class, somewhere in the text, are no more than
  one of them.
-/
import Highlighter.Proofs.PatternRules

namespace Highlighter

open Pattern (literal one star plus any blank word path char start finish boundary)
open Template (leave)

/-! ## 1. Where a pattern matches -/

namespace Text

/-- Whether a test passes some end of a text. -/
def anywhere (test : Text → Bool) : Text → Bool
  | [] => test []
  | c :: cs => test (c :: cs) || anywhere test cs

variable {β : Type} {test : Char → Bool} {rule : Text → Option β}

theorem isSome_repeated? (greedy : Bool) (t : Text) : (repeated? greedy test rule t).isSome =
    ((rule t).isSome || (single? test (repeated? greedy test rule) t).isSome) := by
  cases t with
  | nil => simp [repeated?, single?]
  | cons c cs =>
    cases greedy <;> cases hc : test c <;>
      simp [repeated?, single?, hc, Option.isSome_or, Bool.or_comm]

/-- One or more characters of a class, somewhere in a text, are no more than one of them. -/
theorem anywhere_single? (greedy : Bool) (t : Text) :
    anywhere (fun u => (single? test (repeated? greedy test rule) u).isSome) t =
      anywhere (fun u => (single? test rule u).isSome) t := by
  induction t with
  | nil => rfl
  | cons c cs ih =>
    -- where one more character could be read, it is a match of its own
    have hmore (h : (single? test (repeated? greedy test rule) cs).isSome = true) :
        anywhere (fun u => (single? test (repeated? greedy test rule) u).isSome) cs = true := by
      cases cs <;> simp_all [anywhere]
    rw [anywhere, anywhere, ← ih]
    cases hc : test c with
    | false => simp [single?, hc]
    | true =>
      cases h : (single? test (repeated? greedy test rule) cs).isSome <;>
        simp_all [single?, isSome_repeated?]

/-- Up to a character somewhere on the first line. -/
theorem isSome_upToLast? {last : Char} (h : ∀ t, (rule t).isSome = true) (t : Text) :
    (upToLast? last rule t).isSome = (t.takeWhile (· != '\n')).contains last := by
  induction t with
  | nil => rfl
  | cons c cs ih =>
    by_cases hc : c = '\n'
    · simp [upToLast?, hc]
    · rw [List.takeWhile_cons_of_pos (by simpa using hc), List.contains_cons, ← ih, upToLast?,
        if_neg hc]
      cases upToLast? last rule cs with
      | some r => simp
      | none =>
        by_cases hlast : c = last
        · simp [hlast, h]
        · simp [hlast, Ne.symm hlast]

/-- Up to a character at the end of the text. -/
theorem isSome_upToLast?_atEnd {last : Char} (h : ∀ t, (rule t).isSome = t.isEmpty) (t : Text) :
    (upToLast? last rule t).isSome = (oneLine t && (endingIn? last t).isSome) := by
  induction t with
  | nil => rfl
  | cons c cs ih =>
    by_cases hc : c = '\n'
    · simp [upToLast?, oneLine, hc]
    · have hline : oneLine (c :: cs) = oneLine cs := by simp [oneLine, hc]
      rw [hline, upToLast?, if_neg hc]
      cases cs with
      | nil => by_cases hend : c = last <;> simp [upToLast?, endingIn?, oneLine, hend, h]
      | cons d ds =>
        rw [endingIn?_cons_cons, Option.isSome_map, ← ih]
        cases upToLast? last rule (d :: ds) with
        | some r => rfl
        | none => by_cases hend : c = last <;> simp [hend, h]

end Text

namespace Pattern

variable {p : Pattern}

theorem isSome_skip (p : Pattern) (c : Cursor) :
    ((Template.skip p).read leave c).isSome = (p.read leave c).isSome := by
  rw [Template.skip, Template.read, Option.isSome_map]

theorem isIn_start (p : Pattern) (text : Text) :
    (start ++ p).isIn text = (p.read leave ⟨none, text⟩).isSome := by
  rw [isIn, Template.tiling?_of_tied fun c t => rfl, isSome_skip, read_append]
  simp [read]

theorem isIn_eq_anywhere {scan : Text → Option (Text × Tiling)} (h : p.read leave = onRest scan)
    (text : Text) : p.isIn text = text.anywhere fun t => (scan t).isSome := by
  have hsearch (before : Option Char) (t : Text) : ((Template.skip p).search before t).isSome =
      t.anywhere fun t => (scan t).isSome := by
    induction t generalizing before with
    | nil => rw [Template.search, isSome_skip, h]; rfl
    | cons c cs ih =>
      rw [Template.search, Option.isSome_or, Option.isSome_map, ih, isSome_skip, h]
      rfl
  exact hsearch none text

theorem isIn_plus_append {test : Char → Bool} {scan : Text → Option (Text × Tiling)}
    (h : p.read leave = onRest scan) (text : Text) :
    (plus (char test) ++ p).isIn text =
      text.anywhere fun t => (Text.single? test scan t).isSome := by
  have hread : (plus (char test) ++ p).read leave = onRest fun t =>
      (((Text.single? test (Text.repeated? true test scan) t).map joined).map joined) := by
    rw [read_append, h, read_plus_many]
    rfl
  rw [isIn_eq_anywhere hread]
  simp only [Option.isSome_map]
  exact Text.anywhere_single? true text

/-- The end of the text. -/
def ended? (t : Text) : Option (Text × Tiling) := if t.isEmpty then some ([], .empty) else none

theorem read_finish : finish.read leave = onRest ended? := by
  refine eq_onRest fun _ t => ?_
  cases t <;> rfl

theorem isSome_ended? (t : Text) : (ended? t).isSome = t.isEmpty := by
  cases t <;> rfl

/-- Characters of a class, one at least, at the end of the text. -/
def endingRun? (test : Char → Bool) (t : Text) : Option (Text × Text × Tiling) :=
  (Text.run? test t).bind fun r => (ended? r.2).map (r.1, ·)

theorem read_endingRun (test : Char → Bool) :
    (plus (char test)).read (onRest ended?) = onRest (endingRun? test) := by
  have hended : Text.Refuses test ended? := fun c cs _ => rfl
  exact read_plus hended.inherits

theorem isSome_endingRun? (test : Char → Bool) (t : Text) :
    (endingRun? test t).isSome = (!t.isEmpty && t.all test) := by
  cases t with
  | nil => rfl
  | cons c cs =>
    cases hc : test c with
    | false => simp [endingRun?, Text.run?, hc]
    | true =>
      have hrest : (cs.dropWhile test).isEmpty = cs.all test := by
        rw [Bool.eq_iff_iff, List.isEmpty_iff, List.dropWhile_eq_nil_iff, List.all_eq_true]
      simp [endingRun?, Text.run?, hc, isSome_ended?, hrest]

end Pattern

/-! ## 2. Hints -/

namespace Statement

namespace Assignment

/-- `\w+\s=\s` -/
def hint : Pattern := plus word ++ (blank ++ (one '=' ++ blank))

/-- One blank, an equals sign and one blank. -/
def spacedSign : Text → Bool
  | b :: c :: d :: _ => isBlank b && c == '=' && isBlank d
  | _ => false

theorem hintedBy_cons (a : Char) (t : Text) :
    hintedBy (a :: t) = ((isWord a && spacedSign t) || hintedBy t) := by
  rcases t with _ | ⟨b, _ | ⟨c, _ | ⟨d, rest⟩⟩⟩
  · simp [hintedBy, spacedSign]
  · simp [hintedBy, spacedSign]
  · simp [hintedBy, spacedSign]
  · simp [hintedBy, spacedSign, Bool.and_assoc]

/-- **The hint at an assignment** is its pattern. -/
theorem hintedBy_eq_hint : hintedBy = hint.isIn := by
  funext line
  let scan (t : Text) : Option (Text × Tiling) :=
    (Text.single? isBlank (fun u => (Text.single? (· == '=')
      (Text.single? isBlank fun v => some (.gap v .empty)) u).map joined) t).map joined
  have hread : (blank ++ (one '=' ++ blank)).read leave = onRest scan := by
    have hblank : blank.read leave =
        onRest (Text.single? isBlank fun v => some (.gap v .empty)) := by
      rw [blank, Template.leave_eq, Pattern.read_char]
    exact Pattern.read_char_append (Pattern.read_char_append hblank)
  have hscan (t : Text) : (scan t).isSome = spacedSign t := by
    rcases t with _ | ⟨b, _ | ⟨c, _ | ⟨d, rest⟩⟩⟩
    · rfl
    · simp [scan, Text.single?, spacedSign]
    · simp [scan, Text.single?, spacedSign]
    · cases hb : isBlank b <;> by_cases hc : c = '=' <;> cases hd : isBlank d <;>
        simp [scan, Text.single?, spacedSign, hb, hc, hd]
  rw [hint, word, Pattern.isIn_plus_append hread]
  induction line with
  | nil => rfl
  | cons a t ih =>
    rw [hintedBy_cons, Text.anywhere, ← ih]
    cases ha : isWord a <;> simp [Text.single?, ha, hscan]

end Assignment

namespace Conditional

/-- `^if\b.*:$` -/
def hint : Pattern := start ++ (literal ifWord ++ (boundary ++ ((star any ++ one ':') ++ finish)))

/-- **The hint at a conditional** is its pattern. -/
theorem hintedBy_eq_hint : hintedBy = hint.isIn := by
  funext line
  have hcolon : ((star any ++ one ':') ++ finish).read leave = onRest fun t =>
      (Text.upToLast? ':' Pattern.ended? t).map joined := by
    rw [Pattern.read_append, Pattern.read_finish, Pattern.read_upToLast (by decide)]
    rfl
  rw [hint, Pattern.isIn_start, Pattern.read_append, Option.isSome_map, Pattern.read_literal_cursor,
    hintedBy]
  cases hword : Text.after? ifWord line with
  | none => rfl
  | some rest =>
    have hbefore : ifWord.getLast?.or none = some 'f' := rfl
    have hletter : isWord 'f' = true := by decide
    rw [Option.bind_some, Option.isSome_map, Pattern.read_append, hcolon, hbefore]
    cases hrest : rest.head?.any isWord <;>
      simp [Pattern.read, Pattern.isBoundary, hrest, hletter, onRest,
        Text.isSome_upToLast?_atEnd Pattern.isSome_ended?]

end Conditional

namespace Call

/-- `^\w+(\.\w+)*\(.*\)` -/
def hint : Pattern := start ++ (path ++ (one '(' ++ (star any ++ one ')')))

/-- **The hint at a call statement** is its pattern. -/
theorem hintedBy_eq_hint : hintedBy = hint.isIn := by
  funext line
  have harguments : Text.Refuses isWordOrDot
      (Pattern.parenthesised? fun t => some (Tiling.gap t .empty)) :=
    Pattern.refuses_parenthesised? (by decide)
  rw [hint, Pattern.isIn_start, Template.leave_eq,
    Pattern.read_path_append Pattern.read_parenthesised harguments]
  simp only [onRest, hintedBy, head?, Option.bind_eq_bind]
  cases hpath : Name.path? line with
  | none => rfl
  | some r =>
    cases hparen : Text.after? ['('] r.2 with
    | none => simp [Pattern.parenthesised?, hparen]
    | some inner => simp [Pattern.parenthesised?, hparen, Text.isSome_upToLast?]

/-- `^\w+(?:\.\w+)*\(` -/
def opening : Template := .skip start ++ .group (path ++ one '(')

/-- **The beginning of a call** is found by its pattern. -/
theorem head?_eq_opening (text : Text) : opening.tiling? text =
    (head? text).map fun r => .piece (r.1 ++ ['(']) (.gap r.2 .empty) := by
  have hparen : Text.Refuses isWordOrDot fun t => (Text.after? ['('] t).bind fun rest =>
      (some (Tiling.gap rest .empty)).map (['('], ·) := by
    intro c cs hc
    simp only [Text.after?_eq_none hc (by decide : isWordOrDot '(' = false), Option.bind_none]
  rw [opening, Template.tiling?_start, Template.leave_eq,
    Template.read_group (Pattern.read_path_append (Pattern.read_one '(') hparen)]
  simp only [onRest, head?, Option.bind_eq_bind, Option.map_eq_bind, Option.bind_assoc,
    Option.bind_some, Option.pure_def, Function.comp_def]

end Call

end Statement

namespace Listing

/-- `[^,]+,` -/
def hint : Pattern := plus (char (· != ',')) ++ one ','

/-- **The hint at a list** is its pattern. -/
theorem hintedBy_eq_hint : hintedBy = hint.isIn := by
  funext line
  have hread : (one ',').read leave =
      onRest (Text.single? (· == ',') fun t => some (.gap t .empty)) := by
    rw [one, Template.leave_eq, Pattern.read_char]
  rw [hint, Pattern.isIn_plus_append hread]
  induction line with
  | nil => rfl
  | cons a t ih =>
    rw [Text.anywhere, ← ih]
    cases t with
    | nil => simp [hintedBy, Text.single?]
    | cons b rest =>
      by_cases ha : a = ',' <;> by_cases hb : b = ',' <;> simp [hintedBy, Text.single?, ha, hb]

end Listing

namespace Statement

/-- The pattern that hints at a kind, if there is one: the others are hinted at by words. -/
def hint? : Statement → Option Pattern
  | assignment => some Assignment.hint
  | conditional => some Conditional.hint
  | call => some Call.hint
  | listing => some Listing.hint
  | imports | definition | comparison | other => none

/-- **The hints are their patterns**: a line hints at a kind if the pattern matches in it. -/
theorem hintedBy_eq_of_hint? {kind : Statement} {p : Pattern} (h : kind.hint? = some p)
    (line : Text) : kind.hintedBy line = p.isIn line := by
  cases kind with
  | assignment =>
    rw [← Option.some.inj h]
    exact congrFun Assignment.hintedBy_eq_hint line
  | conditional =>
    rw [← Option.some.inj h]
    exact congrFun Conditional.hintedBy_eq_hint line
  | call =>
    rw [← Option.some.inj h]
    exact congrFun Call.hintedBy_eq_hint line
  | listing =>
    rw [← Option.some.inj h]
    exact congrFun Listing.hintedBy_eq_hint line
  | imports | definition | comparison | other => exact absurd h (by simp [hint?])

end Statement

/-! ## 3. Lexemes -/

namespace Number

/-- `^-?[0-9]+(\.[0-9]+)?$` -/
def pattern : Pattern :=
  start ++ ((one '-').optional ++ (plus (char Char.isDigit) ++
    ((one '.' ++ plus (char Char.isDigit)).optional ++ finish)))

/-- The end of the text, with or without a fraction before it. -/
def fraction? (t : Text) : Option (Text × Tiling) :=
  ((((Text.after? ['.'] t).bind fun rest =>
    (Pattern.endingRun? Char.isDigit rest).map (['.'], ·)).map joined).or
      ((Pattern.ended? t).map ([], ·))).map joined

theorem read_fraction : ((one '.' ++ plus (char Char.isDigit)).optional ++ finish).read leave =
    onRest fraction? := by
  have hdigits : (one '.' ++ plus (char Char.isDigit)).read (onRest Pattern.ended?) =
      onRest fun t => ((Text.after? ['.'] t).bind fun rest =>
        (Pattern.endingRun? Char.isDigit rest).map (['.'], ·)).map joined := by
    rw [Pattern.read_append, Pattern.read_endingRun, Pattern.read_one]
    rfl
  rw [Pattern.read_append, Pattern.read_finish, Pattern.read_optional hdigits]
  rfl

theorem isSome_fraction? (t : Text) : (fraction? t).isSome =
    ((Text.after? ['.'] t).any isDigits || t.isEmpty) := by
  rw [fraction?, Option.isSome_map, Option.isSome_or, Option.isSome_map, Option.isSome_map,
    Pattern.isSome_ended?]
  cases Text.after? ['.'] t with
  | none => rfl
  | some rest => simp [Pattern.isSome_endingRun?, isDigits]

theorem refuses_fraction? : Text.Refuses Char.isDigit fraction? := by
  intro c cs hc
  rw [fraction?, Text.after?_eq_none hc (by decide)]
  rfl

/-- Digits at the end of the text, or before a fraction there. -/
def unsigned? (t : Text) : Option (Text × Tiling) :=
  ((Text.run? Char.isDigit t).bind fun r => (fraction? r.2).map (r.1, ·)).map joined

theorem read_unsigned : (plus (char Char.isDigit) ++
    ((one '.' ++ plus (char Char.isDigit)).optional ++ finish)).read leave = onRest unsigned? := by
  rw [Pattern.read_append, read_fraction, Pattern.read_plus refuses_fraction?.inherits]
  rfl

theorem isSome_unsigned? (t : Text) : (unsigned? t).isSome = isUnsigned t := by
  have htext := List.takeWhile_append_dropWhile (p := Char.isDigit) (l := t)
  rw [unsigned?, Option.isSome_map, isUnsigned, Text.run?]
  cases htake : (t.takeWhile Char.isDigit).isEmpty with
  | true =>
    rw [List.isEmpty_iff.mp htake, List.nil_append] at htext
    cases hdrop : t.dropWhile Char.isDigit with
    | nil =>
      rw [hdrop] at htext
      rw [← htext]
      rfl
    | cons c cs => simp [isDigits, htake]
  | false =>
    have hdigits : isDigits (t.takeWhile Char.isDigit) = true := by simp [isDigits, htake]
    cases hdrop : t.dropWhile Char.isDigit with
    | nil =>
      rw [hdrop, List.append_nil] at htext
      rw [htext] at htake
      simp [isSome_fraction?, htake]
    | cons c cs =>
      by_cases hc : c = '.'
      · simp [isSome_fraction?, Text.after?, hc, hdigits]
      · simp [isSome_fraction?, Text.after?, hc, Ne.symm hc]

/-- **Numbers** are told by their pattern. -/
theorem isNumber_eq_pattern : isNumber = pattern.isIn := by
  funext text
  rw [pattern, Pattern.isIn_start, Pattern.read_append, read_unsigned,
    Pattern.read_optional (Pattern.read_one '-')]
  simp only [onRest, Option.isSome_map, Option.isSome_or, isSome_unsigned?]
  cases text with
  | nil => rfl
  | cons c cs =>
    by_cases hc : c = '-'
    · subst hc
      have hsign : isUnsigned ('-' :: cs) = false := rfl
      simp [isNumber, Text.after?, isSome_unsigned?, hsign]
    · have hnumber : isNumber (c :: cs) = isUnsigned (c :: cs) := by
        unfold isNumber
        split
        · rename_i heq
          exact absurd (List.cons.inj heq).1 hc
        · rfl
      simp [hnumber, Text.after?, Ne.symm hc]

end Number

namespace Name

/-- `^\w*\.?\w+$` -/
def pattern : Pattern := start ++ (star word ++ ((one '.').optional ++ (plus word ++ finish)))

/-- A name at the end of the text, with a dot in front or without. -/
def dotted? (t : Text) : Option (Text × Tiling) :=
  (((Text.after? ['.'] t).bind fun rest =>
    ((Pattern.endingRun? isWord rest).map joined).map (['.'], ·)).or
      (((Pattern.endingRun? isWord t).map joined).map ([], ·))).map joined

theorem read_dotted :
    ((one '.').optional ++ (plus word ++ finish)).read leave = onRest dotted? := by
  have hname : (plus word ++ finish).read leave =
      onRest fun t => (Pattern.endingRun? isWord t).map joined := by
    rw [Pattern.read_append, Pattern.read_finish, word, Pattern.read_endingRun]
    rfl
  rw [Pattern.read_append, hname, Pattern.read_optional (Pattern.read_one '.')]
  rfl

theorem isSome_dotted? (t : Text) :
    (dotted? t).isSome = ((Text.after? ['.'] t).any isName || isName t) := by
  rw [dotted?, Option.isSome_map, Option.isSome_or]
  cases Text.after? ['.'] t <;> simp [Pattern.isSome_endingRun?, isName]

theorem isField_cons (c : Char) (cs : Text) : isField (c :: cs) =
    ((dotted? (c :: cs)).isSome || (isWord c && isField cs)) := by
  rw [isSome_dotted?]
  cases hc : isWord c with
  | false =>
    by_cases hdot : c = '.'
    · subst hdot
      simp [isField, hc, Text.after?, isName]
    · simp [isField, hc, hdot, Ne.symm hdot, Text.after?, isName]
  | true =>
    rw [Text.after?_eq_none hc (by decide)]
    cases hdrop : cs.dropWhile isWord with
    | nil =>
      have hall : cs.all isWord = true := List.all_eq_true.mpr (List.dropWhile_eq_nil_iff.mp hdrop)
      simp [isField, hc, hdrop, isName, hall]
    | cons d ds =>
      have hall : cs.all isWord = false := by
        rw [Bool.eq_false_iff]
        intro hall
        rw [List.dropWhile_eq_nil_iff.mpr (List.all_eq_true.mp hall)] at hdrop
        exact absurd hdrop (by simp)
      simp [isField, hc, hdrop, isName, hall]

/-- **Names** with a dot at most are told by their pattern. -/
theorem isField_eq_pattern : isField = pattern.isIn := by
  funext text
  rw [pattern, Pattern.isIn_start, Pattern.read_append, read_dotted, Pattern.star, word,
    Pattern.read_many, Option.isSome_map, onRest]
  induction text with
  | nil => rfl
  | cons c cs ih =>
    rw [isField_cons, Text.isSome_repeated?, Text.single?, ih]
    cases isWord c <;> simp

end Name

end Highlighter
