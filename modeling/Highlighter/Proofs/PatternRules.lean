/-
# The rules are their patterns

One template for each rule that takes a statement apart, and for named arguments.  Its scanner
makes of every text what the matcher makes of it by the template, with the same pieces, gaps and
failures.

A template is read from its end: what stands there is a rule, and so is each part of the template
followed by that rule.  The steps have the names of the scanners, so that there is one lemma for
each helper of a scanner.
-/
import Highlighter.Proofs.Backtracking

namespace Highlighter

open Template

/-! ## 1. Parts that several rules have in common -/

namespace Tiling

theorem Tidy.append_empty {loose : Char → Bool} {t : Tiling} (h : t.Tidy loose) :
    t.append .empty = t := by
  have htiles (tiles : List Tile) (hne : ∀ a ∈ tiles, a.body ≠ []) :
      tiles.foldr tile empty = ⟨[], tiles⟩ := by
    induction tiles with
    | nil => rfl
    | cons a rest ih =>
      have hrest := ih fun b hb => hne b (List.mem_cons_of_mem a hb)
      have ha : a.body ≠ [] := hne a List.mem_cons_self
      rw [List.foldr_cons, hrest]
      simp [tile, piece, gap, ha]
  rw [append, htiles t.tiles h.bodies]
  simp [gap]

end Tiling

namespace Text

/-- A line that begins with a character of a class. -/
def lineFrom? (test : Char → Bool) : Text → Option Text
  | [] => none
  | c :: cs => if test c && oneLine cs then some (c :: cs) else none

/-- The shortest part behind blanks that is followed by something the rule applies to.  Where there
are only blanks, it is the last one that is no line break. -/
def shortestBehind? (rule : Text → Option Tiling) (t : Text) : Option Tiling :=
  match shortest? rule t.trimStart with
  | some (found, tail) => some (.gap t.leading (.piece found tail))
  | none => (splitLast? t.leading).bind fun r =>
      (rule (r.2.2 ++ t.trimStart)).map fun tail => .gap r.1 (.piece [r.2.1] tail)

theorem repeated?_map {β γ : Type} (greedy : Bool) (test : Char → Bool) (rule : Text → Option β)
    (f : β → γ) (t : Text) : repeated? greedy test (fun u => (rule u).map f) t =
      (repeated? greedy test rule t).map fun r => (r.1, f r.2) := by
  induction t with
  | nil => simp [repeated?, Function.comp_def]
  | cons c cs ih =>
    cases greedy <;> cases hc : test c <;>
      simp [repeated?, ih, hc, Function.comp_def, Option.map_or]

theorem leading_trimStart (t : Text) : t.trimStart.leading = [] := by
  have hsplit := leading_append_trimStart t.trimStart
  rw [trimStart_trimStart] at hsplit
  exact List.append_left_eq_self.mp hsplit

theorem behindBlanks?_trimStart {rule : Text → Option Tiling} (t : Text) :
    (behindBlanks? rule t.trimStart).map (.gap t.leading) = behindBlanks? rule t := by
  simp only [behindBlanks?, trimStart_trimStart, leading_trimStart, Option.map_map,
    Function.comp_def, Tiling.gap_nil]

theorem blankproof_behindBlanks? (rule : Text → Option Tiling) :
    Blankproof (behindBlanks? rule) := by
  intro c cs hc
  simp only [behindBlanks?, trimStart_cons hc, Option.map_eq_none_iff]

theorem behind?_atEnd (w t : Text) :
    behind? w atEnd t = if t = w then some (.piece w .empty) else none := by
  unfold behind?
  by_cases h : t = w
  · have hafter : after? w t = some [] := after?_eq_some_iff.mpr (by simp [h])
    rw [hafter, if_pos h]
    rfl
  · rw [if_neg h]
    cases hafter : after? w t with
    | none => rfl
    | some rest =>
      cases rest with
      | nil => exact absurd (by simpa using after?_eq_some_iff.mp hafter) h
      | cons c cs => rfl

theorem shortest?_colonOr {c : Char} {cs : Text} (hc : c ≠ '\n') (plain? : Option Tiling) :
    shortest? (colonOr plain?) (c :: cs) =
      (beforeColon? plain? cs).map fun r => (c :: r.1, r.2) := by
  rw [← single?_lazy, single?, if_pos (by simpa using hc), repeated?_colonOr]
  simp [Function.comp_def, joined]

theorem inherits_beforeColon? (plain? : Option Tiling) : Inherits isBlank fun t =>
    (beforeColon? plain? t).map fun r => Tiling.piece r.1 r.2 := by
  have hinherits : Inherits isBlank (beforeColon? plain?) := by
    rw [← funext (repeated?_colonOr plain?)]
    exact (blankproof_colonOr plain?).inherits
  exact hinherits.map _

end Text

namespace Pattern

open Text

variable {β : Type} {rule : Text → Option β}

theorem read_lineFrom (test : Char → Bool) : (char test ++ star any).read (onRest atEnd) =
    onRest fun t => (lineFrom? test t).map (·, .empty) := by
  rw [read_append, read_line, read_char]
  refine eq_onRest fun _ t => ?_
  cases t with
  | nil => rfl
  | cons c cs =>
    cases hc : test c <;> cases hcs : oneLine cs <;>
      simp [onRest, single?, lineFrom?, hc, hcs, joined]

theorem read_either {p q : Pattern} {scan₁ scan₂ : Text → Option (Text × β)}
    (hp : p.read (onRest rule) = onRest scan₁) (hq : q.read (onRest rule) = onRest scan₂) :
    (either p q).read (onRest rule) = onRest fun t => (scan₁ t).or (scan₂ t) := by
  funext c
  rw [read, hp, hq]
  rfl

/-- An opening parenthesis, and the line up to the last closing one behind which the rule
applies. -/
def parenthesised? (rule : Text → Option β) (t : Text) : Option (Text × β) :=
  (after? ['('] t).bind fun inner => (upToLast? ')' rule inner).map fun r => ('(' :: r.1, r.2)

theorem read_parenthesised : (one '(' ++ (star any ++ one ')')).read (onRest rule) =
    onRest (parenthesised? rule) := by
  rw [read_append, read_upToLast (by decide), read_one]
  refine eq_onRest fun _ t => ?_
  simp only [onRest, parenthesised?, Option.map_bind, Option.map_map, Function.comp_def, joined]
  rfl

theorem refuses_parenthesised? {test : Char → Bool} (h : test '(' = false) :
    Refuses test (parenthesised? rule) := by
  intro c cs hc
  rw [parenthesised?, after?_eq_none hc h, Option.bind_none]

end Pattern

namespace Template

variable {rule : Text → Option Tiling}

theorem read_wholeLine :
    (group (.plus .any)).read (onRest Text.atEnd) = onRest Text.wholeLine? := by
  have hread : (Pattern.plus .any).read (onRest Text.atEnd) =
      onRest fun t => (Text.lineFrom? (· != '\n') t).map (·, .empty) := Pattern.read_lineFrom _
  rw [read_group hread]
  refine eq_onRest fun _ t => ?_
  cases t with
  | nil => rfl
  | cons c cs =>
    have hline : Text.oneLine (c :: cs) = (c != '\n' && Text.oneLine cs) := rfl
    simp only [onRest, Text.lineFrom?, Text.wholeLine?, hline]
    cases (c != '\n' && Text.oneLine cs) <;> rfl

/-- Blanks and a colon at the end of the line. -/
theorem read_colon : (skip (.star .blank)).read ((group (.one ':')).read (onRest Text.atEnd)) =
    onRest (Text.colonOr none) := by
  have hcolon : Text.Refuses isBlank (Text.behind? [':'] Text.atEnd) :=
    Text.refuses_behind? (by decide) []
  rw [read_one, read_blanks hcolon.inherits]
  refine eq_onRest fun _ t => ?_
  simp only [onRest, Text.behindBlanks?, Text.behind?_atEnd, Text.colonOr]
  split <;> simp

/-- Blanks at the end of the line, with or without a colon behind them. -/
theorem read_colonOrEnd :
    (skip (.star .blank)).read ((group (.one ':')).optional.read (onRest Text.atEnd)) =
      onRest (Text.colonOr (some .empty)) := by
  have hend : Text.Refuses isBlank fun t =>
      (Text.behind? [':'] Text.atEnd t).or (Text.atEnd t) := by
    intro c cs hc
    simp only [Text.behind?, Text.after?_eq_none hc (by decide : isBlank ':' = false)]
    rfl
  rw [optional, read_either (read_one ':') read_empty, read_blanks hend.inherits]
  refine eq_onRest fun _ t => ?_
  simp only [onRest, Text.behindBlanks?, Text.behind?_atEnd, Text.colonOr, Text.atEnd]
  split
  · rfl
  · split <;> simp_all

/-- Blanks and the shortest part behind them.  Where there are only blanks, the last one that is no
line break is that part. -/
theorem read_shortest (h : Text.Blankproof rule) :
    (skip (.star .blank)).read ((group (.plusLazy .any)).read (onRest rule)) =
      onRest (Text.shortestBehind? rule) := by
  rw [read_group Pattern.read_plusLazy, Pattern.star, Pattern.blank,
    read_skip (Pattern.read_many true)]
  refine eq_onRest fun _ t => ?_
  simp only [onRest, Text.repeated?_map, Text.repeated?_shortest? h, Text.shortestBehind?]
  cases Text.shortest? rule t.trimStart with
  | some r => rfl
  | none => simp [Option.map_bind, Function.comp_def]

/-- One of two words that begin with different characters. -/
theorem read_eitherWord {c d : Char} (h : c ≠ d) (v w : Text) :
    (group (.either (.literal (c :: v)) (.literal (d :: w)))).read (onRest rule) =
      onRest fun t => (((Text.after? (c :: v) t).map (c :: v, ·)).or
        ((Text.after? (d :: w) t).map (d :: w, ·))).bind fun r => (rule r.2).map (.piece r.1) := by
  rw [read_group (Pattern.read_either (Pattern.read_literal _) (Pattern.read_literal _))]
  refine eq_onRest fun _ t => ?_
  simp only [onRest]
  cases t with
  | nil => rfl
  | cons e es =>
    by_cases hc : c = e
    · have hd : d ≠ e := fun hd => h (hc.trans hd.symm)
      cases hafter : Text.after? v es <;>
        simp [Text.after?, hc, hd, hafter, Function.comp_def]
    · have hnone : Text.after? (c :: v) (e :: es) = none := by rw [Text.after?, if_neg hc]
      rw [hnone]
      cases Text.after? (d :: w) (e :: es) <;> simp [Function.comp_def]

theorem read_beforeColon (plain? : Option Tiling) :
    (group (.starLazy .any)).read (onRest (Text.colonOr plain?)) =
      onRest fun t => (Text.beforeColon? plain? t).map fun r => .piece r.1 r.2 := by
  have hread : (Pattern.starLazy .any).read (onRest (Text.colonOr plain?)) =
      onRest (Text.beforeColon? plain?) := by
    rw [Pattern.starLazy, Pattern.any, Pattern.read_many]
    exact congrArg onRest (funext (Text.repeated?_colonOr plain?))
  rw [read_group hread]

end Template

namespace Statement

open Pattern (literal one star plus starLazy plusLazy any blank word path char start finish)
open Text (atEnd Inherits Refuses)

/-! ## 2. Assignments -/

namespace Assignment

/-- `^(\w+(?:\.\w+)?)\s+(=)\s+(.+)$` -/
def template : Template := whole <|
  group (plus word ++ (one '.' ++ plus word).optional) ++ skip (plus blank) ++ group (one '=') ++
    skip (plus blank) ++ group (plus any)

theorem read_value :
    (skip (plus blank) ++ group (plus any)).read (onRest atEnd) = onRest value? := by
  rw [Template.read_append, read_wholeLine, blank, read_skip Pattern.read_plus_many]
  refine eq_onRest fun _ t => ?_
  cases t with
  | nil => rfl
  | cons c cs =>
    cases hc : isBlank c with
    | false => simp [onRest, Text.single?, value?, Text.blanks?, Text.run?, hc]
    | true =>
      have hblanks : Text.blanks? (c :: cs) = some (c :: Text.leading cs, Text.trimStart cs) := by
        simp [Text.blanks?, Text.run?, hc, Text.leading, Text.trimStart]
      cases hstart : Text.trimStart cs with
      | cons d ds =>
        have hcs := Text.repeated?_wholeLine_cons hstart
        rw [hstart] at hcs hblanks
        cases hline : Text.oneLine (d :: ds) <;>
          simp [onRest, Text.single?, value?, hblanks, hc, hcs, Text.wholeLine?, hline, joined]
      | nil =>
        have htrim : Text.trim cs = [] := by
          rw [Text.trim, hstart]
          rfl
        have hcs := Text.repeated?_wholeLine_blank (Text.trim_eq_nil_iff.mp htrim)
        rw [hstart, (Text.leading_of_blank htrim).1] at hblanks
        have hlast := Text.splitLast?_cons c cs
        cases hsplit : Text.splitLast? cs with
        | none =>
          rw [hsplit] at hcs hlast
          by_cases hnewline : c = '\n'
          · rw [if_pos hnewline] at hlast
            simp [onRest, Text.single?, value?, hblanks, hc, hcs, hlast]
          · rw [if_neg hnewline] at hlast
            simp [onRest, Text.single?, value?, hblanks, hc, hcs, hlast]
        | some r =>
          obtain ⟨front, d, rest⟩ := r
          rw [hsplit] at hcs hlast
          cases rest <;>
            simp [onRest, Text.single?, value?, hblanks, hc, hcs, hlast, joined]

/-- A dot and a name, followed by something that the rule applies to. -/
def field? (rule : Text → Option Tiling) (t : Text) : Option (Text × Tiling) :=
  (Text.after? ['.'] t).bind fun more => (Text.word? more).bind fun r =>
    (rule r.2).map ('.' :: r.1, ·)

theorem read_target {rule : Text → Option Tiling} (h : Refuses isWordOrDot rule) :
    (group (plus word ++ (one '.' ++ plus word).optional)).read (onRest rule) =
      onRest fun t => (target? t).bind fun r => (rule r.2).map (.piece r.1) := by
  have hword : Refuses isWord rule := fun c cs hc => h c cs (by simp [isWordOrDot, hc])
  have hname : (plus word).read (onRest rule) =
      onRest fun t => (Text.word? t).bind fun r => (rule r.2).map (r.1, ·) :=
    Pattern.read_plus hword.inherits
  have hfield : (one '.' ++ plus word).read (onRest rule) = onRest (field? rule) := by
    rw [Pattern.read_append, hname, Pattern.read_one]
    refine eq_onRest fun _ t => ?_
    simp only [onRest, field?, Option.map_bind, Option.map_map, Function.comp_def, joined]
    rfl
  have hscan : Refuses isWord fun t => (field? rule t).or ((rule t).map ([], ·)) := by
    intro c cs hc
    simp only [field?, Text.after?_eq_none hc (by decide : isWord '.' = false), hword c cs hc,
      Option.bind_none, Option.map_none, Option.or_none]
  rw [read_group (Pattern.read_word_append (Pattern.read_optional hfield) hscan.inherits)]
  refine eq_onRest fun _ t => ?_
  simp only [onRest, target?, Option.bind_eq_bind]
  cases hname : Text.word? t with
  | none => rfl
  | some r =>
    obtain ⟨name, rest⟩ := r
    cases rest with
    | nil => simp [field?, Text.after?, Function.comp_def]
    | cons c cs =>
      by_cases hc : c = '.'
      · subst hc
        have hdot : rule ('.' :: cs) = none := h '.' cs (by decide)
        cases hmore : Text.word? cs with
        | none => simp [field?, Text.after?, hmore, hdot]
        | some q => simp [field?, Text.after?, hmore, hdot, Function.comp_def]
      · have hother : field? rule (c :: cs) = none := by simp [field?, Text.after?, Ne.symm hc]
        rw [Option.bind_some, Option.bind_some, hother]
        split
        · rename_i more heq
          exact absurd (List.cons.inj heq).1 hc
        · simp [Function.comp_def]

/-- **Assignments** are taken apart by their pattern. -/
theorem tiling?_eq_template : tiling? = template.tiling? := by
  have hsign : Refuses isBlank (Text.behind? ['='] value?) := Text.refuses_behind? (by decide) []
  have hspace : Refuses isWordOrDot (Text.behindSpace? (Text.behind? ['='] value?)) :=
    Text.refuses_behindSpace? Import.not_isWordOrDot_of_isBlank
  funext text
  refine (tiling?_whole ?_ text).symm
  have hvalue := read_value
  rw [Template.read_append] at hvalue
  simp only [Template.read_append]
  rw [hvalue, Template.read_one, read_space hsign.inherits, read_target hspace]
  refine eq_onRest fun _ t => ?_
  simp only [onRest, tiling?, Text.behindSpace?, Text.behind?, Option.bind_eq_bind,
    Option.map_eq_bind, Option.bind_assoc, Option.bind_some, Option.pure_def, Function.comp_def]

end Assignment

/-! ## 3. Conditionals -/

namespace Conditional

/-- `^(if)\s+(.*?)\s*(:)$` -/
def template : Template := whole <|
  group (literal ifWord) ++ skip (plus blank) ++ group (starLazy any) ++ skip (star blank) ++
    group (one ':')

/-- **Conditionals** are taken apart by their pattern. -/
theorem tiling?_eq_template : tiling? = template.tiling? := by
  funext text
  refine (tiling?_whole ?_ text).symm
  simp only [Template.read_append]
  rw [Template.read_colon, Template.read_beforeColon, read_space (Text.inherits_beforeColon? none),
    Template.read_literal]
  refine eq_onRest fun _ t => ?_
  simp only [onRest, tiling?, Text.behindSpace?, Text.behind?, Option.bind_eq_bind,
    Option.map_eq_bind, Option.bind_assoc, Option.bind_some, Option.pure_def, Function.comp_def]
  cases hword : Text.after? ifWord t with
  | none => rfl
  | some rest =>
    cases hspace : Text.blanks? rest with
    | none => simp [hspace]
    | some r =>
      cases hcolon : Text.endingIn? ':' r.2 with
      | none => simp [hspace, Text.beforeColon?, hcolon]
      | some condition =>
        cases hline : Text.oneLine condition.trimEnd <;>
          simp [hspace, Text.beforeColon?, hcolon, Text.beforeBlanks?, hline]

end Conditional

/-! ## 4. Call statements -/

namespace Call

/-- `^(\w+(?:\.\w+)*\(.*\))\s*(.*)$` -/
def template : Template := whole <|
  group (path ++ (one '(' ++ (star any ++ one ')'))) ++ skip (star blank) ++ group (star any)

/-- **Call statements** are taken apart by their pattern. -/
theorem tiling?_eq_template : tiling? = template.tiling? := by
  have hremainder : remainder? = Text.behindBlanks? Text.line? := by
    funext t
    simp only [Text.behindBlanks?, Text.line?, remainder?]
    split <;> rfl
  have harguments : Refuses isWordOrDot (Pattern.parenthesised? remainder?) :=
    Pattern.refuses_parenthesised? (by decide)
  funext text
  refine (tiling?_whole ?_ text).symm
  simp only [Template.read_append]
  rw [Template.read_line, read_blanks Text.inherits_line?, ← hremainder,
    read_group (Pattern.read_path_append Pattern.read_parenthesised harguments)]
  refine eq_onRest fun _ t => ?_
  simp only [onRest, tiling?, head?, Pattern.parenthesised?, Option.bind_eq_bind,
    Option.map_eq_bind, Option.bind_assoc, Option.bind_some, Option.pure_def, Function.comp_def]

end Call

/-! ## 5. Import statements -/

namespace Import

/-- `^(?:(import)|(from)\s+([\w.]+)\s+(import))\s+(\S.*)$`, where the last group is taken apart
further. -/
def template : Template := whole <|
  either (group (literal importWord))
      (group (literal fromWord) ++ skip (plus blank) ++ group (plus (char isWordOrDot)) ++
        skip (plus blank) ++ group (literal importWord)) ++
    skip (plus blank) ++ part (char (! isBlank ·) ++ star any) names

theorem read_names : (skip (plus blank)).read
    ((part (char (! isBlank ·) ++ star any) names).read (onRest atEnd)) = onRest namesAfter? := by
  let line (t : Text) : Option Tiling := (Text.lineFrom? (! isBlank ·) t).map names
  have hread : (part (char (! isBlank ·) ++ star any) names).read (onRest atEnd) = onRest line := by
    refine eq_onRest fun _ t => ?_
    rw [Template.read, Pattern.read_lineFrom]
    simp only [onRest, line, Option.map_map, Function.comp_def, (tidy_names _).append_empty]
  have hrefuses : Refuses isBlank line := by
    intro c cs hc
    simp [line, Text.lineFrom?, hc]
  rw [hread, read_space hrefuses.inherits]
  refine eq_onRest fun _ t => ?_
  simp only [onRest, Text.behindSpace?, namesAfter?]
  cases hspace : Text.blanks? t with
  | none => rfl
  | some r =>
    obtain ⟨space, rest⟩ := r
    cases rest with
    | nil => rfl
    | cons c cs =>
      have hc : isBlank c = false :=
        Text.isBlank_of_trimStart_eq_cons (Text.of_blanks? hspace).2.2.symm
      have hnewline : '\n' ≠ c := Text.ne_of_test (by decide) hc
      have hline : Text.oneLine (c :: cs) = Text.oneLine cs := by
        simp [Text.oneLine, hnewline.symm]
      cases hcs : Text.oneLine cs <;> simp [line, Text.lineFrom?, hc, hline, hcs]

theorem direct?_eq_behind? : direct? = Text.behind? importWord namesAfter? := by
  funext t
  simp only [direct?, Text.behind?, Option.map_eq_bind, Option.bind_eq_bind, Option.pure_def,
    Function.comp_def]

/-- The module behind `from`, and what the rule makes of the rest. -/
def moduleThen? (rule : Text → Option Tiling) (t : Text) : Option Tiling :=
  (Text.run? isWordOrDot t).bind fun r => (rule r.2).map (.piece r.1)

theorem read_module {rule : Text → Option Tiling} (h : Refuses isWordOrDot rule) :
    (group (plus (char isWordOrDot))).read (onRest rule) = onRest (moduleThen? rule) := by
  rw [read_group (Pattern.read_plus h.inherits)]
  simp only [Option.map_bind, Option.map_map, Function.comp_def]
  rfl

/-- **Import statements** are taken apart by their pattern. -/
theorem tiling?_eq_template : tiling? = template.tiling? := by
  have himport : Refuses isBlank direct? := by
    rw [direct?_eq_behind?]
    exact Text.refuses_behind? (by decide) _
  have hspace : Refuses isWordOrDot (Text.behindSpace? direct?) :=
    Text.refuses_behindSpace? not_isWordOrDot_of_isBlank
  have hmodule : Refuses isBlank (moduleThen? (Text.behindSpace? direct?)) := by
    intro c cs hc
    simp [moduleThen?, Text.run?, not_isWordOrDot_of_isBlank hc]
  funext text
  refine (tiling?_whole ?_ text).symm
  simp only [Template.read_append]
  rw [read_names]
  refine read_either ?_ ?_
  · rw [Template.read_literal, direct?_eq_behind?]
  · simp only [Template.read_append]
    rw [Template.read_literal, ← direct?_eq_behind?, read_space himport.inherits,
      read_module hspace, read_space hmodule.inherits, Template.read_literal]
    refine eq_onRest fun _ t => ?_
    simp only [onRest, fromModule?, Text.behindSpace?, Text.behind?, moduleThen?,
      Option.bind_eq_bind, Option.map_eq_bind, Option.bind_assoc, Option.bind_some,
      Option.pure_def, Function.comp_def]

end Import

/-! ## 6. Comparisons -/

namespace Comparison

/-- `^(.+?)\s*(==|!=)\s*(.+?)\s*(:)?$` -/
def template : Template := whole <|
  group (plusLazy any) ++ skip (star blank) ++ group (.either (literal equal) (literal unequal)) ++
    skip (star blank) ++ group (plusLazy any) ++ skip (star blank) ++ (group (one ':')).optional

theorem operand?_eq (t : Text) (tail : Tiling) :
    operand? t tail = (Text.beforeBlanks? t tail).map fun r => .piece r.1 r.2 := by
  simp only [operand?, Text.beforeBlanks?]
  split <;> rfl

/-- The right-hand side of a comparison behind its blanks. -/
theorem right?_of_cons {t cs : Text} {c : Char} (h : t.trimStart = c :: cs) :
    right? t = (Text.shortest? (Text.colonOr (some .empty)) (c :: cs)).map fun r =>
      .gap t.leading (.piece r.1 r.2) := by
  have hc : isBlank c = false := Text.isBlank_of_trimStart_eq_cons h
  have hnewline : c ≠ '\n' := (Text.ne_of_test (by decide) hc).symm
  have hblank (s : Text) : ¬Text.blank (c :: s) = true := by simp [Text.blank, hc]
  have hfront (s : Text) (tail : Tiling) : operand? (c :: s) tail =
      (Text.beforeBlanks? s tail).map fun r => .piece (c :: r.1) r.2 := by
    rw [operand?_eq, Text.beforeBlanks?_cons (hblank s), if_neg hnewline, Option.map_map]
    rfl
  rw [right?, h, Text.shortest?_colonOr hnewline, Text.beforeColon?]
  cases cs with
  | nil =>
    have hplain : (operand? [c] .empty).map (Tiling.gap t.leading) =
        some (.gap t.leading (.piece [c] .empty)) := by
      rw [hfront]
      rfl
    by_cases hcolon : c = ':'
    · subst hcolon
      exact hplain
    · simp only [Text.endingIn?, hcolon, if_false, hplain]
      rfl
  | cons d ds =>
    cases hcolon : Text.endingIn? ':' (d :: ds) <;>
      simp [Text.endingIn?_cons_cons, hcolon, hfront, Function.comp_def]

theorem right?_eq_shortest :
    right? = Text.shortestBehind? (Text.colonOr (some .empty)) := by
  funext t
  cases h : t.trimStart with
  | nil =>
    rw [right?, Text.shortestBehind?, h]
    cases hlast : Text.splitLast? t.leading with
    | none => simp [Text.shortest?]
    | some r =>
      have hrest := Text.blank_of_splitLast? (Text.blank_leading t) hlast
      obtain ⟨hlead, htrim⟩ := Text.leading_of_blank (Text.trim_eq_nil_iff.mpr hrest)
      simp [Text.shortest?, Text.colonOr, hlead, htrim]
  | cons c cs =>
    rw [right?_of_cons h, Text.shortestBehind?, h]
    cases hshort : Text.shortest? (Text.colonOr (some .empty)) (c :: cs) with
    | some r => rfl
    | none =>
      have hstart : Text.trimStart (c :: cs) = c :: cs :=
        Text.trimStart_of_head (Text.isBlank_of_trimStart_eq_cons h) cs
      have hcolonOr : Text.colonOr (some .empty) (c :: cs) = none := by
        rw [Text.colonOr, hstart, if_neg, if_neg (List.cons_ne_nil c cs)]
        intro hcolon
        rw [hcolon] at hshort
        exact absurd hshort (by decide)
      cases hlast : Text.splitLast? t.leading with
      | none => simp
      | some r =>
        have hrest := Text.blank_of_splitLast? (Text.blank_leading t) hlast
        simp [((Text.blankproof_colonOr _).append hrest).mpr hcolonOr]

theorem read_comparator {rule : Text → Option Tiling} :
    (group (.either (literal equal) (literal unequal))).read (onRest rule) =
      onRest fun t => (comparator? t).bind fun r => (rule r.2).map (.piece r.1) := by
  exact Template.read_eitherWord (by decide) ['='] ['=']

/-- **Comparisons** are taken apart by their pattern. -/
theorem tiling?_eq_template : tiling? = template.tiling? := by
  have hsign : Refuses isBlank fun t => (comparator? t).bind fun r =>
      (right? r.2).map (Tiling.piece r.1) := by
    intro c cs hc
    have hequal := Text.after?_eq_none hc (by decide : isBlank '=' = false) ['='] cs
    have hunequal := Text.after?_eq_none hc (by decide : isBlank '!' = false) ['='] cs
    simp only [comparator?, equal, unequal, hequal, hunequal]
    rfl
  have htail : tail? = Text.behindBlanks? fun t => (comparator? t).bind fun r =>
      (right? r.2).map (Tiling.piece r.1) := by
    funext t
    simp only [tail?, Text.behindBlanks?, Option.bind_eq_bind, Option.map_eq_bind,
      Option.bind_assoc, Option.bind_some, Option.pure_def, Function.comp_def]
  funext text
  refine (tiling?_whole ?_ text).symm
  simp only [Template.read_append]
  rw [Template.read_colonOrEnd, read_shortest (Text.blankproof_colonOr _), ← right?_eq_shortest,
    read_comparator, read_blanks hsign.inherits, ← htail, read_group Pattern.read_plusLazy]
  rfl

end Comparison

/-! ## 7. Definitions -/

namespace Definition

/-- `^(def|class)\s+(\w+(?:\(.*\))?)\s*(?:(->)\s*(.+?))?\s*(:)\s*(.*)$` -/
def template : Template := whole <|
  group (.either (literal defWord) (literal classWord)) ++ skip (plus blank) ++
    group (plus word ++ (one '(' ++ (star any ++ one ')')).optional) ++ skip (star blank) ++
    (group (literal arrow) ++ skip (star blank) ++ group (plusLazy any)).optional ++
    skip (star blank) ++ group (one ':') ++ skip (star blank) ++ group (star any)

theorem suite?_eq_behind :
    suite? = Text.behindBlanks? (Text.behind? [':'] (Text.behindBlanks? Text.line?)) := by
  funext t
  simp only [suite?, Text.behindBlanks?, Text.behind?]
  cases h : t.trimStart with
  | nil => rfl
  | cons c cs =>
    by_cases hc : c = ':'
    · subst hc
      have hafter : Text.after? [':'] (':' :: cs) = some cs := Text.after?_eq_some_iff.mpr rfl
      cases hline : Text.oneLine (Text.trimStart cs) <;> simp [hafter, Text.line?, hline]
    · have hafter : Text.after? [':'] (c :: cs) = none := by
        rw [Text.after?, if_neg (Ne.symm hc)]
      split
      · rename_i rest heq
        exact absurd (List.cons.inj heq).1 hc
      · rw [hafter]
        rfl

theorem blankproof_suite? : Text.Blankproof suite? := by
  rw [suite?_eq_behind]
  exact Text.blankproof_behindBlanks? _

theorem result?_eq_shortest : result? = Text.shortestBehind? suite? := by
  funext t
  unfold result? Text.shortestBehind?
  cases Text.shortest? suite? t.trimStart with
  | some r => rfl
  | none =>
    simp only [Option.bind_eq_bind, Option.map_eq_bind, Option.pure_def, Function.comp_def]

theorem read_suite : (skip (star blank)).read ((group (one ':')).read ((skip (star blank)).read
    ((group (star any)).read (onRest atEnd)))) = onRest suite? := by
  have hcolon : Refuses isBlank (Text.behind? [':'] (Text.behindBlanks? Text.line?)) :=
    Text.refuses_behind? (by decide) []
  rw [Template.read_line, read_blanks Text.inherits_line?, Template.read_one,
    read_blanks hcolon.inherits, suite?_eq_behind]

/-- The arrow and the result, if they are there, and the colon and the body. -/
def resultOrSuite? (t : Text) : Option Tiling := (Text.behind? arrow result? t).or (suite? t)

theorem refuses_resultOrSuite? {test : Char → Bool} (harrow : test '-' = false)
    (hcolon : test ':' = false) (hblank : ∀ {c}, isBlank c = true → test c = false) :
    Refuses test resultOrSuite? := by
  intro c cs hc
  have hsuite : Refuses test suite? := by
    rw [suite?_eq_behind]
    exact Text.refuses_behindBlanks? hblank (Text.refuses_behind? hcolon [])
  have hresult : Refuses test (Text.behind? arrow result?) := Text.refuses_behind? harrow ['>']
  rw [resultOrSuite?, hresult c cs hc, hsuite c cs hc, Option.or_none]

theorem signatureEnd?_eq_behind : signatureEnd? = Text.behindBlanks? resultOrSuite? := by
  funext t
  simp only [signatureEnd?, Text.behindBlanks?, resultOrSuite?, Text.behind?]
  cases harrow : Text.after? arrow t.trimStart with
  | none =>
    rw [Option.bind_none, Option.none_or, suite?_eq_behind]
    exact (Text.behindBlanks?_trimStart t).symm
  | some rest =>
    have hsuite : suite? t.trimStart = none := by
      rw [Text.after?_eq_some_iff.mp harrow]
      rfl
    rw [hsuite, Option.bind_some, Option.or_none, Option.map_map]
    rfl

theorem read_signatureEnd : (skip (star blank)).read
    ((group (literal arrow) ++ skip (star blank) ++ group (plusLazy any)).optional.read
      (onRest suite?)) = onRest signatureEnd? := by
  have hresult : (group (literal arrow) ++ skip (star blank) ++ group (plusLazy any)).read
      (onRest suite?) = onRest (Text.behind? arrow result?) := by
    simp only [Template.read_append]
    rw [read_shortest blankproof_suite?, ← result?_eq_shortest, Template.read_literal]
  have hinherits : Inherits isBlank resultOrSuite? := by
    intro c cs hc hnone
    have harrow : Refuses isBlank (Text.behind? arrow result?) :=
      Text.refuses_behind? (by decide) ['>']
    have hsuite : suite? cs = none := (Option.or_eq_none_iff.mp hnone).2
    rw [resultOrSuite?, harrow c cs hc, (blankproof_suite? c cs hc).mpr hsuite, Option.or_none]
  rw [Template.optional, read_either hresult read_empty, signatureEnd?_eq_behind]
  exact read_blanks hinherits

theorem refuses_signatureEnd? : Refuses (fun c => isWord c || c == '(') signatureEnd? := by
  have hblank {c : Char} (hc : isBlank c = true) : (isWord c || c == '(') = false := by
    have hparen : c ≠ '(' := Text.ne_of_test hc (by decide)
    simp [not_isWord_of_isBlank hc, hparen]
  rw [signatureEnd?_eq_behind]
  exact Text.refuses_behindBlanks? hblank
    (refuses_resultOrSuite? (by decide) (by decide) hblank)

theorem read_signature :
    (group (plus word ++ (one '(' ++ (star any ++ one ')')).optional)).read
      (onRest signatureEnd?) = onRest signature? := by
  have hparameters : Refuses isWord fun t =>
      (Pattern.parenthesised? signatureEnd? t).or ((signatureEnd? t).map ([], ·)) := by
    intro c cs hc
    have hparen : Refuses isWord (Pattern.parenthesised? signatureEnd?) :=
      Pattern.refuses_parenthesised? (by decide)
    simp only [hparen c cs hc, refuses_signatureEnd? c cs (by simp [hc]), Option.map_none,
      Option.or_none]
  rw [read_group (Pattern.read_word_append (Pattern.read_optional Pattern.read_parenthesised)
    hparameters.inherits)]
  refine eq_onRest fun _ t => ?_
  simp only [onRest, signature?, Option.bind_eq_bind]
  cases hname : Text.word? t with
  | none => rfl
  | some r =>
    obtain ⟨name, rest⟩ := r
    cases rest with
    | nil =>
      have hparen : Pattern.parenthesised? signatureEnd? [] = none := rfl
      simp only [hparen, Option.none_or, Option.map_eq_bind, Option.bind_assoc, Option.bind_some,
        Option.pure_def, Function.comp_def, List.append_nil]
    | cons c cs =>
      by_cases hc : c = '('
      · subst hc
        have hend : signatureEnd? ('(' :: cs) = none := refuses_signatureEnd? '(' cs (by decide)
        have hafter : Text.after? ['('] ('(' :: cs) = some cs := Text.after?_eq_some_iff.mpr rfl
        simp only [Pattern.parenthesised?, hafter, hend, Option.bind_none, Option.or_none,
          Option.map_eq_bind, Option.bind_assoc, Option.bind_some, Option.pure_def,
          Function.comp_def]
      · have hparen : Pattern.parenthesised? signatureEnd? (c :: cs) = none := by
          simp [Pattern.parenthesised?, Text.after?, Ne.symm hc]
        rw [Option.bind_some, Option.bind_some, hparen]
        split
        · rename_i inner heq
          exact absurd (List.cons.inj heq).1 hc
        · simp only [Option.none_or, Option.map_eq_bind, Option.bind_assoc, Option.bind_some,
            Option.pure_def, Function.comp_def, List.append_nil]

/-- **Definitions** are taken apart by their pattern. -/
theorem tiling?_eq_template : tiling? = template.tiling? := by
  have hsignature : Refuses isBlank signature? := by
    intro c cs hc
    simp [signature?, Text.word?, Text.run?, not_isWord_of_isBlank hc]
  have hkeyword : (group (.either (literal defWord) (literal classWord))).read
      (onRest (Text.behindSpace? signature?)) = onRest fun t => (keyword? t).bind fun r =>
        (Text.behindSpace? signature? r.2).map (.piece r.1) :=
    read_eitherWord (by decide) ['e', 'f'] ['l', 'a', 's', 's']
  funext text
  refine (tiling?_whole ?_ text).symm
  simp only [Template.read_append]
  rw [read_suite, read_signatureEnd, read_signature, read_space hsignature.inherits, hkeyword]
  refine eq_onRest fun _ t => ?_
  simp only [onRest, tiling?, Text.behindSpace?, Option.bind_eq_bind, Option.map_eq_bind,
    Option.bind_assoc, Option.bind_some, Option.pure_def, Function.comp_def]

end Definition

/-- The pattern of the rule of a kind, if it has one: lists and other lines are divided instead. -/
def template? : Statement → Option Template
  | imports => some Import.template
  | definition => some Definition.template
  | assignment => some Assignment.template
  | conditional => some Conditional.template
  | call => some Call.template
  | comparison => some Comparison.template
  | listing | other => none

/-- **The rules are their patterns**: whatever the text, a rule gives the pieces and gaps of the
first match of its pattern, and fails where there is none. -/
theorem tiling?_eq_of_template? {kind : Statement} {r : Template} (h : kind.template? = some r)
    (text : Text) : kind.tiling? text = r.tiling? text := by
  cases kind with
  | imports =>
    rw [← Option.some.inj h]
    exact congrFun Import.tiling?_eq_template text
  | definition =>
    rw [← Option.some.inj h]
    exact congrFun Definition.tiling?_eq_template text
  | assignment =>
    rw [← Option.some.inj h]
    exact congrFun Assignment.tiling?_eq_template text
  | conditional =>
    rw [← Option.some.inj h]
    exact congrFun Conditional.tiling?_eq_template text
  | call =>
    rw [← Option.some.inj h]
    exact congrFun Call.tiling?_eq_template text
  | comparison =>
    rw [← Option.some.inj h]
    exact congrFun Comparison.tiling?_eq_template text
  | listing | other => exact absurd h (by simp [template?])

end Statement

/-! ## 8. Named arguments -/

namespace Listing

open Pattern (one star plus any blank word char)
open Text (atEnd Refuses)

/-- `^(\w+)\s*(=)\s*([^=\s].*)$` -/
def template : Template := whole <|
  group (plus word) ++ skip (star blank) ++ group (one '=') ++ skip (star blank) ++
    group (char (fun c => c != '=' && ! isBlank c) ++ star any)

/-- **Named arguments** are taken apart by their pattern. -/
theorem named?_eq_template : named? = template.tiling? := by
  let value (t : Text) : Option Tiling :=
    (Text.lineFrom? (fun c => c != '=' && ! isBlank c) t).map (.piece · .empty)
  have hread : (group (char (fun c => c != '=' && ! isBlank c) ++ star any)).read (onRest atEnd) =
      onRest value := by
    rw [read_group (Pattern.read_lineFrom _)]
    simp only [Option.map_map, Function.comp_def]
    rfl
  have hvalue : Refuses isBlank value := by
    intro c cs hc
    simp [value, Text.lineFrom?, hc]
  have hsign : Refuses isBlank (Text.behind? ['='] (Text.behindBlanks? value)) :=
    Text.refuses_behind? (by decide) []
  have hname : Refuses isWord
      (Text.behindBlanks? (Text.behind? ['='] (Text.behindBlanks? value))) :=
    Text.refuses_behindBlanks? not_isWord_of_isBlank (Text.refuses_behind? (by decide) [])
  funext text
  refine (tiling?_whole ?_ text).symm
  simp only [Template.read_append]
  rw [hread, read_blanks hvalue.inherits, Template.read_one, read_blanks hsign.inherits, word,
    read_group (Pattern.read_plus hname.inherits)]
  refine eq_onRest fun _ t => ?_
  simp only [onRest, named?, Text.behindBlanks?, Text.behind?, Option.bind_eq_bind,
    Option.map_eq_bind, Option.bind_assoc, Option.bind_some, Option.pure_def, Function.comp_def]
  refine congrArg (Option.bind _) (funext fun r => ?_)
  refine congrArg (Option.bind _) (funext fun after => ?_)
  cases hstart : Text.trimStart after with
  | nil => rfl
  | cons c cs =>
    have hc := Text.isBlank_of_trimStart_eq_cons hstart
    by_cases hequals : c = '='
    · simp [value, Text.lineFrom?, hequals]
    · cases hline : Text.oneLine cs <;> simp [value, Text.lineFrom?, hc, hequals, hline]

end Listing
end Highlighter
