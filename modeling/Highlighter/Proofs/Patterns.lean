/-
# Patterns

Each rule for statements is a pattern, and its scanner is what the pattern comes to when it is read
without going back.  Here is the language of the patterns, and a matcher for it that tries one way
after the other, so that the two can be compared.

A *pattern* has no groups.  A *template* is a row of patterns, each of which says what becomes of
the text that it reads: nothing, if it is skipped, or a piece, if it is a group.  Hence there are
no groups inside groups, and the pieces stand in the order of the template.

The matcher takes what is to be read afterwards as an argument, and what it returns is the first
way that does not fail there.  So a pattern followed by a scanner is a scanner again, and the
laws below say which:

* `read_char`, `read_literal`: what is fixed is taken off the text;
* `read_star`, `read_plus`: as many characters of a class as possible are all of them, unless what
  comes after could do with one more;
* `read_upToLast`, `read_plusLazy`: the line up to the last character of a kind, and the shortest
  part of it before something.
-/
import Highlighter.Proofs.Rules

namespace Highlighter

/-! ## 1. The language -/

/-- A place in a text: the character before it, if there is one, and what follows it. -/
structure Cursor where
  before : Option Char
  rest : Text

/-- A pattern without groups. -/
inductive Pattern where
  /-- One character of a class. -/
  | char (test : Char → Bool)
  /-- Nothing. -/
  | empty
  /-- One after the other. -/
  | seq (p q : Pattern)
  /-- The first, or else the second. -/
  | either (p q : Pattern)
  /-- Any number of times, as often as possible if it is greedy and as rarely as possible if not. -/
  | many (greedy : Bool) (p : Pattern)
  /-- The start of the text. -/
  | start
  /-- The end of the text. -/
  | finish
  /-- A place between a word character and another one, or none. -/
  | boundary

/-- A row of patterns, each with what becomes of the text that it reads. -/
inductive Template where
  | part (p : Pattern) (parts : Text → Tiling)
  | seq (r s : Template)
  | either (r s : Template)

namespace Pattern

instance : Append Pattern := ⟨seq⟩

/-- A character, `x`. -/
def one (c : Char) : Pattern := char (· == c)

/-- A row of characters, `xyz`. -/
def literal : Text → Pattern
  | [] => empty
  | c :: cs => one c ++ literal cs

/-- A word character, `\w`. -/
def word : Pattern := char isWord

/-- A blank, `\s`. -/
def blank : Pattern := char isBlank

/-- Any character but a line break, `.`. -/
def any : Pattern := char (· != '\n')

/-- As often as possible, `p*`. -/
def star (p : Pattern) : Pattern := many true p

/-- As rarely as possible, `p*?`. -/
def starLazy (p : Pattern) : Pattern := many false p

/-- Once or more, `p+`. -/
def plus (p : Pattern) : Pattern := p ++ p.star

/-- Once or more, and as rarely as possible, `p+?`. -/
def plusLazy (p : Pattern) : Pattern := p ++ p.starLazy

/-- Once or not at all, `p?`. -/
def optional (p : Pattern) : Pattern := either p empty

end Pattern

namespace Template

instance : Append Template := ⟨seq⟩

/-- A pattern outside the groups. -/
def skip (p : Pattern) : Template := part p (.gap · .empty)

/-- A group, `(p)`. -/
def group (p : Pattern) : Template := part p (.piece · .empty)

/-- Once or not at all, `(?:r)?`. -/
def optional (r : Template) : Template := either r (skip .empty)

/-- From the start of the text to its end, `^r$`. -/
def whole (r : Template) : Template := skip .start ++ (r ++ skip .finish)

end Template

/-! ## 2. The matcher -/

variable {β : Type}

/-- What has been read in two steps. -/
def joined (r : Text × Text × β) : Text × β := (r.1 ++ r.2.1, r.2.2)

namespace Pattern

/-- Repeats a step.  Each round has to read something, so there are at most as many of them as
there are characters. -/
def rounds (greedy : Bool)
    (step : (Cursor → Option (Text × β)) → Cursor → Option (Text × Text × β))
    (next : Cursor → Option β) : Nat → Cursor → Option (Text × β)
  | 0, c => (next c).map ([], ·)
  | n + 1, c =>
    let stop := (next c).map ([], ·)
    let more := (step (fun d =>
      if d.rest.length < c.rest.length then rounds greedy step next n d else none) c).map joined
    if greedy then more.or stop else stop.or more

/-- Whether the place is one between a word character and another one. -/
def isBoundary (c : Cursor) : Bool := c.before.any isWord != c.rest.head?.any isWord

/-- The first way to read a pattern at a place such that `next` can go on: what the pattern has
read and what `next` has made of the rest. -/
def read : Pattern → {β : Type} → (Cursor → Option β) → Cursor → Option (Text × β)
  | char test, _, next, c =>
    match c.rest with
    | [] => none
    | d :: cs => if test d then (next ⟨some d, cs⟩).map ([d], ·) else none
  | empty, _, next, c => (next c).map ([], ·)
  | seq p q, _, next, c => (p.read (q.read next) c).map joined
  | either p q, _, next, c => (p.read next c).or (q.read next c)
  | many greedy p, _, next, c => rounds greedy p.read next c.rest.length c
  | start, _, next, c => if c.before.isNone then (next c).map ([], ·) else none
  | finish, _, next, c => if c.rest.isEmpty then (next c).map ([], ·) else none
  | boundary, _, next, c => if isBoundary c then (next c).map ([], ·) else none

end Pattern

namespace Template

/-- The first way to read a template at a place such that `next` can go on, as the pieces that it
has read and those of `next`. -/
def read : Template → (Cursor → Option Tiling) → Cursor → Option Tiling
  | part p parts, next, c => (p.read next c).map fun r => (parts r.1).append r.2
  | seq r s, next, c => r.read (s.read next) c
  | either r s, next, c => (r.read next c).or (s.read next c)

/-- The rest of the text, once a template has been read. -/
def leave (c : Cursor) : Option Tiling := some (.gap c.rest .empty)

/-- Looks for the first place at which the template can be read. -/
def search (r : Template) : Option Char → Text → Option Tiling
  | before, [] => r.read leave ⟨before, []⟩
  | before, c :: cs =>
    (r.read leave ⟨before, c :: cs⟩).or ((r.search (some c) cs).map (.gap [c]))

/-- Takes a text apart by the first match of a template. -/
def tiling? (r : Template) (text : Text) : Option Tiling := r.search none text

end Template

/-- Whether a pattern matches somewhere in a text. -/
def Pattern.isIn (p : Pattern) (text : Text) : Bool := ((Template.skip p).tiling? text).isSome

/-- As many characters as possible, and as few as possible. -/
example :
    ((Template.group (.star .any) ++ .group (.one ':')).tiling? "a:b:c".toList).map Tiling.bodies =
      some ["a:b".toList, ":".toList] ∧
    ((Template.group (.starLazy .any) ++ .group (.one ':')).tiling? "a:b:c".toList).map
      Tiling.bodies = some ["a".toList, ":".toList] := by decide

/-! ## 3. Reading a class of characters -/

namespace Text

/-- One character of a class, followed by something that the rule applies to. -/
def single? (test : Char → Bool) (rule : Text → Option β) : Text → Option (Text × β)
  | [] => none
  | c :: cs => if test c then (rule cs).map ([c], ·) else none

/-- Characters of a class, as many or as few as possible, followed by something that the rule
applies to. -/
def repeated? (greedy : Bool) (test : Char → Bool) (rule : Text → Option β) :
    Text → Option (Text × β)
  | [] => (rule []).map ([], ·)
  | c :: cs =>
    let stop := (rule (c :: cs)).map ([], ·)
    let more :=
      if test c then (repeated? greedy test rule cs).map fun r => (c :: r.1, r.2) else none
    if greedy then more.or stop else stop.or more

/-- A rule that can do with one more character of a class in front only where it can do without. -/
def Inherits (test : Char → Bool) (rule : Text → Option β) : Prop :=
  ∀ c cs, test c = true → rule cs = none → rule (c :: cs) = none

variable {test : Char → Bool} {rule : Text → Option β} {t : Text}

/-- A rule that begins with something else. -/
def Refuses (test : Char → Bool) (rule : Text → Option β) : Prop :=
  ∀ c cs, test c = true → rule (c :: cs) = none

theorem Refuses.inherits (h : Refuses test rule) : Inherits test rule := fun c cs hc _ => h c cs hc

theorem Inherits.map {γ : Type} (h : Inherits test rule) (f : β → γ) :
    Inherits test fun t => (rule t).map f := by
  intro c cs hc hnone
  exact Option.map_eq_none_iff.mpr (h c cs hc (Option.map_eq_none_iff.mp hnone))

theorem Inherits.eq_none (h : Inherits test rule) (hrest : rule (t.dropWhile test) = none) :
    rule t = none := by
  induction t with
  | nil => exact hrest
  | cons c cs ih =>
    rw [List.dropWhile_cons] at hrest
    split at hrest
    · rename_i hc
      exact h c cs hc (ih hrest)
    · exact hrest

/-- **All of a run**: where a rule fails behind all the characters of a class, it fails behind fewer
of them. -/
theorem repeated?_eq (h : Inherits test rule) (t : Text) :
    repeated? true test rule t = (rule (t.dropWhile test)).map (t.takeWhile test, ·) := by
  induction t with
  | nil => rfl
  | cons c cs ih =>
    cases hc : test c with
    | false => simp [repeated?, hc]
    | true =>
      simp only [repeated?, hc, if_true, ih, List.takeWhile_cons, List.dropWhile_cons]
      cases hrest : rule (cs.dropWhile test) with
      | some b => rfl
      | none =>
        rw [h c cs hc (h.eq_none hrest)]
        rfl

/-- So it is if there has to be one character at least. -/
theorem single?_repeated?_eq (h : Inherits test rule) (t : Text) :
    (single? test (repeated? true test rule) t).map joined =
      (run? test t).bind fun r => (rule r.2).map (r.1, ·) := by
  cases t with
  | nil => rfl
  | cons c cs =>
    cases hc : test c with
    | false => simp [single?, run?, hc]
    | true => simp [single?, run?, hc, repeated?_eq h, Function.comp_def, joined]

/-- As few characters of the line as possible are none, or the shortest part of it. -/
theorem repeated?_lazy (t : Text) : repeated? false (· != '\n') rule t =
    ((rule t).map ([], ·)).or (shortest? rule t) := by
  induction t with
  | nil => simp [repeated?, shortest?]
  | cons c cs ih =>
    by_cases hc : c = '\n'
    · simp [repeated?, shortest?, hc]
    · cases hrule : rule cs <;> simp [repeated?, shortest?, hc, ih, hrule]

theorem single?_lazy (t : Text) :
    (single? (· != '\n') (repeated? false (· != '\n') rule) t).map joined = shortest? rule t := by
  cases t with
  | nil => rfl
  | cons c cs =>
    by_cases hc : c = '\n'
    · simp [single?, shortest?, hc]
    · cases hrule : rule cs <;>
        simp [single?, shortest?, hc, repeated?_lazy, hrule, Function.comp_def, joined]

/-- As many characters of the line as possible before a given one end before the last of these. -/
theorem repeated?_single? {last : Char} (hlast : last ≠ '\n') (t : Text) :
    (repeated? true (· != '\n') (single? (· == last) rule) t).map joined =
      upToLast? last rule t := by
  induction t with
  | nil => rfl
  | cons c cs ih =>
    by_cases hc : c = '\n'
    · simp [repeated?, upToLast?, single?, hc, Ne.symm hlast]
    · rw [upToLast?, if_neg hc, ← ih]
      cases hmore : repeated? true (· != '\n') (single? (· == last) rule) cs with
      | some r => simp [repeated?, hc, hmore, joined]
      | none =>
        by_cases hend : c = last <;>
          simp [repeated?, single?, hc, hmore, hend, joined, Function.comp_def]

/-- The rule for the end of the text. -/
def atEnd (t : Text) : Option Tiling := if t.isEmpty then some .empty else none

theorem repeated?_atEnd (t : Text) :
    repeated? true (· != '\n') atEnd t = if t.oneLine then some (t, .empty) else none := by
  induction t with
  | nil => rfl
  | cons c cs ih =>
    have hstop : atEnd (c :: cs) = none := rfl
    rw [repeated?, ih, hstop]
    by_cases hc : c = '\n'
    · simp [oneLine, hc]
    · have hline : oneLine (c :: cs) = oneLine cs := by simp [oneLine, hc]
      rw [hline]
      cases oneLine cs <;> simp [hc]

section

variable {rule : Text → Option Tiling}

/-- The rule for a text on one line, which is one piece. -/
def line? (t : Text) : Option Tiling := if t.oneLine then some (.piece t .empty) else none

theorem inherits_line? : Inherits test line? := by
  intro c cs _ hnone
  have hcs : ¬oneLine cs = true := by simpa [line?] using hnone
  rw [line?, if_neg fun hline => hcs (oneLine_cons.mp hline).2]

/-- The rule behind a given text, which becomes a piece. -/
def behind? (w : Text) (rule : Text → Option Tiling) (t : Text) : Option Tiling :=
  (after? w t).bind fun rest => (rule rest).map (.piece w)

/-- The rule behind blanks, of which there may be none. -/
def behindBlanks? (rule : Text → Option Tiling) (t : Text) : Option Tiling :=
  (rule t.trimStart).map (.gap t.leading)

/-- The rule behind blanks, of which there has to be one. -/
def behindSpace? (rule : Text → Option Tiling) (t : Text) : Option Tiling :=
  (blanks? t).bind fun r => (rule r.2).map (.gap r.1)

theorem ne_of_test {c d : Char} (hc : test c = true) (hd : test d = false) : c ≠ d := by
  rintro rfl
  exact absurd hc (by simp [hd])

/-- What begins with a character of a class does not begin with one that is not in it. -/
theorem after?_eq_none {c d : Char} (hc : test c = true) (hd : test d = false) (w cs : Text) :
    after? (d :: w) (c :: cs) = none := by
  rw [after?, if_neg (ne_of_test hc hd).symm]

theorem refuses_behind? {d : Char} (hd : test d = false) (w : Text) :
    Refuses test (behind? (d :: w) rule) := by
  intro c cs hc
  rw [behind?, after?_eq_none hc hd, Option.bind_none]

theorem refuses_behindBlanks? (htest : ∀ {c}, isBlank c = true → test c = false)
    (h : Refuses test rule) : Refuses test (behindBlanks? rule) := by
  intro c cs hc
  have hblank : isBlank c = false := Bool.eq_false_iff.mpr fun hb => by simp [htest hb] at hc
  rw [behindBlanks?, trimStart_of_head hblank, h c cs hc, Option.map_none]

theorem refuses_behindSpace? (htest : ∀ {c}, isBlank c = true → test c = false) :
    Refuses test (behindSpace? rule) := by
  intro c cs hc
  have hblank : isBlank c = false := Bool.eq_false_iff.mpr fun hb => by simp [htest hb] at hc
  simp [behindSpace?, blanks?, run?, hblank]

end

end Text

/-! ## 4. A pattern and a rule are a rule -/

/-- A rule that looks only at what follows. -/
def onRest (rule : Text → Option β) (c : Cursor) : Option β := rule c.rest

theorem eq_onRest {f : Cursor → Option β} {rule : Text → Option β}
    (h : ∀ before t, f ⟨before, t⟩ = rule t) : f = onRest rule := by
  funext c
  cases c with
  | mk before t => exact h before t

namespace Pattern

open Text

variable {test : Char → Bool} {rule : Text → Option β}

theorem read_append (p q : Pattern) (next : Cursor → Option β) :
    (p ++ q).read next = fun c => (p.read (q.read next) c).map joined := rfl

theorem read_optional {p : Pattern} {scan : Text → Option (Text × β)}
    (h : p.read (onRest rule) = onRest scan) :
    (optional p).read (onRest rule) = onRest fun t => (scan t).or ((rule t).map ([], ·)) := by
  funext c
  rw [optional, read, h]
  rfl

theorem read_char : (char test).read (onRest rule) = onRest (single? test rule) := by
  refine eq_onRest fun _ rest => ?_
  cases rest <;> rfl

theorem read_char_append {p : Pattern} {next : Cursor → Option β}
    {scan : Text → Option (Text × β)} (hp : p.read next = onRest scan) :
    (char test ++ p).read next = onRest fun t => (single? test scan t).map joined := by
  rw [read_append, hp, read_char]
  rfl

theorem rounds_char (greedy : Bool) (before : Option Char) (t : Text) :
    rounds greedy (char test).read (onRest rule) t.length ⟨before, t⟩ =
      repeated? greedy test rule t := by
  induction t generalizing before with
  | nil => rfl
  | cons c cs ih =>
    have hstep (next : Cursor → Option (Text × β)) : (char test).read next ⟨before, c :: cs⟩ =
        if test c then (next ⟨some c, cs⟩).map ([c], ·) else none := rfl
    have hless : (⟨some c, cs⟩ : Cursor).rest.length < (⟨before, c :: cs⟩ : Cursor).rest.length :=
      Nat.lt_succ_self cs.length
    rw [List.length_cons, rounds, hstep, if_pos hless, ih, repeated?]
    cases test c <;> simp [Function.comp_def, joined, onRest]

theorem read_many (greedy : Bool) :
    (many greedy (char test)).read (onRest rule) = onRest (repeated? greedy test rule) := by
  refine eq_onRest fun before rest => ?_
  exact rounds_char greedy before rest

theorem read_star (h : Inherits test rule) : (star (char test)).read (onRest rule) =
    onRest fun t => (rule (t.dropWhile test)).map (t.takeWhile test, ·) := by
  rw [star, read_many]
  exact congrArg onRest (funext (repeated?_eq h))

theorem read_plus_many : (plus (char test)).read (onRest rule) =
    onRest fun t => (single? test (repeated? true test rule) t).map joined := by
  rw [plus, read_append, star, read_many, read_char]
  rfl

theorem read_plus (h : Inherits test rule) : (plus (char test)).read (onRest rule) =
    onRest fun t => (run? test t).bind fun r => (rule r.2).map (r.1, ·) := by
  rw [read_plus_many]
  exact congrArg onRest (funext (single?_repeated?_eq h))

/-- A name and what comes after it. -/
theorem read_word_append {p : Pattern} {scan : Text → Option (Text × β)}
    (hp : p.read (onRest rule) = onRest scan) (h : Inherits isWord scan) :
    (plus word ++ p).read (onRest rule) =
      onRest fun t => (word? t).bind fun r => (scan r.2).map fun q => (r.1 ++ q.1, q.2) := by
  have hword : (plus word).read (onRest scan) =
      onRest fun t => (word? t).bind fun r => (scan r.2).map (r.1, ·) := read_plus h
  rw [read_append, hp, hword]
  refine eq_onRest fun _ t => ?_
  simp only [onRest, Option.map_bind, Option.map_map, Function.comp_def, joined]

theorem read_one (x : Char) : (one x).read (onRest rule) =
    onRest fun t => (after? [x] t).bind fun rest => (rule rest).map ([x], ·) := by
  rw [one, read_char]
  refine eq_onRest fun _ rest => ?_
  cases rest with
  | nil => rfl
  | cons d cs =>
    by_cases hd : d = x
    · simp [onRest, single?, after?, hd]
    · simp [onRest, single?, after?, hd, Ne.symm hd]

/-- A given text is taken off, and its last character stands before the rest. -/
theorem read_literal_cursor (w : Text) (next : Cursor → Option β) (before : Option Char)
    (t : Text) : (literal w).read next ⟨before, t⟩ =
      (after? w t).bind fun rest => (next ⟨w.getLast?.or before, rest⟩).map (w, ·) := by
  induction w generalizing before t with
  | nil => rfl
  | cons c w ih =>
    rw [literal, read_append, one]
    cases t with
    | nil => rfl
    | cons d cs =>
      by_cases hd : c = d
      · subst hd
        have hlast : (c :: w).getLast?.or before = w.getLast?.or (some c) := by
          cases hw : w.getLast? <;> simp [List.getLast?_cons, hw]
        rw [hlast]
        cases hafter : after? w cs <;>
          simp [read, after?, joined, ih, hafter, Function.comp_def]
      · simp [read, after?, hd, Ne.symm hd]

theorem read_literal (w : Text) : (literal w).read (onRest rule) =
    onRest fun t => (after? w t).bind fun rest => (rule rest).map (w, ·) := by
  refine eq_onRest fun before t => ?_
  exact read_literal_cursor w (onRest rule) before t

theorem read_upToLast {last : Char} (hlast : last ≠ '\n') :
    (star any ++ one last).read (onRest rule) = onRest (upToLast? last rule) := by
  rw [read_append, one, read_char, star, any, read_many]
  funext c
  exact repeated?_single? hlast c.rest

theorem read_plusLazy : (plusLazy any).read (onRest rule) = onRest (shortest? rule) := by
  rw [plusLazy, read_append, starLazy, any, read_many, read_char]
  funext c
  exact single?_lazy c.rest

theorem read_line : (star any).read (onRest atEnd) =
    onRest fun t => if t.oneLine then some (t, .empty) else none := by
  rw [star, any, read_many]
  exact congrArg onRest (funext repeated?_atEnd)

end Pattern

namespace Template

variable {p : Pattern} {rule rule₁ rule₂ : Text → Option Tiling}

theorem read_append (r s : Template) (next : Cursor → Option Tiling) :
    (r ++ s).read next = r.read (s.read next) := rfl

theorem read_skip {scan : Text → Option (Text × Tiling)}
    (h : p.read (onRest rule) = onRest scan) :
    (skip p).read (onRest rule) = onRest fun t => (scan t).map fun r => .gap r.1 r.2 := by
  funext c
  rw [skip, read, h]
  simp only [Tiling.gap_append, Tiling.empty_append]
  rfl

theorem read_group {scan : Text → Option (Text × Tiling)}
    (h : p.read (onRest rule) = onRest scan) :
    (group p).read (onRest rule) = onRest fun t => (scan t).map fun r => .piece r.1 r.2 := by
  funext c
  rw [group, read, h]
  simp only [Tiling.piece_append, Tiling.empty_append]
  rfl

theorem read_blanks (h : Text.Inherits isBlank rule) : (skip (.star .blank)).read (onRest rule) =
    onRest (Text.behindBlanks? rule) := by
  rw [Pattern.blank, read_skip (Pattern.read_star h)]
  simp only [Option.map_map, Function.comp_def]
  rfl

theorem read_space (h : Text.Inherits isBlank rule) : (skip (.plus .blank)).read (onRest rule) =
    onRest (Text.behindSpace? rule) := by
  rw [Pattern.blank, read_skip (Pattern.read_plus h)]
  simp only [Option.map_bind, Option.map_map, Function.comp_def]
  rfl

theorem read_literal (w : Text) : (group (.literal w)).read (onRest rule) =
    onRest (Text.behind? w rule) := by
  rw [read_group (Pattern.read_literal w)]
  simp only [Option.map_bind, Option.map_map, Function.comp_def]
  rfl

theorem read_one (x : Char) : (group (.one x)).read (onRest rule) =
    onRest (Text.behind? [x] rule) := by
  rw [read_group (Pattern.read_one x)]
  simp only [Option.map_bind, Option.map_map, Function.comp_def]
  rfl

theorem read_line :
    (group (.star .any)).read (onRest Text.atEnd) = onRest Text.line? := by
  rw [read_group Pattern.read_line]
  simp only [apply_ite (Option.map _), Option.map_some, Option.map_none]
  rfl

theorem read_either {r s : Template}
    (hr : r.read (onRest rule) = onRest rule₁) (hs : s.read (onRest rule) = onRest rule₂) :
    (either r s).read (onRest rule) = onRest fun t => (rule₁ t).or (rule₂ t) := by
  funext c
  rw [read, hr, hs]
  rfl

theorem read_empty : (skip .empty).read (onRest rule) = onRest rule := by
  funext c
  simp [skip, read, Pattern.read, Function.comp_def, Tiling.gap_append, Tiling.empty_append,
    Tiling.gap_nil]

theorem read_finish : (skip .finish).read leave = onRest Text.atEnd := by
  refine eq_onRest fun _ rest => ?_
  cases rest <;> rfl

theorem leave_eq : leave = onRest fun t => some (.gap t .empty) := rfl

/-- A template that can only be read at the start of the text is read there or not at all. -/
theorem tiling?_of_tied {r : Template} (h : ∀ c t, r.read leave ⟨some c, t⟩ = none) (text : Text) :
    r.tiling? text = r.read leave ⟨none, text⟩ := by
  have hsearch (c : Char) (t : Text) : r.search (some c) t = none := by
    induction t generalizing c with
    | nil => rw [search, h]
    | cons d t ih => rw [search, h, ih, Option.map_none, Option.or_none]
  unfold tiling?
  cases text with
  | nil => rfl
  | cons d t => rw [search, hsearch, Option.map_none, Option.or_none]

theorem tiling?_start (r : Template) (text : Text) :
    (skip .start ++ r).tiling? text = r.read leave ⟨none, text⟩ := by
  rw [tiling?_of_tied fun c t => rfl]
  simp [read_append, skip, read, Pattern.read, Function.comp_def, Tiling.gap_append,
    Tiling.empty_append, Tiling.gap_nil]

theorem tiling?_whole {r : Template} (h : r.read (onRest Text.atEnd) = onRest rule) (text : Text) :
    (whole r).tiling? text = rule text := by
  rw [whole, tiling?_start, read_append, read_finish, h]
  rfl

end Template

end Highlighter
