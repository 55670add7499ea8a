/-
# Two readers of literals

Quotes and backslashes are read twice in the library, by two machines of their own.  One is the
test for literals, which looks for the first quote that no backslash escapes and asks whether it
ends the text.  The other is the context, which goes through a text of any kind and remembers the
open quote beside the open brackets.

They agree.  A text is a literal exactly if the context sees one quote, open from the first
character on and closed by the last; and then no character of it is exposed, and the context has
forgotten it when it reaches what follows.

* `Quoting.mark?`: the quote that is open, if any;
* `Literal.endsAt_iff`: the step, from inside a literal to its end.
-/
import Highlighter.Proofs.Lexemes

namespace Highlighter

/-- The quote that has to come next for the open literal to end, if a literal is open. -/
def Quoting.mark? : Quoting → Option Char
  | .outside => none
  | .inside mark => some mark
  | .escaped mark => some mark

namespace Literal

open Context

variable {mark : Char}

/-! ## 1. From inside a literal to its end -/

/-- A literal stays open before each character of a text that is read inside it. -/
def StaysOpen (mark : Char) (k : Context) (t : Text) : Prop :=
  Throughout (fun k _ => k.quoting.mark? = some mark) k t

/-- **The first unescaped quote ends a text** exactly if the context keeps the literal open up to
the last character, and not after it. -/
theorem endsAt_iff (hquote : isQuote mark = true) (t : Text) :
    endsAt mark t = true ↔ StaysOpen mark ⟨0, .inside mark⟩ t ∧
      (readAll ⟨0, .inside mark⟩ t).quoting.mark? = none := by
  fun_induction endsAt mark t with
  | case1 => simp [Quoting.mark?]
  | case2 c cs ih =>
    -- a backslash and what it escapes lead back to where they began
    rw [ih, StaysOpen, StaysOpen, Throughout, Throughout, read_backslash, read_escaped,
      readAll_cons, readAll_cons, read_backslash, read_escaped]
    simp [Quoting.mark?]
  | case3 cs _ =>
    rw [StaysOpen, Throughout, readAll_cons, read_mark hquote]
    cases cs with
    | nil => simp [Throughout, Quoting.mark?]
    | cons d ds => simp [Throughout, Quoting.mark?]
  | case4 c cs hlone hmark ih =>
    by_cases hslash : c = '\\'
    · -- a backslash here is the last character, and escapes nothing
      subst hslash
      have hlast : cs = [] := by
        cases cs with
        | nil => rfl
        | cons d ds => exact (hlone d ds rfl rfl).elim
      subst hlast
      simp [endsAt, read_backslash, Quoting.mark?]
    · rw [ih, StaysOpen, StaysOpen, Throughout, readAll_cons, read_inside hmark hslash]
      simp [Quoting.mark?]

/-- The same by prefixes: the literal is open after each one that is not the whole text. -/
theorem staysOpen_iff {k : Context} {t : Text} : StaysOpen mark k t ↔
    ∀ s, s <+: t → s ≠ t → (k.readAll s).quoting.mark? = some mark := by
  rw [StaysOpen, throughout_iff]
  constructor
  · rintro h s ⟨rest, rfl⟩ hproper
    cases rest with
    | nil => exact absurd (List.append_nil s).symm hproper
    | cons c after => exact h s c after rfl
  · rintro h before c after rfl
    exact h before (List.prefix_append _ _) (by simp)

/-! ## 2. Whole literals -/

/-- A text is a literal exactly if its first character is a quote that is open, for the context,
up to the last character. -/
theorem isLiteral_cons_iff {cs : Text} : isLiteral (mark :: cs) = true ↔ isQuote mark = true ∧
    (∀ s, s <+: cs → s ≠ cs → (start.readAll (mark :: s)).quoting.mark? = some mark) ∧
    (start.readAll (mark :: cs)).quoting.mark? = none := by
  rw [isLiteral, Bool.and_eq_true]
  refine and_congr_right fun hquote => ?_
  have hread : start.read mark = ⟨0, .inside mark⟩ := read_quote hquote
  simp only [readAll_cons, hread]
  rw [endsAt_iff hquote, staysOpen_iff]

/-- No character of a literal is exposed, and nothing is open after it. -/
theorem exposes_of_isLiteral {t : Text} (h : isLiteral t = true) :
    Throughout (fun k c => k.exposes c = false) .start t ∧ start.readAll t = .start := by
  have hbalanced : Balanced (fun _ => false) t := by
    cases isLiteral_iff.mp h with
    | mk quote inner => exact .literal quote inner .nil
  refine ⟨(hbalanced.stays 0).imp ?_, hbalanced.readAll_eq 0⟩
  intro k c hstays
  exact hstays.allowed.resolve_right Bool.false_ne_true

/-- **The two readers of literals agree.**  A text is a literal exactly if it begins with a quote,
that quote is open for the context after each part of the text that is neither empty nor all of
it, and closed after the text.  And where a literal stands in front of any text, none of its
characters is exposed, and the context is back at the start where the literal ends. -/
theorem quote_readers_agree (t : Text) :
    (isLiteral t = true ↔ ∃ mark, isQuote mark = true ∧ t.head? = some mark ∧
      (∀ s, s <+: t → s ≠ [] → s ≠ t → (start.readAll s).quoting.mark? = some mark) ∧
      (start.readAll t).quoting.mark? = none) ∧
    (isLiteral t = true → ∀ u before rest : Text, t ++ u = before ++ rest →
      (before.length < t.length → ∀ c ∈ rest.head?, (start.readAll before).exposes c = false) ∧
      (before.length = t.length → start.readAll before = .start)) := by
  constructor
  · cases t with
    | nil => simp [isLiteral]
    | cons mark cs =>
      rw [isLiteral_cons_iff]
      constructor
      · rintro ⟨hquote, hopen, hclosed⟩
        refine ⟨mark, hquote, rfl, ?_, hclosed⟩
        intro s hprefix hne hproper
        obtain ⟨c, s, rfl⟩ := List.exists_cons_of_ne_nil hne
        obtain ⟨rfl, htail⟩ := List.cons_prefix_cons.mp hprefix
        exact hopen s htail fun h => hproper (h ▸ rfl)
      · rintro ⟨c, hquote, hhead, hopen, hclosed⟩
        obtain rfl : mark = c := Option.some.inj hhead
        refine ⟨hquote, ?_, hclosed⟩
        intro s hprefix hproper
        exact hopen (mark :: s) (List.cons_prefix_cons.mpr ⟨rfl, hprefix⟩)
          (List.cons_ne_nil _ _) fun h => hproper (List.cons.inj h).2
  · intro h u before rest hsplit
    obtain ⟨hhidden, hback⟩ := exposes_of_isLiteral h
    constructor
    · intro hshort c hc
      obtain ⟨after, rfl⟩ : ∃ after, rest = c :: after := List.head?_eq_some_iff.mp hc
      rcases Text.append_eq_append_cons hsplit with ⟨more, rfl⟩ | ⟨mid, rfl, -⟩
      · exact throughout_iff.mp hhidden before c more rfl
      · rw [List.length_append] at hshort
        omega
    · intro hlong
      obtain ⟨rfl, -⟩ := List.append_inj hsplit hlong.symm
      exact hback

/-- A literal that holds an escaped quote, a comma, a bracket that nothing closes and a quote of
the other kind, in front of a comma.  After the escaped quote it is still open, and the comma
that comes next is not exposed. -/
theorem quote_readers_agree_escapes :
    isLiteral "'\\',(\"'".toList = true ∧
      (start.readAll "'\\'".toList).quoting.mark? = some '\'' ∧
      (start.readAll "'\\',(\"'".toList).quoting.mark? = none ∧
      (start.readAll "'\\'".toList).exposes ',' = false ∧
      start.readAll "'\\',(\"'".toList = .start := by
  have hliteral : isLiteral "'\\',(\"'".toList = true := by decide
  obtain ⟨hiff, hfollowed⟩ := quote_readers_agree "'\\',(\"'".toList
  obtain ⟨mark, -, hhead, hopen, hclosed⟩ := hiff.mp hliteral
  obtain rfl : '\'' = mark := Option.some.inj hhead
  refine ⟨hliteral, hopen _ ⟨",(\"'".toList, rfl⟩ (by decide) (by decide), hclosed, ?_, ?_⟩
  · exact (hfollowed hliteral ", x".toList _ ",(\"', x".toList rfl).1 (by decide) ',' rfl
  · exact (hfollowed hliteral ", x".toList _ ", x".toList rfl).2 rfl

end Literal

end Highlighter
