/-
# Where the signature of a definition ends

The signature of a definition is its name with the parameter list.  One would expect the list to end
at the parenthesis that closes the first one.  The rule does not look at brackets: it takes the last
parenthesis on the line behind which the rest of a definition can still be read.

What can be read there is said by a grammar (`Ending`), and the rule reads exactly that
(`isSome_signatureEnd?_iff`).  So the signature ends where its parentheses close exactly if an
ending follows, and no ending follows a later parenthesis on the line (`LastEnding`).  A result or a
body that has parentheses itself can make the signature too long, and then it holds the arrow and
the result (`signature_holds_result`).
-/
import Highlighter.Proofs.Groups
import Highlighter.Proofs.Rules

namespace Highlighter

namespace Text

variable {s t : Text}

theorem oneLine_of_suffix (h : s <:+ t) (ht : t.oneLine = true) : s.oneLine = true := by
  obtain ⟨front, rfl⟩ := h
  rw [oneLine_append, Bool.and_eq_true] at ht
  exact ht.2

theorem trimStart_suffix (t : Text) : t.trimStart <:+ t := ⟨t.leading, leading_append_trimStart t⟩

theorem trimStart_append (h : s.trimStart ≠ []) : (s ++ t).trimStart = s.trimStart ++ t := by
  rw [trimStart, List.dropWhile_append]
  exact if_neg (mt List.isEmpty_iff.mp h)

/-- A shortest part is found if there is any. -/
theorem isSome_shortest? {α : Type} {rule : Text → Option α} {found rest : Text}
    (hne : found ≠ []) (hline : found.oneLine = true) (hrule : (rule rest).isSome = true) :
    (shortest? rule (found ++ rest)).isSome = true := by
  induction found with
  | nil => exact absurd rfl hne
  | cons c cs ih =>
    obtain ⟨hc, hline⟩ := oneLine_cons.mp hline
    rw [List.cons_append, shortest?, if_neg hc]
    split
    · rfl
    · rename_i hnone
      have hcs : cs ≠ [] := by
        rintro rfl
        rw [List.nil_append] at hnone
        rw [hnone] at hrule
        exact Bool.noConfusion hrule
      rw [Option.isSome_map]
      exact ih hcs hline

/-- Two divisions of a text at one offset are the same. -/
theorem append_inj_of_byteSize {s' t' : Text} (h : s ++ t = s' ++ t')
    (hsize : s.byteSize = s'.byteSize) : s = s' ∧ t = t' := by
  have hsplit := splitAtByte_append s t
  rw [h, hsize, splitAtByte_append, Except.ok.injEq, Prod.mk.injEq] at hsplit
  exact ⟨hsplit.1.symm, hsplit.2.symm⟩

end Text

namespace Statement

namespace Definition

variable {text : Text} {t : Tiling}

/-! ## 1. What can follow a signature -/

/-- A colon with blanks around it, and a body on one line. -/
def IsSuite (text : Text) : Prop :=
  ∃ before after body : Text, text = before ++ ':' :: (after ++ body) ∧
    before.blank = true ∧ after.blank = true ∧ body.oneLine = true

/-- **The end of a definition**: the colon and the body, with an arrow and a result in front or
without. -/
inductive Ending : Text → Prop
  | suite {text : Text} (suite : IsSuite text) : Ending text
  | result {before after result rest : Text} (blankBefore : before.blank = true)
      (blankAfter : after.blank = true) (nonempty : result ≠ []) (oneLine : result.oneLine = true)
      (suite : IsSuite rest) : Ending (before ++ (arrow ++ (after ++ (result ++ rest))))

theorem isSome_suite?_iff : (suite? text).isSome = true ↔ IsSuite text := by
  constructor
  · intro h
    obtain ⟨t, ht⟩ := Option.isSome_iff_exists.mp h
    obtain ⟨rest, hcolon, hline, -⟩ := exists_of_suite? ht
    refine ⟨text.leading, rest.leading, rest.trimStart, ?_, Text.blank_leading text,
      Text.blank_leading rest, hline⟩
    rw [Text.leading_append_trimStart, ← hcolon, Text.leading_append_trimStart]
  · rintro ⟨before, after, body, rfl, hbefore, hafter, hbody⟩
    have hstart := (Text.leading_append hbefore (by decide : isBlank ':' = false) (after ++ body)).2
    have hline : (after ++ body).trimStart.oneLine = true := by
      have hbodyStart : (after ++ body).trimStart = body.trimStart :=
        List.dropWhile_append_of_pos (Text.blank_iff.mp hafter)
      rw [hbodyStart]
      exact Text.oneLine_of_suffix (Text.trimStart_suffix body) hbody
    simp [suite?, hstart, hline]

/-- Only if the result is blank is it looked for among the blanks after the arrow. -/
theorem isSome_result? {after result rest : Text} (hafter : after.blank = true)
    (hne : result ≠ []) (hline : result.oneLine = true) (hrest : IsSuite rest) :
    (result? (after ++ (result ++ rest))).isSome = true := by
  have hpass : (after ++ (result ++ rest)).trimStart = (result ++ rest).trimStart :=
    List.dropWhile_append_of_pos (Text.blank_iff.mp hafter)
  unfold result?
  split
  · rfl
  · rename_i hnone
    have hblank : result.blank = true := by
      by_contra hresult
      have hstart : result.trimStart ≠ [] := fun hnil =>
        hresult (Text.blank_iff.mpr (List.dropWhile_eq_nil_iff.mp hnil))
      have hfound := Text.isSome_shortest? hstart
        (Text.oneLine_of_suffix (Text.trimStart_suffix result) hline) (isSome_suite?_iff.mpr hrest)
      rw [← Text.trimStart_append hstart, ← hpass, hnone] at hfound
      exact Bool.noConfusion hfound
    obtain ⟨before, after', body, rfl, hbefore, hafter', hbody⟩ := hrest
    have hblanks : (after ++ (result ++ before)).blank = true := by
      rw [Text.blank_append, Text.blank_append, hafter, hblank, hbefore]
      rfl
    have hwritten : after ++ (result ++ (before ++ ':' :: (after' ++ body)))
        = (after ++ (result ++ before)) ++ ':' :: (after' ++ body) := by simp
    obtain ⟨hleading, hstart⟩ :=
      Text.leading_append hblanks (by decide : isBlank ':' = false) (after' ++ body)
    rw [hwritten, hleading, hstart]
    cases hlast : Text.splitLast? (after ++ (result ++ before)) with
    | none =>
      obtain ⟨c, cs, rfl⟩ := List.exists_cons_of_ne_nil hne
      exact absurd (Text.eq_newline_of_splitLast? hlast c (by simp)) (Text.oneLine_cons.mp hline).1
    | some found =>
      obtain ⟨stem, c, breaks⟩ := found
      have hbreaks : breaks.blank = true := by
        rw [Text.splitLast?_eq_some hlast] at hblanks
        exact Text.blank_iff.mpr fun d hd => Text.blank_iff.mp hblanks d (by simp [hd])
      have hsuite : IsSuite (breaks ++ ':' :: (after' ++ body)) :=
        ⟨breaks, after', body, rfl, hbreaks, hafter', hbody⟩
      obtain ⟨tail, htail⟩ := Option.isSome_iff_exists.mp (isSome_suite?_iff.mpr hsuite)
      simp [htail]

/-- The rule reads exactly the endings. -/
theorem isSome_signatureEnd?_iff : (signatureEnd? text).isSome = true ↔ Ending text := by
  constructor
  · intro h
    obtain ⟨t, ht⟩ := Option.isSome_iff_exists.mp h
    cases readEnd_of_signatureEnd? ht with
    | suite suite => exact .suite (isSome_suite?_iff.mp (Option.isSome_of_eq_some suite))
    | @result rest tail written result =>
      have htext := Text.leading_append_trimStart text
      rw [written, ← Text.leading_append_trimStart rest] at htext
      cases result with
      | @found result rest' tail written core oneLine suite =>
        rw [← htext, written]
        exact .result (Text.blank_leading text) (Text.blank_leading rest) core.nonempty oneLine
          (isSome_suite?_iff.mp (Option.isSome_of_eq_some suite))
      | @blank before after c tail blanks inLine breaks suite =>
        have hbefore : before.blank = true := by
          have hblank := Text.blank_leading rest
          rw [blanks, Text.blank_append, Bool.and_eq_true] at hblank
          exact hblank.1
        have hwritten : text = text.leading ++ (arrow ++ (before ++ ([c] ++
            (after ++ rest.trimStart)))) := by
          rw [blanks] at htext
          simpa using htext.symm
        rw [hwritten]
        exact .result (Text.blank_leading text) hbefore (List.cons_ne_nil c [])
          (Text.oneLine_cons.mpr ⟨inLine, rfl⟩)
          (isSome_suite?_iff.mp (Option.isSome_of_eq_some suite))
  · intro h
    cases h with
    | suite suite =>
      have hsuite := suite
      obtain ⟨before, after, body, rfl, hbefore, -, -⟩ := hsuite
      have hstart :=
        (Text.leading_append hbefore (by decide : isBlank ':' = false) (after ++ body)).2
      unfold signatureEnd?
      split
      · rename_i rest harrow
        rw [hstart, Text.after?_eq_some_iff] at harrow
        exact absurd (List.cons.inj harrow).1 (by decide)
      · exact isSome_suite?_iff.mpr suite
    | @result before after result rest blankBefore blankAfter nonempty oneLine suite =>
      have hstart : (before ++ (arrow ++ (after ++ (result ++ rest)))).trimStart
          = arrow ++ (after ++ (result ++ rest)) :=
        (Text.leading_append blankBefore (by decide : isBlank '-' = false) _).2
      have hafter : Text.after? arrow (arrow ++ (after ++ (result ++ rest)))
          = some (after ++ (result ++ rest)) := Text.after?_eq_some_iff.mpr rfl
      rw [signatureEnd?, hstart, hafter, Option.isSome_map]
      exact isSome_result? blankAfter nonempty oneLine suite

/-! ## 2. The end of a signature -/

/-- An ending on whose first line no other ending follows a closing parenthesis. -/
structure LastEnding (text : Text) : Prop where
  ending : Ending text
  last : ∀ x y : Text, text = x ++ ')' :: y → x.oneLine = true → ¬ Ending y

theorem lastEnding_iff : LastEnding text ↔
    (∃ t, signatureEnd? text = some t) ∧ Text.NoPlace ')' signatureEnd? text := by
  have hnone : ∀ y, ¬ Ending y ↔ signatureEnd? y = none := by
    intro y
    rw [← isSome_signatureEnd?_iff, Bool.not_eq_true, Option.isSome_eq_false_iff,
      Option.isNone_iff_eq_none]
  rw [← Option.isSome_iff_exists, isSome_signatureEnd?_iff]
  simp only [Text.NoPlace, ← hnone]
  exact ⟨fun h => ⟨h.ending, h.last⟩, fun h => ⟨h.1, h.2⟩⟩

/-- On one line there is one parenthesis at most with a last ending behind it. -/
theorem LastEnding.unique {s rest s' rest' : Text} (h : s ++ ')' :: rest = s' ++ ')' :: rest')
    (hs : s.oneLine = true) (hrest : LastEnding rest) (hs' : s'.oneLine = true)
    (hrest' : LastEnding rest') : s = s' := by
  obtain ⟨⟨t, ht⟩, hlast⟩ := lastEnding_iff.mp hrest
  obtain ⟨⟨t', ht'⟩, hlast'⟩ := lastEnding_iff.mp hrest'
  have hparen : ')' ≠ '\n' := by decide
  have hfound := Text.upToLast?_append hparen hs ht hlast
  rw [h, Text.upToLast?_append hparen hs' ht' hlast', Option.some.injEq, Prod.mk.injEq] at hfound
  exact (List.append_cancel_right hfound.1).symm

/-- Of two places on a line the one with a last ending behind it is known by its offset. -/
theorem LastEnding.byteSize_eq_iff {s rest body after : Text} {closer : Char}
    (h : s ++ ')' :: rest = body ++ closer :: after) (hs : s.oneLine = true)
    (hrest : LastEnding rest) :
    s.byteSize = body.byteSize ↔ closer = ')' ∧ body.oneLine = true ∧ LastEnding after := by
  constructor
  · intro hsize
    obtain ⟨rfl, hsame⟩ := Text.append_inj_of_byteSize h hsize
    obtain ⟨rfl, rfl⟩ := List.cons.inj hsame
    exact ⟨rfl, hs, hrest⟩
  · rintro ⟨rfl, hbody, hafter⟩
    rw [LastEnding.unique h hs hrest hbody hafter]

/-- The name before the first parenthesis of a signature. -/
theorem name_eq {name name' inner inner' : Text} (hname : '(' ∉ name) (hname' : '(' ∉ name')
    (h : name ++ '(' :: inner = name' ++ '(' :: inner') : name = name' ∧ inner = inner' := by
  have hpass : ∀ s : Text, '(' ∉ s → ∀ c ∈ s, (c != '(') = true := by
    intro s hs c hc
    rw [bne_iff_ne]
    rintro rfl
    exact hs hc
  have hparen : ('(' != '(') = false := by decide
  have hfirst := Text.takeWhile_append (hpass name hname) hparen inner
  have hsecond := Text.takeWhile_append (hpass name' hname') hparen inner'
  rw [h] at hfirst
  exact ⟨hfirst.1.symm.trans hsecond.1, (List.cons.inj (hfirst.2.symm.trans hsecond.2)).2⟩

theorem not_mem_of_isName {name : Text} (h : IsName name) : '(' ∉ name := by
  intro hmem
  exact absurd (h.2 '(' hmem) (by decide)

end Definition

open Definition (LastEnding)

/-- **The signature of a definition ends where its parentheses close** exactly if they close with a
parenthesis on the same line, what follows is the end of a definition, and no such end follows a
later parenthesis on that line. -/
theorem signature_ends_where_closed_iff {text : Text} (h : definition.spans text ≠ []) :
    ∃ (word sign : Span) (rest : List Span), definition.spans text = word :: sign :: rest ∧
      ∀ (name inner : Text) (i : Nat), sign.text = name ++ '(' :: inner → '(' ∉ name →
        closeOffset text (sign.offset + name.byteSize) = .ok (some i) →
        ∃ (front body after : Text) (closer : Char),
          text = front ++ '(' :: (body ++ closer :: after) ∧
          front.byteSize = sign.offset + name.byteSize ∧ (front ++ '(' :: body).byteSize = i ∧
          (sign.stop = i + 1 ↔ closer = ')' ∧ body.oneLine = true ∧ LastEnding after) := by
  obtain ⟨t, ht, hspans⟩ := exists_tiling_of_spans h
  obtain ⟨word, space, written, tail, rfl, hword, -, hsignature, rfl⟩ :=
    Definition.exists_of_tiling? ht
  have hwordNe : word ≠ [] := by
    rcases hword with rfl | rfl <;> decide
  rw [hspans, Tiling.spans_eq_spansAt, Tiling.spansAt_piece hwordNe, Tiling.spansAt_gap,
    Nat.zero_add]
  cases hsignature with
  | @bare name rest tail isName ending =>
    rw [Tiling.spansAt_piece isName.1]
    refine ⟨_, _, _, rfl, ?_⟩
    intro name' inner i hsign
    have hname : name = name' ++ '(' :: inner := hsign
    have hmem : '(' ∈ name := by
      rw [hname]
      simp
    exact absurd hmem (Definition.not_mem_of_isName isName)
  | @parameters name parameters rest tail isName oneLine ending last =>
    have hsignatureNe : name ++ '(' :: (parameters ++ [')']) ≠ [] := by simp
    rw [Tiling.spansAt_piece hsignatureNe]
    refine ⟨_, _, _, rfl, ?_⟩
    intro name' inner i hsign hname hclose
    obtain ⟨rfl, rfl⟩ := Definition.name_eq (Definition.not_mem_of_isName isName) hname hsign
    have hfront : (word ++ (space ++ name)).byteSize
        = word.byteSize + space.byteSize + name.byteSize := by
      simp only [Text.byteSize_append, Nat.add_assoc]
    have hwritten : word ++ (space ++ (name ++ '(' :: (parameters ++ ')' :: rest)))
        = (word ++ (space ++ name)) ++ '(' :: (parameters ++ ')' :: rest) := by
      simp only [List.append_assoc]
    rw [hwritten, ← hfront, closeOffset_eq (by decide), Except.ok.injEq,
      Option.map_eq_some_iff] at hclose
    obtain ⟨⟨body, closer, after⟩, hsplit, hi⟩ := hclose
    have hsame := Context.splitClosing?_eq_some hsplit
    refine ⟨word ++ (space ++ name), body, after, closer, by rw [hwritten, hsame], hfront, ?_, ?_⟩
    · rw [Text.byteSize_append]
      exact hi
    · have hlast : LastEnding rest := Definition.lastEnding_iff.mpr ⟨⟨_, ending⟩, last⟩
      rw [← Definition.LastEnding.byteSize_eq_iff hsame oneLine hlast, Span.stop, ← hi]
      have hparen : ')'.utf8Size = 1 := by decide
      simp only [Text.byteSize_append, Text.byteSize_cons, Text.byteSize_nil, hparen]
      omega

/-- With a closing parenthesis in a literal among the parameters, the signature still ends where its
parentheses close. -/
theorem signature_ends_where_closed_iff_literal :
    definition.spans "def f(a=')'): pass".toList = [⟨0, "def".toList⟩, ⟨4, "f(a=')')".toList⟩,
        ⟨12, ":".toList⟩, ⟨14, "pass".toList⟩] ∧
      closeOffset "def f(a=')'): pass".toList 5 = .ok (some 11) ∧
      ∃ (front body after : Text) (closer : Char),
        "def f(a=')'): pass".toList = front ++ '(' :: (body ++ closer :: after) ∧
        front.byteSize = 5 ∧ (front ++ '(' :: body).byteSize = 11 ∧
        closer = ')' ∧ body.oneLine = true ∧ LastEnding after := by
  have hspans : definition.spans "def f(a=')'): pass".toList = [⟨0, "def".toList⟩,
      ⟨4, "f(a=')')".toList⟩, ⟨12, ":".toList⟩, ⟨14, "pass".toList⟩] := by decide +kernel
  have hclose : closeOffset "def f(a=')'): pass".toList 5 = .ok (some 11) := by decide +kernel
  have hne : definition.spans "def f(a=')'): pass".toList ≠ [] := hspans ▸ List.cons_ne_nil _ _
  obtain ⟨word, sign, rest, hpieces, hends⟩ := signature_ends_where_closed_iff hne
  rw [hspans, List.cons.injEq, List.cons.injEq] at hpieces
  obtain ⟨-, rfl, -⟩ := hpieces
  obtain ⟨front, body, after, closer, htext, hfront, hbody, hiff⟩ :=
    hends "f".toList "a=')')".toList 11 rfl (by decide) hclose
  exact ⟨hspans, hclose, front, body, after, closer, htext, hfront, hbody,
    hiff.mp (by decide)⟩

/-- **A signature that holds the result**: the result has parentheses, and the signature goes on up
to the last of them, past the arrow. -/
theorem signature_holds_result :
    definition.spans "def f(a) -> g(b): pass".toList = [⟨0, "def".toList⟩,
        ⟨4, "f(a) -> g(b)".toList⟩, ⟨16, ":".toList⟩, ⟨18, "pass".toList⟩] ∧
      closeOffset "def f(a) -> g(b): pass".toList 5 = .ok (some 7) := by
  constructor <;> decide +kernel

end Statement

end Highlighter
