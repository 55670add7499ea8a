/-
# Which rule takes a line apart

The kind of a line is the first one that the line hints at, and a hint is little: a word or a sign
anywhere in the line will do.  So whether a line is taken apart by a rule is mostly a matter of what
the line does *not* hold.  This file says what the hints are without the tests, and then follows two
rules to the end, for assignments and for conditionals.

What is assigned, and what is asked for, may be any text: with brackets that do not close, with
colons, with more signs.  It does not matter, because each rule is held at one place only:

* an assignment at its first sign.  The target has no blank in it, and so the blank after it is the
  first one of the line;
* a conditional at its two ends.

`Statement.of_eq` gives the kind of a line, and `Markup.ofLine_eq` its markup by what the rule of
the kind makes of it.
-/
import Highlighter.Proofs.Lexemes
import Highlighter.Proofs.Surroundings

namespace Highlighter

/-! ## 1. Texts and what they begin and end with -/

namespace Text

variable {s t : Text}

/-- A text occurs in another exactly if it is a part of it. -/
theorem occurs_iff {part t : Text} : occurs part t = true ↔ part <:+: t := by
  induction t with
  | nil => simp [occurs]
  | cons c cs ih =>
    rw [occurs, Bool.or_eq_true, ih, List.isPrefixOf_iff_prefix, List.infix_cons_iff]

/-- Blanks on one line. -/
structure Spacing (t : Text) : Prop where
  blank : t.blank = true
  oneLine : t.oneLine = true

/-- A text that begins and ends with a character other than a blank is a core. -/
theorem core_of_ends {cs : Text} {c d : Char} (hfirst : t = c :: cs) (hlast : t = s ++ [d])
    (hc : isBlank c = false) (hd : isBlank d = false) : t.Core := by
  have hstart : t.trimStart = t := by rw [hfirst, trimStart_of_head hc]
  have hend : t.trimEnd = t := by rw [hlast, (trailing_append hd (v := []) rfl s).2]
  exact ⟨by rw [trim, hstart, hend], by simp [hfirst]⟩

theorem core_of_not_blank (hne : t ≠ []) (ht : ∀ c ∈ t, isBlank c = false) : t.Core := by
  obtain ⟨c, cs, hfirst⟩ := List.exists_cons_of_ne_nil hne
  obtain ⟨us, d, hlast⟩ : ∃ us d, t = us ++ [d] := (List.eq_nil_or_concat' t).resolve_left hne
  exact core_of_ends hfirst hlast (ht c (by simp [hfirst])) (ht d (by simp [hlast]))

/-- Two cores are the ends of a core, whatever stands between them. -/
theorem Core.join (hs : s.Core) (ht : t.Core) (mid : Text) : (s ++ (mid ++ t)).Core := by
  obtain ⟨c, cs, hfirst⟩ := List.exists_cons_of_ne_nil hs.nonempty
  obtain ⟨us, d, hlast⟩ : ∃ us d, t = us ++ [d] :=
    (List.eq_nil_or_concat' t).resolve_left ht.nonempty
  have hstart : s ++ (mid ++ t) = c :: (cs ++ (mid ++ t)) := by rw [hfirst, List.cons_append]
  have hend : s ++ (mid ++ t) = (s ++ (mid ++ us)) ++ [d] := by
    rw [hlast]
    simp only [List.append_assoc]
  exact core_of_ends hstart hend (hs.not_blank_head hfirst) (ht.not_blank_last hlast)

/-- The blanks after a core are what is taken off its end. -/
theorem Core.trailing_append (hs : s.Core) (ht : t.blank = true) :
    (s ++ t).trailing = t ∧ (s ++ t).trimEnd = s := by
  obtain ⟨us, d, hlast⟩ : ∃ us d, s = us ++ [d] :=
    (List.eq_nil_or_concat' s).resolve_left hs.nonempty
  have hend := Text.trailing_append (hs.not_blank_last hlast) ht us
  rwa [← List.singleton_append, ← List.append_assoc, ← hlast] at hend

theorem run?_append {p : Char → Bool} {c : Char} (hne : s ≠ []) (hs : ∀ d ∈ s, p d = true)
    (hc : p c = false) (rest : Text) : run? p (s ++ c :: rest) = some (s, c :: rest) := by
  obtain ⟨htake, hdrop⟩ := takeWhile_append hs hc rest
  rw [run?, htake, hdrop, if_neg (by simpa using hne)]

theorem blanks?_core (hne : s ≠ []) (hs : s.blank = true) (ht : t.Core) :
    blanks? (s ++ t) = some (s, t) := by
  obtain ⟨c, cs, rfl⟩ := List.exists_cons_of_ne_nil ht.nonempty
  exact run?_append hne (blank_iff.mp hs) (ht.not_blank_head rfl) cs

theorem endingIn?_concat (last : Char) (t : Text) : endingIn? last (t ++ [last]) = some t := by
  induction t with
  | nil => simp [endingIn?]
  | cons c cs ih =>
    cases cs with
    | nil => simp [endingIn?]
    | cons d ds =>
      rw [List.cons_append, List.cons_append, endingIn?, ← List.cons_append, ih]
      rfl

end Text

theorem IsName.not_blank {s : Text} (h : IsName s) : ∀ c ∈ s, isBlank c = false := by
  intro c hc
  cases hblank : isBlank c with
  | false => rfl
  | true => rw [← h.2 c hc, not_isWord_of_isBlank hblank]

theorem IsName.core {s : Text} (h : IsName s) : s.Core := Text.core_of_not_blank h.1 h.not_blank

theorem Tiling.trimmed_core {s : Text} (h : s.Core) (t : Tiling) : trimmed s t = piece s t := by
  rw [trimmed, h.blanks.1, h.blanks.2, h.trimmed, gap_nil, gap_nil]

theorem bracketed?_eq_none {c : Char} (hc : isOpener c = false) (cs : Text) :
    bracketed? (c :: cs) = none := by
  rw [bracketed?, hc]
  rfl

/-! ## 2. Hints -/

namespace Statement

theorem Import.hintedBy_iff {line : Text} :
    Import.hintedBy line = true ↔ Import.importWord <:+: line ∨ Import.fromWord <:+: line := by
  rw [Import.hintedBy, Bool.or_eq_true, Text.occurs_iff, Text.occurs_iff]

theorem Definition.hintedBy_iff {line : Text} : Definition.hintedBy line = true ↔
    Definition.defWord <:+: line ∨ Definition.classWord <:+: line := by
  rw [Definition.hintedBy, Bool.or_eq_true, Text.occurs_iff, Text.occurs_iff]

/-- A word character, one blank, an equals sign and one blank, somewhere in a line. -/
def Assignment.Signed (line : Text) : Prop :=
  ∃ a b d, isWord a = true ∧ isBlank b = true ∧ isBlank d = true ∧ [a, b, '=', d] <:+: line

theorem Assignment.hintedBy_iff {line : Text} :
    Assignment.hintedBy line = true ↔ Assignment.Signed line := by
  unfold Assignment.Signed
  fun_induction Assignment.hintedBy line with
  | case1 a b c d rest ih =>
    simp only [Bool.or_eq_true, Bool.and_eq_true, beq_iff_eq, ih]
    constructor
    · rintro (⟨⟨⟨ha, hb⟩, rfl⟩, hd⟩ | ⟨a', b', d', ha, hb, hd, hin⟩)
      · exact ⟨a, b, d, ha, hb, hd, [], rest, rfl⟩
      · exact ⟨a', b', d', ha, hb, hd, List.infix_cons hin⟩
    · rintro ⟨a', b', d', ha, hb, hd, hin⟩
      rcases List.infix_cons_iff.mp hin with ⟨after, hfront⟩ | hlater
      · simp only [List.cons_append, List.nil_append, List.cons.injEq] at hfront
        obtain ⟨rfl, rfl, rfl, rfl, -⟩ := hfront
        exact Or.inl ⟨⟨⟨ha, hb⟩, rfl⟩, hd⟩
      · exact Or.inr ⟨a', b', d', ha, hb, hd, hlater⟩
  | case2 line hshort =>
    -- the sign with what is around it is four characters, and the line has fewer
    refine ⟨fun h => absurd h Bool.false_ne_true, ?_⟩
    rintro ⟨a, b, d, -, -, -, hin⟩
    have hlength := hin.length_le
    match line, hlength with
    | _ :: _ :: _ :: _ :: _, _ => exact (hshort _ _ _ _ _ rfl).elim

/-- A line that has none of the words in it by which imports and definitions are told. -/
def Unannounced (line : Text) : Prop :=
  ∀ word ∈ [Import.importWord, Import.fromWord, Definition.defWord, Definition.classWord],
    ¬ word <:+: line

theorem unannounced_iff {line : Text} :
    Unannounced line ↔ ∀ k ∈ [imports, definition], k.hintedBy line = false := by
  simp only [Unannounced, List.forall_mem_cons, List.not_mem_nil, false_implies, implies_true,
    and_true, hintedBy, Bool.eq_false_iff, ne_eq, Import.hintedBy_iff, Definition.hintedBy_iff,
    not_or, and_assoc]

/-! ## 3. The kind of a line and its markup -/

/-- **The kind of a line** is the first one that the line hints at. -/
theorem of_eq {line : Text} (hcore : line.Core) {kind : Statement}
    {earlier later : List Statement} (horder : inOrder = earlier ++ kind :: later)
    (hearlier : ∀ k ∈ earlier, k.hintedBy line = false) (hkind : kind.hintedBy line = true) :
    of line = kind := by
  have hnone : earlier.find? (·.hintedBy line) = none :=
    List.find?_eq_none.mpr fun k hk => by simp [hearlier k hk]
  have hfirst : (kind :: later).find? (·.hintedBy line) = some kind :=
    List.find?_cons_of_pos hkind
  rw [of, hcore.trimmed, horder, List.find?_append, hnone, hfirst]
  rfl

/-- A line is taken apart by the rule of its kind, if the rule applies. -/
theorem dissectTrimmed_eq {line : Text} {kind : Statement} {t : Tiling} (hkind : of line = kind)
    (ht : kind.tiling? line = some t) : dissectTrimmed line = t := by
  rw [dissectTrimmed, hkind, ht]
  rfl

end Statement

namespace Markup

open Tiling

variable {mark : Text → Markup} {body : Text}

theorem lineBy_core {line : Text} (h : line.Core) :
    lineBy mark line = withGaps (withBlanks mark) (Statement.dissectTrimmed line) := by
  rw [lineBy_eq (h.trimmed.symm ▸ h.nonempty), h.trimmed, h.blanks.1, h.blanks.2, ofRun_nil,
    List.nil_append, List.append_nil]

theorem ofPiece_core {text : Text} (h : text.Core) : ofPiece text = within depthLimit text :=
  ofPieceWithin_core h depthLimit

/-- **The markup of a line** by what the rule of its kind makes of it. -/
theorem ofLine_eq {line : Text} {kind : Statement} {t : Tiling} (hcore : line.Core)
    (hkind : Statement.of line = kind) (ht : kind.tiling? line = some t) :
    ofLine line = withGaps (withBlanks (within depthLimit)) t := by
  rw [ofLine, ofLineWithin, lineBy_core hcore, Statement.dissectTrimmed_eq hkind ht]

theorem ofRun_of_ne_nil {run : Text} (h : run ≠ []) : ofRun run = [.run run] := by
  simp [ofRun, h]

theorem withGaps_core (hbody : body.Core) (run : Text) {t : Tiling} (ht : t.lead = []) :
    withGaps (withBlanks mark) (piece body (gap run t))
      = mark body :: (ofRun run ++ withGaps (withBlanks mark) t) := by
  rw [withGaps_piece hbody.nonempty, withBlanks_core hbody, withGaps_gap run ht,
    List.singleton_append]

theorem withGaps_last (hbody : body.Core) :
    withGaps (withBlanks mark) (piece body empty) = [mark body] := by
  rw [withGaps_piece hbody.nonempty, withBlanks_core hbody, withGaps_empty, List.append_nil]

end Markup

/-! ## 4. Assignments -/

namespace Statement.Assignment

/-- What can be assigned to: a name, or a name and one field of it. -/
inductive IsTarget : Text → Prop
  | name {s : Text} (name : IsName s) : IsTarget s
  | field {s f : Text} (name : IsName s) (field : IsName f) : IsTarget (s ++ '.' :: f)

variable {target after value : Text} {b : Char}

theorem IsTarget.core (h : IsTarget target) : target.Core := by
  cases h with
  | name name => exact name.core
  | field name field => exact name.core.join field.core ['.']

theorem IsTarget.exists_last (h : IsTarget target) :
    ∃ s a, target = s ++ [a] ∧ isWord a = true := by
  cases h with
  | name name =>
    obtain ⟨s, a, rfl⟩ := (List.eq_nil_or_concat' target).resolve_left name.1
    exact ⟨s, a, rfl, name.2 a (by simp)⟩
  | @field n f name field =>
    obtain ⟨s, a, rfl⟩ := (List.eq_nil_or_concat' f).resolve_left field.1
    exact ⟨n ++ '.' :: s, a, by simp, field.2 a (by simp)⟩

theorem word?_append {s : Text} {c : Char} (hs : IsName s) (hc : isWord c = false) (rest : Text) :
    Text.word? (s ++ c :: rest) = some (s, c :: rest) := Text.run?_append hs.1 hs.2 hc rest

/-- The target ends at the first blank. -/
theorem IsTarget.target?_eq (h : IsTarget target) (hb : isBlank b = true) (rest : Text) :
    target? (target ++ b :: rest) = some (target, b :: rest) := by
  have hword := not_isWord_of_isBlank hb
  have hdot : b ≠ '.' := by
    rintro rfl
    exact absurd hb (by decide)
  cases h with
  | name name =>
    rw [target?, word?_append name hword]
    simp [hdot]
  | @field s f name field =>
    rw [target?, List.append_assoc, List.cons_append, word?_append name (by decide)]
    simp [word?_append field hword]

theorem value?_eq (hne : after ≠ []) (hafter : after.blank = true) (hvalue : value.Core)
    (hline : value.oneLine = true) :
    value? (after ++ value) = some (.gap after (.piece value .empty)) := by
  rw [value?, Text.blanks?_core hne hafter hvalue]
  obtain ⟨c, cs, rfl⟩ := List.exists_cons_of_ne_nil hvalue.nonempty
  exact if_pos hline

theorem hintedBy_eq (ht : IsTarget target) (hb : isBlank b = true) (hne : after ≠ [])
    (hafter : after.blank = true) :
    Assignment.hintedBy (target ++ b :: '=' :: (after ++ value)) = true := by
  obtain ⟨s, a, rfl, ha⟩ := ht.exists_last
  obtain ⟨d, ds, rfl⟩ := List.exists_cons_of_ne_nil hne
  refine hintedBy_iff.mpr ⟨a, b, d, ha, hb, Text.blank_iff.mp hafter d List.mem_cons_self,
    s, ds ++ value, ?_⟩
  simp

/-- **An assignment is divided at its first sign.** -/
theorem tiling?_eq (ht : IsTarget target) (hb : isBlank b = true) (hne : after ≠ [])
    (hafter : after.blank = true) (hvalue : value.Core) (hline : value.oneLine = true) :
    Assignment.tiling? (target ++ b :: '=' :: (after ++ value)) = some (.piece target (.gap [b]
      (.piece ['='] (.gap after (.piece value .empty))))) := by
  have hsign : Text.Core ('=' :: (after ++ value)) :=
    (Text.core_singleton (by decide)).join hvalue after
  have hspace : Text.blanks? (b :: '=' :: (after ++ value)) = some ([b], '=' :: (after ++ value)) :=
    Text.blanks?_core (s := [b]) (List.cons_ne_nil b []) (by simp [Text.blank, hb]) hsign
  simp [Assignment.tiling?, ht.target?_eq hb, hspace, Text.after?,
    value?_eq hne hafter hvalue hline]

end Statement.Assignment

/-! ## 5. Conditionals -/

namespace Statement.Conditional

variable {before condition after : Text}

/-- A conditional as written: the word, blanks, the condition, blanks and the colon. -/
def written (before condition after : Text) : Text :=
  ifWord ++ (before ++ (condition ++ (after ++ [':'])))

theorem core_written (before condition after : Text) :
    (written before condition after).Core := by
  have hif : ifWord.Core := ⟨by decide, by decide⟩
  have hcolon : Text.Core [':'] := Text.core_singleton (by decide)
  have hends := hif.join hcolon (before ++ (condition ++ after))
  simpa only [written, List.append_assoc] using hends

theorem hintedBy_written (hne : before ≠ []) (hbefore : before.Spacing)
    (hline : condition.oneLine = true) (hafter : after.Spacing) :
    Conditional.hintedBy (written before condition after) = true := by
  have hcolon : Text.endingIn? ':' (before ++ (condition ++ (after ++ [':'])))
      = some (before ++ (condition ++ after)) := by
    rw [← List.append_assoc condition, ← List.append_assoc, Text.endingIn?_concat]
  have honeLine : Text.oneLine (before ++ (condition ++ (after ++ [':']))) = true := by
    have hb := hbefore.oneLine
    have ha := hafter.oneLine
    rw [Text.oneLine] at hb hline ha
    rw [Text.oneLine, List.all_append, List.all_append, List.all_append, hb, hline, ha]
    rfl
  have hword : (before ++ (condition ++ (after ++ [':']))).head?.any isWord = false := by
    obtain ⟨b, bs, rfl⟩ := List.exists_cons_of_ne_nil hne
    exact not_isWord_of_isBlank (Text.blank_iff.mp hbefore.blank b List.mem_cons_self)
  rw [Conditional.hintedBy, written, Text.after?_eq_some_iff.mpr rfl]
  simp only [hword, honeLine, hcolon]
  rfl

/-- **A conditional is divided at its ends.** -/
theorem tiling?_written (hne : before ≠ []) (hbefore : before.blank = true)
    (hcore : condition.Core) (hline : condition.oneLine = true) (hafter : after.blank = true) :
    Conditional.tiling? (written before condition after) = some (.piece ifWord (.gap before
      (.piece condition (.gap after (.piece [':'] .empty))))) := by
  have hrest : Text.Core (condition ++ (after ++ [':'])) :=
    hcore.join (Text.core_singleton (by decide)) after
  have hcolon : Text.endingIn? ':' (condition ++ (after ++ [':'])) = some (condition ++ after) := by
    rw [← List.append_assoc, Text.endingIn?_concat]
  obtain ⟨htrailing, hend⟩ := hcore.trailing_append hafter
  simp [Conditional.tiling?, written, Text.after?_eq_some_iff.mpr rfl,
    Text.blanks?_core hne hbefore hrest, hcolon, hend, htrailing, hline]

end Statement.Conditional

/-! ## 6. Their markup -/

namespace Markup

open Statement Tiling

theorem ofLine_assignment {target after value : Text} {b : Char}
    (ht : Assignment.IsTarget target) (hb : isBlank b = true) (hne : after ≠ [])
    (hafter : after.blank = true) (hvalue : value.Core) (hline : value.oneLine = true)
    (hother : Unannounced (target ++ b :: '=' :: (after ++ value))) :
    ofLine (target ++ b :: '=' :: (after ++ value))
      = [ofPiece target, .run [b], single .operator ['='], .run after, ofPiece value] := by
  have hcore : Text.Core (target ++ b :: '=' :: (after ++ value)) :=
    ht.core.join hvalue (b :: '=' :: after)
  have hkind : Statement.of (target ++ b :: '=' :: (after ++ value)) = .assignment :=
    of_eq hcore rfl (unannounced_iff.mp hother) (Assignment.hintedBy_eq ht hb hne hafter)
  have hsign : Text.Core ['='] := Text.core_singleton (by decide)
  have hoperator : Form.of ['='] = .atom .operator := by decide
  rw [ofLine_eq hcore hkind (Assignment.tiling?_eq ht hb hne hafter hvalue hline),
    withGaps_core ht.core _ (lead_piece hsign.nonempty _),
    withGaps_core hsign _ (lead_piece hvalue.nonempty _), withGaps_last hvalue,
    within_of_atom hoperator, ofRun_of_ne_nil (List.cons_ne_nil b []), ofRun_of_ne_nil hne,
    ofPiece_core ht.core, ofPiece_core hvalue]
  rfl

theorem ofLine_conditional {before condition after : Text} (hne : before ≠ [])
    (hbefore : before.Spacing) (hcondition : condition.Core)
    (hline : condition.oneLine = true) (hafter : after.Spacing)
    (hother : Unannounced (Conditional.written before condition after))
    (hunsigned : ¬ Assignment.Signed (Conditional.written before condition after)) :
    ofLine (Conditional.written before condition after)
      = single .keyword Conditional.ifWord :: .run before :: ofPiece condition ::
          (ofRun after ++ [single .operator [':']]) := by
  have hcore := Conditional.core_written before condition after
  have hassignment : Assignment.hintedBy (Conditional.written before condition after) = false :=
    Bool.eq_false_iff.mpr fun h => hunsigned (Assignment.hintedBy_iff.mp h)
  have hearlier : ∀ k ∈ [imports, definition] ++ [.assignment],
      k.hintedBy (Conditional.written before condition after) = false :=
    List.forall_mem_append.mpr
      ⟨unannounced_iff.mp hother, List.forall_mem_singleton.mpr hassignment⟩
  have hkind : Statement.of (Conditional.written before condition after) = .conditional :=
    of_eq hcore rfl hearlier (Conditional.hintedBy_written hne hbefore hline hafter)
  have hif : Conditional.ifWord.Core := ⟨by decide, by decide⟩
  have hcolon : Text.Core [':'] := Text.core_singleton (by decide)
  have hkeyword : Form.of Conditional.ifWord = .atom .keyword := by decide
  have hoperator : Form.of [':'] = .atom .operator := by decide
  have htiling := Conditional.tiling?_written hne hbefore.blank hcondition hline hafter.blank
  rw [ofLine_eq hcore hkind htiling, withGaps_core hif _ (lead_piece hcondition.nonempty _),
    withGaps_core hcondition _ (lead_piece hcolon.nonempty _), withGaps_last hcolon,
    within_of_atom hkeyword, within_of_atom hoperator, ofRun_of_ne_nil hne,
    ofPiece_core hcondition]
  rfl

/-- **Assignments and conditionals are marked by their parts.**  A line `target = value` is marked
as its target, an operator and its value, and a line `if condition:` as a keyword, its condition and
an operator, each part as it would be by itself; the blanks between the parts stay where they are.
The value and the condition are any text on one line.  It is only asked that the line does not look
like an import or a definition, and, for a conditional, that it does not look like an assignment. -/
theorem statements_marked_by_parts :
    (∀ (target : Text) (w₁ : Char) (w₂ r : Text), Assignment.IsTarget target →
      isBlank w₁ = true → w₂ ≠ [] → w₂.blank = true → r.Core → r.oneLine = true →
      Unannounced (target ++ w₁ :: '=' :: (w₂ ++ r)) →
      ofLine (target ++ w₁ :: '=' :: (w₂ ++ r))
        = [ofPiece target, .run [w₁], single .operator ['='], .run w₂, ofPiece r]) ∧
    ∀ u c v : Text, u ≠ [] → u.Spacing → c.Core → c.oneLine = true → v.Spacing →
      Unannounced (Conditional.written u c v) → ¬ Assignment.Signed (Conditional.written u c v) →
      ofLine (Conditional.written u c v)
        = single .keyword Conditional.ifWord :: .run u :: ofPiece c ::
            (ofRun v ++ [single .operator [':']]) := by
  constructor
  · intro target w₁ w₂ r htarget hw₁ hne hw₂ hr hline hother
    exact ofLine_assignment htarget hw₁ hne hw₂ hr hline hother
  · intro u c v hne hu hc hline hv hother hunsigned
    exact ofLine_conditional hne hu hc hline hv hother hunsigned

/-- The value has a comparison in it and a second sign, in a literal that is not closed; the
condition has a colon in a literal, and a blank of three bytes after it. -/
theorem statements_marked_by_parts_signs :
    (Assignment.IsTarget "self.x".toList ∧ isBlank '\t' = true ∧
      Text.Core "a == '= b".toList ∧ Unannounced "self.x\t= a == '= b".toList ∧
      ofLine "self.x\t= a == '= b".toList
        = [ofPiece "self.x".toList, .run ['\t'], single .operator ['='], .run [' '],
            ofPiece "a == '= b".toList]) ∧
    (Text.Spacing [' '] ∧ Text.Core "x == 'a: b'".toList ∧ Text.Spacing ['\u3000'] ∧
      Unannounced "if x == 'a: b'\u3000:".toList ∧
      ¬ Assignment.Signed "if x == 'a: b'\u3000:".toList ∧
      ofLine "if x == 'a: b'\u3000:".toList
        = [single .keyword "if".toList, .run [' '], ofPiece "x == 'a: b'".toList,
            .run ['\u3000'], single .operator [':']]) := by
  have htarget : Assignment.IsTarget "self.x".toList :=
    .field (s := "self".toList) (f := "x".toList) (Name.isName_iff.mp (by decide))
      (Name.isName_iff.mp (by decide))
  have hvalue : Text.Core "a == '= b".toList := ⟨by decide, by decide⟩
  have hassignment : Unannounced "self.x\t= a == '= b".toList :=
    unannounced_iff.mpr (List.forall_mem_cons.mpr ⟨by decide, by decide⟩)
  have hspace : Text.Spacing [' '] := ⟨by decide, by decide⟩
  have hcondition : Text.Core "x == 'a: b'".toList := ⟨by decide, by decide⟩
  have hwide : Text.Spacing ['\u3000'] := ⟨by decide, by decide⟩
  have hconditional : Unannounced "if x == 'a: b'\u3000:".toList :=
    unannounced_iff.mpr (List.forall_mem_cons.mpr ⟨by decide, by decide⟩)
  have hunsigned : ¬ Assignment.Signed "if x == 'a: b'\u3000:".toList := by
    rw [← Assignment.hintedBy_iff]
    decide
  obtain ⟨hassigned, htested⟩ := statements_marked_by_parts
  exact ⟨⟨htarget, by decide, hvalue, hassignment, hassigned "self.x".toList '\t' [' ']
      "a == '= b".toList htarget (by decide) (by decide) (by decide) hvalue (by decide)
      hassignment⟩,
    hspace, hcondition, hwide, hconditional, hunsigned, htested [' '] "x == 'a: b'".toList
      ['\u3000'] (by decide) hspace hcondition (by decide) hwide hconditional hunsigned⟩

end Markup

end Highlighter
