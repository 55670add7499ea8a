/-
# The grammars of lexemes

Names, numbers and literals are recognised by tests that walk through a text.  Here each of them
has a grammar, written without the test, and the test passes exactly what the grammar allows.

* `IsName`, `IsPath`: a name, and names with dots between them;
* `IsDigits`, `IsDecimal`: digits, and a number with or without a sign and a fraction;
* `IsLiteral`: a quoted text, in which the quote does not occur unescaped;
* `IsCall`: a dotted name and a balanced text between brackets.

A call is opened by a parenthesis, but the kinds of bracket are not compared.  Which brackets may
close it is therefore a parameter of `IsCall`; all of them do (`Form.exists_call?_iff`).
-/
import Highlighter.Proofs.Arguments
import Highlighter.Proofs.Groups

namespace Highlighter

/-! ## 1. Names -/

/-- A name: one word character or more. -/
def IsName (t : Text) : Prop := t ≠ [] ∧ ∀ c ∈ t, isWord c = true

/-- A dotted name: names, with one dot between neighbours. -/
inductive IsPath : Text → Prop
  | name {t : Text} (name : IsName t) : IsPath t
  | dotted {s t : Text} (name : IsName s) (more : IsPath t) : IsPath (s ++ '.' :: t)

namespace Name

theorem isName_iff {t : Text} : isName t = true ↔ IsName t := by
  simp [isName, IsName]

/-- Names that are joined by dots are a dotted name. -/
theorem isPath_intercalate {parts : List Text} (hne : parts ≠ [])
    (h : ∀ p ∈ parts, IsName p) : IsPath (['.'].intercalate parts) := by
  induction parts with
  | nil => exact absurd rfl hne
  | cons p ps ih =>
    have hp : IsName p := h p List.mem_cons_self
    cases ps with
    | nil =>
      rw [List.intercalate_singleton]
      exact .name hp
    | cons q qs =>
      rw [List.intercalate_cons_cons, List.append_assoc, List.singleton_append]
      exact .dotted hp (ih (List.cons_ne_nil q qs) fun r hr => h r (List.mem_cons_of_mem p hr))

theorem split_of_isName {t : Text} (h : IsName t) : Text.split '.' t = [t] := by
  refine Text.split_of_notMem ?_
  intro hdot
  exact absurd (h.2 '.' hdot) (by decide)

/-- **The test for dotted names** passes exactly the dotted names. -/
theorem isPath_iff {t : Text} : isPath t = true ↔ IsPath t := by
  rw [isPath, List.all_eq_true]
  constructor
  · intro h
    rw [← Text.intercalate_split '.' t]
    exact isPath_intercalate (Text.split_ne_nil '.' t) fun p hp => isName_iff.mp (h p hp)
  · intro h
    induction h with
    | name name =>
      rw [split_of_isName name]
      exact List.forall_mem_singleton.mpr (isName_iff.mpr name)
    | dotted name _ ih =>
      rw [Text.split_append_cons, split_of_isName name, List.singleton_append]
      exact List.forall_mem_cons.mpr ⟨isName_iff.mpr name, ih⟩

end Name

/-! ## 2. Numbers -/

/-- One digit or more. -/
def IsDigits (t : Text) : Prop := t ≠ [] ∧ ∀ c ∈ t, c.isDigit = true

/-- Nothing, or a point and digits. -/
inductive IsFraction : Text → Prop
  | none : IsFraction []
  | digits {t : Text} (digits : IsDigits t) : IsFraction ('.' :: t)

/-- **A number**: digits and a fraction, with a minus sign in front or without. -/
inductive IsDecimal : Text → Prop
  | positive {whole fraction : Text} (digits : IsDigits whole) (more : IsFraction fraction) :
      IsDecimal (whole ++ fraction)
  | negative {whole fraction : Text} (digits : IsDigits whole) (more : IsFraction fraction) :
      IsDecimal ('-' :: (whole ++ fraction))

namespace Number

theorem isDigits_iff {t : Text} : isDigits t = true ↔ IsDigits t := by
  simp [isDigits, IsDigits]

theorem isUnsigned_iff {t : Text} : isUnsigned t = true ↔
    ∃ whole fraction, IsDigits whole ∧ IsFraction fraction ∧ t = whole ++ fraction := by
  constructor
  · intro h
    have htext := List.takeWhile_append_dropWhile (p := Char.isDigit) (l := t)
    have hdigits : ∀ c ∈ t.takeWhile Char.isDigit, c.isDigit = true :=
      fun _ => List.mem_takeWhile_imp
    unfold isUnsigned at h
    split at h
    · rename_i hrest
      rw [hrest, List.append_nil] at htext
      rw [htext] at hdigits
      exact ⟨t, [], ⟨by simpa using h, hdigits⟩, .none, by simp⟩
    · rename_i c cs hrest
      simp only [Bool.and_eq_true, beq_iff_eq, isDigits_iff] at h
      obtain ⟨⟨rfl, hwhole⟩, hmore⟩ := h
      exact ⟨_, _, hwhole, .digits hmore, by rw [← hrest, htext]⟩
  · rintro ⟨whole, fraction, hwhole, hfraction, rfl⟩
    unfold isUnsigned
    cases hfraction with
    | none =>
      have hdrop : (whole ++ []).dropWhile Char.isDigit = [] := by
        simpa using hwhole.2
      rw [hdrop]
      simpa using hwhole.1
    | @digits more digits =>
      obtain ⟨htake, hdrop⟩ := Text.takeWhile_append hwhole.2 (by decide : '.'.isDigit = false) more
      simp [hdrop, htake, isDigits_iff.mpr hwhole, isDigits_iff.mpr digits]

/-- **The test for numbers** passes exactly the numbers. -/
theorem isNumber_iff {t : Text} : isNumber t = true ↔ IsDecimal t := by
  constructor
  · intro h
    unfold isNumber at h
    split at h
    · obtain ⟨whole, fraction, hwhole, hfraction, rfl⟩ := isUnsigned_iff.mp h
      exact .negative hwhole hfraction
    · obtain ⟨whole, fraction, hwhole, hfraction, rfl⟩ := isUnsigned_iff.mp h
      exact .positive hwhole hfraction
  · intro h
    cases h with
    | @positive whole fraction digits more =>
      obtain ⟨c, cs, rfl⟩ := List.exists_cons_of_ne_nil digits.1
      have hsign : c ≠ '-' := by
        rintro rfl
        exact absurd (digits.2 '-' List.mem_cons_self) (by decide)
      have hunsigned := isUnsigned_iff.mpr ⟨_, _, digits, more, rfl⟩
      rw [List.cons_append] at hunsigned ⊢
      unfold isNumber
      split
      · rename_i hcs
        exact absurd (List.cons.inj hcs).1 hsign
      · exact hunsigned
    | negative digits more => exact isUnsigned_iff.mpr ⟨_, _, digits, more, rfl⟩

end Number

/-! ## 3. Literals -/

/-- **A literal**: a quote, what stands between quotes, and the same quote. -/
inductive IsLiteral : Text → Prop
  | mk {mark : Char} {body : Text} (quote : isQuote mark = true) (inner : LiteralBody mark body) :
      IsLiteral (mark :: (body ++ [mark]))

namespace Literal

variable {mark : Char}

theorem ne_backslash_of_isQuote (h : isQuote mark = true) : mark ≠ '\\' := by
  rintro rfl
  exact absurd h (by decide)

theorem exists_of_endsAt {t : Text} (h : endsAt mark t = true) :
    ∃ body, LiteralBody mark body ∧ t = body ++ [mark] := by
  fun_induction endsAt mark t with
  | case1 => exact absurd h Bool.false_ne_true
  | case2 c cs ih =>
    obtain ⟨body, hbody, rfl⟩ := ih h
    exact ⟨'\\' :: c :: body, .pair hbody, rfl⟩
  | case3 cs hlone =>
    exact ⟨[], .nil, by rw [List.isEmpty_iff.mp h]; rfl⟩
  | case4 c cs hlone hmark ih =>
    obtain ⟨body, hbody, rfl⟩ := ih h
    -- a backslash here would begin a pair, since something follows it
    have hslash : c ≠ '\\' := by
      rintro rfl
      obtain ⟨d, ds, hcons⟩ := List.exists_cons_of_ne_nil (List.append_ne_nil_of_right_ne_nil body
        (List.cons_ne_nil mark []))
      exact hlone d ds rfl hcons
    exact ⟨c :: body, .char hmark hslash hbody, rfl⟩

theorem endsAt_cons {c : Char} (hslash : c ≠ '\\') (cs : Text) :
    endsAt mark (c :: cs) = if c = mark then cs.isEmpty else endsAt mark cs := by
  rw [endsAt]
  rintro d ds rfl
  exact absurd rfl hslash

theorem endsAt_of_literalBody (hquote : isQuote mark = true) {body : Text}
    (h : LiteralBody mark body) : endsAt mark (body ++ [mark]) = true := by
  induction h with
  | nil =>
    rw [List.nil_append, endsAt_cons (ne_backslash_of_isQuote hquote), if_pos rfl]
    rfl
  | char other slash _ ih => rw [List.cons_append, endsAt_cons slash, if_neg other, ih]
  | pair _ ih => rw [List.cons_append, List.cons_append, endsAt, ih]

/-- **The test for literals** passes exactly the literals. -/
theorem isLiteral_iff {t : Text} : isLiteral t = true ↔ IsLiteral t := by
  constructor
  · intro h
    cases t with
    | nil => exact absurd h Bool.false_ne_true
    | cons c cs =>
      rw [isLiteral, Bool.and_eq_true] at h
      obtain ⟨body, hbody, rfl⟩ := exists_of_endsAt h.2
      exact .mk h.1 hbody
  · rintro ⟨quote, inner⟩
    rw [isLiteral, quote, endsAt_of_literalBody quote inner, Bool.and_self]

end Literal

/-! ## 4. Calls -/

/-- **A call** of the dotted name `path`: the name, a parenthesis, a balanced text, and a character
that may end a call. -/
inductive IsCall (ends : Char → Bool) (path : Text) : Text → Prop
  | mk {body : Text} {closer : Char} (named : IsPath path)
      (inner : Balanced (fun _ => true) body) (closes : ends closer = true) :
      IsCall ends path (path ++ '(' :: (body ++ [closer]))

theorem IsCall.exists_last {ends : Char → Bool} {path text : Text} (h : IsCall ends path text) :
    ∃ closer, text.getLast? = some closer ∧ ends closer = true := by
  cases h with
  | @mk body closer _ _ closes =>
    refine ⟨closer, ?_, closes⟩
    rw [← List.cons_append, ← List.append_assoc, List.getLast?_concat]

namespace Form

/-- **The test for calls** passes exactly the calls, closed by any bracket. -/
theorem exists_call?_iff {text path : Text} :
    (∃ b, call? text = some (path, b)) ↔ IsCall isCloser path text := by
  constructor
  · rintro ⟨⟨opener, body, closer⟩, h⟩
    obtain ⟨hpath, rfl, hread, rfl⟩ := call?_eq_some h
    obtain ⟨-, -, hbody, hcloser⟩ := bracketed?_eq_some_iff.mp hread
    exact .mk (Name.isPath_iff.mp hpath) hbody hcloser
  · intro h
    cases h with
    | @mk body closer named inner closes =>
      have hread : bracketed? (Bracketed.text ⟨'(', body, closer⟩) = some ⟨'(', body, closer⟩ :=
        bracketed?_of_balanced rfl closes inner
      exact ⟨_, call?_append (Name.isPath_iff.mpr named) hread rfl⟩

end Form

end Highlighter
