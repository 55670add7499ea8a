/-
# What a rule says about the text it has taken apart

The rules for statements are patterns, and a pattern says little by itself: how far a part goes
depends on what follows it.  Here each rule is read backwards, once.  From the fact that it applies
come the parts that the text consists of, with everything that the pattern asks of them.

Two scans give way to what follows them, and for both it is said exactly what they find:

* `Text.shortest?_eq_some_iff`: nothing shorter would have done;
* `Text.upToLast?_eq_some_iff`: no later place on the line would have done.

After that there is one lemma for each rule, `exists_of_tiling?`.  An import is the exception: all
that matters of it is the word that it begins with, and the names are read by a division.
-/
import Highlighter.Proofs.Imports
import Highlighter.Proofs.Comparisons

namespace Highlighter

/-! ## 1. What a scan has found -/

namespace Text

variable {s t : Text}

theorem oneLine_append : (s ++ t).oneLine = (s.oneLine && t.oneLine) := List.all_append

theorem oneLine_cons {c : Char} : oneLine (c :: t) = true ↔ c ≠ '\n' ∧ t.oneLine = true := by
  rw [oneLine, List.all_cons, Bool.and_eq_true, bne_iff_ne]
  rfl

theorem of_run? {p : Char → Bool} {run rest : Text} (h : run? p t = some (run, rest)) :
    run ≠ [] ∧ ∀ c ∈ run, p c = true := by
  unfold run? at h
  split at h
  · exact absurd h (by simp)
  · rename_i hne
    simp only [Option.some.injEq, Prod.mk.injEq] at h
    rw [← h.1]
    exact ⟨by simpa using hne, fun c hc => List.mem_takeWhile_imp hc⟩

theorem isName_of_word? {name rest : Text} (h : word? t = some (name, rest)) : IsName name :=
  of_run? h

theorem of_blanks? {space rest : Text} (h : blanks? t = some (space, rest)) :
    space ≠ [] ∧ space.blank = true ∧ rest = t.trimStart := by
  obtain ⟨hne, hblank⟩ := of_run? h
  refine ⟨hne, blank_iff.mpr hblank, ?_⟩
  unfold blanks? run? at h
  split at h
  · exact absurd h (by simp)
  · simp only [Option.some.injEq, Prod.mk.injEq] at h
    exact h.2.symm

theorem eq_newline_of_splitLast? (h : splitLast? t = none) : ∀ c ∈ t, c = '\n' := by
  induction t with
  | nil => simp
  | cons c cs ih =>
    rw [splitLast?] at h
    split at h
    · exact absurd h (by simp)
    · rename_i hcs
      split at h
      · rename_i hc
        exact List.forall_mem_cons.mpr ⟨hc, ih hcs⟩
      · exact absurd h (by simp)

/-- Behind the last character that is no line break there are only line breaks. -/
theorem of_splitLast? {before rest : Text} {d : Char} (h : splitLast? t = some (before, d, rest)) :
    d ≠ '\n' ∧ ∀ c ∈ rest, c = '\n' := by
  induction t generalizing before with
  | nil => exact absurd h (by simp [splitLast?])
  | cons c cs ih =>
    rw [splitLast?] at h
    split at h
    · rename_i b e r hr
      simp only [Option.some.injEq, Prod.mk.injEq] at h
      obtain ⟨-, rfl, rfl⟩ := h
      exact ih hr
    · rename_i hcs
      split at h
      · exact absurd h (by simp)
      · rename_i hc
        simp only [Option.some.injEq, Prod.mk.injEq] at h
        obtain ⟨-, rfl, rfl⟩ := h
        exact ⟨hc, eq_newline_of_splitLast? hcs⟩

section

variable {α : Type} {rule : Text → Option α} {found : Text} {a : α}

/-- **The shortest part before a rule applies**: the rule applies behind it, and nowhere inside. -/
theorem shortest?_eq_some_iff : shortest? rule t = some (found, a) ↔
    ∃ rest, t = found ++ rest ∧ rule rest = some a ∧ found ≠ [] ∧ found.oneLine = true ∧
      ∀ s more, found = s ++ more → s ≠ [] → more ≠ [] → rule (more ++ rest) = none := by
  constructor
  · intro h
    induction t generalizing found with
    | nil => exact absurd h (by simp [shortest?])
    | cons c cs ih =>
      rw [shortest?] at h
      split at h
      · exact absurd h (by simp)
      · rename_i hc
        split at h
        · rename_i b hb
          simp only [Option.some.injEq, Prod.mk.injEq] at h
          obtain ⟨rfl, rfl⟩ := h
          refine ⟨cs, rfl, hb, List.cons_ne_nil c [], oneLine_cons.mpr ⟨hc, rfl⟩, ?_⟩
          intro s more hsplit hs hmore
          have hlength := congrArg List.length hsplit
          have hspos := List.length_pos_iff.mpr hs
          have hmpos := List.length_pos_iff.mpr hmore
          simp only [List.length_cons, List.length_nil, List.length_append] at hlength
          omega
        · rename_i hnone
          simp only [Option.map_eq_some_iff, Prod.exists, Prod.mk.injEq] at h
          obtain ⟨f, b, hf, rfl, rfl⟩ := h
          obtain ⟨rest, rfl, hrule, hne, hline, hshort⟩ := ih hf
          refine ⟨rest, rfl, hrule, List.cons_ne_nil c f, oneLine_cons.mpr ⟨hc, hline⟩, ?_⟩
          intro s more hsplit hs hmore
          obtain ⟨d, s, rfl⟩ := List.exists_cons_of_ne_nil hs
          rw [List.cons_append, List.cons.injEq] at hsplit
          obtain ⟨rfl, rfl⟩ := hsplit
          cases s with
          | nil => exact hnone
          | cons e s => exact hshort (e :: s) more rfl (List.cons_ne_nil e s) hmore
  · rintro ⟨rest, rfl, hrule, hne, hline, hshort⟩
    exact shortest?_append hne hline hrule hshort

variable {last : Char}

/-- Behind no `last` on the first line of a text does the rule apply. -/
def NoPlace (last : Char) (rule : Text → Option α) (t : Text) : Prop :=
  ∀ x y : Text, t = x ++ last :: y → x.oneLine = true → rule y = none

theorem noPlace_cons {c : Char} (hc : c ≠ '\n') : NoPlace last rule (c :: t) ↔
    (c = last → rule t = none) ∧ NoPlace last rule t := by
  constructor
  · intro h
    refine ⟨fun hcl => h [] t (by rw [hcl]; rfl) rfl, ?_⟩
    intro x y hsplit hx
    exact h (c :: x) y (by rw [hsplit, List.cons_append]) (oneLine_cons.mpr ⟨hc, hx⟩)
  · rintro ⟨hfirst, hrest⟩ x y hsplit hx
    cases x with
    | nil =>
      rw [List.nil_append, List.cons.injEq] at hsplit
      exact hsplit.2 ▸ hfirst hsplit.1
    | cons d x =>
      rw [List.cons_append, List.cons.injEq] at hsplit
      exact hrest x y hsplit.2 (oneLine_cons.mp hx).2

/-- A line that begins with its end has no place in it. -/
theorem noPlace_newline (hlast : last ≠ '\n') : NoPlace last rule ('\n' :: t) := by
  intro x y hsplit hx
  cases x with
  | nil =>
    rw [List.nil_append, List.cons.injEq] at hsplit
    exact absurd hsplit.1.symm hlast
  | cons d x =>
    rw [List.cons_append, List.cons.injEq] at hsplit
    exact absurd hsplit.1.symm (oneLine_cons.mp hx).1

theorem upToLast?_eq_none_iff (hlast : last ≠ '\n') :
    upToLast? last rule t = none ↔ NoPlace last rule t := by
  induction t with
  | nil => simp [upToLast?, NoPlace]
  | cons c cs ih =>
    rw [upToLast?]
    by_cases hc : c = '\n'
    · subst hc
      exact iff_of_true (if_pos rfl) (noPlace_newline hlast)
    · rw [if_neg hc, noPlace_cons hc, ← ih]
      cases upToLast? last rule cs <;> simp

theorem upToLast?_append {before rest : Text} (hlast : last ≠ '\n')
    (hline : before.oneLine = true) (hrule : rule rest = some a)
    (hlater : NoPlace last rule rest) :
    upToLast? last rule (before ++ last :: rest) = some (before ++ [last], a) := by
  induction before with
  | nil =>
    rw [List.nil_append, upToLast?, if_neg hlast, (upToLast?_eq_none_iff hlast).mpr hlater]
    simp [hrule]
  | cons c before ih =>
    obtain ⟨hc, hline⟩ := oneLine_cons.mp hline
    rw [List.cons_append, upToLast?, if_neg hc, ih hline]
    rfl

/-- **The longest part of the line up to some character before a rule applies**: the rule applies
behind it, and behind no later such character. -/
theorem upToLast?_eq_some_iff (hlast : last ≠ '\n') : upToLast? last rule t = some (found, a) ↔
    ∃ before rest, t = before ++ last :: rest ∧ found = before ++ [last] ∧
      before.oneLine = true ∧ rule rest = some a ∧ NoPlace last rule rest := by
  constructor
  · intro h
    induction t generalizing found with
    | nil => exact absurd h (by simp [upToLast?])
    | cons c cs ih =>
      rw [upToLast?] at h
      split at h
      · exact absurd h (by simp)
      · rename_i hc
        split at h
        · rename_i f b hf
          simp only [Option.some.injEq, Prod.mk.injEq] at h
          obtain ⟨rfl, rfl⟩ := h
          obtain ⟨before, rest, rfl, rfl, hline, hrule, hlater⟩ := ih hf
          exact ⟨c :: before, rest, rfl, rfl, oneLine_cons.mpr ⟨hc, hline⟩, hrule, hlater⟩
        · rename_i hnone
          split at h
          · rename_i hcl
            simp only [Option.map_eq_some_iff, Prod.mk.injEq] at h
            obtain ⟨b, hb, rfl, rfl⟩ := h
            exact ⟨[], cs, by rw [hcl]; rfl, by rw [hcl]; rfl, rfl, hb,
              (upToLast?_eq_none_iff hlast).mp hnone⟩
          · exact absurd h (by simp)
  · rintro ⟨before, rest, rfl, rfl, hline, hrule, hlater⟩
    exact upToLast?_append hlast hline hrule hlater

/-- **The shortest part has no blanks around it**, if the text has none in front of it and the rule
passes over blanks. -/
theorem core_of_shortest? (hrule : ∀ d rest, isBlank d = true → rule (d :: rest) = none →
      rule rest = none) (hstart : t.trimStart = t) (h : shortest? rule t = some (found, a)) :
    found.Core := by
  obtain ⟨rest, htext, happlies, hne, -, hshort⟩ := shortest?_eq_some_iff.mp h
  obtain ⟨c, cs, hfirst⟩ := List.exists_cons_of_ne_nil hne
  obtain ⟨us, d, hlast⟩ := (List.eq_nil_or_concat' found).resolve_left hne
  have hhead : t.trimStart = c :: (cs ++ rest) := by
    rw [hstart, htext, hfirst, List.cons_append]
  have hc : isBlank c = false := isBlank_of_trimStart_eq_cons hhead
  refine core_of_ends hfirst hlast hc ?_
  cases hd : isBlank d with
  | false => rfl
  | true =>
    -- without the blank at its end the part would be shorter
    have hus : us ≠ [] := by
      rintro rfl
      rw [hfirst, List.nil_append, List.cons.injEq] at hlast
      rw [hlast.1, hd] at hc
      exact Bool.noConfusion hc
    have hnone := hrule d rest hd (hshort us [d] hlast hus (List.cons_ne_nil d []))
    rw [hnone] at happlies
    exact absurd happlies (by simp)

end

end Text

/-! ## 2. Assignments -/

namespace Statement.Assignment

variable {text target rest : Text} {t : Tiling}

theorem isTarget_of_target? (h : target? text = some (target, rest)) : IsTarget target := by
  simp only [target?, Option.bind_eq_bind, Option.bind_eq_some_iff, Prod.exists] at h
  obtain ⟨name, r, hname, h⟩ := h
  split at h
  · simp only [Option.bind_eq_some_iff, Option.pure_def, Option.some.injEq, Prod.exists,
      Prod.mk.injEq] at h
    obtain ⟨field, r', hfield, rfl, -⟩ := h
    exact .field (Text.isName_of_word? hname) (Text.isName_of_word? hfield)
  · simp only [Option.pure_def, Option.some.injEq, Prod.mk.injEq] at h
    exact h.1 ▸ .name (Text.isName_of_word? hname)

/-- An assignment by its parts. -/
structure Parts (text target space after value : Text) : Prop where
  written : text = target ++ (space ++ '=' :: (after ++ value))
  target : IsTarget target
  space_ne : space ≠ []
  space_blank : space.blank = true
  after_ne : after ≠ []
  after_blank : after.blank = true
  value_ne : value ≠ []
  /-- The value begins where the blanks end, if they do. -/
  value_start : (after ++ value).trimStart = value ∨ (after ++ value).blank = true

theorem exists_of_value? (h : value? text = some t) :
    ∃ after value, text = after ++ value ∧ after ≠ [] ∧ after.blank = true ∧ value ≠ [] ∧
      (text.trimStart = value ∨ text.blank = true) ∧ t = .gap after (.piece value .empty) := by
  unfold value? at h
  split at h
  · exact absurd h (by simp)
  · rename_i space c cs hs
    obtain ⟨hne, hblank, hstart⟩ := Text.of_blanks? hs
    split at h
    · exact ⟨space, c :: cs, Text.blanks?_eq_some hs, hne, hblank, List.cons_ne_nil c cs,
        Or.inl hstart.symm, (Option.some.inj h).symm⟩
    · exact absurd h (by simp)
  · rename_i space hs
    obtain ⟨-, hblank, -⟩ := Text.of_blanks? hs
    have htext := Text.blanks?_eq_some hs
    rw [List.append_nil] at htext
    split at h
    · rename_i b before d hl
      have hspace : space = (b :: before) ++ [d] := Text.splitLast?_eq_some hl
      refine ⟨b :: before, [d], htext.trans hspace, List.cons_ne_nil b before, ?_,
        List.cons_ne_nil d [], Or.inr (htext ▸ hblank), (Option.some.inj h).symm⟩
      rw [hspace, Text.blank_append, Bool.and_eq_true] at hblank
      exact hblank.1
    · exact absurd h (by simp)

theorem exists_of_tiling? (h : Assignment.tiling? text = some t) :
    ∃ target space after value, Parts text target space after value ∧
      t = .piece target (.gap space (.piece ['='] (.gap after (.piece value .empty)))) := by
  simp only [Assignment.tiling?, Option.bind_eq_bind, Option.bind_eq_some_iff, Option.pure_def,
    Option.some.injEq, Prod.exists] at h
  obtain ⟨target, r₁, h₁, space, r₂, h₂, r₃, h₃, tail, htail, rfl⟩ := h
  obtain ⟨after, value, hrest, hafter, hblank, hvalue, hstart, rfl⟩ := exists_of_value? htail
  obtain ⟨hspace, hspaceBlank, -⟩ := Text.of_blanks? h₂
  refine ⟨target, space, after, value, ⟨?_, isTarget_of_target? h₁, hspace, hspaceBlank, hafter,
    hblank, hvalue, hrest ▸ hstart⟩, rfl⟩
  rw [target?_eq_some h₁, Text.blanks?_eq_some h₂, Text.after?_eq_some_iff.mp h₃, hrest]
  rfl

end Statement.Assignment

/-! ## 3. Conditionals -/

namespace Statement.Conditional

variable {text : Text} {t : Tiling}

theorem exists_of_tiling? (h : Conditional.tiling? text = some t) :
    ∃ before condition after, text = written before condition after ∧ before ≠ [] ∧
      before.blank = true ∧ (condition ≠ [] → condition.Core) ∧ after.blank = true ∧
      t = .piece ifWord (.gap before (.piece condition (.gap after (.piece [':'] .empty)))) := by
  simp only [Conditional.tiling?, Option.bind_eq_bind, Option.bind_eq_some_iff, Prod.exists] at h
  obtain ⟨r₁, h₁, space, r₂, h₂, stem, hstem, h⟩ := h
  obtain ⟨hne, hblank, hstart⟩ := Text.of_blanks? h₂
  have hcolon := Text.endingIn?_eq_some hstem
  split at h
  · simp only [Option.pure_def, Option.some.injEq] at h
    refine ⟨space, stem.trimEnd, stem.trailing, ?_, hne, hblank, ?_,
      Text.blank_iff.mpr fun _ => Text.isBlank_of_mem_trailing, h.symm⟩
    · rw [Text.after?_eq_some_iff.mp h₁, Text.blanks?_eq_some h₂, hcolon, written,
        ← List.append_assoc stem.trimEnd, Text.trimEnd_append_trailing]
    · intro hcondition
      have hstemNe : stem ≠ [] := by
        rintro rfl
        exact hcondition rfl
      -- what follows the blanks ends in a colon
      obtain ⟨c, cs, hfirst⟩ := List.exists_cons_of_ne_nil (l := r₂) (by simp [hcolon])
      have hcore : r₂.Core := Text.core_of_ends hfirst hcolon
        (Text.isBlank_of_trimStart_eq_cons (hstart ▸ hfirst)) (by decide)
      exact (hcolon ▸ hcore).trimEnd_front hstemNe
  · exact absurd h (by simp)

end Statement.Conditional

/-! ## 4. Calls -/

namespace Statement.Call

variable {text : Text} {t : Tiling}

theorem exists_of_tiling? (h : Call.tiling? text = some t) :
    ∃ path arguments rest : Text, head? text = some (path, arguments ++ ')' :: rest) ∧
      Name.isPath path = true ∧ arguments.oneLine = true ∧
      t = .piece (path ++ '(' :: (arguments ++ [')']))
        (.gap rest.leading (.piece rest.trimStart .empty)) := by
  simp only [Call.tiling?, Option.bind_eq_bind, Option.bind_eq_some_iff, Option.pure_def,
    Option.some.injEq, Prod.exists] at h
  obtain ⟨path, inner, hhead, found, tail, hfound, rfl⟩ := h
  obtain ⟨arguments, rest, rfl, rfl, hline, htail, -⟩ :=
    (Text.upToLast?_eq_some_iff (by decide)).mp hfound
  have hpath : Name.isPath path = true := by
    simp only [head?, Option.bind_eq_bind, Option.bind_eq_some_iff, Option.pure_def,
      Option.some.injEq, Prod.exists, Prod.mk.injEq] at hhead
    obtain ⟨p, r, hp, i, -, rfl, -⟩ := hhead
    exact Name.isPath_of_path? hp
  unfold remainder? at htail
  split at htail
  · exact ⟨path, arguments, rest, hhead, hpath, hline, by rw [← Option.some.inj htail]⟩
  · exact absurd htail (by simp)

end Statement.Call

/-! ## 5. Comparisons -/

namespace Statement.Comparison

variable {text : Text} {t : Tiling}

theorem tail?_eq_none_of_blank (d : Char) (rest : Text) (hd : isBlank d = true)
    (h : tail? (d :: rest) = none) : tail? rest = none := by
  have hstart : Text.trimStart (d :: rest) = rest.trimStart := by simp [Text.trimStart, hd]
  cases htail : tail? rest with
  | none => rfl
  | some t =>
    obtain ⟨sign, after, right, hsign, hright, -⟩ : ∃ sign after right,
        comparator? rest.trimStart = some (sign, after) ∧ right? after = some right ∧
          .gap rest.leading (.piece sign right) = t := by
      simpa only [tail?, Option.bind_eq_bind, Option.bind_eq_some_iff, Option.pure_def,
        Option.some.injEq, Prod.exists, exists_and_left] using htail
    simp [tail?, hstart, hsign, hright] at h

theorem exists_of_tiling? (h : Comparison.tiling? text = some t) :
    ∃ left space sign after right, text = left ++ (space ++ (sign ++ after)) ∧
      (text.trimStart = text → left.Core) ∧ (sign = equal ∨ sign = unequal) ∧
      right? after = some right ∧ t = .piece left (.gap space (.piece sign right)) := by
  simp only [Comparison.tiling?, Option.map_eq_some_iff, Prod.exists] at h
  obtain ⟨left, tail, hleft, rfl⟩ := h
  obtain ⟨rest, htext, htail⟩ := Text.shortest?_eq_some hleft
  simp only [tail?, Option.bind_eq_bind, Option.bind_eq_some_iff, Option.pure_def,
    Option.some.injEq, Prod.exists] at htail
  obtain ⟨sign, after, hsign, right, hright, rfl⟩ := htail
  refine ⟨left, rest.leading, sign, after, right, ?_,
    fun hstart => Text.core_of_shortest? tail?_eq_none_of_blank hstart hleft,
    comparator_of_comparator? hsign, hright, rfl⟩
  rw [htext, ← comparator?_eq_some hsign, Text.leading_append_trimStart]

end Statement.Comparison

/-! ## 6. Definitions -/

namespace Statement.Definition

variable {text : Text} {t : Tiling}

theorem exists_of_suite? (h : suite? text = some t) :
    ∃ rest : Text, text.trimStart = ':' :: rest ∧ rest.trimStart.oneLine = true ∧
      t = .gap text.leading
        (.piece [':'] (.gap rest.leading (.piece rest.trimStart .empty))) := by
  unfold suite? at h
  split at h
  · rename_i rest hstart
    split at h
    · rename_i hline
      exact ⟨rest, hstart, hline, (Option.some.inj h).symm⟩
    · exact absurd h (by simp)
  · exact absurd h (by simp)

theorem suite?_eq_none_of_blank (d : Char) (rest : Text) (hd : isBlank d = true)
    (h : suite? (d :: rest) = none) : suite? rest = none := by
  have hstart : Text.trimStart (d :: rest) = rest.trimStart := by simp [Text.trimStart, hd]
  cases hsuite : suite? rest with
  | none => rfl
  | some t =>
    obtain ⟨body, hcolon, hline, -⟩ := exists_of_suite? hsuite
    simp [suite?, hstart, hcolon, hline] at h

/-- How a result is read: up to the first colon that can end it, or, where there are only blanks
before the colon, as the last of them that is no line break. -/
inductive ReadResult (text : Text) : Tiling → Prop
  | found {result rest : Text} {tail : Tiling} (written : text.trimStart = result ++ rest)
      (core : result.Core) (oneLine : result.oneLine = true) (suite : suite? rest = some tail) :
      ReadResult text (.gap text.leading (.piece result tail))
  | blank {before after : Text} {c : Char} {tail : Tiling}
      (blanks : text.leading = before ++ c :: after) (inLine : c ≠ '\n')
      (breaks : ∀ d ∈ after, d = '\n') (suite : suite? (after ++ text.trimStart) = some tail) :
      ReadResult text (.gap before (.piece [c] tail))

theorem readResult_of_result? (h : result? text = some t) : ReadResult text t := by
  unfold result? at h
  split at h
  · rename_i result tail hresult
    obtain ⟨rest, hwritten, hsuite, -, hline, -⟩ := Text.shortest?_eq_some_iff.mp hresult
    have hcore := Text.core_of_shortest? suite?_eq_none_of_blank (Text.trimStart_trimStart text)
      hresult
    rw [← Option.some.inj h]
    exact .found hwritten hcore hline hsuite
  · simp only [Option.bind_eq_bind, Option.bind_eq_some_iff, Option.pure_def,
      Option.some.injEq, Prod.exists] at h
    obtain ⟨before, c, after, hblanks, tail, hsuite, rfl⟩ := h
    obtain ⟨hinLine, hbreaks⟩ := Text.of_splitLast? hblanks
    exact .blank (Text.splitLast?_eq_some hblanks) hinLine hbreaks hsuite

/-- How what follows a signature is read: with a result or without. -/
inductive ReadEnd (text : Text) : Tiling → Prop
  | suite {t : Tiling} (suite : suite? text = some t) : ReadEnd text t
  | result {rest : Text} {tail : Tiling} (written : text.trimStart = arrow ++ rest)
      (result : ReadResult rest tail) : ReadEnd text (.gap text.leading (.piece arrow tail))

theorem readEnd_of_signatureEnd? (h : signatureEnd? text = some t) : ReadEnd text t := by
  unfold signatureEnd? at h
  split at h
  · rename_i rest hrest
    rw [Option.map_eq_some_iff] at h
    obtain ⟨tail, htail, rfl⟩ := h
    exact .result (Text.after?_eq_some_iff.mp hrest) (readResult_of_result? htail)
  · exact .suite h

/-- How a signature is read: a name, or a name and parameters up to the last parenthesis on the line
behind which the rest can be read. -/
inductive ReadSignature : Text → Tiling → Prop
  | bare {name rest : Text} {tail : Tiling} (isName : IsName name)
      (ending : signatureEnd? rest = some tail) : ReadSignature (name ++ rest) (.piece name tail)
  | parameters {name parameters rest : Text} {tail : Tiling} (isName : IsName name)
      (oneLine : parameters.oneLine = true) (ending : signatureEnd? rest = some tail)
      (last : Text.NoPlace ')' signatureEnd? rest) :
      ReadSignature (name ++ '(' :: (parameters ++ ')' :: rest))
        (.piece (name ++ '(' :: (parameters ++ [')'])) tail)

theorem readSignature_of_signature? (h : signature? text = some t) : ReadSignature text t := by
  simp only [signature?, Option.bind_eq_bind, Option.bind_eq_some_iff, Prod.exists] at h
  obtain ⟨name, rest, hname, h⟩ := h
  rw [Text.word?_eq_some hname]
  split at h
  · simp only [Option.bind_eq_some_iff, Option.pure_def, Option.some.injEq, Prod.exists] at h
    obtain ⟨found, tail, hfound, rfl⟩ := h
    obtain ⟨parameters, r, rfl, rfl, hline, hending, hlast⟩ :=
      (Text.upToLast?_eq_some_iff (by decide)).mp hfound
    exact .parameters (Text.isName_of_word? hname) hline hending hlast
  · simp only [Option.bind_eq_some_iff, Option.pure_def, Option.some.injEq] at h
    obtain ⟨tail, hending, rfl⟩ := h
    exact .bare (Text.isName_of_word? hname) hending

theorem exists_of_tiling? (h : Definition.tiling? text = some t) :
    ∃ word space rest tail, text = word ++ (space ++ rest) ∧
      (word = defWord ∨ word = classWord) ∧ space.blank = true ∧ ReadSignature rest tail ∧
      t = .piece word (.gap space tail) := by
  simp only [Definition.tiling?, Option.bind_eq_bind, Option.bind_eq_some_iff, Option.pure_def,
    Option.some.injEq, Prod.exists] at h
  obtain ⟨word, r₁, hword, space, rest, hspace, tail, htail, rfl⟩ := h
  refine ⟨word, space, rest, tail, ?_, ?_, (Text.of_blanks? hspace).2.1,
    readSignature_of_signature? htail, rfl⟩
  · rw [keyword?_eq_some hword, Text.blanks?_eq_some hspace]
  · rw [keyword?, Option.or_eq_some_iff] at hword
    rcases hword with hword | ⟨-, hword⟩
    · simp only [Option.map_eq_some_iff, Prod.mk.injEq] at hword
      obtain ⟨r, -, rfl, -⟩ := hword
      exact Or.inl rfl
    · simp only [Option.map_eq_some_iff, Prod.mk.injEq] at hword
      obtain ⟨r, -, rfl, -⟩ := hword
      exact Or.inr rfl

end Statement.Definition

/-! ## 7. A rule that has found something -/

theorem Statement.exists_tiling_of_spans {kind : Statement} {text : Text}
    (h : kind.spans text ≠ []) :
    ∃ t, kind.tiling? text = some t ∧ kind.spans text = t.spans := by
  unfold Statement.spans at h ⊢
  split at h
  · rename_i t ht
    exact ⟨t, ht, rfl⟩
  · exact absurd rfl h

end Highlighter
