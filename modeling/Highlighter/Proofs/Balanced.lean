/-
# Balanced texts

Brackets and literals are read character by character, by a `Context` that counts what is open.
A text in which each bracket and each quote has its partner is read back to where it began, and
on the way it is never less deep than there.  That is all that the search for a closing bracket
and the division at separators need to know about it: the one finds nothing to close in it, the
other divides it at nothing but its free characters.

* `Balanced`: texts in which brackets and quotes have their partners;
* `Context.Throughout`: something is true at each character of a text, in its context;
* `Balanced.readAll_eq`, `Balanced.stays`: how a balanced text is read;
* `bracketed?_of_balanced`: a balanced text between brackets is one group;
* `Division.scan_balanced`: a balanced text without free separators is not divided.
-/
import Highlighter.Division

namespace Highlighter

/-! ## 1. The grammar -/

/-- Whether a character is neither a quote nor a bracket. -/
def isPlain (c : Char) : Bool := !isQuote c && !isOpener c && !isCloser c

/-- What stands between the quotes of a literal: characters other than the quote and the
backslash, and pairs of a backslash and any character. -/
inductive LiteralBody (mark : Char) : Text → Prop
  | nil : LiteralBody mark []
  | char {c : Char} {rest : Text} (other : c ≠ mark) (slash : c ≠ '\\')
      (more : LiteralBody mark rest) : LiteralBody mark (c :: rest)
  | pair {c : Char} {rest : Text} (more : LiteralBody mark rest) :
      LiteralBody mark ('\\' :: c :: rest)

/-- **Balanced texts.**  Literals are complete, and each opening bracket has a closing one, not
necessarily of its kind.  Outside all literals and brackets there are only characters that
`free` allows. -/
inductive Balanced : (free : Char → Bool) → Text → Prop
  | nil {free : Char → Bool} : Balanced free []
  | char {free : Char → Bool} {c : Char} {rest : Text} (plain : isPlain c = true)
      (allowed : free c = true) (more : Balanced free rest) : Balanced free (c :: rest)
  | literal {free : Char → Bool} {mark : Char} {body rest : Text} (quote : isQuote mark = true)
      (inner : LiteralBody mark body) (more : Balanced free rest) :
      Balanced free (mark :: (body ++ mark :: rest))
  | group {free : Char → Bool} {opener closer : Char} {body rest : Text}
      (opens : isOpener opener = true) (closes : isCloser closer = true)
      (inner : Balanced (fun _ => true) body) (more : Balanced free rest) :
      Balanced free (opener :: (body ++ closer :: rest))

theorem not_quote_of_isOpener {c : Char} (h : isOpener c = true) : isQuote c = false := by
  simp only [isOpener, Bool.or_eq_true, beq_iff_eq] at h
  rcases h with (rfl | rfl) | rfl <;> rfl

theorem not_quote_of_isCloser {c : Char} (h : isCloser c = true) :
    isQuote c = false ∧ isOpener c = false := by
  simp only [isCloser, Bool.or_eq_true, beq_iff_eq] at h
  rcases h with (rfl | rfl) | rfl <;> exact ⟨rfl, rfl⟩

/-! ## 2. Reading one character -/

namespace Context

variable {n : Nat} {c mark : Char}

theorem read_plain (h : isPlain c = true) : read ⟨n, .outside⟩ c = ⟨n, .outside⟩ := by
  simp only [isPlain, Bool.and_eq_true, Bool.not_eq_true'] at h
  simp [read, h.1.1, h.1.2, h.2]

theorem read_quote (h : isQuote mark = true) :
    read ⟨n, .outside⟩ mark = ⟨n, .inside mark⟩ := by
  simp [read, h]

theorem read_opener (h : isOpener c = true) :
    read ⟨n, .outside⟩ c = ⟨n + 1, .outside⟩ := by
  simp [read, not_quote_of_isOpener h, h]

theorem read_closer (h : isCloser c = true) :
    read ⟨n + 1, .outside⟩ c = ⟨n, .outside⟩ := by
  obtain ⟨hquote, hopener⟩ := not_quote_of_isCloser h
  simp [read, hquote, hopener, h]

theorem read_inside (other : c ≠ mark) (slash : c ≠ '\\') :
    read ⟨n, .inside mark⟩ c = ⟨n, .inside mark⟩ := by
  simp [read, other, slash]

theorem read_backslash : read ⟨n, .inside mark⟩ '\\' = ⟨n, .escaped mark⟩ := rfl

theorem read_escaped : read ⟨n, .escaped mark⟩ c = ⟨n, .inside mark⟩ := rfl

/-- No quote is a backslash, so a literal ends at its mark. -/
theorem read_mark (h : isQuote mark = true) :
    read ⟨n, .inside mark⟩ mark = ⟨n, .outside⟩ := by
  have hslash : mark ≠ '\\' := by
    rintro rfl
    exact absurd h (by decide)
  simp [read, hslash]

/-- Inside a literal, or inside brackets, nothing is exposed. -/
theorem not_exposes {k : Context} (h : k.quoting ≠ .outside ∨ 0 < k.depth) :
    k.exposes c = false := by
  rcases h with h | h
  · simp [exposes, settled, h]
  · have hne : k.depth ≠ 0 := by omega
    simp [exposes, settled, hne]

/-! ## 3. What is true throughout a text -/

/-- Something is true at each character of a text, together with the context that the character
is read in. -/
def Throughout (P : Context → Char → Prop) (k : Context) : Text → Prop
  | [] => True
  | c :: cs => P k c ∧ Throughout P (k.read c) cs

theorem throughout_append {P : Context → Char → Prop} {k : Context} {s t : Text} :
    Throughout P k (s ++ t) ↔ Throughout P k s ∧ Throughout P (k.readAll s) t := by
  induction s generalizing k with
  | nil => simp [Throughout]
  | cons c cs ih => simp [Throughout, ih, and_assoc]

/-- The same by places: each character is read in the context that what stands before it leads
to. -/
theorem throughout_iff {P : Context → Char → Prop} {k : Context} {t : Text} :
    Throughout P k t ↔ ∀ before c after, t = before ++ c :: after → P (k.readAll before) c := by
  constructor
  · rintro h before c after rfl
    exact (throughout_append.mp h).2.1
  · intro h
    induction t generalizing k with
    | nil => exact trivial
    | cons c cs ih =>
      refine ⟨h [] c cs rfl, ih ?_⟩
      rintro before d after rfl
      exact h (c :: before) d after rfl

theorem Throughout.imp {P Q : Context → Char → Prop} {k : Context} {t : Text}
    (h : Throughout P k t) (himp : ∀ k c, P k c → Q k c) : Throughout Q k t := by
  induction t generalizing k with
  | nil => exact trivial
  | cons c cs ih => exact ⟨himp k c h.1, ih h.2⟩

/-- Reading a character neither begins nor ends above `depth`, and the character is free if it
is exposed. -/
structure Stays (depth : Nat) (free : Char → Bool) (k : Context) (c : Char) : Prop where
  before : depth ≤ k.depth
  after : depth ≤ (k.read c).depth
  allowed : k.exposes c = false ∨ free c = true

/-- One character, by what reading it leads to. -/
theorem Throughout.stays_cons {free : Char → Bool} {k k' : Context} {cs : Text}
    (hread : k.read c = k') (hbefore : n ≤ k.depth) (hafter : n ≤ k'.depth)
    (hallowed : k.exposes c = false ∨ free c = true) (h : Throughout (Stays n free) k' cs) :
    Throughout (Stays n free) k (c :: cs) := by
  subst hread
  exact ⟨⟨hbefore, hafter, hallowed⟩, h⟩

/-- What is read a level deeper is not exposed, whatever is free there. -/
theorem Stays.of_succ {free free' : Char → Bool} {k : Context} (h : Stays (n + 1) free k c) :
    Stays n free' k c := by
  have hbefore := h.before
  have hafter := h.after
  exact ⟨by omega, by omega, Or.inl (not_exposes (Or.inr (by omega)))⟩

end Context

/-! ## 4. How literals and balanced texts are read -/

open Context

theorem LiteralBody.readAll_eq {mark : Char} {body : Text} (h : LiteralBody mark body)
    (n : Nat) : readAll ⟨n, .inside mark⟩ body = ⟨n, .inside mark⟩ := by
  induction h with
  | nil => rfl
  | char other slash _ ih => rw [readAll_cons, read_inside other slash, ih]
  | pair _ ih => rw [readAll_cons, read_backslash, readAll_cons, read_escaped, ih]

/-- Inside a literal nothing is exposed, and no bracket counts. -/
theorem LiteralBody.stays {mark : Char} {body : Text} (h : LiteralBody mark body) (n : Nat)
    (free : Char → Bool) : Throughout (Stays n free) ⟨n, .inside mark⟩ body := by
  induction h with
  | nil => exact trivial
  | char other slash _ ih =>
    exact .stays_cons (read_inside other slash) (Nat.le_refl n) (Nat.le_refl n)
      (Or.inl (not_exposes (Or.inl (by simp)))) ih
  | pair _ ih =>
    refine .stays_cons read_backslash (Nat.le_refl n) (Nat.le_refl n)
      (Or.inl (not_exposes (Or.inl (by simp)))) ?_
    exact .stays_cons read_escaped (Nat.le_refl n) (Nat.le_refl n)
      (Or.inl (not_exposes (Or.inl (by simp)))) ih

namespace Balanced

variable {free : Char → Bool} {s : Text}

/-- **Reading a balanced text leaves everything as it was.** -/
theorem readAll_eq (h : Balanced free s) (n : Nat) :
    readAll ⟨n, .outside⟩ s = ⟨n, .outside⟩ := by
  induction h generalizing n with
  | nil => rfl
  | char plain _ _ ih => rw [readAll_cons, read_plain plain, ih]
  | literal quote inner _ ih =>
    rw [readAll_cons, read_quote quote, readAll_append, inner.readAll_eq, readAll_cons,
      read_mark quote, ih]
  | group opens closes _ _ ihInner ih =>
    rw [readAll_cons, read_opener opens, readAll_append, ihInner, readAll_cons,
      read_closer closes, ih]

/-- **A balanced text is nowhere less deep than where it begins**, and only its free characters
are exposed. -/
theorem stays (h : Balanced free s) (n : Nat) :
    Throughout (Stays n free) ⟨n, .outside⟩ s := by
  induction h generalizing n with
  | nil => exact trivial
  | char plain allowed _ ih =>
    exact .stays_cons (read_plain plain) (Nat.le_refl n) (Nat.le_refl n) (Or.inr allowed) (ih n)
  | literal quote inner _ ih =>
    refine .stays_cons (read_quote quote) (Nat.le_refl n) (Nat.le_refl n)
      (Or.inl (by simp [exposes, quote])) (throughout_append.mpr ⟨inner.stays n _, ?_⟩)
    rw [inner.readAll_eq]
    exact .stays_cons (read_mark quote) (Nat.le_refl n) (Nat.le_refl n)
      (Or.inl (not_exposes (Or.inl (by simp)))) (ih n)
  | group opens closes inner _ ihInner ih =>
    refine .stays_cons (read_opener opens) (Nat.le_refl n) (Nat.le_succ n)
      (Or.inl (by simp [exposes, opens])) (throughout_append.mpr ⟨?_, ?_⟩)
    · exact (ihInner (n + 1)).imp fun _ _ => Stays.of_succ
    · rw [inner.readAll_eq]
      exact .stays_cons (read_closer closes) (Nat.le_succ n) (Nat.le_refl n)
        (Or.inl (not_exposes (Or.inr (Nat.succ_pos n)))) (ih n)

/-- A text of plain characters is balanced. -/
theorem of_plain (h : (s.all fun c => isPlain c && free c) = true) : Balanced free s := by
  induction s with
  | nil => exact .nil
  | cons c cs ih =>
    rw [List.all_cons, Bool.and_eq_true, Bool.and_eq_true] at h
    exact .char h.1.1 h.1.2 (ih h.2)

/-- More may be free. -/
theorem mono {free' : Char → Bool} (h : Balanced free s)
    (hfree : ∀ c, free c = true → free' c = true) : Balanced free' s := by
  induction h with
  | nil => exact .nil
  | char plain allowed _ ih => exact .char plain (hfree _ allowed) (ih hfree)
  | literal quote inner _ ih => exact .literal quote inner (ih hfree)
  | group opens closes inner _ _ ih => exact .group opens closes inner (ih hfree)

theorem append {t : Text} (hs : Balanced free s) (ht : Balanced free t) :
    Balanced free (s ++ t) := by
  induction hs with
  | nil => exact ht
  | char plain allowed _ ih => exact .char plain allowed (ih ht)
  | literal quote inner _ ih =>
    rw [List.cons_append, List.append_assoc, List.cons_append]
    exact .literal quote inner (ih ht)
  | group opens closes inner _ _ ih =>
    rw [List.cons_append, List.append_assoc, List.cons_append]
    exact .group opens closes inner (ih ht)

end Balanced

/-! ## 5. Groups -/

/-- The search for a closing bracket passes over a text in which everything stays open. -/
theorem Context.splitClosing?_append {k : Context} {s : Text}
    (h : Throughout (fun k c => 0 < (k.read c).depth) k s) (t : Text) :
    k.splitClosing? (s ++ t)
      = ((k.readAll s).splitClosing? t).map fun (before, d, rest) => (s ++ before, d, rest) := by
  induction s generalizing k with
  | nil => simp
  | cons c cs ih =>
    have hopen : (k.read c).settled = false := by
      have hne : (k.read c).depth ≠ 0 := Nat.ne_of_gt h.1
      simp [settled, hne]
    rw [List.cons_append, splitClosing?, hopen, ih h.2]
    simp [Function.comp_def]

/-- The search stops at the bracket after a balanced text. -/
theorem Context.splitClosing?_of_balanced {free : Char → Bool} {closer : Char} {body : Text}
    (closes : isCloser closer = true) (h : Balanced free body) (rest : Text) :
    splitClosing? ⟨1, .outside⟩ (body ++ closer :: rest) = some (body, closer, rest) := by
  have hdeep := (h.stays 1).imp fun _ _ (stays : Stays 1 free _ _) => stays.after
  have hlast : splitClosing? ⟨1, .outside⟩ (closer :: rest) = some ([], closer, rest) := by
    simp [splitClosing?, read_closer closes, settled, closes]
  rw [splitClosing?_append hdeep, h.readAll_eq, hlast]
  simp

/-- **A balanced text between brackets is one group.** -/
theorem bracketed?_of_balanced {free : Char → Bool} {opener closer : Char} {body : Text}
    (opens : isOpener opener = true) (closes : isCloser closer = true)
    (h : Balanced free body) :
    bracketed? (opener :: (body ++ [closer])) = some ⟨opener, body, closer⟩ := by
  rw [bracketed?, if_pos opens, start, read_opener opens,
    splitClosing?_of_balanced closes h]

/-! ## 6. Divisions -/

namespace Division

variable {role : Char → Role}

/-- A text in which every character is content goes into one piece with what follows it. -/
theorem scan_append {k : Context} {s : Text}
    (h : Throughout (fun k c => roleIn role k c = .content) k s) (t : Text) :
    scan role k (s ++ t)
      = ⟨s ++ (scan role (k.readAll s) t).run, (scan role (k.readAll s) t).rest⟩ := by
  induction s generalizing k with
  | nil => rfl
  | cons c cs ih => rw [List.cons_append, scan, h.1, ih h.2, Cut.cons, readAll_cons,
      List.cons_append]

/-- **A balanced text is not divided**, if no separator is free in it. -/
theorem scan_balanced {free : Char → Bool} {s : Text} (h : Balanced free s)
    (hfree : ∀ c, free c = true → role c = .content) (t : Text) :
    scan role .start (s ++ t) = ⟨s ++ (scan role .start t).run, (scan role .start t).rest⟩ := by
  have hcontent : Throughout (fun k c => roleIn role k c = .content) .start s := by
    refine (h.stays 0).imp ?_
    intro k c hstays
    unfold roleIn
    rcases hstays.allowed with hexposes | hc
    · rw [hexposes, if_neg Bool.false_ne_true]
    · rw [hfree c hc, ite_self]
  have hread : readAll .start s = .start := h.readAll_eq 0
  rw [scan_append hcontent, hread]

end Division

end Highlighter
