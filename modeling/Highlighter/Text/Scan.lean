/-
# Scanning

The ways in which a text is read from one of its ends.  Each returns what it has read and what
is left, and its lemma says that the two make up the text.

* `after?`, `run?` and `endingIn?` take something off one end.
* `splitLast?` divides a text at its last character other than a line break.
* `shortest?` and `upToLast?` look on the first line for the place where a rule takes over,
  the one as early and the other as late as possible.
-/
import Highlighter.Text.Basic

namespace Highlighter.Text

/-! ## 1. Taking one end off -/

/-- Whether `part` occurs in the text. -/
def occurs (part : Text) : Text → Bool
  | [] => part.isEmpty
  | c :: cs => part.isPrefixOf (c :: cs) || occurs part cs

/-- What follows `head` in a text that begins with it. -/
def after? : (head text : Text) → Option Text
  | [], text => some text
  | _ :: _, [] => none
  | c :: head, d :: text => if c = d then after? head text else none

theorem after?_eq_some_iff {head text rest : Text} :
    after? head text = some rest ↔ text = head ++ rest := by
  induction head generalizing text with
  | nil => simp [after?]
  | cons c head ih =>
    cases text with
    | nil => simp [after?]
    | cons d text =>
      rw [after?]
      split
      · rename_i h
        simp [h, ih]
      · rename_i h
        simp [Ne.symm h]

/-- The longest run of characters of a class that the text begins with, if there is one, and
what follows it. -/
def run? (p : Char → Bool) (t : Text) : Option (Text × Text) :=
  if (t.takeWhile p).isEmpty then none else some (t.takeWhile p, t.dropWhile p)

/-- The blanks that the text begins with, of which there must be one, and what follows. -/
def blanks? (t : Text) : Option (Text × Text) := run? isBlank t

/-- The name that the text begins with, and what follows it. -/
def word? (t : Text) : Option (Text × Text) := run? isWord t

theorem run?_eq_some {p : Char → Bool} {t run rest : Text} (h : run? p t = some (run, rest)) :
    t = run ++ rest := by
  rw [run?] at h
  split at h
  · simp at h
  · simp only [Option.some.injEq, Prod.mk.injEq] at h
    rw [← h.1, ← h.2, List.takeWhile_append_dropWhile]

theorem blanks?_eq_some {t run rest : Text} (h : blanks? t = some (run, rest)) :
    t = run ++ rest := run?_eq_some h

theorem word?_eq_some {t run rest : Text} (h : word? t = some (run, rest)) : t = run ++ rest :=
  run?_eq_some h

/-- What stands before the character that the text ends in, if it is `last`. -/
def endingIn? (last : Char) : Text → Option Text
  | [] => none
  | [c] => if c = last then some [] else none
  | c :: d :: cs => (endingIn? last (d :: cs)).map (c :: ·)

theorem endingIn?_eq_some {last : Char} {t before : Text} (h : endingIn? last t = some before) :
    t = before ++ [last] := by
  induction t generalizing before with
  | nil => simp [endingIn?] at h
  | cons c cs ih =>
    cases cs with
    | nil =>
      rw [endingIn?] at h
      split at h
      · simp_all
      · simp at h
    | cons d cs =>
      rw [endingIn?, Option.map_eq_some_iff] at h
      obtain ⟨rest, hrest, rfl⟩ := h
      rw [ih hrest, List.cons_append]

/-- Divides the text at its last character other than a line break. -/
def splitLast? : Text → Option (Text × Char × Text)
  | [] => none
  | c :: cs =>
    match splitLast? cs with
    | some (before, d, rest) => some (c :: before, d, rest)
    | none => if c = '\n' then none else some ([], c, cs)

theorem splitLast?_eq_some {t before rest : Text} {d : Char}
    (h : splitLast? t = some (before, d, rest)) : t = before ++ d :: rest := by
  induction t generalizing before with
  | nil => simp [splitLast?] at h
  | cons c cs ih =>
    rw [splitLast?] at h
    split at h
    · rename_i b e r hr
      simp only [Option.some.injEq, Prod.mk.injEq] at h
      obtain ⟨rfl, rfl, rfl⟩ := h
      rw [ih hr, List.cons_append]
    · split at h <;> simp_all

/-! ## 2. Where a rule takes over -/

/-- The shortest part of the first line, of one character at least, that is followed by
something the rule applies to, and what the rule makes of it. -/
def shortest? (rule : Text → Option α) : Text → Option (Text × α)
  | [] => none
  | c :: cs =>
    if c = '\n' then none
    else match rule cs with
      | some a => some ([c], a)
      | none => (shortest? rule cs).map fun (found, a) => (c :: found, a)

theorem shortest?_eq_some {rule : Text → Option α} {t found : Text} {a : α}
    (h : shortest? rule t = some (found, a)) :
    ∃ rest, t = found ++ rest ∧ rule rest = some a := by
  induction t generalizing found with
  | nil => simp [shortest?] at h
  | cons c cs ih =>
    rw [shortest?] at h
    split at h
    · simp at h
    · split at h
      · rename_i b hb
        simp only [Option.some.injEq, Prod.mk.injEq] at h
        obtain ⟨rfl, rfl⟩ := h
        exact ⟨cs, rfl, hb⟩
      · simp only [Option.map_eq_some_iff, Prod.exists, Prod.mk.injEq] at h
        obtain ⟨f, b, hf, rfl, rfl⟩ := h
        obtain ⟨rest, rfl, hrest⟩ := ih hf
        exact ⟨rest, rfl, hrest⟩

/-- The longest part of the first line that ends in the character `last` and is followed by
something the rule applies to, and what the rule makes of it. -/
def upToLast? (last : Char) (rule : Text → Option α) : Text → Option (Text × α)
  | [] => none
  | c :: cs =>
    if c = '\n' then none
    else match upToLast? last rule cs with
      | some (found, a) => some (c :: found, a)
      | none => if c = last then (rule cs).map fun a => ([c], a) else none

theorem upToLast?_eq_some {last : Char} {rule : Text → Option α} {t found : Text} {a : α}
    (h : upToLast? last rule t = some (found, a)) :
    ∃ rest, t = found ++ rest ∧ rule rest = some a := by
  induction t generalizing found with
  | nil => simp [upToLast?] at h
  | cons c cs ih =>
    rw [upToLast?] at h
    split at h
    · simp at h
    · split at h
      · rename_i f b hf
        simp only [Option.some.injEq, Prod.mk.injEq] at h
        obtain ⟨rfl, rfl⟩ := h
        obtain ⟨rest, rfl, hrest⟩ := ih hf
        exact ⟨rest, rfl, hrest⟩
      · split at h
        · simp only [Option.map_eq_some_iff, Prod.mk.injEq] at h
          obtain ⟨b, hb, rfl, rfl⟩ := h
          exact ⟨cs, rfl, hb⟩
        · simp at h

end Highlighter.Text
