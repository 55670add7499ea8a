/-
# Comparisons

`left == right` and `left != right`, with or without a colon at the end.  The line is divided
at its first comparator that has something on both sides.
-/
import Highlighter.Text.Scan
import Highlighter.Tiling

namespace Highlighter.Statement.Comparison

/-- The comparator for equality. -/
def equal : Text := ['=', '=']

/-- The comparator for inequality. -/
def unequal : Text := ['!', '=']

/-- Whether a comparator occurs in the line at all. -/
def hintedBy (line : Text) : Bool := Text.occurs equal line || Text.occurs unequal line

/-- The comparator that a text begins with, and what follows it. -/
def comparator? (text : Text) : Option (Text × Text) :=
  ((Text.after? equal text).map (equal, ·)).or ((Text.after? unequal text).map (unequal, ·))

/-- An operand with the blanks after it, followed by `tail`.  The operand is on one line. -/
def operand? (text : Text) (tail : Tiling) : Option Tiling :=
  if Text.oneLine text.trimEnd then some (.piece text.trimEnd (.gap text.trailing tail))
  else none

/-- The right-hand side.  A colon at the end is a piece of its own unless it is all there is;
where there are only blanks, the last one that is no line break is the operand. -/
def right? (text : Text) : Option Tiling :=
  match text.trimStart with
  | [] =>
    (Text.splitLast? text.leading).map fun (before, c, rest) =>
      .gap before (.piece [c] (.gap rest .empty))
  | c :: cs =>
    match Text.endingIn? ':' (c :: cs) with
    | some (d :: stem) => (operand? (d :: stem) (.piece [':'] .empty)).map (.gap text.leading ·)
    | _ => (operand? (c :: cs) .empty).map (.gap text.leading ·)

/-- What follows the left-hand side: blanks, a comparator and the right-hand side. -/
def tail? (text : Text) : Option Tiling := do
  let (sign, rest) ← comparator? text.trimStart
  let right ← right? rest
  return .gap text.leading (.piece sign right)

/-- Takes a comparison apart. -/
def tiling? (text : Text) : Option Tiling :=
  (Text.shortest? tail? text).map fun (left, tail) => .piece left tail

theorem comparator?_eq_some {text sign rest : Text} (h : comparator? text = some (sign, rest)) :
    text = sign ++ rest := by
  rw [comparator?, Option.or_eq_some_iff] at h
  rcases h with h | ⟨_, h⟩
  all_goals
    simp only [Option.map_eq_some_iff, Prod.mk.injEq] at h
    obtain ⟨r, hr, rfl, rfl⟩ := h
    exact Text.after?_eq_some_iff.mp hr

theorem operand?_eq_some {text : Text} {tail t : Tiling} (h : operand? text tail = some t) :
    t.text = text ++ tail.text := by
  rw [operand?] at h
  split at h
  · rw [Option.some.injEq] at h
    rw [← h, Tiling.text_piece, Tiling.text_gap, ← List.append_assoc,
      Text.trimEnd_append_trailing]
  · simp at h

theorem right?_keeps : Tiling.Keeps right? := by
  intro text t h
  have htext := Text.leading_append_trimStart text
  rw [right?] at h
  split at h
  · rename_i hs
    simp only [Option.map_eq_some_iff, Prod.exists] at h
    obtain ⟨before, c, rest, hl, rfl⟩ := h
    rw [hs, List.append_nil] at htext
    rw [← htext, Text.splitLast?_eq_some hl]
    simp
  · rename_i c cs hs
    split at h
    · rename_i d stem hstem
      rw [Option.map_eq_some_iff] at h
      obtain ⟨t', ht', rfl⟩ := h
      rw [Tiling.text_gap, operand?_eq_some ht']
      refine Eq.trans ?_ htext
      rw [hs, Text.endingIn?_eq_some hstem]
      simp
    · rw [Option.map_eq_some_iff] at h
      obtain ⟨t', ht', rfl⟩ := h
      rw [Tiling.text_gap, operand?_eq_some ht']
      refine Eq.trans ?_ htext
      rw [hs]
      simp

theorem tail?_keeps : Tiling.Keeps tail? := by
  intro text t h
  simp only [tail?, Option.bind_eq_bind, Option.bind_eq_some_iff, Option.pure_def,
    Option.some.injEq, Prod.exists] at h
  obtain ⟨sign, rest, hsign, right, hright, rfl⟩ := h
  rw [Tiling.text_gap, Tiling.text_piece, right?_keeps _ _ hright,
    ← comparator?_eq_some hsign, Text.leading_append_trimStart]

/-- Taking a comparison apart keeps its text. -/
theorem keeps : Tiling.Keeps tiling? := by
  intro text t h
  simp only [tiling?, Option.map_eq_some_iff, Prod.exists] at h
  obtain ⟨left, tail, hs, rfl⟩ := h
  obtain ⟨rest, rfl, htail⟩ := Text.shortest?_eq_some hs
  rw [Tiling.text_piece, tail?_keeps _ _ htail]

end Highlighter.Statement.Comparison
