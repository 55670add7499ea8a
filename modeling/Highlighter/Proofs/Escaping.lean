/-
# Escaping in passes

Source text is escaped in one pass over the whole text for each special character, or not at all
if it has none; a reader undoes the references in passes of its own.  A pass sees what the passes
before it have written, and every reference begins with an ampersand, which is special itself.  So
the order matters, on the way out and on the way back:

* `replaceChar_escapeOnly`, `replaceAll_reference`: what one pass does to a text in which some of
  the special characters are escaped;
* `escapeInTurn_eq_flatMap`: the passes are one map over the characters if the ampersand comes
  first, and `escapeInTurn_eq_escape_iff`: only then;
* `unescapeInTurn_flatMap`: they are undone if the ampersand comes last, and
  `unescapeInTurn_escape_iff`: only then.
-/
import Highlighter.Render.Html
import Highlighter.Proofs.Occurrences
import Mathlib.Data.List.Permutation

namespace Highlighter.Html

/-! ## 1. One character -/

/-- The reference that is written for a special character. -/
def reference (c : Char) : Text :=
  if c = '&' then "&amp;".toList else if c = '<' then "&lt;".toList else "&gt;".toList

/-- How one character of source text is written. -/
def escapeChar (c : Char) : Text := if isSpecial c then reference c else [c]

/-- How a character is written if only those that pass a test are escaped. -/
def escapeOnly (p : Char → Bool) (c : Char) : Text := if p c then reference c else [c]

theorem isSpecial_iff {c : Char} : isSpecial c = true ↔ c = '&' ∨ c = '<' ∨ c = '>' := by
  simp [isSpecial, or_assoc]

theorem ne_of_not_isSpecial {c : Char} (h : ¬ isSpecial c = true) :
    c ≠ '&' ∧ c ≠ '<' ∧ c ≠ '>' := by
  simpa [isSpecial_iff, not_or] using h

/-- The whole map, character by character. -/
theorem escapeChar_eq (c : Char) :
    escapeChar c =
      if c = '&' then "&amp;".toList
      else if c = '<' then "&lt;".toList
      else if c = '>' then "&gt;".toList
      else [c] := by
  by_cases hc : isSpecial c = true
  · rcases isSpecial_iff.mp hc with rfl | rfl | rfl <;> rfl
  · obtain ⟨hamp, hlt, hgt⟩ := ne_of_not_isSpecial hc
    rw [escapeChar, if_neg hc, if_neg hamp, if_neg hlt, if_neg hgt]

theorem reference_ne_nil (c : Char) : reference c ≠ [] := by
  unfold reference
  split
  · decide
  · split <;> decide

/-- A reference has no special character but its ampersand. -/
theorem notMem_reference {c : Char} (hc : isSpecial c = true) (hamp : c ≠ '&') (d : Char) :
    c ∉ reference d := by
  unfold reference
  rcases isSpecial_iff.mp hc with rfl | rfl | rfl
  · exact absurd rfl hamp
  all_goals
    split
    · decide
    · split <;> decide

/-- Nothing is escaped if no character of a text passes the test. -/
theorem flatMap_escapeOnly_of_none {p : Char → Bool} {s : Text} (h : ∀ c ∈ s, ¬ p c = true) :
    s.flatMap (escapeOnly p) = s := by
  have hplain : ∀ c ∈ s, escapeOnly p c = [c] := fun c hc => if_neg (h c hc)
  rw [List.flatMap_congr hplain, List.flatMap_singleton']

/-! ## 2. Passes that escape -/

/-- The special characters, in the order in which they are escaped. -/
def specials : List Char := ['&', '<', '>']

theorem mem_specials {c : Char} : c ∈ specials ↔ isSpecial c = true := by
  simp [specials, isSpecial_iff]

/-- Escapes the characters of a list, one pass for each. -/
def escapeInTurn (order : List Char) (t : Text) : Text :=
  order.foldl (fun t c => Text.replaceChar c (reference c) t) t

theorem escapeInTurn_cons (c : Char) (order : List Char) (t : Text) :
    escapeInTurn (c :: order) t = escapeInTurn order (Text.replaceChar c (reference c) t) := rfl

/-- **One pass** escapes one character more, if that character is in no reference that has been
written before. -/
theorem replaceChar_escapeOnly {p : Char → Bool} {d : Char}
    (h : ∀ c, p c = true → d ∉ reference c) (s : Text) :
    Text.replaceChar d (reference d) (s.flatMap (escapeOnly p))
      = s.flatMap (escapeOnly fun c => p c || c == d) := by
  have hchar : ∀ c, Text.replaceChar d (reference d) (escapeOnly p c)
      = escapeOnly (fun e => p e || e == d) c := by
    intro c
    by_cases hp : p c = true
    · have hwas : escapeOnly p c = reference c := if_pos hp
      rw [hwas, Text.replaceChar_of_notMem (h c hp)]
      simp [escapeOnly, hp]
    · have hwas : escapeOnly p c = [c] := if_neg hp
      rw [hwas]
      by_cases hcd : c = d
      · simp [Text.replaceChar, escapeOnly, hcd]
      · simp [Text.replaceChar, escapeOnly, hp, hcd]
  induction s with
  | nil => rfl
  | cons c s ih =>
    rw [List.flatMap_cons, Text.replaceChar_append, hchar, ih, List.flatMap_cons]

/-- Passes for other characters than the ampersand add up, in any order. -/
theorem escapeInTurn_escapeOnly {order : List Char} (hspecial : ∀ c ∈ order, isSpecial c = true)
    (hamp : '&' ∉ order) (p : Char → Bool) (s : Text) :
    escapeInTurn order (s.flatMap (escapeOnly p))
      = s.flatMap (escapeOnly fun c => p c || order.contains c) := by
  induction order generalizing p with
  | nil => simp [escapeInTurn]
  | cons d order ih =>
    rw [List.mem_cons, not_or] at hamp
    obtain ⟨hd, horder⟩ := List.forall_mem_cons.mp hspecial
    have hpass := replaceChar_escapeOnly (p := p)
      (fun c _ => notMem_reference hd (Ne.symm hamp.1) c) s
    have hrest := ih horder hamp.2 fun c => p c || c == d
    rw [escapeInTurn_cons, hpass, hrest]
    simp only [List.contains_cons, Bool.or_assoc]

/-- **The passes are one map over the characters**, if the ampersand comes first. -/
theorem escapeInTurn_eq_flatMap {rest : List Char} (h : ('&' :: rest).Perm specials) (s : Text) :
    escapeInTurn ('&' :: rest) s = s.flatMap escapeChar := by
  have hnodup : ('&' :: rest).Nodup := h.nodup_iff.mpr (by decide)
  have hspecial : ∀ c ∈ rest, isSpecial c = true := fun c hc =>
    mem_specials.mp (h.mem_iff.mp (List.mem_cons_of_mem '&' hc))
  -- nothing is escaped before the first pass
  have hnone : s.flatMap (escapeOnly fun _ => false) = s :=
    flatMap_escapeOnly_of_none fun _ _ => Bool.false_ne_true
  have hfirst : Text.replaceChar '&' (reference '&') s
      = s.flatMap (escapeOnly fun c => c == '&') := by
    have hpass := replaceChar_escapeOnly (p := fun _ => false) (d := '&') (by simp) s
    rw [hnone] at hpass
    simpa using hpass
  have htest : (fun c => c == '&' || rest.contains c) = isSpecial := by
    funext c
    rw [Bool.eq_iff_iff, ← List.contains_cons, List.contains_iff_mem, h.mem_iff, mem_specials]
  rw [escapeInTurn_cons, hfirst, escapeInTurn_escapeOnly hspecial (List.nodup_cons.mp hnodup).1,
    htest]
  rfl

/-- **Escaping is a map over the characters**, though it is done in three passes and not at
all for a text without special characters. -/
theorem escape_eq_flatMap (text : Text) : escape text = text.flatMap escapeChar := by
  have hperm : ('&' :: ['<', '>']).Perm specials := .refl specials
  unfold escape
  split
  · exact escapeInTurn_eq_flatMap hperm text
  · rename_i hnone
    refine (flatMap_escapeOnly_of_none (p := isSpecial) ?_).symm
    intro c hc hspecial
    exact hnone (List.any_eq_true.mpr ⟨c, hc, hspecial⟩)

theorem escape_append (s t : Text) : escape (s ++ t) = escape s ++ escape t := by
  simp only [escape_eq_flatMap, List.flatMap_append]

/-- **The ampersand has to come first.**  In any other order its pass escapes the references of a
pass before it once more. -/
theorem escapeInTurn_eq_escape_iff {order : List Char} (h : order.Perm specials) :
    (∀ s, escapeInTurn order s = escape s) ↔ order.head? = some '&' := by
  constructor
  · intro hall
    have htest : (specials.permutations').all (fun order => order.head? == some '&' ||
        escapeInTurn order "<>".toList != escape "<>".toList) = true := by decide +kernel
    have horder := List.all_eq_true.mp htest order (List.mem_permutations'.mpr h)
    simpa [hall] using horder
  · intro hhead s
    obtain ⟨rest, rfl⟩ := List.head?_eq_some_iff.mp hhead
    rw [escapeInTurn_eq_flatMap h, escape_eq_flatMap]

example : escapeInTurn ['<', '&', '>'] "<".toList = "&amp;lt;".toList := by decide

/-! ## 3. Passes that undo -/

/-- Puts special characters in the place of their references, the ampersand last. -/
def unescape (t : Text) : Text :=
  Text.replaceAll "&amp;".toList ['&']
    (Text.replaceAll "&gt;".toList ['>'] (Text.replaceAll "&lt;".toList ['<'] t))

/-- Puts the characters of a list in the place of their references, one pass for each. -/
def unescapeInTurn (order : List Char) (t : Text) : Text :=
  order.foldl (fun t c => Text.replaceAll (reference c) [c] t) t

theorem unescapeInTurn_cons (c : Char) (order : List Char) (t : Text) :
    unescapeInTurn (c :: order) t
      = unescapeInTurn order (Text.replaceAll (reference c) [c] t) := rfl

theorem unescapeInTurn_concat (order : List Char) (c : Char) (t : Text) :
    unescapeInTurn (order ++ [c]) t
      = Text.replaceAll (reference c) [c] (unescapeInTurn order t) :=
  List.foldl_append

/-- No reference occurs in another. -/
theorem avoids_reference {c d : Char} (hc : isSpecial c = true) (hd : isSpecial d = true)
    (hne : c ≠ d) : Text.Avoids (reference d) (reference c) := by
  rcases isSpecial_iff.mp hc with rfl | rfl | rfl <;>
    rcases isSpecial_iff.mp hd with rfl | rfl | rfl
  all_goals first
    | exact absurd rfl hne
    | exact Text.avoids_cons_cons (by decide) (by decide)

/-- A reference begins with an ampersand, so no other character begins one. -/
theorem avoids_singleton {c : Char} (d : Char) (hc : c ≠ '&') :
    Text.Avoids (reference d) [c] := by
  have hmem : '&' ∉ [c] := by simpa using hc.symm
  unfold reference
  split
  · exact Text.avoids_of_notMem hmem
  · split
    · exact Text.avoids_of_notMem hmem
    · exact Text.avoids_of_notMem hmem

/-- **Undoing one reference** leaves a text escaped for the other special characters.  While
the ampersand is still escaped, what looks like a reference is one. -/
theorem replaceAll_reference {p : Char → Bool} {d : Char}
    (hp : ∀ c, p c = true → isSpecial c = true) (hamp : p '&' = true)
    (hd : isSpecial d = true) (s : Text) :
    Text.replaceAll (reference d) [d] (s.flatMap (escapeOnly p))
      = s.flatMap (escapeOnly fun c => p c && c != d) := by
  refine Text.replaceAll_flatMap ?_ s
  intro c rest
  by_cases hpc : p c = true
  · have hwas : escapeOnly p c = reference c := if_pos hpc
    by_cases hcd : c = d
    · subst hcd
      have hnow : escapeOnly (fun e => p e && e != c) c = [c] := by simp [escapeOnly]
      rw [hwas, hnow, Text.replaceAll_append_self (reference_ne_nil c)]
    · have hnow : escapeOnly (fun e => p e && e != d) c = reference c := by
        simp [escapeOnly, hpc, hcd]
      rw [hwas, hnow, Text.replaceAll_append_of_avoids (avoids_reference (hp c hpc) hd hcd)]
  · have hwas : escapeOnly p c = [c] := if_neg hpc
    have hnow : escapeOnly (fun e => p e && e != d) c = [c] := by simp [escapeOnly, hpc]
    have hne : c ≠ '&' := fun h => hpc (h ▸ hamp)
    rw [hwas, hnow, Text.replaceAll_append_of_avoids (avoids_singleton d hne)]

/-- Passes for other references than that of the ampersand add up, in any order. -/
theorem unescapeInTurn_escapeOnly {order : List Char}
    (hspecial : ∀ c ∈ order, isSpecial c = true) (hnot : '&' ∉ order) {p : Char → Bool}
    (hp : ∀ c, p c = true → isSpecial c = true) (hamp : p '&' = true) (s : Text) :
    unescapeInTurn order (s.flatMap (escapeOnly p))
      = s.flatMap (escapeOnly fun c => p c && !order.contains c) := by
  induction order generalizing p with
  | nil => simp [unescapeInTurn]
  | cons d order ih =>
    rw [List.mem_cons, not_or] at hnot
    obtain ⟨hd, horder⟩ := List.forall_mem_cons.mp hspecial
    have hp' : ∀ c, (p c && c != d) = true → isSpecial c = true := fun c hc =>
      hp c (Bool.and_eq_true_iff.mp hc).1
    have hamp' : (p '&' && '&' != d) = true := by simp [hamp, hnot.1]
    rw [unescapeInTurn_cons, replaceAll_reference hp hamp hd, ih horder hnot.2 hp' hamp']
    simp only [List.contains_cons, Bool.not_or, Bool.and_assoc, bne]

/-- **The passes are undone**, if the ampersand comes last. -/
theorem unescapeInTurn_flatMap {first : List Char} (h : (first ++ ['&']).Perm specials)
    (s : Text) : unescapeInTurn (first ++ ['&']) (s.flatMap escapeChar) = s := by
  have hnodup : (first ++ ['&']).Nodup := h.nodup_iff.mpr (by decide)
  have hnot : '&' ∉ first := fun hmem =>
    (List.nodup_append.mp hnodup).2.2 '&' hmem '&' List.mem_cons_self rfl
  have hspecial : ∀ c ∈ first, isSpecial c = true := fun c hc =>
    mem_specials.mp (h.mem_iff.mp (List.mem_append_left ['&'] hc))
  have hfirst : unescapeInTurn first (s.flatMap escapeChar)
      = s.flatMap (escapeOnly fun c => isSpecial c && !first.contains c) :=
    unescapeInTurn_escapeOnly hspecial hnot (fun _ hc => hc) rfl s
  have hamp : (isSpecial '&' && !first.contains '&') = true := by simp [hnot, isSpecial]
  have hlast := replaceAll_reference (p := fun c => isSpecial c && !first.contains c) (d := '&')
    (fun c hc => (Bool.and_eq_true_iff.mp hc).1) hamp rfl s
  rw [unescapeInTurn_concat, hfirst, hlast]
  -- every special character has had its pass
  refine flatMap_escapeOnly_of_none ?_
  intro c _ hc
  simp only [Bool.and_eq_true, Bool.not_eq_true', bne_iff_ne] at hc
  obtain ⟨⟨hcs, hcf⟩, hne⟩ := hc
  rcases List.mem_append.mp (h.mem_iff.mpr (mem_specials.mpr hcs)) with hmem | hmem
  · simp [hmem] at hcf
  · exact hne (List.mem_singleton.mp hmem)

/-- **Unescaping gives back what was escaped.** -/
theorem unescape_escape (s : Text) : unescape (escape s) = s := by
  have hperm : (['<', '>'] ++ ['&']).Perm specials := by decide
  rw [escape_eq_flatMap]
  exact unescapeInTurn_flatMap hperm s

/-- **The ampersand has to come last.**  In any other order a later pass takes for a reference
what was text that looks like one. -/
theorem unescapeInTurn_escape_iff {order : List Char} (h : order.Perm specials) :
    (∀ s, unescapeInTurn order (escape s) = s) ↔ order.getLast? = some '&' := by
  constructor
  · intro hall
    have htest : (specials.permutations').all (fun order => order.getLast? == some '&' ||
        unescapeInTurn order (escape "&lt;&gt;".toList) != "&lt;&gt;".toList) = true := by
      decide +kernel
    have horder := List.all_eq_true.mp htest order (List.mem_permutations'.mpr h)
    simpa [hall] using horder
  · intro hlast s
    obtain ⟨first, rfl⟩ := List.getLast?_eq_some_iff.mp hlast
    rw [escape_eq_flatMap, unescapeInTurn_flatMap h]

example : unescapeInTurn ['&', '<', '>'] (escape "&lt;".toList) = "<".toList := by decide

/-! ## 4. Escaping as a whole -/

/-- **Three passes over a text are one map over its characters.**  So escaping goes through a text
part by part, and three passes the other way give the text back, also where it holds what looks
like a reference. -/
theorem three_passes_are_one_map :
    (∀ s : Text, escape s = s.flatMap fun c =>
        if c = '&' then "&amp;".toList
        else if c = '<' then "&lt;".toList
        else if c = '>' then "&gt;".toList
        else [c]) ∧
      (∀ a b : Text, escape (a ++ b) = escape a ++ escape b) ∧
      ∀ s : Text,
        Text.replaceAll "&amp;".toList ['&']
          (Text.replaceAll "&gt;".toList ['>']
            (Text.replaceAll "&lt;".toList ['<'] (escape s))) = s := by
  refine ⟨?_, escape_append, unescape_escape⟩
  intro s
  rw [escape_eq_flatMap]
  exact List.flatMap_congr fun c _ => escapeChar_eq c

end Highlighter.Html
