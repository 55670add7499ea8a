/-
# Groups are balanced texts between brackets

A balanced text is given by a grammar; the search for a closing bracket counts what is open.
The search passes over a balanced text (`Context.splitClosing?_of_balanced`).  Here is the way
back: whatever stands before the bracket at which the search stops is balanced.

The induction follows the search, which knows how many brackets are open but not where they were
opened.  So the text that is still to be read is described by that number: it is one balanced text
after another, with a closing bracket between them (`Unwinding`).  Inside a literal the rest of
the literal comes first (`Pending`).

* `Context.read_open`, `Pending.cons`: what one character does to the text still to be read;
* `pending_of_splitClosing?`: what the whole search says about the text it has read;
* `bracketed?_eq_some_iff`, `closeOffset_eq_some_iff`: groups, by their brackets and by offsets.
-/
import Highlighter.Proofs.Balanced
import Highlighter.Proofs.Slicing

namespace Highlighter

/-! ## 1. What is still to be read -/

/-- **What closes `n` brackets**: balanced texts, with `n` closing brackets between them. -/
inductive Unwinding : (n : Nat) → Text → Prop
  | balanced {s : Text} (inner : Balanced (fun _ => true) s) : Unwinding 0 s
  | close {n : Nat} {s rest : Text} {closer : Char} (inner : Balanced (fun _ => true) s)
      (closes : isCloser closer = true) (more : Unwinding n rest) :
      Unwinding (n + 1) (s ++ closer :: rest)

namespace Unwinding

variable {n : Nat} {s t : Text} {c : Char}

/-- A balanced text in front closes nothing. -/
theorem append (hs : Balanced (fun _ => true) s) (h : Unwinding n t) : Unwinding n (s ++ t) := by
  cases h with
  | balanced inner => exact .balanced (hs.append inner)
  | close inner closes more =>
    rw [← List.append_assoc]
    exact .close (hs.append inner) closes more

/-- An opening bracket in front takes the first closing one for itself. -/
theorem opener (hc : isOpener c = true) (h : Unwinding (n + 1) t) : Unwinding n (c :: t) := by
  cases h with
  | @close _ s rest closer inner closes more =>
    have hgroup : Balanced (fun _ => true) (c :: (s ++ [closer])) := .group hc closes inner .nil
    have happend := append hgroup more
    rwa [List.cons_append, List.append_assoc, List.singleton_append] at happend

/-- A literal in front closes nothing. -/
theorem literal {body : Text} (hc : isQuote c = true) (hbody : LiteralBody c body)
    (h : Unwinding n t) : Unwinding n (c :: (body ++ c :: t)) := by
  have hliteral : Balanced (fun _ => true) (c :: (body ++ [c])) := .literal hc hbody .nil
  have happend := append hliteral h
  rwa [List.cons_append, List.append_assoc, List.singleton_append] at happend

end Unwinding

/-- What is still to be read where `n` brackets are to be closed before the last one: the rest of
a literal, if one is open, and what closes the brackets. -/
def Pending (n : Nat) : Quoting → Text → Prop
  | .outside, t => Unwinding n t
  | .inside mark, t =>
    ∃ body rest, LiteralBody mark body ∧ t = body ++ mark :: rest ∧ Unwinding n rest
  | .escaped mark, t =>
    ∃ c body rest, LiteralBody mark body ∧ t = c :: (body ++ mark :: rest) ∧ Unwinding n rest

/-! ## 2. One character -/

namespace Context

/-- A bracket is open, and one character is read.  Either it closes the last bracket, or a
bracket is open still. -/
theorem read_open (n : Nat) (q : Quoting) (c : Char) :
    (n = 0 ∧ q = .outside ∧ isCloser c = true) ∨ ∃ m q', read ⟨n + 1, q⟩ c = ⟨m + 1, q'⟩ := by
  cases q with
  | outside =>
    by_cases hc : isCloser c = true
    · cases n with
      | zero => exact Or.inl ⟨rfl, rfl, hc⟩
      | succ m => exact Or.inr ⟨m, .outside, read_closer hc⟩
    · refine Or.inr ?_
      simp only [read, hc]
      split
      · exact ⟨n, _, rfl⟩
      · split
        · exact ⟨n + 1, _, rfl⟩
        · exact ⟨n, _, rfl⟩
  | inside mark =>
    refine Or.inr ?_
    simp only [read]
    split
    · exact ⟨n, _, rfl⟩
    · split
      · exact ⟨n, _, rfl⟩
      · exact ⟨n, _, rfl⟩
  | escaped mark => exact Or.inr ⟨n, _, rfl⟩

end Context

/-- **One character in front** of what is still to be read. -/
theorem Pending.cons {n m : Nat} {q q' : Quoting} {c : Char} {t : Text}
    (hread : Context.read ⟨n + 1, q⟩ c = ⟨m + 1, q'⟩) (h : Pending m q' t) :
    Pending n q (c :: t) := by
  cases q with
  | outside =>
    by_cases hquote : isQuote c = true
    · rw [Context.read_quote hquote, Context.mk.injEq, Nat.add_right_cancel_iff] at hread
      obtain ⟨rfl, rfl⟩ := hread
      obtain ⟨body, rest, hbody, rfl, hrest⟩ := h
      exact hrest.literal hquote hbody
    by_cases hopener : isOpener c = true
    · rw [Context.read_opener hopener, Context.mk.injEq, Nat.add_right_cancel_iff] at hread
      obtain ⟨rfl, rfl⟩ := hread
      exact Unwinding.opener hopener h
    by_cases hcloser : isCloser c = true
    · rw [Context.read_closer hcloser, Context.mk.injEq] at hread
      obtain ⟨rfl, rfl⟩ := hread
      exact .close .nil hcloser h
    · have hplain : isPlain c = true := by simp [isPlain, hquote, hopener, hcloser]
      rw [Context.read_plain hplain, Context.mk.injEq, Nat.add_right_cancel_iff] at hread
      obtain ⟨rfl, rfl⟩ := hread
      exact Unwinding.append (.char hplain rfl .nil) h
  | inside mark =>
    by_cases hslash : c = '\\'
    · subst hslash
      rw [Context.read_backslash, Context.mk.injEq, Nat.add_right_cancel_iff] at hread
      obtain ⟨rfl, rfl⟩ := hread
      obtain ⟨d, body, rest, hbody, rfl, hrest⟩ := h
      exact ⟨'\\' :: d :: body, rest, .pair hbody, rfl, hrest⟩
    by_cases hmark : c = mark
    · subst hmark
      simp only [Context.read, hslash, if_false, if_true, Context.mk.injEq,
        Nat.add_right_cancel_iff] at hread
      obtain ⟨rfl, rfl⟩ := hread
      exact ⟨[], t, .nil, rfl, h⟩
    · rw [Context.read_inside hmark hslash, Context.mk.injEq, Nat.add_right_cancel_iff] at hread
      obtain ⟨rfl, rfl⟩ := hread
      obtain ⟨body, rest, hbody, rfl, hrest⟩ := h
      exact ⟨c :: body, rest, .char hmark hslash hbody, rfl, hrest⟩
  | escaped mark =>
    rw [Context.read_escaped, Context.mk.injEq, Nat.add_right_cancel_iff] at hread
    obtain ⟨rfl, rfl⟩ := hread
    obtain ⟨body, rest, hbody, rfl, hrest⟩ := h
    exact ⟨c, body, rest, hbody, rfl, hrest⟩

/-! ## 3. The whole search -/

/-- **What the search has read** up to the bracket at which it stops is what was still to be read
where it began. -/
theorem pending_of_splitClosing? {n : Nat} {q : Quoting} {t body rest : Text} {d : Char}
    (h : Context.splitClosing? ⟨n + 1, q⟩ t = some (body, d, rest)) : Pending n q body := by
  induction t generalizing n q body with
  | nil => exact absurd h (by simp [Context.splitClosing?])
  | cons c cs ih =>
    rw [Context.splitClosing?] at h
    rcases Context.read_open n q c with ⟨rfl, rfl, hc⟩ | ⟨m, q', hread⟩
    · simp only [Context.read_closer hc, Context.settled, hc, beq_self_eq_true, Bool.and_self,
        if_true, Option.some.injEq, Prod.mk.injEq] at h
      obtain ⟨rfl, -, -⟩ := h
      exact .balanced .nil
    · have hopen : (Context.mk (m + 1) q').settled = false := by simp [Context.settled]
      rw [hread, hopen, Bool.false_and, if_neg Bool.false_ne_true, Option.map_eq_some_iff] at h
      obtain ⟨⟨before, e, after⟩, hrest, h⟩ := h
      simp only [Prod.mk.injEq] at h
      obtain ⟨rfl, rfl, rfl⟩ := h
      exact Pending.cons hread (ih hrest)

/-- **The search behind an opening bracket stops exactly after a balanced text.** -/
theorem Context.splitClosing?_eq_some_iff {t body rest : Text} {d : Char} :
    splitClosing? ⟨1, .outside⟩ t = some (body, d, rest) ↔
      Balanced (fun _ => true) body ∧ isCloser d = true ∧ t = body ++ d :: rest := by
  constructor
  · intro h
    have hpending : Unwinding 0 body := pending_of_splitClosing? h
    cases hpending with
    | balanced inner => exact ⟨inner, isCloser_of_splitClosing? h, splitClosing?_eq_some h⟩
  · rintro ⟨hbody, hd, rfl⟩
    exact splitClosing?_of_balanced hd hbody rest

/-! ## 4. Groups -/

/-- **A group**: a balanced text between an opening and a closing bracket, not necessarily of one
kind. -/
inductive IsGroup : Text → Prop
  | mk {opener closer : Char} {body : Text} (opens : isOpener opener = true)
      (inner : Balanced (fun _ => true) body) (closes : isCloser closer = true) :
      IsGroup (opener :: (body ++ [closer]))

theorem bracketed?_eq_some_iff {t : Text} {b : Bracketed} :
    bracketed? t = some b ↔
      t = b.text ∧ isOpener b.opener = true ∧ Balanced (fun _ => true) b.body ∧
        isCloser b.closer = true := by
  constructor
  · intro h
    obtain ⟨hopener, hcloser⟩ := brackets_of_bracketed? h
    refine ⟨bracketed?_eq_some h, hopener, ?_, hcloser⟩
    have htext := bracketed?_eq_some h
    subst htext
    rw [Bracketed.text, bracketed?, if_pos hopener, Context.start,
      Context.read_opener hopener] at h
    split at h
    · rename_i body d hclose
      rw [Option.some.injEq] at h
      rw [← h]
      exact (Context.splitClosing?_eq_some_iff.mp hclose).1
    · exact absurd h (by simp)
  · rintro ⟨rfl, hopener, hbody, hcloser⟩
    exact bracketed?_of_balanced hopener hcloser hbody

/-- A text that is one group is read as one. -/
theorem isGroup_iff {t : Text} : IsGroup t ↔ ∃ b, bracketed? t = some b := by
  constructor
  · rintro ⟨opens, inner, closes⟩
    exact ⟨_, bracketed?_of_balanced opens closes inner⟩
  · rintro ⟨b, h⟩
    obtain ⟨rfl, hopener, hbody, hcloser⟩ := bracketed?_eq_some_iff.mp h
    exact .mk hopener hbody hcloser

/-- A group begins at the byte `start` of a text, and its last byte is at `stop`. -/
def Text.GroupAt (text : Text) (start stop : Nat) : Prop :=
  ∃ group, text.slice start (stop + 1) = .ok group ∧ IsGroup group

/-- The search for a closing bracket, at an opening one. -/
theorem closeOffset_eq {before after : Text} {c : Char} (hc : isOpener c = true) :
    closeOffset (before ++ c :: after) before.byteSize
      = .ok ((Context.splitClosing? ⟨1, .outside⟩ after).map fun (body, _, _) =>
          before.byteSize + Text.byteSize (c :: body)) := by
  have hread : Context.start.read c = ⟨1, .outside⟩ := Context.read_opener hc
  rw [closeOffset, Text.splitAtByte_append]
  simp only [Except.map, Context.splitClosing?_opener hc, hread, Option.map_map,
    Function.comp_def]

/-- **Where the search stops**, a group ends. -/
theorem closeOffset_eq_some_iff {before after : Text} {c : Char} (hc : isOpener c = true)
    {i : Nat} :
    closeOffset (before ++ c :: after) before.byteSize = .ok (some i) ↔
      Text.GroupAt (before ++ c :: after) before.byteSize i := by
  rw [closeOffset_eq hc, Except.ok.injEq, Option.map_eq_some_iff]
  constructor
  · rintro ⟨⟨body, d, rest⟩, hclose, rfl⟩
    obtain ⟨hbody, hd, rfl⟩ := Context.splitClosing?_eq_some_iff.mp hclose
    refine ⟨c :: (body ++ [d]), ?_, .mk hc hbody hd⟩
    refine Text.slice_eq_ok_iff.mpr ⟨before, rest, by simp, rfl, ?_⟩
    simp only [Text.byteSize_cons, Text.byteSize_append, Text.byteSize_nil,
      utf8Size_of_isCloser hd]
    omega
  · rintro ⟨group, hslice, hgroup⟩
    obtain ⟨before', rest, htext, hstart, hstop⟩ := Text.slice_eq_ok_iff.mp hslice
    -- two divisions of the text at one offset are the same
    have hsame : (Except.ok (before, c :: after) : Except OffsetError (Text × Text))
        = .ok (before', group ++ rest) := by
      rw [← Text.splitAtByte_append before, ← Text.splitAtByte_append before', hstart, htext]
    rw [Except.ok.injEq, Prod.mk.injEq] at hsame
    obtain ⟨rfl, hgroups⟩ := hsame
    cases hgroup with
    | @mk opener closer body opens inner closes =>
      rw [List.cons_append, List.append_assoc, List.singleton_append, List.cons.injEq] at hgroups
      obtain ⟨rfl, rfl⟩ := hgroups
      refine ⟨(body, closer, rest), Context.splitClosing?_of_balanced closes inner rest, ?_⟩
      simp only [Text.byteSize_cons, Text.byteSize_append, Text.byteSize_nil,
        utf8Size_of_isCloser closes] at hstop ⊢
      omega

theorem closerOffset?_eq_some_iff {text : Text} {last : Nat} :
    closerOffset? text = some last ↔ IsGroup text ∧ last + 1 = text.byteSize := by
  rw [closerOffset?, Option.map_eq_some_iff]
  have hsize : ∀ b, bracketed? text = some b →
      Text.byteSize (b.opener :: b.body) + 1 = text.byteSize := by
    intro b h
    rw [bracketed?_eq_some h]
    simp [Bracketed.text, utf8Size_of_isCloser (brackets_of_bracketed? h).2, Nat.add_assoc]
  constructor
  · rintro ⟨b, h, rfl⟩
    exact ⟨isGroup_iff.mpr ⟨b, h⟩, hsize b h⟩
  · rintro ⟨hgroup, hlast⟩
    obtain ⟨b, h⟩ := isGroup_iff.mp hgroup
    have hb := hsize b h
    exact ⟨b, h, by omega⟩

/-- **Closing brackets are found exactly where groups end.**  Looked for at an opening bracket,
the closing one is found at the byte `i` exactly if the text from the opening bracket up to and
including `i` is a group.  There is one such `i` at most, and where there is none the search finds
nothing.  So a text as a whole has a last bracket exactly if it is a group, and then that bracket
is its last byte. -/
theorem closing_finds_groups :
    (∀ (text before after : Text) (c : Char), text = before ++ c :: after → isOpener c = true →
      (∀ i, closeOffset text before.byteSize = .ok (some i) ↔ text.GroupAt before.byteSize i) ∧
      (∀ i j, text.GroupAt before.byteSize i → text.GroupAt before.byteSize j → i = j) ∧
      (closeOffset text before.byteSize = .ok none ↔ ¬ ∃ i, text.GroupAt before.byteSize i)) ∧
    ∀ (text : Text) (last : Nat),
      closerOffset? text = some last ↔ IsGroup text ∧ last + 1 = text.byteSize := by
  refine ⟨?_, fun text last => closerOffset?_eq_some_iff⟩
  rintro text before after c rfl hc
  have hfound : ∀ i, closeOffset (before ++ c :: after) before.byteSize = .ok (some i) ↔
      Text.GroupAt (before ++ c :: after) before.byteSize i := fun _ => closeOffset_eq_some_iff hc
  refine ⟨hfound, ?_, ?_⟩
  · intro i j hi hj
    have hsame := ((hfound i).mpr hi).symm.trans ((hfound j).mpr hj)
    rwa [Except.ok.injEq, Option.some.injEq] at hsame
  · simp only [← hfound, closeOffset_eq hc, Except.ok.injEq, ← Option.isSome_iff_exists,
      Bool.not_eq_true, Option.isSome_eq_false_iff, Option.isNone_iff_eq_none]

/-- The parenthesis is closed by the brace behind the literal, whose own bracket does not count,
and the square bracket is never closed. -/
theorem closing_finds_groups_literal :
    isOpener '(' = true ∧
      (closeOffset "f(')', g(1]\x7d [".toList 1 = .ok (some 11) ∧
        Text.GroupAt "f(')', g(1]\x7d [".toList 1 11) ∧
      closeOffset "f(')', g(1]\x7d [".toList 13 = .ok none ∧
        ¬ ∃ i, Text.GroupAt "f(')', g(1]\x7d [".toList 13 i := by
  have hparen := closing_finds_groups.1 "f(')', g(1]\x7d [".toList "f".toList
    "')', g(1]\x7d [".toList '(' rfl rfl
  have hsquare := closing_finds_groups.1 "f(')', g(1]\x7d [".toList "f(')', g(1]\x7d ".toList
    [] '[' rfl rfl
  have hfound : closeOffset "f(')', g(1]\x7d [".toList 1 = .ok (some 11) := by decide +kernel
  have hnone : closeOffset "f(')', g(1]\x7d [".toList 13 = .ok none := by decide +kernel
  exact ⟨rfl, ⟨hfound, (hparen.1 11).mp hfound⟩, hnone, hsquare.2.2.mp hnone⟩

end Highlighter
