/-
# Places in a text

A byte offset names a place in a text if some character begins or ends there.  This file says
what is found at a place, and when looking for one fails.

* `Text.splitAtByte_eq_ok_iff`, `Text.splitAtByte_eq_error_iff`: a text can be divided exactly at
  its places;
* `Text.slice_eq_ok_iff`, `Text.slice_isOk_iff`: a slice succeeds exactly between two places in
  order;
* `closeOffset_eq_error_iff`, `closeOffset_eq_some`: the search for a closing bracket fails
  exactly if it does not begin at a place, and what it finds is a closing bracket.
-/
import Highlighter.Proofs.Cores

namespace Highlighter

/-- After a success the next step is taken. -/
@[simp] theorem ok_bind {ε α β : Type} (a : α) (f : α → Except ε β) :
    (Except.ok a >>= f) = f a := rfl

/-! ## 1. Places in a text -/

namespace Text

/-- An offset names a place in a text if it is the size of what stands before some character,
or of the whole text. -/
def IsPlace (t : Text) (offset : Nat) : Prop :=
  ∃ before after, t = before ++ after ∧ before.byteSize = offset

/-- An offset lies inside a character if one of its bytes, but not the first, is there. -/
def InsideChar (t : Text) (offset : Nat) : Prop :=
  ∃ (before : Text) (c : Char) (after : Text), t = before ++ c :: after ∧
    before.byteSize < offset ∧ offset < before.byteSize + c.utf8Size

theorem splitAtByte_eq_ok {t before after : Text} {offset : Nat}
    (h : t.splitAtByte offset = .ok (before, after)) :
    t = before ++ after ∧ before.byteSize = offset := by
  induction t generalizing offset before with
  | nil =>
    cases offset with
    | zero =>
      simp only [splitAtByte, Except.ok.injEq, Prod.mk.injEq] at h
      obtain ⟨rfl, rfl⟩ := h
      exact ⟨rfl, rfl⟩
    | succ n => exact absurd h (by simp [splitAtByte])
  | cons c cs ih =>
    cases offset with
    | zero =>
      simp only [splitAtByte, Except.ok.injEq, Prod.mk.injEq] at h
      obtain ⟨rfl, rfl⟩ := h
      exact ⟨rfl, rfl⟩
    | succ n =>
      rw [splitAtByte] at h
      split at h
      · rename_i hle
        cases hrest : splitAtByte cs (n + 1 - c.utf8Size) with
        | error e =>
          rw [hrest] at h
          exact absurd h (by simp [Except.map])
        | ok parts =>
          obtain ⟨b, r⟩ := parts
          rw [hrest] at h
          simp only [Except.map, Except.ok.injEq, Prod.mk.injEq] at h
          obtain ⟨rfl, rfl⟩ := h
          obtain ⟨rfl, hsize⟩ := ih hrest
          refine ⟨rfl, ?_⟩
          rw [byteSize_cons, hsize]
          omega
      · exact absurd h (by simp)

/-- Dividing fails for one of two reasons. -/
theorem splitAtByte_eq_error {t : Text} {offset : Nat} {e : OffsetError}
    (h : t.splitAtByte offset = .error e) :
    (e = .pastEnd ∧ t.byteSize < offset) ∨ (e = .insideChar ∧ t.InsideChar offset) := by
  induction t generalizing offset with
  | nil =>
    cases offset with
    | zero => exact absurd h (by simp [splitAtByte])
    | succ n =>
      simp only [splitAtByte, Except.error.injEq] at h
      exact Or.inl ⟨h.symm, by simp⟩
  | cons c cs ih =>
    cases offset with
    | zero => exact absurd h (by simp [splitAtByte])
    | succ n =>
      rw [splitAtByte] at h
      split at h
      · rename_i hle
        cases hrest : splitAtByte cs (n + 1 - c.utf8Size) with
        | ok parts =>
          rw [hrest] at h
          exact absurd h (by simp [Except.map])
        | error e' =>
          rw [hrest] at h
          simp only [Except.map, Except.error.injEq] at h
          subst h
          rcases ih hrest with ⟨he, hlt⟩ | ⟨he, before, d, after, rfl, hlt, hgt⟩
          · refine Or.inl ⟨he, ?_⟩
            rw [byteSize_cons]
            omega
          · refine Or.inr ⟨he, c :: before, d, after, rfl, ?_, ?_⟩
            · rw [byteSize_cons]
              omega
            · rw [byteSize_cons]
              omega
      · rename_i hlt
        simp only [Except.error.injEq] at h
        exact Or.inr ⟨h.symm, [], c, cs, rfl, by simp, by simp only [byteSize_nil]; omega⟩

/-- No place of a text is past its end or inside a character. -/
theorem IsPlace.not_outside {t : Text} {offset : Nat} (h : t.IsPlace offset) :
    ¬ (t.byteSize < offset ∨ t.InsideChar offset) := by
  obtain ⟨before, after, rfl, rfl⟩ := h
  rintro (hlt | ⟨pre, c, post, htext, hlt, hgt⟩)
  · rw [byteSize_append] at hlt
    omega
  · rcases List.append_eq_append_iff.mp htext with ⟨mid, rfl, -⟩ | ⟨mid, rfl, hmid⟩
    · rw [byteSize_append] at hlt
      omega
    · cases mid with
      | nil => exact absurd hlt (by simp)
      | cons d mid =>
        rw [List.cons_append, List.cons.injEq] at hmid
        obtain ⟨rfl, -⟩ := hmid
        rw [byteSize_append, byteSize_cons] at hgt
        omega

/-- Dividing fails exactly past the end of a text and inside a character. -/
theorem splitAtByte_eq_error_iff {t : Text} {offset : Nat} :
    (∃ e, t.splitAtByte offset = .error e) ↔ t.byteSize < offset ∨ t.InsideChar offset := by
  constructor
  · rintro ⟨e, h⟩
    rcases splitAtByte_eq_error h with ⟨-, hlt⟩ | ⟨-, hinside⟩
    · exact Or.inl hlt
    · exact Or.inr hinside
  · intro houtside
    cases hsplit : t.splitAtByte offset with
    | error e => exact ⟨e, rfl⟩
    | ok parts =>
      obtain ⟨htext, hsize⟩ := splitAtByte_eq_ok hsplit
      exact absurd houtside (IsPlace.not_outside ⟨_, _, htext, hsize⟩)

/-- **A slice succeeds exactly between two places in order**, and is what stands there. -/
theorem slice_eq_ok_iff {t part : Text} {start stop : Nat} :
    t.slice start stop = .ok part ↔
      ∃ before after, t = before ++ (part ++ after) ∧ before.byteSize = start ∧
        before.byteSize + part.byteSize = stop := by
  constructor
  · intro h
    unfold slice at h
    cases hstop : t.splitAtByte stop with
    | error e =>
      rw [hstop] at h
      exact absurd h (by simp [bind, Except.bind])
    | ok parts =>
      obtain ⟨upTo, after⟩ := parts
      rw [hstop, ok_bind] at h
      cases hstart : upTo.splitAtByte start with
      | error e =>
        simp only [hstart] at h
        exact absurd h (by simp [bind, Except.bind])
      | ok parts' =>
        obtain ⟨before, p⟩ := parts'
        simp only [hstart, ok_bind, pure, Except.pure, Except.ok.injEq] at h
        subst h
        obtain ⟨rfl, hsize⟩ := splitAtByte_eq_ok hstop
        obtain ⟨rfl, hsize'⟩ := splitAtByte_eq_ok hstart
        rw [byteSize_append] at hsize
        exact ⟨before, after, by simp, hsize', hsize⟩
  · rintro ⟨before, after, rfl, rfl, rfl⟩
    exact slice_middle before part after

theorem slice_isOk_iff {t : Text} {start stop : Nat} :
    (∃ part, t.slice start stop = .ok part) ↔
      start ≤ stop ∧ t.IsPlace start ∧ t.IsPlace stop := by
  constructor
  · rintro ⟨part, h⟩
    obtain ⟨before, after, rfl, rfl, rfl⟩ := slice_eq_ok_iff.mp h
    refine ⟨Nat.le_add_right _ _, ⟨before, part ++ after, rfl, rfl⟩, before ++ part, after, ?_, ?_⟩
    · rw [List.append_assoc]
    · rw [byteSize_append]
  · rintro ⟨hle, ⟨before, rest, hstart, rfl⟩, upTo, after, hstop, rfl⟩
    -- of two divisions of one text, the earlier one divides the first part of the other
    rcases List.append_eq_append_iff.mp (hstart.symm.trans hstop) with
      ⟨part, rfl, rfl⟩ | ⟨extra, rfl, rfl⟩
    · refine ⟨part, slice_eq_ok_iff.mpr ⟨before, after, hstart, rfl, ?_⟩⟩
      rw [byteSize_append]
    · have hextra : extra = [] := by
        rw [byteSize_append] at hle
        exact eq_nil_of_byteSize_eq_zero (by omega)
      subst hextra
      refine ⟨[], slice_eq_ok_iff.mpr ⟨upTo, rest, ?_, ?_, ?_⟩⟩
      · simpa using hstart
      · simp
      · simp

/-- The slice from a place to the end. -/
theorem slice_to_end {t before after : Text} (h : t = before ++ after) :
    t.slice before.byteSize t.byteSize = .ok after :=
  slice_eq_ok_iff.mpr ⟨before, [], by simpa using h, rfl, by rw [h, byteSize_append]⟩

/-- The slice from the beginning to a place. -/
theorem slice_from_start {t before after : Text} (h : t = before ++ after) :
    t.slice 0 before.byteSize = .ok before :=
  slice_eq_ok_iff.mpr ⟨[], after, by simpa using h, rfl, by simp⟩

theorem byteSize_leading (t : Text) : t.byteSize - t.trimStart.byteSize = t.leading.byteSize := by
  have h := congrArg byteSize (leading_append_trimStart t)
  rw [byteSize_append] at h
  omega

end Text

/-! ## 2. Where a group closes -/

theorem utf8Size_of_isCloser {c : Char} (h : isCloser c = true) : c.utf8Size = 1 := by
  simp only [isCloser, Bool.or_eq_true, beq_iff_eq] at h
  rcases h with (rfl | rfl) | rfl <;> rfl

theorem utf8Size_of_isOpener {c : Char} (h : isOpener c = true) : c.utf8Size = 1 := by
  simp only [isOpener, Bool.or_eq_true, beq_iff_eq] at h
  rcases h with (rfl | rfl) | rfl <;> rfl

/-- **Looking for a closing bracket fails** exactly if it begins past the end or inside a
character. -/
theorem closeOffset_eq_error_iff {t : Text} {start : Nat} :
    (∃ e, closeOffset t start = .error e) ↔ t.byteSize < start ∨ t.InsideChar start := by
  rw [← Text.splitAtByte_eq_error_iff, closeOffset]
  cases t.splitAtByte start with
  | error e => simp [Except.map]
  | ok parts => simp [Except.map]

/-- **What is found is a closing bracket**, not before the place where the search began. -/
theorem closeOffset_eq_some {t : Text} {start i : Nat}
    (h : closeOffset t start = .ok (some i)) :
    start ≤ i ∧ i < t.byteSize ∧
      ∃ (before : Text) (c : Char) (after : Text), t = before ++ c :: after ∧
        before.byteSize = i ∧ isCloser c = true := by
  rw [closeOffset] at h
  cases hsplit : t.splitAtByte start with
  | error e =>
    rw [hsplit] at h
    exact absurd h (by simp [Except.map])
  | ok parts =>
    obtain ⟨before, rest⟩ := parts
    obtain ⟨rfl, rfl⟩ := Text.splitAtByte_eq_ok hsplit
    rw [hsplit] at h
    simp only [Except.map, Except.ok.injEq, Option.map_eq_some_iff, Prod.exists] at h
    obtain ⟨inner, d, after, hclose, rfl⟩ := h
    have hrest := Context.splitClosing?_eq_some hclose
    have hd := Context.isCloser_of_splitClosing? hclose
    have hpos := d.utf8Size_pos
    refine ⟨Nat.le_add_right _ _, ?_, before ++ inner, d, after, ?_, ?_, hd⟩
    · rw [hrest]
      simp only [Text.byteSize_append, Text.byteSize_cons]
      omega
    · rw [hrest, List.append_assoc]
    · rw [Text.byteSize_append]

end Highlighter
