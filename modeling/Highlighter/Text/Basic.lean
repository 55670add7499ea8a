/-
# Text

Source text is a list of characters.  Offsets into it are counted in bytes of its UTF-8
encoding, but nothing is ever cut at an offset: a text is taken apart into sublists, and an
offset is the size of what stands before a sublist.

* `leading`, `trim` and `trailing` divide a text into the blanks around it and its core.
* `split` and `lines` cut at every occurrence of one character.
-/
import Highlighter.Text.Chars

namespace Highlighter

/-- Source text, as the list of its characters. -/
abbrev Text := List Char

namespace Text

/-! ## 1. Size -/

/-- The number of bytes of the text in UTF-8. -/
def byteSize : Text → Nat
  | [] => 0
  | c :: cs => c.utf8Size + byteSize cs

@[simp] theorem byteSize_nil : byteSize [] = 0 := rfl

@[simp] theorem byteSize_cons (c : Char) (cs : Text) :
    byteSize (c :: cs) = c.utf8Size + byteSize cs := rfl

@[simp] theorem byteSize_append (s t : Text) : byteSize (s ++ t) = byteSize s + byteSize t := by
  induction s with
  | nil => simp
  | cons c s ih => simp [ih, Nat.add_assoc]

/-! ## 2. Blanks around a text -/

/-- Whether the text holds blanks only. -/
def blank (t : Text) : Bool := t.all isBlank

/-- Whether the text has no line break. -/
def oneLine (t : Text) : Bool := t.all (· != '\n')

/-- The blanks that the text begins with. -/
def leading (t : Text) : Text := t.takeWhile isBlank

/-- The text from its first character that is not blank. -/
def trimStart (t : Text) : Text := t.dropWhile isBlank

/-- The text up to its last character that is not blank. -/
def trimEnd (t : Text) : Text := (t.reverse.dropWhile isBlank).reverse

/-- The blanks that the text ends in. -/
def trailing (t : Text) : Text := (t.reverse.takeWhile isBlank).reverse

/-- The text without the blanks around it. -/
def trim (t : Text) : Text := trimEnd (trimStart t)

@[simp] theorem leading_append_trimStart (t : Text) : leading t ++ trimStart t = t :=
  List.takeWhile_append_dropWhile

@[simp] theorem trimEnd_append_trailing (t : Text) : trimEnd t ++ trailing t = t := by
  rw [trimEnd, trailing, ← List.reverse_append, List.takeWhile_append_dropWhile,
    List.reverse_reverse]

/-- A text is its leading blanks, its core and its trailing blanks.  Of a blank text all the
blanks are leading ones. -/
theorem leading_append_trim_append_trailing (t : Text) :
    leading t ++ (trim t ++ trailing (trimStart t)) = t := by
  simp [trim]

/-! ## 3. Lines -/

/-- Cuts the text at every occurrence of a character, which is dropped.  There is always one
part more than there are occurrences. -/
def split (sep : Char) : Text → List Text
  | [] => [[]]
  | c :: cs => if c = sep then [] :: split sep cs else (split sep cs).modifyHead (c :: ·)

theorem split_ne_nil (sep : Char) (t : Text) : split sep t ≠ [] := by
  induction t with
  | nil => simp [split]
  | cons c cs ih =>
    rw [split]
    split
    · simp
    · simpa using ih

/-- Cutting two texts with a separator between them cuts each of them. -/
theorem split_append_cons (sep : Char) (s t : Text) :
    split sep (s ++ sep :: t) = split sep s ++ split sep t := by
  induction s with
  | nil => simp [split]
  | cons c s ih =>
    rw [List.cons_append, split, split, ih]
    split
    · rfl
    · obtain ⟨part, parts, h⟩ := List.exists_cons_of_ne_nil (split_ne_nil sep s)
      rw [h]
      rfl

theorem split_of_notMem {sep : Char} {t : Text} (h : sep ∉ t) : split sep t = [t] := by
  induction t with
  | nil => rfl
  | cons c t ih =>
    rw [List.mem_cons, not_or] at h
    rw [split, if_neg (Ne.symm h.1), ih h.2]
    rfl

/-- The lines of a text.  Every line break begins a new line, so a text that ends in one has
an empty last line. -/
def lines (t : Text) : List Text := split '\n' t

/-- The spaces that the text begins with.  Other blanks do not count as indentation. -/
def indent (t : Text) : Text := t.takeWhile (· == ' ')

/-- Splitting and joining again gives the text back: the parts, with the separator between
neighbours, are the text. -/
theorem intercalate_split (sep : Char) (t : Text) : [sep].intercalate (split sep t) = t := by
  induction t with
  | nil => rfl
  | cons c cs ih =>
    rw [split]
    obtain ⟨p, ps, h⟩ := List.exists_cons_of_ne_nil (split_ne_nil sep cs)
    rw [h] at ih ⊢
    split
    · rename_i hc
      subst hc
      rw [List.intercalate_cons_cons, ih]
      rfl
    · rw [List.modifyHead_cons, ← ih]
      cases ps <;> rfl

/-! ## 4. Replacement -/

/-- Puts a text in the place of every occurrence of a character. -/
def replaceChar (c : Char) (replacement : Text) (t : Text) : Text :=
  t.flatMap fun d => if d = c then replacement else [d]

@[simp] theorem replaceChar_append (c : Char) (replacement s t : Text) :
    replaceChar c replacement (s ++ t)
      = replaceChar c replacement s ++ replaceChar c replacement t := by
  simp [replaceChar]

theorem replaceChar_of_notMem {c : Char} {t : Text} (h : c ∉ t) (replacement : Text) :
    replaceChar c replacement t = t := by
  induction t with
  | nil => rfl
  | cons d t ih =>
    rw [List.mem_cons, not_or] at h
    have hrest := ih h.2
    unfold replaceChar at hrest ⊢
    rw [List.flatMap_cons, if_neg (Ne.symm h.1), hrest]
    rfl

end Text

end Highlighter
