/-
# The form of highlighted lines

The markup of a line is a row of blanks and pieces, and a piece is an atom, a call, a container
or a phrase, with pieces of the same class inside.  The class (`Formed`) is written out without
the functions that build markup.  It leaves no place for an arranging category or an empty run
at any depth, and every character that can be seen has a category over it: what stands bare in a
line or between brackets is blank.

* `Built.formed`: one step inwards builds a formed piece out of formed pieces;
* `formed_within`: so every amount of room does;
* `Formed.everyCategory`, `Formed.everyRun`: what occurs nowhere in a formed piece.

A call ends in the bracket that closes its parenthesis, and the kinds of bracket are not
compared.  The class has the brackets that may end a call as a parameter, so that this can be
said: `call_closed_by_square_bracket`.
-/
import Highlighter.Proofs.Descent
import Highlighter.Proofs.Lossless

namespace Highlighter.Markup

/-! ## 1. The class of pieces -/

/-- Whether some markup is a run of text. -/
def isRun : Markup → Bool
  | .run _ => true
  | .group _ _ => false

/-- **A formed piece.**  The characters that may end a call are given by `ends`. -/
inductive Formed (ends : Char → Bool) : Markup → Prop
  /-- A category over one run of text. -/
  | atom {c : Category} {text : Text} (atomic : c ∈ Category.atoms) (nonempty : text ≠ []) :
      Formed ends (single c text)
  /-- A dotted name with a parenthesis, blanks and pieces, and the end of the call. -/
  | call {c : Category} {path : Text} {closer : Char} {ms : List Markup}
      (kind : c = .function ∨ c = .primitive) (named : Name.isPath path = true)
      (closes : ends closer = true) (runs : ∀ m ∈ ms, m.isRun = true → LooseRun isBlank m)
      (groups : ∀ m ∈ ms, m.isRun = false → Formed ends m) :
      Formed ends (.group c (.run (path ++ ['(']) :: (ms ++ [.run [closer]])))
  /-- Blanks and pieces between two brackets. -/
  | container {opener closer : Char} {ms : List Markup} (opens : isOpener opener = true)
      (closes : isCloser closer = true) (runs : ∀ m ∈ ms, m.isRun = true → LooseRun isBlank m)
      (groups : ∀ m ∈ ms, m.isRun = false → Formed ends m) :
      Formed ends (.group .default (.run [opener] :: (ms ++ [.run [closer]])))
  /-- A piece and something beside it, with blanks, commas and colons between the pieces. -/
  | phrase {ms : List Markup} (several : 2 ≤ ms.length) (piece : ∃ m ∈ ms, m.isRun = false)
      (runs : ∀ m ∈ ms, m.isRun = true → LooseRun Division.betweenWords m)
      (groups : ∀ m ∈ ms, m.isRun = false → Formed ends m) : Formed ends (.group .default ms)

section

variable {ends : Char → Bool} {m : Markup}

theorem Formed.isRun_eq_false (h : Formed ends m) : m.isRun = false := by
  cases h <;> rfl

/-- A function ends in one of the characters that may end a call. -/
theorem Formed.getLast?_function {c : Category} {children : List Markup}
    (h : Formed ends (.group c children)) (hc : c = .function) :
    ∃ closer, ends closer = true ∧ children.getLast? = some (.run [closer]) := by
  generalize hm : Markup.group c children = m at h
  cases h with
  | atom atomic _ =>
    rw [single, Markup.group.injEq] at hm
    exact absurd (hc ▸ hm.1 ▸ atomic) (by decide)
  | @call _ path closer ms _ _ closes _ _ =>
    rw [Markup.group.injEq] at hm
    refine ⟨closer, closes, ?_⟩
    rw [hm.2, ← List.cons_append, List.getLast?_append]
    rfl
  | container _ _ _ _ =>
    rw [Markup.group.injEq] at hm
    exact absurd (hc.symm.trans hm.1) (by decide)
  | phrase _ _ _ _ =>
    rw [Markup.group.injEq] at hm
    exact absurd (hc.symm.trans hm.1) (by decide)

/-! ## 2. What occurs nowhere in a piece -/

theorem LooseRun.everyCategory {loose : Char → Bool} {p : Category → Bool}
    (h : LooseRun loose m) : everyCategory p m = true := by
  obtain ⟨s, rfl, -, -⟩ := h
  exact everyCategory_run s

mutual

/-- Whether all runs of text in some markup pass a test. -/
def everyRun (p : Text → Bool) : Markup → Bool
  | .run text => p text
  | .group _ children => everyRunAll p children

/-- Whether all runs of text in a list of markup pass a test. -/
def everyRunAll (p : Text → Bool) : List Markup → Bool
  | [] => true
  | m :: ms => everyRun p m && everyRunAll p ms

end

/-- Whether a text is not empty. -/
def isFilled (text : Text) : Bool := !text.isEmpty

theorem everyRunAll_iff {p : Text → Bool} {ms : List Markup} :
    everyRunAll p ms = true ↔ ∀ m ∈ ms, everyRun p m = true := by
  induction ms with
  | nil => simp [everyRunAll]
  | cons m ms ih => simp [everyRunAll, ih]

theorem LooseRun.everyRun {loose : Char → Bool} (h : LooseRun loose m) :
    everyRun isFilled m = true := by
  obtain ⟨s, rfl, hne, -⟩ := h
  simpa [Markup.everyRun, isFilled] using hne

/-- A test that holds of the runs and of the groups in a list holds of the whole list. -/
theorem forall_of_runs_of_groups {loose : Char → Bool} {P : Markup → Prop} {ms : List Markup}
    (hloose : ∀ m, LooseRun loose m → P m)
    (runs : ∀ m ∈ ms, m.isRun = true → LooseRun loose m)
    (groups : ∀ m ∈ ms, m.isRun = false → P m) : ∀ m ∈ ms, P m := by
  intro m hm
  by_cases hrun : m.isRun = true
  · exact hloose m (runs m hm hrun)
  · exact groups m hm (Bool.eq_false_iff.mpr hrun)

/-- **No arranging category** occurs in a formed piece. -/
theorem Formed.everyCategory (h : Formed ends m) :
    everyCategory Category.isStyled m = true := by
  induction h with
  | @atom _ text atomic _ =>
    exact everyCategory_single (Category.isStyled_of_mem_atoms atomic) text
  | call kind _ _ runs _ ih =>
    have hms := everyCategoryAll_iff.mpr
      (forall_of_runs_of_groups (fun _ => LooseRun.everyCategory) runs ih)
    rcases kind with rfl | rfl
    · exact everyCategory_bracketed rfl hms
    · exact everyCategory_bracketed rfl hms
  | container _ _ runs _ ih =>
    exact everyCategory_bracketed rfl (everyCategoryAll_iff.mpr
      (forall_of_runs_of_groups (fun _ => LooseRun.everyCategory) runs ih))
  | phrase _ _ runs _ ih =>
    exact (Bool.and_eq_true _ _).mpr ⟨rfl, everyCategoryAll_iff.mpr
      (forall_of_runs_of_groups (fun _ => LooseRun.everyCategory) runs ih)⟩

theorem everyRun_bracketed {c : Category} {head last : Text} {ms : List Markup}
    (hhead : head ≠ []) (hlast : last ≠ []) (hms : ∀ m ∈ ms, everyRun isFilled m = true) :
    everyRun isFilled (.group c (.run head :: (ms ++ [.run last]))) = true := by
  rw [everyRun]
  refine everyRunAll_iff.mpr ?_
  intro m hm
  rcases List.mem_cons.mp hm with rfl | hm
  · simpa [everyRun, isFilled] using hhead
  · rcases List.mem_append.mp hm with hm | hm
    · exact hms m hm
    · rw [List.mem_singleton.mp hm]
      simpa [everyRun, isFilled] using hlast

/-- **No empty run** occurs in a formed piece. -/
theorem Formed.everyRun (h : Formed ends m) : everyRun isFilled m = true := by
  induction h with
  | atom _ nonempty => simpa [single, Markup.everyRun, everyRunAll, isFilled] using nonempty
  | call _ _ _ runs _ ih =>
    exact everyRun_bracketed (by simp) (by simp)
      (forall_of_runs_of_groups (fun _ => LooseRun.everyRun) runs ih)
  | container _ _ runs _ ih =>
    exact everyRun_bracketed (by simp) (by simp)
      (forall_of_runs_of_groups (fun _ => LooseRun.everyRun) runs ih)
  | phrase _ _ runs _ ih =>
    rw [Markup.everyRun]
    exact everyRunAll_iff.mpr (forall_of_runs_of_groups (fun _ => LooseRun.everyRun) runs ih)

end

/-! ## 3. Pieces are formed -/

section

variable {ends loose : Char → Bool} {mark : Text → Markup} {marked : List Text}
  {ms : List Markup}

theorem Row.runs (h : Row loose mark marked ms)
    (hmark : ∀ s ∈ marked, Formed ends (mark s)) :
    ∀ m ∈ ms, m.isRun = true → LooseRun loose m := by
  intro m hm hrun
  rcases h m hm with hloose | ⟨s, hs, rfl⟩
  · exact hloose
  · exact absurd hrun (by simp [(hmark s hs).isRun_eq_false])

theorem Row.groups (h : Row loose mark marked ms)
    (hmark : ∀ s ∈ marked, Formed ends (mark s)) :
    ∀ m ∈ ms, m.isRun = false → Formed ends m := by
  intro m hm hgroup
  rcases h m hm with ⟨s, rfl, -, -⟩ | ⟨s, hs, rfl⟩
  · exact absurd hgroup (by simp [isRun])
  · exact hmark s hs

/-- **One step inwards**: out of formed pieces a formed piece is built. -/
theorem Built.formed {text : Text} {m : Markup} (h : Built mark text m) (hne : text ≠ [])
    (hmark : ∀ s ∈ innerCores text, Formed isCloser (mark s)) : Formed isCloser m := by
  cases h with
  | atom atomic => exact .atom atomic hne
  | call kind named closes row =>
    exact .call kind named closes (row.runs hmark) (row.groups hmark)
  | container opens closes row =>
    exact .container opens closes (row.runs hmark) (row.groups hmark)
  | phrase several word row =>
    obtain ⟨s, hs, hword⟩ := word
    exact .phrase several ⟨mark s, hword, (hmark s hs).isRun_eq_false⟩ (row.runs hmark)
      (row.groups hmark)

end

/-- **However far inwards** a piece is looked into, its markup is formed. -/
theorem formed_within (room : Nat) {text : Text} (hne : text ≠ []) :
    Formed isCloser (within room text) := by
  induction room generalizing text with
  | zero =>
    obtain ⟨c, hc, hwhole⟩ := exists_whole_eq_single text
    rw [within, hwhole]
    exact .atom hc hne
  | succ room ih =>
    refine (built_byForm (within room) text).formed hne ?_
    intro s hs
    exact ih (core_and_lt_of_mem_innerCores hs).1.nonempty

/-- The members of a marked line are blanks and formed pieces. -/
theorem formed_of_mem_ofLine {line : Text} {m : Markup} (h : m ∈ ofLine line) :
    LooseRun isBlank m ∨ Formed isCloser m := by
  rcases row_lineBy _ line m h with hrun | ⟨s, hs, rfl⟩
  · exact Or.inl hrun
  · exact Or.inr (formed_within depthLimit (core_of_mem_lineCores hs).1.nonempty)

/-- A text that is not blank, with blanks around it. -/
theorem ofPiece_of_trim_ne {piece : Text} (hne : piece.trim ≠ []) (h : piece.trim ≠ piece) :
    ofPiece piece = .group .neutral (ofRun piece.leading ++
      (within depthLimit piece.trim :: ofRun piece.trimStart.trailing)) := by
  rw [ofPiece, ofPieceWithin, if_neg (by simpa using hne), if_neg h, withBlanks,
    if_neg (by simpa using hne)]
  rfl

/-! ## 4. Lines and pieces -/

/-- **Lines are marked in one form.**  Each part of a marked line is a run of blanks or a formed
piece, and a formed piece has neither an arranging category nor an empty run in it.  A blank
piece is marked as text, a core as a formed piece, and any other piece as a neutral group of
the blanks around its core and the formed piece for the core. -/
theorem lines_well_formed :
    (∀ line : Text, ∀ m ∈ ofLine line, LooseRun isBlank m ∨
      (Formed isCloser m ∧ everyCategory Category.isStyled m = true ∧
        everyRun isFilled m = true)) ∧
    ∀ piece : Text,
      (piece.blank = true → ofPiece piece = .run piece) ∧
      (piece.Core → Formed isCloser (ofPiece piece)) ∧
      (piece.blank = false → piece.trim ≠ piece → ∃ m, Formed isCloser m ∧
        m.source = piece.trim ∧
        ofPiece piece
          = .group .neutral (ofRun piece.leading ++ (m :: ofRun piece.trimStart.trailing))) := by
  refine ⟨?_, ?_⟩
  · intro line m hm
    rcases formed_of_mem_ofLine hm with hrun | hformed
    · exact Or.inl hrun
    · exact Or.inr ⟨hformed, hformed.everyCategory, hformed.everyRun⟩
  · intro piece
    refine ⟨?_, ?_, ?_⟩
    · intro hblank
      rw [ofPiece, ofPieceWithin, if_pos (by simpa using Text.trim_eq_nil_iff.mpr hblank)]
    · intro hcore
      rw [ofPiece, ofPieceWithin_core hcore]
      exact formed_within depthLimit hcore.nonempty
    · intro hblank htrim
      have hne : piece.trim ≠ [] := by
        rw [Ne, Text.trim_eq_nil_iff, hblank]
        decide
      exact ⟨_, formed_within depthLimit hne, source_within depthLimit _,
        ofPiece_of_trim_ne hne htrim⟩

/-- A piece with a blank on either side, and a line with a call in it. -/
theorem lines_well_formed_call :
    (Text.blank " f(x) ".toList = false ∧ Text.trim " f(x) ".toList ≠ " f(x) ".toList ∧
      ∃ m, Formed isCloser m ∧ m.source = "f(x)".toList ∧
        ofPiece " f(x) ".toList = .group .neutral [.run [' '], m, .run [' ']]) ∧
    ∃ m ∈ ofLine "f(x)".toList, Formed isCloser m := by
  have hblank : Text.blank " f(x) ".toList = false := by decide
  have htrim : Text.trim " f(x) ".toList ≠ " f(x) ".toList := by decide
  refine ⟨⟨hblank, htrim, (lines_well_formed.2 _).2.2 hblank htrim⟩, ?_⟩
  have hline : ofLine "f(x)".toList = [ofPiece "f(x)".toList] := by decide +kernel
  rw [hline]
  exact ⟨_, List.mem_singleton_self _,
    (lines_well_formed.2 "f(x)".toList).2.1 ⟨by decide, by decide⟩⟩

/-- **A call need not end in a parenthesis**: the kinds of bracket are not compared, and the
markup of `f(1]` is a function that ends in the square bracket. -/
theorem call_closed_by_square_bracket :
    ¬ ∀ m ∈ ofLine "f(1]".toList, LooseRun isBlank m ∨ Formed (· == ')') m := by
  have hline : ofLine "f(1]".toList
      = [.group .function [.run "f(".toList, single .numeric "1".toList, .run "]".toList]] := by
    decide +kernel
  intro h
  rw [hline] at h
  rcases h _ (List.mem_singleton_self _) with ⟨s, hs, -, -⟩ | hformed
  · exact absurd hs (by simp)
  · obtain ⟨closer, hcloses, hlast⟩ := hformed.getLast?_function rfl
    have hclose : closer = ')' := by simpa using hcloses
    subst hclose
    exact absurd hlast (by decide)

end Highlighter.Markup
