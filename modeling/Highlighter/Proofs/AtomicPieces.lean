/-
# Pieces cannot be divided again

A division reads a text from the left, and where it begins a piece nothing is open.  A piece that
is read again by itself is therefore read as it was in the text: with the same brackets and
literals open at each of its characters, whatever stood before it.  So no separator is exposed in
it that was not exposed before, and a second division finds the piece and nothing else.

This holds of texts of every kind.  Brackets may be closed too often before the piece, and a
bracket or a literal that is opened in it may never be closed; the blanks that are taken off at
its ends are read where nothing is open, or come last.

* `Division.Hides`: a text whose separators all stand inside its own brackets and literals;
* `Division.Atom`: a mark, or a core that hides its separators;
* `Division.atom_of_mem_along`: the pieces of a division are atoms;
* `Division.spans_along_eq_iff`: and atoms are the texts with one piece, which is all of them.
-/
import Highlighter.Proofs.Kinds
import Highlighter.Proofs.Separators

namespace Highlighter

namespace Division

open Context (Throughout throughout_iff throughout_append)

/-! ## 1. Atoms -/

/-- No separator is exposed in a text: each one stands inside brackets or literals of the text
itself. -/
def Hides (separates : Char → Bool) (t : Text) : Prop :=
  ∀ before c after, t = before ++ c :: after →
    (Context.start.readAll before).exposes c = true → separates c = false

/-- **What cannot be divided**: a mark, or a core that hides its separators. -/
inductive Atom (role : Char → Role) : Text → Prop
  | mark {c : Char} (plain : isPlain c = true) (marks : role c = .mark) : Atom role [c]
  | core {t : Text} (core : t.Core) (hides : Hides (fun c => role c != .content) t) : Atom role t

variable {role : Char → Role} {t : Text}

theorem roleIn_eq_content_iff {k : Context} {c : Char} :
    roleIn role k c = .content ↔ (k.exposes c = true → role c = .content) := by
  unfold roleIn
  split
  · rename_i hexposes
    exact ⟨fun h _ => h, fun h => h hexposes⟩
  · rename_i hexposes
    exact ⟨fun _ h => absurd h hexposes, fun _ => rfl⟩

/-- A text hides its separators exactly if all of it is content. -/
theorem hides_iff : Hides (fun c => role c != .content) t ↔
    Throughout (fun k c => roleIn role k c = .content) .start t := by
  simp only [Hides, throughout_iff, roleIn_eq_content_iff, bne_eq_false_iff_eq]

theorem Atom.ne_nil (h : Atom role t) : t ≠ [] := by
  cases h with
  | mark => exact List.cons_ne_nil _ _
  | core core _ => exact core.nonempty

/-- An atom is not divided. -/
theorem Atom.along_eq (h : Atom role t) : along role t = .piece t .empty := by
  cases h with
  | mark plain marks =>
    rw [along, scan_mark plain marks]
    rfl
  | core core hides =>
    have hscan := scan_append (hides_iff.mp hides) []
    rw [List.append_nil] at hscan
    rw [along, hscan, scan, Cut.tiling, List.append_nil, Tiling.trimmed_core core]

/-! ## 2. The pieces of a division are atoms -/

/-- What stands before the first separator is content. -/
theorem throughout_run_scan (k : Context) (t : Text) :
    Throughout (fun k c => roleIn role k c = .content) k (scan role k t).run := by
  induction t generalizing k with
  | nil => exact trivial
  | cons c cs ih =>
    rw [scan]
    cases hrole : roleIn role k c with
    | content => exact ⟨hrole, ih (k.read c)⟩
    | divider => exact trivial
    | mark => exact trivial

theorem readAll_blank {s : Text} (h : ∀ c ∈ s, isBlank c = true) :
    Context.start.readAll s = .start := by
  induction s with
  | nil => rfl
  | cons c s ih =>
    obtain ⟨hc, hs⟩ := List.forall_mem_cons.mp h
    have hread : Context.start.read c = .start := Context.read_plain (isPlain_of_isBlank hc)
    rw [Context.readAll_cons, hread, ih hs]

/-- The core of a text that is all content is an atom.  The blanks in front of it leave nothing
open, so that it is read alike with them and without. -/
theorem atom_trim {run : Text}
    (h : Throughout (fun k c => roleIn role k c = .content) .start run) (hne : run.trim ≠ []) :
    Atom role run.trim := by
  rw [← Text.leading_append_trim_append_trailing run, throughout_append, throughout_append,
    readAll_blank fun _ => Text.isBlank_of_mem_leading] at h
  exact .core (Text.core_trim hne) (hides_iff.mpr h.2.1)

theorem atom_of_mem_trimmed {run b : Text} {rest : Tiling}
    (hrun : Throughout (fun k c => roleIn role k c = .content) .start run)
    (hrest : ∀ b ∈ rest.bodies, Atom role b) (hb : b ∈ (Tiling.trimmed run rest).bodies) :
    Atom role b := by
  rcases Tiling.mem_bodies_piece (Tiling.mem_bodies_gap.mp hb) with ⟨rfl, hne⟩ | hb
  · exact atom_trim hrun hne
  · exact hrest b (Tiling.mem_bodies_gap.mp hb)

/-- A separator is read where nothing is open, and leaves nothing open. -/
theorem read_of_roleIn {k : Context} {c : Char} (h : roleIn role k c ≠ .content) :
    isPlain c = true ∧ k.read c = .start := by
  have hexposes : k.exposes c = true := by
    by_contra hnot
    exact h (roleIn_eq_content_iff.mpr fun hc => absurd hc hnot)
  rw [Context.exposes, Bool.and_assoc, Bool.and_assoc, Bool.and_eq_true, ← Bool.and_assoc]
    at hexposes
  have hplain : isPlain c = true := hexposes.2
  rw [Context.eq_start_of_settled hexposes.1]
  exact ⟨hplain, Context.read_plain hplain⟩

theorem atom_of_mem_rest_scan (k : Context) (t : Text) :
    ∀ b ∈ (scan role k t).rest.bodies, Atom role b := by
  induction t generalizing k with
  | nil =>
    rintro b ⟨⟩
  | cons c cs ih =>
    -- behind a separator the division begins anew
    have hrest (hstart : k.read c = .start) :
        ∀ b ∈ (scan role (k.read c) cs).tiling.bodies, Atom role b := by
      rw [hstart]
      exact fun b => atom_of_mem_trimmed (throughout_run_scan .start cs) (ih .start)
    rw [scan]
    intro b hb
    cases hrole : roleIn role k c with
    | content =>
      rw [hrole] at hb
      exact ih _ b hb
    | divider =>
      rw [hrole] at hb
      have hseparates : roleIn role k c ≠ .content := by simp [hrole]
      obtain ⟨-, hstart⟩ := read_of_roleIn hseparates
      exact hrest hstart b (Tiling.mem_bodies_gap.mp hb)
    | mark =>
      rw [hrole] at hb
      have hseparates : roleIn role k c ≠ .content := by simp [hrole]
      obtain ⟨hplain, hstart⟩ := read_of_roleIn hseparates
      rcases Tiling.mem_bodies_piece hb with ⟨rfl, -⟩ | hb
      · exact .mark hplain (roleIn_eq_mark hrole)
      · exact hrest hstart b hb

/-- **The pieces of a division are atoms.** -/
theorem atom_of_mem_along {b : Text} (h : b ∈ (along role t).bodies) : Atom role b :=
  atom_of_mem_trimmed (throughout_run_scan .start t) (atom_of_mem_rest_scan .start t) h

theorem atom_of_mem_spans {p : Span} (h : p ∈ (along role t).spans) : Atom role p.text := by
  obtain ⟨a, ha, htext⟩ := Tiling.body_of_mem_spansFrom h
  exact htext ▸ atom_of_mem_along (List.mem_map_of_mem ha)

/-- **Atoms are the texts that are divided into themselves.** -/
theorem spans_along_eq_iff : (along role t).spans = [⟨0, t⟩] ↔ Atom role t := by
  constructor
  · intro h
    have hmem : (⟨0, t⟩ : Span) ∈ (along role t).spans := h ▸ List.mem_singleton_self _
    exact atom_of_mem_spans hmem
  · intro h
    rw [h.along_eq, Tiling.spans_eq_spansAt, Tiling.spansAt_piece h.ne_nil]
    rfl

/-! ## 3. The divisions in use -/

/-- A piece of a division, divided again: it is the only piece, and it is a mark or hides what
separates. -/
theorem again_of_mem_spans {separates : Char → Bool} {p : Span} (h : p ∈ (along role t).spans)
    (hcontent : ∀ c, role c = .content → separates c = false) :
    (along role p.text).spans = [⟨0, p.text⟩] ∧
      ((∃ c, role c = .mark ∧ p.text = [c]) ∨ Hides separates p.text) := by
  have hatom := atom_of_mem_spans h
  refine ⟨spans_along_eq_iff.mpr hatom, ?_⟩
  generalize p.text = body at hatom
  cases hatom with
  | @mark c _ marks => exact .inl ⟨c, marks, rfl⟩
  | core _ hides =>
    refine .inr fun before c after htext hexposes => hcontent c ?_
    simpa using hides before c after htext hexposes

/-- **Pieces cannot be divided again.**  Each word or colon of a line, read by itself, is one word
or one colon, and so it is with the words of a phrase and with the items and commas of a list,
bracketed or not.  What is no mark holds no separator outside its own brackets and literals. -/
theorem pieces_are_atomic (text : Text) :
    (∀ p ∈ (wordsAndColons text).spans, (wordsAndColons p.text).spans = [⟨0, p.text⟩] ∧
      (p.text = [':'] ∨ Hides (fun c => c == ':' || isBlank c) p.text)) ∧
    (∀ p ∈ (wordsOnly text).spans, (wordsOnly p.text).spans = [⟨0, p.text⟩] ∧
      Hides (fun c => c == ',' || c == ':' || isBlank c) p.text) ∧
    (∀ p ∈ (itemsAndCommas text).spans, (itemsAndCommas p.text).spans = [⟨0, p.text⟩] ∧
      (p.text = [','] ∨ Hides (· == ',') p.text)) ∧
    (bracketed? text = none → ∀ p ∈ (Listing.parts text).spans,
      (itemsAndCommas p.text).spans = [⟨0, p.text⟩] ∧
      (p.text = [','] ∨ Hides (· == ',') p.text)) := by
  have hitems : ∀ p ∈ (itemsAndCommas text).spans,
      (itemsAndCommas p.text).spans = [⟨0, p.text⟩] ∧
      (p.text = [','] ∨ Hides (· == ',') p.text) := by
    intro p hp
    refine (again_of_mem_spans hp (by grind)).imp_right (Or.imp_left ?_)
    rintro ⟨c, hmark, htext⟩
    grind
  refine ⟨?_, ?_, hitems, ?_⟩
  · intro p hp
    refine (again_of_mem_spans hp (by grind)).imp_right (Or.imp_left ?_)
    rintro ⟨c, hmark, htext⟩
    grind
  · intro p hp
    refine (again_of_mem_spans hp (by grind)).imp_right (Or.resolve_left · ?_)
    -- among the words of a phrase there are no marks
    rintro ⟨c, hmark, -⟩
    grind
  · intro hgroup
    rw [Listing.parts, hgroup]
    exact hitems

/-- A bracket is closed that was not opened, a literal holds separators of every kind, and a
bracket at the end stays open.  The piece that it opens has a comma and a blank in it. -/
theorem pieces_are_atomic_open :
    bracketed? "x): 'a, b: c', [d, e".toList = none ∧
      (⟨15, "[d, e".toList⟩ : Span) ∈ (wordsAndColons "x): 'a, b: c', [d, e".toList).spans ∧
      (wordsAndColons "[d, e".toList).spans = [⟨0, "[d, e".toList⟩] ∧
      (⟨4, "'a, b: c'".toList⟩ : Span) ∈ (wordsOnly "x): 'a, b: c', [d, e".toList).spans ∧
      (wordsOnly "'a, b: c'".toList).spans = [⟨0, "'a, b: c'".toList⟩] ∧
      (⟨0, "x): 'a, b: c'".toList⟩ : Span) ∈
        (Listing.parts "x): 'a, b: c', [d, e".toList).spans ∧
      (itemsAndCommas "x): 'a, b: c'".toList).spans = [⟨0, "x): 'a, b: c'".toList⟩] := by
  obtain ⟨hwords, hphrase, -, hlist⟩ := pieces_are_atomic "x): 'a, b: c', [d, e".toList
  have hgroup : bracketed? "x): 'a, b: c', [d, e".toList = none := by decide +kernel
  have hword : (⟨15, "[d, e".toList⟩ : Span) ∈
      (wordsAndColons "x): 'a, b: c', [d, e".toList).spans := by decide +kernel
  have hliteral : (⟨4, "'a, b: c'".toList⟩ : Span) ∈
      (wordsOnly "x): 'a, b: c', [d, e".toList).spans := by decide +kernel
  have hitem : (⟨0, "x): 'a, b: c'".toList⟩ : Span) ∈
      (Listing.parts "x): 'a, b: c', [d, e".toList).spans := by decide +kernel
  exact ⟨hgroup, hword, (hwords _ hword).1, hliteral, (hphrase _ hliteral).1, hitem,
    (hlist hgroup _ hitem).1⟩

end Division

end Highlighter
