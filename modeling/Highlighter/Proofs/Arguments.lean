/-
# Arguments are lines of their own

The contents of a call or a container are divided at their commas, some of the items are broken
up further, and all of this happens before anything is marked.  This file says what comes of it:
one comma after another with the markup of an item between them, where an item is marked as a
line of its own, or as a name, a sign and a value.

* `Listing.Named`: which items have a name; `Listing.Named.named?_eq` and
  `Listing.exists_named_of_named?` say that these are the items that are broken up;
* `Markup.Argument`: the markup of an item, said without tilings;
* `Markup.withGaps_trimmed`: one item in front of others.  This is what carries the induction in
  `Markup.argumentsBy_intercalate`, for items with commas between them;
* `Form.of_call`, `Form.of_container`: a group is read as such, with a name or without.
-/
import Highlighter.Proofs.Balanced
import Highlighter.Proofs.Lines
import Highlighter.Proofs.Truncation

namespace Highlighter

/-! ## 1. Items with a name -/

/-- Two lists of ranges that have no code point in common cover no character in common. -/
theorem CodeRange.not_anyCovers {rs ss : List CodeRange}
    (h : (rs.all fun r => ss.all fun s => decide (r.last < s.first ∨ s.last < r.first)) = true)
    {c : Char} (hc : anyCovers rs c = true) : anyCovers ss c = false := by
  simp only [List.all_eq_true, decide_eq_true_eq] at h
  obtain ⟨r, hr, hcovers⟩ := List.any_eq_true.mp hc
  simp only [covers, Bool.and_eq_true, decide_eq_true_eq] at hcovers
  rw [anyCovers, List.any_eq_false]
  intro s hs
  have hapart := h r hr s hs
  simp only [covers, Bool.and_eq_true, decide_eq_true_eq]
  omega

/-- No blank stands in a name. -/
theorem not_isWord_of_isBlank {c : Char} (h : isBlank c = true) : isWord c = false := by
  unfold isWord
  split
  · rename_i hascii
    have hcode : c.toNat = 9 ∨ c.toNat = 10 ∨ c.toNat = 11 ∨ c.toNat = 12 ∨ c.toNat = 13 ∨
        c.toNat = 32 := by
      simp only [isBlank, CodeRange.anyCovers, blankRanges, CodeRange.covers, List.any_cons,
        List.any_nil, Bool.or_eq_true, Bool.and_eq_true, decide_eq_true_eq, Bool.false_eq_true,
        or_false] at h
      omega
    rw [← Char.ofNat_toNat c]
    rcases hcode with hc | hc | hc | hc | hc | hc
    all_goals
      rw [hc]
      decide
  · exact CodeRange.not_anyCovers (by decide +kernel) h

namespace Text

/-- A run of characters of a class ends before the first character that is not in it. -/
theorem takeWhile_append {p : Char → Bool} {s : Text} {c : Char} (hs : ∀ d ∈ s, p d = true)
    (hc : p c = false) (rest : Text) :
    (s ++ c :: rest).takeWhile p = s ∧ (s ++ c :: rest).dropWhile p = c :: rest := by
  constructor
  · rw [List.takeWhile_append_of_pos hs]
    simp [hc]
  · rw [List.dropWhile_append_of_pos hs]
    simp [hc]

theorem leading_append {s : Text} {c : Char} (hs : s.blank = true) (hc : isBlank c = false)
    (rest : Text) :
    leading (s ++ c :: rest) = s ∧ trimStart (s ++ c :: rest) = c :: rest :=
  takeWhile_append (blank_iff.mp hs) hc rest

theorem blank_leading (t : Text) : t.leading.blank = true :=
  blank_iff.mpr fun _ => isBlank_of_mem_leading

end Text

namespace Listing

/-- **An item with a name**: the name, an equals sign with blanks around it, and a value.  The
value does not begin with a second equals sign, and there is no line break after its first
character. -/
structure Named (item name before after value : Text) : Prop where
  written : item = name ++ (before ++ '=' :: (after ++ value))
  isName : Name.isName name = true
  blanks : before.blank = true ∧ after.blank = true
  isValue : ∃ c cs, value = c :: cs ∧ isBlank c = false ∧ c ≠ '=' ∧ Text.oneLine cs = true

variable {item name before after value : Text}

/-- The pieces of an item with a name. -/
def namedTiling (name before after value : Text) : Tiling :=
  .piece name (.gap before (.piece ['='] (.gap after (.piece value .empty))))

theorem Named.name_ne_nil (h : Named item name before after value) : name ≠ [] := by
  rintro rfl
  exact absurd h.isName (by decide)

theorem Named.value_ne_nil (h : Named item name before after value) : value ≠ [] := by
  obtain ⟨c, cs, rfl, -⟩ := h.isValue
  exact List.cons_ne_nil c cs

/-- The name ends where the blanks or the sign begin. -/
theorem Named.word?_eq (h : Named item name before after value) :
    Text.word? item = some (name, before ++ '=' :: (after ++ value)) := by
  have hname := h.isName
  simp only [Name.isName, Bool.and_eq_true, List.all_eq_true] at hname
  have hstop : ∃ d ds, before ++ '=' :: (after ++ value) = d :: ds ∧ isWord d = false := by
    cases before with
    | nil => exact ⟨'=', _, rfl, by decide⟩
    | cons b bs =>
      have hb : isBlank b = true := Text.blank_iff.mp h.blanks.1 b List.mem_cons_self
      exact ⟨b, _, rfl, not_isWord_of_isBlank hb⟩
  obtain ⟨d, ds, hrest, hd⟩ := hstop
  obtain ⟨htake, hdrop⟩ := Text.takeWhile_append hname.2 hd ds
  rw [h.written, hrest, Text.word?, Text.run?, htake, hdrop,
    if_neg (by simpa using h.name_ne_nil)]

theorem Named.named?_eq (h : Named item name before after value) :
    named? item = some (namedTiling name before after value) := by
  obtain ⟨c, cs, rfl, hblank, hsign, hline⟩ := h.isValue
  have hequals : isBlank '=' = false := by decide
  have hafter := Text.leading_append h.blanks.1 hequals (after ++ c :: cs)
  have hvalue := Text.leading_append h.blanks.2 hblank cs
  simp only [named?, h.word?_eq, Option.bind_eq_bind, Option.bind_some, hafter.1, hafter.2,
    Text.after?, if_true, hvalue.1, hvalue.2]
  simp [hsign, hline, namedTiling]

theorem exists_named_of_named? {t : Tiling} (h : named? item = some t) :
    ∃ name before after value, Named item name before after value := by
  simp only [named?, Option.bind_eq_bind, Option.bind_eq_some_iff, Prod.exists] at h
  obtain ⟨name, rest, hname, rest', hrest', h⟩ := h
  have hsign := Text.after?_eq_some_iff.mp hrest'
  have hword : Name.isName name = true := by
    rw [Text.word?, Text.run?] at hname
    split at hname
    · exact absurd hname (by simp)
    · rename_i hne
      simp only [Option.some.injEq, Prod.mk.injEq] at hname
      rw [← hname.1, Name.isName, Bool.and_eq_true, List.all_eq_true]
      exact ⟨by simpa using hne, fun _ => List.mem_takeWhile_imp⟩
  split at h
  · exact absurd h (by simp)
  · rename_i c cs hvalue
    split at h
    · rename_i hc
      simp only [ne_eq, decide_not, Bool.and_eq_true, Bool.not_eq_true',
        decide_eq_false_iff_not] at hc
      refine ⟨name, rest.leading, rest'.leading, c :: cs, ?_, hword,
        ⟨Text.blank_leading _, Text.blank_leading _⟩,
        c, cs, rfl, Text.isBlank_of_trimStart_eq_cons hvalue, hc.1, hc.2⟩
      rw [← hvalue, Text.leading_append_trimStart, Text.word?_eq_some hname]
      congr 1
      rw [← List.singleton_append, ← hsign, Text.leading_append_trimStart]
    · exact absurd h (by simp)

end Listing

/-! ## 2. Items, one by one -/

namespace Division

variable {item : Text}

theorem role_ne_comma (c : Char) (h : (c != ',') = true) :
    (if c = ',' then Role.mark else .content) = .content :=
  if_neg (by simpa using h)

theorem itemsAndCommas_item (h : Balanced (· != ',') item) :
    itemsAndCommas item = .trimmed item .empty := by
  have hscan := scan_balanced h role_ne_comma []
  rw [List.append_nil] at hscan
  rw [itemsAndCommas, along, hscan, Cut.tiling]
  simp [scan]

/-- The first comma between items is the one after the first item. -/
theorem itemsAndCommas_cons (h : Balanced (· != ',') item) (rest : Text) :
    itemsAndCommas (item ++ ',' :: rest)
      = .trimmed item (.piece [','] (itemsAndCommas rest)) := by
  have hread : Context.start.read ',' = .start := rfl
  have hmark : roleIn (fun c => if c = ',' then .mark else .content) .start ',' = .mark := rfl
  rw [itemsAndCommas, along, scan_balanced h role_ne_comma, scan, hread, hmark, Cut.cons,
    List.append_nil]
  rfl

end Division

namespace Markup

open Tiling Listing

/-- **The markup of an item** of a list: that of a line, or, if the item has a name, that of the
name and of the value, with an operator between them.  Blanks stay where they are. -/
inductive Argument (mark : Text → Markup) (item : Text) : List Markup → Prop
  | line (unnamed : ∀ name before after value, ¬ Named item.trim name before after value) :
      Argument mark item (lineBy mark item)
  | named {name before after value : Text} (parts : Named item.trim name before after value) :
      Argument mark item (ofRun item.leading ++ (lineBy mark name ++ (ofRun before ++
        (single .operator ['='] :: (ofRun after ++ (lineBy mark value ++
          ofRun item.trimStart.trailing))))))

variable {mark : Text → Markup}

theorem exists_argument (mark : Text → Markup) (item : Text) : ∃ ms, Argument mark item ms := by
  by_cases h : ∃ name before after value, Named item.trim name before after value
  · obtain ⟨name, before, after, value, hnamed⟩ := h
    exact ⟨_, .named hnamed⟩
  · refine ⟨_, .line ?_⟩
    intro name before after value hnamed
    exact h ⟨name, before, after, value, hnamed⟩

theorem exists_arguments (mark : Text → Markup) (items : List Text) :
    ∃ parts, List.Forall₂ (Argument mark) items parts := by
  induction items with
  | nil => exact ⟨[], .nil⟩
  | cons item items ih =>
    obtain ⟨ms, hms⟩ := exists_argument mark item
    obtain ⟨parts, hparts⟩ := ih
    exact ⟨ms :: parts, .cons hms hparts⟩

/-- The operators that stand between items and inside them are marked as such. -/
structure MarksSigns (mark : Text → Markup) : Prop where
  comma : lineBy mark [','] = [single .operator [',']]
  equals : lineBy mark ['='] = [single .operator ['=']]

/-- One item in front of a tiling that begins with a piece. -/
theorem withGaps_trimmed (hsigns : MarksSigns mark) {item : Text} {ms : List Markup}
    (h : Argument mark item ms) {t : Tiling} (ht : (t.refine named?).lead = []) :
    withGaps (lineBy mark) ((trimmed item t).refine named?)
      = ms ++ withGaps (lineBy mark) (t.refine named?) := by
  rw [trimmed, refine_gap]
  cases h with
  | line unnamed =>
    by_cases hblank : item.trim = []
    · obtain ⟨hleading, hstart⟩ := Text.leading_of_blank hblank
      have hnone : item.trimStart.trailing = [] := by
        rw [hstart]
        rfl
      rw [hblank, hnone, gap_nil, piece, if_pos List.isEmpty_nil, withGaps_gap _ ht,
        lineBy_blank hblank, hleading]
    · have hnone : named? item.trim = none := by
        cases hnamed : named? item.trim with
        | none => rfl
        | some parts =>
          obtain ⟨name, before, after, value, hitem⟩ := exists_named_of_named? hnamed
          exact absurd hitem (unnamed name before after value)
      rw [refine_piece_none hblank hnone, withGaps_gap _ (lead_piece hblank _),
        withGaps_piece hblank, refine_gap, withGaps_gap _ ht, lineBy_blanks hblank]
      simp only [List.append_assoc]
  | named parts =>
    have hname := parts.name_ne_nil
    have hvalue := parts.value_ne_nil
    have hsign : ['='] ≠ [] := List.cons_ne_nil _ _
    have hitem : item.trim ≠ [] := by
      rw [parts.written]
      simp
    rw [refine_piece_some hitem parts.named?_eq, refine_gap, namedTiling, piece_append,
      gap_append, piece_append, gap_append, piece_append, empty_append,
      withGaps_gap _ (lead_piece hname _), withGaps_piece hname,
      withGaps_gap _ (lead_piece hsign _), withGaps_piece hsign, hsigns.equals,
      withGaps_gap _ (lead_piece hvalue _), withGaps_piece hvalue, withGaps_gap _ ht]
    simp only [List.append_assoc, List.cons_append, List.nil_append]

/-- **Items with commas between them** are marked one by one. -/
theorem argumentsBy_intercalate (hsigns : MarksSigns mark) {items : List Text}
    {parts : List (List Markup)} (hne : items ≠ [])
    (hbalanced : ∀ a ∈ items, Balanced (· != ',') a)
    (h : List.Forall₂ (Argument mark) items parts) :
    argumentsBy mark ([','].intercalate items)
      = [single .operator [',']].intercalate parts := by
  unfold argumentsBy arguments
  induction h with
  | nil => exact absurd rfl hne
  | @cons item ms items parts harg hrest ih =>
    have hitem := hbalanced item List.mem_cons_self
    have hlater : ∀ a ∈ items, Balanced (· != ',') a :=
      fun a ha => hbalanced a (List.mem_cons_of_mem item ha)
    cases hrest with
    | nil =>
      rw [List.intercalate_singleton, List.intercalate_singleton,
        Division.itemsAndCommas_item hitem, withGaps_trimmed hsigns harg (t := empty) rfl]
      exact List.append_nil ms
    | cons harg' hrest' =>
      have hcomma : [','] ≠ [] := List.cons_ne_nil _ _
      have hnone : named? [','] = none := by decide
      rw [List.intercalate_cons_cons, List.intercalate_cons_cons, List.append_assoc,
        List.singleton_append, Division.itemsAndCommas_cons hitem, withGaps_trimmed hsigns harg,
        refine_piece_none hcomma hnone, withGaps_piece hcomma, hsigns.comma,
        ih (List.cons_ne_nil _ _) hlater, List.append_assoc]
      rw [refine_piece_none hcomma hnone]
      exact lead_piece hcomma _

end Markup

/-! ## 3. Calls and containers -/

/-- A text with a property that no keyword and no operator has is neither. -/
theorem Vocabulary.not_word {p : Text → Bool}
    (hwords : (keywords ++ operators).all (fun w => !p w) = true) {text : Text}
    (h : p text = true) : isKeyword text = false ∧ isOperator text = false := by
  have hnot : text ∉ keywords ++ operators := by
    intro hword
    have hp := List.all_eq_true.mp hwords text hword
    rw [h] at hp
    exact Bool.false_ne_true hp
  rw [List.mem_append, not_or] at hnot
  exact ⟨by simpa [isKeyword] using hnot.1, by simpa [isOperator] using hnot.2⟩

/-- No keyword has a bracket in it, and the operators that are brackets are one character. -/
theorem Vocabulary.not_word_of_opener {text : Text} {c : Char} (hmem : c ∈ text)
    (hopener : isOpener c = true) (hlength : 2 ≤ text.length) :
    isKeyword text = false ∧ isOperator text = false := by
  refine not_word (p := fun w => w.any isOpener && decide (2 ≤ w.length)) (by decide) ?_
  rw [Bool.and_eq_true, List.any_eq_true, decide_eq_true_eq]
  exact ⟨⟨c, hmem, hopener⟩, hlength⟩

/-- Splitting a text loses nothing but separators. -/
theorem Text.eq_or_mem_split (sep : Char) {c : Char} {t : Text} (h : c ∈ t) :
    c = sep ∨ ∃ p ∈ split sep t, c ∈ p := by
  induction t with
  | nil => exact absurd h List.not_mem_nil
  | cons d ds ih =>
    obtain ⟨p, ps, hparts⟩ := List.exists_cons_of_ne_nil (split_ne_nil sep ds)
    rw [hparts] at ih
    rw [split, hparts]
    by_cases hd : d = sep
    · rw [if_pos hd]
      rcases List.mem_cons.mp h with rfl | h
      · exact Or.inl hd
      · rcases ih h with hc | ⟨q, hq, hc⟩
        · exact Or.inl hc
        · exact Or.inr ⟨q, List.mem_cons_of_mem _ hq, hc⟩
    · rw [if_neg hd, List.modifyHead_cons]
      rcases List.mem_cons.mp h with rfl | h
      · exact Or.inr ⟨_, List.mem_cons_self, List.mem_cons_self⟩
      · rcases ih h with hc | ⟨q, hq, hc⟩
        · exact Or.inl hc
        · rcases List.mem_cons.mp hq with rfl | hq
          · exact Or.inr ⟨_, List.mem_cons_self, List.mem_cons_of_mem d hc⟩
          · exact Or.inr ⟨q, List.mem_cons_of_mem _ hq, hc⟩

/-- The characters of a dotted name. -/
theorem Name.isWordOrDot_of_mem {path : Text} (h : isPath path = true) :
    ∀ c ∈ path, isWordOrDot c = true := by
  intro c hc
  rw [isWordOrDot, Bool.or_eq_true, beq_iff_eq]
  rcases Text.eq_or_mem_split '.' hc with hdot | ⟨p, hp, hcp⟩
  · exact Or.inr hdot
  · have hname := List.all_eq_true.mp h p hp
    rw [isName, Bool.and_eq_true] at hname
    exact Or.inl (List.all_eq_true.mp hname.2 c hcp)

/-- No dotted name goes on with an opening bracket. -/
theorem not_isWordOrDot_of_isOpener {c : Char} (h : isOpener c = true) :
    isWordOrDot c = false := by
  simp only [isOpener, Bool.or_eq_true, beq_iff_eq] at h
  rcases h with (rfl | rfl) | rfl <;> decide

namespace Form

theorem path?_append {path rest : Text} {c : Char} (hpath : Name.isPath path = true)
    (hc : isWordOrDot c = false) : Name.path? (path ++ c :: rest) = some (path, c :: rest) := by
  obtain ⟨htake, hdrop⟩ := Text.takeWhile_append (Name.isWordOrDot_of_mem hpath) hc rest
  simp [Name.path?, htake, hdrop, hpath]

variable {b : Bracketed}

theorem call?_append {path : Text} (hpath : Name.isPath path = true)
    (hread : bracketed? b.text = some b) (hopener : b.opener = '(') :
    call? (path ++ b.text) = some (path, b) := by
  have hpath? : Name.path? (path ++ b.text) = some (path, b.text) := by
    have hword := not_isWordOrDot_of_isOpener (brackets_of_bracketed? hread).1
    exact path?_append hpath hword
  simp [call?, hpath?, hread, hopener]

/-- A dotted name and a group are a call. -/
theorem of_call {path : Text} (hpath : Name.isPath path = true)
    (hread : bracketed? b.text = some b) (hopener : b.opener = '(') :
    Form.of (path ++ b.text) = .call path b := by
  have hcall := call?_append hpath hread hopener
  have hmem : b.opener ∈ path ++ b.text := by simp [Bracketed.text]
  have hlength : 2 ≤ (path ++ b.text).length := by
    simp only [Bracketed.text, List.length_append, List.length_cons, List.length_nil]
    omega
  obtain ⟨hkeyword, hoperator⟩ :=
    Vocabulary.not_word_of_opener hmem (brackets_of_bracketed? hread).1 hlength
  simp [Form.of, hkeyword, hoperator, hcall]

/-- A group by itself is a container. -/
theorem of_container (hread : bracketed? b.text = some b) : Form.of b.text = .container b := by
  have hopener := (brackets_of_bracketed? hread).1
  have hmem : b.opener ∈ b.text := List.mem_cons_self
  have hlength : 2 ≤ b.text.length := by simp [Bracketed.text]
  obtain ⟨hkeyword, hoperator⟩ := Vocabulary.not_word_of_opener hmem hopener hlength
  have hnumber := Number.not_isNumber_of_opener hmem hopener
  have hword := not_isWordOrDot_of_isOpener hopener
  have hcall : call? b.text = none := by
    have htake : b.text.takeWhile isWordOrDot = [] := by simp [Bracketed.text, hword]
    have hempty : Name.isPath [] = false := by decide
    simp [call?, Name.path?, htake, hempty]
  have hliteral : Literal.isLiteral b.text = false := by
    rw [Bracketed.text, Literal.isLiteral, not_quote_of_isOpener hopener, Bool.false_and]
  simp [Form.of, hkeyword, hoperator, hcall, hliteral, hnumber, hread]

end Form

namespace Markup

/-- An atom is marked as such, whatever room there is. -/
theorem within_of_atom {text : Text} {c : Category} (h : Form.of text = .atom c) (room : Nat) :
    within room text = single c text := by
  cases room with
  | zero => rw [within, whole, h]
  | succ room => rw [within, byForm, h]

section

variable {mark : Text → Markup} {free : Char → Bool} {body : Text}

/-- A call with balanced arguments. -/
theorem byForm_call {path : Text} (hpath : Name.isPath path = true)
    (hprimitive : Vocabulary.isPrimitive path = false) (hbody : Balanced free body) :
    byForm mark (path ++ '(' :: (body ++ [')']))
      = .group .function (.run (path ++ ['(']) :: (argumentsBy mark body ++ [.run [')']])) := by
  have hopener : isOpener '(' = true := rfl
  have hcloser : isCloser ')' = true := rfl
  have hform : Form.of (path ++ '(' :: (body ++ [')'])) = .call path ⟨'(', body, ')'⟩ :=
    Form.of_call (b := ⟨'(', body, ')'⟩) hpath (bracketed?_of_balanced hopener hcloser hbody) rfl
  rw [byForm, hform]
  simp [hprimitive]

/-- A container with balanced items. -/
theorem byForm_container {opener closer : Char} (hopener : isOpener opener = true)
    (hcloser : isCloser closer = true) (hbody : Balanced free body) :
    byForm mark (opener :: (body ++ [closer]))
      = .group .default (.run [opener] :: (argumentsBy mark body ++ [.run [closer]])) := by
  have hform : Form.of (opener :: (body ++ [closer])) = .container ⟨opener, body, closer⟩ :=
    Form.of_container (b := ⟨opener, body, closer⟩)
      (bracketed?_of_balanced hopener hcloser hbody)
  rw [byForm, hform]

end

theorem marksSigns_within (room : Nat) : MarksSigns (within room) := by
  have hsign : ∀ c : Char, Statement.dissect [c] = .piece [c] .empty → Text.Core [c] →
      Form.of [c] = .atom .operator → lineBy (within room) [c] = [single .operator [c]] := by
    intro c hdissect hcore hform
    rw [lineBy, hdissect, withGaps_piece (List.cons_ne_nil _ _), withBlanks_core hcore,
      within_of_atom hform]
    rfl
  constructor
  · exact hsign ',' (by decide) (Text.core_singleton (by decide)) (by decide)
  · exact hsign '=' (by decide) (Text.core_singleton (by decide)) (by decide)

/-- Items with commas between them are balanced. -/
theorem balanced_intercalate {items : List Text}
    (h : ∀ a ∈ items, Balanced (· != ',') a) :
    Balanced (fun _ => true) ([','].intercalate items) := by
  induction items with
  | nil => exact .nil
  | cons item items ih =>
    have hitem : Balanced (fun _ => true) item :=
      (h item List.mem_cons_self).mono fun _ _ => rfl
    have hrest := ih fun a ha => h a (List.mem_cons_of_mem item ha)
    cases items with
    | nil =>
      rw [List.intercalate_singleton]
      exact hitem
    | cons next items =>
      rw [List.intercalate_cons_cons, List.append_assoc]
      exact hitem.append (.char (by decide) rfl hrest)

/-- **Calls and containers are marked compositionally.**  Between the brackets stand one or more
items with commas between them; each of them is balanced and has no free comma.  Then the items
are marked one by one, a level further inwards, each as a line of its own or by its name and its
value (`Argument`), and the commas between them as operators. -/
theorem lists_marked_by_items {d : Nat} (hd : d < depthLimit) {items : List Text}
    (hne : items ≠ []) (hbalanced : ∀ a ∈ items, Balanced (· != ',') a) :
    (∃ parts, List.Forall₂ (Argument (within (depthLimit - (d + 1)))) items parts) ∧
    ∀ parts, List.Forall₂ (Argument (within (depthLimit - (d + 1)))) items parts →
      (∀ path, Name.isPath path = true → Vocabulary.isPrimitive path = false →
        within (depthLimit - d) (path ++ '(' :: ([','].intercalate items ++ [')']))
          = .group .function (.run (path ++ ['(']) ::
              ([single .operator [',']].intercalate parts ++ [.run [')']]))) ∧
      ∀ opener closer, isOpener opener = true → isCloser closer = true →
        within (depthLimit - d) (opener :: ([','].intercalate items ++ [closer]))
          = .group .default (.run [opener] ::
              ([single .operator [',']].intercalate parts ++ [.run [closer]])) := by
  have hroom : depthLimit - d = depthLimit - (d + 1) + 1 := by omega
  refine ⟨exists_arguments _ items, ?_⟩
  intro parts hparts
  have hinner := argumentsBy_intercalate (marksSigns_within _) hne hbalanced hparts
  have hbody := balanced_intercalate hbalanced
  rw [hroom, within, ← hinner]
  constructor
  · intro path hpath hprimitive
    exact byForm_call hpath hprimitive hbody
  · intro opener closer hopener hcloser
    exact byForm_container hopener hcloser hbody

/-- A comma in an inner call and one in a literal divide nothing, and the first item has a
name. -/
theorem lists_marked_by_items_named :
    0 < depthLimit ∧ Name.isPath "f.h".toList = true ∧
      Vocabulary.isPrimitive "f.h".toList = false ∧
      (∀ a ∈ ["x = g(1, 2)".toList, " 'a,b'".toList], Balanced (· != ',') a) ∧
      ∃ parts,
        List.Forall₂ (Argument (within 63)) ["x = g(1, 2)".toList, " 'a,b'".toList] parts ∧
        within 64 "f.h(x = g(1, 2), 'a,b')".toList
          = .group .function (.run "f.h(".toList ::
              ([single .operator [',']].intercalate parts ++ [.run [')']])) := by
  have hfirst : Balanced (· != ',') ("x = g".toList ++ '(' :: ("1, 2".toList ++ [')'])) :=
    .append (.of_plain (by decide)) (.group rfl rfl (.of_plain (by decide)) .nil)
  have hquoted : LiteralBody '\'' "a,b".toList :=
    .char (by decide) (by decide) (.char (by decide) (by decide)
      (.char (by decide) (by decide) .nil))
  have hsecond : Balanced (· != ',') (" ".toList ++ '\'' :: ("a,b".toList ++ ['\''])) :=
    .append (.of_plain (by decide)) (.literal rfl hquoted .nil)
  have hbalanced : ∀ a ∈ ["x = g(1, 2)".toList, " 'a,b'".toList], Balanced (· != ',') a :=
    List.forall_mem_cons.mpr ⟨hfirst, List.forall_mem_singleton.mpr hsecond⟩
  have hlimit : 0 < depthLimit := by decide
  have hpath : Name.isPath "f.h".toList = true := by decide
  have hprimitive : Vocabulary.isPrimitive "f.h".toList = false := by decide
  obtain ⟨⟨parts, hparts⟩, hmarked⟩ :=
    lists_marked_by_items hlimit (List.cons_ne_nil _ _) hbalanced
  exact ⟨hlimit, hpath, hprimitive, hbalanced, parts, hparts,
    (hmarked parts hparts).1 _ hpath hprimitive⟩

end Markup

end Highlighter
