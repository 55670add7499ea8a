/-
# Import statements are taken apart into their words

An import statement is given here by its tiles: each word, comma and parenthesis with the blanks
that follow it.  `Written` says which lists of tiles are statements, and the line is their text.
What a line is taken apart into is then compared with the tiles it was written from.

A division at blanks and commas finds the words again (`Entries.wordsAndCommas_eq`), wherever they
stand: in parentheses, or behind a module.  No word is special there.  A module may be named
`import`, and so may what is imported, since the two keywords are looked for at one place each.

The names have to stand on one line, though.  A division would not mind a newline between two words,
but the rule does not get that far (`names_over_lines`).
-/
import Highlighter.Proofs.Kinds
import Highlighter.Proofs.Separators

namespace Highlighter

theorem Text.Spacing.plain {t : Text} (h : t.Spacing) :
    ∀ c ∈ t, isPlain c = true ∧ c ≠ '\n' := by
  intro c hc
  exact ⟨isPlain_of_isBlank (blank_iff.mp h.blank c hc),
    bne_iff_ne.mp (List.all_eq_true.mp h.oneLine c hc)⟩

/-! ## 1. Dividing one tile after the other -/

namespace Tiling

/-- What follows a list of tiles can as well stand behind the last of them. -/
theorem foldr_tile_append (tiles : List Tile) (t : Tiling) :
    (tiles.foldr tile empty).append t = tiles.foldr tile t := by
  induction tiles with
  | nil => exact empty_append t
  | cons a rest ih =>
    rw [List.foldr_cons, List.foldr_cons, tile, piece_append, gap_append, ih, tile]

end Tiling

namespace Division

open Tiling

variable {role : Char → Role} {s t : Text}

/-- A text of dividers is a gap. -/
theorem along_dividers (hs : ∀ c ∈ s, isPlain c = true ∧ role c = .divider) (t : Text) :
    along role (s ++ t) = gap s (along role t) := by
  induction s with
  | nil => rfl
  | cons c cs ih =>
    obtain ⟨hc, hcs⟩ := List.forall_mem_cons.mp hs
    rw [List.cons_append, along, scan_divider hc.1 hc.2, ih hcs]
    rfl

theorem along_mark {c : Char} (hc : isPlain c = true) (hrole : role c = .mark) (t : Text) :
    along role (c :: t) = piece [c] (along role t) := by
  rw [along, scan_mark hc hrole]
  rfl

/-- Nothing stands before the first separator of a text that begins with one. -/
theorem run_scan_eq_nil (ht : ∀ c ∈ t.head?, isPlain c = true ∧ role c ≠ .content) :
    (scan role .start t).run = [] := by
  cases t with
  | nil => rfl
  | cons c cs =>
    obtain ⟨hplain, hrole⟩ := ht c rfl
    cases hc : role c with
    | content => exact absurd hc hrole
    | divider => rw [scan_divider hplain hc]
    | mark => rw [scan_mark hplain hc]

/-- **A text without separators is a piece**, if a separator or nothing follows it. -/
theorem along_content (hcore : s.Core) (hs : ∀ c ∈ s, isPlain c = true ∧ role c = .content)
    (ht : ∀ c ∈ t.head?, isPlain c = true ∧ role c ≠ .content) :
    along role (s ++ t) = piece s (along role t) := by
  have hbalanced : Balanced (fun c => decide (role c = .content)) s :=
    .of_plain (by simpa [List.all_eq_true] using hs)
  -- what follows begins with a separator, so nothing of it joins the piece
  have hrun := run_scan_eq_nil ht
  rw [along, scan_balanced hbalanced (fun _ hc => of_decide_eq_true hc), Cut.tiling, hrun,
    List.append_nil, trimmed_core hcore, along, Cut.tiling, hrun]
  rfl

end Division

/-! ## 2. How imports are written -/

namespace Statement.Import

open Tiling

/-- Whether a character is no blank, comma, quote or bracket. -/
def isTokenChar (c : Char) : Bool := !isBlank c && c != ',' && isPlain c

/-- A word of an import. -/
structure IsToken (w : Text) : Prop where
  nonempty : w ≠ []
  chars : ∀ c ∈ w, isTokenChar c = true

/-- A list of entries between commas, each of one or more words.  Two words of an entry are kept
`apart` by what is between them, and `after` stands behind the last word of all. -/
inductive Entries (apart : Text → Prop) (after : Text) : List Tile → Prop
  | last {w : Text} (word : IsToken w) : Entries apart after [⟨w, after⟩]
  | word {w gap : Text} {rest : List Tile} (word : IsToken w) (nonempty : gap ≠ [])
      (spaced : apart gap) (more : Entries apart after rest) :
      Entries apart after (⟨w, gap⟩ :: rest)
  | comma {w before gap : Text} {rest : List Tile} (word : IsToken w) (front : before.Spacing)
      (back : gap.Spacing) (more : Entries apart after rest) :
      Entries apart after (⟨w, before⟩ :: ⟨[','], gap⟩ :: rest)

/-- The imported names: entries, with one pair of parentheses around them or without. -/
inductive Names (apart : Text → Prop) : List Tile → Prop
  | bare {tiles : List Tile} (entries : Entries apart [] tiles) : Names apart tiles
  | enclosed {inner after : Text} {tiles : List Tile} (front : inner.Spacing)
      (back : after.Spacing) (entries : Entries apart after tiles) :
      Names apart (⟨['('], inner⟩ :: (tiles ++ [⟨[')'], []⟩]))

/-- An import statement, without a module or with one. -/
inductive Written (apart : Text → Prop) : List Tile → Prop
  | direct {space : Text} {tiles : List Tile} (nonempty : space ≠ []) (blank : space.blank = true)
      (names : Names apart tiles) : Written apart (⟨importWord, space⟩ :: tiles)
  | source {before after space m : Text} {tiles : List Tile}
      (before_ne : before ≠ []) (before_blank : before.blank = true)
      (path : m ≠ []) (chars : ∀ c ∈ m, isWordOrDot c = true)
      (after_ne : after ≠ []) (after_blank : after.blank = true)
      (nonempty : space ≠ []) (blank : space.blank = true) (names : Names apart tiles) :
      Written apart (⟨fromWord, before⟩ :: ⟨m, after⟩ :: ⟨importWord, space⟩ :: tiles)

variable {w g t after : Text} {tiles : List Tile}

/-! ## 3. Entries -/

theorem isTokenChar_iff {c : Char} :
    isTokenChar c = true ↔ isBlank c = false ∧ c ≠ ',' ∧ isPlain c = true := by
  simp [isTokenChar, and_assoc]

theorem IsToken.core (h : IsToken w) : w.Core :=
  Text.core_of_not_blank h.nonempty fun c hc => (isTokenChar_iff.mp (h.chars c hc)).1

theorem IsToken.singleton {c : Char} (h : isTokenChar c = true) : IsToken [c] :=
  ⟨List.cons_ne_nil c [], List.forall_mem_singleton.mpr h⟩

theorem IsToken.plain (h : IsToken w) : ∀ c ∈ w, isPlain c = true ∧ c ≠ '\n' := by
  intro c hc
  obtain ⟨hblank, -, hplain⟩ := isTokenChar_iff.mp (h.chars c hc)
  refine ⟨hplain, ?_⟩
  rintro rfl
  exact absurd hblank (by decide)

theorem wordsAndCommas_blanks (hg : g.blank = true) (t : Text) :
    Division.wordsAndCommas (g ++ t) = gap g (Division.wordsAndCommas t) := by
  refine Division.along_dividers ?_ t
  intro c hc
  have hblank := Text.blank_iff.mp hg c hc
  have hcomma : c ≠ ',' := by
    rintro rfl
    exact absurd hblank (by decide)
  exact ⟨isPlain_of_isBlank hblank, by simp [hcomma, hblank]⟩

/-- **A word and the blanks after it are a tile**, unless the word goes on behind them. -/
theorem wordsAndCommas_word (hw : IsToken w) (hg : g.blank = true)
    (hnext : g = [] → ∀ c ∈ t.head?, c = ',') :
    Division.wordsAndCommas (w ++ (g ++ t)) = tile ⟨w, g⟩ (Division.wordsAndCommas t) := by
  rw [tile, ← wordsAndCommas_blanks hg]
  refine Division.along_content hw.core ?_ ?_
  · intro c hc
    obtain ⟨hblank, hcomma, hplain⟩ := isTokenChar_iff.mp (hw.chars c hc)
    exact ⟨hplain, by simp [hblank, hcomma]⟩
  · intro c hc
    cases g with
    | nil =>
      obtain rfl := hnext rfl c hc
      exact ⟨rfl, by simp⟩
    | cons d g =>
      obtain rfl := Option.some.inj hc
      have hblank := Text.blank_iff.mp hg d List.mem_cons_self
      refine ⟨isPlain_of_isBlank hblank, ?_⟩
      split <;> simp

theorem wordsAndCommas_comma (hg : g.blank = true) (t : Text) :
    Division.wordsAndCommas ([','] ++ (g ++ t)) = tile ⟨[','], g⟩ (Division.wordsAndCommas t) := by
  rw [tile, ← wordsAndCommas_blanks hg]
  exact Division.along_mark rfl rfl (g ++ t)

namespace Entries

/-- **The words and commas of entries are found again.** -/
theorem wordsAndCommas_eq (h : Entries Text.Spacing after tiles) (hafter : after.blank = true) :
    Division.wordsAndCommas (tilesText tiles) = tiles.foldr tile empty := by
  induction h with
  | last word =>
    rw [tilesText_cons, wordsAndCommas_word word hafter (fun _ c hc => by cases hc)]
    rfl
  | word word nonempty spaced _ ih =>
    rw [tilesText_cons, wordsAndCommas_word word spaced.blank (fun h => absurd h nonempty), ih]
    rfl
  | comma word front back _ ih =>
    rw [tilesText_cons, tilesText_cons, wordsAndCommas_word word front.blank,
      wordsAndCommas_comma back.blank, ih]
    · rfl
    · intro _ c hc
      exact (Option.some.inj hc).symm

/-- Entries hold no quotes and no brackets, and they stand on one line. -/
theorem chars (h : Entries Text.Spacing after tiles) (hafter : after.Spacing) :
    ∀ c ∈ tilesText tiles, isPlain c = true ∧ c ≠ '\n' := by
  induction h with
  | last word =>
    rw [tilesText_cons, List.forall_mem_append, List.forall_mem_append]
    exact ⟨word.plain, hafter.plain, fun c hc => by cases hc⟩
  | word word _ spaced _ ih =>
    rw [tilesText_cons, List.forall_mem_append, List.forall_mem_append]
    exact ⟨word.plain, spaced.plain, ih⟩
  | comma word front back _ ih =>
    rw [tilesText_cons, tilesText_cons]
    simp only [List.forall_mem_append, List.forall_mem_singleton]
    exact ⟨word.plain, front.plain, ⟨rfl, by decide⟩, back.plain, ih⟩

theorem core (h : Entries Text.Spacing [] tiles) : (tilesText tiles).Core := by
  induction h with
  | last word =>
    rw [tilesText_cons]
    simpa [tilesText] using word.core
  | word word _ _ _ ih =>
    rw [tilesText_cons]
    exact word.core.join ih _
  | comma word _ _ _ ih =>
    rw [tilesText_cons, tilesText_cons]
    exact word.core.join ((Text.core_singleton (by decide)).join ih _) _

theorem bodies (h : Entries Text.Spacing after tiles) : ∀ a ∈ tiles, a.body ≠ [] := by
  induction h with
  | last word => exact List.forall_mem_singleton.mpr word.nonempty
  | word word _ _ _ ih => exact List.forall_mem_cons.mpr ⟨word.nonempty, ih⟩
  | comma word _ _ _ ih =>
    rw [List.forall_mem_cons, List.forall_mem_cons]
    exact ⟨word.nonempty, List.cons_ne_nil _ _, ih⟩

end Entries

/-! ## 4. Names -/

theorem tilesText_enclosed (inner : Text) (tiles : List Tile) :
    tilesText (⟨['('], inner⟩ :: (tiles ++ [⟨[')'], []⟩]))
      = '(' :: ((inner ++ tilesText tiles) ++ [')']) := by
  rw [tilesText_cons, tilesText_append, List.append_assoc]
  rfl

namespace Names

theorem core (h : Names Text.Spacing tiles) : (tilesText tiles).Core := by
  cases h with
  | bare entries => exact entries.core
  | enclosed _ _ _ =>
    rw [tilesText_enclosed]
    exact Text.core_of_ends rfl (List.cons_append).symm (by decide) (by decide)

theorem oneLine (h : Names Text.Spacing tiles) : (tilesText tiles).oneLine = true := by
  suffices hline : ∀ c ∈ tilesText tiles, c ≠ '\n' from
    List.all_eq_true.mpr fun c hc => bne_iff_ne.mpr (hline c hc)
  cases h with
  | bare entries => exact fun c hc => (entries.chars ⟨rfl, rfl⟩ c hc).2
  | enclosed front back entries =>
    rw [tilesText_enclosed, List.forall_mem_cons, List.forall_mem_append, List.forall_mem_append,
      List.forall_mem_singleton]
    exact ⟨by decide, ⟨fun c hc => (front.plain c hc).2,
      fun c hc => (entries.chars back c hc).2⟩, by decide⟩

/-- **The names are found again**, with the parentheses around them. -/
theorem names_eq (h : Names Text.Spacing tiles) :
    names (tilesText tiles) = tiles.foldr tile empty := by
  cases h with
  | bare entries =>
    have hnone : bracketed? (tilesText tiles) = none := by
      obtain ⟨c, cs, hfirst⟩ := List.exists_cons_of_ne_nil entries.core.nonempty
      have hplain := (entries.chars ⟨rfl, rfl⟩ c (by simp [hfirst])).1
      simp only [isPlain, Bool.and_eq_true, Bool.not_eq_true'] at hplain
      rw [hfirst, bracketed?_eq_none hplain.1.2]
    rw [names, hnone]
    exact entries.wordsAndCommas_eq rfl
  | @enclosed inner after tiles front back entries =>
    -- there is no bracket between the parentheses, so they are partners
    have hbalanced : Balanced (fun _ => true) (inner ++ tilesText tiles) := by
      refine .of_plain (List.all_eq_true.mpr ?_)
      rw [List.forall_mem_append]
      exact ⟨fun c hc => by simp [(front.plain c hc).1],
        fun c hc => by simp [(entries.chars back c hc).1]⟩
    rw [names, tilesText_enclosed, bracketed?_of_balanced rfl rfl hbalanced]
    simp only [if_true]
    rw [wordsAndCommas_blanks front.blank, entries.wordsAndCommas_eq back.blank, gap_append,
      foldr_tile_append, List.foldr_cons, List.foldr_append]
    rfl

theorem bodies (h : Names Text.Spacing tiles) : ∀ a ∈ tiles, a.body ≠ [] := by
  cases h with
  | bare entries => exact entries.bodies
  | enclosed _ _ entries =>
    rw [List.forall_mem_cons, List.forall_mem_append, List.forall_mem_singleton]
    exact ⟨List.cons_ne_nil _ _, entries.bodies, List.cons_ne_nil _ _⟩

end Names

/-! ## 5. Statements -/

theorem direct?_eq {space : Text} (hne : space ≠ []) (hspace : space.blank = true)
    (h : Names Text.Spacing tiles) :
    direct? (importWord ++ (space ++ tilesText tiles))
      = some ((⟨importWord, space⟩ :: tiles).foldr tile empty) := by
  have hrest : Text.after? importWord (importWord ++ (space ++ tilesText tiles))
      = some (space ++ tilesText tiles) := Text.after?_eq_some_iff.mpr rfl
  have htail : namesAfter? (space ++ tilesText tiles)
      = some (gap space (tiles.foldr tile empty)) := by
    rw [namesAfter?, Text.blanks?_core hne hspace h.core, ← h.names_eq]
    obtain ⟨c, cs, hfirst⟩ := List.exists_cons_of_ne_nil h.core.nonempty
    have hline := h.oneLine
    rw [hfirst] at hline ⊢
    exact if_pos hline
  rw [direct?, hrest, Option.bind_eq_bind, Option.bind_some, htail]
  rfl

theorem not_isWordOrDot_of_isBlank {c : Char} (h : isBlank c = true) : isWordOrDot c = false := by
  have hdot : c ≠ '.' := by
    rintro rfl
    exact absurd h (by decide)
  simp [isWordOrDot, not_isWord_of_isBlank h, hdot]

theorem core_path {m : Text} (hne : m ≠ []) (hm : ∀ c ∈ m, isWordOrDot c = true) : m.Core := by
  refine Text.core_of_not_blank hne fun c hc => Bool.eq_false_iff.mpr fun hblank => ?_
  exact absurd (hm c hc) (by simp [not_isWordOrDot_of_isBlank hblank])

theorem core_importWord : importWord.Core := ⟨by decide, by decide⟩

theorem core_fromWord : fromWord.Core := ⟨by decide, by decide⟩

/-- The module ends at the first blank after it. -/
theorem fromModule?_eq {before m after rest : Text} {t : Tiling} (hbefore_ne : before ≠ [])
    (hbefore : before.blank = true) (hne : m ≠ []) (hm : ∀ c ∈ m, isWordOrDot c = true)
    (hafter_ne : after ≠ []) (hafter : after.blank = true) (hrest : rest.Core)
    (ht : direct? rest = some t) :
    fromModule? (fromWord ++ (before ++ (m ++ (after ++ rest))))
      = some (tile ⟨fromWord, before⟩ (tile ⟨m, after⟩ t)) := by
  have hfrom : Text.after? fromWord (fromWord ++ (before ++ (m ++ (after ++ rest))))
      = some (before ++ (m ++ (after ++ rest))) := Text.after?_eq_some_iff.mpr rfl
  have hblanks : Text.blanks? (before ++ (m ++ (after ++ rest)))
      = some (before, m ++ (after ++ rest)) :=
    Text.blanks?_core hbefore_ne hbefore ((core_path hne hm).join hrest after)
  have hsource : Text.run? isWordOrDot (m ++ (after ++ rest)) = some (m, after ++ rest) := by
    obtain ⟨b, bs, rfl⟩ := List.exists_cons_of_ne_nil hafter_ne
    have hb := Text.blank_iff.mp hafter b List.mem_cons_self
    exact Text.run?_append hne hm (not_isWordOrDot_of_isBlank hb) (bs ++ rest)
  have hblanks' := Text.blanks?_core hafter_ne hafter hrest
  rw [fromModule?, hfrom]
  simp only [Option.bind_eq_bind, Option.bind_some, hblanks, hsource, hblanks', ht]
  rfl

namespace Written

theorem core (h : Written Text.Spacing tiles) : (tilesText tiles).Core := by
  cases h with
  | direct _ _ names =>
    rw [tilesText_cons]
    exact core_importWord.join names.core _
  | source _ _ path chars _ _ _ _ names =>
    rw [tilesText_cons, tilesText_cons, tilesText_cons]
    exact core_fromWord.join ((core_path path chars).join (core_importWord.join names.core _) _) _

theorem bodies (h : Written Text.Spacing tiles) : ∀ a ∈ tiles, a.body ≠ [] := by
  cases h with
  | direct _ _ names => exact List.forall_mem_cons.mpr ⟨core_importWord.nonempty, names.bodies⟩
  | source _ _ path _ _ _ _ _ names =>
    rw [List.forall_mem_cons, List.forall_mem_cons, List.forall_mem_cons]
    exact ⟨core_fromWord.nonempty, path, core_importWord.nonempty, names.bodies⟩

/-- **The rule applies**, and finds the tiles that the statement was written from. -/
theorem tiling?_eq (h : Written Text.Spacing tiles) :
    tiling? (tilesText tiles) = some (tiles.foldr tile empty) := by
  cases h with
  | direct nonempty blank names =>
    rw [tilesText_cons, tiling?, direct?_eq nonempty blank names, Option.some_or]
  | source before_ne before_blank path chars after_ne after_blank nonempty blank names =>
    -- the form without a module is tried first, and fails at the first letter
    have hdirect : ∀ rest : Text, direct? (fromWord ++ rest) = none := by
      intro rest
      simp [direct?, Text.after?, importWord, fromWord]
    rw [tilesText_cons, tilesText_cons, tilesText_cons, tiling?, hdirect, Option.none_or,
      fromModule?_eq before_ne before_blank path chars after_ne after_blank
        (core_importWord.join names.core _) (direct?_eq nonempty blank names)]
    rfl

theorem of_eq (h : Written Text.Spacing tiles) : Statement.of (tilesText tiles) = .imports := by
  have horder : inOrder = [] ++ imports :: inOrder.tail := rfl
  refine Statement.of_eq h.core horder (fun _ hk => absurd hk List.not_mem_nil) ?_
  refine hintedBy_iff.mpr ?_
  cases h with
  | direct _ _ _ => exact Or.inl ⟨[], _, rfl⟩
  | source _ _ _ _ _ _ _ _ _ => exact Or.inr ⟨[], _, rfl⟩

end Written

/-- The pieces of a line without blanks around it. -/
theorem spans_dissect_core {line : Text} (h : line.Core) :
    (dissect line).spans = (dissectTrimmed line).spans := by
  rw [Sliced.spans_dissect, h.trimmed, h.blanks.1, ← spansAt_eq_map_shift, Text.byteSize_nil,
    spans_eq_spansAt]

/-- **Import statements are taken apart into their words.**  The pieces of a statement are the
tiles that it was written from, each at the offset at which it was written. -/
theorem imports_divided_into_words (h : Written Text.Spacing tiles) :
    (dissect (tilesText tiles)).spans = spansFrom 0 tiles := by
  rw [spans_dissect_core h.core, dissectTrimmed_eq h.of_eq h.tiling?_eq, spans_eq_spansAt,
    spansAt_foldr_tile h.bodies, spansAt_empty, List.append_nil]

/-- The keywords as names, an alias, and blanks of three bytes. -/
theorem imports_divided_into_words_keywords :
    Written Text.Spacing [⟨fromWord, [' ']⟩, ⟨'.' :: importWord, ['\u3000']⟩, ⟨importWord, [' ']⟩,
        ⟨['('], [' ']⟩, ⟨fromWord, ['\t', ' ']⟩, ⟨['a', 's'], [' ']⟩, ⟨importWord, ['\u3000']⟩,
        ⟨[','], []⟩, ⟨['é'], [' ']⟩, ⟨[')'], []⟩] ∧
      (dissect "from .import\u3000import ( from\t as import\u3000,é )".toList).spans
        = [⟨0, fromWord⟩, ⟨5, '.' :: importWord⟩, ⟨15, importWord⟩, ⟨22, ['(']⟩, ⟨24, fromWord⟩,
          ⟨30, ['a', 's']⟩, ⟨33, importWord⟩, ⟨42, [',']⟩, ⟨43, ['é']⟩, ⟨46, [')']⟩] := by
  have himport : IsToken importWord := ⟨by decide, List.all_eq_true.mp (by decide)⟩
  have hfrom : IsToken fromWord := ⟨by decide, List.all_eq_true.mp (by decide)⟩
  have has : IsToken ['a', 's'] := ⟨by decide, List.all_eq_true.mp (by decide)⟩
  have hentries : Entries Text.Spacing [' '] [⟨fromWord, ['\t', ' ']⟩, ⟨['a', 's'], [' ']⟩,
      ⟨importWord, ['\u3000']⟩, ⟨[','], []⟩, ⟨['é'], [' ']⟩] :=
    .word hfrom (by decide) ⟨by decide, by decide⟩ <|
    .word has (by decide) ⟨by decide, by decide⟩ <|
    .comma himport ⟨by decide, by decide⟩ ⟨by decide, by decide⟩ <|
    .last (.singleton (by decide))
  have hnames : Names Text.Spacing [⟨['('], [' ']⟩, ⟨fromWord, ['\t', ' ']⟩,
      ⟨['a', 's'], [' ']⟩, ⟨importWord, ['\u3000']⟩, ⟨[','], []⟩, ⟨['é'], [' ']⟩, ⟨[')'], []⟩] :=
    .enclosed ⟨by decide, by decide⟩ ⟨by decide, by decide⟩ hentries
  refine (and_iff_left_of_imp fun hwritten => ?_).mpr ?_
  · exact (imports_divided_into_words hwritten).trans (by decide)
  · exact .source (by decide) (by decide) (by decide) (List.all_eq_true.mp (by decide)) (by decide)
      (by decide) (by decide) (by decide) hnames

/-- **The names have to stand on one line**, also the words of one entry: with a newline between
two of them, the comma is no piece any more. -/
theorem names_over_lines :
    ∃ tiles, Written (fun gap => gap.blank = true) tiles ∧
      tilesText tiles = "import a\nb, c".toList ∧
      (dissect (tilesText tiles)).spans ≠ spansFrom 0 tiles := by
  refine ⟨[⟨importWord, [' ']⟩, ⟨['a'], ['\n']⟩, ⟨['b'], []⟩, ⟨[','], [' ']⟩, ⟨['c'], []⟩],
    .direct (by decide) (by decide) (.bare ?_), rfl, by decide +kernel⟩
  exact .word (.singleton (by decide)) (by decide) (by decide) <|
    .comma (.singleton (by decide)) ⟨by decide, by decide⟩ ⟨by decide, by decide⟩ <|
    .last (.singleton (by decide))

end Statement.Import

end Highlighter
