/-
# Taking a text apart by byte offsets

The rules of the library take a text apart into sublists and compute offsets at the end.  This
file does it the other way round: offsets are computed first, in bytes, and every part is cut out
of the text by `Text.slice`, which fails where an offset is past the end, out of order or inside
a character.  The two ways agree, and so no such cut ever fails.

* `Tiling.spansAt`: the spans of a tiling in a larger text;
* `Sliced.closer?`, `Sliced.along`, `Sliced.parts`, `Sliced.arguments`, `Sliced.imports`,
  `Sliced.spans`, `Sliced.dissect`: the rules by byte offsets, each with its lemma `_eq`.

The patterns of the statement rules are not done again: a pattern says between which offsets
its parts stand, and `Sliced.captures` cuts them out.
-/
import Highlighter.Proofs.Places

namespace Highlighter

/-! ## 1. The last bracket of a group -/

namespace Context

theorem not_settled_read_opener {c : Char} (h : isOpener c = true) :
    (start.read c).settled = false := by
  simp only [isOpener, Bool.or_eq_true, beq_iff_eq] at h
  rcases h with (rfl | rfl) | rfl <;> rfl

/-- An opening bracket closes nothing: the search goes on behind it. -/
theorem splitClosing?_opener {c : Char} (h : isOpener c = true) (cs : Text) :
    start.splitClosing? (c :: cs)
      = ((start.read c).splitClosing? cs).map fun (before, d, rest) => (c :: before, d, rest) := by
  rw [splitClosing?, not_settled_read_opener h]
  rfl

end Context

namespace Sliced

/-- The offset of the bracket that closes the group which begins at `start`, if it is the last
byte of the text. -/
def lastCloser? (text : Text) (start : Nat) : Except OffsetError (Option Nat) := do
  let found ← closeOffset text start
  return found.filter (· + 1 == text.byteSize)

/-- The offset of the last bracket of a text that is one bracketed group. -/
def closer? (text : Text) : Except OffsetError (Option Nat) :=
  if text.head?.any isOpener then lastCloser? text 0 else return none

theorem lastCloser?_eq {text before cs : Text} {c : Char} (hc : isOpener c = true)
    (h : text = before ++ c :: cs) :
    lastCloser? text before.byteSize = .ok ((bracketed? (c :: cs)).map fun b =>
      before.byteSize + Text.byteSize (b.opener :: b.body)) := by
  have hsplit : text.splitAtByte before.byteSize = .ok (before, c :: cs) := by
    rw [h]
    exact Text.splitAtByte_append before (c :: cs)
  have hopener := utf8Size_of_isOpener hc
  simp only [lastCloser?, closeOffset, hsplit, Except.map, ok_bind, bracketed?, hc, if_true,
    Context.splitClosing?_opener hc]
  cases hclose : (Context.start.read c).splitClosing? cs with
  | none => rfl
  | some parts =>
    obtain ⟨body, d, rest⟩ := parts
    have hd := utf8Size_of_isCloser (Context.isCloser_of_splitClosing? hclose)
    have hcs := Context.splitClosing?_eq_some hclose
    have hsize : text.byteSize
        = before.byteSize + (1 + (body.byteSize + (1 + rest.byteSize))) := by
      rw [h, hcs]
      simp [hopener, hd]
    cases rest with
    | nil =>
      have hlast : before.byteSize + (c.utf8Size + body.byteSize) + 1 = text.byteSize := by
        rw [hsize, hopener, Text.byteSize_nil]
        omega
      simp [pure, Except.pure, Option.filter, hlast]
    | cons e rest =>
      have hpos := e.utf8Size_pos
      have hlast : before.byteSize + (c.utf8Size + body.byteSize) + 1 ≠ text.byteSize := by
        rw [hsize, hopener, Text.byteSize_cons]
        omega
      simp [pure, Except.pure, Option.filter, hlast]

/-- **The last bracket of a group by offsets.** -/
theorem closer?_eq (text : Text) : closer? text = .ok (closerOffset? text) := by
  cases text with
  | nil => rfl
  | cons c cs =>
    by_cases hc : isOpener c = true
    · have hlast := @lastCloser?_eq (c :: cs) [] cs c hc rfl
      simp only [closer?, closerOffset?, List.head?_cons, Option.any_some, hc, if_true]
      simpa using hlast
    · simp [closer?, closerOffset?, bracketed?, hc, pure, Except.pure]

end Sliced

/-! ## 2. Spans in a larger text -/

namespace Tiling

variable {t : Tiling}

/-- The pieces with their offsets, in a text in which the tiled text begins at `base`. -/
def spansAt (base : Nat) (t : Tiling) : List Span := spansFrom (base + t.lead.byteSize) t.tiles

theorem spans_eq_spansAt (t : Tiling) : t.spans = t.spansAt 0 := by
  rw [spans, spansAt, Nat.zero_add]

@[simp] theorem spansAt_empty (base : Nat) : empty.spansAt base = [] := rfl

@[simp] theorem spansAt_gap (base : Nat) (run : Text) (t : Tiling) :
    (gap run t).spansAt base = t.spansAt (base + run.byteSize) := by
  simp only [spansAt, gap, Text.byteSize_append, Nat.add_assoc]

theorem spansAt_piece {body : Text} (h : body ≠ []) (base : Nat) (t : Tiling) :
    (piece body t).spansAt base = ⟨base, body⟩ :: t.spansAt (base + body.byteSize) := by
  simp [spansAt, piece, h, spansFrom]

theorem spansAt_trimmed (base : Nat) (run : Text) (t : Tiling) :
    (trimmed run t).spansAt base
      = (Span.trimmed? base run).toList ++ t.spansAt (base + run.byteSize) := by
  have hsize := congrArg Text.byteSize (Text.leading_append_trim_append_trailing run)
  simp only [Text.byteSize_append] at hsize
  rw [trimmed, spansAt_gap, Span.trimmed?]
  by_cases hcore : run.trim = []
  · rw [hcore, Text.byteSize_nil] at hsize
    simp only [hcore, piece, List.isEmpty_nil, if_true, spansAt_gap, Option.toList_none,
      List.nil_append]
    congr 1
    omega
  · rw [spansAt_piece hcore, spansAt_gap]
    simp only [List.isEmpty_iff, hcore, if_false, Option.toList_some, List.singleton_append]
    congr 2
    omega

theorem spansFrom_add (offset base : Nat) (tiles : List Tile) :
    spansFrom (offset + base) tiles = (spansFrom offset tiles).map (Span.shift base) := by
  induction tiles generalizing offset with
  | nil => rfl
  | cons a rest ih =>
    have hnext : offset + base + a.body.byteSize + a.gap.byteSize
        = offset + a.body.byteSize + a.gap.byteSize + base := by omega
    rw [spansFrom, spansFrom, hnext, ih]
    rfl

/-- Seen from a larger text, all offsets are larger by the same amount. -/
theorem spansAt_eq_map_shift (base : Nat) (t : Tiling) :
    t.spansAt base = t.spans.map (Span.shift base) := by
  rw [spansAt, spans, Nat.add_comm, spansFrom_add]

theorem empty_append (t : Tiling) : empty.append t = t := rfl

theorem gap_append (run : Text) (s t : Tiling) : (gap run s).append t = gap run (s.append t) := by
  simp [append, gap]

theorem piece_append (body : Text) (s t : Tiling) :
    (piece body s).append t = piece body (s.append t) := by
  cases body with
  | nil => rfl
  | cons c cs => rfl

theorem spansAt_foldr_tile {tiles : List Tile} (hne : ∀ a ∈ tiles, a.body ≠ []) (base : Nat)
    (t : Tiling) : (tiles.foldr tile t).spansAt base
      = spansFrom base tiles ++ t.spansAt (base + (tilesText tiles).byteSize) := by
  induction tiles generalizing base with
  | nil => rfl
  | cons a rest ih =>
    have hsize : base + a.body.byteSize + a.gap.byteSize + (tilesText rest).byteSize
        = base + (tilesText (a :: rest)).byteSize := by
      rw [tilesText_cons]
      simp only [Text.byteSize_append]
      omega
    rw [List.foldr_cons, tile, spansAt_piece (hne a List.mem_cons_self), spansAt_gap,
      ih (fun b hb => hne b (List.mem_cons_of_mem a hb)), hsize]
    rfl

/-- The spans of two tilings in a row. -/
theorem spansAt_append {loose : Char → Bool} {s : Tiling} (hs : s.Tidy loose) (base : Nat)
    (t : Tiling) :
    (s.append t).spansAt base = s.spansAt base ++ t.spansAt (base + s.text.byteSize) := by
  rw [append, spansAt_gap, spansAt_foldr_tile hs.bodies, text_eq, Text.byteSize_append,
    ← Nat.add_assoc]
  rfl

/-- What a piece of a refined tiling is taken apart into. -/
def refineSpan (rule : Text → Option Tiling) (s : Span) : List Span :=
  match rule s.text with
  | some parts => parts.spansAt s.offset
  | none => [s]

theorem spansAt_refine {loose : Char → Bool} {rule : Text → Option Tiling}
    (htidies : Tidies loose rule) (hkeeps : Keeps rule) (ht : t.Tidy loose) (base : Nat) :
    (t.refine rule).spansAt base = (t.spansAt base).flatMap (refineSpan rule) := by
  have htiles : ∀ (tiles : List Tile), (∀ a ∈ tiles, a.body ≠ []) → ∀ base,
      (tiles.foldr (refineTile rule) empty).spansAt base
        = (spansFrom base tiles).flatMap (refineSpan rule) := by
    intro tiles
    induction tiles with
    | nil => exact fun _ _ => rfl
    | cons a rest ih =>
      intro hne base
      have hrest := ih fun b hb => hne b (List.mem_cons_of_mem a hb)
      rw [List.foldr_cons, spansFrom, List.flatMap_cons, refineTile, refineSpan]
      cases hrule : rule a.body with
      | none =>
        simp only
        rw [tile, spansAt_piece (hne a List.mem_cons_self), spansAt_gap, hrest]
        rfl
      | some parts =>
        simp only
        rw [spansAt_append (htidies _ _ hrule), spansAt_gap, hrest, hkeeps _ _ hrule]
  rw [refine, spansAt_gap, htiles t.tiles ht.bodies]
  rfl

end Tiling

/-! ## 3. Divisions -/

namespace Sliced

open Tiling

/-- Divides what is left of a text.  It is read at the offset `here`, in a given context; the run
that has not been cut off yet began at the offset `start`. -/
def cut (role : Char → Role) (text : Text) :
    (k : Context) → (start here : Nat) → (rest : Text) → Except OffsetError (List Span)
  | _, start, _, [] => do
    let run ← text.slice start text.byteSize
    return (Span.trimmed? start run).toList
  | k, start, here, c :: cs =>
    let next := here + c.utf8Size
    match Division.roleIn role k c with
    | .content => cut role text (k.read c) start next cs
    | .divider => do
      let run ← text.slice start here
      let more ← cut role text (k.read c) next next cs
      return (Span.trimmed? start run).toList ++ more
    | .mark => do
      let run ← text.slice start here
      let sign ← text.slice here next
      let more ← cut role text (k.read c) next next cs
      return (Span.trimmed? start run).toList ++ ⟨here, sign⟩ :: more

/-- Divides a text. -/
def along (role : Char → Role) (text : Text) : Except OffsetError (List Span) :=
  cut role text .start 0 0 text

/-- Dividing goes on from any place of a text, with any run not cut off yet. -/
theorem cut_eq (role : Char → Role) {text : Text} (k : Context) (before run rest : Text)
    (h : text = before ++ (run ++ rest)) :
    cut role text k before.byteSize (before.byteSize + run.byteSize) rest
      = .ok ((Tiling.trimmed (run ++ (Division.scan role k rest).run)
          (Division.scan role k rest).rest).spansAt before.byteSize) := by
  induction rest generalizing k before run with
  | nil =>
    have hrun : text.slice before.byteSize text.byteSize = .ok run :=
      Text.slice_to_end (by simpa using h)
    rw [cut, hrun, ok_bind, spansAt_trimmed]
    simp [Division.scan, pure, Except.pure]
  | cons c cs ih =>
    have hsize : before.byteSize + run.byteSize + c.utf8Size
        = before.byteSize + Text.byteSize (run ++ [c]) := by
      simp [Nat.add_assoc]
    have hrun : text.slice before.byteSize (before.byteSize + run.byteSize) = .ok run :=
      Text.slice_eq_ok_iff.mpr ⟨before, c :: cs, h, rfl, rfl⟩
    -- what comes after a separator is divided from there on, with no run left over
    have hrest : cut role text (k.read c) (before.byteSize + run.byteSize + c.utf8Size)
        (before.byteSize + run.byteSize + c.utf8Size) cs
        = .ok ((Division.scan role (k.read c) cs).tiling.spansAt
          (before.byteSize + run.byteSize + c.utf8Size)) := by
      have hmore := ih (k.read c) (before ++ (run ++ [c])) [] (by simpa using h)
      rw [List.nil_append, Text.byteSize_nil, Nat.add_zero, Text.byteSize_append,
        ← hsize] at hmore
      exact hmore
    rw [cut, Division.scan]
    cases hr : Division.roleIn role k c with
    | content =>
      have hmore := ih (k.read c) before (run ++ [c]) (by simpa using h)
      rw [← hsize, List.append_assoc] at hmore
      exact hmore
    | divider =>
      simp only [hrun, ok_bind, hrest, Division.Cut.cons, List.append_nil]
      rw [spansAt_trimmed, spansAt_gap, Text.byteSize_cons, Text.byteSize_nil, Nat.add_zero]
      rfl
    | mark =>
      have hsign : text.slice (before.byteSize + run.byteSize)
          (before.byteSize + run.byteSize + c.utf8Size) = .ok [c] := by
        refine Text.slice_eq_ok_iff.mpr ⟨before ++ run, cs, by simpa using h, ?_, ?_⟩
        · rw [Text.byteSize_append]
        · rw [Text.byteSize_append, Text.byteSize_cons, Text.byteSize_nil, Nat.add_zero]
      simp only [hrun, hsign, ok_bind, hrest, Division.Cut.cons, List.append_nil]
      rw [spansAt_trimmed, spansAt_piece (List.cons_ne_nil c []), Text.byteSize_cons,
        Text.byteSize_nil, Nat.add_zero]
      rfl

/-- **A division by offsets.** -/
theorem along_eq (role : Char → Role) (text : Text) :
    along role text = .ok (Division.along role text).spans := by
  rw [spans_eq_spansAt]
  exact cut_eq role .start [] [] text rfl

/-- Words and one kind of mark: blanks divide. -/
def words (mark : Char) : Text → Except OffsetError (List Span) :=
  along fun c => if c = mark then .mark else if isBlank c then .divider else .content

/-- Items and commas. -/
def items : Text → Except OffsetError (List Span) :=
  along fun c => if c = ',' then .mark else .content

/-- Words alone: blanks, commas and colons divide. -/
def wordsOnly : Text → Except OffsetError (List Span) :=
  along fun c => if c = ',' || c = ':' || isBlank c then .divider else .content

/-! ## 4. Groups and lists -/

/-- Cuts a group, which ends in the bracket at the offset `last`, into its brackets and what
is between them. -/
def group (text : Text) (last : Nat) : Except OffsetError (Text × Text × Text) := do
  let opener ← text.slice 0 1
  let body ← text.slice 1 last
  let closer ← text.slice last text.byteSize
  return (opener, body, closer)

theorem group_eq {text : Text} {b : Bracketed} (h : bracketed? text = some b) :
    group text (Text.byteSize (b.opener :: b.body)) = .ok ([b.opener], b.body, [b.closer]) := by
  have htext := bracketed?_eq_some h
  have hone : 1 = Text.byteSize [b.opener] := by
    simp [utf8Size_of_isOpener (brackets_of_bracketed? h).1]
  have hopener : text.slice 0 1 = .ok [b.opener] := by
    rw [hone]
    exact Text.slice_from_start htext
  have hbody : text.slice 1 (Text.byteSize (b.opener :: b.body)) = .ok b.body := by
    refine Text.slice_eq_ok_iff.mpr ⟨[b.opener], [b.closer], htext, hone.symm, ?_⟩
    simp
  have hcloser : text.slice (Text.byteSize (b.opener :: b.body)) text.byteSize
      = .ok [b.closer] := Text.slice_to_end htext
  rw [group, hopener, ok_bind, hbody, ok_bind, hcloser, ok_bind]
  rfl

/-- Takes a list apart: a group into its brackets and its contents, anything else into items
and commas. -/
def parts (text : Text) : Except OffsetError (List Span) := do
  match ← closer? text with
  | some last =>
    let (opener, body, closer) ← group text last
    return ⟨0, opener⟩ :: ((Span.trimmed? 1 body).toList ++ [⟨last, closer⟩])
  | none => items text

/-- **A list by offsets.** -/
theorem parts_eq (text : Text) : parts text = .ok (Listing.parts text).spans := by
  rw [parts, closer?_eq, ok_bind, closerOffset?, Listing.parts]
  cases h : bracketed? text with
  | none => exact along_eq _ text
  | some b =>
    have hopener := utf8Size_of_isOpener (brackets_of_bracketed? h).1
    simp only [Option.map_some, group_eq h, ok_bind]
    rw [spans_eq_spansAt, spansAt_piece (List.cons_ne_nil _ _), spansAt_trimmed,
      spansAt_piece (List.cons_ne_nil _ _), spansAt_empty]
    simp [hopener, pure, Except.pure]

/-! ## 5. Patterns -/

/-- Cuts out what stands between given offsets.  An empty part is passed over, and so is one that
begins before the last one has ended. -/
def cutOut (text : Text) : (cursor : Nat) → List (Nat × Nat) → Except OffsetError (List Span)
  | _, [] => return []
  | cursor, (start, stop) :: rest =>
    if start = stop ∨ start < cursor then cutOut text cursor rest
    else do
      let part ← text.slice start stop
      let more ← cutOut text stop rest
      return ⟨start, part⟩ :: more

/-- Where a span stands. -/
def bounds (s : Span) : Nat × Nat := (s.offset, s.stop)

/-- What a pattern finds in a text, cut out at the offsets between which it was found. -/
def captures (pattern : Text → Option Tiling) (text : Text) : Except OffsetError (List Span) :=
  match pattern text with
  | some t => cutOut text 0 (t.spans.map bounds)
  | none => return []

theorem cutOut_spansFrom {text before after : Text} {tiles : List Tile} {cursor : Nat}
    (hne : ∀ a ∈ tiles, a.body ≠ []) (h : text = before ++ (tilesText tiles ++ after))
    (hcursor : cursor ≤ before.byteSize) :
    cutOut text cursor ((spansFrom before.byteSize tiles).map bounds)
      = .ok (spansFrom before.byteSize tiles) := by
  induction tiles generalizing before cursor with
  | nil => rfl
  | cons a rest ih =>
    have hpos := Text.byteSize_pos (hne a List.mem_cons_self)
    have hkeep : ¬ (before.byteSize = before.byteSize + a.body.byteSize ∨
        before.byteSize < cursor) := by omega
    rw [tilesText_cons] at h
    have hpart : text.slice before.byteSize (before.byteSize + a.body.byteSize) = .ok a.body := by
      refine Text.slice_eq_ok_iff.mpr ⟨before, a.gap ++ (tilesText rest ++ after), ?_, rfl, rfl⟩
      simpa using h
    have hnext : before.byteSize + a.body.byteSize + a.gap.byteSize
        = Text.byteSize (before ++ (a.body ++ a.gap)) := by
      simp [Nat.add_assoc]
    have hmore : cutOut text (before.byteSize + a.body.byteSize)
        ((spansFrom (before.byteSize + a.body.byteSize + a.gap.byteSize) rest).map bounds)
        = .ok (spansFrom (before.byteSize + a.body.byteSize + a.gap.byteSize) rest) := by
      rw [hnext]
      refine ih (fun b hb => hne b (List.mem_cons_of_mem a hb)) (by simpa using h) ?_
      omega
    simp only [spansFrom, List.map_cons, bounds, Span.stop, cutOut, if_neg hkeep, hpart, ok_bind]
    rw [hmore, ok_bind]
    rfl

/-- What the offsets of a tidy tiling cut out are its pieces. -/
theorem cutOut_spans {loose : Char → Bool} {t : Tiling} (ht : t.Tidy loose) {text after : Text}
    (h : text = t.text ++ after) : cutOut text 0 (t.spans.map bounds) = .ok t.spans := by
  have htext : text = t.lead ++ (tilesText t.tiles ++ after) := by
    rw [h, text_eq, List.append_assoc]
  exact cutOut_spansFrom ht.bodies htext (Nat.zero_le _)

/-- The spans of a pattern that may not apply. -/
def spansOf : Option Tiling → List Span
  | some t => t.spans
  | none => []

/-- **A pattern by offsets.** -/
theorem captures_eq {pattern : Text → Option Tiling} (htidies : Tidies isBlank pattern)
    (hkeeps : Keeps pattern) (text : Text) :
    captures pattern text = .ok (spansOf (pattern text)) := by
  unfold captures
  cases h : pattern text with
  | none => rfl
  | some t =>
    have htext : text = t.text ++ [] := by rw [hkeeps _ _ h, List.append_nil]
    exact cutOut_spans (htidies _ _ h) htext

/-- An argument.  A named one is replaced by its parts. -/
def argument (item : Span) : Except OffsetError (List Span) := do
  let parts ← captures Listing.named? item.text
  return if parts.isEmpty then [item] else parts.map (Span.shift item.offset)

/-- The arguments of a call or the items of a container. -/
def arguments (text : Text) : Except OffsetError (List Span) := do
  let found ← items text
  let parts ← found.mapM argument
  return parts.flatten

/-- A pattern that applies to a core finds something in it. -/
theorem spans_ne_nil {pattern : Text → Option Tiling} (htidies : Tidies isBlank pattern)
    (hkeeps : Keeps pattern) {text : Text} {t : Tiling} (hcore : text.Core)
    (h : pattern text = some t) : t.spans ≠ [] := by
  intro hnil
  have hblank := (htidies _ _ h).loose_of_spans_eq_nil hnil
  rw [hkeeps _ _ h] at hblank
  have htrim : text.trim = [] := Text.trim_eq_nil_iff.mpr (Text.blank_iff.mpr hblank)
  exact hcore.nonempty (hcore.trimmed.symm.trans htrim)

/-- The items of a list are cores. -/
theorem core_of_mem_items {text : Text} {s : Span}
    (h : s ∈ (Division.itemsAndCommas text).spans) : s.text.Core := by
  obtain ⟨a, ha, hs⟩ := body_of_mem_spansFrom h
  rw [hs]
  refine Division.core_of_mem_along ?_ (List.mem_map_of_mem ha)
  intro c hc
  split at hc
  · rename_i hcomma
    rw [hcomma]
    rfl
  · exact absurd hc (by simp)

theorem argument_eq {item : Span} (hcore : item.text.Core) :
    argument item = .ok (refineSpan Listing.named? item) := by
  rw [argument, captures_eq Listing.named?_tidies Listing.named?_keeps, ok_bind, refineSpan]
  cases h : Listing.named? item.text with
  | none => rfl
  | some t =>
    have hne := spans_ne_nil Listing.named?_tidies Listing.named?_keeps hcore h
    simp only [spansOf, List.isEmpty_iff, hne, if_false, spansAt_eq_map_shift]
    rfl

/-- Steps that all succeed give all their results. -/
theorem mapM_eq_ok {ε α β : Type} {f : α → Except ε β} {g : α → β} {l : List α}
    (h : ∀ a ∈ l, f a = .ok (g a)) : l.mapM f = .ok (l.map g) := by
  induction l with
  | nil => rfl
  | cons a l ih =>
    rw [List.mapM_cons, h a List.mem_cons_self, ok_bind,
      ih fun b hb => h b (List.mem_cons_of_mem a hb), ok_bind]
    rfl

theorem spans_arguments (text : Text) : (Listing.arguments text).spans
    = (Division.itemsAndCommas text).spans.flatMap (refineSpan Listing.named?) := by
  rw [spans_eq_spansAt, spans_eq_spansAt]
  exact spansAt_refine Listing.named?_tidies Listing.named?_keeps
    (Division.tidy_itemsAndCommas text) 0

/-- **Arguments by offsets.** -/
theorem arguments_eq (text : Text) : arguments text = .ok (Listing.arguments text).spans := by
  have hitems : items text = .ok (Division.itemsAndCommas text).spans := along_eq _ text
  have hparts := mapM_eq_ok fun item (h : item ∈ (Division.itemsAndCommas text).spans) =>
    argument_eq (core_of_mem_items h)
  rw [arguments, hitems, ok_bind, hparts, ok_bind, spans_arguments, List.flatMap_def]
  rfl

/-! ## 6. Import statements -/

/-- The head of an import statement without a module, and the names after it. -/
def importHead? (text : Text) : Option (Tiling × Text) := do
  let rest ← Text.after? Statement.Import.importWord text
  match Text.blanks? rest with
  | some (space, c :: cs) =>
    if Text.oneLine (c :: cs) then
      some (.piece Statement.Import.importWord (.gap space .empty), c :: cs)
    else none
  | _ => none

/-- The head of an import statement with a module, and the names after it. -/
def fromHead? (text : Text) : Option (Tiling × Text) := do
  let rest ← Text.after? Statement.Import.fromWord text
  let (space, rest) ← Text.blanks? rest
  let (source, rest) ← Text.run? isWordOrDot rest
  let (space', rest) ← Text.blanks? rest
  let (head, tail) ← importHead? rest
  return (.piece Statement.Import.fromWord (.gap space (.piece source (.gap space' head))), tail)

/-- The imported names. -/
def names (text : Text) : Except OffsetError (List Span) := do
  match ← closer? text with
  | some last =>
    if text.head? = some '(' then
      let (opener, body, closer) ← group text last
      let inner ← words ',' body
      return ⟨0, opener⟩ :: (inner.map (Span.shift 1) ++ [⟨last, closer⟩])
    else words ',' text
  | none => words ',' text

/-- The pieces of an import statement: those of its head, and the names from the offset at which
they begin. -/
def imports (text : Text) : Except OffsetError (List Span) :=
  match (importHead? text).or (fromHead? text) with
  | none => return []
  | some (head, _) => do
    let found ← cutOut text 0 (head.spans.map bounds)
    let tail ← text.slice head.text.byteSize text.byteSize
    let named ← names tail
    return found ++ named.map (Span.shift head.text.byteSize)

theorem direct?_eq (text : Text) : Statement.Import.direct? text
    = (importHead? text).map fun (head, tail) => head.append (Statement.Import.names tail) := by
  rw [Statement.Import.direct?, importHead?]
  cases Text.after? Statement.Import.importWord text with
  | none => rfl
  | some rest =>
    simp only [Option.bind_eq_bind, Option.bind_some, Statement.Import.namesAfter?]
    cases Text.blanks? rest with
    | none => rfl
    | some found =>
      obtain ⟨space, tail⟩ := found
      cases tail with
      | nil => rfl
      | cons c cs =>
        by_cases hline : Text.oneLine (c :: cs) = true
        · simp only [hline, if_true, Option.bind_some, Option.map_some, piece_append, gap_append,
            empty_append]
          rfl
        · simp only [hline, if_false, Bool.false_eq_true]
          rfl

theorem fromModule?_eq (text : Text) : Statement.Import.fromModule? text
    = (fromHead? text).map fun (head, tail) => head.append (Statement.Import.names tail) := by
  simp only [Statement.Import.fromModule?, fromHead?, Option.bind_eq_bind, Option.map_bind,
    direct?_eq, Option.bind_map, Function.comp_def, Option.pure_def, Option.map_some,
    piece_append, gap_append]

theorem names_eq (text : Text) : names text = .ok (Statement.Import.names text).spans := by
  rw [names, closer?_eq, ok_bind, closerOffset?, Statement.Import.names]
  cases h : bracketed? text with
  | none => exact along_eq _ text
  | some b =>
    have hopener := utf8Size_of_isOpener (brackets_of_bracketed? h).1
    have hhead : text.head? = some b.opener := by
      rw [bracketed?_eq_some h]
      rfl
    have hinner : words ',' b.body = .ok (Division.wordsAndCommas b.body).spans := along_eq _ _
    have htidy : (Division.wordsAndCommas b.body).Tidy isBlank := Division.tidy_words ',' b.body
    have htext : (Division.wordsAndCommas b.body).text = b.body := Division.text_along _ _
    simp only [Option.map_some, hhead, Option.some.injEq]
    split
    · rw [group_eq h, ok_bind]
      simp only [hinner, ok_bind]
      rw [spans_eq_spansAt (Tiling.piece _ _), spansAt_piece (List.cons_ne_nil _ _),
        spansAt_append htidy, spansAt_piece (List.cons_ne_nil _ _), spansAt_empty, htext,
        spansAt_eq_map_shift]
      simp [hopener, pure, Except.pure]
    · exact along_eq _ text

/-- The head of an import statement and what follows it make up the statement, and there is
nothing but blanks between the pieces of the head. -/
def IsHead (text : Text) (head : Tiling) (tail : Text) : Prop :=
  head.Tidy isBlank ∧ text = head.text ++ tail

theorem isHead_of_importHead? {text tail : Text} {head : Tiling}
    (h : importHead? text = some (head, tail)) : IsHead text head tail := by
  simp only [importHead?, Option.bind_eq_bind, Option.bind_eq_some_iff] at h
  obtain ⟨rest, hrest, h⟩ := h
  split at h
  · rename_i space c cs hspace
    split at h
    · simp only [Option.some.injEq, Prod.mk.injEq] at h
      obtain ⟨rfl, rfl⟩ := h
      refine ⟨tidy_piece _ (tidy_gap (Text.isBlank_of_blanks? hspace) tidy_empty), ?_⟩
      rw [Text.after?_eq_some_iff.mp hrest, Text.blanks?_eq_some hspace]
      simp
    · exact absurd h (by simp)
  · exact absurd h (by simp)

theorem isHead_of_fromHead? {text tail : Text} {head : Tiling}
    (h : fromHead? text = some (head, tail)) : IsHead text head tail := by
  simp only [fromHead?, Option.bind_eq_bind, Option.bind_eq_some_iff, Option.pure_def,
    Option.some.injEq, Prod.exists, Prod.mk.injEq] at h
  obtain ⟨r₁, h₁, space, r₂, h₂, source, r₃, h₃, space', r₄, h₄, inner, tail', hinner, rfl,
    rfl⟩ := h
  obtain ⟨htidy, htext⟩ := isHead_of_importHead? hinner
  constructor
  · have hrest := tidy_piece source (tidy_gap (Text.isBlank_of_blanks? h₄) htidy)
    exact tidy_piece _ (tidy_gap (Text.isBlank_of_blanks? h₂) hrest)
  · rw [Text.after?_eq_some_iff.mp h₁, Text.blanks?_eq_some h₂, Text.run?_eq_some h₃,
      Text.blanks?_eq_some h₄, htext]
    simp

/-- **An import statement by offsets.** -/
theorem imports_eq (text : Text) : imports text = .ok (Statement.imports.spans text) := by
  have htiling : Statement.imports.tiling? text
      = ((importHead? text).or (fromHead? text)).map
        fun (head, tail) => head.append (Statement.Import.names tail) := by
    rw [Option.map_or, ← direct?_eq, ← fromModule?_eq]
    rfl
  rw [imports, Statement.spans, htiling]
  cases hhead : (importHead? text).or (fromHead? text) with
  | none => rfl
  | some found =>
    obtain ⟨head, tail⟩ := found
    have hishead : IsHead text head tail := by
      rcases Option.or_eq_some_iff.mp hhead with h | ⟨-, h⟩
      · exact isHead_of_importHead? h
      · exact isHead_of_fromHead? h
    obtain ⟨htidy, htext⟩ := hishead
    simp only [Option.map_some]
    rw [cutOut_spans htidy htext, ok_bind, Text.slice_to_end htext, ok_bind, names_eq, ok_bind,
      spans_eq_spansAt (head.append _), spansAt_append htidy, ← spans_eq_spansAt, Nat.zero_add,
      spansAt_eq_map_shift]
    rfl

/-! ## 7. Lines -/

/-- The pieces that the rule of a kind finds in a text. -/
def spans (kind : Statement) (text : Text) : Except OffsetError (List Span) :=
  match kind with
  | .imports => imports text
  | .listing => parts text
  | .other => words ':' text
  | kind => captures kind.tiling? text

/-- Takes a line apart by the rule of its kind, or into words and colons if that rule finds
nothing.  The offsets are those of the line with the blanks around it. -/
def dissect (line : Text) : Except OffsetError (List Span) := do
  let leading := line.byteSize - line.trimStart.byteSize
  let kind := Statement.of line.trim
  let found ← spans kind line.trim
  let found ← if found.isEmpty ∧ kind ≠ .other then spans .other line.trim else pure found
  return found.map (Span.shift leading)

/-- **The rule of a kind by offsets.** -/
theorem spans_eq (kind : Statement) (text : Text) :
    spans kind text = .ok (kind.spans text) := by
  cases kind with
  | imports => exact imports_eq text
  | listing => exact parts_eq text
  | other => exact along_eq _ text
  | definition => exact captures_eq (Statement.tidies .definition) (Statement.keeps _) text
  | assignment => exact captures_eq (Statement.tidies .assignment) (Statement.keeps _) text
  | conditional => exact captures_eq (Statement.tidies .conditional) (Statement.keeps _) text
  | call => exact captures_eq (Statement.tidies .call) (Statement.keeps _) text
  | comparison => exact captures_eq (Statement.tidies .comparison) (Statement.keeps _) text

/-- Falling back where nothing was found, and where the rule does not apply, is the same. -/
theorem spans_dissectTrimmed {text : Text} (htrim : text.trim = text) :
    (Statement.dissectTrimmed text).spans
      = if ((Statement.of text).spans text).isEmpty ∧ Statement.of text ≠ .other
        then Statement.other.spans text else (Statement.of text).spans text := by
  have hother : Statement.other.spans text = (Division.wordsAndColons text).spans := rfl
  rw [Statement.dissectTrimmed, hother, Statement.spans]
  cases h : (Statement.of text).tiling? text with
  | none =>
    have hkind : Statement.of text ≠ .other := by
      intro hkind
      rw [hkind] at h
      exact absurd h (by simp [Statement.tiling?])
    simp [hkind]
  | some t =>
    simp only [Option.getD_some]
    split
    · rename_i hnone
      -- nothing was found though the rule applies: then the text is empty, and has no words
      have hnil : t.spans = [] := List.isEmpty_iff.mp hnone.1
      have hempty : text = [] := by
        by_contra hne
        exact spans_ne_nil (Statement.tidies _) (Statement.keeps _) ⟨htrim, hne⟩ h hnil
      rw [hnil, hempty]
      rfl
    · rfl

/-- The pieces of a line are those of its core, behind the blanks in front. -/
theorem spans_dissect (line : Text) : (Statement.dissect line).spans
    = (Statement.dissectTrimmed line.trim).spans.map (Span.shift line.leading.byteSize) := by
  rw [Statement.dissect, spans_eq_spansAt, spansAt_gap, Nat.zero_add,
    spansAt_append (Statement.tidy_dissectTrimmed line.trim), spansAt_gap, spansAt_empty,
    List.append_nil, spansAt_eq_map_shift]

/-- **A line by offsets.** -/
theorem dissect_eq (line : Text) : dissect line = .ok (Statement.dissect line).spans := by
  rw [spans_dissect, spans_dissectTrimmed (Text.trim_trim line), dissect, Text.byteSize_leading]
  simp only [spans_eq, ok_bind]
  split
  · rfl
  · rfl

end Sliced

end Highlighter
