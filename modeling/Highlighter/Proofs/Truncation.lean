/-
# The depth limit only truncates

Where no room is left, a piece is marked as a whole.  What it is marked as could depend on the
limit in a way that is hard to see: the tests for calls, containers and phrases stand between
other tests, and with these three passed over a later one might claim the piece.  None does
(`whole_eq_single_of_guarded`).  So a lower limit gives the markup of a higher one, with each
group that has parts and lies just at the lower limit replaced by its text.

* `Form.guarded`: the tests in their order, with the three that look for parts left out or not;
* `truncate`: what a limit does to markup, said without the tests;
* `byForm_mapChildren`: a step inwards commutes with any change of the marked parts that leaves
  runs of text alone.  This is what carries the induction in `within_eq_truncate`;
* `nodeAt_truncate`, `truncate_of_depth_le`: nothing above the limit is touched, and nothing at
  all in markup that stays above it.
-/
import Highlighter.Proofs.Descent
import Highlighter.Proofs.Lossless

namespace Highlighter

/-! ## 1. Calls are no other lexeme -/

/-- A dotted name begins with a word character. -/
theorem Name.exists_cons_of_isPath {path : Text} (h : isPath path = true) :
    ∃ c cs, path = c :: cs ∧ isWord c = true := by
  cases path with
  | nil => exact absurd h (by decide)
  | cons c cs =>
    refine ⟨c, cs, rfl, ?_⟩
    unfold isPath at h
    rw [Text.split] at h
    split at h
    · exact absurd h (by simp [isName])
    · obtain ⟨part, parts, hparts⟩ := List.exists_cons_of_ne_nil (Text.split_ne_nil '.' cs)
      rw [hparts] at h
      simp only [List.modifyHead_cons, List.all_cons, isName, Bool.and_eq_true] at h
      exact h.1.2.1

theorem Number.mem_of_isUnsigned {t : Text} (h : isUnsigned t = true) :
    ∀ c ∈ t, c = '.' ∨ c.isDigit = true := by
  intro c hc
  rw [← List.takeWhile_append_dropWhile (p := Char.isDigit) (l := t)] at hc
  rcases List.mem_append.mp hc with hc | hc
  · exact Or.inr (List.mem_takeWhile_imp hc)
  · unfold isUnsigned at h
    split at h
    · rename_i hrest
      rw [hrest] at hc
      exact absurd hc (by simp)
    · rename_i d ds hrest
      rw [hrest] at hc
      simp only [isDigits, Bool.and_eq_true, beq_iff_eq, List.all_eq_true] at h
      rcases List.mem_cons.mp hc with rfl | hc
      · exact Or.inl h.1.1
      · exact Or.inr (h.2.2 c hc)

/-- A number holds digits, points and minus signs only. -/
theorem Number.mem_of_isNumber {t : Text} (h : isNumber t = true) :
    ∀ c ∈ t, c = '-' ∨ c = '.' ∨ c.isDigit = true := by
  intro c hc
  unfold isNumber at h
  split at h
  · rcases List.mem_cons.mp hc with rfl | hc
    · exact Or.inl rfl
    · exact Or.inr (mem_of_isUnsigned h c hc)
  · exact Or.inr (mem_of_isUnsigned h c hc)

theorem Number.not_isNumber_of_opener {t : Text} {c : Char} (hmem : c ∈ t)
    (h : isOpener c = true) : isNumber t = false := by
  by_contra hnumber
  rw [Bool.not_eq_false] at hnumber
  have hc := mem_of_isNumber hnumber c hmem
  simp only [isOpener, Bool.or_eq_true, beq_iff_eq] at h
  rcases h with (rfl | rfl) | rfl <;> exact absurd hc (by decide)

theorem Literal.not_isLiteral_of_head {c : Char} {cs : Text} (hdouble : c ≠ '"')
    (hsingle : c ≠ '\'') : isLiteral (c :: cs) = false := by
  simp [isLiteral, isQuote, hdouble, hsingle]

namespace Form

/-- A call is no literal, since no name begins with a quote, and no number, since there is a
parenthesis in it. -/
theorem not_lexeme_of_call? {text path : Text} {b : Bracketed}
    (h : call? text = some (path, b)) :
    Literal.isLiteral text = false ∧ Number.isNumber text = false := by
  obtain ⟨hpath, rfl, -, hopener⟩ := call?_eq_some h
  constructor
  · obtain ⟨c, cs, rfl, hc⟩ := Name.exists_cons_of_isPath hpath
    refine Literal.not_isLiteral_of_head ?_ ?_
    · rintro rfl
      exact absurd hc (by decide)
    · rintro rfl
      exact absurd hc (by decide)
  · have hmem : '(' ∈ path ++ b.text := by simp [Bracketed.text, hopener]
    exact Number.not_isNumber_of_opener hmem rfl

/-! ## 2. Tests that are passed over -/

/-- The form of a piece by the tests of `Form.of` in their order.  If `nested` is false, those
for a call, a container and a phrase are passed over. -/
def guarded (nested : Bool) (text : Text) : Form :=
  if Vocabulary.isKeyword text then .atom .keyword
  else if Vocabulary.isOperator text then .atom .operator
  else match if nested then call? text else none with
    | some (path, group) => .call path group
    | none =>
      if Literal.isLiteral text then .atom .string
      else if Number.isNumber text then .atom .numeric
      else match if nested then bracketed? text else none with
        | some group => .container group
        | none =>
          if Name.isField text then .atom .default
          else if nested then ofWords text else .atom .default

theorem guarded_true (text : Text) : guarded true text = Form.of text := rfl

/-- With the three tests passed over there is an atom left, whatever the text. -/
theorem guarded_false (text : Text) : guarded false text
    = if Vocabulary.isKeyword text then .atom .keyword
      else if Vocabulary.isOperator text then .atom .operator
      else if Literal.isLiteral text then .atom .string
      else if Number.isNumber text then .atom .numeric
      else .atom .default := by
  simp only [guarded, Bool.false_eq_true, if_false, ite_self]

end Form

namespace Markup

variable {mark : Text → Markup} {text : Text}

/-- **No later test claims a piece with parts.**  What the remaining tests make of a piece is
what it is marked as where there is no room. -/
theorem whole_eq_single_of_guarded (text : Text) :
    ∃ c, Form.guarded false text = .atom c ∧ whole text = single c text := by
  rw [Form.guarded_false]
  unfold whole Form.of
  split
  · exact ⟨_, rfl, rfl⟩
  split
  · exact ⟨_, rfl, rfl⟩
  cases hcall : Form.call? text with
  | some found =>
    obtain ⟨path, b⟩ := found
    obtain ⟨hliteral, hnumber⟩ := Form.not_lexeme_of_call? hcall
    simp only [hliteral, hnumber, Bool.false_eq_true, if_false]
    exact ⟨_, rfl, rfl⟩
  | none =>
    simp only
    split
    · exact ⟨_, rfl, rfl⟩
    split
    · exact ⟨_, rfl, rfl⟩
    -- what is left has the default category, with parts or without
    refine ⟨.default, rfl, ?_⟩
    cases bracketed? text with
    | some b => rfl
    | none =>
      by_cases hfield : Name.isField text = true
      · simp only [hfield, if_true]
      · by_cases hwhole : Form.isWhole text (Division.wordsOnly text) = true
        · simp only [hfield, hwhole, Form.ofWords, Bool.false_eq_true, if_false, if_true]
        · simp only [hfield, hwhole, Form.ofWords, Bool.false_eq_true, if_false]

/-! ## 3. Truncation -/

mutual

/-- Puts a default category over the text in the place of each group that has exactly `n` groups
around it and more than one child. -/
def truncate : (n : Nat) → Markup → Markup
  | _, .run text => .run text
  | 0, .group c children =>
    if 1 < children.length then single .default (sourceAll children) else .group c children
  | n + 1, .group c children => .group c (truncateAll n children)

/-- Truncates each member of a list of markup. -/
def truncateAll : (n : Nat) → List Markup → List Markup
  | _, [] => []
  | n, m :: ms => truncate n m :: truncateAll n ms

end

/-- Changes the children of a group. -/
def mapChildren (f : Markup → Markup) : Markup → Markup
  | .run text => .run text
  | .group c children => .group c (children.map f)

theorem truncate_run (n : Nat) (text : Text) : truncate n (.run text) = .run text := by
  cases n <;> rw [truncate]

theorem truncateAll_eq_map (n : Nat) (ms : List Markup) :
    truncateAll n ms = ms.map (truncate n) := by
  induction ms with
  | nil => rw [truncateAll, List.map_nil]
  | cons m ms ih => rw [truncateAll, ih, List.map_cons]

theorem truncate_succ (n : Nat) (m : Markup) :
    truncate (n + 1) m = m.mapChildren (truncate n) := by
  cases m with
  | run text => exact truncate_run (n + 1) text
  | group c children => rw [truncate, truncateAll_eq_map, mapChildren]

/-- A category over one run of text is short enough for any limit. -/
theorem truncate_single (n : Nat) (c : Category) (text : Text) :
    truncate n (single c text) = single c text := by
  cases n with
  | zero => simp [single, truncate]
  | succ n => simp [single, truncate_succ, mapChildren, truncate_run]

/-- A group with parts at the limit becomes its text. -/
theorem truncate_of_lt_length {c : Category} {children : List Markup}
    (h : 1 < children.length) (hsource : source (.group c children) = text) :
    truncate 0 (.group c children) = single .default text := by
  rw [truncate, if_pos h, ← hsource, source]

/-! ## 4. A step inwards commutes with a change of the parts -/

section

variable {f : Markup → Markup} (hf : ∀ text, f (.run text) = .run text)

include hf

theorem map_ofRun (run : Text) : (ofRun run).map f = ofRun run := by
  unfold ofRun
  split
  · rfl
  · rw [List.map_singleton, hf]

theorem map_withBlanks (mark : Text → Markup) (text : Text) :
    (withBlanks mark text).map f = withBlanks (fun s => f (mark s)) text := by
  simp only [withBlanks, List.map_append, map_ofRun hf]
  split
  · rfl
  · rfl

theorem map_withGaps {each each' : Text → List Markup} (heach : ∀ s, (each s).map f = each' s)
    (t : Tiling) : (withGaps each t).map f = withGaps each' t := by
  simp only [withGaps, Tiling.splice, List.map_append, List.map_flatMap, map_ofRun hf, heach]

theorem map_lineBy (mark : Text → Markup) (text : Text) :
    (lineBy mark text).map f = lineBy (fun s => f (mark s)) text :=
  map_withGaps hf (map_withBlanks hf mark) _

theorem map_argumentsBy (mark : Text → Markup) (text : Text) :
    (argumentsBy mark text).map f = argumentsBy (fun s => f (mark s)) text :=
  map_withGaps hf (map_lineBy hf mark) _

/-- **A step inwards commutes with a change of the parts** that leaves runs of text alone. -/
theorem byForm_mapChildren (mark : Text → Markup) (text : Text) :
    byForm (fun s => f (mark s)) text = (byForm mark text).mapChildren f := by
  unfold byForm
  cases Form.of text with
  | atom c => simp [single, mapChildren, hf]
  | call path b =>
    simp only
    split
    · simp [mapChildren, hf, map_withBlanks hf]
    · simp [mapChildren, hf, map_argumentsBy hf]
  | container b => simp [mapChildren, hf, map_argumentsBy hf]
  | phrase parts => simp [mapChildren, map_withGaps hf (map_withBlanks hf mark)]

end

/-! ## 5. A lower limit truncates -/

/-- At the limit: a piece with parts is its text, and an atom is what it was. -/
theorem truncate_zero_byForm (hmark : ∀ s, (mark s).source = s) (text : Text) :
    truncate 0 (byForm mark text) = whole text := by
  have hsource := source_byForm hmark text
  cases hf : Form.of text with
  | atom c =>
    have hatom : byForm mark text = single c text := by rw [byForm, hf]
    rw [hatom, truncate_single, whole, hf]
  | call path b =>
    rw [byForm, hf] at hsource ⊢
    rw [whole, hf]
    by_cases hprimitive : Vocabulary.isPrimitive path = true
    · simp only [hprimitive, if_true] at hsource ⊢
      exact truncate_of_lt_length (by simp) hsource
    · simp only [hprimitive, Bool.false_eq_true, if_false] at hsource ⊢
      exact truncate_of_lt_length (by simp) hsource
  | container b =>
    rw [byForm, hf] at hsource ⊢
    rw [whole, hf]
    exact truncate_of_lt_length (by simp) hsource
  | phrase parts =>
    rw [byForm, hf] at hsource ⊢
    rw [whole, hf]
    cases Form.found_of_eq hf with
    | phrase hwords =>
      -- words that are not the whole of a text have something beside them
      exact truncate_of_lt_length (words_of_isWhole hwords mark).1 hsource

/-- **A lower limit truncates the markup of a higher one.** -/
theorem within_eq_truncate {room room' : Nat} (h : room ≤ room') (text : Text) :
    within room text = (within room' text).truncate room := by
  induction room generalizing room' text with
  | zero =>
    cases room' with
    | zero =>
      obtain ⟨c, -, hwhole⟩ := exists_whole_eq_single text
      rw [within, hwhole, truncate_single]
    | succ room' => exact (truncate_zero_byForm (source_within room') text).symm
  | succ room ih =>
    cases room' with
    | zero => exact absurd h (by omega)
    | succ room' =>
      have hparts : within room = fun s => (within room' s).truncate room :=
        funext fun s => ih (by omega) s
      rw [within, within, hparts, byForm_mapChildren (truncate_run room), truncate_succ]

/-! ## 6. What is above the limit -/

theorem source_truncate (n : Nat) (m : Markup) : (truncate n m).source = m.source := by
  induction n generalizing m with
  | zero =>
    cases m with
    | run text => rw [truncate_run]
    | group c children =>
      rw [truncate]
      split
      · rw [source_single, source]
      · rfl
  | succ n ih =>
    cases m with
    | run text => rw [truncate_run]
    | group c children =>
      have hchildren : children.flatMap (fun m => (truncate n m).source)
          = children.flatMap source := List.flatMap_congr fun m _ => ih m
      rw [truncate_succ, mapChildren, source, source, sourceAll_eq_flatMap,
        sourceAll_eq_flatMap, List.flatMap_map, hchildren]

/-- The part of some markup that is reached by going to the children of the given numbers. -/
def nodeAt : (path : List Nat) → Markup → Option Markup
  | [], m => some m
  | _ :: _, .run _ => none
  | i :: path, .group _ children => children[i]?.bind (nodeAt path)

/-- A part with fewer groups around it than the limit stays in its place. -/
theorem nodeAt_truncate {path : List Nat} {n : Nat} (h : path.length ≤ n) (m : Markup) :
    nodeAt path (truncate n m) = (nodeAt path m).map (truncate (n - path.length)) := by
  induction path generalizing n m with
  | nil => simp [nodeAt]
  | cons i path ih =>
    obtain ⟨n, rfl⟩ : ∃ k, n = k + 1 :=
      Nat.exists_eq_succ_of_ne_zero (Nat.ne_of_gt (Nat.lt_of_lt_of_le (Nat.succ_pos _) h))
    rw [List.length_cons] at h
    cases m with
    | run text => rw [truncate_run, nodeAt, Option.map_none]
    | group c children =>
      rw [truncate_succ, mapChildren, nodeAt, nodeAt, List.getElem?_map, List.length_cons,
        Nat.add_sub_add_right]
      cases children[i]? with
      | none => rfl
      | some m => exact ih (by omega) m

/-- Markup that stays above the limit is left as it is. -/
theorem truncate_of_depth_le {n : Nat} {m : Markup} (h : m.depth ≤ n) : truncate n m = m := by
  induction n generalizing m with
  | zero =>
    cases m with
    | run text => exact truncate_run 0 text
    | group c children => exact absurd h (by simp [depth])
  | succ n ih =>
    cases m with
    | run text => exact truncate_run (n + 1) text
    | group c children =>
      rw [depth, Nat.add_le_add_iff_right] at h
      have hchildren : children.map (truncate n) = children.map id :=
        List.map_congr_left fun m hm => ih (depthAll_le_iff.mp h m hm)
      rw [truncate_succ, mapChildren, hchildren, List.map_id]

/-- **The depth limit only truncates.**  With the tests for calls, containers and phrases passed
over, the others make of a piece what it is marked as without room.  Hence the markup of a core
under a limit is its markup under any higher limit, where each group with exactly as many groups
around it as the limit says, and more than one child, is a default group over its text.  A group
above the limit keeps its category and its children with their texts, and markup that stays above
the limit is not changed at all. -/
theorem limit_only_truncates :
    (∀ text : Text, Form.guarded true text = Form.of text ∧
      ∃ c, Form.guarded false text = .atom c ∧ whole text = single c text) ∧
    ∀ limit limit' : Nat, limit ≤ limit' → ∀ piece : Text, piece.Core →
      ofPieceWithin limit piece = (ofPieceWithin limit' piece).truncate limit ∧
      (∀ (path : List Nat) (c : Category) (children : List Markup), path.length < limit →
        (ofPieceWithin limit' piece).nodeAt path = some (.group c children) →
        ∃ children', (ofPieceWithin limit piece).nodeAt path = some (.group c children') ∧
          children'.map source = children.map source) ∧
      ((ofPieceWithin limit' piece).depth ≤ limit →
        ofPieceWithin limit piece = ofPieceWithin limit' piece) := by
  refine ⟨fun text => ⟨Form.guarded_true text, whole_eq_single_of_guarded text⟩, ?_⟩
  intro limit limit' hle piece hcore
  rw [ofPieceWithin_core hcore, ofPieceWithin_core hcore]
  have htruncate := within_eq_truncate hle piece
  refine ⟨htruncate, ?_, ?_⟩
  · intro path c children hpath hnode
    obtain ⟨n, hn⟩ : ∃ n, limit - path.length = n + 1 :=
      Nat.exists_eq_succ_of_ne_zero (by omega)
    refine ⟨children.map (truncate n), ?_, ?_⟩
    · rw [htruncate, nodeAt_truncate (Nat.le_of_lt hpath), hnode, hn, Option.map_some,
        truncate_succ, mapChildren]
    · rw [List.map_map]
      exact List.map_congr_left fun m _ => source_truncate n m
  · intro hdepth
    rw [htruncate, truncate_of_depth_le hdepth]

/-- With one level of room the inner call is a default group over its text, and the outer call
keeps its category and its children. -/
theorem limit_only_truncates_inner_call :
    1 ≤ depthLimit ∧ Text.Core "f(g(1), x)".toList ∧
      ofPieceWithin 1 "f(g(1), x)".toList = (ofPiece "f(g(1), x)".toList).truncate 1 ∧
      ofPieceWithin 1 "f(g(1), x)".toList = .group .function
        [.run "f(".toList, single .default "g(1)".toList, single .operator ",".toList,
          .run " ".toList, single .default "x".toList, .run ")".toList] ∧
      (ofPiece "f(g(1), x)".toList).depth = 3 ∧
      ofPieceWithin 3 "f(g(1), x)".toList = ofPiece "f(g(1), x)".toList := by
  have hcore : Text.Core "f(g(1), x)".toList := ⟨by decide, by decide⟩
  have hdepth : (ofPiece "f(g(1), x)".toList).depth = 3 := by decide +kernel
  exact ⟨by decide, hcore, (limit_only_truncates.2 1 depthLimit (by decide) _ hcore).1,
    by decide +kernel, hdepth,
    (limit_only_truncates.2 3 depthLimit (by decide) _ hcore).2.2 (Nat.le_of_eq hdepth)⟩

end Markup

end Highlighter
