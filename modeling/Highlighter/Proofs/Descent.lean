/-
# How far marking goes inwards

Arguments and the contents of containers are read as lines again, and a line may be one piece;
a phrase may be one word.  So it is not plain from any single rule that marking comes to an
end.  What decides it is the size of the texts in `innerCores`: brackets are taken off before
their contents are looked at, and a phrase is divided only where its words are not the whole
of it.

* `core_and_lt_of_mem_innerCores`: each step inwards goes on to cores of strictly fewer bytes;
* `within_eq_within`: so there is no room but as many bytes that would ever be used up;
* `depth_within_le`: the depth of markup is bounded by the room, and by the bytes of its text.
-/
import Highlighter.Proofs.Forms

namespace Highlighter.Markup

/-! ## 1. Every step goes on to smaller texts -/

theorem byteSize_body_lt (b : Bracketed) : b.body.byteSize < b.text.byteSize := by
  have hopener := b.opener.utf8Size_pos
  simp only [Bracketed.text, Text.byteSize_cons, Text.byteSize_append]
  omega

/-- The words of a text that are not the whole of it are smaller. -/
theorem lt_of_mem_words {text s : Text}
    (hwhole : Form.isWhole text (Division.wordsOnly text) = false)
    (h : s ∈ (Division.wordsOnly text).bodies) : s.byteSize < text.byteSize := by
  have htext : (Division.wordsOnly text).text = text := Division.text_along _ text
  by_contra hlarge
  have hbodies := (Division.tidy_wordsOnly text).bodies_eq_of_byteSize_le h (by
    rw [htext]
    omega)
  rw [htext] at hbodies
  exact absurd hwhole (by simp [Form.isWhole, hbodies])

/-- **Each step inwards goes on to cores of strictly fewer bytes.** -/
theorem core_and_lt_of_mem_innerCores {text s : Text} (h : s ∈ innerCores text) :
    s.Core ∧ s.byteSize < text.byteSize := by
  unfold innerCores at h
  cases hf : Form.of text with
  | atom c =>
    rw [hf] at h
    exact absurd h (by simp)
  | call path b =>
    have hbody : b.body.byteSize < text.byteSize := by
      have hlt := byteSize_body_lt b
      rw [Form.text_of_call hf, Text.byteSize_append]
      omega
    rw [hf] at h
    have hinner : s.Core ∧ s.byteSize ≤ b.body.byteSize := by
      by_cases hprimitive : Vocabulary.isPrimitive path = true
      · simp only [hprimitive, if_true] at h
        exact core_of_mem_cores h
      · simp only [hprimitive, if_false, Bool.false_eq_true] at h
        exact core_of_mem_argumentCores h
    exact ⟨hinner.1, by omega⟩
  | container b =>
    have hbody : b.body.byteSize < text.byteSize := by
      rw [Form.text_of_container hf]
      exact byteSize_body_lt b
    rw [hf] at h
    obtain ⟨hcore, hle⟩ := core_of_mem_argumentCores h
    exact ⟨hcore, by omega⟩
  | phrase parts =>
    rw [hf] at h
    cases Form.found_of_eq hf with
    | phrase whole =>
      obtain ⟨b, hb, hs⟩ := List.mem_flatMap.mp h
      have hlt := lt_of_mem_words whole hb
      obtain ⟨hcore, hle⟩ := core_of_mem_cores hs
      exact ⟨hcore, by omega⟩

/-- As much room as a text has bytes is room enough: more of it changes nothing. -/
theorem within_eq_within {text : Text} {room room' : Nat} (hcore : text.Core)
    (h : text.byteSize ≤ room) (h' : text.byteSize ≤ room') :
    within room text = within room' text := by
  induction room generalizing text room' with
  | zero =>
    have hpos := Text.byteSize_pos hcore.nonempty
    omega
  | succ room ih =>
    cases room' with
    | zero =>
      have hpos := Text.byteSize_pos hcore.nonempty
      omega
    | succ room' =>
      refine byForm_congr ?_
      intro s hs
      obtain ⟨hs, hlt⟩ := core_and_lt_of_mem_innerCores hs
      exact ih hs (by omega) (by omega)

/-! ## 2. Depth -/

mutual

/-- The largest number of groups inside one another. -/
def depth : Markup → Nat
  | .run _ => 0
  | .group _ children => depthAll children + 1

/-- The largest number of groups inside one another in a list of markup. -/
def depthAll : List Markup → Nat
  | [] => 0
  | m :: ms => max (depth m) (depthAll ms)

end

theorem depthAll_le_iff {ms : List Markup} {n : Nat} :
    depthAll ms ≤ n ↔ ∀ m ∈ ms, depth m ≤ n := by
  induction ms with
  | nil => simp [depthAll]
  | cons m ms ih =>
    rw [depthAll, Nat.max_le, ih]
    simp

theorem depth_single (c : Category) (text : Text) : depth (single c text) = 1 := by
  simp [single, depth, depthAll]

/-- The runs at both ends of a bracketed group are no deeper than what is between them. -/
theorem depth_bracketed_le {ms : List Markup} {n : Nat} (c : Category) (head last : Text)
    (h : depthAll ms ≤ n) : depth (.group c (.run head :: (ms ++ [.run last]))) ≤ n + 1 := by
  rw [depth]
  refine Nat.succ_le_succ (depthAll_le_iff.mpr ?_)
  intro m hm
  rcases List.mem_cons.mp hm with rfl | hm
  · simp [depth]
  · rcases List.mem_append.mp hm with hm | hm
    · exact depthAll_le_iff.mp h m hm
    · rw [List.mem_singleton.mp hm]
      simp [depth]

section

variable {mark : Text → Markup} {n : Nat}

theorem Row.depthAll_le {loose : Char → Bool} {marked : List Text} {ms : List Markup}
    (h : Row loose mark marked ms) (hmark : ∀ s ∈ marked, (mark s).depth ≤ n) :
    depthAll ms ≤ n := by
  refine depthAll_le_iff.mpr ?_
  intro m hm
  rcases h m hm with ⟨s, rfl, -, -⟩ | ⟨s, hs, rfl⟩
  · simp [depth]
  · exact hmark s hs

/-- One step inwards adds one group. -/
theorem Built.depth_le {text : Text} {m : Markup} (h : Built mark text m)
    (hmark : ∀ s ∈ innerCores text, (mark s).depth ≤ n) : m.depth ≤ n + 1 := by
  cases h with
  | atom _ =>
    rw [depth_single]
    omega
  | call _ _ _ row => exact depth_bracketed_le _ _ _ (row.depthAll_le hmark)
  | container _ _ row => exact depth_bracketed_le _ _ _ (row.depthAll_le hmark)
  | phrase _ _ row =>
    rw [depth]
    exact Nat.succ_le_succ (row.depthAll_le hmark)

end

/-- **The depth of a piece** is bounded by the room there is for its parts, and by its bytes. -/
theorem depth_within_le (room : Nat) {text : Text} (h : text ≠ []) :
    (within room text).depth ≤ min (room + 1) text.byteSize := by
  have hpos := Text.byteSize_pos h
  induction room generalizing text with
  | zero =>
    obtain ⟨c, -, hwhole⟩ := exists_whole_eq_single text
    rw [within, hwhole, depth_single]
    omega
  | succ room ih =>
    have hparts : ∀ s ∈ innerCores text,
        (within room s).depth ≤ min (room + 1) (text.byteSize - 1) := by
      intro s hs
      obtain ⟨hcore, hlt⟩ := core_and_lt_of_mem_innerCores hs
      have hdepth := ih hcore.nonempty (Text.byteSize_pos hcore.nonempty)
      omega
    have hstep := (built_byForm (within room) text).depth_le hparts
    rw [within]
    omega

theorem depth_of_mem_ofLine {line : Text} {m : Markup} (h : m ∈ ofLine line) :
    m.depth ≤ depthLimit + 1 := by
  rcases row_lineBy _ line m h with ⟨s, rfl, -, -⟩ | ⟨s, hs, rfl⟩
  · simp [depth]
  · have hdepth := depth_within_le depthLimit (core_of_mem_lineCores hs).1.nonempty
    omega

/-! ## 3. Marking comes to an end -/

/-- **Marking goes on to smaller texts only, and its depth is bounded.**  A step inwards asks
for the markup of nothing but the texts in `innerCores`, and those of a core are cores of
strictly fewer bytes; so marking would end without a limit, within as many steps as the text
has bytes.  Hence the markup of a core is no deeper than its bytes, nor than 65, and no part of
a marked line is deeper than 65. -/
theorem marking_descends :
    (∀ text : Text, text.Core →
      (∀ s ∈ innerCores text, s.Core ∧ s.byteSize < text.byteSize) ∧
      (∀ mark mark' : Text → Markup, (∀ s ∈ innerCores text, mark s = mark' s) →
        byForm mark text = byForm mark' text) ∧
      ∀ room, text.byteSize ≤ room → within room text = within text.byteSize text) ∧
    (∀ piece : Text, piece.Core → (ofPiece piece).depth ≤ min 65 piece.byteSize) ∧
    ∀ line : Text, ∀ m ∈ ofLine line, m.depth ≤ 65 := by
  refine ⟨?_, ?_, ?_⟩
  · intro text hcore
    refine ⟨fun s => core_and_lt_of_mem_innerCores, fun mark mark' => byForm_congr, ?_⟩
    intro room hroom
    exact within_eq_within hcore hroom (Nat.le_refl _)
  · intro piece hcore
    rw [ofPiece, ofPieceWithin_core hcore]
    exact depth_within_le depthLimit hcore.nonempty
  · intro line m hm
    exact depth_of_mem_ofLine hm

/-- A call in a call: the step inwards goes on to the inner call, the comma and the name. -/
theorem marking_descends_call :
    Text.Core "f(g(1), x)".toList ∧
      innerCores "f(g(1), x)".toList = ["g(1)".toList, ",".toList, "x".toList] ∧
      (∀ s ∈ innerCores "f(g(1), x)".toList,
        s.Core ∧ s.byteSize < Text.byteSize "f(g(1), x)".toList) ∧
      (ofPiece "f(g(1), x)".toList).depth = 3 ∧
      (ofPiece "f(g(1), x)".toList).depth ≤ min 65 (Text.byteSize "f(g(1), x)".toList) := by
  have hcore : Text.Core "f(g(1), x)".toList := ⟨by decide, by decide⟩
  exact ⟨hcore, by decide +kernel, (marking_descends.1 _ hcore).1, by decide +kernel,
    marking_descends.2.1 _ hcore⟩

end Highlighter.Markup
