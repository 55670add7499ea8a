/-
# The pieces of a line have no blanks around them

Blanks around a part of a line are left to the gaps, whatever the kind of the line: every rule
passes over them before it begins a piece, and gives way to them at the end of one.

One pattern cannot give way.  After the arrow of a definition some result has to stand, and where
there are only blanks before the colon, the last of them is taken for it (`blank_result_is_piece`).
That is the only piece with blanks around it that a line can have.

* `Tiling.Cores`: the pieces of a tiling are cores; every rule but that for definitions keeps to it;
* `Definition.BlankResult`: a blank between an arrow and a colon that are pieces themselves;
* `Definition.CoresBut`: the invariant that carries the exception from the place where it arises
  through what a definition puts in front of it.
-/
import Highlighter.Proofs.Rules

namespace Highlighter

/-! ## 1. Tilings whose pieces are cores -/

namespace Text

variable {s t : Text}

theorem Core.trimStart_eq (h : t.Core) : t.trimStart = t := by
  have hstart := trimStart_trim t
  rwa [h.trimmed] at hstart

/-- What a core begins with is a core, if it ends with no blank. -/
theorem Core.front {d : Char} (h : (s ++ d :: t).Core) (hd : isBlank d = false) :
    (s ++ [d]).Core := by
  obtain ⟨c, cs, hfirst⟩ := List.exists_cons_of_ne_nil (l := s ++ [d]) (by simp)
  have hwhole : s ++ d :: t = c :: (cs ++ t) := by
    rw [← List.cons_append, ← hfirst, List.append_assoc, List.singleton_append]
  exact core_of_ends hfirst rfl (h.not_blank_head hwhole) hd

/-- What a core ends with is not blank. -/
theorem Core.back_not_blank (h : (s ++ t).Core) (hne : t ≠ []) : t.trimStart ≠ [] :=
  (h.trim_back hne).2.nonempty

theorem Core.trimStart_back (h : (s ++ t).Core) (hne : t.trimStart ≠ []) : t.trimStart.Core := by
  refine (h.trim_back ?_).2
  rintro rfl
  exact hne rfl

/-- The end of a core, read on behind blanks and a part that follows them. -/
theorem Core.behind {u v : Text} (h : (s ++ t).Core) (hsplit : t.trimStart = u ++ v) :
    ((s ++ (t.leading ++ u)) ++ v).Core := by
  rw [List.append_assoc, List.append_assoc, ← hsplit, leading_append_trimStart]
  exact h

end Text

namespace Tiling

variable {s t : Tiling}

/-- Every piece is a core. -/
def Cores (t : Tiling) : Prop := ∀ b ∈ t.bodies, b.Core

theorem cores_empty : empty.Cores := by
  rintro b ⟨⟩

theorem cores_gap {run : Text} (ht : t.Cores) : (gap run t).Cores := ht

theorem cores_piece {body : Text} (hbody : body ≠ [] → body.Core) (ht : t.Cores) :
    (piece body t).Cores := by
  intro b hb
  rcases mem_bodies_piece hb with ⟨rfl, hne⟩ | hb
  · exact hbody hne
  · exact ht b hb

theorem cores_append (hs : s.Cores) (ht : t.Cores) : (s.append t).Cores := by
  have htiles : ∀ tiles : List Tile, (∀ a ∈ tiles, a.body.Core) → (tiles.foldr tile t).Cores := by
    intro tiles
    induction tiles with
    | nil => exact fun _ => ht
    | cons a rest ih =>
      intro h
      obtain ⟨ha, hrest⟩ := List.forall_mem_cons.mp h
      exact cores_piece (fun _ => ha) (cores_gap (ih hrest))
  exact cores_gap (htiles s.tiles fun a ha => hs a.body (List.mem_map_of_mem ha))

theorem Cores.core_of_mem_spansAt (ht : t.Cores) {base : Nat} {s : Span} (h : s ∈ t.spansAt base) :
    s.text.Core := by
  obtain ⟨a, ha, htext⟩ := body_of_mem_spansFrom h
  exact htext ▸ ht a.body (List.mem_map_of_mem ha)

/-- A division with one mark, which is no blank. -/
theorem cores_along {role : Char → Role} {mark : Char} (hblank : isBlank mark = false)
    (hrole : ∀ c, role c = .mark → c = mark) (text : Text) : (Division.along role text).Cores :=
  fun _ hb => Division.core_of_mem_along (fun c hc => hrole c hc ▸ hblank) hb

theorem cores_wordsAndCommas (text : Text) : (Division.wordsAndCommas text).Cores :=
  cores_along (by decide : isBlank ',' = false) (fun c hc => by grind) text

theorem cores_wordsAndColons (text : Text) : (Division.wordsAndColons text).Cores :=
  cores_along (by decide : isBlank ':' = false) (fun c hc => by grind) text

theorem cores_itemsAndCommas (text : Text) : (Division.itemsAndCommas text).Cores :=
  cores_along (by decide : isBlank ',' = false) (fun c hc => by grind) text

theorem core_brackets {text : Text} {b : Bracketed} (h : bracketed? text = some b) :
    Text.Core [b.opener] ∧ Text.Core [b.closer] := by
  obtain ⟨hopener, hcloser⟩ := brackets_of_bracketed? h
  simp only [isOpener, isCloser, Bool.or_eq_true, beq_iff_eq] at hopener hcloser
  constructor
  · rcases hopener with (h | h) | h <;> exact h ▸ Text.core_singleton (by decide)
  · rcases hcloser with (h | h) | h <;> exact h ▸ Text.core_singleton (by decide)

end Tiling

/-! ## 2. Rules that find cores -/

namespace Statement

open Tiling (cores_empty cores_gap cores_piece cores_append cores_wordsAndCommas
  cores_wordsAndColons cores_itemsAndCommas core_brackets)

variable {text : Text} {t : Tiling}

theorem Import.cores_names (text : Text) : (names text).Cores := by
  unfold names
  split
  · rename_i b hread
    obtain ⟨hopener, hcloser⟩ := core_brackets hread
    split
    · exact cores_piece (fun _ => hopener)
        (cores_append (cores_wordsAndCommas b.body) (cores_piece (fun _ => hcloser) cores_empty))
    · exact cores_wordsAndCommas text
  · exact cores_wordsAndCommas text

theorem Import.cores_direct? (h : direct? text = some t) : t.Cores := by
  simp only [direct?, Option.bind_eq_bind, Option.bind_eq_some_iff, Option.pure_def,
    Option.some.injEq] at h
  obtain ⟨rest, -, tail, htail, rfl⟩ := h
  refine cores_piece (fun _ => core_importWord) ?_
  unfold namesAfter? at htail
  split at htail
  · split at htail
    · exact Option.some.inj htail ▸ cores_gap (Import.cores_names _)
    · exact absurd htail (by simp)
  · exact absurd htail (by simp)

theorem Import.cores_tiling? (h : Import.tiling? text = some t) : t.Cores := by
  rw [Import.tiling?, Option.or_eq_some_iff] at h
  rcases h with h | ⟨-, h⟩
  · exact cores_direct? h
  · simp only [fromModule?, Option.bind_eq_bind, Option.bind_eq_some_iff, Option.pure_def,
      Option.some.injEq, Prod.exists] at h
    obtain ⟨r₁, -, space, r₂, -, source, r₃, hsource, space', r₄, -, tail, htail, rfl⟩ := h
    obtain ⟨hne, hpath⟩ := Text.of_run? hsource
    exact cores_piece (fun _ => core_fromWord)
      (cores_gap (cores_piece (fun _ => core_path hne hpath) (cores_gap (cores_direct? htail))))

theorem Assignment.cores_tiling? (hcore : text.Core) (h : Assignment.tiling? text = some t) :
    t.Cores := by
  obtain ⟨target, space, after, value, hparts, rfl⟩ := Assignment.exists_of_tiling? h
  have hback : ((target ++ (space ++ ['='])) ++ (after ++ value)).Core := by
    have hwritten := hparts.written ▸ hcore
    simpa using hwritten
  obtain ⟨-, hstart⟩ := hback.trim_back (by simp [hparts.value_ne])
  have hvalue : value.Core := by
    rcases hparts.value_start with hvalue | hblank
    · exact hvalue ▸ hstart
    · exact absurd (List.dropWhile_eq_nil_iff.mpr (Text.blank_iff.mp hblank)) hstart.nonempty
  exact cores_piece (fun _ => hparts.target.core) (cores_gap
    (cores_piece (fun _ => Text.core_singleton (by decide)) (cores_gap
      (cores_piece (fun _ => hvalue) cores_empty))))

theorem Conditional.cores_tiling? (h : Conditional.tiling? text = some t) : t.Cores := by
  obtain ⟨before, condition, after, -, -, -, hcondition, -, rfl⟩ :=
    Conditional.exists_of_tiling? h
  have hword : ifWord.Core := ⟨by decide, by decide⟩
  exact cores_piece (fun _ => hword) (cores_gap (cores_piece hcondition (cores_gap
    (cores_piece (fun _ => Text.core_singleton (by decide)) cores_empty))))

theorem Call.cores_tiling? (hcore : text.Core) (h : Call.tiling? text = some t) : t.Cores := by
  obtain ⟨path, arguments, rest, hhead, -, -, rfl⟩ := Call.exists_of_tiling? h
  have hwritten : text = (path ++ '(' :: arguments) ++ ')' :: rest := by
    rw [head?_eq_some hhead]
    simp
  have hcall : (path ++ '(' :: (arguments ++ [')'])).Core := by
    have hfront := (hwritten ▸ hcore).front (by decide)
    rwa [List.append_assoc, List.cons_append] at hfront
  have hback : ((path ++ '(' :: arguments) ++ [')'] ++ rest).Core := by
    rw [List.append_assoc, List.singleton_append]
    exact hwritten ▸ hcore
  exact cores_piece (fun _ => hcall) (cores_gap (cores_piece hback.trimStart_back cores_empty))

/-- Only a text that ends in a blank has a blank right-hand side. -/
theorem Comparison.cores_right? {s : Text} (hcore : (s ++ text).Core)
    (h : right? text = some t) : t.Cores := by
  have hoperand : ∀ {operand back : Text} {tail u : Tiling}, (operand ++ back).Core →
      operand ≠ [] → tail.Cores → operand? operand tail = some u → u.Cores := by
    intro operand back tail u hfront hne htail hu
    unfold operand? at hu
    split at hu
    · exact Option.some.inj hu ▸
        cores_piece (fun _ => hfront.trimEnd_front hne) (cores_gap htail)
    · exact absurd hu (by simp)
  unfold right? at h
  split at h
  · rename_i hstart
    have hnil : text = [] := by
      by_contra hne
      exact hcore.back_not_blank hne hstart
    subst hnil
    exact absurd h (by simp [Text.leading, Text.splitLast?])
  · rename_i c cs hstart
    have hne : text ≠ [] := by
      rintro rfl
      exact absurd hstart (by simp [Text.trimStart])
    have hright : Text.Core (c :: cs) := hstart ▸ (hcore.trim_back hne).2
    split at h
    · rename_i d stem hstem
      rw [Option.map_eq_some_iff] at h
      obtain ⟨u, hu, rfl⟩ := h
      have hcolon := Text.endingIn?_eq_some hstem ▸ hright
      exact cores_gap (hoperand hcolon (List.cons_ne_nil d stem)
        (cores_piece (fun _ => Text.core_singleton (by decide)) cores_empty) hu)
    · rw [Option.map_eq_some_iff] at h
      obtain ⟨u, hu, rfl⟩ := h
      have hwhole : Text.Core ((c :: cs) ++ []) := by rwa [List.append_nil]
      exact cores_gap (hoperand hwhole (List.cons_ne_nil c cs) cores_empty hu)

theorem Comparison.cores_tiling? (hcore : text.Core) (h : Comparison.tiling? text = some t) :
    t.Cores := by
  obtain ⟨left, space, sign, after, right, hwritten, hleft, hsign, hright, rfl⟩ :=
    Comparison.exists_of_tiling? h
  have hcoreSign : sign.Core := by
    rcases hsign with rfl | rfl <;> exact ⟨by decide, by decide⟩
  have hback : ((left ++ (space ++ sign)) ++ after).Core := by
    simpa [hwritten] using hcore
  exact cores_piece (fun _ => hleft hcore.trimStart_eq) (cores_gap
    (cores_piece (fun _ => hcoreSign) (cores_right? hback hright)))

theorem cores_listing (text : Text) : (Listing.parts text).Cores := by
  unfold Listing.parts
  split
  · rename_i b hread
    obtain ⟨hopener, hcloser⟩ := core_brackets hread
    have hlast : (Tiling.piece [b.closer] .empty).Cores :=
      cores_piece (fun _ => hcloser) cores_empty
    exact cores_piece (fun _ => hopener) fun _ hb => Tiling.core_of_mem_trimmed hlast hb
  · exact cores_itemsAndCommas text

/-! ## 3. Definitions -/

namespace Definition

/-- Among the pieces of a line, `s` is a blank that stands for a result: it is a single character
and no line break, the arrow is the piece before it with only blanks between, and the colon is the
piece after it with only line breaks between. -/
def BlankResult (line : Text) (pieces : List Span) (s : Span) : Prop :=
  ∃ (front before after back : Text) (c : Char),
    line = front ++ (arrow ++ (before ++ c :: (after ++ ':' :: back))) ∧
    before.blank = true ∧ isBlank c = true ∧ c ≠ '\n' ∧ (∀ d ∈ after, d = '\n') ∧
    s = ⟨(front ++ (arrow ++ before)).byteSize, [c]⟩ ∧
    [⟨front.byteSize, arrow⟩, s, ⟨(front ++ (arrow ++ (before ++ c :: after))).byteSize, [':']⟩]
      <:+: pieces

theorem BlankResult.not_core {line : Text} {pieces : List Span} {s : Span}
    (h : BlankResult line pieces s) : ¬ s.text.Core := by
  obtain ⟨front, before, after, back, c, -, -, hc, -, -, rfl, -⟩ := h
  intro hcore
  rw [hcore.not_blank_head rfl] at hc
  exact Bool.false_ne_true hc

theorem BlankResult.mono {line : Text} {pieces pieces' : List Span} {s : Span}
    (h : BlankResult line pieces s) (hpieces : pieces <:+ pieces') :
    BlankResult line pieces' s := by
  obtain ⟨front, before, after, back, c, hline, hbefore, hc, hinLine, hafter, hs, hinfix⟩ := h
  exact ⟨front, before, after, back, c, hline, hbefore, hc, hinLine, hafter, hs,
    hinfix.trans hpieces.isInfix⟩

theorem BlankResult.append {line : Text} {pieces : List Span} {s : Span}
    (h : BlankResult line pieces s) (more : Text) : BlankResult (line ++ more) pieces s := by
  obtain ⟨front, before, after, back, c, rfl, hrest⟩ := h
  exact ⟨front, before, after, back ++ more, c, by simp, hrest⟩

/-- The pieces of a tiling that stands behind `front` are cores, but for a blank result. -/
def CoresBut (front : Text) (t : Tiling) : Prop :=
  ∀ s ∈ t.spansAt front.byteSize,
    s.text.Core ∨ BlankResult (front ++ t.text) (t.spansAt front.byteSize) s

variable {front : Text}

theorem coresBut_of_cores (ht : t.Cores) : CoresBut front t :=
  fun _ hs => Or.inl (ht.core_of_mem_spansAt hs)

theorem coresBut_gap {run : Text} (ht : CoresBut (front ++ run) t) :
    CoresBut front (.gap run t) := by
  unfold CoresBut at ht ⊢
  rwa [Tiling.spansAt_gap, Tiling.text_gap, ← Text.byteSize_append, ← List.append_assoc]

theorem coresBut_piece {body : Text} (hbody : body.Core) (ht : CoresBut (front ++ body) t) :
    CoresBut front (.piece body t) := by
  unfold CoresBut at ht ⊢
  rw [Text.byteSize_append, List.append_assoc] at ht
  rw [Tiling.spansAt_piece hbody.nonempty, Tiling.text_piece]
  intro s hs
  rcases List.mem_cons.mp hs with rfl | hs
  · exact Or.inl hbody
  · exact (ht s hs).imp_right fun hblank => hblank.mono (List.suffix_cons _ _)

theorem cores_suite? {s : Text} (hcore : (s ++ text).Core) (h : suite? text = some t) :
    t.Cores := by
  obtain ⟨rest, hcolon, -, rfl⟩ := exists_of_suite? h
  have hback : ((s ++ (text.leading ++ [':'])) ++ rest).Core := hcore.behind hcolon
  exact cores_gap (cores_piece (fun _ => Text.core_singleton (by decide))
    (cores_gap (cores_piece hback.trimStart_back cores_empty)))

/-- The exception arises here: with only blanks before the colon, one of them is the result. -/
theorem coresBut_arrow {s rest : Text} (hcore : (s ++ rest).Core) (h : ReadResult rest t) :
    CoresBut front (.piece arrow t) := by
  have harrow : arrow.Core := ⟨by decide, by decide⟩
  cases h with
  | @found result rest' tail written core _ suite =>
    exact coresBut_of_cores (cores_piece (fun _ => harrow) (cores_gap
      (cores_piece (fun _ => core) (cores_suite? (hcore.behind written) suite))))
  | @blank before after c tail blanks inLine breaks suite =>
    have hleading : ∀ d ∈ before ++ c :: after, isBlank d = true :=
      fun d hd => Text.isBlank_of_mem_leading (blanks ▸ hd)
    have hback : ((s ++ (before ++ [c])) ++ (after ++ rest.trimStart)).Core := by
      have htext := Text.leading_append_trimStart rest
      rw [blanks] at htext
      rw [← htext] at hcore
      simpa using hcore
    have htail := cores_suite? hback suite
    obtain ⟨body, hcolon, -, rfl⟩ := exists_of_suite? suite
    -- the line breaks behind the result are the gap before the colon
    have hafter : after.blank = true :=
      Text.blank_iff.mpr fun d hd => hleading d (by simp [hd])
    have hstart : rest.trimStart = ':' :: body :=
      calc rest.trimStart = rest.trimStart.trimStart := (Text.trimStart_trimStart rest).symm
        _ = (after ++ rest.trimStart).trimStart :=
          (List.dropWhile_append_of_pos (Text.blank_iff.mp hafter)).symm
        _ = ':' :: body := hcolon
    rw [hstart, (Text.leading_append hafter (by decide) body).1] at htail ⊢
    intro s hs
    rw [Tiling.spansAt_piece harrow.nonempty, Tiling.spansAt_gap,
      Tiling.spansAt_piece (List.cons_ne_nil c []), List.mem_cons, List.mem_cons] at hs
    rcases hs with rfl | rfl | hs
    · exact Or.inl harrow
    · refine Or.inr ⟨front, before, after, body, c, ?_, ?_, ?_, inLine, breaks, ?_, ?_⟩
      · simp
      · exact Text.blank_iff.mpr fun d hd => hleading d (by simp [hd])
      · exact hleading c (by simp)
      · simp [Nat.add_assoc]
      · refine ⟨[], (Tiling.gap body.leading (.piece body.trimStart .empty)).spansAt
          (front ++ (arrow ++ (before ++ c :: (after ++ [':'])))).byteSize, ?_⟩
        simp [Tiling.spansAt_piece, harrow.nonempty, Nat.add_assoc]
    · exact Or.inl (htail.core_of_mem_spansAt hs)

theorem coresBut_signatureEnd? {s : Text} (hcore : (s ++ text).Core)
    (h : signatureEnd? text = some t) : CoresBut front t := by
  cases readEnd_of_signatureEnd? h with
  | suite suite => exact coresBut_of_cores (cores_suite? hcore suite)
  | @result rest tail written result =>
    exact coresBut_gap (coresBut_arrow (hcore.behind written) result)

theorem coresBut_signature? {s : Text} (hcore : (s ++ text).Core) (h : ReadSignature text t) :
    CoresBut front t := by
  cases h with
  | @bare name rest tail isName ending =>
    have hback : ((s ++ name) ++ rest).Core := by rwa [List.append_assoc]
    exact coresBut_piece isName.core (coresBut_signatureEnd? hback ending)
  | @parameters name parameters rest tail isName oneLine ending last =>
    have hsignature : (name ++ '(' :: (parameters ++ [')'])).Core :=
      isName.core.join (Text.core_singleton (by decide)) ('(' :: parameters)
    have hback : ((s ++ (name ++ '(' :: (parameters ++ [')']))) ++ rest).Core := by
      simpa using hcore
    exact coresBut_piece hsignature (coresBut_signatureEnd? hback ending)

theorem coresBut_tiling? (hcore : text.Core) (h : Definition.tiling? text = some t) :
    CoresBut front t := by
  obtain ⟨word, space, rest, tail, rfl, hword, -, hsignature, rfl⟩ := exists_of_tiling? h
  have hcoreWord : word.Core := by
    rcases hword with rfl | rfl <;> exact ⟨by decide, by decide⟩
  have hback : ((word ++ space) ++ rest).Core := by rwa [List.append_assoc]
  exact coresBut_piece hcoreWord (coresBut_gap (coresBut_signature? hback hsignature))

end Definition

/-! ## 4. The pieces of a line -/

theorem cores_of_tiling? {kind : Statement} (hkind : kind ≠ definition) (hcore : text.Core)
    (h : kind.tiling? text = some t) : t.Cores := by
  cases kind with
  | imports => exact Import.cores_tiling? h
  | definition => exact absurd rfl hkind
  | assignment => exact Assignment.cores_tiling? hcore h
  | conditional => exact Conditional.cores_tiling? h
  | call => exact Call.cores_tiling? hcore h
  | comparison => exact Comparison.cores_tiling? hcore h
  | listing => exact Option.some.inj h ▸ cores_listing text
  | other => exact Option.some.inj h ▸ cores_wordsAndColons text

/-- A line that is no definition, or that the rule for definitions does not apply to, has cores for
pieces. -/
theorem cores_dissectTrimmed (hcore : text.Core) :
    (dissectTrimmed text).Cores ∨
      of text = definition ∧ Definition.tiling? text = some (dissectTrimmed text) := by
  unfold dissectTrimmed
  cases htiling : (of text).tiling? text with
  | none => exact Or.inl (cores_wordsAndColons text)
  | some t =>
    by_cases hkind : of text = definition
    · rw [hkind] at htiling
      exact Or.inr ⟨hkind, htiling⟩
    · exact Or.inl (cores_of_tiling? hkind hcore htiling)

/-- **The pieces of a line have no blanks around them**, and none is blank, except for the one blank
that stands for the result of a definition without one. -/
theorem pieces_trimmed_unless_blank_result {line : Text} {s : Span}
    (hs : s ∈ (dissect line).spans) :
    s.text.Core ↔
      ¬ (of line = definition ∧ Definition.BlankResult line (dissect line).spans s) := by
  constructor
  · exact fun hcore hblank => hblank.2.not_core hcore
  · intro hnot
    have hcore : line.trim.Core := by
      refine Text.core_trim fun hnil => ?_
      rw [(spans_dissect_eq_nil_iff line).mpr (Text.trim_eq_nil_iff.mp hnil)] at hs
      exact absurd hs (by simp)
    have hspans : (dissect line).spans
        = (dissectTrimmed line.trim).spansAt line.leading.byteSize := by
      rw [Sliced.spans_dissect, Tiling.spansAt_eq_map_shift]
    rw [hspans] at hs hnot
    rcases cores_dissectTrimmed hcore with hcores | ⟨hkind, htiling⟩
    · exact hcores.core_of_mem_spansAt hs
    · refine (Definition.coresBut_tiling? hcore htiling s hs).resolve_right fun hblank => hnot ?_
      have hof : of line = definition := by
        rw [← hkind, of, of, Text.trim_trim]
      refine ⟨hof, ?_⟩
      have hline := hblank.append line.trimStart.trailing
      rwa [text_dissectTrimmed, List.append_assoc,
        Text.leading_append_trim_append_trailing] at hline

/-- A result among blanks of three bytes, and a blank for a result, behind another blank and before
a line break. -/
theorem pieces_trimmed_unless_blank_result_both :
    (⟨15, "é".toList⟩ ∈ (dissect " def f(a) ->\u3000é\u3000:".toList).spans ∧
      Text.Core "é".toList ∧
      ¬ (of " def f(a) ->\u3000é\u3000:".toList = definition ∧
        Definition.BlankResult " def f(a) ->\u3000é\u3000:".toList
          (dissect " def f(a) ->\u3000é\u3000:".toList).spans ⟨15, "é".toList⟩)) ∧
    (⟨11, " ".toList⟩ ∈ (dissect "def f() ->\t \n:".toList).spans ∧ ¬ Text.Core " ".toList ∧
      of "def f() ->\t \n:".toList = definition ∧
      Definition.BlankResult "def f() ->\t \n:".toList (dissect "def f() ->\t \n:".toList).spans
        ⟨11, " ".toList⟩) := by
  have hresult : ⟨15, "é".toList⟩ ∈ (dissect " def f(a) ->\u3000é\u3000:".toList).spans := by
    decide +kernel
  have hcore : Text.Core "é".toList := ⟨by decide, by decide⟩
  have hblank : ⟨11, " ".toList⟩ ∈ (dissect "def f() ->\t \n:".toList).spans := by decide +kernel
  have hnot : ¬ Text.Core " ".toList := fun hcore => absurd hcore.trimmed (by decide)
  refine ⟨⟨hresult, hcore, (pieces_trimmed_unless_blank_result hresult).mp hcore⟩,
    hblank, hnot, ?_⟩
  by_contra hno
  exact hnot ((pieces_trimmed_unless_blank_result hblank).mpr hno)

/-- **A blank for a result**: the arrow of a definition has only a blank before the colon, and that
blank is a piece. -/
theorem blank_result_is_piece :
    (dissect "def f() -> :".toList).spans = [⟨0, "def".toList⟩, ⟨4, "f()".toList⟩,
      ⟨8, "->".toList⟩, ⟨10, " ".toList⟩, ⟨11, ":".toList⟩] ∧ ¬ Text.Core " ".toList :=
  ⟨by decide +kernel, fun hcore => absurd hcore.trimmed (by decide)⟩

end Statement

end Highlighter
