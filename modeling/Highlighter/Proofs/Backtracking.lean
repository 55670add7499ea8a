/-
# Where a pattern goes back

A run of characters is read as a whole unless what comes after could do with one of them.  In the
patterns for statements this happens in three places, all of them behind blanks: where nothing but
blanks is left for a part that has to have a character, the last of them is taken for it.

* `repeated?_shortest?`: blanks, then the shortest part before something that blanks may precede;
* `repeated?_wholeLine_blank`: blanks, then the rest of the line.

In two more there is a choice, but it is settled by the text alone:

* `repeated?_colonOr`: the shortest part before a colon or nothing at the end of the line;
* `Pattern.read_path`: as many names with dots between them as possible.
-/
import Highlighter.Proofs.Patterns

namespace Highlighter

namespace Text

variable {β : Type} {rule : Text → Option β} {t : Text}

/-! ## 1. The last of the blanks -/

theorem trimStart_cons {c : Char} (hc : isBlank c = true) (cs : Text) :
    trimStart (c :: cs) = trimStart cs :=
  List.dropWhile_cons_of_pos hc

theorem leading_cons {c : Char} (hc : isBlank c = true) (cs : Text) :
    leading (c :: cs) = c :: leading cs :=
  List.takeWhile_cons_of_pos hc

theorem eq_none_of_repeated? {greedy : Bool} {test : Char → Bool}
    (h : repeated? greedy test rule t = none) : rule t = none := by
  cases t with
  | nil => simpa [repeated?] using h
  | cons c cs =>
    rw [repeated?] at h
    cases greedy <;> simp_all

/-- A rule that does not mind blanks in front. -/
def Blankproof (rule : Text → Option β) : Prop :=
  ∀ c cs, isBlank c = true → (rule (c :: cs) = none ↔ rule cs = none)

theorem Blankproof.append (h : Blankproof rule) {space : Text} (hspace : space.blank = true) :
    rule (space ++ t) = none ↔ rule t = none := by
  induction space with
  | nil => rfl
  | cons c cs ih =>
    simp only [Text.blank, List.all_cons, Bool.and_eq_true] at hspace
    rw [List.cons_append, h c _ hspace.1]
    exact ih hspace.2

theorem splitLast?_cons (c : Char) (cs : Text) : splitLast? (c :: cs) =
    ((splitLast? cs).map fun r => (c :: r.1, r.2)).or
      (if c = '\n' then none else some ([], c, cs)) := by
  rw [splitLast?]
  cases splitLast? cs <;> rfl

theorem blank_of_splitLast? {before rest : Text} {d : Char} (ht : t.blank = true)
    (h : splitLast? t = some (before, d, rest)) : rest.blank = true := by
  rw [splitLast?_eq_some h] at ht
  simp only [Text.blank, List.all_append, List.all_cons, Bool.and_eq_true] at ht
  exact ht.2.2

/-- **The shortest part behind blanks.**  All the blanks are passed over, unless nothing can be
found behind them; then the last one that is no line break is all that is found. -/
theorem repeated?_shortest? (h : Blankproof rule) (t : Text) :
    repeated? true isBlank (shortest? rule) t =
      ((shortest? rule t.trimStart).map (t.leading, ·)).or
        ((splitLast? t.leading).bind fun r =>
          (rule (r.2.2 ++ t.trimStart)).map fun a => (r.1, [r.2.1], a)) := by
  induction t with
  | nil => rfl
  | cons c cs ih =>
    cases hc : isBlank c with
    | false => simp [repeated?, hc, trimStart, leading, splitLast?]
    | true =>
      rw [trimStart_cons hc, leading_cons hc, splitLast?_cons, repeated?, ih, hc, if_pos rfl,
        if_pos rfl]
      cases hbehind : shortest? rule (trimStart cs) with
      | some r => rfl
      | none =>
        -- nothing is found behind all the blanks, so it is a matter of one of them
        rw [hbehind] at ih
        cases hlast : splitLast? (leading cs) with
        | none =>
          rw [hlast] at ih
          have hshort : shortest? rule cs = none := eq_none_of_repeated? ih
          by_cases hnewline : c = '\n'
          · simp [shortest?, hnewline]
          · cases hrule : rule cs <;> simp [shortest?, hnewline, hrule, hshort]
        | some r =>
          rw [hlast] at ih
          cases hrule : rule (r.2.2 ++ trimStart cs) with
          | some a => simp [hrule]
          | none =>
            have hmore : repeated? true isBlank (shortest? rule) cs = none := by
              rw [ih]
              simp [hrule]
            have hshort := eq_none_of_repeated? hmore
            have hnone : rule cs = none := by
              rw [← leading_append_trimStart cs, h.append (blank_leading cs),
                ← h.append (blank_of_splitLast? (blank_leading cs) hlast)]
              exact hrule
            simp [shortest?, hnone, hshort, hrule]

/-! ## 2. The end of a line -/

theorem Blankproof.inherits (h : Blankproof rule) :
    Inherits isBlank (repeated? false (· != '\n') rule) := by
  intro c cs hc hnone
  have hrule := (h c cs hc).mpr (eq_none_of_repeated? hnone)
  simp [repeated?, hnone, hrule]

/-- A text without the blanks at its end, if it is on one line, and these blanks before a tail. -/
def beforeBlanks? (t : Text) (tail : Tiling) : Option (Text × Tiling) :=
  if t.trimEnd.oneLine then some (t.trimEnd, .gap t.trailing tail) else none

theorem beforeBlanks?_of_blank (ht : t.blank = true) (tail : Tiling) :
    beforeBlanks? t tail = some ([], .gap t tail) := by
  have hreverse : ∀ c ∈ t.reverse, isBlank c = true :=
    fun c hc => blank_iff.mp ht c (List.mem_reverse.mp hc)
  have htrim : t.trimEnd = [] := by
    rw [trimEnd, List.dropWhile_eq_nil_iff.mpr hreverse, List.reverse_nil]
  have htrailing : t.trailing = t := by
    rw [trailing, List.takeWhile_eq_self_iff.mpr hreverse, List.reverse_reverse]
  rw [beforeBlanks?, htrim, htrailing]
  rfl

theorem beforeBlanks?_cons {c : Char} {cs : Text} (h : ¬blank (c :: cs) = true) (tail : Tiling) :
    beforeBlanks? (c :: cs) tail =
      if c = '\n' then none else (beforeBlanks? cs tail).map fun r => (c :: r.1, r.2) := by
  have htrim : trimEnd (c :: cs) = c :: trimEnd cs := by
    rw [trimEnd, List.reverse_cons, List.dropWhile_append]
    split
    · rename_i hcs
      have hc : ¬isBlank c = true := by
        intro hc
        refine h (blank_iff.mpr (List.forall_mem_cons.mpr ⟨hc, ?_⟩))
        simpa using hcs
      simp [trimEnd, List.isEmpty_iff.mp hcs, hc]
    · rw [List.reverse_append]
      rfl
  have htrailing : trailing (c :: cs) = trailing cs := by
    have hcons := trimEnd_append_trailing (c :: cs)
    rw [htrim, List.cons_append, List.cons.injEq] at hcons
    exact List.append_cancel_left (hcons.2.trans (trimEnd_append_trailing cs).symm)
  have hline : oneLine (c :: trimEnd cs) = (c != '\n' && oneLine (trimEnd cs)) := rfl
  rw [beforeBlanks?, htrim, htrailing, hline, beforeBlanks?]
  by_cases hc : c = '\n' <;> cases oneLine (trimEnd cs) <;> simp [hc]

/-- The end of a line: blanks and a colon, or blanks and nothing else. -/
def colonOr (plain? : Option Tiling) (t : Text) : Option Tiling :=
  if t.trimStart = [':'] then some (.gap t.leading (.piece [':'] .empty))
  else if t.trimStart = [] then plain?.map (.gap t.leading) else none

theorem blankproof_colonOr (plain? : Option Tiling) : Blankproof (colonOr plain?) := by
  intro c cs hc
  unfold colonOr
  rw [trimStart_cons hc]
  split
  · simp
  · split <;> simp

theorem endingIn?_of_blank {last : Char} (hlast : isBlank last = false) (ht : t.blank = true) :
    endingIn? last t = none := by
  cases h : endingIn? last t with
  | none => rfl
  | some stem =>
    rw [endingIn?_eq_some h] at ht
    simp [Text.blank, hlast] at ht

theorem endingIn?_cons_cons (last c d : Char) (ds : Text) :
    endingIn? last (c :: d :: ds) = (endingIn? last (d :: ds)).map (c :: ·) := rfl

/-- A line without the colon at its end, if there is one, and the blanks before that. -/
def beforeColon? (plain? : Option Tiling) (t : Text) : Option (Text × Tiling) :=
  match endingIn? ':' t with
  | some stem => beforeBlanks? stem (.piece [':'] .empty)
  | none => plain?.bind (beforeBlanks? t)

theorem beforeColon?_cons {c : Char} {cs : Text} (hcolon : trimStart (c :: cs) ≠ [':'])
    (hblank : ¬blank (c :: cs) = true) (plain? : Option Tiling) :
    beforeColon? plain? (c :: cs) =
      if c = '\n' then none
      else (beforeColon? plain? cs).map fun r => (c :: r.1, r.2) := by
  have hending : endingIn? ':' (c :: cs) = (endingIn? ':' cs).map (c :: ·) := by
    cases cs with
    | nil =>
      have hc : c ≠ ':' := by
        rintro rfl
        exact hcolon rfl
      simp [endingIn?, hc]
    | cons d ds => exact endingIn?_cons_cons ':' c d ds
  unfold beforeColon?
  rw [hending]
  cases hstem : endingIn? ':' cs with
  | none =>
    cases plain? with
    | none => simp
    | some plain => exact beforeBlanks?_cons hblank plain
  | some stem =>
    refine beforeBlanks?_cons ?_ _
    intro hstemBlank
    refine hcolon ?_
    rw [endingIn?_eq_some hstem, ← List.cons_append]
    exact (leading_append hstemBlank (by decide) []).2

/-- **The shortest part before the end of a line** is all of it, but for a colon at the end and the
blanks before that. -/
theorem repeated?_colonOr (plain? : Option Tiling) (t : Text) :
    repeated? false (· != '\n') (colonOr plain?) t = beforeColon? plain? t := by
  induction t with
  | nil => cases plain? <;> rfl
  | cons c cs ih =>
    by_cases hcolon : trimStart (c :: cs) = [':']
    · have htext : leading (c :: cs) ++ [':'] = c :: cs := by
        rw [← hcolon, leading_append_trimStart]
      have hending := endingIn?_concat ':' (leading (c :: cs))
      rw [htext] at hending
      have hfound := beforeBlanks?_of_blank (blank_leading (c :: cs)) (.piece [':'] .empty)
      simp [beforeColon?, hending, hfound, repeated?, colonOr, hcolon]
    · by_cases hblank : blank (c :: cs) = true
      · have hcs : blank cs = true := by
          rw [Text.blank, List.all_cons, Bool.and_eq_true] at hblank
          exact hblank.2
        obtain ⟨hlead, hstart⟩ := leading_of_blank (trim_eq_nil_iff.mpr hblank)
        rw [beforeColon?, endingIn?_of_blank (by decide) hcs] at ih
        rw [beforeColon?, endingIn?_of_blank (by decide) hblank, repeated?, ih, colonOr,
          if_neg hcolon, if_pos hstart, hlead]
        cases plain? with
        | none => simp
        | some plain => simp [beforeBlanks?_of_blank hblank]
      · have hstart : trimStart (c :: cs) ≠ [] := by
          intro hstart
          exact hblank (trim_eq_nil_iff.mp (by rw [trim, hstart]; rfl))
        rw [beforeColon?_cons hcolon hblank, repeated?, ih, colonOr, if_neg hcolon, if_neg hstart]
        by_cases hc : c = '\n' <;> simp [hc]

/-! ## 3. The rest of a line -/

/-- The rule for one character or more before the end of a line of text, `(.+)$`. -/
def wholeLine? (t : Text) : Option Tiling :=
  if !t.isEmpty && t.oneLine then some (.piece t .empty) else none

theorem repeated?_wholeLine_cons {ds : Text} {d : Char} (h : t.trimStart = d :: ds) :
    repeated? true isBlank wholeLine? t = (wholeLine? t.trimStart).map (t.leading, ·) := by
  induction t with
  | nil => rfl
  | cons c cs ih =>
    cases hc : isBlank c with
    | false => simp [repeated?, hc, trimStart, leading]
    | true =>
      rw [trimStart_cons hc] at h
      rw [trimStart_cons hc, leading_cons hc, repeated?, ih h, h, hc]
      cases hline : oneLine (d :: ds) with
      | true => simp [wholeLine?, hline]
      | false =>
        have hcs : oneLine (c :: cs) = false := by
          rw [← leading_append_trimStart cs, h, ← List.cons_append, oneLine_append, hline,
            Bool.and_false]
        simp [wholeLine?, hline, hcs]

theorem wholeLine?_eq_none (h : '\n' ∈ t) : wholeLine? t = none := by
  have hline : oneLine t = false := by
    rw [oneLine, List.all_eq_false]
    exact ⟨'\n', h, by simp⟩
  simp [wholeLine?, hline]

theorem repeated?_wholeLine_blank (h : t.blank = true) :
    repeated? true isBlank wholeLine? t =
      (splitLast? t).bind fun r =>
        if r.2.2 = [] then some (r.1, .piece [r.2.1] .empty) else none := by
  induction t with
  | nil => rfl
  | cons c cs ih =>
    rw [Text.blank, List.all_cons, Bool.and_eq_true] at h
    rw [repeated?, ih h.2, splitLast?_cons, h.1, if_pos rfl, if_pos rfl]
    cases hlast : splitLast? cs with
    | none =>
      cases cs with
      | nil => by_cases hc : c = '\n' <;> simp [wholeLine?, oneLine, hc]
      | cons d ds =>
        have hd := eq_newline_of_splitLast? hlast d List.mem_cons_self
        rw [wholeLine?_eq_none (by simp [hd])]
        by_cases hc : c = '\n' <;> simp [hc]
    | some r =>
      obtain ⟨before, d, rest⟩ := r
      cases rest with
      | nil => simp
      | cons e es =>
        have he := (of_splitLast? hlast).2 e List.mem_cons_self
        rw [wholeLine?_eq_none (by simp [splitLast?_eq_some hlast, he])]
        simp

end Text

/-! ## 4. Dotted names -/

namespace Name

/-- The dots and names that a text begins with, if any, and what follows them. -/
def fields? : Text → Option (Text × Text)
  | '.' :: more => (path? more).map fun q => ('.' :: q.1, q.2)
  | rest => some ([], rest)

theorem fields?_cons {c : Char} (hc : c ≠ '.') (cs : Text) :
    fields? (c :: cs) = some ([], c :: cs) := by
  unfold fields?
  split
  · rename_i h
    exact absurd (List.cons.inj h).1 hc
  · rfl

theorem split_of_words {w : Text} (hw : ∀ c ∈ w, isWord c = true) : Text.split '.' w = [w] :=
  Text.split_of_notMem fun hdot => absurd (hw '.' hdot) (by decide)

theorem isPath_of_words {w : Text} (hw : ∀ c ∈ w, isWord c = true) : isPath w = !w.isEmpty := by
  rw [isPath, split_of_words hw]
  simpa [isName] using fun _ => hw

theorem isPath_append {w : Text} (hw : ∀ c ∈ w, isWord c = true) (x : Text) :
    isPath (w ++ '.' :: x) = (!w.isEmpty && isPath x) := by
  rw [← isPath_of_words hw]
  simp [isPath, Text.split_append_cons, split_of_words hw]

theorem path?_of_words {w v : Text} (hw : ∀ c ∈ w, isWord c = true)
    (hv : v.head?.any isWord = false) :
    path? (w ++ v) = if w.isEmpty then none else (fields? v).map fun q => (w ++ q.1, q.2) := by
  have hor : ∀ c ∈ w, isWordOrDot c = true := fun c hc => by simp [isWordOrDot, hw c hc]
  rw [path?, List.takeWhile_append_of_pos hor, List.dropWhile_append_of_pos hor]
  cases v with
  | nil => cases hempty : w.isEmpty <;> simp [isPath_of_words hw, hempty, fields?]
  | cons c cs =>
    by_cases hc : c = '.'
    · subst hc
      have hdot : isWordOrDot '.' = true := by decide
      rw [List.takeWhile_cons_of_pos hdot, List.dropWhile_cons_of_pos hdot, isPath_append hw,
        fields?, path?]
      cases w.isEmpty <;> cases isPath (cs.takeWhile isWordOrDot) <;> simp
    · have hother : isWordOrDot c = false := by simpa [isWordOrDot, hc] using hv
      rw [fields?_cons hc]
      cases hempty : w.isEmpty <;> simp [isPath_of_words hw, hempty, hother]

/-- A dotted name is a name, and the dots and names behind it. -/
theorem path?_eq (t : Text) :
    path? t = (Text.word? t).bind fun r => (fields? r.2).map fun q => (r.1 ++ q.1, q.2) := by
  have hw : ∀ c ∈ t.takeWhile isWord, isWord c = true := fun _ => List.mem_takeWhile_imp
  have hv : (t.dropWhile isWord).head?.any isWord = false := by
    cases h : t.dropWhile isWord with
    | nil => rfl
    | cons c cs => simpa [h] using List.head_dropWhile_not isWord (l := t) (by simp [h])
  have hpath := path?_of_words hw hv
  rw [List.takeWhile_append_dropWhile] at hpath
  rw [hpath, Text.word?, Text.run?]
  split <;> rfl

end Name

namespace Pattern

open Text

/-- A dotted name, `\w+(?:\.\w+)*`. -/
def path : Pattern := plus word ++ star (one '.' ++ plus word)

variable {β : Type} {rule : Text → Option β}

/-- The dots and names behind a name, followed by something that the rule applies to. -/
def behindFields? (rule : Text → Option β) (t : Text) : Option (Text × β) :=
  (Name.fields? t).bind fun q => (rule q.2).map (q.1, ·)

theorem refuses_behindFields? (h : Refuses isWordOrDot rule) :
    Refuses isWord (behindFields? rule) := by
  intro c cs hc
  have hdot : c ≠ '.' := ne_of_test hc (by decide)
  have hrule : rule (c :: cs) = none := h c cs (by simp [isWordOrDot, hc])
  simp [behindFields?, Name.fields?_cons hdot, hrule]

/-- The dots and names are read in as many rounds as there are of them. -/
theorem rounds_field (h : Refuses isWordOrDot rule) {n : Nat} {t : Text} (hn : t.length ≤ n)
    (before : Option Char) :
    rounds true (one '.' ++ plus word).read (onRest rule) n ⟨before, t⟩ = behindFields? rule t := by
  induction n generalizing t before with
  | zero =>
    rw [List.eq_nil_of_length_eq_zero (Nat.le_zero.mp hn)]
    rfl
  | succ n ih =>
    -- what one round leaves to the others
    let more (u : Text) : Option (Text × β) :=
      if u.length < t.length then behindFields? rule u else none
    have hmore : (fun d : Cursor => if d.rest.length < t.length then
        rounds true (one '.' ++ plus word).read (onRest rule) n d else none) = onRest more := by
      refine eq_onRest fun b u => ?_
      by_cases hu : u.length < t.length
      · simpa [onRest, more, hu] using ih (by omega) b
      · simp [more, hu]
    have hrefuses : Refuses isWord more := by
      intro c cs hc
      simp [more, refuses_behindFields? h c cs hc]
    rw [rounds, hmore, read_append, word, read_plus hrefuses.inherits, read_one]
    cases t with
    | nil => rfl
    | cons c cs =>
      by_cases hc : c = '.'
      · subst hc
        have hstop : rule ('.' :: cs) = none := h '.' cs (by decide)
        have hafter : after? ['.'] ('.' :: cs) = some cs := after?_eq_some_iff.mpr rfl
        rw [behindFields?, Name.fields?, Name.path?_eq, word?]
        cases hword : run? isWord cs with
        | none => simp [onRest, hafter, hword, hstop]
        | some r =>
          have hless : r.2.length < ('.' :: cs).length := by
            rw [run?_eq_some hword, List.length_cons, List.length_append]
            omega
          have hrest : more r.2 = behindFields? rule r.2 := if_pos hless
          cases hq : Name.fields? r.2 <;>
            simp [onRest, hafter, hword, hstop, hrest, behindFields?, hq, Function.comp_def, joined]
      · simp [onRest, after?, Ne.symm hc, behindFields?, Name.fields?_cons hc]

theorem read_path (h : Refuses isWordOrDot rule) : path.read (onRest rule) =
    onRest fun t => (Name.path? t).bind fun r => (rule r.2).map (r.1, ·) := by
  have hfields : (star (one '.' ++ plus word)).read (onRest rule) =
      onRest (behindFields? rule) := by
    refine eq_onRest fun before t => ?_
    exact rounds_field h le_rfl before
  rw [path, read_word_append hfields (refuses_behindFields? h).inherits]
  refine eq_onRest fun _ t => ?_
  simp only [onRest, Name.path?_eq]
  cases hword : word? t with
  | none => rfl
  | some r => cases hq : Name.fields? r.2 <;> simp [behindFields?, hq, Function.comp_def]

/-- A dotted name and what comes after it. -/
theorem read_path_append {p : Pattern} {scan : Text → Option (Text × β)}
    (hp : p.read (onRest rule) = onRest scan) (h : Refuses isWordOrDot scan) :
    (path ++ p).read (onRest rule) = onRest fun t =>
      (Name.path? t).bind fun r => (scan r.2).map fun q => (r.1 ++ q.1, q.2) := by
  rw [read_append, hp, read_path h]
  refine eq_onRest fun _ t => ?_
  simp only [onRest, Option.map_bind, Option.map_map, Function.comp_def, joined]

end Pattern

end Highlighter
