/-
# Terminal output shows the right text in the right colours

A terminal reads its input from left to right.  One control sequence sets the colour of what
follows, another clears it, and every other character is shown in the colour in force.  The
colours on the screen depend on the whole history of sequences, and the output of a group has
been cut up and coloured anew once for each coloured group around it.

* `codes` and `shown` are the terminal: what it finds in its input, and what it makes of that.
* `codes_written`: sequences and characters can be told apart again after they are written, as
  long as no character is the one that begins a sequence.
* `shown_tinted`: colouring content anew gives its colour to the characters that had none, and to
  no others.  It leaves no colour in force.
* `displays_writeAll`: so a character shows the colour of the nearest group that has one.
* `terminal_shows_colours`: the same for a whole source text.
-/
import Highlighter.Proofs.Forms
import Highlighter.Proofs.Lossless
import Highlighter.Render.Terminal

namespace Highlighter

/-! ## 1. Parts and lines -/

/-- What stands in a part of a list that is cut at `a` stands in the list, and is not `a`. -/
theorem of_mem_splitOn {α : Type} [DecidableEq α] {a x : α} {l part : List α}
    (hpart : part ∈ l.splitOn a) (hx : x ∈ part) : x ∈ l ∧ x ≠ a := by
  induction l generalizing part with
  | nil =>
    rw [List.splitOn_nil, List.mem_singleton] at hpart
    simp [hpart] at hx
  | cons b l ih =>
    rw [List.splitOn_cons_eq_if_modifyHead] at hpart
    split at hpart
    · rcases List.mem_cons.mp hpart with rfl | hpart
      · simp at hx
      · exact (ih hpart hx).imp_left (List.mem_cons_of_mem b)
    · rename_i hb
      cases hsplit : l.splitOn a with
      | nil => simp [hsplit] at hpart
      | cons first more =>
        rw [hsplit, List.modifyHead_cons] at hpart
        rw [hsplit] at ih
        rcases List.mem_cons.mp hpart with rfl | hpart
        · rcases List.mem_cons.mp hx with rfl | hx
          · exact ⟨List.mem_cons_self, by simpa using hb⟩
          · exact (ih List.mem_cons_self hx).imp_left (List.mem_cons_of_mem b)
        · exact (ih (List.mem_cons_of_mem first hpart) hx).imp_left (List.mem_cons_of_mem b)

theorem Text.split_eq_splitOn (sep : Char) (t : Text) : Text.split sep t = t.splitOn sep := by
  induction t with
  | nil => rfl
  | cons c cs ih => simp [Text.split, List.splitOn_cons_eq_if_modifyHead, ih]

/-- A line of a text holds characters of the text, and no line break. -/
theorem Text.of_mem_lines {t line : Text} {c : Char} (hline : line ∈ t.lines) (hc : c ∈ line) :
    c ∈ t ∧ c ≠ '\n' := by
  rw [Text.lines, Text.split_eq_splitOn] at hline
  exact of_mem_splitOn hline hc

theorem Text.mem_of_mem_trim {t : Text} {c : Char} (h : c ∈ t.trim) : c ∈ t := by
  rw [← Text.leading_append_trim_append_trailing t]
  simp [h]

/-! ## 2. A terminal -/

namespace Terminal

/-- What a terminal finds in its input. -/
inductive Code where
  /-- A character to be shown. -/
  | put (c : Char)
  /-- The sequence after which text is bold and has a colour. -/
  | set (colour : Colour)
  /-- The sequence after which text has no colour. -/
  | clear
  deriving Repr, DecidableEq

/-- The decimal number that a text begins with, and what follows it. -/
def number? (t : Text) : Option (Nat × Text) := do
  let (digits, rest) ← Text.run? Char.isDigit t
  return (Nat.ofDigitChars 10 digits 0, rest)

/-- The colour that a text begins with, as three numbers with semicolons between them, and what
follows it. -/
def components? (t : Text) : Option (Colour × Text) := do
  let (red, rest) ← number? t
  let rest ← Text.after? [';'] rest
  let (green, rest) ← number? rest
  let rest ← Text.after? [';'] rest
  let (blue, rest) ← number? rest
  return (⟨red, green, blue⟩, rest)

/-- The control sequence that a text begins with, and what follows it. -/
def sequence? (t : Text) : Option (Code × Text) :=
  match Text.after? ['\x1b', '[', '0', 'm'] t with
  | some rest => some (.clear, rest)
  | none => do
    let rest ← Text.after? ['\x1b', '[', '3', '8', ';', '2', ';'] t
    let (colour, rest) ← components? rest
    let rest ← Text.after? [';', '1', 'm'] rest
    return (.set colour, rest)

/-- Reads a text from left to right, after passing over `skip` characters. -/
def codesFrom : (skip : Nat) → Text → List Code
  | _, [] => []
  | skip + 1, _ :: cs => codesFrom skip cs
  | 0, c :: cs =>
    match sequence? (c :: cs) with
    | some (code, rest) => code :: codesFrom (cs.length - rest.length) cs
    | none => .put c :: codesFrom 0 cs

/-- What a terminal finds in a text. -/
def codes (t : Text) : List Code := codesFrom 0 t

/-- The characters that are shown, each in the colour in force there. -/
def shown : (style : Option Colour) → List Code → List (Char × Option Colour)
  | _, [] => []
  | style, .put c :: cs => (c, style) :: shown style cs
  | _, .set colour :: cs => shown (some colour) cs
  | _, .clear :: cs => shown none cs

/-- The colour in force at the end. -/
def styleAfter : (style : Option Colour) → List Code → Option Colour
  | style, [] => style
  | style, .put _ :: cs => styleAfter style cs
  | _, .set colour :: cs => styleAfter (some colour) cs
  | _, .clear :: cs => styleAfter none cs

theorem shown_append (style : Option Colour) (cs ds : List Code) :
    shown style (cs ++ ds) = shown style cs ++ shown (styleAfter style cs) ds := by
  induction cs generalizing style with
  | nil => rfl
  | cons code cs ih => cases code <;> simp [shown, styleAfter, ih]

theorem styleAfter_append (style : Option Colour) (cs ds : List Code) :
    styleAfter style (cs ++ ds) = styleAfter (styleAfter style cs) ds := by
  induction cs generalizing style with
  | nil => rfl
  | cons code cs ih => cases code <;> simp [styleAfter, ih]

/-! ## 3. Written codes are read back -/

/-- How a code is written. -/
def Code.text : Code → Text
  | .put c => [c]
  | .set colour => setColour colour
  | .clear => reset

/-- How codes are written. -/
def written (cs : List Code) : Text := cs.flatMap Code.text

@[simp] theorem written_nil : written [] = [] := rfl

@[simp] theorem written_cons (code : Code) (cs : List Code) :
    written (code :: cs) = code.text ++ written cs := by simp [written]

@[simp] theorem written_append (cs ds : List Code) :
    written (cs ++ ds) = written cs ++ written ds := by simp [written]

theorem codesFrom_append (s t : Text) : codesFrom s.length (s ++ t) = codes t := by
  induction s with
  | nil => rfl
  | cons c s ih => exact ih

theorem codes_of_sequence? {s t : Text} {code : Code} (hs : s ≠ [])
    (h : sequence? (s ++ t) = some (code, t)) : codes (s ++ t) = code :: codes t := by
  obtain ⟨c, cs, rfl⟩ := List.exists_cons_of_ne_nil hs
  rw [List.cons_append] at h
  rw [codes, List.cons_append, codesFrom, h]
  simp [codesFrom_append]

/-- A character that does not begin a sequence is shown. -/
theorem codes_cons {c : Char} (hc : c ≠ '\x1b') (t : Text) :
    codes (c :: t) = .put c :: codes t := by
  have hnone : sequence? (c :: t) = none := by
    simp [sequence?, Text.after?, Ne.symm hc]
  rw [codes, codesFrom, hnone]
  rfl

theorem number?_toDigits (n : Nat) {c : Char} (hc : c.isDigit = false) (t : Text) :
    number? (Nat.toDigits 10 n ++ c :: t) = some (n, c :: t) := by
  have hdigits : ∀ d ∈ Nat.toDigits 10 n, d.isDigit = true := fun d hd =>
    Nat.isDigit_of_mem_toDigits (by decide) (by decide) hd
  have htake : (Nat.toDigits 10 n ++ c :: t).takeWhile Char.isDigit = Nat.toDigits 10 n := by
    simp [List.takeWhile_append_of_pos hdigits, hc]
  have hdrop : (Nat.toDigits 10 n ++ c :: t).dropWhile Char.isDigit = c :: t := by
    simp [List.dropWhile_append_of_pos hdigits, hc]
  have hvalue : Nat.ofDigitChars 10 (Nat.toDigits 10 n) 0 = n :=
    Nat.ofDigitChars_toDigits (by decide) (by decide)
  simp [number?, Text.run?, htake, hdrop, hvalue, Nat.toDigits_ne_nil]

theorem sequence?_reset (t : Text) : sequence? (reset ++ t) = some (.clear, t) := by
  simp [sequence?, reset, Text.after?]

theorem components?_digits (colour : Colour) {c : Char} (hc : c.isDigit = false) (t : Text) :
    components? (Nat.toDigits 10 colour.red ++ ';' :: (Nat.toDigits 10 colour.green
      ++ ';' :: (Nat.toDigits 10 colour.blue ++ c :: t))) = some (colour, c :: t) := by
  have hsemicolon : Char.isDigit ';' = false := by decide
  simp [components?, number?_toDigits _ hsemicolon, number?_toDigits _ hc, Text.after?]

theorem setColour_eq (colour : Colour) : setColour colour =
    '\x1b' :: '[' :: '3' :: '8' :: ';' :: '2' :: ';' :: (Nat.toDigits 10 colour.red
      ++ ';' :: (Nat.toDigits 10 colour.green ++ ';' :: (Nat.toDigits 10 colour.blue
        ++ [';', '1', 'm']))) := by
  have hstart : "[38;2;".toList = ['[', '3', '8', ';', '2', ';'] := by decide
  have hend : ";1m".toList = [';', '1', 'm'] := by decide
  unfold setColour
  simp only [hstart, hend, List.cons_append, List.append_assoc, List.nil_append]

theorem sequence?_setColour (colour : Colour) (t : Text) :
    sequence? (setColour colour ++ t) = some (.set colour, t) := by
  have hsemicolon : Char.isDigit ';' = false := by decide
  simp [sequence?, setColour_eq, Text.after?, components?_digits _ hsemicolon]

/-- **Written codes are read back**, unless a character to be shown begins a sequence. -/
theorem codes_written {cs : List Code} (h : Code.put '\x1b' ∉ cs) : codes (written cs) = cs := by
  induction cs with
  | nil => rfl
  | cons code cs ih =>
    rw [List.mem_cons, not_or] at h
    rw [written_cons]
    have hrest := ih h.2
    cases code with
    | put c =>
      have hc : c ≠ '\x1b' := fun hc => h.1 (by rw [hc])
      rw [Code.text, List.singleton_append, codes_cons hc, hrest]
    | set colour =>
      have hne : setColour colour ≠ [] := by simp [setColour_eq]
      rw [Code.text, codes_of_sequence? hne (sequence?_setColour colour _), hrest]
    | clear =>
      rw [Code.text, codes_of_sequence? (by simp [reset]) (sequence?_reset _), hrest]

/-! ## 4. Colouring anew -/

theorem runs_cons {c : Char} (hc : c ≠ '\x1b') (t : Text) :
    runs (c :: t) = (runs t).modifyHead (c :: ·) := by
  rw [runs]
  exact fun _ h _ => hc h

theorem runs_append {s : Text} (hs : '\x1b' ∉ s) (t : Text) :
    runs (s ++ t) = (runs t).modifyHead (s ++ ·) := by
  induction s with
  | nil =>
    rw [List.nil_append]
    cases runs t <;> rfl
  | cons c s ih =>
    rw [List.mem_cons, not_or] at hs
    rw [List.cons_append, runs_cons (Ne.symm hs.1), ih hs.2, List.modifyHead_modifyHead]
    rfl

theorem notMem_toDigits (n : Nat) : '\x1b' ∉ Nat.toDigits 10 n := by
  intro h
  have hdigit := Nat.isDigit_of_mem_toDigits (by decide) (by decide) h
  exact absurd hdigit (by decide)

/-- A sequence that sets a colour stays in its run. -/
theorem runs_setColour (colour : Colour) (t : Text) :
    runs (setColour colour ++ t) = (runs t).modifyHead (setColour colour ++ ·) := by
  obtain ⟨tail, htail, hset⟩ : ∃ tail : Text, '\x1b' ∉ tail ∧
      setColour colour = '\x1b' :: '[' :: '3' :: tail :=
    ⟨_, by simp [notMem_toDigits], setColour_eq colour⟩
  have hrest : '\x1b' ∉ '[' :: '3' :: tail := by simp [htail]
  rw [hset, List.cons_append, runs]
  · rw [runs_append hrest, List.modifyHead_modifyHead]
    rfl
  · simp

/-- The runs of written codes are those between the codes that clear. -/
theorem runs_written {cs : List Code} (h : Code.put '\x1b' ∉ cs) :
    runs (written cs) = (cs.splitOn .clear).map written := by
  have hhead (code : Code) (l : List (List Code)) :
      (l.map written).modifyHead (code.text ++ ·) = (l.modifyHead (code :: ·)).map written := by
    cases l <;> simp
  induction cs with
  | nil => rfl
  | cons code cs ih =>
    rw [List.mem_cons, not_or] at h
    rw [written_cons, List.splitOn_cons_eq_if_modifyHead]
    have hrest := ih h.2
    cases code with
    | put c =>
      have hc : '\x1b' ∉ [c] := fun hc => h.1 (by rw [List.mem_singleton.mp hc])
      rw [if_neg (by simp), Code.text, runs_append hc, hrest]
      exact hhead (.put c) _
    | set colour =>
      rw [if_neg (by simp), Code.text, runs_setColour, hrest]
      exact hhead (.set colour) _
    | clear =>
      rw [if_pos (by simp), List.map_cons, ← hrest]
      rfl

/-- One run of codes in a colour. -/
def tintedRun (colour : Colour) (run : List Code) : List Code :=
  if run = [] then [] else .set colour :: (run ++ [.clear])

/-- Codes coloured anew, run by run. -/
def tinted (colour : Colour) (cs : List Code) : List Code :=
  (cs.splitOn .clear).flatMap (tintedRun colour)

theorem tintRun_written (colour : Colour) (run : List Code) :
    tintRun colour (written run) = written (tintedRun colour run) := by
  cases run with
  | nil => rfl
  | cons code run =>
    have hne : (written (code :: run)).isEmpty = false := by
      cases code <;> simp [Code.text, setColour_eq, reset]
    rw [tintRun, hne, tintedRun, if_neg (List.cons_ne_nil _ _)]
    simp [Code.text]

theorem tint_written (colour : Colour) {cs : List Code} (h : Code.put '\x1b' ∉ cs) :
    tint colour (written cs) = written (tinted colour cs) := by
  rw [tint, runs_written h, tinted, List.flatMap_map, written, List.flatMap_assoc]
  exact congrArg (List.flatMap · _) (funext fun run => tintRun_written colour run)

theorem put_notMem_tinted (colour : Colour) {cs : List Code} (h : Code.put '\x1b' ∉ cs) :
    Code.put '\x1b' ∉ tinted colour cs := by
  intro hmem
  obtain ⟨run, hrun, hcode⟩ := List.mem_flatMap.mp hmem
  rw [tintedRun] at hcode
  split at hcode
  · simp at hcode
  · exact h (of_mem_splitOn hrun (by simpa using hcode)).1

/-- Puts a colour under a character, where it has none of its own. -/
def layer (under : Option Colour) (p : Char × Option Colour) : Char × Option Colour :=
  (p.1, p.2.or under)

/-- In a run without a clearing, a colour set before is a colour put under. -/
theorem shown_run (colour : Colour) {run : List Code} (h : ∀ code ∈ run, code ≠ .clear)
    (style : Option Colour) :
    shown (style.or (some colour)) run = (shown style run).map (layer (some colour)) := by
  induction run generalizing style with
  | nil => rfl
  | cons code run ih =>
    have hrun : ∀ code ∈ run, code ≠ .clear := fun d hd => h d (List.mem_cons_of_mem _ hd)
    cases code with
    | put c =>
      rw [shown, shown, ih hrun, List.map_cons]
      rfl
    | set other => simpa [shown] using ih hrun (some other)
    | clear => exact absurd rfl (h .clear List.mem_cons_self)

theorem shown_tintedRun (colour : Colour) {run : List Code} (h : ∀ code ∈ run, code ≠ .clear) :
    shown none (tintedRun colour run) = (shown none run).map (layer (some colour)) := by
  rw [tintedRun]
  split
  · rename_i hrun
    rw [hrun]
    rfl
  · have hrun := shown_run colour h none
    rw [Option.none_or] at hrun
    simp [shown, shown_append, hrun]

theorem styleAfter_tintedRun (colour : Colour) (run : List Code) :
    styleAfter none (tintedRun colour run) = none := by
  rw [tintedRun]
  split
  · rfl
  · simp [styleAfter, styleAfter_append]

/-- Every run begins without a colour, after the clearing before it. -/
theorem shown_intercalate (runs : List (List Code)) :
    shown none ([Code.clear].intercalate runs) = runs.flatMap (shown none) := by
  induction runs with
  | nil => rfl
  | cons run runs ih =>
    cases runs with
    | nil => simp [List.intercalate]
    | cons next runs =>
      rw [List.intercalate_cons_cons, List.append_assoc, shown_append, List.flatMap_cons, ← ih]
      rfl

/-- **Colouring anew** puts the colour under all that is shown, and leaves none in force. -/
theorem shown_tinted (colour : Colour) (cs : List Code) :
    shown none (tinted colour cs) = (shown none cs).map (layer (some colour)) ∧
      styleAfter none (tinted colour cs) = none := by
  have hcs : shown none cs = (cs.splitOn .clear).flatMap (shown none) := by
    rw [← shown_intercalate, List.intercalate_splitOn]
  have hruns : ∀ run ∈ cs.splitOn .clear, ∀ code ∈ run, code ≠ .clear := fun _ hrun _ hcode =>
    (of_mem_splitOn hrun hcode).2
  rw [hcs, tinted]
  generalize cs.splitOn .clear = runs at hruns
  induction runs with
  | nil => exact ⟨rfl, rfl⟩
  | cons run runs ih =>
    obtain ⟨hshown, hstyle⟩ := ih fun r hr => hruns r (List.mem_cons_of_mem _ hr)
    have hrun := shown_tintedRun colour (hruns run List.mem_cons_self)
    rw [List.flatMap_cons, List.flatMap_cons, List.map_append, shown_append, styleAfter_append,
      styleAfter_tintedRun, hrun, hshown, hstyle]
    exact ⟨rfl, rfl⟩

/-! ## 5. What output displays -/

/-- An output displays characters in colours: it is made of codes that show them, and none of
its colours is left in force. -/
def Displays (output : Text) (content : List (Char × Option Colour)) : Prop :=
  ∃ cs : List Code, output = written cs ∧ Code.put '\x1b' ∉ cs ∧ shown none cs = content ∧
    styleAfter none cs = none

theorem Displays.read {output : Text} {content : List (Char × Option Colour)}
    (h : Displays output content) :
    shown none (codes output) = content ∧ styleAfter none (codes output) = none := by
  obtain ⟨cs, rfl, hplain, hshown, hstyle⟩ := h
  rw [codes_written hplain]
  exact ⟨hshown, hstyle⟩

theorem displays_nil : Displays [] [] := ⟨[], rfl, by simp, rfl, rfl⟩

theorem Displays.append {s t : Text} {as bs : List (Char × Option Colour)} (hs : Displays s as)
    (ht : Displays t bs) : Displays (s ++ t) (as ++ bs) := by
  obtain ⟨cs, rfl, hcs, rfl, hcstyle⟩ := hs
  obtain ⟨ds, rfl, hds, rfl, hdstyle⟩ := ht
  refine ⟨cs ++ ds, (written_append cs ds).symm, by simp [hcs, hds], ?_, ?_⟩
  · rw [shown_append, hcstyle]
  · rw [styleAfter_append, hcstyle, hdstyle]

/-- Text that begins no sequence is shown without a colour. -/
theorem displays_text {text : Text} (h : '\x1b' ∉ text) :
    Displays text (text.map (·, none)) := by
  induction text with
  | nil => exact displays_nil
  | cons c cs ih =>
    rw [List.mem_cons, not_or] at h
    have hfirst : Displays [c] [(c, none)] := ⟨[.put c], rfl, by simpa using h.1, rfl, rfl⟩
    exact hfirst.append (ih h.2)

theorem dress_of_colour {c : Category} {colour : Colour} (h : colour? c = some colour)
    (content : Text) : dress c content = tint colour content := by
  unfold dress
  split
  · simp [colour?] at h
  · rw [h]

theorem dress_of_transparent {c : Category} (hc : c ≠ .newline) (h : colour? c = none)
    (content : Text) : dress c content = content := by
  unfold dress
  split
  · exact absurd rfl hc
  · rw [h]

/-- **Dressing** puts the colour of a category under the content. -/
theorem Displays.dress {output : Text} {content : List (Char × Option Colour)}
    (h : Displays output content) {c : Category} (hc : c ≠ .newline) :
    Displays (dress c output) (content.map (layer (colour? c))) := by
  cases hcolour : colour? c with
  | none =>
    have hlayer : layer none = id := funext fun p => by simp [layer]
    rw [dress_of_transparent hc hcolour, hlayer, List.map_id]
    exact h
  | some colour =>
    obtain ⟨cs, rfl, hplain, rfl, -⟩ := h
    rw [dress_of_colour hcolour, tint_written colour hplain]
    exact ⟨tinted colour cs, rfl, put_notMem_tinted colour hplain, shown_tinted colour cs⟩

end Terminal

/-! ## 6. The groups around a character -/

namespace Markup

mutual

/-- The characters under some markup, each with the categories over it, the nearest first.
The categories `above` are over all of it. -/
def leaves (above : List Category) : Markup → List (Char × List Category)
  | .run text => text.map (·, above)
  | .group c children => leavesAll (c :: above) children

/-- The characters under a list of markup, each with the categories over it. -/
def leavesAll (above : List Category) : List Markup → List (Char × List Category)
  | [] => []
  | m :: ms => leaves above m ++ leavesAll above ms

end

theorem leavesAll_append (above : List Category) (ms ns : List Markup) :
    leavesAll above (ms ++ ns) = leavesAll above ms ++ leavesAll above ns := by
  induction ms with
  | nil => rfl
  | cons m ms ih => rw [List.cons_append, leavesAll, leavesAll, ih, List.append_assoc]

theorem leavesAll_flatMap {α : Type} (above : List Category) (f : α → List Markup) (l : List α) :
    leavesAll above (l.flatMap f) = l.flatMap fun a => leavesAll above (f a) := by
  induction l with
  | nil => rfl
  | cons a l ih => rw [List.flatMap_cons, leavesAll_append, ih, List.flatMap_cons]

mutual

theorem leaves_above (inner above : List Category) : (m : Markup) →
    leaves (inner ++ above) m = (leaves inner m).map fun p => (p.1, p.2 ++ above)
  | .run text => by simp [leaves]
  | .group c children => leavesAll_above (c :: inner) above children

theorem leavesAll_above (inner above : List Category) : (ms : List Markup) →
    leavesAll (inner ++ above) ms = (leavesAll inner ms).map fun p => (p.1, p.2 ++ above)
  | [] => rfl
  | m :: ms => by
    rw [leavesAll, leavesAll, leaves_above inner above m, leavesAll_above inner above ms,
      List.map_append]

end

mutual

theorem map_fst_leaves (above : List Category) : (m : Markup) →
    (leaves above m).map Prod.fst = m.source
  | .run text => by simp [leaves, source, Function.comp_def]
  | .group c children => map_fst_leavesAll (c :: above) children

theorem map_fst_leavesAll (above : List Category) : (ms : List Markup) →
    (leavesAll above ms).map Prod.fst = sourceAll ms
  | [] => rfl
  | m :: ms => by
    rw [leavesAll, List.map_append, map_fst_leaves above m, map_fst_leavesAll above ms, sourceAll]

end

end Markup

mutual

theorem Renderer.write_plain : (m : Markup) → Renderer.plain.write m = m.source
  | .run _ => rfl
  | .group _ children => Renderer.writeAll_plain children

/-- The plain renderer writes the text under the markup. -/
theorem Renderer.writeAll_plain : (ms : List Markup) →
    Renderer.plain.writeAll ms = Markup.sourceAll ms
  | [] => rfl
  | m :: ms => by
    rw [Renderer.writeAll, Renderer.write_plain m, Renderer.writeAll_plain ms, Markup.sourceAll]

end

/-! ## 7. Markup, lines and sources -/

namespace Terminal

open Markup

/-- A character in the colour of the nearest category over it that has one. -/
def tone (p : Char × List Category) : Char × Option Colour := (p.1, p.2.findSome? colour?)

theorem map_tone_leavesAll (c : Category) (ms : List Markup) :
    (leavesAll [c] ms).map tone = ((leavesAll [] ms).map tone).map (layer (colour? c)) := by
  have habove := leavesAll_above [] [c] ms
  rw [List.nil_append] at habove
  rw [habove, List.map_map, List.map_map]
  refine List.map_congr_left fun p _ => ?_
  simp only [tone, layer, Function.comp_apply, List.findSome?_append, List.findSome?_singleton]

mutual

theorem displays_write : (m : Markup) → everyCategory Category.isStyled m = true →
    '\x1b' ∉ m.source → Displays (Renderer.terminal.write m) ((leaves [] m).map tone)
  | .run text, _, hplain => by
    have htone : (leaves [] (.run text)).map tone = text.map (·, none) := by
      simp [leaves, tone]
    rw [htone]
    exact displays_text hplain
  | .group c children, hstyled, hplain => by
    rw [everyCategory, Bool.and_eq_true] at hstyled
    have hc : c ≠ .newline := by
      rintro rfl
      exact absurd hstyled.1 (by decide)
    rw [leaves, map_tone_leavesAll]
    exact (displays_writeAll children hstyled.2 hplain).dress hc

/-- **Each character shows the colour of the nearest group that has one.** -/
theorem displays_writeAll : (ms : List Markup) → everyCategoryAll Category.isStyled ms = true →
    '\x1b' ∉ sourceAll ms →
    Displays (Renderer.terminal.writeAll ms) ((leavesAll [] ms).map tone)
  | [], _, _ => displays_nil
  | m :: ms, hstyled, hplain => by
    rw [everyCategoryAll, Bool.and_eq_true] at hstyled
    rw [sourceAll, List.mem_append, not_or] at hplain
    rw [leavesAll, List.map_append]
    exact (displays_write m hstyled.1 hplain.1).append (displays_writeAll ms hstyled.2 hplain.2)

end

/-- One line of a source.  Its end is written as it is, whatever stands around it. -/
theorem displays_ofSourceLine {line : Text} (hplain : '\x1b' ∉ line) :
    Displays (Renderer.terminal.writeAll (ofSourceLine line))
      ((leavesAll [] (ofSourceLine line)).map tone) := by
  have hindent : Displays line.indent (line.indent.map (·, none)) :=
    displays_text fun h => hplain ((List.takeWhile_prefix _).mem h)
  have hcontents := displays_writeAll (ofLine line.trim) (everyCategoryAll_ofLine line.trim) (by
    rw [ofLine, sourceAll_ofLineWithin]
    exact fun h => hplain (Text.mem_of_mem_trim h))
  have hbreak : Displays ['\n'] [('\n', none)] := displays_text (by decide)
  have houtput : Renderer.terminal.writeAll (ofSourceLine line)
      = line.indent ++ (Renderer.terminal.writeAll (ofLine line.trim) ++ ['\n']) := by
    simp [ofSourceLine, single, Renderer.writeAll, Renderer.write, Renderer.terminal,
      Terminal.dress, colour?]
  have hleaves : (leavesAll [] (ofSourceLine line)).map tone = line.indent.map (·, none)
      ++ ((leavesAll [] (ofLine line.trim)).map tone ++ [('\n', none)]) := by
    simp [ofSourceLine, single, leavesAll, leaves, leavesAll_append, tone, colour?]
  rw [houtput, hleaves]
  exact hindent.append (hcontents.append hbreak)

theorem displays_ofSource {text : Text} (hplain : '\x1b' ∉ text) :
    Displays (Renderer.terminal.render text) ((leavesAll [] (ofSource text)).map tone) := by
  have hlines : ∀ line ∈ text.lines, '\x1b' ∉ line := fun line hline h =>
    hplain (Text.of_mem_lines hline h).1
  rw [Renderer.render, ofSource]
  generalize text.lines = lines at hlines
  induction lines with
  | nil => exact displays_nil
  | cons line lines ih =>
    rw [List.flatMap_cons, Renderer.writeAll_append, leavesAll_append, List.map_append]
    exact (displays_ofSourceLine (hlines line List.mem_cons_self)).append
      (ih fun l hl => hlines l (List.mem_cons_of_mem _ hl))

/-- A line break in a source stands alone at the end of its line. -/
theorem above_of_mem_leavesAll {text : Text} {above : List Category}
    (h : ('\n', above) ∈ leavesAll [] (ofSource text)) : above = [.newline] := by
  rw [ofSource, leavesAll_flatMap] at h
  obtain ⟨line, hline, hmem⟩ := List.mem_flatMap.mp h
  have hbreak : '\n' ∉ line := fun hc => (Text.of_mem_lines hline hc).2 rfl
  rw [ofSourceLine, leavesAll, leavesAll_append] at hmem
  rcases List.mem_append.mp hmem with hindent | hmem
  · have hc : '\n' ∈ line.indent := by
      have hfst := List.mem_map_of_mem (f := Prod.fst) hindent
      rwa [map_fst_leaves, source_single] at hfst
    exact absurd ((List.takeWhile_prefix _).mem hc) hbreak
  · rcases List.mem_append.mp hmem with hcontents | hend
    · have hc : '\n' ∈ line.trim := by
        have hfst := List.mem_map_of_mem (f := Prod.fst) hcontents
        rwa [map_fst_leavesAll, ofLine, sourceAll_ofLineWithin] at hfst
      exact absurd (Text.mem_of_mem_trim hc) hbreak
    · simpa [single, leavesAll, leaves] using hend

/-- **A terminal shows the right text in the right colours.**  Of a source text without the
character that begins control sequences it shows the plain text, each character in the colour of
the nearest group around it that has one, or in none.  At line breaks and at the end no colour is
in force. -/
theorem terminal_shows_colours (text : Text) (hplain : '\x1b' ∉ text) :
    shown none (codes (Renderer.terminal.render text))
        = (leavesAll [] (ofSource text)).map (fun p => (p.1, p.2.findSome? colour?)) ∧
      (shown none (codes (Renderer.terminal.render text))).map Prod.fst
        = Renderer.plain.render text ∧
      (∀ style, ('\n', style) ∈ shown none (codes (Renderer.terminal.render text)) →
        style = none) ∧
      styleAfter none (codes (Renderer.terminal.render text)) = none ∧
      ∀ c, colour? c = none ↔ c = .default ∨ c = .neutral ∨ c = .indent ∨ c = .newline := by
  obtain ⟨hshown, hstyle⟩ := (displays_ofSource hplain).read
  rw [hshown]
  refine ⟨rfl, ?_, ?_, hstyle, ?_⟩
  · rw [List.map_map, Renderer.render, Renderer.writeAll_plain, ← map_fst_leavesAll []]
    rfl
  · intro style hmem
    obtain ⟨⟨c, above⟩, hleaf, htone⟩ := List.mem_map.mp hmem
    obtain ⟨rfl, rfl⟩ := Prod.mk.inj htone
    have habove : above = [.newline] := above_of_mem_leavesAll hleaf
    rw [habove]
    rfl
  · intro c
    cases c <;> simp [colour?]

/-- A number in a call: its colour ends where it ends, and the colour of the call goes on. -/
theorem terminal_shows_colours_call :
    '\x1b' ∉ "f(1)".toList ∧
      shown none (codes (Renderer.terminal.render "f(1)".toList))
        = [('f', some ⟨52, 101, 164⟩), ('(', some ⟨52, 101, 164⟩), ('1', some ⟨173, 127, 168⟩),
          (')', some ⟨52, 101, 164⟩), ('\n', none)] :=
  ⟨by decide, (terminal_shows_colours "f(1)".toList (by decide)).1.trans (by decide +kernel)⟩

end Terminal

end Highlighter
