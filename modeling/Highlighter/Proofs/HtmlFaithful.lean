/-
# HTML tells markup apart

Two lists of markup are written alike exactly if they have one normal form.  What is lost in HTML
is only what makes no difference to a reader: a neutral group writes its children and nothing
else, an empty run writes nothing, and two runs side by side write what one run would.

* `Markup.normal`: markup without neutral groups and empty runs, and with adjacent runs joined;
* `writeAll_normal`: the normal form is written like the markup itself;
* `writeAll_inj`: HTML determines markup in normal form, and where it ends.  A run
  ends at the first `<`, since none is left in it by escaping; the name of an element ends at its
  first quote; and what an element holds ends at a tag that begins no element.
-/
import Highlighter.Proofs.HtmlReading

namespace Highlighter

open Category (isStyled)

/-- Whether a category can stand inside a line: all but the indentation and the end of a line. -/
def Category.isInline (c : Category) : Bool := c != .indent && c != .newline

theorem Category.eq_of_styleName? {c d : Category} (hc : c.isStyled = true)
    (h : c.styleName? = d.styleName?) : c = d := by
  cases c <;> cases d <;> simp_all [isStyled, styleName?]

theorem Category.isStyled_of_isInline {c : Category} (hc : c.isInline = true)
    (hne : c ≠ .neutral) : c.isStyled = true := by
  cases c <;> simp_all [isInline, isStyled, styleName?]

namespace Markup

/-! ## 1. The normal form -/

/-- Puts a run of text in front of a list of markup.  It joins a run that stands there, and an
empty one is dropped. -/
def putRun (text : Text) : List Markup → List Markup
  | .run next :: rest => .run (text ++ next) :: rest
  | rest => ofRun text ++ rest

mutual

/-- Puts some markup in front of a list, with its own children in normal form.  The children of a
neutral group take its place. -/
def put : Markup → List Markup → List Markup
  | .run text, rest => putRun text rest
  | .group c children, rest =>
    if c = .neutral then putAll children rest else .group c (putAll children []) :: rest

/-- Puts a list of markup in front of another. -/
def putAll : List Markup → List Markup → List Markup
  | [], rest => rest
  | m :: ms, rest => put m (putAll ms rest)

end

/-- **The normal form** of a list of markup: at every level neutral groups are replaced by their
children, empty runs are dropped and adjacent runs are joined. -/
def normal (ms : List Markup) : List Markup := putAll ms []

/-- Whether a list of markup begins with a run of text. -/
def beginsWithRun : List Markup → Bool
  | .run _ :: _ => true
  | _ => false

/-- Markup in normal form. -/
inductive Normal : List Markup → Prop
  | nil : Normal []
  /-- A run is not empty, and no run follows it. -/
  | run {text : Text} {ms : List Markup} (nonempty : text ≠ [])
      (apart : beginsWithRun ms = false) (more : Normal ms) : Normal (.run text :: ms)
  /-- A group has a style, and its children are in normal form. -/
  | group {c : Category} {children ms : List Markup} (styled : c.isStyled = true)
      (inner : Normal children) (more : Normal ms) : Normal (.group c children :: ms)

theorem Normal.putRun {ms : List Markup} (h : Normal ms) (text : Text) :
    Normal (putRun text ms) := by
  have hfront (hapart : beginsWithRun ms = false) : Normal (ofRun text ++ ms) := by
    unfold ofRun
    split
    · exact h
    · rename_i hne
      exact .run (by simpa using hne) hapart h
  cases h with
  | nil => exact hfront rfl
  | run nonempty apart more => exact .run (by simp [nonempty]) apart more
  | group => exact hfront rfl

mutual

theorem normal_put : (m : Markup) → everyCategory Category.isInline m = true →
    {rest : List Markup} → Normal rest → Normal (put m rest)
  | .run text, _, rest, hrest => by
    rw [put]
    exact hrest.putRun text
  | .group c children, h, rest, hrest => by
    simp only [everyCategory, Bool.and_eq_true] at h
    rw [put]
    split
    · exact normal_putAll children h.2 hrest
    · rename_i hne
      exact .group (Category.isStyled_of_isInline h.1 hne) (normal_putAll children h.2 .nil) hrest

/-- What is put in front of a normal form, in its own normal form, is a normal form. -/
theorem normal_putAll : (ms : List Markup) → everyCategoryAll Category.isInline ms = true →
    {rest : List Markup} → Normal rest → Normal (putAll ms rest)
  | [], _, rest, hrest => by
    rw [putAll]
    exact hrest
  | m :: ms, h, rest, hrest => by
    simp only [everyCategoryAll, Bool.and_eq_true] at h
    rw [putAll]
    exact normal_put m h.1 (normal_putAll ms h.2 hrest)

end

theorem normal_normal {ms : List Markup} (h : everyCategoryAll Category.isInline ms = true) :
    Normal (normal ms) := normal_putAll ms h .nil

end Markup

/-! ## 2. The normal form is written alike -/

namespace Html

open Markup

theorem write_run (text : Text) : Renderer.html.write (.run text) = escape text := by
  rw [Renderer.write]
  rfl

theorem writeAll_ofRun (text : Text) : Renderer.html.writeAll (ofRun text) = escape text := by
  unfold ofRun
  split
  · rename_i h
    rw [List.isEmpty_iff.mp h]
    rfl
  · rw [Renderer.writeAll, write_run]
    exact List.append_nil _

theorem writeAll_putRun (text : Text) (rest : List Markup) :
    Renderer.html.writeAll (putRun text rest) = escape text ++ Renderer.html.writeAll rest := by
  unfold putRun
  split
  · rw [Renderer.writeAll, Renderer.writeAll, write_run, write_run, escape_append,
      List.append_assoc]
  · rw [Renderer.writeAll_append, writeAll_ofRun]

theorem dress_neutral (content : Text) : dress .neutral content = content := rfl

mutual

theorem writeAll_put : (m : Markup) → (rest : List Markup) →
    Renderer.html.writeAll (put m rest) = Renderer.html.write m ++ Renderer.html.writeAll rest
  | .run text, rest => by rw [put, writeAll_putRun, write_run]
  | .group c children, rest => by
    rw [put, write_group]
    split
    · rename_i hneutral
      rw [writeAll_putAll children, hneutral, dress_neutral]
    · rw [Renderer.writeAll, write_group, writeAll_putAll children [], Renderer.writeAll,
        List.append_nil]

theorem writeAll_putAll : (ms rest : List Markup) → Renderer.html.writeAll (putAll ms rest)
    = Renderer.html.writeAll ms ++ Renderer.html.writeAll rest
  | [], rest => by
    rw [putAll, Renderer.writeAll]
    rfl
  | m :: ms, rest => by
    rw [putAll, writeAll_put m, writeAll_putAll ms, Renderer.writeAll, List.append_assoc]

end

/-- **The normal form is written like the markup itself.** -/
theorem writeAll_normal (ms : List Markup) :
    Renderer.html.writeAll (normal ms) = Renderer.html.writeAll ms := by
  rw [normal, writeAll_putAll, Renderer.writeAll, List.append_nil]

/-! ## 3. Where things end -/

theorem eq_of_mem_head?_cons (sep : Char) (s : Text) : ∀ c ∈ (sep :: s).head?, c = sep := by
  intro c hc
  exact (Option.some.inj hc).symm

/-- Two texts without a character, each followed by nothing or by that character, end at the
same place. -/
theorem append_inj_of_notMem {sep : Char} {a b s t : Text} (ha : sep ∉ a) (hb : sep ∉ b)
    (hs : ∀ c ∈ s.head?, c = sep) (ht : ∀ c ∈ t.head?, c = sep) (h : a ++ s = b ++ t) :
    a = b ∧ s = t := by
  induction a generalizing b with
  | nil =>
    cases b with
    | nil => exact ⟨rfl, h⟩
    | cons d b =>
      rw [List.nil_append] at h
      have hd : d = sep := hs d (by simp [h])
      exact absurd (by simp [hd]) hb
  | cons c a ih =>
    cases b with
    | nil =>
      rw [List.nil_append] at h
      have hc : c = sep := ht c (by simp [← h])
      exact absurd (by simp [hc]) ha
    | cons d b =>
      rw [List.cons_append, List.cons_append, List.cons.injEq] at h
      obtain ⟨rfl, h⟩ := h
      rw [List.mem_cons, not_or] at ha hb
      obtain ⟨rfl, rfl⟩ := ih ha.2 hb.2 h
      exact ⟨rfl, rfl⟩

/-- What may follow the children of a group: nothing, or the end of an element. -/
def Ends (s : Text) : Prop := s = [] ∨ ∃ rest, s = "</span>".toList ++ rest

theorem Ends.head? {s : Text} (h : Ends s) : ∀ c ∈ s.head?, c = '<' := by
  rcases h with rfl | ⟨rest, rfl⟩
  · simp
  · exact eq_of_mem_head?_cons _ _

theorem quote_notMem_of_mem_styleNames {name : Text} (h : name ∈ styleNames) :
    '\'' ∉ name := by
  simp only [styleNames, List.map_cons, List.map_nil, List.mem_cons, List.not_mem_nil,
    or_false] at h
  rcases h with rfl | rfl | rfl | rfl | rfl | rfl | rfl <;> decide

/-- How a styled group and what follows it are written: the name of the element up to its first
quote, and the rest. -/
theorem exists_writeAll_group {c : Category} (hc : c.isStyled = true) (children : List Markup)
    (ms : List Markup) (s : Text) :
    ∃ name, c.styleName? = some name ∧ '\'' ∉ name ∧
      Renderer.html.writeAll (.group c children :: ms) ++ s
        = "<span class='python ".toList ++ (name ++ '\'' :: '>' ::
          (Renderer.html.writeAll children ++ ("</span>".toList ++
            (Renderer.html.writeAll ms ++ s)))) := by
  obtain ⟨name, hname⟩ := Option.isSome_iff_exists.mp hc
  refine ⟨name, hname, quote_notMem_of_mem_styleNames (mem_styleNames hname), ?_⟩
  rw [Renderer.writeAll, write_group, dress_of_styled hname]
  simp only [List.append_assoc]
  rfl

theorem escape_injective {s t : Text} (h : escape s = escape t) : s = t := by
  rw [← unescape_escape s, h, unescape_escape]

theorem escape_ne_nil {text : Text} (h : text ≠ []) : escape text ≠ [] := by
  intro hnil
  exact h (escape_injective hnil)

/-- A run that is not empty is written as something that begins with no tag. -/
theorem head?_writeAll_run {text : Text} (h : text ≠ []) (ms : List Markup) (s : Text) :
    ∃ c, (Renderer.html.writeAll (.run text :: ms) ++ s).head? = some c ∧ c ≠ '<' := by
  obtain ⟨c, cs, hescape⟩ := List.exists_cons_of_ne_nil (escape_ne_nil h)
  refine ⟨c, ?_, ?_⟩
  · rw [Renderer.writeAll, write_run, hescape]
    rfl
  · rintro rfl
    exact (plainRun_escape text).noOpening (by simp [hescape])

/-- After a run comes a tag or nothing. -/
theorem head?_of_apart {ms : List Markup} (hms : Normal ms) (h : beginsWithRun ms = false)
    {s : Text} (hs : Ends s) : ∀ c ∈ (Renderer.html.writeAll ms ++ s).head?, c = '<' := by
  cases hms with
  | nil => exact hs.head?
  | run => exact absurd h (by simp [beginsWithRun])
  | @group c children ms styled _ _ =>
    obtain ⟨name, -, -, hwrite⟩ := exists_writeAll_group styled children ms s
    rw [hwrite]
    exact eq_of_mem_head?_cons _ _

theorem run_ne_of_head? {text : Text} (h : text ≠ []) (ms : List Markup) {s t : Text}
    (ht : ∀ c ∈ t.head?, c = '<') : Renderer.html.writeAll (.run text :: ms) ++ s ≠ t := by
  intro heq
  obtain ⟨c, hc, hne⟩ := head?_writeAll_run h ms s
  rw [heq] at hc
  exact hne (ht c hc)

/-- The tag of an element is no end of one. -/
theorem group_ne_of_ends {c : Category} (hc : c.isStyled = true) (children ms : List Markup)
    (s : Text) {t : Text} (ht : Ends t) :
    Renderer.html.writeAll (.group c children :: ms) ++ s ≠ t := by
  obtain ⟨name, -, -, hwrite⟩ := exists_writeAll_group hc children ms s
  rw [hwrite]
  rcases ht with rfl | ⟨rest, rfl⟩
  · exact List.cons_ne_nil _ _
  · intro heq
    -- the second characters differ
    have hsecond := congrArg (fun u : Text => u[1]?) heq
    exact absurd hsecond (by simp)

/-! ## 4. HTML determines the normal form -/

/-- **HTML determines markup in normal form, and where it ends.** -/
theorem writeAll_inj {ms ns : List Markup} (hms : Normal ms) (hns : Normal ns) {s t : Text}
    (hs : Ends s) (ht : Ends t)
    (h : Renderer.html.writeAll ms ++ s = Renderer.html.writeAll ns ++ t) : ms = ns ∧ s = t := by
  induction hms generalizing ns s t with
  | nil =>
    rw [Renderer.writeAll, List.nil_append] at h
    cases hns with
    | nil => exact ⟨rfl, h⟩
    | run nonempty _ _ => exact absurd h.symm (run_ne_of_head? nonempty _ hs.head?)
    | group styled _ _ => exact absurd h.symm (group_ne_of_ends styled _ _ _ hs)
  | @run text ms nonempty apart more ih =>
    cases hns with
    | nil => exact absurd h (run_ne_of_head? nonempty _ ht.head?)
    | @run text' ns nonempty' apart' more' =>
      rw [Renderer.writeAll, Renderer.writeAll, write_run, write_run, List.append_assoc,
        List.append_assoc] at h
      obtain ⟨htext, hrest⟩ := append_inj_of_notMem (plainRun_escape text).noOpening
        (plainRun_escape text').noOpening (head?_of_apart more apart hs)
        (head?_of_apart more' apart' ht) h
      obtain ⟨rfl, rfl⟩ := ih more' hs ht hrest
      rw [escape_injective htext]
      exact ⟨rfl, rfl⟩
    | @group c children ns styled inner more' =>
      exact absurd h (run_ne_of_head? nonempty _
        (head?_of_apart (.group styled inner more') rfl ht))
  | @group c children ms styled inner more ihinner ihmore =>
    cases hns with
    | nil => exact absurd h (group_ne_of_ends styled _ _ _ ht)
    | run nonempty' _ _ =>
      exact absurd h.symm (run_ne_of_head? nonempty' _
        (head?_of_apart (.group styled inner more) rfl hs))
    | @group d children' ns styled' inner' more' =>
      obtain ⟨name, hname, hquote, hwrite⟩ := exists_writeAll_group styled children ms s
      obtain ⟨name', hname', hquote', hwrite'⟩ := exists_writeAll_group styled' children' ns t
      rw [hwrite, hwrite'] at h
      obtain ⟨rfl, hafter⟩ := append_inj_of_notMem hquote hquote'
        (eq_of_mem_head?_cons _ _) (eq_of_mem_head?_cons _ _) (List.append_cancel_left h)
      have hcategory : c = d := Category.eq_of_styleName? styled (hname.trans hname'.symm)
      rw [List.cons.injEq, List.cons.injEq] at hafter
      obtain ⟨rfl, hend⟩ := ihinner inner' (.inr ⟨_, rfl⟩) (.inr ⟨_, rfl⟩) hafter.2.2
      obtain ⟨rfl, rfl⟩ := ihmore more' hs ht (List.append_cancel_left hend)
      rw [hcategory]
      exact ⟨rfl, rfl⟩

/-- **HTML loses no markup.**  Two lists of markup, without indentations and ends of lines, are
written alike exactly if they have one normal form: if they are equal once the children of
neutral groups have taken their places, empty runs are dropped and adjacent runs are joined. -/
theorem html_loses_no_markup (ms ns : List Markup)
    (hms : everyCategoryAll Category.isInline ms = true)
    (hns : everyCategoryAll Category.isInline ns = true) :
    Renderer.html.writeAll ms = Renderer.html.writeAll ns ↔ normal ms = normal ns := by
  constructor
  · intro h
    have hwritten : Renderer.html.writeAll (normal ms) ++ []
        = Renderer.html.writeAll (normal ns) ++ [] := by
      rw [writeAll_normal, writeAll_normal, h]
    exact (writeAll_inj (normal_normal hms) (normal_normal hns) (.inl rfl) (.inl rfl) hwritten).1
  · intro h
    rw [← writeAll_normal ms, h, writeAll_normal]

/-- A call whose name is in a neutral group and is cut in two is written like the same call in
one run; with another category over the argument it is not. -/
theorem html_loses_no_markup_call :
    everyCategoryAll Category.isInline
        [.group .neutral [.run "f".toList, .run []], .run "(".toList,
          single .numeric "1".toList, .run ")".toList] = true ∧
      Renderer.html.writeAll [.group .neutral [.run "f".toList, .run []], .run "(".toList,
          single .numeric "1".toList, .run ")".toList]
        = Renderer.html.writeAll [.run "f(".toList, single .numeric "1".toList,
          .run ")".toList] ∧
      Renderer.html.writeAll [.run "f(".toList, single .numeric "1".toList, .run ")".toList]
        ≠ Renderer.html.writeAll [.run "f(".toList, single .default "1".toList,
          .run ")".toList] := by
  refine ⟨by decide, (html_loses_no_markup _ _ (by decide) (by decide)).mpr (by decide), ?_⟩
  intro h
  exact absurd ((html_loses_no_markup _ _ (by decide) (by decide)).mp h) (by decide)

end Html

end Highlighter
