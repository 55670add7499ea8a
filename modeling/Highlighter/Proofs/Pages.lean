/-
# A page keeps its title and its source apart

Two texts that come from outside are written into one page, and each is escaped in a way of its
own.  Neither can end the element that it is written into: the end of the title and the end of the
source stand in the page once each, where the fixed texts put them.  So a page can be taken apart
again, and two pages are equal only if their titles are, and the HTML of their sources.

* `Page.escapeTitle_injective`: a title can be read back, since what is written for a character
  says where it ends;
* `Html.avoids_bareHtml`: no end of an element other than a span begins in highlighted source;
* `Page.title_occursOnce`, `Page.source_occursOnce`: the two places.
-/
import Highlighter.Proofs.HtmlFaithful
import Mathlib.Data.List.Nodup

namespace Highlighter

namespace Page

/-! ## 1. Titles -/

/-- The characters of a title that are escaped, with the names of their references. -/
def titleNames : List (Char × Text) :=
  [('<', "lt".toList), ('>', "gt".toList), ('&', "amp".toList), ('\'', "#39".toList),
   ('"', "quot".toList)]

/-- A character of a title is written as it is, or as a reference by its name. -/
theorem escapeTitleChar_cases (c : Char) :
    (c ∉ titleNames.map Prod.fst ∧ escapeTitleChar c = [c]) ∨
      ∃ name, (c, name) ∈ titleNames ∧ escapeTitleChar c = '&' :: (name ++ [';']) := by
  by_cases hc : c ∈ titleNames.map Prod.fst
  · obtain ⟨⟨d, name⟩, hmem, rfl⟩ := List.mem_map.mp hc
    refine .inr ⟨name, hmem, ?_⟩
    simp only [titleNames, List.mem_cons, Prod.mk.injEq, List.not_mem_nil, or_false] at hmem
    rcases hmem with ⟨rfl, rfl⟩ | ⟨rfl, rfl⟩ | ⟨rfl, rfl⟩ | ⟨rfl, rfl⟩ | ⟨rfl, rfl⟩ <;> rfl
  · refine .inl ⟨hc, ?_⟩
    simp only [titleNames, List.map_cons, List.map_nil, List.mem_cons, List.not_mem_nil, or_false,
      not_or] at hc
    simp [escapeTitleChar, hc]

/-- The names of references hold nothing that would be escaped, nor the sign that ends one. -/
theorem notMem_name {c : Char} {name : Text} (h : (c, name) ∈ titleNames) :
    ';' ∉ name ∧ ∀ d ∈ ['<', '>', '\'', '"'], d ∉ '&' :: (name ++ [';']) := by
  rw [List.forall_mem_cons, List.forall_mem_cons, List.forall_mem_cons, List.forall_mem_singleton]
  simp only [titleNames, List.mem_cons, Prod.mk.injEq, List.not_mem_nil, or_false] at h
  rcases h with ⟨-, rfl⟩ | ⟨-, rfl⟩ | ⟨-, rfl⟩ | ⟨-, rfl⟩ | ⟨-, rfl⟩ <;> decide

/-- Nothing in a written title opens or closes a tag or a quoted value. -/
theorem notMem_escapeTitle (title : Text) :
    ∀ d ∈ ['<', '>', '\'', '"'], d ∉ escapeTitle title := by
  intro d hd hmem
  obtain ⟨c, -, hc⟩ := List.mem_flatMap.mp hmem
  rcases escapeTitleChar_cases c with ⟨hplain, hwrite⟩ | ⟨name, hname, hwrite⟩
  · rw [hwrite, List.mem_singleton] at hc
    subst hc
    simp only [List.mem_cons, List.not_mem_nil, or_false] at hd
    rcases hd with rfl | rfl | rfl | rfl <;> exact hplain (by decide)
  · rw [hwrite] at hc
    exact (notMem_name hname).2 d hd hc

/-- What is written for a character of a title says which one it is, and where it ends. -/
theorem escapeTitleChar_append_inj {c d : Char} {s t : Text}
    (h : escapeTitleChar c ++ s = escapeTitleChar d ++ t) : c = d ∧ s = t := by
  have hamp : '&' ∈ titleNames.map Prod.fst := by decide
  rcases escapeTitleChar_cases c with ⟨hc, hcw⟩ | ⟨name, hname, hcw⟩ <;>
    rcases escapeTitleChar_cases d with ⟨hd, hdw⟩ | ⟨name', hname', hdw⟩ <;>
    rw [hcw, hdw] at h
  · exact List.cons.inj h
  · exact absurd ((List.cons.inj h).1 ▸ hamp) hc
  · exact absurd ((List.cons.inj h).1 ▸ hamp) hd
  · -- the names end at the first semicolon, and no two characters have one name
    simp only [List.cons_append, List.append_assoc, List.cons.injEq, true_and] at h
    obtain ⟨rfl, hrest⟩ := Html.append_inj_of_notMem (notMem_name hname).1 (notMem_name hname').1
      (Html.eq_of_mem_head?_cons _ _) (Html.eq_of_mem_head?_cons _ _) h
    have hnames : (titleNames.map Prod.snd).Nodup := by decide
    exact ⟨congrArg Prod.fst (List.inj_on_of_nodup_map hnames hname hname' rfl),
      (List.cons.inj hrest).2⟩

/-- **A title can be read back** from how it is written. -/
theorem escapeTitle_injective {title title' : Text} (h : escapeTitle title = escapeTitle title') :
    title = title' := by
  have hne (c : Char) (s : Text) : escapeTitleChar c ++ s ≠ [] := by
    rcases escapeTitleChar_cases c with ⟨-, hw⟩ | ⟨name, -, hw⟩ <;> simp [hw]
  simp only [escapeTitle] at h
  induction title generalizing title' with
  | nil =>
    cases title' with
    | nil => rfl
    | cons d title' => exact absurd h.symm (hne d _)
  | cons c title ih =>
    cases title' with
    | nil => exact absurd h (hne c _)
    | cons d title' =>
      obtain ⟨rfl, hrest⟩ := escapeTitleChar_append_inj h
      rw [ih hrest]

end Page

/-! ## 2. Highlighted source -/

namespace Html

variable {d : Char} {ps : Text}

theorem avoids_spanEnd (hd : d ≠ 's') :
    Text.Avoids ('<' :: '/' :: d :: ps) ('<' :: '/' :: 's' :: "pan>".toList) := by
  refine ⟨?_, Text.avoids_of_notMem (by decide)⟩
  intro rest h
  simp only [List.cons_append, List.cons_prefix_cons] at h
  exact hd h.2.2.1

/-- Only spans end in highlighted items. -/
theorem Items.avoids_end (hd : d ≠ 's') {s : Text} (h : Items s) :
    Text.Avoids ('<' :: '/' :: d :: ps) s := by
  refine h.avoids (fun _ plain => Text.avoids_of_notMem plain.noOpening) ?_ (avoids_spanEnd hd)
  intro name hname
  have htag : '<' ∉ 's' :: ("pan class='python ".toList ++ (name ++ "'>".toList)) := by
    simp [(notMem_of_mem_styleNames hname).1]
  exact Text.avoids_cons_cons (by decide) htag

theorem avoids_end_segment (hd : d ≠ 's') (line : Text) :
    Text.Avoids ('<' :: '/' :: d :: ps) (segment line) := by
  have hwide : '<' ∉ (List.replicate line.indent.length "&emsp;".toList).flatten := by simp
  refine Text.avoids_append (Text.avoids_cons_cons (by decide) (by decide)) ?_
  refine Text.avoids_append (Text.avoids_of_notMem hwide) ?_
  exact Text.avoids_append (avoids_spanEnd hd) ((items_ofLine line.trim).avoids_end hd)

/-- **Only spans end in highlighted source.** -/
theorem avoids_bareHtml (hd : d ≠ 's') (source : Text) :
    Text.Avoids ('<' :: '/' :: d :: ps) (bareHtml source) := by
  rw [bareHtml_eq_flatten]
  refine Text.avoids_flatten ?_
  intro out hout
  obtain ⟨s, hs, rfl⟩ := List.mem_map.mp hout
  obtain ⟨line, -, rfl⟩ := List.mem_map.mp hs
  exact Text.avoids_append (avoids_end_segment hd line)
    (Text.avoids_cons_cons (by decide) (by decide))

end Html

/-! ## 3. The page -/

namespace Page

/-- The page from the end of the title to the highlighted source. -/
def style : Text :=
  "\n<style>\n".toList ++ stylesheet ++
    "\n</style>\n</head>\n<body>\n<div class=\"python\">\n".toList

theorem middle_eq : middle = "</title>".toList ++ style := by
  unfold middle style
  simp only [← List.append_assoc]
  rfl

theorem notMem_stylesheet : '<' ∉ stylesheet := by decide +kernel

/-- Where no tag begins in the stylesheet, the tags around it are all there is to look at. -/
theorem avoids_style {ps : Text} (hbefore : Text.clashes ('<' :: ps) "\n<style>\n".toList = true)
    (hafter : Text.clashes ('<' :: ps)
      "\n</style>\n</head>\n<body>\n<div class=\"python\">\n".toList = true) :
    Text.Avoids ('<' :: ps) style := by
  refine Text.avoids_append ?_ (Text.avoids_of_clashes hafter)
  exact Text.avoids_append (Text.avoids_of_clashes hbefore)
    (Text.avoids_of_notMem notMem_stylesheet)

theorem bottom_eq : bottom = ['\n'] ++ ("</div>".toList ++ "\n</body>\n</html>\n".toList) := rfl

/-- **The title ends once**, where the fixed text behind it begins. -/
theorem title_occursOnce (title source : Text) :
    Text.OccursOnce "</title>".toList (top ++ escapeTitle title) (page title source) := by
  have htitle : '<' ∉ escapeTitle title := notMem_escapeTitle title '<' (by decide)
  have hbefore : Text.Avoids "</title>".toList (top ++ escapeTitle title) :=
    Text.avoids_append (Text.avoids_of_clashes (by decide +kernel)) (Text.avoids_of_notMem htitle)
  have hafter : Text.Avoids "</title>".toList
      ("</title>".toList.tail ++ (style ++ (bareHtml source ++ bottom))) := by
    refine Text.avoids_append (Text.avoids_of_notMem (by decide)) ?_
    refine Text.avoids_append (avoids_style (by decide) (by decide)) ?_
    exact Text.avoids_append (Html.avoids_bareHtml (by decide) source)
      (Text.avoids_of_clashes (by decide))
  have honce := Text.occursOnce (by decide) hbefore hafter
  rw [page, middle_eq]
  simpa only [List.append_assoc] using honce

/-- **The source ends once**, in the fixed text behind it. -/
theorem source_occursOnce (title source : Text) :
    Text.OccursOnce "</div>".toList
      (top ++ (escapeTitle title ++ (middle ++ (bareHtml source ++ ['\n']))))
      (page title source) := by
  have htitle : '<' ∉ escapeTitle title := notMem_escapeTitle title '<' (by decide)
  have hbefore : Text.Avoids "</div>".toList
      (top ++ (escapeTitle title ++ (middle ++ (bareHtml source ++ ['\n'])))) := by
    refine Text.avoids_append (Text.avoids_of_clashes (by decide +kernel)) ?_
    refine Text.avoids_append (Text.avoids_of_notMem htitle) ?_
    rw [middle_eq]
    refine Text.avoids_append (Text.avoids_append (Text.avoids_of_clashes (by decide))
      (avoids_style (by decide) (by decide))) ?_
    exact Text.avoids_append (Html.avoids_bareHtml (by decide) source)
      (Text.avoids_of_notMem (by decide))
  have hafter : Text.Avoids "</div>".toList
      ("</div>".toList.tail ++ "\n</body>\n</html>\n".toList) :=
    Text.avoids_of_clashes (by decide +kernel)
  have honce := Text.occursOnce (by decide) hbefore hafter
  rw [page, bottom_eq]
  simpa only [List.append_assoc] using honce

/-- **Pages are equal** only if their titles are, and the HTML of their sources. -/
theorem page_eq_iff {title title' source source' : Text} :
    page title source = page title' source' ↔
      title = title' ∧ bareHtml source = bareHtml source' := by
  constructor
  · intro h
    -- the title of the one page ends in the other as well, and there is one place for that
    have hend : ∃ rest, page title source
        = (top ++ escapeTitle title') ++ ("</title>".toList ++ rest) :=
      h ▸ (title_occursOnce title' source' _).mpr rfl
    have htitle := List.append_cancel_left ((title_occursOnce title source _).mp hend)
    obtain rfl := escapeTitle_injective htitle
    exact ⟨rfl, List.append_cancel_right (List.append_cancel_left (List.append_cancel_left
      (List.append_cancel_left h)))⟩
  · rintro ⟨rfl, hsource⟩
    rw [page, page, hsource]

/-- **A page keeps its title and its source apart.**  It is the title and the HTML of the source
between three fixed texts.  In a title there is nothing left that opens or closes a tag or a
quoted value; the ends of the title and of the source occur once each, the one right behind the
title and the other right behind the source and its line break; and a page determines its title
and the HTML of its source. -/
theorem page_keeps_parts_apart (title source : Text) :
    page title source
      = top ++ (escapeTitle title ++ (middle ++ (bareHtml source ++ bottom))) ∧
    ('<' ∉ escapeTitle title ∧ '>' ∉ escapeTitle title ∧
      '\'' ∉ escapeTitle title ∧ '"' ∉ escapeTitle title) ∧
    Text.OccursOnce "</title>".toList (top ++ escapeTitle title) (page title source) ∧
    Text.OccursOnce "</div>".toList
      (top ++ (escapeTitle title ++ (middle ++ (bareHtml source ++ ['\n']))))
      (page title source) ∧
    ∀ title' source' : Text, page title source = page title' source' ↔
      title = title' ∧ bareHtml source = bareHtml source' := by
  have hplain := notMem_escapeTitle title
  exact ⟨rfl, ⟨hplain _ (by simp), hplain _ (by simp), hplain _ (by simp), hplain _ (by simp)⟩,
    title_occursOnce title source, source_occursOnce title source, fun _ _ => page_eq_iff⟩

end Page

end Highlighter
