/-
# Markup

Highlighted source is a forest.  A leaf is a run of source text as it stands; a group puts a
category over its children.  Reading the leaves from left to right, by `source`, gives back
the text that was highlighted.
-/
import Highlighter.Category

namespace Highlighter

/-- A run of source text, or a category over a list of markup. -/
inductive Markup where
  | run (text : Text)
  | group (category : Category) (children : List Markup)
  deriving Repr, Inhabited

namespace Markup

/-! ## 1. Building -/

/-- A category over a single run of text. -/
def single (category : Category) (text : Text) : Markup := .group category [.run text]

/-- A run of text as a list, which is empty if the text is. -/
def ofRun (text : Text) : List Markup := if text.isEmpty then [] else [.run text]

/-! ## 2. Reading -/

/-- The category over some markup.  A run of text has none of its own. -/
def category : Markup → Category
  | .run _ => .neutral
  | .group c _ => c

mutual

/-- The text under some markup. -/
def source : Markup → Text
  | .run text => text
  | .group _ children => sourceAll children

/-- The text under a list of markup. -/
def sourceAll : List Markup → Text
  | [] => []
  | m :: ms => m.source ++ sourceAll ms

end

@[simp] theorem source_single (c : Category) (text : Text) : (single c text).source = text := by
  simp [single, source, sourceAll]

@[simp] theorem sourceAll_ofRun (text : Text) : sourceAll (ofRun text) = text := by
  cases text <;> simp [ofRun, source, sourceAll]

@[simp] theorem sourceAll_append (ms ns : List Markup) :
    sourceAll (ms ++ ns) = sourceAll ms ++ sourceAll ns := by
  induction ms with
  | nil => simp [sourceAll]
  | cons m ms ih => simp [sourceAll, ih]

theorem sourceAll_flatMap {α : Type} {f : α → List Markup} {g : α → Text} {l : List α}
    (h : ∀ a ∈ l, sourceAll (f a) = g a) : sourceAll (l.flatMap f) = l.flatMap g := by
  induction l with
  | nil => rfl
  | cons a l ih =>
    rw [List.flatMap_cons, sourceAll_append, h a List.mem_cons_self,
      ih fun b hb => h b (List.mem_cons_of_mem a hb), List.flatMap_cons]

/-! ## 3. Equality -/

mutual

/-- Decides whether two markups are equal. -/
def decEq : (m n : Markup) → Decidable (m = n)
  | .run s, .run t =>
    if h : s = t then isTrue (by rw [h]) else isFalse (by simpa using h)
  | .run _, .group _ _ => isFalse (by simp)
  | .group _ _, .run _ => isFalse (by simp)
  | .group c ms, .group d ns =>
    match decEqAll ms ns with
    | isTrue h =>
      if hc : c = d then isTrue (by rw [hc, h]) else isFalse (by simp [hc])
    | isFalse h => isFalse (by simp [h])

/-- Decides whether two lists of markup are equal. -/
def decEqAll : (ms ns : List Markup) → Decidable (ms = ns)
  | [], [] => isTrue rfl
  | [], _ :: _ => isFalse (by simp)
  | _ :: _, [] => isFalse (by simp)
  | m :: ms, n :: ns =>
    match decEq m n with
    | isFalse h => isFalse (by simp [h])
    | isTrue h =>
      match decEqAll ms ns with
      | isTrue h' => isTrue (by rw [h, h'])
      | isFalse h' => isFalse (by simp [h'])

end

instance : DecidableEq Markup := decEq

end Markup

end Highlighter
