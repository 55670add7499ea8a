/-
# Listings

What stands between the brackets of a call or a container: items with commas between them.
Among the arguments of a call an item of the form `name = value` has three pieces.
-/
import Highlighter.Division
import Highlighter.Text.Scan

namespace Highlighter.Listing

/-! ## 1. Arguments -/

/-- Takes an item of the form `name = value` apart.  The value is on one line and does not
begin with a second equals sign. -/
def named? (item : Text) : Option Tiling := do
  let (name, rest) ← Text.word? item
  let after ← Text.after? ['='] rest.trimStart
  match after.trimStart with
  | [] => none
  | c :: cs =>
    if c ≠ '=' && Text.oneLine cs then
      return .piece name (.gap rest.leading (.piece ['='] (.gap after.leading
        (.piece (c :: cs) .empty))))
    else none

theorem named?_keeps : Tiling.Keeps named? := by
  intro item t h
  simp only [named?, Option.bind_eq_bind, Option.bind_eq_some_iff, Prod.exists] at h
  obtain ⟨name, rest, hname, after, hafter, h⟩ := h
  have hrest := Text.after?_eq_some_iff.mp hafter
  split at h
  · simp at h
  · rename_i c cs hc
    split at h
    · simp only [Option.pure_def, Option.some.injEq] at h
      rw [Text.word?_eq_some hname, ← Text.leading_append_trimStart rest, hrest,
        ← Text.leading_append_trimStart after, hc, ← h]
      simp
    · simp at h

/-- Items and commas, where a named item is broken into its name, the sign and the value. -/
def arguments (text : Text) : Tiling := (Division.itemsAndCommas text).refine named?

@[simp] theorem text_arguments (text : Text) : (arguments text).text = text := by
  rw [arguments, Tiling.text_refine named?_keeps]
  exact Division.text_along _ text

/-! ## 2. Lists -/

/-- Whether a line has a comma right after some other character. -/
def hintedBy : Text → Bool
  | a :: b :: rest => (a != ',' && b == ',') || hintedBy (b :: rest)
  | _ => false

/-- Takes a list apart: one bracketed group into its brackets and its contents, anything else
into items and commas. -/
def parts (text : Text) : Tiling :=
  match bracketed? text with
  | some b => .piece [b.opener] (.trimmed b.body (.piece [b.closer] .empty))
  | none => Division.itemsAndCommas text

@[simp] theorem text_parts (text : Text) : (parts text).text = text := by
  rw [parts]
  split
  · rename_i b h
    rw [bracketed?_eq_some h]
    simp [Bracketed.text]
  · exact Division.text_along _ text

end Highlighter.Listing
