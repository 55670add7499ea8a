/-
# Contexts

Separators count only outside brackets and string literals.  A `Context` is what has to be
remembered about the text read so far: how many brackets are open, and whether a literal is.
The kinds of bracket are not compared, and a closing bracket with nothing to close is passed
over.

* `splitClosing?` divides a text where everything that is open gets closed.
* `bracketed?` reads a text that is one bracketed group as a whole.
* `closeOffset` says where the group closes that begins at a byte offset.
-/
import Highlighter.Text.Offset

namespace Highlighter

/-! ## 1. What is open -/

/-- Where a reader stands with respect to string literals. -/
inductive Quoting where
  /-- Outside every literal. -/
  | outside
  /-- Inside a literal that ends at the next `mark`. -/
  | inside (mark : Char)
  /-- Inside such a literal, just after a backslash. -/
  | escaped (mark : Char)
  deriving Repr, DecidableEq

/-- What is open after reading part of a text. -/
structure Context where
  depth : Nat
  quoting : Quoting
  deriving Repr, DecidableEq

namespace Context

/-- Nothing has been read: no bracket and no literal is open. -/
def start : Context := ⟨0, .outside⟩

/-- Reads one more character. -/
def read (k : Context) (c : Char) : Context :=
  match k.quoting with
  | .escaped mark => { k with quoting := .inside mark }
  | .inside mark =>
    if c = '\\' then { k with quoting := .escaped mark }
    else if c = mark then { k with quoting := .outside }
    else k
  | .outside =>
    if isQuote c then { k with quoting := .inside c }
    else if isOpener c then { k with depth := k.depth + 1 }
    else if isCloser c then { k with depth := k.depth - 1 }
    else k

/-- Reads a whole text. -/
def readAll (k : Context) (t : Text) : Context := t.foldl read k

/-- Whether everything that was opened has been closed. -/
def settled (k : Context) : Bool := k.quoting == .outside && k.depth == 0

/-- Whether a character read in this context stands outside all brackets and literals.
Quotes and brackets themselves never do. -/
def exposes (k : Context) (c : Char) : Bool :=
  k.settled && !isQuote c && !isOpener c && !isCloser c

@[simp] theorem readAll_nil (k : Context) : k.readAll [] = k := rfl

@[simp] theorem readAll_cons (k : Context) (c : Char) (cs : Text) :
    k.readAll (c :: cs) = (k.read c).readAll cs := rfl

theorem readAll_append (k : Context) (s t : Text) :
    k.readAll (s ++ t) = (k.readAll s).readAll t := List.foldl_append

/-! ## 2. Where a group closes -/

/-- Divides a text at the first closing bracket after which everything is closed: what stands
before it, the bracket, and what follows. -/
def splitClosing? (k : Context) : Text → Option (Text × Char × Text)
  | [] => none
  | c :: cs =>
    if (k.read c).settled && isCloser c then some ([], c, cs)
    else (splitClosing? (k.read c) cs).map fun (before, d, rest) => (c :: before, d, rest)

/-- What `splitClosing?` divides is the whole text. -/
theorem splitClosing?_eq_some {k : Context} {t before rest : Text} {d : Char}
    (h : k.splitClosing? t = some (before, d, rest)) : t = before ++ d :: rest := by
  induction t generalizing k before with
  | nil => simp [splitClosing?] at h
  | cons c cs ih =>
    rw [splitClosing?] at h
    split at h
    · simp_all
    · simp only [Option.map_eq_some_iff, Prod.exists, Prod.mk.injEq] at h
      obtain ⟨b, e, r, hb, rfl, rfl, rfl⟩ := h
      rw [ih hb, List.cons_append]

/-- What `splitClosing?` divides at is a closing bracket. -/
theorem isCloser_of_splitClosing? {k : Context} {t before rest : Text} {d : Char}
    (h : k.splitClosing? t = some (before, d, rest)) : isCloser d = true := by
  induction t generalizing k before with
  | nil => simp [splitClosing?] at h
  | cons c cs ih =>
    rw [splitClosing?] at h
    split at h
    · simp_all
    · simp only [Option.map_eq_some_iff, Prod.exists, Prod.mk.injEq] at h
      obtain ⟨b, e, r, hb, rfl, rfl, rfl⟩ := h
      exact ih hb

end Context

/-! ## 3. Bracketed groups -/

/-- A text that is one bracketed group. -/
structure Bracketed where
  opener : Char
  body : Text
  closer : Char
  deriving Repr, DecidableEq

/-- The group as written. -/
def Bracketed.text (b : Bracketed) : Text := b.opener :: (b.body ++ [b.closer])

/-- Reads a text that begins with an opening bracket and ends where that bracket closes. -/
def bracketed? : Text → Option Bracketed
  | [] => none
  | c :: cs =>
    if isOpener c then
      match (Context.start.read c).splitClosing? cs with
      | some (body, d, []) => some ⟨c, body, d⟩
      | _ => none
    else none

theorem bracketed?_eq_some {t : Text} {b : Bracketed} (h : bracketed? t = some b) :
    t = b.text := by
  cases t with
  | nil => simp [bracketed?] at h
  | cons c cs =>
    rw [bracketed?] at h
    split at h
    · split at h
      · rename_i body d hs
        rw [Option.some.injEq] at h
        rw [← h, Context.splitClosing?_eq_some hs, Bracketed.text]
      · simp at h
    · simp at h

/-- A bracketed group stands between an opening and a closing bracket. -/
theorem brackets_of_bracketed? {t : Text} {b : Bracketed} (h : bracketed? t = some b) :
    isOpener b.opener = true ∧ isCloser b.closer = true := by
  cases t with
  | nil => simp [bracketed?] at h
  | cons c cs =>
    rw [bracketed?] at h
    split at h
    · rename_i hc
      split at h
      · rename_i body d hs
        rw [Option.some.injEq] at h
        rw [← h]
        exact ⟨hc, Context.isCloser_of_splitClosing? hs⟩
      · simp at h
    · simp at h

/-- The byte offset of the last bracket of a text that is one bracketed group. -/
def closerOffset? (t : Text) : Option Nat :=
  (bracketed? t).map fun b => Text.byteSize (b.opener :: b.body)

/-- The byte offset at which the group closes that begins at the byte offset `start`, if it
closes at all.  Fails if no character of the text ends or begins at `start`. -/
def closeOffset (t : Text) (start : Nat) : Except OffsetError (Option Nat) :=
  (t.splitAtByte start).map fun (_, rest) =>
    (Context.start.splitClosing? rest).map fun (before, _, _) => start + Text.byteSize before

end Highlighter
