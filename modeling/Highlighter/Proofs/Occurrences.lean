/-
# Occurrences of a text in a text

How a reader without a grammar takes output apart: it looks for a fixed text from left to
right, cuts at every occurrence (`Text.cutAt`), or puts something else in its place
(`Text.replaceAll`).  Occurrences do not overlap; after one, the search goes on behind it.

Where no occurrence begins in a part of a text, whatever follows that part, the part is passed
over (`Text.Avoids`).  This is a property that two texts in a row inherit, so it is settled for
a whole output by settling it for the bits the output is made of.
-/
import Highlighter.Text.Basic

namespace Highlighter.Text

/-! ## 1. Cutting and replacing -/

/-- Cuts a text at every occurrence of `pat`, after passing over `skip` characters. -/
def cutFrom (pat : Text) : (skip : Nat) → Text → List Text
  | _, [] => [[]]
  | skip + 1, _ :: cs => cutFrom pat skip cs
  | 0, c :: cs =>
    if pat.isPrefixOf (c :: cs) then [] :: cutFrom pat (pat.length - 1) cs
    else (cutFrom pat 0 cs).modifyHead (c :: ·)

/-- Cuts a text at every occurrence of `pat`, which is dropped. -/
def cutAt (pat t : Text) : List Text := cutFrom pat 0 t

/-- Puts `new` in the place of every occurrence of `pat`. -/
def replaceAll (pat new t : Text) : Text := new.intercalate (cutAt pat t)

@[simp] theorem cutAt_nil (pat : Text) : cutAt pat [] = [[]] := by
  simp [cutAt, cutFrom]

/-- What is passed over has no say in the cut. -/
theorem cutFrom_append (pat s t : Text) : cutFrom pat s.length (s ++ t) = cutAt pat t := by
  induction s with
  | nil => rfl
  | cons c s ih =>
    rw [List.length_cons, List.cons_append, cutFrom]
    exact ih

theorem cutAt_append_self {pat : Text} (hpat : pat ≠ []) (t : Text) :
    cutAt pat (pat ++ t) = [] :: cutAt pat t := by
  obtain ⟨p, ps, rfl⟩ := List.exists_cons_of_ne_nil hpat
  have hprefix : (p :: ps).isPrefixOf (p :: (ps ++ t)) = true :=
    List.isPrefixOf_iff_prefix.mpr (List.prefix_append (p :: ps) t)
  have hskip : cutFrom (p :: ps) ps.length (ps ++ t) = cutAt (p :: ps) t :=
    cutFrom_append _ ps t
  rw [cutAt, List.cons_append, cutFrom, if_pos hprefix, List.length_cons, Nat.add_sub_cancel,
    hskip]

theorem cutAt_cons_of_not_prefix {pat t : Text} {c : Char} (h : ¬ pat <+: c :: t) :
    cutAt pat (c :: t) = (cutAt pat t).modifyHead (c :: ·) := by
  have hprefix : ¬ pat.isPrefixOf (c :: t) = true := fun hp =>
    h (List.isPrefixOf_iff_prefix.mp hp)
  rw [cutAt, cutFrom, if_neg hprefix]
  rfl

theorem cutAt_ne_nil (pat t : Text) : cutAt pat t ≠ [] := by
  have hcut : ∀ (skip : Nat) (t : Text), cutFrom pat skip t ≠ [] := by
    intro skip t
    induction t generalizing skip with
    | nil => simp [cutFrom]
    | cons c cs ih =>
      cases skip with
      | zero =>
        rw [cutFrom]
        split
        · simp
        · simpa using ih 0
      | succ skip => exact ih skip
  exact hcut 0 t

/-! ## 2. Parts without an occurrence -/

/-- No occurrence of `pat` begins in a text, whatever follows the text. -/
def Avoids (pat : Text) : Text → Prop
  | [] => True
  | c :: cs => (∀ rest, ¬ pat <+: c :: (cs ++ rest)) ∧ Avoids pat cs

theorem avoids_append {pat s t : Text} (hs : Avoids pat s) (ht : Avoids pat t) :
    Avoids pat (s ++ t) := by
  induction s with
  | nil => exact ht
  | cons c s ih =>
    rw [List.cons_append]
    refine ⟨?_, ih hs.2⟩
    intro rest
    rw [List.append_assoc]
    exact hs.1 (t ++ rest)

/-- A text without the first character of `pat` is passed over. -/
theorem avoids_of_notMem {p : Char} {ps s : Text} (hs : p ∉ s) : Avoids (p :: ps) s := by
  induction s with
  | nil => trivial
  | cons c s ih =>
    refine ⟨?_, ih fun h => hs (List.mem_cons_of_mem c h)⟩
    intro rest h
    have hpc : p = c := (List.cons_prefix_cons.mp h).1
    exact hs (hpc ▸ List.mem_cons_self)

/-- So is one that has it in front only, if `pat` goes on differently. -/
theorem avoids_cons_cons {p q d : Char} {ps s : Text} (hqd : q ≠ d) (hs : p ∉ d :: s) :
    Avoids (p :: q :: ps) (p :: d :: s) := by
  refine ⟨?_, avoids_of_notMem hs⟩
  intro rest h
  have htail : q :: ps <+: d :: (s ++ rest) := (List.cons_prefix_cons.mp h).2
  exact hqd (List.cons_prefix_cons.mp htail).1

theorem avoids_flatten {pat : Text} {parts : List Text} (h : ∀ s ∈ parts, Avoids pat s) :
    Avoids pat parts.flatten := by
  induction parts with
  | nil => trivial
  | cons s parts ih =>
    obtain ⟨hs, hparts⟩ := List.forall_mem_cons.mp h
    exact avoids_append hs (ih hparts)

/-- A test for fixed texts: from no place on does the text go on like `pat`, up to the end of one
of the two. -/
def clashes (pat : Text) : Text → Bool
  | [] => true
  | c :: cs => !pat.isPrefixOf (c :: cs) && !(c :: cs).isPrefixOf pat && clashes pat cs

theorem avoids_of_clashes {pat t : Text} (h : clashes pat t = true) : Avoids pat t := by
  induction t with
  | nil => trivial
  | cons c cs ih =>
    simp only [clashes, Bool.and_eq_true, Bool.not_eq_true', Bool.eq_false_iff, ne_eq,
      List.isPrefixOf_iff_prefix] at h
    obtain ⟨⟨hpat, htext⟩, hcs⟩ := h
    refine ⟨?_, ih hcs⟩
    intro rest hoccurs
    rw [← List.cons_append] at hoccurs
    rcases List.prefix_or_prefix_of_prefix hoccurs (List.prefix_append _ _) with h | h
    · exact hpat h
    · exact htext h

theorem cutAt_append_of_avoids {pat s : Text} (hs : Avoids pat s) (t : Text) :
    cutAt pat (s ++ t) = (cutAt pat t).modifyHead (s ++ ·) := by
  induction s with
  | nil =>
    obtain ⟨p, ps, h⟩ := List.exists_cons_of_ne_nil (cutAt_ne_nil pat t)
    rw [List.nil_append, h]
    rfl
  | cons c s ih =>
    rw [List.cons_append, cutAt_cons_of_not_prefix (hs.1 t), ih hs.2]
    obtain ⟨p, ps, h⟩ := List.exists_cons_of_ne_nil (cutAt_ne_nil pat t)
    rw [h]
    rfl

/-- A part without an occurrence, up to the first one. -/
theorem cutAt_append_of_avoids_self {pat s : Text} (hpat : pat ≠ []) (hs : Avoids pat s)
    (t : Text) : cutAt pat (s ++ (pat ++ t)) = s :: cutAt pat t := by
  rw [cutAt_append_of_avoids hs, cutAt_append_self hpat, List.modifyHead_cons, List.append_nil]

/-- A text that was put together from parts without an occurrence, each followed by one. -/
theorem cutAt_flatten {pat : Text} (hpat : pat ≠ []) {parts : List Text}
    (h : ∀ s ∈ parts, Avoids pat s) :
    cutAt pat (parts.map (· ++ pat)).flatten = parts ++ [[]] := by
  induction parts with
  | nil => exact cutAt_nil pat
  | cons s parts ih =>
    have hrest := ih fun s' hs' => h s' (List.mem_cons_of_mem s hs')
    rw [List.map_cons, List.flatten_cons, List.append_assoc,
      cutAt_append_of_avoids_self hpat (h s List.mem_cons_self), hrest, List.cons_append]

theorem length_cutAt_append_of_avoids {pat s : Text} (hs : Avoids pat s) (t : Text) :
    (cutAt pat (s ++ t)).length = (cutAt pat t).length := by
  rw [cutAt_append_of_avoids hs, List.length_modifyHead]

theorem length_cutAt_replicate {pat : Text} (hpat : pat ≠ []) (n : Nat) (t : Text) :
    (cutAt pat ((List.replicate n pat).flatten ++ t)).length = n + (cutAt pat t).length := by
  induction n with
  | zero => simp
  | succ n ih =>
    rw [List.replicate_succ, List.flatten_cons, List.append_assoc, cutAt_append_self hpat,
      List.length_cons, ih]
    omega

/-! ## 3. Replacing, part by part -/

theorem replaceAll_nil (pat new : Text) : replaceAll pat new [] = [] := by
  rw [replaceAll, cutAt_nil]
  rfl

theorem replaceAll_append_self {pat : Text} (hpat : pat ≠ []) (new t : Text) :
    replaceAll pat new (pat ++ t) = new ++ replaceAll pat new t := by
  obtain ⟨p, ps, h⟩ := List.exists_cons_of_ne_nil (cutAt_ne_nil pat t)
  rw [replaceAll, cutAt_append_self hpat, replaceAll, h, List.intercalate_cons_cons]
  rfl

theorem replaceAll_append_of_avoids {pat s : Text} (hs : Avoids pat s) (new t : Text) :
    replaceAll pat new (s ++ t) = s ++ replaceAll pat new t := by
  obtain ⟨p, ps, h⟩ := List.exists_cons_of_ne_nil (cutAt_ne_nil pat t)
  rw [replaceAll, cutAt_append_of_avoids hs, replaceAll, h, List.modifyHead_cons]
  cases ps with
  | nil => simp
  | cons q qs => simp [List.intercalate_cons_cons]

theorem replaceAll_of_avoids {pat s : Text} (hs : Avoids pat s) (new : Text) :
    replaceAll pat new s = s := by
  have h := replaceAll_append_of_avoids hs new []
  rw [List.append_nil, replaceAll_nil, List.append_nil] at h
  exact h

theorem replaceAll_replicate {pat : Text} (hpat : pat ≠ []) (c : Char) (n : Nat) (t : Text) :
    replaceAll pat [c] ((List.replicate n pat).flatten ++ t)
      = List.replicate n c ++ replaceAll pat [c] t := by
  induction n with
  | zero => rfl
  | succ n ih =>
    rw [List.replicate_succ, List.flatten_cons, List.append_assoc,
      replaceAll_append_self hpat, ih]
    rfl

/-- Replacing is done character by character in a text that was written so, if each character
is either an occurrence or passed over. -/
theorem replaceAll_flatMap {pat new : Text} {f g : Char → Text}
    (h : ∀ c rest, replaceAll pat new (f c ++ rest) = g c ++ replaceAll pat new rest)
    (s : Text) : replaceAll pat new (s.flatMap f) = s.flatMap g := by
  induction s with
  | nil => exact replaceAll_nil pat new
  | cons c s ih => rw [List.flatMap_cons, h, ih, List.flatMap_cons]

/-! ## 4. The place of an occurrence -/

/-- `pat` occurs in a text exactly once, right behind `before`. -/
def OccursOnce (pat before t : Text) : Prop := ∀ s, (∃ rest, t = s ++ (pat ++ rest)) ↔ s = before

theorem Avoids.of_append {pat s t : Text} (h : Avoids pat (s ++ t)) : Avoids pat t := by
  induction s with
  | nil => exact h
  | cons c s ih => exact ih h.2

theorem Avoids.not_occurs {pat s rest : Text} (hpat : pat ≠ []) :
    ¬ Avoids pat (s ++ (pat ++ rest)) := by
  intro h
  obtain ⟨p, ps, rfl⟩ := List.exists_cons_of_ne_nil hpat
  refine h.of_append.1 [] ?_
  rw [List.append_nil]
  exact List.prefix_append (p :: ps) rest

/-- **An occurrence is the only one** if none begins before it, and none behind its first
character. -/
theorem occursOnce {pat before after : Text} (hpat : pat ≠ []) (hbefore : Avoids pat before)
    (hafter : Avoids pat (pat.tail ++ after)) :
    OccursOnce pat before (before ++ (pat ++ after)) := by
  obtain ⟨p, ps, rfl⟩ := List.exists_cons_of_ne_nil hpat
  intro s
  constructor
  · rintro ⟨rest, h⟩
    rcases List.append_eq_append_iff.mp h with ⟨mid, rfl, hmid⟩ | ⟨mid, rfl, hmid⟩
    · cases mid with
      | nil => exact List.append_nil before
      | cons d mid =>
        rw [List.cons_append, List.cons_append, List.cons.injEq] at hmid
        rw [List.tail_cons, hmid.2] at hafter
        exact absurd hafter (Avoids.not_occurs hpat)
    · cases mid with
      | nil => exact (List.append_nil s).symm
      | cons d mid =>
        -- the occurrence begins in `before`, and may end behind it
        refine absurd ?_ (hbefore.of_append.1 (p :: ps ++ after))
        rw [← List.cons_append, ← hmid]
        exact List.prefix_append _ _
  · rintro rfl
    exact ⟨after, rfl⟩

end Highlighter.Text
