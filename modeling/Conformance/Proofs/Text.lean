import Conformance.Text.Blank
import Mathlib.Data.List.DropRight

/-!
# Trimmed and cut texts

`trim` leaves the trimmed text between two texts of blanks, whatever these are: `trim_pad` and
`exists_pad`.  A text is cut at the first or at the last character with a property wherever that
stands: `splitFirst_append` and `splitLast_append`.
-/

namespace Conformance.Text

/-- A text of blanks. -/
def Blank (cs : List Char) : Prop := ∀ c ∈ cs, isBlank c

/-- A text with a first and a last character that are not blank. -/
structure Trimmed (cs : List Char) : Prop where
  head : ∃ c ∈ cs.head?, ¬ isBlank c
  last : ∃ c ∈ cs.getLast?, ¬ isBlank c

variable {p : Char → Bool} {c : Char} {cs x y before after : List Char}

theorem Blank.append (hx : Blank x) (hy : Blank y) :
  Blank (x ++ y)
  := by
  intro c hc
  obtain hc | hc := List.mem_append.1 hc
  · exact hx c hc
  · exact hy c hc

/-! ### Trimming -/

theorem trimmed_of_forall (h : ∀ c ∈ cs, ¬ isBlank c) (hn : cs ≠ []) :
  Trimmed cs
  where
  head := ⟨cs.head hn, List.head_mem_head? hn, h _ (List.head_mem hn)⟩
  last := ⟨cs.getLast hn, List.getLast_mem_getLast? hn, h _ (List.getLast_mem hn)⟩

theorem Trimmed.ne_nil (h : Trimmed cs) :
  cs ≠ []
  := by
  rintro rfl
  obtain ⟨c, hc, -⟩ := h.head
  cases hc

/-- A text is trimmed if its first part and its last part are. -/
theorem Trimmed.around (hx : Trimmed x) (hy : Trimmed y) (cs : List Char) :
  Trimmed (x ++ cs ++ y)
  := by
  obtain ⟨c, hc, hcb⟩ := hx.head
  obtain ⟨d, hd, hdb⟩ := hy.last
  refine ⟨⟨c, ?_, hcb⟩, ⟨d, ?_, hdb⟩⟩
  · simp_all
  · simp_all

/-- The blanks before a character that is not blank. -/
theorem trimStart_append_cons (hc : ¬ isBlank c) :
  trimStart (before ++ c :: after) = trimStart before ++ c :: after
  := by
  unfold trimStart
  rw [List.dropWhile_append, List.dropWhile_cons_of_neg hc]
  split
  · next h => rw [List.isEmpty_iff.1 h, List.nil_append]
  · rfl

theorem trimEnd_append_cons (hc : ¬ isBlank c) :
  trimEnd (before ++ c :: after) = before ++ c :: trimEnd after
  := by
  have h : trimStart (after.reverse ++ c :: before.reverse)
      = trimStart after.reverse ++ c :: before.reverse := trimStart_append_cons hc
  unfold trimStart at h
  simp [trimEnd, h]

/-- The blanks at the ends of a text are those before and those after any character that is not
blank. -/
theorem trim_append_cons (hc : ¬ isBlank c) :
  trim (before ++ c :: after) = trimStart before ++ c :: trimEnd after
  := by rw [trim, trimStart_append_cons hc, trimEnd_append_cons hc]

theorem trimStart_eq_nil (h : Blank cs) :
  trimStart cs = []
  := List.dropWhile_eq_nil_iff.2 h

theorem trimEnd_eq_nil (h : Blank cs) :
  trimEnd cs = []
  := by
  rw [trimEnd, List.reverse_eq_nil_iff, List.dropWhile_eq_nil_iff]
  exact fun c hc => h c (List.mem_reverse.1 hc)

theorem trimStart_pad (hx : Blank x) (h : Trimmed cs) :
  trimStart (x ++ cs) = cs
  := by
  obtain ⟨c, hc, hb⟩ := h.head
  obtain ⟨ds, rfl⟩ := List.head?_eq_some_iff.1 hc
  rw [trimStart, List.dropWhile_append_of_pos hx, List.dropWhile_cons_of_neg hb]

theorem trimEnd_pad (hy : Blank y) (h : Trimmed cs) :
  trimEnd (cs ++ y) = cs
  := by
  obtain ⟨c, hc, hb⟩ := h.last
  obtain ⟨ds, rfl⟩ := List.getLast?_eq_some_iff.1 hc
  rw [List.append_assoc, List.singleton_append, trimEnd_append_cons hb, trimEnd_eq_nil hy]

/-- A trimmed text is left where blanks stand around it. -/
theorem trim_pad (hx : Blank x) (hy : Blank y) (h : Trimmed cs) :
  trim (x ++ cs ++ y) = cs
  := by
  obtain ⟨c, hc, hb⟩ := h.head
  obtain ⟨ds, rfl⟩ := List.head?_eq_some_iff.1 hc
  rw [trim, List.append_assoc, List.cons_append, trimStart, List.dropWhile_append_of_pos hx,
    List.dropWhile_cons_of_neg hb]
  exact trimEnd_pad hy h

theorem trim_of_forall (h : ∀ c ∈ cs, ¬ isBlank c) :
  trim cs = cs
  := by
  by_cases hn : cs = []
  · rw [hn]
    rfl
  · simpa using trim_pad (x := []) (y := []) nofun nofun (trimmed_of_forall h hn)

@[simp]
theorem trim_trimStart (cs : List Char) :
  trim (trimStart cs) = trim cs
  := congrArg trimEnd (List.dropWhile_idempotent isBlank cs)

@[simp]
theorem trim_trimEnd (cs : List Char) :
  trim (trimEnd cs) = trim cs
  := by
  by_cases h : Blank cs
  · rw [trimEnd_eq_nil h, trim, trim, trimStart_eq_nil h]
    rfl
  · obtain ⟨c, hc, hb⟩ := by simpa [Blank] using h
    obtain ⟨before, after, rfl⟩ := List.append_of_mem hc
    have hb : ¬ isBlank c := by simpa using hb
    rw [trimEnd_append_cons hb, trim_append_cons hb, trim_append_cons hb]
    simp [trimEnd, List.dropWhile_idempotent]

@[simp]
theorem trim_trim (cs : List Char) :
  trim (trim cs) = trim cs
  := (trim_trimEnd (trimStart cs)).trans (trim_trimStart cs)

theorem exists_trimStart_pad (cs : List Char) :
  ∃ x, Blank x ∧ cs = x ++ trimStart cs
  := ⟨_, fun _ => List.mem_takeWhile_imp, List.takeWhile_append_dropWhile.symm⟩

theorem exists_trimEnd_pad (cs : List Char) :
  ∃ y, Blank y ∧ cs = trimEnd cs ++ y
  := by
  obtain ⟨y, hy, h⟩ := exists_trimStart_pad cs.reverse
  refine ⟨y.reverse, fun c hc => hy c (List.mem_reverse.1 hc), ?_⟩
  have hr := congrArg List.reverse h
  rwa [List.reverse_append, List.reverse_reverse] at hr

/-- A text is what `trim` leaves of it, with blanks around. -/
theorem exists_pad (cs : List Char) :
  ∃ x y, Blank x ∧ Blank y ∧ cs = x ++ trim cs ++ y
  := by
  obtain ⟨x, hx, hcs⟩ := exists_trimStart_pad cs
  obtain ⟨y, hy, hs⟩ := exists_trimEnd_pad (trimStart cs)
  refine ⟨x, y, hx, hy, ?_⟩
  rw [List.append_assoc]
  exact hcs.trans (congrArg (x ++ ·) hs)

theorem head_trimStart (hc : c ∈ (trimStart cs).head?) :
  ¬ isBlank c
  := by
  have h := List.head?_dropWhile_not isBlank cs
  rw [show (List.dropWhile isBlank cs).head? = some c from hc] at h
  simpa using h

theorem head_trim (hc : c ∈ (trim cs).head?) :
  ¬ isBlank c
  := by
  obtain ⟨y, -, h⟩ := exists_trimEnd_pad (trimStart cs)
  refine @head_trimStart c cs ?_
  rw [h, List.head?_append, show (trimEnd (trimStart cs)).head? = some c from hc]
  rfl

/-! ### Cutting -/

/-- The first character with a property is found where it stands. -/
theorem splitFirst_append (h : ∀ d ∈ before, ¬ p d) (hc : p c) :
  splitFirst p (before ++ c :: after) = some (before, after)
  := by
  induction before with
  | nil => rw [List.nil_append, splitFirst, if_pos hc]
  | cons d before ih =>
    rw [List.forall_mem_cons] at h
    rw [List.cons_append, splitFirst, if_neg h.1, ih h.2]
    rfl

theorem splitFirst_eq_none (h : ∀ d ∈ cs, ¬ p d) :
  splitFirst p cs = none
  := by
  induction cs with
  | nil => rfl
  | cons d cs ih =>
    rw [List.forall_mem_cons] at h
    rw [splitFirst, if_neg h.1, ih h.2]
    rfl

theorem splitLast_eq_none_iff :
  splitLast p cs = none ↔ ∀ d ∈ cs, ¬ p d
  := by
  induction cs with
  | nil => simp [splitLast]
  | cons d cs ih =>
    rw [splitLast, List.forall_mem_cons, ← ih]
    split <;> simp_all

/-- The last character with a property is found where it stands. -/
theorem splitLast_append (hc : p c) (h : ∀ d ∈ after, ¬ p d) :
  splitLast p (before ++ c :: after) = some (before, c, after)
  := by
  induction before with
  | nil => rw [List.nil_append, splitLast, splitLast_eq_none_iff.2 h, if_pos hc]
  | cons d before ih => rw [List.cons_append, splitLast, ih]

theorem of_splitLast_eq_some (h : splitLast p cs = some (before, c, after)) :
  cs = before ++ c :: after ∧ p c ∧ ∀ d ∈ after, ¬ p d
  := by
  induction cs generalizing before with
  | nil => cases h
  | cons d cs ih =>
    rw [splitLast] at h
    split at h
    · next hs =>
      cases h
      obtain ⟨rfl, hc, ha⟩ := ih hs
      exact ⟨rfl, hc, ha⟩
    · next hs =>
      split at h
      · next hd =>
        cases h
        exact ⟨rfl, hd, splitLast_eq_none_iff.1 hs⟩
      · cases h

end Conformance.Text
