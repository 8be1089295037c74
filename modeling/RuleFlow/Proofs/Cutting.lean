import Mathlib.Data.List.DropRight
import RuleFlow.Text.Blank

/-!
# Cutting and trimming texts

A text that is cut at a character falls into parts without that character
(`notMem_of_mem_splitOn`). Trimming leaves a part of a text, which begins (`trimStart_trimStart`) or
ends (`trimEnd_trimEnd`) with no blank. It takes no more than the blanks: none, if there is no blank
at that end (`trimStart_eq_self_iff`, `trimEnd_eq_self_iff`), and all that are put there
(`trimStart_append_blanks`, `trimEnd_append_blanks`).
-/

namespace RuleFlow.Text

variable {cs bs : List Char}

/-! ## Parts between separators -/

theorem notMem_of_mem_splitOn {sep : Char} {part : List Char} (h : part ∈ cs.splitOn sep) :
    sep ∉ part := by
  induction cs generalizing part with
  | nil => simp_all
  | cons c cs ih =>
    rw [List.splitOn_cons_eq_if_modifyHead] at h
    split at h
    · rcases List.mem_cons.1 h with rfl | h
      · exact List.not_mem_nil
      · exact ih h
    · next hc =>
      -- `c` goes to the first part of the others.
      obtain ⟨first, rest, hcut⟩ := List.exists_cons_of_ne_nil (List.splitOn_ne_nil sep cs)
      rw [hcut, List.modifyHead_cons] at h
      rcases List.mem_cons.1 h with rfl | h
      · have hfirst : sep ∉ first := ih (hcut ▸ List.mem_cons_self)
        rw [List.mem_cons, not_or]
        exact ⟨fun e => hc (beq_iff_eq.2 e.symm), hfirst⟩
      · exact ih (hcut ▸ List.mem_cons_of_mem _ h)

/-! ## Trimming -/

theorem trimStart_suffix_self (cs : List Char) : trimStart cs <:+ cs := List.dropWhile_suffix _

theorem trimEnd_prefix_self (cs : List Char) : trimEnd cs <+: cs := List.rdropWhile_prefix isBlank cs

theorem trimStart_eq_self_iff : trimStart cs = cs ↔ ∀ c ∈ cs.head?, isBlank c = false := by
  cases cs with
  | nil => simp
  | cons c cs => simp [trimStart, List.dropWhile_eq_self_iff]

theorem trimEnd_eq_self_iff : trimEnd cs = cs ↔ ∀ c ∈ cs.getLast?, isBlank c = false := by
  rw [← List.head?_reverse, ← trimStart_eq_self_iff, trimEnd, trimStart, List.reverse_eq_iff]

@[simp] theorem trimStart_trimStart (cs : List Char) : trimStart (trimStart cs) = trimStart cs :=
  List.dropWhile_idempotent _ _

@[simp] theorem trimEnd_trimEnd (cs : List Char) : trimEnd (trimEnd cs) = trimEnd cs :=
  List.rdropWhile_idempotent isBlank cs

theorem trimStart_append_blanks (h : ∀ c ∈ bs, isBlank c) : trimStart (bs ++ cs) = trimStart cs :=
  List.dropWhile_append_of_pos h

theorem trimEnd_append_blanks (h : ∀ c ∈ bs, isBlank c) : trimEnd (cs ++ bs) = trimEnd cs := by
  have hrev : ∀ c ∈ bs.reverse, isBlank c := fun c hc => h c (List.mem_reverse.1 hc)
  rw [trimEnd, List.reverse_append, List.dropWhile_append_of_pos hrev, trimEnd]

theorem trimStart_trimEnd (h : trimStart cs = cs) : trimStart (trimEnd cs) = trimEnd cs := by
  rw [trimStart_eq_self_iff] at h ⊢
  obtain ⟨bs, hbs⟩ := trimEnd_prefix_self cs
  intro c hc
  refine h c ?_
  rw [← hbs, List.head?_append, Option.mem_def.1 hc]
  rfl

/-- A character at the start that is not blank is kept when the end is trimmed. -/
theorem head?_trimEnd {c : Char} (h : c ∈ cs.head?) (hc : isBlank c = false) :
    c ∈ (trimEnd cs).head? := by
  obtain ⟨rest, rfl⟩ := List.head?_eq_some_iff.1 h
  have hne : trimEnd (c :: rest) ≠ [] := fun hnil => by
    have hall : ∀ d ∈ c :: rest, isBlank d := List.rdropWhile_eq_nil_iff.1 hnil
    have := hall c List.mem_cons_self
    rw [hc] at this
    cases this
  obtain ⟨d, ds, hcons⟩ := List.exists_cons_of_ne_nil hne
  have hpre := trimEnd_prefix_self (c :: rest)
  rw [hcons, List.cons_prefix_cons] at hpre
  rw [hcons, hpre.1]
  rfl

@[simp] theorem trimStart_trim (cs : List Char) : trimStart (trim cs) = trim cs :=
  trimStart_trimEnd (trimStart_trimStart cs)

@[simp] theorem trimEnd_trim (cs : List Char) : trimEnd (trim cs) = trim cs := trimEnd_trimEnd _

theorem mem_of_mem_trim {c : Char} (h : c ∈ trim cs) : c ∈ cs :=
  (trimStart_suffix_self cs).subset ((trimEnd_prefix_self _).subset h)

end RuleFlow.Text
