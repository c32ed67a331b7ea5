import Mathlib.Data.List.DropRight
import RecordGraph.Text.Split

/-!
# Texts that are cut and trimmed

Splitting undoes joining, cutting is the first step of splitting, and trimming a text first does not change its
trimmed parts.
-/

namespace RecordGraph

variable {text start rest : List Char} {ch sep : Char} {part : List Char} {parts : List (List Char)}

/-! ## Cutting -/

theorem cutAt_append (h : sep ∉ start) : cutAt sep (start ++ sep :: rest) = (start, some rest) := by
  induction start with
  | nil => simp [cutAt]
  | cons ch start ih =>
      rw [List.mem_cons, not_or] at h
      rw [List.cons_append, cutAt, if_neg (Ne.symm h.1), ih h.2]

theorem splitAt_whole (h : sep ∉ text) : splitAt sep text = [text] := by
  induction text with
  | nil => rfl
  | cons ch text ih =>
      rw [List.mem_cons, not_or] at h
      rw [splitAt, if_neg (Ne.symm h.1), ih h.2]

theorem splitAt_append (h : sep ∉ start) : splitAt sep (start ++ sep :: rest) = start :: splitAt sep rest := by
  induction start with
  | nil => simp [splitAt]
  | cons ch start ih =>
      rw [List.mem_cons, not_or] at h
      rw [List.cons_append, splitAt, if_neg (Ne.symm h.1), ih h.2]

theorem splitAt_joinWith (hne : parts ≠ []) (h : ∀ part ∈ parts, sep ∉ part) :
    splitAt sep (joinWith [sep] parts) = parts := by
  induction parts with
  | nil => exact absurd rfl hne
  | cons part parts ih =>
      have hpart := h part List.mem_cons_self
      cases parts with
      | nil => exact splitAt_whole hpart
      | cons next parts =>
          have hrest := ih (by simp) fun part hin => h part (List.mem_cons_of_mem _ hin)
          rw [joinWith, List.append_assoc, List.singleton_append, splitAt_append hpart, hrest]
          simp

theorem not_mem_joinWith (hsep : ch ≠ sep) (h : ∀ part ∈ parts, ch ∉ part) : ch ∉ joinWith [sep] parts := by
  induction parts with
  | nil => simp [joinWith]
  | cons part parts ih =>
      have hpart := h part List.mem_cons_self
      cases parts with
      | nil => exact hpart
      | cons next parts =>
          have hrest := ih fun part hin => h part (List.mem_cons_of_mem _ hin)
          simp only [joinWith, List.mem_append, List.mem_singleton, not_or]
          exact ⟨⟨hpart, hsep⟩, hrest⟩

theorem mem_of_cutAt {sep : Char} {before after : List Char} (h : cutAt sep text = (before, some after)) :
    sep ∈ text := by
  induction text generalizing before with
  | nil => cases h
  | cons ch text ih =>
      rw [cutAt] at h
      split at h
      · rename_i hsep
        exact hsep ▸ List.mem_cons_self
      · have hafter : (cutAt sep text).2 = some after := (Prod.ext_iff.mp h).2
        exact List.mem_cons_of_mem _ (ih (Prod.ext rfl hafter))

theorem mem_of_mem_cutAt (h : ch ∈ (cutAt sep text).2.getD []) : ch ∈ text := by
  induction text with
  | nil => cases h
  | cons first text ih =>
      rw [cutAt] at h
      split at h
      · exact List.mem_cons_of_mem _ h
      · exact List.mem_cons_of_mem _ (ih h)

/-- A text that is cut is split where it is cut, and what is left of it is split further. -/
theorem splitAt_of_cutAt {before : List Char} {after : Option (List Char)} (h : cutAt sep text = (before, after)) :
    splitAt sep text = before :: (after.map (splitAt sep)).getD [] := by
  induction text generalizing before with
  | nil =>
      cases h
      rfl
  | cons ch text ih =>
      rw [cutAt] at h
      rw [splitAt]
      split at h
      · rename_i hsep
        cases h
        rw [if_pos hsep]
        rfl
      · rename_i hsep
        cases h
        rw [if_neg hsep, ih rfl]

theorem not_mem_of_mem_splitAt (h : part ∈ splitAt sep text) : sep ∉ part := by
  induction text generalizing part with
  | nil =>
      rw [List.mem_singleton.mp h]
      exact List.not_mem_nil
  | cons ch text ih =>
      rw [splitAt] at h
      split at h
      · rcases List.mem_cons.mp h with rfl | h
        · exact List.not_mem_nil
        · exact ih h
      · rename_i hsep
        obtain ⟨first, more, hparts⟩ := List.exists_cons_of_ne_nil (splitAt_ne_nil sep text)
        rw [hparts] at h ih
        rcases List.mem_cons.mp h with rfl | h
        · rw [List.mem_cons, not_or]
          exact ⟨Ne.symm hsep, ih List.mem_cons_self⟩
        · exact ih (List.mem_cons_of_mem _ h)

/-- The parts of a text that a character is added to: it stands at the end of the last one. -/
theorem splitAt_concat (h : ch ≠ sep) (text : List Char) : ∃ front last,
    splitAt sep text = front ++ [last] ∧ splitAt sep (text ++ [ch]) = front ++ [last ++ [ch]] := by
  induction text with
  | nil => exact ⟨[], [], rfl, by simp [splitAt, h]⟩
  | cons first text ih =>
      obtain ⟨front, last, hsplit, hconcat⟩ := ih
      rw [List.cons_append, splitAt, splitAt, hsplit, hconcat]
      split
      · exact ⟨[] :: front, last, rfl, rfl⟩
      · cases front with
        | nil => exact ⟨[], first :: last, rfl, rfl⟩
        | cons part front => exact ⟨(first :: part) :: front, last, rfl, rfl⟩

/-! ## Trimming -/

theorem mem_dropWhile_blank {ch : Char} (hch : isBlank ch = false) (h : ch ∈ text) : ch ∈ text.dropWhile isBlank := by
  induction text with
  | nil => cases h
  | cons first text ih =>
      rw [List.dropWhile_cons]
      split
      · rename_i hblank
        apply ih
        rcases List.mem_cons.mp h with rfl | h
        · rw [hch] at hblank
          cases hblank
        · exact h
      · exact h

theorem mem_trim {ch : Char} (hch : isBlank ch = false) (h : ch ∈ text) : ch ∈ trim text := by
  have hstart := mem_dropWhile_blank hch h
  exact List.mem_reverse.mpr (mem_dropWhile_blank hch (List.mem_reverse.mpr hstart))

theorem mem_of_mem_trim (h : ch ∈ trim text) : ch ∈ text :=
  List.dropWhile_subset _ ((List.rdropWhile_prefix isBlank (trimStart text)).subset h)

theorem takeWhile_trim : (trim text).takeWhile isBlank = [] := by
  cases h : trim text with
  | nil => rfl
  | cons ch rest =>
      have hprefix : trim text <+: trimStart text := List.rdropWhile_prefix isBlank (trimStart text)
      obtain ⟨more, hmore⟩ := hprefix
      rw [h, List.cons_append] at hmore
      have hne : text.dropWhile isBlank ≠ [] := by
        intro hnil
        rw [trimStart, hnil] at hmore
        cases hmore
      have hhead := List.head_dropWhile_not isBlank hne
      have hch : isBlank ch = false := by
        simpa [← show ch :: (rest ++ more) = text.dropWhile isBlank from hmore] using hhead
      exact List.takeWhile_cons_of_neg (by simp [hch])

/-- What trimming leaves, it leaves again. -/
theorem trim_trim_ne_nil (h : trim text ≠ []) : trim (trim text) ≠ [] := by
  obtain ⟨ch, rest, htrim⟩ := List.exists_cons_of_ne_nil h
  have hblank : isBlank ch = false := by
    by_contra hch
    have hnone : (trim text).takeWhile isBlank = [] := takeWhile_trim
    rw [htrim, List.takeWhile_cons_of_pos (by simpa using hch)] at hnone
    cases hnone
  exact List.ne_nil_of_mem (mem_trim hblank (htrim ▸ List.mem_cons_self))

/-- The last character of a trimmed text is no blank. -/
theorem reverse_of_trimmed (h : trim text = text) (hne : text ≠ []) :
    ∃ last front, text.reverse = last :: front ∧ isBlank last = false := by
  have hdropped : (trimStart text).reverse.dropWhile isBlank = text.reverse := by
    rw [← List.reverse_reverse (List.dropWhile _ _)]
    exact congrArg List.reverse h
  cases hrev : text.reverse with
  | nil => exact absurd (List.reverse_eq_nil_iff.mp hrev) hne
  | cons last front =>
      rw [hrev] at hdropped
      refine ⟨last, front, rfl, ?_⟩
      have hne : (trimStart text).reverse.dropWhile isBlank ≠ [] := by rw [hdropped]; simp
      have hhead := List.head_dropWhile_not isBlank hne
      simpa [hdropped] using hhead

/-- Nothing is trimmed from a trimmed text with something other than a blank in front. -/
theorem trim_append (h : trim text = text) (hne : text ≠ []) (hch : isBlank ch = false) :
    trim (ch :: start ++ text) = ch :: start ++ text := by
  obtain ⟨last, front, hrev, hlast⟩ := reverse_of_trimmed h hne
  have hstart : trimStart (ch :: start ++ text) = ch :: start ++ text := by
    rw [trimStart, List.cons_append, List.dropWhile_cons_of_neg (by simp [hch])]
  rw [trim, hstart, trimEnd, List.reverse_append, hrev, List.cons_append,
    List.dropWhile_cons_of_neg (by simp [hlast]), ← List.cons_append, ← hrev, ← List.reverse_append, List.reverse_reverse]

theorem trim_cons_blank (h : isBlank ch = true) : trim (ch :: text) = trim text := by
  rw [trim, trim, trimStart, trimStart, List.dropWhile_cons_of_pos h]

theorem trimEnd_concat_blank (h : isBlank ch = true) : trimEnd (text ++ [ch]) = trimEnd text :=
  List.rdropWhile_concat_pos isBlank text ch h

theorem trim_concat_blank (h : isBlank ch = true) : trim (text ++ [ch]) = trim text := by
  rw [trim, trim, trimStart, trimStart, List.dropWhile_append]
  split
  · rename_i hnone
    rw [List.isEmpty_iff.mp hnone, List.dropWhile_cons_of_pos h]
    rfl
  · exact trimEnd_concat_blank h

/-- The trimmed parts of a text are those of the text that is trimmed at the start. -/
theorem map_trim_splitAt_trimStart (hsep : isBlank sep = false) (text : List Char) :
    (splitAt sep (trimStart text)).map trim = (splitAt sep text).map trim := by
  induction text with
  | nil => rfl
  | cons ch text ih =>
      cases hch : isBlank ch with
      | false => rw [trimStart, List.dropWhile_cons_of_neg (by simp [hch])]
      | true =>
          have hne : ch ≠ sep := by
            rintro rfl
            rw [hsep] at hch
            cases hch
          obtain ⟨part, parts, hsplit⟩ := List.exists_cons_of_ne_nil (splitAt_ne_nil sep text)
          rw [trimStart, List.dropWhile_cons_of_pos hch, ← trimStart, ih, splitAt, if_neg hne, hsplit]
          simp [trim_cons_blank hch]

theorem map_trim_splitAt_trimEnd (hsep : isBlank sep = false) (text : List Char) :
    (splitAt sep (trimEnd text)).map trim = (splitAt sep text).map trim := by
  induction text using List.reverseRecOn with
  | nil => rfl
  | append_singleton text ch ih =>
      cases hch : isBlank ch with
      | false =>
          have hkept : trimEnd (text ++ [ch]) = text ++ [ch] :=
            List.rdropWhile_concat_neg isBlank text ch (by simp [hch])
          rw [hkept]
      | true =>
          have hne : ch ≠ sep := by
            rintro rfl
            rw [hsep] at hch
            cases hch
          obtain ⟨front, last, hsplit, hconcat⟩ := splitAt_concat hne text
          rw [trimEnd_concat_blank hch, ih, hsplit, hconcat]
          simp [trim_concat_blank hch]

/-- The trimmed parts of a text do not depend on the blanks around it. -/
theorem map_trim_splitAt_trim (hsep : isBlank sep = false) (text : List Char) :
    (splitAt sep (trim text)).map trim = (splitAt sep text).map trim := by
  rw [trim, map_trim_splitAt_trimEnd hsep, map_trim_splitAt_trimStart hsep]

end RecordGraph
