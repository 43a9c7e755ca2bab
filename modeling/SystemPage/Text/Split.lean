/-
  SystemPage.Text.Split — texts cut at a separator.

  A text with `n` separators has `n + 1` fields, empty ones included.  Joining the fields with the
  separator gives the text back, and no field holds the separator.
-/

namespace SystemPage.Text

/-! ## §1. Fields. -/

/-- The pieces of a text between the separators. -/
def fields (separator : Char) : List Char → List (List Char)
  | [] => [[]]
  | c :: cs =>
    if c = separator then [] :: fields separator cs
    else
      match fields separator cs with
      | [] => [[c]]
      | field :: rest => (c :: field) :: rest

/-- The fields of a text, as texts. -/
def fieldTexts (separator : Char) (s : String) : List String :=
  (fields separator s.toList).map String.ofList

/-- The text before the first separator, and the text after it if there is one. -/
def cut (separator : Char) (cs : List Char) : List Char × Option (List Char) :=
  let field := cs.takeWhile (· ≠ separator)
  (field, (cs.drop field.length).tail?)

/-! ## §2. Laws of fields. -/

theorem fields_ne_nil (separator : Char) (cs : List Char) : fields separator cs ≠ [] := by
  cases cs with
  | nil => simp [fields]
  | cons c cs =>
    rw [fields]
    split
    · simp
    · split <;> simp

/-- A text has one field more than separators. -/
theorem length_fields (separator : Char) (cs : List Char) :
    (fields separator cs).length = cs.count separator + 1 := by
  induction cs with
  | nil => rfl
  | cons c cs ih =>
    rw [fields]
    split
    · next h => subst h; simp [ih]
    · next h =>
      have hne := fields_ne_nil separator cs
      split
      · next hf => exact absurd hf hne
      · next field rest hf =>
        rw [hf] at ih
        simpa [List.count_cons, h] using ih

/-- No field holds the separator. -/
theorem separator_not_mem_fields (separator : Char) (cs : List Char) :
    ∀ field ∈ fields separator cs, separator ∉ field := by
  induction cs with
  | nil => simp [fields]
  | cons c cs ih =>
    rw [fields]
    split
    · intro field hmem
      rcases List.mem_cons.1 hmem with rfl | hmem
      · simp
      · exact ih field hmem
    · next h =>
      split
      · next hf => exact absurd hf (fields_ne_nil separator cs)
      · next first rest hf =>
        rw [hf] at ih
        intro field hmem
        rcases List.mem_cons.1 hmem with rfl | hmem
        · have := ih first (by simp)
          simp [this, Ne.symm h]
        · exact ih field (by simp [hmem])

/-- Joining the fields gives the text back. -/
theorem intercalate_fields (separator : Char) (cs : List Char) :
    [separator].intercalate (fields separator cs) = cs := by
  induction cs with
  | nil => rfl
  | cons c cs ih =>
    rw [fields]
    split
    · next h =>
      subst h
      match hf : fields c cs with
      | [] => exact absurd hf (fields_ne_nil c cs)
      | field :: rest =>
        rw [hf] at ih
        simpa [List.intercalate] using ih
    · next h =>
      match hf : fields separator cs with
      | [] => exact absurd hf (fields_ne_nil separator cs)
      | [field] =>
        rw [hf] at ih
        simpa [List.intercalate] using ih
      | field :: second :: rest =>
        rw [hf] at ih
        simpa [List.intercalate] using ih

/-- A text without separators is one field. -/
theorem fields_of_not_mem {separator : Char} {cs : List Char} (h : separator ∉ cs) :
    fields separator cs = [cs] := by
  induction cs with
  | nil => rfl
  | cons c rest ih =>
    rw [List.mem_cons, not_or] at h
    rw [fields, if_neg (Ne.symm h.1), ih h.2]

/-- A text that is cut where it was joined is cut into the fields of both its parts. -/
theorem fields_append (separator : Char) (first second : List Char) :
    fields separator (first ++ separator :: second)
      = fields separator first ++ fields separator second := by
  induction first with
  | nil =>
    show fields separator (separator :: second) = [[]] ++ _
    rw [fields, if_pos rfl]
    rfl
  | cons c cs ih =>
    rw [List.cons_append, fields, fields]
    by_cases hc : c = separator
    · rw [if_pos hc, if_pos hc, ih]
      rfl
    · rw [if_neg hc, if_neg hc, ih]
      cases hfields : fields separator cs with
      | nil => exact absurd hfields (fields_ne_nil separator cs)
      | cons field rest => rfl

theorem toList_fieldTexts (separator : Char) (s : String) :
    (fieldTexts separator s).map String.toList = fields separator s.toList := by
  unfold fieldTexts
  rw [List.map_map]
  exact (List.map_congr_left fun field _ => String.toList_ofList).trans (List.map_id _)

/-! ## §3. Laws of the cut. -/

/-- The part before a separator ends where the separator stands. -/
theorem takeWhile_of_not_mem {separator : Char} {before : List Char} (h : separator ∉ before)
    (behind : List Char) :
    (before ++ behind).takeWhile (· ≠ separator) = before ++ behind.takeWhile (· ≠ separator) := by
  rw [List.takeWhile_append_of_pos]
  intro c hc
  rw [decide_eq_true_eq]
  intro hseparator
  exact h (hseparator ▸ hc)

/-- A text is cut at the first separator. -/
theorem cut_append {separator : Char} {before : List Char} (h : separator ∉ before)
    (behind : List Char) :
    cut separator (before ++ separator :: behind) = (before, some behind) := by
  have htake : (before ++ separator :: behind).takeWhile (· ≠ separator) = before := by
    rw [takeWhile_of_not_mem h, List.takeWhile_cons_of_neg (by simp), List.append_nil]
  rw [cut, htake, List.drop_left]
  rfl

/-- A text without the separator is not cut. -/
theorem cut_of_not_mem {separator : Char} {cs : List Char} (h : separator ∉ cs) :
    cut separator cs = (cs, none) := by
  have htake : cs.takeWhile (· ≠ separator) = cs := by
    simpa using takeWhile_of_not_mem h []
  rw [cut, htake, List.drop_length]
  rfl

/-- A text is not cut, or it is both parts with the separator between them. -/
theorem cut_cases (separator : Char) (cs : List Char) :
    cut separator cs = (cs, none)
      ∨ ∃ before behind, cs = before ++ separator :: behind
        ∧ cut separator cs = (before, some behind) := by
  by_cases hmem : separator ∈ cs
  · obtain ⟨before, behind, rfl, hbefore⟩ := List.eq_append_cons_of_mem hmem
    exact .inr ⟨before, behind, rfl, cut_append hbefore behind⟩
  · exact .inl (cut_of_not_mem hmem)

end SystemPage.Text
