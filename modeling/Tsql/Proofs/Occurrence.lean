import Tsql.Text

/-!
# Where a mark occurs

A text is cut at the first occurrence of a mark. In terms of the text and
its parts, without the search: the mark occurs in no text before it, even
with all but the last character of the mark behind that text, since an
occurrence could begin there and end in the mark itself.
-/

namespace Tsql

namespace Text

variable {mark : Text}

theorem has_cons (c : Char) (cs mark : Text) :
    has (c :: cs) mark = (mark.isPrefixOf (c :: cs) || has cs mark) := by
  unfold has
  rw [cut]
  split
  · rename_i h
    simp [h]
  · rename_i h
    simp [h]

theorem has_iff_infix (hmark : mark ≠ []) (t : Text) : t.has mark = true ↔ mark <:+: t := by
  induction t with
  | nil =>
      constructor
      · intro h
        cases h
      · intro h
        exact absurd (List.infix_nil.mp h) hmark
  | cons c cs ih =>
      rw [has_cons, Bool.or_eq_true, ih, List.isPrefixOf_iff_prefix, List.infix_cons_iff]

theorem cut_eq_none_iff (hmark : mark ≠ []) (t : Text) : t.cut mark = none ↔ ¬ mark <:+: t := by
  rw [← has_iff_infix hmark, has, Bool.not_eq_true, Option.isSome_eq_false_iff,
    Option.isNone_iff_eq_none]

/-- A text is cut at a mark that does not begin before its end. -/
theorem cut_append (t mark : Text) (h : ¬ mark <:+: t ++ mark.dropLast) (hmark : mark ≠ [])
    (rest : Text) : cut (t ++ mark ++ rest) mark = some (t, rest) := by
  induction t with
  | nil =>
      cases mark with
      | nil => exact absurd rfl hmark
      | cons m ms =>
          have hfront : (m :: ms).isPrefixOf (m :: (ms ++ rest)) = true :=
            List.isPrefixOf_iff_prefix.mpr (List.prefix_append (m :: ms) rest)
          rw [List.nil_append, List.cons_append, cut, if_pos hfront]
          exact congrArg (fun u => some (([] : Text), u)) List.drop_left
  | cons c cs ih =>
      have hnot : ¬ mark.isPrefixOf (c :: (cs ++ mark ++ rest)) = true := by
        intro hfront
        have hwhole : c :: (cs ++ mark ++ rest) =
            c :: cs ++ mark.dropLast ++ ([mark.getLast hmark] ++ rest) := by
          rw [← List.append_assoc, List.append_assoc (c :: cs), List.dropLast_concat_getLast,
            List.cons_append, List.cons_append]
        rw [List.isPrefixOf_iff_prefix, hwhole] at hfront
        refine h (List.prefix_of_prefix_length_le hfront (List.prefix_append ..) ?_).isInfix
        have := List.length_pos_iff.mpr hmark
        simp only [List.length_append, List.length_cons, List.length_dropLast]
        omega
      have hmore := ih fun hoccurs => h (hoccurs.trans (List.suffix_cons c _).isInfix)
      rw [List.cons_append, List.cons_append, cut, if_neg hnot, hmore]
      rfl

/-- Nothing was passed over before the cut. -/
theorem not_infix_of_cut (hmark : mark ≠ []) {t before after : Text}
    (h : t.cut mark = some (before, after)) : ¬ mark <:+: before ++ mark.dropLast := by
  induction t generalizing before with
  | nil => cases h
  | cons c cs ih =>
      rw [cut] at h
      split at h
      · obtain ⟨rfl, -⟩ := Prod.mk.inj (Option.some.inj h)
        intro hinfix
        have hle := hinfix.length_le
        have hpos := List.length_pos_iff.mpr hmark
        rw [List.nil_append, List.length_dropLast] at hle
        omega
      · rename_i hnot
        obtain ⟨⟨b, a⟩, hcut, hba⟩ := Option.map_eq_some_iff.mp h
        obtain ⟨rfl, rfl⟩ := Prod.mk.inj hba
        intro hinfix
        rcases List.infix_cons_iff.mp hinfix with hfront | hoccurs
        · -- what is left of the mark stands behind
          refine hnot (List.isPrefixOf_iff_prefix.mpr (hfront.trans ?_))
          rw [cut_eq_some hcut, List.cons_prefix_cons, List.append_assoc]
          refine ⟨rfl, (List.prefix_append_right_inj b).mpr ?_⟩
          exact (List.dropLast_prefix mark).trans (List.prefix_append mark a)
        · exact ih hcut hoccurs

theorem cut_eq_some_iff (hmark : mark ≠ []) {t before after : Text} :
    t.cut mark = some (before, after) ↔
      t = before ++ mark ++ after ∧ ¬ mark <:+: before ++ mark.dropLast := by
  constructor
  · intro h
    exact ⟨cut_eq_some h, not_infix_of_cut hmark h⟩
  · rintro ⟨rfl, h⟩
    exact cut_append before mark h hmark after

/-- A mark does not begin among characters other than its first. -/
theorem infix_of_append {m : Char} {ms back : Text} (front : Text) (hfront : m ∉ front)
    (h : (m :: ms) <:+: front ++ back) : (m :: ms) <:+: back := by
  induction front with
  | nil => exact h
  | cons c cs ih =>
      rcases List.infix_cons_iff.mp h with hstarts | hoccurs
      · obtain ⟨rfl, -⟩ := List.cons_prefix_cons.mp hstarts
        exact absurd List.mem_cons_self hfront
      · exact ih (fun hmem => hfront (List.mem_cons_of_mem c hmem)) hoccurs

end Text

end Tsql
