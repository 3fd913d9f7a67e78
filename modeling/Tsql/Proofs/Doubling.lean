import Mathlib.Algebra.Group.Nat.Even
import Tsql.Proofs.Quoting

/-!
# Doubled delimiters

Quoting writes every closing delimiter of a name twice, and taking the
name out again reads them from the left, two as one. So nothing is lost on
the way there and back, for any name (`unquoteName_quoteName`). On the way
from a text to its name and back everything depends on the runs of closing
delimiters between the outer ones: the text comes back just if each has an
even length (`doubled_undoubled_iff`). An odd one would be closed by a
delimiter that was not there.
-/

namespace Tsql

/-! ## Runs -/

/-- Every run of `c` in a text has an even length, so that it is made up of
pairs. -/
def InPairs (c : Char) (text : Text) : Prop :=
  ∀ before n after, text = before ++ (List.replicate n c ++ after) →
    before.getLast? ≠ some c → after.head? ≠ some c → Even n

variable {c d : Char} {ds : Text}

theorem inPairs_nil (c : Char) : InPairs c [] := by
  intro before n after heq _ _
  obtain ⟨-, heq⟩ := List.append_eq_nil_iff.mp heq.symm
  obtain rfl : n = 0 := by simpa using congrArg List.length (List.append_eq_nil_iff.mp heq).1
  exact Even.zero

/-- Another character is in no run. -/
theorem inPairs_cons_of_ne (h : d ≠ c) : InPairs c (d :: ds) ↔ InPairs c ds := by
  constructor
  · intro hpairs before n after heq hbefore hafter
    refine hpairs (d :: before) n after (by rw [heq, List.cons_append]) ?_ hafter
    cases before with
    | nil => simpa using h
    | cons b bs => rwa [List.getLast?_cons_cons]
  · intro hpairs before n after heq hbefore hafter
    cases before with
    | nil =>
        cases n with
        | zero => exact Even.zero
        | succ n => exact absurd (List.cons.inj heq).1 h
    | cons b bs =>
        refine hpairs bs n after (List.cons.inj heq).2 ?_ hafter
        cases bs with
        | nil => simp
        | cons b' bs => rwa [List.getLast?_cons_cons] at hbefore

/-- A pair in front belongs to one run with what follows it. -/
theorem inPairs_pair : InPairs c (c :: c :: ds) ↔ InPairs c ds := by
  constructor
  · intro hpairs before n after heq hbefore hafter
    cases before with
    | nil =>
        have hlonger := hpairs [] (n + 2) after (by rw [heq]; rfl) hbefore hafter
        exact (Nat.even_add.mp hlonger).mpr (Nat.even_iff.mpr rfl)
    | cons b bs =>
        refine hpairs (c :: c :: b :: bs) n after (by rw [heq]; rfl) ?_ hafter
        rwa [List.getLast?_cons_cons, List.getLast?_cons_cons]
  · intro hpairs before n after heq hbefore hafter
    match before with
    | [] =>
        match n with
        | 0 => exact Even.zero
        | 1 =>
            obtain rfl := (List.cons.inj heq).2
            simp at hafter
        | n + 2 =>
            have hrest : ds = [] ++ (List.replicate n c ++ after) :=
              (List.cons.inj (List.cons.inj heq).2).2
            exact (hpairs [] n after hrest hbefore hafter).add (Nat.even_iff.mpr rfl)
    | [b] =>
        obtain rfl := (List.cons.inj heq).1
        simp at hbefore
    | b :: b' :: bs =>
        refine hpairs bs n after (List.cons.inj (List.cons.inj heq).2).2 ?_ hafter
        cases bs with
        | nil => simp
        | cons e es => rwa [List.getLast?_cons_cons, List.getLast?_cons_cons] at hbefore

theorem not_inPairs_of_alone (h : ds.head? ≠ some c) : ¬ InPairs c (c :: ds) := by
  intro hpairs
  exact Nat.not_even_one (hpairs [] 1 ds rfl (by simp) h)

/-- Undoubling loses nothing that doubling does not put back just where all
runs have even length. -/
theorem doubled_undoubled_iff (c : Char) (text : Text) :
    doubled c (undoubled c text) = text ↔ InPairs c text := by
  fun_induction undoubled c text with
  | case1 => simp [doubled, inPairs_nil]
  | case2 d =>
      by_cases hd : d = c
      · have halone : ¬ InPairs c [c] := not_inPairs_of_alone (by simp)
        simp [hd, doubled, halone]
      · simp [doubled, hd, inPairs_cons_of_ne hd, inPairs_nil]
  | case3 d e ds hpair ih =>
      obtain ⟨rfl, rfl⟩ := hpair
      rw [doubled, if_pos rfl, inPairs_pair, ← ih]
      simp
  | case4 d e ds hpair ih =>
      by_cases hd : d = c
      · have he : e ≠ c := fun he => hpair ⟨hd, he⟩
        rw [hd, doubled, if_pos rfl]
        have halone : ¬ InPairs c (c :: e :: ds) := not_inPairs_of_alone (by simpa using he)
        simp [halone, Ne.symm he]
      · rw [doubled, if_neg hd, inPairs_cons_of_ne hd, ← ih]
        simp

/-! ## Names in quotes -/

/-- A text between delimiters, with what stands between them. -/
theorem exists_inner {q : Quote} {text : Text} (hlength : 2 ≤ text.length)
    (hopens : text.head? = some q.opener) (hcloses : text.getLast? = some q.closer) :
    ∃ inner, text = q.opener :: (inner ++ [q.closer]) := by
  obtain ⟨cs, rfl⟩ := List.head?_eq_some_iff.mp hopens
  match cs with
  | [] => exact absurd hlength (by simp)
  | c :: cs =>
      rw [List.getLast?_cons_cons] at hcloses
      obtain ⟨inner, hinner⟩ := List.getLast?_eq_some_iff.mp hcloses
      exact ⟨inner, by rw [hinner]⟩

/-- Every name comes back out of its quotes, and the quotes are told by the
text, so that different names or quotes give different texts. A text
between delimiters comes back from the name it stands for just if every run
of closing delimiters inside is made up of pairs. -/
theorem quotes_undone (q : Quote) :
    (∀ name, Quote.of? (quoteName name (some q)) = some q ∧
      unquoteName (quoteName name (some q)) = name) ∧
    (∀ name name' q', quoteName name (some q) = quoteName name' (some q') →
      name = name' ∧ q = q') ∧
    (∀ text : Text, 2 ≤ text.length → text.head? = some q.opener →
      text.getLast? = some q.closer →
      (quoteName (unquoteName text) (Quote.of? text) = text ↔
        InPairs q.closer text.tail.dropLast)) := by
  refine ⟨fun name => ⟨of?_quoteName name q, unquoteName_quoteName name q⟩, ?_, ?_⟩
  · intro name name' q' heq
    constructor
    · rw [← unquoteName_quoteName name q, heq, unquoteName_quoteName]
    · have hquotes := of?_quoteName name q
      rw [heq, of?_quoteName] at hquotes
      exact (Option.some.inj hquotes).symm
  · intro text hlength hopens hcloses
    obtain ⟨inner, rfl⟩ := exists_inner hlength hopens hcloses
    have hquote : Quote.of? (q.opener :: (inner ++ [q.closer])) = some q :=
      (of?_eq_some_iff _ _).mpr (delimits_cons_concat q inner)
    rw [unquoteName, hquote, ← doubled_undoubled_iff]
    simp [quoteName]

/-- Runs of two and of four closing delimiters, the second at the end, with
delimiters of the other sort. -/
def pairedName : Text := "[a]]\"[b]]]]]".toList

/-- A run of three closing delimiters. -/
def unpairedName : Text := "\"a\"\"\"b\"".toList

theorem quotes_undone_runs :
    unquoteName pairedName = "a]\"[b]]".toList ∧
    quoteName (unquoteName pairedName) (Quote.of? pairedName) = pairedName ∧
    InPairs ']' pairedName.tail.dropLast ∧
    unquoteName unpairedName = "a\"\"b".toList ∧
    quoteName (unquoteName unpairedName) (Quote.of? unpairedName) ≠ unpairedName ∧
    ¬ InPairs '"' unpairedName.tail.dropLast := by
  have hbracket := (quotes_undone .bracket).2.2 pairedName (by decide) (by decide) (by decide)
  have hdouble := (quotes_undone .double).2.2 unpairedName (by decide) (by decide) (by decide)
  have hback : quoteName (unquoteName pairedName) (Quote.of? pairedName) = pairedName := by decide
  have hlost : quoteName (unquoteName unpairedName) (Quote.of? unpairedName) ≠ unpairedName := by
    decide
  exact ⟨by decide, hback, hbracket.mp hback, by decide, hlost, fun h => hlost (hdouble.mpr h)⟩

end Tsql
