import Mathlib.Data.List.Infix
import Tsql.Proofs.TemplateGrammar

/-!
# Conditionals that are open

While a template is read, the builder's stack holds the conditionals that
are open. What it holds can be told from the segments read so far, by
counting the tags that open and close conditionals: each frame comes from
an opening tag, behind which as many more are opened than closed as there
are frames inside, and a frame in its last part comes from an `#else` tag
besides (`Follows`). A run keeps to this (`follows_of_foldlM`), so that a
segment the builder refuses is refused for something that stands before
it (`Follows.fault_of_step`).
-/

namespace Tsql

namespace Template

variable {registry : Registry}

/-! ## Depth -/

def openings (segments : List Segment) : Nat := segments.countP (·.role = .opening)

def closings (segments : List Segment) : Nat := segments.countP (·.role = .closing)

/-- The segments never leave the conditional they begin in: what is closed
was opened among them. At their end `depth` of those are still open. -/
structure Within (segments : List Segment) (depth : Nat) : Prop where
  inside : ∀ front, front <+: segments → closings front ≤ openings front
  open_eq : closings segments + depth = openings segments

theorem within_nil : Within [] 0 := by
  refine ⟨fun front hfront => ?_, rfl⟩
  rw [List.prefix_nil.mp hfront]
  exact Nat.le_refl 0

theorem Within.concat {segments : List Segment} {s : Segment} {depth depth' : Nat}
    (h : Within segments depth) (hs : closings [s] + depth' = openings [s] + depth) :
    Within (segments ++ [s]) depth' := by
  have hopen := h.open_eq
  have hwhole : closings (segments ++ [s]) + depth' = openings (segments ++ [s]) := by
    simp only [closings, openings, List.countP_append] at hs hopen ⊢
    omega
  refine ⟨fun front hfront => ?_, hwhole⟩
  rcases List.prefix_concat_iff.mp hfront with rfl | hfront
  · omega
  · exact h.inside front hfront

/-- Some tag of a kind, with `depth` conditionals opened behind it that
are still open. -/
def HasTag (segments : List Segment) (depth : Nat) (kind : WrittenTag → Prop) : Prop :=
  ∃ before w behind, segments = before ++ .tag w :: behind ∧ kind w ∧ Within behind depth

theorem hasTag_concat_self {kind : WrittenTag → Prop} {w : WrittenTag} (hw : kind w)
    (segments : List Segment) : HasTag (segments ++ [.tag w]) 0 kind :=
  ⟨segments, w, [], rfl, hw, within_nil⟩

theorem HasTag.concat {segments : List Segment} {s : Segment} {depth depth' : Nat}
    {kind : WrittenTag → Prop} (h : HasTag segments depth kind)
    (hs : closings [s] + depth' = openings [s] + depth) :
    HasTag (segments ++ [s]) depth' kind := by
  obtain ⟨before, w, behind, rfl, hw, hbehind⟩ := h
  exact ⟨before, w, behind ++ [s], by simp, hw, hbehind.concat hs⟩

theorem closings_singleton (s : Segment) : closings [s] = if s.role = .closing then 1 else 0 := by
  simp [closings, List.countP_cons]

theorem openings_singleton (s : Segment) : openings [s] = if s.role = .opening then 1 else 0 := by
  simp [openings, List.countP_cons]

/-- Only the first and the last tag of a conditional change the depth. -/
theorem closings_add_eq {s : Segment} (hopens : s.role ≠ .opening) (hcloses : s.role ≠ .closing)
    (depth : Nat) : closings [s] + depth = openings [s] + depth := by
  rw [closings_singleton, openings_singleton, if_neg hopens, if_neg hcloses]

/-! ## What the stack holds -/

/-- The frames of a builder come from the segments read. -/
structure Follows (segments : List Segment) (b : Builder) : Prop where
  within : Within segments b.frames.length
  opened : ∀ i f, b.frames[i]? = some f →
    HasTag segments i fun w => w.role = .opening ∧ w.position = f.opened
  last : ∀ i f, b.frames[i]? = some f → f.condition = none →
    HasTag segments i fun w => w.role = .otherwise

theorem follows_start : Follows [] .start := by
  refine ⟨within_nil, ?_, ?_⟩
  · intro i f hf
    cases hf
  · intro i f hf
    cases hf

/-- A segment that changes no frame. -/
theorem Follows.keep {segments : List Segment} {b b' : Builder} {s : Segment}
    (h : Follows segments b) (hframes : b'.frames = b.frames) (hopens : s.role ≠ .opening)
    (hcloses : s.role ≠ .closing) : Follows (segments ++ [s]) b' := by
  have hs := closings_add_eq hopens hcloses
  refine ⟨?_, ?_, ?_⟩
  · rw [hframes]
    exact h.within.concat (hs _)
  · intro i f hf
    exact (h.opened i f (hframes ▸ hf)).concat (hs i)
  · intro i f hf hlast
    exact (h.last i f (hframes ▸ hf) hlast).concat (hs i)

/-- A segment that changes the innermost frame. -/
theorem Follows.replace {segments : List Segment} {s : Segment} {nodes nodes' : List Node}
    {f f' : Frame} {fs : List Frame} (h : Follows segments ⟨nodes, f :: fs⟩)
    (hopens : s.role ≠ .opening) (hcloses : s.role ≠ .closing) (hf' : f'.opened = f.opened)
    (hlast' : f'.condition = none → HasTag (segments ++ [s]) 0 fun w => w.role = .otherwise) :
    Follows (segments ++ [s]) ⟨nodes', f' :: fs⟩ := by
  have hs := closings_add_eq hopens hcloses
  refine ⟨h.within.concat (hs _), ?_, ?_⟩
  · intro i g hg
    cases i with
    | zero =>
        cases hg
        rw [hf']
        exact (h.opened 0 f rfl).concat (hs 0)
    | succ i => exact (h.opened (i + 1) g hg).concat (hs (i + 1))
  · intro i g hg hlast
    cases i with
    | zero =>
        cases hg
        exact hlast' hlast
    | succ i => exact (h.last (i + 1) g hg hlast).concat (hs (i + 1))

theorem Follows.openIf {segments : List Segment} {b : Builder} {w : WrittenTag}
    {condition : Argument} (h : Follows segments b) (hw : w.IsIf condition) :
    Follows (segments ++ [.tag w])
      ⟨[], ⟨w.position, b.nodes, [], some condition⟩ :: b.frames⟩ := by
  have hrole : (Segment.tag w).role = .opening := hw.role_eq
  have hs : ∀ depth, closings [.tag w] + (depth + 1) = openings [.tag w] + depth := by
    intro depth
    rw [closings_singleton, openings_singleton, hrole]
    exact (Nat.zero_add _).trans (Nat.add_comm depth 1)
  refine ⟨h.within.concat (hs _), ?_, ?_⟩
  · intro i f hf
    cases i with
    | zero =>
        cases hf
        exact hasTag_concat_self ⟨hw.role_eq, rfl⟩ segments
    | succ i => exact (h.opened i f hf).concat (hs i)
  · intro i f hf hlast
    cases i with
    | zero =>
        cases hf
        cases hlast
    | succ i => exact (h.last i f hf hlast).concat (hs i)

theorem Follows.close {segments : List Segment} {nodes nodes' : List Node} {w : WrittenTag}
    {f : Frame} {fs : List Frame} (h : Follows segments ⟨nodes, f :: fs⟩) (hw : w.IsClose) :
    Follows (segments ++ [.tag w]) ⟨nodes', fs⟩ := by
  have hrole : (Segment.tag w).role = .closing := hw.role_eq
  have hs : ∀ depth, closings [.tag w] + depth = openings [.tag w] + (depth + 1) := by
    intro depth
    rw [closings_singleton, openings_singleton, hrole]
    exact (Nat.add_comm 1 depth).trans (Nat.zero_add _).symm
  refine ⟨h.within.concat (hs _), ?_, ?_⟩
  · intro i g hg
    exact (h.opened (i + 1) g hg).concat (hs i)
  · intro i g hg hlast
    exact (h.last (i + 1) g hg hlast).concat (hs i)

theorem Follows.step {segments : List Segment} {b b' : Builder} {s : Segment}
    (h : Follows segments b) (hstep : Step registry b s b') : Follows (segments ++ [s]) b' := by
  cases hstep with
  | text => exact h.keep rfl nofun nofun
  | @placeholder _ w hw =>
      have hrole : (Segment.tag w).role = .placeholder := hw.role_eq
      exact h.keep rfl (hrole ▸ nofun) (hrole ▸ nofun)
  | @custom _ w hw =>
      have hrole : (Segment.tag w).role = .custom := hw.role_eq
      exact h.keep rfl (hrole ▸ nofun) (hrole ▸ nofun)
  | openIf hw => exact h.openIf hw
  | @nextArm nodes f fs w condition next hw hf =>
      have hrole : (Segment.tag w).role = .elif := hw.role_eq
      exact h.replace (hrole ▸ nofun) (hrole ▸ nofun) rfl nofun
  | @otherwise nodes f fs w condition hw hf =>
      have hrole : (Segment.tag w).role = .otherwise := hw.role_eq
      exact h.replace (hrole ▸ nofun) (hrole ▸ nofun) rfl
        fun _ => hasTag_concat_self hw.role_eq segments
  | close hw => exact h.close hw

/-- A run keeps to the segments it reads. -/
theorem Follows.foldlM {done segments : List Segment} {b b' : Builder} (h : Follows done b)
    (hrun : segments.foldlM (Builder.step registry) b = .ok b') :
    Follows (done ++ segments) b' := by
  induction segments generalizing done b with
  | nil =>
      cases hrun
      rwa [List.append_nil]
  | cons s more ih =>
      obtain ⟨next, hstep, hmore⟩ := foldlM_cons_eq_ok hrun
      rw [List.append_cons]
      exact ih (h.step hstep) hmore

theorem follows_of_foldlM {segments : List Segment} {b : Builder}
    (h : segments.foldlM (Builder.step registry) .start = .ok b) : Follows segments b :=
  follows_start.foldlM h

/-! ## What a segment is refused for -/

/-- How many arguments a tag is to have. Those of a closing tag are not
counted. -/
def WrittenTag.expected? (registry : Registry) (w : WrittenTag) : Option Nat :=
  match w.role with
  | .placeholder | .otherwise => some 0
  | .opening | .elif => some 1
  | .custom => (registry.find? w.name).map (·.parameters.length)
  | .closing | .text => none

/-- A tag that its place does not allow, behind these segments. -/
inductive Misplaced (before : List Segment) (w : WrittenTag) : Prop where
  /-- No conditional is open -/
  | outside (stops : w.role.stops = true) (closed : Within before 0)
  /-- The conditional is in its last part -/
  | behindElse (goesOn : w.role = .elif ∨ w.role = .otherwise)
      (last : HasTag before 0 fun v => v.role = .otherwise)
  /-- What is to be closed is no conditional -/
  | otherName (closes : w.role = .closing) (name : w.name ≠ "if".toList)

/-- What is wrong with a tag behind these segments. -/
inductive Fault (registry : Registry) (before : List Segment) (w : WrittenTag) : Error → Prop where
  | count {expected : Nat} (expects : w.expected? registry = some expected)
      (found : w.arguments.length ≠ expected) :
      Fault registry before w (.argumentCount w.name expected w.arguments.length)
  | unknown (custom : w.role = .custom) (unknown : registry.find? w.name = none) :
      Fault registry before w (.unknownTag w.name w.position)
  | misplaced (misplaced : Misplaced before w) :
      Fault registry before w (.unexpectedTag w.label w.position)

theorem bind_eq_error {ε α β : Type} {x : Except ε α} {f : α → Except ε β} {e : ε}
    (h : (x >>= f) = .error e) : x = .error e ∨ ∃ a, x = .ok a ∧ f a = .error e := by
  cases x with
  | error e' =>
      cases h
      exact .inl rfl
  | ok a => exact .inr ⟨a, rfl, h⟩

section Refusals

variable {before : List Segment} {b : Builder} {w : WrittenTag} {e : Error}

theorem fault_of_onlyArgument (hexpected : w.expected? registry = some 1)
    (h : Builder.onlyArgument w = .error e) : Fault registry before w e := by
  rw [Builder.onlyArgument] at h
  split at h
  · cases h
  · rename_i hnot
    cases h
    refine .count hexpected fun hlength => ?_
    obtain ⟨a, ha⟩ := List.length_eq_one_iff.mp hlength
    exact hnot a ha

theorem fault_of_placeholder (hrole : w.role = .placeholder) (h : b.placeholder w = .error e) :
    Fault registry before w e := by
  rw [Builder.placeholder] at h
  split at h
  · cases h
  · rename_i hnot
    cases h
    refine .count (by rw [WrittenTag.expected?, hrole]) fun hlength => ?_
    exact hnot (List.length_eq_zero_iff.mp hlength)

theorem fault_of_openIf (hrole : w.role = .opening) (h : b.openIf w = .error e) :
    Fault registry before w e := by
  rcases bind_eq_error h with harguments | ⟨condition, -, hok⟩
  · exact fault_of_onlyArgument (by rw [WrittenTag.expected?, hrole]) harguments
  · cases hok

theorem Follows.fault_of_nextArm (hb : Follows before b) (hrole : w.role = .elif)
    (h : b.nextArm w = .error e) : Fault registry before w e := by
  obtain ⟨nodes, _ | ⟨f, fs⟩⟩ := b
  · cases h
    exact .misplaced (.outside (by rw [hrole]; rfl) hb.within)
  · simp only [Builder.nextArm] at h
    split at h
    · rename_i hlast
      cases h
      exact .misplaced (.behindElse (.inl hrole) (hb.last 0 f rfl hlast))
    · rcases bind_eq_error h with harguments | ⟨next, -, hok⟩
      · exact fault_of_onlyArgument (by rw [WrittenTag.expected?, hrole]) harguments
      · cases hok

theorem Follows.fault_of_otherwise (hb : Follows before b) (hrole : w.role = .otherwise)
    (h : b.otherwise w = .error e) : Fault registry before w e := by
  obtain ⟨nodes, _ | ⟨f, fs⟩⟩ := b
  · cases h
    exact .misplaced (.outside (by rw [hrole]; rfl) hb.within)
  · simp only [Builder.otherwise] at h
    split at h
    · rename_i hlast
      cases h
      exact .misplaced (.behindElse (.inr hrole) (hb.last 0 f rfl hlast))
    · cases h
    · rename_i hnot
      cases h
      refine .count (by rw [WrittenTag.expected?, hrole]) fun hlength => ?_
      exact hnot (List.length_eq_zero_iff.mp hlength)

theorem Follows.fault_of_close (hb : Follows before b) (hrole : w.role = .closing)
    (h : b.close w = .error e) : Fault registry before w e := by
  obtain ⟨nodes, _ | ⟨f, fs⟩⟩ := b
  · cases h
    exact .misplaced (.outside (by rw [hrole]; rfl) hb.within)
  · simp only [Builder.close] at h
    split at h
    · cases h
    · rename_i hname
      cases h
      exact .misplaced (.otherName hrole hname)

theorem fault_of_custom (hrole : w.role = .custom) (h : b.custom registry w = .error e) :
    Fault registry before w e := by
  rw [Builder.custom] at h
  split at h
  · rename_i hfind
    cases h
    exact .unknown hrole hfind
  · rename_i tag hfind
    split at h
    · cases h
    · rename_i hcount
      cases h
      exact .count (by rw [WrittenTag.expected?, hrole, hfind]; rfl) hcount

/-- A segment the builder refuses is a tag with something wrong about it,
given the segments before it. -/
theorem Follows.fault_of_step {s : Segment} (hb : Follows before b)
    (h : b.step registry s = .error e) : ∃ w, s = .tag w ∧ Fault registry before w e := by
  cases s with
  | text content => cases h
  | tag w =>
      refine ⟨w, rfl, ?_⟩
      cases hsign : w.sign with
      | plain =>
          have hrole : w.role = .placeholder := by simp only [WrittenTag.role, hsign]
          simp only [Builder.step, hsign] at h
          exact fault_of_placeholder hrole h
      | closing =>
          have hrole : w.role = .closing := by simp only [WrittenTag.role, hsign]
          simp only [Builder.step, hsign] at h
          exact hb.fault_of_close hrole h
      | opening =>
          have hrole : w.role =
              if w.name = "if".toList then .opening
              else if w.name = "elif".toList ∨ w.name = "elseif".toList then .elif
              else if w.name = "else".toList then .otherwise
              else .custom := by
            simp only [WrittenTag.role, hsign]
          simp only [Builder.step, hsign] at h
          split at h
          · rename_i hif
            exact fault_of_openIf (hrole.trans (if_pos hif)) h
          rename_i hif
          rw [if_neg hif] at hrole
          split at h
          · rename_i helif
            exact hb.fault_of_nextArm (hrole.trans (if_pos helif)) h
          rename_i helif
          rw [if_neg helif] at hrole
          split at h
          · rename_i helse
            exact hb.fault_of_otherwise (hrole.trans (if_pos helse)) h
          · rename_i helse
            exact fault_of_custom (hrole.trans (if_neg helse)) h

/-- What is left open at the end is the innermost conditional. -/
theorem Follows.unclosed {segments : List Segment} (hb : Follows segments b)
    (h : b.finish = .error e) :
    ∃ position, e = .unclosedBlock "if".toList position ∧
      HasTag segments 0 fun w => w.role = .opening ∧ w.position = position := by
  rw [Builder.finish] at h
  split at h
  · cases h
  · rename_i f fs hframes
    cases h
    exact ⟨f.opened, rfl, hb.opened 0 f (by rw [hframes]; rfl)⟩

end Refusals

/-- A run that fails does so at one of its segments. -/
theorem exists_of_foldlM_eq_error {segments : List Segment} {b : Builder} {e : Error}
    (h : segments.foldlM (Builder.step registry) b = .error e) :
    ∃ before s behind b', segments = before ++ s :: behind ∧
      before.foldlM (Builder.step registry) b = .ok b' ∧ b'.step registry s = .error e := by
  induction segments generalizing b with
  | nil => cases h
  | cons s more ih =>
      rw [List.foldlM_cons] at h
      rcases bind_eq_error h with hstep | ⟨next, hstep, hmore⟩
      · exact ⟨[], s, more, b, rfl, rfl, hstep⟩
      · obtain ⟨before, t, behind, b', rfl, hbefore, ht⟩ := ih hmore
        refine ⟨s :: before, t, behind, b', rfl, ?_, ht⟩
        rw [foldlM_cons_of_step (step_eq_ok_iff.mp hstep)]
        exact hbefore

end Template

end Tsql
