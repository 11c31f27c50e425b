import Mathlib.Tactic.Common
import Mathlib.Data.List.Infix
import ApiClient.Xml.Scanner

/-!
# Where markup is cut

* `cutWhen_eq_some`, `cutBalanced_eq_some`, `cutUnquoted_eq_some`, `cut_eq_some`: a cut takes the
  content and the bracket behind it, whatever follows them;
* `kind_append`: neither does the kind of markup depend on what follows;
* `cutWhen_append`: a cut at the first bracket behind the right ending;
* `cut_literal`, `cut_comment`, `cut_instruction`: content without its own end mark is cut behind
  it;
* `Closed`: content of a tag with every quote closed and every bracket between quotes;
* `Closed.cut`: such content is cut behind itself.
-/

namespace ApiClient.Xml.Markup

/-! ## What a cut leaves -/

theorem cutWhen_eq_some {ends : List Char → Bool} {before s content rest : List Char}
    (h : cutWhen ends before s = some (content, rest)) :
    ∃ inner, content = before.reverse ++ inner ∧ s = inner ++ '>' :: rest ∧
      ∀ more, cutWhen ends before (inner ++ '>' :: more) = some (content, more) := by
  induction s generalizing before with
  | nil => cases h
  | cons c s ih =>
    rw [cutWhen] at h
    split_ifs at h with hc
    · cases h
      obtain ⟨rfl, he⟩ := hc
      exact ⟨[], by simp, rfl, fun more => by simp [cutWhen, he]⟩
    · obtain ⟨inner, hcontent, hs, hmore⟩ := ih h
      refine ⟨c :: inner, by simp [hcontent], by rw [hs, List.cons_append], fun more => ?_⟩
      rw [List.cons_append, cutWhen, if_neg hc, hmore]

theorem cutBalanced_eq_some {depth : Nat} {before s content rest : List Char}
    (h : cutBalanced depth before s = some (content, rest)) :
    ∃ inner, content = before.reverse ++ inner ∧ s = inner ++ '>' :: rest ∧
      ∀ more, cutBalanced depth before (inner ++ '>' :: more) = some (content, more) := by
  induction s generalizing depth before with
  | nil => cases h
  | cons c s ih =>
    rw [cutBalanced] at h
    split_ifs at h with hc hd ho
    · cases h
      exact ⟨[], by simp, by rw [hc]; rfl, fun more => by simp [cutBalanced, hd]⟩
    all_goals
      obtain ⟨inner, hcontent, hs, hmore⟩ := ih h
      refine ⟨c :: inner, by simp [hcontent], by rw [hs, List.cons_append], fun more => ?_⟩
      rw [List.cons_append, cutBalanced]
    · rw [if_pos hc, if_neg hd, hmore]
    · rw [if_neg hc, if_pos ho, hmore]
    · rw [if_neg hc, if_neg ho, hmore]

theorem cutUnquoted_eq_some {quote? : Option Char} {before s content rest : List Char}
    (h : cutUnquoted quote? before s = some (content, rest)) :
    ∃ inner, content = before.reverse ++ inner ∧ s = inner ++ '>' :: rest ∧
      ∀ more, cutUnquoted quote? before (inner ++ '>' :: more) = some (content, more) := by
  induction s generalizing quote? before with
  | nil => cases h
  | cons c s ih =>
    cases quote? with
    | some quote =>
      obtain ⟨inner, hcontent, hs, hmore⟩ := ih h
      exact ⟨c :: inner, by simp [hcontent], by rw [hs, List.cons_append], hmore⟩
    | none =>
      simp only [cutUnquoted] at h
      by_cases hc : c = '>'
      · rw [if_pos hc] at h
        cases h
        exact ⟨[], by simp, by rw [hc]; rfl, fun more => by simp [cutUnquoted]⟩
      · rw [if_neg hc] at h
        obtain ⟨inner, hcontent, hs, hmore⟩ := ih h
        refine ⟨c :: inner, by simp [hcontent], by rw [hs, List.cons_append], fun more => ?_⟩
        simp only [List.cons_append, cutUnquoted, if_neg hc]
        exact hmore more

/-- A cut takes the content and the bracket behind it, whatever follows them. -/
theorem cut_eq_some {kind : Kind} {s content rest : List Char}
    (h : kind.cut s = some (content, rest)) :
    s = content ++ '>' :: rest ∧
      ∀ more, kind.cut (content ++ '>' :: more) = some (content, more) := by
  cases kind with
  | literal | comment | instruction =>
    obtain ⟨inner, rfl, hs, hmore⟩ := cutWhen_eq_some h
    exact ⟨hs, hmore⟩
  | doctype =>
    obtain ⟨inner, rfl, hs, hmore⟩ := cutBalanced_eq_some h
    exact ⟨hs, hmore⟩
  | tag =>
    obtain ⟨inner, rfl, hs, hmore⟩ := cutUnquoted_eq_some h
    exact ⟨hs, hmore⟩

theorem kind_cons_cons (c d : Char) (s t : List Char) :
    kind? (c :: d :: s) = kind? (c :: d :: t) := by
  by_cases hc : c = '!'
  · subst hc
    by_cases hl : d = '['
    · subst hl
      rfl
    · by_cases hd : d = '-'
      · subst hd
        rfl
      · simp [kind?]
  · by_cases hq : c = '?'
    · subst hq
      rfl
    · simp [kind?, hc, hq]

/-- The kind of markup does not depend on what follows its first bracket. -/
theorem kind_append {kind : Kind} {content rest : List Char}
    (h : kind? (content ++ '>' :: rest) = .ok kind) (more : List Char) :
    kind? (content ++ '>' :: more) = .ok kind := by
  match content with
  | [] => exact h
  | [c] => exact (kind_cons_cons c '>' more rest).trans h
  | c :: d :: content => exact (kind_cons_cons c d _ _).trans h

/-! ## Cuts behind an end mark -/

/-- The cut is at the bracket behind `content`, if `ends` holds there and at no bracket in it. -/
theorem cutWhen_append {ends : List Char → Bool} (content rest : List Char) {before : List Char}
    (hin : ∀ a b, content = a ++ '>' :: b → ends (a.reverse ++ before) = false)
    (hend : ends (content.reverse ++ before) = true) :
    cutWhen ends before (content ++ '>' :: rest) = some (before.reverse ++ content, rest) := by
  induction content generalizing before with
  | nil =>
    have he : ends before = true := hend
    simp [cutWhen, he]
  | cons c content ih =>
    have hc : ¬ (c = '>' ∧ ends before = true) := by
      rintro ⟨rfl, he⟩
      have hf := hin [] content rfl
      rw [List.reverse_nil, List.nil_append, he] at hf
      cases hf
    rw [List.cons_append, cutWhen, if_neg hc, ih]
    · simp
    · intro a b hab
      have hf := hin (c :: a) b (by rw [hab, List.cons_append])
      simpa using hf
    · simpa using hend

/-- A mark does not begin in a text without its first character. -/
theorem infix_of_infix_append {x : Char} {m before s : List Char} (hx : x ∉ before)
    (h : x :: m <:+: before ++ s) : x :: m <:+: s := by
  induction before with
  | nil => exact h
  | cons c before ih =>
    rw [List.cons_append, List.infix_cons_iff] at h
    rcases h with h | h
    · rw [List.cons_prefix_cons] at h
      exact absurd (h.1 ▸ List.mem_cons_self) hx
    · exact ih (fun hm => hx (List.mem_cons_of_mem c hm)) h

/-- A mark does not end in a text without its last character. -/
theorem infix_of_infix_append_right {x : Char} {m s after : List Char} (hx : x ∉ after)
    (h : m ++ [x] <:+: s ++ after) : m ++ [x] <:+: s := by
  rw [← List.reverse_infix, List.reverse_append] at h ⊢
  rw [List.reverse_append] at h
  exact infix_of_infix_append (by simpa using hx) h

theorem endsLiteral_reverse {a : List Char} (h : endsLiteral a.reverse = true) :
    ∃ a', a = a' ++ [']', ']'] := by
  unfold endsLiteral at h
  split at h
  · next r heq => exact ⟨r.reverse, by rw [← List.reverse_reverse a, heq]; simp⟩
  · cases h

theorem endsComment_reverse {a : List Char} (h : endsComment a.reverse = true) :
    ∃ a', a = a' ++ ['-', '-'] ∧ 2 < a'.length := by
  unfold endsComment at h
  split at h
  · next r heq =>
    refine ⟨r.reverse, by rw [← List.reverse_reverse a, heq]; simp, ?_⟩
    simpa using h
  · cases h

theorem endsInstruction_reverse {a : List Char} (h : endsInstruction a.reverse = true) :
    ∃ a', a = a' ++ ['?'] := by
  unfold endsInstruction at h
  split at h
  · next r heq => exact ⟨r.reverse, by rw [← List.reverse_reverse a, heq]; simp⟩
  · cases h

/-- Character data without `]]>` is cut behind its end mark. -/
theorem cut_literal {s : List Char} (h : ¬ [']', ']', '>'] <:+: s) (rest : List Char) :
    Kind.literal.cut ("![CDATA[".toList ++ s ++ "]]>".toList ++ rest) =
      some ("![CDATA[".toList ++ s ++ [']', ']'], rest) := by
  have hin : ∀ a b, "![CDATA[".toList ++ s ++ [']', ']'] = a ++ '>' :: b →
      endsLiteral (a.reverse ++ []) = false := by
    intro a b hab
    by_contra he
    rw [Bool.not_eq_false, List.append_nil] at he
    obtain ⟨a', rfl⟩ := endsLiteral_reverse he
    have hi : [']', ']', '>'] <:+: "![CDATA[".toList ++ s ++ [']', ']'] :=
      ⟨a', b, by rw [hab]; simp⟩
    rw [List.append_assoc] at hi
    have hi := infix_of_infix_append (by decide) hi
    exact h (infix_of_infix_append_right (m := [']', ']']) (by decide) hi)
  have hcut := cutWhen_append _ rest hin (by simp [endsLiteral])
  simpa [Kind.cut] using hcut

/-- A comment without `-->` is cut behind its end mark. -/
theorem cut_comment {s : List Char} (h : ¬ ['-', '-', '>'] <:+: s) (rest : List Char) :
    Kind.comment.cut ("!--".toList ++ s ++ "-->".toList ++ rest) =
      some ("!--".toList ++ s ++ ['-', '-'], rest) := by
  have hin : ∀ a b, "!--".toList ++ s ++ ['-', '-'] = a ++ '>' :: b →
      endsComment (a.reverse ++ []) = false := by
    intro a b hab
    by_contra he
    rw [Bool.not_eq_false, List.append_nil] at he
    obtain ⟨a', rfl, hl⟩ := endsComment_reverse he
    -- the hyphens of the opening are not those of the end, since three characters stand before
    obtain ⟨x, y, z, a'', rfl⟩ : ∃ x y z a'', a' = x :: y :: z :: a'' := by
      match a', hl with
      | x :: y :: z :: a'', _ => exact ⟨x, y, z, a'', rfl⟩
    have htail : s ++ ['-', '-'] = a'' ++ ['-', '-', '>'] ++ b := by
      simpa using congrArg (List.drop 3) hab
    exact h (infix_of_infix_append_right (m := ['-', '-']) (by decide) ⟨a'', b, htail.symm⟩)
  have hcut := cutWhen_append _ rest hin (by simp [endsComment])
  simpa [Kind.cut] using hcut

/-- An instruction without `?>` is cut behind its end mark. -/
theorem cut_instruction {s : List Char} (h : ¬ ['?', '>'] <:+: s) (rest : List Char) :
    Kind.instruction.cut ("?xml".toList ++ s ++ "?>".toList ++ rest) =
      some ("?xml".toList ++ s ++ ['?'], rest) := by
  have hin : ∀ a b, "?xml".toList ++ s ++ ['?'] = a ++ '>' :: b →
      endsInstruction (a.reverse ++ []) = false := by
    intro a b hab
    by_contra he
    rw [Bool.not_eq_false, List.append_nil] at he
    obtain ⟨a', rfl⟩ := endsInstruction_reverse he
    have hi : ['?', '>'] <:+: '?' :: ("xml".toList ++ (s ++ ['?'])) :=
      ⟨a', b, by simpa using hab.symm⟩
    rcases List.infix_cons_iff.mp hi with hi | hi
    · simp at hi
    · have hi := infix_of_infix_append (by decide) hi
      exact h (infix_of_infix_append_right (m := ['?']) (by decide) hi)
  have hcut := cutWhen_append _ rest hin (by simp [endsInstruction])
  simpa [Kind.cut] using hcut

/-! ## Cuts outside of quotes -/

/-- Content of a tag in which every quote is closed and every closing bracket is quoted. -/
def Closed (content : List Char) : Prop :=
  ∀ before rest, cutUnquoted none before (content ++ rest) =
    cutUnquoted none (content.reverse ++ before) rest

theorem Closed.append {s t : List Char} (hs : Closed s) (ht : Closed t) : Closed (s ++ t) := by
  intro before rest
  rw [List.append_assoc, hs, ht, List.reverse_append, List.append_assoc]

theorem closed_plain {s : List Char} (h : ∀ c ∈ s, c ≠ '>' ∧ c ≠ '"' ∧ c ≠ '\'') : Closed s := by
  intro before rest
  induction s generalizing before with
  | nil => rfl
  | cons c s ih =>
    obtain ⟨h₁, h₂, h₃⟩ := h c List.mem_cons_self
    rw [List.cons_append, cutUnquoted]
    simp only [h₁, h₂, h₃, or_self, if_false]
    rw [ih fun d hd => h d (List.mem_cons_of_mem c hd)]
    simp

theorem cutUnquoted_quoted {quote : Char} {s : List Char} (h : quote ∉ s)
    (before rest : List Char) :
    cutUnquoted (some quote) before (s ++ quote :: rest) =
      cutUnquoted none (quote :: (s.reverse ++ before)) rest := by
  induction s generalizing before with
  | nil => simp [cutUnquoted]
  | cons c s ih =>
    have hc : c ≠ quote := fun hc => h (hc ▸ List.mem_cons_self)
    rw [List.cons_append, cutUnquoted]
    simp only [hc, if_false]
    rw [ih fun hm => h (List.mem_cons_of_mem c hm)]
    simp

theorem closed_quoted {quote : Char} (hq : quote = '"' ∨ quote = '\'') {s : List Char}
    (h : quote ∉ s) : Closed (quote :: (s ++ [quote])) := by
  intro before rest
  have hne : quote ≠ '>' := by rcases hq with rfl | rfl <;> decide
  rw [List.cons_append, cutUnquoted]
  simp only [hne, hq, if_false, if_true]
  rw [List.append_assoc, List.singleton_append, cutUnquoted_quoted h]
  simp

theorem Closed.cut {content : List Char} (h : Closed content) (rest : List Char) :
    Kind.tag.cut (content ++ '>' :: rest) = some (content, rest) := by
  rw [Kind.cut, h]
  simp [cutUnquoted]

end ApiClient.Xml.Markup
