import ApiClient.Glob
import ApiClient.Proofs.Glob.Beginnings

/-!
# Globs that are split

* `Path.join_assoc`, `Path.getLast?_join`: paths behind each other;
* `of_split`: the two parts of a glob;
* `join_eq_iff_of_split`: they give the glob again if the literal one ends with a slash;
* `load_of_split`: what is walked then, and where the files are that the pattern accepts.
-/

namespace ApiClient

namespace Path

/-! ## Paths behind each other -/

/-- What is put between a path and another one behind it. -/
def separator (left : String) : String :=
  if left = "" ∨ left.toList.getLast? = some '/' then "" else "/"

variable {left right : String}

theorem join_absolute (h : isAbsolute right = true) : join left right = right := by
  rw [join, if_pos h]

theorem join_relative (h : isAbsolute right = false) :
    join left right = left ++ separator left ++ right := by
  rw [join, if_neg (by simp [h]), separator]
  simp only [Bool.or_eq_true, String.isEmpty_iff, beq_iff_eq]
  split_ifs
  · rw [String.append_empty]
  · rfl

theorem isAbsolute_append (h : left ≠ "") (right : String) :
    isAbsolute (left ++ right) = isAbsolute left := by
  obtain ⟨c, s, hs⟩ := List.exists_cons_of_ne_nil (mt String.toList_eq_nil_iff.mp h)
  rw [isAbsolute, isAbsolute, String.toList_append, hs]
  rfl

theorem getLast?_append (left : String) (h : right ≠ "") :
    (left ++ right).toList.getLast? = right.toList.getLast? := by
  have hne : right.toList ≠ [] := mt String.toList_eq_nil_iff.mp h
  rw [String.toList_append, List.getLast?_append, List.getLast?_eq_some_getLast hne, Option.some_or]

theorem separator_append (left : String) (h : right ≠ "") :
    separator (left ++ right) = separator right := by
  have hne : left ++ right ≠ "" := fun he => h (String.append_eq_empty_iff.mp he).2
  rw [separator, separator, getLast?_append left h]
  simp only [h, hne, false_or]

theorem separator_append_separator (left : String) : separator (left ++ separator left) = "" := by
  by_cases h : left = "" ∨ left.toList.getLast? = some '/'
  · have hnone : separator left = "" := if_pos h
    rw [hnone, String.append_empty, hnone]
  · have hslash : separator left = "/" := if_neg h
    rw [hslash, separator_append left (by decide)]
    decide

/-- It makes no difference which two of three paths are joined first. -/
theorem join_assoc (a b c : String) : join (join a b) c = join a (join b c) := by
  cases hc : isAbsolute c with
  | true => rw [join_absolute hc, join_absolute hc, join_absolute hc]
  | false =>
    by_cases hb : b = ""
    · have hempty : join "" c = c := by rw [join_relative hc, separator, if_pos (.inl rfl)]; simp
      have hrelative : isAbsolute "" = false := rfl
      rw [hb, hempty, join_relative hrelative, String.append_empty, join_relative hc,
        join_relative hc, separator_append_separator, String.append_empty]
    · rw [join_relative hc, join_relative hc]
      cases habsolute : isAbsolute b with
      | true =>
        have hall : isAbsolute (b ++ separator b ++ c) = true := by
          rw [String.append_assoc, isAbsolute_append hb, habsolute]
        rw [join_absolute habsolute, join_absolute hall]
      | false =>
        have hall : isAbsolute (b ++ separator b ++ c) = false := by
          rw [String.append_assoc, isAbsolute_append hb, habsolute]
        rw [join_relative habsolute, join_relative hall, separator_append _ hb]
        simp only [String.append_assoc]

theorem getLast?_join (left : String) (h : right ≠ "") :
    (join left right).toList.getLast? = right.toList.getLast? := by
  cases habsolute : isAbsolute right with
  | true => rw [join_absolute habsolute]
  | false => rw [join_relative habsolute, getLast?_append _ h]

end Path

namespace Glob

/-- The folder that globs start from. -/
def here (t : Storage) : String := "/" ++ Location.toPath t.here

variable {t : Storage} {g literal rest : String}

/-- The two parts of a glob: nothing special is in the first, and with it the second begins. -/
theorem of_split (h : split g = some (literal, rest)) :
    g = literal ++ rest ∧ literal ≠ "" ∧ (∀ c ∈ rest.toList.head?, isSpecial c = true) := by
  unfold split at h
  dsimp only at h
  split_ifs at h with hempty
  cases h
  refine ⟨?_, fun hnil => hempty ?_, fun c hc => ?_⟩
  · rw [← String.ofList_append, List.takeWhile_append_dropWhile, String.ofList_toList]
  · rw [List.isEmpty_iff, ← String.toList_ofList (l := g.toList.takeWhile _), hnil]
    rfl
  · rw [String.toList_ofList] at hc
    have hnot := List.head?_dropWhile_not (fun c => !isSpecial c) g.toList
    rw [hc] at hnot
    simpa using hnot

theorem isAbsolute_of_split (h : split g = some (literal, rest)) (hrest : rest ≠ "") :
    Path.isAbsolute rest = false := by
  obtain ⟨c, s, hs⟩ := List.exists_cons_of_ne_nil (mt String.toList_eq_nil_iff.mp hrest)
  have hspecial : isSpecial c = true := (of_split h).2.2 c (by rw [hs]; rfl)
  have hslash : isSpecial '/' = false := by decide
  rw [Path.isAbsolute, hs, List.head?_cons, beq_eq_false_iff_ne]
  rintro ⟨⟩
  exact Bool.false_ne_true (hslash.symm.trans hspecial)

/-- Joined again, the two parts are the glob only if the literal one ends with a slash. -/
theorem join_eq_iff_of_split (h : split g = some (literal, rest)) (hrest : rest ≠ "") :
    Path.join literal rest = g ↔ literal.toList.getLast? = some '/' := by
  obtain ⟨hg, hne, -⟩ := of_split h
  rw [Path.join_relative (isAbsolute_of_split h hrest), hg, String.append_assoc, Path.separator]
  by_cases hslash : literal.toList.getLast? = some '/'
  · rw [if_pos (.inr hslash), String.empty_append]
    exact iff_of_true rfl hslash
  · rw [if_neg (not_or.mpr ⟨hne, hslash⟩)]
    refine iff_of_false (fun he => ?_) hslash
    have hlength := congrArg String.length he
    simp only [String.length_append] at hlength
    have hone : "/".length = 1 := by decide
    omega

/-- What a pattern accepts is below the path in front of it, if that ends with a slash and stands
for itself. -/
theorem isPrefix_of_accepts_join {root path : String} (hslash : root.toList.getLast? = some '/')
    (hplain : ∀ c ∈ root.toList, Pattern.IsPlain c) (hrest : Path.isAbsolute rest = false)
    {pieces : List Piece} (hpieces : Pattern.compile (Path.join root rest) = .ok pieces)
    (haccepts : accepts pieces path = true) : root.toList <+: path.toList := by
  obtain ⟨s, hs⟩ := List.getLast?_eq_some_iff.mp hslash
  have hpattern : Path.join root rest = String.ofList (s ++ '/' :: rest.toList) := by
    rw [Path.join_relative hrest, Path.separator, if_pos (.inr hslash), String.append_empty,
      List.append_cons, ← hs, String.ofList_append, String.ofList_toList, String.ofList_toList]
  rw [hpattern] at hpieces
  rw [hs] at hplain ⊢
  exact isPrefix_of_accepts (List.forall_mem_append.mp hplain).1 hpieces haccepts

/-- The folder of the literal part is walked with a pattern that is the glob itself, as seen from
here, only if that part ends with a slash. Then all files that the pattern accepts are in that
folder, provided that its path stands for itself. -/
theorem load_of_split (h : split g = some (literal, rest)) (hrest : rest ≠ "") :
    load t g = walkAndLoad t (Path.join (here t) literal) rest ∧
      Path.join (Path.join (here t) literal) rest = Path.join (here t) (Path.join literal rest) ∧
      (Path.join literal rest = g ↔ literal.toList.getLast? = some '/') ∧
      (literal.toList.getLast? = some '/' →
        (∀ c ∈ (Path.join (here t) literal).toList, Pattern.IsPlain c) →
        ∀ pieces path, Pattern.compile (Path.join (here t) g) = .ok pieces →
          accepts pieces path = true → (Path.join (here t) literal).toList <+: path.toList) := by
  refine ⟨?_, Path.join_assoc _ _ _, join_eq_iff_of_split h hrest, ?_⟩
  · rw [load, h]
    dsimp only
    rw [loadBelow, if_pos (by simpa using hrest)]
    rfl
  · intro hslash hplain pieces path hpieces haccepts
    have hlast := Path.getLast?_join (here t) (of_split h).2.1
    rw [← (join_eq_iff_of_split h hrest).mpr hslash, ← Path.join_assoc] at hpieces
    exact isPrefix_of_accepts_join (hlast.trans hslash) hplain (isAbsolute_of_split h hrest) hpieces
      haccepts

/-- A glob for the files in a folder and the folders inside it. -/
theorem load_of_split_folders :
    split "api/v1/**/*.json" = some ("api/v1/", "**/*.json") ∧ "**/*.json" ≠ "" ∧
      load ⟨[], ["r"]⟩ "api/v1/**/*.json" =
        walkAndLoad ⟨[], ["r"]⟩ "/r/api/v1/" "**/*.json" ∧
      Path.join "api/v1/" "**/*.json" = "api/v1/**/*.json" ∧
      ∃ pieces, Pattern.compile "/r/api/v1/**/*.json" = .ok pieces ∧
        accepts pieces "/r/api/v1/a/b.json" = true ∧
        "/r/api/v1/".toList <+: "/r/api/v1/a/b.json".toList := by
  have hsplit : split "api/v1/**/*.json" = some ("api/v1/", "**/*.json") := by decide +kernel
  have hrest : "**/*.json" ≠ "" := by decide
  obtain ⟨hload, -, hjoin, hbelow⟩ := @load_of_split ⟨[], ["r"]⟩ _ _ _ hsplit hrest
  have hroot : Path.join (here ⟨[], ["r"]⟩) "api/v1/" = "/r/api/v1/" := by decide +kernel
  have hglob : Path.join (here ⟨[], ["r"]⟩) "api/v1/**/*.json" = "/r/api/v1/**/*.json" := by
    decide +kernel
  rw [hroot] at hload hbelow
  rw [hglob] at hbelow
  have hplain : ∀ c ∈ "/r/api/v1/".toList, Pattern.IsPlain c := by simp [Pattern.IsPlain]
  have hpieces : Pattern.compile "/r/api/v1/**/*.json" =
      .ok ("/r/api/v1".toList.map .literal ++
        [.inner, .many, .literal '.', .literal 'j', .literal 's', .literal 'o', .literal 'n']) := by
    rfl
  have haccepts : accepts ("/r/api/v1".toList.map .literal ++
      [.inner, .many, .literal '.', .literal 'j', .literal 's', .literal 'o', .literal 'n'])
        "/r/api/v1/a/b.json" = true := by
    decide +kernel
  exact ⟨hsplit, hrest, hload, hjoin.mpr (by decide), _, hpieces, haccepts,
    hbelow (by decide) hplain _ _ hpieces haccepts⟩

/-- A glob that is split inside of a name: a file that it names is there, but a folder is looked
for. -/
theorem load_split_inside_name :
    split "api*.json" = some ("api", "*.json") ∧ Path.join "api" "*.json" = "api/*.json" ∧
      (∃ pieces, Pattern.compile "/r/api*.json" = .ok pieces ∧
        accepts pieces "/r/api1.json" = true) ∧
      load ⟨[(["r"], .folder), (["r", "api1.json"], .file [])], ["r"]⟩ "api*.json" =
        .error (.unwalkable "*.json" "/r/api" .notFound) := by
  refine ⟨by decide +kernel, by decide, ⟨_, rfl, ?_⟩, by decide +kernel⟩
  decide +kernel

end Glob

end ApiClient
