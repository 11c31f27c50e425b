import ApiClient.Proofs.Json.Values

/-!
# What becomes of JSON objects

* `Tree.ReadAs.exists_at?`: an object at a place of a value is read there;
* `Tree.ReadAs.entries`: the keys of an object that is read, and their values;
* `parse_objects`: which texts with objects are accepted, and what stands in the places of these;
* `parse_object_as_number`: an object whose only member is a number in a string does not become a
  map, and with another value the text is not accepted.
-/

namespace ApiClient.Json

/-- An object at a place of a value is read at that place. -/
theorem Tree.ReadAs.exists_at? {t : Tree} {d : Document} (h : t.ReadAs d)
    {steps : List Document.Step}
    {members : List (String × Tree)} (hat : t.at? steps = some (.map members)) :
    ∃ d', d.at? steps = some d' ∧ (Tree.map members).ReadAs d' := by
  induction steps generalizing t d with
  | nil =>
    cases hat
    exact ⟨d, rfl, h⟩
  | cons step steps ih =>
    cases step with
    | item index =>
      cases h with
      | list hitems =>
        obtain ⟨t', ht', hinside⟩ := Option.bind_eq_some_iff.mp hat
        obtain ⟨d', hd', h'⟩ := exists_getElem?_of_forall₂ hitems ht'
        rw [Document.at?, hd']
        exact ih h' hinside
      | _ => cases hat
    | key name =>
      cases h with
      | map hpairs =>
        obtain ⟨t', ht', hinside⟩ := Option.bind_eq_some_iff.mp hat
        obtain ⟨d', hd', h'⟩ := hpairs.find?_ofPairs ht'
        rw [Document.ofPairs, Document.at?, hd']
        exact ih h' hinside
      | numeral token =>
        -- the only value in such an object is a text, which holds no object
        obtain ⟨t', ht', hinside⟩ := Option.bind_eq_some_iff.mp hat
        rw [List.reverse_singleton, Number.asMember, Entries.find?] at ht'
        split_ifs at ht'
        · cases ht'
          rcases steps with _ | ⟨_ | _, _⟩ <;> cases hinside
        · cases ht'
      | _ => cases hat

/-- An object that is read as a map keeps the first place of each key and its last value. -/
theorem Tree.ReadAs.entries {members : List (String × Tree)} {d : Document}
    (h : (Tree.map members).ReadAs d) (hfirst : (Entries.keys members).head? ≠ some numberKey) :
    ∃ entries, d = .map entries ∧ Entries.keys entries = (Entries.keys members).eraseDups ∧
      ∀ key value, Entries.find? key members.reverse = some value →
        ∃ x, Entries.find? key entries = some x ∧ value.ReadAs x := by
  obtain ⟨pairs, hpairs, rfl⟩ := (Tree.readAs_map_iff hfirst).mp h
  refine ⟨Entries.ofPairs pairs, rfl, ?_, fun key value hvalue => hpairs.find?_ofPairs hvalue⟩
  rw [Entries.keys_ofPairs, hpairs.keys_eq]

/-- A text with objects is accepted if and only if every one whose first key is `numberKey` has no
other member and the text of a number in this one. Such an object is that number. Every other one
becomes a map, in which each key stands where it comes first, with what its last value is read as
alone. -/
theorem parse_objects {t : Tree} {s before after : List Char} (h : IsText 127 t s)
    (hbefore : IsGap before) (hafter : IsGap after) :
    ((∃ d, Format.json.parse (String.ofList (before ++ (s ++ after))) = .ok d) ↔
      ∀ members, t.Holds (.map members) → (Entries.keys members).head? = some numberKey →
        ∃ token : Number, members = [token.asMember]) ∧
    ∀ d, Format.json.parse (String.ofList (before ++ (s ++ after))) = .ok d →
      ∀ steps members, t.at? steps = some (.map members) →
        ((Entries.keys members).head? ≠ some numberKey →
          ∃ entries, d.at? steps = some (.map entries) ∧
            Entries.keys entries = (Entries.keys members).eraseDups ∧
            ∀ key value, Entries.find? key members.reverse = some value →
              ∃ x, Entries.find? key entries = some x ∧
                ∀ m, IsText 127 value m → Format.json.parse (String.ofList m) = .ok x) ∧
        ((Entries.keys members).head? = some numberKey →
          ∃ token : Number, members = [token.asMember] ∧
            d.at? steps = some (.text (String.ofList token.kept))) := by
  simp only [parse_eq_ok_iff h hbefore hafter]
  refine ⟨Tree.exists_readAs_iff, fun d hd steps members hat => ?_⟩
  obtain ⟨d', hd', hmembers⟩ := hd.exists_at? hat
  constructor
  · intro hfirst
    obtain ⟨entries, rfl, hkeys, hvalues⟩ := hmembers.entries hfirst
    refine ⟨entries, hd', hkeys, fun key value hvalue => ?_⟩
    obtain ⟨x, hx, hread⟩ := hvalues key value hvalue
    refine ⟨x, hx, fun m hm => ?_⟩
    have halone := (parse_eq_ok_iff hm isGap_nil isGap_nil).mpr hread
    rwa [List.nil_append, List.append_nil] at halone
  · intro hfirst
    obtain ⟨token, rfl, rfl⟩ := (Tree.readAs_numeral_iff hfirst).mp hmembers
    exact ⟨token, rfl, hd'⟩

/-- The text of an object with one member and no white space. -/
theorem isText_member {n : Nat} {key : String} {k s : List Char} {t : Tree}
    (hkey : SpellsString key.toList k) (h : IsText n t s) :
    IsText (n + 1) (.map [(key, t)])
      ('\x7b' :: '"' :: (k ++ '"' :: ':' :: (s ++ ['\x7d']))) :=
  .inr (.map (@MembersText.cons _ _ _ _ _ _ [] [] _ [] [] _ _ isGap_nil isGap_nil hkey isGap_nil
    isGap_nil h (@MembersText.nil _ _ _ [] isGap_nil)))

/-- A key that is repeated in another spelling. -/
theorem parse_objects_repeated : ∃ one : Number, one.spelled = "1".toList ∧
    IsText 127 (.map [("b", .number one), ("a", .null), ("b", .list [.bool true])])
      "\x7b\"b\":1 ,\"a\": null,\"\\u0062\":[true]\x7d".toList ∧
    IsGap [] ∧ IsGap ['\n'] ∧
    ∃ d entries, Format.json.parse "\x7b\"b\":1 ,\"a\": null,\"\\u0062\":[true]\x7d\n" = .ok d ∧
      d.at? [] = some (.map entries) ∧ Entries.keys entries = ["b", "a"] ∧
      ∃ x, Entries.find? "b" entries = some x ∧ Format.json.parse "[true]" = .ok x := by
  let one : Number := ⟨false, ['1'], none, none, by decide, by decide, by decide⟩
  have ha : SpellsString "a".toList ['a'] := spells_escaped ['a']
  have hb : SpellsString "b".toList ['b'] := spells_escaped ['b']
  have hcode : SpellsString "b".toList "\\u0062".toList :=
    .cons (@SpellsChar.code '0' '0' '6' '2' 0x62 (by decide) rfl rfl) .nil
  have hlist : ∀ n, IsText (n + 1) (.list [.bool true]) "[true]".toList := fun n =>
    .inr (.list (@ItemsText.cons _ _ _ _ _ [] [] _ _ isGap_nil isGap_nil (ScalarText.yes.isText n)
      (@ItemsText.nil _ _ _ [] isGap_nil)))
  have htext : IsText 127 (.map [("b", .number one), ("a", .null), ("b", .list [.bool true])])
      "\x7b\"b\":1 ,\"a\": null,\"\\u0062\":[true]\x7d".toList :=
    .inr (.map (@MembersText.cons _ _ _ _ _ _ [] [] _ [] [] _ _ isGap_nil isGap_nil hb isGap_nil
      isGap_nil ((ScalarText.number one).isText 126)
      (@MembersText.cons _ _ _ _ _ _ [' '] [] _ [] [' '] _ _ (by decide) isGap_nil ha isGap_nil
        (by decide) (ScalarText.null.isText 126)
        (@MembersText.cons _ _ _ _ _ _ [] [] _ [] [] _ _ isGap_nil isGap_nil hcode isGap_nil
          isGap_nil (hlist 125) (@MembersText.nil _ _ _ [] isGap_nil)))))
  have hread : Tree.ReadAs (.map [("b", .number one), ("a", .null), ("b", .list [.bool true])])
      (.ofPairs [("b", .text "1"), ("a", .null), ("b", .list [.text "true"])]) :=
    .map (.cons (.number one) (.cons .null (.cons (.list (.cons (.bool true) .nil)) .nil)))
      (by decide)
  have hend : IsGap ['\n'] := by decide
  obtain ⟨haccepted, hplaces⟩ := parse_objects htext isGap_nil hend
  obtain ⟨d, hd⟩ := haccepted.mpr (Tree.exists_readAs_iff.mp ⟨_, hread⟩)
  obtain ⟨entries, hentries, hkeys, hvalues⟩ := (hplaces d hd [] _ rfl).1 (by decide)
  obtain ⟨x, hx, halone⟩ := hvalues "b" (.list [.bool true]) rfl
  exact ⟨one, rfl, htext, isGap_nil, hend, d, entries, hd, hentries, hkeys.trans (by decide), x, hx,
    halone _ (hlist 126)⟩

/-- An object whose only member is under the key of a number becomes a text, or the whole text that
it is in is not accepted. -/
theorem parse_object_as_number :
    (IsText 127 (.map [(numberKey, .text "1")])
        "\x7b\"$serde_json::private::Number\":\"1\"\x7d".toList ∧
      Format.json.parse "\x7b\"$serde_json::private::Number\":\"1\"\x7d" = .ok (.text "1")) ∧
    IsText 127 (.map [(numberKey, .null)])
        "\x7b\"$serde_json::private::Number\":null\x7d".toList ∧
      ∀ d, Format.json.parse "\x7b\"$serde_json::private::Number\":null\x7d" ≠ .ok d := by
  let one : Number := ⟨false, ['1'], none, none, by decide, by decide, by decide⟩
  have hkey : SpellsString numberKey.toList "$serde_json::private::Number".toList :=
    spells_escaped numberKey.toList
  have hone : SpellsString "1".toList ['1'] := spells_escaped ['1']
  have htext : IsText 127 (.map [(numberKey, .text "1")])
      "\x7b\"$serde_json::private::Number\":\"1\"\x7d".toList :=
    isText_member hkey ((ScalarText.text hone).isText 126)
  have hnull : IsText 127 (.map [(numberKey, .null)])
      "\x7b\"$serde_json::private::Number\":null\x7d".toList :=
    isText_member hkey (ScalarText.null.isText 126)
  refine ⟨⟨htext, (parse_eq_ok_iff htext isGap_nil isGap_nil).mpr (.numeral one)⟩, hnull,
    fun d hd => ?_⟩
  have hread := (parse_eq_ok_iff hnull isGap_nil isGap_nil).mp hd
  obtain ⟨token, htoken, -⟩ := (Tree.readAs_numeral_iff rfl).mp hread
  cases htoken

end ApiClient.Json
