import ApiClient.Xml.Element

/-!
# The wordings of faults

* `head?_append`, `getLast?_append`: the ends of a text that is put together;
* `Reference.Fault.head?_message`, `Tag.Fault.head?_message`: the letters that wordings begin with;
* `Fault.message_ne`: an end tag without an element is told from all other faults.
-/

namespace ApiClient.Xml

/-! ## The ends of a text -/

section Ends

variable {s t : String} {c : Char}

theorem head?_ofList (c : Char) (rest : List Char) :
    (String.ofList (c :: rest)).toList.head? = some c := by
  rw [String.toList_ofList]
  rfl

theorem head?_append (h : s.toList.head? = some c) (t : String) :
    (s ++ t).toList.head? = some c := by
  rw [String.toList_append, List.head?_append, h]
  rfl

theorem getLast?_append (h : t.toList.getLast? = some c) (s : String) :
    (s ++ t).toList.getLast? = some c := by
  rw [String.toList_append, List.getLast?_append, h]
  rfl

theorem ne_of_head? {letters : List Char} (hs : ∃ c ∈ letters, s.toList.head? = some c)
    {d : Char} (ht : t.toList.head? = some d) (hd : d ∉ letters) : s ≠ t := by
  rintro rfl
  obtain ⟨c, hc, hhead⟩ := hs
  obtain rfl : c = d := Option.some_inj.mp (hhead.symm.trans ht)
  exact hd hc

theorem ne_of_getLast? (hs : s.toList.getLast? = some c) (ht : t.toList.getLast? ≠ some c) :
    s ≠ t := by
  rintro rfl
  exact ht hs

end Ends

/-! ## Faults -/

theorem Reference.Fault.head?_message (fault : Reference.Fault) :
    ∃ c ∈ ['E', 'a', 'i'], fault.message.toList.head? = some c := by
  cases fault with
  | unterminated start stop =>
    exact ⟨'E', by decide, head?_append (head?_append (head?_ofList _ _) _) _⟩
  | unknown start stop name =>
    refine ⟨'a', by decide, ?_⟩
    exact head?_append (head?_append (head?_append (head?_append (head?_ofList _ _) _) _) _) _
  | signed | noDigits | badDigit | tooLarge | nul =>
    exact ⟨'i', by decide, head?_ofList _ _⟩
  | noCharacter number =>
    exact ⟨'i', by decide, head?_append (head?_append (head?_ofList _ _) _) _⟩

namespace Tag

theorem head?_positionText (position : Nat) :
    (positionText position).toList.head? = some 'p' :=
  head?_append (head?_append (head?_ofList _ _) _) _

theorem Fault.head?_message (fault : Tag.Fault) :
    ∃ c ∈ ['p', 'E', 'a', 'i'], fault.message.toList.head? = some c := by
  cases fault with
  | value fault =>
    obtain ⟨c, hc, hhead⟩ := fault.head?_message
    exact ⟨c, List.mem_cons_of_mem _ hc, hhead⟩
  | noEquals position | noValue position | noQuote position =>
    exact ⟨'p', by decide, head?_append (head?_positionText position) _⟩
  | repeated position former =>
    exact ⟨'p', by decide, head?_append (head?_append (head?_positionText position) _) _⟩
  | unclosed position quote =>
    refine ⟨'p', by decide, ?_⟩
    exact head?_append (head?_append (head?_append (head?_positionText position) _) _) _

end Tag

/-- No other fault has the wording of an end tag without an element. -/
theorem Fault.message_ne {fault : Fault} (h : fault ≠ .unexpectedEnd) :
    fault.message ≠ Fault.unexpectedEnd.message := by
  cases fault with
  | unexpectedEnd => exact absurd rfl h
  | tag fault => exact ne_of_head? fault.head?_message (head?_ofList _ _) (by decide)
  | reference fault => exact ne_of_head? fault.head?_message (head?_ofList _ _) (by decide)
  | secondRoot | tooDeep | textOutside | noRoot => decide
  -- these two end in a bracket, whatever stands before it
  | markup fault offset => exact ne_of_getLast? (getLast?_append rfl _) (by decide)
  | unclosed name => exact ne_of_getLast? (getLast?_append rfl _) (by decide)

end ApiClient.Xml
