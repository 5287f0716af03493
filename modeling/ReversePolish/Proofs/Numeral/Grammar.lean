import ReversePolish.Number.Numeral
/-!
# What `Numeral.read?` accepts

`read?` takes as much as it can at every step. Whatever it accepts it gives back unchanged: the
literal written out, followed by what was left, is the text it was given (`write_of_read?`), and
the parts of the literal obey the grammar (`WellFormed`): there are digits on at least one side of
the point, and an exponent has some too. In turn a literal of the grammar is read back from the
text it is written as (`read?_write`).
-/

namespace ReversePolish.Numeral

/-- Nothing but decimal digits. -/
def Digits (cs : List Char) : Prop := ∀ c ∈ cs, isDigit c = true

theorem digits_takeWhile (cs : List Char) : Digits (cs.takeWhile isDigit) :=
  List.all_eq_true.1 List.all_takeWhile

/-- A mantissa of the grammar: digits, with some of them before or behind the point. -/
structure Mantissa.WellFormed (m : Mantissa) : Prop where
  whole : Digits m.whole
  fraction : ∀ ds, m.fraction = some ds → Digits ds
  nonempty : m.whole ≠ [] ∨ ∃ ds, m.fraction = some ds ∧ ds ≠ []

/-- An exponent of the grammar: it has digits. -/
structure Exponent.WellFormed (e : Exponent) : Prop where
  digits : Digits e.digits
  nonempty : e.digits ≠ []

/-- A literal of the grammar. -/
structure WellFormed (l : Numeral) : Prop where
  mantissa : l.mantissa.WellFormed
  exponent : ∀ e, l.exponent = some e → e.WellFormed

/-! ## The parts -/

theorem write_of_readSign {text rest : List Char} {sign : Option Sign}
    (h : readSign text = (sign, rest)) : text = (sign.map Sign.char).toList ++ rest := by
  unfold readSign at h
  split at h <;> cases h <;> rfl

theorem write_of_readSuffix {text rest : List Char} {suffix : Option Suffix}
    (h : readSuffix text = (suffix, rest)) : text = (suffix.map Suffix.char).toList ++ rest := by
  unfold readSuffix at h
  split at h <;> cases h <;> rfl

theorem write_of_readMantissa? {text rest : List Char} {m : Mantissa}
    (h : readMantissa? text = some (m, rest)) : text = m.write ++ rest ∧ m.WellFormed := by
  have hsplit := List.takeWhile_append_dropWhile (p := isDigit) (l := text)
  simp only [readMantissa?] at h
  split at h
  · next tail hd =>
    split at h
    · cases h
    · next hne =>
      cases h
      have hfrac := List.takeWhile_append_dropWhile (p := isDigit) (l := tail)
      refine ⟨?_, digits_takeWhile _, ?_, ?_⟩
      · calc
          text = text.takeWhile isDigit ++ '.' :: tail := by rw [← hd, hsplit]
          _ = _ := by simp [Mantissa.write, hfrac]
      · rintro ds ⟨⟩
        exact digits_takeWhile _
      · by_cases hw : text.takeWhile isDigit = []
        · refine .inr ⟨_, rfl, fun hf => hne ?_⟩
          simp [hw, hf]
        · exact .inl hw
  · split at h
    · cases h
    · next hne =>
      cases h
      refine ⟨by simp [Mantissa.write, hsplit], digits_takeWhile _, ?_, .inl ?_⟩
      · rintro ds ⟨⟩
      · simpa using hne

theorem write_of_readPower? {upperCase : Bool} {text rest : List Char} {e : Exponent}
    (h : readPower? upperCase text = some (e, rest)) :
    (if upperCase then 'E' else 'e') :: text = e.write ++ rest ∧ e.WellFormed := by
  unfold readPower? at h
  cases hs : readSign text with
  | mk sign tail =>
    have hsplit := List.takeWhile_append_dropWhile (p := isDigit) (l := tail)
    simp only [hs] at h
    split at h
    · cases h
    · next hne =>
      cases h
      refine ⟨?_, digits_takeWhile _, by simpa using hne⟩
      simp [Exponent.write, write_of_readSign hs, hsplit]

theorem write_of_readExponent? {text rest : List Char} {e : Exponent}
    (h : readExponent? text = some (e, rest)) : text = e.write ++ rest ∧ e.WellFormed := by
  unfold readExponent? at h
  split at h
  · exact write_of_readPower? h
  · exact write_of_readPower? h
  · cases h

/-! ## The literal -/

/-- **Nothing is lost and nothing is made up**: a text that starts with a literal is that literal
written out and the rest. -/
theorem write_of_read? {text rest : List Char} {l : Numeral} (h : read? text = some (l, rest)) :
    text = l.write ++ rest ∧ l.WellFormed := by
  unfold read? at h
  cases hs : readSign text with
  | mk sign afterSign =>
    simp only [hs, Option.bind_eq_bind, Option.bind_eq_some_iff] at h
    obtain ⟨⟨m, afterMantissa⟩, hm, h⟩ := h
    obtain ⟨rfl, wm⟩ := write_of_readMantissa? hm
    cases he : readExponent? afterMantissa with
    | none =>
      cases hu : readSuffix afterMantissa with
      | mk suffix afterSuffix =>
        simp only [he, hu, Option.pure_def, Option.some.injEq, Prod.mk.injEq] at h
        obtain ⟨rfl, rfl⟩ := h
        refine ⟨?_, wm, by rintro e ⟨⟩⟩
        simp [write, write_of_readSign hs, write_of_readSuffix hu]
    | some exponent =>
      obtain ⟨e, afterExponent⟩ := exponent
      obtain ⟨hw, we⟩ := write_of_readExponent? he
      cases hu : readSuffix afterExponent with
      | mk suffix afterSuffix =>
        simp only [he, hu, Option.pure_def, Option.some.injEq, Prod.mk.injEq] at h
        obtain ⟨rfl, rfl⟩ := h
        refine ⟨?_, wm, by rintro e' ⟨⟩; exact we⟩
        simp [write, write_of_readSign hs, hw, write_of_readSuffix hu]

/-! ## Reading back what was written -/

/-- No digit comes first. -/
def NoDigit (text : List Char) : Prop := ∀ c, text.head? = some c → isDigit c = false

theorem takeWhile_digits {ds rest : List Char} (hd : Digits ds) (hrest : NoDigit rest) :
    (ds ++ rest).takeWhile isDigit = ds ∧ (ds ++ rest).dropWhile isDigit = rest := by
  have hstop : rest.takeWhile isDigit = [] ∧ rest.dropWhile isDigit = rest := by
    cases rest with
    | nil => exact ⟨rfl, rfl⟩
    | cons c rest => simp [hrest c rfl]
  rw [List.takeWhile_append_of_pos hd, List.dropWhile_append_of_pos hd, hstop.1, hstop.2]
  exact ⟨List.append_nil ds, rfl⟩

theorem readSign_write (sign : Option Sign) {rest : List Char}
    (h : ∀ c, rest.head? = some c → c ≠ '+' ∧ c ≠ '-') :
    readSign ((sign.map Sign.char).toList ++ rest) = (sign, rest) := by
  rcases sign with _ | _ | _
  · cases rest with
    | nil => rfl
    | cons c rest =>
      obtain ⟨hplus, hminus⟩ := h c rfl
      simp [readSign, hplus, hminus]
  · rfl
  · rfl

theorem readSuffix_write (suffix : Option Suffix) :
    readSuffix (suffix.map Suffix.char).toList = (suffix, []) := by
  rcases suffix with _ | _ | _ <;> rfl

theorem readMantissa?_write {m : Mantissa} (hm : m.WellFormed) {rest : List Char}
    (hrest : NoDigit rest) (hpoint : rest.head? ≠ some '.') :
    readMantissa? (m.write ++ rest) = some (m, rest) := by
  obtain ⟨whole, fraction⟩ := m
  cases fraction with
  | none =>
    have hne : whole ≠ [] := hm.nonempty.resolve_right (by simp)
    obtain ⟨htake, hdrop⟩ := takeWhile_digits hm.whole hrest
    simp only [readMantissa?, Mantissa.write, htake, hdrop]
    split
    · next tail => exact absurd rfl hpoint
    · simp [hne]
  | some ds =>
    have hsome : (whole.isEmpty && ds.isEmpty) = false := by
      rcases hm.nonempty with hw | ⟨ds', hds, hne⟩
      · simp [hw]
      · cases hds
        simp [hne]
    have hdot : NoDigit ('.' :: (ds ++ rest)) := by
      rintro c ⟨⟩
      rfl
    obtain ⟨htake, hdrop⟩ := takeWhile_digits hm.whole hdot
    obtain ⟨htake', hdrop'⟩ := takeWhile_digits (hm.fraction ds rfl) hrest
    have htext : whole ++ '.' :: ds ++ rest = whole ++ '.' :: (ds ++ rest) := by simp
    simp only [readMantissa?, Mantissa.write, htext, htake, hdrop, htake', hdrop', hsome]
    rfl

theorem readExponent?_write {e : Exponent} (he : e.WellFormed) {rest : List Char}
    (hrest : NoDigit rest) : readExponent? (e.write ++ rest) = some (e, rest) := by
  obtain ⟨upperCase, sign, digits⟩ := e
  have hsign : readSign ((sign.map Sign.char).toList ++ (digits ++ rest)) = (sign, digits ++ rest) := by
    refine readSign_write sign fun c hc => ?_
    have hdigit : isDigit c = true := by
      obtain ⟨d, ds, rfl⟩ := List.exists_cons_of_ne_nil he.nonempty
      cases hc
      exact he.digits _ List.mem_cons_self
    constructor <;> rintro rfl <;> cases hdigit
  obtain ⟨htake, hdrop⟩ := takeWhile_digits he.digits hrest
  have hpower : readPower? upperCase ((sign.map Sign.char).toList ++ (digits ++ rest))
      = some (⟨upperCase, sign, digits⟩, rest) := by
    simp only [readPower?, hsign, htake, hdrop]
    simp [he.nonempty]
  cases upperCase <;> simpa [Exponent.write, readExponent?] using hpower

/-- What may follow a mantissa does not start like one. -/
theorem head?_tail {exponent : Option Exponent} {suffix : Option Suffix} {c : Char}
    (h : (exponent.elim [] Exponent.write ++ (suffix.map Suffix.char).toList).head? = some c) :
    c = 'e' ∨ c = 'E' ∨ c = 'i' ∨ c = 'u' := by
  rcases exponent with _ | ⟨_ | _, _, _⟩
  · rcases suffix with _ | _ | _ <;> cases h
    · exact .inr (.inr (.inl rfl))
    · exact .inr (.inr (.inr rfl))
  · cases h
    exact .inl rfl
  · cases h
    exact .inr (.inl rfl)

/-- A mantissa starts with a digit or with a point. -/
theorem Mantissa.head?_write {m : Mantissa} (hm : m.WellFormed) (rest : List Char) {c : Char}
    (h : (m.write ++ rest).head? = some c) : isDigit c = true ∨ c = '.' := by
  obtain ⟨whole, fraction⟩ := m
  cases whole with
  | cons d ds =>
    have hd : isDigit d = true := hm.whole d List.mem_cons_self
    cases fraction <;> cases h <;> exact .inl hd
  | nil =>
    obtain ⟨ds, hds, -⟩ := hm.nonempty.resolve_left (by simp)
    cases hds
    cases h
    exact .inr rfl

/-- **A literal is read back as it was written.** -/
theorem read?_write {l : Numeral} (hl : l.WellFormed) : read? l.write = some (l, []) := by
  obtain ⟨sign, mantissa, exponent, suffix⟩ := l
  have htail : ∀ c, (exponent.elim [] Exponent.write ++ (suffix.map Suffix.char).toList).head?
      = some c → isDigit c = false ∧ c ≠ '.' := by
    intro c hc
    rcases head?_tail hc with rfl | rfl | rfl | rfl <;> decide
  have hsign : readSign ((sign.map Sign.char).toList ++ (mantissa.write
      ++ (exponent.elim [] Exponent.write ++ (suffix.map Suffix.char).toList)))
      = (sign, mantissa.write
          ++ (exponent.elim [] Exponent.write ++ (suffix.map Suffix.char).toList)) := by
    refine readSign_write sign fun c hc => ?_
    rcases Mantissa.head?_write hl.mantissa _ hc with hdigit | rfl
    · constructor <;> rintro rfl <;> cases hdigit
    · decide
  have hmantissa := readMantissa?_write hl.mantissa (fun c hc => (htail c hc).1)
    fun hpoint => (htail '.' hpoint).2 rfl
  have hsuffix := readSuffix_write suffix
  have htext : write ⟨sign, mantissa, exponent, suffix⟩ = (sign.map Sign.char).toList
      ++ (mantissa.write ++ (exponent.elim [] Exponent.write
        ++ (suffix.map Suffix.char).toList)) := by
    simp [write]
  rw [htext, read?, hsign]
  simp only [hmantissa, Option.bind_eq_bind, Option.bind_some]
  cases exponent with
  | none =>
    have hnone : readExponent? (suffix.map Suffix.char).toList = none := by
      rcases suffix with _ | _ | _ <;> rfl
    simp only [Option.elim_none, List.nil_append, hnone, hsuffix]
    rfl
  | some e =>
    have hrest : NoDigit (suffix.map Suffix.char).toList := by
      rcases suffix with _ | _ | _ <;> rintro c ⟨⟩ <;> rfl
    have hexponent := readExponent?_write (hl.exponent e rfl) hrest
    simp only [Option.elim_some, hexponent, hsuffix]
    rfl

/-- A text is written out by one literal only. -/
theorem write_inj {l l' : Numeral} (hl : l.WellFormed) (hl' : l'.WellFormed)
    (h : l.write = l'.write) : l = l' := by
  have hread := read?_write hl
  rw [h, read?_write hl'] at hread
  cases hread
  rfl

theorem parse?_write {l : Numeral} (hl : l.WellFormed) : Number.parse? l.write = some l.value := by
  rw [Number.parse?, read?_write hl]

/-- What is read as a whole is a literal. -/
theorem exists_write_of_parse? {text : List Char} {result : Except ProcessingError Number}
    (h : Number.parse? text = some result) :
    ∃ l : Numeral, l.WellFormed ∧ l.write = text ∧ l.value = result := by
  unfold Number.parse? at h
  split at h
  · next l hread =>
    obtain ⟨rfl, hl⟩ := write_of_read? hread
    exact ⟨l, hl, (List.append_nil _).symm, Option.some.inj h⟩
  · cases h

/-! ## Its characters -/

theorem isBlank_of_isDigit {c : Char} (h : isDigit c = true) : Text.isBlank c = false := by
  simp only [isDigit, Bool.and_eq_true, decide_eq_true_eq, Char.le_def, UInt32.le_iff_toNat_le] at h
  have hlow : 48 ≤ c.toNat := h.1
  have hhigh : c.toNat ≤ 57 := h.2
  simp only [Text.isBlank, Text.blankRanges, List.any_cons, List.any_nil, Bool.or_false,
    Bool.or_eq_false_iff, Bool.and_eq_false_iff, decide_eq_false_iff_not]
  omega

theorem isBlank_of_mem_sign {sign : Option Sign} {c : Char} (h : c ∈ (sign.map Sign.char).toList) :
    Text.isBlank c = false := by
  rcases sign with _ | _ | _
  · cases h
  all_goals obtain rfl := List.mem_singleton.1 h; decide

theorem isBlank_of_mem_suffix {suffix : Option Suffix} {c : Char}
    (h : c ∈ (suffix.map Suffix.char).toList) : Text.isBlank c = false := by
  rcases suffix with _ | _ | _
  · cases h
  all_goals obtain rfl := List.mem_singleton.1 h; decide

theorem isBlank_of_mem_mantissa {m : Mantissa} (hm : m.WellFormed) {c : Char} (h : c ∈ m.write) :
    Text.isBlank c = false := by
  obtain ⟨whole, _ | ds⟩ := m
  · exact isBlank_of_isDigit (hm.whole c h)
  · rcases List.mem_append.1 h with hwhole | hfraction
    · exact isBlank_of_isDigit (hm.whole c hwhole)
    · rcases List.mem_cons.1 hfraction with rfl | hdigit
      · decide
      · exact isBlank_of_isDigit (hm.fraction ds rfl c hdigit)

theorem isBlank_of_mem_exponent {e : Exponent} (he : e.WellFormed) {c : Char} (h : c ∈ e.write) :
    Text.isBlank c = false := by
  simp only [Exponent.write, List.cons_append, List.mem_cons, List.mem_append] at h
  rcases h with rfl | hsign | hdigits
  · cases e.upperCase <;> decide
  · exact isBlank_of_mem_sign hsign
  · exact isBlank_of_isDigit (he.digits c hdigits)

/-- There is no blank in a literal. -/
theorem isBlank_of_mem_write {l : Numeral} (hl : l.WellFormed) {c : Char} (h : c ∈ l.write) :
    Text.isBlank c = false := by
  simp only [write, List.mem_append] at h
  rcases h with ((hsign | hmantissa) | hexponent) | hsuffix
  · exact isBlank_of_mem_sign hsign
  · exact isBlank_of_mem_mantissa hl.mantissa hmantissa
  · cases he : l.exponent with
    | none =>
      rw [he] at hexponent
      cases hexponent
    | some e =>
      rw [he] at hexponent
      exact isBlank_of_mem_exponent (hl.exponent e he) hexponent
  · exact isBlank_of_mem_suffix hsuffix

end ReversePolish.Numeral
