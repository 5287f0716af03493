import Mathlib
import ReversePolish.Token.Quoted
/-!
# The grammar of quoted strings

The inside of a string literal is a sequence of items, and every item stands for one character
(`Items`). Reading decodes just that. It comes to the closing quote, to the end of the text or to a
backslash that starts no item, whichever follows the items, and no text can be taken apart in two of
these ways (`reads_iff`). So what is left of a text, and what does not depend on what follows it,
can be told from the grammar.

Any string can be written so that it is read back: it is enough to put a backslash in front of each
quote and of each backslash (`read_write`).
-/

namespace ReversePolish

namespace Quoted

/-! ## The grammar -/

/-- A hexadecimal digit and its value, in lower case or in upper case. -/
def HexDigit (c : Char) (v : Nat) : Prop :=
  "0123456789abcdef".toList[v]? = some c ∨ "0123456789ABCDEF".toList[v]? = some c

/-- An item of the inside of a string, and the character that it stands for. -/
inductive Item : List Char → Char → Prop where
  | plain {c : Char} (hquote : c ≠ '"') (hbackslash : c ≠ '\\') : Item [c] c
  | newline : Item ['\\', 'n'] '\n'
  | tab : Item ['\\', 't'] '\t'
  | carriageReturn : Item ['\\', 'r'] '\r'
  | backslash : Item ['\\', '\\'] '\\'
  | quote : Item ['\\', '"'] '"'
  | code {high low : Char} {h l : Nat} {c : Char} (hhigh : HexDigit high h) (hlow : HexDigit low l)
      (hc : c.toNat = 16 * h + l) : Item ['\\', 'x', high, low] c

/-- A sequence of items, and the string that they stand for. -/
inductive Items : List Char → List Char → Prop where
  | nil : Items [] []
  | cons {item inside contents : List Char} {c : Char} (hitem : Item item c)
      (hitems : Items inside contents) : Items (item ++ inside) (c :: contents)

/-- A text that begins with a backslash which starts no item. -/
def Stray (text : List Char) : Prop :=
  ∃ tail, text = '\\' :: tail ∧ ∀ item c more, Item item c → text ≠ item ++ more

/-- How reading `text` must end by the grammar. -/
inductive Reads (text : List Char) : Outcome → Prop where
  | closed {inside contents rest : List Char} (hitems : Items inside contents)
      (htext : text = inside ++ '"' :: rest) : Reads text (.closed contents rest)
  | unclosed {contents : List Char} (hitems : Items text contents) : Reads text .unclosed
  | badEscape {inside contents back : List Char} (hitems : Items inside contents)
      (hback : Stray back) (htext : text = inside ++ back) : Reads text (.badEscape back)

/-! ## Escapes -/

instance (c : Char) (v : Nat) : Decidable (HexDigit c v) := inferInstanceAs (Decidable (_ ∨ _))

theorem HexDigit.lt {c : Char} {v : Nat} (h : HexDigit c v) : v < 16 := by
  rcases h with h | h <;> exact (List.getElem?_eq_some_iff.1 h).1

theorem toNat_le_of_hexValue? {c : Char} {v : Nat} (h : hexValue? c = some v) : c.toNat ≤ 102 := by
  simp only [hexValue?, Char.le_def, UInt32.le_iff_toNat_le] at h
  split at h
  · next hc => exact hc.2.trans (by decide)
  · split at h
    · next hc => exact hc.2.trans (by decide)
    · split at h
      · next hc => exact hc.2.trans (by decide)
      · cases h

/-- The digits that are read are those of the grammar, with their values. -/
theorem hexValue?_eq_some_iff {c : Char} {v : Nat} : hexValue? c = some v ↔ HexDigit c v := by
  constructor
  · intro h
    -- no digit has a greater code than f, so the codes can be gone through
    have hall : ∀ n ≤ 102, ∀ v ∈ hexValue? (Char.ofNat n), HexDigit (Char.ofNat n) v := by decide
    have hc := hall c.toNat (toNat_le_of_hexValue? h)
    rw [Char.ofNat_toNat] at hc
    exact hc v h
  · intro h
    have hv := h.lt
    interval_cases v <;> rcases h with h | h <;> cases h <;> decide

/-- What follows a backslash is read as an escape if and only if the grammar has the item. -/
theorem escape?_eq_some_iff {tail rest : List Char} {c : Char} :
    escape? tail = some (c, rest)
      ↔ ∃ letters, Item ('\\' :: letters) c ∧ tail = letters ++ rest := by
  constructor
  · intro h
    unfold escape? at h
    split at h
    case h_6 high low rest' =>
      simp only [Option.bind_eq_bind, Option.bind_eq_some_iff, Option.pure_def] at h
      obtain ⟨x, hhigh, y, hlow, h⟩ := h
      cases h
      rw [hexValue?_eq_some_iff] at hhigh hlow
      have hvalid : (16 * x + y).isValidChar := by
        have hx := hhigh.lt
        have hy := hlow.lt
        exact .inl (by omega)
      have hcode : (Char.ofNat (16 * x + y)).toNat = 16 * x + y := by
        rw [Char.toNat_ofNat, if_pos hvalid]
      exact ⟨['x', high, low], .code hhigh hlow hcode, rfl⟩
    case h_7 => cases h
    all_goals cases h
    · exact ⟨['n'], .newline, rfl⟩
    · exact ⟨['t'], .tab, rfl⟩
    · exact ⟨['r'], .carriageReturn, rfl⟩
    · exact ⟨['\\'], .backslash, rfl⟩
    · exact ⟨['"'], .quote, rfl⟩
  · rintro ⟨letters, hitem, rfl⟩
    cases hitem with
    -- a plain character is no backslash
    | plain _ hbackslash => exact absurd rfl hbackslash
    | code hhigh hlow hc =>
      have hhigh := hexValue?_eq_some_iff.2 hhigh
      have hlow := hexValue?_eq_some_iff.2 hlow
      simp [escape?, hhigh, hlow, ← hc]
    | _ => rfl

theorem escape?_of_stray {tail : List Char} (h : Stray ('\\' :: tail)) : escape? tail = none := by
  obtain ⟨_, ⟨⟩, hno⟩ := h
  cases hesc : escape? tail with
  | none => rfl
  | some found =>
    obtain ⟨letters, hitem, htail⟩ := escape?_eq_some_iff.1 hesc
    exact absurd (congrArg ('\\' :: ·) htail) (hno _ _ _ hitem)

theorem stray_of_escape? {tail : List Char} (h : escape? tail = none) : Stray ('\\' :: tail) := by
  refine ⟨tail, rfl, fun item c more hitem htext => ?_⟩
  have hsome : ∃ found, escape? tail = some found := by
    cases item with
    | nil => cases hitem
    | cons first letters =>
      obtain ⟨rfl, htail⟩ := List.cons.inj htext
      exact ⟨_, escape?_eq_some_iff.2 ⟨letters, hitem, htail⟩⟩
  rw [h] at hsome
  exact absurd hsome (by simp)

/-! ## Reading -/

variable {text inside contents rest : List Char}

theorem read_escape {tail : List Char} {c : Char} (h : escape? tail = some (c, rest)) :
    read ('\\' :: tail) = (read rest).cons c := by
  rw [read]
  split
  · next hesc =>
    rw [h] at hesc
    cases hesc
    rfl
  · next hesc =>
    rw [h] at hesc
    cases hesc

/-- An item in front of a text puts its character in front of what is read from the text. -/
theorem read_item {item : List Char} {c : Char} (h : Item item c) (rest : List Char) :
    read (item ++ rest) = (read rest).cons c := by
  have hescape : ∀ letters, Item ('\\' :: letters) c →
      read ('\\' :: (letters ++ rest)) = (read rest).cons c :=
    fun letters hitem => read_escape (escape?_eq_some_iff.2 ⟨letters, hitem, rfl⟩)
  cases h with
  | plain hquote hbackslash =>
    rw [List.singleton_append, read]
    · exact hquote
    · exact hbackslash
  | newline => exact hescape _ .newline
  | tab => exact hescape _ .tab
  | carriageReturn => exact hescape _ .carriageReturn
  | backslash => exact hescape _ .backslash
  | quote => exact hescape _ .quote
  | code hhigh hlow hc => exact hescape _ (.code hhigh hlow hc)

theorem read_items (h : Items inside contents) (rest : List Char) :
    read (inside ++ rest) = contents.foldr Outcome.cons (read rest) := by
  induction h with
  | nil => rfl
  | cons hitem _ ih => rw [List.append_assoc, read_item hitem, ih, List.foldr_cons]

theorem read_stray (h : Stray text) : read text = .badEscape text := by
  obtain ⟨tail, rfl, -⟩ := id h
  have hnone := escape?_of_stray h
  rw [read]
  split
  · next hesc =>
    rw [hnone] at hesc
    cases hesc
  · rfl

/-- Characters in front change nothing but the contents of a string that is closed. -/
theorem foldr_cons_closed (front contents rest : List Char) :
    front.foldr Outcome.cons (.closed contents rest) = .closed (front ++ contents) rest := by
  induction front with
  | nil => rfl
  | cons c front ih => rw [List.foldr_cons, ih]; rfl

theorem foldr_cons_of_open (front : List Char) {o : Outcome}
    (h : ∀ contents rest, o ≠ .closed contents rest) : front.foldr Outcome.cons o = o := by
  induction front with
  | nil => rfl
  | cons c front ih =>
    rw [List.foldr_cons, ih]
    cases o with
    | closed contents rest => exact absurd rfl (h contents rest)
    | unclosed => rfl
    | badEscape => rfl

/-- What the grammar says is what is read. -/
theorem Reads.read_eq {o : Outcome} (h : Reads text o) : read text = o := by
  cases h with
  | closed hitems htext =>
    have hend : ∀ rest, read ('"' :: rest) = .closed [] rest := fun rest => by rw [read]
    rw [htext, read_items hitems, hend, foldr_cons_closed, List.append_nil]
  | unclosed hitems =>
    have hend : read [] = .unclosed := by rw [read]
    have hread := read_items hitems []
    rw [List.append_nil, hend, foldr_cons_of_open _ (by simp)] at hread
    exact hread
  | badEscape hitems hback htext =>
    rw [htext, read_items hitems, read_stray hback, foldr_cons_of_open _ (by simp)]

/-- An item in front of a text that can be taken apart. -/
theorem Reads.cons {item : List Char} {c : Char} {o : Outcome} (hitem : Item item c)
    (h : Reads text o) : Reads (item ++ text) (o.cons c) := by
  cases h with
  | closed hitems htext =>
    exact .closed (.cons hitem hitems) (by rw [htext, List.append_assoc])
  | unclosed hitems => exact .unclosed (.cons hitem hitems)
  | badEscape hitems hback htext =>
    exact .badEscape (.cons hitem hitems) hback (by rw [htext, List.append_assoc])

/-- Every text can be taken apart as it is read. -/
theorem reads_read (text : List Char) : Reads text (read text) := by
  -- reading takes one item at a time, so its cases are the ends of the grammar and its items
  fun_induction read text with
  | case1 => exact .unclosed .nil
  | case2 rest => exact .closed .nil rfl
  | case3 tail c rest hesc _ ih =>
    obtain ⟨letters, hitem, rfl⟩ := escape?_eq_some_iff.1 hesc
    exact ih.cons hitem
  | case4 tail hesc => exact .badEscape .nil (stray_of_escape? hesc) rfl
  | case5 c rest hquote hbackslash ih =>
    exact ih.cons (.plain hquote hbackslash)

/-- **Reading decodes the grammar**, and there is one way to take a text apart. -/
theorem reads_iff {o : Outcome} : Reads text o ↔ read text = o :=
  ⟨Reads.read_eq, fun h => h ▸ reads_read text⟩

/-! ## What is left -/

/-- What is left when reading stops, at a quote or at a backslash, is an end of the text. -/
def Outcome.rest? : Outcome → Option (List Char)
  | .closed _ rest => some rest
  | .unclosed => none
  | .badEscape rest => some rest

theorem suffix_of_read (h : (read text).rest? = some rest) : rest <:+ text := by
  have hreads := reads_read text
  generalize read text = outcome at h hreads
  cases hreads with
  | closed hitems htext =>
    cases h
    exact htext ▸ (List.suffix_cons '"' _).trans (List.suffix_append ..)
  | unclosed => cases h
  | badEscape hitems hback htext =>
    cases h
    exact htext ▸ List.suffix_append ..

/-- A string that is closed is closed whatever follows. -/
theorem read_append (h : read text = .closed contents rest) (more : List Char) :
    read (text ++ more) = .closed contents (rest ++ more) := by
  cases reads_iff.2 h with
  | closed hitems htext =>
    exact Reads.read_eq (.closed hitems (by rw [htext, List.append_assoc, List.cons_append]))

/-! ## Writing -/

/-- The inside of a literal that stands for a string: a backslash in front of every quote and of
every backslash. -/
def write (contents : List Char) : List Char :=
  contents.flatMap fun c => if c = '"' ∨ c = '\\' then ['\\', c] else [c]

theorem items_write (contents : List Char) : Items (write contents) contents := by
  induction contents with
  | nil => exact .nil
  | cons c contents ih =>
    have hitem : Item (if c = '"' ∨ c = '\\' then ['\\', c] else [c]) c := by
      split
      · next h =>
        rcases h with rfl | rfl
        · exact .quote
        · exact .backslash
      · next h => exact .plain (fun hc => h (.inl hc)) fun hc => h (.inr hc)
    exact .cons hitem ih

/-- **What is written is read back**, whatever follows. -/
theorem read_write (contents rest : List Char) :
    read (write contents ++ '"' :: rest) = .closed contents rest :=
  Reads.read_eq (.closed (items_write contents) rfl)

end Quoted

end ReversePolish
