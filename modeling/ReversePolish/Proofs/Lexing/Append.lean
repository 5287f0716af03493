import ReversePolish.Proofs.Lexing.Plain
/-!
# Two texts with a blank between them

A blank ends a word, a reference and a number as the end of the text does, and behind the closing
quote of a string it is skipped. So a text that is read to its end without a failure can be put in
front of another one, with a blank between the two: the tokens are those of the first text, and
then those of the second, as far behind the beginning as the second text now stands.

`lexFrom_append` says this of the plain lexer, item by item, and `drain_append` of the tokens that a
run is made of.
-/

namespace ReversePolish

/-! ## Further behind the beginning -/

/-- The same token, `n` bytes further behind the beginning of a text. -/
def Token.shift (n : Nat) (t : Token) : Token := { t with offset := t.offset + n }

/-- The same failure, `n` bytes further behind the beginning; one without a place has none. -/
def Diagnostic.shift (n : Nat) (d : Diagnostic) : Diagnostic :=
  { d with position := d.position.map (· + n) }

namespace Plain

/-- The same item, `n` bytes further behind the beginning. -/
def shift (n : Nat) : Except Diagnostic Token → Except Diagnostic Token
  | .ok t => .ok (t.shift n)
  | .error reason => .error (reason.shift n)

variable {p n : Nat}

theorem reference_add (kind : TokenKind) (name : List Char) :
    reference kind name (p + n) = shift n (reference kind name p) := by
  unfold reference
  split <;> rfl

theorem classify_add (run : List Char) : classify run (p + n) = shift n (classify run p) := by
  unfold classify
  split
  · exact reference_add _ _
  · exact reference_add _ _
  · split <;> rfl

theorem map_followedBy (item : Except Diagnostic Token) (more : List (Except Diagnostic Token)) :
    (followedBy item more).map (shift n) = followedBy (shift n item) (more.map (shift n)) := by
  cases item <;> rfl

/-- **Where a text begins** is all that its offsets depend on. -/
theorem lexFrom_add (p n : Nat) (text : List Char) :
    lexFrom (p + n) text = (lexFrom p text).map (shift n) := by
  fun_induction lexFrom p text with
  | case1 => rw [lexFrom]; rfl
  | case2 p c rest hc ih => rw [lexFrom_of_isBlank hc, Nat.add_right_comm, ih]
  | case3 p rest contents after hr _ _ ih =>
    rw [lexFrom_quote, hr, map_followedBy, ← ih]
    simp only [shift, Token.shift, Nat.add_right_comm, Nat.add_assoc, Nat.add_comm n]
  | case4 p rest hr => rw [lexFrom_quote, hr]; rfl
  | case5 p rest after hr =>
    rw [lexFrom_quote, hr]
    simp [shift, Diagnostic.shift, Diagnostic.atOffset, Nat.add_right_comm]
  | case6 p c rest hc hq _ run after ih =>
    rw [lexFrom, dif_neg hc, if_neg hq, map_followedBy, ← ih, ← classify_add, Nat.add_right_comm]

end Plain

/-! ## A blank ends what the end of the text ends -/

/-- A blank ends a run. -/
theorem takeWhile_append_blank {w : Char} (hw : Text.isBlank w = true) (front back : List Char) :
    (front ++ w :: back).takeWhile (fun c => !Text.isBlank c)
        = front.takeWhile (fun c => !Text.isBlank c) ∧
      (front ++ w :: back).dropWhile (fun c => !Text.isBlank c)
        = front.dropWhile (fun c => !Text.isBlank c) ++ w :: back := by
  induction front with
  | nil => simp [hw]
  | cons c front ih =>
    by_cases hc : Text.isBlank c = true
    · simp [hc]
    · simpa [hc] using ih

namespace Plain

/-- **A blank between two texts** ends the last token of the first one. -/
theorem lexFrom_append {w : Char} (hw : Text.isBlank w = true) {p : Nat} {front : List Char}
    (hfront : ∀ reason, .error reason ∉ lexFrom p front) (back : List Char) :
    lexFrom p (front ++ w :: back)
      = lexFrom p front ++ lexFrom (p + Text.byteLength front + w.utf8Size) back := by
  have hquote : ('"' : Char).utf8Size = 1 := rfl
  fun_induction lexFrom p front with
  | case1 => simp [lexFrom_of_isBlank hw]
  | case2 p c rest hc ih =>
    rw [List.cons_append, lexFrom_of_isBlank hc, ih hfront, Text.byteLength_cons]
    simp only [Nat.add_assoc]
  | case3 p rest contents after hr _ _ ih =>
    obtain ⟨passed, rfl⟩ : after <:+ rest := Quoted.suffix_of_read (by rw [hr]; rfl)
    have hmore := ih fun reason hmem => hfront reason (List.mem_cons_of_mem _ hmem)
    rw [List.cons_append, lexFrom_quote, Quoted.read_append hr]
    simp only [followedBy, List.cons_append, Text.byteLength_append, Text.byteLength_cons,
      Nat.add_sub_cancel, Nat.add_sub_add_right, hquote] at hmore ⊢
    rw [hmore]
    simp only [Nat.add_assoc]
  | case4 p rest hr => exact absurd List.mem_cons_self (hfront _)
  | case5 p rest after hr => exact absurd List.mem_cons_self (hfront _)
  | case6 p c rest hc hq _ run after ih =>
    have hbytes : Text.byteLength (c :: rest) = Text.byteLength run + Text.byteLength after := by
      rw [← Text.byteLength_append, List.takeWhile_append_dropWhile]
    obtain ⟨hrun, hafter⟩ := takeWhile_append_blank hw (c :: rest) back
    have hlong : lexFrom p (c :: rest ++ w :: back)
        = followedBy (classify run p)
            (lexFrom (p + Text.byteLength run) (after ++ w :: back)) := by
      rw [List.cons_append] at hrun hafter ⊢
      rw [lexFrom, dif_neg hc, if_neg hq, hrun, hafter]
    rw [hlong, hbytes]
    cases hclass : classify run p with
    | error reason =>
      rw [hclass] at hfront
      exact absurd List.mem_cons_self (hfront reason)
    | ok t =>
      rw [hclass] at hfront
      have hmore := ih fun reason hmem => hfront reason (List.mem_cons_of_mem _ hmem)
      rw [followedBy, hmore]
      simp only [followedBy, List.cons_append, Nat.add_assoc]

end Plain

/-! ## The tokens of a run -/

namespace Text

/-- A text takes up as many bytes as its characters do. -/
theorem byteLength_toList (s : String) : byteLength s.toList = s.utf8ByteSize := by
  have key : ∀ cs : List Char, byteLength cs = (String.ofList cs).utf8ByteSize := by
    intro cs
    induction cs with
    | nil => rfl
    | cons c cs ih =>
      rw [String.ofList_cons, String.utf8ByteSize_append, String.utf8ByteSize_singleton, ← ih]
      rfl
  rw [key, String.ofList_toList]

end Text

namespace Lexer

/-- A lexer at the start of a text. -/
def start (text : String) : Lexer := ⟨⟨0, text.toList⟩, false⟩

theorem ofText_eq {text : String} {capacity : Nat} (h : text.utf8ByteSize ≤ capacity) :
    ofText text capacity = .ok (start text) :=
  if_neg (Nat.not_lt.2 h)

/-- The items of a lexer tell its tokens and its failure. -/
theorem Yield.eq_of_items {y : Yield} {tokens : List Token} {failure : Option Diagnostic}
    (h : y.items = tokens.map .ok ++ failure.toList.map .error) :
    y.tokens = tokens ∧ y.failure = failure := by
  obtain ⟨found, refusal, after⟩ := y
  simp only [Yield.items] at h ⊢
  induction found generalizing tokens with
  | nil =>
    cases tokens with
    | nil => cases refusal <;> cases failure <;> simp_all
    | cons t tokens => cases refusal <;> simp at h
  | cons t found ih =>
    cases tokens with
    | nil => cases failure <;> simp at h
    | cons u tokens =>
      simp only [List.map_cons, List.cons_append, List.cons.injEq, Except.ok.injEq] at h
      obtain ⟨rfl, hrest⟩ := h
      obtain ⟨htokens, hfailure⟩ := ih hrest
      exact ⟨congrArg (t :: ·) htokens, hfailure⟩

theorem items_drain_start (text : String) :
    (start text).drain.items = Plain.lexFrom 0 text.toList :=
  drain_eq (start text)

/-- A text of which every item is a token has these tokens and no failure. -/
theorem drain_of_lexFrom {text : String} {tokens : List Token}
    (h : Plain.lexFrom 0 text.toList = tokens.map .ok) :
    (start text).drain.tokens = tokens ∧ (start text).drain.failure = none := by
  apply Yield.eq_of_items
  rw [items_drain_start, h]
  exact (List.append_nil _).symm

theorem Yield.map_shift_items (y : Yield) (n : Nat) :
    y.items.map (Plain.shift n) = (y.tokens.map (Token.shift n)).map .ok
      ++ (y.failure.map (Diagnostic.shift n)).toList.map .error := by
  rw [items, List.map_append, List.map_map, List.map_map, List.map_map]
  cases y.failure <;> rfl

/-- **The tokens of two texts** with a blank between them are those of the first one and then those
of the second, and so is the failure, if the first text has none. -/
theorem drain_append {front : String} {w : Char} (hw : Text.isBlank w = true)
    (h : (start front).drain.failure = none) (back : String) :
    (start (front.push w ++ back)).drain.tokens
        = (start front).drain.tokens
          ++ (start back).drain.tokens.map (Token.shift (front.push w).utf8ByteSize) ∧
      (start (front.push w ++ back)).drain.failure
        = (start back).drain.failure.map (Diagnostic.shift (front.push w).utf8ByteSize) := by
  have hfront : (start front).drain.items = (start front).drain.tokens.map .ok := by
    rw [Yield.items, h]
    exact List.append_nil _
  have hclean : ∀ reason, .error reason ∉ Plain.lexFrom 0 front.toList := by
    intro reason hmem
    rw [← items_drain_start, hfront] at hmem
    simp at hmem
  have hbytes : 0 + Text.byteLength front.toList + w.utf8Size
      = 0 + (front.push w).utf8ByteSize := by
    rw [Text.byteLength_toList, String.utf8ByteSize_push, Nat.add_assoc]
  apply Yield.eq_of_items
  calc (start (front.push w ++ back)).drain.items
      = Plain.lexFrom 0 (front.toList ++ w :: back.toList) := by
        rw [items_drain_start, String.toList_append, String.toList_push, List.append_assoc,
          List.singleton_append]
    _ = (start front).drain.items
          ++ (start back).drain.items.map (Plain.shift (front.push w).utf8ByteSize) := by
        rw [Plain.lexFrom_append hw hclean, hbytes, Plain.lexFrom_add, items_drain_start,
          items_drain_start]
    _ = _ := by rw [hfront, Yield.map_shift_items, List.map_append, List.append_assoc]

end Lexer

end ReversePolish
