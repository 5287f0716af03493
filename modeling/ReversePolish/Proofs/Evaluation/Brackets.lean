import ReversePolish.Proofs.Evaluation.Nesting
import ReversePolish.Proofs.Evaluation.Reached
import ReversePolish.Proofs.Operator.Discipline
/-!
# Brackets and segments

The words `[` and `]` are the only tokens that change the number of segments, whatever state they
are executed in: an operator does not see the parked segments, and all other tokens push a slot. So
the segments of a run are counted by counting its brackets (`segments_executeAll`), and the one
thing that can go wrong is a closing bracket where only the root is open.

Neither bracket moves a slot. The slots of all segments, the bottom of the root first, are the same
list before and after an opening bracket, and a closing one adds the count of the segment at the end
of that list: the segments are only a way of cutting it.
-/

namespace ReversePolish

/-! ## The stack -/

namespace Stack

variable {s : Stack}

@[simp] theorem segments_openSegment (s : Stack) : s.openSegment.segments = s.segments + 1 := rfl

/-- Closing a segment puts its count behind all slots, and moves none of them. -/
theorem slots_close {parent : List Slot} {parked : List (List Slot)} (h : s.parked = parent :: parked)
    (count : Slot) :
    (⟨count :: s.active ++ parent, parked⟩ : Stack).slots = s.slots ++ [count] := by
  simp [slots, h]

/-- Only the root is open if nothing is parked. -/
theorem segments_eq_one : s.segments = 1 ↔ s.parked = [] := by
  simp [segments]

/-- The root is always open. -/
theorem one_lt_segments (h : s.segments ≠ 1) : 1 < s.segments := by
  unfold segments at h ⊢
  omega

theorem exists_parked (h : 1 < s.segments) : ∃ parent parked, s.parked = parent :: parked := by
  refine List.exists_cons_of_ne_nil fun hnil => ?_
  rw [segments_eq_one.2 hnil] at h
  exact Nat.lt_irrefl 1 h

end Stack

theorem Effect.run_closeSegment_root {s : Machine} (h : s.stack.segments = 1) :
    closeSegment.run s = .error (.processing .noMoreStacks) s := by
  simp only [closeSegment, run_ofStep, Stack.closeSegment, Stack.segments_eq_one.1 h]
  rfl

/-! ## One token -/

/-- What a token does to the segments, and brackets to the slots, with `result` coming of it. -/
structure KeepsSegments (t : Token) (s : Machine) (result : EStateM.Result Failure Machine Unit) :
    Prop where
  /-- An opening bracket starts an empty segment above the one that was active. -/
  opens : t.isWord "[" = true → ∃ s', result = .ok () s' ∧
    s'.stack.segments = s.stack.segments + 1 ∧ s'.stack.slots = s.stack.slots ∧
    s'.stack.active = [] ∧ s'.stack.parked = s.stack.active :: s.stack.parked
  /-- A closing bracket ends one, and adds its count behind all slots: the slots of the segment
  below come to lie under those of the one that is closed. -/
  closes : t.isWord "]" = true → 1 < s.stack.segments → ∃ s', result = .ok () s' ∧
    s'.stack.segments + 1 = s.stack.segments ∧
    s'.stack.slots = s.stack.slots ++ [.value (.unsigned (UInt64.ofNat s.stack.size))] ∧
    ∃ parent, s.stack.parked = parent :: s'.stack.parked ∧ s'.stack.active
      = .value (.unsigned (UInt64.ofNat s.stack.size)) :: s.stack.active ++ parent
  /-- There is no segment to close for a closing bracket in the root, and only then. -/
  refuses : ∀ s', result = .error (.processing .noMoreStacks) s' ↔
    t.isWord "]" = true ∧ s.stack.segments = 1 ∧ s' = s
  /-- Nothing else changes the number of segments, whether it fails or not. -/
  others : t.isWord "[" = false → t.isWord "]" = false →
    (Effect.stateOf result).stack.segments = s.stack.segments

section

variable {table : OperatorTable} {mustExist : Bool} {t : Token} {s : Machine}

theorem execute_open (h : t.isWord "[" = true) :
    (execute table mustExist t).run s = .ok () { s with stack := s.stack.openSegment } := by
  obtain ⟨hkind, htext⟩ := Token.isWord_iff.1 h
  simp only [execute, hkind, htext, executeWord, if_true, Effect.run_openSegment]

theorem execute_close (h : t.isWord "]" = true) :
    (execute table mustExist t).run s = Effect.closeSegment.run s := by
  obtain ⟨hkind, htext⟩ := Token.isWord_iff.1 h
  have hopen : ¬"]" = "[" := by decide
  simp only [execute, hkind, htext, executeWord, hopen, if_true, if_false]

/-- An operator neither opens nor closes a segment, and does not fail for want of one. -/
theorem Outcome.keepsSegments {op : Operator} {result : EStateM.Result Failure Machine Unit}
    (h : Outcome op s result) :
    (Effect.stateOf result).stack.segments = s.stack.segments ∧
      ∀ code s', result ≠ .error (.processing code) s' := by
  cases h with
  | short | stopped => exact ⟨rfl, by simp⟩
  | refused failure _ _ _ htext =>
    refine ⟨rfl, fun code s' h => ?_⟩
    cases h
    exact htext code rfl
  | computed | moved | assigned => exact ⟨rfl, by simp⟩

/-- A token that is no bracket does not touch the segments. -/
theorem Executed.segments_eq {lib : ElementaryFunctions}
    {result : EStateM.Result Failure Machine Unit} (h : Executed (.standard lib) mustExist t s result)
    (hopen : t.isWord "[" = false) (hclose : t.isWord "]" = false) :
    (Effect.stateOf result).stack.segments = s.stack.segments ∧
      ∀ s', result ≠ .error (.processing .noMoreStacks) s' := by
  have hno : ∀ {w}, t.isWord w = false → t.kind = .word → t.text ≠ w := by
    intro w hw hkind htext
    rw [Token.isWord_iff.2 ⟨hkind, htext⟩] at hw
    cases hw
  cases h with
  | pushed | known | created => exact ⟨rfl, by simp⟩
  | missing => exact ⟨rfl, by simp⟩
  | opened hkind htext => exact absurd htext (hno hopen hkind)
  | closed _ _ hkind htext | unopened hkind htext => exact absurd htext (hno hclose hkind)
  | unresolved code _ _ _ hcode => rcases hcode with rfl | rfl <;> exact ⟨rfl, by simp⟩
  | failed op _ _ _ hop h =>
    obtain ⟨hsegments, hfailure⟩ := (Outcome.of_run hop h).keepsSegments
    exact ⟨hsegments, hfailure _⟩
  | spoiled op _ _ _ hop h | applied op _ _ hop h =>
    exact ⟨(Outcome.of_run hop h).keepsSegments.1, by simp⟩

variable (mustExist t s) in
/-- **Every token**, in every state. -/
theorem keepsSegments (lib : ElementaryFunctions) :
    KeepsSegments t s ((execute (.standard lib) mustExist t).run s) := by
  cases hopen : t.isWord "[" with
  | true =>
    have hclose : t.isWord "]" = false := Token.isWord_of_ne (by decide) hopen
    rw [execute_open hopen]
    refine ⟨fun _ => ⟨_, rfl, rfl, s.stack.slots_openSegment, rfl, rfl⟩, ?_, ?_, ?_⟩ <;>
      simp [hopen, hclose]
  | false =>
    cases hclose : t.isWord "]" with
    | true =>
      rw [execute_close hclose]
      by_cases hroot : s.stack.segments = 1
      · rw [Effect.run_closeSegment_root hroot]
        constructor <;> simp [hopen, hclose, hroot, eq_comm]
      · obtain ⟨parent, parked, hparked⟩ := Stack.exists_parked (Stack.one_lt_segments hroot)
        rw [Effect.run_closeSegment hparked]
        refine ⟨by simp [hopen], fun _ _ =>
          ⟨_, rfl, ?_, Stack.slots_close hparked _, parent, hparked, rfl⟩, ?_, ?_⟩
        · simp [Stack.segments, hparked]
        · simp [hroot]
        · simp [hclose]
    | false =>
      obtain ⟨hsegments, hfailure⟩ :=
        (executed (.standard lib) mustExist t s).segments_eq hopen hclose
      refine ⟨by simp [hopen], by simp [hclose], fun s' => ?_, fun _ _ => hsegments⟩
      simp [hclose, hfailure s']

end

/-! ## A run -/

/-- A token that is executed adds what it opens and takes away what it closes. -/
theorem KeepsSegments.segments_add {t : Token} {s s' : Machine}
    (h : KeepsSegments t s (.ok () s')) :
    s'.stack.segments + (if t.isWord "]" then 1 else 0)
      = s.stack.segments + (if t.isWord "[" then 1 else 0) := by
  cases hopen : t.isWord "[" with
  | true =>
    have hclose : t.isWord "]" = false := Token.isWord_of_ne (by decide) hopen
    obtain ⟨_, hok, hsegments, -⟩ := h.opens hopen
    cases hok
    simp [hclose, hsegments]
  | false =>
    cases hclose : t.isWord "]" with
    | true =>
      have hroot : s.stack.segments ≠ 1 := by
        intro hroot
        have herror := (h.refuses s).2 ⟨hclose, hroot, rfl⟩
        cases herror
      obtain ⟨_, hok, hsegments, -⟩ := h.closes hclose (Stack.one_lt_segments hroot)
      cases hok
      simpa using hsegments
    | false =>
      have hsame : s'.stack.segments = s.stack.segments := h.others hopen hclose
      simpa using hsame

section

variable {lib : ElementaryFunctions} {capacity : Nat} {mustExist : Bool} {text : String}
  {s s' : Machine}

/-- **Segments are counted by brackets**: tokens that are all executed open as many as they have
opening brackets, and close as many as they have closing ones. -/
theorem segments_executeAll {tokens : List Token}
    (h : (executeAll (.standard lib) mustExist tokens).run s = .ok () s') :
    s'.stack.segments + tokens.countP (·.isWord "]")
      = s.stack.segments + tokens.countP (·.isWord "[") := by
  induction tokens generalizing s with
  | nil => cases h; rfl
  | cons t tokens ih =>
    cases ht : (execute (.standard lib) mustExist t).run s with
    | ok _ reached =>
      have hstep := (ht ▸ keepsSegments mustExist t s lib).segments_add
      rw [executeAll_cons ht] at h
      have hrest := ih h
      simp only [List.countP_cons]
      omega
    | error failure final =>
      simp only [executeAll, List.forM_eq_forM, List.forM_cons, EStateM.run_bind, ht] at h
      cases h

/-- **There are no more stacks to close** for a text if and only if it comes to a closing bracket
where only the root is open, and then it leaves the stack as it is. -/
theorem runText_noMoreStacks (d : Diagnostic) :
    let run := runText (.standard lib) capacity mustExist text s
    (run.failure = some d ∧ d.failure = .processing .noMoreStacks) ↔
      ∃ t reached, TextReaches (.standard lib) capacity mustExist text s t reached ∧
        t.isWord "]" = true ∧ reached.stack.segments = 1 ∧
        d = .atOffset (.processing .noMoreStacks) t.offset ∧ run.machine = reached := by
  intro run
  constructor
  · rintro ⟨hd, hcode⟩
    rcases textReaches_of_failure hd with ⟨t, reached, failure, hreaches, hfail, rfl⟩ | hrefusal
    · obtain rfl : failure = .processing .noMoreStacks := hcode
      obtain ⟨hclose, hroot, hsame⟩ := ((keepsSegments mustExist t reached lib).refuses _).1 hfail
      exact ⟨t, reached, hreaches, hclose, hroot, rfl, hsame⟩
    · -- the lexer refuses a text for other reasons
      obtain ⟨code, position, rfl, hreason⟩ := hrefusal
      cases hcode
      simp at hreason
  · rintro ⟨t, reached, hreaches, hclose, hroot, rfl, -⟩
    have hfail := ((keepsSegments mustExist t reached lib).refuses reached).2 ⟨hclose, hroot, rfl⟩
    exact ⟨(hreaches.stops hfail).1, rfl⟩

/-- **Brackets and segments.** Of all tokens only the words `[` and `]` change the number of
segments, whatever the state, the one by one more and the other by one less. An opening bracket
parks the active segment under an empty one, and a closing one takes it out again; over the slots of
all segments, the bottom of the root first, the one changes nothing, and the other adds one value
behind them, the number of slots in the segment that it closes. So a text that comes to its end
leaves as many segments more than there were as it has opening brackets, and as many less as it has
closing ones. There are no more stacks to close if and only if the text comes to a closing bracket
where only the root is open, and then the stack stays as it is. -/
theorem evaluate_brackets {c : Calculator} (htable : c.table = .standard lib) (text : String)
    (mustExist : Bool) :
    let tokens := (Lexer.start text).drain.tokens
    let result := c.evaluate text mustExist
    (∀ t s, KeepsSegments t s ((execute c.table mustExist t).run s)) ∧
      (result.1.failure = none →
        result.2.machine.stack.segments + tokens.countP (·.isWord "]")
          = c.machine.stack.segments + tokens.countP (·.isWord "[")) ∧
      ∀ d, (result.1.failure = some d ∧ d.failure = .processing .noMoreStacks) ↔
        ∃ t reached,
          TextReaches c.table c.config.capacity mustExist text c.machine t reached ∧
          t.isWord "]" = true ∧ reached.stack.segments = 1 ∧
          d = .atOffset (.processing .noMoreStacks) t.offset ∧
          result.2.machine = reached.dropLoose := by
  intro tokens result
  have hmachine : result.2.machine
      = (runText c.table c.config.capacity mustExist text c.machine).machine.dropLoose := rfl
  have hfailure : result.1.failure
      = (runText c.table c.config.capacity mustExist text c.machine).failure := rfl
  rw [hmachine, hfailure, htable]
  refine ⟨fun t s => keepsSegments mustExist t s lib, fun hends => ?_, fun d => ?_⟩
  · have hsegments := segments_executeAll (executeAll_of_runText hends)
    exact hsegments
  · refine (runText_noMoreStacks d).trans ?_
    constructor
    · rintro ⟨t, reached, hreaches, hclose, hroot, hd, hsame⟩
      exact ⟨t, reached, hreaches, hclose, hroot, hd, by rw [hsame]⟩
    · rintro ⟨t, reached, hreaches, hclose, hroot, hd, -⟩
      have hfail := ((keepsSegments mustExist t reached lib).refuses reached).2 ⟨hclose, hroot, rfl⟩
      exact ⟨t, reached, hreaches, hclose, hroot, hd, (hreaches.stops hfail).2⟩

end

/-- Two segments are open, and three are closed after two more have been opened; the name `[]` and
the word that stands for the variable of that name do not count. Of two closing brackets the first
one closes the one segment that there is. -/
theorem evaluate_brackets_nested :
    let c : Calculator := { Calculator.new {} with
      machine := { stack := ⟨[.value .null], [[.value (.boolean true)]]⟩ } }
    let text := "&[] [] [ 7i [ 8i ] ] ]"
    c.table = .standard .standard ∧ (c.evaluate text false).1.failure = none ∧
      (c.evaluate text false).2.machine.stack.segments + 3 = 2 + 2 ∧
      (c.evaluate "] ]" false).1.failure = some (.atOffset (.processing .noMoreStacks) 2) ∧
      ∃ t reached, TextReaches c.table 256 false "] ]" c.machine t reached ∧
        t.isWord "]" = true ∧ reached.stack.segments = 1 ∧
        (c.evaluate "] ]" false).2.machine = reached.dropLoose := by
  intro c text
  have hfits : Lexer.ofText text 256 = .ok ⟨⟨0, text.toList⟩, false⟩ := if_neg (by decide)
  have hdrain : Lexer.drain ⟨⟨0, text.toList⟩, false⟩ =
      ⟨[⟨.reference, "[]", 0⟩, ⟨.word, "[]", 4⟩, ⟨.word, "[", 7⟩, ⟨.number (.integer 7), "7i", 9⟩,
        ⟨.word, "[", 12⟩, ⟨.number (.integer 8), "8i", 14⟩, ⟨.word, "]", 17⟩, ⟨.word, "]", 19⟩,
        ⟨.word, "]", 21⟩], none, ⟨⟨22, []⟩, true⟩⟩ := by cbv
  have hends : (c.evaluate text false).1.failure = none := by
    simp only [Calculator.evaluate, Calculator.new, runText, hfits, hdrain, c]
    rfl
  have hsegments := (evaluate_brackets (c := c) rfl text false).2.1 hends
  have hopen : (Lexer.start text).drain.tokens.countP (·.isWord "[") = 2 := by
    rw [Lexer.start, hdrain]
    rfl
  have hclose : (Lexer.start text).drain.tokens.countP (·.isWord "]") = 3 := by
    rw [Lexer.start, hdrain]
    rfl
  rw [hopen, hclose] at hsegments
  have hfits' : Lexer.ofText "] ]" 256 = .ok ⟨⟨0, "] ]".toList⟩, false⟩ := if_neg (by decide)
  have hdrain' : Lexer.drain ⟨⟨0, "] ]".toList⟩, false⟩ =
      ⟨[⟨.word, "]", 0⟩, ⟨.word, "]", 2⟩], none, ⟨⟨3, []⟩, true⟩⟩ := by cbv
  have hfails : (c.evaluate "] ]" false).1.failure
      = some (.atOffset (.processing .noMoreStacks) 2) := by
    simp only [Calculator.evaluate, Calculator.new, runText, hfits', hdrain', c]
    rfl
  obtain ⟨t, reached, hreaches, hword, hroot, -, hmachine⟩ :=
    ((evaluate_brackets (c := c) rfl "] ]" false).2.2 _).1 ⟨hfails, rfl⟩
  exact ⟨rfl, hends, hsegments, hfails, t, reached, hreaches, hword, hroot, hmachine⟩

end ReversePolish
