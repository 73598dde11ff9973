import HtmlMend.Proofs.Input.Delivery

/-! # Input: the account of a reader

A reader is used in any order: it moves on, its pending text is taken, counted or looked at
(`Reader.Use`). What was taken, what is pending, the lookahead and what is left of the stream are
the whole input at all times, and the number of the line is read off what was moved past
(`Reader.Accounts`). Loading moves the front of what is left into the lookahead
(`Reader.load_texts`); from it each use keeps the account, and so does every run of uses
(`Reader.accounts_performAll`). -/

namespace HtmlMend.Input.Reader

/-- One way to use a reader. -/
inductive Use
  | advance
  | takePending
  | pendingLength
  | peekPending (start : Int)
deriving DecidableEq, Repr

/-- What a use gives back. -/
inductive Answer
  /-- The lookahead after the move. -/
  | moved (lookahead : Option Char)
  | failed (why : ReadFailure)
  | taken (text : String)
  | counted (length : Nat)
  | seen (text : String)
deriving DecidableEq

/-- The text that an answer takes out of the reader. -/
def Answer.text : Answer → String
  | taken text => text
  | _ => ""

/-- One use. -/
def perform (r : Reader) : Use → Answer × Reader
  | .advance =>
    match r.advance with
    | (next, none) => (.moved next.lookahead, next)
    | (next, some why) => (.failed why, next)
  | .takePending => (.taken r.takePending.1, r.takePending.2)
  | .pendingLength => (.counted r.pendingLength, r)
  | .peekPending start => (.seen (r.peekPending start), r)

/-- Uses one after the other, with the answers in order. -/
def performAll (r : Reader) : List Use → List Answer × Reader
  | [] => ([], r)
  | use :: uses =>
    let (answer, next) := r.perform use
    let (answers, last) := next.performAll uses
    (answer :: answers, last)

/-- The texts that were taken, put together. -/
def takenText (answers : List Answer) : String := String.join (answers.map Answer.text)

/-- The account of a reader of these pieces, once this text was taken. -/
structure Accounts (pieces : List String) (text : String) (r : Reader) : Prop where
  /-- Nothing of the input is lost, moved or read twice. -/
  whole : ∃ left, left <:+ pieces ∧ r.stream = left.map .text ∧
    (text ++ r.cursor.pending).toList ++ r.lookahead.toList ++ r.chunk ++
      (String.join left).toList = (String.join pieces).toList
  /-- The line is the one after the line ends that were moved past. -/
  line : r.cursor.line = 1 + (text ++ r.cursor.pending).toList.count '\n'
  /-- There is a lookahead as long as anything is left. -/
  exhausted : r.lookahead = none → r.chunk = [] ∧ r.stream = []

/-- **Loading** moves the first character of what is left into the lookahead. -/
theorem load_texts {r : Reader} {left : List String} (full : ∀ s ∈ left, s ≠ "")
    (stream : r.stream = left.map .text) :
    ∃ next left', r.load = (next, none) ∧ next.cursor = r.cursor ∧ left' <:+ left ∧
      next.stream = left'.map .text ∧
      next.lookahead.toList ++ next.chunk ++ (String.join left').toList =
        r.chunk ++ (String.join left).toList ∧
      (next.lookahead = none → next.chunk = [] ∧ next.stream = []) := by
  obtain ⟨cursor, lookahead, chunk, _⟩ := r
  obtain rfl := stream
  rcases chunk with _ | ⟨c, rest⟩
  · rcases left with _ | ⟨s, left⟩
    · exact ⟨⟨cursor, none, [], []⟩, [], rfl, rfl, List.suffix_rfl, rfl, rfl, fun _ => ⟨rfl, rfl⟩⟩
    · have ne : s ≠ "" := full s (by simp)
      obtain ⟨c, rest, chars⟩ : ∃ c rest, s.toList = c :: rest :=
        List.exists_cons_of_ne_nil (mt String.toList_eq_nil_iff.mp ne)
      refine ⟨⟨cursor, some c, rest, left.map .text⟩, left, by simp [load, chars], rfl,
        List.suffix_cons s left, rfl, ?_, by simp⟩
      simp [chars]
  · exact ⟨⟨cursor, some c, rest, left.map .text⟩, left, rfl, rfl, List.suffix_rfl, rfl, rfl,
      by simp⟩

variable {pieces : List String} {text : String} {r : Reader}

theorem accounts_start (full : ∀ s ∈ pieces, s ≠ "") :
    (ofStream (pieces.map .text)).start.2 = none ∧
      Accounts pieces "" (ofStream (pieces.map .text)).start.1 := by
  obtain ⟨next, left, load, cursor, suffix, stream, kept, exhausted⟩ :=
    load_texts (r := { ofStream (pieces.map .text) with cursor := {} }) full rfl
  rw [start, load]
  refine ⟨rfl, ⟨left, suffix, stream, ?_⟩, ?_, exhausted⟩
  · simpa [cursor, ofStream] using kept
  · simp [cursor]

theorem Accounts.advance (full : ∀ s ∈ pieces, s ≠ "") (h : Accounts pieces text r) :
    r.advance.2 = none ∧ Accounts pieces text r.advance.1 := by
  rcases look : r.lookahead with _ | c
  · simpa [Reader.advance, look] using h
  obtain ⟨left, suffix, stream, whole⟩ := h.whole
  obtain ⟨next, left', load, cursor, suffix', stream', kept, exhausted⟩ :=
    load_texts (r := { r with cursor := r.cursor.push c })
      (fun s mem => full s (suffix.subset mem)) stream
  rw [advance_of_lookahead look, load]
  refine ⟨rfl, ⟨left', suffix'.trans suffix, stream', ?_⟩, ?_, exhausted⟩
  · calc (text ++ next.cursor.pending).toList ++ next.lookahead.toList ++ next.chunk ++
          (String.join left').toList
        = (text ++ (r.cursor.push c).pending).toList ++ (next.lookahead.toList ++ next.chunk ++
          (String.join left').toList) := by simp [cursor]
      _ = (text ++ (r.cursor.push c).pending).toList ++ (r.chunk ++ (String.join left).toList) := by
        rw [kept]
      _ = (String.join pieces).toList := by simpa [look] using whole
  · rw [cursor]
    by_cases nl : c = '\n' <;> simp [Cursor.push, nl, h.line, List.count_append, Nat.add_assoc]

/-- **One use keeps the account.** -/
theorem Accounts.perform (full : ∀ s ∈ pieces, s ≠ "") (h : Accounts pieces text r) (use : Use) :
    (∀ why, (r.perform use).1 ≠ .failed why) ∧
      Accounts pieces (text ++ (r.perform use).1.text) (r.perform use).2 := by
  cases use with
  | advance =>
    obtain ⟨ok, account⟩ := h.advance full
    have moved : r.perform .advance = (.moved r.advance.1.lookahead, r.advance.1) := by
      simp only [Reader.perform]
      split <;> simp_all
    rw [moved]
    exact ⟨by simp, by simpa [Answer.text] using account⟩
  | takePending =>
    obtain ⟨whole, line, exhausted⟩ := h
    refine ⟨by simp [Reader.perform], ?_, ?_, exhausted⟩
    · simpa [Reader.perform, takePending, Answer.text] using whole
    · simpa [Reader.perform, takePending, Answer.text] using line
  | pendingLength =>
    exact ⟨by simp [Reader.perform], by simpa [Reader.perform, Answer.text] using h⟩
  | peekPending start =>
    exact ⟨by simp [Reader.perform], by simpa [Reader.perform, Answer.text] using h⟩

theorem Accounts.performAll (full : ∀ s ∈ pieces, s ≠ "") :
    ∀ {text : String} {r : Reader}, Accounts pieces text r → ∀ uses : List Use,
      (∀ why, .failed why ∉ (r.performAll uses).1) ∧
        Accounts pieces (text ++ takenText (r.performAll uses).1) (r.performAll uses).2
  | _, _, h, [] => ⟨by simp [Reader.performAll], by simpa [Reader.performAll, takenText] using h⟩
  | text, r, h, use :: uses => by
    obtain ⟨ok, account⟩ := h.perform full use
    obtain ⟨oks, accounts⟩ := account.performAll full uses
    refine ⟨fun why => ?_, ?_⟩
    · simpa [Reader.performAll] using ⟨(ok why).symm, oks why⟩
    · simpa [Reader.performAll, takenText, String.append_assoc] using accounts

/-- **The account of a reader.** Whatever is done with a reader of pieces that are not empty after
it has begun, no read fails, its account holds, and at the end of the input a move changes
nothing. -/
theorem accounts_performAll (pieces : List String) (full : ∀ s ∈ pieces, s ≠ "")
    (uses : List Use) :
    let begun := (ofStream (pieces.map .text)).start
    let run := begun.1.performAll uses
    begun.2 = none ∧ (∀ why, .failed why ∉ run.1) ∧ Accounts pieces (takenText run.1) run.2 ∧
      (run.2.lookahead = none → run.2.advance = (run.2, none)) := by
  intro begun run
  obtain ⟨ok, account⟩ := accounts_start full
  obtain ⟨oks, accounts⟩ := account.performAll full uses
  exact ⟨ok, oks, by simpa using accounts, fun look => by simp [advance, look]⟩

/-- Moves past the pieces of a text, with the text taken at a line end and at the end. -/
theorem accounts_performAll_two_pieces :
    let begun := (ofStream (["ab\n", "c"].map .text)).start
    let run := begun.1.performAll
      [.advance, .advance, .advance, .pendingLength, .takePending, .advance, .peekPending 0,
        .advance]
    run = ([.moved (some 'b'), .moved (some '\n'), .moved (some 'c'), .counted 3, .taken "ab\n",
        .moved none, .seen "c", .moved none], ⟨⟨"c", 2⟩, none, [], []⟩) ∧
      Accounts ["ab\n", "c"] "ab\n" run.2 ∧ run.2.advance = (run.2, none) := by
  intro begun run
  have answers : run = ([.moved (some 'b'), .moved (some '\n'), .moved (some 'c'), .counted 3,
      .taken "ab\n", .moved none, .seen "c", .moved none], ⟨⟨"c", 2⟩, none, [], []⟩) := by
    decide +kernel
  obtain ⟨-, -, account, ended⟩ := accounts_performAll ["ab\n", "c"] (by decide)
    [.advance, .advance, .advance, .pendingLength, .takePending, .advance, .peekPending 0, .advance]
  have taken : takenText run.1 = "ab\n" := by rw [answers]; decide +kernel
  exact ⟨answers, taken ▸ account, ended (by change run.2.lookahead = none; rw [answers])⟩

end HtmlMend.Input.Reader
