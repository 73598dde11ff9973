import HtmlMend.Proofs.Page.Delivery

/-! # Pages: work as a page is read

A report is defined on the tokens of a whole scan. The same report comes out if each token is edited
as soon as it is passed on, before the reader moves past another character, and nothing more is read
once the work is refused (`mend_eq_mendAsRead`). -/

namespace HtmlMend.Page

open Input Markup Output

/-- Work on what a reader has before it: the tokens of each reaction are edited before the reader
moves on. -/
def Report.follow (settings : Settings) (r : Report) (s : Scanner) (reader : Reader) : Report :=
  let reaction := s.react reader.cursor reader.lookahead
  let edited := r.addAll settings reaction.tokens
  if edited.ending = .complete then
    match _look : reader.lookahead with
    | none => edited
    | some _ =>
      match _read : { reader with cursor := reaction.cursor }.advance with
      | (_, some why) => { edited with ending := .unreadable why }
      | (next, none) => edited.follow settings reaction.scanner next
  else edited
termination_by reader.remaining
decreasing_by
  have lt := Reader.remaining_advance_lt (r := { reader with cursor := reaction.cursor }) _look
    (by rw [_read])
  rw [_read] at lt
  exact lt

/-- Mend the page that a stream delivers, as it is read. -/
def mendAsRead (settings : Settings) (xml : Bool) (stream : Stream) : Report :=
  match (Reader.ofStream stream).start with
  | (_, some why) => { ending := .unreadable why }
  | (reader, none) => ({} : Report).follow settings (Scanner.new xml) reader

/-! ### Tokens of a scan, reaction by reaction -/

section Reaction

variable (s : Scanner) {reader next : Reader} {c : Char}

/-- After a reaction, what is read next is followed. -/
theorem follow_of_read (look : reader.lookahead = some c)
    (read : { reader with cursor := (s.react reader.cursor reader.lookahead).cursor }.advance =
      (next, none)) :
    (s.follow reader #[]).tokens.toList = (s.react reader.cursor reader.lookahead).tokens ++
        ((s.react reader.cursor reader.lookahead).scanner.follow next #[]).tokens.toList ∧
      (s.follow reader #[]).failure =
        ((s.react reader.cursor reader.lookahead).scanner.follow next #[]).failure := by
  obtain ⟨cursor, lookahead, chunk, stream⟩ := reader
  obtain rfl : lookahead = some c := look
  rw [Reader.advance_of_lookahead rfl] at read
  obtain ⟨tokens, failure⟩ := Scanner.follow_passed (s.react cursor (some c)).scanner next
    ((#[] : Array Token) ++ (s.react cursor (some c)).tokens)
  rw [Scanner.follow_of_some rfl, read]
  exact ⟨by simpa using tokens, failure⟩

theorem follow_of_failure {why : ReadFailure} (look : reader.lookahead = some c)
    (read : { reader with cursor := (s.react reader.cursor reader.lookahead).cursor }.advance =
      (next, some why)) :
    (s.follow reader #[]).tokens.toList = (s.react reader.cursor reader.lookahead).tokens ∧
      (s.follow reader #[]).failure = some why := by
  obtain ⟨cursor, lookahead, chunk, stream⟩ := reader
  obtain rfl : lookahead = some c := look
  rw [Reader.advance_of_lookahead rfl] at read
  rw [Scanner.follow_of_some rfl, read]
  exact ⟨by simp, rfl⟩

theorem exists_follow_tokens (reader : Reader) : ∃ later, (s.follow reader #[]).tokens.toList =
    (s.react reader.cursor reader.lookahead).tokens ++ later := by
  cases look : reader.lookahead with
  | none =>
    rw [Scanner.follow_of_none look]
    exact ⟨[], by simp⟩
  | some c =>
    rw [← look]
    rcases read : { reader with cursor := (s.react reader.cursor reader.lookahead).cursor }.advance
      with ⟨next, _ | why⟩
    · exact ⟨_, (follow_of_read s look read).1⟩
    · exact ⟨[], by rw [(follow_of_failure s look read).1, List.append_nil]⟩

end Reaction

/-! ### Reports -/

/-- Following a reader gives the report on all that the scanner passes on. -/
theorem Report.follow_eq (settings : Settings) (r : Report) (s : Scanner) (reader : Reader)
    (complete : r.ending = .complete) :
    r.follow settings s reader =
      (r.addAll settings (s.follow reader #[]).tokens.toList).endedBy
        (s.follow reader #[]).failure := by
  -- After a reaction comes the end, a read that fails or the next character; or work is refused.
  fun_induction Report.follow settings r s reader with
  | case1 r s reader reaction edited accepted look =>
    have reacted : s.react reader.cursor none = reaction := by rw [← look]
    rw [Scanner.follow_of_none look, endedBy_none, reacted]
    simp [edited]
  | case2 r s reader reaction edited accepted c look next why read =>
    obtain ⟨tokens, failure⟩ := follow_of_failure s look read
    rw [tokens, failure, endedBy_some accepted]
  | case3 r s reader reaction edited accepted c look next read ih =>
    obtain ⟨tokens, failure⟩ := follow_of_read s look read
    rcases addAll_append_cases (reaction.scanner.follow next #[]).tokens.toList reaction.tokens
      complete with ⟨-, all⟩ | ⟨problem, refused, -⟩
    · rw [ih accepted, tokens, failure, all]
    · cases accepted.symm.trans refused
  | case4 r s reader reaction edited ended =>
    obtain ⟨later, tokens⟩ := exists_follow_tokens s reader
    rcases addAll_append_cases later reaction.tokens complete with
      ⟨accepted, -⟩ | ⟨problem, refused, all⟩
    · exact absurd accepted ended
    · rw [tokens, all, endedBy_of_refused refused]

/-- **The report on a page is the same if the page is mended as it is read.** -/
theorem mend_eq_mendAsRead (settings : Settings) (xml : Bool) (stream : Stream) :
    mend settings xml stream = mendAsRead settings xml stream := by
  unfold mend mendAsRead Scanner.scan
  rcases (Reader.ofStream stream).start with ⟨reader, _ | why⟩
  · exact (Report.follow_eq settings {} (Scanner.new xml) reader rfl).symm
  · rfl

end HtmlMend.Page
