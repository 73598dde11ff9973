import HtmlMend.Proofs.Markup.Writing
import HtmlMend.Proofs.Page.Ledger

/-! # Pages: nothing is lost, written twice, or moved

The output is the texts of the pieces of the tokens, in the order of the tokens (`mend_apportions`),
and so it is at every point on the way: what is written is the pieces of the tokens up to some
point, and what the open table holds is the pieces of the others, with no promotion yet. While a
table is open nothing is written. -/

namespace HtmlMend.Page

open Input Markup Output

/-- The pieces are those of the tokens, and the output is apportioned among them. A piece in
`pieces` is the plain one of its token unless the token is promoted in a simple table. -/
structure Apportions (settings : Settings) (tokens : List Token) (plain pieces : List Piece) :
    Prop where
  length_plain : plain.length = tokens.length
  length_pieces : pieces.length = tokens.length
  plain_piece : ∀ (i : Nat) (token : Token) (p : Piece), tokens[i]? = some token → plain[i]? = some p →
    IsPlainPiece settings.options token p
  piece : ∀ (i : Nat) (token : Token) (q p : Piece), tokens[i]? = some token →
    plain[i]? = some q → pieces[i]? = some p →
    p.added = q.added ∧ (p = q ∨ IsPromotedPiece token p ∧ InSimpleTable settings tokens i)
  output : (editAll settings tokens).text = textOf (pieces.flatMap Piece.fragments)
  earlier : ∀ n, n ≤ tokens.length → ∃ m, m ≤ n ∧
    (editAll settings (tokens.take n)).text = textOf ((pieces.take m).flatMap Piece.fragments) ∧
    (tableAfter settings (tokens.take n) = none → m = n) ∧
    ∀ t, tableAfter settings (tokens.take n) = some t →
      textOf (t.entries.toList.map Entry.fragment) =
        textOf (((plain.take n).drop m).flatMap Piece.fragments)
  waits : ∀ n, n < tokens.length → (tableAfter settings (tokens.take (n + 1))).isSome = true →
    (editAll settings (tokens.take (n + 1))).written = (editAll settings (tokens.take n)).written

variable {settings : Settings}

theorem chronicle_nil : Chronicle settings [] [] := by
  intro n le
  obtain rfl : n = 0 := by simpa using le
  exact ⟨0, ledger_nil, Nat.le_refl 0, fun _ => rfl⟩

theorem tableAfter_end (strict : settings.strict = false) (body : List Token) (line : Option Int)
    (raw : String) : tableAfter settings (body ++ [.endOfInput line raw]) = none := by
  rw [tableAfter_snoc strict]
  exact Outline.table_edit_end ..

/-- **The output of tokens up to the end of the input is apportioned among them.** -/
theorem exists_apportions (strict : settings.strict = false) (body : List Token)
    (line : Option Int) (raw : String) :
    ∃ plain pieces, Apportions settings (body ++ [.endOfInput line raw]) plain pieces ∧
      plain = (sharesFrom settings {} (body ++ [.endOfInput line raw])).map Share.piece := by
  obtain ⟨pieces, chronicle⟩ := Chronicle.append strict (body ++ [.endOfInput line raw])
    chronicle_nil
  simp only [List.nil_append] at chronicle
  have none := tableAfter_end strict body line raw
  generalize body ++ [Token.endOfInput line raw] = tokens at chronicle none ⊢
  obtain ⟨m, ledger, -, all⟩ := chronicle tokens.length (Nat.le_refl _)
  rw [List.take_length, all rfl, List.take_length] at ledger
  refine ⟨_, pieces, ⟨?_, ?_, ?_, ?_, ?_, ?_, ?_⟩, rfl⟩
  · simp
  · exact ledger.all_settled none
  · intro i token p token_i plain_i
    rw [List.getElem?_map, Option.map_eq_some_iff] at plain_i
    obtain ⟨share, share_i, rfl⟩ := plain_i
    obtain ⟨o, token', token_i', rfl⟩ := getElem?_sharesFrom _ share_i
    obtain rfl : token = token' := Option.some.inj (token_i.symm.trans token_i')
    exact isPlainPiece_share
  · intro i token q p token_i plain_i piece_i
    rw [List.getElem?_map, Option.map_eq_some_iff] at plain_i
    obtain ⟨share, share_i, rfl⟩ := plain_i
    obtain ⟨share', share_i', added, settles⟩ := ledger.pieces i p piece_i
    obtain rfl : share = share' := Option.some.inj (share_i.symm.trans share_i')
    refine ⟨added, settles.imp_right ?_⟩
    rintro ⟨token', token_i', promoted, inSimple⟩
    obtain rfl : token = token' := Option.some.inj (token_i.symm.trans token_i')
    exact ⟨promoted, inSimple⟩
  · exact ledger.written
  · intro n le
    obtain ⟨m, ledger, le', -⟩ := chronicle n le
    have length : (pieces.take m).length = m := by simp [le']
    have lengthN : (tokens.take n).length = n := by simp [le]
    refine ⟨m, by simpa [length, lengthN] using ledger.le, ledger.written, fun none => ?_,
      fun t table => ?_⟩
    · simpa [length, lengthN] using ledger.all_settled none
    · rw [ledger.held t table, sharesFrom_take, length, fragments_shares, ← List.map_take,
        ← List.map_drop]
  · intro n lt open_
    obtain ⟨m, ledger, -, -⟩ := chronicle n (Nat.le_of_lt lt)
    obtain ⟨token, token_n⟩ : ∃ token, tokens[n]? = some token :=
      ⟨tokens[n], List.getElem?_eq_getElem lt⟩
    have next : tokens.take (n + 1) = tokens.take n ++ [token] := by
      rw [List.take_add_one, token_n]
      rfl
    obtain ⟨new, -, unchanged⟩ := ledger.add strict token
    rw [next] at open_ ⊢
    exact unchanged open_

/-! ### Documents -/

/-- The tokens of a document. -/
def documentTokens (xml : Bool) (html : String) : List Token :=
  ((Scanner.new xml).scan (.ofStream (.whole html))).tokens.toList

theorem documentTokens_of_cut {xml : Bool} {ps : List Passage} (cut : Cut xml false ps) :
    documentTokens xml (String.ofList (rawOf ps)) = tokensOf false 1 ps ∧
      ((Scanner.new xml).scan (.ofStream (.whole (String.ofList (rawOf ps))))).failure = none := by
  have chars : (Stream.whole (String.ofList (rawOf ps))).chars = rawOf ps := by
    rw [Stream.chars_whole, String.toList_ofList]
  exact Scanner.tokens_scan (s := .new xml) cut chars (Stream.failure?_whole _)

theorem documentTokens_startTag {xml : Bool} {w : WrittenTag} (valid : w.Valid xml) :
    documentTokens xml (String.ofList w.raw) =
      [.startTag (w.startTag (some 1)),
        .endOfInput (some ((1 + w.raw.count '\n' : Nat) : Int)) ""] := by
  have cut : Cut xml false [.markup w.construct w.raw] := ⟨⟨w.completes valid, rfl⟩, trivial⟩
  have raw : rawOf [.markup w.construct w.raw] = w.raw := by simp [Passage.raw]
  obtain ⟨tokens, -⟩ := documentTokens_of_cut cut
  rw [raw] at tokens
  exact tokens

theorem covers_documentTokens (xml : Bool) (html : String) : Covers html (documentTokens xml html) := by
  obtain ⟨ps, cut, raw⟩ := exists_cut xml false html.toList
  obtain rfl : html = String.ofList (rawOf ps) := by rw [raw, String.ofList_toList]
  rw [(documentTokens_of_cut cut).1]
  exact covers_tokensOf cut

theorem Report.endedBy_none (r : Report) : r.endedBy none = r := by
  unfold Report.endedBy
  split
  · next h => cases h
  · rfl

/-- The tokens of a document end with the end of the input, and its report is that on its tokens. -/
theorem documentTokens_spec (settings : Settings) (xml : Bool) (html : String) :
    (∃ body line, documentTokens xml html = body ++ [.endOfInput line ""] ∧
      ∀ token ∈ body, token.isEnd = false) ∧
      mend settings xml (.whole html) = editAll settings (documentTokens xml html) := by
  obtain ⟨ps, cut, raw⟩ := exists_cut xml false html.toList
  obtain rfl : html = String.ofList (rawOf ps) := by rw [raw, String.ofList_toList]
  obtain ⟨tokens, failure⟩ := documentTokens_of_cut cut
  obtain ⟨body, line, split, inner⟩ := (covers_tokensOf cut).ends
  refine ⟨⟨body, line, tokens.trans split, inner⟩, ?_⟩
  simp only [mend, failure]
  exact Report.endedBy_none _

/-- A complete report has what is written for all tokens of the document. -/
theorem written_mend {settings : Settings} {xml : Bool} {html : String}
    (complete : (mend settings xml (.whole html)).ending = .complete) :
    (mend settings xml (.whole html)).written.toList =
      writtenFrom settings {} (documentTokens xml html) := by
  obtain ⟨-, report⟩ := documentTokens_spec settings xml html
  rw [report] at complete ⊢
  obtain ⟨m, -, -, written, all⟩ := Report.exists_take_addAll (documentTokens xml html) {}
  rw [all (.inl complete), List.take_length] at written
  exact written

/-- **Nothing is lost, written twice, or moved**: the output for a document is apportioned among its
tokens. -/
theorem mend_apportions {settings : Settings} (strict : settings.strict = false) (xml : Bool)
    (html : String) :
    ∃ plain pieces, Apportions settings (documentTokens xml html) plain pieces ∧
      (mend settings xml (.whole html)).text = textOf (pieces.flatMap Piece.fragments) := by
  obtain ⟨⟨body, line, split, -⟩, report⟩ := documentTokens_spec settings xml html
  obtain ⟨plain, pieces, apportions, -⟩ := exists_apportions strict body line ""
  rw [← split] at apportions
  exact ⟨plain, pieces, apportions, by rw [report]; exact apportions.output⟩

theorem mend_apportions_table :
    ({} : Settings).strict = false ∧ ∃ plain pieces,
      Apportions {} (documentTokens false "<table><td>a</table>") plain pieces ∧
      (mend {} false (.whole "<table><td>a</table>")).text =
        textOf (pieces.flatMap Piece.fragments) :=
  ⟨rfl, mend_apportions rfl false "<table><td>a</table>"⟩

end HtmlMend.Page
