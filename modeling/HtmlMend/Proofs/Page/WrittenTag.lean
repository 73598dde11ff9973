import HtmlMend.Proofs.Markup.Source
import HtmlMend.Proofs.Page.Conservation

/-! # Pages: a start tag in writing is read again

A start tag that is written for a name and attributes is a document that is one start tag, with that
name and those attributes (`writeStartTag_read`). What is written for a character of a value is read
as that character, but for the reference to the quote around the value, which is not among those
that are read (`readReferences_escape`). So a value stays as it is unless both quotes are in it. -/

namespace HtmlMend

namespace Markup

/-! ### Values between quotes -/

/-- A character of a value as it is read: the quote around the value stays a reference. -/
def quoteOnly (quote : Quote) (c : Char) : List Char :=
  if c = quote.char then quote.reference else [c]

theorem readReferences_quote (quote : Quote) (rest : List Char) :
    readReferences (quote.reference ++ rest) = quote.reference ++ readReferences rest := by
  have begins : ∀ (r : Reference) tail, quote.reference ++ rest ≠ r.stem ++ ';' :: tail := by
    intro r tail
    cases quote <;> cases r <;> simp [Quote.reference, Reference.stem]
  have later : '&' ∉ quote.reference.tail := by cases quote <;> decide
  have split : quote.reference = '&' :: quote.reference.tail := by cases quote <;> rfl
  rw [split, List.cons_append] at begins ⊢
  rw [readReferences_cons begins, readReferences_append_of_ampersand later, List.cons_append]

/-- What is written for a character is read as that character. -/
theorem readReferences_escapeChar (quote : Quote) (c : Char) (rest : List Char) :
    readReferences (escapeChar quote false c ++ rest) =
      quoteOnly quote c ++ readReferences rest := by
  rw [escapeChar, quoteOnly]
  split
  · exact readReferences_quote quote rest
  · rw [if_neg (by simp)]
    by_cases ampersand : c = '&'
    · subst ampersand
      exact readReferences_stem .ampersand rest
    by_cases less : c = '<'
    · subst less
      exact readReferences_stem .less rest
    by_cases greater : c = '>'
    · subst greater
      exact readReferences_stem .greater rest
    rw [if_neg ampersand, if_neg less, if_neg greater]
    exact readReferences_cons_of_ne ampersand rest

/-- **A value that is written between quotes** is read as it is, but for the quote. -/
theorem readReferences_escape (quote : Quote) : ∀ cs : List Char,
    readReferences (cs.flatMap (escapeChar quote false)) = cs.flatMap (quoteOnly quote)
  | [] => rfl
  | c :: cs => by
    rw [List.flatMap_cons, readReferences_escapeChar, readReferences_escape quote cs,
      List.flatMap_cons]

theorem flatMap_quoteOnly_of_not_mem {quote : Quote} {cs : List Char} (absent : quote.char ∉ cs) :
    cs.flatMap (quoteOnly quote) = cs := by
  induction cs with
  | nil => rfl
  | cons c cs ih =>
    rw [List.mem_cons, not_or] at absent
    rw [List.flatMap_cons, quoteOnly, if_neg (Ne.symm absent.1), ih absent.2]
    rfl

/-- A value as it is read once it is written: with a reference in place of each double quote if both
quotes are in it. -/
def reread (value : String) : String :=
  if '"' ∈ value.toList ∧ '\'' ∈ value.toList then
    String.ofList (value.toList.flatMap fun c => if c = '"' then "&quot;".toList else [c])
  else value

/-- **What is written for a value** is read as the value, unless both quotes are in it. -/
theorem decode_escape (value : String) :
    decode (escape (Quote.choose value) false value) = reread value := by
  rw [escape, decode_eq, String.toList_ofList, readReferences_escape, reread]
  have plain {quote : Quote} (absent : quote.char ∉ value.toList) :
      String.ofList (value.toList.flatMap (quoteOnly quote)) = value := by
    rw [flatMap_quoteOnly_of_not_mem absent, String.ofList_toList]
  by_cases double : '"' ∈ value.toList
  · by_cases single : '\'' ∈ value.toList
    · have chosen : Quote.choose value = .double := by simp [Quote.choose, single]
      rw [if_pos ⟨double, single⟩, chosen]
      rfl
    · have chosen : Quote.choose value = .single := by simp [Quote.choose, double, single]
      rw [if_neg fun both => single both.2, chosen]
      exact plain single
  · have chosen : Quote.choose value = .double := by simp [Quote.choose, double]
    rw [if_neg fun both => double both.1, chosen]
    exact plain double

end Markup

namespace Page

open Markup

/-- **A start tag in writing is read again**, with its name and its attributes in order. Its names
have to be names, in lower case. -/
theorem writeStartTag_read {xml : Bool} {name : String} {attrs : Attributes}
    (isName : IsTagName name.toList) (low : Text.lower name = name)
    (areNames : ∀ n ∈ attrs.names, IsAttributeName xml n.toList)
    (areLow : ∀ n ∈ attrs.names, Text.lower n = n) :
    ∃ tag last, documentTokens xml (writeStartTag false name attrs) =
        [.startTag tag, .endOfInput last ""] ∧
      tag.name = name ∧ tag.selfClosing = false ∧
      tag.attrs.toList = attrs.toList.map fun e => (e.1, e.2.map reread) := by
  have valid : (WrittenTag.ofStart false name attrs).Valid xml :=
    WrittenTag.valid_ofStart isName areNames
  have text : writeStartTag false name attrs =
      String.ofList (WrittenTag.ofStart false name attrs).raw := by
    rw [WrittenTag.raw_ofStart, String.ofList_toList]
  have key : (WrittenTag.ofStart false name attrs).key = name := by
    rw [WrittenTag.key, WrittenTag.ofStart, String.ofList_toList, low]
  rw [text]
  refine ⟨_, _, documentTokens_startTag valid, key, rfl, ?_⟩
  change (WrittenTag.ofStart false name attrs).openTag.attrs.toList = _
  rw [WrittenTag.attrs_ofStart areLow]
  simp only [decode_escape]

/-- A tag with a name of XML, with a value that looks like a reference, and with one that has both
quotes in it. -/
theorem writeStartTag_read_quotes :
    let attrs : Attributes :=
      .ofList [("x:y", some "&lt;'<\"&amp"), ("hidden", none), ("z", some "\"")]
    (IsTagName "a".toList ∧ Text.lower "a" = "a" ∧
      (∀ n ∈ attrs.names, IsAttributeName true n.toList) ∧ ∀ n ∈ attrs.names, Text.lower n = n) ∧
    ∃ tag last, documentTokens true (writeStartTag false "a" attrs) =
        [.startTag tag, .endOfInput last ""] ∧
      tag.name = "a" ∧ tag.selfClosing = false ∧
      tag.attrs.toList = attrs.toList.map fun e => (e.1, e.2.map reread) := by
  intro attrs
  have isName : IsTagName "a".toList := by decide +kernel
  have low : Text.lower "a" = "a" := by decide
  have areNames : ∀ n ∈ attrs.names, IsAttributeName true n.toList := by
    have names : attrs.names = ["x:y", "hidden", "z"] := by decide
    have chars : ∀ c ∈ ['x', ':', 'y'], isNameChar c = true ∨ c = ':' := by
      intro c mem
      simp only [List.mem_cons, List.not_mem_nil, or_false] at mem
      rcases mem with rfl | rfl | rfl <;> decide
    have colon : IsAttributeName true "x:y".toList :=
      ⟨⟨'x', _, rfl, by decide⟩, chars, fun _ => .inl rfl⟩
    intro n mem
    rw [names] at mem
    simp only [List.mem_cons, List.not_mem_nil, or_false] at mem
    rcases mem with rfl | rfl | rfl
    · exact colon
    · exact IsTagName.isAttributeName (by decide +kernel)
    · exact IsTagName.isAttributeName (by decide +kernel)
  have areLow : ∀ n ∈ attrs.names, Text.lower n = n := by decide +kernel
  exact ⟨⟨isName, low, areNames, areLow⟩, writeStartTag_read isName low areNames areLow⟩

end Page

end HtmlMend
