import HtmlMend.Proofs.Markup.Front
import HtmlMend.Proofs.Markup.Grammar
import HtmlMend.Proofs.Text.Lowercase

/-! # Markup: scripts

Within a script a scanner tries every `<` as the beginning of the end tag, and goes on with text
where that breaks off, however much of it was there (`</scr`, `</scriptx`, `</script <`). It finds
the first end tag of the text nonetheless (`EndsFirst`): what breaks off has no second `<` in it
(`BreaksOff.no_markup`), and no end tag begins at its first (`append_ne_of_breaksOff`). What comes
before the end tag is text, and what comes after it is scanned alone (`readsScript_scan`). -/

namespace HtmlMend.Markup

open Input

/-! ### End tags of scripts -/

/-- The name of a script. -/
def scriptName : List Char := ['s', 'c', 'r', 'i', 'p', 't']

/-- A text is the end tag of a script: its name in any case, and spaces. -/
def IsScriptEnd (raw : List Char) : Prop :=
  ∃ name sp, raw = '<' :: '/' :: (name ++ sp ++ ['>']) ∧ name.map Char.toLower = scriptName ∧
    AllSpaces sp

/-- The first end tag of a script in a text. -/
structure EndsFirst (text body ending rest : List Char) : Prop where
  split : text = body ++ ending ++ rest
  isEnd : IsScriptEnd ending
  first : ∀ body' ending' rest', text = body' ++ ending' ++ rest' → IsScriptEnd ending' →
    body.length ≤ body'.length

/-- There is no end tag of a script in a text. -/
def HasNoEnd (text : List Char) : Prop :=
  ∀ body ending rest, text = body ++ ending ++ rest → ¬IsScriptEnd ending

theorem isOwnForm_of_mem_scriptName {d : Char} (mem : d ∈ scriptName) : Text.IsOwnForm d := by
  have all : scriptName.all (fun d => decide (Text.IsOwnForm d)) = true := by decide +kernel
  exact of_decide_eq_true (List.all_eq_true.mp all d mem)

theorem lower_eq_script_iff {name : List Char} :
    Text.lower (String.ofList name) = "script" ↔ name.map Char.toLower = scriptName := by
  rw [← String.toList_inj, Text.toList_lower, String.toList_ofList]
  exact Text.lowerAfter_eq_iff fun d => isOwnForm_of_mem_scriptName

theorem isNameStart_of_toLower_mem : ∀ n < 0x80, (Char.ofNat n).toLower ∈ scriptName →
    isNameStart (Char.ofNat n) = true := by decide +kernel

theorem isTagName_of_script {name : List Char} (script : name.map Char.toLower = scriptName) :
    IsTagName name := by
  have starts : ∀ c ∈ name, isNameStart c = true := by
    intro c mem
    have lower : c.toLower ∈ scriptName := script ▸ List.mem_map_of_mem mem
    have ascii : c.toNat < 0x80 := by
      refine Nat.lt_of_not_le fun beyond => ?_
      rw [Text.toLower_of_beyond beyond] at lower
      exact absurd (isOwnForm_of_mem_scriptName lower).1 (by omega)
    have start := isNameStart_of_toLower_mem c.toNat ascii
    rw [Char.ofNat_toNat] at start
    exact start lower
  refine ⟨?_, fun c mem => isNameChar_of_isNameStart (starts c mem)⟩
  cases name with
  | nil => cases script
  | cons c cs => exact ⟨c, cs, rfl, starts c (by simp)⟩

/-- **In a script the only construct is its end tag.** -/
theorem completes_script_iff {xml : Bool} {raw : List Char} {k : Construct} :
    Completes xml true raw k ↔ k = .endTag "script" ∧ IsScriptEnd raw := by
  constructor
  · intro completes
    cases completes.form with
    | endTag name sp isName spaces script =>
      have named := script rfl
      exact ⟨by rw [named], name, sp, rfl, lower_eq_script_iff.mp named, spaces⟩
    | startTag _ _ script | comment _ _ script | doctype _ _ _ script | cdata _ _ script
    | xmlDeclaration _ _ script => cases script
  · rintro ⟨rfl, name, sp, rfl, script, spaces⟩
    have named := lower_eq_script_iff.mpr script
    have completes : Completes xml true _ _ :=
      completes_endTag (isTagName_of_script script) spaces fun _ => named
    rwa [named] at completes

theorem IsScriptEnd.head? {raw : List Char} (h : IsScriptEnd raw) : raw.head? = some '<' := by
  obtain ⟨name, sp, rfl, -⟩ := h
  rfl

/-! ### What breaks off in a script -/

/-- What is read of a construct in a script has no second `<` in it. -/
theorem InConstruct.no_markup {xml : Bool} {u : Unfinished} {read : List Char}
    (h : InConstruct xml true u read) : ∃ cs, read = '<' :: cs ∧ '<' ∉ cs := by
  have notName : ∀ {name : List Char}, IsTagName name → '<' ∉ name := fun isName mem =>
    absurd (isName.chars '<' mem) (by decide)
  cases h with
  | begun => exact ⟨[], rfl, by simp⟩
  | endTagBegun => exact ⟨['/'], rfl, by decide⟩
  | endTagName name isName => exact ⟨_, rfl, by simp [notName isName]⟩
  | afterEndTagName name sp isName spaces script =>
    have notSpace : '<' ∉ sp := fun mem => absurd (spaces '<' mem) (by decide)
    exact ⟨_, rfl, by simp [notName isName, notSpace]⟩
  | tagName _ _ script | tag _ _ script _ | declarationBegun script | commentBegun script
  | comment _ _ script | cdataBegun _ _ _ script | cdata _ _ script | doctype _ _ script
  | xmlBegun _ _ _ script | declaration script _ => cases script

theorem BreaksOff.no_markup {xml : Bool} {raw : List Char} {look : Option Char}
    (h : BreaksOff xml true raw look) : ∃ cs, raw = '<' :: cs ∧ '<' ∉ cs := by
  obtain ⟨body, u, rfl, fed, -⟩ := h
  have within := Unfinished.feed_keeps (P := InConstruct xml true) (fun h => h.next_more) .begun fed
  exact within.no_markup

/-- **No construct begins where one breaks off.** -/
theorem append_ne_of_breaksOff {xml inScript : Bool} {raw whole rest more : List Char}
    {k : Construct} (breaks : BreaksOff xml inScript raw rest.head?)
    (completes : Completes xml inScript whole k) : raw ++ rest ≠ whole ++ more := by
  obtain ⟨body, u, rfl, fed, stops⟩ := breaks
  obtain ⟨body', c, v, rfl, fed', done⟩ := completes
  intro same
  have same : body ++ rest = body' ++ c :: more := by simpa using same
  -- A construct that breaks off before a character is not read further with it.
  have stuck : ∀ as, rest = as ++ c :: more → body' = body ++ as → False := by
    rintro as rfl rfl
    rw [Unfinished.feed_append, fed, Option.bind_some] at fed'
    cases as with
    | nil =>
      obtain rfl : u = v := Option.some.inj fed'
      rw [List.append_nil] at done
      cases done.symm.trans stops
    | cons d as =>
      have broken : u.next xml inScript (String.ofList (['<'] ++ body)) d = .broken := stops
      rw [Unfinished.feed, broken] at fed'
      cases fed'
  rcases append_eq_append_cons same with ⟨as, within, after⟩ | ⟨after, within, -⟩
  · exact stuck as after within
  · -- A construct that is complete is not read further at all.
    rw [within, Unfinished.feed_append, fed', Option.bind_some] at fed
    have done : v.next xml inScript (String.ofList (['<'] ++ body')) c = .done k := done
    rw [Unfinished.feed, done] at fed
    cases fed

/-! ### The passages of a script -/

/-- A passage is text, and all of it is data. -/
def Passage.IsVerbatim (p : Passage) : Prop :=
  ∃ opening chars, p = .text opening chars ∧ opening.shown = opening.raw

theorem Passage.Valid.script_cases {xml : Bool} {rest : List Char} : ∀ {p : Passage},
    p.Valid xml true rest →
    (∃ raw, p = .markup (.endTag "script") raw ∧ IsScriptEnd raw) ∨ p.IsVerbatim
  | .markup k raw, ⟨completes, _⟩ => by
    obtain ⟨rfl, isEnd⟩ := completes_script_iff.mp completes
    exact .inl ⟨raw, rfl, isEnd⟩
  | .text .plain chars, _ => .inr ⟨_, _, rfl, rfl⟩
  | .text (.broken raw) chars, _ => .inr ⟨_, _, rfl, rfl⟩
  | .text (.silent k raw) chars, ⟨⟨completes, silent⟩, _⟩ => by
    obtain ⟨rfl, -⟩ := completes_script_iff.mp completes
    cases silent

/-- **No end tag of a script begins within a text** in a script. -/
theorem Passage.Valid.length_le {xml : Bool} {rest : List Char} {p : Passage}
    (valid : p.Valid xml true rest) (shown : p.IsVerbatim) {body ending more : List Char}
    (split : p.raw ++ rest = body ++ ending ++ more) (isEnd : IsScriptEnd ending) :
    p.raw.length ≤ body.length := by
  obtain ⟨opening, chars, rfl, own⟩ := shown
  obtain ⟨opens, isLine, -⟩ := valid
  obtain ⟨tag, rfl⟩ := List.head?_eq_some_iff.mp isEnd.head?
  have split : raw (.text opening chars) ++ rest = body ++ '<' :: (tag ++ more) := by
    simpa using split
  rcases append_eq_append_cons split with ⟨between, rfl, -⟩ | ⟨after, within, rest_eq⟩
  · simp
  exfalso
  cases opening with
  | plain =>
    have mem : '<' ∈ chars := by
      rw [show chars = body ++ '<' :: after from within]
      simp
    exact isLine.no_markup mem
  | silent k raw =>
    obtain ⟨completes, silent⟩ := opens
    obtain ⟨rfl, -⟩ := completes_script_iff.mp completes
    cases silent
  | broken raw =>
    have breaks : BreaksOff xml true raw (chars ++ rest).head? := opens
    obtain ⟨cs, rfl, clean⟩ := breaks.no_markup
    have within : '<' :: (cs ++ chars) = body ++ '<' :: after := within
    cases body with
    | nil =>
      have completes : Completes xml true _ (.endTag "script") :=
        completes_script_iff.mpr ⟨rfl, isEnd⟩
      exact append_ne_of_breaksOff breaks completes
        (by simpa [Passage.raw, Opening.raw] using split)
    | cons c body =>
      obtain ⟨-, within⟩ := List.cons_eq_cons.mp within
      have mem : '<' ∈ cs ++ chars := by simp [within]
      rcases List.mem_append.mp mem with mem | mem
      · exact clean mem
      · exact isLine.no_markup mem

theorem exists_of_length_le {front text body ending rest : List Char}
    (split : front ++ text = body ++ ending ++ rest) (le : front.length ≤ body.length) :
    ∃ later, body = front ++ later ∧ text = later ++ ending ++ rest := by
  rw [List.append_assoc] at split
  have begins : body <+: front ++ text := ⟨ending ++ rest, split.symm⟩
  obtain ⟨later, rfl⟩ := List.prefix_of_prefix_length_le (List.prefix_append front text) begins le
  rw [List.append_assoc] at split
  exact ⟨later, rfl, by rw [List.append_cancel_left split, List.append_assoc]⟩

section Cons
variable {front text body ending rest : List Char}
  (within : ∀ body ending rest, front ++ text = body ++ ending ++ rest → IsScriptEnd ending →
    front.length ≤ body.length)
include within

/-- The first end tag of a script, after one more text. -/
theorem EndsFirst.cons (h : EndsFirst text body ending rest) :
    EndsFirst (front ++ text) (front ++ body) ending rest where
  split := by rw [h.split, List.append_assoc, List.append_assoc, List.append_assoc]
  isEnd := h.isEnd
  first body' ending' rest' split isEnd := by
    obtain ⟨later, rfl, split'⟩ := exists_of_length_le split (within _ _ _ split isEnd)
    have := h.first later ending' rest' split' isEnd
    rw [List.length_append, List.length_append]
    omega

theorem HasNoEnd.cons (h : HasNoEnd text) : HasNoEnd (front ++ text) := by
  intro body' ending' rest' split isEnd
  obtain ⟨later, -, split'⟩ := exists_of_length_le split (within _ _ _ split isEnd)
  exact h later ending' rest' split' isEnd

end Cons

/-- **The passages of a script** are text up to its first end tag. -/
theorem Cut.script_cases : ∀ {ps : List Passage} {xml : Bool}, Cut xml true ps →
    (∃ texts ending back, ps = texts ++ .markup (.endTag "script") ending :: back ∧
      (∀ p ∈ texts, p.IsVerbatim) ∧ EndsFirst (rawOf ps) (rawOf texts) ending (rawOf back)) ∨
    (∀ p ∈ ps, p.IsVerbatim) ∧ HasNoEnd (rawOf ps)
  | [], _, _ => by
    refine .inr ⟨by simp, fun body ending rest split isEnd => ?_⟩
    obtain ⟨tag, rfl⟩ := List.head?_eq_some_iff.mp isEnd.head?
    simp at split
  | p :: ps, xml, ⟨valid, cut⟩ => by
    rcases valid.script_cases with ⟨raw, rfl, isEnd⟩ | shown
    · exact .inl ⟨[], raw, ps, rfl, by simp, rfl, isEnd, fun _ _ _ _ _ => Nat.zero_le _⟩
    have within : ∀ body ending rest, p.raw ++ rawOf ps = body ++ ending ++ rest →
        IsScriptEnd ending → p.raw.length ≤ body.length :=
      fun _ _ _ split isEnd => valid.length_le shown split isEnd
    have inside : p.scriptAfter true = true := by
      obtain ⟨opening, chars, rfl, -⟩ := shown
      rfl
    rw [inside] at cut
    rcases cut.script_cases with ⟨texts, ending, back, rfl, all, first⟩ | ⟨all, none⟩
    · exact .inl ⟨p :: texts, ending, back, rfl, List.forall_mem_cons.mpr ⟨shown, all⟩,
        .cons within first⟩
    · exact .inr ⟨List.forall_mem_cons.mpr ⟨shown, all⟩, .cons within none⟩

/-! ### The tokens of a script -/

/-- Tokens of text, each with its text and the line on which it begins. -/
def textTokens (pieces : List (String × Nat)) : List Token :=
  pieces.map fun piece => .text piece.1 (some piece.2) piece.1

theorem exists_textTokens : ∀ {texts : List Passage} (line : Nat), (∀ p ∈ texts, p.IsVerbatim) →
    scriptAfterAll true texts = true ∧ ∃ pieces, frontTokens true line texts = textTokens pieces ∧
      String.join (pieces.map Prod.fst) = String.ofList (rawOf texts)
  | [], _, _ => ⟨rfl, [], rfl, rfl⟩
  | p :: texts, line, shown => by
    obtain ⟨⟨opening, chars, rfl, own⟩, rest⟩ := List.forall_mem_cons.mp shown
    obtain ⟨inside, pieces, tokens, joined⟩ :=
      exists_textTokens (line + (Passage.text opening chars).raw.count '\n') rest
    refine ⟨inside, (String.ofList (opening.raw ++ chars), line + opening.raw.count '\n') :: pieces,
      ?_, ?_⟩
    · have noReport : opening.report? true (line + opening.raw.count '\n') = none := by
        cases opening <;> rfl
      rw [frontTokens, Passage.scriptAfter, tokens, Passage.tokens, own, noReport]
      rfl
    · rw [List.map_cons, String.join_cons, joined, rawOf_cons, Passage.raw, ← String.ofList_append]

/-- How the text after the start tag of a script is scanned, which is the end of `front`. If there
is an end tag of a script in it, what comes before the first one is passed on as text, then that end
tag, and what comes after it is scanned alone. Else all is passed on as text. -/
inductive ReadsScript (s : Scanner) (front text : List Char) (tokens : List Token) : Prop
  | ended (body ending rest : List Char) (first : EndsFirst text body ending rest)
    (pieces : List (String × Nat)) (joined : String.join (pieces.map Prod.fst) = String.ofList body)
    (passed : tokens = textTokens pieces ++
      .endTag ⟨"script", some ↑(1 + (front ++ body).count '\n'), String.ofList ending⟩ ::
        scannedAfter s (front ++ body ++ ending) rest)
  | endless (none : HasNoEnd text)
    (pieces : List (String × Nat)) (joined : String.join (pieces.map Prod.fst) = String.ofList text)
    (passed : tokens = textTokens pieces ++
      [.endOfInput (some ↑(1 + (front ++ text).count '\n')) ""])

/-- The passages of a script leave text, and then its end tag or the end of the input. -/
theorem readsScript_tokensOf (s : Scanner) {lead back : List Passage}
    (cut : Cut s.xmlFirst false (lead ++ back)) (inside : scriptAfterAll false lead = true) :
    ReadsScript s (rawOf lead) (rawOf back)
      (tokensOf true (1 + (rawOf lead).count '\n') back) := by
  have backCut := Cut.back back lead cut
  rw [inside] at backCut
  rcases backCut.script_cases with ⟨texts, ending, rest, rfl, shown, first⟩ | ⟨shown, none⟩
  · obtain ⟨script, pieces, tokens, joined⟩ :=
      exists_textTokens (1 + (rawOf lead).count '\n') shown
    refine .ended _ _ _ first pieces joined ?_
    -- The end tag is the end of a front of the whole document.
    rw [← List.append_assoc, List.append_cons] at cut
    have outside : scriptAfterAll false (lead ++ texts ++ [.markup (.endTag "script") ending]) =
        false := scriptAfterAll_append ..
    have alone := tokensOf_back s cut outside
    have chars : rawOf (lead ++ texts ++ [.markup (.endTag "script") ending]) =
        rawOf lead ++ rawOf texts ++ ending := by simp [rawOf_append, Passage.raw]
    rw [chars] at alone
    rw [tokensOf_append, tokens, script, ← alone, tokensOf]
    simp [Passage.tokens, Construct.token?, Passage.scriptAfter, Construct.scriptAfter, Passage.raw,
      Nat.add_assoc]
  · obtain ⟨script, pieces, tokens, joined⟩ :=
      exists_textTokens (1 + (rawOf lead).count '\n') shown
    refine .endless none pieces joined ?_
    have whole := tokensOf_append [] back true (1 + (rawOf lead).count '\n')
    rw [List.append_nil, tokens, Nat.add_assoc, ← List.count_append] at whole
    exact whole

/-- **How scripts are scanned**, wherever the start tag of one is passed on in a scan of a stream
that does not fail. -/
theorem readsScript_scan {s : Scanner} {stream : Stream} (delivered : stream.failure? = none)
    {before after : List Token} {tag : StartTag}
    (split : (s.scan (.ofStream stream)).tokens.toList = before ++ .startTag tag :: after)
    (script : tag.name = "script") : ∃ front text, stream.chars = front ++ text ∧
      rawsOf (before ++ [.startTag tag]) = String.ofList front ∧ ReadsScript s front text after := by
  obtain ⟨ps, cut, raws⟩ := exists_cut s.xmlFirst false stream.chars
  rw [(Scanner.tokens_scan cut raws.symm delivered).1] at split
  obtain ⟨lead, k, raw, back, rfl, rfl, leaves, rfl⟩ := exists_passage_of_construct rfl split
  obtain ⟨isScript, own⟩ : (∀ inScript, k.scriptAfter inScript = true) ∧
      tag.raw = String.ofList raw := by
    cases k with
    | startTag name =>
      obtain rfl := Token.startTag.inj (Option.some.inj leaves)
      exact ⟨fun inScript => by simpa [Construct.scriptAfter] using .inr script, rfl⟩
    | _ => cases leaves
  have chars : rawOf (lead ++ [.markup k raw]) = rawOf lead ++ raw := by
    simp [rawOf_append, Passage.raw]
  refine ⟨rawOf lead ++ raw, rawOf back, by simp [← raws, rawOf_append, Passage.raw], ?_, ?_⟩
  · rw [rawsOf_append, rawsOf_frontTokens _ lead _ cut, String.ofList_append, ← own]
    simp [rawsOf, Token.isReport, Token.raw]
  · rw [List.append_cons] at cut
    have inside : scriptAfterAll false (lead ++ [.markup k raw]) = true := by
      rw [scriptAfterAll_append]
      exact isScript _
    have reads := readsScript_tokensOf s cut inside
    rwa [chars, ← isScript (scriptAfterAll false lead)] at reads

theorem readsScript_scan_broken :
    let stream : Stream := .whole "<script>a\n</scrip</SCRIPT >b"
    let tag : StartTag := { name := "script", line := some 1, raw := "<script>" }
    let after : List Token := [.text "a\n" (some 1) "a\n", .text "</scrip" (some 2) "</scrip",
      .endTag ⟨"script", some 2, "</SCRIPT >"⟩, .text "b" (some 2) "b", .endOfInput (some 2) ""]
    stream.failure? = none ∧
      ((Scanner.new false).scan (.ofStream stream)).tokens.toList = [] ++ .startTag tag :: after ∧
      tag.name = "script" ∧ ∃ front text, stream.chars = front ++ text ∧
        rawsOf ([] ++ [.startTag tag]) = String.ofList front ∧
        ReadsScript (.new false) front text after := by
  intro stream tag after
  have delivered : stream.failure? = none := Stream.failure?_whole _
  have split : ((Scanner.new false).scan (.ofStream stream)).tokens.toList =
      [] ++ .startTag tag :: after := by decide +kernel
  exact ⟨delivered, split, rfl, readsScript_scan delivered split rfl⟩

end HtmlMend.Markup
